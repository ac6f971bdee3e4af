import Dipper.Vm.StateObject
import Dipper.Lib.StateExcept

/-!
# The `CommitStateDB` API

The setters and getters of `statedb.go` and the `stateObject` methods they
call, in the `SDB` monad. A journalled object method takes the live object,
writes its new value back under its address (in Go it mutates the entry of the
live map in place) and returns it; every mutation appends its journal entry
before it changes anything, as the source does.
-/

namespace Dipper

open StateObject

namespace CommitStateDB

/-- A Go panic. -/
def goPanic {α : Type} (msg : String) : SDB α := throw msg

/-- The panic of a method called on a nil `*stateObject`. -/
def nilDeref {α : Type} : Option α → SDB α
  | some a => pure a
  | none => goPanic "runtime error: invalid memory address or nil pointer dereference"

def liftE {α : Type} (e : Except String α) : SDB α := StateT.lift e

/-- `journal.append`. -/
def appendJournal (e : JournalEntry) : SDB Unit :=
  modify fun s => { s with journal := s.journal.append e }

def setStateObject (so : StateObject) : SDB Unit := modify (·.putObject so)

/-- `getStateObject`: the live object, unless deleted; otherwise the stored account,
loaded into the live set. -/
def getStateObject (addr : Address) : SDB (Option StateObject) := do
  let s ← get
  match s.stateObjects.lookup addr with
  | some so => return if so.deleted then none else some so
  | none =>
    match s.ctx.auth.GetAccount addr with
    | none => return none
    | some acc =>
      let so ← liftE (newObject acc)
      setStateObject so
      return some so

end CommitStateDB

namespace StateObject

open CommitStateDB

def touch (so : StateObject) : SDB Unit := appendJournal (.touchChange so.address)

def SetBalance (so : StateObject) (amount : Int) : SDB StateObject := do
  let amt ← liftE (NewIntFromBigInt amount)
  appendJournal (.balanceChange so.address so.account.Balance)
  let so ← liftE (so.setBalance amt)
  setStateObject so
  return so

/-- `stateObject.AddBalance`: a zero amount only touches an empty object (EIP-158). -/
def AddBalance (so : StateObject) (amount : Int) : SDB StateObject := do
  let amt ← liftE (NewIntFromBigInt amount)
  if amt = 0 then
    if so.empty then so.touch
    return so
  so.SetBalance (← liftE (IntAdd so.account.Balance amt))

def SubBalance (so : StateObject) (amount : Int) : SDB StateObject := do
  let amt ← liftE (NewIntFromBigInt amount)
  if amt = 0 then return so
  so.SetBalance (← liftE (IntSub so.account.Balance amt))

def SetNonce (so : StateObject) (nonce : Nat) : SDB StateObject := do
  appendJournal (.nonceChange so.address so.account.sequence)
  let so := so.setNonce nonce
  setStateObject so
  return so

/-- `stateObject.Code`: the cached code, else the code stored under the code hash,
which is then cached (an absent code stays nil). -/
def Code (so : StateObject) : SDB (Option Bytes × StateObject) := do
  match so.code with
  | some c => return (some c, so)
  | none =>
    if so.account.codeHash = [] then return (none, so)
    let code := (← get).ctx.vm.codes.lookup so.account.codeHash
    let so := { so with code := code }
    setStateObject so
    return (code, so)

/-- `stateObject.SetCode`; the code is a Go slice, which may be nil. -/
def SetCode (so : StateObject) (codeHash : Hash) (code : Option Bytes) : SDB StateObject := do
  let (prevCode, so) ← so.Code
  appendJournal (.codeChange so.address prevCode so.account.codeHash)
  let so := so.setCode codeHash code
  setStateObject so
  return so

/-- `stateObject.GetCommittedState`: the cached original value, else the stored
slot, which is then cached. -/
def GetCommittedState (cr : Crypto) (so : StateObject) (key : Hash) : SDB (Hash × StateObject) := do
  let prefixKey := so.GetStorageByAddressKey cr key.toBytes
  match so.originStorage.lookup prefixKey with
  | some v => return (v, so)
  | none =>
    let value := (← get).ctx.storageAt so.address prefixKey
    let so := { so with originStorage := so.originStorage.insert prefixKey value }
    setStateObject so
    return (value, so)

def GetState (cr : Crypto) (so : StateObject) (key : Hash) : SDB (Hash × StateObject) := do
  match so.dirtyStorage.lookup (so.GetStorageByAddressKey cr key.toBytes) with
  | some v => return (v, so)
  | none => so.GetCommittedState cr key

/-- `stateObject.SetState`: an unchanged value is neither written nor journalled. -/
def SetState (cr : Crypto) (so : StateObject) (key value : Hash) : SDB StateObject := do
  let (prev, so) ← so.GetState cr key
  if prev = value then return so
  let prefixKey := so.GetStorageByAddressKey cr key.toBytes
  appendJournal (.storageChange so.address prefixKey prev)
  let so := so.setState prefixKey value
  setStateObject so
  return so

end StateObject

namespace CommitStateDB

/-- `createObject`: a fresh account (it takes the next account number) replaces
whatever lives at `addr`, and the journal records what it replaced. -/
def createObject (addr : Address) : SDB (StateObject × Option StateObject) := do
  let prevObj ← getStateObject addr
  let s ← get
  let (acc, auth) := s.ctx.auth.NewAccountWithAddress addr
  set { s with ctx := s.ctx.setAuth auth }
  let newObj := (← liftE (newObject ⟨acc, true⟩)).setNonce 0
  match prevObj with
  | none => appendJournal (.createObjectChange addr)
  | some prev => appendJournal (.resetObjectChange prev)
  setStateObject newObj
  return (newObj, prevObj)

def GetOrNewStateObject (addr : Address) : SDB StateObject := do
  match ← getStateObject addr with
  | some so => if so.deleted then return (← createObject addr).1 else return so
  | none => return (← createObject addr).1

def SetBalance (addr : Address) (amount : Int) : SDB Unit := do
  discard <| (← GetOrNewStateObject addr).SetBalance amount

def AddBalance (addr : Address) (amount : Int) : SDB Unit := do
  discard <| (← GetOrNewStateObject addr).AddBalance amount

def SubBalance (addr : Address) (amount : Int) : SDB Unit := do
  discard <| (← GetOrNewStateObject addr).SubBalance amount

def SetNonce (addr : Address) (nonce : Nat) : SDB Unit := do
  discard <| (← GetOrNewStateObject addr).SetNonce nonce

def SetState (cr : Crypto) (addr : Address) (key value : Hash) : SDB Unit := do
  discard <| (← GetOrNewStateObject addr).SetState cr key value

/-- `SetCode`: the code hash is the SHA-256 of the code (of no bytes for a nil slice). -/
def SetCode (cr : Crypto) (addr : Address) (code : Option Bytes) : SDB Unit := do
  discard <| (← GetOrNewStateObject addr).SetCode (BytesToHash (cr.sha256 (code.getD []))) code

/-- `AddLog`: the log takes the transaction's hash and index, the block hash and the
next value of the persisted log index. -/
def AddLog (log : Log) : SDB Unit := do
  appendJournal (.addLogChange (← get).thash)
  let s ← get
  let (index, ctx) := s.ctx.updateLogIndexByOne false
  let log := { log with txHash := s.thash, blockHash := s.bhash, txIndex := s.txIndex, index := index }
  set { s with ctx := ctx, logs := s.logs.insert s.thash ((s.logs.lookup s.thash).getD [] ++ [log]) }

def AddPreimage (hash : Hash) (preimage : Bytes) : SDB Unit := do
  let s ← get
  if (s.preimages.lookup hash).isNone then
    appendJournal (.addPreimageChange hash)
    modify fun s => { s with preimages := s.preimages.insert hash preimage }

/-- `AddRefund`: the refund counter is a wrapping `uint64`. -/
def AddRefund (gas : Nat) : SDB Unit := do
  appendJournal (.refundChange (← get).refund)
  modify fun s => { s with refund := u64 (s.refund + gas) }

def SubRefund (gas : Nat) : SDB Unit := do
  appendJournal (.refundChange (← get).refund)
  if gas > (← get).refund then goPanic "refund counter below zero"
  modify fun s => { s with refund := s.refund - gas }

def GetBalance (addr : Address) : SDB Int := do
  return match ← getStateObject addr with
    | some so => so.account.Balance
    | none => 0

def GetNonce (addr : Address) : SDB Nat := do
  return match ← getStateObject addr with
    | some so => so.account.sequence
    | none => 0

def GetCode (addr : Address) : SDB (Option Bytes) := do
  match ← getStateObject addr with
  | some so => return (← so.Code).1
  | none => return none

def GetCodeSize (addr : Address) : SDB Nat := do
  match ← getStateObject addr with
  | none => return 0
  | some so =>
    match so.code with
    | some c => return c.length
    | none => return ((← so.Code).1.getD []).length

def GetCodeHash (addr : Address) : SDB Hash := do
  return match ← getStateObject addr with
    | some so => BytesToHash so.account.codeHash
    | none => Hash.zero

def GetState (cr : Crypto) (addr : Address) (hash : Hash) : SDB Hash := do
  match ← getStateObject addr with
  | some so => return (← so.GetState cr hash).1
  | none => return Hash.zero

def GetCommittedState (cr : Crypto) (addr : Address) (hash : Hash) : SDB Hash := do
  match ← getStateObject addr with
  | some so => return (← so.GetCommittedState cr hash).1
  | none => return Hash.zero

def GetRefund : SDB Nat := return (← get).refund

def HasSuicided (addr : Address) : SDB Bool := do
  return match ← getStateObject addr with
    | some so => so.suicided
    | none => false

/-- `Empty`: absent, or empty in the sense of EIP-161. -/
def Empty (addr : Address) : SDB Bool := do
  return match ← getStateObject addr with
    | some so => so.empty
    | none => true

def Exist (addr : Address) : SDB Bool := do
  return (← getStateObject addr).isSome

/-- `Suicide`: marks the object and zeroes its native balance (a second journal entry). -/
def Suicide (addr : Address) : SDB Bool := do
  match ← getStateObject addr with
  | none => return false
  | some so =>
    let prevBalance ← liftE (NewIntFromBigInt so.account.Balance)
    appendJournal (.suicideChange addr so.suicided prevBalance)
    discard <| so.markSuicided.SetBalance 0
    return true

/-- `CreateAccount`: only the native balance of a replaced object carries over. -/
def CreateAccount (addr : Address) : SDB Unit := do
  let (newobj, prevobj) ← createObject addr
  match prevobj with
  | none => pure ()
  | some prev =>
    let amt ← liftE (NewIntFromBigInt prev.account.Balance)
    setStateObject (← liftE (newobj.setBalance amt))

/-! ### Reading back a nonce -/

open StateExcept

theorem newObject_eq_ok {acc : StoredAccount} {so : StateObject} (h : newObject acc = .ok so) :
    so.address = acc.base.address ∧ so.deleted = false ∧ so.account = acc.base := by
  unfold newObject at h
  split at h
  · cases h
    exact ⟨rfl, rfl, rfl⟩
  · cases h

theorem wp_getStateObject (s : CommitStateDB) (addr : Address) :
    wp (getStateObject addr) (fun o _ => ∀ so, o = some so → so.address = addr ∧ so.deleted = false)
      (fun _ => True) s := by
  unfold getStateObject
  simp only [wp_bind, wp_get]
  split
  · next so h =>
    simp only [wp_pure]
    intro so' hso'
    split at hso'
    · cases hso'
    · next hd =>
      cases hso'
      exact ⟨s.keyed addr so h, by simpa using hd⟩
  · split
    · simp
    · next acc hacc =>
      simp only [liftE, wp_bind, wp_lift]
      cases hso : newObject acc with
      | error e => trivial
      | ok so' =>
        obtain ⟨ha, hd, -⟩ := newObject_eq_ok hso
        simp only [setStateObject, wp_modify, wp_pure, Option.some.injEq]
        rintro so rfl
        exact ⟨ha.trans (s.ctx.auth.keyed addr acc hacc), hd⟩

theorem wp_createObject (s : CommitStateDB) (addr : Address) :
    wp (createObject addr) (fun r _ => r.1.address = addr ∧ r.1.deleted = false) (fun _ => True) s := by
  unfold createObject
  refine wp_bind_of_forall fun prevObj s₁ => ?_
  simp only [liftE, wp_bind, wp_get, wp_set, wp_lift, newObject, if_true]
  cases prevObj <;> simp [appendJournal, setStateObject, AuthStore.NewAccountWithAddress, setNonce]

theorem wp_GetOrNewStateObject (s : CommitStateDB) (addr : Address) :
    wp (GetOrNewStateObject addr) (fun so _ => so.address = addr ∧ so.deleted = false) (fun _ => True) s := by
  unfold GetOrNewStateObject
  rw [wp_bind]
  refine wp_mono (fun o s' ho => ?_) (fun _ h => h) (wp_getStateObject s addr)
  cases o with
  | none => simpa using wp_createObject s' addr
  | some so =>
    obtain ⟨ha, hd⟩ := ho so rfl
    simp [hd, ha]

theorem wp_SetNonce (s : CommitStateDB) (addr : Address) (n : Nat) :
    wp (SetNonce addr n) (fun _ s' => ∃ so, s'.stateObjects.lookup addr = some so ∧ so.deleted = false ∧
      so.account.sequence = n) (fun _ => True) s := by
  unfold SetNonce
  rw [wp_bind]
  refine wp_mono (fun so s' hso => ?_) (fun _ h => h) (wp_GetOrNewStateObject s addr)
  obtain ⟨ha, hd⟩ := hso
  simp [StateObject.SetNonce, discard, map_const, appendJournal, setStateObject, ha, hd, setNonce]

theorem GetNonce_of_lookup {s : CommitStateDB} {addr : Address} {so : StateObject}
    (h : s.stateObjects.lookup addr = some so) (hd : so.deleted = false) :
    (GetNonce addr).run s = .ok (so.account.sequence, s) := by
  change _ = pure (so.account.sequence, s)
  simp [GetNonce, getStateObject, h, hd]

theorem GetNonce_SetNonce {s s' : CommitStateDB} {addr : Address} {n : Nat}
    (h : (SetNonce addr n).run s = .ok ((), s')) : (GetNonce addr).run s' = .ok (n, s') := by
  obtain ⟨so, hso, hd, hn⟩ := wp_run_ok (wp_SetNonce s addr n) h
  rw [GetNonce_of_lookup hso hd, hn]

end CommitStateDB

end Dipper
