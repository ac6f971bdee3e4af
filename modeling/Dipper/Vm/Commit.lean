import Dipper.Vm.Journal

/-!
# Persisting the state database

`Finalise`, run after every successful transaction, and `Commit`, run by the vm
`EndBlocker`, write the live objects through the account keeper and the vm store
of the current context; `UpdateAccounts` reloads cached accounts from the auth
store before a transaction and at the end of the block. Go ranges over maps in no
fixed order; the loops here go through the keys in list order, and each iteration
touches only its own address.
-/

namespace Dipper

open CommitStateDB

namespace StateObject

/-- `stateObject.commitState`: every dirty slot that differs from its original
value becomes the original value and is written (a zero value deletes the key). -/
def commitState (so : StateObject) (st : Store) : StateObject × Store :=
  let step := fun (acc : AList (fun _ : Hash => Hash) × Store) (kv : Sigma fun _ : Hash => Hash) =>
    if kv.2 = (acc.1.lookup kv.1).getD Hash.zero then acc
    else (acc.1.insert kv.1 kv.2, acc.2.setStorage so.address kv.1 kv.2)
  let (origin, st) := so.dirtyStorage.entries.foldl step (so.originStorage, st)
  ({ so with originStorage := origin, dirtyStorage := ∅ }, st)

end StateObject

namespace CommitStateDB

/-- `updateStateObject`: the object's account is written to the auth store. -/
def updateStateObject (so : StateObject) : SDB Unit :=
  modify fun s => { s with ctx := s.ctx.setAuth (s.ctx.auth.SetAccount ⟨so.account, true⟩) }

/-- `deleteStateObject`: the object stays live, marked deleted, and its account is
removed from the auth store. -/
def deleteStateObject (so : StateObject) : SDB Unit := do
  setStateObject { so with deleted := true }
  modify fun s => { s with ctx := s.ctx.setAuth (s.ctx.auth.RemoveAccount so.account) }

def commitLogs : SDB Unit :=
  let setLogs := fun (st : Store) (kv : Sigma fun _ : Hash => List Log) =>
    { st with vm := { st.vm with logs := st.vm.logs.insert kv.1 kv.2 } }
  modify fun s => { s with ctx := s.logs.entries.foldl setLogs s.ctx }

def ClearLogs : SDB Unit := modify fun s => { s with logs := ∅ }

def clearJournalAndRefund : SDB Unit :=
  modify fun s => { s with journal := Journal.new, validRevisions := [], refund := 0,
                           revisionsOrdered := .nil s.nextRevisionID }

def finaliseObjects (deleteEmptyObjects : Bool) : List Address → SDB Unit
  | [] => pure ()
  | addr :: rest => do
    match (← get).stateObjects.lookup addr with
    | none => pure ()
    | some so =>
      if so.suicided || (deleteEmptyObjects && so.empty) then deleteStateObject so
      else
        let s ← get
        let (so, st) := so.commitState s.ctx
        set { s with ctx := st }
        setStateObject so
        updateStateObject so
      modify fun s => { s with stateObjectsDirty := s.stateObjectsDirty.insert addr }
    finaliseObjects deleteEmptyObjects rest

/-- `Finalise`: the journal's dirty objects are deleted or written, logs go to the
store, and the journal, the revisions and the refund counter are cleared. -/
def Finalise (deleteEmptyObjects : Bool) : SDB Unit := do
  finaliseObjects deleteEmptyObjects (← get).journal.dirties.keys
  commitLogs
  ClearLogs
  clearJournalAndRefund

def commitObjects (deleteEmptyObjects : Bool) : List Address → SDB Unit
  | [] => pure ()
  | addr :: rest => do
    let s ← get
    match s.stateObjects.lookup addr with
    | none => pure ()
    | some so =>
      let isDirty := decide (addr ∈ s.stateObjectsDirty)
      if so.suicided || (isDirty && deleteEmptyObjects && so.empty) then deleteStateObject so
      else if isDirty then
        -- `commitCode`: the code is stored under the account's raw code hash
        let so ← match so.code, so.dirtyCode with
          | some c, true => do
            modify fun s => { s with ctx := s.ctx.setCode so.account.codeHash c }
            pure { so with dirtyCode := false }
          | _, _ => pure so
        setStateObject so
        updateStateObject so
    modify fun s => { s with stateObjectsDirty := s.stateObjectsDirty.erase addr }
    commitObjects deleteEmptyObjects rest

/-- `Commit`: every live object is deleted, or written when dirty (code included);
storage is not written here. -/
def Commit (deleteEmptyObjects : Bool) : SDB Unit := do
  modify fun s => { s with stateObjectsDirty :=
    s.journal.dirties.keys.foldl (fun d a => d.insert a) s.stateObjectsDirty }
  commitObjects deleteEmptyObjects (← get).stateObjects.keys
  clearJournalAndRefund

/-- `sdk.AccAddressFromBech32(addr.String())` succeeds on the empty address and on
addresses of `AddrLen` bytes. -/
def AddrLen : Nat := 20

def parsesBack (addr : Address) : Bool := addr.isEmpty || addr.length == AddrLen

/-- `x != y` on two `*big.Int` values that `sdk.Int.BigInt` has just allocated: a
pointer comparison, never equal. -/
def freshPtrNe (_x _y : Int) : Bool := true

def updateAccountsAux : List Address → SDB Unit
  | [] => pure ()
  | addr :: rest => do
    let s ← get
    if parsesBack addr then
      match s.ctx.auth.GetAccount addr, s.stateObjects.lookup addr with
      | some acc, some so =>
        if acc.isBase && (freshPtrNe so.account.Balance (AmountOf acc.base.coins NativeTokenName) ||
            so.account.sequence != acc.base.sequence) then
          setStateObject { so with account := acc.base }
      | _, _ => pure ()
    updateAccountsAux rest

/-- `UpdateAccounts`: each cached object whose base account is in the store takes the
stored account. -/
def UpdateAccounts : SDB Unit := do updateAccountsAux (← get).stateObjects.keys

def ClearStateObjects : SDB Unit :=
  modify fun s => { s with stateObjects := ∅, keyed := fun _ _ h => by simp at h,
                           stateObjectsDirty := [] }

def WithContext (ctx : Store) : SDB Unit := modify fun s => { s with ctx := ctx }

def WithTxHash (txHash : Bytes) : SDB Unit := modify fun s => { s with thash := BytesToHash txHash }

def Prepare (thash bhash : Hash) (txi : Nat) : SDB Unit :=
  modify fun s => { s with thash := thash, bhash := bhash, txIndex := txi }

end CommitStateDB

end Dipper
