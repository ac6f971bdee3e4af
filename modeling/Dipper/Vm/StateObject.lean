import Dipper.Vm.Store

/-!
# State objects, the journal and the `CommitStateDB` record

A `stateObject` is the live copy of an account with its storage caches. The
`CommitStateDB` keeps them in a map keyed by address (every object under its own
address), together with the journal of undoable changes, the refund counter,
the uncommitted logs and preimages, and the context store it reads and writes.
Go panics are `Except String` errors; `SDB` is the state-passing monad of the
database's methods.
-/

namespace Dipper

/-- The hash functions of the `tendermint/crypto` and `x/crypto/sha3` packages. -/
structure Crypto where
  sha256 : Bytes → Bytes
  sha3_256 : Bytes → Bytes

/-- `types.stateObject` (its `dbErr` is never surfaced: `Commit` returns a nil error). -/
structure StateObject where
  address : Address
  account : BaseAccount
  code : Option Bytes
  originStorage : AList (fun _ : Hash => Hash)
  dirtyStorage : AList (fun _ : Hash => Hash)
  dirtyCode : Bool
  suicided : Bool
  deleted : Bool
  deriving DecidableEq

namespace StateObject

/-- `newObject`: panics unless the account's concrete type is `*BaseAccount`. -/
def newObject (acc : StoredAccount) : Except String StateObject :=
  if acc.isBase then .ok ⟨acc.base.address, acc.base, none, ∅, ∅, false, false, false⟩
  else .error "invalid account type for state object"

/-- `stateObject.empty` (EIP-161: zero nonce, zero native balance, no code hash). -/
def empty (so : StateObject) : Bool :=
  so.account.sequence == 0 && so.account.Balance == 0 && so.account.codeHash.length == 0

/-- `GetStorageByAddressKey`: the slot key hashed with the object's address. -/
def GetStorageByAddressKey (cr : Crypto) (so : StateObject) (key : Bytes) : Hash :=
  BytesToHash (cr.sha256 (so.address ++ key))

/-! The unjournalled setters: they change the object only. -/

def setBalance (so : StateObject) (amount : Int) : Except String StateObject :=
  (so.account.SetBalance amount).map fun acc => { so with account := acc }

def setNonce (so : StateObject) (nonce : Nat) : StateObject :=
  { so with account := { so.account with sequence := nonce } }

/-- `stateObject.setCode`: the hash is stored as its 32 bytes. -/
def setCode (so : StateObject) (codeHash : Hash) (code : Option Bytes) : StateObject :=
  { so with code := code, account := { so.account with codeHash := codeHash.toBytes },
            dirtyCode := true }

/-- `stateObject.setState`, on the hashed slot key. -/
def setState (so : StateObject) (key value : Hash) : StateObject :=
  { so with dirtyStorage := so.dirtyStorage.insert key value }

def markSuicided (so : StateObject) : StateObject := { so with suicided := true }

@[simp] theorem setNonce_address (so : StateObject) (n : Nat) : (so.setNonce n).address = so.address := rfl
@[simp] theorem setCode_address (so : StateObject) (h : Hash) (c : Option Bytes) :
    (so.setCode h c).address = so.address := by
  unfold setCode; rfl
@[simp] theorem setState_address (so : StateObject) (k v : Hash) :
    (so.setState k v).address = so.address := rfl
@[simp] theorem markSuicided_address (so : StateObject) : so.markSuicided.address = so.address := rfl

end StateObject

/-- The eleven `journalEntry` kinds of `changes.go`. -/
inductive JournalEntry
  | createObjectChange (account : Address)
  | resetObjectChange (prev : StateObject)
  | suicideChange (account : Address) (prev : Bool) (prevBalance : Int)
  | balanceChange (account : Address) (prev : Int)
  | nonceChange (account : Address) (prev : Nat)
  | storageChange (account : Address) (key prevValue : Hash)
  | codeChange (account : Address) (prevCode : Option Bytes) (prevHash : Bytes)
  | refundChange (prev : Nat)
  | addLogChange (txhash : Hash)
  | addPreimageChange (hash : Hash)
  | touchChange (account : Address)
  deriving DecidableEq

namespace JournalEntry

def dirtied : JournalEntry → Option Address
  | createObjectChange a | suicideChange a _ _ | balanceChange a _ | nonceChange a _
  | storageChange a _ _ | codeChange a _ _ | touchChange a => some a
  | resetObjectChange _ | refundChange _ | addLogChange _ | addPreimageChange _ => none

end JournalEntry

/-- `types.journal`: the entries and the count of entries per dirtied address. -/
structure Journal where
  entries : List JournalEntry
  dirties : AList (fun _ : Address => Int)

/-- `newJournal()`. -/
def Journal.new : Journal := ⟨[], ∅⟩

def Journal.append (j : Journal) (e : JournalEntry) : Journal where
  entries := j.entries ++ [e]
  dirties := match e.dirtied with
    | some a => j.dirties.insert a (((j.dirties.lookup a).getD 0) + 1)
    | none => j.dirties

structure Revision where
  id : Nat
  journalIndex : Nat
  deriving DecidableEq

/-- The ids of the valid revisions increase and stay below the next id to hand out,
which is what lets `RevertToSnapshot` binary-search them. -/
def RevisionsOrdered (rs : List Revision) (next : Nat) : Prop :=
  (rs.map Revision.id ++ [next]).Pairwise (· < ·)

namespace RevisionsOrdered

theorem nil (next : Nat) : RevisionsOrdered [] next := by simp [RevisionsOrdered]

theorem take {rs : List Revision} {next : Nat} (h : RevisionsOrdered rs next) (k : Nat) :
    RevisionsOrdered (rs.take k) next := by
  unfold RevisionsOrdered at *
  refine h.sublist ?_
  rw [List.map_take]
  exact (List.take_sublist _ _).append (List.Sublist.refl _)

theorem snapshot {rs : List Revision} {next : Nat} (h : RevisionsOrdered rs next) (j : Nat) :
    RevisionsOrdered (rs ++ [⟨next, j⟩]) (next + 1) := by
  unfold RevisionsOrdered at *
  have hlt : ∀ a ∈ rs.map Revision.id ++ [next], a < next + 1 := by
    intro a ha
    rcases List.mem_append.mp ha with ha | ha
    · have := List.pairwise_append.mp h
      have := this.2.2 a ha next (by simp)
      omega
    · simp at ha; omega
  simpa [List.map_append, List.append_assoc] using
    List.pairwise_append.mpr ⟨h, by simp, fun a ha b hb => by simp at hb; subst hb; exact hlt a ha⟩

theorem id_lt {rs : List Revision} {next : Nat} (h : RevisionsOrdered rs next)
    {i j : Nat} (hij : i < j) (hj : j < rs.length) :
    (rs.getD i ⟨0, 0⟩).id < (rs.getD j ⟨0, 0⟩).id := by
  unfold RevisionsOrdered at h
  have h' := (List.pairwise_append.mp h).1
  rw [List.pairwise_iff_getElem] at h'
  have := h' i j (by simp; omega) (by simp; omega) hij
  simp [List.getD_eq_getElem?_getD, List.getElem?_eq_getElem (show i < rs.length by omega),
    List.getElem?_eq_getElem hj] at this ⊢
  exact this

end RevisionsOrdered

/-- `types.CommitStateDB`; `ctx` is the store of the context it was last given. -/
structure CommitStateDB where
  ctx : Store
  stateObjects : AList (fun _ : Address => StateObject)
  keyed : ∀ a so, stateObjects.lookup a = some so → so.address = a
  stateObjectsDirty : List Address
  refund : Nat
  thash : Hash
  bhash : Hash
  txIndex : Nat
  logs : AList (fun _ : Hash => List Log)
  preimages : AList (fun _ : Hash => Bytes)
  journal : Journal
  validRevisions : List Revision
  nextRevisionID : Nat
  revisionsOrdered : RevisionsOrdered validRevisions nextRevisionID

abbrev SDB := StateT CommitStateDB (Except String)

namespace CommitStateDB

/-- `NewCommitStateDB` on a context store. -/
def new (ctx : Store) : CommitStateDB :=
  ⟨ctx, ∅, by simp, [], 0, Hash.zero, Hash.zero, 0, ∅, ∅, Journal.new, [], 0, .nil 0⟩

/-- Insert or replace the object at its own address (`setStateObject`). -/
def putObject (s : CommitStateDB) (so : StateObject) : CommitStateDB :=
  { s with
    stateObjects := s.stateObjects.insert so.address so
    keyed := fun a o h => by
      by_cases ha : a = so.address
      · subst ha; rw [AList.lookup_insert] at h; cases h; rfl
      · rw [AList.lookup_insert_ne ha] at h; exact s.keyed a o h }

/-- Remove the object at an address from the live set. -/
def dropObject (s : CommitStateDB) (a : Address) : CommitStateDB :=
  { s with
    stateObjects := s.stateObjects.erase a
    keyed := fun b o h => by
      by_cases hb : b = a
      · subst hb; rw [AList.lookup_erase] at h; cases h
      · rw [AList.lookup_erase_ne hb] at h; exact s.keyed b o h }

@[simp] theorem lookup_putObject (s : CommitStateDB) (so : StateObject) (a : Address) :
    (s.putObject so).stateObjects.lookup a =
      if a = so.address then some so else s.stateObjects.lookup a := by
  unfold putObject; split
  · subst_vars; exact AList.lookup_insert _
  · exact AList.lookup_insert_ne ‹_›

@[simp] theorem lookup_dropObject (s : CommitStateDB) (b a : Address) :
    (s.dropObject b).stateObjects.lookup a = if a = b then none else s.stateObjects.lookup a := by
  unfold dropObject; split
  · subst_vars; exact AList.lookup_erase _ _
  · exact AList.lookup_erase_ne ‹_›

end CommitStateDB

end Dipper
