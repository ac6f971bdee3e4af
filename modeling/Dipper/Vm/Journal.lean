import Dipper.Vm.StateDB
import Dipper.Lib.Search
import Dipper.Lib.StateExcept

/-!
# Reverting the journal

`journalEntry.revert` for the eleven entry kinds of `changes.go`, `journal.revert`,
which undoes the entries after a snapshot from the last one back, and the
`Snapshot` / `RevertToSnapshot` pair of `statedb.go`. The reverts of balance,
nonce, code and storage changes dereference the object they look up, so a missing
object is a nil-pointer panic; `addLogChange` also moves the persisted log index
back through `updateLogIndexByOne`.
-/

namespace Dipper

open CommitStateDB StateObject

namespace JournalEntry

def revert : JournalEntry → SDB Unit
  | createObjectChange a =>
    modify fun s => { s.dropObject a with stateObjectsDirty := s.stateObjectsDirty.erase a }
  | resetObjectChange prev => setStateObject prev
  | suicideChange a prev prevBalance => do
    match ← getStateObject a with
    | none => pure ()
    | some so => setStateObject (← liftE ({ so with suicided := prev }.setBalance prevBalance))
  | touchChange _ => pure ()
  | balanceChange a prev => do
    let so ← nilDeref (← getStateObject a)
    setStateObject (← liftE (so.setBalance prev))
  | nonceChange a prev => do
    let so ← nilDeref (← getStateObject a)
    setStateObject (so.setNonce prev)
  | codeChange a prevCode prevHash => do
    let so ← nilDeref (← getStateObject a)
    setStateObject (so.setCode (BytesToHash prevHash) prevCode)
  | storageChange a key prevValue => do
    let so ← nilDeref (← getStateObject a)
    setStateObject (so.setState key prevValue)
  | refundChange prev => modify fun s => { s with refund := prev }
  | addLogChange txhash => do
    let s ← get
    let logs := (s.logs.lookup txhash).getD []
    -- `logs[:len(logs)-1]` on an empty slice is out of range
    if logs.length = 1 then set { s with logs := s.logs.erase txhash }
    else if logs.length = 0 then goPanic "runtime error: slice bounds out of range [:-1]"
    else set { s with logs := s.logs.insert txhash logs.dropLast }
    modify fun s => { s with ctx := (s.ctx.updateLogIndexByOne true).2 }
  | addPreimageChange hash => modify fun s => { s with preimages := s.preimages.erase hash }

end JournalEntry

namespace Journal

/-- The dirty-count bookkeeping of `journal.revert` for one undone entry. -/
def undirty (j : Journal) (e : JournalEntry) : Journal :=
  match e.dirtied with
  | none => j
  | some a =>
    let c := (j.dirties.lookup a).getD 0 - 1
    { j with dirties := if c = 0 then j.dirties.erase a else j.dirties.insert a c }

end Journal

namespace CommitStateDB

/-- Undo entries in the order given (the journal's last entry first). -/
def revertEntries : List JournalEntry → SDB Unit
  | [] => pure ()
  | e :: es => do
    e.revert
    modify fun s => { s with journal := s.journal.undirty e }
    revertEntries es

/-- `journal.revert(statedb, snapshot)`. -/
def revertJournal (snapshot : Nat) : SDB Unit := do
  let entries := (← get).journal.entries
  revertEntries (entries.drop snapshot).reverse
  if entries.length < snapshot then goPanic "runtime error: slice bounds out of range"
  modify fun s => { s with journal := { s.journal with entries := s.journal.entries.take snapshot } }

/-- `Snapshot`: a new revision at the current journal length. -/
def Snapshot : SDB Nat := do
  let s ← get
  let id := s.nextRevisionID
  set { s with nextRevisionID := id + 1,
               validRevisions := s.validRevisions ++ [(⟨id, s.journal.entries.length⟩ : Revision)],
               revisionsOrdered := s.revisionsOrdered.snapshot _ }
  return id

/-- `RevertToSnapshot`: the revision is found by binary search over the valid
revisions; it and every later one are dropped. -/
def RevertToSnapshot (revID : Nat) : SDB Unit := do
  let s ← get
  let idx := GoSort.search s.validRevisions.length
    fun i => decide (revID ≤ (s.validRevisions.getD i (⟨0, 0⟩ : Revision)).id)
  match s.validRevisions[idx]? with
  | some r =>
    if r.id = revID then
      revertJournal r.journalIndex
      modify fun s => { s with validRevisions := s.validRevisions.take idx,
                               revisionsOrdered := s.revisionsOrdered.take idx }
    else goPanic ("revision ID " ++ toString revID ++ " cannot be reverted")
  | none => goPanic ("revision ID " ++ toString revID ++ " cannot be reverted")

/-! ### Specifications -/

open StateExcept

theorem search_revision {s : CommitStateDB} {k : Nat} {r : Revision}
    (hk : s.validRevisions[k]? = some r) :
    GoSort.search s.validRevisions.length
      (fun i => decide (r.id ≤ (s.validRevisions.getD i (⟨0, 0⟩ : Revision)).id)) = k := by
  have hklt : k < s.validRevisions.length := by
    by_contra h; rw [List.getElem?_eq_none (by omega)] at hk; cases hk
  have hr : s.validRevisions.getD k ⟨0, 0⟩ = r := by
    simp [List.getD_eq_getElem?_getD, hk]
  apply GoSort.search_eq
  · -- the ids increase, so the predicate is monotone
    intro a b hab hb hfa
    simp only [decide_eq_true_eq] at hfa ⊢
    rcases Nat.lt_or_eq_of_le hab with h | h
    · exact le_trans hfa (le_of_lt (s.revisionsOrdered.id_lt h hb))
    · subst h; exact hfa
  · omega
  · intro i hi
    have := s.revisionsOrdered.id_lt hi hklt
    rw [hr] at this
    simp only [decide_eq_false_iff_not, not_le]; exact this
  · intro _; simp only [hr, le_refl, decide_true]

theorem wp_revertJournal {Q : Unit → CommitStateDB → Prop} {E : String → Prop} (s : CommitStateDB)
    (n : Nat) (hn : n ≤ s.journal.entries.length) :
    wp (revertJournal n) Q E s ↔
      wp (revertEntries (s.journal.entries.drop n).reverse)
        (fun _ s' => Q () { s' with journal := { s'.journal with entries := s'.journal.entries.take n } })
        E s := by
  simp only [revertJournal, wp_bind, wp_get]
  apply iff_of_eq; congr 1; funext u s'
  simp [show ¬ s.journal.entries.length < n by omega]

theorem wp_RevertToSnapshot {Q : Unit → CommitStateDB → Prop} {E : String → Prop}
    {s : CommitStateDB} {k revID j : Nat} (hk : s.validRevisions[k]? = some ⟨revID, j⟩) :
    wp (RevertToSnapshot revID) Q E s ↔
      wp (revertJournal j)
        (fun _ s' => Q () { s' with validRevisions := s'.validRevisions.take k,
                                    revisionsOrdered := s'.revisionsOrdered.take k }) E s := by
  simp only [RevertToSnapshot, wp_bind, wp_get, wp_modify, search_revision hk, hk, if_true]

/-- A log added after a snapshot and reverted leaves the log index written where it
was absent: `updateLogIndexByOne` writes zero for the add, and does not move a zero
back for the revert. -/
theorem RevertToSnapshot_AddLog_logIndex (s : CommitStateDB) (log : Log)
    (hidx : s.ctx.vm.logIndex = none) :
    ∃ s', (do let id ← Snapshot; AddLog log; RevertToSnapshot id).run s = .ok ((), s') ∧
      s'.ctx.vm.logIndex = some 0 := by
  have h : wp (do let id ← Snapshot; AddLog log; RevertToSnapshot id)
      (fun _ s' => s'.ctx.vm.logIndex = some 0) (fun _ => False) s := by
    simp only [wp_bind, wp_pure, Snapshot, AddLog, appendJournal, wp_get, wp_set, wp_modify]
    -- the new revision is the last one, at the old journal length
    rw [wp_RevertToSnapshot (k := s.validRevisions.length) (j := s.journal.entries.length) (by simp)]
    rw [wp_revertJournal _ _ (by simp [Journal.append])]
    simp [Journal.append, revertEntries, JournalEntry.revert, wp_ite, Store.updateLogIndexByOne, hidx]
  obtain ⟨⟨⟩, s', hrun, hs'⟩ := exists_of_wp h
  exact ⟨s', hrun, hs'⟩

theorem RevertToSnapshot_AddLog_logIndex_new :
    (CommitStateDB.new Store.empty).ctx.vm.logIndex = none ∧
      ∃ s', (do let id ← Snapshot; AddLog ⟨[], [], [], 0, Hash.zero, 0, Hash.zero, 0⟩
                RevertToSnapshot id).run (CommitStateDB.new Store.empty) =
          .ok ((), s') ∧ s'.ctx.vm.logIndex = some 0 :=
  ⟨rfl, RevertToSnapshot_AddLog_logIndex _ _ rfl⟩

end CommitStateDB

end Dipper
