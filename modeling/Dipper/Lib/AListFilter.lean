import Dipper.Lib.AListSum

/-!
# Keeping the entries of an association list whose keys pass a test

What a store does when it deletes every key under a prefix: the entries whose keys pass the
test stay, with their values, and the others go. A lookup then finds the old entry at a key
that passes and nothing at one that does not, and a sum over the entries loses exactly the
entries that went.
-/

namespace AList

variable {α : Type*} [DecidableEq α] {β : α → Type*}

/-- The entries whose keys satisfy `p`. -/
def filterKeys (p : α → Bool) (m : AList β) : AList β :=
  ⟨m.entries.filter fun e => p e.1, m.nodupKeys.sublist List.filter_sublist⟩

theorem lookup_filterKeys (p : α → Bool) (m : AList β) (a : α) :
    (m.filterKeys p).lookup a = if p a then m.lookup a else none := by
  unfold filterKeys lookup
  dsimp only
  induction m.entries with
  | nil => split <;> rfl
  | cons e l ih =>
    obtain ⟨k, v⟩ := e
    rw [List.filter_cons]
    by_cases ha : a = k
    · subst ha
      by_cases hp : p a
      · simp [hp]
      · simp only [hp, if_false, Bool.false_eq_true]
        exact ih.trans (if_neg hp)
    · rw [List.dlookup_cons_ne _ _ ha]
      split
      · rw [List.dlookup_cons_ne _ _ ha]
        exact ih
      · exact ih

omit [DecidableEq α] in
theorem sumBy_filterKeys {M : Type*} [AddCommMonoid M] (p : α → Bool) (m : AList β)
    (f : (a : α) → β a → M) : sumBy (m.filterKeys p) f = sumBy m fun a b => if p a then f a b else 0 := by
  unfold sumBy filterKeys
  dsimp only
  induction m.entries with
  | nil => rfl
  | cons e l ih =>
    rw [List.filter_cons, List.map_cons, List.sum_cons, ← ih]
    split
    · rw [List.map_cons, List.sum_cons]
    · rw [zero_add]

end AList
