import Mathlib

/-!
# Sums over association lists

`sumBy m f` adds up `f a b` over the entries `a ↦ b` of an association list. An
update changes the sum by what the key held before and what it holds after, so a
total kept beside the list stays equal to the sum when every write to the list
moves it by the same amount. With non-negative summands, each entry is at most the
sum, so a zero sum leaves no positive entry. Two lemmas read a lookup after a write
back to the lookup before it, and two a lookup after the writes of a list of entries.
-/

namespace AList

variable {α : Type*} [DecidableEq α] {β : α → Type*} {M : Type*}

/-- The sum of `f` over the entries. -/
def sumBy [AddCommMonoid M] (m : AList β) (f : (a : α) → β a → M) : M :=
  (m.entries.map fun e => f e.1 e.2).sum

/-- What the entry of `a` contributes: `f a b` when `a` maps to `b`, nothing when `a`
is absent. -/
def valueAt [AddCommMonoid M] (m : AList β) (f : (a : α) → β a → M) (a : α) : M :=
  (m.lookup a).elim 0 (f a)

theorem lookup_insert_eq_some {γ : Type*} {m : AList (fun _ : α => γ)} {a a' : α} {b b' : γ}
    (h : (m.insert a b).lookup a' = some b') : (a' = a ∧ b' = b) ∨ (a' ≠ a ∧ m.lookup a' = some b') := by
  by_cases ha : a' = a
  · subst ha
    rw [AList.lookup_insert, Option.some.injEq] at h
    exact .inl ⟨rfl, h.symm⟩
  · rw [AList.lookup_insert_ne ha] at h
    exact .inr ⟨ha, h⟩

theorem lookup_erase_eq_some {m : AList β} {a a' : α} {b' : β a'} (h : (m.erase a).lookup a' = some b') :
    a' ≠ a ∧ m.lookup a' = some b' := by
  by_cases ha : a' = a
  · subst ha; rw [AList.lookup_erase] at h; cases h
  · rw [AList.lookup_erase_ne ha] at h
    exact ⟨ha, h⟩

/-- A map written under a key it already has keeps its keys. -/
theorem mem_of_mem_insert {m : AList β} {a a' : α} {b : β a} (ha : a ∈ m) (h : a' ∈ m.insert a b) : a' ∈ m := by
  rcases (AList.mem_insert _).mp h with rfl | h
  · exact ha
  · exact h

section Monoid

variable [AddCommMonoid M] (f : (a : α) → β a → M)

omit [DecidableEq α] in
@[simp] theorem sumBy_empty : sumBy (∅ : AList β) f = 0 := rfl

theorem valueAt_of_lookup {m : AList β} {a : α} {b : β a} (h : m.lookup a = some b) :
    valueAt m f a = f a b := by
  simp [valueAt, h]

theorem valueAt_of_lookup_none {m : AList β} {a : α} (h : m.lookup a = none) : valueAt m f a = 0 := by
  simp [valueAt, h]

theorem sumBy_eq_erase_add (m : AList β) (a : α) : sumBy m f = sumBy (m.erase a) f + valueAt m f a := by
  cases hl : m.lookup a with
  | none =>
    have hnot : a ∉ m.entries.keys := fun hk => (AList.lookup_eq_none.mp hl) (AList.mem_keys.mpr hk)
    rw [valueAt_of_lookup_none f hl, add_zero]
    simp only [sumBy, AList.erase, List.kerase_of_notMem_keys hnot]
  | some b =>
    have hmem : Sigma.mk a b ∈ m.entries := AList.mem_lookup_iff.mp hl
    obtain ⟨b', l₁, l₂, -, hsplit, herase⟩ := List.exists_of_kerase (List.mem_keys_of_mem hmem)
    -- the entry the split finds is the one `lookup` returns
    have hb' : m.lookup a = some b' :=
      AList.mem_lookup_iff.mpr (by rw [hsplit]; exact List.mem_append_right _ List.mem_cons_self)
    rw [hl, Option.some.injEq] at hb'
    subst hb'
    rw [valueAt_of_lookup f hl]
    show (m.entries.map _).sum = ((m.entries.kerase a).map _).sum + f a b
    rw [herase, hsplit]
    simp only [List.map_append, List.map_cons, List.sum_append, List.sum_cons]
    rw [add_left_comm, add_comm]

theorem sumBy_eq_zero {m : AList β} (hf : ∀ a b, m.lookup a = some b → f a b = 0) : sumBy m f = 0 := by
  refine List.sum_eq_zero fun x hx => ?_
  obtain ⟨e, he, rfl⟩ := List.mem_map.mp hx
  exact hf e.1 e.2 (AList.mem_lookup_iff.mpr he)

theorem sumBy_insert (m : AList β) (a : α) (b : β a) :
    sumBy (m.insert a b) f = sumBy (m.erase a) f + f a b := by
  simp only [sumBy, AList.entries_insert, AList.erase, List.map_cons, List.sum_cons]
  exact add_comm _ _

end Monoid

section Group

variable [AddCommGroup M] (f : (a : α) → β a → M)

theorem sumBy_erase (m : AList β) (a : α) : sumBy (m.erase a) f = sumBy m f - valueAt m f a := by
  rw [sumBy_eq_erase_add f m a, add_sub_cancel_right]

theorem sumBy_insert_eq (m : AList β) (a : α) (b : β a) :
    sumBy (m.insert a b) f = sumBy m f - valueAt m f a + f a b := by
  rw [sumBy_insert, sumBy_erase]

end Group

section Order

variable [AddCommMonoid M] [PartialOrder M] [IsOrderedAddMonoid M] {f : (a : α) → β a → M}

theorem sumBy_nonneg {m : AList β} (hf : ∀ a b, m.lookup a = some b → 0 ≤ f a b) : 0 ≤ sumBy m f := by
  refine List.sum_nonneg fun x hx => ?_
  obtain ⟨e, he, rfl⟩ := List.mem_map.mp hx
  exact hf e.1 e.2 (AList.mem_lookup_iff.mpr he)

theorem le_sumBy {m : AList β} (hf : ∀ a b, m.lookup a = some b → 0 ≤ f a b) {a : α} {b : β a}
    (h : m.lookup a = some b) : f a b ≤ sumBy m f := by
  have hrest : 0 ≤ sumBy (m.erase a) f := sumBy_nonneg fun a' b' h' => by
    by_cases ha : a' = a
    · subst ha; rw [AList.lookup_erase] at h'; cases h'
    · rw [AList.lookup_erase_ne ha] at h'; exact hf a' b' h'
  rw [sumBy_eq_erase_add f m a, valueAt_of_lookup f h]
  exact le_add_of_nonneg_left hrest

end Order

/-! ### Counting by keys -/

section Counting

variable [AddCommMonoid M]

theorem sumBy_congr {m : AList β} {f g : (a : α) → β a → M} (h : ∀ a b, m.lookup a = some b → f a b = g a b) :
    sumBy m f = sumBy m g := by
  unfold sumBy
  congr 1
  refine List.map_congr_left fun e he => h e.1 e.2 (AList.mem_lookup_iff.mpr he)

theorem sumBy_of_lookup_eq {m m' : AList β} {f : (a : α) → β a → M} (h : ∀ a, m.lookup a = m'.lookup a) :
    sumBy m f = sumBy m' f := by
  have hperm : m.entries.Perm m'.entries :=
    List.lookup_ext m.nodupKeys m'.nodupKeys fun a b => by
      change b ∈ m.lookup a ↔ b ∈ m'.lookup a
      rw [h]
  unfold sumBy
  exact (hperm.map _).sum_eq

omit [DecidableEq α] in
theorem sumBy_add (m : AList β) (f g : (a : α) → β a → M) :
    sumBy m (fun a b => f a b + g a b) = sumBy m f + sumBy m g := by
  unfold sumBy
  rw [List.sum_map_add]

theorem sumBy_eq_valueAt {m : AList β} {f : (a : α) → β a → M} {a : α} (hf : ∀ a' b, a' ≠ a → f a' b = 0) :
    sumBy m f = valueAt m f a := by
  rw [sumBy_eq_erase_add f m a, sumBy_eq_zero f fun a' b h => hf a' b (lookup_erase_eq_some h).1, zero_add]

theorem sumBy_count {δ : Type*} [DecidableEq δ] {γ : δ → Type*} {m : AList β} {n : AList γ}
    (f : (b : δ) → γ b → α) (hf : ∀ b c, n.lookup b = some c → f b c ∈ m) :
    sumBy m (fun a _ => sumBy n fun b c => if f b c = a then (1 : ℕ) else 0) = n.entries.length := by
  have hmem : ∀ e ∈ n.entries, f e.1 e.2 ∈ m := fun e he => hf e.1 e.2 (AList.mem_lookup_iff.mpr he)
  -- each entry of `n` is counted at the one key of `m` it names
  have hone : ∀ x ∈ m, (m.entries.map fun e => if x = e.1 then (1 : ℕ) else 0).sum = 1 := by
    intro x hx
    have hcount : (m.entries.map fun e => if x = e.1 then (1 : ℕ) else 0).sum = m.keys.count x := by
      unfold AList.keys List.keys
      induction m.entries with
      | nil => rfl
      | cons e l ih =>
        rw [List.map_cons, List.sum_cons, ih, List.map_cons, List.count_cons]
        by_cases h : x = e.1
        · simp [h, add_comm]
        · simp [h, Ne.symm h]
    rw [hcount]
    exact List.count_eq_one_of_mem m.nodupKeys (AList.mem_keys.mpr hx)
  unfold sumBy
  generalize n.entries = L at hmem ⊢
  induction L with
  | nil => simp
  | cons e l ih =>
    simp only [List.map_cons, List.sum_cons, List.sum_map_add, List.length_cons]
    rw [ih fun e' he' => hmem e' (List.mem_cons_of_mem e he'), hone _ (hmem e List.mem_cons_self), add_comm]

end Counting

theorem lookup_foldl_insert : ∀ {l : List (Sigma β)}, l.NodupKeys → ∀ (m : AList β) (a : α),
    (l.foldl (fun m e => m.insert e.1 e.2) m).lookup a = (l.dlookup a).or (m.lookup a)
  | [], _, m, a => by simp
  | ⟨k, v⟩ :: l, hl, m, a => by
    obtain ⟨hk, hl⟩ := List.nodupKeys_cons.mp hl
    rw [List.foldl_cons, lookup_foldl_insert hl]
    by_cases ha : a = k
    · subst ha
      rw [List.dlookup_eq_none.mpr hk, AList.lookup_insert, List.dlookup_cons_eq]
      rfl
    · rw [AList.lookup_insert_ne ha, List.dlookup_cons_ne _ _ ha]

theorem dlookup_map_val {γ : α → Type*} (g : ∀ a, β a → γ a) (l : List (Sigma β)) (a : α) :
    (l.map fun e => (⟨e.1, g e.1 e.2⟩ : Sigma γ)).dlookup a = (l.dlookup a).map (g a) := by
  induction l with
  | nil => rfl
  | cons e l ih =>
    obtain ⟨k, v⟩ := e
    by_cases ha : a = k
    · subst ha
      rw [List.map_cons, List.dlookup_cons_eq, List.dlookup_cons_eq]
      rfl
    · rw [List.map_cons, List.dlookup_cons_ne _ _ ha, List.dlookup_cons_ne _ _ ha, ih]

end AList
