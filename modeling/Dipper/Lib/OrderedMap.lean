import Mathlib

/-!
# Ordered listings of maps

A map `m : K → Option V` over a linear order, and a list that enumerates its entries with
keys in a half-open range `[lo, hi)` whose bounds may be missing, each once, in ascending
key order. This is what the range iterator of an ordered key-value store owes its caller;
a store refines a map when its answers are those of the map.
-/

namespace OrderedMap

variable {K K' V : Type*} [LinearOrder K] [LinearOrder K']

/-- `k` lies in `[lo, hi)`; a missing bound does not bound. -/
def InRange (lo hi : Option K) (k : K) : Prop := (∀ s ∈ lo, s ≤ k) ∧ ∀ e ∈ hi, k < e

/-- Pairs in strictly ascending key order. -/
abbrev Sorted (l : List (K × V)) : Prop := l.Pairwise fun a b => a.1 < b.1

/-- `l` lists the entries of `m` with keys in `[lo, hi)`, each once, in ascending key order. -/
def Lists (m : K → Option V) (lo hi : Option K) (l : List (K × V)) : Prop :=
  Sorted l ∧ ∀ k v, (k, v) ∈ l ↔ InRange lo hi k ∧ m k = some v

@[simp] theorem inRange_none_none (k : K) : InRange none none k := by simp [InRange]

theorem Lists.unique {m : K → Option V} {lo hi : Option K} {l₁ l₂ : List (K × V)}
    (h₁ : Lists m lo hi l₁) (h₂ : Lists m lo hi l₂) : l₁ = l₂ := by
  have : Std.Antisymm (fun a b : K × V => a.1 < b.1) := ⟨fun _ _ h h' => absurd (h.trans h') (lt_irrefl _)⟩
  have : Std.Irrefl (fun a b : K × V => a.1 < b.1) := ⟨fun _ h => lt_irrefl _ h⟩
  refine h₁.1.eq_of_mem_iff h₂.1 fun ⟨k, v⟩ => ?_
  rw [h₁.2, h₂.2]

theorem Lists.congr {m m' : K → Option V} {lo hi : Option K} {l : List (K × V)}
    (h : Lists m lo hi l) (hm : ∀ k, InRange lo hi k → m k = m' k) : Lists m' lo hi l := by
  refine ⟨h.1, fun k v => ?_⟩
  rw [h.2]
  exact ⟨fun ⟨hr, hv⟩ => ⟨hr, hm k hr ▸ hv⟩, fun ⟨hr, hv⟩ => ⟨hr, (hm k hr).symm ▸ hv⟩⟩

theorem Lists.mem_inRange {m : K → Option V} {lo hi : Option K} {l : List (K × V)}
    (h : Lists m lo hi l) {x : K × V} (hx : x ∈ l) : InRange lo hi x.1 :=
  ((h.2 x.1 x.2).mp hx).1

theorem Lists.comap {m : K → Option V} {lo hi : Option K} {l : List (K × V)}
    (h : Lists m lo hi l) {f : K' → K} {g : K → K'} (hf : StrictMono f) (hgf : ∀ k, g (f k) = k)
    (hl : ∀ x ∈ l, f (g x.1) = x.1) {lo' hi' : Option K'}
    (hr : ∀ k, InRange lo hi (f k) ↔ InRange lo' hi' k) :
    Lists (fun k => m (f k)) lo' hi' (l.map fun x => (g x.1, x.2)) := by
  refine ⟨List.pairwise_map.mpr (h.1.imp_of_mem fun {x y} hx hy hxy => ?_), fun k v => ?_⟩
  · rw [← hf.lt_iff_lt, hl x hx, hl y hy]
    exact hxy
  · rw [← hr, ← h.2, List.mem_map]
    constructor
    · rintro ⟨⟨k', v'⟩, hx, he⟩
      obtain ⟨rfl, rfl⟩ := Prod.mk.inj he
      simpa [hl _ hx] using hx
    · intro hx
      exact ⟨_, hx, by simp [hgf]⟩

/-! ### Maps kept as sorted lists of pairs -/

/-- The value at a key: that of the first pair with the key. -/
def lookup (l : List (K × V)) (k : K) : Option V := (l.find? fun x => x.1 = k).map Prod.snd

/-- Insertion in key order, replacing the pair of an equal key. -/
def insert (k : K) (v : V) : List (K × V) → List (K × V)
  | [] => [(k, v)]
  | x :: l => if k < x.1 then (k, v) :: x :: l else if k = x.1 then (k, v) :: l else x :: insert k v l

def erase (k : K) (l : List (K × V)) : List (K × V) := l.filter fun x => x.1 ≠ k

@[simp] theorem lookup_nil (k : K) : lookup ([] : List (K × V)) k = none := rfl

theorem lookup_cons (x : K × V) (l : List (K × V)) (k : K) :
    lookup (x :: l) k = if x.1 = k then some x.2 else lookup l k := by
  unfold lookup
  by_cases h : x.1 = k <;> simp [h]

theorem lookup_eq_some_iff {l : List (K × V)} (hl : Sorted l) {k : K} {v : V} :
    lookup l k = some v ↔ (k, v) ∈ l := by
  induction l with
  | nil => simp
  | cons x l ih =>
    obtain ⟨k', v'⟩ := x
    rw [Sorted, List.pairwise_cons] at hl
    rw [lookup_cons, List.mem_cons, Prod.mk.injEq]
    by_cases h : k' = k
    · subst h
      have : (k', v) ∉ l := fun hm => lt_irrefl _ (hl.1 (k', v) hm)
      simp [this, eq_comm]
    · rw [if_neg h, ih hl.2]
      simp [Ne.symm h]

theorem lookup_eq_none_of_lt {l : List (K × V)} {k : K} (h : ∀ y ∈ l, k < y.1) :
    lookup l k = none := by
  simp only [lookup, Option.map_eq_none_iff, List.find?_eq_none, decide_eq_true_eq]
  exact fun y hy => (h y hy).ne'

theorem lookup_insert [DecidableEq K] (k : K) (v : V) (l : List (K × V)) :
    lookup (insert k v l) = Function.update (lookup l) k (some v) := by
  funext k'
  induction l with
  | nil =>
    by_cases h : k' = k
    · subst h
      simp [insert, lookup_cons]
    · simp [insert, lookup_cons, Function.update, h, Ne.symm h]
  | cons x l ih =>
    unfold insert
    by_cases h : k' = k
    · subst h
      split_ifs with h₁ h₂
      · simp [lookup_cons]
      · simp [lookup_cons]
      · rw [lookup_cons, if_neg (fun e => h₂ e.symm), ih]
        simp
    · have hx : x.1 = k' → k ≠ x.1 := fun hx he => h (hx ▸ he ▸ rfl)
      split_ifs with h₁ h₂ <;> simp_all [lookup_cons, Function.update, Ne.symm h]

theorem mem_insert {k : K} {v : V} {y : K × V} :
    ∀ {l : List (K × V)}, y ∈ insert k v l → y = (k, v) ∨ y ∈ l
  | [], h => by simpa [insert] using h
  | x :: l, h => by
    unfold insert at h
    split_ifs at h
    · exact List.mem_cons.mp h
    · exact (List.mem_cons.mp h).imp_right (List.mem_cons_of_mem _)
    · rcases List.mem_cons.mp h with rfl | h
      · exact .inr List.mem_cons_self
      · exact (mem_insert h).imp_right (List.mem_cons_of_mem _)

theorem insert_sorted {k : K} {v : V} : ∀ {l : List (K × V)}, Sorted l → Sorted (insert k v l)
  | [], _ => List.pairwise_singleton _ _
  | x :: l, hl => by
    rw [Sorted, List.pairwise_cons] at hl
    unfold insert
    split_ifs with h₁ h₂
    · exact List.Pairwise.cons (fun y hy => (List.mem_cons.mp hy).elim (· ▸ h₁)
        fun hy => h₁.trans (hl.1 y hy)) (List.Pairwise.cons hl.1 hl.2)
    · exact List.Pairwise.cons (fun y hy => h₂ ▸ hl.1 y hy) hl.2
    · have hx : x.1 < k := lt_of_le_of_ne (not_lt.mp h₁) (Ne.symm h₂)
      refine List.Pairwise.cons (fun y hy => ?_) (insert_sorted hl.2)
      rcases mem_insert hy with rfl | hy
      · exact hx
      · exact hl.1 y hy

theorem lookup_erase [DecidableEq K] (k : K) (l : List (K × V)) :
    lookup (erase k l) = Function.update (lookup l) k none := by
  funext k'
  by_cases h : k' = k
  · subst h
    -- no pair with the key survives the filter
    simp only [Function.update_self, lookup, Option.map_eq_none_iff, List.find?_eq_none]
    intro x hx
    simpa [erase] using (List.mem_filter.mp hx).2
  · rw [Function.update_of_ne h]
    induction l with
    | nil => rfl
    | cons x l ih =>
      unfold erase at ih ⊢
      rw [List.filter_cons]
      by_cases hx : x.1 = k
      · rw [if_neg (by simp [hx]), ih, lookup_cons, if_neg (by rw [hx]; exact Ne.symm h)]
      · rw [if_pos (by simp [hx]), lookup_cons, lookup_cons, ih]

theorem erase_sorted {k : K} {l : List (K × V)} (hl : Sorted l) : Sorted (erase k l) :=
  hl.filter _

theorem lookup_filter {l : List (K × V)} (hl : Sorted l) (p : V → Bool) (k : K) :
    lookup (l.filter fun x => p x.2) k = (lookup l k).filter p := by
  induction l with
  | nil => rfl
  | cons x l ih =>
    rw [Sorted, List.pairwise_cons] at hl
    rw [List.filter_cons, lookup_cons]
    by_cases hk : x.1 = k
    · -- the first pair has the key, and no later pair does
      have hnone : lookup (l.filter fun x => p x.2) k = none :=
        lookup_eq_none_of_lt fun y hy => hk ▸ hl.1 y (List.mem_filter.mp hy).1
      by_cases hp : p x.2 <;> simp [hp, hk, lookup_cons, hnone, Option.filter_some]
    · split <;> simp [lookup_cons, hk, ih hl.2]

theorem lists_filter {l : List (K × V)} (hl : Sorted l) (lo hi : Option K) (p : K → Bool)
    (hp : ∀ k, p k = true ↔ InRange lo hi k) :
    Lists (lookup l) lo hi (l.filter fun x => p x.1) := by
  refine ⟨hl.filter _, fun k v => ?_⟩
  rw [List.mem_filter, lookup_eq_some_iff hl, hp, and_comm]

theorem sorted_insertionSort {l : List (K × V)} (hl : (l.map Prod.fst).Nodup) :
    Sorted (l.insertionSort fun a b => a.1 ≤ b.1) := by
  have : Std.Total (fun a b : K × V => a.1 ≤ b.1) := ⟨fun a b => le_total a.1 b.1⟩
  have : IsTrans (K × V) (fun a b => a.1 ≤ b.1) := ⟨fun _ _ _ h h' => h.trans h'⟩
  have hne : (l.insertionSort fun a b => a.1 ≤ b.1).Pairwise fun a b => a.1 ≠ b.1 :=
    List.pairwise_map.mp (((List.perm_insertionSort _ l).map Prod.fst).nodup_iff.mpr hl)
  exact ((List.pairwise_insertionSort _ l).and hne).imp fun h => lt_of_le_of_ne h.1 h.2

/-! ### Lists as keys, in lexicographic order -/

section Lex

variable {α : Type*} [LinearOrder α]

theorem append_strictMono (r : List α) : StrictMono (r ++ · : List α → List α) :=
  fun _ _ h => List.append_left_lt h

theorem exists_append_of_between {r a c x : List α} (ha : r ++ a ≤ x) (hc : x < r ++ c) :
    ∃ x', x = r ++ x' := by
  induction r generalizing x with
  | nil => exact ⟨x, rfl⟩
  | cons y r ih =>
    rw [← not_lt] at ha
    cases x with
    | nil => exact absurd (List.nil_lt_cons _ _) ha
    | cons z x =>
      rcases lt_trichotomy z y with h | rfl | h
      · exact absurd (List.cons_lt_cons_iff.mpr (.inl h)) ha
      · rw [List.cons_append, List.cons_lt_cons_self] at ha hc
        exact (ih (not_lt.mp ha) hc).imp fun x' hx => by rw [hx, List.cons_append]
      · exact absurd hc (lt_asymm (List.cons_lt_cons_iff.mpr (.inl h)))

theorem exists_append_of_replicate_le {t : α} (ht : ∀ y, y ≤ t) {n : Nat} {x : List α}
    (h : List.replicate n t ≤ x) : ∃ x', x = List.replicate n t ++ x' := by
  induction n generalizing x with
  | zero => exact ⟨x, rfl⟩
  | succ n ih =>
    rw [← not_lt, List.replicate_succ] at h
    cases x with
    | nil => exact absurd (List.nil_lt_cons _ _) h
    | cons z x =>
      rcases (ht z).lt_or_eq with hz | rfl
      · exact absurd (List.cons_lt_cons_iff.mpr (.inl hz)) h
      · rw [List.cons_lt_cons_self] at h
        exact (ih (not_lt.mp h)).imp fun x' hx => by rw [hx, List.replicate_succ, List.cons_append]

end Lex

end OrderedMap
