import Mathlib

/-!
# Lists sorted by key, and their merge

A list of entries whose keys strictly increase is read as a finitely supported
function from keys to amounts: the amount under a key is that of its entry, or zero.
`MergeAdd` is the merge that walks two such lists with two pointers, adds the
amounts of entries with equal keys and drops every entry that comes out zero; it
records the merge's choices step by step, so that an executable merge with fuel
is shown to produce a `MergeAdd` output once and then inherits its results: the
output is sorted, holds no zero entry, and its amount under every key is the sum
of the two inputs'. Two sorted lists without zero entries that agree on every
amount are equal.
-/

namespace KeyedList

variable {α K V : Type*} [LinearOrder K]

section Amount

variable (key : α → K) (amt : α → V)

/-- The amount under `k`: that of the first entry with key `k`, zero if there is none. -/
def amountOf [Zero V] (l : List α) (k : K) : V := ((l.find? fun x => key x = k).map amt).getD 0

/-- Keys strictly increasing. -/
def Strict (l : List α) : Prop := l.Pairwise fun x y => key x < key y

variable {key amt}

@[simp] theorem amountOf_nil [Zero V] (k : K) : amountOf key amt [] k = 0 := rfl

theorem amountOf_cons [Zero V] (x : α) (l : List α) (k : K) :
    amountOf key amt (x :: l) k = if key x = k then amt x else amountOf key amt l k := by
  by_cases h : key x = k <;> simp [amountOf, h]

theorem amountOf_eq_zero [Zero V] {l : List α} {k : K} (h : ∀ y ∈ l, key y ≠ k) :
    amountOf key amt l k = 0 := by
  induction l with
  | nil => rfl
  | cons y l ih =>
    rw [amountOf_cons, if_neg (h y List.mem_cons_self)]
    exact ih fun z hz => h z (List.mem_cons_of_mem _ hz)

@[simp] theorem strict_nil : Strict key ([] : List α) := List.Pairwise.nil

theorem strict_cons {x : α} {l : List α} :
    Strict key (x :: l) ↔ (∀ y ∈ l, key x < key y) ∧ Strict key l :=
  List.pairwise_cons

theorem Strict.amountOf_of_lt [Zero V] {x : α} {l : List α} {k : K} (h : Strict key (x :: l))
    (hk : k < key x) : amountOf key amt (x :: l) k = 0 := by
  refine amountOf_eq_zero fun y hy => ?_
  rcases List.mem_cons.mp hy with rfl | hy
  · exact hk.ne'
  · exact (hk.trans (strict_cons.mp h |>.1 y hy)).ne'

theorem Strict.amountOf_tail [Zero V] {x : α} {l : List α} (h : Strict key (x :: l)) :
    amountOf key amt l (key x) = 0 :=
  amountOf_eq_zero fun y hy => (strict_cons.mp h |>.1 y hy).ne'

theorem Strict.amountOf_cons [AddCommMonoid V] {x : α} {l : List α} (h : Strict key (x :: l)) (k : K) :
    amountOf key amt (x :: l) k = (if key x = k then amt x else 0) + amountOf key amt l k := by
  rw [KeyedList.amountOf_cons]
  by_cases hx : key x = k
  · rw [if_pos hx, if_pos hx, ← hx, h.amountOf_tail, add_zero]
  · rw [if_neg hx, if_neg hx, zero_add]

theorem amountOf_emit [AddCommMonoid V] {isZero : α → Bool} (hzero : ∀ x, isZero x = true → amt x = 0)
    {x : α} {l : List α} {k : K} (hx : key x = k → amountOf key amt l k = 0) :
    amountOf key amt ((if isZero x then [] else [x]) ++ l) k =
      (if key x = k then amt x else 0) + amountOf key amt l k := by
  by_cases hz : isZero x = true
  · by_cases hk : key x = k
    · simp [hz, hk, hzero x hz, hx hk]
    · simp [hz, hk]
  · rw [if_neg hz, List.singleton_append, KeyedList.amountOf_cons]
    by_cases hk : key x = k
    · rw [if_pos hk, if_pos hk, hx hk, add_zero]
    · rw [if_neg hk, if_neg hk, zero_add]

theorem Strict.filter {l : List α} (h : Strict key l) (p : α → Bool) : Strict key (l.filter p) :=
  List.Pairwise.filter p h

theorem Strict.amountOf_filter [AddCommMonoid V] {isZero : α → Bool} (hzero : ∀ x, isZero x = true → amt x = 0)
    {l : List α} (h : Strict key l) (k : K) :
    amountOf key amt (l.filter fun x => !isZero x) k = amountOf key amt l k := by
  induction l with
  | nil => rfl
  | cons x l ih =>
    have hl := (strict_cons.mp h).2
    have hfilter : (x :: l).filter (fun x => !isZero x) = (if isZero x then [] else [x]) ++ l.filter fun x => !isZero x := by
      cases hz : isZero x <;> simp [hz]
    rw [hfilter, amountOf_emit hzero fun hk => by rw [ih hl, ← hk, h.amountOf_tail], ih hl, h.amountOf_cons]

theorem amountOf_append_left [Zero V] {l₁ : List α} (l₂ : List α) {k : K}
    (h : ∀ x ∈ l₁, key x ≠ k) : amountOf key amt (l₁ ++ l₂) k = amountOf key amt l₂ k := by
  induction l₁ with
  | nil => rfl
  | cons x l₁ ih =>
    rw [List.cons_append, KeyedList.amountOf_cons, if_neg (h x List.mem_cons_self),
      ih fun y hy => h y (List.mem_cons_of_mem _ hy)]

theorem amountOf_append_right [Zero V] (l₁ : List α) {l₂ : List α} {k : K}
    (h : ∀ x ∈ l₂, key x ≠ k) : amountOf key amt (l₁ ++ l₂) k = amountOf key amt l₁ k := by
  induction l₁ with
  | nil => exact amountOf_eq_zero h
  | cons x l₁ ih => rw [List.cons_append, KeyedList.amountOf_cons, KeyedList.amountOf_cons, ih]

theorem Strict.amountOf_of_mem [Zero V] {l : List α} (h : Strict key l) {x : α} (hx : x ∈ l) :
    amountOf key amt l (key x) = amt x := by
  induction l with
  | nil => cases hx
  | cons y l ih =>
    rcases List.mem_cons.mp hx with rfl | hx
    · rw [KeyedList.amountOf_cons, if_pos rfl]
    · -- a later entry, whose key is above the head's
      have hlt := (strict_cons.mp h).1 x hx
      rw [KeyedList.amountOf_cons, if_neg hlt.ne, ih (strict_cons.mp h).2 hx]

theorem exists_mem_of_amountOf_ne_zero [Zero V] {l : List α} {k : K}
    (h : amountOf key amt l k ≠ 0) : ∃ x ∈ l, key x = k ∧ amt x = amountOf key amt l k := by
  induction l with
  | nil => exact absurd rfl h
  | cons y l ih =>
    rw [KeyedList.amountOf_cons] at h ⊢
    by_cases hy : key y = k
    · exact ⟨y, List.mem_cons_self, hy, by rw [if_pos hy]⟩
    · rw [if_neg hy] at h ⊢
      obtain ⟨x, hx, hk, ha⟩ := ih h
      exact ⟨x, List.mem_cons_of_mem _ hx, hk, ha⟩

theorem Strict.map {l : List α} (h : Strict key l) {f : α → α} (hf : ∀ x, key (f x) = key x) :
    Strict key (l.map f) :=
  List.pairwise_map.mpr (h.imp fun hxy => by rwa [hf, hf])

theorem amountOf_map [Zero V] {f : α → α} {g : V → V} (hf : ∀ x, key (f x) = key x)
    (hg : ∀ x, amt (f x) = g (amt x)) (hg0 : g 0 = 0) (l : List α) (k : K) :
    amountOf key amt (l.map f) k = g (amountOf key amt l k) := by
  induction l with
  | nil => exact hg0.symm
  | cons x l ih =>
    rw [List.map_cons, KeyedList.amountOf_cons, KeyedList.amountOf_cons, hf, ih]
    by_cases hk : key x = k <;> simp [hk, hg]

section Signed

variable [Zero V] [Preorder V]

theorem Strict.exists_lt_zero_iff {l : List α} (h : Strict key l) :
    (∃ x ∈ l, amt x < 0) ↔ ∃ k, amountOf key amt l k < 0 := by
  constructor
  · rintro ⟨x, hx, hlt⟩
    exact ⟨key x, by rwa [h.amountOf_of_mem hx]⟩
  · rintro ⟨k, hk⟩
    obtain ⟨x, hx, -, ha⟩ := exists_mem_of_amountOf_ne_zero hk.ne
    exact ⟨x, hx, ha ▸ hk⟩

theorem amountOf_nonneg {l : List α} (h : ∀ x ∈ l, 0 < amt x) (k : K) :
    0 ≤ amountOf key amt l k := by
  by_cases hk : amountOf key amt l k = 0
  · exact hk.ge
  · obtain ⟨x, hx, -, ha⟩ := exists_mem_of_amountOf_ne_zero hk
    exact ha ▸ (h x hx).le

end Signed

theorem eq_of_amountOf_eq [Zero V] (hinj : ∀ x y, key x = key y → amt x = amt y → x = y) :
    ∀ {l₁ l₂ : List α}, Strict key l₁ → Strict key l₂ → (∀ x ∈ l₁, amt x ≠ 0) → (∀ x ∈ l₂, amt x ≠ 0) →
      (∀ k, amountOf key amt l₁ k = amountOf key amt l₂ k) → l₁ = l₂
  | [], [], _, _, _, _, _ => rfl
  | [], y :: l₂, _, _, _, h₂, h => by
    have := h (key y)
    rw [amountOf_nil, KeyedList.amountOf_cons, if_pos rfl] at this
    exact absurd this.symm (h₂ y List.mem_cons_self)
  | x :: l₁, [], _, _, h₁, _, h => by
    have := h (key x)
    rw [amountOf_nil, KeyedList.amountOf_cons, if_pos rfl] at this
    exact absurd this (h₁ x List.mem_cons_self)
  | x :: l₁, y :: l₂, s₁, s₂, h₁, h₂, h => by
    have hx := h (key x)
    have hy := h (key y)
    rcases lt_trichotomy (key x) (key y) with hlt | heq | hgt
    · -- the smaller key is missing from the other list
      rw [s₂.amountOf_of_lt hlt, KeyedList.amountOf_cons, if_pos rfl] at hx
      exact absurd hx (h₁ x List.mem_cons_self)
    · have hxy : x = y := by
        rw [KeyedList.amountOf_cons, KeyedList.amountOf_cons, if_pos rfl, if_pos heq.symm] at hx
        exact hinj x y heq hx
      subst hxy
      have htail : ∀ k, amountOf key amt l₁ k = amountOf key amt l₂ k := by
        intro k
        by_cases hk : key x = k
        · rw [← hk, s₁.amountOf_tail, s₂.amountOf_tail]
        · have := h k
          rwa [KeyedList.amountOf_cons, KeyedList.amountOf_cons, if_neg hk, if_neg hk] at this
      rw [eq_of_amountOf_eq hinj (strict_cons.mp s₁).2 (strict_cons.mp s₂).2
        (fun z hz => h₁ z (List.mem_cons_of_mem _ hz)) (fun z hz => h₂ z (List.mem_cons_of_mem _ hz)) htail]
    · rw [s₁.amountOf_of_lt hgt, KeyedList.amountOf_cons, if_pos rfl] at hy
      exact absurd hy.symm (h₂ y List.mem_cons_self)

/-! ### Sorting by key -/

theorem Strict.nodup_keys {l : List α} (h : Strict key l) : (l.map key).Nodup :=
  List.pairwise_map.mpr (h.imp ne_of_lt)

theorem strict_insertionSort {l : List α} (hl : (l.map key).Nodup) :
    Strict key (l.insertionSort fun a b => key a ≤ key b) := by
  have : Std.Total (fun a b : α => key a ≤ key b) := ⟨fun a b => le_total (key a) (key b)⟩
  have : IsTrans α (fun a b => key a ≤ key b) := ⟨fun _ _ _ h h' => h.trans h'⟩
  have hne : (l.insertionSort fun a b => key a ≤ key b).Pairwise fun a b => key a ≠ key b :=
    List.pairwise_map.mp (((List.perm_insertionSort _ l).map key).nodup_iff.mpr hl)
  exact ((List.pairwise_insertionSort _ l).and hne).imp fun h => lt_of_le_of_ne h.1 h.2

theorem Strict.insertionSort_eq {l : List α} (h : Strict key l) :
    (l.insertionSort fun a b => key a ≤ key b) = l :=
  List.Pairwise.insertionSort_eq (h.imp le_of_lt)

end Amount

/-! ### The merge -/

section Merge

variable (key : α → K) (plus : α → α → α) (isZero : α → Bool)

/-- The steps of a two-pointer merge that adds the entries of equal keys and drops
the zero ones. -/
inductive MergeAdd : List α → List α → List α → Prop
  | nil_left (bs : List α) : MergeAdd [] bs (bs.filter fun b => !isZero b)
  | nil_right (a : α) (as : List α) : MergeAdd (a :: as) [] ((a :: as).filter fun a => !isZero a)
  | lt {a b : α} {as bs out : List α} : key a < key b → MergeAdd as (b :: bs) out →
      MergeAdd (a :: as) (b :: bs) ((if isZero a then [] else [a]) ++ out)
  | eq {a b : α} {as bs out : List α} : key a = key b → MergeAdd as bs out →
      MergeAdd (a :: as) (b :: bs) ((if isZero (plus a b) then [] else [plus a b]) ++ out)
  | gt {a b : α} {as bs out : List α} : key b < key a → MergeAdd (a :: as) bs out →
      MergeAdd (a :: as) (b :: bs) ((if isZero b then [] else [b]) ++ out)

/-- The merge as a function, taking `MergeAdd`'s steps in order. -/
def mergeAddFn : List α → List α → List α
  | [], bs => bs.filter fun b => !isZero b
  | a :: as, [] => (a :: as).filter fun a => !isZero a
  | a :: as, b :: bs =>
    if key a < key b then (if isZero a then [] else [a]) ++ mergeAddFn as (b :: bs)
    else if key a = key b then (if isZero (plus a b) then [] else [plus a b]) ++ mergeAddFn as bs
    else (if isZero b then [] else [b]) ++ mergeAddFn (a :: as) bs
termination_by as bs => as.length + bs.length

theorem mergeAdd_mergeAddFn (as bs : List α) :
    MergeAdd key plus isZero as bs (mergeAddFn key plus isZero as bs) := by
  fun_induction mergeAddFn key plus isZero as bs with
  | case1 bs => exact .nil_left bs
  | case2 a as => exact .nil_right a as
  | case3 a as b bs hab ih => exact .lt hab ih
  | case4 a as b bs _ hab ih => exact .eq hab ih
  | case5 a as b bs hab hab' ih => exact .gt (lt_of_le_of_ne (not_lt.mp hab) (Ne.symm hab')) ih

theorem length_mergeAddFn_le (as bs : List α) :
    (mergeAddFn key plus isZero as bs).length ≤ as.length + bs.length := by
  fun_induction mergeAddFn key plus isZero as bs with
  | case1 bs => simpa using List.length_filter_le _ bs
  | case2 a as => simpa using List.length_filter_le _ (a :: as)
  | case3 a as b bs _ ih =>
    simp only [List.length_cons] at ih
    split <;> simp <;> omega
  | case4 a as b bs _ _ ih => split <;> simp <;> omega
  | case5 a as b bs _ _ ih =>
    simp only [List.length_cons] at ih
    split <;> simp <;> omega

/-- The entry of a list under a key: the first one with that key. -/
def entryAt (l : List α) (k : K) : Option α := l.find? fun x => key x = k

variable {key plus isZero}

/-! The steps of `mergeAddFn`, one lemma each, so that its callers do not unfold it. -/

theorem mergeAddFn_nil_right (as : List α) :
    mergeAddFn key plus isZero as [] = as.filter fun a => !isZero a := by
  cases as <;> simp [mergeAddFn]

theorem mergeAddFn_lt {a b : α} (as bs : List α) (h : key a < key b) :
    mergeAddFn key plus isZero (a :: as) (b :: bs) =
      (if isZero a then [] else [a]) ++ mergeAddFn key plus isZero as (b :: bs) := by
  rw [mergeAddFn, if_pos h]

theorem mergeAddFn_eq {a b : α} (as bs : List α) (h : key a = key b) :
    mergeAddFn key plus isZero (a :: as) (b :: bs) =
      (if isZero (plus a b) then [] else [plus a b]) ++ mergeAddFn key plus isZero as bs := by
  rw [mergeAddFn, if_neg h.not_lt, if_pos h]

theorem mergeAddFn_gt {a b : α} (as bs : List α) (h : key b < key a) :
    mergeAddFn key plus isZero (a :: as) (b :: bs) =
      (if isZero b then [] else [b]) ++ mergeAddFn key plus isZero (a :: as) bs := by
  rw [mergeAddFn, if_neg (not_lt_of_gt h), if_neg (ne_of_gt h)]

theorem mergeAddFn_dropWhile_right {p : α → Bool} (as bs : List α)
    (hp : ∀ b, p b = true → isZero b = true ∧ ∀ a ∈ as.head?, key b < key a) :
    mergeAddFn key plus isZero as (bs.dropWhile p) = mergeAddFn key plus isZero as bs := by
  induction bs with
  | nil => rfl
  | cons b bs ih =>
    rw [List.dropWhile_cons]
    by_cases hb : p b = true
    · obtain ⟨hz, hlt⟩ := hp b hb
      rw [if_pos hb, ih]
      cases as with
      | nil => simp [mergeAddFn, hz]
      | cons a as => rw [mergeAddFn_gt as bs (hlt a rfl), if_pos hz, List.nil_append]
    · rw [if_neg hb]

theorem mem_emit {x y : α} : y ∈ (if isZero x then [] else [x]) ↔ y = x ∧ isZero x = false := by
  cases h : isZero x <;> simp

theorem MergeAdd.mem {as bs out : List α} (h : MergeAdd key plus isZero as bs out) {x : α} (hx : x ∈ out) :
    (x ∈ as ∨ x ∈ bs ∨ ∃ a ∈ as, ∃ b ∈ bs, key a = key b ∧ x = plus a b) ∧ isZero x = false := by
  induction h with
  | nil_left bs =>
    obtain ⟨hx, hz⟩ := List.mem_filter.mp hx
    exact ⟨.inr (.inl hx), by simpa using hz⟩
  | nil_right a as =>
    obtain ⟨hx, hz⟩ := List.mem_filter.mp hx
    exact ⟨.inl hx, by simpa using hz⟩
  | @lt a b as bs out _ _ ih =>
    rcases List.mem_append.mp hx with hx | hx
    · obtain ⟨rfl, hz⟩ := mem_emit.mp hx
      exact ⟨.inl List.mem_cons_self, hz⟩
    · obtain ⟨hm, hz⟩ := ih hx
      refine ⟨?_, hz⟩
      rcases hm with hm | hm | ⟨a', ha', b', hb', hk, rfl⟩
      · exact .inl (List.mem_cons_of_mem _ hm)
      · exact .inr (.inl hm)
      · exact .inr (.inr ⟨a', List.mem_cons_of_mem _ ha', b', hb', hk, rfl⟩)
  | @eq a b as bs out hab _ ih =>
    rcases List.mem_append.mp hx with hx | hx
    · obtain ⟨rfl, hz⟩ := mem_emit.mp hx
      exact ⟨.inr (.inr ⟨a, List.mem_cons_self, b, List.mem_cons_self, hab, rfl⟩), hz⟩
    · obtain ⟨hm, hz⟩ := ih hx
      refine ⟨?_, hz⟩
      rcases hm with hm | hm | ⟨a', ha', b', hb', hk, rfl⟩
      · exact .inl (List.mem_cons_of_mem _ hm)
      · exact .inr (.inl (List.mem_cons_of_mem _ hm))
      · exact .inr (.inr ⟨a', List.mem_cons_of_mem _ ha', b', List.mem_cons_of_mem _ hb', hk, rfl⟩)
  | @gt a b as bs out _ _ ih =>
    rcases List.mem_append.mp hx with hx | hx
    · obtain ⟨rfl, hz⟩ := mem_emit.mp hx
      exact ⟨.inr (.inl List.mem_cons_self), hz⟩
    · obtain ⟨hm, hz⟩ := ih hx
      refine ⟨?_, hz⟩
      rcases hm with hm | hm | ⟨a', ha', b', hb', hk, rfl⟩
      · exact .inl hm
      · exact .inr (.inl (List.mem_cons_of_mem _ hm))
      · exact .inr (.inr ⟨a', ha', b', List.mem_cons_of_mem _ hb', hk, rfl⟩)

theorem entryAt_cons (x : α) (l : List α) (k : K) :
    entryAt key (x :: l) k = if key x = k then some x else entryAt key l k := by
  unfold entryAt
  by_cases h : key x = k <;> simp [h]

theorem entryAt_of_lt {l : List α} {k : K} (h : ∀ y ∈ l, k < key y) : entryAt key l k = none := by
  unfold entryAt
  rw [List.find?_eq_none]
  intro y hy
  simpa using (h y hy).ne'

theorem entryAt_emit {x : α} {l : List α} {k : K} (h : key x = k → entryAt key l k = none) :
    entryAt key ((if isZero x then [] else [x]) ++ l) k =
      if key x = k then (some x).filter (fun x => !isZero x) else entryAt key l k := by
  by_cases hk : key x = k <;> cases hz : isZero x <;> simp [hk, hz, h, entryAt_cons, Option.filter_some]

theorem Strict.entryAt_eq_some_iff {l : List α} (h : Strict key l) {k : K} {x : α} :
    entryAt key l k = some x ↔ x ∈ l ∧ key x = k := by
  induction l with
  | nil => simp [entryAt]
  | cons y l ih =>
    obtain ⟨hy, hl⟩ := strict_cons.mp h
    rw [entryAt_cons, List.mem_cons]
    by_cases hk : key y = k
    · subst hk
      have : x ∈ l → key x ≠ key y := fun hx he => lt_irrefl _ (he ▸ hy x hx)
      constructor
      · rw [if_pos rfl]
        rintro ⟨⟩
        exact ⟨.inl rfl, rfl⟩
      · rintro ⟨hx | hx, he⟩
        · rw [if_pos rfl, hx]
        · exact absurd he (this hx)
    · rw [if_neg hk, ih hl]
      constructor
      · exact fun ⟨hx, he⟩ => ⟨.inr hx, he⟩
      · rintro ⟨hx | hx, he⟩
        · exact absurd (hx ▸ he) hk
        · exact ⟨hx, he⟩

theorem Strict.entryAt_filter {l : List α} (h : Strict key l) (p : α → Bool) (k : K) :
    entryAt key (l.filter p) k = (entryAt key l k).filter p := by
  induction l with
  | nil => rfl
  | cons y l ih =>
    obtain ⟨hy, hl⟩ := strict_cons.mp h
    rw [List.filter_cons, entryAt_cons]
    by_cases hk : key y = k
    · subst hk
      have hnone : entryAt key (l.filter p) (key y) = none :=
        entryAt_of_lt fun z hz => hy z (List.mem_filter.mp hz).1
      cases hp : p y <;> simp [hp, entryAt_cons, hnone, Option.filter_some]
    · rw [if_neg hk, ← ih hl]
      cases p y <;> simp [entryAt_cons, hk]

theorem strict_emit {x : α} {out : List α} (hx : ∀ y ∈ out, key x < key y) (h : Strict key out) :
    Strict key ((if isZero x then [] else [x]) ++ out) := by
  cases isZero x
  · exact strict_cons.mpr ⟨hx, h⟩
  · exact h

section Keys

variable (hkey : ∀ a b, key (plus a b) = key a)
include hkey

theorem MergeAdd.key_mem {as bs out : List α} (h : MergeAdd key plus isZero as bs out) {x : α} (hx : x ∈ out) :
    ∃ y ∈ as ++ bs, key y = key x := by
  rcases (h.mem hx).1 with hm | hm | ⟨a, ha, b, -, -, rfl⟩
  · exact ⟨x, List.mem_append_left _ hm, rfl⟩
  · exact ⟨x, List.mem_append_right _ hm, rfl⟩
  · exact ⟨a, List.mem_append_left _ ha, (hkey a b).symm⟩

theorem MergeAdd.lt_key {as bs out : List α} (h : MergeAdd key plus isZero as bs out) {k : K}
    (has : ∀ y ∈ as, k < key y) (hbs : ∀ y ∈ bs, k < key y) : ∀ x ∈ out, k < key x := by
  intro x hx
  obtain ⟨y, hy, hk⟩ := h.key_mem hkey hx
  rcases List.mem_append.mp hy with hy | hy
  · exact hk ▸ has y hy
  · exact hk ▸ hbs y hy

theorem MergeAdd.strict {as bs out : List α} (h : MergeAdd key plus isZero as bs out) (has : Strict key as)
    (hbs : Strict key bs) : Strict key out := by
  induction h with
  | nil_left bs => exact hbs.filter _
  | nil_right a as => exact has.filter _
  | @lt a b as bs out hab hm ih =>
    have ha := strict_cons.mp has
    have hb := strict_cons.mp hbs
    refine strict_emit (hm.lt_key hkey ha.1 fun y hy => ?_) (ih ha.2 hbs)
    rcases List.mem_cons.mp hy with rfl | hy
    · exact hab
    · exact hab.trans (hb.1 y hy)
  | @eq a b as bs out hab hm ih =>
    have ha := strict_cons.mp has
    have hb := strict_cons.mp hbs
    refine strict_emit ?_ (ih ha.2 hb.2)
    rw [hkey]
    exact hm.lt_key hkey ha.1 fun y hy => hab ▸ hb.1 y hy
  | @gt a b as bs out hab hm ih =>
    have ha := strict_cons.mp has
    have hb := strict_cons.mp hbs
    refine strict_emit (hm.lt_key hkey (fun y hy => ?_) hb.1) (ih has hb.2)
    rcases List.mem_cons.mp hy with rfl | hy
    · exact hab
    · exact hab.trans (ha.1 y hy)

theorem MergeAdd.amountOf_out [AddCommMonoid V] {amt : α → V} (hamt : ∀ a b, amt (plus a b) = amt a + amt b)
    (hzero : ∀ x, isZero x = true → amt x = 0) {as bs out : List α} (h : MergeAdd key plus isZero as bs out)
    (has : Strict key as) (hbs : Strict key bs) (k : K) :
    amountOf key amt out k = amountOf key amt as k + amountOf key amt bs k := by
  induction h generalizing k with
  | nil_left bs => rw [hbs.amountOf_filter hzero, amountOf_nil, zero_add]
  | nil_right a as => rw [has.amountOf_filter hzero, amountOf_nil, add_zero]
  | @lt a b as bs out hab _ ih =>
    have ha := (strict_cons.mp has).2
    -- at the key of `a` neither the rest of `as` nor `b :: bs` has an amount
    have hout : key a = k → amountOf key amt out k = 0 := by
      rintro rfl
      rw [ih ha hbs, has.amountOf_tail, hbs.amountOf_of_lt hab, add_zero]
    rw [amountOf_emit hzero hout, ih ha hbs, has.amountOf_cons, add_assoc]
  | @eq a b as bs out hab _ ih =>
    have ha := (strict_cons.mp has).2
    have hb := (strict_cons.mp hbs).2
    have hout : key (plus a b) = k → amountOf key amt out k = 0 := by
      rw [hkey]
      rintro rfl
      rw [ih ha hb, has.amountOf_tail, hab, hbs.amountOf_tail, add_zero]
    rw [amountOf_emit hzero hout, ih ha hb, has.amountOf_cons, hbs.amountOf_cons, hkey, ← hab]
    by_cases hk : key a = k
    · rw [if_pos hk, if_pos hk, if_pos hk, hamt]
      abel
    · rw [if_neg hk, if_neg hk, if_neg hk, zero_add, zero_add, zero_add]
  | @gt a b as bs out hab _ ih =>
    have hb := (strict_cons.mp hbs).2
    have hout : key b = k → amountOf key amt out k = 0 := by
      rintro rfl
      rw [ih has hb, hbs.amountOf_tail, has.amountOf_of_lt hab, zero_add]
    rw [amountOf_emit hzero hout, ih has hb, hbs.amountOf_cons]
    abel

theorem MergeAdd.amountOf_sub [AddCommGroup V] {amt : α → V} {neg : α → α}
    (hamt : ∀ a b, amt (plus a b) = amt a + amt b) (hzero : ∀ x, isZero x = true → amt x = 0)
    (hnk : ∀ x, key (neg x) = key x) (hna : ∀ x, amt (neg x) = -amt x)
    {as bs out : List α} (h : MergeAdd key plus isZero as (bs.map neg) out)
    (has : Strict key as) (hbs : Strict key bs) (k : K) :
    amountOf key amt out k = amountOf key amt as k - amountOf key amt bs k := by
  rw [h.amountOf_out hkey hamt hzero has (hbs.map hnk), amountOf_map hnk hna neg_zero,
    sub_eq_add_neg]

theorem MergeAdd.entryAt_out {as bs out : List α} (h : MergeAdd key plus isZero as bs out)
    (has : Strict key as) (hbs : Strict key bs) (k : K) :
    entryAt key out k =
      (Option.merge plus (entryAt key as k) (entryAt key bs k)).filter (fun x => !isZero x) := by
  induction h with
  | nil_left bs =>
    rw [hbs.entryAt_filter]
    cases entryAt key bs k <;> rfl
  | nil_right a as =>
    rw [has.entryAt_filter]
    cases entryAt key (a :: as) k <;> rfl
  | @lt a b as bs out hab hm ih =>
    have ha := strict_cons.mp has
    have hb := strict_cons.mp hbs
    have hbk : key a = k → entryAt key (b :: bs) k = none := by
      rintro rfl
      exact entryAt_of_lt fun y hy => (List.mem_cons.mp hy).elim (· ▸ hab) fun hy => hab.trans (hb.1 y hy)
    rw [entryAt_emit fun hk => by rw [ih ha.2 hbs, entryAt_of_lt (l := as) (hk ▸ ha.1), hbk hk]; rfl,
      entryAt_cons, ih ha.2 hbs]
    by_cases hk : key a = k
    · rw [if_pos hk, if_pos hk, hbk hk]
      rfl
    · rw [if_neg hk, if_neg hk]
  | @eq a b as bs out hab hm ih =>
    have ha := strict_cons.mp has
    have hb := strict_cons.mp hbs
    rw [entryAt_emit fun hk => by
        rw [ih ha.2 hb.2, entryAt_of_lt (l := as) (hk ▸ (hkey a b).symm ▸ ha.1),
          entryAt_of_lt (l := bs) (hk ▸ (hkey a b).symm ▸ hab ▸ hb.1)]
        rfl,
      entryAt_cons, entryAt_cons, ih ha.2 hb.2, hkey]
    by_cases hk : key a = k
    · rw [if_pos hk, if_pos hk, if_pos (hab ▸ hk)]
      rfl
    · rw [if_neg hk, if_neg hk, if_neg (hab ▸ hk)]
  | @gt a b as bs out hab hm ih =>
    have ha := strict_cons.mp has
    have hb := strict_cons.mp hbs
    have hak : key b = k → entryAt key (a :: as) k = none := by
      rintro rfl
      exact entryAt_of_lt fun y hy => (List.mem_cons.mp hy).elim (· ▸ hab) fun hy => hab.trans (ha.1 y hy)
    rw [entryAt_emit fun hk => by rw [ih has hb.2, hak hk, entryAt_of_lt (l := bs) (hk ▸ hb.1)]; rfl,
      entryAt_cons b bs, ih has hb.2]
    by_cases hk : key b = k
    · rw [if_pos hk, if_pos hk, hak hk]
      cases entryAt key (a :: as) k <;> rfl
    · rw [if_neg hk, if_neg hk]

/-- When the sum of two entries of one key is the right one, the output holds the right
list's nonzero entries and the left list's nonzero entries under keys the right one lacks. -/
theorem MergeAdd.mem_iff {as bs out : List α} (h : MergeAdd key plus isZero as bs out)
    (hplus : ∀ a b, key a = key b → plus a b = b) (has : Strict key as) (hbs : Strict key bs)
    (x : α) : x ∈ out ↔ isZero x = false ∧ (x ∈ bs ∨ x ∈ as ∧ ∀ b ∈ bs, key b ≠ key x) := by
  have hout := h.strict hkey has hbs
  rw [← (hout.entryAt_eq_some_iff).trans (and_iff_left rfl), h.entryAt_out hkey has hbs]
  cases hb : entryAt key bs (key x) with
  | some b =>
    -- the right list has an entry under the key: it is the one in the output
    obtain ⟨hbm, hbk⟩ := hbs.entryAt_eq_some_iff.mp hb
    have hx : x ∈ bs ↔ b = x := ⟨fun hx => Option.some.inj
      (hb.symm.trans (hbs.entryAt_eq_some_iff.mpr ⟨hx, rfl⟩)), fun h => h ▸ hbm⟩
    have hmerge : Option.merge plus (entryAt key as (key x)) (some b) = some b := by
      cases ha : entryAt key as (key x) with
      | none => rfl
      | some a =>
        obtain ⟨-, hak⟩ := has.entryAt_eq_some_iff.mp ha
        exact congrArg some (hplus a b (hak.trans hbk.symm))
    rw [hmerge, Option.filter_some, hx]
    by_cases hbx : b = x
    · subst hbx
      cases isZero b <;> simp
    · have hn : ¬ ∀ b' ∈ bs, key b' ≠ key x := fun h => h b hbm hbk
      simp [hbx, hn]
  | none =>
    have hnb : ∀ b ∈ bs, key b ≠ key x := fun b hb' hk => by
      rw [hbs.entryAt_eq_some_iff.mpr ⟨hb', hk⟩] at hb
      cases hb
    have hx : x ∉ bs := fun hx => hnb x hx rfl
    cases ha : entryAt key as (key x) with
    | none =>
      have hxa : x ∉ as := fun hxa => by
        rw [has.entryAt_eq_some_iff.mpr ⟨hxa, rfl⟩] at ha
        cases ha
      simp [Option.merge, hx, hxa]
    | some a =>
      obtain ⟨ham, hak⟩ := has.entryAt_eq_some_iff.mp ha
      have hxa : x ∈ as ↔ a = x := ⟨fun hxa => Option.some.inj
        (ha.symm.trans (has.entryAt_eq_some_iff.mpr ⟨hxa, rfl⟩)), fun h => h ▸ ham⟩
      simp only [Option.merge, Option.filter_some, hx, hxa, false_or]
      by_cases hax : a = x
      · subst hax
        cases isZero a
        · simpa using hnb
        · simp
      · simp [hax]

/-! Subtraction: merging sorted lists of positive entries with the second one negated. -/

section Sub

variable [AddCommGroup V] [LinearOrder V] [IsOrderedAddMonoid V] {amt : α → V} {neg : α → α}
  (hamt : ∀ a b, amt (plus a b) = amt a + amt b) (hzero : ∀ x, isZero x = true ↔ amt x = 0)
  (hnk : ∀ x, key (neg x) = key x) (hna : ∀ x, amt (neg x) = -amt x)
  {as bs out : List α} (h : MergeAdd key plus isZero as (bs.map neg) out)
  (has : Strict key as) (hbs : Strict key bs)
include hamt hzero hnk hna h has hbs

theorem MergeAdd.exists_neg_iff :
    (∃ x ∈ out, amt x < 0) ↔ ∃ k, amountOf key amt as k < amountOf key amt bs k := by
  rw [(h.strict hkey has (hbs.map hnk)).exists_lt_zero_iff]
  simp only [h.amountOf_sub hkey hamt (fun x hx => (hzero x).mp hx) hnk hna has hbs, sub_neg]

theorem MergeAdd.pos_of_not_neg (hpb : ∀ x ∈ bs, 0 < amt x) (hneg : ∀ x ∈ out, ¬ amt x < 0) :
    ∀ x ∈ out, 0 < amt x ∧ ∃ y ∈ as, key y = key x := by
  intro x hx
  have hnz : amt x ≠ 0 := fun h0 => by simpa [(hzero x).mpr h0] using (h.mem hx).2
  have hpos : 0 < amt x := lt_of_le_of_ne (not_lt.mp (hneg x hx)) (Ne.symm hnz)
  -- the first list has more than the second under the key, so it has the key
  have hamt := h.amountOf_sub hkey hamt (fun x hx => (hzero x).mp hx) hnk hna has hbs (key x)
  rw [(h.strict hkey has (hbs.map hnk)).amountOf_of_mem hx] at hamt
  have hb0 : 0 ≤ amountOf key amt bs (key x) := amountOf_nonneg hpb (key x)
  have ha0 : amountOf key amt as (key x) ≠ 0 := by
    intro h0
    rw [h0, zero_sub] at hamt
    exact absurd (hamt ▸ hpos) (not_lt.mpr (neg_nonpos.mpr hb0))
  obtain ⟨y, hy, hk, -⟩ := exists_mem_of_amountOf_ne_zero ha0
  exact ⟨hpos, y, hy, hk⟩

end Sub

end Keys

theorem MergeAdd.head {as bs out : List α} (h : MergeAdd key plus isZero as bs out)
    (has : ∀ x ∈ as, isZero x = false) (hbs : ∀ x ∈ bs, isZero x = false)
    (hplus : ∀ a ∈ as, ∀ b ∈ bs, key a = key b → isZero (plus a b) = false) :
    ∀ x ∈ out.head?, x ∈ as.head? ∨ x ∈ bs.head? ∨ ∃ a ∈ as.head?, ∃ b ∈ bs.head?, x = plus a b := by
  intro x hx
  cases h with
  | nil_left bs =>
    cases bs with
    | nil => simp at hx
    | cons b bs => simp_all
  | nil_right a as => simp_all
  | lt => simp_all
  | @eq a b as bs out hab _ =>
    rw [hplus a List.mem_cons_self b List.mem_cons_self hab] at hx
    simp_all
  | gt => simp_all

theorem MergeAdd.valid {P H : α → Prop} {as bs out : List α} (h : MergeAdd key plus isZero as bs out)
    (hkey : ∀ a b, key (plus a b) = key a) (hPplus : ∀ a b, key a = key b → P a → P b → P (plus a b))
    (hHplus : ∀ a b, H a → H (plus a b)) (hPzero : ∀ x, P x → isZero x = false)
    (has : Strict key as ∧ (∀ x ∈ as, P x) ∧ ∀ x ∈ as.head?, H x)
    (hbs : Strict key bs ∧ (∀ x ∈ bs, P x) ∧ ∀ x ∈ bs.head?, H x) :
    Strict key out ∧ (∀ x ∈ out, P x) ∧ ∀ x ∈ out.head?, H x := by
  obtain ⟨hsa, hPa, hHa⟩ := has
  obtain ⟨hsb, hPb, hHb⟩ := hbs
  refine ⟨h.strict hkey hsa hsb, fun x hx => ?_, fun x hx => ?_⟩
  · rcases (h.mem hx).1 with hm | hm | ⟨a, ha, b, hb, hab, rfl⟩
    · exact hPa x hm
    · exact hPb x hm
    · exact hPplus a b hab (hPa a ha) (hPb b hb)
  · have hplus : ∀ a ∈ as, ∀ b ∈ bs, key a = key b → isZero (plus a b) = false :=
      fun a ha b hb hab => hPzero _ (hPplus a b hab (hPa a ha) (hPb b hb))
    rcases h.head (fun x hx => hPzero x (hPa x hx)) (fun x hx => hPzero x (hPb x hx)) hplus x hx with
      hm | hm | ⟨a, ha, b, -, rfl⟩
    · exact hHa x hm
    · exact hHb x hm
    · exact hHplus a b (hHa a ha)

theorem MergeAdd.of_fuel (f : Nat → List α → List α → List α)
    (hnil_left : ∀ k bs, f (k + 1) [] bs = bs.filter fun b => !isZero b)
    (hnil_right : ∀ k a as, f (k + 1) (a :: as) [] = (a :: as).filter fun a => !isZero a)
    (hlt : ∀ k a as b bs, key a < key b →
      f (k + 1) (a :: as) (b :: bs) = (if isZero a then [] else [a]) ++ f k as (b :: bs))
    (heq : ∀ k a as b bs, key a = key b →
      f (k + 1) (a :: as) (b :: bs) = (if isZero (plus a b) then [] else [plus a b]) ++ f k as bs)
    (hgt : ∀ k a as b bs, key b < key a →
      f (k + 1) (a :: as) (b :: bs) = (if isZero b then [] else [b]) ++ f k (a :: as) bs) :
    ∀ k as bs, as.length + bs.length < k → MergeAdd key plus isZero as bs (f k as bs)
  | 0, _, _, hk => absurd hk (Nat.not_lt_zero _)
  | k + 1, [], bs, _ => hnil_left k bs ▸ .nil_left bs
  | k + 1, a :: as, [], _ => hnil_right k a as ▸ .nil_right a as
  | k + 1, a :: as, b :: bs, hk => by
    simp only [List.length_cons] at hk
    -- each step consumes an entry of one list or of both
    rcases lt_trichotomy (key a) (key b) with hab | hab | hab
    · rw [hlt k a as b bs hab]
      exact .lt hab (MergeAdd.of_fuel f hnil_left hnil_right hlt heq hgt k as (b :: bs) (by simp; omega))
    · rw [heq k a as b bs hab]
      exact .eq hab (MergeAdd.of_fuel f hnil_left hnil_right hlt heq hgt k as bs (by omega))
    · rw [hgt k a as b bs hab]
      exact .gt hab (MergeAdd.of_fuel f hnil_left hnil_right hlt heq hgt k (a :: as) bs (by simp; omega))

theorem MergeAdd.unique {as bs o₁ o₂ : List α} (h₁ : MergeAdd key plus isZero as bs o₁)
    (h₂ : MergeAdd key plus isZero as bs o₂) : o₁ = o₂ := by
  induction h₁ generalizing o₂ with
  | nil_left bs => cases h₂; rfl
  | nil_right a as => cases h₂; rfl
  | lt hab _ ih =>
    cases h₂ with
    | lt _ h => rw [ih h]
    | eq hab' => exact absurd hab' hab.ne
    | gt hab' => exact absurd hab (lt_asymm hab')
  | eq hab _ ih =>
    cases h₂ with
    | lt hab' => exact absurd hab hab'.ne
    | eq _ h => rw [ih h]
    | gt hab' => exact absurd hab hab'.ne'
  | gt hab _ ih =>
    cases h₂ with
    | lt hab' => exact absurd hab (lt_asymm hab')
    | eq hab' => exact absurd hab' hab.ne'
    | gt _ h => rw [ih h]

end Merge

/-! ### A merge whose sum can fail

The merges of the source add the two entries of one key with an addition that panics on
overflow. The checked merge takes `MergeAdd`'s steps and fails at the first pair of one key
whose sum fails. Where every such pair sums it returns the `MergeAdd` output of that sum, and
over sorted lists it fails, with the error of such a pair, as soon as one of them does. -/

section Checked

variable (key : α → K) (isZero : α → Bool) {ε : Type*} (plus? : α → α → Except ε α)

/-- The merge with a sum that can fail, with a step count as fuel. -/
def mergeAddChecked : Nat → List α → List α → Except ε (List α)
  | 0, _, _ => .ok []
  | _ + 1, [], bs => .ok (bs.filter fun b => !isZero b)
  | _ + 1, a :: as, [] => .ok ((a :: as).filter fun a => !isZero a)
  | k + 1, a :: as, b :: bs =>
    match compare (key a) (key b) with
    | .lt => ((if isZero a then [] else [a]) ++ ·) <$> mergeAddChecked k as (b :: bs)
    | .eq => do
      let r ← plus? a b
      ((if isZero r then [] else [r]) ++ ·) <$> mergeAddChecked k as bs
    | .gt => ((if isZero b then [] else [b]) ++ ·) <$> mergeAddChecked k (a :: as) bs

variable {key isZero plus?}

theorem mergeAddChecked_lt {k : Nat} {a b : α} (as bs : List α) (h : key a < key b) :
    mergeAddChecked key isZero plus? (k + 1) (a :: as) (b :: bs) =
      ((if isZero a then [] else [a]) ++ ·) <$> mergeAddChecked key isZero plus? k as (b :: bs) := by
  rw [mergeAddChecked, compare_lt_iff_lt.mpr h]

theorem mergeAddChecked_eq {k : Nat} {a b : α} (as bs : List α) (h : key a = key b) :
    mergeAddChecked key isZero plus? (k + 1) (a :: as) (b :: bs) = (do
      let r ← plus? a b
      ((if isZero r then [] else [r]) ++ ·) <$> mergeAddChecked key isZero plus? k as bs) := by
  rw [mergeAddChecked, compare_eq_iff_eq.mpr h]

theorem mergeAddChecked_gt {k : Nat} {a b : α} (as bs : List α) (h : key b < key a) :
    mergeAddChecked key isZero plus? (k + 1) (a :: as) (b :: bs) =
      ((if isZero b then [] else [b]) ++ ·) <$> mergeAddChecked key isZero plus? k (a :: as) bs := by
  rw [mergeAddChecked, compare_gt_iff_gt.mpr h]

/-- Where every pair of one key sums, the checked merge returns the output `MergeAdd` gives with
that sum. -/
theorem mergeAddChecked_eq_ok (plus : α → α → α) :
    ∀ (k : Nat) (as bs : List α), as.length + bs.length < k →
      (∀ a ∈ as, ∀ b ∈ bs, key a = key b → plus? a b = .ok (plus a b)) →
      ∃ out, mergeAddChecked key isZero plus? k as bs = .ok out ∧ MergeAdd key plus isZero as bs out
  | 0, _, _, hk, _ => absurd hk (Nat.not_lt_zero _)
  | k + 1, [], bs, _, _ => ⟨_, rfl, .nil_left bs⟩
  | k + 1, a :: as, [], _, _ => ⟨_, rfl, .nil_right a as⟩
  | k + 1, a :: as, b :: bs, hk, hsum => by
    simp only [List.length_cons] at hk
    rcases lt_trichotomy (key a) (key b) with hab | hab | hab
    · obtain ⟨out, hout, hm⟩ := mergeAddChecked_eq_ok plus k as (b :: bs) (by simp; omega)
        fun x hx y hy => hsum x (List.mem_cons_of_mem _ hx) y hy
      refine ⟨_, ?_, .lt hab hm⟩
      rw [mergeAddChecked_lt as bs hab, hout]
      rfl
    · obtain ⟨out, hout, hm⟩ := mergeAddChecked_eq_ok plus k as bs (by omega)
        fun x hx y hy => hsum x (List.mem_cons_of_mem _ hx) y (List.mem_cons_of_mem _ hy)
      refine ⟨_, ?_, .eq hab hm⟩
      rw [mergeAddChecked_eq as bs hab, hsum a List.mem_cons_self b List.mem_cons_self hab, hout]
      rfl
    · obtain ⟨out, hout, hm⟩ := mergeAddChecked_eq_ok plus k (a :: as) bs (by simp; omega)
        fun x hx y hy => hsum x hx y (List.mem_cons_of_mem _ hy)
      refine ⟨_, ?_, .gt hab hm⟩
      rw [mergeAddChecked_gt as bs hab, hout]
      rfl

theorem mergeAddChecked_of_disjoint {k : Nat} {as bs : List α} (hk : as.length + bs.length < k)
    (hdisj : ∀ a ∈ as, ∀ b ∈ bs, key a ≠ key b) :
    ∃ out, mergeAddChecked key isZero plus? k as bs = .ok out ∧ ∀ plus, MergeAdd key plus isZero as bs out := by
  have hnone : ∀ plus : α → α → α, ∀ a ∈ as, ∀ b ∈ bs, key a = key b → plus? a b = .ok (plus a b) :=
    fun _ a ha b hb hab => absurd hab (hdisj a ha b hb)
  obtain ⟨out, hout, -⟩ := mergeAddChecked_eq_ok (fun a _ => a) k as bs hk (hnone _)
  refine ⟨out, hout, fun plus => ?_⟩
  obtain ⟨out', hout', hm⟩ := mergeAddChecked_eq_ok plus k as bs hk (hnone plus)
  rw [hout] at hout'
  cases hout'
  exact hm

theorem Strict.eq_head_of_key_eq {x y : α} {l : List α} (h : Strict key (x :: l)) (hy : y ∈ x :: l)
    (hk : key y = key x) : y = x := by
  rcases List.mem_cons.mp hy with rfl | hy
  · rfl
  · exact absurd hk ((strict_cons.mp h).1 y hy).ne'

theorem mergeAddChecked_eq_error :
    ∀ (k : Nat) (as bs : List α), as.length + bs.length < k → Strict key as → Strict key bs →
      (∃ a ∈ as, ∃ b ∈ bs, key a = key b ∧ ∃ e, plus? a b = .error e) →
      ∃ e, mergeAddChecked key isZero plus? k as bs = .error e ∧
        ∃ a ∈ as, ∃ b ∈ bs, key a = key b ∧ plus? a b = .error e
  | 0, _, _, hk, _, _, _ => absurd hk (Nat.not_lt_zero _)
  | k + 1, [], _, _, _, _, ⟨_, ha, _⟩ => absurd ha List.not_mem_nil
  | k + 1, _ :: _, [], _, _, _, ⟨_, _, _, hb, _⟩ => absurd hb List.not_mem_nil
  | k + 1, a' :: as, b' :: bs, hk, has, hbs, ⟨a, ha, b, hb, hab, e, he⟩ => by
    simp only [List.length_cons] at hk
    have ha' := strict_cons.mp has
    have hb' := strict_cons.mp hbs
    -- the failing pair's keys are at least the heads'
    have hka : key a' ≤ key a := by
      rcases List.mem_cons.mp ha with rfl | ha
      · exact le_rfl
      · exact (ha'.1 a ha).le
    have hkb : key b' ≤ key b := by
      rcases List.mem_cons.mp hb with rfl | hb
      · exact le_rfl
      · exact (hb'.1 b hb).le
    rcases lt_trichotomy (key a') (key b') with hlt | heq | hgt
    · -- `a'` has no partner, so the failing pair is further on the left
      have ha₁ : a ∈ as := List.mem_of_ne_of_mem (fun h => (hlt.trans_le hkb).ne' (by rw [← hab, h])) ha
      obtain ⟨e', he', hpair⟩ := mergeAddChecked_eq_error k as (b' :: bs) (by simp; omega) ha'.2 hbs
        ⟨a, ha₁, b, hb, hab, e, he⟩
      obtain ⟨x, hx, y, hy, hxy, hfail⟩ := hpair
      refine ⟨e', ?_, x, List.mem_cons_of_mem _ hx, y, hy, hxy, hfail⟩
      rw [mergeAddChecked_lt as bs hlt, he']
      rfl
    · cases hr : plus? a' b' with
      | error e' =>
        refine ⟨e', ?_, a', List.mem_cons_self, b', List.mem_cons_self, heq, hr⟩
        rw [mergeAddChecked_eq as bs heq, hr]
        rfl
      | ok r =>
        -- the heads sum, so the failing pair is in the tails
        have hne : a ≠ a' := by
          rintro rfl
          obtain rfl := hbs.eq_head_of_key_eq hb (by rw [← hab, heq])
          rw [hr] at he
          cases he
        have ha₁ : a ∈ as := List.mem_of_ne_of_mem hne ha
        have hb₁ : b ∈ bs :=
          List.mem_of_ne_of_mem (fun h => hne (has.eq_head_of_key_eq ha (by rw [hab, h, heq]))) hb
        obtain ⟨e', he', hpair⟩ := mergeAddChecked_eq_error k as bs (by omega) ha'.2 hb'.2
          ⟨a, ha₁, b, hb₁, hab, e, he⟩
        obtain ⟨x, hx, y, hy, hxy, hfail⟩ := hpair
        refine ⟨e', ?_, x, List.mem_cons_of_mem _ hx, y, List.mem_cons_of_mem _ hy, hxy, hfail⟩
        rw [mergeAddChecked_eq as bs heq, hr]
        change ((if isZero r then [] else [r]) ++ ·) <$> mergeAddChecked key isZero plus? k as bs = _
        rw [he']
        rfl
    · have hb₁ : b ∈ bs := List.mem_of_ne_of_mem (fun h => (hgt.trans_le hka).ne' (by rw [hab, h])) hb
      obtain ⟨e', he', hpair⟩ := mergeAddChecked_eq_error k (a' :: as) bs (by simp; omega) has hb'.2
        ⟨a, ha, b, hb₁, hab, e, he⟩
      obtain ⟨x, hx, y, hy, hxy, hfail⟩ := hpair
      refine ⟨e', ?_, x, hx, y, List.mem_cons_of_mem _ hy, hxy, hfail⟩
      rw [mergeAddChecked_gt as bs hgt, he']
      rfl

section Bounded

variable [AddCommMonoid V] (amt : α → V) (Fits : V → Prop) {plus : α → α → α} {e₀ : ε}
  (hplus : ∀ a b, key a = key b → (Fits (amt a + amt b) → plus? a b = .ok (plus a b)) ∧
    (¬ Fits (amt a + amt b) → plus? a b = .error e₀))
include hplus

theorem mergeAddChecked_of_fits {k : Nat} {as bs : List α} (hk : as.length + bs.length < k)
    (has : Strict key as) (hbs : Strict key bs) (hfit : ∀ k', Fits (amountOf key amt as k' + amountOf key amt bs k')) :
    ∃ out, mergeAddChecked key isZero plus? k as bs = .ok out ∧ MergeAdd key plus isZero as bs out :=
  mergeAddChecked_eq_ok plus k as bs hk fun a ha b hb hab => (hplus a b hab).1 (by
    have h := hfit (key a)
    rwa [has.amountOf_of_mem ha, hab, hbs.amountOf_of_mem hb] at h)

theorem mergeAddChecked_of_not_fits (hzero : Fits 0) {k : Nat} {as bs : List α} (hk : as.length + bs.length < k)
    (has : Strict key as) (hbs : Strict key bs) (hentry : ∀ x ∈ as ++ bs, Fits (amt x))
    (hover : ∃ k', ¬ Fits (amountOf key amt as k' + amountOf key amt bs k')) :
    mergeAddChecked key isZero plus? k as bs = .error e₀ := by
  obtain ⟨k', hk'⟩ := hover
  -- under a key of one list only, the sum is that list's amount, which is within the bound
  have hone : ∀ l : List α, (∀ x ∈ l, Fits (amt x)) → Fits (amountOf key amt l k') := fun l hl => by
    by_cases h0 : amountOf key amt l k' = 0
    · rw [h0]
      exact hzero
    · obtain ⟨x, hx, -, hamt⟩ := exists_mem_of_amountOf_ne_zero h0
      rw [← hamt]
      exact hl x hx
  have ha0 : amountOf key amt as k' ≠ 0 := fun h => hk' (by
    rw [h, zero_add]
    exact hone bs fun x hx => hentry x (List.mem_append_right _ hx))
  have hb0 : amountOf key amt bs k' ≠ 0 := fun h => hk' (by
    rw [h, add_zero]
    exact hone as fun x hx => hentry x (List.mem_append_left _ hx))
  obtain ⟨a, ha, hka, hamta⟩ := exists_mem_of_amountOf_ne_zero ha0
  obtain ⟨b, hb, hkb, hamtb⟩ := exists_mem_of_amountOf_ne_zero hb0
  have hab : key a = key b := hka.trans hkb.symm
  have hfail : plus? a b = .error e₀ := (hplus a b hab).2 (by rw [hamta, hamtb]; exact hk')
  obtain ⟨e, he, x, -, y, -, hxy, hxe⟩ :=
    mergeAddChecked_eq_error k as bs hk has hbs ⟨a, ha, b, hb, hab, e₀, hfail⟩
  -- every pair that fails fails with the bound's error
  have he₀ : e = e₀ := by
    by_cases hf : Fits (amt x + amt y)
    · rw [(hplus x y hxy).1 hf] at hxe
      cases hxe
    · rw [(hplus x y hxy).2 hf] at hxe
      injection hxe with h
      exact h.symm
  rw [he, he₀]

end Bounded

end Checked

end KeyedList
