import Dipper.Store.Types
import Dipper.Lib.KeyedList

/-!
# The iterators of the cache store

`memiterator.go` and `mergeiterator.go`. The memory iterator walks the written pairs of the
cache inside a domain, from the front or from the back; a nil value there marks a deletion. The
merge iterator walks the parent's iterator and the memory iterator side by side: an entry of the
cache shadows the parent's entry of the same key, and a deletion hides it. Whenever it is asked
whether it is valid, or for its key or value, it first skips the deletions it stands on.
-/

namespace Dipper

namespace CacheKV

open KeyedList

/-- `memIterator`: the written pairs of the domain. -/
structure memIterator where
  start : Option Bytes
  end_ : Option Bytes
  items : List (Bytes × Option Bytes)
  ascending : Bool

/-- `newMemIterator`: the items from the first one inside the domain up to the next one
outside it. -/
def newMemIterator (start end_ : Option Bytes) (items : List (Bytes × Option Bytes))
    (ascending : Bool) : memIterator :=
  { start := start, end_ := end_, items := inDomain false items, ascending := ascending }
where
  /-- The loop over the list, `entered` once an item of the domain was taken. -/
  inDomain : Bool → List (Bytes × Option Bytes) → List (Bytes × Option Bytes)
    | _, [] => []
    | entered, item :: rest =>
      if !IsKeyInDomain item.1 start end_ then
        if entered then [] else inDomain entered rest
      else item :: inDomain true rest

theorem newMemIterator.inDomain_eq {start end_ : Option Bytes} :
    ∀ {entered : Bool} {items : List (Bytes × Option Bytes)}, OrderedMap.Sorted items →
      (entered = true → ∀ x ∈ items, ∀ s ∈ start, s ≤ x.1) →
      newMemIterator.inDomain start end_ entered items =
        items.filter fun x => IsKeyInDomain x.1 start end_
  | _, [], _, _ => rfl
  | entered, x :: rest, hs, he => by
    rw [OrderedMap.Sorted, List.pairwise_cons] at hs
    rw [newMemIterator.inDomain, List.filter_cons]
    by_cases hx : IsKeyInDomain x.1 start end_ = true
    · -- inside: keep it; every later item lies above the start too
      have hlo := (IsKeyInDomain_iff.mp hx).1
      rw [if_neg (by simp [hx]), if_pos hx,
        inDomain_eq hs.2 fun _ y hy s hs' => (hlo s hs').trans (hs.1 y hy).le]
    · rw [if_pos (by simp [hx]), if_neg hx]
      cases entered with
      | false => exact inDomain_eq hs.2 (by simp)
      | true =>
        -- past the end: so is every later item
        have hlo := he rfl x List.mem_cons_self
        have hend : ¬ ∀ e ∈ end_, x.1 < e := fun h => hx (IsKeyInDomain_iff.mpr ⟨hlo, h⟩)
        simp only [not_forall, not_lt] at hend
        obtain ⟨e, he', hex⟩ := hend
        refine (List.filter_eq_nil_iff.mpr fun y hy hyd => ?_).symm
        exact absurd ((IsKeyInDomain_iff.mp hyd).2 e he') (not_lt.mpr (hex.trans (hs.1 y hy).le))

theorem newMemIterator_items {start end_ : Option Bytes} {items : List (Bytes × Option Bytes)}
    (hs : OrderedMap.Sorted items) (ascending : Bool) :
    (newMemIterator start end_ items ascending).items =
      items.filter fun x => IsKeyInDomain x.1 start end_ :=
  newMemIterator.inDomain_eq hs (by simp)

namespace memIterator

def Valid (mi : memIterator) : Bool := mi.items.length > 0

/-- The item the iterator stands on: the first, or the last when descending. -/
def current (mi : memIterator) : Option (Bytes × Option Bytes) :=
  if mi.ascending then mi.items.head? else mi.items.getLast?

def Next (mi : memIterator) : Except String memIterator :=
  if !mi.Valid then .error "memIterator is invalid"
  else .ok { mi with items := if mi.ascending then mi.items.tail else mi.items.dropLast }

/-- `Key`, after `assertValid`. -/
def Key (mi : memIterator) : Except String Bytes :=
  match mi.current with
  | some item => .ok item.1
  | none => .error "memIterator is invalid"

/-- `Value`, after `assertValid`. -/
def Value (mi : memIterator) : Except String (Option Bytes) :=
  match mi.current with
  | some item => .ok item.2
  | none => .error "memIterator is invalid"

/-- The items in the order the iterator takes them: from the front, or from the back when
descending. -/
def walk (mi : memIterator) : List (Bytes × Option Bytes) :=
  if mi.ascending then mi.items else mi.items.reverse

theorem walk_length (mi : memIterator) : mi.walk.length = mi.items.length := by
  unfold walk
  split <;> simp

theorem Valid_eq (mi : memIterator) : mi.Valid = !mi.walk.isEmpty := by
  rw [Valid, ← walk_length]
  cases mi.walk <;> simp

theorem current_eq (mi : memIterator) : mi.current = mi.walk.head? := by
  unfold current walk
  split <;> simp

section

variable {mi : memIterator} {x : Bytes × Option Bytes} {l : List (Bytes × Option Bytes)}

theorem Key_of_walk (h : mi.walk = x :: l) : mi.Key = .ok x.1 := by
  rw [Key, current_eq, h]
  rfl

theorem Value_of_walk (h : mi.walk = x :: l) : mi.Value = .ok x.2 := by
  rw [Value, current_eq, h]
  rfl

theorem Next_of_walk (h : mi.walk = x :: l) :
    ∃ mi', mi.Next = .ok mi' ∧ mi'.ascending = mi.ascending ∧ mi'.walk = l := by
  have hv : mi.Valid = true := by rw [Valid_eq, h]; rfl
  refine ⟨{ mi with items := if mi.ascending then mi.items.tail else mi.items.dropLast },
    by rw [Next, hv]; rfl, rfl, ?_⟩
  unfold walk at h ⊢
  cases ha : mi.ascending <;> simp only [ha, Bool.false_eq_true, if_true, if_false] at h ⊢
  · -- from the back the last item goes, the first of the reverse
    rw [← List.tail_reverse, h, List.tail_cons]
  · rw [h, List.tail_cons]

end

end memIterator

/-- `cacheMergeIterator`: the parent's iterator, as the pairs it has left, and the cache's. -/
structure cacheMergeIterator where
  parent : List (Bytes × Option Bytes)
  cache : memIterator
  ascending : Bool

namespace cacheMergeIterator

/-- `compare`: `bytes.Compare`, negated when descending. -/
def compare (it : cacheMergeIterator) (a b : Bytes) : Ordering :=
  if it.ascending then Ord.compare a b else (Ord.compare a b).swap

/-- `skipCacheDeletes(until)`: skips the deletions of the cache with keys before `until`
(all of them for a nil `until`). The fuel is the number of cache items. -/
def skipCacheDeletes : Nat → cacheMergeIterator → Option Bytes → Except String cacheMergeIterator
  | 0, it, _ => .ok it
  | fuel + 1, it, untilKey =>
    if !it.cache.Valid then .ok it
    else do
      let valueC ← it.cache.Value
      if valueC.isSome then pure it
      else do
        let keyC ← it.cache.Key
        if untilKey.all fun u => it.compare keyC u == .lt then do
          let cache ← it.cache.Next
          skipCacheDeletes fuel { it with cache := cache } untilKey
        else pure it

/-- `skipUntilExistsOrInvalid`: moves on untilKey the iterator stands on an entry that exists,
and says whether there is one. Every turn that does not return drops an item of the
cache, so one more turn than the cache has items is enough. -/
def skipUntilExistsOrInvalid : Nat → cacheMergeIterator → Except String (Bool × cacheMergeIterator)
  | 0, _ => .error "skipUntilExistsOrInvalid: out of fuel"
  | fuel + 1, it =>
    if it.parent.isEmpty then do
      let it ← skipCacheDeletes it.cache.items.length it none
      pure (it.cache.Valid, it)
    else if !it.cache.Valid then pure (true, it)
    else do
      let (keyP, _) ← listIterator.Key it.parent
      let keyC ← it.cache.Key
      match it.compare keyP keyC with
      | .lt => pure (true, it)
      | .eq => do
        let valueC ← it.cache.Value
        if valueC.isNone then do
          let parent ← listIterator.Next it.parent
          let cache ← it.cache.Next
          skipUntilExistsOrInvalid fuel { it with parent := parent, cache := cache }
        else pure (true, it)
      | .gt => do
        let valueC ← it.cache.Value
        if valueC.isNone then do
          let it ← skipCacheDeletes it.cache.items.length it (some keyP)
          skipUntilExistsOrInvalid fuel it
        else pure (true, it)

def Valid (it : cacheMergeIterator) : Except String (Bool × cacheMergeIterator) :=
  skipUntilExistsOrInvalid (it.cache.items.length + 1) it

/-- `assertValid`, which skips as `Valid` does. -/
def assertValid (it : cacheMergeIterator) : Except String cacheMergeIterator := do
  let (valid, it) ← it.Valid
  if !valid then throw "iterator is invalid"
  pure it

def Next (it : cacheMergeIterator) : Except String cacheMergeIterator := do
  let (_, it) ← it.Valid
  let it ← it.assertValid
  if it.parent.isEmpty then do
    let cache ← it.cache.Next
    pure { it with cache := cache }
  else if !it.cache.Valid then do
    let parent ← listIterator.Next it.parent
    pure { it with parent := parent }
  else do
    let (keyP, _) ← listIterator.Key it.parent
    let keyC ← it.cache.Key
    match it.compare keyP keyC with
    | .lt => do
      let parent ← listIterator.Next it.parent
      pure { it with parent := parent }
    | .eq => do
      let parent ← listIterator.Next it.parent
      let cache ← it.cache.Next
      pure { it with parent := parent, cache := cache }
    | .gt => do
      let cache ← it.cache.Next
      pure { it with cache := cache }

def Key (it : cacheMergeIterator) : Except String (Bytes × cacheMergeIterator) := do
  let (_, it) ← it.Valid
  let it ← it.assertValid
  if it.parent.isEmpty then do
    let keyC ← it.cache.Key
    pure (keyC, it)
  else if !it.cache.Valid then do
    let (keyP, _) ← listIterator.Key it.parent
    pure (keyP, it)
  else do
    let (keyP, _) ← listIterator.Key it.parent
    let keyC ← it.cache.Key
    match it.compare keyP keyC with
    | .lt => pure (keyP, it)
    | .eq => pure (keyP, it)
    | .gt => pure (keyC, it)

def Value (it : cacheMergeIterator) : Except String (Option Bytes × cacheMergeIterator) := do
  let (_, it) ← it.Valid
  let it ← it.assertValid
  if it.parent.isEmpty then do
    let valueC ← it.cache.Value
    pure (valueC, it)
  else if !it.cache.Valid then do
    let (valueP, _) ← listIterator.Value it.parent
    pure (valueP, it)
  else do
    let (keyP, _) ← listIterator.Key it.parent
    let keyC ← it.cache.Key
    match it.compare keyP keyC with
    | .lt => do
      let (valueP, _) ← listIterator.Value it.parent
      pure (valueP, it)
    | .eq => do
      let valueC ← it.cache.Value
      pure (valueC, it)
    | .gt => do
      let valueC ← it.cache.Value
      pure (valueC, it)

def iterator : Iterator cacheMergeIterator where
  Valid := Valid
  Key := Key
  Value := Value
  Next := Next

/-! ### The walk, in either direction

Both directions are handled at once: a direction is a key order `dk` into a linear order in
which the iterator's `compare` is the plain comparison (`Directed`); ascending it is the
order of bytes, descending its dual. -/

section Walk

variable {K : Type} [LinearOrder K] {asc : Bool} {dk : Bytes → K}

/-- The iterator's comparison in the direction `asc` compares the keys `dk`. -/
def Directed (asc : Bool) (dk : Bytes → K) : Prop :=
  ∀ a b : Bytes, (if asc then Ord.compare a b else (Ord.compare a b).swap).Compares (dk a) (dk b)

theorem directed_ascending : Directed true (id : Bytes → Bytes) :=
  fun a b => compare_bytes_compares a b

theorem directed_descending : Directed false (OrderDual.toDual : Bytes → Bytesᵒᵈ) :=
  fun a b => toDual_compares_toDual.mpr (Ordering.compares_swap.mpr (compare_bytes_compares a b))

theorem Directed.injective (hd : Directed asc dk) : Function.Injective dk := by
  intro a b h
  have h₁ := (hd a b).eq_eq.mpr h
  have h₂ : Ord.compare a b = .eq := by
    cases asc
    · exact Ordering.swap_eq_eq.mp h₁
    · exact h₁
  exact (compare_bytes_compares a b).eq_eq.mp h₂

/-- The merge of the parent's pairs and the cache's in the order `dk`: a pair of the cache
shadows the parent's pair of the same key, and deletions are dropped. -/
def merged (dk : Bytes → K) (P C : List (Bytes × Option Bytes)) : List (Bytes × Option Bytes) :=
  mergeAddFn (fun x : Bytes × Option Bytes => dk x.1) (fun p c => (p.1, c.2)) (fun x => x.2.isNone) P C

theorem mem_merged (hd : Directed asc dk) {P C : List (Bytes × Option Bytes)}
    (hP : Strict (fun x : Bytes × Option Bytes => dk x.1) P)
    (hC : Strict (fun x : Bytes × Option Bytes => dk x.1) C) (x : Bytes × Option Bytes) :
    x ∈ merged dk P C ↔ x.2 ≠ none ∧ (x ∈ C ∨ x ∈ P ∧ ∀ c ∈ C, c.1 ≠ x.1) := by
  -- the pair made of two of one key is the cache's
  have hkey : ∀ p c : Bytes × Option Bytes, dk (p.1, c.2).1 = dk p.1 := fun _ _ => rfl
  have hplus : ∀ p c : Bytes × Option Bytes, dk p.1 = dk c.1 → (p.1, c.2) = c :=
    fun p c h => Prod.ext (hd.injective h) rfl
  rw [merged, @MergeAdd.mem_iff _ _ _ _ _ _ hkey _ _ _ (mergeAdd_mergeAddFn _ _ _ P C) hplus hP hC x]
  simp [hd.injective.ne_iff, Option.isSome_iff_ne_none]

theorem strict_merged {P C : List (Bytes × Option Bytes)}
    (hP : Strict (fun x : Bytes × Option Bytes => dk x.1) P)
    (hC : Strict (fun x : Bytes × Option Bytes => dk x.1) C) :
    Strict (fun x : Bytes × Option Bytes => dk x.1) (merged dk P C) := by
  have hkey : ∀ p c : Bytes × Option Bytes, dk (p.1, c.2).1 = dk p.1 := fun _ _ => rfl
  exact @MergeAdd.strict _ _ _ _ _ _ hkey _ _ _ (mergeAdd_mergeAddFn _ _ _ P C) hP hC

theorem length_merged_le (P C : List (Bytes × Option Bytes)) :
    (merged dk P C).length ≤ P.length + C.length :=
  length_mergeAddFn_le _ _ _ P C

section Steps

variable {p c : Bytes × Option Bytes} (P C : List (Bytes × Option Bytes))

theorem merged_lt (h : dk p.1 < dk c.1) :
    merged dk (p :: P) (c :: C) = (if p.2.isNone then [] else [p]) ++ merged dk P (c :: C) :=
  mergeAddFn_lt P C h

theorem merged_eq (h : dk p.1 = dk c.1) :
    merged dk (p :: P) (c :: C) = (if c.2.isNone then [] else [(p.1, c.2)]) ++ merged dk P C :=
  mergeAddFn_eq P C h

theorem merged_gt (h : dk c.1 < dk p.1) :
    merged dk (p :: P) (c :: C) = (if c.2.isNone then [] else [c]) ++ merged dk (p :: P) C :=
  mergeAddFn_gt P C h

end Steps

/-- What the iterator has left to yield. -/
def view (dk : Bytes → K) (it : cacheMergeIterator) : List (Bytes × Option Bytes) :=
  merged dk it.parent it.cache.walk

/-- The iterator and its cache run in the direction `asc`, both sides are sorted in its
order and the parent yields no nil value. -/
structure Inv (asc : Bool) (dk : Bytes → K) (it : cacheMergeIterator) : Prop where
  ascending : it.ascending = asc
  cache_ascending : it.cache.ascending = asc
  parent_sorted : Strict (fun x : Bytes × Option Bytes => dk x.1) it.parent
  cache_sorted : Strict (fun x : Bytes × Option Bytes => dk x.1) it.cache.walk
  parent_some : ∀ x ∈ it.parent, x.2.isSome

/-- Nothing to skip: the cache stands on a pair that exists, or behind the parent's key. -/
def Ready (dk : Bytes → K) (it : cacheMergeIterator) : Prop :=
  ∀ c ∈ it.cache.walk.head?, c.2.isSome ∨ ∃ p ∈ it.parent.head?, dk p.1 < dk c.1

theorem compare_dk (hd : Directed asc dk) {it : cacheMergeIterator} (ha : it.ascending = asc)
    (a b : Bytes) : (it.compare a b).Compares (dk a) (dk b) := by
  unfold cacheMergeIterator.compare
  rw [ha]
  exact hd a b

theorem Inv.sublist {it it' : cacheMergeIterator} (hi : Inv asc dk it)
    (ha : it'.ascending = it.ascending) (hca : it'.cache.ascending = it.cache.ascending)
    (hp : List.Sublist it'.parent it.parent) (hc : List.Sublist it'.cache.walk it.cache.walk) :
    Inv asc dk it' where
  ascending := ha.trans hi.ascending
  cache_ascending := hca.trans hi.cache_ascending
  parent_sorted := List.Pairwise.sublist hp hi.parent_sorted
  cache_sorted := List.Pairwise.sublist hc hi.cache_sorted
  parent_some x hx := hi.parent_some x (hp.subset hx)

theorem Ready.isSome {it : cacheMergeIterator} (hr : Ready dk it) {c : Bytes × Option Bytes}
    {C : List (Bytes × Option Bytes)} (hc : it.cache.walk = c :: C)
    (hp : ∀ p ∈ it.parent.head?, dk c.1 ≤ dk p.1) : c.2.isSome := by
  rcases hr c (by rw [hc]; rfl) with h | ⟨p, hp', hlt⟩
  · exact h
  · exact absurd (hp p hp') (not_le_of_gt hlt)

theorem ready_of_walk {it : cacheMergeIterator} {c : Bytes × Option Bytes}
    {C : List (Bytes × Option Bytes)} (hc : it.cache.walk = c :: C)
    (h : c.2.isSome ∨ ∃ p ∈ it.parent.head?, dk p.1 < dk c.1) : Ready dk it := by
  intro x hx
  rw [hc, List.head?_cons, Option.mem_some_iff] at hx
  exact hx ▸ h

private theorem dropWhile_eq_cons {α : Type} {p : α → Bool} {l C : List α} {c : α}
    (h : l.dropWhile p = c :: C) : p c = false := by
  have := List.head_dropWhile_not p (l := l) (by simp [h])
  simpa [h] using this

/-- `skipCacheDeletes` drops the deletions at the front of the cache, those before `u` when
there is one. -/
theorem skipCacheDeletes_spec (hd : Directed asc dk) (u : Option Bytes) :
    ∀ fuel (it : cacheMergeIterator), it.ascending = asc → it.cache.walk.length ≤ fuel →
      ∃ c, skipCacheDeletes fuel it u = .ok { it with cache := c } ∧
        c.ascending = it.cache.ascending ∧
        c.walk = it.cache.walk.dropWhile fun x => x.2.isNone && u.all fun u => dk x.1 < dk u
  | 0, it, _, hf => by
    have hw : it.cache.walk = [] := List.length_eq_zero_iff.mp (Nat.le_zero.mp hf)
    exact ⟨it.cache, rfl, rfl, by rw [hw]; rfl⟩
  | fuel + 1, it, ha, hf => by
    cases hw : it.cache.walk with
    | nil =>
      have hv : it.cache.Valid = false := by rw [memIterator.Valid_eq, hw]; rfl
      exact ⟨it.cache, by rw [skipCacheDeletes, hv]; rfl, rfl, by rw [hw]; rfl⟩
    | cons c l =>
      have hv : it.cache.Valid = true := by rw [memIterator.Valid_eq, hw]; rfl
      have hu : (u.all fun u => it.compare c.1 u == .lt) = u.all fun u => dk c.1 < dk u := by
        cases u with
        | none => rfl
        | some u =>
          simp only [Option.all_some]
          rw [Bool.eq_iff_iff, beq_iff_eq, decide_eq_true_iff]
          exact (compare_dk hd ha c.1 u).eq_lt
      obtain ⟨k, v⟩ := c
      cases v with
      | some v =>
        -- a pair that exists: nothing to skip
        refine ⟨it.cache, ?_, rfl, by rw [hw]; rfl⟩
        simp [skipCacheDeletes, hv, memIterator.Value_of_walk hw]
      | none =>
        by_cases hlt : u.all fun u => dk k < dk u
        · -- a deletion before the bound: drop it and go on
          obtain ⟨c₁, hn, hca₁, hw₁⟩ := memIterator.Next_of_walk hw
          rw [hw, List.length_cons] at hf
          obtain ⟨c₂, hs, hca₂, hw₂⟩ :=
            skipCacheDeletes_spec hd u fuel { it with cache := c₁ } ha (by simp [hw₁]; omega)
          refine ⟨c₂, ?_, hca₂.trans hca₁, ?_⟩
          · simp [skipCacheDeletes, hv, memIterator.Value_of_walk hw, memIterator.Key_of_walk hw,
              hu, hlt, hn, hs]
          · rw [hw₂, List.dropWhile_cons, if_pos (by simp [hlt])]
            simp [hw₁]
        · refine ⟨it.cache, ?_, rfl, by rw [hw, List.dropWhile_cons, if_neg (by simp [hlt])]⟩
          simp [skipCacheDeletes, hv, memIterator.Value_of_walk hw, memIterator.Key_of_walk hw,
            hu, hlt]

theorem ready_view (hd : Directed asc dk) {it : cacheMergeIterator} (hi : Inv asc dk it)
    (hr : Ready dk it) :
    (it.parent = [] ∧ it.cache.walk = [] ∧ view dk it = []) ∨
    (∃ c C, it.parent = [] ∧ it.cache.walk = c :: C ∧ view dk it = c :: merged dk [] C) ∨
    (∃ p P, it.parent = p :: P ∧ it.cache.walk = [] ∧ view dk it = p :: merged dk P []) ∨
    (∃ p P c C, it.parent = p :: P ∧ it.cache.walk = c :: C ∧ dk p.1 < dk c.1 ∧
      view dk it = p :: merged dk P (c :: C)) ∨
    (∃ p P c C, it.parent = p :: P ∧ it.cache.walk = c :: C ∧ p.1 = c.1 ∧
      view dk it = c :: merged dk P C) ∨
    (∃ p P c C, it.parent = p :: P ∧ it.cache.walk = c :: C ∧ dk c.1 < dk p.1 ∧
      view dk it = c :: merged dk (p :: P) C) := by
  unfold view
  cases hp : it.parent with
  | nil =>
    cases hc : it.cache.walk with
    | nil => exact .inl ⟨rfl, rfl, by simp [merged, mergeAddFn]⟩
    | cons c C =>
      have hcs := hr.isSome hc (by simp [hp])
      refine .inr (.inl ⟨c, C, rfl, rfl, ?_⟩)
      simp only [merged, mergeAddFn]
      rw [List.filter_cons_of_pos (by simpa using hcs)]
  | cons p P =>
    have hps := hi.parent_some p (by simp [hp])
    cases hc : it.cache.walk with
    | nil =>
      refine .inr (.inr (.inl ⟨p, P, rfl, rfl, ?_⟩))
      simp only [merged, mergeAddFn_nil_right]
      rw [List.filter_cons_of_pos (by simpa using hps)]
    | cons c C =>
      rcases lt_trichotomy (dk p.1) (dk c.1) with h | h | h
      · refine .inr (.inr (.inr (.inl ⟨p, P, c, C, rfl, rfl, h, ?_⟩)))
        simp [merged_lt P C h, Option.ne_none_iff_isSome.mpr hps]
      · have hcs := hr.isSome hc (by simp [hp, h])
        have hpc := hd.injective h
        refine .inr (.inr (.inr (.inr (.inl ⟨p, P, c, C, rfl, rfl, hpc, ?_⟩))))
        simp [merged_eq P C h, hpc, Option.ne_none_iff_isSome.mpr hcs]
      · have hcs := hr.isSome hc (by simp [hp, h.le])
        refine .inr (.inr (.inr (.inr (.inr ⟨p, P, c, C, rfl, rfl, h, ?_⟩))))
        simp [merged_gt P C h, Option.ne_none_iff_isSome.mpr hcs]

theorem Ready.view_isEmpty (hd : Directed asc dk) {it : cacheMergeIterator} (hi : Inv asc dk it)
    (hr : Ready dk it) : (view dk it).isEmpty = (it.parent.isEmpty && it.cache.walk.isEmpty) := by
  rcases ready_view hd hi hr with ⟨hp, hc, hv⟩ | ⟨c, C, hp, hc, hv⟩ | ⟨p, P, hp, hc, hv⟩ |
    ⟨p, P, c, C, hp, hc, -, hv⟩ | ⟨p, P, c, C, hp, hc, -, hv⟩ | ⟨p, P, c, C, hp, hc, -, hv⟩ <;>
    simp [hp, hc, hv]

/-- `skipUntilExistsOrInvalid` moves to a state with nothing to skip and the same pairs
left, and says whether any is left. The induction is on the fuel; each turn that goes on
drops a pair of the cache. -/
theorem skipUntilExistsOrInvalid_spec (hd : Directed asc dk) :
    ∀ fuel (it : cacheMergeIterator), Inv asc dk it → it.cache.walk.length < fuel →
      ∃ it', skipUntilExistsOrInvalid fuel it = .ok (!(view dk it).isEmpty, it') ∧
        Inv asc dk it' ∧ Ready dk it' ∧ view dk it' = view dk it
  | 0, _, _, hf => absurd hf (Nat.not_lt_zero _)
  | fuel + 1, it, hi, hf => by
    cases hp : it.parent with
    | nil =>
      -- the parent is done: skip every deletion of the cache
      obtain ⟨c, hs, hca, hw⟩ :=
        skipCacheDeletes_spec hd none it.cache.items.length it hi.ascending
          (by rw [memIterator.walk_length])
      have hi' : Inv asc dk { it with cache := c } :=
        hi.sublist rfl hca (List.Sublist.refl _) (by rw [hw]; exact List.dropWhile_sublist _)
      have hr' : Ready dk { it with cache := c } := by
        intro x hx
        obtain ⟨rest, hc⟩ := List.head?_eq_some_iff.mp hx
        left
        simpa using dropWhile_eq_cons (hw.symm.trans hc)
      have hv' : view dk { it with cache := c } = view dk it := by
        simp only [view, hw, hp, Option.all_none]
        exact mergeAddFn_dropWhile_right [] _ fun b hb => ⟨by simpa using hb, by simp⟩
      refine ⟨{ it with cache := c }, ?_, hi', hr', hv'⟩
      have hvalid : c.Valid = !(view dk it).isEmpty := by
        rw [← hv', hr'.view_isEmpty hd hi', memIterator.Valid_eq]
        simp [hp]
      simp [skipUntilExistsOrInvalid, hp, hs, hvalid]
    | cons p P =>
      cases hw : it.cache.walk with
      | nil =>
        -- the cache is done: the parent's pair is there
        have hv : it.cache.Valid = false := by rw [memIterator.Valid_eq, hw]; rfl
        have hr : Ready dk it := fun x hx => by simp [hw] at hx
        refine ⟨it, ?_, hi, hr, rfl⟩
        simp [skipUntilExistsOrInvalid, hp, hv, hr.view_isEmpty hd hi, hw]
      | cons c C =>
        have hv : it.cache.Valid = true := by rw [memIterator.Valid_eq, hw]; rfl
        rw [hw, List.length_cons] at hf
        obtain ⟨k, v⟩ := c
        have hcmp := compare_dk hd hi.ascending p.1 k
        rcases lt_trichotomy (dk p.1) (dk k) with h | h | h
        · -- the parent's key comes first
          have hr : Ready dk it := ready_of_walk hw (.inr ⟨p, by simp [hp], h⟩)
          refine ⟨it, ?_, hi, hr, rfl⟩
          simp [skipUntilExistsOrInvalid, hp, hv, listIterator, memIterator.Key_of_walk hw,
            hcmp.eq_lt.mpr h, hr.view_isEmpty hd hi, hw]
        · cases v with
          | some v =>
            have hr : Ready dk it := ready_of_walk hw (.inl rfl)
            refine ⟨it, ?_, hi, hr, rfl⟩
            simp [skipUntilExistsOrInvalid, hp, hv, listIterator, memIterator.Key_of_walk hw,
              memIterator.Value_of_walk hw, hcmp.eq_eq.mpr h, hr.view_isEmpty hd hi, hw]
          | none =>
            -- a deletion of the parent's key: both sides step
            obtain ⟨c₁, hn, hca₁, hw₁⟩ := memIterator.Next_of_walk hw
            have hi₁ : Inv asc dk { it with parent := P, cache := c₁ } :=
              hi.sublist rfl hca₁ (by rw [hp]; exact List.sublist_cons_self p P)
                (by rw [hw₁, hw]; exact List.sublist_cons_self _ C)
            obtain ⟨it', hs, hi', hr', hv'⟩ :=
              skipUntilExistsOrInvalid_spec hd fuel _ hi₁ (by simp [hw₁]; omega)
            have hv₁ : view dk { it with parent := P, cache := c₁ } = view dk it := by
              simp [view, hp, hw, hw₁, merged_eq, h]
            refine ⟨it', ?_, hi', hr', hv'.trans hv₁⟩
            simp [skipUntilExistsOrInvalid, hp, hv, listIterator, memIterator.Key_of_walk hw,
              memIterator.Value_of_walk hw, hcmp.eq_eq.mpr h, hn, hs, hv₁]
        · cases v with
          | some v =>
            have hr : Ready dk it := ready_of_walk hw (.inl rfl)
            refine ⟨it, ?_, hi, hr, rfl⟩
            simp [skipUntilExistsOrInvalid, hp, hv, listIterator, memIterator.Key_of_walk hw,
              memIterator.Value_of_walk hw, hcmp.eq_gt.mpr h, hr.view_isEmpty hd hi, hw]
          | none =>
            -- deletions before the parent's key: skip them
            obtain ⟨c₁, hs₁, hca₁, hw₁⟩ :=
              skipCacheDeletes_spec hd (some p.1) it.cache.items.length it hi.ascending
                (by rw [memIterator.walk_length])
            have hlen : c₁.walk.length ≤ C.length := by
              rw [hw₁, hw, List.dropWhile_cons, if_pos (by simp [h])]
              exact List.length_dropWhile_le _ _
            have hi₁ : Inv asc dk { it with cache := c₁ } :=
              hi.sublist rfl hca₁ (List.Sublist.refl _) (by rw [hw₁]; exact List.dropWhile_sublist _)
            obtain ⟨it', hs, hi', hr', hv'⟩ :=
              skipUntilExistsOrInvalid_spec hd fuel _ hi₁ (by simp only; omega)
            have hv₁ : view dk { it with cache := c₁ } = view dk it := by
              simp only [view, merged, hw₁, hp]
              refine mergeAddFn_dropWhile_right (p :: P) _ fun b hb => ?_
              simp only [Option.all_some, Bool.and_eq_true, decide_eq_true_eq] at hb
              exact ⟨hb.1, fun a ha => by simp_all⟩
            refine ⟨it', ?_, hi', hr', hv'.trans hv₁⟩
            simp [skipUntilExistsOrInvalid, hp, hv, listIterator, memIterator.Key_of_walk hw,
              memIterator.Value_of_walk hw, hcmp.eq_gt.mpr h, hs₁]
            rw [← hp, hs, hv₁]

theorem Valid_spec (hd : Directed asc dk) {it : cacheMergeIterator} (hi : Inv asc dk it) :
    ∃ it', it.Valid = .ok (!(view dk it).isEmpty, it') ∧ Inv asc dk it' ∧ Ready dk it' ∧
      view dk it' = view dk it :=
  skipUntilExistsOrInvalid_spec hd _ it hi (by rw [memIterator.walk_length]; omega)

section Step

variable (hd : Directed asc dk) {it : cacheMergeIterator} (hi : Inv asc dk it)
  {x : Bytes × Option Bytes} {l : List (Bytes × Option Bytes)}

include hd hi

theorem assertValid_spec (hv : view dk it = x :: l) :
    ∃ it', it.assertValid = .ok it' ∧ Inv asc dk it' ∧ Ready dk it' ∧ view dk it' = x :: l := by
  obtain ⟨it', h, hi', hr', hv'⟩ := Valid_spec hd hi
  refine ⟨it', ?_, hi', hr', hv'.trans hv⟩
  simp [assertValid, h, hv]

theorem ready_cons (hr : Ready dk it) (hv : view dk it = x :: l) :
    (it.parent = [] ∧ ∃ C, it.cache.walk = x :: C ∧ l = merged dk [] C) ∨
    (∃ P, it.parent = x :: P ∧ it.cache.walk = [] ∧ l = merged dk P []) ∨
    (∃ P c C, it.parent = x :: P ∧ it.cache.walk = c :: C ∧ dk x.1 < dk c.1 ∧
      l = merged dk P (c :: C)) ∨
    (∃ p P C, it.parent = p :: P ∧ it.cache.walk = x :: C ∧ p.1 = x.1 ∧ l = merged dk P C) ∨
    (∃ p P C, it.parent = p :: P ∧ it.cache.walk = x :: C ∧ dk x.1 < dk p.1 ∧
      l = merged dk (p :: P) C) := by
  rcases ready_view hd hi hr with ⟨-, -, hv'⟩ | ⟨c, C, hp, hc, hv'⟩ | ⟨p, P, hp, hc, hv'⟩ |
    ⟨p, P, c, C, hp, hc, h, hv'⟩ | ⟨p, P, c, C, hp, hc, h, hv'⟩ | ⟨p, P, c, C, hp, hc, h, hv'⟩
  · exact absurd (hv'.symm.trans hv).symm (List.cons_ne_nil x l)
  all_goals obtain ⟨rfl, rfl⟩ := List.cons.inj (hv'.symm.trans hv)
  · exact .inl ⟨hp, C, hc, rfl⟩
  · exact .inr (.inl ⟨P, hp, hc, rfl⟩)
  · exact .inr (.inr (.inl ⟨P, c, C, hp, hc, h, rfl⟩))
  · exact .inr (.inr (.inr (.inl ⟨p, P, C, hp, hc, h, rfl⟩)))
  · exact .inr (.inr (.inr (.inr ⟨p, P, C, hp, hc, h, rfl⟩)))

theorem Key_spec (hv : view dk it = x :: l) :
    ∃ it', it.Key = .ok (x.1, it') ∧ Inv asc dk it' ∧ view dk it' = x :: l := by
  obtain ⟨it₁, h₁, hi₁, -, hv₁⟩ := Valid_spec hd hi
  obtain ⟨it₂, h₂, hi₂, hr₂, hv₂⟩ := assertValid_spec hd hi₁ (hv₁.trans hv)
  refine ⟨it₂, ?_, hi₂, hv₂⟩
  have hcmp := compare_dk hd hi₂.ascending
  rcases ready_cons hd hi₂ hr₂ hv₂ with ⟨hp, C, hc, -⟩ | ⟨P, hp, hc, -⟩ | ⟨P, c, C, hp, hc, h, -⟩ |
    ⟨p, P, C, hp, hc, h, -⟩ | ⟨p, P, C, hp, hc, h, -⟩
  · simp [Key, h₁, h₂, hp, memIterator.Key_of_walk hc]
  · simp [Key, h₁, h₂, hp, hc, memIterator.Valid_eq, listIterator]
  · simp [Key, h₁, h₂, hp, hc, memIterator.Valid_eq, listIterator, memIterator.Key_of_walk hc,
      (hcmp _ _).eq_lt.mpr h]
  · simp [Key, h₁, h₂, hp, hc, memIterator.Valid_eq, listIterator, memIterator.Key_of_walk hc,
      (hcmp x.1 x.1).eq_eq.mpr rfl, h]
  · simp [Key, h₁, h₂, hp, hc, memIterator.Valid_eq, listIterator, memIterator.Key_of_walk hc,
      (hcmp _ _).eq_gt.mpr h]

theorem Value_spec (hv : view dk it = x :: l) :
    ∃ it', it.Value = .ok (x.2, it') ∧ Inv asc dk it' ∧ view dk it' = x :: l := by
  obtain ⟨it₁, h₁, hi₁, -, hv₁⟩ := Valid_spec hd hi
  obtain ⟨it₂, h₂, hi₂, hr₂, hv₂⟩ := assertValid_spec hd hi₁ (hv₁.trans hv)
  refine ⟨it₂, ?_, hi₂, hv₂⟩
  have hcmp := compare_dk hd hi₂.ascending
  rcases ready_cons hd hi₂ hr₂ hv₂ with ⟨hp, C, hc, -⟩ | ⟨P, hp, hc, -⟩ | ⟨P, c, C, hp, hc, h, -⟩ |
    ⟨p, P, C, hp, hc, h, -⟩ | ⟨p, P, C, hp, hc, h, -⟩
  · simp [Value, h₁, h₂, hp, memIterator.Value_of_walk hc]
  · simp [Value, h₁, h₂, hp, hc, memIterator.Valid_eq, listIterator]
  · simp [Value, h₁, h₂, hp, hc, memIterator.Valid_eq, listIterator, memIterator.Key_of_walk hc,
      (hcmp _ _).eq_lt.mpr h]
  · simp [Value, h₁, h₂, hp, hc, memIterator.Valid_eq, listIterator, memIterator.Key_of_walk hc,
      memIterator.Value_of_walk hc, (hcmp x.1 x.1).eq_eq.mpr rfl, h]
  · simp [Value, h₁, h₂, hp, hc, memIterator.Valid_eq, listIterator, memIterator.Key_of_walk hc,
      memIterator.Value_of_walk hc, (hcmp _ _).eq_gt.mpr h]

/-- `Next` steps past the first pair left: the parent's, the cache's, or both when the
cache shadows the parent. -/
theorem Next_spec (hv : view dk it = x :: l) :
    ∃ it', it.Next = .ok it' ∧ Inv asc dk it' ∧ view dk it' = l := by
  obtain ⟨it₁, h₁, hi₁, -, hv₁⟩ := Valid_spec hd hi
  obtain ⟨it₂, h₂, hi₂, hr₂, hv₂⟩ := assertValid_spec hd hi₁ (hv₁.trans hv)
  have hcmp := compare_dk hd hi₂.ascending
  rcases ready_cons hd hi₂ hr₂ hv₂ with ⟨hp, C, hc, rfl⟩ | ⟨P, hp, hc, rfl⟩ |
    ⟨P, c, C, hp, hc, h, rfl⟩ | ⟨p, P, C, hp, hc, h, rfl⟩ | ⟨p, P, C, hp, hc, h, rfl⟩
  · -- the parent is done: the cache steps
    obtain ⟨c', hn, hca, hw⟩ := memIterator.Next_of_walk hc
    refine ⟨{ it₂ with cache := c' }, ?_, hi₂.sublist rfl hca (List.Sublist.refl _)
      (by rw [hw, hc]; exact List.sublist_cons_self _ _), by simp [view, hp, hw]⟩
    simp [Next, h₁, h₂, hp, hn]
  · -- the cache is done: the parent steps
    refine ⟨{ it₂ with parent := P }, ?_, hi₂.sublist rfl rfl
      (by rw [hp]; exact List.sublist_cons_self _ _) (List.Sublist.refl _), by simp [view, hc]⟩
    simp [Next, h₁, h₂, hp, hc, memIterator.Valid_eq, listIterator]
  · -- the parent's key first: the parent steps
    refine ⟨{ it₂ with parent := P }, ?_, hi₂.sublist rfl rfl
      (by rw [hp]; exact List.sublist_cons_self _ _) (List.Sublist.refl _), by simp [view, hc]⟩
    simp [Next, h₁, h₂, hp, hc, memIterator.Valid_eq, listIterator, memIterator.Key_of_walk hc,
      (hcmp _ _).eq_lt.mpr h]
  · -- the same key: both step
    obtain ⟨c', hn, hca, hw⟩ := memIterator.Next_of_walk hc
    refine ⟨{ it₂ with parent := P, cache := c' }, ?_, hi₂.sublist rfl hca
      (by rw [hp]; exact List.sublist_cons_self _ _)
      (by rw [hw, hc]; exact List.sublist_cons_self _ _), by simp [view, hw]⟩
    simp [Next, h₁, h₂, hp, hc, memIterator.Valid_eq, listIterator, memIterator.Key_of_walk hc,
      (hcmp x.1 x.1).eq_eq.mpr rfl, h, hn]
  · -- the cache's key first: the cache steps
    obtain ⟨c', hn, hca, hw⟩ := memIterator.Next_of_walk hc
    refine ⟨{ it₂ with cache := c' }, ?_, hi₂.sublist rfl hca (List.Sublist.refl _)
      (by rw [hw, hc]; exact List.sublist_cons_self _ _), by simp [view, hp, hw]⟩
    simp [Next, h₁, h₂, hp, hc, memIterator.Valid_eq, listIterator, memIterator.Key_of_walk hc,
      (hcmp _ _).eq_gt.mpr h, hn]

end Step

theorem iterator_walks (hd : Directed asc dk) : iterator.Walks (view dk) (Inv asc dk) where
  valid _ hi := (Valid_spec hd hi).imp fun _ h => ⟨h.1, h.2.1, h.2.2.2⟩
  key _ _ _ hi hv := Key_spec hd hi hv
  value _ _ _ hi hv := Value_spec hd hi hv
  next _ _ _ hi hv := Next_spec hd hi hv

/-- Consumed from a parent and a cache sorted in its direction, the merge iterator yields
their merge. -/
theorem drain_iterator (hd : Directed asc dk) {P : List (Bytes × Option Bytes)} {mi : memIterator}
    (hma : mi.ascending = asc) (hP : Strict (fun x : Bytes × Option Bytes => dk x.1) P)
    (hC : Strict (fun x : Bytes × Option Bytes => dk x.1) mi.walk) (hs : ∀ x ∈ P, x.2.isSome) :
    iterator.drain (P.length + mi.items.length + 1) { parent := P, cache := mi, ascending := asc } =
      .ok (merged dk P mi.walk) := by
  have hlen : (merged dk P mi.walk).length ≤ P.length + mi.walk.length := length_merged_le P mi.walk
  rw [memIterator.walk_length] at hlen
  exact (iterator_walks hd).drain _ _ ⟨rfl, hma, hP, hC, hs⟩ (by simp only [view]; omega)

end Walk

end cacheMergeIterator

end CacheKV

end Dipper
