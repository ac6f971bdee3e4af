import Dipper.Store.CacheKV.Store

/-!
# The cache store refines a map

The map a cache store stands for is its parent's with the values of the cache's entries
laid over it (`abs`). The invariant (`Inv`) ties the three caches together: a clean entry
holds the parent's value, a dirty one is deleted exactly when it has no value, and every
dirty key waits in `unsortedCache` or sits in `sortedCache` with its value. From it every
call answers as the map does: `dirtyItems` leaves in `sortedCache` exactly the dirty pairs
of the domain, the merge iterator walks them merged with the parent's pairs, and `Write`
leaves in the parent the whole map (`NewStore_refines`).
-/

namespace Dipper

namespace CacheKV

namespace Store

open OrderedMap KeyedList

variable {σ : Type} {P : KVStore σ} {absP : σ → Bytes → Option Bytes} {InvP : σ → Prop}

/-- The map the store stands for: the value of the cache's entry for a key, the parent's
where the cache has none. -/
def abs (absP : σ → Bytes → Option Bytes) (store : Store σ) (k : Bytes) : Option Bytes :=
  match lookup store.cache k with
  | some cacheValue => cacheValue.value
  | none => absP store.parent k

/-- How the three caches and the parent hang together. -/
structure Inv (absP : σ → Bytes → Option Bytes) (InvP : σ → Prop) (store : Store σ) : Prop where
  parent : InvP store.parent
  cache_sorted : Sorted store.cache
  clean : ∀ k cv, lookup store.cache k = some cv → cv.dirty = false →
    cv.value = absP store.parent k
  dirty : ∀ k cv, lookup store.cache k = some cv → cv.dirty = true →
    (cv.deleted = true ↔ cv.value = none)
  unsorted : ∀ k ∈ store.unsortedCache, ∃ cv, lookup store.cache k = some cv ∧ cv.dirty = true
  unsorted_nodup : store.unsortedCache.Nodup
  sorted : Sorted store.sortedCache
  sorted_dirty : ∀ k v, (k, v) ∈ store.sortedCache → ∃ cv, lookup store.cache k = some cv ∧
    cv.dirty = true ∧ (k ∈ store.unsortedCache ∨ cv.value = v)
  listed : ∀ k cv, lookup store.cache k = some cv → cv.dirty = true →
    k ∈ store.unsortedCache ∨ (k, cv.value) ∈ store.sortedCache

theorem inv_NewStore {parent : σ} (h : InvP parent) : Inv absP InvP (NewStore parent) where
  parent := h
  cache_sorted := List.Pairwise.nil
  clean _ _ h := by simp [NewStore] at h
  dirty _ _ h := by simp [NewStore] at h
  unsorted _ h := by simp [NewStore] at h
  unsorted_nodup := List.nodup_nil
  sorted := List.Pairwise.nil
  sorted_dirty _ _ h := by simp [NewStore] at h
  listed _ _ h := by simp [NewStore] at h

/-! ### Writes to the cache -/

section SetCacheValue

variable (store : Store σ) (k : Bytes) (value : Option Bytes) (deleted dirty : Bool)

theorem lookup_setCacheValue :
    lookup (store.setCacheValue k value deleted dirty).cache =
      Function.update (lookup store.cache) k (some ⟨value, deleted, dirty⟩) :=
  lookup_insert _ _ _

@[simp] theorem setCacheValue_parent : (store.setCacheValue k value deleted dirty).parent = store.parent :=
  rfl

@[simp] theorem setCacheValue_sortedCache :
    (store.setCacheValue k value deleted dirty).sortedCache = store.sortedCache := rfl

variable {store k value deleted dirty}

theorem lookup_setCacheValue_eq_some {k' : Bytes} {cv : cValue} :
    lookup (store.setCacheValue k value deleted dirty).cache k' = some cv ↔
      k' = k ∧ cv = ⟨value, deleted, dirty⟩ ∨ k' ≠ k ∧ lookup store.cache k' = some cv := by
  rw [lookup_setCacheValue]
  by_cases hk : k' = k
  · subst hk
    simp [eq_comm]
  · simp [hk]

theorem abs_setCacheValue :
    abs absP (store.setCacheValue k value deleted dirty) = Function.update (abs absP store) k value := by
  funext k'
  unfold abs
  rw [lookup_setCacheValue]
  by_cases hk : k' = k
  · subst hk
    simp
  · rw [Function.update_of_ne hk, Function.update_of_ne hk]
    rfl

end SetCacheValue

theorem Inv.setCacheValue_dirty {store : Store σ} (hi : Inv absP InvP store) (k : Bytes)
    (value : Option Bytes) (deleted : Bool) (hd : deleted = true ↔ value = none) :
    Inv absP InvP (store.setCacheValue k value deleted true) where
  parent := hi.parent
  cache_sorted := insert_sorted hi.cache_sorted
  clean k' cv h hc := by
    rcases lookup_setCacheValue_eq_some.mp h with ⟨-, rfl⟩ | ⟨-, h⟩
    · cases hc
    · exact hi.clean k' cv h hc
  dirty k' cv h hc := by
    rcases lookup_setCacheValue_eq_some.mp h with ⟨-, rfl⟩ | ⟨-, h⟩
    · exact hd
    · exact hi.dirty k' cv h hc
  unsorted k' hk' := by
    rw [setCacheValue, if_pos rfl, List.mem_insert_iff] at hk'
    by_cases hk : k' = k
    · exact ⟨_, lookup_setCacheValue_eq_some.mpr (.inl ⟨hk, rfl⟩), rfl⟩
    · obtain ⟨cv, h, hc⟩ := hi.unsorted k' (hk'.resolve_left hk)
      exact ⟨cv, lookup_setCacheValue_eq_some.mpr (.inr ⟨hk, h⟩), hc⟩
  unsorted_nodup := by
    rw [setCacheValue, if_pos rfl]
    exact hi.unsorted_nodup.insert
  sorted := hi.sorted
  sorted_dirty k' v h := by
    have hu : ∀ {k'}, k' ∈ store.unsortedCache → k' ∈ (store.setCacheValue k value deleted true).unsortedCache :=
      fun h => by rw [setCacheValue, if_pos rfl]; exact List.mem_insert_of_mem h
    obtain ⟨cv, hl, hc, hv⟩ := hi.sorted_dirty k' v h
    by_cases hk : k' = k
    · refine ⟨_, lookup_setCacheValue_eq_some.mpr (.inl ⟨hk, rfl⟩), rfl, .inl ?_⟩
      rw [setCacheValue, if_pos rfl, hk]
      exact List.mem_insert_self
    · exact ⟨cv, lookup_setCacheValue_eq_some.mpr (.inr ⟨hk, hl⟩), hc, hv.imp_left hu⟩
  listed k' cv h hc := by
    rcases lookup_setCacheValue_eq_some.mp h with ⟨rfl, -⟩ | ⟨hk, h⟩
    · left
      rw [setCacheValue, if_pos rfl]
      exact List.mem_insert_self
    · exact (hi.listed k' cv h hc).imp_left fun h => by
        rw [setCacheValue, if_pos rfl]; exact List.mem_insert_of_mem h

theorem Inv.setCacheValue_clean {store : Store σ} (hi : Inv absP InvP store) {parent : σ}
    (hp : InvP parent) (habs : absP parent = absP store.parent) {k : Bytes}
    (hk : lookup store.cache k = none) :
    Inv absP InvP ({ store with parent := parent }.setCacheValue k (absP store.parent k) false false) where
  parent := hp
  cache_sorted := insert_sorted hi.cache_sorted
  clean k' cv h hc := by
    rcases lookup_setCacheValue_eq_some.mp h with ⟨rfl, rfl⟩ | ⟨-, h⟩
    · simp [habs]
    · simpa [habs] using hi.clean k' cv h hc
  dirty k' cv h hc := by
    rcases lookup_setCacheValue_eq_some.mp h with ⟨-, rfl⟩ | ⟨-, h⟩
    · cases hc
    · exact hi.dirty k' cv h hc
  -- the keys of `unsortedCache` and `sortedCache` have entries, so none of them is `k`
  unsorted k' hk' := by
    obtain ⟨cv, h, hc⟩ := hi.unsorted k' hk'
    exact ⟨cv, lookup_setCacheValue_eq_some.mpr (.inr ⟨by rintro rfl; simp [hk] at h, h⟩), hc⟩
  unsorted_nodup := hi.unsorted_nodup
  sorted := hi.sorted
  sorted_dirty k' v h := by
    obtain ⟨cv, hl, hc, hv⟩ := hi.sorted_dirty k' v h
    exact ⟨cv, lookup_setCacheValue_eq_some.mpr (.inr ⟨by rintro rfl; simp [hk] at hl, hl⟩), hc, hv⟩
  listed k' cv h hc := by
    rcases lookup_setCacheValue_eq_some.mp h with ⟨-, rfl⟩ | ⟨-, h⟩
    · cases hc
    · exact hi.listed k' cv h hc

/-! ### Sorting the dirty keys of a domain -/

/-- `dirtyItems` does not panic, keeps the invariant, and leaves in `sortedCache` exactly the
dirty pairs of the domain, each with the value of its entry. -/
theorem dirtyItems_spec {store : Store σ} (hi : Inv absP InvP store) (start end_ : Option Bytes) :
    ∃ store', store.dirtyItems start end_ = .ok store' ∧ Inv absP InvP store' ∧
      store'.cache = store.cache ∧ store'.parent = store.parent ∧
      ∀ k v, InRange start end_ k → ((k, v) ∈ store'.sortedCache ↔
        ∃ cv, lookup store.cache k = some cv ∧ cv.dirty = true ∧ cv.value = v) := by
  -- the keys to sort: those of `unsortedCache` in the domain
  let D : Bytes → Prop := fun k => k ∈ store.unsortedCache ∧ IsKeyInDomain k start end_ = true
  let val : Bytes → Option Bytes := fun k => (lookup store.cache k).bind cValue.value
  have hval : ∀ k ∈ store.unsortedCache, ∃ cv, lookup store.cache k = some cv ∧
      cv.dirty = true ∧ val k = cv.value := fun k hk => by
    obtain ⟨cv, hl, hc⟩ := hi.unsorted k hk
    exact ⟨cv, hl, hc, by simp [val, hl]⟩
  unfold dirtyItems
  rw [mapM_eq_ok (g := fun k => (k, val k))]
  swap
  · intro k hk
    obtain ⟨cv, hl, -⟩ := hi.unsorted k (List.mem_filter.mp hk).1
    simp [val, hl]
  -- the pairs to merge, sorted
  set U := ((store.unsortedCache.filter fun k => IsKeyInDomain k start end_).map
    fun k => (k, val k)).insertionSort fun a b => a.1 ≤ b.1 with hU
  have hUs : Sorted U := sorted_insertionSort (by
    simpa only [List.map_map, Function.comp_def, List.map_id'] using hi.unsorted_nodup.filter _)
  have hUm : ∀ k v, (k, v) ∈ U ↔ D k ∧ v = val k := fun k v => by
    rw [hU, List.mem_insertionSort, List.mem_map]
    constructor
    · rintro ⟨a, ha, he⟩
      obtain ⟨rfl, rfl⟩ := Prod.mk.inj he
      exact ⟨List.mem_filter.mp ha, rfl⟩
    · rintro ⟨hD, rfl⟩
      exact ⟨k, List.mem_filter.mpr hD, rfl⟩
  have hmem : ∀ k v, (k, v) ∈ dirtyItems.merge (store.sortedCache.length + U.length + 1)
      store.sortedCache U ↔ D k ∧ v = val k ∨ (k, v) ∈ store.sortedCache ∧ ¬ D k := by
    intro k v
    rw [dirtyItems.mem_merge hi.sorted hUs, hUm]
    by_cases hD : D k <;> simp [hUm, hD]
  refine ⟨_, rfl, ⟨hi.parent, hi.cache_sorted, hi.clean, hi.dirty, fun k hk => ?_,
    hi.unsorted_nodup.filter _, dirtyItems.sorted_merge hi.sorted hUs, fun k v h => ?_,
    fun k cv hl hc => ?_⟩, rfl, rfl, fun k v hr => ?_⟩
  · exact hi.unsorted k (List.mem_filter.mp hk).1
  · -- a pair of the merge: a sorted dirty pair, or an old one whose key was not sorted
    rcases (hmem k v).mp h with ⟨hD, rfl⟩ | ⟨hS, hD⟩
    · obtain ⟨cv, hl, hc, hv⟩ := hval k hD.1
      exact ⟨cv, hl, hc, .inr hv.symm⟩
    · obtain ⟨cv, hl, hc, hv⟩ := hi.sorted_dirty k v hS
      refine ⟨cv, hl, hc, hv.imp_left fun hk => List.mem_filter.mpr ⟨hk, ?_⟩⟩
      simpa [D, hk] using hD
  · -- a dirty key: sorted now if it was waiting in the domain, else where it was
    by_cases hD : D k
    · obtain ⟨cv', hl', -, hv⟩ := hval k hD.1
      obtain rfl : cv' = cv := Option.some.inj (hl'.symm.trans hl)
      exact .inr ((hmem k _).mpr (.inl ⟨hD, hv.symm⟩))
    · rcases hi.listed k cv hl hc with hk | hS
      · exact .inl (List.mem_filter.mpr ⟨hk, by simpa [D, hk] using hD⟩)
      · exact .inr ((hmem k _).mpr (.inr ⟨hS, hD⟩))
  · -- inside the domain: exactly the dirty pairs
    have hin : IsKeyInDomain k start end_ = true := IsKeyInDomain_iff.mpr hr
    rw [hmem]
    by_cases hk : k ∈ store.unsortedCache
    · obtain ⟨cv, hl, hc, hv⟩ := hval k hk
      constructor
      · rintro (⟨-, rfl⟩ | ⟨-, hD⟩)
        · exact ⟨cv, hl, hc, hv.symm⟩
        · exact absurd ⟨hk, hin⟩ hD
      · rintro ⟨cv', hl', -, rfl⟩
        obtain rfl : cv' = cv := Option.some.inj (hl'.symm.trans hl)
        exact .inl ⟨⟨hk, hin⟩, hv.symm⟩
    · have hD : ¬ D k := fun h => hk h.1
      simp only [hD, false_and, not_false_eq_true, and_true, false_or]
      constructor
      · intro hS
        obtain ⟨cv, hl, hc, hv⟩ := hi.sorted_dirty k v hS
        exact ⟨cv, hl, hc, hv.resolve_left hk⟩
      · rintro ⟨cv, hl, hc, rfl⟩
        exact (hi.listed k cv hl hc).resolve_left hk

/-! ### Iterators -/

theorem map_some_eq_some {o v : Option Bytes} : o.map some = some v ↔ o = v ∧ v ≠ none := by
  cases o <;> cases v <;> simp

theorem Inv.with_parent {store : Store σ} (hi : Inv absP InvP store) {parent : σ}
    (hp : InvP parent) (habs : absP parent = absP store.parent) :
    Inv absP InvP { store with parent := parent } :=
  { hi with parent := hp, clean := fun k cv h hc => by simpa [habs] using hi.clean k cv h hc }

/-- Over the parent's pairs of a range and the cache's dirty pairs of the range, in either
direction, the merge holds exactly the pairs of the map in the range. -/
theorem mem_merged_iff {K : Type} [LinearOrder K] {asc : Bool} {dk : Bytes → K}
    (hd : cacheMergeIterator.Directed asc dk) {store : Store σ} (hi : Inv absP InvP store)
    {lo hi' : Option Bytes} {Pl C : List (Bytes × Option Bytes)}
    (hPs : Strict (fun x : Bytes × Option Bytes => dk x.1) Pl)
    (hCs : Strict (fun x : Bytes × Option Bytes => dk x.1) C)
    (hPl : ∀ k v, (k, v) ∈ Pl ↔ InRange lo hi' k ∧ (absP store.parent k).map some = some v)
    (hC : ∀ k v, (k, v) ∈ C ↔
      InRange lo hi' k ∧ ∃ cv, lookup store.cache k = some cv ∧ cv.dirty = true ∧ cv.value = v)
    (k : Bytes) (v : Option Bytes) :
    (k, v) ∈ cacheMergeIterator.merged dk Pl C ↔
      InRange lo hi' k ∧ (abs absP store k).map some = some v := by
  rw [cacheMergeIterator.mem_merged hd hPs hCs (k, v), hC, hPl, map_some_eq_some,
    map_some_eq_some]
  by_cases hr : InRange lo hi' k
  swap
  · simp [hr]
  -- inside the range: the cache's dirty entry if it has one, the parent's value otherwise
  have hnC : (∀ c ∈ C, c.1 ≠ k) ↔ ∀ cv, lookup store.cache k = some cv → cv.dirty = false := by
    constructor
    · intro h cv hl
      cases hc : cv.dirty
      · rfl
      · exact absurd rfl (h _ ((hC k _).mpr ⟨hr, cv, hl, hc, rfl⟩))
    · intro h c hc hck
      obtain ⟨-, cv, hl, hd', -⟩ := (hC c.1 c.2).mp hc
      rw [hck] at hl
      simp [h cv hl] at hd'
  rw [hnC]
  cases hl : lookup store.cache k with
  | some cv =>
    cases hc : cv.dirty
    · simp [abs, hl, hc, hr, hi.clean k cv hl hc]
    · have habs : abs absP store k = cv.value := by simp [abs, hl]
      rw [habs]
      constructor
      · rintro ⟨hv, ⟨-, cv', hl', -, rfl⟩ | ⟨-, hn⟩⟩
        · cases Option.some.inj hl'
          exact ⟨hr, rfl, hv⟩
        · simp [hn cv rfl] at hc
      · rintro ⟨-, rfl, hv⟩
        exact ⟨hv, .inl ⟨hr, cv, rfl, hc, rfl⟩⟩
  | none => simp [abs, hl, hr]

/-- The iterator of one direction: the merge of the parent's pairs of the range, listed in the
key order `dk` of the direction, with the dirty pairs of the range that `dirtyItems` sorts. -/
theorem iterator_spec {K : Type} [LinearOrder K] {ascending : Bool} {dk : Bytes → K}
    (hd : cacheMergeIterator.Directed ascending dk)
    (hwalk : ∀ l : List (Bytes × Option Bytes), Sorted l →
      Strict (fun x : Bytes × Option Bytes => dk x.1) (if ascending then l else l.reverse))
    {store : Store σ} (hi : Inv absP InvP store) {lo hi' : Option Bytes}
    {Pl : List (Bytes × Option Bytes)} {parent : σ}
    (hpar : (if ascending then P.Iterator store.parent lo hi'
      else P.ReverseIterator store.parent lo hi') = (.ok Pl, parent))
    (hPs : Strict (fun x : Bytes × Option Bytes => dk x.1) Pl)
    (hPl : ∀ k v, (k, v) ∈ Pl ↔ InRange lo hi' k ∧ (absP store.parent k).map some = some v)
    (hp : InvP parent) (habs : absP parent = absP store.parent) :
    ∃ l, (store.iterator P lo hi' ascending).1 = .ok l ∧
      Strict (fun x : Bytes × Option Bytes => dk x.1) l ∧
      (∀ k v, (k, v) ∈ l ↔ InRange lo hi' k ∧ (abs absP store k).map some = some v) ∧
      Inv absP InvP (store.iterator P lo hi' ascending).2 ∧
      abs absP (store.iterator P lo hi' ascending).2 = abs absP store := by
  obtain ⟨store₂, hd₂, hi₂, hc₂, hp₂, hs₂⟩ := dirtyItems_spec (hi.with_parent hp habs) lo hi'
  -- the memory iterator: the sorted dirty pairs of the range, taken in the direction
  let mi := newMemIterator lo hi' store₂.sortedCache ascending
  have hmi : mi.walk = if ascending then mi.items else mi.items.reverse := rfl
  have hitems : mi.items = store₂.sortedCache.filter fun x => IsKeyInDomain x.1 lo hi' :=
    newMemIterator_items hi₂.sorted ascending
  have hCs : Strict (fun x : Bytes × Option Bytes => dk x.1) mi.walk := by
    rw [hmi, hitems]
    exact hwalk _ (hi₂.sorted.filter _)
  have hC : ∀ k v, (k, v) ∈ mi.walk ↔
      InRange lo hi' k ∧ ∃ cv, lookup store₂.cache k = some cv ∧ cv.dirty = true ∧ cv.value = v := by
    intro k v
    have hmem : (k, v) ∈ mi.walk ↔ (k, v) ∈ mi.items := by
      rw [hmi]
      split <;> simp
    rw [hmem, hitems, List.mem_filter, IsKeyInDomain_iff, hc₂]
    exact ⟨fun ⟨h, hr⟩ => ⟨hr, (hs₂ k v hr).mp h⟩, fun ⟨hr, h⟩ => ⟨(hs₂ k v hr).mpr h, hr⟩⟩
  have hPl₂ : ∀ k v, (k, v) ∈ Pl ↔ InRange lo hi' k ∧ (absP store₂.parent k).map some = some v := by
    simpa [hp₂, habs] using hPl
  have hsome : ∀ x ∈ Pl, x.2.isSome := fun x hx => by
    obtain ⟨-, h⟩ := (hPl x.1 x.2).mp hx
    obtain ⟨w, -, hw⟩ := Option.map_eq_some_iff.mp h
    simp [← hw]
  have hdrain := cacheMergeIterator.drain_iterator hd rfl hPs hCs hsome
  have hiter : store.iterator P lo hi' ascending =
      (.ok (cacheMergeIterator.merged dk Pl mi.walk), store₂) := by
    unfold iterator
    rw [hpar]
    simp only [hd₂]
    exact congrArg (·, store₂) hdrain
  have habs₂ : abs absP store₂ = abs absP store := by
    funext k
    simp [abs, hc₂, hp₂, habs]
  rw [hiter]
  refine ⟨_, rfl, cacheMergeIterator.strict_merged hPs hCs, fun k v => ?_, hi₂, habs₂⟩
  rw [← habs₂]
  exact mem_merged_iff hd hi₂ hPs hCs hPl₂ hC k v

theorem strict_toDual_iff {l : List (Bytes × Option Bytes)} :
    Strict (fun x : Bytes × Option Bytes => OrderDual.toDual x.1) l ↔ Sorted l.reverse :=
  List.pairwise_reverse.symm

/-! ### The calls -/

section Writes

variable {store : Store σ} (hi : Inv absP InvP store)
include hi

theorem Set_spec (k v : Bytes) :
    Inv absP InvP (store.Set k v) ∧
      abs absP (store.Set k v) = Function.update (abs absP store) k (some v) :=
  ⟨hi.setCacheValue_dirty k (some v) false (by simp), abs_setCacheValue⟩

theorem Delete_spec (k : Bytes) :
    Inv absP InvP (store.Delete k) ∧
      abs absP (store.Delete k) = Function.update (abs absP store) k none :=
  ⟨hi.setCacheValue_dirty k none true (by simp), abs_setCacheValue⟩

end Writes

section Calls

variable (hP : P.Refines absP InvP) {store : Store σ} (hi : Inv absP InvP store)
include hP hi

theorem Get_spec (k : Bytes) :
    (store.Get P k).1 = abs absP store k ∧ Inv absP InvP (store.Get P k).2 ∧
      abs absP (store.Get P k).2 = abs absP store := by
  unfold Get
  cases hk : lookup store.cache k with
  | some cv => exact ⟨by simp [abs, hk], hi, rfl⟩
  | none =>
    -- a miss: the parent answers, and its answer is cached clean
    obtain ⟨hv, hp, habs⟩ := hP.get store.parent k hi.parent
    refine ⟨by simp [abs, hk, hv], ?_, ?_⟩
    · simpa [hv] using hi.setCacheValue_clean hp habs hk
    · rw [abs_setCacheValue, hv]
      funext k'
      by_cases hk' : k' = k
      · subst hk'
        simp [abs, hk]
      · rw [Function.update_of_ne hk']
        simp [abs, habs]

theorem Has_spec (k : Bytes) :
    (store.Has P k).1 = (abs absP store k).isSome ∧ Inv absP InvP (store.Has P k).2 ∧
      abs absP (store.Has P k).2 = abs absP store := by
  obtain ⟨h₁, h₂, h₃⟩ := Get_spec hP hi k
  exact ⟨by simp [Has, h₁], h₂, h₃⟩

theorem Iterator_spec (lo hi' : Option Bytes) :
    (∃ l, (store.iterator P lo hi' true).1 = .ok l ∧ Yields (abs absP store) lo hi' l) ∧
      Inv absP InvP (store.iterator P lo hi' true).2 ∧
      abs absP (store.iterator P lo hi' true).2 = abs absP store := by
  obtain ⟨⟨Pl, hPl, hy⟩, hp, habs⟩ := hP.iterator store.parent lo hi' hi.parent
  obtain ⟨l, hl, hs, hm, hi₂, habs₂⟩ := iterator_spec cacheMergeIterator.directed_ascending
    (fun _ h => h) hi (Prod.ext hPl rfl) hy.1 hy.2 hp habs
  exact ⟨⟨l, hl, hs, hm⟩, hi₂, habs₂⟩

theorem ReverseIterator_spec (lo hi' : Option Bytes) :
    (∃ l, (store.iterator P lo hi' false).1 = .ok l ∧ Yields (abs absP store) lo hi' l.reverse) ∧
      Inv absP InvP (store.iterator P lo hi' false).2 ∧
      abs absP (store.iterator P lo hi' false).2 = abs absP store := by
  obtain ⟨⟨Pl, hPl, hy⟩, hp, habs⟩ := hP.reverseIterator store.parent lo hi' hi.parent
  obtain ⟨l, hl, hs, hm, hi₂, habs₂⟩ := iterator_spec cacheMergeIterator.directed_descending
    (fun l h => strict_toDual_iff.mpr (by rwa [if_neg Bool.false_ne_true, List.reverse_reverse]))
    hi (Prod.ext hPl rfl)
    (strict_toDual_iff.mpr hy.1) (fun k v => by rw [← List.mem_reverse]; exact hy.2 k v) hp habs
  exact ⟨⟨l, hl, strict_toDual_iff.mp hs, fun k v => by rw [List.mem_reverse]; exact hm k v⟩,
    hi₂, habs₂⟩

end Calls

/-! ### Writing the cache to the parent -/

section Write

variable (hP : P.Refines absP InvP)
include hP

theorem writeEntry_spec {parent : σ} (hp : InvP parent) (x : Bytes × cValue)
    (hx : x.2.deleted = true ↔ x.2.value = none) :
    InvP (writeEntry P parent x) ∧
      absP (writeEntry P parent x) = Function.update (absP parent) x.1 x.2.value := by
  obtain ⟨k, ⟨value, deleted, dirty⟩⟩ := x
  cases deleted with
  | true =>
    obtain rfl : value = none := hx.mp rfl
    simpa [writeEntry] using hP.delete parent k hp
  | false =>
    -- a live entry has a value, which is set; the branch of a nil value is never taken
    obtain ⟨v, rfl⟩ := Option.ne_none_iff_exists'.mp (mt hx.mpr Bool.false_ne_true)
    simpa [writeEntry] using hP.set parent k v hp

theorem foldl_writeEntry {D : List (Bytes × cValue)} (hD : Sorted D)
    (hx : ∀ x ∈ D, x.2.deleted = true ↔ x.2.value = none) {parent : σ} (hp : InvP parent) :
    InvP (D.foldl (writeEntry P) parent) ∧ ∀ k, absP (D.foldl (writeEntry P) parent) k =
      match lookup D k with
      | some cv => cv.value
      | none => absP parent k := by
  induction D generalizing parent with
  | nil => exact ⟨hp, fun k => rfl⟩
  | cons x D ih =>
    rw [Sorted, List.pairwise_cons] at hD
    obtain ⟨hp', habs'⟩ := writeEntry_spec hP hp x (hx x List.mem_cons_self)
    obtain ⟨hinv, habs⟩ := ih hD.2 (fun y hy => hx y (List.mem_cons_of_mem _ hy)) hp'
    refine ⟨hinv, fun k => ?_⟩
    rw [List.foldl_cons, habs, habs', lookup_cons]
    by_cases hk : x.1 = k
    · -- the later entries have greater keys, so none of them is the head's
      subst hk
      simp [lookup_eq_none_of_lt hD.1]
    · cases lookup D k <;> simp [hk, Function.update_of_ne (Ne.symm hk)]

theorem Write_spec {store : Store σ} (hi : Inv absP InvP store) :
    InvP (store.Write P).parent ∧ absP (store.Write P).parent = abs absP store := by
  -- the dirty entries are already in key order, so the sort leaves them
  have hs : Sorted (store.cache.filter fun x => x.2.dirty) := hi.cache_sorted.filter _
  have hsort : ((store.cache.filter fun x => x.2.dirty).insertionSort fun a b => a.1 ≤ b.1) =
      store.cache.filter fun x => x.2.dirty :=
    List.Pairwise.insertionSort_eq (hs.imp le_of_lt)
  have hx : ∀ x ∈ store.cache.filter (fun x => x.2.dirty),
      x.2.deleted = true ↔ x.2.value = none := fun x hx => by
    obtain ⟨hm, hc⟩ := List.mem_filter.mp hx
    exact hi.dirty x.1 x.2 ((lookup_eq_some_iff hi.cache_sorted).mpr hm) hc
  obtain ⟨hp, habs⟩ := foldl_writeEntry hP hs hx hi.parent
  simp only [Write, NewStore, hsort]
  refine ⟨hp, funext fun k => ?_⟩
  rw [habs, lookup_filter hi.cache_sorted cValue.dirty k, abs]
  cases hl : lookup store.cache k with
  | none => rfl
  | some cv =>
    -- a clean entry holds the parent's value already
    cases hc : cv.dirty
    · simp [Option.filter_some, hc, hi.clean k cv hl hc]
    · simp [Option.filter_some, hc]

/-- The cache store over a store that refines a map refines the map with the cache's values
laid over it. -/
theorem refines_abs : (kvStore P).Refines (abs absP) (Inv absP InvP) where
  get _ k hi := Get_spec hP hi k
  has _ k hi := Has_spec hP hi k
  set _ k v hi := Set_spec hi k v
  delete _ k hi := Delete_spec hi k
  iterator _ lo hi' hi := Iterator_spec hP hi lo hi'
  reverseIterator _ lo hi' hi := ReverseIterator_spec hP hi lo hi'

/-- From a new cache store over a parent that refines a map, every sequence of calls answers
as the map the writes before each call make, and `Write` then leaves that map in the parent. -/
theorem kvStore_refines (parent : σ) (hp : InvP parent) (ops : List KVStore.Op) :
    KVStore.AnswersAll (absP parent) ops ((kvStore P).run (NewStore parent) ops).1 ∧
      InvP (((kvStore P).run (NewStore parent) ops).2.Write P).parent ∧
      absP (((kvStore P).run (NewStore parent) ops).2.Write P).parent =
        ops.foldl KVStore.Op.apply (absP parent) := by
  obtain ⟨hans, hi, habs⟩ := (refines_abs hP).run ops (NewStore parent) (inv_NewStore hp)
  obtain ⟨hp', habs'⟩ := Write_spec hP hi
  exact ⟨hans, hp', habs'.trans habs⟩

end Write

/-- Over the map store holding [0] ↦ [5] and [1] ↦ [3]: a write, a deletion and a backward
iteration, then the write to the parent. -/
theorem kvStore_refines_mapStore :
    KVStore.AnswersAll (lookup [([0], [5]), ([1], [3])])
        [.Set [2] [2], .Delete [0], .ReverseIterator none none]
        ((kvStore MapStore).run (NewStore [([0], [5]), ([1], [3])])
          [.Set [2] [2], .Delete [0], .ReverseIterator none none]).1 ∧
      Sorted (((kvStore MapStore).run (NewStore [([0], [5]), ([1], [3])])
        [.Set [2] [2], .Delete [0], .ReverseIterator none none]).2.Write MapStore).parent ∧
      lookup (((kvStore MapStore).run (NewStore [([0], [5]), ([1], [3])])
        [.Set [2] [2], .Delete [0], .ReverseIterator none none]).2.Write MapStore).parent =
        [KVStore.Op.Set [2] [2], .Delete [0], .ReverseIterator none none].foldl KVStore.Op.apply
          (lookup [([0], [5]), ([1], [3])]) :=
  kvStore_refines MapStore_refines _ (by decide) _

example : ((((NewStore [([0], [5]), ([1], [3])]).Set [2] [2]).Delete [0]).iterator MapStore
    none none false).1 = .ok [([2], some [2]), ([1], some [3])] := by decide

end Store

end CacheKV

end Dipper
