import Dipper.Store.CacheKV.Iterators

/-!
# The cache store

`store.go`. A cache store keeps the writes to its parent in memory until `Write`. `cache` has an
entry for every key read or written since: a written one is dirty, a deleted one has no value.
`unsortedCache` holds the dirty keys that no iterator has sorted yet, and `sortedCache` the
pairs sorted so far, in key order, with no value for a deletion. An iterator first moves the
dirty keys of its domain from `unsortedCache` into `sortedCache` (`dirtyItems`), then walks the
parent's iterator and the pairs of `sortedCache` in its domain side by side
(`cacheMergeIterator`).
-/

namespace Dipper

namespace CacheKV

open OrderedMap KeyedList

/-- `cValue`: a nil value that is not deleted means that the parent does not have the key. -/
structure cValue where
  value : Option Bytes
  deleted : Bool
  dirty : Bool

/-- `Store` over a parent whose state is `σ`. -/
structure Store (σ : Type) where
  cache : List (Bytes × cValue)
  unsortedCache : List Bytes
  sortedCache : List (Bytes × Option Bytes)
  parent : σ

variable {σ : Type}

def NewStore (parent : σ) : Store σ :=
  { cache := [], unsortedCache := [], sortedCache := [], parent := parent }

namespace Store

/-- `setCacheValue`: the only entry point that changes `cache`. -/
def setCacheValue (store : Store σ) (key : Bytes) (value : Option Bytes) (deleted dirty : Bool) :
    Store σ :=
  { store with
    cache := insert key { value := value, deleted := deleted, dirty := dirty } store.cache
    unsortedCache := if dirty then store.unsortedCache.insert key else store.unsortedCache }

/-- `dirtyItems`: the dirty keys of the domain leave `unsortedCache` and go, with their values
and in key order, into `sortedCache`. -/
def dirtyItems (store : Store σ) (start end_ : Option Bytes) : Except String (Store σ) := do
  let unsorted ← (store.unsortedCache.filter fun key => IsKeyInDomain key start end_).mapM
    fun key => match lookup store.cache key with
      | some cacheValue => pure (key, cacheValue.value)
      | none => throw "runtime error: invalid memory address or nil pointer dereference"
  -- `sort.Slice` by `bytes.Compare`; the keys are those of a map, so no two are equal
  let unsorted := unsorted.insertionSort fun a b => a.1 ≤ b.1
  pure { store with
    unsortedCache := store.unsortedCache.filter fun key => !IsKeyInDomain key start end_
    sortedCache := merge (store.sortedCache.length + unsorted.length + 1) store.sortedCache unsorted }
where
  /-- The loop over `sortedCache` and the sorted pairs: a pair goes in before a greater
  element, replaces an equal one, and the pairs left go to the back. The fuel outlasts the
  two lists. -/
  merge : Nat → List (Bytes × Option Bytes) → List (Bytes × Option Bytes) →
      List (Bytes × Option Bytes)
    | 0, sorted, _ => sorted
    | _ + 1, [], unsorted => unsorted
    | _ + 1, e :: sorted, [] => e :: sorted
    | fuel + 1, e :: sorted, uitem :: unsorted =>
      match Ord.compare uitem.1 e.1 with
      | .lt => uitem :: merge fuel (e :: sorted) unsorted
      | .gt => e :: merge fuel sorted (uitem :: unsorted)
      | .eq => uitem :: merge fuel sorted unsorted

theorem dirtyItems.merge_mergeAdd (S U : List (Bytes × Option Bytes)) :
    MergeAdd (fun x : Bytes × Option Bytes => x.1) (fun e u => (e.1, u.2)) (fun _ => false) S U
      (dirtyItems.merge (S.length + U.length + 1) S U) := by
  refine MergeAdd.of_fuel dirtyItems.merge (fun _ _ => by simp [merge])
    (fun _ _ _ => by simp [merge]) (fun _ a _ b _ h => ?_) (fun _ a _ b _ h => ?_)
    (fun _ a _ b _ h => ?_) _ S U (by omega)
  · simp [merge, (compare_bytes_compares b.1 a.1).eq_gt.mpr h]
  · simp [merge, h]
  · simp [merge, (compare_bytes_compares b.1 a.1).eq_lt.mpr h]

theorem dirtyItems.sorted_merge {S U : List (Bytes × Option Bytes)} (hS : Sorted S) (hU : Sorted U) :
    Sorted (dirtyItems.merge (S.length + U.length + 1) S U) := by
  -- the dirty pair takes the old one's key, which is its own
  have hkey : ∀ e u : Bytes × Option Bytes, (e.1, u.2).1 = e.1 := fun _ _ => rfl
  exact @MergeAdd.strict _ _ _ _ _ _ hkey _ _ _ (merge_mergeAdd S U) hS hU

theorem dirtyItems.mem_merge {S U : List (Bytes × Option Bytes)} (hS : Sorted S) (hU : Sorted U)
    (k : Bytes) (v : Option Bytes) :
    (k, v) ∈ dirtyItems.merge (S.length + U.length + 1) S U ↔
      (k, v) ∈ U ∨ (k, v) ∈ S ∧ ∀ w, (k, w) ∉ U := by
  have hm := merge_mergeAdd S U
  have hS' : Strict Prod.fst S := hS
  have hU' : Strict Prod.fst U := hU
  have hkey : ∀ e u : Bytes × Option Bytes, (e.1, u.2).1 = e.1 := fun _ _ => rfl
  have hout : Strict Prod.fst _ := sorted_merge hS hU
  have he := @MergeAdd.entryAt_out _ _ _ _ _ _ hkey _ _ _ hm hS' hU' k
  rw [← (hout.entryAt_eq_some_iff).trans (and_iff_left rfl), he]
  cases hu : entryAt Prod.fst U k with
  | some u =>
    -- a dirty pair under `k`: it wins
    obtain ⟨hum, rfl⟩ := hU'.entryAt_eq_some_iff.mp hu
    have hw : ∀ w, (u.1, w) ∈ U ↔ w = u.2 := fun w =>
      ⟨fun h => (Prod.ext_iff.mp (Option.some.inj (hu.symm.trans
        (hU'.entryAt_eq_some_iff.mpr ⟨h, rfl⟩)))).2.symm, fun h => h ▸ hum⟩
    cases hs : entryAt Prod.fst S u.1 with
    | none => simp [Option.merge, Option.filter_some, Prod.ext_iff, hw, eq_comm]
    | some s =>
      obtain ⟨-, hsk⟩ := hS'.entryAt_eq_some_iff.mp hs
      simp [Option.merge, Option.filter_some, Prod.ext_iff, hsk, hw, eq_comm]
  | none =>
    have hw : ∀ w, (k, w) ∉ U := fun w h => by
      simp [hU'.entryAt_eq_some_iff.mpr ⟨h, rfl⟩] at hu
    cases hs : entryAt Prod.fst S k <;>
      simp [Option.merge, hw, ← hs, hS'.entryAt_eq_some_iff]

section Parent

variable (P : KVStore σ)

/-- `Get`: a key the cache does not have is read from the parent and cached, clean. -/
def Get (store : Store σ) (key : Bytes) : Option Bytes × Store σ :=
  match lookup store.cache key with
  | some cacheValue => (cacheValue.value, store)
  | none =>
    let (value, parent) := P.Get store.parent key
    (value, { store with parent := parent }.setCacheValue key value false false)

def Set (store : Store σ) (key value : Bytes) : Store σ :=
  store.setCacheValue key (some value) false true

def Has (store : Store σ) (key : Bytes) : Bool × Store σ :=
  let (value, store) := store.Get P key
  (value.isSome, store)

def Delete (store : Store σ) (key : Bytes) : Store σ :=
  store.setCacheValue key none true true

/-- A turn of `Write`'s loop: a key and its entry of the cache go to the parent, a deleted
one as a deletion. -/
def writeEntry (parent : σ) (x : Bytes × cValue) : σ :=
  if x.2.deleted then P.Delete parent x.1
  else match x.2.value with
    -- it already does not exist in the parent
    | none => parent
    | some value => P.Set parent x.1 value

/-- `Write`: the dirty keys in order, each with its entry of the cache, go to the parent; then
the cache is cleared. -/
def Write (store : Store σ) : Store σ :=
  let dirty := (store.cache.filter fun x => x.2.dirty).insertionSort fun a b => a.1 ≤ b.1
  NewStore (dirty.foldl (writeEntry P) store.parent)

/-- `iterator`: the parent's iterator, then `dirtyItems`, then the merge iterator over the
parent's pairs and the cache's, consumed. -/
def iterator (store : Store σ) (start end_ : Option Bytes) (ascending : Bool) :
    Except String (List (Bytes × Option Bytes)) × Store σ :=
  let (parent, parentState) :=
    if ascending then P.Iterator store.parent start end_
    else P.ReverseIterator store.parent start end_
  let store := { store with parent := parentState }
  match parent, store.dirtyItems start end_ with
  | .error e, _ => (.error e, store)
  | _, .error e => (.error e, store)
  | .ok parent, .ok store =>
    let cache := newMemIterator start end_ store.sortedCache ascending
    (cacheMergeIterator.iterator.drain (parent.length + cache.items.length + 1)
      { parent := parent, cache := cache, ascending := ascending }, store)

/-- The cache store as a `KVStore` over its parent's. -/
def kvStore : KVStore (Store σ) where
  Get store key := store.Get P key
  Has store key := store.Has P key
  Set store key value := store.Set key value
  Delete store key := store.Delete key
  Iterator store start end_ := store.iterator P start end_ true
  ReverseIterator store start end_ := store.iterator P start end_ false

end Parent

end Store

end CacheKV

end Dipper
