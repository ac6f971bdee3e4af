import Dipper.Store.Types

/-!
# The prefix store

`prefix.Store` gives access to the keys of a parent store that begin with a prefix `p`, with `p`
cut off: a key `k` of the prefix store is the key `p ++ k` of the parent. Its iterators ask the
parent for the range `[p ++ start, p ++ end)`, or up to `PrefixEndBytes p` (nil, unbounded, when
`p` is empty or all `0xFF`) for a nil end, and strip the prefix from each key while it is there.
-/

namespace Dipper

open OrderedMap

namespace PrefixStore

variable {σ : Type}

/-- `cloneAppend(bz, tail)`: a fresh slice holding `bz` then `tail`. -/
def cloneAppend (bz tail : Bytes) : Bytes := bz ++ tail

def HasPrefix (s p : Bytes) : Bool := p.isPrefixOf s

/-- `stripPrefix`: the key without the prefix; a key that does not begin with it panics. -/
def stripPrefix (key p : Bytes) : Except String Bytes :=
  if key.length < p.length ∨ key.take p.length ≠ p then .error "should not happen"
  else .ok (key.drop p.length)

def cpIncr (bz : Bytes) : Option Bytes := PrefixEndBytes bz

/-- `prefixIterator`, over the parent's iterator (as the pairs it has left); `pfx` is the
field `prefix` of the source. -/
structure prefixIterator where
  pfx : Bytes
  start : Option Bytes
  end_ : Option Bytes
  iter : List (Bytes × Option Bytes)
  valid : Bool

/-- Whether the parent is valid at a key with the prefix. -/
def validAt (iter : List (Bytes × Option Bytes)) (p : Bytes) : Bool :=
  !iter.isEmpty && match iter with
    | x :: _ => HasPrefix x.1 p
    | [] => false

def newPrefixIterator (p : Bytes) (start end_ : Option Bytes) (parent : List (Bytes × Option Bytes)) :
    prefixIterator :=
  { pfx := p, start := start, end_ := end_, iter := parent, valid := validAt parent p }

namespace prefixIterator

def Valid (it : prefixIterator) : Bool := it.valid && !it.iter.isEmpty

def Next (it : prefixIterator) : Except String prefixIterator := do
  if !it.valid then throw "prefixIterator invalid, cannot call Next()"
  let iter ← listIterator.Next it.iter
  pure { it with iter := iter, valid := if !validAt iter it.pfx then false else it.valid }

def Key (it : prefixIterator) : Except String Bytes := do
  if !it.valid then throw "prefixIterator invalid, cannot call Key()"
  let (key, _) ← listIterator.Key it.iter
  stripPrefix key it.pfx

def Value (it : prefixIterator) : Except String (Option Bytes) := do
  if !it.valid then throw "prefixIterator invalid, cannot call Value()"
  let (value, _) ← listIterator.Value it.iter
  pure value

/-- The prefix iterator behind the `Iterator` interface: none of its reads moves it. -/
def iterator : Iterator prefixIterator where
  Valid it := .ok (it.Valid, it)
  Key it := (fun k => (k, it)) <$> it.Key
  Value it := (fun v => (v, it)) <$> it.Value
  Next it := it.Next

end prefixIterator

/-- `Store.Iterator` and `Store.ReverseIterator`, which differ only in the parent iterator
they open: `cloneAppend` of the prefix and the bounds, the prefix end for a nil end. -/
def iteratorWith (parentIterator : σ → Option Bytes → Option Bytes →
      Except String (List (Bytes × Option Bytes)) × σ)
    (p : Bytes) (st : σ) (start end_ : Option Bytes) :
    Except String (List (Bytes × Option Bytes)) × σ :=
  let newstart := cloneAppend p (start.getD [])
  let newend := match end_ with
    | none => cpIncr p
    | some e => some (cloneAppend p e)
  let r := parentIterator st (some newstart) newend
  (r.1.bind fun l => prefixIterator.iterator.drain (l.length + 1) (newPrefixIterator p start end_ l),
    r.2)

/-- `prefix.NewStore(parent, prefix)`; `Store.key` is `cloneAppend` of the prefix. -/
def NewStore (parent : KVStore σ) (p : Bytes) : KVStore σ where
  Get st k := parent.Get st (cloneAppend p k)
  Has st k := parent.Has st (cloneAppend p k)
  Set st k v := parent.Set st (cloneAppend p k) v
  Delete st k := parent.Delete st (cloneAppend p k)
  Iterator := iteratorWith parent.Iterator p
  ReverseIterator := iteratorWith parent.ReverseIterator p

/-! ### The iterator -/

/-- What the prefix iterator has left to yield: the parent's pairs, prefix stripped. -/
def strip (p : Bytes) (l : List (Bytes × Option Bytes)) : List (Bytes × Option Bytes) :=
  l.map fun x => (x.1.drop p.length, x.2)

theorem HasPrefix_append (p t : Bytes) : HasPrefix (p ++ t) p = true := by
  simp [HasPrefix]

theorem stripPrefix_append (p t : Bytes) : stripPrefix (p ++ t) p = .ok t := by
  simp [stripPrefix]

theorem strip_eq_cons {p : Bytes} {iter l : List (Bytes × Option Bytes)} {x : Bytes × Option Bytes}
    (h : strip p iter = x :: l) :
    ∃ y l', iter = y :: l' ∧ x = (y.1.drop p.length, y.2) ∧ l = strip p l' := by
  cases iter with
  | nil => simp [strip] at h
  | cons y l' =>
    simp only [strip, List.map_cons, List.cons.injEq] at h
    exact ⟨y, l', rfl, h.1.symm, h.2.symm⟩

/-- Over parent pairs that all begin with the prefix, the iterator is valid exactly while
pairs are left. -/
def Clean (it : prefixIterator) : Prop :=
  (∀ x ∈ it.iter, ∃ t, x.1 = it.pfx ++ t) ∧ it.valid = !it.iter.isEmpty

theorem validAt_of_clean {iter : List (Bytes × Option Bytes)} {p : Bytes}
    (h : ∀ x ∈ iter, ∃ t, x.1 = p ++ t) : validAt iter p = !iter.isEmpty := by
  cases iter with
  | nil => rfl
  | cons x l =>
    obtain ⟨t, ht⟩ := h x List.mem_cons_self
    simp [validAt, ht, HasPrefix_append]

theorem iterator_walks :
    prefixIterator.iterator.Walks (fun it => strip it.pfx it.iter) Clean where
  valid it hc := ⟨it, by simp [prefixIterator.iterator, prefixIterator.Valid, hc.2, strip], hc, rfl⟩
  key it x l hc hv := by
    obtain ⟨y, l', hiter, rfl, rfl⟩ := strip_eq_cons hv
    obtain ⟨t, ht⟩ := hc.1 y (hiter ▸ List.mem_cons_self)
    refine ⟨it, ?_, hc, by rw [hiter]; rfl⟩
    simp [prefixIterator.iterator, prefixIterator.Key, hc.2, hiter, listIterator, ht,
      stripPrefix_append, bind, Except.bind, Functor.map, Except.map]
  value it x l hc hv := by
    obtain ⟨y, l', hiter, rfl, rfl⟩ := strip_eq_cons hv
    refine ⟨it, ?_, hc, by rw [hiter]; rfl⟩
    simp [prefixIterator.iterator, prefixIterator.Value, hc.2, hiter, listIterator, bind,
      Except.bind, Functor.map, Except.map, pure, Except.pure]
  next it x l hc hv := by
    obtain ⟨y, l', hiter, rfl, rfl⟩ := strip_eq_cons hv
    have hrest : ∀ x ∈ l', ∃ t, x.1 = it.pfx ++ t := fun x hx => hc.1 x (hiter ▸ List.mem_cons_of_mem _ hx)
    refine ⟨{ it with iter := l', valid := !l'.isEmpty }, ?_, ⟨hrest, rfl⟩, rfl⟩
    simp only [prefixIterator.iterator, prefixIterator.Next, hc.2, hiter, listIterator,
      validAt_of_clean hrest, bind, Except.bind]
    cases l' <;> rfl

theorem drain_newPrefixIterator {p : Bytes} {start end_ : Option Bytes}
    {l : List (Bytes × Option Bytes)} (hl : ∀ x ∈ l, ∃ t, x.1 = p ++ t) :
    prefixIterator.iterator.drain (l.length + 1) (newPrefixIterator p start end_ l) =
      .ok (strip p l) :=
  iterator_walks.drain _ _ ⟨hl, validAt_of_clean hl⟩ (by simp [newPrefixIterator, strip])

/-! ### The range asked of the parent -/

theorem newend_iff {p : Bytes} {end_ : Option Bytes} {x : Bytes} :
    (∀ e ∈ (match end_ with
      | none => cpIncr p
      | some e => some (cloneAppend p e)), x < e) ↔
      match end_ with
      | none => ∀ q ∈ PrefixEndBytes p, x < q
      | some e => x < p ++ e := by
  cases end_ <;> simp [cpIncr, cloneAppend]

theorem exists_append_of_inRange {p x : Bytes} {start end_ : Option Bytes}
    (h : InRange (some (cloneAppend p (start.getD []))) (match end_ with
      | none => cpIncr p
      | some e => some (cloneAppend p e)) x) : ∃ t, x = p ++ t := by
  have hlo : p ++ start.getD [] ≤ x := h.1 _ rfl
  have hhi := newend_iff.mp h.2
  cases end_ with
  | none => exact (exists_append_iff_PrefixEndBytes p x).mpr ⟨(le_append_bytes _ _).trans hlo, hhi⟩
  | some e => exact exists_append_of_between hlo hhi

theorem inRange_append_iff (p k : Bytes) (start end_ : Option Bytes) :
    InRange (some (cloneAppend p (start.getD []))) (match end_ with
      | none => cpIncr p
      | some e => some (cloneAppend p e)) (p ++ k) ↔ InRange start end_ k := by
  have hlo : p ++ start.getD [] ≤ p ++ k ↔ ∀ s ∈ start, s ≤ k := by
    rw [(append_strictMono p).le_iff_le]
    cases start <;> simp [nil_le_bytes]
  have hhi : (match end_ with
      | none => ∀ q ∈ PrefixEndBytes p, p ++ k < q
      | some e => p ++ k < p ++ e) ↔ ∀ e ∈ end_, k < e := by
    cases end_ with
    | none => simpa using ((exists_append_iff_PrefixEndBytes p (p ++ k)).mp ⟨k, rfl⟩).2
    | some e => simpa using (append_strictMono p).lt_iff_lt
  rw [InRange, InRange, newend_iff, ← hhi, ← hlo]
  simp [cloneAppend]

theorem yields_strip {m : Bytes → Option Bytes} {p : Bytes} {start end_ : Option Bytes}
    {l : List (Bytes × Option Bytes)}
    (h : Yields m (some (cloneAppend p (start.getD []))) (match end_ with
      | none => cpIncr p
      | some e => some (cloneAppend p e)) l) :
    (∀ x ∈ l, ∃ t, x.1 = p ++ t) ∧ Yields (fun k => m (p ++ k)) start end_ (strip p l) := by
  have hkeys : ∀ x ∈ l, ∃ t, x.1 = p ++ t := fun x hx => exists_append_of_inRange (h.mem_inRange hx)
  refine ⟨hkeys, h.comap (append_strictMono p) (fun k => List.drop_left) (fun x hx => ?_)
    (inRange_append_iff p · start end_)⟩
  obtain ⟨t, ht⟩ := hkeys x hx
  simp [ht]

theorem iteratorWith_ok {parentIterator : σ → Option Bytes → Option Bytes →
      Except String (List (Bytes × Option Bytes)) × σ}
    {p : Bytes} {st : σ} {start end_ : Option Bytes} {l : List (Bytes × Option Bytes)}
    (hl : (parentIterator st (some (cloneAppend p (start.getD []))) (match end_ with
      | none => cpIncr p
      | some e => some (cloneAppend p e))).1 = .ok l)
    (hkeys : ∀ x ∈ l, ∃ t, x.1 = p ++ t) :
    (iteratorWith parentIterator p st start end_).1 = .ok (strip p l) := by
  simp only [iteratorWith, hl, Except.bind, drain_newPrefixIterator hkeys]

/-! ### Refinement -/

theorem append_injective (p : Bytes) : Function.Injective (p ++ · : Bytes → Bytes) :=
  fun _ _ h => List.append_cancel_left h

/-- The prefix store refines the sub-map `k ↦ M (p ++ k)` of a parent refining `M`, for
every prefix, and its writes change the parent's map at `p ++ k` only. -/
theorem NewStore_refines {parent : KVStore σ} {abs : σ → Bytes → Option Bytes}
    {Inv : σ → Prop} (h : parent.Refines abs Inv) (p : Bytes) :
    (NewStore parent p).Refines (fun st k => abs st (p ++ k)) Inv ∧
      ∀ st, Inv st →
        (∀ k v, abs ((NewStore parent p).Set st k v) = Function.update (abs st) (p ++ k) (some v)) ∧
        ∀ k, abs ((NewStore parent p).Delete st k) = Function.update (abs st) (p ++ k) none := by
  have hupd : ∀ (g : Bytes → Option Bytes) k (a : Option Bytes),
      (fun k' => Function.update g (p ++ k) a (p ++ k')) = Function.update (fun k' => g (p ++ k')) k a :=
    fun g k a => Function.update_comp_eq_of_injective g (append_injective p) k a
  refine ⟨⟨fun st k hs => ?_, fun st k hs => ?_, fun st k v hs => ?_, fun st k hs => ?_,
    fun st lo hi hs => ?_, fun st lo hi hs => ?_⟩, fun st hs =>
      ⟨fun k v => (h.set st _ v hs).2, fun k => (h.delete st _ hs).2⟩⟩
  · obtain ⟨h1, h2, h3⟩ := h.get st (p ++ k) hs
    exact ⟨h1, h2, by simp only [NewStore, cloneAppend, h3]⟩
  · obtain ⟨h1, h2, h3⟩ := h.has st (p ++ k) hs
    exact ⟨h1, h2, by simp only [NewStore, cloneAppend, h3]⟩
  · obtain ⟨h1, h2⟩ := h.set st (p ++ k) v hs
    exact ⟨h1, by simp only [NewStore, cloneAppend, h2, hupd]⟩
  · obtain ⟨h1, h2⟩ := h.delete st (p ++ k) hs
    exact ⟨h1, by simp only [NewStore, cloneAppend, h2, hupd]⟩
  · obtain ⟨⟨l, hl, hy⟩, h2, h3⟩ := h.iterator st _ _ hs
    obtain ⟨hkeys, hy'⟩ := yields_strip hy
    exact ⟨⟨_, iteratorWith_ok hl hkeys, hy'⟩, h2, by simp only [NewStore, iteratorWith, h3]⟩
  · obtain ⟨⟨l, hl, hy⟩, h2, h3⟩ := h.reverseIterator st _ _ hs
    obtain ⟨hkeys, hy'⟩ := yields_strip hy
    refine ⟨⟨_, iteratorWith_ok hl fun x hx => hkeys x (List.mem_reverse.mpr hx), ?_⟩, h2,
      by simp only [NewStore, iteratorWith, h3]⟩
    simpa [strip, List.map_reverse] using hy'

/-- Over the map store, through the prefix `0xFF`, whose end is nil. -/
theorem NewStore_refines_ff :
    (NewStore MapStore [255]).Refines (fun st k => lookup st ([255] ++ k)) Sorted ∧
      ∀ st : List (Bytes × Bytes), Sorted st →
        (∀ k v, lookup ((NewStore MapStore [255]).Set st k v) =
          Function.update (lookup st) ([255] ++ k) (some v)) ∧
        ∀ k, lookup ((NewStore MapStore [255]).Delete st k) =
          Function.update (lookup st) ([255] ++ k) none :=
  NewStore_refines MapStore_refines [255]

example : ((NewStore MapStore [255]).ReverseIterator [([254], [1]), ([255], [2]), ([255, 0], [3])]
    none none).1 = .ok [([0], some [3]), ([], some [2])] := by decide

end PrefixStore

end Dipper
