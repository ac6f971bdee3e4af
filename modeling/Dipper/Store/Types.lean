import Dipper.Types.Bytes
import Dipper.Lib.OrderedMap

/-!
# The KVStore interface and its contract

`types.KVStore` is the interface of every store of the application: reads and writes of byte
keys, and iterators over a range of keys, ascending or descending. A store is modelled over a
state of its own. A read may change that state (a cache fills); an iterator is consumed before
the store is used again (the interface's contract), so it is the list of pairs it yields, or the
panic it raises on the way. Keys and values are never nil here: the interface panics on a nil
key or value before anything else.
-/

namespace Dipper

open OrderedMap

/-! ### Key ranges -/

/-- `dbm.IsKeyInDomain`: `start ≤ key < end`; a nil start compares as the empty key and a
nil end does not bound. -/
def IsKeyInDomain (key : Bytes) (start end_ : Option Bytes) : Bool :=
  if key < start.getD [] then false
  else if end_.any (fun e => decide (e ≤ key)) then false
  else true

theorem IsKeyInDomain_iff {key : Bytes} {start end_ : Option Bytes} :
    IsKeyInDomain key start end_ = true ↔ InRange start end_ key := by
  have hnil : ¬ key < [] := List.not_lt_nil key
  cases start <;> cases end_ <;> simp [IsKeyInDomain, InRange, hnil]

theorem compare_bytes (a b : Bytes) : Ord.compare a b = compareOfLessAndEq a b := by
  induction a generalizing b with
  | nil =>
    cases b with
    | nil => simp [compareOfLessAndEq]
    | cons y b => simp [compareOfLessAndEq, List.nil_lt_cons]
  | cons x a ih =>
    cases b with
    | nil => simp [compareOfLessAndEq, List.not_lt_nil]
    | cons y b =>
      -- bytes compare as `compareOfLessAndEq` too
      have hxy : Ord.compare x y = compareOfLessAndEq x y := rfl
      rw [List.compare_cons_cons, ih, hxy]
      rcases lt_trichotomy x y with h | rfl | h
      · simp [compareOfLessAndEq, List.cons_lt_cons_iff, h]
      · simp [compareOfLessAndEq, List.cons_lt_cons_self]
      · simp [compareOfLessAndEq, List.cons_lt_cons_iff, h.ne', not_lt_of_gt h]

theorem compare_bytes_compares (a b : Bytes) : (Ord.compare a b).Compares a b := by
  rw [compare_bytes]
  unfold compareOfLessAndEq
  split_ifs with h₁ h₂
  · exact h₁
  · exact h₂
  · exact lt_of_le_of_ne (not_lt.mp h₁) (Ne.symm h₂)

/-- `types.PrefixEndBytes`: the least key above all keys that begin with the prefix, or nil
when there is none (an empty prefix, or one of `0xFF` bytes only). The loop works on the
last byte: one below `0xFF` is incremented, a `0xFF` is dropped and the loop goes on. -/
def PrefixEndBytes (p : Bytes) : Option Bytes := (go p.reverse).map List.reverse
where
  /-- The loop, on the bytes from the last one back. -/
  go : Bytes → Option Bytes
    | [] => none
    | b :: bs => if b ≠ 255 then some ((b + 1) :: bs) else go bs

@[simp] theorem PrefixEndBytes_nil : PrefixEndBytes [] = none := rfl

theorem PrefixEndBytes_append (p : Bytes) (b : UInt8) :
    PrefixEndBytes (p ++ [b]) = if b ≠ 255 then some (p ++ [b + 1]) else PrefixEndBytes p := by
  unfold PrefixEndBytes
  rw [List.reverse_append, List.reverse_singleton, List.singleton_append, PrefixEndBytes.go]
  split <;> simp

theorem nil_le_bytes (x : Bytes) : [] ≤ x := by
  rcases x with _ | ⟨b, x⟩
  · exact le_rfl
  · exact le_of_lt (List.nil_lt_cons b x)

theorem le_append_bytes (p t : Bytes) : p ≤ p ++ t := by
  simpa using (append_strictMono p).monotone (nil_le_bytes t)

theorem exists_append_iff_PrefixEndBytes (p x : Bytes) :
    (∃ t, x = p ++ t) ↔ p ≤ x ∧ ∀ q ∈ PrefixEndBytes p, x < q := by
  induction p using List.reverseRecOn generalizing x with
  | nil => simp [nil_le_bytes]
  | append_singleton p b ih =>
    rw [PrefixEndBytes_append]
    split
    · next hb =>
      -- a byte below `0xFF`: the end is the prefix with that byte incremented
      have hlt : b < b + 1 := UInt8.lt_add_one hb
      constructor
      · rintro ⟨t, rfl⟩
        refine ⟨le_append_bytes _ _, fun q hq => ?_⟩
        obtain rfl := Option.some.inj hq
        rw [List.append_assoc, (append_strictMono p).lt_iff_lt, List.singleton_append]
        exact List.cons_lt_cons_iff.mpr (.inl hlt)
      · rintro ⟨hle, hend⟩
        have hq := hend _ rfl
        obtain ⟨x', rfl⟩ := exists_append_of_between hle hq
        rw [(append_strictMono p).le_iff_le] at hle
        rw [(append_strictMono p).lt_iff_lt] at hq
        rcases x' with _ | ⟨z, w⟩
        · exact absurd hle (not_le.mpr (List.nil_lt_cons _ _))
        · have hz : z = b := by
            rcases lt_trichotomy z b with h | h | h
            · exact absurd hle (not_le.mpr (List.cons_lt_cons_iff.mpr (.inl h)))
            · exact h
            · have hz' : b + 1 ≤ z := by
                have h' := UInt8.lt_iff_toNat_lt.mp h
                have hz := z.toNat_lt
                rw [UInt8.le_iff_toNat_le, UInt8.toNat_add, UInt8.toNat_one]
                omega
              rcases hz'.lt_or_eq with h' | h'
              · exact absurd hq (lt_asymm (List.cons_lt_cons_iff.mpr (.inl h')))
              · subst h'
                exact absurd hq (by simp)
          subst hz
          exact ⟨w, by simp⟩
    · next hb =>
      -- a `0xFF` byte: the end is that of the shorter prefix
      have hb : b = 255 := not_not.mp hb
      subst hb
      constructor
      · rintro ⟨t, rfl⟩
        refine ⟨le_append_bytes _ _, (ih _).mp ⟨[255] ++ t, by simp⟩ |>.2⟩
      · rintro ⟨hle, hend⟩
        obtain ⟨x', rfl⟩ := (ih x).mpr ⟨(le_append_bytes p [255]).trans hle, hend⟩
        rw [(append_strictMono p).le_iff_le] at hle
        obtain ⟨w, rfl⟩ := exists_append_of_replicate_le (n := 1) (fun y => UInt8.le_iff_toNat_le.mpr
          (by have := y.toNat_lt; simp; omega)) hle
        exact ⟨w, by simp⟩

theorem PrefixEndBytes_eq_none_iff (p : Bytes) : PrefixEndBytes p = none ↔ ∀ b ∈ p, b = 255 := by
  induction p using List.reverseRecOn with
  | nil => simp
  | append_singleton p b ih =>
    rw [PrefixEndBytes_append]
    by_cases hb : b = 255
    · simp [hb, ih, or_imp]
    · simp [hb]

/-- `types.InclusiveEndBytes`: the key with a zero byte appended, the least key above it. -/
def InclusiveEndBytes (inclusiveBytes : Bytes) : Bytes := inclusiveBytes ++ [0]

theorem lt_InclusiveEndBytes_iff (k b : Bytes) : k < InclusiveEndBytes b ↔ k ≤ b := by
  unfold InclusiveEndBytes
  induction k generalizing b with
  | nil =>
    cases b <;> simp [List.nil_lt_cons, nil_le_bytes]
  | cons x k ih =>
    cases b with
    | nil =>
      -- no byte is below zero
      simp [List.cons_lt_cons_iff, UInt8.not_lt_zero]
    | cons y b =>
      rw [List.cons_append, List.cons_lt_cons_iff, ih, ← not_lt, ← not_lt, List.cons_lt_cons_iff]
      rcases lt_trichotomy x y with h | rfl | h
      · simp [h, h.ne', not_lt_of_gt h]
      · simp
      · simp [not_lt_of_gt h, h.ne', not_le.mpr h]

theorem inRange_InclusiveEndBytes_iff (start b k : Bytes) :
    InRange (some start) (some (InclusiveEndBytes b)) k ↔ start ≤ k ∧ k ≤ b := by
  simp [InRange, lt_InclusiveEndBytes_iff]

/-- The bounds of the prefix and time-queue ranges: a key lies between a prefix and its end
exactly when it begins with the prefix, the end is nil exactly for a prefix of `0xFF` bytes,
and the range up to `InclusiveEndBytes b` holds exactly the keys from its start up to `b`. -/
theorem PrefixEndBytes_bounds :
    (∀ p k : Bytes, (p ≤ k ∧ ∀ e ∈ PrefixEndBytes p, k < e) ↔ ∃ t, k = p ++ t) ∧
      (∀ p : Bytes, PrefixEndBytes p = none ↔ ∀ b ∈ p, b = 255) ∧
      ∀ start b k : Bytes,
        InRange (some start) (some (InclusiveEndBytes b)) k ↔ start ≤ k ∧ k ≤ b :=
  ⟨fun p k => (exists_append_iff_PrefixEndBytes p k).symm, PrefixEndBytes_eq_none_iff,
    inRange_InclusiveEndBytes_iff⟩

/-! ### Steps of the panicking code

A panic is an `Except` error; the steps of a run that does not panic go through these. -/

section Except

variable {ε α β : Type}

@[simp] theorem ok_bind (a : α) (f : α → Except ε β) : (Except.ok a >>= f) = f a := rfl

@[simp] theorem error_bind (e : ε) (f : α → Except ε β) : (Except.error e >>= f) = .error e := rfl

@[simp] theorem pure_eq_ok (a : α) : (pure a : Except ε α) = .ok a := rfl

theorem mapM_eq_ok {f : α → Except ε β} {g : α → β} :
    ∀ {l : List α}, (∀ a ∈ l, f a = .ok (g a)) → l.mapM f = .ok (l.map g)
  | [], _ => rfl
  | a :: l, h => by
    rw [List.mapM_cons, h a List.mem_cons_self, ok_bind,
      mapM_eq_ok fun b hb => h b (List.mem_cons_of_mem a hb)]
    rfl

end Except

/-! ### Iterators -/

/-- `dbm.Iterator` over a state `ι`. Each call may move the state (the merge iterator of a
cache skips deleted entries when asked whether it is valid); `Key`, `Value` and `Next`
panic on an invalid iterator, and a value may be nil (`none`). -/
structure Iterator (ι : Type) where
  Valid : ι → Except String (Bool × ι)
  Key : ι → Except String (Bytes × ι)
  Value : ι → Except String (Option Bytes × ι)
  Next : ι → Except String ι

namespace Iterator

variable {ι : Type}

/-- A caller consuming the iterator: while it is valid, its key and value, then `Next`. -/
def drain (I : Iterator ι) : Nat → ι → Except String (List (Bytes × Option Bytes))
  | 0, _ => .ok []
  | fuel + 1, it => do
    let (ok, it) ← I.Valid it
    if ok then
      let (k, it) ← I.Key it
      let (v, it) ← I.Value it
      let it ← I.Next it
      let rest ← I.drain fuel it
      pure ((k, v) :: rest)
    else pure []

/-- The iterator walks the list `view it`: it is valid while pairs are left, its key and
value are those of the first, `Next` drops the first, and no call changes the rest; on the
states where `Inv` holds. -/
structure Walks (I : Iterator ι) (view : ι → List (Bytes × Option Bytes)) (Inv : ι → Prop) :
    Prop where
  valid : ∀ it, Inv it →
    ∃ it', I.Valid it = .ok (!(view it).isEmpty, it') ∧ Inv it' ∧ view it' = view it
  key : ∀ it x l, Inv it → view it = x :: l →
    ∃ it', I.Key it = .ok (x.1, it') ∧ Inv it' ∧ view it' = x :: l
  value : ∀ it x l, Inv it → view it = x :: l →
    ∃ it', I.Value it = .ok (x.2, it') ∧ Inv it' ∧ view it' = x :: l
  next : ∀ it x l, Inv it → view it = x :: l → ∃ it', I.Next it = .ok it' ∧ Inv it' ∧ view it' = l

theorem Walks.drain {I : Iterator ι} {view : ι → List (Bytes × Option Bytes)} {Inv : ι → Prop}
    (h : I.Walks view Inv) : ∀ (fuel : Nat) (it : ι), Inv it → (view it).length < fuel →
      I.drain fuel it = .ok (view it)
  | 0, _, _, hf => absurd hf (Nat.not_lt_zero _)
  | fuel + 1, it, hi, hf => by
    obtain ⟨it₁, hv, hi₁, hw₁⟩ := h.valid it hi
    rw [Iterator.drain]
    cases hl : view it with
    | nil => simp [hv, hl]
    | cons x l =>
      rw [← hw₁] at hl
      obtain ⟨it₂, hk, hi₂, hw₂⟩ := h.key _ x l hi₁ hl
      obtain ⟨it₃, hval, hi₃, hw₃⟩ := h.value _ x l hi₂ hw₂
      obtain ⟨it₄, hn, hi₄, hw₄⟩ := h.next _ x l hi₃ hw₃
      have hrest := h.drain fuel it₄ hi₄ (by rw [hw₄]; rw [← hw₁, hl] at hf; simpa using hf)
      rw [hw₁] at hl
      simp [hv, hl, hk, hval, hn, hrest, hw₄]

end Iterator

/-- A list of pairs as an iterator: how a wrapping store sees the iterator of its parent. -/
def listIterator : Iterator (List (Bytes × Option Bytes)) where
  Valid l := .ok (!l.isEmpty, l)
  Key l := match l with
    | x :: _ => .ok (x.1, l)
    | [] => .error "iterator is invalid"
  Value l := match l with
    | x :: _ => .ok (x.2, l)
    | [] => .error "iterator is invalid"
  Next l := match l with
    | _ :: l => .ok l
    | [] => .error "iterator is invalid"

theorem listIterator_walks : listIterator.Walks id fun _ => True where
  valid _ _ := ⟨_, rfl, trivial, rfl⟩
  key l x r _ h := by
    obtain rfl : l = x :: r := h
    exact ⟨_, rfl, trivial, rfl⟩
  value l x r _ h := by
    obtain rfl : l = x :: r := h
    exact ⟨_, rfl, trivial, rfl⟩
  next l x r _ h := by
    obtain rfl : l = x :: r := h
    exact ⟨_, rfl, trivial, rfl⟩

/-! ### The interface -/

/-- `types.KVStore` over a state `σ`: a read returns nil (`none`) for a missing key, and an
iterator is the list of pairs a caller consuming it gets. -/
structure KVStore (σ : Type) where
  Get : σ → Bytes → Option Bytes × σ
  Has : σ → Bytes → Bool × σ
  Set : σ → Bytes → Bytes → σ
  Delete : σ → Bytes → σ
  Iterator : σ → Option Bytes → Option Bytes → Except String (List (Bytes × Option Bytes)) × σ
  ReverseIterator :
    σ → Option Bytes → Option Bytes → Except String (List (Bytes × Option Bytes)) × σ

/-- An iterator over `[lo, hi)` of the map `m` yields `l`: its pairs, each once, in
ascending key order, none with a nil value. -/
def Yields (m : Bytes → Option Bytes) (lo hi : Option Bytes) (l : List (Bytes × Option Bytes)) :
    Prop :=
  Lists (fun k => (m k).map some) lo hi l

namespace KVStore

variable {σ : Type}

/-- `s` refines the map `abs st` on the states where `Inv` holds: reads answer from the map
and leave it as it is, writes update it, and iterators list it over their range, ascending,
or descending for the reverse iterator. -/
structure Refines (s : KVStore σ) (abs : σ → Bytes → Option Bytes) (Inv : σ → Prop) : Prop where
  get : ∀ st k, Inv st →
    (s.Get st k).1 = abs st k ∧ Inv (s.Get st k).2 ∧ abs (s.Get st k).2 = abs st
  has : ∀ st k, Inv st →
    (s.Has st k).1 = (abs st k).isSome ∧ Inv (s.Has st k).2 ∧ abs (s.Has st k).2 = abs st
  set : ∀ st k v, Inv st →
    Inv (s.Set st k v) ∧ abs (s.Set st k v) = Function.update (abs st) k (some v)
  delete : ∀ st k, Inv st →
    Inv (s.Delete st k) ∧ abs (s.Delete st k) = Function.update (abs st) k none
  iterator : ∀ st lo hi, Inv st →
    (∃ l, (s.Iterator st lo hi).1 = .ok l ∧ Yields (abs st) lo hi l) ∧
      Inv (s.Iterator st lo hi).2 ∧ abs (s.Iterator st lo hi).2 = abs st
  reverseIterator : ∀ st lo hi, Inv st →
    (∃ l, (s.ReverseIterator st lo hi).1 = .ok l ∧ Yields (abs st) lo hi l.reverse) ∧
      Inv (s.ReverseIterator st lo hi).2 ∧ abs (s.ReverseIterator st lo hi).2 = abs st

/-- A call on a store. -/
inductive Op
  | Get (key : Bytes)
  | Has (key : Bytes)
  | Set (key value : Bytes)
  | Delete (key : Bytes)
  | Iterator (start end_ : Option Bytes)
  | ReverseIterator (start end_ : Option Bytes)

/-- What a call returns. -/
inductive Answer
  | value (v : Option Bytes)
  | bool (b : Bool)
  | done
  | pairs (r : Except String (List (Bytes × Option Bytes)))

def exec (s : KVStore σ) (st : σ) : Op → Answer × σ
  | .Get k => let r := s.Get st k; (.value r.1, r.2)
  | .Has k => let r := s.Has st k; (.bool r.1, r.2)
  | .Set k v => (.done, s.Set st k v)
  | .Delete k => (.done, s.Delete st k)
  | .Iterator lo hi => let r := s.Iterator st lo hi; (.pairs r.1, r.2)
  | .ReverseIterator lo hi => let r := s.ReverseIterator st lo hi; (.pairs r.1, r.2)

/-- A sequence of calls, each on the state the one before left. -/
def run (s : KVStore σ) (st : σ) : List Op → List Answer × σ
  | [] => ([], st)
  | op :: ops =>
    let r := s.exec st op
    let rs := s.run r.2 ops
    (r.1 :: rs.1, rs.2)

/-- The map after a call: a write updates it, a read leaves it. -/
def Op.apply (m : Bytes → Option Bytes) : Op → Bytes → Option Bytes
  | .Set k v => Function.update m k (some v)
  | .Delete k => Function.update m k none
  | _ => m

/-- `a` is what the map answers to the call. -/
def Op.Answers (m : Bytes → Option Bytes) : Op → Answer → Prop
  | .Get k, a => a = .value (m k)
  | .Has k, a => a = .bool (m k).isSome
  | .Set _ _, a => a = .done
  | .Delete _, a => a = .done
  | .Iterator lo hi, a => ∃ l, a = .pairs (.ok l) ∧ Yields m lo hi l
  | .ReverseIterator lo hi, a => ∃ l, a = .pairs (.ok l) ∧ Yields m lo hi l.reverse

/-- The answers of the map to a sequence of calls, each from the map the calls before it
left. -/
def AnswersAll : (Bytes → Option Bytes) → List Op → List Answer → Prop
  | _, [], [] => True
  | m, op :: ops, a :: as => op.Answers m a ∧ AnswersAll (Op.apply m op) ops as
  | _, _, _ => False

variable {s : KVStore σ} {abs : σ → Bytes → Option Bytes} {Inv : σ → Prop}

theorem Refines.exec (h : s.Refines abs Inv) {st : σ} (hs : Inv st) (op : Op) :
    op.Answers (abs st) (s.exec st op).1 ∧ Inv (s.exec st op).2 ∧
      abs (s.exec st op).2 = Op.apply (abs st) op := by
  cases op with
  | Get k =>
    obtain ⟨h1, h2, h3⟩ := h.get st k hs
    exact ⟨by simp [KVStore.exec, Op.Answers, h1], h2, h3⟩
  | Has k =>
    obtain ⟨h1, h2, h3⟩ := h.has st k hs
    exact ⟨by simp [KVStore.exec, Op.Answers, h1], h2, h3⟩
  | Set k v => exact ⟨rfl, h.set st k v hs⟩
  | Delete k => exact ⟨rfl, h.delete st k hs⟩
  | Iterator lo hi =>
    obtain ⟨⟨l, hl, hlists⟩, h2, h3⟩ := h.iterator st lo hi hs
    exact ⟨⟨l, by simp [KVStore.exec, hl], hlists⟩, h2, h3⟩
  | ReverseIterator lo hi =>
    obtain ⟨⟨l, hl, hlists⟩, h2, h3⟩ := h.reverseIterator st lo hi hs
    exact ⟨⟨l, by simp [KVStore.exec, hl], hlists⟩, h2, h3⟩

theorem Refines.run (h : s.Refines abs Inv) :
    ∀ (ops : List Op) (st : σ), Inv st →
      AnswersAll (abs st) ops (s.run st ops).1 ∧ Inv (s.run st ops).2 ∧
        abs (s.run st ops).2 = ops.foldl Op.apply (abs st)
  | [], _, hs => ⟨trivial, hs, rfl⟩
  | op :: ops, st, hs => by
    obtain ⟨ha, hi, habs⟩ := h.exec hs op
    obtain ⟨ha', hi', habs'⟩ := h.run ops _ hi
    rw [habs] at ha' habs'
    exact ⟨⟨ha, ha'⟩, hi', habs'⟩

end KVStore

/-! ### The contract as a store -/

/-- A store of pairs in ascending key order, answering from them directly. -/
def MapStore : KVStore (List (Bytes × Bytes)) where
  Get l k := (lookup l k, l)
  Has l k := ((lookup l k).isSome, l)
  Set l k v := insert k v l
  Delete l k := erase k l
  Iterator l lo hi := (.ok (MapStore.range l lo hi), l)
  ReverseIterator l lo hi := (.ok (MapStore.range l lo hi).reverse, l)
where
  /-- The pairs in the range, values as an iterator returns them. -/
  range (l : List (Bytes × Bytes)) (lo hi : Option Bytes) : List (Bytes × Option Bytes) :=
    (l.filter fun x => IsKeyInDomain x.1 lo hi).map fun x => (x.1, some x.2)

theorem MapStore.range_yields {l : List (Bytes × Bytes)} (hl : Sorted l) (lo hi : Option Bytes) :
    Yields (lookup l) lo hi (MapStore.range l lo hi) := by
  have h := lists_filter hl lo hi _ fun _ => IsKeyInDomain_iff
  refine ⟨List.pairwise_map.mpr h.1, fun k v => ?_⟩
  rw [MapStore.range, List.mem_map]
  constructor
  · rintro ⟨⟨k', v'⟩, hx, he⟩
    obtain ⟨rfl, rfl⟩ := Prod.mk.inj he
    obtain ⟨hr, hv⟩ := (h.2 k' v').mp hx
    exact ⟨hr, by simp [hv]⟩
  · rintro ⟨hr, hv⟩
    obtain ⟨v', hv', rfl⟩ := Option.map_eq_some_iff.mp hv
    exact ⟨(k, v'), (h.2 k v').mpr ⟨hr, hv'⟩, rfl⟩

theorem MapStore_refines : MapStore.Refines lookup Sorted where
  get _ _ hs := ⟨rfl, hs, rfl⟩
  has _ _ hs := ⟨rfl, hs, rfl⟩
  set _ k v hs := ⟨insert_sorted hs, lookup_insert k v _⟩
  delete _ k hs := ⟨erase_sorted hs, lookup_erase k _⟩
  iterator _ lo hi hs := ⟨⟨_, rfl, MapStore.range_yields hs lo hi⟩, hs, rfl⟩
  reverseIterator _ lo hi hs := ⟨⟨_, rfl, by simpa using MapStore.range_yields hs lo hi⟩, hs, rfl⟩

end Dipper
