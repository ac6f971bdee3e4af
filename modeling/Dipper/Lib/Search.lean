import Mathlib

/-!
# Go's `sort.Search`

The binary search of Go's standard library: the smallest index in `[0, n)` at which
a predicate holds, for a predicate that once true stays true, and `n` when there is
none. The loop halves `[i, j)` and runs at most `n` times, which is its fuel.
-/

namespace GoSort

/-- The loop of `sort.Search` over `[i, j)`. -/
def searchLoop (f : Nat → Bool) : Nat → Nat → Nat → Nat
  | 0, i, _ => i
  | fuel+1, i, j =>
    if i < j then
      let h := (i + j) / 2
      if f h then searchLoop f fuel i h else searchLoop f fuel (h + 1) j
    else i

/-- `sort.Search(n, f)`. -/
def search (n : Nat) (f : Nat → Bool) : Nat := searchLoop f n 0 n

section
variable {f : Nat → Bool} {n : Nat}

/-- The loop keeps `i ≤ j`, `f` false below `i` and true from `j` on; when the fuel
covers `j - i` it ends with `i = j`. -/
theorem searchLoop_spec (hmono : ∀ a b, a ≤ b → b < n → f a → f b) :
    ∀ fuel i j, i ≤ j → j ≤ n → j - i ≤ fuel → (∀ k < i, f k = false) →
      (∀ k, j ≤ k → k < n → f k = true) →
      (∀ k < searchLoop f fuel i j, f k = false) ∧
        (searchLoop f fuel i j < n → f (searchLoop f fuel i j) = true) ∧
        searchLoop f fuel i j ≤ n := by
  intro fuel
  induction fuel with
  | zero =>
    intro i j hij hjn hfuel hlo hhi
    have : i = j := by omega
    subst this
    exact ⟨hlo, fun h => hhi _ le_rfl h, hjn⟩
  | succ fuel ih =>
    intro i j hij hjn hfuel hlo hhi
    simp only [searchLoop]
    split
    case isTrue hlt =>
      split
      case isTrue hf =>
        -- `f` holds at the midpoint, so by monotonicity on all of `[h, j)`
        apply ih i ((i + j) / 2) (by omega) (by omega) (by omega) hlo
        intro k hk hkn
        exact hmono _ k hk hkn hf
      case isFalse hf =>
        -- `f` fails at the midpoint, so on all of `[i, h]`
        apply ih ((i + j) / 2 + 1) j (by omega) hjn (by omega) _ hhi
        intro k hk
        by_cases hki : k < i
        · exact hlo k hki
        · cases hfk : f k
          · rfl
          · exact absurd (hmono k ((i + j) / 2) (by omega) (by omega) hfk) (by simpa using hf)
    case isFalse hge =>
      have : i = j := by omega
      subst this
      exact ⟨hlo, fun h => hhi _ le_rfl h, hjn⟩

theorem search_spec (hmono : ∀ a b, a ≤ b → b < n → f a → f b) :
    (∀ k < search n f, f k = false) ∧ (search n f < n → f (search n f) = true) ∧
      search n f ≤ n :=
  searchLoop_spec hmono n 0 n (Nat.zero_le _) le_rfl (by omega) (by omega)
    (fun _ _ h => absurd h (by omega))

theorem search_eq (hmono : ∀ a b, a ≤ b → b < n → f a → f b) {m : Nat} (hm : m ≤ n)
    (hlo : ∀ k < m, f k = false) (hhi : m < n → f m = true) : search n f = m := by
  obtain ⟨h1, h2, h3⟩ := search_spec hmono
  rcases Nat.lt_trichotomy (search n f) m with h | h | h
  · have := hlo _ h
    rw [h2 (by omega)] at this
    cases this
  · exact h
  · have := h1 m h
    rw [hhi (by omega)] at this
    cases this

end

end GoSort
