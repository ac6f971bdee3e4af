import Mathlib

/-!
# Digit strings

A natural number written in a base, most significant digit first, is read by the loop every
parser runs: multiply by the base and add the next digit (`value`). It is written by
`Nat.toDigits`, whose digits are those of `Nat.digits` reversed, with a single `0` for zero
(`digitsBE`). Characters stand for digits the positional way: `0`–`9`, then letters of
either case for ten and up (`charValue`).
-/

namespace Digits

/-- The value of a digit list, most significant digit first: Horner's rule. -/
def value (b : ℕ) (ds : List ℕ) : ℕ := ds.foldl (fun acc d => acc * b + d) 0

/-- The digits of `n` in base `b`, most significant first; zero is written `0`. -/
def digitsBE (b n : ℕ) : List ℕ := if n = 0 then [0] else (Nat.digits b n).reverse

/-- The digit a character stands for up to base 36: `0`–`9`, then `a`–`z` or `A`–`Z` for ten
to thirty-five. Any other character stands for none. -/
def charValue (c : Char) : Option ℕ :=
  if '0' ≤ c ∧ c ≤ '9' then some (c.toNat - '0'.toNat)
  else if 'a' ≤ c ∧ c ≤ 'z' then some (c.toNat - 'a'.toNat + 10)
  else if 'A' ≤ c ∧ c ≤ 'Z' then some (c.toNat - 'A'.toNat + 10)
  else none

/-- A decimal digit character. -/
def IsDigit (c : Char) : Prop := '0' ≤ c ∧ c ≤ '9'

instance instDecidablePredIsDigit : DecidablePred IsDigit := fun c => inferInstanceAs (Decidable ('0' ≤ c ∧ c ≤ '9'))

/-! ## Horner's rule -/

theorem foldl_value (b a : ℕ) (ds : List ℕ) :
    ds.foldl (fun acc d => acc * b + d) a = a * b ^ ds.length + value b ds := by
  induction ds generalizing a with
  | nil => simp [value]
  | cons d ds ih =>
    have hv : value b (d :: ds) = d * b ^ ds.length + value b ds := by
      rw [value, List.foldl_cons, ih, zero_mul, zero_add]
    rw [List.foldl_cons, ih, hv, List.length_cons, pow_succ]
    ring

@[simp] theorem value_nil (b : ℕ) : value b [] = 0 := rfl

theorem value_append (b : ℕ) (l₁ l₂ : List ℕ) :
    value b (l₁ ++ l₂) = value b l₁ * b ^ l₂.length + value b l₂ := by
  rw [value, List.foldl_append, foldl_value, ← value]

theorem value_cons (b d : ℕ) (ds : List ℕ) : value b (d :: ds) = d * b ^ ds.length + value b ds := by
  rw [value, List.foldl_cons, foldl_value, zero_mul, zero_add]

@[simp] theorem value_singleton (b d : ℕ) : value b [d] = d := by simp [value]

theorem value_replicate_zero_append (b n : ℕ) (ds : List ℕ) :
    value b (List.replicate n 0 ++ ds) = value b ds := by
  have h0 : value b (List.replicate n 0) = 0 := by
    induction n with
    | zero => rfl
    | succ n ih => rw [List.replicate_succ, value_cons, ih, zero_mul, zero_add]
  rw [value_append, h0, zero_mul, zero_add]

theorem value_lt {b : ℕ} {ds : List ℕ} (h : ∀ d ∈ ds, d < b) : value b ds < b ^ ds.length := by
  induction ds with
  | nil => simp
  | cons d ds ih =>
    have hd := h d List.mem_cons_self
    have hs := ih fun d' hd' => h d' (List.mem_cons_of_mem _ hd')
    rw [value_cons, List.length_cons, pow_succ']
    calc d * b ^ ds.length + value b ds < d * b ^ ds.length + b ^ ds.length := by omega
      _ = (d + 1) * b ^ ds.length := by ring
      _ ≤ b * b ^ ds.length := Nat.mul_le_mul_right _ hd

theorem value_eq_ofDigits_reverse (b : ℕ) (ds : List ℕ) : value b ds = Nat.ofDigits b ds.reverse := by
  induction ds using List.reverseRecOn with
  | nil => rfl
  | append_singleton ds d ih =>
    rw [value_append, value_singleton, List.reverse_append, List.reverse_singleton,
      List.singleton_append, Nat.ofDigits_cons, ← ih, List.length_singleton, pow_one]
    ring

/-! ## Writing a number -/

theorem value_digitsBE (b n : ℕ) : value b (digitsBE b n) = n := by
  unfold digitsBE
  split
  · next h => simp [h]
  · rw [value_eq_ofDigits_reverse, List.reverse_reverse, Nat.ofDigits_digits]

theorem digitsBE_lt {b : ℕ} (hb : 1 < b) (n : ℕ) : ∀ d ∈ digitsBE b n, d < b := by
  unfold digitsBE
  split
  · simp only [List.mem_singleton, forall_eq]
    omega
  · intro d hd
    exact Nat.digits_lt_base hb (List.mem_reverse.mp hd)

theorem length_digitsBE_le {b k n : ℕ} (hb : 1 < b) (hk : 0 < k) (hn : n < b ^ k) :
    (digitsBE b n).length ≤ k := by
  unfold digitsBE
  split
  · simpa using Nat.one_le_iff_ne_zero.mpr hk.ne'
  · rw [List.length_reverse]
    exact (Nat.digits_length_le_iff hb n).mpr hn

theorem head_digitsBE_ne_zero (b : ℕ) {n : ℕ} (hn : n ≠ 0) :
    ∃ d ds, digitsBE b n = d :: ds ∧ d ≠ 0 := by
  have hne : Nat.digits b n ≠ [] := Nat.digits_ne_nil_iff_ne_zero.mpr hn
  obtain ⟨d, ds, hds⟩ := List.exists_cons_of_ne_nil (List.reverse_ne_nil_iff.mpr hne)
  refine ⟨d, ds, by rw [digitsBE, if_neg hn, hds], ?_⟩
  -- the first digit written is the last of `Nat.digits`
  have hdig : Nat.digits b n = ds.reverse ++ [d] := List.reverse_eq_cons_iff.mp hds
  have hlast := Nat.getLast_digit_ne_zero b hn
  simpa only [hdig, List.getLast_append_singleton] using hlast

theorem digitsBE_step {b : ℕ} (hb : 1 < b) {n : ℕ} (hn : n / b ≠ 0) :
    digitsBE b n = digitsBE b (n / b) ++ [n % b] := by
  have hn0 : n ≠ 0 := fun h => hn (by simp [h])
  rw [digitsBE, if_neg hn0, digitsBE, if_neg hn, Nat.digits_def' hb (Nat.pos_of_ne_zero hn0),
    List.reverse_cons]

theorem digitsBE_of_lt {b n : ℕ} (hn : n < b) : digitsBE b n = [n] := by
  unfold digitsBE
  split
  · next h => rw [h]
  · next h => rw [Nat.digits_of_lt b n h hn, List.reverse_singleton]

theorem toDigitsCore_eq {b : ℕ} (hb : 1 < b) :
    ∀ (fuel n : ℕ) (acc : List Char), n < fuel →
      Nat.toDigitsCore b fuel n acc = (digitsBE b n).map Nat.digitChar ++ acc
  | 0, _, _, h => absurd h (Nat.not_lt_zero _)
  | fuel + 1, n, acc, h => by
    rw [Nat.toDigitsCore]
    split
    · next h0 =>
      rw [digitsBE_of_lt ((Nat.div_eq_zero_iff_lt (by omega)).mp h0), Nat.mod_eq_of_lt
        ((Nat.div_eq_zero_iff_lt (by omega)).mp h0)]
      rfl
    · next h0 =>
      have hlt : n / b < fuel := by
        have hn : 0 < n := Nat.pos_of_ne_zero fun (h : n = 0) => h0 (by rw [h, Nat.zero_div])
        have := Nat.div_lt_self hn hb
        omega
      rw [toDigitsCore_eq hb fuel (n / b) _ hlt, digitsBE_step hb h0]
      simp

theorem toDigits_eq {b : ℕ} (hb : 1 < b) (n : ℕ) :
    Nat.toDigits b n = (digitsBE b n).map Nat.digitChar := by
  rw [Nat.toDigits, toDigitsCore_eq hb _ _ _ (Nat.lt_succ_self n), List.append_nil]

/-! ## Characters -/

theorem charValue_digitChar {d : ℕ} (hd : d < 16) : charValue (Nat.digitChar d) = some d := by
  interval_cases d <;> rfl

theorem isDigit_iff {c : Char} : IsDigit c ↔ ∃ d < 10, charValue c = some d := by
  constructor
  · intro h
    have h9 : c.toNat ≤ 57 := h.2
    exact ⟨c.toNat - 48, by omega, if_pos h⟩
  · rintro ⟨d, hd, hc⟩
    unfold charValue at hc
    split_ifs at hc with h1 h2 h3
    · exact h1
    · cases hc
      omega
    · cases hc
      omega

end Digits
