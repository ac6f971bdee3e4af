import Dipper.Staking.Keeper
import Dipper.Lib.AListSum

/-!
# The share ledger

What `DelegatorSharesInvariant` and `PositiveDelegationInvariant` of `keeper/invariants.go`
check, with the self-delegation that Dipper keeps beside the delegator shares: each validator's
shares are the sum of the shares of the delegations to it, its self-delegation is the shares of
its operator's own delegation, every stored delegation holds positive shares, and a validator's
tokens lie between zero and its shares (counted in the 10⁻¹⁸ units of `Dec`).
-/

namespace Dipper

namespace Staking

open Dec Validator

/-! ### The invariants of `keeper/invariants.go` -/

/-- `GetValidatorDelegations`: the stored delegations to a validator. -/
def GetValidatorDelegations (s : State) (valAddr : Address) : List Delegation :=
  (s.delegations.entries.map (·.2)).filter fun d => d.ValidatorAddress = valAddr

/-- The total that `DelegatorSharesInvariant` compares with a validator's shares. -/
def totalDelShares (s : State) (valAddr : Address) : Dec :=
  (GetValidatorDelegations s valAddr).foldl (fun acc d => acc.Add d.Shares) ZeroDec

/-- The shares a stored delegation holds in the validator `valAddr`, by its record. -/
def sharesIn (valAddr : Address) (_ : Address × Address) (d : Delegation) : Int :=
  if d.ValidatorAddress = valAddr then d.Shares.i else 0

/-- The shares of the delegation stored at a key, zero if there is none. -/
def sharesAt (dels : AList (fun _ : Address × Address => Delegation)) (k : Address × Address) : Int :=
  ((dels.lookup k).map fun d => d.Shares.i).getD 0

theorem foldl_Add_i (l : List Delegation) (acc : Dec) :
    (l.foldl (fun acc d => acc.Add d.Shares) acc).i = acc.i + (l.map fun d => d.Shares.i).sum := by
  induction l generalizing acc with
  | nil => simp
  | cons d l ih => rw [List.foldl_cons, ih, Add_i, List.map_cons, List.sum_cons, add_assoc]

theorem totalDelShares_i (s : State) (valAddr : Address) :
    (totalDelShares s valAddr).i = s.delegations.sumBy (sharesIn valAddr) := by
  rw [totalDelShares, foldl_Add_i, ZeroDec_i, zero_add, GetValidatorDelegations, AList.sumBy]
  induction s.delegations.entries with
  | nil => rfl
  | cons e l ih =>
    by_cases h : e.2.ValidatorAddress = valAddr
    · simp [h, sharesIn, ih]
    · simp [h, sharesIn, ih]

/-! ### The ledger -/

/-- The holding of `d` in `a` set to `x`: the delegation goes when nothing is left. -/
def putShares (dels : AList (fun _ : Address × Address => Delegation)) (d a : Address) (x : Int) :
    AList (fun _ : Address × Address => Delegation) :=
  if x = 0 then dels.erase (d, a) else dels.insert (d, a) ⟨d, a, ⟨x⟩⟩

/-- The share ledger of the validator and delegation stores. -/
structure Ledger (vals : AList (fun _ : Address => Validator))
    (dels : AList (fun _ : Address × Address => Delegation)) : Prop where
  val_key : ∀ {a v}, vals.lookup a = some v → v.OperatorAddress = a
  del_key : ∀ {k d}, dels.lookup k = some d → (d.DelegatorAddress, d.ValidatorAddress) = k
  del_pos : ∀ {k d}, dels.lookup k = some d → 0 < d.Shares.i
  del_val : ∀ {k d}, dels.lookup k = some d → ∃ v, vals.lookup k.2 = some v
  shares_eq : ∀ {a v}, vals.lookup a = some v → v.DelegatorShares.i = dels.sumBy (sharesIn a)
  self_eq : ∀ {a v}, vals.lookup a = some v → v.SelfDelegation.i = sharesAt dels (a, a)
  tokens_nonneg : ∀ {a v}, vals.lookup a = some v → 0 ≤ v.Tokens
  tokens_le : ∀ {a v}, vals.lookup a = some v → v.Tokens ≤ v.DelegatorShares.i

theorem Ledger.empty : Ledger ∅ ∅ where
  val_key h := by simp at h
  del_key h := by simp at h
  del_pos h := by simp at h
  del_val h := by simp at h
  shares_eq h := by simp at h
  self_eq h := by simp at h
  tokens_nonneg h := by simp at h
  tokens_le h := by simp at h

section Ledger

variable {vals : AList (fun _ : Address => Validator)} {dels : AList (fun _ : Address × Address => Delegation)}

theorem Ledger.del_val_addr (hL : Ledger vals dels) {k : Address × Address} {d : Delegation}
    (hd : dels.lookup k = some d) : d.ValidatorAddress = k.2 :=
  congrArg Prod.snd (hL.del_key hd)

theorem Ledger.sharesIn_nonneg (hL : Ledger vals dels) (b : Address) :
    ∀ k d, dels.lookup k = some d → 0 ≤ sharesIn b k d := by
  intro k d hd
  unfold sharesIn
  split
  · exact (hL.del_pos hd).le
  · exact le_rfl

theorem Ledger.shares_le (hL : Ledger vals dels) {k : Address × Address} {d : Delegation} {v : Validator}
    (hd : dels.lookup k = some d) (hv : vals.lookup k.2 = some v) : d.Shares.i ≤ v.DelegatorShares.i := by
  have hin : sharesIn k.2 k d = d.Shares.i := by
    rw [sharesIn, if_pos (hL.del_val_addr hd)]
  rw [hL.shares_eq hv, ← hin]
  exact AList.le_sumBy (hL.sharesIn_nonneg k.2) hd

theorem Ledger.shares_nonneg (hL : Ledger vals dels) {a : Address} {v : Validator} (hv : vals.lookup a = some v) :
    0 ≤ v.DelegatorShares.i :=
  (hL.tokens_nonneg hv).trans (hL.tokens_le hv)

theorem Ledger.no_delegation (hL : Ledger vals dels) {a : Address} {v : Validator} (hv : vals.lookup a = some v)
    (hz : v.DelegatorShares.i = 0) {k : Address × Address} {d : Delegation} (hd : dels.lookup k = some d) :
    k.2 ≠ a := by
  rintro rfl
  have := hL.shares_le hd hv
  have := hL.del_pos hd
  omega

theorem Ledger.no_delegation_mem (hL : Ledger vals dels) {a : Address} {v : Validator}
    (hv : vals.lookup a = some v) (hz : v.DelegatorShares.i = 0) {k : Address × Address} (hk : k ∈ dels) :
    k.2 ≠ a := by
  obtain ⟨d, hd⟩ := Option.isSome_iff_exists.mp (AList.lookup_isSome.mpr hk)
  exact hL.no_delegation hv hz hd

theorem mem_putShares_of_ne {dels : AList (fun _ : Address × Address => Delegation)} {d a : Address} {x : Int}
    {k : Address × Address} (hk : k ∈ dels) (hne : k ≠ (d, a)) : k ∈ putShares dels d a x := by
  unfold putShares
  split
  · exact AList.mem_erase.mpr ⟨hne, hk⟩
  · exact (AList.mem_insert _).mpr (.inr hk)

theorem Ledger.insert_validator (hL : Ledger vals dels) {a : Address} {v v' : Validator}
    (hv : vals.lookup a = some v) (hop : v'.OperatorAddress = a) (hds : v'.DelegatorShares = v.DelegatorShares)
    (hsd : v'.SelfDelegation = v.SelfDelegation) (ht0 : 0 ≤ v'.Tokens) (ht : v'.Tokens ≤ v'.DelegatorShares.i) :
    Ledger (vals.insert a v') dels where
  val_key h := by
    rcases AList.lookup_insert_eq_some h with ⟨rfl, rfl⟩ | ⟨-, h⟩
    · exact hop
    · exact hL.val_key h
  del_key := hL.del_key
  del_pos := hL.del_pos
  del_val {k _} hd := by
    by_cases hk : k.2 = a
    · exact ⟨v', by rw [hk, AList.lookup_insert]⟩
    · rw [AList.lookup_insert_ne hk]; exact hL.del_val hd
  shares_eq h := by
    rcases AList.lookup_insert_eq_some h with ⟨rfl, rfl⟩ | ⟨-, h⟩
    · rw [hds]; exact hL.shares_eq hv
    · exact hL.shares_eq h
  self_eq h := by
    rcases AList.lookup_insert_eq_some h with ⟨rfl, rfl⟩ | ⟨-, h⟩
    · rw [hsd]; exact hL.self_eq hv
    · exact hL.self_eq h
  tokens_nonneg h := by
    rcases AList.lookup_insert_eq_some h with ⟨rfl, rfl⟩ | ⟨-, h⟩
    · exact ht0
    · exact hL.tokens_nonneg h
  tokens_le h := by
    rcases AList.lookup_insert_eq_some h with ⟨rfl, rfl⟩ | ⟨-, h⟩
    · exact ht
    · exact hL.tokens_le h

theorem Ledger.insert_new (hL : Ledger vals dels) {a : Address} {v' : Validator} (hnone : vals.lookup a = none)
    (hop : v'.OperatorAddress = a) (hds : v'.DelegatorShares.i = 0) (hsd : v'.SelfDelegation.i = 0)
    (ht : v'.Tokens = 0) : Ledger (vals.insert a v') dels := by
  -- every delegation names a stored validator, so none names `a`
  have hfree : ∀ {k d}, dels.lookup k = some d → k.2 ≠ a := by
    intro k d hd hk
    obtain ⟨w, hw⟩ := hL.del_val hd
    rw [hk, hnone] at hw
    cases hw
  refine
    { val_key := fun {b w} h => ?_, del_key := hL.del_key, del_pos := hL.del_pos, del_val := fun {k _} hd => ?_,
      shares_eq := fun {b w} h => ?_, self_eq := fun {b w} h => ?_, tokens_nonneg := fun {b w} h => ?_,
      tokens_le := fun {b w} h => ?_ }
  · rcases AList.lookup_insert_eq_some h with ⟨hb, hw⟩ | ⟨-, h⟩
    · rw [hw, hop, hb]
    · exact hL.val_key h
  · rw [AList.lookup_insert_ne (hfree hd)]; exact hL.del_val hd
  · rcases AList.lookup_insert_eq_some h with ⟨hb, hw⟩ | ⟨-, h⟩
    · rw [hw, hds, hb]
      refine (AList.sumBy_eq_zero _ fun k d hd => ?_).symm
      have hk : d.ValidatorAddress ≠ a := by rw [hL.del_val_addr hd]; exact hfree hd
      simp [sharesIn, hk]
    · exact hL.shares_eq h
  · rcases AList.lookup_insert_eq_some h with ⟨hb, hw⟩ | ⟨-, h⟩
    · rw [hw, hsd, hb]
      cases hd : dels.lookup (a, a) with
      | none => simp [sharesAt, hd]
      | some d => exact absurd rfl (hfree hd)
    · exact hL.self_eq h
  · rcases AList.lookup_insert_eq_some h with ⟨-, hw⟩ | ⟨-, h⟩
    · rw [hw, ht]
    · exact hL.tokens_nonneg h
  · rcases AList.lookup_insert_eq_some h with ⟨-, hw⟩ | ⟨-, h⟩
    · rw [hw, ht, hds]
    · exact hL.tokens_le h

theorem Ledger.erase_validator (hL : Ledger vals dels) {a : Address} {v : Validator} (hv : vals.lookup a = some v)
    (hz : v.DelegatorShares.i = 0) : Ledger (vals.erase a) dels where
  val_key h := hL.val_key (AList.lookup_erase_eq_some h).2
  del_key := hL.del_key
  del_pos := hL.del_pos
  del_val hd := by rw [AList.lookup_erase_ne (hL.no_delegation hv hz hd)]; exact hL.del_val hd
  shares_eq h := hL.shares_eq (AList.lookup_erase_eq_some h).2
  self_eq h := hL.self_eq (AList.lookup_erase_eq_some h).2
  tokens_nonneg h := hL.tokens_nonneg (AList.lookup_erase_eq_some h).2
  tokens_le h := hL.tokens_le (AList.lookup_erase_eq_some h).2

/-! ### Moving the holding of one delegation -/

theorem lookup_putShares_eq_some {d a : Address} {x : Int} {k : Address × Address} {del : Delegation}
    (h : (putShares dels d a x).lookup k = some del) :
    (k = (d, a) ∧ del = ⟨d, a, ⟨x⟩⟩ ∧ x ≠ 0) ∨ (k ≠ (d, a) ∧ dels.lookup k = some del) := by
  unfold putShares at h
  split at h
  · exact .inr (AList.lookup_erase_eq_some h)
  · rcases AList.lookup_insert_eq_some h with ⟨rfl, rfl⟩ | h
    · exact .inl ⟨rfl, rfl, ‹_›⟩
    · exact .inr h

theorem sharesAt_putShares (d a : Address) (x : Int) (k : Address × Address) :
    sharesAt (putShares dels d a x) k = if k = (d, a) then x else sharesAt dels k := by
  unfold putShares sharesAt
  split_ifs with hx hk hk
  · subst hk; simp [hx]
  · rw [AList.lookup_erase_ne hk]
  · subst hk; simp
  · rw [AList.lookup_insert_ne hk]

theorem Ledger.valueAt_sharesIn (hL : Ledger vals dels) (d a b : Address) :
    AList.valueAt dels (sharesIn b) (d, a) = if a = b then sharesAt dels (d, a) else 0 := by
  cases hd : dels.lookup (d, a) with
  | none => simp [AList.valueAt, sharesAt, hd]
  | some del =>
    simp [AList.valueAt, sharesAt, sharesIn, hd, hL.del_val_addr hd]

theorem Ledger.sumBy_putShares (hL : Ledger vals dels) (d a b : Address) (x : Int) :
    (putShares dels d a x).sumBy (sharesIn b) =
      dels.sumBy (sharesIn b) - (if a = b then sharesAt dels (d, a) else 0) + (if a = b then x else 0) := by
  rw [← hL.valueAt_sharesIn d a b]
  by_cases hx : x = 0
  · rw [putShares, if_pos hx, AList.sumBy_erase, hx, ite_self, add_zero]
  · rw [putShares, if_neg hx, AList.sumBy_insert_eq]
    by_cases hab : a = b
    · simp [sharesIn, hab]
    · simp [sharesIn, hab]

theorem Ledger.putShares (hL : Ledger vals dels) {d a : Address} {x : Int} {v v' : Validator}
    (hv : vals.lookup a = some v) (hop : v'.OperatorAddress = a)
    (hds : v'.DelegatorShares.i = v.DelegatorShares.i - sharesAt dels (d, a) + x)
    (hsd : v'.SelfDelegation.i = if d = a then x else v.SelfDelegation.i) (hx : 0 ≤ x)
    (ht0 : 0 ≤ v'.Tokens) (ht : v'.Tokens ≤ v'.DelegatorShares.i) :
    Ledger (vals.insert a v') (putShares dels d a x) := by
  refine
    { val_key := fun h => ?_, del_key := fun h => ?_, del_pos := fun h => ?_, del_val := fun {k _} h => ?_,
      shares_eq := fun {b _} h => ?_, self_eq := fun {b _} h => ?_, tokens_nonneg := fun h => ?_,
      tokens_le := fun h => ?_ }
  · rcases AList.lookup_insert_eq_some h with ⟨rfl, rfl⟩ | ⟨-, h⟩
    · exact hop
    · exact hL.val_key h
  · rcases lookup_putShares_eq_some h with ⟨rfl, rfl, -⟩ | ⟨-, h⟩
    · rfl
    · exact hL.del_key h
  · rcases lookup_putShares_eq_some h with ⟨rfl, rfl, hx0⟩ | ⟨-, h⟩
    · show 0 < x; omega
    · exact hL.del_pos h
  · by_cases hk : k.2 = a
    · exact ⟨v', by rw [hk, AList.lookup_insert]⟩
    · rw [AList.lookup_insert_ne hk]
      rcases lookup_putShares_eq_some h with ⟨rfl, -, -⟩ | ⟨-, h⟩
      · exact absurd rfl hk
      · exact hL.del_val h
  · rw [hL.sumBy_putShares]
    rcases AList.lookup_insert_eq_some h with ⟨rfl, rfl⟩ | ⟨hb, h⟩
    · rw [if_pos rfl, if_pos rfl, hds, hL.shares_eq hv]
    · rw [if_neg (Ne.symm hb), if_neg (Ne.symm hb), hL.shares_eq h, sub_zero, add_zero]
  · rw [sharesAt_putShares]
    rcases AList.lookup_insert_eq_some h with ⟨rfl, rfl⟩ | ⟨hb, h⟩
    · rw [hsd]
      by_cases hd : d = b
      · subst hd; simp
      · rw [if_neg hd, if_neg (by simp [Ne.symm hd]), hL.self_eq hv]
    · rw [if_neg (by simp [hb]), hL.self_eq h]
  · rcases AList.lookup_insert_eq_some h with ⟨rfl, rfl⟩ | ⟨-, h⟩
    · exact ht0
    · exact hL.tokens_nonneg h
  · rcases AList.lookup_insert_eq_some h with ⟨rfl, rfl⟩ | ⟨-, h⟩
    · exact ht
    · exact hL.tokens_le h

end Ledger

/-! ### Issuing and redeeming shares

A validator's tokens never exceed its shares, so a delegation is issued at least one
share unit for each token, and shares redeemed at the truncated rate leave no more
tokens than shares. -/

theorem AddTokensFromDel_ok {v v' : Validator} {amount : Int} {isOp : Bool} {issued : Dec}
    (h : v.AddTokensFromDel amount isOp = .ok (v', issued)) (ht0 : 0 ≤ v.Tokens)
    (ht : v.Tokens ≤ v.DelegatorShares.i) (ha : 0 ≤ amount) :
    amount ≤ issued.i ∧ v'.OperatorAddress = v.OperatorAddress ∧ v'.Tokens = v.Tokens + amount ∧
      v'.DelegatorShares.i = v.DelegatorShares.i + issued.i ∧
      v'.SelfDelegation.i = v.SelfDelegation.i + (if isOp then issued.i else 0) := by
  unfold AddTokensFromDel at h
  simp only [bind, Except.bind, pure, Except.pure] at h
  split at h
  · -- the first shares: one unit of 10⁻¹⁸ for each 10⁻¹⁸ of a token
    obtain ⟨rfl, rfl⟩ := Prod.mk.inj (Except.ok.inj h)
    refine ⟨?_, by cases isOp <;> simp⟩
    have := precisionReuse_pos
    simp only [NewDec_i]
    nlinarith
  · split at h
    · rename_i shares hrun
      obtain ⟨rfl, rfl⟩ := Prod.mk.inj (Except.ok.inj h)
      refine ⟨?_, by cases isOp <;> simp⟩
      -- shares at the exchange rate, which never falls below one unit per token
      unfold SharesFromTokens at hrun
      split at hrun
      · cases hrun
      · rename_i hT
        cases hq : quoRaw (v.DelegatorShares.i * amount) v.Tokens with
        | error e => rw [liftP, QuoInt, MulInt_i, hq] at hrun; cases hrun
        | ok q =>
          rw [liftP, QuoInt, MulInt_i, hq] at hrun
          cases hrun
          obtain ⟨-, rfl⟩ := quoRaw_ok hq
          have hTpos : 0 < v.Tokens := lt_of_le_of_ne ht0 (Ne.symm hT)
          have hprod : v.Tokens * amount ≤ v.DelegatorShares.i * amount := Int.mul_le_mul_of_nonneg_right ht ha
          show amount ≤ (v.DelegatorShares.i * amount).tdiv v.Tokens
          rw [Int.tdiv_eq_ediv_of_nonneg (by nlinarith), Int.le_ediv_iff_mul_le hTpos]
          linarith
    · cases h
    · cases h

theorem tokens_left_le {T D s k : Int} (hT : T ≤ D) (hs : s ≤ D) (hD : 0 < D) (hk : s * T / D ≤ k) :
    T - k ≤ D - s := by
  have hrate : T - D + s ≤ s * T / D := by
    rw [Int.le_ediv_iff_mul_le hD]
    nlinarith [mul_nonneg (sub_nonneg.mpr hT) (sub_nonneg.mpr hs)]
  omega

theorem RemoveDelShares_ok {v v' : Validator} {shares : Dec} {isOp : Bool} {tokens : Int}
    (h : v.RemoveDelShares shares isOp = .ok (v', tokens)) (ht0 : 0 ≤ v.Tokens)
    (ht : v.Tokens ≤ v.DelegatorShares.i) (hs0 : 0 ≤ shares.i) (hs : shares.i ≤ v.DelegatorShares.i) :
    0 ≤ tokens ∧ v'.OperatorAddress = v.OperatorAddress ∧ v'.Tokens = v.Tokens - tokens ∧ 0 ≤ v'.Tokens ∧
      v'.Tokens ≤ v'.DelegatorShares.i ∧ v'.DelegatorShares.i = v.DelegatorShares.i - shares.i ∧
      v'.SelfDelegation.i = v.SelfDelegation.i - (if isOp then shares.i else 0) := by
  unfold RemoveDelShares at h
  simp only [bind, Except.bind, pure, Except.pure] at h
  split at h
  · -- the last shares take every token left
    rename_i hz
    have hz' : v.DelegatorShares.i = shares.i := by
      simp only [IsZero_iff, Sub_i] at hz
      omega
    split at h
    · rename_i hop
      split at h
      · cases h
      · obtain ⟨rfl, rfl⟩ := Prod.mk.inj (Except.ok.inj h)
        rw [if_pos hop]
        simp only [Sub_i, true_and, and_true]
        omega
    · rename_i hop
      obtain ⟨rfl, rfl⟩ := Prod.mk.inj (Except.ok.inj h)
      rw [if_neg hop]
      simp only [Sub_i, true_and]
      omega
  · -- otherwise the tokens the shares are worth, truncated, which the rate bounds
    rename_i hnz
    have hD : 0 < v.DelegatorShares.i := by
      simp only [IsZero_iff, Sub_i] at hnz
      omega
    split at h
    · cases h
    · rename_i r hr
      have hk : shares.i * v.Tokens / v.DelegatorShares.i ≤ r.TruncateInt :=
        Quo_TruncateInt_ge hr (by simpa using mul_nonneg hs0 ht0) hD
      have hk0 : 0 ≤ shares.i * v.Tokens / v.DelegatorShares.i := Int.ediv_nonneg (mul_nonneg hs0 ht0) hD.le
      have hleft := tokens_left_le ht hs hD hk
      split at h
      · cases h
      · split at h
        · rename_i hop
          split at h
          · cases h
          · obtain ⟨rfl, rfl⟩ := Prod.mk.inj (Except.ok.inj h)
            rw [if_pos hop]
            simp only [Sub_i, true_and, and_true]
            omega
        · rename_i hop
          obtain ⟨rfl, rfl⟩ := Prod.mk.inj (Except.ok.inj h)
          rw [if_neg hop]
          simp only [Sub_i, true_and]
          omega

/-- What `RemoveDelShares` pays for shares short of all of them: the value of the
shares, rounded half to even at the 18th decimal by `Quo` and then truncated, so at
most half a unit of the last decimal place above their exact value. It never leaves
negative tokens, it returns unless an operator redeems more than their
self-delegation, and the last shares take every token left. The model's `Dec` arithmetic is
unbounded; in the source `MulInt` panics once `s * Tokens` passes 315 bits. -/
theorem RemoveDelShares_rounding (v : Validator) (s : Dec) (op : Bool) (hds : 0 < v.DelegatorShares.i)
    (ht : 0 ≤ v.Tokens) (hs : 0 < s.i) (hle : s.i ≤ v.DelegatorShares.i) :
    ((op = true → s.i ≤ v.SelfDelegation.i) → ∃ r, v.RemoveDelShares s op = .ok r) ∧
    ∀ v' issued, v.RemoveDelShares s op = .ok (v', issued) →
      v'.Tokens = v.Tokens - issued ∧ 0 ≤ v'.Tokens ∧
      (s.i < v.DelegatorShares.i →
        2 * precisionReuse * (issued * v.DelegatorShares.i) ≤
          2 * precisionReuse * (s.i * v.Tokens) + v.DelegatorShares.i) ∧
      (s.i = v.DelegatorShares.i → issued = v.Tokens) := by
  -- the value of the shares, which `Quo` computes once the divisor is non-zero
  obtain ⟨r, hr⟩ : ∃ r, v.TokensFromShares s = .ok r :=
    ⟨_, by simp [TokensFromShares, Quo, quoRaw, hds.ne']; rfl⟩
  have hx : 0 ≤ (s.MulInt v.Tokens).i := by simpa using mul_nonneg hs.le ht
  have hup := Quo_TruncateInt_le hr hx hds
  have hT : r.TruncateInt ≤ v.Tokens :=
    Quo_TruncateInt_le_of_le hr hx hds (by simpa [mul_comm] using mul_le_mul_of_nonneg_right hle ht)
  unfold RemoveDelShares
  simp only [bind, Except.bind, pure, Except.pure, hr]
  by_cases hz : s.i = v.DelegatorShares.i
  · -- the last shares take every token left
    have hz' : (v.DelegatorShares.Sub s).IsZero = true := by simp [hz]
    simp only [hz', if_true]
    refine ⟨fun hop => ?_, fun v' issued h => ?_⟩
    · cases op with
      | false => exact ⟨_, rfl⟩
      | true => simp [Dec.IsNegative, not_lt.mpr (hop rfl)]
    · split_ifs at h
      all_goals first
        | cases h; done
        | obtain ⟨rfl, rfl⟩ := Prod.mk.inj (Except.ok.inj h)
          exact ⟨by simp, le_rfl, fun h => absurd hz h.ne, fun _ => rfl⟩
  · -- otherwise the value of the shares, truncated, which the rounding bounds
    have hz' : (v.DelegatorShares.Sub s).IsZero = false := by simp [Dec.IsZero, sub_eq_zero, Ne.symm hz]
    have hT' : ¬ v.Tokens - r.TruncateInt < 0 := by omega
    simp only [hz', hT', Bool.false_eq_true, if_false]
    refine ⟨fun hop => ?_, fun v' issued h => ?_⟩
    · cases op with
      | false => exact ⟨_, rfl⟩
      | true => simp [Dec.IsNegative, not_lt.mpr (hop rfl)]
    · split_ifs at h
      all_goals first
        | cases h; done
        | obtain ⟨rfl, rfl⟩ := Prod.mk.inj (Except.ok.inj h)
          exact ⟨rfl, by dsimp only; omega, fun _ => by simpa using hup, fun h => absurd h hz⟩

/-- Shares worth just under one token, out of three: the rounding pays the whole
token, above the floor of their value. -/
theorem RemoveDelShares_rounds_up :
    Validator.RemoveDelShares { NewValidator [1] [2] with Tokens := 1, DelegatorShares := ⟨3 * precisionReuse⟩ }
        ⟨3 * precisionReuse - 1⟩ false =
      .ok ({ NewValidator [1] [2] with Tokens := 0, DelegatorShares := ⟨1⟩ }, 1) ∧
    (3 * precisionReuse - 1) * 1 / (3 * precisionReuse) < 1 :=
  ⟨rfl, by decide⟩

theorem RemoveTokens_ok {v v' : Validator} {tokens : Int} (h : v.RemoveTokens tokens = .ok v') :
    v' = { v with Tokens := v.Tokens - tokens } ∧ 0 ≤ tokens ∧ tokens ≤ v.Tokens := by
  unfold RemoveTokens at h
  split at h
  · cases h
  · split at h
    · cases h
    · cases h
      exact ⟨rfl, by omega, by omega⟩

theorem SharesFromTokens_nonneg {v : Validator} {amt : Int} {sh : Dec}
    (h : (v.SharesFromTokens amt).run = .ok (.ok sh)) (hds : 0 ≤ v.DelegatorShares.i) (ht : 0 ≤ v.Tokens)
    (ha : 0 ≤ amt) : 0 ≤ sh.i := by
  unfold SharesFromTokens at h
  split at h
  · cases h
  · cases hq : (v.DelegatorShares.MulInt amt).QuoInt v.Tokens with
    | error e => rw [liftP, hq] at h; cases h
    | ok r =>
      rw [liftP, hq] at h
      cases h
      exact QuoInt_nonneg hq (by simpa using mul_nonneg hds ha) ht

/-! ### Redelegations -/

/-- Stored redelegations: keyed by their three addresses, between two different
validators, with non-negative destination shares in every entry. -/
structure RedelegationsWF (reds : AList (fun _ : Address × Address × Address => Redelegation)) : Prop where
  key : ∀ {k r}, reds.lookup k = some r → (r.DelegatorAddress, r.ValidatorSrcAddress, r.ValidatorDstAddress) = k
  src_ne_dst : ∀ {k r}, reds.lookup k = some r → r.ValidatorSrcAddress ≠ r.ValidatorDstAddress
  sharesDst_nonneg : ∀ {k r}, reds.lookup k = some r → ∀ e ∈ r.Entries, 0 ≤ e.SharesDst.i

namespace RedelegationsWF

variable {reds : AList (fun _ : Address × Address × Address => Redelegation)}

theorem empty : RedelegationsWF ∅ where
  key h := by simp at h
  src_ne_dst h := by simp at h
  sharesDst_nonneg h := by simp at h

theorem insert (hR : RedelegationsWF reds) {r : Redelegation}
    (hne : r.ValidatorSrcAddress ≠ r.ValidatorDstAddress) (hent : ∀ e ∈ r.Entries, 0 ≤ e.SharesDst.i) :
    RedelegationsWF (reds.insert (r.DelegatorAddress, r.ValidatorSrcAddress, r.ValidatorDstAddress) r) where
  key h := by
    rcases AList.lookup_insert_eq_some h with ⟨rfl, rfl⟩ | ⟨-, h⟩
    · rfl
    · exact hR.key h
  src_ne_dst h := by
    rcases AList.lookup_insert_eq_some h with ⟨rfl, rfl⟩ | ⟨-, h⟩
    · exact hne
    · exact hR.src_ne_dst h
  sharesDst_nonneg h := by
    rcases AList.lookup_insert_eq_some h with ⟨rfl, rfl⟩ | ⟨-, h⟩
    · exact hent
    · exact hR.sharesDst_nonneg h

theorem erase (hR : RedelegationsWF reds) (k : Address × Address × Address) : RedelegationsWF (reds.erase k) where
  key h := hR.key (AList.lookup_erase_eq_some h).2
  src_ne_dst h := hR.src_ne_dst (AList.lookup_erase_eq_some h).2
  sharesDst_nonneg h := hR.sharesDst_nonneg (AList.lookup_erase_eq_some h).2

end RedelegationsWF

end Staking

end Dipper
