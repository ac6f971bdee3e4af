import Dipper.Types.Coins
import Dipper.Lib.StateExcept

/-!
# The bank's send keeper

`SendCoins` of `bank/internal/keeper/keeper.go`, over the coins of every account as the account
keeper stores them: `SubtractCoins` takes the amount from the sender, refusing an invalid amount
or one the sender cannot cover, then `AddCoins` gives it to the recipient, whose account is
created if it has none. Accounts are plain accounts here: their spendable coins are their coins
(vesting schedules are not modelled).
-/

namespace Dipper

namespace Bank

open KeyedList

/-- The errors the send keeper returns: `ErrInvalidCoins` and `ErrInsufficientFunds` of
`types/errors`. -/
inductive Err
  | InvalidCoins | InsufficientFunds
  deriving DecidableEq, Repr

/-- The coins of each account; an address without an entry holds no coins. -/
abbrev Balances := AList (fun _ : Address => Coins)

def GetCoins (b : Balances) (addr : Address) : Coins := (b.lookup addr).getD []

/-- `SetCoins`: the account is created if it does not exist. -/
def SetCoins (b : Balances) (addr : Address) (amt : Coins) : Balances := b.insert addr amt

/-- `SubtractCoins`: an invalid amount, or one above the account's coins, is refused; the
`Sub` that follows the check cannot panic but is kept as the source has it. -/
def SubtractCoins (b : Balances) (addr : Address) (amt : Coins) : Except String (Except Err Balances) :=
  if !Coins.IsValid amt then .ok (.error .InvalidCoins)
  else
    let oldCoins := GetCoins b addr
    if (SafeSub oldCoins amt).2 then .ok (.error .InsufficientFunds)
    else (CoinsSub oldCoins amt).map fun newCoins => .ok (SetCoins b addr newCoins)

def AddCoins (b : Balances) (addr : Address) (amt : Coins) : Except Err Balances :=
  if !Coins.IsValid amt then .error .InvalidCoins
  else
    let newCoins := safeAdd (GetCoins b addr) amt
    if IsAnyNegative newCoins then .error .InsufficientFunds
    else .ok (SetCoins b addr newCoins)

/-- `SendCoins`: the events it emits are not modelled. -/
def SendCoins (b : Balances) (fromAddr toAddr : Address) (amt : Coins) : Except String (Except Err Balances) :=
  (SubtractCoins b fromAddr amt).map fun r => r.bind fun b => AddCoins b toAddr amt

@[simp] theorem GetCoins_SetCoins (b : Balances) (addr a : Address) (amt : Coins) :
    GetCoins (SetCoins b addr amt) a = if a = addr then amt else GetCoins b a := by
  by_cases h : a = addr
  · subst h
    simp [GetCoins, SetCoins]
  · simp [GetCoins, SetCoins, AList.lookup_insert_ne h, h]

/-! ### What a send does -/

/-- Every account's coins are sorted by denom. -/
def Sorted (b : Balances) : Prop := ∀ a, Strict Coin.denom (GetCoins b a)

theorem Sorted.setCoins {b : Balances} (hb : Sorted b) {addr : Address} {amt : Coins}
    (h : Strict Coin.denom amt) : Sorted (SetCoins b addr amt) := by
  intro a
  rw [GetCoins_SetCoins]
  split
  · exact h
  · exact hb a

theorem strict_of_IsValid {c : Coins} (h : Coins.IsValid c = true) : Strict Coin.denom c :=
  (IsValid_iff.mp h).1

theorem SubtractCoins_eq_ok {b b' : Balances} {addr : Address} {amt : Coins}
    (h : SubtractCoins b addr amt = .ok (.ok b')) :
    Coins.IsValid amt = true ∧ (SafeSub (GetCoins b addr) amt).2 = false ∧
      b' = SetCoins b addr (SafeSub (GetCoins b addr) amt).1 := by
  unfold SubtractCoins at h
  by_cases hv : Coins.IsValid amt = true
  · rw [if_neg (by simp [hv])] at h
    by_cases hneg : (SafeSub (GetCoins b addr) amt).2 = true
    · rw [if_pos hneg] at h
      cases h
    · rw [if_neg hneg] at h
      have hneg' : (SafeSub (GetCoins b addr) amt).2 = false := by simpa using hneg
      have hsub : CoinsSub (GetCoins b addr) amt = .ok (SafeSub (GetCoins b addr) amt).1 := by
        unfold CoinsSub
        rcases hs : SafeSub (GetCoins b addr) amt with ⟨diff, hasNeg⟩
        rw [hs] at hneg'
        cases hneg'
        rfl
      rw [hsub] at h
      cases h
      exact ⟨hv, hneg', rfl⟩
  · rw [if_pos (by simpa using hv)] at h
    cases h

theorem AddCoins_eq_ok {b b' : Balances} {addr : Address} {amt : Coins} (h : AddCoins b addr amt = .ok b') :
    Coins.IsValid amt = true ∧ b' = SetCoins b addr (safeAdd (GetCoins b addr) amt) := by
  unfold AddCoins at h
  by_cases hv : Coins.IsValid amt = true
  · rw [if_neg (by simp [hv])] at h
    dsimp only at h
    split at h
    · cases h
    · cases h
      exact ⟨hv, rfl⟩
  · rw [if_pos (by simpa using hv)] at h
    cases h

/-- A send that succeeds took a valid amount the sender could cover, and stored the sender's
difference and then the recipient's sum. -/
theorem SendCoins_eq_ok {b b' : Balances} {fromAddr toAddr : Address} {amt : Coins}
    (h : SendCoins b fromAddr toAddr amt = .ok (.ok b')) :
    Coins.IsValid amt = true ∧ (SafeSub (GetCoins b fromAddr) amt).2 = false ∧
      b' = SetCoins (SetCoins b fromAddr (SafeSub (GetCoins b fromAddr) amt).1) toAddr
        (safeAdd (GetCoins (SetCoins b fromAddr (SafeSub (GetCoins b fromAddr) amt).1) toAddr) amt) := by
  obtain ⟨r, hr, hb⟩ := StateExcept.eq_ok_of_map h
  cases r with
  | error e => cases hb
  | ok b₁ =>
    obtain ⟨hv, hneg, rfl⟩ := SubtractCoins_eq_ok hr
    exact ⟨hv, hneg, (AddCoins_eq_ok hb).2⟩

section Sorted

variable {b b' : Balances} (hb : Sorted b) {fromAddr toAddr : Address} {amt : Coins}
include hb

theorem SendCoins_sorted (h : SendCoins b fromAddr toAddr amt = .ok (.ok b')) : Sorted b' := by
  obtain ⟨hv, -, rfl⟩ := SendCoins_eq_ok h
  have hamt := strict_of_IsValid hv
  have h₁ : Sorted (SetCoins b fromAddr (SafeSub (GetCoins b fromAddr) amt).1) :=
    hb.setCoins ((safeAdd_mergeAdd _ _).strict (fun _ _ => by rfl) (hb fromAddr) (strict_negative hamt))
  exact h₁.setCoins ((safeAdd_mergeAdd _ _).strict (fun _ _ => by rfl) (h₁ toAddr) hamt)

/-- A send moves the amount from the sender to the recipient, denom by denom, and leaves every
other account as it was. -/
theorem SendCoins_amountOf (h : SendCoins b fromAddr toAddr amt = .ok (.ok b')) (a : Address) (denom : String) :
    amountOf Coin.denom Coin.amount (GetCoins b' a) denom =
      amountOf Coin.denom Coin.amount (GetCoins b a) denom -
        (if a = fromAddr then amountOf Coin.denom Coin.amount amt denom else 0) +
        (if a = toAddr then amountOf Coin.denom Coin.amount amt denom else 0) := by
  obtain ⟨hv, -, rfl⟩ := SendCoins_eq_ok h
  have hamt := strict_of_IsValid hv
  set b₁ := SetCoins b fromAddr (SafeSub (GetCoins b fromAddr) amt).1 with hb₁
  -- the sender's coins after the subtraction, and anyone's before the addition
  have hsub : ∀ a, amountOf Coin.denom Coin.amount (GetCoins b₁ a) denom =
      amountOf Coin.denom Coin.amount (GetCoins b a) denom -
        if a = fromAddr then amountOf Coin.denom Coin.amount amt denom else 0 := fun a => by
    rw [hb₁, GetCoins_SetCoins]
    split
    · next ha =>
      subst ha
      exact (safeAdd_mergeAdd _ _).amountOf_sub (fun _ _ => by rfl) (fun _ _ => by rfl)
        (fun c h => (Coin.IsZero_iff c).mp h) (fun _ => by rfl) (fun _ => by rfl) (hb a) hamt denom
    · rw [sub_zero]
  have hs₁ : Strict Coin.denom (GetCoins b₁ toAddr) := by
    rw [hb₁, GetCoins_SetCoins]
    split
    · exact (safeAdd_mergeAdd _ _).strict (fun _ _ => by rfl) (hb fromAddr) (strict_negative hamt)
    · exact hb toAddr
  rw [GetCoins_SetCoins]
  split
  · next ha =>
    subst ha
    rw [(safeAdd_mergeAdd _ _).amountOf_out (fun _ _ => by rfl) (fun _ _ => by rfl)
      (fun c h => (Coin.IsZero_iff c).mp h) hs₁ hamt denom, hsub]
  · rw [hsub, add_zero]

end Sorted

end Bank

end Dipper
