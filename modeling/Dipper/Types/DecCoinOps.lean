import Dipper.Types.DecCoins
import Dipper.Lib.StateExcept

/-!
# Arithmetic on decimal coins

The rest of `types/dec_coin.go` that the distribution module calls: `NewDecCoins`, which turns
coins into decimal coins, `Sub`, which panics on a negative result, the scalings `MulDec`,
`MulDecTruncate` and `QuoDecTruncate`, which map each amount and add the non-zero results back
up one at a time, the binary search `AmountOf` and `Intersect`.
-/

namespace Dipper

open Dec KeyedList

/-- `NewDecCoinFromCoin`: a negative amount or an upper-case letter in the denom panics. -/
def NewDecCoinFromCoin (coin : Coin) : Except String DecCoin :=
  if coin.amount < 0 then .error ("negative decimal coin amount: " ++ toString coin.amount ++ "\n")
  else if GoText.ToLower coin.denom.toList ≠ coin.denom.toList then
    .error ("denom cannot contain upper case characters: " ++ coin.denom ++ "\n")
  else .ok ⟨coin.denom, NewDec coin.amount⟩

def NewDecCoins (coins : Coins) : Except String DecCoins := coins.mapM NewDecCoinFromCoin

namespace DecCoins

/-- `DecCoins.Sub`: the difference, which panics when a coin comes out negative. -/
def Sub (a b : DecCoins) : Except String DecCoins :=
  let (diff, hasNeg) := SafeSub a b
  if hasNeg then .error "negative coin amount" else .ok diff

/-- The loop that `MulDec`, `MulDecTruncate` and `QuoDecTruncate` share: each amount mapped by
`f`, and the non-zero products added one at a time to the result. -/
def mapAmounts (f : Dec → Except String Dec) (coins : DecCoins) : Except String DecCoins :=
  coins.foldlM (fun res coin => do
    let product : DecCoin := ⟨coin.denom, ← f coin.amount⟩
    pure (if !product.IsZero then safeAdd res [product] else res)) []

def MulDec (coins : DecCoins) (d : Dec) : Except String DecCoins := mapAmounts (fun a => .ok (a.Mul d)) coins

def MulDecTruncate (coins : DecCoins) (d : Dec) : Except String DecCoins :=
  mapAmounts (fun a => .ok (a.MulTruncate d)) coins

/-- `DecCoins.QuoDecTruncate`: a zero divisor panics before the loop. -/
def QuoDecTruncate (coins : DecCoins) (d : Dec) : Except String DecCoins :=
  if d.IsZero then .error "invalid zero decimal" else mapAmounts (fun a => a.QuoTruncate d) coins

/-- The binary search of `DecCoins.AmountOf`, with the list length as fuel; it is the loop of
`Coins.AmountOf` (`Dipper.amountOfAux`) over decimal coins. -/
def amountOfAux : Nat → DecCoins → String → Dec
  | 0, _, _ => ZeroDec
  | k+1, coins, denom =>
    match coins with
    | [] => ZeroDec
    | [c] => if c.denom = denom then c.amount else ZeroDec
    | coins =>
      let midIdx := coins.length / 2
      let coin := coins.getD midIdx ⟨"", ZeroDec⟩
      if denom < coin.denom then amountOfAux k (coins.take midIdx) denom
      else if denom = coin.denom then coin.amount
      else amountOfAux k (coins.drop (midIdx+1)) denom

/-- `DecCoins.AmountOf`: `mustValidateDenom`, then the search. -/
def AmountOf (coins : DecCoins) (denom : String) : Except String Dec := do
  mustValidateDenom denom
  pure (amountOfAux coins.length coins denom)

/-- `DecCoins.Intersect`: each coin cut down to the amount of its denom in `coinsB`, the zero
results dropped. -/
def Intersect (coins coinsB : DecCoins) : Except String DecCoins := do
  let res ← coins.mapM fun coin => do
    let b ← coinsB.AmountOf coin.denom
    pure (⟨coin.denom, MinDec coin.amount b⟩ : DecCoin)
  pure (removeZeroDecCoins res)

/-- `DecCoins.IsZero`: every amount zero. -/
def IsZero (coins : DecCoins) : Bool := coins.all fun c => c.amount.IsZero

/-! ### Sorted lists -/

section Strict

variable {a b : DecCoins}

theorem safeAdd_strict (ha : Strict DecCoin.denom a) (hb : Strict DecCoin.denom b) :
    Strict DecCoin.denom (safeAdd a b) :=
  (safeAdd_mergeAdd a b).strict (fun _ _ => by rfl) ha hb

theorem mapAmounts_step_strict {res : DecCoins} (hres : Strict DecCoin.denom res) (c : DecCoin) :
    Strict DecCoin.denom (if !c.IsZero then safeAdd res [c] else res) := by
  split
  · exact safeAdd_strict hres (List.pairwise_singleton _ _)
  · exact hres

theorem mapAmounts_strict {f : Dec → Except String Dec} :
    ∀ {coins : DecCoins} {res out : DecCoins}, Strict DecCoin.denom res →
      coins.foldlM (fun res coin => do
        let product : DecCoin := ⟨coin.denom, ← f coin.amount⟩
        pure (if !product.IsZero then safeAdd res [product] else res)) res = .ok out →
      Strict DecCoin.denom out
  | [], res, out, hres, h => by
    cases h
    exact hres
  | c :: coins, res, out, hres, h => by
    rw [List.foldlM_cons] at h
    obtain ⟨res', hres', hrest⟩ := StateExcept.except_bind_eq_ok.mp h
    cases hf : f c.amount with
    | error e => simp [hf, bind, Except.bind] at hres'
    | ok amount =>
      simp only [hf, bind, Except.bind, pure, Except.pure, Except.ok.injEq] at hres'
      subst hres'
      exact mapAmounts_strict (mapAmounts_step_strict hres _) hrest

end Strict

end DecCoins

end Dipper
