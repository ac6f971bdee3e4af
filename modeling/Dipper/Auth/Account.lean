import Dipper.Types.Coins

/-!
# Accounts and the account keeper

`BaseAccount` with the native-token accessors `Balance` and `SetBalance` the EVM
uses, and the part of the auth `AccountKeeper` it calls. The store holds every
account under its own address; other account types (module and vesting
accounts) embed a `BaseAccount` and are marked by `isBase = false`.
-/

namespace Dipper

/-- `auth.BaseAccount` (the public key is not read by any modelled function). -/
structure BaseAccount where
  address : Address
  coins : Coins
  accountNumber : Nat
  sequence : Nat
  codeHash : Bytes
  deriving DecidableEq

namespace BaseAccount

/-- `BaseAccount.Balance`: the native-token amount. -/
def Balance (acc : BaseAccount) : Int := AmountOf acc.coins NativeTokenName

/-- `BaseAccount.SetBalance`: moves the native-token amount to `amt` through
`Coins.Add` or `Coins.Sub`; the subtraction panics on a negative result. -/
def SetBalance (acc : BaseAccount) (amt : Int) : Except String BaseAccount :=
  let diff := amt - AmountOf acc.coins NativeTokenName
  if diff = 0 then .ok acc
  else if 0 < diff then .ok { acc with coins := safeAdd acc.coins [⟨NativeTokenName, diff⟩] }
  else (CoinsSub acc.coins [⟨NativeTokenName, -diff⟩]).map fun c => { acc with coins := c }

end BaseAccount

/-- An account as the auth store holds it: `isBase` says whether its concrete type
is `*BaseAccount`, the only one `newObject` and `UpdateAccounts` accept. -/
structure StoredAccount where
  base : BaseAccount
  isBase : Bool
  deriving DecidableEq

/-- The auth store: accounts keyed by address, each stored under its own address
(`SetAccount` keys by `acc.GetAddress()`), and `GlobalAccountNumberKey`. -/
structure AuthStore where
  accounts : AList (fun _ : Address => StoredAccount)
  nextAccountNumber : Nat
  keyed : ∀ a acc, accounts.lookup a = some acc → acc.base.address = a

namespace AuthStore

def GetAccount (s : AuthStore) (addr : Address) : Option StoredAccount := s.accounts.lookup addr

def SetAccount (s : AuthStore) (acc : StoredAccount) : AuthStore where
  accounts := s.accounts.insert acc.base.address acc
  nextAccountNumber := s.nextAccountNumber
  keyed a b h := by
    by_cases ha : a = acc.base.address
    · subst ha; rw [AList.lookup_insert] at h; cases h; rfl
    · rw [AList.lookup_insert_ne ha] at h; exact s.keyed a b h

def RemoveAccount (s : AuthStore) (acc : BaseAccount) : AuthStore where
  accounts := s.accounts.erase acc.address
  nextAccountNumber := s.nextAccountNumber
  keyed a b h := by
    by_cases ha : a = acc.address
    · subst ha; rw [AList.lookup_erase] at h; cases h
    · rw [AList.lookup_erase_ne ha] at h; exact s.keyed a b h

/-- `AccountKeeper.NewAccountWithAddress`: a fresh `BaseAccount` (the app's account
prototype) with the next account number, which `GetNextAccountNumber` advances. -/
def NewAccountWithAddress (s : AuthStore) (addr : Address) : BaseAccount × AuthStore :=
  (⟨addr, [], s.nextAccountNumber, 0, []⟩, { s with nextAccountNumber := s.nextAccountNumber + 1 })

@[simp] theorem GetAccount_SetAccount (s : AuthStore) (acc : StoredAccount) (a : Address) :
    (s.SetAccount acc).GetAccount a = if a = acc.base.address then some acc else s.GetAccount a := by
  unfold GetAccount SetAccount
  split
  · subst_vars; exact AList.lookup_insert _
  · exact AList.lookup_insert_ne ‹_›

@[simp] theorem GetAccount_RemoveAccount (s : AuthStore) (acc : BaseAccount) (a : Address) :
    (s.RemoveAccount acc).GetAccount a = if a = acc.address then none else s.GetAccount a := by
  unfold GetAccount RemoveAccount
  split
  · subst_vars; exact AList.lookup_erase _ _
  · exact AList.lookup_erase_ne ‹_›

@[simp] theorem GetAccount_NewAccountWithAddress (s : AuthStore) (addr a : Address) :
    (s.NewAccountWithAddress addr).2.GetAccount a = s.GetAccount a := rfl

/-- `expectedTotal` of the supply module's `TotalSupply` invariant: the coins of every
stored account added up, in the order of the entries. -/
def expectedTotal (s : AuthStore) : Coins :=
  s.accounts.entries.foldl (fun acc e => safeAdd acc e.2.base.coins) []

end AuthStore

end Dipper
