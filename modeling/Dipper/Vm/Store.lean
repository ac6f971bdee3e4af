import Dipper.Auth.Account

/-!
# The stores the EVM state database writes

The vm module's KV store under its four prefixes: contract code by code hash
(`KeyPrefixCode`), contract storage by address and slot key
(`AddressStoragePrefix(addr)`, a missing slot reads as the zero hash), the
committed logs by transaction hash (`KeyPrefixLogs`) and the log index counter
(`KeyPrefixLogsIndex`, `LogIndexKey`), which may be absent. Together with the
auth store they are what the state database reaches through its `ctx`.
-/

namespace Dipper

structure Log where
  address : Address
  topics : List Hash
  data : Bytes
  blockNumber : Nat
  txHash : Hash
  txIndex : Nat
  blockHash : Hash
  index : Nat
  deriving DecidableEq

structure VmStore where
  codes : AList (fun _ : Bytes => Bytes)
  storage : AList (fun _ : Address × Hash => Hash)
  logs : AList (fun _ : Hash => List Log)
  logIndex : Option Nat

/-- The multistore of a context: the auth store and the vm store. -/
structure Store where
  auth : AuthStore
  vm : VmStore

namespace Store

/-- A store with no accounts, code, storage or logs, and no log index. -/
def empty : Store := ⟨⟨∅, 0, by simp⟩, ⟨∅, ∅, ∅, none⟩⟩

/-- A committed storage slot, zero when absent (`GetCommittedState`'s store read). -/
def storageAt (s : Store) (addr : Address) (key : Hash) : Hash :=
  (s.vm.storage.lookup (addr, key)).getD Hash.zero

/-- The write of one storage slot by `commitState`: a zero value deletes the key. -/
def setStorage (s : Store) (addr : Address) (key value : Hash) : Store :=
  { s with vm := { s.vm with storage :=
      if value = Hash.zero then s.vm.storage.erase (addr, key)
      else s.vm.storage.insert (addr, key) value } }

/-- `commitCode`'s write, keyed by the raw code hash bytes of the account. -/
def setCode (s : Store) (hash : Bytes) (code : Bytes) : Store :=
  { s with vm := { s.vm with codes := s.vm.codes.insert hash code } }

def setAuth (s : Store) (a : AuthStore) : Store := { s with auth := a }

/-- `updateLogIndexByOne`: returns the new index and the store. A missing counter
is written as zero whichever way it moves; a zero counter is not decremented and
a counter at `MaxUint64` is not incremented, and neither is written back. -/
def updateLogIndexByOne (s : Store) (isSubtract : Bool) : Nat × Store :=
  let write (v : Nat) : Nat × Store := (v, { s with vm := { s.vm with logIndex := some v } })
  match s.vm.logIndex with
  | none => write 0
  | some value =>
    if isSubtract then
      if value = 0 then (0, s) else write (value - 1)
    else
      if value = MaxUint64 then (value, s) else write (value + 1)

@[simp] theorem storageAt_setStorage (s : Store) (a b : Address) (k l v : Hash) :
    (s.setStorage a k v).storageAt b l = if (b, l) = (a, k) then v else s.storageAt b l := by
  unfold storageAt setStorage
  by_cases h : (b, l) = (a, k)
  · rw [if_pos h]; rw [h]
    split
    · simp [AList.lookup_erase, *]
    · simp [AList.lookup_insert]
  · rw [if_neg h]
    split
    · simp [AList.lookup_erase_ne h]
    · simp [AList.lookup_insert_ne h]

@[simp] theorem auth_updateLogIndexByOne (s : Store) (b : Bool) :
    (s.updateLogIndexByOne b).2.auth = s.auth := by
  unfold updateLogIndexByOne; split <;> (try split) <;> (try split) <;> rfl

@[simp] theorem storageAt_updateLogIndexByOne (s : Store) (b : Bool) (a : Address) (k : Hash) :
    (s.updateLogIndexByOne b).2.storageAt a k = s.storageAt a k := by
  unfold updateLogIndexByOne; split <;> (try split) <;> (try split) <;> rfl

end Store

end Dipper
