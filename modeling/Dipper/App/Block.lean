import Dipper.Vm.StateTransition

/-!
# A block of transactions and the vm `EndBlocker`

`runTx` of `baseapp.go` in deliver mode, reduced to what the vm module sees: the
messages run on a cache of the block's store, and the cache is written back only if
every message succeeds. The vm handler runs on the keeper's one `CommitStateDB`,
which lives across the transactions of a block; the `EndBlocker` reloads its cached
accounts, commits them to the block's store and clears them. A message of another
module is its handler on the cached store. A panic is not recovered here: the block
stops, where `runTx` would recover it and drop the cache.
-/

namespace Dipper

open CommitStateDB

/-- A message of a transaction. -/
inductive Msg
  | contract (m : MsgContract)
  | other (handler : Store → Except String Store)

structure Tx where
  msgs : List Msg
  bytes : Bytes
  gas : Nat

/-- What every transaction of a block shares. -/
structure BlockEnv where
  header : Header
  params : Params
  cr : Crypto
  pre : Precompiles
  fuel : Nat

variable (b : BlockEnv)

/-- `runMsgs` in deliver mode: the first failing message fails them all. The vm
handler writes through the state database's context, which is the cache. -/
def runMsgs (tx : Tx) : List Msg → Store → Keep (Except String Store)
  | [], store => return .ok store
  | .contract m :: rest, store => do
    let ctx : TxContext := ⟨b.header, store, tx.gas, 0, none, false, tx.bytes⟩
    match ← handleMsgContract b.cr b.pre b.fuel m ctx b.params with
    | .error _ => return .error "failed to execute message"
    | .ok _ => runMsgs tx rest (← get).ctx
  | .other h :: rest, store =>
    match h store with
    | .error e => return .error e
    | .ok store => runMsgs tx rest store

/-- `runTx` in deliver mode: the cache is written only when every message succeeds. -/
def deliverTx (store : Store) (tx : Tx) : Keep Store := do
  match ← runMsgs b tx tx.msgs store with
  | .ok store' => return store'
  | .error _ => return store

/-- The vm `EndBlocker`. -/
def EndBlocker (store : Store) : Keep Store := do
  liftDB (WithContext store)
  liftDB UpdateAccounts
  liftDB (Commit true)
  liftDB ClearStateObjects
  return (← get).ctx

/-- The transactions of a block in order, then the `EndBlocker`. -/
def deliverBlock (store : Store) (txs : List Tx) : Keep Store := do
  EndBlocker (← txs.foldlM (deliverTx b) store)

/-! ### Effects that outlive their transaction -/

/-- Default params, hash functions that return no bytes, no precompiled contracts. -/
def sampleBlockEnv : BlockEnv :=
  ⟨⟨[], [], 0, 1⟩, DefaultParams, ⟨fun _ => [], fun _ => []⟩, ⟨fun _ _ => 0, fun _ _ => ([], none)⟩, 4⟩

/-- A transaction whose `MsgContract` pays 10 to a new account and whose next message
fails is dropped by `runTx`, yet the `EndBlocker` writes the new account, which only
the keeper's cached objects still hold. -/
theorem deliverBlock_commits_dropped_tx :
    let store : Store :=
      { Store.empty with auth := Store.empty.auth.SetAccount ⟨⟨[0xaa], [⟨"pdip", 100⟩], 0, 0, []⟩, true⟩ }
    let tx : Tx := ⟨[.contract ⟨[0xaa], [0xbb], [0], ⟨"pdip", 10⟩⟩, .other fun _ => .error "fail"],
      [7], 1000000⟩
    ((runMsgs sampleBlockEnv tx tx.msgs store).run' (CommitStateDB.new store)).map Except.isOk =
        .ok false ∧
      store.auth.GetAccount [0xbb] = none ∧
      ((deliverBlock sampleBlockEnv store [tx]).run' (CommitStateDB.new store)).map
        (fun s => (s.auth.GetAccount [0xbb]).map (·.base.coins)) = .ok (some [⟨"pdip", 10⟩]) := by
  decide +kernel

/-- A call of no value to an account that holds only coins of another denom and has
never sent a transaction touches it; `Finalise` then deletes it as empty, coins and
all, and the accounts' total of that denom drops while the supply stays. -/
theorem deliverBlock_deletes_foreign_coins :
    let store : Store :=
      { Store.empty with auth := ((Store.empty.auth.SetAccount ⟨⟨[0xaa], [⟨"pdip", 100⟩], 0, 0, []⟩, true⟩).SetAccount
          ⟨⟨[0xbb], [⟨"foo", 5⟩], 1, 0, []⟩, true⟩) }
    let tx : Tx := ⟨[.contract ⟨[0xaa], [0xbb], [0], ⟨"pdip", 0⟩⟩], [7], 1000000⟩
    ((runMsgs sampleBlockEnv tx tx.msgs store).run' (CommitStateDB.new store)).map Except.isOk =
        .ok true ∧
      AmountOf store.auth.expectedTotal "foo" = 5 ∧
      ((deliverBlock sampleBlockEnv store [tx]).run' (CommitStateDB.new store)).map
        (fun s => AmountOf s.auth.expectedTotal "foo") = .ok 0 := by
  decide +kernel

end Dipper
