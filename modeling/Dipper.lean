import Dipper.App.Block
import Dipper.Auth.Account
import Dipper.Bank.Send
import Dipper.Distribution.Chain
import Dipper.Distribution.Events
import Dipper.Distribution.Keeper
import Dipper.Distribution.References
import Dipper.Distribution.Types
import Dipper.Gov.EndBlock
import Dipper.Gov.Keeper
import Dipper.Gov.Tally
import Dipper.Gov.Types
import Dipper.Hexutil.Hexutil
import Dipper.Hexutil.Json
import Dipper.Lib.AListFilter
import Dipper.Lib.AListSum
import Dipper.Lib.Digits
import Dipper.Lib.GoHex
import Dipper.Lib.GoJson
import Dipper.Lib.GoText
import Dipper.Lib.GoTime
import Dipper.Lib.IntBits
import Dipper.Lib.KeyedList
import Dipper.Lib.OrderedMap
import Dipper.Lib.RingWindow
import Dipper.Lib.Rounding
import Dipper.Lib.Runs
import Dipper.Lib.Search
import Dipper.Lib.StateExcept
import Dipper.Mint.BeginBlock
import Dipper.Slashing.Genesis
import Dipper.Slashing.Keeper
import Dipper.Slashing.Liveness
import Dipper.Slashing.Runs
import Dipper.Slashing.Tombstone
import Dipper.Slashing.Types
import Dipper.Staking.EndBlock
import Dipper.Staking.Handler
import Dipper.Staking.Hooks
import Dipper.Staking.Invariants
import Dipper.Staking.Keeper
import Dipper.Staking.Ledger
import Dipper.Staking.Shares
import Dipper.Staking.Slash
import Dipper.Staking.Types
import Dipper.Store.CacheKV.Iterators
import Dipper.Store.CacheKV.Refinement
import Dipper.Store.CacheKV.Store
import Dipper.Store.Prefix
import Dipper.Store.Types
import Dipper.Types.BigInt
import Dipper.Types.Bytes
import Dipper.Types.CoinString
import Dipper.Types.Coins
import Dipper.Types.Dec
import Dipper.Types.DecCoinOps
import Dipper.Types.DecCoins
import Dipper.Types.DecRounding
import Dipper.Types.DecString
import Dipper.Vm.Commit
import Dipper.Vm.EntryPoints
import Dipper.Vm.GasBound
import Dipper.Vm.Interp.Analysis
import Dipper.Vm.Interp.CallGas
import Dipper.Vm.Interp.Context
import Dipper.Vm.Interp.Evm
import Dipper.Vm.Interp.Frame
import Dipper.Vm.Interp.Gas
import Dipper.Vm.Interp.Instructions
import Dipper.Vm.Interp.Interpreter
import Dipper.Vm.Interp.JumpTable
import Dipper.Vm.Interp.Memory
import Dipper.Vm.Interp.MemoryFee
import Dipper.Vm.Interp.Rows
import Dipper.Vm.Interp.YellowPaper
import Dipper.Vm.Journal
import Dipper.Vm.MemoryAccounting
import Dipper.Vm.StateDB
import Dipper.Vm.StateObject
import Dipper.Vm.StateTransition
import Dipper.Vm.Store
