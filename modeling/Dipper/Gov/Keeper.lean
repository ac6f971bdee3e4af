import Dipper.Gov.Types

/-!
# The governance keeper

The governance store (proposals, deposits, votes, the inactive and active proposal queues keyed
by end time and id, the next proposal id and the software-upgrade flag), the bank as the keeper
reaches it, and the keeper methods of `keeper.go`, `proposal.go`, `deposit.go` and `vote.go`. A
keeper method returns its Go error through `ExceptT` and panics through the `Except String`
underneath, as the staking keeper does. A handler may refuse a content; what it changes in other
modules when a proposal passes is not part of this state.
-/

namespace Dipper

namespace Gov

open Dec

/-- A proposal handler: the content, the proposal id and the proposer. -/
abbrev Handler := Content → Nat → Address → Except Err Unit

/-- The router: the handler of each registered route. -/
abbrev Router := String → Option Handler

/-- The governance store, the bank in every denom (the accounts, the module account
and the supply), and the block header. -/
structure State where
  proposals : AList (fun _ : Nat => Proposal)
  deposits : AList (fun _ : Nat × Address => Deposit)
  votes : AList (fun _ : Nat × Address => Vote)
  inactiveQueue : AList (fun _ : Int × Nat => Unit)
  activeQueue : AList (fun _ : Int × Nat => Unit)
  softwareUpgrade : Bool
  proposalID : Option Nat
  depositParams : DepositParams
  votingParams : VotingParams
  tallyParams : TallyParams
  accounts : AList (fun _ : Address => Coins)
  moduleCoins : Coins
  supply : Coins
  height : Int
  time : Int

/-- A keeper method of the governance module. -/
abbrev GM := ExceptT Err (StateT State (Except String))

def panicG {α : Type} (msg : String) : GM α := ExceptT.lift (StateT.lift (.error msg))

def liftPanicG {α : Type} (x : Except String α) : GM α := ExceptT.lift (StateT.lift x)

/-! ### Proposals and the queues -/

def GetProposal (proposalID : Nat) : GM (Option Proposal) :=
  return (← get).proposals.lookup proposalID

def SetProposal (proposal : Proposal) : GM Unit :=
  modify fun s => { s with proposals := s.proposals.insert proposal.ProposalID proposal }

def InsertActiveProposalQueue (proposalID : Nat) (endTime : Int) : GM Unit :=
  modify fun s => { s with activeQueue := s.activeQueue.insert (endTime, proposalID) () }

def RemoveFromActiveProposalQueue (proposalID : Nat) (endTime : Int) : GM Unit :=
  modify fun s => { s with activeQueue := s.activeQueue.erase (endTime, proposalID) }

def InsertInactiveProposalQueue (proposalID : Nat) (endTime : Int) : GM Unit :=
  modify fun s => { s with inactiveQueue := s.inactiveQueue.insert (endTime, proposalID) () }

def RemoveFromInactiveProposalQueue (proposalID : Nat) (endTime : Int) : GM Unit :=
  modify fun s => { s with inactiveQueue := s.inactiveQueue.erase (endTime, proposalID) }

/-- `DeleteProposal`: a missing proposal panics; its queue entries go with it. -/
def DeleteProposal (proposalID : Nat) : GM Unit := do
  let some proposal ← GetProposal proposalID | panicG "couldn't find proposal"
  RemoveFromInactiveProposalQueue proposalID proposal.DepositEndTime
  RemoveFromActiveProposalQueue proposalID proposal.VotingEndTime
  modify fun s => { s with proposals := s.proposals.erase proposalID }

def GetProposalID : GM Nat := do
  let some proposalID := (← get).proposalID | throw .InvalidGenesis
  return proposalID

def setProposalID (proposalID : Nat) : GM Unit :=
  modify fun s => { s with proposalID := some proposalID }

def SoftwareUpgradeProposalExist : GM Bool := return (← get).softwareUpgrade

def SoftwareUpgradeSet : GM Unit := modify fun s => { s with softwareUpgrade := true }

def SoftwareUpgradeClear : GM Unit := modify fun s => { s with softwareUpgrade := false }

/-- `ActivateVotingPeriod`: the voting period starts now and the proposal moves to
the active queue. -/
def ActivateVotingPeriod (proposal : Proposal) : GM Unit := do
  let s ← get
  let proposal := { proposal with
    VotingStartTime := s.time, VotingEndTime := s.time + s.votingParams.VotingPeriod,
    Status := .StatusVotingPeriod }
  SetProposal proposal
  RemoveFromInactiveProposalQueue proposal.ProposalID proposal.DepositEndTime
  InsertActiveProposalQueue proposal.ProposalID proposal.VotingEndTime

/-- The entries of a proposal-keyed store for one proposal, in the order of the
second half of their key, as the prefix iterators visit them. -/
def ofProposal {β : Type} (m : AList (fun _ : Nat × Address => β)) (proposalID : Nat) : List β :=
  ((m.entries.filter fun e => e.1.1 = proposalID).insertionSort fun a b => a.1.2 ≤ b.1.2).map (·.2)

def GetDeposits (proposalID : Nat) : GM (List Deposit) := return ofProposal (← get).deposits proposalID

def GetVotes (proposalID : Nat) : GM (List Vote) := return ofProposal (← get).votes proposalID

def SetVote (vote : Vote) : GM Unit :=
  modify fun s => { s with votes := s.votes.insert (vote.ProposalID, vote.Voter) vote }

def deleteVote (proposalID : Nat) (voter : Address) : GM Unit :=
  modify fun s => { s with votes := s.votes.erase (proposalID, voter) }

/-! ### The bank -/

def GetCoins (addr : Address) : GM Coins := return ((← get).accounts.lookup addr).getD []

/-- `SubtractCoins` of the bank: valid coins that the holder covers. -/
def subtractCoins (old amt : Coins) : GM Coins := do
  if !Coins.IsValid amt then throw .InvalidCoins
  if (SafeSub old amt).2 then throw .InsufficientFunds
  liftPanicG (CoinsSub old amt)

def SendCoinsFromAccountToModule (addr : Address) (amt : Coins) : GM Unit := do
  let newCoins ← subtractCoins (← GetCoins addr) amt
  modify fun s => { s with accounts := s.accounts.insert addr newCoins, moduleCoins := safeAdd s.moduleCoins amt }

def SendCoinsFromModuleToAccount (addr : Address) (amt : Coins) : GM Unit := do
  let newCoins ← subtractCoins (← get).moduleCoins amt
  let old ← GetCoins addr
  modify fun s => { s with moduleCoins := newCoins, accounts := s.accounts.insert addr (safeAdd old amt) }

/-- `BurnCoins` from the module account: the supply shrinks. -/
def BurnCoins (amt : Coins) : GM Unit := do
  let newCoins ← subtractCoins (← get).moduleCoins amt
  let supply ← liftPanicG (CoinsSub (← get).supply amt)
  modify fun s => { s with moduleCoins := newCoins, supply := supply }

/-! ### Deposits and votes -/

/-- `AddDeposit`: the coins move to the module account, and a deposit that reaches
the minimum starts the voting period. -/
def AddDeposit (proposalID : Nat) (depositor : Address) (depositAmount : Coins) : GM Bool := do
  let some proposal ← GetProposal proposalID | throw .UnknownProposal
  if proposal.Status ≠ .StatusDepositPeriod ∧ proposal.Status ≠ .StatusVotingPeriod then
    throw .InactiveProposal
  SendCoinsFromAccountToModule depositor depositAmount
  let proposal := { proposal with TotalDeposit := safeAdd proposal.TotalDeposit depositAmount }
  SetProposal proposal
  let s ← get
  -- `&&` reads the deposit only in the deposit period; `IsAllGTE` may panic
  let activatedVotingPeriod ←
    if proposal.Status = .StatusDepositPeriod then
      liftPanicG (IsAllGTE proposal.TotalDeposit s.depositParams.MinDeposit)
    else pure false
  if activatedVotingPeriod then ActivateVotingPeriod proposal
  let deposit : Deposit := match s.deposits.lookup (proposalID, depositor) with
    | some deposit => { deposit with Amount := safeAdd deposit.Amount depositAmount }
    | none => ⟨proposalID, depositor, depositAmount⟩
  modify fun s => { s with deposits := s.deposits.insert (proposalID, depositor) deposit }
  return activatedVotingPeriod

/-- `RefundDeposits`: every deposit goes back to its depositor; a failed transfer
panics. -/
def RefundDeposits (proposalID : Nat) : GM Unit := do
  (← GetDeposits proposalID).forM fun deposit => do
    tryCatch (SendCoinsFromModuleToAccount deposit.Depositor deposit.Amount) fun _ =>
      panicG "insufficient account funds"
    modify fun s => { s with deposits := s.deposits.erase (proposalID, deposit.Depositor) }

/-- `DeleteDeposits`: every deposit is burned; a failed burn panics. -/
def DeleteDeposits (proposalID : Nat) : GM Unit := do
  (← GetDeposits proposalID).forM fun deposit => do
    tryCatch (BurnCoins deposit.Amount) fun _ => panicG "insufficient account funds"
    modify fun s => { s with deposits := s.deposits.erase (proposalID, deposit.Depositor) }

def AddVote (proposalID : Nat) (voter : Address) (option : VoteOption) : GM Unit := do
  let some proposal ← GetProposal proposalID | throw .UnknownProposal
  if proposal.Status ≠ .StatusVotingPeriod then throw .InactiveProposal
  if !ValidVoteOption option then throw .InvalidVote
  SetVote ⟨proposalID, voter, option⟩

/-! ### Submitting a proposal -/

/-- `SubmitProposal`: the route's handler checks the content on a cache that is
dropped; a software upgrade is refused while the flag is set, and sets it. -/
def SubmitProposal (router : Router) (content : Content) (proposer : Address) : GM Proposal := do
  let some handler := router content.ProposalRoute | throw .NoProposalHandlerExists
  if content.ProposalType = ProposalTypeSoftwareUpgrade then
    if ← SoftwareUpgradeProposalExist then throw .SoftwareUpgradeProposalExist
  let proposalID ← GetProposalID
  ExceptT.mk (pure (handler content proposalID proposer))
  let s ← get
  let proposal := NewProposal content proposalID s.time (s.time + s.depositParams.MaxDepositPeriod) proposer
  SetProposal proposal
  InsertInactiveProposalQueue proposalID proposal.DepositEndTime
  setProposalID (proposalID + 1)
  if content.ProposalType = ProposalTypeSoftwareUpgrade then SoftwareUpgradeSet
  return proposal

/-- What the upgrade check reads from the protocol and guardian keepers. -/
structure UpgradeView where
  IsValidVersion : Nat → Bool
  HasProfiler : Address → Bool
  UpgradeConfigExists : Bool
  BlockHeight : Nat

/-- `handleSoftwareUpgradeProposal`: the upgrade config it then writes belongs to the
protocol keeper. -/
def handleSoftwareUpgradeProposal (pv : UpgradeView) (content : Content) (version switchHeight : Nat)
    (proposer : Address) : Except Err Unit := do
  content.ValidateBasic
  if !pv.IsValidVersion version then throw .SoftwareUpgradeInvalidVersion
  if switchHeight < pv.BlockHeight then throw .SoftwareUpgradeInvalidSwitchHeight
  if !pv.HasProfiler proposer then throw .SoftwareUpgradeInvalidProfiler
  if pv.UpgradeConfigExists then throw .SoftwareUpgradeSwitchPeriodInProcess

/-- `NewGovProposalHandler`: text passes, an upgrade is checked. -/
def NewGovProposalHandler (pv : UpgradeView) : Handler := fun content _ proposer =>
  match content with
  | .TextProposal .. => .ok ()
  | .SoftwareUpgradeProposal _ _ version _ switchHeight _ =>
    handleSoftwareUpgradeProposal pv content version switchHeight proposer
  | .Other .. => .error .UnknownRequest

end Gov

end Dipper
