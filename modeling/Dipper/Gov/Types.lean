import Dipper.Types.Dec
import Dipper.Types.Coins

/-!
# Governance types

The proposal, deposit and vote records of `gov/types`, the module's params and
errors, and the two proposal contents the module itself handles: text and software
upgrade. A content of another module's route is kept by its route and type. Times
are nanoseconds.
-/

namespace Dipper

namespace Gov

open Dec

/-- The errors of `gov/types/errors.go`, with the bank's and the SDK's that the
modelled functions return. -/
inductive Err
  | UnknownProposal | InactiveProposal | InvalidProposalContent | InvalidProposalType | InvalidVote
  | InvalidGenesis | NoProposalHandlerExists | SoftwareUpgradeProposalExist
  | SoftwareUpgradeInvalidVersion | SoftwareUpgradeInvalidSwitchHeight | SoftwareUpgradeInvalidProfiler
  | SoftwareUpgradeSwitchPeriodInProcess | SoftwareUpgradeInvalidThreshold
  | InvalidAddress | InvalidCoins | InsufficientFunds | UnknownRequest
  deriving DecidableEq, Repr

inductive ProposalStatus
  | StatusNil | StatusDepositPeriod | StatusVotingPeriod | StatusPassed | StatusRejected | StatusFailed
  deriving DecidableEq, Repr

def ProposalTypeText : String := "Text"
def ProposalTypeSoftwareUpgrade : String := "SoftwareUpgrade"

/-- `RouterKey` of the module. -/
def RouterKey : String := "gov"

/-- A proposal's content. -/
inductive Content
  | TextProposal (Title Description : String)
  | SoftwareUpgradeProposal (Title Description : String) (Version : Nat) (Software : String)
      (SwitchHeight : Nat) (Threshold : Dec)
  /-- A content handled by another module's route. -/
  | Other (Title Description route type : String)
  deriving DecidableEq, Repr

namespace Content

def GetTitle : Content → String
  | TextProposal t _ | SoftwareUpgradeProposal t _ _ _ _ _ | Other t _ _ _ => t

def GetDescription : Content → String
  | TextProposal _ d | SoftwareUpgradeProposal _ d _ _ _ _ | Other _ d _ _ => d

def ProposalRoute : Content → String
  | TextProposal .. | SoftwareUpgradeProposal .. => RouterKey
  | Other _ _ route _ => route

def ProposalType : Content → String
  | TextProposal .. => ProposalTypeText
  | SoftwareUpgradeProposal .. => ProposalTypeSoftwareUpgrade
  | Other _ _ _ type => type

end Content

def MaxDescriptionLength : Nat := 5000
def MaxTitleLength : Nat := 140

/-- `ValidateAbstract`: a title and a description, neither blank nor too long (in
bytes). -/
def ValidateAbstract (c : Content) : Except Err Unit :=
  if c.GetTitle.toList.all Char.isWhitespace then .error .InvalidProposalContent
  else if MaxTitleLength < c.GetTitle.utf8ByteSize then .error .InvalidProposalContent
  else if c.GetDescription.isEmpty then .error .InvalidProposalContent
  else if MaxDescriptionLength < c.GetDescription.utf8ByteSize then .error .InvalidProposalContent
  else .ok ()

/-- `Content.ValidateBasic`: an upgrade's threshold lies in `[0.8, 1]`. The contents of
other routes are validated by their own modules. -/
def Content.ValidateBasic : Content → Except Err Unit
  | c@(.TextProposal ..) => ValidateAbstract c
  | c@(.SoftwareUpgradeProposal _ _ _ _ _ threshold) =>
    if threshold.LT (NewDecWithPrec 80 2) || threshold.GT (NewDecWithPrec 100 2) then
      .error .SoftwareUpgradeInvalidThreshold
    else ValidateAbstract c
  | c@(.Other ..) => ValidateAbstract c

/-- `validProposalTypes`, with the types the other modules register. -/
def IsValidProposalType (registered : List String) (ty : String) : Bool :=
  ty = ProposalTypeText || ty = ProposalTypeSoftwareUpgrade || registered.contains ty

structure TallyResult where
  Yes : Int
  Abstain : Int
  No : Int
  NoWithVeto : Int
  deriving DecidableEq, Repr

def EmptyTallyResult : TallyResult := ⟨0, 0, 0, 0⟩

structure Proposal where
  Content : Content
  ProposalID : Nat
  Status : ProposalStatus
  FinalTallyResult : TallyResult
  SubmitTime : Int
  DepositEndTime : Int
  TotalDeposit : Coins
  VotingStartTime : Int
  VotingEndTime : Int
  Proposer : Address
  deriving DecidableEq, Repr

/-- `NewProposal`: in its deposit period, with nothing deposited; the voting times
are Go's zero time, kept as 0. -/
def NewProposal (content : Content) (id : Nat) (submitTime depositEndTime : Int) (proposer : Address) :
    Proposal :=
  ⟨content, id, .StatusDepositPeriod, EmptyTallyResult, submitTime, depositEndTime, [], 0, 0, proposer⟩

structure Deposit where
  ProposalID : Nat
  Depositor : Address
  Amount : Coins
  deriving DecidableEq, Repr

inductive VoteOption
  | OptionEmpty | OptionYes | OptionAbstain | OptionNo | OptionNoWithVeto
  deriving DecidableEq, Repr

def ValidVoteOption (option : VoteOption) : Bool := option != .OptionEmpty

structure Vote where
  ProposalID : Nat
  Voter : Address
  Option : VoteOption
  deriving DecidableEq, Repr

structure DepositParams where
  MinDeposit : Coins
  MaxDepositPeriod : Int
  deriving DecidableEq, Repr

structure VotingParams where
  VotingPeriod : Int
  deriving DecidableEq, Repr

structure TallyParams where
  Quorum : Dec
  Threshold : Dec
  Veto : Dec
  deriving DecidableEq, Repr

/-- A day of deposits for 2000 units of power, five days of voting, and a third for
quorum and veto, a half to pass. -/
def DefaultDepositParams : DepositParams :=
  ⟨[⟨NativeTokenName, 2000 * 1000000000000⟩], 24 * 3600 * 1000000000⟩

def DefaultVotingParams : VotingParams := ⟨5 * 24 * 3600 * 1000000000⟩

def DefaultTallyParams : TallyParams := ⟨NewDecWithPrec 334 3, NewDecWithPrec 5 1, NewDecWithPrec 334 3⟩

end Gov

end Dipper
