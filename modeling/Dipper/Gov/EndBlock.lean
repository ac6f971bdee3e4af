import Dipper.Gov.Tally
import Dipper.Lib.Runs

/-!
# The governance end-block, messages and genesis

`EndBlocker` of `gov/abci.go`: proposals whose deposit period ended are deleted with their
deposits burned; proposals whose voting period ended are tallied, their deposits refunded or
burned, and a passing one is executed by its route's handler. Both loops clear the
software-upgrade flag when the proposal is an upgrade. The three messages of `handler.go` are
delivered atomically, as the staking messages are. `InitGenesis` and `ExportGenesis` of
`genesis.go` rebuild the store from its proposals, deposits and votes.
-/

namespace Dipper

namespace Gov

open Dec

/-- The eight-byte little-endian encoding of a proposal id in the queue keys. -/
def proposalIDBytes (proposalID : Nat) : Bytes := (natToBytesFixed 8 proposalID).reverse

/-- The proposal ids of a queue with an end time not after `now`, as the queue
iterators visit them: by time, then by the bytes of the id. -/
def matureProposals (q : AList (fun _ : Int × Nat => Unit)) (now : Int) : List Nat :=
  ((q.keys.filter fun k => k.1 ≤ now).insertionSort fun a b =>
    a.1 < b.1 ∨ (a.1 = b.1 ∧ proposalIDBytes a.2 ≤ proposalIDBytes b.2)).map (·.2)

/-- The deposit-period loop of `EndBlocker`. -/
def endInactive (proposalID : Nat) : GM Unit := do
  let some proposal ← GetProposal proposalID | panicG "proposal does not exist"
  DeleteProposal proposalID
  DeleteDeposits proposalID
  if proposal.Content.ProposalType = ProposalTypeSoftwareUpgrade then SoftwareUpgradeClear

/-- The voting-period loop of `EndBlocker`: the route's handler decides between
passed and failed; a route that is gone panics. -/
def endActive (router : Router) (sk : Staking.State) (proposalID : Nat) : GM Unit := do
  let some proposal ← GetProposal proposalID | panicG "proposal does not exist"
  let (passes, burnDeposits, tallyResults) ← tally sk proposal
  if burnDeposits then DeleteDeposits proposalID else RefundDeposits proposalID
  let status ← if passes then do
      let some handler := router proposal.Content.ProposalRoute | panicG "route does not exist"
      pure (match handler proposal.Content proposalID proposal.Proposer with
        | .ok () => ProposalStatus.StatusPassed
        | .error _ => .StatusFailed)
    else pure .StatusRejected
  SetProposal { proposal with Status := status, FinalTallyResult := tallyResults }
  RemoveFromActiveProposalQueue proposalID proposal.VotingEndTime
  if proposal.Content.ProposalType = ProposalTypeSoftwareUpgrade then SoftwareUpgradeClear

def EndBlocker (router : Router) (sk : Staking.State) : GM Unit := do
  (matureProposals (← get).inactiveQueue (← get).time).forM endInactive
  (matureProposals (← get).activeQueue (← get).time).forM (endActive router sk)

/-! ### Messages -/

inductive Msg
  | MsgSubmitProposal (Content : Content) (InitialDeposit : Coins) (Proposer : Address)
  | MsgDeposit (ProposalID : Nat) (Depositor : Address) (Amount : Coins)
  | MsgVote (ProposalID : Nat) (Voter : Address) (Option : VoteOption)
  deriving DecidableEq, Repr

/-- `ValidateBasic`, with the proposal types the other modules register. -/
def Msg.ValidateBasic (registered : List String) : Msg → Except Err Unit
  | MsgSubmitProposal content initialDeposit proposer => do
    if proposer.isEmpty then throw .InvalidAddress
    if !Coins.IsValid initialDeposit then throw .InvalidCoins
    if IsAnyNegative initialDeposit then throw .InvalidCoins
    if !IsValidProposalType registered content.ProposalType then throw .InvalidProposalType
    content.ValidateBasic
  | MsgDeposit _ depositor amount => do
    if depositor.isEmpty then throw .InvalidAddress
    if !Coins.IsValid amount then throw .InvalidCoins
    if IsAnyNegative amount then throw .InvalidCoins
  | MsgVote _ voter option => do
    if voter.isEmpty then throw .InvalidAddress
    if !ValidVoteOption option then throw .InvalidVote

def NewHandler (router : Router) : Msg → GM Unit
  | .MsgSubmitProposal content initialDeposit proposer => do
    let proposal ← SubmitProposal router content proposer
    discard <| AddDeposit proposal.ProposalID proposer initialDeposit
  | .MsgDeposit proposalID depositor amount => discard <| AddDeposit proposalID depositor amount
  | .MsgVote proposalID voter option => AddVote proposalID voter option

/-- A message delivered in a transaction; the handler's writes are kept only when
it succeeds. -/
def DeliverMsg (router : Router) (registered : List String) (msg : Msg) (s : State) :
    Except String (Option Err × State) :=
  match msg.ValidateBasic registered with
  | .error e => .ok (some e, s)
  | .ok () => do
    let (r, s') ← (NewHandler router msg).run.run s
    match r with
    | .ok () => pure (none, s')
    | .error e => pure (some e, s)

/-! ### Genesis -/

structure GenesisState where
  StartingProposalID : Nat
  Deposits : List Deposit
  Votes : List Vote
  Proposals : List Proposal
  DepositParams : DepositParams
  VotingParams : VotingParams
  TallyParams : TallyParams
  deriving DecidableEq, Repr

/-- `ExportGenesis`: the proposals below the next id, in order, with their deposits
and votes. -/
def ExportGenesis (s : State) : GenesisState :=
  let proposals := match s.proposalID with
    | none => []
    | some maxProposalID => (List.range maxProposalID).filterMap s.proposals.lookup
  ⟨s.proposalID.getD 0, proposals.flatMap fun p => ofProposal s.deposits p.ProposalID,
    proposals.flatMap fun p => ofProposal s.votes p.ProposalID, proposals, s.depositParams, s.votingParams,
    s.tallyParams⟩

/-- `InitGenesis` on an empty store, with the bank as the other modules' genesis left
it: the queues are rebuilt from each proposal's status, and a module account
without coins is given the deposits. -/
def InitGenesis (data : GenesisState) (accounts : AList (fun _ : Address => Coins)) (moduleCoins supply : Coins)
    (height time : Int) : State :=
  let deposits := data.Deposits.foldl (fun m d => m.insert (d.ProposalID, d.Depositor) d) ∅
  let totalDeposits := data.Deposits.foldl (fun total d => safeAdd total d.Amount) []
  let votes := data.Votes.foldl (fun m v => m.insert (v.ProposalID, v.Voter) v) ∅
  let inactiveQueue := data.Proposals.foldl (fun q p =>
    if p.Status = .StatusDepositPeriod then q.insert (p.DepositEndTime, p.ProposalID) () else q) ∅
  let activeQueue := data.Proposals.foldl (fun q p =>
    if p.Status = .StatusVotingPeriod then q.insert (p.VotingEndTime, p.ProposalID) () else q) ∅
  let proposals := data.Proposals.foldl (fun m p => m.insert p.ProposalID p) ∅
  ⟨proposals, deposits, votes, inactiveQueue, activeQueue, false, some data.StartingProposalID,
    data.DepositParams, data.VotingParams, data.TallyParams, accounts,
    if Coins.IsZero moduleCoins then totalDeposits else moduleCoins, supply, height, time⟩

/-- The re-genesis of a state: its export, imported on a fresh store with the bank as
it was. -/
def reGenesis (s : State) : State :=
  InitGenesis (ExportGenesis s) s.accounts s.moduleCoins s.supply s.height s.time

/-! ### Runs -/

inductive Event
  | Deliver (msg : Msg)
  /-- The end-block, over the staking state of the block. -/
  | EndBlock (sk : Staking.State)
  | NewBlock (time : Int)

def Event.apply (router : Router) (registered : List String) : Event → State → Except String State
  | .Deliver msg, s => (DeliverMsg router registered msg s).map (·.2)
  | .EndBlock sk, s => ((EndBlocker router sk).run.run s).map (·.2)
  | .NewBlock time, s => .ok { s with height := s.height + 1, time := time }

/-- Block times do not go back. -/
def Event.Admissible : Event → State → Prop
  | .NewBlock time, s => s.time ≤ time
  | _, _ => True

instance instDecidableAdmissible (e : Event) (s : State) : Decidable (e.Admissible s) := by
  cases e <;> unfold Event.Admissible <;> infer_instance

/-- The states reached from a genesis without proposals, deposits or votes, or from
the re-genesis of a reachable state. -/
inductive Reachable (router : Router) (registered : List String) : State → Prop
  | genesis (data : GenesisState) (accounts moduleCoins supply height time) :
      data.Proposals = [] → data.Deposits = [] → data.Votes = [] →
      Reachable router registered (InitGenesis data accounts moduleCoins supply height time)
  | reGenesis {s : State} : Reachable router registered s → Reachable router registered (reGenesis s)
  | step {s s' : State} (e : Event) : Reachable router registered s → e.Admissible s →
      e.apply router registered s = .ok s' → Reachable router registered s'

def runEvents (router : Router) (registered : List String) : State → List Event → Except String State :=
  Runs.run (Event.apply router registered) Event.Admissible

theorem Reachable.stepClosed {router : Router} {registered : List String} :
    Runs.StepClosed (Event.apply router registered) Event.Admissible (Reachable router registered) :=
  fun _ _ e hs hadm happ => .step e hs hadm happ

/-! ### The upgrade flag across a re-genesis -/

/-- The governance route alone, accepting upgrades to version 1 from anyone. -/
def upgradeRouter : Router := fun route =>
  if route = RouterKey then some (NewGovProposalHandler ⟨(· = 1), fun _ => true, false, 1⟩) else none

/-- A genesis with the default params, no proposals, and \[1\] holding 10¹⁵ bond-denom
coins. -/
def upgradeGenesis : State :=
  InitGenesis ⟨1, [], [], [], DefaultDepositParams, DefaultVotingParams, DefaultTallyParams⟩
    ((∅ : AList (fun _ : Address => Coins)).insert [1] [⟨NativeTokenName, 1000000000000000⟩]) []
    [⟨NativeTokenName, 1000000000000000⟩] 1 0

/-- A software upgrade to version 1 with the given title. -/
def upgradeProposal (title : String) : Content :=
  .SoftwareUpgradeProposal title "upgrade" 1 "v1" 10 (NewDecWithPrec 9 1)

/-- After \[1\] submits an upgrade proposal, the chain is exported and restarted:
the proposal is back in its deposit period but the flag is not, and a second
upgrade proposal is accepted next to it. -/
theorem InitGenesis_drops_upgrade_flag :
    ∃ s, Reachable upgradeRouter [] s ∧
      (s.proposals.lookup 1).map (fun p => (p.Status, p.Content.ProposalType)) =
        some (.StatusDepositPeriod, ProposalTypeSoftwareUpgrade) ∧
      s.softwareUpgrade = false ∧
      ((DeliverMsg upgradeRouter [] (.MsgSubmitProposal (upgradeProposal "second") [] [1]) s).map
        fun r => (r.1, (r.2.proposals.lookup 2).map (·.Content.ProposalType))) =
          .ok (none, some ProposalTypeSoftwareUpgrade) := by
  have hgen : Reachable upgradeRouter [] upgradeGenesis := .genesis _ _ _ _ _ _ rfl rfl rfl
  obtain ⟨s₀, hs₀, hproj⟩ := Runs.exists_of_run Reachable.stepClosed hgen
    [.Deliver (.MsgSubmitProposal (upgradeProposal "first") [] [1])] (by decide +kernel) fun s₀ hrun => by
      have h : (runEvents upgradeRouter [] upgradeGenesis
          [.Deliver (.MsgSubmitProposal (upgradeProposal "first") [] [1])]).map (fun s₀ =>
            let s := reGenesis s₀
            ((s.proposals.lookup 1).map (fun p => (p.Status, p.Content.ProposalType)), s.softwareUpgrade,
              (DeliverMsg upgradeRouter [] (.MsgSubmitProposal (upgradeProposal "second") [] [1]) s).map
                fun r => (r.1, (r.2.proposals.lookup 2).map (·.Content.ProposalType)))) =
          .ok (some (.StatusDepositPeriod, ProposalTypeSoftwareUpgrade), false,
            .ok (none, some ProposalTypeSoftwareUpgrade)) := by
        decide +kernel
      rw [runEvents, hrun] at h
      exact Except.ok.inj h
  simp only [Prod.mk.injEq] at hproj
  exact ⟨reGenesis s₀, hs₀.reGenesis, hproj.1, hproj.2.1, hproj.2.2⟩

end Gov

end Dipper
