import AlgodRust.Agreement.Types
import AlgodRust.Lib.FinMap
import Mathlib.Data.List.Sort
/-!
# Events — what the player is told and what it asks for

Messages before and after verification, timeouts and interruptions on one side; network, crypto, ledger and pseudonode
actions on the other.  Between them the freshness rules that decide which votes, proposal-votes and bundles are worth
looking at, and the timeouts of the steps.

A proposed block enters agreement only through its round and its two digests, so these stand in `UnauthenticatedProposal`
in place of the block.  The texts of the errors are the constructors of `Reason`.
-/
namespace Algod
namespace Agreement

/-! ## Messages -/

/-- An opaque reference to the peer a message came from. -/
abbrev MessageHandle := Option Nat

structure ConsensusVersionView where
  err : Option String
  version : String
deriving DecidableEq, Repr, Inhabited

/-- A proposal payload: the block, as its round and digests, and its original period and proposer. -/
structure UnauthenticatedProposal where
  blockRound : Round
  blockDigest : Digest
  encodingDigest : Digest
  originalPeriod : Period
  originalProposer : Address
  receivedAt : Duration
deriving DecidableEq, Repr, Inhabited

def UnauthenticatedProposal.value (up : UnauthenticatedProposal) : ProposalValue :=
  ⟨up.originalPeriod, up.originalProposer, up.blockDigest, up.encodingDigest⟩

/-- A validated payload. -/
structure Proposal where
  unauthenticatedProposal : UnauthenticatedProposal
  validatedAt : Duration
  receivedAt : Duration
deriving DecidableEq, Repr, Inhabited

structure CompoundMessage where
  vote : UnauthenticatedVote
  proposal : UnauthenticatedProposal
deriving DecidableEq, Repr, Inhabited

/-- Why a message was filtered, rejected or found malformed. -/
inductive Reason
  | verifier (text : String)
  | staleProposal (player vote : Period)
  | prematureProposal (player vote : Period)
  | prematureProposalNextRound (vote : Period)
  | proposalBadRound (player vote : Round)
  | staleVote (descr : String) (mine vote : Step)
  | prematureVote (descr : String) (mine vote : Step)
  | voteBadRound (player vote : Round)
  | futureVoteBadPeriod (player : Round) (vote : RawVote)
  | voteBadPeriod (player vote : Period)
  | bundleOtherRound (player bundle : Round)
  | staleBundle (player bundle : Period)
  | bundleDueToAge (sub : Reason)
  | voteAlreadySent (vote : RawVote)
  | missingVerifiedVote
  | noSignificantChange (round : Round) (period : Period) (step : Step) (proposal : ProposalValue)
  | proposalSenderDup (sender : Address) (round : Round) (period : Period)
  | alreadyStaged
  | seekerFrozen
  | seekerNotLess (new lowest : Address)
  | proposalFiltered (sub : Reason)
  | proposalFilteredDueToAge (sub : Reason)
  | proposalIgnoredDueToAge (sub : Reason)
  | proposalVoteAlreadySent (vote : RawVote)
  | verifiedWithoutVote
  | noAssemblerOnPresent
  | noAssemblerOnVerified
  | alreadyAssembled
  | alreadyFilled
  | invalidMessage (sub : Option Reason)
  | malformed
  | filtered
deriving Repr

inductive MessageType
  | votePresent
  | voteVerified
  | payloadPresent
  | payloadVerified
  | bundlePresent
  | bundleVerified
deriving DecidableEq, Repr, Inhabited

structure InternalMessage where
  messageHandle : MessageHandle
  vote : Option Vote
  proposal : Option Proposal
  verifiedBundleVotes : List Vote
  unauthenticatedVote : UnauthenticatedVote
  unauthenticatedProposal : UnauthenticatedProposal
  unauthenticatedBundle : UnauthenticatedBundle
deriving DecidableEq, Repr, Inhabited

/-- A message with the outcome of its verification.  The tail is the payload sent together with a proposal-vote. -/
structure MessageEvent where
  t : MessageType
  input : InternalMessage
  err : Option Reason
  taskIndex : Nat
  tail : Option MessageEvent
  cancelled : Bool
  proto : ConsensusVersionView

instance : Inhabited MessageEvent := ⟨⟨default, default, none, 0, none, false, default⟩⟩

inductive TimeoutKind
  | timeout
  | fastTimeout
deriving DecidableEq, Repr

structure TimeoutEvent where
  t : TimeoutKind
  randomEntropy : Nat
  round : Round
  proto : ConsensusVersionView
deriving DecidableEq, Repr

structure CheckpointEvent where
  round : Round
  period : Period
  step : Step
  err : Option Reason
deriving Repr

/-- An event from outside the state machine.  Threshold events come from within only. -/
inductive ExternalEvent
  | message (e : MessageEvent)
  | timeout (e : TimeoutEvent)
  | roundInterruption (round : Round)
  | checkpoint (e : CheckpointEvent)

/-! ## Actions -/

inductive NetworkActionType
  | ignore
  | broadcast
  | relay
  | disconnect
  | broadcastVotes
deriving DecidableEq, Repr, Inhabited

structure NetworkAction where
  t : NetworkActionType
  tag : String
  unauthenticatedVote : UnauthenticatedVote
  unauthenticatedBundle : UnauthenticatedBundle
  compoundMessage : CompoundMessage
  unauthenticatedVotes : List UnauthenticatedVote
  err : Option Reason
  messageHandle : MessageHandle
deriving Repr, Inhabited

inductive CryptoActionType
  | verifyVote
  | verifyPayload
  | verifyBundle
deriving DecidableEq, Repr, Inhabited

structure CryptoAction where
  t : CryptoActionType
  m : InternalMessage
  proposal : ProposalValue
  round : Round
  period : Period
  step : Step
  pinned : Bool
  taskIndex : Nat
deriving Repr, Inhabited

inductive PseudonodeActionType
  | attest
  | assemble
  | repropose
deriving DecidableEq, Repr

structure PseudonodeAction where
  t : PseudonodeActionType
  round : Round
  period : Period
  step : Step
  proposal : ProposalValue
deriving DecidableEq, Repr

/-- A certificate has the fields of the bundle it is made from. -/
abbrev Certificate := UnauthenticatedBundle

structure EnsureAction where
  payload : Proposal
  certificate : Certificate
  voteValidatedAt : Duration
  dynamicFilterTimeout : Duration
deriving Repr

inductive Action
  | network (a : NetworkAction)
  | crypto (a : CryptoAction)
  | ensure (a : EnsureAction)
  | stageDigest (certificate : Certificate)
  | rezero (round : Round)
  | pseudonode (a : PseudonodeAction)
  | checkpoint (a : CheckpointEvent)
deriving Repr

def agreementVoteTag : String := "AV"
def proposalPayloadTag : String := "PP"
def voteBundleTag : String := "VB"

def handleOf (e : MessageEvent) : MessageHandle := e.input.messageHandle

def ignoreAction (e : MessageEvent) (err : Reason) : Action :=
  .network { (default : NetworkAction) with t := .ignore, err := some err, messageHandle := handleOf e }

def disconnectAction (e : MessageEvent) (err : Reason) : Action :=
  .network { (default : NetworkAction) with t := .disconnect, err := some err, messageHandle := handleOf e }

def relayVoteAction (e : MessageEvent) (v : Vote) : Action :=
  .network { (default : NetworkAction) with
    t := .relay, tag := agreementVoteTag, unauthenticatedVote := v.toUnauthenticated, messageHandle := handleOf e }

def broadcastPayloadAction (m : CompoundMessage) : Action :=
  .network { (default : NetworkAction) with t := .broadcast, tag := proposalPayloadTag, compoundMessage := m }

def verifyVoteAction (e : MessageEvent) (r : Round) (p : Period) (taskIndex : Nat) : Action :=
  .crypto { (default : CryptoAction) with t := .verifyVote, m := e.input, round := r, period := p, taskIndex }

def verifyPayloadAction (m : InternalMessage) (r : Round) (p : Period) (pinned : Bool) : Action :=
  .crypto { (default : CryptoAction) with t := .verifyPayload, m, round := r, period := p, pinned }

def verifyBundleAction (e : MessageEvent) (r : Round) (p : Period) (s : Step) : Action :=
  .crypto { (default : CryptoAction) with t := .verifyBundle, m := e.input, round := r, period := p, step := s }

/-! ## Freshness -/

/-- What the freshness rules know of the player. -/
structure FreshnessData where
  playerRound : Round
  playerPeriod : Period
  playerStep : Step
  playerLastConcluding : Step
deriving DecidableEq, Repr, Inhabited

def bigLambda : Duration := Duration.fromMillis 15000
def smallLambda : Duration := Duration.fromMillis 2000
def defaultDeadlineTimeout : Duration := bigLambda + smallLambda
def partitionStep : Step := next + 3

def dynamicFilterCredentialArrivalHistory : Nat := 40
def dynamicFilterTimeoutLowerBound : Duration := Duration.fromMillis 2500
def dynamicFilterTimeoutCredentialArrivalHistoryIdx : Nat := 37
def dynamicFilterTimeoutGraceInterval : Duration := Duration.fromMillis 50
def minCredentialRoundLag : Nat := 8

/-- How many rounds after its own a credential may still arrive. -/
def credentialRoundLag : Nat :=
  let twoSmallLambda := 2 * 2000
  let lowerBound := 2500
  let lag := max (twoSmallLambda / lowerBound) minCredentialRoundLag
  if lag * lowerBound < twoSmallLambda then lag + 1 else lag

def filterTimeout (p : Period) (params : ConsensusParams) : Duration :=
  if p = 0 then params.agreementFilterTimeoutPeriod0 else params.agreementFilterTimeout

def deadlineTimeout (p : Period) (params : ConsensusParams) : Duration :=
  if p = 0 then params.agreementDeadlineTimeoutPeriod0 else defaultDeadlineTimeout

/-- The time bounds of a next-vote: each step after the first doubles the extra time. -/
def Step.nextVoteRanges (s : Step) (deadlineTimeout : Duration) : Duration × Duration :=
  let rec doubled : Nat → Duration → Duration → Duration × Duration
    | 0, lower, extra => (lower, lower + extra)
    | n + 1, lower, extra => doubled n (lower + extra) (extra * 2)
  doubled (s - next) deadlineTimeout (Duration.fromMillis 2000)

def proposalFresh (fresh : FreshnessData) (vote : UnauthenticatedVote) : Except Reason Unit :=
  let round := vote.rawVote.round
  let period := vote.rawVote.period
  if round = fresh.playerRound then
    if fresh.playerPeriod ≠ 0 ∧ fresh.playerPeriod - 1 > period then
      .error (.staleProposal fresh.playerPeriod period)
    else if fresh.playerPeriod + 1 < period then .error (.prematureProposal fresh.playerPeriod period)
    else .ok ()
  else if round = fresh.playerRound + 1 then
    if period ≠ 0 then .error (.prematureProposalNextRound period) else .ok ()
  else .error (.proposalBadRound fresh.playerRound round)

def voteStepFresh (descr : String) (mine vote : Step) : Except Reason Unit :=
  if vote ≤ next then .ok ()
  else if late ≤ vote then .ok ()
  else if mine ≠ 0 ∧ mine - 1 > vote then .error (.staleVote descr mine vote)
  else if mine + 1 < vote then .error (.prematureVote descr mine vote)
  else .ok ()

/-- Votes of the player's round are looked at for its period and the two beside it, votes of the next round for
period 0 only. -/
def voteFresh (fresh : FreshnessData) (vote : UnauthenticatedVote) : Except Reason Unit :=
  let round := vote.rawVote.round
  let period := vote.rawVote.period
  let step := vote.rawVote.step
  if fresh.playerRound ≠ round ∧ fresh.playerRound + 1 ≠ round then .error (.voteBadRound fresh.playerRound round)
  else if fresh.playerRound + 1 = round then
    if 0 < period then .error (.futureVoteBadPeriod fresh.playerRound vote.rawVote)
    else voteStepFresh "from next round" 0 step
  -- In period 0 the previous period wraps around to the largest one, which is no period of a vote here.
  else if fresh.playerPeriod ≠ 0 ∧ period = fresh.playerPeriod - 1 then
    voteStepFresh "from previous period" fresh.playerLastConcluding step
  else if period = fresh.playerPeriod then voteStepFresh "from period" fresh.playerStep step
  else if period = fresh.playerPeriod + 1 then voteStepFresh "from next period" soft step
  else .error (.voteBadPeriod fresh.playerPeriod period)

def bundleFresh (fresh : FreshnessData) (b : UnauthenticatedBundle) : Except Reason Unit :=
  if fresh.playerRound ≠ b.round then .error (.bundleOtherRound fresh.playerRound b.round)
  else if fresh.playerPeriod ≠ 0 ∧ fresh.playerPeriod - 1 > b.period then
    .error (.staleBundle fresh.playerPeriod b.period)
  else .ok ()

/-- Whether an old proposal-vote of period 0 is still wanted for the history of arrival times. -/
def proposalUsefulForCredentialHistory (curRound : Round) (vote : UnauthenticatedVote) : Bool :=
  decide (vote.rawVote.round < curRound ∧ curRound ≤ vote.rawVote.round + credentialRoundLag ∧
    vote.rawVote.period = 0 ∧ vote.rawVote.step = 0 ∧ 0 < dynamicFilterCredentialArrivalHistory)

/-! ## Credentials and their arrival -/

/-- The two hashes that order credentials: of a hashable credential, and the old one of the VRF output and a counter. -/
structure CredentialHash where
  domainSeparated : HashableCredential → Digest
  legacy : Digest → Nat → Digest

/-- The lowest of the hashes for the counters `1` to `weight`, read as a number; `0` when there is none. -/
def Credential.lowestOutput (hash : CredentialHash) (c : Credential) : Nat :=
  let output (i : Nat) : Nat :=
    (if c.domainSeparationEnabled then hash.domainSeparated { c.hashable with iter := i }
     else hash.legacy c.vrfOut i).bytes.toNat
  (((List.range' 1 c.weight).map output).min?).getD 0

def Credential.less (hash : CredentialHash) (c d : Credential) : Bool :=
  decide (c.lowestOutput hash < d.lowestOutput hash)

/-- A circular buffer of arrival times. -/
structure CredentialArrivalHistory where
  history : List Duration
  writePtr : Nat
  full : Bool
deriving DecidableEq, Repr, Inhabited

namespace CredentialArrivalHistory

def new (size : Nat) : CredentialArrivalHistory := ⟨List.replicate size 0, 0, false⟩

def store (h : CredentialArrivalHistory) (sample : Duration) : CredentialArrivalHistory :=
  if h.history.isEmpty then h
  else
    let history := h.history.set h.writePtr sample
    if h.writePtr + 1 = history.length then ⟨history, 0, true⟩
    else ⟨history, h.writePtr + 1, h.full⟩

def reset (h : CredentialArrivalHistory) : CredentialArrivalHistory := { h with writePtr := 0, full := false }

/-- The sample at an index of the sorted history; the callers check that the history is full. -/
def orderStatistics (h : CredentialArrivalHistory) (idx : Nat) : Duration :=
  (h.history.insertionSort (· ≤ ·)).getD idx 0

end CredentialArrivalHistory

end Agreement
end Algod
