import AlgodRust.Agreement.ProposalStore
/-!
# Player — the agreement state machine

The player holds the round, period and step it is in and turns events into actions; the router holds the proposal
manager and the vote aggregator it consults.  `submitTop` is one event, with the consensus parameters in force for it.

The router forgets old rounds whenever something is dispatched through it.  Since this depends on the player's round
alone, a query does not repeat it: `update` stands where an event comes in, where a handler writes through the router
and where the round changes.  Handlers call one another; `fuel` bounds how deep, and a handler that runs out of it
returns no result.
-/
namespace Algod
namespace Agreement

inductive TimeoutType
  | deadline
  | fastRecovery
  | filter
deriving DecidableEq, Repr, Inhabited

structure Deadline where
  duration : Duration
  timeoutType : TimeoutType
deriving DecidableEq, Repr, Inhabited

/-- Payloads that wait for the proposal-vote they came with to be verified. -/
structure ProposalTable where
  pending : FinMap Nat MessageEvent
  nextSeq : Nat

def ProposalTable.push (t : ProposalTable) (tail : Option MessageEvent) : ProposalTable × Nat :=
  let seq := t.nextSeq + 1
  match tail with
  | none => ({ t with nextSeq := seq }, seq)
  | some e => (⟨t.pending.insert seq e, seq⟩, seq)

def ProposalTable.pop (t : ProposalTable) (seq : Nat) : ProposalTable × Option MessageEvent :=
  ({ t with pending := t.pending.erase seq }, t.pending.lookup seq)

structure Player where
  round : Round
  period : Period
  step : Step
  lastConcluding : Step
  deadline : Deadline
  napping : Bool
  fastRecoveryDeadline : Duration
  pending : ProposalTable
  lowestCredentialArrivals : CredentialArrivalHistory
  dynamicFilterTimeout : Duration

structure RootRouter where
  proposalManager : ProposalManager
  voteAggregator : VoteAggregator

/-- The player with the router it dispatches through. -/
structure Machine where
  player : Player
  router : RootRouter

/-- Forget the rounds from which no credential can arrive any more. -/
def RootRouter.update (router : RootRouter) (playerRound : Round) : RootRouter where
  proposalManager := router.proposalManager.retainRoundsFrom (playerRound - credentialRoundLag)
  voteAggregator := router.voteAggregator.trim (playerRound - credentialRoundLag)

namespace Machine

def update (m : Machine) : Machine := { m with router := m.router.update m.player.round }

def setProposalManager (m : Machine) (pm : ProposalManager) : Machine :=
  { m with router := { m.router with proposalManager := pm } }

def setVoteAggregator (m : Machine) (va : VoteAggregator) : Machine :=
  { m with router := { m.router with voteAggregator := va } }

/-! ## Queries -/

def store (m : Machine) (r : Round) : ProposalStore := m.router.proposalManager.store r

def stagedValue (m : Machine) (r : Round) (p : Period) : StagingValue := (m.store r).readStaging p

def pinnedValue (m : Machine) (r : Round) : StagingValue := (m.store r).readPinned

def nextThresholdStatus (m : Machine) (r : Round) (p : Period) : NextThresholdStatus :=
  (m.router.voteAggregator.roundTracker r).nextThresholdStatus p

def freshestBundle (m : Machine) (r : Round) : Option ThresholdEvent :=
  (m.router.voteAggregator.roundTracker r).freshest

def dumpVotes (m : Machine) (step : Step) : List UnauthenticatedVote :=
  (((m.router.voteAggregator.roundTracker m.player.round).trackerForPeriod m.player.period).trackerForStep
    step).handleDumpVotesRequest

def freshnessData (m : Machine) : FreshnessData :=
  ⟨m.player.round, m.player.period, m.player.step, m.player.lastConcluding⟩

def partitioned (m : Machine) : Bool := decide (partitionStep ≤ m.player.step ∨ 3 ≤ m.player.period)

/-- The payload of the staged value, else of the pinned one, to be sent out again. -/
def resendPayload (m : Machine) (r : Round) (p : Period) : List Action :=
  let transmit (payload : Option Proposal) : List Action :=
    payload.toList.map (fun pp => broadcastPayloadAction ⟨default, pp.unauthenticatedProposal⟩)
  if (m.stagedValue r p).committable then transmit (m.stagedValue r p).payload
  else if (m.pinnedValue r).committable then transmit (m.pinnedValue r).payload
  else []

/-- In a partition, send out the freshest bundle and a payload again. -/
def partitionPolicy (m : Machine) : List Action :=
  if !m.partitioned then []
  else
    let fresh := m.freshestBundle m.player.round
    let bundle : List Action := fresh.toList.map (fun te => Action.network { (default : NetworkAction) with
      t := .broadcast, tag := voteBundleTag, unauthenticatedBundle := te.bundle })
    let payload : List Action :=
      match fresh.filter (fun te => decide (te.bundle.proposal ≠ bottom)) with
      | some te => m.resendPayload te.bundle.round te.bundle.period
      | none => if m.player.period = 0 then m.resendPayload m.player.round m.player.period else []
    bundle ++ payload

/-! ## Votes -/

def attest (m : Machine) (step : Step) (proposal : ProposalValue) : Action :=
  .pseudonode ⟨.attest, m.player.round, m.player.period, step, proposal⟩

def setDeadline (m : Machine) (duration : Duration) : Machine :=
  { m with player := { m.player with deadline := ⟨duration, .deadline⟩ } }

/-- Freeze the proposal-votes of the player's period and read the proposal with the lowest credential. -/
def freezeProposal (m : Machine) : Machine × ProposalValue :=
  let m := m.update
  let s := m.store m.player.round
  let frozen := (s.tracker m.player.period).handleProposalFrozen
  (m.setProposalManager (m.router.proposalManager.setStore m.player.round (s.setTracker m.player.period frozen.1)),
    frozen.2)

/-- The value of a soft vote: the starting value of the period, a new proposal, or a proposal of an earlier period that
a quorum wanted. -/
def softVoteValue (m : Machine) (frozen : ProposalValue) : Option ProposalValue :=
  let p := m.player.period
  let nextStatus := m.nextThresholdStatus m.player.round (p - 1)
  if 0 < p ∧ !nextStatus.bottom ∧ nextStatus.proposal ≠ bottom then some nextStatus.proposal
  else if frozen = bottom then none
  else if frozen.originalPeriod < p then
    if nextStatus.proposal ≠ bottom ∧ nextStatus.proposal = frozen then some frozen else none
  else some frozen

def issueSoftVote (m : Machine) (deadlineTimeoutVal : Duration) : Machine × List Action :=
  let r := m.freezeProposal
  let m := r.1.setDeadline deadlineTimeoutVal
  (m, (m.softVoteValue r.2).toList.map (m.attest soft))

def issueCertVote (m : Machine) (e : CommittableEvent) : Action := m.attest cert e.proposal

/-- The value of a next-vote: what is staged, if its payload is there; else what the period before passed on. -/
def nextVoteValue (m : Machine) : ProposalValue :=
  let answer := m.stagedValue m.player.round m.player.period
  if answer.committable then answer.proposal
  else
    let nextStatus := m.nextThresholdStatus m.player.round (m.player.period - 1)
    if !nextStatus.bottom then nextStatus.proposal else bottom

def issueNextVote (m : Machine) (deadlineTimeoutVal : Duration) : Machine × List Action :=
  let m := m.update
  let actions := m.partitionPolicy ++ [m.attest m.player.step m.nextVoteValue]
  let upper := (Step.nextVoteRanges m.player.step deadlineTimeoutVal).2
  ({ m with player := { m.player with napping := false, deadline := ⟨upper, .deadline⟩ } }, actions)

/-- The step and value of a fast recovery vote. -/
def fastVote (m : Machine) : Step × ProposalValue :=
  let answer := m.stagedValue m.player.round m.player.period
  let nextStatus := m.nextThresholdStatus m.player.round (m.player.period - 1)
  let a : Step × ProposalValue :=
    if answer.committable then (late, answer.proposal)
    else if !nextStatus.bottom then (redo, nextStatus.proposal)
    else (down, bottom)
  if a.2 = bottom then (down, a.2) else a

def issueFastVote (m : Machine) : Machine × List Action :=
  let m := m.update
  let votes := m.dumpVotes late ++ m.dumpVotes redo ++ m.dumpVotes down
  (m, m.partitionPolicy ++
    [.network { (default : NetworkAction) with t := .broadcastVotes, unauthenticatedVotes := votes },
     m.attest m.fastVote.1 m.fastVote.2])

/-! ## Timeouts -/

/-- The first fast timeout of a period sets the clock only. -/
def handleFastTimeout (m : Machine) (e : TimeoutEvent) (params : ConsensusParams) : Machine × List Action :=
  if e.proto.err.isSome then (m, [])
  else
    let lambda := params.fastRecoveryLambda
    let k := if 0 < lambda then (m.player.fastRecoveryDeadline + lambda - 1) / lambda else 0
    let lower := k * lambda
    let upper := (k + 1) * lambda
    let range := if lower < upper then upper - lower else 1
    let delta := e.randomEntropy % range
    if m.player.fastRecoveryDeadline = 0 then
      ({ m with player := { m.player with fastRecoveryDeadline := lower + delta + lambda } }, [])
    else issueFastVote { m with player := { m.player with fastRecoveryDeadline := lower + delta } }

/-- A timeout moves the step on: the soft vote, the first next-vote, then a nap and a next-vote in turn. -/
def handleTimeout (m : Machine) (e : TimeoutEvent) (params : ConsensusParams) : Except Panic (Machine × List Action) :=
  let deadlineTimeoutVal :=
    if e.proto.err.isSome || e.proto.version.isEmpty then defaultDeadlineTimeout
    else deadlineTimeout m.player.period params
  if m.player.step = soft then
    let r := m.issueSoftVote deadlineTimeoutVal
    .ok ({ r.1 with player := { r.1.player with step := cert } }, r.2)
  else if m.player.step = cert then
    .ok (issueNextVote { m with player := { m.player with step := next } } deadlineTimeoutVal)
  else if m.player.napping then .ok (m.issueNextVote deadlineTimeoutVal)
  else
    let step := m.player.step + 1
    let (lower, upper) := Step.nextVoteRanges step deadlineTimeoutVal
    let range := (upper - lower) % u64Bound
    if range = 0 then .error .divisionByZero
    else
      .ok ({ m with player := { m.player with
              step := step, napping := true, deadline := ⟨lower + e.randomEntropy % range, .deadline⟩ } }, [])

/-! ## Rounds and periods -/

/-- At the end of an undisturbed round, note when the best credential of an earlier round arrived. -/
def updateCredentialArrivalHistory (m : Machine) : Machine × Duration :=
  if m.player.period ≠ 0 then (m, 0)
  else if m.player.round ≤ credentialRoundLag then (m, 0)
  else
    let seeker := ((m.store (m.player.round - credentialRoundLag)).tracker 0).freezer
    if !seeker.hasLowestIncludingLate then (m, 0)
    else
      let validatedAt := seeker.lowestIncludingLate.validatedAt
      ({ m with player := { m.player with
          lowestCredentialArrivals := m.player.lowestCredentialArrivals.store validatedAt } }, validatedAt)

/-- The filter timeout of the period the player is in now, with the dynamic timeout it notes. -/
def calculateFilterTimeout (player : Player) (params : ConsensusParams) : Player × Duration :=
  if player.period ≠ 0 then (player, filterTimeout player.period params)
  else if !player.lowestCredentialArrivals.full then (player, filterTimeout 0 params)
  else
    let dynamicTimeout := player.lowestCredentialArrivals.orderStatistics dynamicFilterTimeoutCredentialArrivalHistoryIdx
      + dynamicFilterTimeoutGraceInterval
    let clamped := min (max dynamicTimeout dynamicFilterTimeoutLowerBound) (filterTimeout 0 params)
    ({ player with dynamicFilterTimeout := dynamicTimeout },
      if params.dynamicFilterTimeout then clamped else filterTimeout 0 params)

/-- The player at the start of a period: the step is soft again and the filter timeout runs. -/
def startPeriod (player : Player) (params : ConsensusParams) (round : Round) (period : Period) : Player :=
  let player := { player with
    lastConcluding := player.step, round := round, period := period, step := soft, napping := false,
    fastRecoveryDeadline := 0,
    lowestCredentialArrivals :=
      if period ≠ 0 then player.lowestCredentialArrivals.reset else player.lowestCredentialArrivals }
  let r := calculateFilterTimeout player params
  { r.1 with deadline := ⟨r.2, .filter⟩ }

/-- Hand a threshold event to the proposal machine. -/
def dispatchThreshold (m : Machine) (te : ThresholdEvent) : Machine × ThresholdAnswer :=
  let m := m.update
  let r := m.router.proposalManager.handleThreshold m.player.period te
  (m.setProposalManager r.1, r.2)

def enterPeriod (m : Machine) (params : ConsensusParams) (source : ThresholdEvent) (target : Period) :
    Machine × List Action :=
  let actions := m.partitionPolicy
  let r := m.dispatchThreshold source
  let m : Machine := { r.1 with player := startPeriod r.1.player params r.1.player.round target }
  let actions := actions ++ [.rezero m.player.round]
  (m, match r.2 with
    | .committable ce => actions ++ [m.issueCertVote ce]
    | _ =>
      if source.t = .next then
        if source.proposal = bottom then
          actions ++ [.pseudonode ⟨.assemble, m.player.round, m.player.period, 0, bottom⟩]
        else actions ++ [.pseudonode ⟨.repropose, m.player.round, m.player.period, 0, source.proposal⟩]
      else actions)

/-- Enter a round, with its pipelined payload and the freshest threshold that formed in it before. -/
def enterRound (handleThreshold : Machine → ThresholdEvent → Except Panic (Machine × List Action)) (m : Machine)
    (params : ConsensusParams) (target : Round) : Except Panic (Machine × List Action) := do
  let m := m.update
  let pipelined ← m.router.proposalManager.handleNewRound m.player.period target
  let m : Machine := { m with player := startPeriod m.player params target 0 }
  let verify : List Action := pipelined.toList.map (fun ep => verifyPayloadAction
    { (default : InternalMessage) with unauthenticatedProposal := ep.unauthenticatedPayload } target ep.period ep.pinned)
  let actions : List Action := [.rezero target, .pseudonode ⟨.assemble, target, 0, 0, bottom⟩] ++ verify
  let m := m.update
  match m.freshestBundle target with
  | none => return (m, actions)
  | some te => do
    let r ← handleThreshold m te
    return (r.1, actions ++ r.2)

/-- One threshold event: a certificate ends the round if its block is there, a soft threshold is certified or starts
its period, a next-threshold starts the period after it. -/
def thresholdStep (handleThreshold : Machine → ThresholdEvent → Except Panic (Machine × List Action))
    (params : ConsensusParams) (m : Machine) (e : ThresholdEvent) : Except Panic (Machine × List Action) :=
  match e.t with
  | .cert =>
    let m := (m.dispatchThreshold e).1
    let res := m.stagedValue e.round e.period
    if res.committable then do
      let r := m.updateCredentialArrivalHistory
      let ensure : Action := .ensure ⟨res.payload.getD default, e.bundle, r.2, r.1.player.dynamicFilterTimeout⟩
      let r' ← enterRound handleThreshold r.1 params (r.1.player.round + 1)
      return (r'.1, ensure :: r'.2)
    else if m.player.period < e.period then
      let r := m.enterPeriod params e e.period
      .ok (r.1, .stageDigest e.bundle :: r.2)
    else .ok (m, [.stageDigest e.bundle])
  | .soft =>
    if e.period < m.player.period then .ok (m, [])
    else if m.player.period < e.period then .ok (m.enterPeriod params e e.period)
    else
      let r := m.dispatchThreshold e
      match r.2 with
      | .committable ce => if r.1.player.step ≤ cert then .ok (r.1, [r.1.issueCertVote ce]) else .ok (r.1, [])
      | _ => .ok (r.1, [])
  | .next =>
    if e.period < m.player.period then .ok (m, []) else .ok (m.enterPeriod params e (e.period + 1))

def handleThresholdEvent (params : ConsensusParams) :
    Nat → Machine → ThresholdEvent → Except Panic (Machine × List Action)
  | 0, _, _ => .error .outOfFuel
  | fuel + 1, m, e => thresholdStep (handleThresholdEvent params fuel) params m e

/-! ## Messages -/

/-- The relay of a payload with the proposal-vote that goes with it. -/
def relayPayload (up : UnauthenticatedProposal) (vote : Option Vote) (handle : MessageHandle) : Action :=
  .network { (default : NetworkAction) with
    t := .relay, tag := proposalPayloadTag,
    compoundMessage := ⟨(vote.map Vote.toUnauthenticated).getD default, up⟩, messageHandle := handle }

def dispatchPayload (m : Machine) (e : MessageEvent) : Except Panic (Machine × PayloadAnswer) := do
  let m := m.update
  let pm := m.router.proposalManager
  if e.t = .payloadPresent then
    let r := pm.handlePayloadPresent m.player.round m.player.period e.input.unauthenticatedProposal
    return (m.setProposalManager r.1, r.2)
  else
    let r ← pm.handlePayloadVerified m.player.round m.player.period e
    return (m.setProposalManager r.1, r.2)

/-- The part of the payload handler after a valid payload: it may complete a certificate seen before, or deserve a cert
vote. -/
def payloadAccepted (handleThreshold : Machine → ThresholdEvent → Except Panic (Machine × List Action))
    (params : ConsensusParams) (m : Machine) (e : MessageEvent) (committable : Option CommittableEvent)
    (actions : List Action) : Except Panic (Machine × List Action) :=
  match (m.freshestBundle m.player.round).filter (fun te =>
      decide (te.t = .cert ∧ te.proposal = e.input.unauthenticatedProposal.value)) with
  | some te => do
    let r := m.updateCredentialArrivalHistory
    let ensure : Action :=
      .ensure ⟨e.input.proposal.getD default, te.bundle, r.2, r.1.player.dynamicFilterTimeout⟩
    let r' ← enterRound handleThreshold r.1 params (te.bundle.round + 1)
    return (r'.1, actions ++ ensure :: r'.2)
  | none =>
    match committable with
    | some ce => if m.player.step ≤ cert then .ok (m, actions ++ [m.issueCertVote ce]) else .ok (m, actions)
    | none => .ok (m, actions)

def handlePayload (handleThreshold : Machine → ThresholdEvent → Except Panic (Machine × List Action))
    (params : ConsensusParams) (m : Machine) (e : MessageEvent) : Except Panic (Machine × List Action) := do
  let r ← m.dispatchPayload e
  let m := r.1
  let up := e.input.unauthenticatedProposal
  -- Without a handle this node is the proposer and relays its own payload.
  let own (vote : Option Vote) : List Action := if e.input.messageHandle.isNone then [relayPayload up vote none] else []
  match r.2 with
  | .malformed err => return (m, [ignoreAction e (.invalidMessage err)])
  | .rejected (some err) => return (m, [ignoreAction e err])
  | .rejected none => return (m, [])
  | .pipelined ep =>
    let ra := relayPayload up ep.vote (handleOf e)
    if ep.round = m.player.round then return (m, [verifyPayloadAction e.input ep.round ep.period ep.pinned, ra])
    else return (m, ra :: own ep.vote)
  | .accepted _ vote => payloadAccepted handleThreshold params m e none (own vote)
  | .committable ce => payloadAccepted handleThreshold params m e (some ce) (own ce.vote)

def dispatchVote (m : Machine) (params : ConsensusParams) (e : MessageEvent) : Except Panic (Machine × VoteAnswer) := do
  let m := m.update
  let va := m.router.voteAggregator
  match e.t with
  | .voteVerified =>
    let r ← va.handleVoteVerified e m.freshnessData params
    return (m.setVoteAggregator r.1, r.2)
  | .bundleVerified =>
    let r ← va.handleBundleVerified e m.freshnessData params
    return (m.setVoteAggregator r.1, r.2)
  | .bundlePresent => return (m, VoteAggregator.handleBundlePresent e m.freshnessData)
  | _ => return (m, va.handleVotePresent e m.freshnessData)

/-- The relay of a verified vote, or of the bundle behind the threshold a verified bundle reached. -/
def relayVerified (e : MessageEvent) (ans : VoteAnswer) : List Action :=
  match e.t, ans with
  | .voteVerified, _ => e.input.vote.toList.map (relayVoteAction e)
  | _, .threshold te => [.network { (default : NetworkAction) with
      t := .relay, tag := voteBundleTag, unauthenticatedBundle := te.bundle, messageHandle := handleOf e }]
  | _, _ => []

/-- Votes and bundles: a new one goes to the verifier, a verified one is relayed and its threshold handled. -/
def handleVote (handleThreshold : Machine → ThresholdEvent → Except Panic (Machine × List Action))
    (params : ConsensusParams) (m : Machine) (e : MessageEvent) : Except Panic (Machine × List Action) := do
  let r ← m.dispatchVote params e
  let m := r.1
  match r.2 with
  | .malformed err => return (m, [disconnectAction e (.invalidMessage err)])
  | .filtered err => return (m, [ignoreAction e (err.getD .filtered)])
  | ans =>
    let uv := e.input.unauthenticatedVote
    let ub := e.input.unauthenticatedBundle
    match e.t with
    | .votePresent => return (m, [verifyVoteAction e uv.rawVote.round uv.rawVote.period 0])
    | .bundlePresent => return (m, [verifyBundleAction e ub.round ub.period ub.step])
    | _ =>
      match ans with
      | .threshold te => do
        let r' ← handleThreshold m te
        return (r'.1, relayVerified e ans ++ r'.2)
      | _ => return (m, relayVerified e ans)

def dispatchProposalVote (hash : CredentialHash) (m : Machine) (e : MessageEvent) : Machine × ProposalVoteAnswer :=
  let m := m.update
  let pm := m.router.proposalManager
  if e.t = .votePresent then (m, pm.handleVotePresent e.input.unauthenticatedVote m.freshnessData)
  else
    let r := pm.handleVoteVerified hash e m.freshnessData
    (m.setProposalManager r.1, r.2)

/-- The end of the proposal-vote handler: the flag says that the vote was not handed to the verifier. -/
def proposalVoteActions (m : Machine) (e : MessageEvent) (ans : ProposalVoteAnswer) : Machine × List Action × Bool :=
  if e.t = .votePresent then
    let pushed := m.player.pending.push e.tail
    let uv := e.input.unauthenticatedVote
    ({ m with player := { m.player with pending := pushed.1 } },
      [verifyVoteAction e uv.rawVote.round uv.rawVote.period pushed.2], false)
  else
    match e.input.vote with
    | none => (m, [], true)
    | some v =>
      match ans with
      | .accepted ⟨_, _, _, some payload, true⟩ =>
        (m, [broadcastPayloadAction ⟨v.toUnauthenticated, payload.unauthenticatedProposal⟩], true)
      | _ => (m, [relayVoteAction e v], true)

def handleProposalVoteInner (hash : CredentialHash) (params : ConsensusParams) (m : Machine) (e : MessageEvent) :
    Machine × List Action × Bool :=
  let r := m.dispatchProposalVote hash e
  let m := r.1
  match r.2 with
  | .malformed err => (m, [disconnectAction e (err.getD .malformed)], true)
  | .filtered note err =>
    let ignored : Machine × List Action × Bool := (m, [ignoreAction e (err.getD .filtered)], true)
    if !params.dynamicFilterTimeout then ignored
    else match note, e.input.vote with
      | .verifiedBetterLateCredentialForTracking, some v => (m, [relayVoteAction e v], true)
      | .noLateCredentialTrackingImpact, _ => ignored
      | _, _ => m.proposalVoteActions e r.2
  | ans => m.proposalVoteActions e ans

/-- The payload that came with a proposal-vote: after verification it may wait in the table. -/
def takeTail (m : Machine) (e : MessageEvent) : Machine × Option MessageEvent :=
  if e.t = .voteVerified then
    let popped := m.player.pending.pop e.taskIndex
    ({ m with player := { m.player with pending := popped.1 } }, popped.2.or e.tail)
  else (m, e.tail)

/-- A proposal-vote, followed by the payload that came with it unless the vote went to the verifier. -/
def handleProposalVote (handleTail : Machine → MessageEvent → Except Panic (Machine × List Action))
    (hash : CredentialHash) (params : ConsensusParams) (m : Machine) (e : MessageEvent) :
    Except Panic (Machine × List Action) :=
  let r := m.handleProposalVoteInner hash params e
  if !r.2.2 then .ok (r.1, r.2.1)
  else
    match (r.1.takeTail e).2 with
    | none => .ok ((r.1.takeTail e).1, r.2.1)
    | some t => do
      let r' ← handleTail (r.1.takeTail e).1 t
      return (r'.1, r.2.1 ++ r'.2)

def messageStep (handleThreshold : Machine → ThresholdEvent → Except Panic (Machine × List Action))
    (handleTail : Machine → MessageEvent → Except Panic (Machine × List Action)) (hash : CredentialHash)
    (params : ConsensusParams) (m : Machine) (e : MessageEvent) : Except Panic (Machine × List Action) :=
  let proposalVote := decide (e.input.unauthenticatedVote.rawVote.step = propose)
  match e.t with
  | .payloadPresent => handlePayload handleThreshold params m e
  | .payloadVerified => handlePayload handleThreshold params m e
  | .bundlePresent => handleVote handleThreshold params m e
  | .bundleVerified => handleVote handleThreshold params m e
  | _ =>
    if proposalVote then handleProposalVote handleTail hash params m e
    else handleVote handleThreshold params m e

def handleMessageEvent (hash : CredentialHash) (params : ConsensusParams) :
    Nat → Machine → MessageEvent → Except Panic (Machine × List Action)
  | 0, _, _ => .error .outOfFuel
  | fuel + 1, m, e =>
    messageStep (handleThresholdEvent params fuel) (handleMessageEvent hash params fuel) hash params m e

/-! ## Events -/

def handle (hash : CredentialHash) (params : ConsensusParams) (fuel : Nat) (m : Machine) :
    ExternalEvent → Except Panic (Machine × List Action)
  | .message e => handleMessageEvent hash params fuel m e
  | .timeout e =>
    match e.t with
    | .fastTimeout => .ok (m.handleFastTimeout e params)
    | .timeout => m.handleTimeout e params
  | .roundInterruption round => enterRound (handleThresholdEvent params fuel) m params round
  | .checkpoint e => .ok (m, [.checkpoint e])

/-- One event from outside, with the parameters of its consensus version. -/
def submitTop (hash : CredentialHash) (fuel : Nat) (m : Machine) (e : ConsensusParams × ExternalEvent) :
    Except Panic (Machine × List Action) :=
  handle hash e.1 fuel m.update e.2

/-- The machine at its start in a round, with the actions it starts with. -/
def bootstrapFresh (nextRound : Round) (params : ConsensusParams) : Machine × List Action :=
  ({ player :=
      { round := nextRound, period := 0, step := soft, lastConcluding := 0,
        deadline := ⟨filterTimeout 0 params, .filter⟩, napping := false, fastRecoveryDeadline := 0,
        pending := ⟨∅, 0⟩,
        lowestCredentialArrivals := CredentialArrivalHistory.new dynamicFilterCredentialArrivalHistory,
        dynamicFilterTimeout := 0 }
     router := ⟨.empty, .empty⟩ },
   [.pseudonode ⟨.assemble, nextRound, 0, 0, bottom⟩, .rezero nextRound])

end Machine

end Agreement
end Algod
