import AlgodRust.Agreement.Events
import AlgodRust.Agreement.VoteTally
/-!
# VoteAggregator — the vote trackers of all rounds, periods and steps

Verified votes and bundles go down to the tracker of their step; a threshold event comes back up through the period,
which remembers the next-thresholds it saw, and the round, which lets an event pass only if it is fresher than the
freshest one of the round.

Absent trackers are read as empty ones; the source creates them on the way.  `formed` is a history of every threshold
event a step tracker emitted, newest first: no function of the model reads it, statements about runs do.
-/
namespace Algod
namespace Agreement

open Run (bind_eq_ok)

namespace ThresholdEvent

/-- The order on the threshold events of a round: certificates first, then later periods, then next-thresholds over
soft ones and next-thresholds for bottom over those for a value. -/
def fresherThan (te : ThresholdEvent) : Option ThresholdEvent → Except Panic Bool
  | none => .ok true
  | some other =>
    if te.round ≠ other.round then .error (.roundMismatch te.round other.round)
    else if other.t = .cert then .ok false
    else match te.t with
      | .soft => .ok (decide (other.period < te.period))
      | .cert => .ok true
      | .next =>
        if other.period < te.period then .ok true
        else if te.period < other.period then .ok false
        else if other.t = .soft then .ok true
        else .ok (decide (te.proposal = bottom ∧ other.proposal ≠ bottom))

end ThresholdEvent

/-! ## The trackers of a period -/

/-- The next-thresholds seen in a period: whether there was one for bottom, and the value of the others. -/
structure NextThresholdStatus where
  bottom : Bool
  proposal : ProposalValue
deriving DecidableEq, Repr

structure VoteTrackerPeriod where
  trackers : FinMap Step VoteTracker
  cached : NextThresholdStatus

namespace VoteTrackerPeriod

def empty : VoteTrackerPeriod := ⟨∅, ⟨false, Agreement.bottom⟩⟩

def trackerForStep (pt : VoteTrackerPeriod) (step : Step) : VoteTracker := FinMap.getD pt.trackers step .empty

def handleNextThreshold (pt : VoteTrackerPeriod) (te : ThresholdEvent) : VoteTrackerPeriod :=
  if te.proposal = bottom then { pt with cached := { pt.cached with bottom := true } }
  else { pt with cached := { pt.cached with proposal := te.proposal } }

def handleVoteAccepted (pt : VoteTrackerPeriod) (e : VoteAcceptedEvent) (params : ConsensusParams) :
    Except Panic (VoteTrackerPeriod × Option ThresholdEvent) := do
  let step := e.vote.rawVote.step
  let r ← (pt.trackerForStep step).handleVoteAccepted e params
  let pt' := { pt with trackers := pt.trackers.insert step r.1 }
  match r.2 with
  | none => return (pt', none)
  | some te => return (if next ≤ te.step then pt'.handleNextThreshold te else pt', some te)

end VoteTrackerPeriod

/-! ## The trackers of a round -/

structure VoteTrackerRound where
  periods : FinMap Period VoteTrackerPeriod
  freshest : Option ThresholdEvent

namespace VoteTrackerRound

def empty : VoteTrackerRound := ⟨∅, none⟩

def trackerForPeriod (rt : VoteTrackerRound) (period : Period) : VoteTrackerPeriod :=
  FinMap.getD rt.periods period .empty

def nextThresholdStatus (rt : VoteTrackerRound) (period : Period) : NextThresholdStatus :=
  (rt.trackerForPeriod period).cached

/-- Keep a threshold event if it is fresher than the freshest one; only then it is passed on. -/
def handleThreshold (rt : VoteTrackerRound) (te : ThresholdEvent) :
    Except Panic (VoteTrackerRound × Option ThresholdEvent) := do
  let fresher ← te.fresherThan rt.freshest
  if fresher then return ({ rt with freshest := some te }, some te) else return (rt, none)

/-- What an accepted vote does to the trackers of its round: the threshold event of the step, and the same event if the
round passes it on. -/
def handleVoteAccepted (rt : VoteTrackerRound) (e : VoteAcceptedEvent) (params : ConsensusParams) :
    Except Panic (VoteTrackerRound × Option ThresholdEvent × Option ThresholdEvent) := do
  let period := e.vote.rawVote.period
  let r ← (rt.trackerForPeriod period).handleVoteAccepted e params
  let rt' := { rt with periods := rt.periods.insert period r.1 }
  match r.2 with
  | none => return (rt', none, none)
  | some te => do
    let s ← rt'.handleThreshold te
    return (s.1, some te, s.2)

end VoteTrackerRound

/-! ## The aggregator -/

structure VoteAggregator where
  rounds : FinMap Round VoteTrackerRound
  formed : List ThresholdEvent

/-- What the aggregator answers to a vote or a bundle. -/
inductive VoteAnswer
  | empty
  | filtered (err : Option Reason)
  | malformed (err : Option Reason)
  | threshold (te : ThresholdEvent)

namespace VoteAggregator

def empty : VoteAggregator := ⟨∅, []⟩

def roundTracker (va : VoteAggregator) (round : Round) : VoteTrackerRound := FinMap.getD va.rounds round .empty

/-- Forget the rounds before `keepFrom`. -/
def trim (va : VoteAggregator) (keepFrom : Round) : VoteAggregator :=
  { va with rounds := FinMap.retain (fun r _ => decide (keepFrom ≤ r)) va.rounds }

def filterVote (va : VoteAggregator) (uv : UnauthenticatedVote) (fresh : FreshnessData) : Except Reason Unit := do
  voteFresh fresh uv
  let tracker := ((va.roundTracker uv.rawVote.round).trackerForPeriod uv.rawVote.period).trackerForStep uv.rawVote.step
  if tracker.handleVoteFilterRequest uv.rawVote then .error (.voteAlreadySent uv.rawVote) else .ok ()

def filterBundle (ub : UnauthenticatedBundle) (fresh : FreshnessData) : Except Reason Unit :=
  (bundleFresh fresh ub).mapError .bundleDueToAge

/-- Hand an accepted vote to the tracker of its round. -/
def deliver (va : VoteAggregator) (params : ConsensusParams) (v : Vote) (proto : String) :
    Except Panic (VoteAggregator × Option ThresholdEvent) := do
  let r ← (va.roundTracker v.rawVote.round).handleVoteAccepted ⟨v, proto⟩ params
  return ({ rounds := va.rounds.insert v.rawVote.round r.1, formed := r.2.1.toList ++ va.formed }, r.2.2)

/-- Hand over the votes of a bundle; of the threshold events on the way the last one counts. -/
def replay (params : ConsensusParams) (proto : String) :
    VoteAggregator → List Vote → Option ThresholdEvent → Except Panic (VoteAggregator × Option ThresholdEvent)
  | va, [], thresh => .ok (va, thresh)
  | va, v :: vs, thresh => do
    let r ← va.deliver params v proto
    replay params proto r.1 vs (r.2.or thresh)

def handleVotePresent (va : VoteAggregator) (me : MessageEvent) (fresh : FreshnessData) : VoteAnswer :=
  match me.proto.err with
  | some err => .filtered (some (.verifier err))
  | none =>
    match va.filterVote me.input.unauthenticatedVote fresh with
    | .ok () => .empty
    | .error err => .filtered (some err)

def handleVoteVerified (va : VoteAggregator) (me : MessageEvent) (fresh : FreshnessData) (params : ConsensusParams) :
    Except Panic (VoteAggregator × VoteAnswer) :=
  if me.cancelled then .ok (va, .filtered me.err)
  else if me.proto.err.isSome then .ok (va, .filtered me.err)
  else if me.err.isSome then .ok (va, .malformed me.err)
  else match me.input.vote with
    | none => .ok (va, .malformed (some .missingVerifiedVote))
    | some v =>
      match va.filterVote v.toUnauthenticated fresh with
      | .error err => .ok (va, .filtered (some err))
      | .ok () => do
        let r ← va.deliver params v me.proto.version
        match r.2 with
        | none => return (r.1, .empty)
        | some te =>
          if te.round = fresh.playerRound then return (r.1, .threshold te)
          -- A threshold of the next round waits for that round.
          else if te.round = fresh.playerRound + 1 then return (r.1, .empty)
          else .error (.roundMismatch te.round fresh.playerRound)

def handleBundlePresent (me : MessageEvent) (fresh : FreshnessData) : VoteAnswer :=
  match filterBundle me.input.unauthenticatedBundle fresh with
  | .ok () => .empty
  | .error err => .filtered (some err)

def handleBundleVerified (va : VoteAggregator) (me : MessageEvent) (fresh : FreshnessData) (params : ConsensusParams) :
    Except Panic (VoteAggregator × VoteAnswer) :=
  let ub := me.input.unauthenticatedBundle
  if me.cancelled then .ok (va, .filtered me.err)
  else if me.proto.err.isSome then .ok (va, .filtered me.err)
  else if me.err.isSome then .ok (va, .malformed me.err)
  else match filterBundle ub fresh with
    | .error err => .ok (va, .filtered (some err))
    | .ok () => do
      let r ← replay params me.proto.version va me.input.verifiedBundleVotes none
      match r.2 with
      | some te => return (r.1, .threshold te)
      | none => return (r.1, .filtered (some (.noSignificantChange ub.round ub.period ub.step ub.proposal)))

end VoteAggregator

/-! ## What a threshold event says -/

/-- A threshold event fits its step: its kind is the step's, its bundle is of its round, and a soft or cert event is for
a value. -/
structure ThresholdEvent.Wf (te : ThresholdEvent) : Prop where
  step : te.step ≠ propose
  kind : te.t = VoteTracker.thresholdType te.step
  bundle : te.bundle.round = te.round
  value : te.t ≠ .next → te.proposal ≠ bottom

/-- The event is about the round, period and step of the vote. -/
def ThresholdEvent.IsFor (te : ThresholdEvent) (v : Vote) : Prop :=
  te.round = v.rawVote.round ∧ te.period = v.rawVote.period ∧ te.step = v.rawVote.step

theorem ThresholdEvent.Wf.next_iff {te : ThresholdEvent} (h : te.Wf) : next ≤ te.step ↔ te.t = .next := by
  have hs := h.step
  rw [h.kind]
  unfold VoteTracker.thresholdType
  split
  · rename_i h₁
    rw [h₁]
    decide
  · rename_i h₂
    rw [h₂]
    decide
  · rename_i h₁ h₂
    simp only [iff_true]
    exact Nat.lt_of_le_of_ne (Nat.lt_of_le_of_ne (Nat.pos_of_ne_zero hs) (Ne.symm h₁)) (Ne.symm h₂)

namespace VoteTracker

/-- The counted votes are all of one round. -/
def OfRound (r : Round) (vt : VoteTracker) : Prop :=
  ∀ p c a v, vt.counts.lookup p = some c → c.votes.lookup a = some v → v.rawVote.round = r

variable {vt vt' : VoteTracker} {r : Round} {e : VoteAcceptedEvent} {params : ConsensusParams}

theorem ofRound_empty (r : Round) : empty.OfRound r := by
  intro p c a v h
  cases h

theorem OfRound.addVoter (h : vt.OfRound r) {v : Vote} (hv : v.rawVote.round = r) (h' : vt.addVoter v = .ok vt') :
    vt'.OfRound r := by
  obtain ⟨-, rfl⟩ := addVoter_ok h'
  intro p c a v' hc hv'
  simp only [FinMap.lookup_insert_eq] at hc
  split at hc
  · cases hc
    simp only [FinMap.lookup_insert_eq] at hv'
    split at hv'
    · cases hv'
      exact hv
    · unfold FinMap.getD at hv'
      cases hold : vt.counts.lookup v.rawVote.proposal with
      | none => rw [hold] at hv'; cases hv'
      | some c' =>
        rw [hold] at hv'
        exact h _ _ _ _ hold hv'
  · exact h _ _ _ _ hc hv'

theorem OfRound.addEquivocator (h : vt.OfRound r) (old new : Vote) (n : Nat) :
    (vt.addEquivocator old new n).OfRound r := by
  intro p c a v hc hv
  rw [addEquivocator_counts_lookup] at hc
  split at hc
  · obtain ⟨c', hc', hif⟩ := Option.bind_eq_some_iff.1 hc
    split at hif
    · cases hif
    · cases hif
      simp only [FinMap.lookup_erase_eq] at hv
      split at hv
      · cases hv
      · exact h _ _ _ _ hc' hv
  · exact h _ _ _ _ hc hv

theorem OfRound.genBundle_round (h : vt.OfRound r) {p : ProposalValue} {b : UnauthenticatedBundle}
    (hb : vt.genBundle params p (FinMap.getD vt.counts p ⟨0, ∅⟩) = .ok b) : b.round = r := by
  obtain ⟨v₀, vs, evs, weight, total, hp, -, rfl⟩ := genBundle_ok hb
  show v₀.rawVote.round = r
  have hmem : v₀ ∈ sortedVotes (FinMap.getD vt.counts p ⟨0, ∅⟩) := by
    obtain ⟨hpre, -⟩ := packUntil_ok _ _ _ hp.votes
    exact hpre.subset (List.mem_of_head? hp.head)
  obtain ⟨a, ha⟩ := mem_sortedVotes.1 hmem
  unfold FinMap.getD at ha
  cases hc : vt.counts.lookup p with
  | none => rw [hc] at ha; cases ha
  | some c =>
    rw [hc] at ha
    exact h _ _ _ _ hc ha

theorem OfRound.emitThreshold (h : vt.OfRound r) (hr : e.vote.rawVote.round = r) (hs : e.vote.rawVote.step ≠ propose)
    {ob : Option ProposalValue} {ev : Option ThresholdEvent} (h' : vt.emitThreshold e params ob = .ok (vt', ev)) :
    vt'.OfRound r ∧ ∀ te, ev = some te → te.Wf ∧ te.IsFor e.vote := by
  unfold VoteTracker.emitThreshold at h'
  obtain ⟨oa, -, h'⟩ := bind_eq_ok.1 h'
  split at h'
  · simp only at h'
    split at h'
    · cases h'
    · rename_i hbot
      obtain ⟨b, hb, h'⟩ := bind_eq_ok.1 h'
      cases h'
      refine ⟨h, fun te hte => ?_⟩
      cases hte
      have hround : b.round = e.vote.rawVote.round := by rw [h.genBundle_round hb, hr]
      refine ⟨⟨hs, rfl, hround, fun hn hp => hbot ⟨?_, hp⟩⟩, rfl, rfl, rfl⟩
      revert hn
      simp only
      cases thresholdType e.vote.rawVote.step <;> simp
  · cases h'
    exact ⟨h, fun te hte => (by cases hte)⟩

theorem OfRound.handleVoteAccepted (h : vt.OfRound r) (hr : e.vote.rawVote.round = r) {ev : Option ThresholdEvent}
    (h' : vt.handleVoteAccepted e params = .ok (vt', ev)) :
    vt'.OfRound r ∧ ∀ te, ev = some te → te.Wf ∧ te.IsFor e.vote := by
  obtain ⟨hs, hstep⟩ := handleVoteAccepted_cases h'
  cases hstep with
  | known _ => exact ⟨h, fun te hte => (by cases hte)⟩
  | repeated _ _ _ _ => exact ⟨h, fun te hte => (by cases hte)⟩
  | second _ _ _ _ _ _ hemit =>
    split at hemit
    · cases hemit
      exact ⟨h.addEquivocator _ _ _, fun te hte => (by cases hte)⟩
    · exact (h.addEquivocator _ _ _).emitThreshold hr hs hemit
  | first _ _ _ hadd hemit => exact (h.addVoter hr hadd).emitThreshold hr hs hemit

end VoteTracker

/-! ## What the trackers of a round remember -/

/-- The next-thresholds among the threshold events of a round and period: was there one for bottom, and what is the
newest one for a value. -/
def observed (formed : List ThresholdEvent) (r : Round) (p : Period) : NextThresholdStatus :=
  let nexts := formed.filter (fun te => decide (te.t = .next ∧ te.round = r ∧ te.period = p))
  { bottom := nexts.any (fun te => decide (te.proposal = bottom))
    proposal := ((nexts.find? (fun te => decide (te.proposal ≠ bottom))).map (·.proposal)).getD bottom }

theorem observed_cons_of_ne {te : ThresholdEvent} {formed : List ThresholdEvent} {r : Round} {p : Period}
    (h : ¬ (te.t = .next ∧ te.round = r ∧ te.period = p)) : observed (te :: formed) r p = observed formed r p := by
  unfold observed
  rw [List.filter_cons_of_neg (by simpa using h)]

theorem observed_cons_self {te : ThresholdEvent} {formed : List ThresholdEvent} (h : te.t = .next) :
    observed (te :: formed) te.round te.period =
      if te.proposal = bottom then { observed formed te.round te.period with bottom := true }
      else { observed formed te.round te.period with proposal := te.proposal } := by
  unfold observed
  rw [List.filter_cons_of_pos (by simp [h])]
  by_cases hb : te.proposal = bottom
  · simp [hb]
  · simp [hb]

namespace VoteAggregator

/-- The votes are with the tracker of their round, the freshest event of a round was formed in it, and every event that
formed fits its step. -/
structure Wf (va : VoteAggregator) : Prop where
  votes : ∀ r p s, (((va.roundTracker r).trackerForPeriod p).trackerForStep s).OfRound r
  formed : ∀ te ∈ va.formed, te.Wf
  freshest : ∀ r te, (va.roundTracker r).freshest = some te → te ∈ va.formed ∧ te.round = r

/-- From `keepFrom` on, every round remembers the next-thresholds that formed in it. -/
def Remembers (va : VoteAggregator) (keepFrom : Round) : Prop :=
  ∀ r, keepFrom ≤ r → ∀ p, (va.roundTracker r).nextThresholdStatus p = observed va.formed r p

theorem wf_empty : empty.Wf where
  votes _ _ _ := VoteTracker.ofRound_empty _
  formed te h := (by cases h)
  freshest r te h := (by cases h)

theorem remembers_empty (keepFrom : Round) : empty.Remembers keepFrom := fun _ _ _ => rfl

variable {va va' : VoteAggregator} {params : ConsensusParams}

theorem roundTracker_trim_of_le {keepFrom r : Round} (h : keepFrom ≤ r) :
    (va.trim keepFrom).roundTracker r = va.roundTracker r :=
  FinMap.getD_retain_of _ _ _ (fun _ => decide_eq_true h)

theorem roundTracker_trim (va : VoteAggregator) (keepFrom r : Round) :
    (va.trim keepFrom).roundTracker r = va.roundTracker r ∨ (va.trim keepFrom).roundTracker r = .empty :=
  FinMap.getD_retain _ _ _ _

theorem Wf.trim (h : va.Wf) (keepFrom : Round) : (va.trim keepFrom).Wf where
  votes r p s := by
    rcases va.roundTracker_trim keepFrom r with hr | hr
    · rw [hr]
      exact h.votes r p s
    · rw [hr]
      exact VoteTracker.ofRound_empty r
  formed := h.formed
  freshest r te hte := by
    rcases va.roundTracker_trim keepFrom r with hr | hr
    · rw [hr] at hte
      exact h.freshest r te hte
    · rw [hr] at hte
      cases hte

theorem Remembers.trim {keepFrom from' : Round} (h : va.Remembers keepFrom) (hle : from' ≤ keepFrom) :
    (va.trim from').Remembers keepFrom := by
  intro r hr p
  rw [roundTracker_trim_of_le (Nat.le_trans hle hr)]
  exact h r hr p

theorem Remembers.mono {keepFrom keepFrom' : Round} (h : va.Remembers keepFrom) (hle : keepFrom ≤ keepFrom') :
    va.Remembers keepFrom' := fun r hr => h r (Nat.le_trans hle hr)

end VoteAggregator

/-- What an accepted vote does to the trackers of its period. -/
structure PeriodStep (pt : VoteTrackerPeriod) (v : Vote) (pt' : VoteTrackerPeriod) (emitted : Option ThresholdEvent) :
    Prop where
  votes : ∀ s, (pt'.trackerForStep s).OfRound v.rawVote.round
  event : ∀ te, emitted = some te → te.Wf ∧ te.IsFor v
  other : (∀ te, emitted = some te → te.t ≠ .next) → pt'.cached = pt.cached
  nexts : ∀ te, emitted = some te → te.t = .next → pt'.cached = (pt.handleNextThreshold te).cached

@[simp] theorem VoteTrackerPeriod.handleNextThreshold_trackers (pt : VoteTrackerPeriod) (te : ThresholdEvent) :
    (pt.handleNextThreshold te).trackers = pt.trackers := by
  unfold VoteTrackerPeriod.handleNextThreshold
  split <;> rfl

theorem VoteTrackerPeriod.handleNextThreshold_cached (pt : VoteTrackerPeriod) (te : ThresholdEvent) :
    (pt.handleNextThreshold te).cached =
      if te.proposal = bottom then { pt.cached with bottom := true } else { pt.cached with proposal := te.proposal } := by
  unfold VoteTrackerPeriod.handleNextThreshold
  split <;> rfl

theorem periodStep_of_ok {pt pt' : VoteTrackerPeriod} {v : Vote} {proto : String} {params : ConsensusParams}
    {emitted : Option ThresholdEvent} (hv : ∀ s, (pt.trackerForStep s).OfRound v.rawVote.round)
    (h : pt.handleVoteAccepted ⟨v, proto⟩ params = .ok (pt', emitted)) : PeriodStep pt v pt' emitted := by
  unfold VoteTrackerPeriod.handleVoteAccepted at h
  obtain ⟨⟨vt, em⟩, hvt, h⟩ := bind_eq_ok.1 h
  obtain ⟨hof, hem⟩ := (hv v.rawVote.step).handleVoteAccepted rfl hvt
  have htr : ∀ (pt₁ : VoteTrackerPeriod), pt₁.trackers = pt.trackers.insert v.rawVote.step vt →
      ∀ s, (pt₁.trackerForStep s).OfRound v.rawVote.round := by
    intro pt₁ hpt s
    unfold VoteTrackerPeriod.trackerForStep
    rw [hpt, FinMap.getD_insert]
    split
    · exact hof
    · exact hv s
  cases em with
  | none =>
    cases h
    exact ⟨htr _ rfl, fun te hte => (by cases hte), fun _ => rfl, fun te hte => (by cases hte)⟩
  | some te =>
    cases h
    have hnext := (hem te rfl).1.next_iff
    refine ⟨htr _ ?_, hem, fun hne => ?_, fun te' hte hnx => ?_⟩
    · split
      · exact VoteTrackerPeriod.handleNextThreshold_trackers _ _
      · rfl
    · rw [if_neg (fun hle => hne te rfl (hnext.1 hle))]
    · cases hte
      rw [if_pos (hnext.2 hnx), VoteTrackerPeriod.handleNextThreshold_cached,
        VoteTrackerPeriod.handleNextThreshold_cached]

/-- What an accepted vote does to the trackers of its round: the event of its step is passed on or held back, and the
freshest event is what was passed on last. -/
structure RoundStep (rt : VoteTrackerRound) (v : Vote) (rt' : VoteTrackerRound) (emitted out : Option ThresholdEvent) :
    Prop where
  votes : ∀ p s, ((rt'.trackerForPeriod p).trackerForStep s).OfRound v.rawVote.round
  event : ∀ te, emitted = some te → te.Wf ∧ te.IsFor v
  passed : out = none ∧ rt'.freshest = rt.freshest ∨ out = emitted ∧ rt'.freshest = out
  frame : ∀ p, p ≠ v.rawVote.period → rt'.trackerForPeriod p = rt.trackerForPeriod p
  period : PeriodStep (rt.trackerForPeriod v.rawVote.period) v (rt'.trackerForPeriod v.rawVote.period) emitted

theorem VoteTrackerRound.handleThreshold_ok {rt rt' : VoteTrackerRound} {te : ThresholdEvent}
    {out : Option ThresholdEvent} (h : rt.handleThreshold te = .ok (rt', out)) :
    rt'.periods = rt.periods ∧ (out = none ∧ rt'.freshest = rt.freshest ∨ out = some te ∧ rt'.freshest = out) := by
  unfold VoteTrackerRound.handleThreshold at h
  obtain ⟨b, -, h⟩ := bind_eq_ok.1 h
  split at h
  · cases h
    exact ⟨rfl, .inr ⟨rfl, rfl⟩⟩
  · cases h
    exact ⟨rfl, .inl ⟨rfl, rfl⟩⟩

theorem roundStep_of_ok {rt rt' : VoteTrackerRound} {v : Vote} {proto : String} {params : ConsensusParams}
    {emitted out : Option ThresholdEvent}
    (hv : ∀ p s, ((rt.trackerForPeriod p).trackerForStep s).OfRound v.rawVote.round)
    (h : rt.handleVoteAccepted ⟨v, proto⟩ params = .ok (rt', emitted, out)) : RoundStep rt v rt' emitted out := by
  unfold VoteTrackerRound.handleVoteAccepted at h
  obtain ⟨⟨pt, em⟩, hpt, h⟩ := bind_eq_ok.1 h
  have hp := periodStep_of_ok (hv v.rawVote.period) hpt
  have key : ∀ (rt₁ : VoteTrackerRound), rt₁.periods = rt.periods.insert v.rawVote.period pt →
      (out = none ∧ rt₁.freshest = rt.freshest ∨ out = em ∧ rt₁.freshest = out) → RoundStep rt v rt₁ em out := by
    intro rt₁ hrt hpass
    have hself : rt₁.trackerForPeriod v.rawVote.period = pt := by
      unfold VoteTrackerRound.trackerForPeriod
      rw [hrt, FinMap.getD_insert, if_pos rfl]
    have hother : ∀ p, p ≠ v.rawVote.period → rt₁.trackerForPeriod p = rt.trackerForPeriod p := by
      intro p hne
      unfold VoteTrackerRound.trackerForPeriod
      rw [hrt, FinMap.getD_insert, if_neg hne]
    refine ⟨fun p s => ?_, hp.event, hpass, hother, ?_⟩
    · by_cases hpv : p = v.rawVote.period
      · rw [hpv, hself]
        exact hp.votes s
      · rw [hother p hpv]
        exact hv p s
    · rw [hself]
      exact hp
  cases em with
  | none =>
    cases h
    exact key _ rfl (.inl ⟨rfl, rfl⟩)
  | some te =>
    obtain ⟨⟨rt₁, o⟩, hth, h⟩ := bind_eq_ok.1 h
    cases h
    obtain ⟨hper, hpass⟩ := VoteTrackerRound.handleThreshold_ok hth
    exact key _ hper hpass

namespace VoteAggregator

variable {va va' : VoteAggregator} {params : ConsensusParams} {proto : String} {v : Vote}

theorem roundTracker_insert (rounds : FinMap Round VoteTrackerRound) (formed : List ThresholdEvent)
    (r r' : Round) (rt : VoteTrackerRound) :
    (⟨rounds.insert r rt, formed⟩ : VoteAggregator).roundTracker r' =
      if r' = r then rt else FinMap.getD rounds r' .empty :=
  FinMap.getD_insert _ _ _ _ _

/-- An accepted vote adds at most one threshold event, for its own round, period and step. -/
theorem deliver_ok (hw : va.Wf) {out : Option ThresholdEvent} (h : va.deliver params v proto = .ok (va', out)) :
    va'.Wf ∧ (∀ te, out = some te → te ∈ va'.formed ∧ te.IsFor v) ∧
      (∃ emitted : Option ThresholdEvent, va'.formed = emitted.toList ++ va.formed) ∧
      (∀ keepFrom, va.Remembers keepFrom → va'.Remembers keepFrom) := by
  unfold deliver at h
  obtain ⟨⟨rt, em, o⟩, hrt, h⟩ := bind_eq_ok.1 h
  cases h
  have hs := roundStep_of_ok (hw.votes v.rawVote.round) hrt
  have hin : ∀ te, o = some te → te ∈ em.toList ++ va.formed ∧ te.IsFor v := by
    intro te hte
    rcases hs.passed with ⟨hout, -⟩ | ⟨hout, -⟩
    · rw [hout] at hte; cases hte
    · rw [hout] at hte
      exact ⟨List.mem_append_left _ (by simp [hte]), (hs.event te hte).2⟩
  refine ⟨⟨fun r p s => ?_, fun te hte => ?_, fun r te hte => ?_⟩, hin, ⟨em, rfl⟩, fun keepFrom hrem r hr p => ?_⟩
  · rw [roundTracker_insert]
    split
    · rename_i hrv
      rw [hrv]
      exact hs.votes p s
    · exact hw.votes r p s
  · rcases List.mem_append.1 hte with hte | hte
    · exact (hs.event te (by simpa using hte)).1
    · exact hw.formed te hte
  · rw [roundTracker_insert] at hte
    split at hte
    · rename_i hrv
      subst hrv
      rcases hs.passed with ⟨-, hf⟩ | ⟨-, hf⟩
      · rw [hf] at hte
        obtain ⟨hmem, hround⟩ := hw.freshest _ te hte
        exact ⟨List.mem_append_right _ hmem, hround⟩
      · rw [hf] at hte
        exact ⟨(hin te hte).1, (hin te hte).2.1⟩
    · obtain ⟨hmem, hround⟩ := hw.freshest r te hte
      exact ⟨List.mem_append_right _ hmem, hround⟩
  · have hold := hrem r hr p
    rw [roundTracker_insert]
    cases em with
    | none =>
      split
      · rename_i hrv
        subst hrv
        by_cases hpv : p = v.rawVote.period
        · subst hpv
          exact (hs.period.other (fun te hte => (by cases hte))).trans hold
        · exact (congrArg VoteTrackerPeriod.cached (hs.frame p hpv)).trans hold
      · exact hold
    | some te =>
      obtain ⟨-, htr, htp, -⟩ := hs.event te rfl
      show _ = observed (te :: va.formed) r p
      by_cases hmatch : te.t = .next ∧ te.round = r ∧ te.period = p
      · obtain ⟨hn, rfl, rfl⟩ := hmatch
        rw [if_pos htr, observed_cons_self hn, ← hold]
        show (rt.trackerForPeriod te.period).cached = _
        rw [htp, hs.period.nexts te rfl hn, VoteTrackerPeriod.handleNextThreshold_cached, htr]
        rfl
      · rw [observed_cons_of_ne hmatch, ← hold]
        split
        · rename_i hrv
          subst hrv
          by_cases hpv : p = v.rawVote.period
          · subst hpv
            refine hs.period.other (fun te' hte' hn => hmatch ?_)
            cases hte'
            exact ⟨hn, htr, htp⟩
          · exact congrArg VoteTrackerPeriod.cached (hs.frame p hpv)
        · rfl

/-- What any handler of votes does to the aggregator: it stays well formed and remembers, and events are only added. -/
structure Grows (va va' : VoteAggregator) : Prop where
  wf : va'.Wf
  formed : va.formed ⊆ va'.formed
  remembers : ∀ keepFrom, va.Remembers keepFrom → va'.Remembers keepFrom

theorem Grows.refl (hw : va.Wf) : Grows va va := ⟨hw, fun _ h => h, fun _ h => h⟩

theorem Grows.trans {va'' : VoteAggregator} (h : Grows va va') (h' : Grows va' va'') : Grows va va'' :=
  ⟨h'.wf, fun _ hm => h'.formed (h.formed hm), fun k hk => h'.remembers k (h.remembers k hk)⟩

theorem deliver_grows (hw : va.Wf) {out : Option ThresholdEvent} (h : va.deliver params v proto = .ok (va', out)) :
    Grows va va' := by
  obtain ⟨hwf, -, ⟨em, hform⟩, hrem⟩ := deliver_ok hw h
  refine ⟨hwf, ?_, hrem⟩
  rw [hform]
  exact List.subset_append_right _ _

/-- Replaying votes of one round: an event at the end was formed by one of them. -/
theorem replay_ok {round : Round} : ∀ {vs : List Vote} {va : VoteAggregator} {thresh out : Option ThresholdEvent},
    va.Wf → (∀ v ∈ vs, v.rawVote.round = round) →
    (∀ te, thresh = some te → te ∈ va.formed ∧ te.round = round) →
    replay params proto va vs thresh = .ok (va', out) →
    Grows va va' ∧ ∀ te, out = some te → te ∈ va'.formed ∧ te.round = round
  | [], va, thresh, out, hw, _, ht, h => by
    cases h
    exact ⟨.refl hw, ht⟩
  | v :: vs, va, thresh, out, hw, hv, ht, h => by
    unfold replay at h
    obtain ⟨⟨va₁, o⟩, h₁, h⟩ := bind_eq_ok.1 h
    obtain ⟨hwf, hout, -, -⟩ := deliver_ok hw h₁
    have hg := deliver_grows hw h₁
    have ht' : ∀ te, o.or thresh = some te → te ∈ va₁.formed ∧ te.round = round := by
      intro te hte
      rcases Option.or_eq_some_iff.1 hte with ho | ⟨-, ho⟩
      · obtain ⟨hmem, hfor⟩ := hout te ho
        exact ⟨hmem, hfor.1.trans (hv v List.mem_cons_self)⟩
      · obtain ⟨hmem, hr⟩ := ht te ho
        exact ⟨hg.formed hmem, hr⟩
    obtain ⟨hg', hout'⟩ := replay_ok hwf (fun u hu => hv u (List.mem_cons_of_mem _ hu)) ht' h
    exact ⟨hg.trans hg', hout'⟩

/-- **A verified vote adds to the history, and a threshold passed on is of the player's round.** -/
theorem handleVoteVerified_ok (hw : va.Wf) {me : MessageEvent} {fresh : FreshnessData} {ans : VoteAnswer}
    (h : va.handleVoteVerified me fresh params = .ok (va', ans)) :
    Grows va va' ∧ ∀ te, ans = .threshold te → te ∈ va'.formed ∧ te.round = fresh.playerRound := by
  have hsame : ∀ {a : VoteAnswer}, (∀ te, a ≠ .threshold te) →
      Grows va va ∧ ∀ te, a = .threshold te → te ∈ va.formed ∧ te.round = fresh.playerRound :=
    fun hne => ⟨.refl hw, fun te hte => absurd hte (hne te)⟩
  unfold handleVoteVerified at h
  split at h
  · cases h; exact hsame nofun
  split at h
  · cases h; exact hsame nofun
  split at h
  · cases h; exact hsame nofun
  split at h
  · cases h; exact hsame nofun
  split at h
  · cases h; exact hsame nofun
  obtain ⟨⟨va₁, o⟩, h₁, h⟩ := bind_eq_ok.1 h
  obtain ⟨-, hout, -, -⟩ := deliver_ok hw h₁
  have hg := deliver_grows hw h₁
  cases o with
  | none => cases h; exact ⟨hg, nofun⟩
  | some te =>
    simp only at h
    split at h
    · rename_i hr
      cases h
      refine ⟨hg, fun te' hte' => ?_⟩
      cases hte'
      exact ⟨(hout te rfl).1, hr⟩
    · split at h
      · cases h; exact ⟨hg, nofun⟩
      · cases h

/-- **A verified bundle adds to the history, and a threshold passed on is of the player's round.** -/
theorem handleBundleVerified_ok (hw : va.Wf) {me : MessageEvent} {fresh : FreshnessData} {ans : VoteAnswer}
    (hv : ∀ v ∈ me.input.verifiedBundleVotes, v.rawVote.round = me.input.unauthenticatedBundle.round)
    (h : va.handleBundleVerified me fresh params = .ok (va', ans)) :
    Grows va va' ∧ ∀ te, ans = .threshold te → te ∈ va'.formed ∧ te.round = fresh.playerRound := by
  have hsame : ∀ {a : VoteAnswer}, (∀ te, a ≠ .threshold te) →
      Grows va va ∧ ∀ te, a = .threshold te → te ∈ va.formed ∧ te.round = fresh.playerRound :=
    fun hne => ⟨.refl hw, fun te hte => absurd hte (hne te)⟩
  unfold handleBundleVerified at h
  simp only at h
  split at h
  · cases h; exact hsame nofun
  split at h
  · cases h; exact hsame nofun
  split at h
  · cases h; exact hsame nofun
  split at h
  · cases h; exact hsame nofun
  rename_i hfresh
  have hround : me.input.unauthenticatedBundle.round = fresh.playerRound := by
    unfold filterBundle bundleFresh at hfresh
    by_cases hne : fresh.playerRound = me.input.unauthenticatedBundle.round
    · exact hne.symm
    · rw [if_pos hne] at hfresh
      cases hfresh
  obtain ⟨⟨va₁, o⟩, h₁, h⟩ := bind_eq_ok.1 h
  obtain ⟨hg, hout⟩ := replay_ok hw hv (fun te hte => (by cases hte)) h₁
  cases o with
  | none => cases h; exact ⟨hg, nofun⟩
  | some te =>
    cases h
    refine ⟨hg, fun te' hte' => ?_⟩
    cases hte'
    exact ⟨(hout te rfl).1, (hout te rfl).2.trans hround⟩

end VoteAggregator

end Agreement
end Algod
