import AlgodRust.Agreement.Types
import AlgodRust.Lib.FinMap
import Mathlib.Data.List.Sort
/-!
# VoteTracker — the votes of one round, period and step

A tracker drops repeated votes, moves a sender of two different values to the equivocators, adds up weights and emits
a threshold event, with a bundle that proves it, when the first value reaches the step's quorum.

`packUntil` is the loop by which a bundle is cut to the quorum; `overThresholdLoop_eq_ok` says when the search for the
value over the threshold succeeds and what it finds.
-/
namespace Algod
namespace Agreement

open Run (bind_eq_ok ok_bind error_bind)

/-- Two verified votes of one sender for two proposals; the credential is that of the first vote. -/
structure EquivocationVote where
  sender : Address
  round : Round
  period : Period
  step : Step
  cred : Credential
  proposals : ProposalValue × ProposalValue
  sigs : OneTimeSignature × OneTimeSignature
deriving DecidableEq, Repr, Inhabited

def EquivocationVote.v0 (ev : EquivocationVote) : UnauthenticatedVote :=
  ⟨⟨ev.sender, ev.round, ev.period, ev.step, ev.proposals.1⟩, ⟨ev.cred.proof⟩, ev.sigs.1⟩

def EquivocationVote.v1 (ev : EquivocationVote) : UnauthenticatedVote :=
  ⟨⟨ev.sender, ev.round, ev.period, ev.step, ev.proposals.2⟩, ⟨ev.cred.proof⟩, ev.sigs.2⟩

/-- The weight of the votes for one proposal, and the votes by sender. -/
structure ProposalVoteCounter where
  count : Nat
  votes : FinMap Address Vote
deriving DecidableEq

structure VoteTracker where
  voters : FinMap Address Vote
  counts : FinMap ProposalValue ProposalVoteCounter
  equivocators : FinMap Address EquivocationVote
  equivocatorsCount : Nat
deriving DecidableEq

structure VoteAcceptedEvent where
  vote : Vote
  proto : String
deriving DecidableEq, Repr, Inhabited

/-- Take elements while the quorum is not reached; the result is what was taken and its weight. -/
def packUntil {α : Type} (reached : Nat → Bool) (weightOf : α → Nat) : Nat → List α → Except Panic (List α × Nat)
  | weight, [] => .ok ([], weight)
  | weight, a :: as =>
    if reached weight then .ok ([], weight)
    else do
      let weight' ← addU64 weight (weightOf a)
      let r ← packUntil reached weightOf weight' as
      return (a :: r.1, r.2)

/-- Heavier votes first, then the larger sender. -/
def Vote.sortsBefore (a b : Vote) : Prop :=
  b.cred.weight < a.cred.weight ∨
    (b.cred.weight = a.cred.weight ∧ b.rawVote.sender.bytes ≤ a.rawVote.sender.bytes)

instance : DecidableRel Vote.sortsBefore := fun a b => by unfold Vote.sortsBefore; infer_instance

def EquivocationVote.sortsBefore (a b : EquivocationVote) : Prop :=
  b.cred.weight < a.cred.weight ∨ (b.cred.weight = a.cred.weight ∧ b.sender.bytes ≤ a.sender.bytes)

instance : DecidableRel EquivocationVote.sortsBefore := fun a b => by
  unfold EquivocationVote.sortsBefore; infer_instance

def Vote.authenticator (v : Vote) : VoteAuthenticator := ⟨v.rawVote.sender, ⟨v.cred.proof⟩, v.sig⟩

def EquivocationVote.authenticator (ev : EquivocationVote) : EquivocationVoteAuthenticator :=
  ⟨ev.sender, ⟨ev.cred.proof⟩, ev.sigs, ev.proposals⟩

/-- The bundle of the given votes for a proposal, packed again until the quorum is reached. -/
def makeBundle (params : ConsensusParams) (target : ProposalValue) (votes : List Vote)
    (equivocationVotes : List EquivocationVote) : Except Panic UnauthenticatedBundle :=
  match votes with
  | [] => .error .bundleWithoutVotes
  | v₀ :: _ => do
    if votes.any (fun v => decide (v.rawVote.proposal ≠ target)) then .error .bundleVoteForOtherValue
    else
      let reached := Step.reachesQuorum v₀.rawVote.step params
      let packed ← packUntil reached (fun v : Vote => v.cred.weight) 0 votes
      let equi ← packUntil reached (fun ev : EquivocationVote => ev.cred.weight) packed.2 equivocationVotes
      if reached equi.2 then
        return { round := v₀.rawVote.round, period := v₀.rawVote.period, step := v₀.rawVote.step,
                 proposal := target, votes := packed.1.map Vote.authenticator,
                 equivocationVotes := equi.1.map EquivocationVote.authenticator }
      else .error (.bundleBelowQuorum equi.2 (Step.committeeThreshold v₀.rawVote.step params))

namespace VoteTracker

def empty : VoteTracker := ⟨∅, ∅, ∅, 0⟩

/-- The weight of the direct votes for a proposal. -/
def direct (vt : VoteTracker) (p : ProposalValue) : Nat :=
  match vt.counts.lookup p with
  | none => 0
  | some c => c.count

def count (vt : VoteTracker) (p : ProposalValue) : Except Panic Nat := addU64 (vt.direct p) vt.equivocatorsCount

/-- The loop of `overThreshold` over the proposals that have a vote. -/
def overThresholdLoop (vt : VoteTracker) (params : ConsensusParams) (step : Step) :
    List ProposalValue → Option ProposalValue → Except Panic (Option ProposalValue)
  | [], result => .ok result
  | p :: ps, result => do
    let c ← vt.count p
    if Step.reachesQuorum step params c then
      if result.isSome then .error .twoValuesOverThreshold
      else overThresholdLoop vt params step ps (some p)
    else overThresholdLoop vt params step ps result

/-- The proposal over the step's threshold, if there is one. -/
def overThreshold (vt : VoteTracker) (params : ConsensusParams) (step : Step) :
    Except Panic (Option ProposalValue) :=
  vt.overThresholdLoop params step vt.counts.keys none

/-- The votes of a proposal in the order a bundle takes them. -/
def sortedVotes (c : ProposalVoteCounter) : List Vote := (FinMap.values c.votes).insertionSort Vote.sortsBefore

def sortedPairs (vt : VoteTracker) : List EquivocationVote :=
  (FinMap.values vt.equivocators).insertionSort EquivocationVote.sortsBefore

def firstStep : List Vote → Step
  | [] => 0
  | v :: _ => v.rawVote.step

/-- A bundle that proves the quorum of a proposal: its own votes first, then equivocators as far as needed. -/
def genBundle (vt : VoteTracker) (params : ConsensusParams) (proposal : ProposalValue)
    (proposalVotes : ProposalVoteCounter) : Except Panic UnauthenticatedBundle := do
  let votes := sortedVotes proposalVotes
  let reached := Step.reachesQuorum (firstStep votes) params
  let packed ← packUntil reached (fun v : Vote => v.cred.weight) 0 votes
  let equi ← packUntil reached (fun ev : EquivocationVote => ev.cred.weight) packed.2 vt.sortedPairs
  makeBundle params proposal packed.1 equi.1

/-- Move the weight of a sender from the proposal it voted for before to the equivocators. -/
def addEquivocator (vt : VoteTracker) (old new : Vote) (equivocatorsCount : Nat) : VoteTracker :=
  let sender := new.rawVote.sender
  let oldProposal := old.rawVote.proposal
  { voters := vt.voters.erase sender
    counts :=
      match vt.counts.lookup oldProposal with
      | none => vt.counts
      | some c =>
        if c.count ≤ old.cred.weight then vt.counts.erase oldProposal
        else vt.counts.insert oldProposal ⟨c.count - old.cred.weight, c.votes.erase sender⟩
    equivocators := vt.equivocators.insert sender
      { sender := old.rawVote.sender, round := old.rawVote.round, period := old.rawVote.period,
        step := old.rawVote.step, cred := old.cred, proposals := (oldProposal, new.rawVote.proposal),
        sigs := (old.sig, new.sig) }
    equivocatorsCount := equivocatorsCount }

/-- Record the first vote of a sender. -/
def addVoter (vt : VoteTracker) (v : Vote) : Except Panic VoteTracker := do
  let sender := v.rawVote.sender
  let pvc := FinMap.getD vt.counts v.rawVote.proposal ⟨0, ∅⟩
  let count ← addU64 pvc.count v.cred.weight
  return { vt with
    voters := vt.voters.insert sender v
    counts := vt.counts.insert v.rawVote.proposal ⟨count, pvc.votes.insert sender v⟩ }

def thresholdType (step : Step) : ThresholdType :=
  match step with
  | 1 => .soft
  | 2 => .cert
  | _ => .next

/-- The end of `handleVoteAccepted`, after the vote was recorded: an event if the threshold was reached just now. -/
def emitThreshold (vt : VoteTracker) (e : VoteAcceptedEvent) (params : ConsensusParams)
    (overBefore : Option ProposalValue) : Except Panic (VoteTracker × Option ThresholdEvent) := do
  let step := e.vote.rawVote.step
  let overAfter ← vt.overThreshold params step
  match overBefore, overAfter with
  | none, some prop =>
    let t := thresholdType step
    if (t = .soft ∨ t = .cert) ∧ prop = bottom then .error (.bottomAtSoftOrCert step)
    else
      let bundle ← vt.genBundle params prop (FinMap.getD vt.counts prop ⟨0, ∅⟩)
      return (vt, some { t := t, round := e.vote.rawVote.round, period := e.vote.rawVote.period, step := step,
                         proposal := prop, bundle := bundle, proto := e.proto })
  | _, _ => return (vt, none)

def handleVoteAccepted (vt : VoteTracker) (e : VoteAcceptedEvent) (params : ConsensusParams) :
    Except Panic (VoteTracker × Option ThresholdEvent) := do
  let v := e.vote
  let step := v.rawVote.step
  let sender := v.rawVote.sender
  if step = propose then .error .voteAcceptedAtPropose
  else if (vt.equivocators.lookup sender).isSome then return (vt, none)
  else
    let overBefore ← vt.overThreshold params step
    match vt.voters.lookup sender with
    | some old =>
      if old.rawVote.proposal = v.rawVote.proposal then return (vt, none)
      else
        let equi ← addU64 vt.equivocatorsCount v.cred.weight
        if Step.reachesQuorum step params equi then .error (.tooManyEquivocators step equi)
        else
          let vt' := vt.addEquivocator old v equi
          if FinMap.isEmpty vt'.voters then return (vt', none)
          else vt'.emitThreshold e params overBefore
    | none =>
      let vt' ← vt.addVoter v
      vt'.emitThreshold e params overBefore

/-- Whether a vote would tell the tracker nothing new. -/
def handleVoteFilterRequest (vt : VoteTracker) (rv : RawVote) : Bool :=
  (vt.equivocators.lookup rv.sender).isSome ||
    match vt.voters.lookup rv.sender with
    | none => false
    | some v => decide (rv.proposal = v.rawVote.proposal)

/-- Every vote the tracker holds, equivocators with both of theirs. -/
def handleDumpVotesRequest (vt : VoteTracker) : List UnauthenticatedVote :=
  (FinMap.values vt.voters).map Vote.toUnauthenticated ++
    (FinMap.values vt.equivocators).flatMap (fun ev => [ev.v0, ev.v1])

end VoteTracker

/-! ## Packing -/

section Pack

variable {α : Type} {reached : Nat → Bool} {weightOf : α → Nat}

/-- The weights of a list of votes or pairs, added up. -/
def weightSum (weightOf : α → Nat) (as : List α) : Nat := (as.map weightOf).sum

@[simp] theorem weightSum_nil : weightSum weightOf [] = 0 := rfl

@[simp] theorem weightSum_cons (a : α) (as : List α) :
    weightSum weightOf (a :: as) = weightOf a + weightSum weightOf as := by
  simp [weightSum]

theorem length_le_weightSum : ∀ (as : List α), (∀ a ∈ as, 0 < weightOf a) → as.length ≤ weightSum weightOf as
  | [], _ => Nat.zero_le _
  | a :: as, h => by
    have ih := length_le_weightSum as (fun b hb => h b (List.mem_cons_of_mem _ hb))
    have ha := h a List.mem_cons_self
    rw [weightSum_cons, List.length_cons]
    omega

/-- What `packUntil` takes: a prefix, with its weight, that reaches the quorum or is everything there is. -/
theorem packUntil_ok : ∀ (as : List α) (weight : Nat) (r : List α × Nat), packUntil reached weightOf weight as = .ok r →
    r.1 <+: as ∧ r.2 = weight + weightSum weightOf r.1 ∧ (reached r.2 = true ∨ r.1 = as) ∧
      (r.1 ≠ [] → r.2 < u64Bound ∧ reached weight = false)
  | [], weight, r, h => by
    cases h
    simp
  | a :: as, weight, r, h => by
    unfold packUntil at h
    split at h
    · rename_i hr
      cases h
      simp [hr]
    · rename_i hr
      obtain ⟨weight', ha, h⟩ := bind_eq_ok.1 h
      obtain ⟨r', hr', h⟩ := bind_eq_ok.1 h
      cases h
      obtain ⟨hlt, rfl⟩ := addU64_eq_ok.1 ha
      obtain ⟨hp, hw, hd, hb⟩ := packUntil_ok as _ r' hr'
      refine ⟨List.cons_prefix_cons.2 ⟨rfl, hp⟩, ?_, ?_, ?_⟩
      · rw [weightSum_cons, hw]
        omega
      · rcases hd with hd | hd
        · exact .inl hd
        · exact .inr (by rw [hd])
      · intro _
        refine ⟨?_, by simpa using hr⟩
        by_cases hn : r'.1 = []
        · rw [hw, hn, weightSum_nil]
          exact hlt
        · exact (hb hn).1

/-- Packing succeeds when everything together fits. -/
theorem packUntil_isOk : ∀ (as : List α) (weight : Nat), weight + weightSum weightOf as < u64Bound →
    ∃ r, packUntil reached weightOf weight as = .ok r
  | [], weight, _ => ⟨([], weight), rfl⟩
  | a :: as, weight, h => by
    unfold packUntil
    split
    · exact ⟨_, rfl⟩
    · rw [weightSum_cons] at h
      rw [addU64_of_lt (by omega), ok_bind]
      obtain ⟨r, hr⟩ := packUntil_isOk as (weight + weightOf a) (by omega)
      rw [hr]
      exact ⟨_, rfl⟩

/-- Packing what was packed changes nothing. -/
theorem packUntil_idem : ∀ (as : List α) (weight : Nat) (r : List α × Nat), packUntil reached weightOf weight as = .ok r →
    packUntil reached weightOf weight r.1 = .ok r
  | [], weight, r, h => by
    cases h
    rfl
  | a :: as, weight, r, h => by
    unfold packUntil at h
    split at h
    · cases h
      rfl
    · rename_i hr
      obtain ⟨weight', ha, h⟩ := bind_eq_ok.1 h
      obtain ⟨r', hr', h⟩ := bind_eq_ok.1 h
      cases h
      unfold packUntil
      rw [if_neg hr, ha, ok_bind, packUntil_idem as _ r' hr']
      rfl

/-- With positive weights, no more elements are taken than the quorum still needs. -/
theorem packUntil_length {T : Nat} (hT : ∀ x, reached x = true ↔ T ≤ x) : ∀ (as : List α) (weight : Nat)
    (r : List α × Nat), (∀ a ∈ as, 0 < weightOf a) → packUntil reached weightOf weight as = .ok r →
    r.1.length ≤ T - weight
  | [], weight, r, _, h => by
    cases h
    exact Nat.zero_le _
  | a :: as, weight, r, hpos, h => by
    unfold packUntil at h
    split at h
    · cases h
      exact Nat.zero_le _
    · rename_i hr
      obtain ⟨weight', ha, h⟩ := bind_eq_ok.1 h
      obtain ⟨r', hr', h⟩ := bind_eq_ok.1 h
      cases h
      obtain ⟨_, rfl⟩ := addU64_eq_ok.1 ha
      have ih := packUntil_length hT as _ r' (fun b hb => hpos b (List.mem_cons_of_mem _ hb)) hr'
      have ha := hpos a List.mem_cons_self
      rw [hT] at hr
      show (a :: r'.1).length ≤ T - weight
      rw [List.length_cons]
      omega

end Pack

namespace VoteTracker

/-! ## The threshold test -/

/-- The loop keeps the one proposal found so far: it fails exactly when a count overflows or a second one is over. -/
theorem overThresholdLoop_eq_ok (vt : VoteTracker) (params : ConsensusParams) (step : Step) :
    ∀ (ps : List ProposalValue) (result r : Option ProposalValue),
      vt.overThresholdLoop params step ps result = .ok r ↔
        (∀ p ∈ ps, vt.direct p + vt.equivocatorsCount < u64Bound) ∧
          result.toList ++ ps.filter (fun p => Step.reachesQuorum step params (vt.direct p + vt.equivocatorsCount))
            = r.toList
  | [], result, r => by
    unfold overThresholdLoop
    rw [Except.ok.injEq, List.filter_nil, List.append_nil]
    constructor
    · rintro rfl
      exact ⟨fun _ hp => absurd hp List.not_mem_nil, rfl⟩
    · rintro ⟨_, h⟩
      cases result <;> cases r <;> simp_all
  | p :: ps, result, r => by
    unfold overThresholdLoop
    rw [bind_eq_ok, List.forall_mem_cons]
    by_cases hlt : vt.direct p + vt.equivocatorsCount < u64Bound
    · have hc : vt.count p = .ok (vt.direct p + vt.equivocatorsCount) := addU64_of_lt hlt
      simp only [hc, Except.ok.injEq, exists_eq_left', hlt, true_and]
      by_cases hq : Step.reachesQuorum step params (vt.direct p + vt.equivocatorsCount) = true
      · rw [if_pos hq, List.filter_cons_of_pos (by exact hq)]
        cases result with
        | none => rw [if_neg (by simp), overThresholdLoop_eq_ok vt params step ps]; rfl
        | some q =>
          rw [if_pos Option.isSome_some]
          constructor
          · intro h; cases h
          · rintro ⟨_, h⟩
            cases r <;> simp at h
      · rw [if_neg hq, List.filter_cons_of_neg (by exact hq), overThresholdLoop_eq_ok vt params step ps]
    · constructor
      · rintro ⟨c, hc, _⟩
        exact absurd (addU64_eq_ok.1 hc).1 hlt
      · rintro ⟨⟨h, _⟩, _⟩
        exact absurd h hlt

/-- Where no count overflows, the loop fails only on a second value. -/
theorem overThresholdLoop_error (vt : VoteTracker) (params : ConsensusParams) (step : Step) :
    ∀ (ps : List ProposalValue) (result : Option ProposalValue) (x : Panic),
      (∀ p ∈ ps, vt.direct p + vt.equivocatorsCount < u64Bound) →
      vt.overThresholdLoop params step ps result = .error x → x = .twoValuesOverThreshold
  | [], _, _, _, h => by cases h
  | p :: ps, result, x, hlt, h => by
    have hc : vt.count p = .ok (vt.direct p + vt.equivocatorsCount) := addU64_of_lt (hlt p List.mem_cons_self)
    have htl : ∀ q ∈ ps, vt.direct q + vt.equivocatorsCount < u64Bound :=
      fun q hq => hlt q (List.mem_cons_of_mem _ hq)
    unfold overThresholdLoop at h
    rw [hc, ok_bind] at h
    split at h
    · split at h
      · cases h; rfl
      · exact overThresholdLoop_error vt params step ps _ x htl h
    · exact overThresholdLoop_error vt params step ps _ x htl h

/-! ## Bundles -/

variable {c : ProposalVoteCounter}

theorem mem_sortedVotes {v : Vote} :
    v ∈ sortedVotes c ↔ ∃ s, c.votes.lookup s = some v := by
  rw [sortedVotes, List.mem_insertionSort, FinMap.mem_values]

variable {vt : VoteTracker}

theorem mem_sortedPairs {ev : EquivocationVote} :
    ev ∈ sortedPairs vt ↔ ∃ s, vt.equivocators.lookup s = some ev := by
  rw [sortedPairs, List.mem_insertionSort, FinMap.mem_values]

/-- The bundle of votes `vs` and pairs `evs` for a proposal, headed by the vote `v₀`. -/
def bundleOf (target : ProposalValue) (v₀ : Vote) (vs : List Vote) (evs : List EquivocationVote) :
    UnauthenticatedBundle :=
  { round := v₀.rawVote.round, period := v₀.rawVote.period, step := v₀.rawVote.step, proposal := target,
    votes := vs.map Vote.authenticator, equivocationVotes := evs.map EquivocationVote.authenticator }

/-- What `genBundle` packs: a prefix of the sorted votes and a prefix of the sorted pairs that reach the quorum. -/
structure Packed (params : ConsensusParams) (vt : VoteTracker) (c : ProposalVoteCounter) (v₀ : Vote) (vs : List Vote)
    (evs : List EquivocationVote) (weight total : Nat) : Prop where
  head : vs.head? = some v₀
  votes : packUntil (Step.reachesQuorum v₀.rawVote.step params) (fun v : Vote => v.cred.weight) 0 (sortedVotes c)
    = .ok (vs, weight)
  pairs : packUntil (Step.reachesQuorum v₀.rawVote.step params) (fun ev : EquivocationVote => ev.cred.weight) weight
    (sortedPairs vt) = .ok (evs, total)
  quorum : Step.reachesQuorum v₀.rawVote.step params total = true

variable {params : ConsensusParams} {p : ProposalValue}

/-- The second packing, in `makeBundle`, takes what the first took. -/
theorem makeBundle_of_packed {v₀ : Vote} {vs : List Vote} {evs : List EquivocationVote} {weight total : Nat}
    (hp : Packed params vt c v₀ vs evs weight total) (hall : ∀ v ∈ vs, v.rawVote.proposal = p) :
    makeBundle params p vs evs = .ok (bundleOf p v₀ vs evs) := by
  have hvs := packUntil_idem _ _ _ hp.votes
  have hevs := packUntil_idem _ _ _ hp.pairs
  cases vs with
  | nil => cases hp.head
  | cons v vs =>
    cases hp.head
    have hany : (v₀ :: vs).any (fun v => decide (v.rawVote.proposal ≠ p)) = false := by
      rw [List.any_eq_false]
      intro v hv
      simp [hall v hv]
    unfold makeBundle
    simp only [hany, Bool.false_eq_true, ↓reduceIte, hvs, hevs, ok_bind, hp.quorum]
    rfl

theorem genBundle_of_packed {v₀ : Vote} {vs : List Vote} {evs : List EquivocationVote} {weight total : Nat}
    (hp : Packed params vt c v₀ vs evs weight total) (hall : ∀ v ∈ vs, v.rawVote.proposal = p) :
    vt.genBundle params p c = .ok (bundleOf p v₀ vs evs) := by
  obtain ⟨⟨tl, htl⟩, -⟩ := packUntil_ok _ _ _ hp.votes
  obtain ⟨u, hu⟩ : ∃ u, sortedVotes c = v₀ :: u := by
    cases vs with
    | nil => cases hp.head
    | cons v vs =>
      cases hp.head
      exact ⟨vs ++ tl, htl.symm⟩
  have hstep : firstStep (sortedVotes c) = v₀.rawVote.step := by rw [hu]; rfl
  unfold genBundle
  simp only [hstep, hp.votes, hp.pairs, ok_bind]
  exact makeBundle_of_packed hp hall

/-- Every bundle comes from a packing. -/
theorem genBundle_ok {b : UnauthenticatedBundle} (h : vt.genBundle params p c = .ok b) :
    ∃ v₀ vs evs weight total, Packed params vt c v₀ vs evs weight total ∧ (∀ v ∈ vs, v.rawVote.proposal = p) ∧
      b = bundleOf p v₀ vs evs := by
  unfold genBundle at h
  obtain ⟨⟨vs, weight⟩, hv, h⟩ := bind_eq_ok.1 h
  obtain ⟨⟨evs, total⟩, he, h⟩ := bind_eq_ok.1 h
  cases hvs : vs with
  | nil => subst hvs; cases h
  | cons v₀ vs' =>
    subst hvs
    obtain ⟨⟨tl, htl⟩, -⟩ := packUntil_ok _ _ _ hv
    have hstep : firstStep (sortedVotes c) = v₀.rawVote.step := by rw [← htl]; rfl
    simp only [hstep] at hv he
    replace h : makeBundle params p (v₀ :: vs') evs = .ok b := h
    unfold makeBundle at h
    simp only at h
    split at h
    · cases h
    · rename_i hany
      rw [packUntil_idem _ _ _ hv, ok_bind] at h
      simp only at h
      rw [packUntil_idem _ _ _ he, ok_bind] at h
      split at h
      · rename_i hq
        cases h
        have hall : ∀ v ∈ v₀ :: vs', v.rawVote.proposal = p := by
          simpa [List.any_eq_true] using hany
        exact ⟨v₀, v₀ :: vs', evs, weight, total, ⟨rfl, hv, he, hq⟩, hall, rfl⟩
      · cases h

end VoteTracker

end Agreement
end Algod
