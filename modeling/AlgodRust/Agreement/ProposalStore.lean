import AlgodRust.Agreement.VoteAggregator
/-!
# ProposalStore — proposal-votes, payloads and the staged value

For each period a tracker keeps the proposal-vote with the lowest credential and the value staged by a soft or cert
threshold.  For each round a store keeps the payloads of the few values that still matter: the pinned one and the last
one each period reported; `trim` drops the rest.

`staging` is what a period has staged and `Assembled` says that the payload of a value is there.
-/
namespace Algod
namespace Agreement

open Run (bind_eq_ok)

/-! ## Proposal-votes of a period -/

inductive LateCredentialTrackingEffect
  | noLateCredentialTrackingImpact
  | unverifiedLateCredentialForTracking
  | verifiedBetterLateCredentialForTracking
deriving DecidableEq, Repr, Inhabited

/-- The proposal-vote with the lowest credential, until it is frozen. -/
structure ProposalSeeker where
  lowest : Vote
  filled : Bool
  frozen : Bool
  lowestIncludingLate : Vote
  hasLowestIncludingLate : Bool
deriving DecidableEq, Repr, Inhabited

namespace ProposalSeeker

def accept (hash : CredentialHash) (s : ProposalSeeker) (v : Vote) :
    ProposalSeeker × LateCredentialTrackingEffect × Except Reason Unit :=
  if s.frozen then
    if !s.hasLowestIncludingLate || v.cred.less hash s.lowestIncludingLate.cred then
      ({ s with lowestIncludingLate := v, hasLowestIncludingLate := true },
        .verifiedBetterLateCredentialForTracking, .error .seekerFrozen)
    else (s, .noLateCredentialTrackingImpact, .error .seekerFrozen)
  else if s.filled && !v.cred.less hash s.lowest.cred then
    (s, .noLateCredentialTrackingImpact, .error (.seekerNotLess v.rawVote.sender s.lowest.rawVote.sender))
  else
    ({ s with lowest := v, filled := true, lowestIncludingLate := v, hasLowestIncludingLate := true },
      .verifiedBetterLateCredentialForTracking, .ok ())

def copyLateCredentialTrackingState (s other : ProposalSeeker) : ProposalSeeker :=
  { s with hasLowestIncludingLate := other.hasLowestIncludingLate, lowestIncludingLate := other.lowestIncludingLate }

def freeze (s : ProposalSeeker) : ProposalSeeker := { s with frozen := true }

end ProposalSeeker

structure ProposalTracker where
  duplicate : List Address
  freezer : ProposalSeeker
  staging : ProposalValue
deriving DecidableEq, Repr, Inhabited

structure ProposalAcceptedEvent where
  round : Round
  period : Period
  proposal : ProposalValue
  payload : Option Proposal
  payloadOk : Bool
deriving DecidableEq, Repr

/-- The answer to a verified proposal-vote. -/
inductive ProposalVoteAnswer
  | accepted (e : ProposalAcceptedEvent)
  | filtered (note : LateCredentialTrackingEffect) (err : Option Reason)
  | malformed (err : Option Reason)
  | empty

namespace ProposalTracker

/-- Whether the sender of a proposal-vote was heard before. -/
def handleVoteFilterRequest (t : ProposalTracker) (v : RawVote) : Bool := t.duplicate.contains v.sender

def handleVoteVerified (hash : CredentialHash) (t : ProposalTracker) (v : Vote) : ProposalTracker × ProposalVoteAnswer :=
  if t.duplicate.contains v.rawVote.sender then
    (t, .filtered .noLateCredentialTrackingImpact
      (some (.proposalSenderDup v.rawVote.sender v.rawVote.round v.rawVote.period)))
  else
    let r := t.freezer.accept hash v
    -- The late credential is remembered whether or not the vote is accepted.
    let t' : ProposalTracker := ⟨v.rawVote.sender :: t.duplicate, t.freezer.copyLateCredentialTrackingState r.1, t.staging⟩
    if t.staging ≠ bottom then (t', .filtered r.2.1 (some .alreadyStaged))
    else match r.2.2 with
      | .error err => (t', .filtered r.2.1 (some (.proposalFiltered err)))
      | .ok () =>
        ({ t' with freezer := r.1 },
          .accepted ⟨v.rawVote.round, v.rawVote.period, v.rawVote.proposal, none, false⟩)

/-- Freeze the seeker and read the proposal it settled on. -/
def handleProposalFrozen (t : ProposalTracker) : ProposalTracker × ProposalValue :=
  ({ t with freezer := t.freezer.freeze }, t.freezer.lowest.rawVote.proposal)

def handleThreshold (t : ProposalTracker) (te : ThresholdEvent) : ProposalTracker := { t with staging := te.proposal }

end ProposalTracker

/-! ## Payloads of a round -/

structure BlockAssembler where
  pipeline : UnauthenticatedProposal
  filled : Bool
  payload : Option Proposal
  assembled : Bool
  authenticators : List Vote
deriving DecidableEq, Repr, Inhabited

namespace BlockAssembler

def addPipeline (a : BlockAssembler) (p : UnauthenticatedProposal) : Except Reason BlockAssembler :=
  if a.assembled then .error .alreadyAssembled
  else if a.filled then .error .alreadyFilled
  else .ok { a with pipeline := p, filled := true }

def bind (a : BlockAssembler) (p : Proposal) : Except Reason BlockAssembler :=
  if a.assembled then .error .alreadyAssembled
  else .ok { a with payload := some { p with receivedAt := a.pipeline.receivedAt }, assembled := true }

def authenticator (a : BlockAssembler) (p : Period) : Option Vote :=
  a.authenticators.find? (fun v => decide (v.rawVote.period = p))

def trim (a : BlockAssembler) (p : Period) : BlockAssembler :=
  { a with authenticators := a.authenticators.filter (fun v => decide (p ≤ v.rawVote.period)) }

end BlockAssembler

structure ProposalStore where
  relevant : FinMap Period ProposalValue
  pinned : ProposalValue
  assemblers : FinMap ProposalValue BlockAssembler
  trackers : FinMap Period ProposalTracker

structure CommittableEvent where
  proposal : ProposalValue
  vote : Option Vote
deriving DecidableEq, Repr

structure PayloadPipelined where
  round : Round
  period : Period
  pinned : Bool
  proposal : ProposalValue
  unauthenticatedPayload : UnauthenticatedProposal
  vote : Option Vote
deriving DecidableEq, Repr

/-- The answer to a payload. -/
inductive PayloadAnswer
  | malformed (err : Option Reason)
  | rejected (err : Option Reason)
  | pipelined (e : PayloadPipelined)
  | accepted (proposal : ProposalValue) (vote : Option Vote)
  | committable (e : CommittableEvent)

/-- The answer to a threshold event. -/
inductive ThresholdAnswer
  | empty
  | accepted (e : ProposalAcceptedEvent)
  | committable (e : CommittableEvent)

structure StagingValue where
  proposal : ProposalValue
  payload : Option Proposal
  committable : Bool
deriving DecidableEq, Repr

namespace ProposalStore

def empty : ProposalStore := ⟨∅, bottom, ∅, ∅⟩

def tracker (s : ProposalStore) (p : Period) : ProposalTracker := FinMap.getD s.trackers p default

def setTracker (s : ProposalStore) (p : Period) (t : ProposalTracker) : ProposalStore :=
  { s with trackers := s.trackers.insert p t }

def assembler (s : ProposalStore) (pv : ProposalValue) : BlockAssembler := FinMap.getD s.assemblers pv default

/-- The last period for which a value is relevant, or that it is pinned. -/
def lastRelevant (s : ProposalStore) (pv : ProposalValue) : Period × Bool :=
  if s.pinned = pv then (0, true)
  else (s.relevant.entries.foldl (fun best e => if best < e.1 ∧ e.2 = pv then e.1 else best) 0, false)

/-- Keep the assemblers of the pinned value and of the relevant ones. -/
def trim (s : ProposalStore) (currentPeriod : Period) : ProposalStore :=
  let keep (m : FinMap ProposalValue BlockAssembler) (pv : ProposalValue) := m.insert pv ((s.assembler pv).trim currentPeriod)
  { s with assemblers := ((FinMap.values s.relevant).foldl keep (keep ∅ s.pinned)).erase bottom }

def handleVoteVerified (hash : CredentialHash) (s : ProposalStore) (currentPeriod : Period) (v : Vote) :
    ProposalStore × ProposalVoteAnswer :=
  let period := v.rawVote.period
  let r := (s.tracker period).handleVoteVerified hash v
  let s' := s.setTracker period r.1
  match r.2 with
  | .accepted pae =>
    let ea := s'.assembler pae.proposal
    let ea' := { ea with authenticators := ea.authenticators ++ [v] }
    ({ s' with assemblers := s'.assemblers.insert pae.proposal ea'
               relevant := s'.relevant.insert period pae.proposal }.trim currentPeriod,
      .accepted { pae with payload := ea.payload, payloadOk := ea.assembled })
  | ans => (s', ans)

def handlePayloadPresent (s : ProposalStore) (currentPeriod : Period) (up : UnauthenticatedProposal) :
    ProposalStore × PayloadAnswer :=
  let pv := up.value
  match s.assemblers.lookup pv with
  | none => (s, .rejected (some .noAssemblerOnPresent))
  | some ea =>
    match ea.addPipeline up with
    | .error err => (s, .rejected (some err))
    | .ok ea' =>
      let last := s.lastRelevant pv
      ({ s with assemblers := s.assemblers.insert pv ea' },
        .pipelined { round := 0, period := last.1, pinned := last.2, proposal := pv, unauthenticatedPayload := up,
                     vote := ea.authenticator currentPeriod })

def handlePayloadVerified (s : ProposalStore) (currentPeriod : Period) (pp : Proposal) : ProposalStore × PayloadAnswer :=
  let pv := pp.unauthenticatedProposal.value
  match s.assemblers.lookup pv with
  | none => (s, .rejected (some .noAssemblerOnVerified))
  | some ea =>
    match ea.bind pp with
    | .error err => (s, .rejected (some err))
    | .ok ea' =>
      let s' := { s with assemblers := s.assemblers.insert pv ea' }
      if (s'.tracker currentPeriod).staging = pv then (s', .committable ⟨pv, ea.authenticator currentPeriod⟩)
      else (s', .accepted pv (ea.authenticator currentPeriod))

/-- Enter the period `target`: pin the value it starts with, or the one staged so far. -/
def handleNewPeriod (s : ProposalStore) (currentPeriod target : Period) (starting : ProposalValue) : ProposalStore :=
  let staged := (s.tracker currentPeriod).staging
  let pinned := if starting ≠ bottom then starting else if staged ≠ bottom then staged else s.pinned
  { s with pinned := pinned, relevant := FinMap.retain (fun per _ => decide (¬ per + 1 < target)) s.relevant }.trim
    currentPeriod

/-- A payload that came before its round goes to the verifier now. -/
def handleNewRound (s : ProposalStore) (currentPeriod : Period) : Except Panic (Option PayloadPipelined) :=
  match s.assemblers.entries with
  | [] => .ok none
  | [⟨pv, ea⟩] =>
    if ea.filled then
      let last := s.lastRelevant pv
      .ok (some { round := 0, period := last.1, pinned := last.2, proposal := pv, unauthenticatedPayload := ea.pipeline,
                  vote := ea.authenticator currentPeriod })
    else .ok none
  | _ => .error .tooManyAssemblers

/-- Stage the value of a soft or cert threshold.  A value whose payload is there already is committable at once. -/
def handleThreshold (s : ProposalStore) (currentPeriod : Period) (te : ThresholdEvent) : ProposalStore × ThresholdAnswer :=
  let s' := s.setTracker te.period ((s.tracker te.period).handleThreshold te)
  let ea := s'.assembler te.proposal
  if ea.assembled then (s', .committable ⟨te.proposal, ea.authenticator currentPeriod⟩)
  else
    ({ s' with assemblers := s'.assemblers.insert te.proposal ea
               relevant := s'.relevant.insert te.period te.proposal }.trim currentPeriod,
      .accepted ⟨te.round, te.period, te.proposal, ea.payload, ea.assembled⟩)

def readStaging (s : ProposalStore) (period : Period) : StagingValue :=
  let proposal := (s.tracker period).staging
  let ea := s.assembler proposal
  ⟨proposal, ea.payload, ea.assembled⟩

/-- The pinned value as `readStaging` reads the staged one. -/
def readPinned (s : ProposalStore) : StagingValue :=
  let ea := s.assembler s.pinned
  ⟨s.pinned, ea.payload, ea.assembled⟩

end ProposalStore

/-! ## What the operations keep -/

namespace ProposalStore

def staging (s : ProposalStore) (p : Period) : ProposalValue := (s.tracker p).staging

/-- The payload of a value is there. -/
def Assembled (s : ProposalStore) (pv : ProposalValue) : Prop := (s.assembler pv).assembled = true

/-- Bottom has no payload. -/
def Wf (s : ProposalStore) : Prop := s.assemblers.lookup bottom = none

/-- The value staged in a period is there with its payload, and `trim` will not drop it while the period lasts. -/
structure Keeps (s : ProposalStore) (p : Period) (v : ProposalValue) : Prop where
  staged : s.staging p = v
  ne_bottom : v ≠ bottom
  assembled : s.Assembled v
  kept : s.pinned = v ∨ s.relevant.lookup p = some v

variable {s : ProposalStore} {p q : Period} {v pv : ProposalValue}

theorem wf_empty : empty.Wf := rfl

theorem Wf.not_assembled (h : s.Wf) : ¬ s.Assembled bottom := by
  unfold Assembled assembler FinMap.getD
  rw [h]
  decide

theorem readStaging_committable : (s.readStaging p).committable = true ↔ s.Assembled (s.staging p) := Iff.rfl

theorem tracker_setTracker (s : ProposalStore) (p q : Period) (t : ProposalTracker) :
    (s.setTracker p t).tracker q = if q = p then t else s.tracker q :=
  FinMap.getD_insert _ _ _ _ _

theorem staging_setTracker (t : ProposalTracker) :
    (s.setTracker p t).staging q = if q = p then t.staging else s.staging q := by
  unfold staging
  rw [tracker_setTracker]
  split <;> rfl

theorem staging_setTracker_of_eq {t : ProposalTracker} (h : t.staging = (s.tracker p).staging) (q : Period) :
    (s.setTracker p t).staging q = s.staging q := by
  rw [staging_setTracker]
  split
  · rename_i hq
    rw [hq, h]
    rfl
  · rfl

theorem lookup_foldl_insert (f : ProposalValue → BlockAssembler) : ∀ (l : List ProposalValue)
    (m : FinMap ProposalValue BlockAssembler) (pv : ProposalValue),
    (l.foldl (fun m pv => m.insert pv (f pv)) m).lookup pv = if pv ∈ l then some (f pv) else m.lookup pv
  | [], m, pv => by simp
  | a :: l, m, pv => by
    rw [List.foldl_cons, lookup_foldl_insert f l, FinMap.lookup_insert_eq]
    by_cases hl : pv ∈ l
    · simp [hl]
    · by_cases ha : pv = a
      · simp [ha]
      · simp [hl, ha]

/-- `trim` keeps the pinned and the relevant assemblers, and none for bottom. -/
theorem lookup_trim (s : ProposalStore) (p : Period) (pv : ProposalValue) :
    (s.trim p).assemblers.lookup pv =
      if pv ≠ bottom ∧ (pv = s.pinned ∨ pv ∈ FinMap.values s.relevant) then some ((s.assembler pv).trim p)
      else none := by
  unfold trim
  simp only
  rw [FinMap.lookup_erase_eq]
  by_cases hb : pv = bottom
  · simp [hb]
  · rw [if_neg hb, lookup_foldl_insert, FinMap.lookup_insert_eq, AList.lookup_empty]
    by_cases hr : pv ∈ FinMap.values s.relevant
    · simp [hb, hr]
    · by_cases hp : pv = s.pinned
      · subst hp
        simp [hb, hr]
      · simp [hr, hp]

theorem wf_trim (s : ProposalStore) (p : Period) : (s.trim p).Wf := by
  unfold Wf
  rw [lookup_trim, if_neg (by simp)]

@[simp] theorem staging_trim : (s.trim p).staging q = s.staging q := rfl

@[simp] theorem pinned_trim : (s.trim p).pinned = s.pinned := rfl

@[simp] theorem relevant_trim : (s.trim p).relevant = s.relevant := rfl

/-- A value that is kept survives `trim`. -/
theorem Keeps.trim (h : s.Keeps p v) (q : Period) : (s.trim q).Keeps p v := by
  refine ⟨h.staged, h.ne_bottom, ?_, h.kept⟩
  have hk : v ≠ bottom ∧ (v = s.pinned ∨ v ∈ FinMap.values s.relevant) :=
    ⟨h.ne_bottom, h.kept.imp Eq.symm (fun hr => FinMap.mem_values.2 ⟨p, hr⟩)⟩
  have ha := h.assembled
  unfold Assembled assembler FinMap.getD at *
  rw [lookup_trim, if_pos hk]
  exact ha

/-- What an operation does that neither stages nor pins a value. -/
structure Touches (s s' : ProposalStore) : Prop where
  staging : ∀ p, s'.staging p = s.staging p
  wf : s.Wf → s'.Wf
  keeps : ∀ p v, s.Keeps p v → s'.Keeps p v

theorem Touches.refl (s : ProposalStore) : Touches s s := ⟨fun _ => rfl, id, fun _ _ => id⟩

theorem touches_setTracker {t : ProposalTracker} (h : t.staging = (s.tracker p).staging) :
    Touches s (s.setTracker p t) where
  staging := staging_setTracker_of_eq h
  wf := id
  keeps q v hk := ⟨by rw [staging_setTracker_of_eq h]; exact hk.staged, hk.ne_bottom, hk.assembled, hk.kept⟩

/-- Overwriting an assembler that stays assembled if it was. -/
theorem touches_insert_assembler {ea : BlockAssembler} (hpv : s.assemblers.lookup pv ≠ none)
    (h : s.Assembled pv → ea.assembled = true) : Touches s { s with assemblers := s.assemblers.insert pv ea } where
  staging _ := rfl
  wf hw := by
    unfold Wf
    rw [FinMap.lookup_insert_eq, if_neg]
    · exact hw
    · intro hb
      rw [← hb] at hpv
      exact hpv hw
  keeps q v hk := by
    refine ⟨hk.staged, hk.ne_bottom, ?_, hk.kept⟩
    have ha := hk.assembled
    unfold Assembled assembler at *
    simp only [FinMap.getD_insert]
    split
    · rename_i hv
      rw [hv] at ha
      exact h ha
    · exact ha

theorem touches_handleVoteVerified (hash : CredentialHash) (s : ProposalStore) (p : Period) (u : Vote) :
    Touches s (s.handleVoteVerified hash p u).1 := by
  have htr : ((s.tracker u.rawVote.period).handleVoteVerified hash u).1.staging
      = (s.tracker u.rawVote.period).staging := by
    unfold ProposalTracker.handleVoteVerified
    split
    · rfl
    · simp only
      split
      · rfl
      · split <;> rfl
  have ht := touches_setTracker htr
  unfold handleVoteVerified
  simp only
  split
  · rename_i pae hacc
    -- A proposal-vote is accepted only while its period has staged nothing.
    have hfree : s.staging u.rawVote.period = bottom := by
      unfold ProposalTracker.handleVoteVerified at hacc
      split at hacc
      · cases hacc
      · simp only at hacc
        split at hacc
        · cases hacc
        · rename_i hst
          exact not_not.1 hst
    refine ⟨ht.staging, fun _ => wf_trim _ _, fun q v hk => Keeps.trim ?_ p⟩
    have hk' := ht.keeps q v hk
    have hq : q ≠ u.rawVote.period := by
      intro hq
      rw [hq] at hk
      exact hk.ne_bottom (hk.staged.symm.trans hfree)
    refine ⟨hk'.staged, hk'.ne_bottom, ?_, ?_⟩
    · have ha := hk'.assembled
      unfold Assembled assembler at *
      simp only [FinMap.getD_insert]
      split
      · rename_i hv
        rw [hv] at ha
        exact ha
      · exact ha
    · rcases hk'.kept with hp | hr
      · exact .inl hp
      · refine .inr ?_
        simp only
        rw [FinMap.lookup_insert_eq, if_neg hq]
        exact hr
  · exact ht

theorem touches_handlePayloadPresent (s : ProposalStore) (p : Period) (up : UnauthenticatedProposal) :
    Touches s (s.handlePayloadPresent p up).1 := by
  unfold handlePayloadPresent
  simp only
  split
  · exact .refl s
  · rename_i ea hea
    split
    · exact .refl s
    · rename_i ea' hok
      refine touches_insert_assembler (by simp [hea]) (fun ha => ?_)
      unfold BlockAssembler.addPipeline at hok
      unfold Assembled assembler FinMap.getD at ha
      rw [hea] at ha
      simp only [Option.getD_some] at ha
      simp [ha] at hok

variable {ce : CommittableEvent}

theorem handlePayloadPresent_ne_committable {up : UnauthenticatedProposal} :
    (s.handlePayloadPresent p up).2 ≠ .committable ce := by
  unfold handlePayloadPresent
  simp only
  split
  · nofun
  · split
    · nofun
    · nofun

theorem touches_handlePayloadVerified (s : ProposalStore) (p : Period) (pp : Proposal) :
    Touches s (s.handlePayloadVerified p pp).1 := by
  unfold handlePayloadVerified
  simp only
  split
  · exact .refl s
  · rename_i ea hea
    split
    · exact .refl s
    · rename_i ea' hok
      have hass : ea'.assembled = true := by
        unfold BlockAssembler.bind at hok
        split at hok
        · cases hok
        · cases hok; rfl
      split
      · exact touches_insert_assembler (by simp [hea]) (fun _ => hass)
      · exact touches_insert_assembler (by simp [hea]) (fun _ => hass)

/-- A payload is committable if it is the payload of the value staged in the current period. -/
theorem handlePayloadVerified_committable {s' : ProposalStore} {pp : Proposal}
    (h : s.handlePayloadVerified p pp = (s', .committable ce)) :
    s'.staging p = ce.proposal ∧ s'.Assembled ce.proposal := by
  unfold handlePayloadVerified at h
  simp only at h
  split at h
  · cases h
  · split at h
    · cases h
    · rename_i ea' hok
      split at h
      · rename_i hst
        cases h
        refine ⟨hst, ?_⟩
        unfold Assembled assembler
        simp only [FinMap.getD_insert, if_pos]
        unfold BlockAssembler.bind at hok
        split at hok
        · cases hok
        · cases hok; rfl
      · cases h

theorem wf_handleNewPeriod (s : ProposalStore) (cur target : Period) (pv : ProposalValue) :
    (s.handleNewPeriod cur target pv).Wf := wf_trim _ _

theorem staging_handleThreshold (s : ProposalStore) (cur : Period) (te : ThresholdEvent) (q : Period) :
    (s.handleThreshold cur te).1.staging q = if q = te.period then te.proposal else s.staging q := by
  unfold handleThreshold
  simp only
  split
  · exact staging_setTracker _
  · exact staging_setTracker _

theorem wf_handleThreshold (hw : s.Wf) (cur : Period) (te : ThresholdEvent) : (s.handleThreshold cur te).1.Wf := by
  unfold handleThreshold
  simp only
  split
  · exact hw
  · exact wf_trim _ _

theorem handleThreshold_committable {s' : ProposalStore} {cur : Period} {te : ThresholdEvent}
    (h : s.handleThreshold cur te = (s', .committable ce)) :
    ce.proposal = te.proposal ∧ s'.staging te.period = te.proposal ∧ s'.Assembled te.proposal := by
  have hst := staging_handleThreshold s cur te te.period
  rw [h, if_pos rfl] at hst
  unfold handleThreshold at h
  simp only at h
  split at h
  · rename_i ha
    cases h
    exact ⟨rfl, hst, ha⟩
  · cases h

/-- A threshold of another period, or for the same value, leaves a kept value kept. -/
theorem Keeps.handleThreshold (h : s.Keeps p v) {te : ThresholdEvent} (hte : te.period = p → te.proposal = v)
    (cur : Period) : (s.handleThreshold cur te).1.Keeps p v := by
  have hst := staging_handleThreshold s cur te p
  have hstv : (if p = te.period then te.proposal else s.staging p) = v := by
    split
    · rename_i hp
      exact hte hp.symm
    · exact h.staged
  rw [hstv] at hst
  unfold ProposalStore.handleThreshold at *
  simp only at *
  by_cases ha : ((s.setTracker te.period ((s.tracker te.period).handleThreshold te)).assembler te.proposal).assembled
      = true
  · rw [if_pos ha] at hst ⊢
    exact ⟨hst, h.ne_bottom, h.assembled, h.kept⟩
  · rw [if_neg ha] at hst ⊢
    refine Keeps.trim ⟨?_, h.ne_bottom, ?_, ?_⟩ cur
    · exact hst
    · have hv := h.assembled
      unfold Assembled assembler at *
      simp only [FinMap.getD_insert]
      split
      · rename_i hvp
        rw [hvp] at hv
        exact absurd hv ha
      · exact hv
    · rcases h.kept with hp | hr
      · exact .inl hp
      · refine .inr ?_
        simp only
        rw [FinMap.lookup_insert_eq]
        split
        · rename_i hp
          rw [hte hp.symm]
        · exact hr

end ProposalStore

/-! ## The manager -/

/-- The proposal stores of all rounds. -/
structure ProposalManager where
  stores : FinMap Round ProposalStore

namespace ProposalManager

def empty : ProposalManager := ⟨∅⟩

def store (pm : ProposalManager) (round : Round) : ProposalStore := FinMap.getD pm.stores round .empty

def setStore (pm : ProposalManager) (round : Round) (s : ProposalStore) : ProposalManager :=
  ⟨pm.stores.insert round s⟩

/-- Forget the rounds before `keepFrom`. -/
def retainRoundsFrom (pm : ProposalManager) (keepFrom : Round) : ProposalManager :=
  ⟨FinMap.retain (fun r _ => decide (keepFrom ≤ r)) pm.stores⟩

/-- Whether a proposal-vote is stale or repeated, and whether its credential is still of interest. -/
def filterProposalVote (pm : ProposalManager) (uv : UnauthenticatedVote) (fresh : FreshnessData) : Bool × Option Reason :=
  let credHistory := proposalUsefulForCredentialHistory fresh.playerRound uv
  let dup := ((pm.store uv.rawVote.round).tracker uv.rawVote.period).handleVoteFilterRequest uv.rawVote
  match proposalFresh fresh uv with
  | .error err => (credHistory && !dup, some (.proposalFilteredDueToAge err))
  | .ok () => if dup then (credHistory, some (.proposalVoteAlreadySent uv.rawVote)) else (credHistory, none)

def handleVotePresent (pm : ProposalManager) (uv : UnauthenticatedVote) (fresh : FreshnessData) : ProposalVoteAnswer :=
  match pm.filterProposalVote uv fresh with
  | (_, none) => .empty
  | (true, some err) => .filtered .unverifiedLateCredentialForTracking (some err)
  | (false, some err) => .filtered .noLateCredentialTrackingImpact (some err)

/-- The note kept from the answer to a proposal-vote that is too old to be accepted. -/
def lateNote : ProposalVoteAnswer → LateCredentialTrackingEffect
  | .filtered .verifiedBetterLateCredentialForTracking _ => .verifiedBetterLateCredentialForTracking
  | .filtered _ _ => .noLateCredentialTrackingImpact
  | _ => .verifiedBetterLateCredentialForTracking

def handleVoteVerified (hash : CredentialHash) (pm : ProposalManager) (me : MessageEvent) (fresh : FreshnessData) :
    ProposalManager × ProposalVoteAnswer :=
  if me.cancelled then (pm, .filtered .noLateCredentialTrackingImpact me.err)
  else if me.err.isSome then (pm, .malformed me.err)
  else match me.input.vote with
    | none => (pm, .malformed (some .verifiedWithoutVote))
    | some v =>
      let deliver := (pm.store v.rawVote.round).handleVoteVerified hash v.rawVote.period v
      let pm' := pm.setStore v.rawVote.round deliver.1
      match proposalFresh fresh v.toUnauthenticated with
      | .ok () => (pm', deliver.2)
      | .error err =>
        if proposalUsefulForCredentialHistory fresh.playerRound v.toUnauthenticated then
          (pm', .filtered (lateNote deliver.2) (some (.proposalIgnoredDueToAge err)))
        else (pm, .filtered .noLateCredentialTrackingImpact (some (.proposalIgnoredDueToAge err)))

/-- A payload of the player's round goes to that round's store, any other one to the store of the next round. -/
def handlePayloadPresent (pm : ProposalManager) (playerRound : Round) (playerPeriod : Period)
    (up : UnauthenticatedProposal) : ProposalManager × PayloadAnswer :=
  let target : Round × Period := if playerRound = up.blockRound then (playerRound, playerPeriod) else (playerRound + 1, 0)
  let r := (pm.store target.1).handlePayloadPresent target.2 up
  (pm.setStore target.1 r.1,
    match r.2 with
    | .pipelined ep => .pipelined { ep with round := target.1 }
    | ans => ans)

def handlePayloadVerified (pm : ProposalManager) (playerRound : Round) (playerPeriod : Period) (me : MessageEvent) :
    Except Panic (ProposalManager × PayloadAnswer) :=
  if me.cancelled then .ok (pm, .rejected me.err)
  else if me.err.isSome then .ok (pm, .malformed me.err)
  else match me.input.proposal with
    | none => .error .payloadWithoutProposal
    | some pp =>
      let r := (pm.store playerRound).handlePayloadVerified playerPeriod pp
      .ok (pm.setStore playerRound r.1, r.2)

def handleNewRound (pm : ProposalManager) (playerPeriod : Period) (round : Round) :
    Except Panic (Option PayloadPipelined) :=
  (pm.store round).handleNewRound playerPeriod

def handleNewPeriod (pm : ProposalManager) (playerPeriod : Period) (te : ThresholdEvent) : ProposalManager :=
  let target := if te.t = .next then te.period + 1 else te.period
  pm.setStore te.round ((pm.store te.round).handleNewPeriod playerPeriod target te.proposal)

/-- A threshold event of a later period starts that period here, before the player enters it. -/
def handleThreshold (pm : ProposalManager) (playerPeriod : Period) (te : ThresholdEvent) :
    ProposalManager × ThresholdAnswer :=
  match te.t with
  | .next => (pm.handleNewPeriod playerPeriod te, .empty)
  | _ =>
    let pm' := if playerPeriod < te.period then pm.handleNewPeriod playerPeriod te else pm
    let r := (pm'.store te.round).handleThreshold te.period te
    (pm'.setStore te.round r.1, r.2)

variable {pm pm' : ProposalManager}

theorem store_setStore (pm : ProposalManager) (r r' : Round) (s : ProposalStore) :
    (pm.setStore r s).store r' = if r' = r then s else pm.store r' :=
  FinMap.getD_insert _ _ _ _ _

theorem store_retainRoundsFrom_of_le {keepFrom r : Round} (h : keepFrom ≤ r) :
    (pm.retainRoundsFrom keepFrom).store r = pm.store r :=
  FinMap.getD_retain_of _ _ _ (fun _ => decide_eq_true h)

theorem store_retainRoundsFrom (pm : ProposalManager) (keepFrom r : Round) :
    (pm.retainRoundsFrom keepFrom).store r = pm.store r ∨ (pm.retainRoundsFrom keepFrom).store r = .empty :=
  FinMap.getD_retain _ _ _ _

theorem touches_setStore {r : Round} {s : ProposalStore} (h : ProposalStore.Touches (pm.store r) s) (r' : Round) :
    ProposalStore.Touches (pm.store r') ((pm.setStore r s).store r') := by
  rw [store_setStore]
  split
  · rename_i hr
    rw [hr]
    exact h
  · exact .refl _

theorem touches_handleVoteVerified (hash : CredentialHash) (pm : ProposalManager) (me : MessageEvent)
    (fresh : FreshnessData) (r : Round) :
    ProposalStore.Touches (pm.store r) ((pm.handleVoteVerified hash me fresh).1.store r) := by
  unfold handleVoteVerified
  split
  · exact .refl _
  split
  · exact .refl _
  split
  · exact .refl _
  · rename_i v _
    have ht := touches_setStore (ProposalStore.touches_handleVoteVerified hash (pm.store v.rawVote.round)
      v.rawVote.period v) r
    simp only
    split
    · exact ht
    · split
      · exact ht
      · exact .refl _

theorem touches_handlePayloadPresent (pm : ProposalManager) (playerRound : Round) (playerPeriod : Period)
    (up : UnauthenticatedProposal) (r : Round) :
    ProposalStore.Touches (pm.store r) ((pm.handlePayloadPresent playerRound playerPeriod up).1.store r) :=
  touches_setStore (ProposalStore.touches_handlePayloadPresent _ _ _) r

theorem handlePayloadPresent_ne_committable (pm : ProposalManager) (playerRound : Round) (playerPeriod : Period)
    (up : UnauthenticatedProposal) (ce : CommittableEvent) :
    (pm.handlePayloadPresent playerRound playerPeriod up).2 ≠ .committable ce := by
  intro h
  unfold handlePayloadPresent at h
  simp only at h
  split at h
  · cases h
  · exact ProposalStore.handlePayloadPresent_ne_committable h

theorem handlePayloadVerified_ok {playerRound : Round} {playerPeriod : Period} {me : MessageEvent}
    {ans : PayloadAnswer} (h : pm.handlePayloadVerified playerRound playerPeriod me = .ok (pm', ans)) :
    (∀ r, ProposalStore.Touches (pm.store r) (pm'.store r)) ∧ ∀ ce, ans = .committable ce →
      (pm'.store playerRound).staging playerPeriod = ce.proposal ∧ (pm'.store playerRound).Assembled ce.proposal := by
  unfold handlePayloadVerified at h
  split at h
  · cases h
    exact ⟨fun _ => .refl _, fun ce hce => (by cases hce)⟩
  split at h
  · cases h
    exact ⟨fun _ => .refl _, fun ce hce => (by cases hce)⟩
  split at h
  · cases h
  · rename_i pp _
    cases h
    refine ⟨fun r => touches_setStore (ProposalStore.touches_handlePayloadVerified _ _ _) r, fun ce hce => ?_⟩
    rw [store_setStore, if_pos rfl]
    exact ProposalStore.handlePayloadVerified_committable (Prod.ext rfl hce)

/-- What a threshold event does to the stores: it stages its value in its own round and period, if it is a soft or cert
threshold, and a threshold that starts no new period drops no kept value. -/
structure Staged (pm : ProposalManager) (cur : Period) (te : ThresholdEvent) (pm' : ProposalManager)
    (ans : ThresholdAnswer) : Prop where
  other : ∀ r, r ≠ te.round → pm'.store r = pm.store r
  wf : (∀ r, (pm.store r).Wf) → ∀ r, (pm'.store r).Wf
  staging : ∀ p, (pm'.store te.round).staging p =
    if te.t ≠ .next ∧ p = te.period then te.proposal else (pm.store te.round).staging p
  keeps : te.t ≠ .next → te.period ≤ cur → ∀ p v, (pm.store te.round).Keeps p v → (te.period = p → te.proposal = v) →
    (pm'.store te.round).Keeps p v
  committable : ∀ ce, ans = .committable ce → te.t ≠ .next ∧ ce.proposal = te.proposal ∧
    (pm'.store te.round).staging te.period = te.proposal ∧ (pm'.store te.round).Assembled te.proposal

theorem store_handleNewPeriod_ne (pm : ProposalManager) (cur : Period) {te : ThresholdEvent} {r : Round}
    (h : r ≠ te.round) : (pm.handleNewPeriod cur te).store r = pm.store r := by
  unfold handleNewPeriod
  rw [store_setStore, if_neg h]

theorem staging_handleNewPeriod (pm : ProposalManager) (cur : Period) (te : ThresholdEvent) (r : Round) (p : Period) :
    ((pm.handleNewPeriod cur te).store r).staging p = (pm.store r).staging p := by
  unfold handleNewPeriod
  rw [store_setStore]
  split
  · rename_i hr
    rw [hr]
    rfl
  · rfl

theorem wf_handleNewPeriod (hw : ∀ r, (pm.store r).Wf) (cur : Period) (te : ThresholdEvent) (r : Round) :
    ((pm.handleNewPeriod cur te).store r).Wf := by
  unfold handleNewPeriod
  rw [store_setStore]
  split
  · exact ProposalStore.wf_handleNewPeriod _ _ _ _
  · exact hw r

theorem staged_of_store {cur : Period} {te : ThresholdEvent} (hn : te.t ≠ .next) {pm₁ : ProposalManager}
    (hother : ∀ r, r ≠ te.round → pm₁.store r = pm.store r)
    (hwf : (∀ r, (pm.store r).Wf) → ∀ r, (pm₁.store r).Wf)
    (hst : ∀ p, (pm₁.store te.round).staging p = (pm.store te.round).staging p)
    (hkeep : te.period ≤ cur → pm₁ = pm) :
    Staged pm cur te (pm₁.setStore te.round ((pm₁.store te.round).handleThreshold te.period te).1)
      ((pm₁.store te.round).handleThreshold te.period te).2 where
  other r hr := by rw [store_setStore, if_neg hr, hother r hr]
  wf hw r := by
    rw [store_setStore]
    split
    · exact ProposalStore.wf_handleThreshold (hwf hw _) _ _
    · exact hwf hw r
  staging p := by
    rw [store_setStore, if_pos rfl, ProposalStore.staging_handleThreshold, hst]
    by_cases hp : p = te.period
    · simp [hp, hn]
    · simp [hp]
  keeps _ hle p v hk hte := by
    have heq := hkeep hle
    subst heq
    rw [store_setStore, if_pos rfl]
    exact hk.handleThreshold hte _
  committable ce hce := by
    obtain ⟨h₁, h₂, h₃⟩ := ProposalStore.handleThreshold_committable (Prod.ext rfl hce)
    rw [store_setStore, if_pos rfl]
    exact ⟨hn, h₁, h₂, h₃⟩

theorem staged_handleThreshold (pm : ProposalManager) (cur : Period) (te : ThresholdEvent) :
    Staged pm cur te (pm.handleThreshold cur te).1 (pm.handleThreshold cur te).2 := by
  have hnew : te.t ≠ .next → Staged pm cur te
      ((if cur < te.period then pm.handleNewPeriod cur te else pm).setStore te.round
        (((if cur < te.period then pm.handleNewPeriod cur te else pm).store te.round).handleThreshold te.period te).1)
      (((if cur < te.period then pm.handleNewPeriod cur te else pm).store te.round).handleThreshold te.period te).2 := by
    intro hn
    by_cases hlt : cur < te.period
    · simp only [hlt, if_true]
      exact staged_of_store hn (fun r hr => store_handleNewPeriod_ne pm cur hr)
        (fun hw r => wf_handleNewPeriod hw cur te r) (fun p => staging_handleNewPeriod pm cur te _ p)
        (fun hle => absurd hle (not_le.2 hlt))
    · simp only [hlt, if_false]
      exact staged_of_store hn (fun _ _ => rfl) (fun hw => hw) (fun _ => rfl) (fun _ => rfl)
  unfold handleThreshold
  split
  · rename_i ht
    refine ⟨fun r hr => store_handleNewPeriod_ne pm cur hr, fun hw r => wf_handleNewPeriod hw cur te r, fun p => ?_,
      fun hn => absurd ht hn, fun ce hce => (by cases hce)⟩
    rw [staging_handleNewPeriod, if_neg (by simp [ht])]
  · rename_i ht
    exact hnew (by simpa using ht)

end ProposalManager

end Agreement
end Algod
