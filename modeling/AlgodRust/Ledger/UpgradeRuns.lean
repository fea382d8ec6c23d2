import AlgodRust.Ledger.BlockHeader
/-!
# UpgradeRuns — the voting rule of protocol upgrades

A run applies one accepted vote per round.  `Open` says what the state of a pending upgrade records of the run: the
round of its proposal, the approvals since, its deadline and the round of the switch.  From it follow when the protocol
switches and when a proposal is dropped, over every run (`upgradeRun_rules`), and that the votes of the node's own
headers are never refused (`headerRun_votes`).
-/
namespace Algod
namespace Ledger

/-! ## One vote -/

/-- The delay of a proposal: the default one where it names none. -/
def effectiveDelay (params : ConsensusParams) (vote : UpgradeVote) : Nat :=
  if vote.upgradeDelay = 0 then params.defaultUpgradeWaitRounds else vote.upgradeDelay

section Vote

variable {params : ConsensusParams} {s s' : UpgradeState} {r : Nat} {vote : UpgradeVote}

theorem applyUpgradeVote_ok (h : applyUpgradeVote s r vote params = .ok s') :
    ∃ s₁ s₂, applyProposal s r vote params = .ok s₁ ∧ applyApproval s₁ r vote = .ok s₂ ∧
      s' = switchOver (clearFailed s₂ r params) r := by
  obtain ⟨s₁, h₁, h⟩ := Run.bind_eq_ok.1 h
  obtain ⟨s₂, h₂, h⟩ := Run.bind_eq_ok.1 h
  cases h
  exact ⟨s₁, s₂, h₁, h₂, rfl⟩

theorem applyUpgradeVote_eq_ok {s₁ s₂ : UpgradeState} (h₁ : applyProposal s r vote params = .ok s₁)
    (h₂ : applyApproval s₁ r vote = .ok s₂) :
    applyUpgradeVote s r vote params = .ok (switchOver (clearFailed s₂ r params) r) :=
  Run.bind_eq_ok.2 ⟨s₁, h₁, Run.bind_eq_ok.2 ⟨s₂, h₂, rfl⟩⟩

/-- An accepted proposal, and an accepted vote without one. -/
theorem applyProposal_ok (h : applyProposal s r vote params = .ok s') :
    (vote.upgradePropose = "" ∧ s' = s) ∨
      (vote.upgradePropose ≠ "" ∧ s.nextProtocol = "" ∧ vote.upgradeDelay ≤ params.maxUpgradeWaitRounds ∧
        s' = ⟨s.currentProtocol, vote.upgradePropose, 0, wrapAdd r params.upgradeVoteRounds,
          wrapAdd (wrapAdd r params.upgradeVoteRounds) (effectiveDelay params vote)⟩) := by
  unfold applyProposal at h
  by_cases hp : vote.upgradePropose = ""
  · refine .inl ⟨hp, ?_⟩
    simp only [hp] at h
    split at h
    · simp at *
    split at h
    · cases h
    · cases h
      rfl
  · have hne : (!vote.upgradePropose.isEmpty) = true := by simpa using hp
    rw [if_pos hne] at h
    split at h
    · cases h
    rename_i hnext
    split at h
    · cases h
    split at h
    · cases h
    rename_i hdelay
    cases h
    exact .inr ⟨hp, by simpa using hnext, by omega, rfl⟩

theorem applyApproval_ok (h : applyApproval s r vote = .ok s') :
    (vote.upgradeApprove = false ∧ s' = s) ∨
      (vote.upgradeApprove = true ∧ s.nextProtocol ≠ "" ∧ r < s.nextProtocolVoteBefore ∧
        s' = { s with nextProtocolApprovals := wrapAdd s.nextProtocolApprovals 1 }) := by
  unfold applyApproval at h
  by_cases ha : vote.upgradeApprove = true
  · rw [if_pos ha] at h
    split at h
    · cases h
    rename_i hnext
    split at h
    · cases h
    rename_i hdead
    cases h
    exact .inr ⟨ha, by simpa using hnext, Nat.lt_of_not_le hdead, rfl⟩
  · rw [if_neg ha] at h
    cases h
    exact .inl ⟨by simpa using ha, rfl⟩

/-- Nothing is dropped or switched to in a round that is neither the deadline nor the round of the switch. -/
theorem switchOver_clearFailed_eq (hdead : r ≠ s.nextProtocolVoteBefore) (hswitch : r ≠ s.nextProtocolSwitchOn) :
    switchOver (clearFailed s r params) r = s := by
  have hkeep : clearFailed s r params = s := if_neg fun h => hdead h.1
  rw [hkeep]
  exact if_neg hswitch

/-- **A round without a pending upgrade** leaves the state as it is or opens a vote. -/
theorem applyUpgradeVote_idle (hidle : s.cleared = s) (hr : 1 ≤ r) (hv : 1 ≤ params.upgradeVoteRounds)
    (hfit : r + params.upgradeVoteRounds + max params.defaultUpgradeWaitRounds params.maxUpgradeWaitRounds < u64Bound)
    (h : applyUpgradeVote s r vote params = .ok s') :
    (vote.upgradePropose = "" ∧ s' = s) ∨
      (vote.upgradePropose ≠ "" ∧
        s' = ⟨s.currentProtocol, vote.upgradePropose, if vote.upgradeApprove then 1 else 0,
          r + params.upgradeVoteRounds, r + params.upgradeVoteRounds + effectiveDelay params vote⟩) := by
  obtain ⟨s₁, s₂, h₁, h₂, rfl⟩ := applyUpgradeVote_ok h
  rcases applyProposal_ok h₁ with ⟨hp, rfl⟩ | ⟨hp, -, hdelay, rfl⟩
  · have hnext : s₁.nextProtocol = "" := by rw [← hidle]; rfl
    rcases applyApproval_ok h₂ with ⟨-, rfl⟩ | ⟨-, hne, -⟩
    · refine .inl ⟨hp, ?_⟩
      rw [← hidle]
      have hne : r ≠ 0 := by omega
      exact switchOver_clearFailed_eq hne hne
    · exact absurd hnext hne
  · have hd : effectiveDelay params vote ≤ max params.defaultUpgradeWaitRounds params.maxUpgradeWaitRounds := by
      unfold effectiveDelay
      split
      · exact Nat.le_max_left _ _
      · exact le_trans hdelay (Nat.le_max_right _ _)
    rw [wrapAdd_of_lt (a := r) (by omega), wrapAdd_of_lt (by omega)] at h₂
    refine .inr ⟨hp, ?_⟩
    have hopen : r ≠ r + params.upgradeVoteRounds := by omega
    have hswitch : r ≠ r + params.upgradeVoteRounds + effectiveDelay params vote := by omega
    rcases applyApproval_ok h₂ with ⟨ha, rfl⟩ | ⟨ha, -, -, rfl⟩
    · rw [switchOver_clearFailed_eq hopen hswitch, ha]
      rfl
    · rw [switchOver_clearFailed_eq hopen hswitch, ha]
      rfl

/-- **A round with a pending upgrade**: it is voted on, dropped at the deadline, waited for or switched to. -/
theorem applyUpgradeVote_pending (hnext : s.nextProtocol ≠ "") (hr : 1 ≤ r)
    (hdates : s.nextProtocolVoteBefore ≤ s.nextProtocolSwitchOn) (happ : s.nextProtocolApprovals + 1 < u64Bound)
    (h : applyUpgradeVote s r vote params = .ok s') :
    vote.upgradePropose = "" ∧
      ((r < s.nextProtocolVoteBefore ∧ s' = { s with
          nextProtocolApprovals := s.nextProtocolApprovals + (if vote.upgradeApprove then 1 else 0) }) ∨
        (vote.upgradeApprove = false ∧ r = s.nextProtocolVoteBefore ∧
          s.nextProtocolApprovals < params.upgradeThreshold ∧ s' = s.cleared) ∨
        (vote.upgradeApprove = false ∧ s.nextProtocolVoteBefore ≤ r ∧
          (r = s.nextProtocolVoteBefore → params.upgradeThreshold ≤ s.nextProtocolApprovals) ∧
          (r ≠ s.nextProtocolSwitchOn ∧ s' = s ∨
            r = s.nextProtocolSwitchOn ∧ s' = { s.cleared with currentProtocol := s.nextProtocol }))) := by
  obtain ⟨s₁, s₂, h₁, h₂, rfl⟩ := applyUpgradeVote_ok h
  rcases applyProposal_ok h₁ with ⟨hp, rfl⟩ | ⟨-, hempty, -⟩
  swap
  · exact absurd hempty hnext
  refine ⟨hp, ?_⟩
  by_cases hopen : r < s₁.nextProtocolVoteBefore
  · refine .inl ⟨hopen, ?_⟩
    have hdead : r ≠ s₁.nextProtocolVoteBefore := Nat.ne_of_lt hopen
    have hswitch : r ≠ s₁.nextProtocolSwitchOn := Nat.ne_of_lt (Nat.lt_of_lt_of_le hopen hdates)
    rcases applyApproval_ok h₂ with ⟨ha, rfl⟩ | ⟨ha, -, -, rfl⟩
    · rw [switchOver_clearFailed_eq hdead hswitch, ha]
      rfl
    · rw [ha, wrapAdd_of_lt happ]
      exact switchOver_clearFailed_eq (s := { s₁ with nextProtocolApprovals := s₁.nextProtocolApprovals + 1 }) hdead
        hswitch
  · rcases applyApproval_ok h₂ with ⟨ha, rfl⟩ | ⟨-, -, hlt, -⟩
    swap
    · exact absurd hlt hopen
    by_cases hfail : r = s₂.nextProtocolVoteBefore ∧ s₂.nextProtocolApprovals < params.upgradeThreshold
    · refine .inr (.inl ⟨ha, hfail.1, hfail.2, ?_⟩)
      have hne : r ≠ 0 := by omega
      unfold clearFailed
      rw [if_pos hfail]
      simp [switchOver, UpgradeState.cleared, hne]
    · refine .inr (.inr ⟨ha, Nat.le_of_not_lt hopen, fun hd => Nat.le_of_not_lt fun hlt => hfail ⟨hd, hlt⟩, ?_⟩)
      unfold clearFailed
      rw [if_neg hfail]
      unfold switchOver
      by_cases hs : r = s₂.nextProtocolSwitchOn
      · rw [if_pos hs]
        exact .inr ⟨hs, rfl⟩
      · rw [if_neg hs]
        exact .inl ⟨hs, rfl⟩

end Vote

/-! ## Runs -/

/-- One round of a run: the vote of its block, and the states before and after. -/
structure Ballot where
  round : Nat
  vote : UpgradeVote
  before : UpgradeState
  after : UpgradeState

inductive UpgradeFailure
  | unknownProtocol (protocol : String)
  | vote (e : UpgradeError)
deriving DecidableEq, Repr

/-- The next round of a run whose last block is of round `st.2`, under the parameters of the current protocol. -/
def upgradeStep (protocols : String → Option ConsensusParams) (st : UpgradeState × Nat) (vote : UpgradeVote) :
    Except UpgradeFailure ((UpgradeState × Nat) × List Ballot) :=
  match protocols st.1.currentProtocol with
  | none => .error (.unknownProtocol st.1.currentProtocol)
  | some params =>
    match applyUpgradeVote st.1 (st.2 + 1) vote params with
    | .error e => .error (.vote e)
    | .ok s => .ok ((s, st.2 + 1), [⟨st.2 + 1, vote, st.1, s⟩])

/-- The approvals cast in the rounds from `lo` on and before `hi`. -/
def approvals (tr : List Ballot) (lo hi : Nat) : Nat :=
  tr.countP (fun b => decide (lo ≤ b.round) && decide (b.round < hi) && b.vote.upgradeApprove)

/-- The protocol changes only to a version that was proposed, was approved often enough before its deadline, waited for
its delay and had no rival. -/
def SwitchRule (protocols : String → Option ConsensusParams) (tr : List Ballot) : Prop :=
  ∀ b ∈ tr, b.after.currentProtocol ≠ b.before.currentProtocol →
    ∃ p ∈ tr, ∃ params, protocols p.before.currentProtocol = some params ∧
      p.before.currentProtocol = b.before.currentProtocol ∧
      p.vote.upgradePropose ≠ "" ∧ b.after.currentProtocol = p.vote.upgradePropose ∧
      b.round = p.round + params.upgradeVoteRounds + effectiveDelay params p.vote ∧
      params.upgradeThreshold ≤ approvals tr p.round (p.round + params.upgradeVoteRounds) ∧
      ∀ q ∈ tr, p.round < q.round → q.round ≤ b.round → q.vote.upgradePropose = ""

/-- A proposal that is not approved often enough is pending up to its deadline and gone at it. -/
def ClearRule (protocols : String → Option ConsensusParams) (tr : List Ballot) : Prop :=
  ∀ p ∈ tr, p.vote.upgradePropose ≠ "" → ∀ params, protocols p.before.currentProtocol = some params →
    approvals tr p.round (p.round + params.upgradeVoteRounds) < params.upgradeThreshold →
    ∀ q ∈ tr,
      (p.round ≤ q.round → q.round < p.round + params.upgradeVoteRounds →
        q.after.nextProtocol = p.vote.upgradePropose) ∧
      (q.round = p.round + params.upgradeVoteRounds → q.after = p.before.cleared)

section Trace

variable {protocols : String → Option ConsensusParams} {params : ConsensusParams} {tr : List Ballot} {b p : Ballot}
  {s s' : UpgradeState} {r : Nat}

theorem approvals_snoc (tr : List Ballot) (b : Ballot) (lo hi : Nat) :
    approvals (tr ++ [b]) lo hi =
      approvals tr lo hi + if lo ≤ b.round ∧ b.round < hi ∧ b.vote.upgradeApprove = true then 1 else 0 := by
  simp [approvals, List.countP_append, List.countP_singleton, and_assoc]

theorem approvals_le_snoc (tr : List Ballot) (b : Ballot) (lo hi : Nat) :
    approvals tr lo hi ≤ approvals (tr ++ [b]) lo hi := by
  rw [approvals_snoc]
  exact Nat.le_add_right _ _

theorem approvals_eq_zero {lo hi : Nat} (h : ∀ q ∈ tr, q.round < lo) : approvals tr lo hi = 0 := by
  unfold approvals
  rw [List.countP_eq_zero]
  intro q hq
  have := h q hq
  simp
  omega

/-- The upgrade proposed in the round `p` is pending in the state `s` after round `r`. -/
structure Open (protocols : String → Option ConsensusParams) (tr : List Ballot) (s : UpgradeState) (r : Nat) (p : Ballot)
    (params : ConsensusParams) : Prop where
  mem : p ∈ tr
  known : protocols s.currentProtocol = some params
  protocol : p.before.currentProtocol = s.currentProtocol
  proposes : p.vote.upgradePropose ≠ ""
  next : s.nextProtocol = p.vote.upgradePropose
  counted : s.nextProtocolApprovals = approvals tr p.round (p.round + params.upgradeVoteRounds)
  approvals_le : s.nextProtocolApprovals ≤ r
  voteBefore : s.nextProtocolVoteBefore = p.round + params.upgradeVoteRounds
  switchOn : s.nextProtocolSwitchOn = p.round + params.upgradeVoteRounds + effectiveDelay params p.vote
  alone : ∀ q ∈ tr, p.round < q.round → q.vote.upgradePropose = ""
  since : p.round ≤ r
  waiting : r < s.nextProtocolSwitchOn
  passed : s.nextProtocolVoteBefore ≤ r → params.upgradeThreshold ≤ s.nextProtocolApprovals

/-- A round of a pending upgrade that neither drops it nor switches to it. -/
theorem Open.snoc (h : Open protocols tr s r p params) (hb : b.round = r + 1) (hp : b.vote.upgradePropose = "")
    (ha : b.vote.upgradeApprove = true → r + 1 < s.nextProtocolVoteBefore) (hw : r + 1 ≠ s.nextProtocolSwitchOn)
    (hpass : s.nextProtocolVoteBefore = r + 1 → params.upgradeThreshold ≤ s.nextProtocolApprovals)
    (hs : s' = { s with
      nextProtocolApprovals := s.nextProtocolApprovals + (if b.vote.upgradeApprove then 1 else 0) }) :
    Open protocols (tr ++ [b]) s' (r + 1) p params := by
  subst hs
  have hsince := h.since
  have hle := h.approvals_le
  refine ⟨List.mem_append_left _ h.mem, h.known, h.protocol, h.proposes, h.next, ?_, ?_, h.voteBefore, h.switchOn, ?_,
    Nat.le_succ_of_le hsince, Nat.lt_of_le_of_ne h.waiting hw, ?_⟩
  · show s.nextProtocolApprovals + _ = _
    rw [approvals_snoc, ← h.counted]
    congr 1
    by_cases happ : b.vote.upgradeApprove = true
    · have hlt := ha happ
      rw [h.voteBefore] at hlt
      rw [if_pos happ, if_pos ⟨by omega, by omega, happ⟩]
    · rw [if_neg happ, if_neg fun h => happ h.2.2]
  · show s.nextProtocolApprovals + _ ≤ r + 1
    split <;> omega
  · intro q hq hlt
    rcases List.mem_append.1 hq with hq | hq
    · exact h.alone q hq hlt
    · rw [List.mem_singleton.1 hq]
      exact hp
  · intro hdead
    show params.upgradeThreshold ≤ s.nextProtocolApprovals + _
    rcases Nat.lt_or_ge r s.nextProtocolVoteBefore with hlt | hge
    · exact Nat.le_trans (hpass (Nat.le_antisymm hdead hlt)) (Nat.le_add_right _ _)
    · exact Nat.le_trans (h.passed hge) (Nat.le_add_right _ _)

/-- A new round keeps the rule of the switches where it keeps it itself. -/
theorem SwitchRule.snoc (h : SwitchRule protocols tr) (hrounds : ∀ q ∈ tr, q.round < b.round)
    (hb : b.after.currentProtocol ≠ b.before.currentProtocol →
      ∃ p params, Open protocols tr b.before (b.round - 1) p params ∧ b.vote.upgradePropose = "" ∧
        b.after.currentProtocol = b.before.nextProtocol ∧ b.round = b.before.nextProtocolSwitchOn ∧
        params.upgradeThreshold ≤ b.before.nextProtocolApprovals) :
    SwitchRule protocols (tr ++ [b]) := by
  intro b' hb' hne
  rcases List.mem_append.1 hb' with hb' | hb'
  · obtain ⟨p, hp, params, hknown, hproto, hprop, hafter, hround, hthr, halone⟩ := h b' hb' hne
    refine ⟨p, List.mem_append_left _ hp, params, hknown, hproto, hprop, hafter, hround,
      Nat.le_trans hthr (approvals_le_snoc _ _ _ _), fun q hq hlt hle => ?_⟩
    rcases List.mem_append.1 hq with hq | hq
    · exact halone q hq hlt hle
    · -- the new round is after the switch
      rw [List.mem_singleton.1 hq] at hle
      exact absurd (hrounds b' hb') (Nat.not_lt.2 hle)
  · rw [List.mem_singleton.1 hb'] at hne ⊢
    obtain ⟨p, params, hopen, hprop, hafter, hround, hthr⟩ := hb hne
    rw [hopen.counted] at hthr
    refine ⟨p, List.mem_append_left _ hopen.mem, params, ?_, hopen.protocol, hopen.proposes, ?_, ?_,
      Nat.le_trans hthr (approvals_le_snoc _ _ _ _), fun q hq hlt _ => ?_⟩
    · rw [hopen.protocol]
      exact hopen.known
    · rw [hafter, hopen.next]
    · rw [hround, hopen.switchOn]
    · rcases List.mem_append.1 hq with hq | hq
      · exact hopen.alone q hq hlt
      · rw [List.mem_singleton.1 hq]
        exact hprop

/-- A new round keeps the rule of the dropped proposals where it does what the rule says of every pending one. -/
theorem ClearRule.snoc (h : ClearRule protocols tr) (hrounds : ∀ q ∈ tr, q.round < b.round)
    (hv : ∀ params, protocols b.before.currentProtocol = some params → 1 ≤ params.upgradeVoteRounds)
    (hprop : b.vote.upgradePropose ≠ "" → b.after.nextProtocol = b.vote.upgradePropose)
    (hb : ∀ p ∈ tr, p.vote.upgradePropose ≠ "" → ∀ params, protocols p.before.currentProtocol = some params →
      approvals tr p.round (p.round + params.upgradeVoteRounds) < params.upgradeThreshold →
      (b.round < p.round + params.upgradeVoteRounds → b.after.nextProtocol = p.vote.upgradePropose) ∧
      (b.round = p.round + params.upgradeVoteRounds → b.after = p.before.cleared)) :
    ClearRule protocols (tr ++ [b]) := by
  intro p hp hne params hknown hthr q hq
  rcases List.mem_append.1 hp with hp | hp
  · have hthr' := Nat.lt_of_le_of_lt (approvals_le_snoc tr b _ _) hthr
    rcases List.mem_append.1 hq with hq | hq
    · exact h p hp hne params hknown hthr' q hq
    · rw [List.mem_singleton.1 hq]
      obtain ⟨hpend, hclear⟩ := hb p hp hne params hknown hthr'
      exact ⟨fun _ => hpend, hclear⟩
  · have hpb := List.mem_singleton.1 hp
    subst hpb
    have hone := hv params hknown
    rcases List.mem_append.1 hq with hq | hq
    · have hlt := hrounds q hq
      exact ⟨fun hle => absurd hlt (Nat.not_lt.2 hle), fun heq => by omega⟩
    · rw [List.mem_singleton.1 hq]
      exact ⟨fun _ _ => hprop hne, fun heq => by omega⟩

end Trace

/-- What a run has kept so far. -/
structure VoteInv (protocols : String → Option ConsensusParams) (tr : List Ballot) (st : UpgradeState × Nat) : Prop where
  rounds : ∀ q ∈ tr, q.round ≤ st.2
  state : st.1.cleared = st.1 ∨ ∃ p params, Open protocols tr st.1 st.2 p params
  recent : ∀ p ∈ tr, p.vote.upgradePropose ≠ "" → ∀ params, protocols p.before.currentProtocol = some params →
    st.2 < p.round + params.upgradeVoteRounds → Open protocols tr st.1 st.2 p params
  switches : SwitchRule protocols tr
  clears : ClearRule protocols tr

/-- The rounds up to `last`, and those the votes opened by then name, are 64-bit numbers. -/
def RoundsFit (protocols : String → Option ConsensusParams) (last : Nat) : Prop :=
  ∀ p params, protocols p = some params →
    last + params.upgradeVoteRounds + max params.defaultUpgradeWaitRounds params.maxUpgradeWaitRounds < u64Bound

section Invariant

variable {protocols : String → Option ConsensusParams} {params : ConsensusParams} {tr : List Ballot}
  {s s' : UpgradeState} {r : Nat} {vote : UpgradeVote}

theorem VoteInv.lt_succ (h : VoteInv protocols tr (s, r)) : ∀ q ∈ tr, q.round < r + 1 :=
  fun q hq => Nat.lt_succ_of_le (h.rounds q hq)

theorem VoteInv.rounds_snoc (h : VoteInv protocols tr (s, r)) (vote : UpgradeVote) :
    ∀ q ∈ tr ++ [⟨r + 1, vote, s, s'⟩], q.round ≤ r + 1 := by
  intro q hq
  rcases List.mem_append.1 hq with hq | hq
  · exact Nat.le_succ_of_le (h.rounds q hq)
  · rw [List.mem_singleton.1 hq]

/-- A round that starts without a pending upgrade. -/
theorem VoteInv.idle (h : VoteInv protocols tr (s, r)) (hidle : s.cleared = s)
    (hknown : protocols s.currentProtocol = some params) (hv : 1 ≤ params.upgradeVoteRounds)
    (hfit : r + 1 + params.upgradeVoteRounds + max params.defaultUpgradeWaitRounds params.maxUpgradeWaitRounds < u64Bound)
    (hok : applyUpgradeVote s (r + 1) vote params = .ok s') :
    VoteInv protocols (tr ++ [⟨r + 1, vote, s, s'⟩]) (s', r + 1) := by
  have hnone : s.nextProtocol = "" := by rw [← hidle]; rfl
  have hnot : ∀ p params, ¬ Open protocols tr s r p params := by
    intro p params hopen
    exact hopen.proposes (by rw [← hopen.next, hnone])
  have hold : ∀ p ∈ tr, p.vote.upgradePropose ≠ "" → ∀ params, protocols p.before.currentProtocol = some params →
      p.round + params.upgradeVoteRounds ≤ r := by
    intro p hp hne params hk
    by_contra hlt
    exact hnot p params (h.recent p hp hne params hk (Nat.lt_of_not_le hlt))
  have hsame : s'.currentProtocol = s.currentProtocol := by
    rcases applyUpgradeVote_idle hidle (Nat.le_add_left 1 r) hv hfit hok with ⟨-, rfl⟩ | ⟨-, rfl⟩ <;> rfl
  have hswitches : SwitchRule protocols (tr ++ [⟨r + 1, vote, s, s'⟩]) :=
    h.switches.snoc h.lt_succ fun hne => absurd hsame hne
  have hvote : ∀ params', protocols s.currentProtocol = some params' → 1 ≤ params'.upgradeVoteRounds := by
    intro params' hk
    rw [hknown] at hk
    cases hk
    exact hv
  rcases applyUpgradeVote_idle hidle (Nat.le_add_left 1 r) hv hfit hok with ⟨hp, rfl⟩ | ⟨hp, hs'⟩
  · refine ⟨h.rounds_snoc vote, .inl hidle, ?_, hswitches, ?_⟩
    · intro p hmem hne params' hk hlt
      rcases List.mem_append.1 hmem with hmem | hmem
      · have := hold p hmem hne params' hk
        omega
      · rw [List.mem_singleton.1 hmem] at hne
        exact absurd hp hne
    · refine h.clears.snoc h.lt_succ hvote (fun hne => absurd hp hne) fun p hmem hne params' hk _ => ?_
      have := hold p hmem hne params' hk
      exact ⟨fun hlt => by simp only at hlt; omega, fun heq => by simp only at heq; omega⟩
  · have hopen : Open protocols (tr ++ [⟨r + 1, vote, s, s'⟩]) s' (r + 1) ⟨r + 1, vote, s, s'⟩ params := by
      have hcount : s'.nextProtocolApprovals =
          approvals (tr ++ [⟨r + 1, vote, s, s'⟩]) (r + 1) (r + 1 + params.upgradeVoteRounds) := by
        rw [approvals_snoc, approvals_eq_zero h.lt_succ, hs']
        by_cases ha : vote.upgradeApprove = true
        · simp only [ha, if_true]
          rw [if_pos ⟨le_rfl, by omega, trivial⟩]
        · simp [ha]
      subst hs'
      refine ⟨List.mem_append_right _ (List.mem_singleton.2 rfl), hknown, rfl, hp, rfl, hcount, ?_, rfl, rfl, ?_, le_rfl,
        ?_, fun hle => ?_⟩
      · show (if vote.upgradeApprove = true then 1 else 0) ≤ r + 1
        split <;> omega
      · intro q hq hlt
        rcases List.mem_append.1 hq with hq | hq
        · exact absurd (h.lt_succ q hq) (Nat.not_lt.2 (Nat.le_of_lt hlt))
        · rw [List.mem_singleton.1 hq] at hlt
          exact absurd hlt (Nat.lt_irrefl _)
      · show r + 1 < r + 1 + params.upgradeVoteRounds + effectiveDelay params vote
        omega
      · exact absurd hle (Nat.not_le.2 (Nat.lt_add_of_pos_right hv))
    refine ⟨h.rounds_snoc vote, .inr ⟨_, _, hopen⟩, ?_, hswitches, ?_⟩
    · intro p hmem hne params' hk hlt
      rcases List.mem_append.1 hmem with hmem | hmem
      · have := hold p hmem hne params' hk
        omega
      · rw [List.mem_singleton.1 hmem] at hk ⊢
        have hk' : some params = some params' := by rw [← hknown]; exact hk
        cases hk'
        exact hopen
    · refine h.clears.snoc h.lt_succ hvote (fun _ => by rw [hs']) fun p hmem hne params' hk _ => ?_
      have := hold p hmem hne params' hk
      exact ⟨fun hlt => by simp only at hlt; omega, fun heq => by simp only at heq; omega⟩

/-- A round of a pending upgrade. -/
theorem VoteInv.pending (h : VoteInv protocols tr (s, r)) {p : Ballot} (hopen : Open protocols tr s r p params)
    (hv : 1 ≤ params.upgradeVoteRounds) (hfit : r + 1 < u64Bound)
    (hok : applyUpgradeVote s (r + 1) vote params = .ok s') :
    VoteInv protocols (tr ++ [⟨r + 1, vote, s, s'⟩]) (s', r + 1) := by
  have hnext : s.nextProtocol ≠ "" := by rw [hopen.next]; exact hopen.proposes
  have hdates : s.nextProtocolVoteBefore ≤ s.nextProtocolSwitchOn := by
    rw [hopen.voteBefore, hopen.switchOn]
    exact Nat.le_add_right _ _
  have happ : s.nextProtocolApprovals + 1 < u64Bound := Nat.lt_of_le_of_lt (Nat.succ_le_succ hopen.approvals_le) hfit
  have hvote : ∀ params', protocols s.currentProtocol = some params' → 1 ≤ params'.upgradeVoteRounds := by
    intro params' hk
    rw [hopen.known] at hk
    cases hk
    exact hv
  obtain ⟨hp, hcases⟩ := applyUpgradeVote_pending hnext (Nat.le_add_left 1 r) hdates happ hok
  -- a proposal whose deadline is not over is the pending one
  have hrecent : ∀ q ∈ tr, q.vote.upgradePropose ≠ "" → ∀ params', protocols q.before.currentProtocol = some params' →
      r < q.round + params'.upgradeVoteRounds → Open protocols tr s r q params' := h.recent
  rcases hcases with ⟨hlt, hs'⟩ | ⟨ha, hdead, hfew, hs'⟩ | ⟨ha, hdead, hpass, hrest⟩
  · have hsnoc : ∀ q params', Open protocols tr s r q params' →
        Open protocols (tr ++ [⟨r + 1, vote, s, s'⟩]) s' (r + 1) q params' := fun q params' ho =>
      ho.snoc rfl hp (fun _ => hlt) (Nat.ne_of_lt (Nat.lt_of_lt_of_le hlt hdates))
        (fun hd => absurd hd (Nat.ne_of_gt hlt)) hs'
    refine ⟨h.rounds_snoc vote, .inr ⟨p, params, hsnoc p params hopen⟩, ?_, ?_, ?_⟩
    · intro q hq hne params' hk hlt'
      rcases List.mem_append.1 hq with hq | hq
      · exact hsnoc q params' (hrecent q hq hne params' hk (Nat.lt_of_succ_lt hlt'))
      · rw [List.mem_singleton.1 hq] at hne
        exact absurd hp hne
    · exact h.switches.snoc h.lt_succ fun hne => absurd (by rw [hs']) hne
    · refine h.clears.snoc h.lt_succ hvote (fun hne => absurd hp hne) fun q hq hne params' hk _ =>
        ⟨fun hq' => ?_, fun hq' => ?_⟩
      · have ho := hrecent q hq hne params' hk (Nat.lt_of_succ_lt hq')
        rw [hs']
        exact ho.next
      · have ho := hrecent q hq hne params' hk (by simp only at hq'; omega)
        rw [ho.voteBefore] at hlt
        exact absurd hq' (Nat.ne_of_lt hlt)
  · refine ⟨h.rounds_snoc vote, .inl (by rw [hs']; rfl), ?_, ?_, ?_⟩
    · intro q hq hne params' hk hlt'
      rcases List.mem_append.1 hq with hq | hq
      · have ho := hrecent q hq hne params' hk (Nat.lt_of_succ_lt hlt')
        rw [ho.voteBefore] at hdead
        exact absurd hdead (Nat.ne_of_lt hlt')
      · rw [List.mem_singleton.1 hq] at hne
        exact absurd hp hne
    · exact h.switches.snoc h.lt_succ fun hne => absurd (by rw [hs']; rfl) hne
    · refine h.clears.snoc h.lt_succ hvote (fun hne => absurd hp hne) fun q hq hne params' hk _ =>
        ⟨fun hq' => ?_, fun hq' => ?_⟩
      · have ho := hrecent q hq hne params' hk (Nat.lt_of_succ_lt hq')
        rw [ho.voteBefore] at hdead
        exact absurd hdead (Nat.ne_of_lt hq')
      · have ho := hrecent q hq hne params' hk (by simp only at hq'; omega)
        rw [hs']
        unfold UpgradeState.cleared
        rw [ho.protocol]
  · -- the deadline is over: only a proposal that was approved is still pending
    have hover : ∀ q ∈ tr, q.vote.upgradePropose ≠ "" → ∀ params', protocols q.before.currentProtocol = some params' →
        approvals tr q.round (q.round + params'.upgradeVoteRounds) < params'.upgradeThreshold →
        q.round + params'.upgradeVoteRounds ≤ r := by
      intro q hq hne params' hk hfew
      by_contra hlt
      have ho := hrecent q hq hne params' hk (Nat.lt_of_not_le hlt)
      have hk' : some params = some params' := by rw [← hopen.known, ho.known]
      cases hk'
      have hd : r + 1 = s.nextProtocolVoteBefore := by
        rw [ho.voteBefore] at hdead ⊢
        exact Nat.le_antisymm (Nat.lt_of_not_le hlt) hdead
      have := hpass hd
      rw [ho.counted] at this
      omega
    have hclears : ClearRule protocols (tr ++ [⟨r + 1, vote, s, s'⟩]) := by
      refine h.clears.snoc h.lt_succ hvote (fun hne => absurd hp hne) fun q hq hne params' hk hfew => ?_
      have := hover q hq hne params' hk hfew
      exact ⟨fun hlt => by simp only at hlt; omega, fun heq => by simp only at heq; omega⟩
    have hnone : ∀ q ∈ tr ++ [⟨r + 1, vote, s, s'⟩], q.vote.upgradePropose ≠ "" → ∀ params',
        protocols q.before.currentProtocol = some params' → r + 1 < q.round + params'.upgradeVoteRounds →
        Open protocols (tr ++ [⟨r + 1, vote, s, s'⟩]) s' (r + 1) q params' := by
      intro q hq hne params' hk hlt'
      rcases List.mem_append.1 hq with hq | hq
      · have ho := hrecent q hq hne params' hk (Nat.lt_of_succ_lt hlt')
        rw [ho.voteBefore] at hdead
        exact absurd hlt' (Nat.not_lt.2 hdead)
      · rw [List.mem_singleton.1 hq] at hne
        exact absurd hp hne
    have hpassed : params.upgradeThreshold ≤ s.nextProtocolApprovals := by
      rcases Nat.lt_or_ge r s.nextProtocolVoteBefore with hlt | hge
      · exact hpass (Nat.le_antisymm hlt hdead)
      · exact hopen.passed hge
    rcases hrest with ⟨hwait, hs'⟩ | ⟨hswitch, hs'⟩
    · refine ⟨h.rounds_snoc vote, .inr ⟨p, params, ?_⟩, hnone, ?_, hclears⟩
      · refine hopen.snoc rfl hp (fun ha' => ?_) hwait (fun _ => hpassed) ?_
        · rw [ha] at ha'
          cases ha'
        · rw [hs', ha]
          rfl
      · exact h.switches.snoc h.lt_succ fun hne => absurd (by rw [hs']) hne
    · refine ⟨h.rounds_snoc vote, .inl (by rw [hs']; rfl), hnone, ?_, hclears⟩
      exact h.switches.snoc h.lt_succ fun _ => ⟨p, params, hopen, hp, by rw [hs'], hswitch, hpassed⟩

end Invariant

section Runs

variable {protocols : String → Option ConsensusParams} {last : Nat}

theorem upgradeStep_ok {st st' : UpgradeState × Nat} {vote : UpgradeVote} {bs : List Ballot}
    (h : upgradeStep protocols st vote = .ok (st', bs)) :
    ∃ params s', protocols st.1.currentProtocol = some params ∧ applyUpgradeVote st.1 (st.2 + 1) vote params = .ok s' ∧
      st' = (s', st.2 + 1) ∧ bs = [⟨st.2 + 1, vote, st.1, s'⟩] := by
  unfold upgradeStep at h
  split at h
  · cases h
  · rename_i params hknown
    split at h
    · cases h
    · rename_i s' hok
      cases h
      exact ⟨params, s', hknown, hok, rfl, rfl⟩

theorem VoteInv.step (hv : ∀ p params, protocols p = some params → 1 ≤ params.upgradeVoteRounds)
    (hfit : RoundsFit protocols last) {tr bs : List Ballot} {st st' : UpgradeState × Nat} {vote : UpgradeVote}
    (h : VoteInv protocols tr st) (hlast : st.2 + 1 ≤ last) (hok : upgradeStep protocols st vote = .ok (st', bs)) :
    VoteInv protocols (tr ++ bs) st' ∧ st'.2 = st.2 + 1 := by
  obtain ⟨params, s', hknown, hvote, rfl, rfl⟩ := upgradeStep_ok hok
  have hfit := hfit _ params hknown
  refine ⟨?_, rfl⟩
  rcases h.state with hidle | ⟨p, params', hopen⟩
  · exact h.idle hidle hknown (hv _ params hknown) (by omega) hvote
  · have hsame : params' = params := Option.some.inj (hopen.known.symm.trans hknown)
    subst hsame
    exact h.pending hopen (hv _ params' hknown) (by omega) hvote

theorem VoteInv.run (hv : ∀ p params, protocols p = some params → 1 ≤ params.upgradeVoteRounds)
    (hfit : RoundsFit protocols last) :
    ∀ (votes : List UpgradeVote) (tr tr' : List Ballot) (st st' : UpgradeState × Nat), VoteInv protocols tr st →
      st.2 + votes.length ≤ last → Run.run (upgradeStep protocols) st votes = .ok (st', tr') →
      VoteInv protocols (tr ++ tr') st'
  | [], tr, _, st, _, h, _, hrun => by
    cases hrun
    rw [List.append_nil]
    exact h
  | vote :: votes, tr, _, st, _, h, hlast, hrun => by
    rw [List.length_cons] at hlast
    obtain ⟨st₁, bs, st₂, tr₂, h₁, h₂, hc⟩ := Run.run_cons_eq_ok.1 hrun
    cases hc
    obtain ⟨hinv, hround⟩ := h.step hv hfit (by omega) h₁
    rw [← List.append_assoc]
    exact VoteInv.run hv hfit votes _ _ _ _ hinv (by omega) h₂

/-- Every run from a state without a pending upgrade follows the voting rule. -/
theorem upgradeRun_rules (hv : ∀ p params, protocols p = some params → 1 ≤ params.upgradeVoteRounds)
    (hfit : RoundsFit protocols last) {s : UpgradeState} {r : Nat} {votes : List UpgradeVote}
    {st' : UpgradeState × Nat} {tr : List Ballot} (hidle : s.cleared = s) (hlast : r + votes.length ≤ last)
    (hrun : Run.run (upgradeStep protocols) (s, r) votes = .ok (st', tr)) :
    SwitchRule protocols tr ∧ ClearRule protocols tr := by
  have hnil : VoteInv protocols [] (s, r) := by
    refine ⟨?_, .inl hidle, ?_, ?_, ?_⟩
    all_goals
      intro b hb
      cases hb
  have hinv := VoteInv.run hv hfit votes [] tr _ _ hnil hlast hrun
  exact ⟨hinv.switches, hinv.clears⟩

end Runs

/-! ## The votes of the node's own headers -/

/-- What the protocol table promises of the upgrades it approves: they are known protocols with a name, and neither the
name nor the delay is out of bounds. -/
def ApprovedUpgradesOk (protocols : String → Option ConsensusParams) : Prop :=
  ∀ p params, protocols p = some params → ∀ target delay, params.approvedUpgrade = some (target, delay) →
    target ≠ "" ∧ (∃ params', protocols target = some params') ∧ params.minUpgradeWaitRounds ≤ delay ∧
      delay ≤ params.maxUpgradeWaitRounds ∧ target.utf8ByteSize ≤ params.maxVersionStringLen

/-- Make the next header.  The step emits it with the header before it. -/
def headerStep (protocols : String → Option ConsensusParams) (digest : BlockHeader → Bytes32)
    (digest512 : BlockHeader → Bytes64) (h : BlockHeader) (inputs : HeaderInputs) :
    Except NextHeaderError (BlockHeader × List (BlockHeader × BlockHeader)) := do
  let h' ← makeNextBlockHeader protocols digest digest512 h inputs
  return (h', [(h, h')])

/-- The vote of `h'` is one that its predecessor `h` accepts. -/
def VoteAccepted (protocols : String → Option ConsensusParams) (h h' : BlockHeader) : Prop :=
  ∃ params, protocols h.currentProtocol = some params ∧
    applyUpgradeVote h.upgradeState h'.round h'.upgradeVote params = .ok h'.upgradeState

/-- An upgrade that is pending in a header of the node's own is one that its protocol approves. -/
structure HeaderInv (protocols : String → Option ConsensusParams) (h : BlockHeader) (params : ConsensusParams) : Prop where
  known : protocols h.currentProtocol = some params
  state : h.upgradeState.cleared = h.upgradeState ∨
    (∃ delay, params.approvedUpgrade = some (h.nextProtocol, delay)) ∧
      h.nextProtocolVoteBefore ≤ h.nextProtocolSwitchOn ∧ h.nextProtocolApprovals ≤ h.round

section Headers

variable {protocols : String → Option ConsensusParams} {last : Nat} {digest : BlockHeader → Bytes32}
  {digest512 : BlockHeader → Bytes64} {h : BlockHeader} {params : ConsensusParams}

/-- A block may always abstain. -/
theorem applyUpgradeVote_abstain (s : UpgradeState) (r : Nat) (params : ConsensusParams) :
    ∃ s', applyUpgradeVote s r ⟨"", 0, false⟩ params = .ok s' :=
  ⟨_, applyUpgradeVote_eq_ok rfl rfl⟩

theorem applyUpgradeVote_approve {s : UpgradeState} {r : Nat} (hnext : s.nextProtocol ≠ "")
    (hlt : r < s.nextProtocolVoteBefore) (params : ConsensusParams) :
    ∃ s', applyUpgradeVote s r ⟨"", 0, true⟩ params = .ok s' := by
  have happ : applyApproval s r ⟨"", 0, true⟩ =
      .ok { s with nextProtocolApprovals := wrapAdd s.nextProtocolApprovals 1 } := by
    simp [applyApproval, hnext, Nat.not_le.2 hlt]
  exact ⟨_, applyUpgradeVote_eq_ok rfl happ⟩

theorem applyUpgradeVote_propose {s : UpgradeState} {r delay : Nat} {target : String} (hnext : s.nextProtocol = "")
    (htarget : target ≠ "") (hlen : target.utf8ByteSize ≤ params.maxVersionStringLen)
    (hmin : params.minUpgradeWaitRounds ≤ delay) (hmax : delay ≤ params.maxUpgradeWaitRounds)
    (hv : 1 ≤ params.upgradeVoteRounds) (hfit : r + params.upgradeVoteRounds < u64Bound) :
    ∃ s', applyUpgradeVote s r ⟨target, delay, true⟩ params = .ok s' := by
  have hdead : r < wrapAdd r params.upgradeVoteRounds := by
    rw [wrapAdd_of_lt hfit]
    omega
  have hdelay : ¬ (delay > params.maxUpgradeWaitRounds ∨ delay < params.minUpgradeWaitRounds) := by omega
  have hprop : ∃ s₁, applyProposal s r ⟨target, delay, true⟩ params = .ok s₁ ∧ s₁.nextProtocol = target ∧
      s₁.nextProtocolVoteBefore = wrapAdd r params.upgradeVoteRounds := by
    unfold applyProposal
    rw [if_pos (by simpa using htarget), if_neg (by simpa using hnext), if_neg (Nat.not_lt.2 hlen), if_neg hdelay]
    exact ⟨_, rfl, rfl, rfl⟩
  obtain ⟨s₁, hs₁, hnext₁, hbefore⟩ := hprop
  have happ : applyApproval s₁ r ⟨target, delay, true⟩ =
      .ok { s₁ with nextProtocolApprovals := wrapAdd s₁.nextProtocolApprovals 1 } := by
    simp [applyApproval, hnext₁, htarget, hbefore, hdead]
  exact ⟨_, applyUpgradeVote_eq_ok hs₁ happ⟩

/-- The node's own vote is accepted. -/
theorem HeaderInv.vote_ok (hinv : HeaderInv protocols h params) (happroved : ApprovedUpgradesOk protocols)
    (hv : 1 ≤ params.upgradeVoteRounds) (hfit : h.round + 1 + params.upgradeVoteRounds < u64Bound) :
    ∃ s', applyUpgradeVote h.upgradeState (h.round + 1) (defaultVote h params) params = .ok s' := by
  have hround : wrapAdd h.round 1 = h.round + 1 := wrapAdd_of_lt (Nat.lt_of_le_of_lt (Nat.le_add_right _ _) hfit)
  rcases hinv.state with hidle | ⟨⟨delay, hup⟩, -, -⟩
  · have hnext : h.nextProtocol = "" := (congrArg UpgradeState.nextProtocol hidle).symm
    have hbefore : h.nextProtocolVoteBefore = 0 := (congrArg UpgradeState.nextProtocolVoteBefore hidle).symm
    cases hup : params.approvedUpgrade with
    | none =>
      have hvote : defaultVote h params = ⟨"", 0, false⟩ := by simp [defaultVote, hnext, hbefore, hup]
      rw [hvote]
      exact applyUpgradeVote_abstain _ _ _
    | some upgrade =>
      obtain ⟨htarget, -, hmin, hmax, hlen⟩ := happroved _ params hinv.known upgrade.1 upgrade.2 hup
      have hvote : defaultVote h params = ⟨upgrade.1, upgrade.2, true⟩ := by simp [defaultVote, hnext, hbefore, hup]
      rw [hvote]
      exact applyUpgradeVote_propose hnext htarget hlen hmin hmax hv hfit
  · have hne := (happroved _ params hinv.known _ _ hup).1
    by_cases hlt : h.round + 1 < h.nextProtocolVoteBefore
    · have hvote : defaultVote h params = ⟨"", 0, true⟩ := by simp [defaultVote, hne, hup, hround, hlt]
      rw [hvote]
      exact applyUpgradeVote_approve hne hlt params
    · have hvote : defaultVote h params = ⟨"", 0, false⟩ := by simp [defaultVote, hne, hround, hlt]
      rw [hvote]
      exact applyUpgradeVote_abstain _ _ _

/-- The state after the node's own vote is that of a header of its own. -/
theorem HeaderInv.vote_state (hinv : HeaderInv protocols h params) (happroved : ApprovedUpgradesOk protocols)
    (hv : 1 ≤ params.upgradeVoteRounds)
    (hfit : h.round + 1 + params.upgradeVoteRounds + max params.defaultUpgradeWaitRounds params.maxUpgradeWaitRounds <
      u64Bound) {s' : UpgradeState}
    (hok : applyUpgradeVote h.upgradeState (h.round + 1) (defaultVote h params) params = .ok s') :
    ∃ params', protocols s'.currentProtocol = some params' ∧
      (s'.cleared = s' ∨ (∃ delay, params'.approvedUpgrade = some (s'.nextProtocol, delay)) ∧
        s'.nextProtocolVoteBefore ≤ s'.nextProtocolSwitchOn ∧ s'.nextProtocolApprovals ≤ h.round + 1) := by
  have hround : 1 ≤ h.round + 1 := Nat.le_add_left _ _
  rcases hinv.state with hidle | ⟨⟨delay, hup⟩, hdates, happ⟩
  · rcases applyUpgradeVote_idle hidle hround hv hfit hok with ⟨-, rfl⟩ | ⟨hp, rfl⟩
    · exact ⟨params, hinv.known, .inl hidle⟩
    · refine ⟨params, hinv.known, .inr ⟨?_, Nat.le_add_right _ _, ?_⟩⟩
      · -- only the approved upgrade is proposed
        have hnext : h.nextProtocol = "" := (congrArg UpgradeState.nextProtocol hidle).symm
        have hbefore : h.nextProtocolVoteBefore = 0 := (congrArg UpgradeState.nextProtocolVoteBefore hidle).symm
        cases hup : params.approvedUpgrade with
        | none => simp [defaultVote, hnext, hbefore, hup] at hp
        | some upgrade => exact ⟨upgrade.2, by simp [defaultVote, hnext, hbefore, hup]⟩
      · show (if (defaultVote h params).upgradeApprove = true then 1 else 0) ≤ h.round + 1
        split
        · exact hround
        · exact Nat.zero_le _
  · have hne := (happroved _ params hinv.known _ _ hup).1
    have hlt : h.nextProtocolApprovals + 1 < u64Bound := by
      have hle := Nat.le_of_lt_succ (Nat.lt_succ_of_le happ)
      refine Nat.lt_of_le_of_lt (Nat.succ_le_succ hle) (Nat.lt_of_le_of_lt ?_ hfit)
      exact Nat.le_trans (Nat.le_add_right _ _) (Nat.le_add_right _ _)
    obtain ⟨-, hcases⟩ := applyUpgradeVote_pending hne hround hdates hlt hok
    rcases hcases with ⟨-, rfl⟩ | ⟨-, -, -, rfl⟩ | ⟨-, -, -, ⟨-, rfl⟩ | ⟨-, rfl⟩⟩
    · refine ⟨params, hinv.known, .inr ⟨⟨delay, hup⟩, hdates, ?_⟩⟩
      show h.nextProtocolApprovals + (if (defaultVote h params).upgradeApprove = true then 1 else 0) ≤ h.round + 1
      split
      · exact Nat.succ_le_succ happ
      · exact Nat.le_succ_of_le happ
    · exact ⟨params, hinv.known, .inl rfl⟩
    · exact ⟨params, hinv.known, .inr ⟨⟨delay, hup⟩, hdates, Nat.le_succ_of_le happ⟩⟩
    · obtain ⟨-, ⟨params', hknown⟩, -⟩ := happroved _ params hinv.known _ _ hup
      exact ⟨params', hknown, .inl rfl⟩

/-- The node makes its next header, and the vote in it is accepted. -/
theorem HeaderInv.step (hinv : HeaderInv protocols h params) (happroved : ApprovedUpgradesOk protocols)
    (hv : 1 ≤ params.upgradeVoteRounds)
    (hfit : h.round + 1 + params.upgradeVoteRounds + max params.defaultUpgradeWaitRounds params.maxUpgradeWaitRounds <
      u64Bound) (inputs : HeaderInputs) :
    ∃ h' params', headerStep protocols digest digest512 h inputs = .ok (h', [(h, h')]) ∧ h'.round = h.round + 1 ∧
      VoteAccepted protocols h h' ∧ HeaderInv protocols h' params' := by
  have hle : h.round + 1 + params.upgradeVoteRounds < u64Bound := Nat.lt_of_le_of_lt (Nat.le_add_right _ _) hfit
  have hround : wrapAdd h.round 1 = h.round + 1 := wrapAdd_of_lt (Nat.lt_of_le_of_lt (Nat.le_add_right _ _) hle)
  obtain ⟨s', hok⟩ := hinv.vote_ok happroved hv hle
  obtain ⟨params', hknown, hstate⟩ := hinv.vote_state happroved hv hfit hok
  have hprocess : processUpgradeParams h params = .ok (defaultVote h params, s') := by
    unfold processUpgradeParams
    simp only [hround, hok, Run.ok_bind]
    rfl
  have hmake : ∃ h', makeNextBlockHeader protocols digest digest512 h inputs = .ok h' ∧ h'.round = wrapAdd h.round 1 ∧
      h'.upgradeVote = defaultVote h params ∧ h'.upgradeState = s' := by
    unfold makeNextBlockHeader
    simp only [hinv.known, hprocess, hknown]
    exact ⟨_, rfl, rfl, rfl, rfl⟩
  obtain ⟨h', hmade, hr, hvote, hs'⟩ := hmake
  rw [hround] at hr
  refine ⟨h', params', ?_, hr, ⟨params, hinv.known, ?_⟩, ?_, ?_⟩
  · unfold headerStep
    rw [hmade]
    rfl
  · rw [hr, hvote, hs', hok]
  · rw [← hs'] at hknown
    exact hknown
  · rw [← hs'] at hstate
    rw [hr]
    exact hstate

theorem HeaderInv.run (happroved : ApprovedUpgradesOk protocols)
    (hv : ∀ p params, protocols p = some params → 1 ≤ params.upgradeVoteRounds) (hfit : RoundsFit protocols last) :
    ∀ (inputs : List HeaderInputs) (h : BlockHeader) (params : ConsensusParams), HeaderInv protocols h params →
      h.round + inputs.length ≤ last →
      ∃ h' hs, Run.run (headerStep protocols digest digest512) h inputs = .ok (h', hs) ∧
        ∀ e ∈ hs, VoteAccepted protocols e.1 e.2
  | [], h, _, _, _ => ⟨h, [], rfl, fun _ he => by cases he⟩
  | i :: inputs, h, params, hinv, hlast => by
    rw [List.length_cons] at hlast
    have hle : h.round + 1 ≤ last := Nat.le_trans (Nat.add_le_add_left (Nat.le_add_left 1 _) _) hlast
    have hfits := hfit _ params hinv.known
    obtain ⟨h₁, params₁, hstep, hround, hacc, hinv₁⟩ :=
      hinv.step happroved (hv _ params hinv.known)
        (Nat.lt_of_le_of_lt (Nat.add_le_add_right (Nat.add_le_add_right hle _) _) hfits) i
    have hlast₁ : h₁.round + inputs.length ≤ last := by
      rw [hround]
      exact Nat.le_trans (Nat.le_of_eq (Nat.add_right_comm _ _ _)) hlast
    obtain ⟨h', hs, hrun, hall⟩ := HeaderInv.run happroved hv hfit inputs h₁ params₁ hinv₁ hlast₁
    refine ⟨h', (h, h₁) :: hs, Run.run_cons_eq_ok.2 ⟨_, _, _, _, hstep, hrun, rfl⟩, fun e he => ?_⟩
    rcases List.mem_cons.1 he with rfl | he
    · exact hacc
    · exact hall e he

end Headers

/-- **Protocol upgrades follow the voting rule.**  In every run of accepted votes from a state without a pending upgrade
the protocol switches, and proposals are dropped, as the rule says; and the votes that the node's own headers cast are
accepted, header after header. -/
theorem upgrade_votingRule (protocols : String → Option ConsensusParams)
    (hv : ∀ p params, protocols p = some params → 1 ≤ params.upgradeVoteRounds) (last : Nat)
    (hfit : RoundsFit protocols last) :
    (∀ (s : UpgradeState) (r : Nat) (votes : List UpgradeVote) (st' : UpgradeState × Nat) (tr : List Ballot),
      s.cleared = s → r + votes.length ≤ last → Run.run (upgradeStep protocols) (s, r) votes = .ok (st', tr) →
      SwitchRule protocols tr ∧ ClearRule protocols tr) ∧
    (ApprovedUpgradesOk protocols → ∀ (digest : BlockHeader → Bytes32) (digest512 : BlockHeader → Bytes64)
      (h : BlockHeader) (params : ConsensusParams) (inputs : List HeaderInputs),
      protocols h.currentProtocol = some params → h.upgradeState.cleared = h.upgradeState →
      h.round + inputs.length ≤ last →
      ∃ h' hs, Run.run (headerStep protocols digest digest512) h inputs = .ok (h', hs) ∧
        ∀ e ∈ hs, VoteAccepted protocols e.1 e.2) := by
  constructor
  · intro s r votes st' tr hidle hlast hrun
    exact upgradeRun_rules hv hfit hidle hlast hrun
  · intro happroved digest digest512 h params inputs hknown hidle hlast
    exact HeaderInv.run happroved hv hfit inputs h params ⟨hknown, .inl hidle⟩ hlast

/-- A table of two protocols, the first of which approves the second. -/
def twoProtocols (p : String) : Option ConsensusParams :=
  let params := { (default : ConsensusParams) with
    maxVersionStringLen := 64
    maxUpgradeWaitRounds := 5
    upgradeVoteRounds := 2
    upgradeThreshold := 1 }
  if p = "v1" then some { params with approvedUpgrade := some ("v2", 1) }
  else if p = "v2" then some params
  else none

/-- A vote of two rounds, a wait of one, and the switch. -/
theorem upgrade_votingRule_twoProtocols :
    (∃ st tr, Run.run (upgradeStep twoProtocols) (⟨"v1", "", 0, 0, 0⟩, 7)
        [⟨"v2", 1, false⟩, ⟨"", 0, true⟩, ⟨"", 0, false⟩, ⟨"", 0, false⟩] = .ok (st, tr) ∧
      st.1.currentProtocol = "v2" ∧ SwitchRule twoProtocols tr) ∧
    ∃ h' hs, Run.run (headerStep twoProtocols (fun _ => 0) (fun _ => 0))
        { (default : BlockHeader) with currentProtocol := "v1", round := 7 } (List.replicate 4 ⟨0, default, ([], 0)⟩) =
        .ok (h', hs) ∧ ∀ e ∈ hs, VoteAccepted twoProtocols e.1 e.2 := by
  have hv : ∀ p params, twoProtocols p = some params → 1 ≤ params.upgradeVoteRounds := by
    intro p params hp
    simp only [twoProtocols] at hp
    split_ifs at hp <;> cases hp <;> decide
  have hfit : RoundsFit twoProtocols 20 := by
    intro p params hp
    simp only [twoProtocols] at hp
    split_ifs at hp <;> cases hp <;> decide
  have happroved : ApprovedUpgradesOk twoProtocols := by
    intro p params hp target delay hup
    simp only [twoProtocols] at hp
    split_ifs at hp
    · cases hp
      cases hup
      exact ⟨by decide, ⟨_, rfl⟩, by decide, by decide, by decide⟩
    · cases hp
      cases hup
  obtain ⟨⟨st, tr⟩, hrun, hst⟩ := @Run.ok_of_any _ _ (Run.run (upgradeStep twoProtocols) (⟨"v1", "", 0, 0, 0⟩, 7)
    [⟨"v2", 1, false⟩, ⟨"", 0, true⟩, ⟨"", 0, false⟩, ⟨"", 0, false⟩])
    (fun r => decide (r.1.1.currentProtocol = "v2")) (by decide)
  have hrule := upgrade_votingRule twoProtocols hv 20 hfit
  refine ⟨⟨st, tr, hrun, of_decide_eq_true hst, (hrule.1 _ _ _ _ _ rfl (by decide) hrun).1⟩, ?_⟩
  exact hrule.2 happroved _ _ _ _ _ rfl rfl (by decide)

end Ledger
end Algod
