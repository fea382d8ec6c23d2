import AlgodRust.Agreement.PlayerEffect
/-!
# PlayerRuns — timeouts, and what every run of the player votes

A timeout is the only event that casts a soft vote or a next-vote, and each one moves the clock of the player past the
vote it casts (`Ticks`).  So along a run the soft votes and numbered next-votes are stamped in order, and no step votes
twice; cert votes are all for the one value the thresholds of their period agree on.
-/
namespace Algod
namespace Agreement

open Run (bind_eq_ok ok_of_any Path Logged)

/-- The votes a player may cast once only in a period: the soft vote and the numbered next-votes. -/
def PseudonodeAction.Counted (a : PseudonodeAction) : Prop := a.step = soft ∨ next ≤ a.step ∧ a.step < late

instance : DecidablePred PseudonodeAction.Counted := fun a => by unfold PseudonodeAction.Counted; infer_instance

/-- When a vote is due, on the clock of the player. -/
def PseudonodeAction.stamp (a : PseudonodeAction) : Position ×ₗ Nat := toLex (a.position, 2 * a.step)

def counted (as : List Action) : List PseudonodeAction := (attests as).filter (fun a => decide a.Counted)

theorem counted_append (as bs : List Action) : counted (as ++ bs) = counted as ++ counted bs := by
  unfold counted
  rw [attests_append, List.filter_append]

namespace Machine

/-- What a timeout does. -/
structure Ticks (m : Machine) (as : List Action) (m' : Machine) : Prop where
  inv : m'.Inv
  formed : m'.formed = m.formed
  position : m'.position = m.position
  holds : ∀ v, m.Holds v → m'.Holds v
  log : Logged PseudonodeAction.stamp m.now (counted as) m'.now
  votes : ∀ a ∈ attests as, a.position = m.position ∧
    (a.step = soft ∨ next ≤ a.step ∧ a.proposal = m.nextVoteValue)

section Timeout

variable {m m' : Machine} {as : List Action} {e : TimeoutEvent} {params : ConsensusParams}

/-- A change that keeps the router, or lets it forget old rounds, and the player's round and period. -/
structure Idles (m m' : Machine) : Prop where
  inv : m'.Inv
  formed : m'.formed = m.formed
  round : m'.player.round = m.player.round
  period : m'.player.period = m.player.period
  store : m'.store m.player.round = m.store m.player.round
  status : m'.router.voteAggregator.roundTracker m.player.round = m.router.voteAggregator.roundTracker m.player.round

theorem Idles.position (h : Idles m m') : m'.position = m.position := by
  unfold Machine.position
  rw [h.round, h.period]

theorem Idles.holds (h : Idles m m') (v : ProposalValue) (hv : m.Holds v) : m'.Holds v := by
  unfold Machine.Holds at *
  rw [h.round, h.period, h.store]
  exact hv

theorem Idles.nextVoteValue (h : Idles m m') : m'.nextVoteValue = m.nextVoteValue := by
  unfold Machine.nextVoteValue stagedValue nextThresholdStatus
  simp only
  rw [h.round, h.period, h.store, h.status]

theorem Idles.trans {m'' : Machine} (h : Idles m m') (h' : Idles m' m'') : Idles m m'' :=
  ⟨h'.inv, h'.formed.trans h.formed, h'.round.trans h.round, h'.period.trans h.period,
    (h.round ▸ h'.store).trans h.store, (h.round ▸ h'.status).trans h.status⟩

theorem idles_update (hi : m.Inv) : Idles m m.update :=
  ⟨hi.update, rfl, rfl, rfl, store_update_of_le (Nat.le_refl _), roundTracker_update_of_le (Nat.le_refl _)⟩

theorem idles_setPlayer (hi : m.Inv) (pl : Player) (hr : pl.round = m.player.round) (hp : pl.period = m.player.period)
    (hs : soft ≤ pl.step) (hpend : pl.pending = m.player.pending) : Idles m { m with player := pl } where
  inv := ⟨hi.votes, hi.stores, hi.staged, hs, by rw [hpend]; exact hi.pending, by
    unfold Machine.Remembers
    rw [hr]
    exact hi.remembers⟩
  formed := rfl
  round := hr
  period := hp
  store := rfl
  status := rfl

theorem fastVote_value (m : Machine) : m.fastVote.2 = m.nextVoteValue := by
  unfold fastVote Machine.nextVoteValue
  simp only
  split
  · split
    · rfl
    · rfl
  · split
    · split
      · rfl
      · rfl
    · rfl

theorem fastVote_step (m : Machine) : late ≤ m.fastVote.1 := by
  have key : ∀ a : Step × ProposalValue, late ≤ a.1 → late ≤ (if a.2 = bottom then (down, a.2) else a).1 := by
    intro a ha
    split
    · exact (by decide : late ≤ down)
    · exact ha
  unfold fastVote
  simp only
  refine key _ ?_
  split
  · exact Nat.le_refl _
  · split
    · exact (by decide : late ≤ redo)
    · exact (by decide : late ≤ down)

theorem not_counted_of_late {a : PseudonodeAction} (h : late ≤ a.step) : ¬ a.Counted := by
  unfold PseudonodeAction.Counted
  intro hc
  rcases hc with hc | ⟨-, hc⟩
  · rw [hc] at h
    exact absurd h (by decide)
  · exact absurd h (not_le.2 hc)

theorem ticks_issueFastVote {m₀ : Machine} (h : Idles m₀ m) (hn : m.now = m₀.now) :
    Ticks m₀ m.issueFastVote.2 m.issueFastVote.1 := by
  have hu := h.trans (idles_update h.inv)
  have hat : attests m.issueFastVote.2 =
      [⟨.attest, m.player.round, m.player.period, m.update.fastVote.1, m.update.fastVote.2⟩] := by
    unfold issueFastVote
    simp only
    rw [attests_append, attests_partitionPolicy]
    rfl
  have hlate := fastVote_step m.update
  refine ⟨hu.inv, hu.formed, hu.position, hu.holds, ?_, ?_⟩
  · unfold counted
    rw [hat, List.filter_cons_of_neg (by simpa using not_counted_of_late hlate)]
    exact .nil (le_of_eq hn.symm)
  · rw [hat]
    intro a ha
    rw [List.mem_singleton] at ha
    subst ha
    refine ⟨h.position, .inr ⟨le_trans (by decide) hlate, ?_⟩⟩
    show m.update.fastVote.2 = _
    rw [fastVote_value, hu.nextVoteValue]

/-- **A fast timeout.** -/
theorem ticks_handleFastTimeout (hi : m.Inv) :
    Ticks m (m.handleFastTimeout e params).2 (m.handleFastTimeout e params).1 := by
  have hquiet : ∀ {m' : Machine}, Idles m m' → m'.now = m.now → Ticks m [] m' := fun h hn =>
    ⟨h.inv, h.formed, h.position, h.holds, .nil (le_of_eq hn.symm), fun _ ha => absurd ha List.not_mem_nil⟩
  unfold handleFastTimeout
  split
  · exact hquiet ⟨hi, rfl, rfl, rfl, rfl, rfl⟩ rfl
  · simp only
    split
    · exact hquiet (idles_setPlayer hi _ rfl rfl hi.step rfl) rfl
    · exact ticks_issueFastVote (idles_setPlayer hi _ rfl rfl hi.step rfl) rfl

/-- The vote of a numbered next step, from a machine whose step still owes it. -/
theorem ticks_issueNextVote {m₀ : Machine} {d : Duration} (h : Idles m₀ m) (hs : next ≤ m.player.step)
    (hlo : m₀.clock ≤ 2 * m.player.step) : Ticks m₀ (m.issueNextVote d).2 (m.issueNextVote d).1 := by
  have hu := h.trans (idles_update h.inv)
  have hat : attests (m.issueNextVote d).2 =
      [⟨.attest, m.player.round, m.player.period, m.player.step, m.update.nextVoteValue⟩] := by
    unfold issueNextVote
    simp only
    rw [attests_append, attests_partitionPolicy]
    rfl
  have hend : Idles m₀ (m.issueNextVote d).1 :=
    hu.trans (idles_setPlayer hu.inv _ rfl rfl hu.inv.step rfl)
  have hclock : (m.issueNextVote d).1.clock = 2 * m.player.step + 1 := by
    unfold clock
    rw [if_neg (not_le.2 hs)]
    rfl
  refine ⟨hend.inv, hend.formed, hend.position, hend.holds, ?_, ?_⟩
  · have hlog : Logged PseudonodeAction.stamp m₀.now
        [⟨.attest, m.player.round, m.player.period, m.player.step, m.update.nextVoteValue⟩]
        (m.issueNextVote d).1.now := by
      refine .single (Prod.Lex.le_iff.2 (.inr ⟨h.position.symm, hlo⟩)) (Prod.Lex.lt_iff.2 (.inr ⟨?_, ?_⟩))
      · exact h.position.trans hend.position.symm
      · show 2 * m.player.step < (m.issueNextVote d).1.clock
        rw [hclock]
        exact Nat.lt_succ_self _
    unfold counted
    rw [hat]
    exact hlog.filter _
  · rw [hat]
    intro a ha
    rw [List.mem_singleton] at ha
    subst ha
    exact ⟨h.position, .inr ⟨hs, hu.nextVoteValue⟩⟩

/-- Freezing the proposal-votes leaves the rest of the store as it is. -/
theorem freezeProposal_spec (hi : m.Inv) : m.freezeProposal.1.Inv ∧ m.freezeProposal.1.formed = m.formed ∧
    m.freezeProposal.1.player = m.player ∧ ∀ v, m.Holds v → m.freezeProposal.1.Holds v := by
  have hstore : m.freezeProposal.1.store m.player.round = (m.store m.player.round).setTracker m.player.period
      ((m.store m.player.round).tracker m.player.period).handleProposalFrozen.1 := by
    unfold freezeProposal
    rw [store_setProposalManager, player_update, ProposalManager.store_setStore, if_pos rfl,
      store_update_of_le (Nat.le_refl _)]
  have hfrozen : ∀ (s : ProposalStore) (p : Period),
      ((s.tracker p).handleProposalFrozen.1).staging = (s.tracker p).staging := fun _ _ => rfl
  have he := effect_setProposalManager hi.update m.freezeProposal.1.router.proposalManager
    (ProposalManager.touches_setStore (ProposalStore.touches_setTracker (hfrozen _ _)))
  refine ⟨he.inv, rfl, rfl, fun v hv => ?_⟩
  show (m.freezeProposal.1.store m.player.round).staging m.player.period = v ∧
    (m.freezeProposal.1.store m.player.round).Assembled v
  rw [hstore, ProposalStore.staging_setTracker_of_eq (hfrozen _ _)]
  exact hv

/-- The soft vote is cast before the clock moves to the cert step. -/
theorem ticks_issueSoftVote (hi : m.Inv) (hsoft : m.player.step = soft) (d : Duration) :
    Ticks m (m.issueSoftVote d).2 { (m.issueSoftVote d).1 with
      player := { (m.issueSoftVote d).1.player with step := cert } } := by
  obtain ⟨hinv, hform, hpl, hholds⟩ := freezeProposal_spec hi
  have hend : Idles m.freezeProposal.1 { (m.issueSoftVote d).1 with
      player := { (m.issueSoftVote d).1.player with step := cert } } :=
    idles_setPlayer hinv _ rfl rfl (by decide : soft ≤ cert) rfl
  have hpos : m.freezeProposal.1.position = m.position := SamePlace.position (.of_player hpl)
  have hclock : m.clock = 2 := by
    unfold clock
    rw [hsoft]
    rfl
  have hnow : ∀ n, n < 4 → toLex (m.position, n) < Machine.now { (m.issueSoftVote d).1 with
      player := { (m.issueSoftVote d).1.player with step := cert } } := fun n hn =>
    Prod.Lex.lt_iff.2 (.inr ⟨(hend.position.trans hpos).symm, hn⟩)
  have hat : attests (m.issueSoftVote d).2 = [] ∨
      ∃ v, attests (m.issueSoftVote d).2 = [⟨.attest, m.player.round, m.player.period, soft, v⟩] := by
    unfold issueSoftVote
    simp only
    cases softVoteValue (setDeadline m.freezeProposal.1 d) m.freezeProposal.2 with
    | none => exact .inl rfl
    | some v => exact .inr ⟨v, rfl⟩
  refine ⟨hend.inv, hform, hend.position.trans hpos, fun v hv => hend.holds v (hholds v hv), ?_, ?_⟩
  · unfold counted
    rcases hat with hat | ⟨v, hat⟩
    · rw [hat]
      refine .nil (le_of_lt (hnow m.clock ?_))
      rw [hclock]
      decide
    · have hlog : Logged PseudonodeAction.stamp m.now [⟨.attest, m.player.round, m.player.period, soft, v⟩]
          (Machine.now { (m.issueSoftVote d).1 with
            player := { (m.issueSoftVote d).1.player with step := cert } }) := by
        refine .single (Prod.Lex.le_iff.2 (.inr ⟨rfl, ?_⟩)) (hnow (2 * soft) (by decide))
        show m.clock ≤ 2 * soft
        rw [hclock]
        decide
      rw [hat]
      exact hlog.filter _
  · intro a ha
    rcases hat with hat | ⟨v, hat⟩
    · rw [hat] at ha
      cases ha
    · rw [hat, List.mem_singleton] at ha
      subst ha
      exact ⟨rfl, .inl rfl⟩

/-- **A timeout moves the clock past the vote it casts.** -/
theorem ticks_handleTimeout (hi : m.Inv) (h : m.handleTimeout e params = .ok (m', as)) : Ticks m as m' := by
  unfold handleTimeout at h
  simp only at h
  generalize (if (e.proto.err.isSome || e.proto.version.isEmpty) = true then defaultDeadlineTimeout
    else deadlineTimeout m.player.period params) = d at h
  split at h
  · rename_i hsoft
    cases h
    exact ticks_issueSoftVote hi hsoft d
  · split at h
    · rename_i hcert
      cases h
      refine ticks_issueNextVote (idles_setPlayer hi _ rfl rfl (by decide : soft ≤ next) rfl) (Nat.le_refl _) ?_
      unfold clock
      rw [hcert]
      exact (by decide : 4 ≤ 2 * next)
    · rename_i hns hnc
      have hnext : next ≤ m.player.step :=
        Nat.lt_of_le_of_ne (Nat.lt_of_le_of_ne hi.step (Ne.symm hns)) (Ne.symm hnc)
      split at h
      · rename_i hnap
        cases h
        refine ticks_issueNextVote ⟨hi, rfl, rfl, rfl, rfl, rfl⟩ hnext ?_
        unfold clock
        rw [if_neg (not_le.2 hnext), if_pos hnap]
        exact Nat.le_refl _
      · rename_i hnap
        split at h
        · cases h
        · cases h
          have hend : ∀ dl, Idles m { m with player := { m.player with
              step := m.player.step + 1, napping := true, deadline := dl } } := fun _ =>
            idles_setPlayer hi _ rfl rfl (Nat.le_trans hi.step (Nat.le_succ _)) rfl
          refine ⟨(hend _).inv, rfl, rfl, (hend _).holds, .nil ?_, fun _ ha => absurd ha List.not_mem_nil⟩
          refine Prod.Lex.le_iff.2 (.inr ⟨rfl, ?_⟩)
          show m.clock ≤ Machine.clock _
          unfold clock
          rw [if_neg (not_le.2 hnext), if_neg hnap, if_neg (not_le.2 (Nat.lt_succ_of_lt hnext)), if_pos rfl]
          exact Nat.le_succ (2 * m.player.step + 1)

end Timeout

/-! ## Runs -/

section Runs

variable {hash : CredentialHash} {m m' m₁ m₂ : Machine} {as tr tr₁ tr₂ : List Action}

/-- The events a run may contain: verified messages are what verification produces, and a round is interrupted only for
a later one. -/
def Admissible (m : Machine) : ExternalEvent → Prop
  | .message e => e.Genuine
  | .roundInterruption round => m.player.round < round
  | _ => True

/-- One event, handled with as much fuel as it takes. -/
def Steps (hash : CredentialHash) (m : Machine) (e : ConsensusParams × ExternalEvent) (m' : Machine)
    (as : List Action) : Prop :=
  m.Admissible e.2 ∧ ∃ fuel, submitTop hash fuel m e = .ok (m', as)

theorem inv_bootstrapFresh (round : Round) (params : ConsensusParams) : (bootstrapFresh round params).1.Inv where
  votes := VoteAggregator.wf_empty
  stores _ := ProposalStore.wf_empty
  staged _ _ h := absurd rfl h
  step := Nat.le_refl _
  pending _ _ h := by cases h
  remembers := VoteAggregator.remembers_empty _

theorem Ticks.of_update (hi : m.Inv) (h : Ticks m.update as m') : Ticks m as m' := by
  have hu := idles_update hi
  exact ⟨h.inv, h.formed, h.position, fun v hv => h.holds v (hu.holds v hv), h.log,
    fun a ha => hu.nextVoteValue ▸ h.votes a ha⟩

/-- **What one event does: a timeout casts the vote that is due, any other event at most cert votes.** -/
theorem effect_or_ticks (hi : m.Inv) {e : ConsensusParams × ExternalEvent} (h : Steps hash m e m' as) :
    Effect m as m' ∨ Ticks m as m' := by
  obtain ⟨params, e⟩ := e
  obtain ⟨hadm, fuel, h⟩ := h
  unfold submitTop handle at h
  cases e with
  | message e =>
    exact .inl ((messageSpec_handleMessageEvent hash params fuel m.update e m' as hi.update hadm h).of_update hi)
  | timeout e =>
    simp only at h
    split at h
    · have ht := @ticks_handleFastTimeout m.update e params hi.update
      rw [Except.ok.inj h] at ht
      exact .inr (ht.of_update hi)
    · exact .inr ((ticks_handleTimeout hi.update h).of_update hi)
  | roundInterruption round =>
    obtain ⟨he, -⟩ := effect_enterRound (thresholdSpec_handleThresholdEvent params fuel) hi.update hadm h
    exact .inl (he.of_update hi)
  | checkpoint e =>
    cases h
    exact .inl ((effect_update hi).silent rfl)

theorem Effect.counted (h : Effect m as m') : counted as = [] := by
  unfold Agreement.counted
  rw [List.filter_eq_nil_iff]
  intro a ha
  obtain ⟨hs, -⟩ := h.votes a ha
  rw [decide_eq_true_iff]
  unfold PseudonodeAction.Counted
  rw [hs]
  decide

/-- What a run leaves behind, seen from its first state. -/
structure Voted (m₀ : Machine) (tr : List Action) (m : Machine) : Prop where
  inv : m.Inv
  formed : m₀.formed ⊆ m.formed
  log : Logged PseudonodeAction.stamp m₀.now (counted tr) m.now
  certs : ∀ a ∈ attests tr, a.step = cert → SoftOrCert m.formed a.round a.period a.proposal

/-- **The votes of every run.** -/
theorem voted_of_path (hi : m.Inv) (h : Path (Steps hash) m tr m') : Voted m tr m' := by
  refine h.invariant (fun tr m' => Voted m tr m') ⟨hi, List.Subset.refl _, .nil (le_refl _),
    fun a ha => absurd ha List.not_mem_nil⟩ ?_
  intro tr m₁ e m₂ as hv hs
  rcases effect_or_ticks hv.inv hs with he | ht
  · refine ⟨he.inv, fun _ hm => he.formed (hv.formed hm), ?_, fun a ha hc => ?_⟩
    · rw [counted_append, he.counted]
      exact hv.log.append (.nil he.now)
    · rw [attests_append] at ha
      rcases List.mem_append.1 ha with ha | ha
      · exact (hv.certs a ha hc).mono he.formed
      · exact (he.votes a ha).2.2.2
  · refine ⟨ht.inv, by rw [ht.formed]; exact hv.formed, ?_, fun a ha hc => ?_⟩
    · rw [counted_append]
      exact hv.log.append ht.log
    · rw [ht.formed]
      rw [attests_append] at ha
      rcases List.mem_append.1 ha with ha | ha
      · exact hv.certs a ha hc
      · rcases (ht.votes a ha).2 with hs | ⟨hs, -⟩
        · rw [hs] at hc
          exact absurd hc (by decide)
        · rw [hc] at hs
          exact absurd hs (by decide)

/-- **No double vote.**  In every run from a fresh start in which the soft and cert thresholds of a period agree, two
votes for the same round, period and step, soft, cert or a numbered next step, are for the same value; and the player's
round and period never go back. -/
theorem no_double_vote (hash : CredentialHash) (round : Round) (params : ConsensusParams)
    (h₁ : Path (Steps hash) (bootstrapFresh round params).1 tr₁ m₁) (h₂ : Path (Steps hash) m₁ tr₂ m₂)
    (hc : Coherent m₂.formed) :
    (∀ a ∈ attests ((bootstrapFresh round params).2 ++ tr₁ ++ tr₂),
      ∀ b ∈ attests ((bootstrapFresh round params).2 ++ tr₁ ++ tr₂),
      a.round = b.round → a.period = b.period → a.step = b.step →
      (a.step = soft ∨ a.step = cert ∨ next ≤ a.step ∧ a.step < late) → a.proposal = b.proposal) ∧
    m₁.position ≤ m₂.position := by
  have hv := voted_of_path (inv_bootstrapFresh round params) (h₁.append h₂)
  have hv₁ := voted_of_path (inv_bootstrapFresh round params) h₁
  have hv₂ := voted_of_path hv₁.inv h₂
  refine ⟨?_, position_le_of_now_le hv₂.log.le⟩
  have hstart : attests ((bootstrapFresh round params).2 ++ tr₁ ++ tr₂) = attests (tr₁ ++ tr₂) := by
    rw [List.append_assoc, attests_append]
    rfl
  rw [hstart]
  intro a ha b hb hr hp hs hstep
  by_cases hcert : a.step = cert
  · have hsa := hv.certs a ha hcert
    have hsb := hv.certs b hb (hs ▸ hcert)
    rw [← hr, ← hp] at hsb
    exact hc _ _ _ _ hsa hsb
  · have hca : a.Counted := by
      rcases hstep with h | h | h
      · exact .inl h
      · exact absurd h hcert
      · exact .inr h
    have hcb : b.Counted := by
      unfold PseudonodeAction.Counted at *
      rw [← hs]
      exact hca
    have heq : a = b := by
      refine hv.log.eq_of_stamp_eq (List.mem_filter.2 ⟨ha, decide_eq_true hca⟩)
        (List.mem_filter.2 ⟨hb, decide_eq_true hcb⟩) ?_
      unfold PseudonodeAction.stamp PseudonodeAction.position
      rw [hr, hp, hs]
    rw [heq]

/-! ### A short run -/

/-- A credential hash that ranks credentials by their VRF output. -/
def plainHash : CredentialHash := ⟨fun hc => ⟨hc.rawOut.truncate 256⟩, fun d _ => d⟩

def voteMessage (v : Vote) : ExternalEvent :=
  .message { (default : MessageEvent) with
    t := .voteVerified
    input := { (default : InternalMessage) with
      vote := some v
      unauthenticatedVote := v.toUnauthenticated
      messageHandle := some 1 } }

def payloadMessage (up : UnauthenticatedProposal) : ExternalEvent :=
  .message { (default : MessageEvent) with
    t := .payloadVerified
    input := { (default : InternalMessage) with
      proposal := some ⟨up, 0, 0⟩
      unauthenticatedProposal := up
      messageHandle := some 1 } }

def proposalVote (sender : Nat) (round : Round) (period : Period) (p : ProposalValue) (vrfOut : Digest) : Vote :=
  let v := VoteTracker.unitVote sender round period propose p
  { v with cred := { v.cred with vrfOut := vrfOut } }

def tick (round : Round) : ExternalEvent := .timeout ⟨.timeout, 0, round, ⟨none, "v41"⟩⟩

theorem admissible_voteMessage (m : Machine) (v : Vote) : m.Admissible (voteMessage v) := by
  refine .mk (fun h => ?_) (fun t h => ?_)
  · cases h
  · cases h

theorem admissible_tick (m : Machine) (round : Round) : m.Admissible (tick round) := trivial

theorem admissible_payloadMessage (m : Machine) (up : UnauthenticatedProposal) :
    m.Admissible (payloadMessage up) := by
  refine .mk (fun h => ?_) (fun t h => ?_)
  · cases h
  · cases h

/-- The run of round 5 over the given events, under the parameters with a quorum of two, as long as the guard holds. -/
def demo (guard : Machine → Bool) (es : List ExternalEvent) : Except Panic (Machine × List Action) :=
  Run.run (fun m e => if guard m then submitTop plainHash 4 m e else .error .outOfFuel)
    (bootstrapFresh 5 VoteTracker.smallParams).1 (es.map (fun e => (VoteTracker.smallParams, e)))

theorem path_demo {guard : Machine → Bool} {es : List ExternalEvent} (hes : ∀ e ∈ es, ∀ m : Machine, m.Admissible e)
    (h : demo guard es = .ok (m, tr)) :
    Path (fun m e m' as => guard m = true ∧ Steps plainHash m e m' as)
      (bootstrapFresh 5 VoteTracker.smallParams).1 tr m := by
  refine Path.of_run (fun m e m' as (hadm : ∀ m : Machine, m.Admissible e.2) hstep => ?_) (fun e he => ?_) h
  · split at hstep
    · rename_i hg
      exact ⟨hg, hadm m, 4, hstep⟩
    · cases hstep
  · obtain ⟨e', he', rfl⟩ := List.mem_map.1 he
    exact hes e' he'

/-- A proposal, its payload and two soft votes for it, with a timeout before and one after the votes. -/
def certified : List ExternalEvent :=
  [voteMessage (proposalVote 1 5 0 (VoteTracker.valueOf 1) ⟨9⟩), payloadMessage ⟨5, ⟨1⟩, ⟨1⟩, 0, ⟨1⟩, 0⟩, tick 5,
    voteMessage (VoteTracker.unitVote 1 5 0 soft (VoteTracker.valueOf 1)),
    voteMessage (VoteTracker.unitVote 2 5 0 soft (VoteTracker.valueOf 1)), tick 5]

theorem admissible_certified : ∀ e ∈ certified, ∀ m : Machine, m.Admissible e := by
  simp [certified, admissible_voteMessage, admissible_payloadMessage, admissible_tick]

theorem no_double_vote_certified : ∃ m tr,
    Path (Steps plainHash) (bootstrapFresh 5 VoteTracker.smallParams).1 tr m ∧ Coherent m.formed ∧
    (attests tr).map PseudonodeAction.step = [soft, cert, next] ∧
    (∀ a ∈ attests ((bootstrapFresh 5 VoteTracker.smallParams).2 ++ tr ++ []),
      ∀ b ∈ attests ((bootstrapFresh 5 VoteTracker.smallParams).2 ++ tr ++ []),
      a.round = b.round → a.period = b.period → a.step = b.step →
      (a.step = soft ∨ a.step = cert ∨ next ≤ a.step ∧ a.step < late) → a.proposal = b.proposal) ∧
    m.position ≤ m.position := by
  obtain ⟨⟨m, tr⟩, hd, hP⟩ := @ok_of_any _ _ (demo (fun _ => true) certified)
    (fun r => decide (Coherent r.1.formed ∧ (attests r.2).map PseudonodeAction.step = [soft, cert, next]))
    (by decide)
  obtain ⟨hc, hsteps⟩ := of_decide_eq_true hP
  have hpath := (path_demo admissible_certified hd).mono (fun _ _ _ _ => And.right)
  exact ⟨m, tr, hpath, hc, hsteps, no_double_vote plainHash 5 VoteTracker.smallParams hpath .nil hc⟩

end Runs

end Machine

end Agreement
end Algod
