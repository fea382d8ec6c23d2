import AlgodRust.Agreement.PlayerRuns
/-!
# NextVotes — what next-votes are for

A next-vote is for the staged value if its payload is there, else for what the period before passed on.  Two things
follow, each up to one gap of the code.  After a cert vote every next-vote of the period is for the same value, as long
as a value that is staged with its payload is also pinned or noted as relevant to the period (`Held`): the soft threshold
of an assembled value returns early without the note, and then a late proposal-vote of the period before evicts it.  And
the value is the one the next-vote rule gives (`ruleValue`), except in period 0, where the period before is read as
period 0 itself (`Leaks`).
-/
namespace Algod
namespace Agreement

open Run (ok_of_any Path)

namespace Machine

variable {hash : CredentialHash} {m m' : Machine} {as tr : List Action}

def stagedHere (m : Machine) : ProposalValue := (m.store m.player.round).staging m.player.period

/-- The payload of the staged value is there. -/
def StagedAssembled (m : Machine) : Prop := (m.store m.player.round).Assembled m.stagedHere

instance : Decidable m.StagedAssembled := inferInstanceAs (Decidable (_ = true))

theorem nextVoteValue_of_assembled (h : m.StagedAssembled) : m.nextVoteValue = m.stagedHere := by
  unfold nextVoteValue
  exact if_pos h

theorem nextVoteValue_of_not_assembled (h : ¬ m.StagedAssembled) :
    m.nextVoteValue = if !(m.nextThresholdStatus m.player.round (m.player.period - 1)).bottom
      then (m.nextThresholdStatus m.player.round (m.player.period - 1)).proposal else bottom := by
  unfold nextVoteValue
  exact if_neg h

/-! ## After a cert vote -/

/-- A next-vote after a cert vote of the same round and period is for the same value. -/
def CertThenNext (votes : List PseudonodeAction) : Prop :=
  votes.Pairwise (fun a b => a.step = cert → next ≤ b.step → a.round = b.round → a.period = b.period →
    b.proposal = a.proposal)

instance : DecidablePred CertThenNext := fun votes => by unfold CertThenNext; infer_instance

/-- A value staged with its payload is pinned, or noted as relevant to the period. -/
def Held (m : Machine) : Prop :=
  m.StagedAssembled → (m.store m.player.round).pinned = m.stagedHere ∨
    (m.store m.player.round).relevant.lookup m.player.period = some m.stagedHere

instance : DecidablePred Held := fun m => by unfold Held; infer_instance

theorem Held.keeps (h : m.Held) (hi : m.Inv) {v : ProposalValue} (hv : m.Holds v) : m.Keeps v := by
  obtain ⟨hst, ha⟩ := hv
  subst hst
  refine ⟨rfl, fun hb => ?_, ha, h ha⟩
  rw [hb] at ha
  exact (hi.stores _).not_assembled ha

theorem nextVoteValue_of_holds {v : ProposalValue} (h : m.Holds v) : m.nextVoteValue = v := by
  obtain ⟨hst, ha⟩ := h
  subst hst
  exact nextVoteValue_of_assembled ha

/-- What a run with `Held` before every step leaves behind. -/
structure Certified (tr : List Action) (m : Machine) : Prop where
  inv : m.Inv
  reached : ∀ a ∈ attests tr, a.position ≤ m.position
  holds : Coherent m.formed → ∀ a ∈ attests tr, a.step = cert → a.position = m.position → m.Holds a.proposal
  agree : Coherent m.formed → CertThenNext (attests tr)

theorem Certified.effect (h : Certified tr m) (hh : m.Held) (he : Effect m as m') : Certified (tr ++ as) m' := by
  have hle := position_le_of_now_le he.now
  refine ⟨he.inv, fun a ha => ?_, fun hc a ha hs hpos => ?_, fun hc => ?_⟩
  · rcases List.mem_append.1 (attests_append tr as ▸ ha) with ha | ha
    · exact le_trans (h.reached a ha) hle
    · exact (he.votes a ha).2.2.1
  · rcases List.mem_append.1 (attests_append tr as ▸ ha) with ha | ha
    · -- An old cert vote of this period: the player has not moved, and the value is kept.
      have hsame : m'.position = m.position := le_antisymm (hpos ▸ h.reached a ha) hle
      have hold := h.holds (hc.mono he.formed) a ha hs (hpos.trans hsame)
      have hkept := he.keeps hsame _ (hh.keeps h.inv hold) hc
      exact ⟨hkept.staged, hkept.assembled⟩
    · exact he.holds a ha hpos
  · unfold CertThenNext
    rw [attests_append, List.pairwise_append]
    have hcert : ∀ b ∈ attests as, ¬ next ≤ b.step := fun b hb => by
      rw [(he.votes b hb).1]
      decide
    refine ⟨h.agree (hc.mono he.formed), ?_, fun a _ b hb _ hs => absurd hs (hcert b hb)⟩
    exact List.pairwise_of_forall_mem_list (fun a _ b hb _ hs => absurd hs (hcert b hb))

theorem Certified.ticks (h : Certified tr m) (ht : Ticks m as m') : Certified (tr ++ as) m' := by
  have hnot : ∀ a ∈ attests as, a.step ≠ cert := fun a ha hs => by
    rcases (ht.votes a ha).2 with h' | ⟨h', -⟩
    · rw [hs] at h'
      exact absurd h' (by decide)
    · rw [hs] at h'
      exact absurd h' (by decide)
  refine ⟨ht.inv, fun a ha => ?_, fun hc a ha hs hpos => ?_, fun hc => ?_⟩
  · rw [ht.position]
    rcases List.mem_append.1 (attests_append tr as ▸ ha) with ha | ha
    · exact h.reached a ha
    · exact le_of_eq (ht.votes a ha).1
  · rcases List.mem_append.1 (attests_append tr as ▸ ha) with ha | ha
    · exact ht.holds _ (h.holds (ht.formed ▸ hc) a ha hs (hpos.trans ht.position))
    · exact absurd hs (hnot a ha)
  · unfold CertThenNext
    rw [attests_append, List.pairwise_append]
    refine ⟨h.agree (ht.formed ▸ hc), ?_, fun a ha b hb hs hnext hr hp => ?_⟩
    · exact List.pairwise_of_forall_mem_list (fun a ha b _ hs => absurd hs (hnot a ha))
    · obtain ⟨hpos, hval⟩ := ht.votes b hb
      have hab : a.position = m.position := by
        rw [← hpos]
        unfold PseudonodeAction.position
        rw [hr, hp]
      have hold := h.holds (ht.formed ▸ hc) a ha hs hab
      rcases hval with hsoft | ⟨-, hval⟩
      · rw [hsoft] at hnext
        exact absurd hnext (by decide)
      · rw [hval, nextVoteValue_of_holds hold]

/-- **Cert, then next.**  In every run from a fresh start in which the soft and cert thresholds of a period agree and a
value staged with its payload is held before every step, all next-votes after a cert vote of their period are for its
value. -/
theorem cert_then_next (hash : CredentialHash) (round : Round) (params : ConsensusParams)
    (h : Path (fun m e m' as => m.Held ∧ Steps hash m e m' as) (bootstrapFresh round params).1 tr m)
    (hc : Coherent m.formed) : CertThenNext (attests ((bootstrapFresh round params).2 ++ tr)) := by
  have hrun : Certified tr m := by
    refine h.invariant Certified ⟨inv_bootstrapFresh round params, fun a ha => absurd ha List.not_mem_nil,
      fun _ a ha => absurd ha List.not_mem_nil, fun _ => .nil⟩ ?_
    intro tr m₁ e m₂ as hcert hs
    rcases effect_or_ticks hcert.inv hs.2 with he | ht
    · exact hcert.effect hs.1 he
    · exact hcert.ticks ht
  rw [attests_append]
  exact hrun.agree hc

theorem cert_then_next_certified : ∃ m tr,
    Path (fun m e m' as => m.Held ∧ Steps plainHash m e m' as) (bootstrapFresh 5 VoteTracker.smallParams).1 tr m ∧
    Coherent m.formed ∧ (attests tr).map PseudonodeAction.step = [soft, cert, next] ∧
    CertThenNext (attests ((bootstrapFresh 5 VoteTracker.smallParams).2 ++ tr)) := by
  obtain ⟨⟨m, tr⟩, hd, hP⟩ := @ok_of_any _ _ (demo (fun m => decide m.Held) certified)
    (fun r => decide (Coherent r.1.formed ∧ (attests r.2).map PseudonodeAction.step = [soft, cert, next]))
    (by decide)
  obtain ⟨hc, hsteps⟩ := of_decide_eq_true hP
  have hpath := (path_demo admissible_certified hd).mono
    (fun _ _ _ _ h => (⟨of_decide_eq_true h.1, h.2⟩ : Held _ ∧ Steps plainHash _ _ _ _))
  exact ⟨m, tr, hpath, hc, hsteps, cert_then_next plainHash 5 VoteTracker.smallParams hpath hc⟩

/-- A proposal of period 0 is staged in period 1 and cert-voted; then a better proposal-vote of period 0 arrives. -/
def evicted : List ExternalEvent :=
  [voteMessage (proposalVote 1 5 0 (VoteTracker.valueOf 1) ⟨9⟩), payloadMessage ⟨5, ⟨1⟩, ⟨1⟩, 0, ⟨1⟩, 0⟩,
    voteMessage (VoteTracker.unitVote 1 5 0 next bottom), voteMessage (VoteTracker.unitVote 2 5 0 next bottom),
    voteMessage (VoteTracker.unitVote 1 5 1 soft (VoteTracker.valueOf 1)),
    voteMessage (VoteTracker.unitVote 2 5 1 soft (VoteTracker.valueOf 1)),
    voteMessage (proposalVote 2 5 0 (VoteTracker.valueOf 2) ⟨1⟩), tick 5, tick 5]

theorem admissible_evicted : ∀ e ∈ evicted, ∀ m : Machine, m.Admissible e := by
  simp [evicted, admissible_voteMessage, admissible_payloadMessage, admissible_tick]

/-- Without `Held` the next-vote is for bottom: the payload went with the assembler. -/
theorem cert_then_next_evicted : ∃ m tr,
    Path (Steps plainHash) (bootstrapFresh 5 VoteTracker.smallParams).1 tr m ∧ Coherent m.formed ∧
    attests tr = [⟨.attest, 5, 1, cert, VoteTracker.valueOf 1⟩, ⟨.attest, 5, 1, next, bottom⟩] ∧
    ¬ CertThenNext (attests ((bootstrapFresh 5 VoteTracker.smallParams).2 ++ tr)) := by
  obtain ⟨⟨m, tr⟩, hd, hP⟩ := @ok_of_any _ _ (demo (fun _ => true) evicted)
    (fun r => decide (Coherent r.1.formed ∧
      attests r.2 = [⟨.attest, 5, 1, cert, VoteTracker.valueOf 1⟩, ⟨.attest, 5, 1, next, bottom⟩]))
    (by decide)
  obtain ⟨hc, hvotes⟩ := of_decide_eq_true hP
  refine ⟨m, tr, (path_demo admissible_evicted hd).mono (fun _ _ _ _ => And.right), hc, hvotes, ?_⟩
  rw [attests_append, hvotes]
  decide

/-! ## The next-vote rule -/

/-- The value the rule gives: the staged one, if its payload is there; else, after period 0, the one the period before
passed on, unless it passed on bottom. -/
def ruleValue (m : Machine) : ProposalValue :=
  if m.StagedAssembled then m.stagedHere
  else if 0 < m.player.period ∧ (observed m.formed m.player.round (m.player.period - 1)).bottom = false then
    (observed m.formed m.player.round (m.player.period - 1)).proposal
  else bottom

/-- Period 0 is its own period before: a next-threshold for a value formed in it, none for bottom, and the payload of
the staged value is not there. -/
def Leaks (m : Machine) : Prop :=
  m.player.period = 0 ∧ ¬ m.StagedAssembled ∧ (observed m.formed m.player.round 0).bottom = false ∧
    (observed m.formed m.player.round 0).proposal ≠ bottom

instance : DecidablePred Leaks := fun m => by unfold Leaks; infer_instance

theorem nextVoteValue_eq_ruleValue_iff (hi : m.Inv) : m.nextVoteValue = m.ruleValue ↔ ¬ m.Leaks := by
  have hrem := hi.remembers m.player.round (Nat.le_refl _)
  by_cases ha : m.StagedAssembled
  · have hrule : m.ruleValue = m.stagedHere := if_pos ha
    rw [nextVoteValue_of_assembled ha, hrule]
    exact ⟨fun _ hl => hl.2.1 ha, fun _ => rfl⟩
  · have hrule : m.ruleValue = if 0 < m.player.period ∧
        (observed m.formed m.player.round (m.player.period - 1)).bottom = false then
        (observed m.formed m.player.round (m.player.period - 1)).proposal else bottom := if_neg ha
    have hstatus : m.nextThresholdStatus m.player.round (m.player.period - 1) =
        observed m.formed m.player.round (m.player.period - 1) := hrem _
    rw [nextVoteValue_of_not_assembled ha, hrule, hstatus]
    unfold Leaks
    by_cases hp : m.player.period = 0
    · rw [hp]
      by_cases hb : (observed m.formed m.player.round 0).bottom = true
      · simp [hb]
      · simp [hb, ha]
    · simp [hp, Nat.pos_of_ne_zero hp]

/-- **The next-vote rule.**  In every reachable state, every next-vote the next event casts is for the player's round and
period, and it is for the value of the rule exactly when period 0 is not read as the period before itself. -/
theorem next_vote_rule_iff (hash : CredentialHash) (round : Round) (params : ConsensusParams)
    (h : Path (Steps hash) (bootstrapFresh round params).1 tr m) {e : ConsensusParams × ExternalEvent}
    (hs : Steps hash m e m' as) :
    ∀ a ∈ attests as, next ≤ a.step →
      a.round = m.player.round ∧ a.period = m.player.period ∧ (a.proposal = m.ruleValue ↔ ¬ m.Leaks) := by
  have hi := (voted_of_path (inv_bootstrapFresh round params) h).inv
  intro a ha hnext
  rcases effect_or_ticks hi hs with he | ht
  · rw [(he.votes a ha).1] at hnext
    exact absurd hnext (by decide)
  · obtain ⟨hpos, hval⟩ := ht.votes a ha
    have hplace : (a.round, a.period) = (m.player.round, m.player.period) := toLex.injective hpos
    rcases hval with hsoft | ⟨-, hval⟩
    · rw [hsoft] at hnext
      exact absurd hnext (by decide)
    · rw [hval, nextVoteValue_eq_ruleValue_iff hi]
      exact ⟨congrArg Prod.fst hplace, congrArg Prod.snd hplace, Iff.rfl⟩

/-- The run up to its last event, and that event. -/
theorem demo_then {es : List ExternalEvent} (hes : ∀ e ∈ es, ∀ m : Machine, m.Admissible e) (e : ExternalEvent)
    (he : ∀ m : Machine, m.Admissible e) (P : Machine → List Action → Bool)
    (h : (demo (fun _ => true) es).toOption.any (fun r =>
      (submitTop plainHash 4 r.1 (VoteTracker.smallParams, e)).toOption.any (fun r' => P r.1 r'.2)) = true) :
    ∃ tr m m' as, Path (Steps plainHash) (bootstrapFresh 5 VoteTracker.smallParams).1 tr m ∧
      Steps plainHash m (VoteTracker.smallParams, e) m' as ∧ P m as = true := by
  obtain ⟨⟨m, tr⟩, hd, h⟩ := ok_of_any h
  obtain ⟨⟨m', as⟩, hs, hP⟩ := ok_of_any h
  exact ⟨tr, m, m', as, (path_demo hes hd).mono (fun _ _ _ _ => And.right), ⟨he m, 4, hs⟩, hP⟩

theorem next_vote_rule_iff_certified : ∃ tr m m' as,
    Path (Steps plainHash) (bootstrapFresh 5 VoteTracker.smallParams).1 tr m ∧
    Steps plainHash m (VoteTracker.smallParams, tick 5) m' as ∧
    attests as = [⟨.attest, 5, 0, next, VoteTracker.valueOf 1⟩] ∧ ¬ m.Leaks ∧
    ∀ a ∈ attests as, next ≤ a.step →
      a.round = m.player.round ∧ a.period = m.player.period ∧ (a.proposal = m.ruleValue ↔ ¬ m.Leaks) := by
  obtain ⟨tr, m, m', as, hpath, hs, hP⟩ := demo_then
    (fun e he => admissible_certified e (List.dropLast_subset _ he)) (tick 5) (fun m => admissible_tick m 5)
    (fun m as => decide (attests as = [⟨.attest, 5, 0, next, VoteTracker.valueOf 1⟩] ∧ ¬ m.Leaks))
    (by decide)
  obtain ⟨hvotes, hleaks⟩ := of_decide_eq_true hP
  exact ⟨tr, m, m', as, hpath, hs, hvotes, hleaks,
    next_vote_rule_iff plainHash 5 VoteTracker.smallParams hpath hs⟩

/-- A certificate without its block holds the player in period 0; the next-threshold that follows is less fresh, so it
is remembered but does not end the period. -/
def suppressed : List ExternalEvent :=
  [voteMessage (VoteTracker.unitVote 1 5 0 cert (VoteTracker.valueOf 1)),
    voteMessage (VoteTracker.unitVote 2 5 0 cert (VoteTracker.valueOf 1)),
    voteMessage (VoteTracker.unitVote 1 5 0 next (VoteTracker.valueOf 1)),
    voteMessage (VoteTracker.unitVote 2 5 0 next (VoteTracker.valueOf 1)), tick 5]

theorem admissible_suppressed : ∀ e ∈ suppressed, ∀ m : Machine, m.Admissible e := by
  simp [suppressed, admissible_voteMessage, admissible_tick]

/-- The next-vote of period 0 is for the value, and the rule says bottom. -/
theorem next_vote_rule_suppressed : ∃ tr m m' as,
    Path (Steps plainHash) (bootstrapFresh 5 VoteTracker.smallParams).1 tr m ∧
    Steps plainHash m (VoteTracker.smallParams, tick 5) m' as ∧
    attests as = [⟨.attest, 5, 0, next, VoteTracker.valueOf 1⟩] ∧ m.player.period = 0 ∧ ¬ m.StagedAssembled ∧
    m.ruleValue = bottom ∧ m.Leaks := by
  obtain ⟨tr, m, m', as, hpath, hs, hP⟩ := demo_then admissible_suppressed (tick 5) (fun m => admissible_tick m 5)
    (fun m as => decide (attests as = [⟨.attest, 5, 0, next, VoteTracker.valueOf 1⟩] ∧ m.player.period = 0 ∧
      ¬ m.StagedAssembled ∧ m.ruleValue = bottom ∧ m.Leaks))
    (by decide)
  exact ⟨tr, m, m', as, hpath, hs, of_decide_eq_true hP⟩

end Machine

end Agreement
end Algod
