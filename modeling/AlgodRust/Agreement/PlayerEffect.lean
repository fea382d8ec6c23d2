import AlgodRust.Agreement.Player
import Mathlib.Data.Prod.Lex
/-!
# PlayerEffect — what a handler can do to the machine

`Inv` is the invariant of the machine and `Effect m as m'` everything the later modules use about a handler that took
`m` to `m'` and emitted `as`: the history grows, the clock does not go back, the only votes cast are cert votes for a
value that a soft or cert threshold staged, and a kept value stays kept while the player stays in its period.  Effects
compose; each handler has one lemma.  Timeouts, which cast the other votes, have their own in the modules of their
claims.
-/
namespace Algod
namespace Agreement

open Run (bind_eq_ok)

/-- The votes among the actions. -/
def attests (as : List Action) : List PseudonodeAction :=
  as.filterMap (fun a => match a with
    | .pseudonode a => if a.t = .attest then some a else none
    | _ => none)

@[simp] theorem attests_nil : attests [] = [] := rfl

@[simp] theorem attests_append (as bs : List Action) : attests (as ++ bs) = attests as ++ attests bs :=
  List.filterMap_append

theorem attests_cons (a : Action) (as : List Action) : attests (a :: as) = attests [a] ++ attests as :=
  attests_append [a] as

/-- An action that is no vote. -/
def Action.Silent (a : Action) : Prop := attests [a] = []

/-- Round and period, in the order in which the player goes through them. -/
abbrev Position := Round ×ₗ Period

def PseudonodeAction.position (a : PseudonodeAction) : Position := toLex (a.round, a.period)

/-- A soft or cert threshold for the value formed in the round and period. -/
def SoftOrCert (formed : List ThresholdEvent) (r : Round) (p : Period) (v : ProposalValue) : Prop :=
  ∃ te ∈ formed, te.t ≠ .next ∧ te.round = r ∧ te.period = p ∧ te.proposal = v

/-- Within one round and period, soft and cert thresholds formed for one value only. -/
def Coherent (formed : List ThresholdEvent) : Prop :=
  ∀ r p v w, SoftOrCert formed r p v → SoftOrCert formed r p w → v = w

theorem SoftOrCert.mono {formed formed' : List ThresholdEvent} (hsub : formed ⊆ formed') {r : Round} {p : Period}
    {v : ProposalValue} (h : SoftOrCert formed r p v) : SoftOrCert formed' r p v := by
  obtain ⟨te, hte, h⟩ := h
  exact ⟨te, hsub hte, h⟩

theorem coherent_iff {formed : List ThresholdEvent} : Coherent formed ↔
    ∀ te ∈ formed, ∀ te' ∈ formed, te.t ≠ .next → te'.t ≠ .next → te'.round = te.round → te'.period = te.period →
      te.proposal = te'.proposal := by
  constructor
  · intro h te hte te' hte' ht ht' hr hp
    exact h te.round te.period _ _ ⟨te, hte, ht, rfl, rfl, rfl⟩ ⟨te', hte', ht', hr, hp, rfl⟩
  · rintro h r p v w ⟨te, hte, ht, rfl, rfl, rfl⟩ ⟨te', hte', ht', hr, hp, rfl⟩
    exact h te hte te' hte' ht ht' hr hp

instance (formed : List ThresholdEvent) : Decidable (Coherent formed) := decidable_of_iff' _ coherent_iff

theorem Coherent.mono {formed formed' : List ThresholdEvent} (hsub : formed ⊆ formed') (h : Coherent formed') :
    Coherent formed :=
  fun r p v w hv hw => h r p v w (hv.mono hsub) (hw.mono hsub)

/-- A message that verification can have produced: the votes of a verified bundle are of the bundle's round, and so on
in the payload that came with it. -/
inductive MessageEvent.Genuine : MessageEvent → Prop
  | mk {e : MessageEvent} :
      (e.t = .bundleVerified →
        ∀ v ∈ e.input.verifiedBundleVotes, v.rawVote.round = e.input.unauthenticatedBundle.round) →
      (∀ t, e.tail = some t → t.Genuine) → e.Genuine

theorem MessageEvent.Genuine.tail {e t : MessageEvent} (h : e.Genuine) (ht : e.tail = some t) : t.Genuine := by
  cases h with
  | mk _ htail => exact htail t ht

theorem MessageEvent.Genuine.votes {e : MessageEvent} (h : e.Genuine) (ht : e.t = .bundleVerified) :
    ∀ v ∈ e.input.verifiedBundleVotes, v.rawVote.round = e.input.unauthenticatedBundle.round := by
  cases h with
  | mk hv _ => exact hv ht

namespace Machine

def formed (m : Machine) : List ThresholdEvent := m.router.voteAggregator.formed

def position (m : Machine) : Position := toLex (m.player.round, m.player.period)

/-- How far the votes of the period have come: a step that still owes its vote, then a step that has cast it. -/
def clock (m : Machine) : Nat :=
  if m.player.step ≤ cert then 2 * m.player.step else 2 * m.player.step + (if m.player.napping then 0 else 1)

def now (m : Machine) : Position ×ₗ Nat := toLex (m.position, m.clock)

/-- The value staged for the player's round and period is there and stays while the period lasts. -/
def Keeps (m : Machine) (v : ProposalValue) : Prop := (m.store m.player.round).Keeps m.player.period v

/-- The value is staged for the player's round and period and its payload is there. -/
def Holds (m : Machine) (v : ProposalValue) : Prop :=
  (m.store m.player.round).staging m.player.period = v ∧ (m.store m.player.round).Assembled v

def Remembers (m : Machine) : Prop := m.router.voteAggregator.Remembers m.player.round

structure Inv (m : Machine) : Prop where
  votes : m.router.voteAggregator.Wf
  stores : ∀ r, (m.store r).Wf
  staged : ∀ r p, (m.store r).staging p ≠ bottom → SoftOrCert m.formed r p ((m.store r).staging p)
  step : soft ≤ m.player.step
  pending : ∀ k e, m.player.pending.pending.lookup k = some e → e.Genuine
  remembers : m.Remembers

/-- What a handler other than a timeout does. -/
structure Effect (m : Machine) (as : List Action) (m' : Machine) : Prop where
  inv : m'.Inv
  formed : m.formed ⊆ m'.formed
  now : m.now ≤ m'.now
  votes : ∀ a ∈ attests as, a.step = cert ∧ m.position ≤ a.position ∧ a.position ≤ m'.position ∧
    SoftOrCert m'.formed a.round a.period a.proposal
  keeps : m'.position = m.position → ∀ v, m.Keeps v → Coherent m'.formed → m'.Keeps v
  holds : ∀ a ∈ attests as, a.position = m'.position → m'.Holds a.proposal

variable {m m' : Machine}

theorem position_le_of_now_le (h : m.now ≤ m'.now) : m.position ≤ m'.position := by
  rcases Prod.Lex.le_iff.1 h with h | ⟨h, -⟩
  · exact le_of_lt h
  · exact le_of_eq h

theorem now_lt_of_position_lt (h : m.position < m'.position) : m.now < m'.now :=
  Prod.Lex.lt_iff.2 (.inl h)

theorem position_lt_of_round (h : m.player.round < m'.player.round) : m.position < m'.position :=
  Prod.Lex.lt_iff.2 (.inl h)

theorem position_lt_of_period (hr : m.player.round = m'.player.round)
    (h : m.player.period < m'.player.period) : m.position < m'.position :=
  Prod.Lex.lt_iff.2 (.inr ⟨hr, h⟩)

/-- Effects compose where the first one casts no vote. -/
theorem Effect.trans {m m₁ m₂ : Machine} {as bs : List Action} (h : Effect m as m₁) (hs : attests as = [])
    (h' : Effect m₁ bs m₂) : Effect m (as ++ bs) m₂ where
  inv := h'.inv
  formed := fun _ hm => h'.formed (h.formed hm)
  now := le_trans h.now h'.now
  votes a ha := by
    rw [attests_append, hs, List.nil_append] at ha
    obtain ⟨h₁, h₂, h₃⟩ := h'.votes a ha
    exact ⟨h₁, le_trans (position_le_of_now_le h.now) h₂, h₃⟩
  keeps hpos v hk hc := by
    have h₁ := position_le_of_now_le h.now
    have h₂ := position_le_of_now_le h'.now
    have hm : m₁.position = m.position := le_antisymm (hpos ▸ h₂) h₁
    exact h'.keeps (hpos.trans hm.symm) v (h.keeps hm v hk (hc.mono h'.formed)) hc
  holds a ha := by
    rw [attests_append, hs, List.nil_append] at ha
    exact h'.holds a ha

/-- A change that a move to a later period follows: it need not keep what was kept. -/
structure Prepares (m m' : Machine) : Prop where
  inv : m'.Inv
  formed : m.formed ⊆ m'.formed
  now : m'.now = m.now
  position : m'.position = m.position

theorem Prepares.effect {m m₁ m₂ : Machine} {as : List Action} (h : Prepares m m₁) (h' : Effect m₁ as m₂)
    (hlt : m₁.position < m₂.position) : Effect m as m₂ where
  inv := h'.inv
  formed := fun _ hm => h'.formed (h.formed hm)
  now := h.now ▸ h'.now
  votes a ha := h.position ▸ h'.votes a ha
  keeps hpos := absurd (h.position.symm ▸ hpos.symm) (ne_of_lt hlt)
  holds := h'.holds

/-! ## Parts of the machine -/

theorem store_setProposalManager (m : Machine) (pm : ProposalManager) (r : Round) :
    (m.setProposalManager pm).store r = pm.store r := rfl

@[simp] theorem player_setProposalManager (m : Machine) (pm : ProposalManager) :
    (m.setProposalManager pm).player = m.player := rfl

@[simp] theorem formed_setProposalManager (m : Machine) (pm : ProposalManager) :
    (m.setProposalManager pm).formed = m.formed := rfl

@[simp] theorem player_update (m : Machine) : m.update.player = m.player := rfl

@[simp] theorem formed_update (m : Machine) : m.update.formed = m.formed := rfl

variable {m : Machine}

theorem store_update_of_le {r : Round} (h : m.player.round ≤ r) : m.update.store r = m.store r :=
  ProposalManager.store_retainRoundsFrom_of_le (Nat.le_trans (Nat.sub_le _ _) h)

theorem store_update (m : Machine) (r : Round) : m.update.store r = m.store r ∨ m.update.store r = .empty :=
  ProposalManager.store_retainRoundsFrom _ _ _

theorem roundTracker_update_of_le {r : Round} (h : m.player.round ≤ r) :
    m.update.router.voteAggregator.roundTracker r = m.router.voteAggregator.roundTracker r :=
  VoteAggregator.roundTracker_trim_of_le (Nat.le_trans (Nat.sub_le _ _) h)

/-- The two machines have the player at the same place. -/
structure SamePlace (m m' : Machine) : Prop where
  round : m'.player.round = m.player.round
  period : m'.player.period = m.player.period
  step : m'.player.step = m.player.step
  napping : m'.player.napping = m.player.napping

theorem SamePlace.of_player (h : m'.player = m.player) : SamePlace m m' := by
  constructor <;> rw [h]

theorem SamePlace.position (h : SamePlace m m') : m'.position = m.position := by
  unfold Machine.position
  rw [h.round, h.period]

theorem SamePlace.now (h : SamePlace m m') : m'.now = m.now := by
  unfold Machine.now clock
  rw [h.position, h.step, h.napping]

/-- A silent change that leaves the player where it is and touches the stores only. -/
theorem effect_of_touches (hi : m.Inv) (hp : SamePlace m m') (hv : m'.router.voteAggregator = m.router.voteAggregator)
    (ht : ∀ r, ProposalStore.Touches (m.store r) (m'.store r))
    (hpend : ∀ k e, m'.player.pending.pending.lookup k = some e → e.Genuine) : Effect m [] m' where
  inv :=
    { votes := by rw [hv]; exact hi.votes
      stores := fun r => (ht r).wf (hi.stores r)
      staged := fun r p hne => by
        unfold Machine.formed
        rw [(ht r).staging] at hne ⊢
        rw [hv]
        exact hi.staged r p hne
      step := by rw [hp.step]; exact hi.step
      pending := hpend
      remembers := by
        unfold Machine.Remembers
        rw [hv, hp.round]
        exact hi.remembers }
  formed := by
    unfold Machine.formed
    rw [hv]
    exact List.Subset.refl _
  now := le_of_eq hp.now.symm
  votes _ ha := absurd ha List.not_mem_nil
  keeps _ v hk _ := by
    unfold Machine.Keeps at *
    rw [hp.round, hp.period]
    exact (ht _).keeps _ _ hk
  holds _ ha := absurd ha List.not_mem_nil

theorem Effect.refl (hi : m.Inv) : Effect m [] m :=
  effect_of_touches hi (.of_player rfl) rfl (fun _ => .refl _) hi.pending

theorem effect_setProposalManager (hi : m.Inv) (pm : ProposalManager)
    (ht : ∀ r, ProposalStore.Touches (m.store r) (pm.store r)) : Effect m [] (m.setProposalManager pm) :=
  effect_of_touches hi (.of_player rfl) rfl ht hi.pending

/-- A change of the player that keeps it in its place. -/
theorem effect_setPlayer (hi : m.Inv) (pl : Player) (hp : SamePlace m { m with player := pl })
    (hpend : ∀ k e, pl.pending.pending.lookup k = some e → e.Genuine) : Effect m [] { m with player := pl } :=
  effect_of_touches hi hp rfl (fun _ => .refl _) hpend

theorem effect_setVoteAggregator (hi : m.Inv) {va : VoteAggregator}
    (hg : VoteAggregator.Grows m.router.voteAggregator va) : Effect m [] (m.setVoteAggregator va) where
  inv :=
    { votes := hg.wf
      stores := hi.stores
      staged := fun r p hne => (hi.staged r p hne).mono hg.formed
      step := hi.step
      pending := hi.pending
      remembers := hg.remembers _ hi.remembers }
  formed := hg.formed
  now := le_refl _
  votes _ ha := absurd ha List.not_mem_nil
  keeps _ _ hk _ := hk
  holds _ ha := absurd ha List.not_mem_nil

theorem Inv.update (hi : m.Inv) : m.update.Inv where
  votes := hi.votes.trim _
  stores r := by
    rcases store_update m r with h | h
    · rw [h]
      exact hi.stores r
    · rw [h]
      exact ProposalStore.wf_empty
  staged r p hne := by
    rcases store_update m r with h | h
    · rw [h] at hne ⊢
      exact hi.staged r p hne
    · rw [h] at hne
      exact absurd rfl hne
  step := hi.step
  pending := hi.pending
  remembers := VoteAggregator.Remembers.trim hi.remembers (Nat.sub_le _ _)

theorem effect_update (hi : m.Inv) : Effect m [] m.update where
  inv := hi.update
  formed := List.Subset.refl _
  now := le_refl _
  votes _ ha := absurd ha List.not_mem_nil
  keeps _ v hk _ := by
    unfold Machine.Keeps at *
    rw [player_update, store_update_of_le (Nat.le_refl _)]
    exact hk
  holds _ ha := absurd ha List.not_mem_nil

/-- A silent step after `update`. -/
theorem Effect.of_update {as : List Action} (hi : m.Inv) (h : Effect m.update as m') : Effect m as m' :=
  (effect_update hi).trans rfl h

/-! ## Threshold events -/

section Threshold

variable {m : Machine} {te : ThresholdEvent}

@[simp] theorem player_dispatchThreshold (m : Machine) (te : ThresholdEvent) :
    (m.dispatchThreshold te).1.player = m.player := rfl

@[simp] theorem formed_dispatchThreshold (m : Machine) (te : ThresholdEvent) :
    (m.dispatchThreshold te).1.formed = m.formed := rfl

theorem staged_dispatchThreshold (m : Machine) (te : ThresholdEvent) :
    ProposalManager.Staged m.update.router.proposalManager m.player.period te
      (m.dispatchThreshold te).1.router.proposalManager (m.dispatchThreshold te).2 :=
  ProposalManager.staged_handleThreshold _ _ _

theorem inv_dispatchThreshold (hi : m.Inv) (hte : te ∈ m.formed) : (m.dispatchThreshold te).1.Inv where
  votes := hi.update.votes
  stores := (staged_dispatchThreshold m te).wf hi.update.stores
  staged r p hne := by
    have hs := staged_dispatchThreshold m te
    by_cases hr : r = te.round
    · subst hr
      have hst := hs.staging p
      unfold store at *
      rw [hst] at hne ⊢
      split at hne
      · rename_i h
        rw [if_pos h]
        exact ⟨te, hte, h.1, rfl, h.2.symm, rfl⟩
      · rename_i h
        rw [if_neg h]
        exact hi.update.staged _ p hne
    · have hst := hs.other r hr
      unfold store at *
      rw [hst] at hne ⊢
      exact hi.update.staged r p hne
  step := hi.step
  pending := hi.pending
  remembers := hi.update.remembers

theorem prepares_dispatchThreshold (hi : m.Inv) (hte : te ∈ m.formed) : Prepares m (m.dispatchThreshold te).1 :=
  ⟨inv_dispatchThreshold hi hte, List.Subset.refl _, rfl, rfl⟩

/-- A soft or cert threshold that starts no new period drops no kept value. -/
theorem effect_dispatchThreshold (hi : m.Inv) (hte : te ∈ m.formed) (hn : te.t ≠ .next)
    (hle : te.period ≤ m.player.period) : Effect m [] (m.dispatchThreshold te).1 where
  inv := inv_dispatchThreshold hi hte
  formed := List.Subset.refl _
  now := le_refl _
  votes _ ha := absurd ha List.not_mem_nil
  keeps _ v hk hc := by
    have hs := staged_dispatchThreshold m te
    have hk' : (m.update.store m.player.round).Keeps m.player.period v := by
      rw [store_update_of_le (Nat.le_refl _)]
      exact hk
    unfold Machine.Keeps
    rw [player_dispatchThreshold]
    by_cases hr : m.player.round = te.round
    · have hsame : te.period = m.player.period → te.proposal = v := by
        intro hp
        refine hc te.round te.period _ _ ⟨te, hte, hn, rfl, rfl, rfl⟩ ?_
        have hst := hi.staged m.player.round m.player.period (by rw [hk.staged]; exact hk.ne_bottom)
        rw [hk.staged, hr] at hst
        rw [hp]
        exact hst
      rw [hr] at hk' ⊢
      exact hs.keeps hn hle _ _ hk' hsame
    · have hst := hs.other _ hr
      unfold store at *
      rw [hst]
      exact hk'
  holds _ ha := absurd ha List.not_mem_nil

/-- What a committable threshold event has staged. -/
theorem committable_dispatchThreshold {ce : CommittableEvent} (h : (m.dispatchThreshold te).2 = .committable ce) :
    te.t ≠ .next ∧ ce.proposal = te.proposal ∧
      ((m.dispatchThreshold te).1.store te.round).staging te.period = te.proposal ∧
      ((m.dispatchThreshold te).1.store te.round).Assembled te.proposal :=
  (staged_dispatchThreshold m te).committable ce h

end Threshold

/-! ## Periods and rounds -/

section Enter

theorem attests_broadcastPayload (payload : Option Proposal) : attests (payload.toList.map
    (fun pp => broadcastPayloadAction ⟨default, pp.unauthenticatedProposal⟩)) = [] := by
  cases payload <;> rfl

theorem attests_resendPayload (m : Machine) (r : Round) (p : Period) : attests (m.resendPayload r p) = [] := by
  unfold resendPayload
  simp only
  split
  · exact attests_broadcastPayload _
  · split
    · exact attests_broadcastPayload _
    · rfl

@[simp] theorem attests_partitionPolicy (m : Machine) : attests m.partitionPolicy = [] := by
  unfold partitionPolicy
  split
  · rfl
  · simp only [attests_append]
    have hb : ∀ fresh : Option ThresholdEvent, attests (fresh.toList.map (fun te => Action.network
        { (default : NetworkAction) with
          t := .broadcast, tag := voteBundleTag, unauthenticatedBundle := te.bundle })) = [] := by
      intro fresh
      cases fresh <;> rfl
    rw [hb, List.nil_append]
    split
    · exact attests_resendPayload _ _ _
    · split
      · exact attests_resendPayload _ _ _
      · rfl

theorem calculateFilterTimeout_place (pl : Player) (params : ConsensusParams) :
    (calculateFilterTimeout pl params).1.round = pl.round ∧ (calculateFilterTimeout pl params).1.period = pl.period ∧
      (calculateFilterTimeout pl params).1.step = pl.step ∧ (calculateFilterTimeout pl params).1.napping = pl.napping ∧
      (calculateFilterTimeout pl params).1.pending = pl.pending := by
  unfold calculateFilterTimeout
  split
  · simp
  · split
    · simp
    · simp

variable (pl : Player) (params : ConsensusParams) (round : Round) (period : Period)

@[simp] theorem startPeriod_round : (startPeriod pl params round period).round = round :=
  (calculateFilterTimeout_place _ _).1

@[simp] theorem startPeriod_period : (startPeriod pl params round period).period = period :=
  (calculateFilterTimeout_place _ _).2.1

@[simp] theorem startPeriod_step : (startPeriod pl params round period).step = soft :=
  (calculateFilterTimeout_place _ _).2.2.1

@[simp] theorem startPeriod_pending : (startPeriod pl params round period).pending = pl.pending :=
  (calculateFilterTimeout_place _ _).2.2.2.2

/-- The invariant in a later period. -/
theorem Inv.startPeriod {m : Machine} (hi : m.Inv) (hle : m.player.round ≤ round) :
    Inv { m with player := Machine.startPeriod m.player params round period } where
  votes := hi.votes
  stores := hi.stores
  staged := hi.staged
  step := by rw [startPeriod_step]
  pending := by rw [startPeriod_pending]; exact hi.pending
  remembers := by
    unfold Machine.Remembers
    rw [startPeriod_round]
    exact VoteAggregator.Remembers.mono hi.remembers hle

/-- Moving on to a later period, with nothing or with a cert vote for the value staged there. -/
theorem effect_startPeriod {m : Machine} (hi : m.Inv) (as : List Action) (hle : m.player.round ≤ round)
    (hlt : m.position < toLex (round, period))
    (has : ∀ a ∈ attests as, a.step = cert ∧ a.round = round ∧ a.period = period ∧
      (m.store round).staging period = a.proposal ∧ (m.store round).Assembled a.proposal) :
    Effect m as { m with player := Machine.startPeriod m.player params round period } where
  inv := hi.startPeriod params round period hle
  formed := List.Subset.refl _
  now := by
    refine le_of_lt (now_lt_of_position_lt ?_)
    unfold Machine.position at *
    simp only [startPeriod_round, startPeriod_period]
    exact hlt
  votes a ha := by
    obtain ⟨hs, hr, hp, hst, has⟩ := has a ha
    have hpos : a.position = toLex (round, period) := by
      unfold PseudonodeAction.position
      rw [hr, hp]
    refine ⟨hs, by rw [hpos]; exact le_of_lt hlt, ?_, ?_⟩
    · unfold Machine.position
      rw [hpos, startPeriod_round, startPeriod_period]
    · have hne : a.proposal ≠ bottom := by
        intro hb
        rw [hb] at has
        exact (hi.stores round).not_assembled has
      rw [hr, hp, ← hst]
      exact hi.staged round period (by rw [hst]; exact hne)
  keeps hpos := by
    unfold Machine.position at hpos
    rw [startPeriod_round, startPeriod_period] at hpos
    exact absurd hpos.symm (ne_of_lt hlt)
  holds a ha _ := by
    obtain ⟨-, -, -, hst, has⟩ := has a ha
    unfold Machine.Holds
    rw [startPeriod_round, startPeriod_period]
    exact ⟨hst, has⟩

end Enter

section EnterPeriod

variable {m : Machine} {te : ThresholdEvent} {target : Period} (params : ConsensusParams)

@[simp] theorem enterPeriod_player : (m.enterPeriod params te target).1.player =
    startPeriod m.player params m.player.round target := rfl

/-- **Entering a period** on a threshold event of the round. -/
theorem effect_enterPeriod (hi : m.Inv) (hte : te ∈ m.formed) (hround : te.round = m.player.round)
    (hlt : m.player.period < target) (htarget : te.t ≠ .next → target = te.period) :
    Effect m (m.enterPeriod params te target).2 (m.enterPeriod params te target).1 := by
  have hprep := prepares_dispatchThreshold hi hte
  have hpos : (m.dispatchThreshold te).1.position < toLex (m.player.round, target) :=
    Prod.Lex.lt_iff.2 (.inr ⟨rfl, hlt⟩)
  refine hprep.effect (effect_startPeriod params m.player.round target hprep.inv _ (Nat.le_refl _) hpos ?_) ?_
  · intro a ha
    unfold enterPeriod at ha
    simp only at ha
    split at ha
    · rename_i ce hce
      obtain ⟨hn, hp, hst, has⟩ := committable_dispatchThreshold hce
      rw [attests_append, attests_append, attests_partitionPolicy] at ha
      have ha' : a = ⟨.attest, (startPeriod m.player params m.player.round target).round,
          (startPeriod m.player params m.player.round target).period, cert, ce.proposal⟩ := List.mem_singleton.1 ha
      rw [startPeriod_round, startPeriod_period] at ha'
      subst ha'
      rw [htarget hn, ← hround, hp]
      exact ⟨rfl, rfl, rfl, hst, has⟩
    · split at ha
      · split at ha
        · rw [attests_append, attests_append, attests_partitionPolicy] at ha
          cases ha
        · rw [attests_append, attests_append, attests_partitionPolicy] at ha
          cases ha
      · rw [attests_append, attests_partitionPolicy] at ha
        cases ha
  · unfold Machine.position
    rw [enterPeriod_player, startPeriod_round, startPeriod_period]
    exact hpos

theorem position_lt_enterPeriod (hlt : m.player.period < target) :
    m.position < (m.enterPeriod params te target).1.position := by
  refine position_lt_of_period ?_ ?_
  · rw [enterPeriod_player, startPeriod_round]
  · rw [enterPeriod_player, startPeriod_period]
    exact hlt

end EnterPeriod

/-- What a handler of threshold events is used for. -/
def ThresholdSpec (handleThreshold : Machine → ThresholdEvent → Except Panic (Machine × List Action)) : Prop :=
  ∀ m te m' as, m.Inv → te ∈ m.formed → te.round = m.player.round → handleThreshold m te = .ok (m', as) →
    Effect m as m'

section EnterRound

variable {m m' : Machine} {params : ConsensusParams} {as : List Action}
  {handleThreshold : Machine → ThresholdEvent → Except Panic (Machine × List Action)}

/-- **Entering a round.** -/
theorem effect_enterRound (hspec : ThresholdSpec handleThreshold) (hi : m.Inv) {target : Round}
    (hlt : m.player.round < target) (h : enterRound handleThreshold m params target = .ok (m', as)) :
    Effect m as m' ∧ m.position < m'.position := by
  unfold enterRound at h
  obtain ⟨pipelined, -, h⟩ := bind_eq_ok.1 h
  simp only at h
  have hpos : m.update.position < toLex (target, (0 : Period)) := Prod.Lex.lt_iff.2 (.inl hlt)
  have hsil : attests ([.rezero target, .pseudonode ⟨.assemble, target, 0, 0, bottom⟩] ++
      pipelined.toList.map (fun ep => verifyPayloadAction
        { (default : InternalMessage) with unauthenticatedProposal := ep.unauthenticatedPayload }
        target ep.period ep.pinned)) = [] := by
    cases pipelined <;> rfl
  have h₁ : ∀ bs, attests bs = [] → Effect m bs
      (Machine.update { m.update with player := startPeriod m.player params target 0 }) := by
    intro bs hbs
    have he := (effect_startPeriod params target 0 hi.update bs (Nat.le_of_lt hlt) hpos
      (fun a ha => absurd ha (by rw [hbs]; exact List.not_mem_nil))).of_update hi
    rw [← List.append_nil bs]
    exact he.trans hbs (effect_update he.inv)
  have hlt₁ : m.position <
      (Machine.update { m.update with player := startPeriod m.player params target 0 }).position := by
    refine position_lt_of_round ?_
    rw [player_update, startPeriod_round]
    exact hlt
  split at h
  · cases h
    exact ⟨h₁ _ hsil, hlt₁⟩
  · rename_i te hte
    obtain ⟨⟨m₂, bs⟩, h₂, h⟩ := bind_eq_ok.1 h
    cases h
    have hinv := (h₁ [] rfl).inv
    obtain ⟨hmem, hround⟩ := hinv.votes.freshest _ te hte
    have he := hspec _ te m₂ bs hinv hmem (by rw [hround, player_update, startPeriod_round]) h₂
    exact ⟨(h₁ _ hsil).trans hsil he, lt_of_lt_of_le hlt₁ (position_le_of_now_le he.now)⟩

theorem updateCredentialArrivalHistory_place (m : Machine) :
    m.updateCredentialArrivalHistory.1.router = m.router ∧ SamePlace m m.updateCredentialArrivalHistory.1 ∧
      m.updateCredentialArrivalHistory.1.player.pending = m.player.pending := by
  unfold updateCredentialArrivalHistory
  split
  · exact ⟨rfl, .of_player rfl, rfl⟩
  split
  · exact ⟨rfl, .of_player rfl, rfl⟩
  simp only
  split
  · exact ⟨rfl, .of_player rfl, rfl⟩
  · exact ⟨rfl, ⟨rfl, rfl, rfl, rfl⟩, rfl⟩

theorem effect_updateCredentialArrivalHistory (hi : m.Inv) : Effect m [] m.updateCredentialArrivalHistory.1 := by
  obtain ⟨hr, hp, hpend⟩ := updateCredentialArrivalHistory_place m
  refine effect_of_touches hi hp (by rw [hr]) (fun r => ?_) (by rw [hpend]; exact hi.pending)
  unfold store
  rw [hr]
  exact .refl _

/-- The end of a round: the block is ensured and the next round entered. -/
theorem effect_ensure (hspec : ThresholdSpec handleThreshold) (hi : m.Inv) {target : Round}
    (hlt : m.player.round < target)
    (h : enterRound handleThreshold m.updateCredentialArrivalHistory.1 params target = .ok (m', as)) :
    Effect m as m' ∧ m.position < m'.position := by
  have hu := effect_updateCredentialArrivalHistory hi
  obtain ⟨-, hp, -⟩ := updateCredentialArrivalHistory_place m
  obtain ⟨he, hpos⟩ := effect_enterRound hspec hu.inv (by rw [hp.round]; exact hlt) h
  rw [hp.position] at hpos
  exact ⟨hu.trans rfl he, hpos⟩

/-- An action that is no vote may stand in front. -/
theorem Effect.cons {a : Action} (h : Effect m as m') (ha : a.Silent) : Effect m (a :: as) m' := by
  have hat : attests (a :: as) = attests as := by rw [attests_cons, ha, List.nil_append]
  exact ⟨h.inv, h.formed, h.now, by rw [hat]; exact h.votes, h.keeps, by rw [hat]; exact h.holds⟩

theorem Effect.silent {bs : List Action} (h : Effect m [] m') (hb : attests bs = []) : Effect m bs m' :=
  ⟨h.inv, h.formed, h.now, by rw [hb]; exact h.votes, h.keeps, by rw [hb]; exact h.holds⟩

/-- A silent change followed by a cert vote for the value it left staged with its payload. -/
theorem Effect.certVote {v : ProposalValue} (h : Effect m [] m') (hp : m'.position = m.position) (hh : m'.Holds v)
    (bs : List Action) (hb : attests bs = []) : Effect m (bs ++ [m'.attest cert v]) m' := by
  have hat : attests (bs ++ [m'.attest cert v]) = [⟨.attest, m'.player.round, m'.player.period, cert, v⟩] := by
    rw [attests_append, hb]
    rfl
  have hne : v ≠ bottom := by
    intro hv
    have ha := hh.2
    rw [hv] at ha
    exact (h.inv.stores _).not_assembled ha
  refine ⟨h.inv, h.formed, h.now, ?_, h.keeps, ?_⟩
  · rw [hat]
    intro a ha
    rw [List.mem_singleton] at ha
    subst ha
    refine ⟨rfl, le_of_eq hp.symm, le_refl _, ?_⟩
    have hs := h.inv.staged m'.player.round m'.player.period (by rw [hh.1]; exact hne)
    rw [hh.1] at hs
    exact hs
  · rw [hat]
    intro a ha _
    rw [List.mem_singleton] at ha
    subst ha
    exact hh

/-- **One threshold event.** -/
theorem effect_thresholdStep (hspec : ThresholdSpec handleThreshold) (hi : m.Inv) {te : ThresholdEvent}
    (hte : te ∈ m.formed) (hround : te.round = m.player.round)
    (h : thresholdStep handleThreshold params m te = .ok (m', as)) : Effect m as m' := by
  have hprep := prepares_dispatchThreshold hi hte
  unfold thresholdStep at h
  split at h
  · rename_i ht
    have hn : te.t ≠ .next := by rw [ht]; decide
    simp only at h
    split at h
    · obtain ⟨⟨m₁, bs⟩, h₁, h⟩ := bind_eq_ok.1 h
      cases h
      obtain ⟨hr, hp, -⟩ := updateCredentialArrivalHistory_place (m.dispatchThreshold te).1
      obtain ⟨he, hpos⟩ := effect_ensure hspec hprep.inv (by rw [hp.round]; exact Nat.lt_succ_self _) h₁
      exact (hprep.effect he hpos).cons rfl
    · split at h
      · rename_i hlt
        cases h
        have he := effect_enterPeriod params hprep.inv hte hround hlt (fun _ => rfl)
        exact (hprep.effect he (position_lt_enterPeriod params hlt)).cons rfl
      · rename_i hlt
        cases h
        exact (effect_dispatchThreshold hi hte hn (not_lt.1 hlt)).silent rfl
  · rename_i ht
    have hn : te.t ≠ .next := by rw [ht]; decide
    split at h
    · cases h
      exact .refl hi
    · rename_i hge
      split at h
      · rename_i hlt
        cases h
        exact effect_enterPeriod params hi hte hround hlt (fun _ => rfl)
      · rename_i hle
        have heq : te.period = m.player.period := le_antisymm (not_lt.1 hle) (not_lt.1 hge)
        have he := effect_dispatchThreshold hi hte hn (le_of_eq heq)
        simp only at h
        split at h
        · rename_i ce hce
          obtain ⟨-, hp, hst, has⟩ := committable_dispatchThreshold hce
          split at h
          · cases h
            refine he.certVote rfl ?_ [] rfl
            unfold Machine.Holds
            rw [player_dispatchThreshold, ← hround, ← heq, hp]
            exact ⟨hst, has⟩
          · cases h
            exact he
        · cases h
          exact he
  · rename_i ht
    split at h
    · cases h
      exact .refl hi
    · rename_i hge
      cases h
      exact effect_enterPeriod params hi hte hround (Nat.lt_succ_of_le (not_lt.1 hge)) (fun hn => absurd ht hn)

/-- **Every threshold event has an effect.** -/
theorem thresholdSpec_handleThresholdEvent (params : ConsensusParams) :
    ∀ fuel, ThresholdSpec (handleThresholdEvent params fuel)
  | 0 => fun _ _ _ _ _ _ _ h => by cases h
  | fuel + 1 => fun _ _ _ _ hi hte hround h =>
    effect_thresholdStep (thresholdSpec_handleThresholdEvent params fuel) hi hte hround h

end EnterRound

/-! ## Messages -/

section Message

variable {m m' : Machine} {params : ConsensusParams} {as : List Action} {e : MessageEvent} {hash : CredentialHash}
  {handleThreshold : Machine → ThresholdEvent → Except Panic (Machine × List Action)}
  {handleTail : Machine → MessageEvent → Except Panic (Machine × List Action)}

theorem effect_dispatchPayload (hi : m.Inv) {ans : PayloadAnswer} (h : m.dispatchPayload e = .ok (m', ans)) :
    Effect m [] m' ∧ m'.position = m.position ∧ ∀ ce, ans = .committable ce → m'.Holds ce.proposal := by
  unfold dispatchPayload at h
  simp only at h
  split at h
  · cases h
    refine ⟨(effect_setProposalManager hi.update _ fun r => ?_).of_update hi, rfl, fun ce hce => ?_⟩
    · exact ProposalManager.touches_handlePayloadPresent _ _ _ _ r
    · exact absurd hce (ProposalManager.handlePayloadPresent_ne_committable _ _ _ _ ce)
  · obtain ⟨⟨pm, a⟩, hpm, h⟩ := bind_eq_ok.1 h
    cases h
    obtain ⟨ht, hc⟩ := ProposalManager.handlePayloadVerified_ok hpm
    exact ⟨(effect_setProposalManager hi.update _ ht).of_update hi, rfl, hc⟩

/-- A valid payload ends the round if its certificate is there, or earns a cert vote. -/
theorem effect_payloadAccepted (hspec : ThresholdSpec handleThreshold) {m₀ : Machine} (he : Effect m₀ [] m)
    (hp : m.position = m₀.position) {ce : Option CommittableEvent} (hce : ∀ c, ce = some c → m.Holds c.proposal)
    {bs : List Action} (hb : attests bs = [])
    (h : payloadAccepted handleThreshold params m e ce bs = .ok (m', as)) : Effect m₀ as m' := by
  unfold payloadAccepted at h
  split at h
  · rename_i te hte
    obtain ⟨⟨m₁, cs⟩, h₁, h⟩ := bind_eq_ok.1 h
    cases h
    obtain ⟨hfresh, -⟩ := Option.filter_eq_some_iff.1 hte
    obtain ⟨hmem, hround⟩ := he.inv.votes.freshest _ te hfresh
    have hb' : te.bundle.round = m.player.round := (he.inv.votes.formed te hmem).bundle.trans hround
    obtain ⟨he', -⟩ := effect_ensure hspec he.inv (by rw [hb']; exact Nat.lt_succ_self _) h₁
    exact (he.silent hb).trans hb (he'.cons rfl)
  · split at h
    · rename_i c
      split at h
      · cases h
        exact he.certVote hp (hce c rfl) bs hb
      · cases h
        exact he.silent hb
    · cases h
      exact he.silent hb

theorem effect_handlePayload (hspec : ThresholdSpec handleThreshold) (hi : m.Inv)
    (h : handlePayload handleThreshold params m e = .ok (m', as)) : Effect m as m' := by
  unfold handlePayload at h
  obtain ⟨⟨m₁, ans⟩, h₁, h⟩ := bind_eq_ok.1 h
  obtain ⟨he, hp, hc⟩ := effect_dispatchPayload hi h₁
  have hown : ∀ vote : Option Vote, attests (if e.input.messageHandle.isNone
      then [relayPayload e.input.unauthenticatedProposal vote none] else []) = [] := by
    intro vote
    split <;> rfl
  cases ans with
  | malformed err =>
    cases h
    exact he.silent rfl
  | rejected err =>
    cases err with
    | none => cases h; exact he
    | some err => cases h; exact he.silent rfl
  | pipelined ep =>
    simp only at h
    split at h
    · cases h
      exact he.silent rfl
    · cases h
      refine he.silent ?_
      rw [attests_cons, hown]
      rfl
  | accepted pv vote =>
    exact effect_payloadAccepted hspec he hp (fun c hcc => (by cases hcc)) (hown vote) h
  | committable ce =>
    refine effect_payloadAccepted hspec he hp (fun c hcc => ?_) (hown ce.vote) h
    cases hcc
    exact hc ce rfl

theorem effect_dispatchVote (hi : m.Inv) (hg : e.Genuine) {ans : VoteAnswer}
    (h : m.dispatchVote params e = .ok (m', ans)) :
    Effect m [] m' ∧ ∀ te, ans = .threshold te → te ∈ m'.formed ∧ te.round = m'.player.round := by
  have hu := hi.update
  unfold dispatchVote at h
  simp only at h
  split at h
  · obtain ⟨⟨va, a⟩, hva, h⟩ := bind_eq_ok.1 h
    cases h
    obtain ⟨hgr, hth⟩ := VoteAggregator.handleVoteVerified_ok hu.votes hva
    exact ⟨(effect_setVoteAggregator hu hgr).of_update hi, hth⟩
  · rename_i ht
    obtain ⟨⟨va, a⟩, hva, h⟩ := bind_eq_ok.1 h
    cases h
    obtain ⟨hgr, hth⟩ := VoteAggregator.handleBundleVerified_ok hu.votes (hg.votes ht) hva
    exact ⟨(effect_setVoteAggregator hu hgr).of_update hi, hth⟩
  · cases h
    refine ⟨effect_update hi, fun te hte => ?_⟩
    unfold VoteAggregator.handleBundlePresent at hte
    split at hte
    · cases hte
    · cases hte
  · cases h
    refine ⟨effect_update hi, fun te hte => ?_⟩
    unfold VoteAggregator.handleVotePresent at hte
    split at hte
    · cases hte
    · split at hte
      · cases hte
      · cases hte

theorem attests_relayVerified (e : MessageEvent) (ans : VoteAnswer) : attests (relayVerified e ans) = [] := by
  unfold relayVerified
  split
  · cases e.input.vote <;> rfl
  · rfl
  · rfl

theorem effect_handleVote (hspec : ThresholdSpec handleThreshold) (hi : m.Inv) (hg : e.Genuine)
    (h : handleVote handleThreshold params m e = .ok (m', as)) : Effect m as m' := by
  unfold handleVote at h
  obtain ⟨⟨m₁, ans⟩, h₁, h⟩ := bind_eq_ok.1 h
  obtain ⟨he, hth⟩ := effect_dispatchVote hi hg h₁
  cases ans with
  | malformed err =>
    cases h
    exact he.silent rfl
  | filtered err =>
    cases h
    exact he.silent rfl
  | empty =>
    simp only at h
    split at h
    · cases h
      exact he.silent rfl
    · cases h
      exact he.silent rfl
    · cases h
      exact he.silent (attests_relayVerified e .empty)
  | threshold te =>
    simp only at h
    split at h
    · cases h
      exact he.silent rfl
    · cases h
      exact he.silent rfl
    · obtain ⟨⟨m₂, bs⟩, h₂, h⟩ := bind_eq_ok.1 h
      cases h
      obtain ⟨hmem, hround⟩ := hth te rfl
      have hrelay := attests_relayVerified e (.threshold te)
      exact (he.silent hrelay).trans hrelay (hspec _ te m₂ bs he.inv hmem hround h₂)

/-- What the handler of the payload that came with a proposal-vote is used for. -/
def MessageSpec (handleTail : Machine → MessageEvent → Except Panic (Machine × List Action)) : Prop :=
  ∀ m e m' as, m.Inv → e.Genuine → handleTail m e = .ok (m', as) → Effect m as m'

theorem effect_dispatchProposalVote (hash : CredentialHash) (hi : m.Inv) (e : MessageEvent) :
    Effect m [] (m.dispatchProposalVote hash e).1 := by
  unfold dispatchProposalVote
  simp only
  split
  · exact effect_update hi
  · refine (effect_setProposalManager hi.update _ fun r => ?_).of_update hi
    exact ProposalManager.touches_handleVoteVerified _ _ _ _ r

theorem genuine_push {t : ProposalTable} {tail : Option MessageEvent}
    (ht : ∀ k e, t.pending.lookup k = some e → e.Genuine) (htail : ∀ e, tail = some e → e.Genuine) (k : Nat)
    (e : MessageEvent) (h : (t.push tail).1.pending.lookup k = some e) : e.Genuine := by
  unfold ProposalTable.push at h
  cases tail with
  | none => exact ht k e h
  | some e' =>
    simp only [FinMap.lookup_insert_eq] at h
    split at h
    · cases h
      exact htail _ rfl
    · exact ht k e h

theorem effect_proposalVoteActions (hi : m.Inv) (hg : e.Genuine) (ans : ProposalVoteAnswer) :
    Effect m [] (m.proposalVoteActions e ans).1 ∧ attests (m.proposalVoteActions e ans).2.1 = [] := by
  unfold proposalVoteActions
  split
  · refine ⟨effect_setPlayer hi _ ⟨rfl, rfl, rfl, rfl⟩ ?_, rfl⟩
    exact fun k e' h => genuine_push hi.pending (fun t ht => hg.tail ht) k e' h
  · split
    · exact ⟨.refl hi, rfl⟩
    · split
      · exact ⟨.refl hi, rfl⟩
      · exact ⟨.refl hi, rfl⟩

theorem effect_handleProposalVoteInner (hash : CredentialHash) (params : ConsensusParams) (hi : m.Inv)
    (hg : e.Genuine) :
    Effect m [] (m.handleProposalVoteInner hash params e).1 ∧
      attests (m.handleProposalVoteInner hash params e).2.1 = [] := by
  have hd := effect_dispatchProposalVote hash hi e
  have hpa : ∀ ans, Effect m [] ((m.dispatchProposalVote hash e).1.proposalVoteActions e ans).1 ∧
      attests ((m.dispatchProposalVote hash e).1.proposalVoteActions e ans).2.1 = [] := by
    intro ans
    obtain ⟨h₁, h₂⟩ := effect_proposalVoteActions hd.inv hg ans
    exact ⟨hd.trans rfl h₁, h₂⟩
  unfold handleProposalVoteInner
  simp only
  split
  · exact ⟨hd, rfl⟩
  · split
    · exact ⟨hd, rfl⟩
    · split
      · exact ⟨hd, rfl⟩
      · exact ⟨hd, rfl⟩
      · exact hpa _
  · exact hpa _

theorem effect_takeTail (hi : m.Inv) (hg : e.Genuine) :
    Effect m [] (m.takeTail e).1 ∧ ∀ t, (m.takeTail e).2 = some t → t.Genuine := by
  unfold takeTail
  split
  · refine ⟨effect_setPlayer hi _ ⟨rfl, rfl, rfl, rfl⟩ (fun k e' hk => ?_), fun t ht => ?_⟩
    · unfold ProposalTable.pop at hk
      simp only [FinMap.lookup_erase_eq] at hk
      split at hk
      · cases hk
      · exact hi.pending k e' hk
    · rcases Option.or_eq_some_iff.1 ht with hp | ⟨-, hp⟩
      · exact hi.pending _ t hp
      · exact hg.tail hp
  · exact ⟨.refl hi, fun t ht => hg.tail ht⟩

theorem effect_handleProposalVote (hspec : MessageSpec handleTail) (hi : m.Inv) (hg : e.Genuine)
    (h : handleProposalVote handleTail hash params m e = .ok (m', as)) : Effect m as m' := by
  obtain ⟨he, hs⟩ := effect_handleProposalVoteInner hash params hi hg
  obtain ⟨ht, htail⟩ := effect_takeTail he.inv hg
  unfold handleProposalVote at h
  simp only at h
  split at h
  · cases h
    exact he.silent hs
  · split at h
    · cases h
      exact (he.trans rfl ht).silent hs
    · rename_i t hst
      obtain ⟨⟨m₂, bs⟩, h₂, h⟩ := bind_eq_ok.1 h
      cases h
      exact ((he.trans rfl ht).silent hs).trans hs (hspec _ t m₂ bs ht.inv (htail t hst) h₂)

theorem effect_messageStep (hth : ThresholdSpec handleThreshold) (htail : MessageSpec handleTail) (hi : m.Inv)
    (hg : e.Genuine) (h : messageStep handleThreshold handleTail hash params m e = .ok (m', as)) : Effect m as m' := by
  unfold messageStep at h
  simp only at h
  split at h
  · exact effect_handlePayload hth hi h
  · exact effect_handlePayload hth hi h
  · exact effect_handleVote hth hi hg h
  · exact effect_handleVote hth hi hg h
  · split at h
    · exact effect_handleProposalVote htail hi hg h
    · exact effect_handleVote hth hi hg h

/-- **Every message has an effect.** -/
theorem messageSpec_handleMessageEvent (hash : CredentialHash) (params : ConsensusParams) :
    ∀ fuel, MessageSpec (handleMessageEvent hash params fuel)
  | 0 => fun _ _ _ _ _ _ h => by cases h
  | fuel + 1 => fun _ _ _ _ hi hg h =>
    effect_messageStep (thresholdSpec_handleThresholdEvent params fuel) (messageSpec_handleMessageEvent hash params fuel)
      hi hg h

end Message

end Machine

end Agreement
end Algod
