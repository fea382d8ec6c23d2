import AlgodRust.Agreement.PlayerRuns
/-!
# Assemblers — how many payloads a store waits for

A store has an assembler for the pinned value and for the values its periods reported, and for no other one
(`ProposalStore.Trimmed`).  The store of a round the player has not entered knows proposal-votes of period 0 only and
has nothing pinned (`ProposalStore.Early`): the freshness rules let no other vote through, and thresholds of a later
round are not passed on.  So such a store has one assembler at most, and a new round never finds two.
-/
namespace Algod
namespace Agreement

open Run (bind_eq_ok Raises Path)

/-! ## Stores -/

namespace ProposalStore

variable {s : ProposalStore} {p : Period}

/-- Every assembler is for the pinned value or for one that a period reported, and none is for bottom. -/
def Trimmed (s : ProposalStore) : Prop :=
  ∀ pv ∈ s.assemblers, pv ≠ bottom ∧ (pv = s.pinned ∨ pv ∈ FinMap.values s.relevant)

/-- Nothing is pinned, and no period but the first has reported a value. -/
def Early (s : ProposalStore) : Prop := s.pinned = bottom ∧ ∀ p v, s.relevant.lookup p = some v → p = 0

theorem trimmed_empty : empty.Trimmed := fun _ h => absurd h (AList.notMem_empty _)

theorem early_empty : empty.Early := ⟨rfl, fun _ _ h => nomatch h⟩

theorem trimmed_trim (s : ProposalStore) (p : Period) : (s.trim p).Trimmed := by
  intro pv hpv
  obtain ⟨ea, hea⟩ := FinMap.mem_iff_lookup.1 hpv
  rw [lookup_trim] at hea
  split at hea
  · rename_i hkept
    exact hkept
  · cases hea

/-- Both depend on the keys of the assemblers only, beside the values that are pinned and relevant. -/
theorem Trimmed.of_keys {s' : ProposalStore} (h : s.Trimmed) (hkeys : ∀ pv ∈ s'.assemblers, pv ∈ s.assemblers)
    (hpinned : s'.pinned = s.pinned) (hrelevant : s'.relevant = s.relevant) : s'.Trimmed := by
  intro pv hpv
  rw [hpinned, hrelevant]
  exact h pv (hkeys pv hpv)

/-- **A store that is early and trimmed has one assembler at most.** -/
theorem assemblers_le_one (ht : s.Trimmed) (he : s.Early) : s.assemblers.entries.length ≤ 1 := by
  have hkey : ∀ e ∈ s.assemblers.entries, s.relevant.lookup 0 = some e.1 := by
    rintro ⟨pv, ea⟩ hmem
    obtain ⟨hne, hpinned | hrelevant⟩ := ht pv (FinMap.mem_iff_lookup.2 ⟨ea, FinMap.mem_entries.1 hmem⟩)
    · exact absurd (hpinned.trans he.1) hne
    · obtain ⟨p, hp⟩ := FinMap.mem_values.1 hrelevant
      rw [he.2 p pv hp] at hp
      exact hp
  match hentries : s.assemblers.entries, hkey, s.assemblers.nodupKeys with
  | [], _, _ => exact Nat.zero_le _
  | [_], _, _ => exact Nat.le_refl _
  | a :: b :: rest, hkey, hnodup =>
    have ha := hkey a List.mem_cons_self
    have hb := hkey b (List.mem_cons_of_mem _ List.mem_cons_self)
    rw [ha] at hb
    exact absurd (Option.some.inj hb) (fun hab => (List.nodupKeys_cons.1 hnodup).1 (by rw [hab]; simp [List.keys]))

theorem handleNewRound_quiet (ht : s.Trimmed) (he : s.Early) (p : Period) :
    Raises (· ≠ Panic.tooManyAssemblers) (s.handleNewRound p) := by
  have hlen := assemblers_le_one ht he
  unfold handleNewRound
  split
  · exact .ok _
  · split
    · exact .ok _
    · exact .ok _
  · rename_i hnil hone
    match hentries : s.assemblers.entries with
    | [] => exact absurd hentries hnil
    | [⟨pv, ea⟩] => exact absurd hentries (hone pv ea)
    | _ :: _ :: _ =>
      rw [hentries] at hlen
      exact absurd hlen (by simp)

theorem Trimmed.handleVoteVerified (h : s.Trimmed) (hash : CredentialHash) (p : Period) (v : Vote) :
    (s.handleVoteVerified hash p v).1.Trimmed := by
  unfold ProposalStore.handleVoteVerified
  simp only
  split
  · exact trimmed_trim _ _
  · exact h

/-- A proposal-vote of the first period leaves a store early. -/
theorem Early.handleVoteVerified (h : s.Early) (hash : CredentialHash) (p : Period) {v : Vote} (hv : v.rawVote.period = 0) :
    (s.handleVoteVerified hash p v).1.Early := by
  unfold ProposalStore.handleVoteVerified
  simp only
  split
  · refine ⟨h.1, ?_⟩
    intro q w hq
    simp only [relevant_trim] at hq
    rw [FinMap.lookup_insert_eq] at hq
    split at hq
    · rename_i hqv
      rw [hqv, hv]
    · exact h.2 q w hq
  · exact h

/-- A payload fills an assembler that is there. -/
theorem Trimmed.insert {pv : ProposalValue} {ea ea' : BlockAssembler} (h : s.Trimmed)
    (hpv : s.assemblers.lookup pv = some ea) :
    Trimmed { s with assemblers := s.assemblers.insert pv ea' } := by
  refine h.of_keys ?_ rfl rfl
  intro pv' hpv'
  rcases (AList.mem_insert _).1 hpv' with rfl | hold
  · exact FinMap.mem_iff_lookup.2 ⟨ea, hpv⟩
  · exact hold

theorem Trimmed.handlePayloadPresent (h : s.Trimmed) (p : Period) (up : UnauthenticatedProposal) :
    (s.handlePayloadPresent p up).1.Trimmed := by
  unfold ProposalStore.handlePayloadPresent
  simp only
  split
  · exact h
  · rename_i ea hea
    split
    · exact h
    · exact h.insert hea

theorem Early.handlePayloadPresent (h : s.Early) (p : Period) (up : UnauthenticatedProposal) :
    (s.handlePayloadPresent p up).1.Early := by
  unfold ProposalStore.handlePayloadPresent
  simp only
  split
  · exact h
  · split
    · exact h
    · exact h

theorem Trimmed.handlePayloadVerified (h : s.Trimmed) (p : Period) (pp : Proposal) :
    (s.handlePayloadVerified p pp).1.Trimmed := by
  unfold ProposalStore.handlePayloadVerified
  simp only
  split
  · exact h
  · rename_i ea hea
    split
    · exact h
    · split
      · exact h.insert hea
      · exact h.insert hea

theorem Trimmed.handleThreshold (h : s.Trimmed) (p : Period) (te : ThresholdEvent) :
    (s.handleThreshold p te).1.Trimmed := by
  unfold ProposalStore.handleThreshold
  simp only
  split
  · exact h
  · exact trimmed_trim _ _

end ProposalStore

/-! ## The manager -/

namespace ProposalManager

variable {pm pm' : ProposalManager} {playerRound : Round}

/-- Every store is trimmed, and the stores of later rounds are early. -/
structure Tidy (playerRound : Round) (pm : ProposalManager) : Prop where
  trimmed : ∀ r, (pm.store r).Trimmed
  early : ∀ r, playerRound < r → (pm.store r).Early

theorem tidy_empty (playerRound : Round) : empty.Tidy playerRound :=
  ⟨fun _ => ProposalStore.trimmed_empty, fun _ _ => ProposalStore.early_empty⟩

theorem Tidy.later {playerRound' : Round} (h : pm.Tidy playerRound) (hle : playerRound ≤ playerRound') :
    pm.Tidy playerRound' :=
  ⟨h.trimmed, fun r hr => h.early r (lt_of_le_of_lt hle hr)⟩

theorem Tidy.setStore {r : Round} {s : ProposalStore} (h : pm.Tidy playerRound) (ht : s.Trimmed)
    (he : playerRound < r → s.Early) :
    (pm.setStore r s).Tidy playerRound := by
  constructor
  · intro r'
    rw [store_setStore]
    split
    · exact ht
    · exact h.trimmed r'
  · intro r' hr'
    rw [store_setStore]
    split
    · rename_i heq
      exact he (heq ▸ hr')
    · exact h.early r' hr'

theorem Tidy.retainRoundsFrom (h : pm.Tidy playerRound) (keepFrom : Round) :
    (pm.retainRoundsFrom keepFrom).Tidy playerRound := by
  constructor
  · intro r
    rcases store_retainRoundsFrom pm keepFrom r with hr | hr
    · rw [hr]
      exact h.trimmed r
    · rw [hr]
      exact ProposalStore.trimmed_empty
  · intro r hlt
    rcases store_retainRoundsFrom pm keepFrom r with hr | hr
    · rw [hr]
      exact h.early r hlt
    · rw [hr]
      exact ProposalStore.early_empty

/-- A fresh proposal-vote of a later round is one of period 0. -/
theorem period_of_proposalFresh {fresh : FreshnessData} {uv : UnauthenticatedVote} (h : proposalFresh fresh uv = .ok ())
    (hlt : fresh.playerRound < uv.rawVote.round) : uv.rawVote.period = 0 := by
  unfold proposalFresh at h
  simp only at h
  rw [if_neg (ne_of_gt hlt)] at h
  split at h
  · split at h
    · cases h
    · rename_i hp
      exact not_not.1 hp
  · cases h

theorem Tidy.handleVoteVerified (hash : CredentialHash) (me : MessageEvent) {fresh : FreshnessData}
    (h : pm.Tidy fresh.playerRound) : (pm.handleVoteVerified hash me fresh).1.Tidy fresh.playerRound := by
  unfold ProposalManager.handleVoteVerified
  split
  · exact h
  split
  · exact h
  split
  · exact h
  · rename_i v _
    simp only
    have ht := (h.trimmed v.rawVote.round).handleVoteVerified hash v.rawVote.period v
    split
    · rename_i hfresh
      exact h.setStore ht (fun hlt => (h.early _ hlt).handleVoteVerified hash _ (period_of_proposalFresh hfresh hlt))
    · split
      · rename_i huseful
        have hold : v.rawVote.round < fresh.playerRound := (of_decide_eq_true huseful).1
        exact h.setStore ht (fun hlt => absurd hlt (lt_asymm hold))
      · exact h

theorem Tidy.handlePayloadPresent (h : pm.Tidy playerRound) (p : Period) (up : UnauthenticatedProposal) :
    (pm.handlePayloadPresent playerRound p up).1.Tidy playerRound :=
  h.setStore ((h.trimmed _).handlePayloadPresent _ _) (fun hlt => (h.early _ hlt).handlePayloadPresent _ _)

theorem Tidy.handlePayloadVerified {p : Period} {me : MessageEvent} {ans : PayloadAnswer} (h : pm.Tidy playerRound)
    (hok : pm.handlePayloadVerified playerRound p me = .ok (pm', ans)) : pm'.Tidy playerRound := by
  unfold ProposalManager.handlePayloadVerified at hok
  split at hok
  · cases hok
    exact h
  split at hok
  · cases hok
    exact h
  split at hok
  · cases hok
  · cases hok
    exact h.setStore ((h.trimmed _).handlePayloadVerified _ _) (fun hlt => absurd hlt (lt_irrefl _))

theorem Tidy.handleNewPeriod (h : pm.Tidy playerRound) (p : Period) {te : ThresholdEvent} (hte : te.round = playerRound) :
    (pm.handleNewPeriod p te).Tidy playerRound :=
  h.setStore (ProposalStore.trimmed_trim _ _) (fun hlt => absurd hte (ne_of_gt hlt))

theorem Tidy.handleThreshold (h : pm.Tidy playerRound) (p : Period) {te : ThresholdEvent} (hte : te.round = playerRound) :
    (pm.handleThreshold p te).1.Tidy playerRound := by
  unfold ProposalManager.handleThreshold
  split
  · exact h.handleNewPeriod p hte
  · have hnew : (if p < te.period then pm.handleNewPeriod p te else pm).Tidy playerRound := by
      split
      · exact h.handleNewPeriod p hte
      · exact h
    exact hnew.setStore ((hnew.trimmed _).handleThreshold _ _) (fun hlt => absurd hte (ne_of_gt hlt))

end ProposalManager

/-! ## Panics of the vote trackers -/

/-- The panic is another one than that of a store with too many assemblers. -/
abbrev Quiet {α : Type} (x : Except Panic α) : Prop := Raises (· ≠ Panic.tooManyAssemblers) x

theorem quiet_addU64 (a b : Nat) : Quiet (addU64 a b) := by
  unfold addU64
  split
  · exact .ok _
  · exact .error nofun

theorem quiet_packUntil {α : Type} (reached : Nat → Bool) (weightOf : α → Nat) : ∀ (as : List α) (weight : Nat),
    Quiet (packUntil reached weightOf weight as)
  | [], _ => .ok _
  | a :: as, weight => by
    unfold packUntil
    split
    · exact .ok _
    · exact (quiet_addU64 _ _).bind (fun _ => (quiet_packUntil reached weightOf as _).bind (fun _ => .ok _))

theorem quiet_makeBundle (params : ConsensusParams) (target : ProposalValue) (votes : List Vote)
    (equivocationVotes : List EquivocationVote) : Quiet (makeBundle params target votes equivocationVotes) := by
  unfold makeBundle
  split
  · exact .error nofun
  · simp only
    split
    · exact .error nofun
    · refine (quiet_packUntil _ _ _ _).bind (fun _ => (quiet_packUntil _ _ _ _).bind (fun _ => ?_))
      split
      · exact .ok _
      · exact .error nofun

namespace VoteTracker

theorem quiet_overThresholdLoop (vt : VoteTracker) (params : ConsensusParams) (step : Step) :
    ∀ (ps : List ProposalValue) (result : Option ProposalValue),
      Quiet (vt.overThresholdLoop params step ps result) := by
  intro ps
  induction ps with
  | nil => exact fun _ => .ok _
  | cons p ps ih =>
    intro result
    unfold overThresholdLoop
    refine Raises.bind (quiet_addU64 _ _) (fun c => ?_)
    split
    · split
      · exact .error (by intro h; cases h)
      · exact ih _
    · exact ih _

theorem quiet_emitThreshold (vt : VoteTracker) (e : VoteAcceptedEvent) (params : ConsensusParams)
    (overBefore : Option ProposalValue) : Quiet (vt.emitThreshold e params overBefore) := by
  unfold emitThreshold
  refine (quiet_overThresholdLoop vt params _ _ _).bind (fun overAfter => ?_)
  split
  · simp only
    split
    · exact .error (by intro h; cases h)
    · refine Raises.bind ?_ (fun _ => .ok _)
      unfold genBundle
      exact (quiet_packUntil _ _ _ _).bind (fun _ => (quiet_packUntil _ _ _ _).bind (fun _ => quiet_makeBundle _ _ _ _))
  · exact .ok _

theorem quiet_handleVoteAccepted (vt : VoteTracker) (e : VoteAcceptedEvent) (params : ConsensusParams) :
    Quiet (vt.handleVoteAccepted e params) := by
  unfold handleVoteAccepted
  simp only
  split
  · exact .error nofun
  split
  · exact .ok _
  refine (quiet_overThresholdLoop vt params _ _ _).bind (fun overBefore => ?_)
  split
  · split
    · exact .ok _
    · refine (quiet_addU64 _ _).bind (fun equi => ?_)
      split
      · exact .error nofun
      · split
        · exact .ok _
        · exact quiet_emitThreshold _ _ _ _
  · refine Raises.bind ?_ (fun _ => quiet_emitThreshold _ _ _ _)
    exact (quiet_addU64 _ _).bind (fun _ => .ok _)

end VoteTracker

namespace VoteAggregator

theorem quiet_fresherThan (te : ThresholdEvent) (other : Option ThresholdEvent) : Quiet (te.fresherThan other) := by
  unfold ThresholdEvent.fresherThan
  split
  · exact .ok _
  split
  · exact .error nofun
  split
  · exact .ok _
  split
  · exact .ok _
  · exact .ok _
  split
  · exact .ok _
  split
  · exact .ok _
  split
  · exact .ok _
  · exact .ok _

theorem quiet_deliver (va : VoteAggregator) (params : ConsensusParams) (v : Vote) (proto : String) :
    Quiet (va.deliver params v proto) := by
  unfold deliver
  refine Raises.bind ?_ (fun _ => .ok _)
  unfold VoteTrackerRound.handleVoteAccepted
  refine Raises.bind ?_ (fun r => ?_)
  · unfold VoteTrackerPeriod.handleVoteAccepted
    refine (VoteTracker.quiet_handleVoteAccepted _ _ _).bind (fun r => ?_)
    split
    · exact .ok _
    · exact .ok _
  · split
    · exact .ok _
    · refine Raises.bind ?_ (fun _ => .ok _)
      unfold VoteTrackerRound.handleThreshold
      refine (quiet_fresherThan _ _).bind (fun fresher => ?_)
      split
      · exact .ok _
      · exact .ok _

theorem quiet_replay (params : ConsensusParams) (proto : String) : ∀ (votes : List Vote) (va : VoteAggregator)
    (thresh : Option ThresholdEvent), Quiet (replay params proto va votes thresh)
  | [], _, _ => .ok _
  | v :: votes, va, thresh => by
    unfold replay
    exact (quiet_deliver va params v proto).bind (fun _ => quiet_replay params proto votes _ _)

theorem quiet_handleVoteVerified (va : VoteAggregator) (me : MessageEvent) (fresh : FreshnessData)
    (params : ConsensusParams) :
    Quiet (va.handleVoteVerified me fresh params) := by
  unfold handleVoteVerified
  split
  · exact .ok _
  split
  · exact .ok _
  split
  · exact .ok _
  split
  · exact .ok _
  split
  · exact .ok _
  refine (quiet_deliver _ _ _ _).bind (fun r => ?_)
  split
  · exact .ok _
  split
  · exact .ok _
  split
  · exact .ok _
  · exact .error nofun

theorem quiet_handleBundleVerified (va : VoteAggregator) (me : MessageEvent) (fresh : FreshnessData)
    (params : ConsensusParams) : Quiet (va.handleBundleVerified me fresh params) := by
  unfold handleBundleVerified
  simp only
  split
  · exact .ok _
  split
  · exact .ok _
  split
  · exact .ok _
  split
  · exact .ok _
  refine (quiet_replay _ _ _ _ _).bind (fun r => ?_)
  split
  · exact .ok _
  · exact .ok _

end VoteAggregator

/-! ## The machine -/

namespace Machine

def Tidy (m : Machine) : Prop := m.router.proposalManager.Tidy m.player.round

/-- A handler leaves the stores tidy, and it does not meet a store with too many assemblers. -/
structure Safe {α : Type} (x : Except Panic (Machine × α)) : Prop where
  tidy : ∀ m a, x = .ok (m, a) → m.Tidy
  quiet : Quiet x

section Safe

variable {α β γ : Type} {m : Machine}

theorem Safe.ok {a : α} (h : m.Tidy) : Safe (.ok (m, a) : Except Panic (Machine × α)) := by
  refine ⟨?_, .ok _⟩
  intro m' a' heq
  cases heq
  exact h

theorem Safe.error {e : Panic} (h : e ≠ .tooManyAssemblers) : Safe (.error e : Except Panic (Machine × α)) :=
  ⟨(fun _ _ heq => nomatch heq), Raises.error h⟩

theorem Safe.bind_quiet {x : Except Panic γ} {f : γ → Except Panic (Machine × β)} (hx : Quiet x)
    (hf : ∀ c, x = .ok c → Safe (f c)) : Safe (x >>= f) := by
  cases hx' : x with
  | error e => exact Safe.error (hx e hx')
  | ok c => exact hf c hx'

theorem Safe.bind {x : Except Panic (Machine × α)} {f : Machine × α → Except Panic (Machine × β)} (hx : Safe x)
    (hf : ∀ m a, m.Tidy → x = .ok (m, a) → Safe (f (m, a))) : Safe (x >>= f) :=
  .bind_quiet hx.quiet (fun c hc => hf c.1 c.2 (hx.tidy c.1 c.2 hc) hc)

theorem Tidy.update (h : m.Tidy) : m.update.Tidy := ProposalManager.Tidy.retainRoundsFrom h _

/-- A change of the player that takes it to the same round or a later one. -/
theorem Tidy.setPlayer (h : m.Tidy) {pl : Player} (hle : m.player.round ≤ pl.round) : Tidy { m with player := pl } :=
  ProposalManager.Tidy.later h hle

theorem tidy_bootstrapFresh (round : Round) (params : ConsensusParams) : (bootstrapFresh round params).1.Tidy :=
  ProposalManager.tidy_empty round

end Safe

/-! ### Threshold events -/

/-- What a handler of threshold events is used for. -/
def ThresholdSafe (handleThreshold : Machine → ThresholdEvent → Except Panic (Machine × List Action)) : Prop :=
  ∀ m te, m.Inv → m.Tidy → te ∈ m.formed → te.round = m.player.round → Safe (handleThreshold m te)

section Threshold

variable {m : Machine} {params : ConsensusParams} {te : ThresholdEvent}
  {handleThreshold : Machine → ThresholdEvent → Except Panic (Machine × List Action)}

theorem Tidy.dispatchThreshold (h : m.Tidy) (hround : te.round = m.player.round) : (m.dispatchThreshold te).1.Tidy :=
  ProposalManager.Tidy.handleThreshold h.update m.player.period hround

theorem Tidy.enterPeriod (h : m.Tidy) (hround : te.round = m.player.round) (target : Period) :
    (m.enterPeriod params te target).1.Tidy :=
  (h.dispatchThreshold hround).setPlayer (le_of_eq (startPeriod_round _ _ _ _).symm)

/-- **A later round is entered without a panic**: its store is early. -/
theorem safe_enterRound (hspec : ThresholdSafe handleThreshold) (hi : m.Inv) (h : m.Tidy) {target : Round}
    (hlt : m.player.round < target) : Safe (enterRound handleThreshold m params target) := by
  have hround : m.update.player.round ≤ (startPeriod m.update.player params target 0).round := by
    rw [startPeriod_round]
    exact le_of_lt hlt
  have hi' := (hi.update.startPeriod params target 0 (le_of_lt hlt)).update
  have h' : (Machine.update { m.update with player := startPeriod m.update.player params target 0 }).Tidy :=
    (h.update.setPlayer hround).update
  unfold enterRound
  refine .bind_quiet (ProposalStore.handleNewRound_quiet (h.update.trimmed _) (h.update.early _ hlt) _) ?_
  intro pipelined _
  simp only
  split
  · exact .ok h'
  · rename_i te hte
    obtain ⟨hmem, hte_round⟩ := hi'.votes.freshest _ te hte
    have hround : te.round =
        (Machine.update { m.update with player := startPeriod m.update.player params target 0 }).player.round := by
      rw [hte_round, player_update, startPeriod_round]
    exact (hspec _ te hi' h' hmem hround).bind (fun _ _ htidy _ => .ok htidy)

theorem Tidy.updateCredentialArrivalHistory (h : m.Tidy) : m.updateCredentialArrivalHistory.1.Tidy := by
  obtain ⟨hr, hp, -⟩ := updateCredentialArrivalHistory_place m
  unfold Tidy at *
  rw [hr, hp.round]
  exact h

theorem safe_thresholdStep (hspec : ThresholdSafe handleThreshold) (hi : m.Inv) (h : m.Tidy) (hte : te ∈ m.formed)
    (hround : te.round = m.player.round) : Safe (thresholdStep handleThreshold params m te) := by
  have hd := h.dispatchThreshold hround
  have hdi := inv_dispatchThreshold hi hte
  unfold thresholdStep
  split
  · simp only
    split
    · have hu := effect_updateCredentialArrivalHistory hdi
      exact (safe_enterRound hspec hu.inv hd.updateCredentialArrivalHistory (Nat.lt_succ_self _)).bind
        (fun _ _ htidy _ => .ok htidy)
    · split
      · exact .ok (hd.enterPeriod hround _)
      · exact .ok hd
  · split
    · exact .ok h
    split
    · exact .ok (h.enterPeriod hround _)
    · simp only
      split
      · split
        · exact .ok hd
        · exact .ok hd
      · exact .ok hd
  · split
    · exact .ok h
    · exact .ok (h.enterPeriod hround _)

theorem thresholdSafe_handleThresholdEvent (params : ConsensusParams) : ∀ fuel,
    ThresholdSafe (handleThresholdEvent params fuel)
  | 0 => fun _ _ _ _ _ _ => .error nofun
  | fuel + 1 => fun _ _ hi h hte hround =>
    safe_thresholdStep (thresholdSafe_handleThresholdEvent params fuel) hi h hte hround

end Threshold

/-! ### Messages -/

section Message

variable {m : Machine} {params : ConsensusParams} {e : MessageEvent} {hash : CredentialHash}
  {handleThreshold : Machine → ThresholdEvent → Except Panic (Machine × List Action)}
  {handleTail : Machine → MessageEvent → Except Panic (Machine × List Action)}

theorem safe_dispatchPayload (h : m.Tidy) : Safe (m.dispatchPayload e) := by
  unfold dispatchPayload
  simp only
  split
  · exact .ok (ProposalManager.Tidy.handlePayloadPresent h.update _ _)
  · refine .bind_quiet ?_ (fun r hr => ?_)
    · unfold ProposalManager.handlePayloadVerified
      split
      · exact .ok _
      split
      · exact .ok _
      split
      · exact .error nofun
      · exact .ok _
    · exact .ok (ProposalManager.Tidy.handlePayloadVerified h.update hr)

theorem safe_payloadAccepted (hspec : ThresholdSafe handleThreshold) (hi : m.Inv) (h : m.Tidy)
    (committable : Option CommittableEvent) (actions : List Action) :
    Safe (payloadAccepted handleThreshold params m e committable actions) := by
  unfold payloadAccepted
  split
  · rename_i te hte
    obtain ⟨hfresh, -⟩ := Option.filter_eq_some_iff.1 hte
    obtain ⟨hmem, hround⟩ := hi.votes.freshest _ te hfresh
    have hbundle : te.bundle.round = m.player.round := (hi.votes.formed te hmem).bundle.trans hround
    have hlt : m.updateCredentialArrivalHistory.1.player.round < te.bundle.round + 1 := by
      rw [(updateCredentialArrivalHistory_place m).2.1.round, hbundle]
      exact Nat.lt_succ_self _
    have hu := effect_updateCredentialArrivalHistory hi
    exact (safe_enterRound hspec hu.inv h.updateCredentialArrivalHistory hlt).bind (fun _ _ htidy _ => .ok htidy)
  · split
    · split
      · exact .ok h
      · exact .ok h
    · exact .ok h

theorem safe_handlePayload (hspec : ThresholdSafe handleThreshold) (hi : m.Inv) (h : m.Tidy) :
    Safe (handlePayload handleThreshold params m e) := by
  unfold handlePayload
  refine (safe_dispatchPayload h).bind (fun m₁ ans h₁ hok => ?_)
  obtain ⟨he, -⟩ := effect_dispatchPayload hi hok
  cases ans with
  | malformed err => exact .ok h₁
  | rejected err =>
    cases err with
    | none => exact .ok h₁
    | some err => exact .ok h₁
  | pipelined ep =>
    simp only
    split
    · exact .ok h₁
    · exact .ok h₁
  | accepted pv vote => exact safe_payloadAccepted hspec he.inv h₁ _ _
  | committable ce => exact safe_payloadAccepted hspec he.inv h₁ _ _

theorem safe_dispatchVote (h : m.Tidy) : Safe (m.dispatchVote params e) := by
  unfold dispatchVote
  simp only
  split
  · exact .bind_quiet (VoteAggregator.quiet_handleVoteVerified _ _ _ _) (fun _ _ => .ok h.update)
  · exact .bind_quiet (VoteAggregator.quiet_handleBundleVerified _ _ _ _) (fun _ _ => .ok h.update)
  · exact .ok h.update
  · exact .ok h.update

theorem safe_handleVote (hspec : ThresholdSafe handleThreshold) (hi : m.Inv) (h : m.Tidy) (hg : e.Genuine) :
    Safe (handleVote handleThreshold params m e) := by
  unfold handleVote
  refine (safe_dispatchVote h).bind (fun m₁ ans h₁ hok => ?_)
  obtain ⟨he, hth⟩ := effect_dispatchVote hi hg hok
  cases ans with
  | malformed err => exact .ok h₁
  | filtered err => exact .ok h₁
  | empty =>
    simp only
    split
    · exact .ok h₁
    · exact .ok h₁
    · exact .ok h₁
  | threshold te =>
    simp only
    split
    · exact .ok h₁
    · exact .ok h₁
    · obtain ⟨hmem, hround⟩ := hth te rfl
      exact (hspec m₁ te he.inv h₁ hmem hround).bind (fun _ _ htidy _ => .ok htidy)

theorem Tidy.handleProposalVoteInner (h : m.Tidy) : (m.handleProposalVoteInner hash params e).1.Tidy := by
  have hd : (m.dispatchProposalVote hash e).1.Tidy := by
    unfold dispatchProposalVote
    simp only
    split
    · exact h.update
    · exact @ProposalManager.Tidy.handleVoteVerified _ hash e m.update.freshnessData h.update
  have hpa : ∀ ans, ((m.dispatchProposalVote hash e).1.proposalVoteActions e ans).1.Tidy := by
    intro ans
    unfold proposalVoteActions
    split
    · exact hd.setPlayer (le_refl _)
    · split
      · exact hd
      · split
        · exact hd
        · exact hd
  unfold Machine.handleProposalVoteInner
  simp only
  split
  · exact hd
  · split
    · exact hd
    · split
      · exact hd
      · exact hd
      · exact hpa _
  · exact hpa _

theorem Tidy.takeTail (h : m.Tidy) : (m.takeTail e).1.Tidy := by
  unfold Machine.takeTail
  split
  · exact h.setPlayer (le_refl _)
  · exact h

/-- What the handler of the payload that came with a proposal-vote is used for. -/
def MessageSafe (handleTail : Machine → MessageEvent → Except Panic (Machine × List Action)) : Prop :=
  ∀ m e, m.Inv → m.Tidy → e.Genuine → Safe (handleTail m e)

theorem safe_handleProposalVote (hspec : MessageSafe handleTail) (hi : m.Inv) (h : m.Tidy) (hg : e.Genuine) :
    Safe (handleProposalVote handleTail hash params m e) := by
  obtain ⟨he, -⟩ := effect_handleProposalVoteInner hash params hi hg
  obtain ⟨ht, htail⟩ := effect_takeTail he.inv hg
  have h₁ : (m.handleProposalVoteInner hash params e).1.Tidy := h.handleProposalVoteInner
  unfold handleProposalVote
  simp only
  split
  · exact .ok h₁
  · split
    · exact .ok h₁.takeTail
    · rename_i t hst
      exact (hspec _ t ht.inv h₁.takeTail (htail t hst)).bind (fun _ _ htidy _ => .ok htidy)

theorem messageSafe_handleMessageEvent (hash : CredentialHash) (params : ConsensusParams) : ∀ fuel,
    MessageSafe (handleMessageEvent hash params fuel)
  | 0 => fun _ _ _ _ _ => .error nofun
  | fuel + 1 => fun m e hi h hg => by
    have hth := thresholdSafe_handleThresholdEvent params fuel
    show Safe (messageStep _ _ _ _ _ _)
    unfold messageStep
    simp only
    split
    · exact safe_handlePayload hth hi h
    · exact safe_handlePayload hth hi h
    · exact safe_handleVote hth hi h hg
    · exact safe_handleVote hth hi h hg
    · split
      · exact safe_handleProposalVote (messageSafe_handleMessageEvent hash params fuel) hi h hg
      · exact safe_handleVote hth hi h hg

end Message

/-! ### Timeouts -/

section Timeout

variable {m : Machine} {params : ConsensusParams}

theorem Tidy.handleFastTimeout (h : m.Tidy) (e : TimeoutEvent) : (m.handleFastTimeout e params).1.Tidy := by
  unfold Machine.handleFastTimeout
  split
  · exact h
  · simp only
    split
    · exact h.setPlayer (le_refl _)
    · exact Tidy.update (h.setPlayer (le_refl _))

theorem Tidy.freezeProposal (h : m.Tidy) : m.freezeProposal.1.Tidy :=
  ProposalManager.Tidy.setStore h.update (h.update.trimmed _) (fun hlt => absurd hlt (lt_irrefl _))

theorem safe_handleTimeout (h : m.Tidy) (e : TimeoutEvent) : Safe (m.handleTimeout e params) := by
  have hnext : ∀ {m : Machine} (d : Duration), m.Tidy → (m.issueNextVote d).1.Tidy := by
    intro m d h
    exact h.update.setPlayer (le_refl _)
  unfold handleTimeout
  simp only
  generalize (if e.proto.err.isSome || e.proto.version.isEmpty then defaultDeadlineTimeout
    else deadlineTimeout m.player.period params) = d
  split
  · exact .ok ((h.freezeProposal.setPlayer (le_refl _)).setPlayer (le_refl _))
  split
  · exact .ok (hnext _ (h.setPlayer (le_refl _)))
  split
  · exact .ok (hnext _ h)
  split
  · exact .error nofun
  · exact .ok (h.setPlayer (le_refl _))

end Timeout

/-! ### Runs -/

section Runs

variable {hash : CredentialHash} {m m' : Machine} {as tr : List Action}

/-- **One event.** -/
theorem safe_submitTop (hi : m.Inv) (h : m.Tidy) {e : ConsensusParams × ExternalEvent} (hadm : m.Admissible e.2)
    (fuel : Nat) :
    Safe (submitTop hash fuel m e) := by
  obtain ⟨params, e⟩ := e
  unfold submitTop handle
  cases e with
  | message e => exact messageSafe_handleMessageEvent hash params fuel m.update e hi.update h.update hadm
  | timeout e =>
    simp only
    split
    · exact .ok (h.update.handleFastTimeout e)
    · exact safe_handleTimeout h.update e
  | roundInterruption round =>
    exact safe_enterRound (thresholdSafe_handleThresholdEvent params fuel) hi.update h.update hadm
  | checkpoint e => exact .ok h.update

theorem tidy_of_path (hi : m.Inv) (h : m.Tidy) (hpath : Path (Steps hash) m tr m') : m'.Inv ∧ m'.Tidy := by
  refine hpath.invariant (fun _ m' => m'.Inv ∧ m'.Tidy) ⟨hi, h⟩ ?_
  rintro tr m₁ e m₂ as ⟨hi₁, h₁⟩ hstep
  constructor
  · rcases effect_or_ticks hi₁ hstep with he | ht
    · exact he.inv
    · exact ht.inv
  · obtain ⟨hadm, fuel, hok⟩ := hstep
    exact (safe_submitTop hi₁ h₁ hadm fuel).tidy m₂ as hok

/-- **No round begins with two assemblers.**  In every state that a run from a fresh start reaches, each store has
assemblers for its pinned and relevant values only and none for bottom, the store of a round to come has one at most,
and no event meets a store with too many. -/
theorem assemblers_bounded (hash : CredentialHash) (round : Round) (params : ConsensusParams)
    (h : Path (Steps hash) (bootstrapFresh round params).1 tr m) :
    (∀ r, ∀ pv ∈ (m.store r).assemblers, pv ≠ bottom ∧
      (pv = (m.store r).pinned ∨ pv ∈ FinMap.values (m.store r).relevant)) ∧
    (∀ r, m.player.round < r → (m.store r).assemblers.entries.length ≤ 1) ∧
    ∀ e fuel, m.Admissible e.2 → submitTop hash fuel m e ≠ .error .tooManyAssemblers := by
  obtain ⟨hi, ht⟩ := tidy_of_path (inv_bootstrapFresh round params) (tidy_bootstrapFresh round params) h
  refine ⟨ht.trimmed, ?_, ?_⟩
  · intro r hlt
    exact ProposalStore.assemblers_le_one (ht.trimmed r) (ht.early r hlt)
  · intro e fuel hadm hpanic
    exact (safe_submitTop hi ht hadm fuel).quiet _ hpanic rfl

/-- Two proposal-votes of the next round, the second with the lower credential, while the player is in round 5. -/
def pipelined : List ExternalEvent :=
  [voteMessage (proposalVote 1 6 0 (VoteTracker.valueOf 1) ⟨9⟩), voteMessage (proposalVote 2 6 0 (VoteTracker.valueOf 2) ⟨8⟩)]

theorem admissible_pipelined : ∀ e ∈ pipelined, ∀ m : Machine, m.Admissible e := by
  simp [pipelined, admissible_voteMessage]

theorem assemblers_bounded_pipelined : ∃ m tr,
    Path (Steps plainHash) (bootstrapFresh 5 VoteTracker.smallParams).1 tr m ∧
    (m.store 6).assemblers.keys = [VoteTracker.valueOf 2] ∧
    ∀ fuel, submitTop plainHash fuel m (VoteTracker.smallParams, .roundInterruption 6) ≠ .error .tooManyAssemblers := by
  obtain ⟨⟨m, tr⟩, hd, hP⟩ := @Run.ok_of_any _ _ (demo (fun _ => true) pipelined)
    (fun r => decide ((r.1.store 6).assemblers.keys = [VoteTracker.valueOf 2] ∧ r.1.player.round = 5))
    (by decide)
  obtain ⟨hkeys, hround⟩ := of_decide_eq_true hP
  have hpath := (path_demo admissible_pipelined hd).mono (fun _ _ _ _ => And.right)
  refine ⟨m, tr, hpath, hkeys, fun fuel => ?_⟩
  refine (assemblers_bounded plainHash 5 VoteTracker.smallParams hpath).2.2 _ fuel ?_
  show m.player.round < 6
  rw [hround]
  decide

end Runs

end Machine

end Agreement
end Algod
