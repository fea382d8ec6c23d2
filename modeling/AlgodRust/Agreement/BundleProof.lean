import AlgodRust.Agreement.VoteTally
import AlgodRust.Agreement.Bundle
/-!
# BundleProof — a tracker's bundle proves the quorum it reports

The bundle of a threshold event holds votes and equivocation pairs of the tracker, no sender twice, no more of them than
the threshold, and of enough weight (`bundle_of_emitted`).  So the certificate verifier accepts it wherever its votes
verify, and replaying it into a fresh tracker reports the same quorum again.  On the way the replay counts votes of
equivocators for values they do not stand for in the end; since an overrun of the threshold is never undone, it is
enough that there is none after the last vote.
-/
namespace Algod
namespace Agreement
namespace VoteTracker

open Run (bind_eq_ok ok_bind error_bind)
open Tally (Equivocates equivocatorWeight backers directWeight mem_backers mem_equivocators)

/-- What a bundle for `p` is made of, out of the accepted votes `L`. -/
structure Proves (w : Address → Nat) (params : ConsensusParams) (L : List Vote) (b : UnauthenticatedBundle) : Prop where
  votes : ∀ a ∈ b.votes, ∃ v ∈ L, a = v.authenticator ∧ v.rawVote = (b.voteOf a).rawVote
  pairs : ∀ a ∈ b.equivocationVotes, ∃ v₀ ∈ L, ∃ v₁ ∈ L, a.cred = ⟨v₀.cred.proof⟩ ∧ a.sigs = (v₀.sig, v₁.sig) ∧
    v₀.rawVote = (b.firstOf a).rawVote ∧ v₁.rawVote = (b.secondOf a).rawVote
  nodup : b.senders.Nodup
  differ : ∀ a ∈ b.equivocationVotes, a.proposals.1 ≠ a.proposals.2
  size : b.votes.length + b.equivocationVotes.length ≤ Step.committeeThreshold b.step params
  quorum : Step.reachesQuorum b.step params (b.senders.map w).sum = true
  nonempty : b.votes ≠ []
  fits : (b.senders.map w).sum < u64Bound

theorem Proves.mono {w : Address → Nat} {params : ConsensusParams} {L L' : List Vote} {b : UnauthenticatedBundle}
    (hp : Proves w params L b) (h : ∀ v ∈ L, v ∈ L') : Proves w params L' b where
  votes := fun a ha => by
    obtain ⟨v, hv, hrest⟩ := hp.votes a ha
    exact ⟨v, h v hv, hrest⟩
  pairs := fun a ha => by
    obtain ⟨v₀, h₀, v₁, h₁, hrest⟩ := hp.pairs a ha
    exact ⟨v₀, h v₀ h₀, v₁, h v₁ h₁, hrest⟩
  nodup := hp.nodup
  differ := hp.differ
  size := hp.size
  quorum := hp.quorum
  nonempty := hp.nonempty
  fits := hp.fits

section Emitted

variable {w : Address → Nat} {params : ConsensusParams} {L : List Vote} {vt : VoteTracker}

theorem sortedVotes_senders_nodup (ht : Tracks w L vt) {p : ProposalValue} {c : ProposalVoteCounter}
    (hc : vt.counts.lookup p = some c) : ((sortedVotes c).map (·.rawVote.sender)).Nodup := by
  have hkeys : (FinMap.values c.votes).map (·.rawVote.sender) = c.votes.keys :=
    FinMap.values_map_key c.votes _ (fun s v h => (ht.voter_mem s v (((ht.counter p c hc).2 s v).1 h).1).2)
  have hperm := (List.perm_insertionSort Vote.sortsBefore (FinMap.values c.votes)).map (·.rawVote.sender)
  rw [hkeys] at hperm
  exact hperm.nodup_iff.2 c.votes.keys_nodup

theorem sortedPairs_senders_nodup (ht : Tracks w L vt) : ((sortedPairs vt).map (·.sender)).Nodup := by
  have hkeys : (FinMap.values vt.equivocators).map (·.sender) = vt.equivocators.keys :=
    FinMap.values_map_key vt.equivocators _ (fun s ev h => (ht.pair_of s ev h).1)
  have hperm := (List.perm_insertionSort EquivocationVote.sortsBefore (FinMap.values vt.equivocators)).map (·.sender)
  rw [hkeys] at hperm
  exact hperm.nodup_iff.2 vt.equivocators.keys_nodup

/-- A voter is no equivocator. -/
theorem sortedVotes_disjoint_sortedPairs (ht : Tracks w L vt) {p : ProposalValue} {c : ProposalVoteCounter}
    (hc : vt.counts.lookup p = some c) {v : Vote} (hv : v ∈ sortedVotes c) {ev : EquivocationVote}
    (hev : ev ∈ sortedPairs vt) : v.rawVote.sender ≠ ev.sender := by
  intro heq
  obtain ⟨s, hs⟩ := mem_sortedVotes.1 hv
  obtain ⟨hs, _⟩ := ((ht.counter p c hc).2 s v).1 hs
  obtain ⟨t, hte⟩ := mem_sortedPairs.1 hev
  have h₁ := (ht.voter_mem s v hs).2
  have h₂ := (ht.pair_of t ev hte).1
  have hst : s = t := by rw [← h₁, heq, h₂]
  subst hst
  exact (mem_backers.1 (ht.voter_backs hs)).2 ((ht.equivocator_iff s).1 ⟨ev, hte⟩)

/-- **The bundle of a threshold event proves the quorum.** -/
theorem bundle_of_emitted (hw : Weighted w L) (ht : Tracks w L vt) {e : VoteAcceptedEvent} {te : ThresholdEvent}
    (hem : Emitted w params L vt e te) (hs : e.vote.rawVote.step ≠ propose)
    (hsame : ∀ v ∈ L, v.rawVote.round = e.vote.rawVote.round ∧ v.rawVote.period = e.vote.rawVote.period ∧
      v.rawVote.step = e.vote.rawVote.step) :
    Proves w params L te.bundle ∧ te.bundle.round = te.round ∧ te.bundle.period = te.period ∧
      te.bundle.step = te.step ∧ te.bundle.proposal = te.proposal := by
  obtain ⟨v₀, vs, evs, weight, total, hp, hall, hb⟩ := genBundle_ok hem.bundle
  obtain ⟨c, hc⟩ := (ht.counted_iff te.proposal).2 hem.crossed.1
  have hget : FinMap.getD vt.counts te.proposal ⟨0, ∅⟩ = c := by rw [FinMap.getD, hc]; rfl
  rw [hget] at hp
  obtain ⟨hvpre, hweight, -, hvfit⟩ := packUntil_ok _ _ _ hp.votes
  obtain ⟨hepre, htotal, -, hefit⟩ := packUntil_ok _ _ _ hp.pairs
  simp only [zero_add] at hweight htotal hvfit hefit hvpre hepre
  -- where the packed votes and pairs come from
  have hvmem : ∀ v ∈ vs, v ∈ L ∧ v.cred.weight = w v.rawVote.sender := by
    intro v hv
    obtain ⟨s, h⟩ := mem_sortedVotes.1 (hvpre.subset hv)
    obtain ⟨hL, _⟩ := ht.voter_mem s v (((ht.counter _ c hc).2 s v).1 h).1
    exact ⟨hL, (hw v hL).1⟩
  have hemem : ∀ ev ∈ evs, PairOf L ev ∧ ev.cred.weight = w ev.sender := by
    intro ev hev
    obtain ⟨s, h⟩ := mem_sortedPairs.1 (hepre.subset hev)
    obtain ⟨hsend, hpair⟩ := ht.pair_of s ev h
    exact ⟨hpair, by rw [ht.weight_of_pair hw h, hsend]⟩
  have hvpos' : ∀ v ∈ sortedVotes c, 0 < v.cred.weight := by
    intro v hv
    obtain ⟨s, h⟩ := mem_sortedVotes.1 hv
    exact (hw v (ht.voter_mem s v (((ht.counter _ c hc).2 s v).1 h).1).1).2
  have hepos' : ∀ ev ∈ sortedPairs vt, 0 < ev.cred.weight := by
    intro ev hev
    obtain ⟨s, h⟩ := mem_sortedPairs.1 hev
    obtain ⟨_, u, hu, _, _, _, _, _, _, hcred, _⟩ := ht.pair_of s ev h
    rw [hcred]
    exact (hw u hu).2
  have hv₀ : v₀ ∈ vs := List.mem_of_mem_head? hp.head
  have hne : vs ≠ [] := List.ne_nil_of_mem hv₀
  obtain ⟨hr₀, hp₀, hs₀⟩ := hsame v₀ (hvmem v₀ hv₀).1
  have hsenders : te.bundle.senders = vs.map (·.rawVote.sender) ++ evs.map (·.sender) := by
    rw [hb]
    show (vs.map Vote.authenticator).map _ ++ (evs.map EquivocationVote.authenticator).map _ = _
    rw [List.map_map, List.map_map]
    rfl
  have hsum : (te.bundle.senders.map w).sum = total := by
    rw [hsenders, List.map_append, List.sum_append, htotal, hweight, weightSum, weightSum, List.map_map, List.map_map]
    congr 2
    · exact List.map_congr_left (fun v hv => (hvmem v hv).2.symm)
    · exact List.map_congr_left (fun ev hev => (hemem ev hev).2.symm)
  refine ⟨⟨?_, ?_, ?_, ?_, ?_, ?_, ?_, ?_⟩, ?_⟩
  · intro a ha
    rw [hb] at ha ⊢
    obtain ⟨v, hv, rfl⟩ := List.mem_map.1 ha
    obtain ⟨hr, hper, hst⟩ := hsame v (hvmem v hv).1
    refine ⟨v, (hvmem v hv).1, rfl, ?_⟩
    show v.rawVote = ⟨v.rawVote.sender, v₀.rawVote.round, v₀.rawVote.period, v₀.rawVote.step, te.proposal⟩
    rw [hr₀, hp₀, hs₀, ← hr, ← hper, ← hst, ← hall v hv]
  · intro a ha
    rw [hb] at ha ⊢
    obtain ⟨ev, hev, rfl⟩ := List.mem_map.1 ha
    obtain ⟨⟨u₀, hu₀, u₁, hu₁, hsu₀, hsu₁, hpu₀, hpu₁, hcred, _, hsigs⟩, _⟩ := hemem ev hev
    obtain ⟨hr, hper, hst⟩ := hsame u₀ hu₀
    obtain ⟨hr', hper', hst'⟩ := hsame u₁ hu₁
    refine ⟨u₀, hu₀, u₁, hu₁, by rw [EquivocationVote.authenticator, hcred], hsigs, ?_, ?_⟩
    · show u₀.rawVote = ⟨ev.sender, v₀.rawVote.round, v₀.rawVote.period, v₀.rawVote.step, ev.proposals.1⟩
      rw [hr₀, hp₀, hs₀, ← hr, ← hper, ← hst, ← hsu₀, ← hpu₀]
    · show u₁.rawVote = ⟨ev.sender, v₀.rawVote.round, v₀.rawVote.period, v₀.rawVote.step, ev.proposals.2⟩
      rw [hr₀, hp₀, hs₀, ← hr', ← hper', ← hst', ← hsu₁, ← hpu₁]
  · rw [hsenders, List.nodup_append]
    refine ⟨(sortedVotes_senders_nodup ht hc).sublist (hvpre.sublist.map _),
      (sortedPairs_senders_nodup ht).sublist (hepre.sublist.map _), ?_⟩
    intro a ha b hb'
    obtain ⟨v, hv, rfl⟩ := List.mem_map.1 ha
    obtain ⟨ev, hev, rfl⟩ := List.mem_map.1 hb'
    exact sortedVotes_disjoint_sortedPairs ht hc (hvpre.subset hv) (hepre.subset hev)
  · intro a ha
    rw [hb] at ha
    obtain ⟨ev, hev, rfl⟩ := List.mem_map.1 ha
    obtain ⟨_, _, _, _, _, _, _, _, _, hdiff, _⟩ := (hemem ev hev).1
    exact hdiff
  · -- positive weights: each vote taken brings the quorum nearer by one at least
    have hvpos : ∀ v ∈ vs, 0 < v.cred.weight := fun v hv => (hw v (hvmem v hv).1).2
    have hs' : v₀.rawVote.step ≠ propose := hs₀ ▸ hs
    have hlen := packUntil_length (fun x => Step.reachesQuorum_iff hs') _ _ _ hvpos' hp.votes
    have hlen' := packUntil_length (fun x => Step.reachesQuorum_iff hs') _ _ _ hepos' hp.pairs
    have hle := length_le_weightSum vs hvpos
    rw [hb]
    simp only [bundleOf, List.length_map]
    simp only [hweight] at hlen hlen'
    omega
  · rw [hsum, hb]
    exact hp.quorum
  · rw [hb]
    simpa [bundleOf] using hne
  · rw [hsum]
    by_cases hevs : evs = []
    · have := (hvfit hne).1
      rw [htotal, hevs, weightSum_nil]
      exact this
    · exact (hefit hevs).1
  · rw [hb, hem.round_eq, hem.period_eq, hem.step_eq]
    exact ⟨hr₀, hp₀, hs₀, rfl⟩

end Emitted

/-! ## The certificate verifier accepts it -/

/-- Every vote of the bundle verifies, with the weight of its sender. -/
structure Verifies (w : Address → Nat) (crypto : VoteCrypto) (l : LedgerReader) (b : UnauthenticatedBundle) : Prop where
  votes : ∀ a ∈ b.votes, ∃ v, accepted crypto l (b.voteOf a) = some v ∧ v.cred.weight = w a.sender
  pairs : ∀ a ∈ b.equivocationVotes, (∃ v, accepted crypto l (b.firstOf a) = some v ∧ v.cred.weight = w a.sender) ∧
    (accepted crypto l (b.secondOf a)).isSome

variable {w : Address → Nat} {params : ConsensusParams} {L : List Vote} {b : UnauthenticatedBundle}

theorem Verifies.weight_eq {crypto : VoteCrypto} {l : LedgerReader} (hv : Verifies w crypto l b) :
    b.weight crypto l = (b.senders.map w).sum := by
  rw [UnauthenticatedBundle.weight, UnauthenticatedBundle.senders, List.map_append, List.sum_append, List.map_map,
    List.map_map]
  congr 2
  · apply List.map_congr_left
    intro a ha
    obtain ⟨v, hv, hw⟩ := hv.votes a ha
    rw [weightOf_of_accepted hv, hw]
    rfl
  · apply List.map_congr_left
    intro a ha
    obtain ⟨⟨v, hv, hw⟩, _⟩ := hv.pairs a ha
    rw [weightOf_of_accepted hv, hw]
    rfl

theorem Proves.verify_ok (hp : Proves w params L b) (hs : b.step ≠ propose) (hd : b.step ≤ down)
    (threads : { n : Nat // 1 ≤ n }) {crypto : VoteCrypto} {l : LedgerReader}
    (hl : l.consensusParams (paramsRound b.round) = .ok params) (hv : Verifies w crypto l b) :
    ∃ bundle, b.verify threads crypto l = .ok bundle := by
  have hweight := hv.weight_eq
  have hsize := hp.size
  refine (verify_isOk_iff threads (hweight ▸ hp.fits)).2 ⟨⟨params, hs, hl, ?_, hp.nodup, ?_, ?_, ?_⟩, hd, hp.differ⟩
  · simp only [UnauthenticatedBundle.tooLarge, decide_eq_false_iff_not, not_or, not_lt]
    omega
  · intro a ha
    obtain ⟨v, hv, _⟩ := hv.votes a ha
    rw [hv]; rfl
  · intro a ha
    obtain ⟨⟨v, hv, _⟩, h₂⟩ := hv.pairs a ha
    exact ⟨by rw [hv]; rfl, h₂⟩
  · rw [hweight]
    exact hp.quorum

/-! ## Replaying it reports the same quorum -/

/-- The votes of a bundle as the aggregator replays them: plain votes, then each pair as two votes. -/
def replayed (b : UnauthenticatedBundle) : List RawVote :=
  b.votes.map (fun a => (b.voteOf a).rawVote) ++
    b.equivocationVotes.flatMap (fun a => [(b.firstOf a).rawVote, (b.secondOf a).rawVote])

theorem mem_replayed {rv : RawVote} : rv ∈ replayed b ↔
    (∃ a ∈ b.votes, rv = (b.voteOf a).rawVote) ∨
      ∃ a ∈ b.equivocationVotes, rv = (b.firstOf a).rawVote ∨ rv = (b.secondOf a).rawVote := by
  simp only [replayed, List.mem_append, List.mem_map, List.mem_flatMap, List.mem_cons, List.not_mem_nil, or_false,
    eq_comm (a := rv)]

theorem replayed_header {rv : RawVote} (h : rv ∈ replayed b) :
    rv.round = b.round ∧ rv.period = b.period ∧ rv.step = b.step := by
  rcases mem_replayed.1 h with ⟨a, _, rfl⟩ | ⟨a, _, rfl | rfl⟩
  · exact ⟨rfl, rfl, rfl⟩
  · exact ⟨rfl, rfl, rfl⟩
  · exact ⟨rfl, rfl, rfl⟩

section Replay

variable {R : List VoteAcceptedEvent} (hR : R.map (·.vote.rawVote) = replayed b)
include hR

theorem mem_ballots_replayed {s : Address} {p : ProposalValue} : (s, p) ∈ ballots (delivered R []) ↔
    (p = b.proposal ∧ ∃ a ∈ b.votes, a.sender = s) ∨
      ∃ a ∈ b.equivocationVotes, a.sender = s ∧ (p = a.proposals.1 ∨ p = a.proposals.2) := by
  have hmem : (s, p) ∈ ballots (delivered R []) ↔ ∃ rv ∈ replayed b, rv.sender = s ∧ rv.proposal = p := by
    rw [← hR]
    simp [ballots, ballot, delivered]
  rw [hmem]
  constructor
  · rintro ⟨rv, hrv, rfl, rfl⟩
    rcases mem_replayed.1 hrv with ⟨a, ha, rfl⟩ | ⟨a, ha, rfl | rfl⟩
    · exact .inl ⟨rfl, a, ha, rfl⟩
    · exact .inr ⟨a, ha, rfl, .inl rfl⟩
    · exact .inr ⟨a, ha, rfl, .inr rfl⟩
  · rintro (⟨rfl, a, ha, rfl⟩ | ⟨a, ha, rfl, rfl | rfl⟩)
    · exact ⟨_, mem_replayed.2 (.inl ⟨a, ha, rfl⟩), rfl, rfl⟩
    · exact ⟨_, mem_replayed.2 (.inr ⟨a, ha, .inl rfl⟩), rfl, rfl⟩
    · exact ⟨_, mem_replayed.2 (.inr ⟨a, ha, .inr rfl⟩), rfl, rfl⟩

/-- The equivocators of the replay are the senders of the pairs. -/
theorem equivocates_replayed (hp : Proves w params L b) {s : Address} :
    Equivocates (ballots (delivered R [])) s ↔ s ∈ b.equivocationVotes.map (·.sender) := by
  constructor
  · rintro ⟨p, q, hpm, hqm, hne⟩
    rcases (mem_ballots_replayed hR).1 hpm with ⟨hpb, _⟩ | ⟨a, ha, rfl, _⟩
    · rcases (mem_ballots_replayed hR).1 hqm with ⟨hqb, _⟩ | ⟨a, ha, rfl, _⟩
      · exact absurd (hpb.trans hqb.symm) hne
      · exact List.mem_map_of_mem ha
    · exact List.mem_map_of_mem ha
  · intro h
    obtain ⟨a, ha, rfl⟩ := List.mem_map.1 h
    exact ⟨_, _, (mem_ballots_replayed hR).2 (.inr ⟨a, ha, rfl, .inl rfl⟩),
      (mem_ballots_replayed hR).2 (.inr ⟨a, ha, rfl, .inr rfl⟩), hp.differ a ha⟩

/-- The senders of the plain votes back the bundle's proposal, and nobody backs another. -/
theorem mem_backers_replayed (hp : Proves w params L b) {s : Address} {p : ProposalValue} :
    s ∈ backers (ballots (delivered R [])) p ↔ p = b.proposal ∧ s ∈ b.votes.map (·.sender) := by
  rw [mem_backers, equivocates_replayed hR hp]
  constructor
  · rintro ⟨hm, hne⟩
    rcases (mem_ballots_replayed hR).1 hm with ⟨hpb, a, ha, rfl⟩ | ⟨a, ha, rfl, _⟩
    · exact ⟨hpb, List.mem_map_of_mem ha⟩
    · exact absurd (List.mem_map_of_mem ha) hne
  · rintro ⟨hpb, hs⟩
    obtain ⟨a, ha, rfl⟩ := List.mem_map.1 hs
    refine ⟨(mem_ballots_replayed hR).2 (.inl ⟨hpb, a, ha, rfl⟩), ?_⟩
    intro he
    exact (List.nodup_append.1 hp.nodup).2.2 _ hs _ he rfl

theorem senders_replayed : Tally.senders (ballots (delivered R [])) = b.senders.toFinset := by
  ext s
  rw [Tally.mem_senders, List.mem_toFinset, UnauthenticatedBundle.senders, List.mem_append]
  constructor
  · rintro ⟨p, h⟩
    rcases (mem_ballots_replayed hR).1 h with ⟨_, a, ha, rfl⟩ | ⟨a, ha, rfl, _⟩
    · exact .inl (List.mem_map_of_mem ha)
    · exact .inr (List.mem_map_of_mem ha)
  · rintro (h | h)
    · obtain ⟨a, ha, rfl⟩ := List.mem_map.1 h
      exact ⟨_, (mem_ballots_replayed hR).2 (.inl ⟨rfl, a, ha, rfl⟩)⟩
    · obtain ⟨a, ha, rfl⟩ := List.mem_map.1 h
      exact ⟨_, (mem_ballots_replayed hR).2 (.inr ⟨a, ha, rfl, .inl rfl⟩)⟩

theorem totalWeight_replayed (hp : Proves w params L b) :
    Tally.totalWeight w (ballots (delivered R [])) = (b.senders.map w).sum := by
  rw [Tally.totalWeight, senders_replayed hR, List.sum_toFinset w hp.nodup]

theorem tally_replayed (hp : Proves w params L b) :
    Tally.tally w (ballots (delivered R [])) b.proposal = (b.senders.map w).sum := by
  rw [Tally.tally_eq_sum_union, ← List.sum_toFinset w hp.nodup]
  congr 1
  ext s
  rw [Finset.mem_union, mem_backers_replayed hR hp, mem_equivocators, equivocates_replayed hR hp, List.mem_toFinset,
    UnauthenticatedBundle.senders, List.mem_append]
  simp

/-- **Replaying the bundle does not overrun the threshold**, if the tracker it came from did not. -/
theorem not_overrun_replayed (hp : Proves w params L b)
    (hn : ¬ Tally.Overrun w (Step.committeeThreshold b.step params) (Forbidden b.step) (ballots L))
    (hallowed : ¬ Forbidden b.step b.proposal) :
    ¬ Tally.Overrun w (Step.committeeThreshold b.step params) (Forbidden b.step) (ballots (delivered R [])) := by
  have hsub : Tally.equivocators (ballots (delivered R [])) ⊆ Tally.equivocators (ballots L) := by
    intro s hs
    rw [mem_equivocators, equivocates_replayed hR hp] at hs
    obtain ⟨a, ha, rfl⟩ := List.mem_map.1 hs
    obtain ⟨v₀, h₀, v₁, h₁, _, _, hr₀, hr₁⟩ := hp.pairs a ha
    rw [mem_equivocators]
    refine ⟨a.proposals.1, a.proposals.2, ?_, ?_, hp.differ a ha⟩
    · have := mem_ballots h₀
      rwa [hr₀] at this
    · have := mem_ballots h₁
      rwa [hr₁] at this
  have honly : ∀ p, Tally.Over w (Step.committeeThreshold b.step params) (ballots (delivered R [])) p → p = b.proposal := by
    rintro p ⟨⟨s, hs⟩, _⟩
    exact ((mem_backers_replayed hR hp).1 hs).1
  rintro (⟨hne, hle⟩ | ⟨p, q, hpq, hover, hover'⟩ | ⟨p, hf, hover⟩)
  · exact hn (.inl ⟨hne.mono hsub, hle.trans (Finset.sum_le_sum_of_subset hsub)⟩)
  · exact hpq ((honly p hover).trans (honly q hover').symm)
  · exact hallowed (honly p hover ▸ hf)

theorem deliverAll_replayed (hp : Proves w params L b) (hs : b.step ≠ propose)
    (hn : ¬ Tally.Overrun w (Step.committeeThreshold b.step params) (Forbidden b.step) (ballots L))
    (hallowed : ¬ Forbidden b.step b.proposal)
    (hw : ∀ e ∈ R, e.vote.cred.weight = w e.vote.rawVote.sender ∧ 0 < e.vote.cred.weight) :
    ∃ vt te, deliverAll params R = .ok (vt, [te]) ∧ te.round = b.round ∧ te.period = b.period ∧ te.step = b.step ∧
      te.proposal = b.proposal := by
  have hmemR : ∀ e ∈ R, e.vote.rawVote ∈ replayed b := fun e he => hR ▸ List.mem_map_of_mem he
  have hdel : ∀ v ∈ delivered R [], ∃ e ∈ R, e.vote = v := fun v hv => by
    simpa [delivered] using hv
  have hweighted : Weighted w (delivered R []) := by
    intro v hv
    obtain ⟨e, he, rfl⟩ := hdel v hv
    exact hw e he
  have hstep : ∀ v ∈ delivered R [], v.rawVote.step = b.step := by
    intro v hv
    obtain ⟨e, he, rfl⟩ := hdel v hv
    exact (replayed_header (hmemR e he)).2.2
  have hT : 0 < Step.committeeThreshold b.step params := by
    have := List.length_pos_of_ne_nil hp.nonempty
    have := hp.size
    omega
  have hnover := not_overrun_replayed hR hp hn hallowed
  obtain ⟨⟨vt, tes⟩, hrun⟩ := (deliverAll_isOk_iff hs hweighted hstep
    (by rw [totalWeight_replayed hR hp]; exact hp.fits)).2 (.inr ⟨hT, hnover⟩)
  have hover : Tally.Over w (Step.committeeThreshold b.step params) (ballots (delivered R [])) b.proposal := by
    refine ⟨?_, ?_⟩
    · obtain ⟨a, ha⟩ := List.exists_mem_of_ne_nil _ hp.nonempty
      exact ⟨a.sender, (mem_backers_replayed hR hp).2 ⟨rfl, List.mem_map_of_mem ha⟩⟩
    · rw [tally_replayed hR hp]
      exact (Step.reachesQuorum_iff hs).1 hp.quorum
  obtain ⟨-, -, hrep, hevents⟩ := deliverAll_ok hs hweighted hstep hrun
  rcases hrep with ⟨_, hnone⟩ | ⟨te, rfl, hte⟩
  · exact absurd hover (hnone _)
  · obtain ⟨e, he, _, _, _, _, _, hem⟩ := hevents te List.mem_cons_self
    obtain ⟨hr, hper, hst⟩ := replayed_header (hmemR e he)
    refine ⟨vt, te, hrun, hem.round_eq.trans hr, hem.period_eq.trans hper, hem.step_eq.trans hst, ?_⟩
    by_contra hne
    exact hnover (.inr (.inl ⟨_, _, hne, hte, hover⟩))

end Replay

/-- **Bundles prove what they claim.**  Whatever threshold event a run of a tracker emits, its bundle holds votes for its
proposal and pairs of different proposals, no sender twice, no more than the threshold and of a quorum's weight; the
certificate verifier accepts it once its votes verify; and replaying it into a fresh tracker emits a threshold event for
the same round, period, step and proposal. -/
theorem threshold_bundle_proves (params : ConsensusParams) (round : Round) (period : Period) (step : Step)
    (w : Address → Nat) (es : List VoteAcceptedEvent) (hstep : step ≠ propose)
    (hsame : ∀ e ∈ es, e.vote.rawVote.round = round ∧ e.vote.rawVote.period = period ∧ e.vote.rawVote.step = step)
    (hweight : ∀ e ∈ es, e.vote.cred.weight = w e.vote.rawVote.sender ∧ 0 < e.vote.cred.weight)
    (vt : VoteTracker) (tes : List ThresholdEvent) (hrun : deliverAll params es = .ok (vt, tes))
    (te : ThresholdEvent) (hte : te ∈ tes) :
    Proves w params (es.map (·.vote)) te.bundle ∧
      (te.bundle.round = round ∧ te.bundle.period = period ∧ te.bundle.step = step ∧ te.bundle.proposal = te.proposal) ∧
      (step ≤ down → ∀ threads crypto l, l.consensusParams (paramsRound round) = .ok params →
        Verifies w crypto l te.bundle → ∃ bundle, te.bundle.verify threads crypto l = .ok bundle) ∧
      ∀ R : List VoteAcceptedEvent, R.map (·.vote.rawVote) = replayed te.bundle →
        (∀ e ∈ R, e.vote.cred.weight = w e.vote.rawVote.sender ∧ 0 < e.vote.cred.weight) →
        ∃ vt' te', deliverAll params R = .ok (vt', [te']) ∧ te'.round = te.round ∧ te'.period = te.period ∧
          te'.step = te.step ∧ te'.proposal = te.proposal := by
  have hdel : ∀ v ∈ delivered es [], ∃ e ∈ es, e.vote = v := fun v hv => by
    simpa [delivered] using hv
  have hw : Weighted w (delivered es []) := by
    intro v hv
    obtain ⟨e, he, rfl⟩ := hdel v hv
    exact hweight e he
  have hs : ∀ v ∈ delivered es [], v.rawVote.step = step := by
    intro v hv
    obtain ⟨e, he, rfl⟩ := hdel v hv
    exact (hsame e he).2.2
  obtain ⟨e, he, L, vt₁, ht, hn, hsub, hem⟩ := (deliverAll_ok hstep hw hs hrun).2.2.2 te hte
  obtain ⟨her, hep, hes⟩ := hsame e he
  have hsameL : ∀ v ∈ L, v.rawVote.round = e.vote.rawVote.round ∧ v.rawVote.period = e.vote.rawVote.period ∧
      v.rawVote.step = e.vote.rawVote.step := by
    intro v hv
    obtain ⟨e', he', rfl⟩ := hdel v (hsub v hv)
    obtain ⟨h₁, h₂, h₃⟩ := hsame e' he'
    exact ⟨h₁.trans her.symm, h₂.trans hep.symm, h₃.trans hes.symm⟩
  obtain ⟨hproves, hbr, hbp, hbs, hbprop⟩ := bundle_of_emitted (fun v hv => hw v (hsub v hv)) ht hem (hes ▸ hstep) hsameL
  rw [hem.round_eq, her] at hbr
  rw [hem.period_eq, hep] at hbp
  rw [hem.step_eq, hes] at hbs
  have hallowed := hem.allowed
  rw [hes, ← hbs, ← hbprop] at hallowed
  refine ⟨hproves.mono (fun v hv => ?_), ⟨hbr, hbp, hbs, hbprop⟩, ?_, ?_⟩
  · obtain ⟨e', he', rfl⟩ := hdel v (hsub v hv)
    exact List.mem_map_of_mem he'
  · intro hdown threads crypto l hl hv
    exact hproves.verify_ok (hbs ▸ hstep) (hbs ▸ hdown) threads (hbr ▸ hl) hv
  · intro R hR hwR
    rw [← hbs] at hn
    obtain ⟨vt', te', hd, h₁, h₂, h₃, h₄⟩ := deliverAll_replayed hR hproves (hbs ▸ hstep) hn hallowed hwR
    refine ⟨vt', te', hd, ?_, ?_, ?_, h₄.trans hbprop⟩
    · rw [h₁, hbr, hem.round_eq, her]
    · rw [h₂, hbp, hem.period_eq, hep]
    · rw [h₃, hbs, hem.step_eq, hes]

/-- Two senders of weight one, the first of whom equivocates: the bundle needs both to prove the second value. -/
theorem threshold_bundle_proves_pair :
    ∃ vt te, deliverAll smallParams [⟨unitVote 1 5 0 soft (valueOf 1), ""⟩, ⟨unitVote 1 5 0 soft (valueOf 2), ""⟩,
        ⟨unitVote 2 5 0 soft (valueOf 2), ""⟩] = .ok (vt, [te]) ∧ te.bundle.equivocationVotes.length = 1 ∧
      Proves (fun _ => 1) smallParams [unitVote 1 5 0 soft (valueOf 1), unitVote 1 5 0 soft (valueOf 2),
        unitVote 2 5 0 soft (valueOf 2)] te.bundle :=
  ⟨_, _, rfl, rfl, (threshold_bundle_proves smallParams 5 0 soft (fun _ => 1)
    [⟨unitVote 1 5 0 soft (valueOf 1), ""⟩, ⟨unitVote 1 5 0 soft (valueOf 2), ""⟩,
      ⟨unitVote 2 5 0 soft (valueOf 2), ""⟩] (by decide) (by decide) (by decide) _ _ rfl _
    List.mem_cons_self).1⟩

end VoteTracker
end Agreement
end Algod
