import AlgodRust.Agreement.VoteTracker
import AlgodRust.Lib.Tally
/-!
# VoteTally — a vote tracker keeps a tally, whatever the order of the votes

`Tracks` says what a tracker knows after any list of accepted votes, in terms of the weighted tallies of
`Lib.Tally`; it speaks of membership in the list only, so the order of the votes cannot matter.  Every step keeps it
(`handleVoteAccepted_ok`).  A step panics exactly when the votes so far overrun the threshold
(`handleVoteAccepted_error`), and an overrun stays one however many votes follow.
-/
namespace Algod
namespace Agreement
namespace VoteTracker

open Run (bind_eq_ok ok_bind error_bind)
open FinMap (lookup_insert_eq lookup_erase_eq)

/-! ## What a tracker knows -/

/-- The sender and the value of a vote. -/
def ballot (v : Vote) : Address × ProposalValue := (v.rawVote.sender, v.rawVote.proposal)

def ballots (L : List Vote) : List (Address × ProposalValue) := L.map ballot

open Tally (Equivocates equivocatorWeight backers directWeight mem_backers mem_equivocators)

/-- An equivocator's entry is made of two votes of the list, the first of which lends its credential. -/
def PairOf (L : List Vote) (ev : EquivocationVote) : Prop :=
  ∃ v₀ ∈ L, ∃ v₁ ∈ L, v₀.rawVote.sender = ev.sender ∧ v₁.rawVote.sender = ev.sender ∧
    v₀.rawVote.proposal = ev.proposals.1 ∧ v₁.rawVote.proposal = ev.proposals.2 ∧ ev.cred = v₀.cred ∧
    ev.proposals.1 ≠ ev.proposals.2 ∧ ev.sigs = (v₀.sig, v₁.sig)

/-- The tracker `vt` is what remains of the accepted votes `L`, in any order, when a sender `s` has weight `w s`. -/
structure Tracks (w : Address → Nat) (L : List Vote) (vt : VoteTracker) : Prop where
  voter_mem : ∀ s v, vt.voters.lookup s = some v → v ∈ L ∧ v.rawVote.sender = s
  voter_iff : ∀ s p, s ∈ backers (ballots L) p ↔ ∃ v, vt.voters.lookup s = some v ∧ v.rawVote.proposal = p
  pair_of : ∀ s ev, vt.equivocators.lookup s = some ev → ev.sender = s ∧ PairOf L ev
  equivocator_iff : ∀ s, (∃ ev, vt.equivocators.lookup s = some ev) ↔ Equivocates (ballots L) s
  equivocatorsCount_eq : vt.equivocatorsCount = equivocatorWeight w (ballots L)
  counter : ∀ p c, vt.counts.lookup p = some c → c.count = directWeight w (ballots L) p ∧
    ∀ s v, c.votes.lookup s = some v ↔ vt.voters.lookup s = some v ∧ v.rawVote.proposal = p
  counted_iff : ∀ p, (∃ c, vt.counts.lookup p = some c) ↔ (backers (ballots L) p).Nonempty

theorem ballots_cons (v : Vote) (L : List Vote) :
    ballots (v :: L) = (v.rawVote.sender, v.rawVote.proposal) :: ballots L := rfl

theorem mem_ballots {L : List Vote} {v : Vote} (h : v ∈ L) : (v.rawVote.sender, v.rawVote.proposal) ∈ ballots L :=
  List.mem_map_of_mem h

theorem PairOf.mono {L L' : List Vote} (h : L ⊆ L') {ev : EquivocationVote} (hp : PairOf L ev) : PairOf L' ev := by
  obtain ⟨v₀, h₀, v₁, h₁, hrest⟩ := hp
  exact ⟨v₀, h h₀, v₁, h h₁, hrest⟩

section Tracks

variable {w : Address → Nat} {L : List Vote} {vt : VoteTracker} {e : VoteAcceptedEvent}
  {overBefore : Option ProposalValue} {v : Vote} {vt' : VoteTracker} {ev : Option ThresholdEvent} {s : Address}
  {p : ProposalValue}

theorem tracks_empty (w : Address → Nat) : Tracks w [] empty where
  voter_mem := fun _ _ h => by cases h
  voter_iff := fun s p => by
    rw [mem_backers]
    constructor
    · rintro ⟨h, _⟩; cases h
    · rintro ⟨_, h, _⟩; cases h
  pair_of := fun _ _ h => by cases h
  equivocator_iff := fun s => by
    constructor
    · rintro ⟨_, h⟩; cases h
    · rintro ⟨_, _, h, _⟩; cases h
  equivocatorsCount_eq := rfl
  counter := fun _ _ h => by cases h
  counted_iff := fun p => by
    constructor
    · rintro ⟨_, h⟩; cases h
    · rintro ⟨s, hs⟩
      cases (mem_backers.1 hs).1

/-- The direct weight the tracker stores is the weight of the backers. -/
theorem Tracks.direct_eq (ht : Tracks w L vt) (p : ProposalValue) : vt.direct p = directWeight w (ballots L) p := by
  unfold direct
  cases hc : vt.counts.lookup p with
  | none =>
    have hb : backers (ballots L) p = ∅ := by
      rw [← Finset.not_nonempty_iff_eq_empty, ← ht.counted_iff p, hc]
      rintro ⟨_, h⟩; cases h
    rw [directWeight, hb, Finset.sum_empty]
  | some c => exact (ht.counter p c hc).1

theorem Tracks.tally_eq (ht : Tracks w L vt) (p : ProposalValue) :
    vt.direct p + vt.equivocatorsCount = Tally.tally w (ballots L) p := by
  rw [ht.direct_eq, ht.equivocatorsCount_eq]
  rfl

theorem Tracks.voter_backs (ht : Tracks w L vt) (h : vt.voters.lookup s = some v) :
    s ∈ backers (ballots L) v.rawVote.proposal := (ht.voter_iff s _).2 ⟨v, h, rfl⟩

/-- A sender the tracker has not recorded has not voted. -/
theorem Tracks.not_mem_senders (ht : Tracks w L vt) (he : vt.equivocators.lookup s = none)
    (hv : vt.voters.lookup s = none) : s ∉ Tally.senders (ballots L) := by
  intro hs
  obtain ⟨p, hp⟩ := Tally.mem_senders.1 hs
  by_cases hq : Equivocates (ballots L) s
  · obtain ⟨ev, hev⟩ := (ht.equivocator_iff s).2 hq
    rw [he] at hev; cases hev
  · obtain ⟨v, hv', _⟩ := (ht.voter_iff s p).1 (mem_backers.2 ⟨hp, hq⟩)
    rw [hv] at hv'; cases hv'

/-- A vote that changes neither backers nor equivocators leaves the tracker as it is. -/
theorem Tracks.cons_of_same (ht : Tracks w L vt) (v : Vote)
    (hb : ∀ p, backers (ballots (v :: L)) p = backers (ballots L) p)
    (he : Tally.equivocators (ballots (v :: L)) = Tally.equivocators (ballots L)) : Tracks w (v :: L) vt where
  voter_mem := fun s u h => ⟨List.mem_cons_of_mem _ (ht.voter_mem s u h).1, (ht.voter_mem s u h).2⟩
  voter_iff := fun s p => by rw [hb]; exact ht.voter_iff s p
  pair_of := fun s ev h => ⟨(ht.pair_of s ev h).1, (ht.pair_of s ev h).2.mono (List.subset_cons_self _ _)⟩
  equivocator_iff := fun s => by rw [← mem_equivocators, he, mem_equivocators]; exact ht.equivocator_iff s
  equivocatorsCount_eq := by rw [equivocatorWeight, he]; exact ht.equivocatorsCount_eq
  counter := fun p c h => by rw [directWeight, hb]; exact ht.counter p c h
  counted_iff := fun p => by rw [hb]; exact ht.counted_iff p

theorem Tracks.cons_known (ht : Tracks w L vt) {ev : EquivocationVote}
    (h : vt.equivocators.lookup v.rawVote.sender = some ev) : Tracks w (v :: L) vt := by
  have hs : Equivocates (ballots L) v.rawVote.sender := (ht.equivocator_iff _).1 ⟨ev, h⟩
  exact ht.cons_of_same v (fun p => Tally.backers_cons_known hs p) (Tally.equivocators_cons_known hs)

theorem Tracks.mem_ballots_repeated (ht : Tracks w L vt) {v old : Vote}
    (h : vt.voters.lookup v.rawVote.sender = some old) (hp : old.rawVote.proposal = v.rawVote.proposal)
    (b : Address × ProposalValue) : b ∈ ballots (v :: L) ↔ b ∈ ballots L := by
  have hmem : (v.rawVote.sender, v.rawVote.proposal) ∈ ballots L := by
    rw [← hp]
    exact (mem_backers.1 (ht.voter_backs h)).1
  rw [ballots_cons, List.mem_cons]
  constructor
  · rintro (rfl | hb)
    · exact hmem
    · exact hb
  · exact .inr

theorem Tracks.cons_repeated (ht : Tracks w L vt) {v old : Vote} (h : vt.voters.lookup v.rawVote.sender = some old)
    (hp : old.rawVote.proposal = v.rawVote.proposal) : Tracks w (v :: L) vt := by
  have hsame := ht.mem_ballots_repeated h hp
  exact ht.cons_of_same v (fun p => Tally.backers_congr hsame p) (Tally.equivocators_congr hsame)

/-- Every vote of the list has the positive weight of its sender. -/
def Weighted (w : Address → Nat) (L : List Vote) : Prop := ∀ v ∈ L, v.cred.weight = w v.rawVote.sender ∧ 0 < v.cred.weight

theorem Weighted.pos_of_mem_ballots (h : Weighted w L) (hs : (s, p) ∈ ballots L) :
    0 < w s := by
  obtain ⟨v, hv, hb⟩ := List.mem_map.1 hs
  cases hb
  exact (h v hv).1 ▸ (h v hv).2

/-- With positive weights, a proposal has a backer exactly when its direct weight is positive. -/
theorem Weighted.directWeight_pos_iff (h : Weighted w L) (p : ProposalValue) :
    0 < directWeight w (ballots L) p ↔ (backers (ballots L) p).Nonempty := by
  constructor
  · intro hp
    rw [Finset.nonempty_iff_ne_empty]
    intro he
    rw [directWeight, he, Finset.sum_empty] at hp
    exact absurd hp (lt_irrefl 0)
  · rintro ⟨s, hs⟩
    have hle : w s ≤ directWeight w (ballots L) p := Finset.single_le_sum (fun _ _ => Nat.zero_le _) hs
    exact lt_of_lt_of_le (h.pos_of_mem_ballots (mem_backers.1 hs).1) hle

theorem getD_count (p : ProposalValue) : (FinMap.getD vt.counts p ⟨0, ∅⟩).count = vt.direct p := by
  unfold FinMap.getD direct
  cases vt.counts.lookup p <;> rfl

theorem addVoter_ok (h : vt.addVoter v = .ok vt') :
    vt.direct v.rawVote.proposal + v.cred.weight < u64Bound ∧
      vt' = { vt with
        voters := vt.voters.insert v.rawVote.sender v
        counts := vt.counts.insert v.rawVote.proposal ⟨vt.direct v.rawVote.proposal + v.cred.weight,
          (FinMap.getD vt.counts v.rawVote.proposal ⟨0, ∅⟩).votes.insert v.rawVote.sender v⟩ } := by
  unfold addVoter at h
  obtain ⟨c, hc, h⟩ := bind_eq_ok.1 h
  rw [getD_count] at hc
  obtain ⟨hlt, rfl⟩ := addU64_eq_ok.1 hc
  cases h
  exact ⟨hlt, rfl⟩

theorem addVoter_isOk (h : vt.direct v.rawVote.proposal + v.cred.weight < u64Bound) :
    ∃ vt', vt.addVoter v = .ok vt' := by
  unfold addVoter
  simp only [getD_count, addU64_of_lt h, ok_bind]
  exact ⟨_, rfl⟩

/-- The first vote of a sender. -/
theorem Tracks.cons_first (ht : Tracks w L vt) (hw : v.cred.weight = w v.rawVote.sender)
    (he : vt.equivocators.lookup v.rawVote.sender = none) (hv : vt.voters.lookup v.rawVote.sender = none)
    (h : vt.addVoter v = .ok vt') : Tracks w (v :: L) vt' := by
  have hs := ht.not_mem_senders he hv
  have heq : Tally.equivocators (ballots (v :: L)) = Tally.equivocators (ballots L) :=
    Tally.equivocators_cons_first v.rawVote.proposal hs
  have hback : ∀ t q, t ∈ backers (ballots (v :: L)) q ↔
      (t = v.rawVote.sender ∧ q = v.rawVote.proposal) ∨ t ∈ backers (ballots L) q :=
    fun t q => Tally.mem_backers_cons_first hs
  obtain ⟨_, rfl⟩ := addVoter_ok h
  constructor
  case voter_mem =>
    intro t u hu
    rw [lookup_insert_eq] at hu
    split at hu
    · rename_i hts
      cases hu
      exact ⟨List.mem_cons_self, hts.symm⟩
    · exact ⟨List.mem_cons_of_mem _ (ht.voter_mem t u hu).1, (ht.voter_mem t u hu).2⟩
  case voter_iff =>
    intro t q
    rw [hback, ht.voter_iff t q, lookup_insert_eq]
    by_cases hts : t = v.rawVote.sender
    · subst hts
      simp [hv, eq_comm]
    · simp [hts]
  case pair_of =>
    exact fun t ev hev => ⟨(ht.pair_of t ev hev).1, (ht.pair_of t ev hev).2.mono (List.subset_cons_self _ _)⟩
  case equivocator_iff =>
    intro t
    rw [← mem_equivocators, heq, mem_equivocators]
    exact ht.equivocator_iff t
  case equivocatorsCount_eq =>
    rw [equivocatorWeight, heq]
    exact ht.equivocatorsCount_eq
  case counter =>
    intro q c hc
    rw [lookup_insert_eq] at hc
    split at hc
    · rename_i hq
      subst hq
      cases hc
      refine ⟨?_, ?_⟩
      · rw [ballots_cons, Tally.directWeight_cons_first w hs, ← ht.direct_eq, hw]
      · intro t u
        -- the votes stored for this proposal before are those of the voters for it
        have hold : (FinMap.getD vt.counts v.rawVote.proposal ⟨0, ∅⟩).votes.lookup t = some u ↔
            vt.voters.lookup t = some u ∧ u.rawVote.proposal = v.rawVote.proposal := by
          unfold FinMap.getD
          cases hc : vt.counts.lookup v.rawVote.proposal with
          | none =>
            constructor
            · intro h; cases h
            · rintro ⟨hu, hp⟩
              have := (ht.counted_iff u.rawVote.proposal).2 ⟨t, ht.voter_backs hu⟩
              rw [hp, hc] at this
              obtain ⟨_, h⟩ := this
              cases h
          | some c => exact (ht.counter _ c hc).2 t u
        rw [lookup_insert_eq, lookup_insert_eq]
        by_cases hts : t = v.rawVote.sender
        · rw [if_pos hts, if_pos hts]
          constructor
          · intro h; cases h; exact ⟨rfl, rfl⟩
          · exact fun h => h.1
        · rw [if_neg hts, if_neg hts]
          exact hold
    · rename_i hq
      obtain ⟨hcount, hvotes⟩ := ht.counter q c hc
      refine ⟨?_, ?_⟩
      · rw [hcount, directWeight, directWeight]
        congr 1
        ext t
        rw [hback]
        simp [hq]
      · intro t u
        rw [hvotes t u, lookup_insert_eq]
        by_cases hts : t = v.rawVote.sender
        · subst hts
          rw [hv, if_pos rfl]
          constructor
          · rintro ⟨h, _⟩; cases h
          · rintro ⟨h, hu⟩
            cases h
            exact absurd hu.symm hq
        · rw [if_neg hts]
  case counted_iff =>
    intro q
    rw [lookup_insert_eq]
    by_cases hq : q = v.rawVote.proposal
    · rw [if_pos hq]
      exact ⟨fun _ => ⟨_, (hback _ q).2 (.inl ⟨rfl, hq⟩)⟩, fun _ => ⟨_, rfl⟩⟩
    · rw [if_neg hq, ht.counted_iff q]
      have : backers (ballots (v :: L)) q = backers (ballots L) q := by
        ext t
        rw [hback]
        simp [hq]
      rw [this]

/-- The counters after a sender of `old` moved to the equivocators: the counter of its proposal loses the sender, and
goes away with its last vote. -/
theorem addEquivocator_counts_lookup (vt : VoteTracker) (old new : Vote) (n : Nat) (q : ProposalValue) :
    (vt.addEquivocator old new n).counts.lookup q =
      if q = old.rawVote.proposal then
        (vt.counts.lookup q).bind (fun c => if c.count ≤ old.cred.weight then none
          else some ⟨c.count - old.cred.weight, c.votes.erase new.rawVote.sender⟩)
      else vt.counts.lookup q := by
  unfold addEquivocator
  by_cases hq : q = old.rawVote.proposal
  · subst hq
    rw [if_pos rfl]
    cases hc : vt.counts.lookup old.rawVote.proposal with
    | none => simp [hc]
    | some c =>
      by_cases hle : c.count ≤ old.cred.weight
      · simp [hc, hle]
      · simp [hc, hle]
  · rw [if_neg hq]
    cases hc : vt.counts.lookup old.rawVote.proposal with
    | none => simp [hc]
    | some c =>
      by_cases hle : c.count ≤ old.cred.weight
      · simp [hc, hle, hq]
      · simp [hc, hle, hq]

/-- A second, different vote of a sender. -/
theorem Tracks.cons_second (ht : Tracks w L vt) {v old : Vote} (hw : Weighted w (v :: L))
    (hv : vt.voters.lookup v.rawVote.sender = some old) (hne : old.rawVote.proposal ≠ v.rawVote.proposal) :
    Tracks w (v :: L) (vt.addEquivocator old v (vt.equivocatorsCount + v.cred.weight)) := by
  obtain ⟨holdL, holds⟩ := ht.voter_mem _ _ hv
  have hs := ht.voter_backs hv
  have holdw : old.cred.weight = w v.rawVote.sender := by
    rw [(hw old (List.mem_cons_of_mem _ holdL)).1, holds]
  have heq : ∀ t, Equivocates (ballots (v :: L)) t ↔ t = v.rawVote.sender ∨ Equivocates (ballots L) t := by
    intro t
    rw [← mem_equivocators, ← mem_equivocators]
    exact Tally.mem_equivocators_cons_second hs hne.symm
  have hback : ∀ t q, t ∈ backers (ballots (v :: L)) q ↔ t ≠ v.rawVote.sender ∧ t ∈ backers (ballots L) q :=
    fun t q => Tally.mem_backers_cons_second hs hne.symm
  have hother : ∀ q, q ≠ old.rawVote.proposal → backers (ballots (v :: L)) q = backers (ballots L) q := by
    intro q hq
    ext t
    rw [hback]
    constructor
    · exact fun h => h.2
    · intro h
      refine ⟨?_, h⟩
      rintro rfl
      obtain ⟨u, hu, hup⟩ := (ht.voter_iff _ q).1 h
      rw [hv] at hu
      cases hu
      exact hq hup.symm
  have hweight : directWeight w (ballots (v :: L)) old.rawVote.proposal + old.cred.weight
      = directWeight w (ballots L) old.rawVote.proposal := by
    rw [holdw, ballots_cons]
    exact Tally.directWeight_cons_second w hs hne.symm
  constructor
  case voter_mem =>
    intro t u hu
    replace hu : (vt.voters.erase v.rawVote.sender).lookup t = some u := hu
    rw [lookup_erase_eq] at hu
    split at hu
    · cases hu
    · exact ⟨List.mem_cons_of_mem _ (ht.voter_mem t u hu).1, (ht.voter_mem t u hu).2⟩
  case voter_iff =>
    intro t q
    show _ ↔ ∃ u, (vt.voters.erase v.rawVote.sender).lookup t = some u ∧ _
    rw [hback, ht.voter_iff t q, lookup_erase_eq]
    by_cases hts : t = v.rawVote.sender
    · simp [hts]
    · simp [hts]
  case pair_of =>
    intro t ev hev
    replace hev : (vt.equivocators.insert v.rawVote.sender _).lookup t = some ev := hev
    rw [lookup_insert_eq] at hev
    split at hev
    · rename_i hts
      cases hev
      exact ⟨holds.trans hts.symm, old, List.mem_cons_of_mem _ holdL, v, List.mem_cons_self, rfl, holds.symm, rfl, rfl,
        rfl, hne, rfl⟩
    · exact ⟨(ht.pair_of t ev hev).1, (ht.pair_of t ev hev).2.mono (List.subset_cons_self _ _)⟩
  case equivocator_iff =>
    intro t
    show (∃ ev, (vt.equivocators.insert v.rawVote.sender _).lookup t = some ev) ↔ _
    rw [heq, ← ht.equivocator_iff t, lookup_insert_eq]
    by_cases hts : t = v.rawVote.sender
    · simp [hts]
    · simp [hts]
  case equivocatorsCount_eq =>
    show vt.equivocatorsCount + v.cred.weight = _
    rw [ballots_cons, Tally.equivocatorWeight_cons_second w hs hne.symm, ht.equivocatorsCount_eq,
      (hw v List.mem_cons_self).1]
  case counter =>
    intro q c hc
    show _ ∧ ∀ t u, _ ↔ (vt.voters.erase v.rawVote.sender).lookup t = some u ∧ _
    rw [addEquivocator_counts_lookup] at hc
    split at hc
    · rename_i hq
      subst hq
      obtain ⟨c₀, hc₀, hc⟩ := Option.bind_eq_some_iff.1 hc
      split at hc
      · cases hc
      · cases hc
        obtain ⟨hcount, hvotes⟩ := ht.counter _ c₀ hc₀
        refine ⟨?_, ?_⟩
        · show c₀.count - old.cred.weight = _
          omega
        · intro t u
          show (c₀.votes.erase v.rawVote.sender).lookup t = some u ↔ _
          rw [lookup_erase_eq, lookup_erase_eq]
          by_cases hts : t = v.rawVote.sender
          · simp [hts]
          · rw [if_neg hts, if_neg hts]
            exact hvotes t u
    · rename_i hq
      obtain ⟨hcount, hvotes⟩ := ht.counter q c hc
      refine ⟨?_, ?_⟩
      · rw [directWeight, hother q hq]
        exact hcount
      · intro t u
        rw [hvotes t u, lookup_erase_eq]
        by_cases hts : t = v.rawVote.sender
        · subst hts
          rw [hv, if_pos rfl]
          constructor
          · rintro ⟨h, hu⟩
            cases h
            exact absurd hu.symm hq
          · rintro ⟨h, _⟩; cases h
        · rw [if_neg hts]
  case counted_iff =>
    intro q
    rw [addEquivocator_counts_lookup]
    by_cases hq : q = old.rawVote.proposal
    · subst hq
      rw [if_pos rfl, ← hw.directWeight_pos_iff]
      obtain ⟨c₀, hc₀⟩ := (ht.counted_iff _).2 ⟨_, hs⟩
      have hcount := (ht.counter _ c₀ hc₀).1
      rw [hc₀]
      by_cases hle : c₀.count ≤ old.cred.weight
      · simp only [Option.bind_some, if_pos hle]
        constructor
        · rintro ⟨_, h⟩; cases h
        · intro h; omega
      · simp only [Option.bind_some, if_neg hle]
        exact ⟨fun _ => by omega, fun _ => ⟨_, rfl⟩⟩
    · rw [if_neg hq, hother q hq]
      exact ht.counted_iff q

/-! ## Crossing the threshold -/

variable {params : ConsensusParams} {step : Step}

theorem Tracks.over_iff (ht : Tracks w L vt) (hs : step ≠ propose) (p : ProposalValue) :
    (p ∈ vt.counts.keys ∧ Step.reachesQuorum step params (vt.direct p + vt.equivocatorsCount) = true) ↔
      Tally.Over w (Step.committeeThreshold step params) (ballots L) p := by
  rw [Step.reachesQuorum_iff hs, ht.tally_eq, ← AList.mem_keys, FinMap.mem_iff_lookup, ht.counted_iff]
  rfl

/-- The search finds the value over the threshold, and there is no other. -/
theorem Tracks.overThreshold_ok (ht : Tracks w L vt) (hs : step ≠ propose) {r : Option ProposalValue}
    (h : vt.overThreshold params step = .ok r) (p : ProposalValue) :
    Tally.Over w (Step.committeeThreshold step params) (ballots L) p ↔ r = some p := by
  obtain ⟨_, hr⟩ := (overThresholdLoop_eq_ok vt params step _ _ _).1 h
  rw [Option.toList_none, List.nil_append] at hr
  rw [← ht.over_iff hs, ← Option.mem_toList, ← hr, List.mem_filter]

theorem Tracks.count_fits (ht : Tracks w L vt) (hfit : Tally.totalWeight w (ballots L) < u64Bound)
    (p : ProposalValue) : vt.direct p + vt.equivocatorsCount < u64Bound := by
  rw [ht.tally_eq]
  exact lt_of_le_of_lt (Tally.tally_le_totalWeight w _ p) hfit

/-- The search succeeds when no count overflows and at most one value is over the threshold. -/
theorem Tracks.overThreshold_isOk (ht : Tracks w L vt) (hs : step ≠ propose)
    (hfit : Tally.totalWeight w (ballots L) < u64Bound)
    (huniq : ∀ p q, Tally.Over w (Step.committeeThreshold step params) (ballots L) p →
      Tally.Over w (Step.committeeThreshold step params) (ballots L) q → p = q) :
    ∃ r, vt.overThreshold params step = .ok r := by
  have hlt : ∀ p ∈ vt.counts.keys, _ := fun p _ => ht.count_fits hfit p
  have hover : ∀ p ∈ vt.counts.keys.filter
      (fun p => Step.reachesQuorum step params (vt.direct p + vt.equivocatorsCount)),
      Tally.Over w (Step.committeeThreshold step params) (ballots L) p :=
    fun p hp => (ht.over_iff hs p).1 (List.mem_filter.1 hp)
  have hnd := vt.counts.keys_nodup.filter
    (fun p => Step.reachesQuorum step params (vt.direct p + vt.equivocatorsCount))
  cases hf : vt.counts.keys.filter
      (fun p => Step.reachesQuorum step params (vt.direct p + vt.equivocatorsCount)) with
  | nil => exact ⟨none, (overThresholdLoop_eq_ok vt params step _ _ _).2 ⟨hlt, hf⟩⟩
  | cons p ps =>
    refine ⟨some p, (overThresholdLoop_eq_ok vt params step _ _ _).2 ⟨hlt, ?_⟩⟩
    rw [hf] at hover hnd
    cases ps with
    | nil => exact hf
    | cons q ps =>
      have hpq : p = q := huniq p q (hover p (by simp)) (hover q (by simp))
      simp [hpq] at hnd

/-- The value no soft or cert quorum may form for. -/
def Forbidden (step : Step) (p : ProposalValue) : Prop :=
  (thresholdType step = .soft ∨ thresholdType step = .cert) ∧ p = bottom

/-- A threshold event as `handleVoteAccepted` builds it from the vote that crossed the threshold. -/
structure Emitted (w : Address → Nat) (params : ConsensusParams) (L : List Vote) (vt : VoteTracker)
    (e : VoteAcceptedEvent) (te : ThresholdEvent) : Prop where
  type_eq : te.t = thresholdType e.vote.rawVote.step
  round_eq : te.round = e.vote.rawVote.round
  period_eq : te.period = e.vote.rawVote.period
  step_eq : te.step = e.vote.rawVote.step
  proto_eq : te.proto = e.proto
  crossed : Tally.Over w (Step.committeeThreshold e.vote.rawVote.step params) (ballots L) te.proposal
  allowed : ¬ Forbidden e.vote.rawVote.step te.proposal
  bundle : vt.genBundle params te.proposal (FinMap.getD vt.counts te.proposal ⟨0, ∅⟩) = .ok te.bundle

/-- The end of a step: an event exactly when no value was over the threshold before and one is now. -/
theorem Tracks.emitThreshold_ok (ht : Tracks w L vt) (hs : e.vote.rawVote.step ≠ propose)
    (h : vt.emitThreshold e params overBefore = .ok (vt', ev)) :
    vt' = vt ∧ ∃ overAfter : Option ProposalValue,
      (∀ p, Tally.Over w (Step.committeeThreshold e.vote.rawVote.step params) (ballots L) p ↔ overAfter = some p) ∧
        ((ev = none ∧ (overBefore ≠ none ∨ overAfter = none)) ∨
          ∃ te, ev = some te ∧ overBefore = none ∧ Emitted w params L vt e te) := by
  unfold emitThreshold at h
  obtain ⟨overAfter, ha, h⟩ := bind_eq_ok.1 h
  have hover := fun p => ht.overThreshold_ok hs ha p
  cases overBefore with
  | some q =>
    cases h
    exact ⟨rfl, overAfter, hover, .inl ⟨rfl, .inl (by simp)⟩⟩
  | none =>
    cases overAfter with
    | none =>
      cases h
      exact ⟨rfl, none, hover, .inl ⟨rfl, .inr rfl⟩⟩
    | some p =>
      simp only at h
      split at h
      · cases h
      · rename_i hf
        obtain ⟨b, hb, h⟩ := bind_eq_ok.1 h
        cases h
        exact ⟨rfl, some p, hover, .inr ⟨_, rfl, rfl, ⟨rfl, rfl, rfl, rfl, rfl, (hover p).2 rfl, hf, hb⟩⟩⟩

/-- What one accepted vote can do. -/
inductive VoteStep (vt : VoteTracker) (e : VoteAcceptedEvent) (params : ConsensusParams) :
    VoteTracker → Option ThresholdEvent → Prop
  | known {ev : EquivocationVote} : vt.equivocators.lookup e.vote.rawVote.sender = some ev → VoteStep vt e params vt none
  | repeated {old : Vote} {overBefore : Option ProposalValue} :
      vt.equivocators.lookup e.vote.rawVote.sender = none → vt.overThreshold params e.vote.rawVote.step = .ok overBefore →
      vt.voters.lookup e.vote.rawVote.sender = some old → old.rawVote.proposal = e.vote.rawVote.proposal →
      VoteStep vt e params vt none
  | second {old : Vote} {overBefore : Option ProposalValue} {r : VoteTracker × Option ThresholdEvent} :
      vt.equivocators.lookup e.vote.rawVote.sender = none → vt.overThreshold params e.vote.rawVote.step = .ok overBefore →
      vt.voters.lookup e.vote.rawVote.sender = some old → old.rawVote.proposal ≠ e.vote.rawVote.proposal →
      vt.equivocatorsCount + e.vote.cred.weight < u64Bound →
      Step.reachesQuorum e.vote.rawVote.step params (vt.equivocatorsCount + e.vote.cred.weight) = false →
      (if FinMap.isEmpty (vt.addEquivocator old e.vote (vt.equivocatorsCount + e.vote.cred.weight)).voters
        then .ok (vt.addEquivocator old e.vote (vt.equivocatorsCount + e.vote.cred.weight), none)
        else (vt.addEquivocator old e.vote (vt.equivocatorsCount + e.vote.cred.weight)).emitThreshold e params overBefore)
        = .ok r →
      VoteStep vt e params r.1 r.2
  | first {overBefore : Option ProposalValue} {vt₁ : VoteTracker} {r : VoteTracker × Option ThresholdEvent} :
      vt.equivocators.lookup e.vote.rawVote.sender = none → vt.overThreshold params e.vote.rawVote.step = .ok overBefore →
      vt.voters.lookup e.vote.rawVote.sender = none → vt.addVoter e.vote = .ok vt₁ →
      vt₁.emitThreshold e params overBefore = .ok r →
      VoteStep vt e params r.1 r.2

theorem handleVoteAccepted_cases {r : VoteTracker × Option ThresholdEvent}
    (h : vt.handleVoteAccepted e params = .ok r) : e.vote.rawVote.step ≠ propose ∧ VoteStep vt e params r.1 r.2 := by
  unfold handleVoteAccepted at h
  simp only at h
  split at h
  · cases h
  rename_i hstep
  refine ⟨hstep, ?_⟩
  split at h
  · rename_i hk
    cases h
    obtain ⟨ev, hev⟩ := Option.isSome_iff_exists.1 hk
    exact .known hev
  rename_i hk
  have hk' : vt.equivocators.lookup e.vote.rawVote.sender = none := by simpa using hk
  obtain ⟨ob, hob, h⟩ := bind_eq_ok.1 h
  cases hv : vt.voters.lookup e.vote.rawVote.sender with
  | none =>
    rw [hv] at h
    obtain ⟨vt₁, h₁, h⟩ := bind_eq_ok.1 h
    exact .first hk' hob hv h₁ h
  | some old =>
    rw [hv] at h
    simp only at h
    split at h
    · rename_i hp
      cases h
      exact .repeated hk' hob hv hp
    · rename_i hp
      obtain ⟨n, hn, h⟩ := bind_eq_ok.1 h
      obtain ⟨hlt, rfl⟩ := addU64_eq_ok.1 hn
      split at h
      · cases h
      · rename_i hq
        exact .second hk' hob hv hp hlt (by simpa using hq) h

/-- What holds after an accepted vote: the tracker keeps its tally, the threshold is not overrun, and an event means
that it was crossed by this vote. -/
structure StepResult (w : Address → Nat) (params : ConsensusParams) (L : List Vote) (e : VoteAcceptedEvent)
    (vt' : VoteTracker) (ev : Option ThresholdEvent) : Prop where
  tracks : Tracks w (e.vote :: L) vt'
  sound : ¬ Tally.Overrun w (Step.committeeThreshold e.vote.rawVote.step params) (Forbidden e.vote.rawVote.step) (ballots L) →
    ¬ Tally.Overrun w (Step.committeeThreshold e.vote.rawVote.step params) (Forbidden e.vote.rawVote.step)
      (ballots (e.vote :: L))
  event : (ev = none ∧ ((∃ p, Tally.Over w (Step.committeeThreshold e.vote.rawVote.step params) (ballots (e.vote :: L)) p) →
      ∃ p, Tally.Over w (Step.committeeThreshold e.vote.rawVote.step params) (ballots L) p)) ∨
    ∃ te, ev = some te ∧ (∀ p, ¬ Tally.Over w (Step.committeeThreshold e.vote.rawVote.step params) (ballots L) p) ∧
      Emitted w params (e.vote :: L) vt' e te

/-- A vote that changes no tally is dropped without an event. -/
theorem StepResult.of_same (ht : Tracks w (e.vote :: L) vt)
    (hb : ∀ p, backers (ballots (e.vote :: L)) p = backers (ballots L) p)
    (he : Tally.equivocators (ballots (e.vote :: L)) = Tally.equivocators (ballots L)) :
    StepResult w params L e vt none := by
  have hew : equivocatorWeight w (ballots (e.vote :: L)) = equivocatorWeight w (ballots L) := by
    rw [equivocatorWeight, he]; rfl
  have ho : ∀ T p, Tally.Over w T (ballots (e.vote :: L)) p ↔ Tally.Over w T (ballots L) p := by
    intro T p
    rw [Tally.Over, Tally.Over, Tally.tally, Tally.tally, directWeight, directWeight, hew, hb]
  refine ⟨ht, ?_, .inl ⟨rfl, ?_⟩⟩
  · intro hn
    simpa only [Tally.Overrun, he, hew, ho] using hn
  · rintro ⟨p, hp⟩
    exact ⟨p, (ho _ p).1 hp⟩

/-- A vote that was recorded, when the equivocators alone stay below the threshold. -/
theorem StepResult.of_emit {vt₁ vt' : VoteTracker} (hs : e.vote.rawVote.step ≠ propose) (ht : Tracks w L vt)
    (hob : vt.overThreshold params e.vote.rawVote.step = .ok overBefore) (ht₁ : Tracks w (e.vote :: L) vt₁)
    (heq : ¬ Tally.Overrun w (Step.committeeThreshold e.vote.rawVote.step params) (Forbidden e.vote.rawVote.step)
        (ballots L) →
      ¬ ((Tally.equivocators (ballots (e.vote :: L))).Nonempty ∧
        Step.committeeThreshold e.vote.rawVote.step params ≤ equivocatorWeight w (ballots (e.vote :: L))))
    (h : vt₁.emitThreshold e params overBefore = .ok (vt', ev)) : StepResult w params L e vt' ev := by
  obtain ⟨rfl, overAfter, hafter, hev⟩ := ht₁.emitThreshold_ok hs h
  have hbefore := fun p => ht.overThreshold_ok hs hob p
  refine ⟨ht₁, ?_, ?_⟩
  · intro hn
    rintro (hw | ⟨p, q, hne, hp, hq⟩ | ⟨p, hf, hp⟩)
    · exact heq hn hw
    · have := ((hafter p).1 hp).symm.trans ((hafter q).1 hq)
      exact hne (Option.some.inj this)
    · rcases hev with ⟨rfl, hc⟩ | ⟨te, rfl, rfl, hem⟩
      · rcases hc with hc | hc
        · -- the forbidden value was over the threshold before this vote already
          obtain ⟨q, hq⟩ := Option.ne_none_iff_exists'.1 hc
          have hqL := (hbefore q).2 hq
          rcases hqL.mono (List.subset_cons_self (ballot e.vote) (ballots L)) with hq' | hq'
          · have hpq : p = q := Option.some.inj (((hafter p).1 hp).symm.trans ((hafter q).1 hq'))
            exact hn (.inr (.inr ⟨q, hpq ▸ hf, hqL⟩))
          · exact heq hn hq'
        · rw [(hafter p).1 hp] at hc; cases hc
      · have hpe : p = te.proposal := Option.some.inj (((hafter p).1 hp).symm.trans ((hafter _).1 hem.crossed))
        exact hem.allowed (hpe ▸ hf)
  · rcases hev with ⟨rfl, hc⟩ | ⟨te, rfl, rfl, hem⟩
    · refine .inl ⟨rfl, ?_⟩
      rintro ⟨p, hp⟩
      rcases hc with hc | hc
      · obtain ⟨q, hq⟩ := Option.ne_none_iff_exists'.1 hc
        exact ⟨q, (hbefore q).2 hq⟩
      · rw [(hafter p).1 hp] at hc; cases hc
    · refine .inr ⟨te, rfl, ?_, hem⟩
      intro p hp
      cases (hbefore p).1 hp

/-- **Every step that does not panic keeps the tally and reports exactly the crossing of the threshold.** -/
theorem handleVoteAccepted_ok
    (hw : Weighted w (e.vote :: L)) (ht : Tracks w L vt) (h : vt.handleVoteAccepted e params = .ok (vt', ev)) :
    StepResult w params L e vt' ev := by
  obtain ⟨hs, hstep⟩ := handleVoteAccepted_cases h
  generalize hr : (vt', ev).2 = ev' at hstep
  generalize hr' : (vt', ev).1 = vt'' at hstep
  cases hr
  cases hr'
  cases hstep with
  | known hk =>
    have he : Equivocates (ballots L) e.vote.rawVote.sender := (ht.equivocator_iff _).1 ⟨_, hk⟩
    exact .of_same (ht.cons_known hk) (fun p => Tally.backers_cons_known he p) (Tally.equivocators_cons_known he)
  | repeated hk hob hv hp =>
    have hsame := ht.mem_ballots_repeated hv hp
    exact .of_same (ht.cons_repeated hv hp) (fun p => Tally.backers_congr hsame p) (Tally.equivocators_congr hsame)
  | second hk hob hv hp hlt hq hr =>
    rename_i old ob
    have ht₁ := ht.cons_second hw hv hp
    -- the step panics when the equivocators reach the quorum
    have hbelow : equivocatorWeight w (ballots (e.vote :: L)) < Step.committeeThreshold e.vote.rawVote.step params := by
      rw [← ht₁.equivocatorsCount_eq]
      have hn := mt (Step.reachesQuorum_iff hs).2 (Bool.eq_false_iff.1 hq)
      exact not_le.1 hn
    split at hr
    · rename_i hempty
      cases hr
      have hnone : ∀ p, ¬ Tally.Over w (Step.committeeThreshold e.vote.rawVote.step params) (ballots (e.vote :: L)) p := by
        rintro p ⟨⟨s, hs⟩, _⟩
        obtain ⟨u, hu, _⟩ := (ht₁.voter_iff s p).1 hs
        rw [FinMap.isEmpty_iff.1 hempty s] at hu
        cases hu
      refine ⟨ht₁, ?_, .inl ⟨rfl, fun ⟨p, hp⟩ => absurd hp (hnone p)⟩⟩
      rintro _ (⟨_, hle⟩ | ⟨p, _, _, hp, _⟩ | ⟨p, _, hp⟩)
      · exact absurd hle (not_le.2 hbelow)
      · exact hnone p hp
      · exact hnone p hp
    · exact .of_emit hs ht hob ht₁ (fun _ ⟨_, hle⟩ => absurd hle (not_le.2 hbelow)) hr
  | first hk hob hv ha hr =>
    have ht₁ := ht.cons_first (hw _ List.mem_cons_self).1 hk hv ha
    have heq : Tally.equivocators (ballots (e.vote :: L)) = Tally.equivocators (ballots L) :=
      Tally.equivocators_cons_first e.vote.rawVote.proposal (ht.not_mem_senders hk hv)
    refine .of_emit hs ht hob ht₁ ?_ hr
    rintro hn ⟨hne, hle⟩
    rw [equivocatorWeight, heq] at hle
    rw [heq] at hne
    exact hn (.inl ⟨hne, hle⟩)

/-! ## When a step does not panic -/

theorem Tracks.weight_of_voter (hw : Weighted w L) (ht : Tracks w L vt)
    (h : vt.voters.lookup s = some v) : v.cred.weight = w s := by
  obtain ⟨hv, hs⟩ := ht.voter_mem s v h
  rw [(hw v hv).1, hs]

theorem Tracks.weight_of_pair (hw : Weighted w L) (ht : Tracks w L vt) {ev : EquivocationVote}
    (h : vt.equivocators.lookup s = some ev) : ev.cred.weight = w s := by
  obtain ⟨hs, v₀, hv₀, _, _, hs₀, _, _, _, hcred, _, _⟩ := ht.pair_of s ev h
  rw [hcred, (hw v₀ hv₀).1, hs₀, hs]

/-- The votes a bundle is packed from weigh as much as the backers, -/
theorem Tracks.weightSum_votes (hw : Weighted w L) (ht : Tracks w L vt) {c : ProposalVoteCounter}
    (hc : vt.counts.lookup p = some c) :
    weightSum (fun v : Vote => v.cred.weight) (sortedVotes c) = directWeight w (ballots L) p := by
  obtain ⟨_, hvotes⟩ := ht.counter p c hc
  have hperm := (List.perm_insertionSort Vote.sortsBefore (FinMap.values c.votes)).map (fun v : Vote => v.cred.weight)
  rw [weightSum, sortedVotes, hperm.sum_eq, FinMap.sum_values c.votes _ w
    (fun s v h => ht.weight_of_voter hw ((hvotes s v).1 h).1), directWeight]
  congr 1
  ext s
  rw [List.mem_toFinset, ← AList.mem_keys, FinMap.mem_iff_lookup, ht.voter_iff]
  exact exists_congr (fun v => hvotes s v)

/-- and the pairs as much as the equivocators. -/
theorem Tracks.weightSum_pairs (hw : Weighted w L) (ht : Tracks w L vt) :
    weightSum (fun ev : EquivocationVote => ev.cred.weight) (sortedPairs vt) = equivocatorWeight w (ballots L) := by
  have hperm := (List.perm_insertionSort EquivocationVote.sortsBefore (FinMap.values vt.equivocators)).map
    (fun ev : EquivocationVote => ev.cred.weight)
  rw [weightSum, sortedPairs, hperm.sum_eq, FinMap.sum_values vt.equivocators _ w
    (fun s ev h => ht.weight_of_pair hw h), equivocatorWeight]
  congr 1
  ext s
  rw [List.mem_toFinset, ← AList.mem_keys, FinMap.mem_iff_lookup, ht.equivocator_iff, mem_equivocators]

/-- A value over a positive threshold has a bundle. -/
theorem Tracks.genBundle_isOk (hw : Weighted w L) (ht : Tracks w L vt) (hs : step ≠ propose)
    (hstep : ∀ v ∈ L, v.rawVote.step = step) (hT : 0 < Step.committeeThreshold step params)
    (hfit : Tally.totalWeight w (ballots L) < u64Bound)
    (hover : Tally.Over w (Step.committeeThreshold step params) (ballots L) p) :
    ∃ b, vt.genBundle params p (FinMap.getD vt.counts p ⟨0, ∅⟩) = .ok b := by
  obtain ⟨c, hc⟩ := (ht.counted_iff p).2 hover.1
  have hget : FinMap.getD vt.counts p ⟨0, ∅⟩ = c := by rw [FinMap.getD, hc]; rfl
  have hsum : weightSum (fun v : Vote => v.cred.weight) (sortedVotes c) +
      weightSum (fun ev : EquivocationVote => ev.cred.weight) (sortedPairs vt) = Tally.tally w (ballots L) p := by
    rw [ht.weightSum_votes hw hc, ht.weightSum_pairs hw]
    rfl
  have hlt := lt_of_le_of_lt (Tally.tally_le_totalWeight w (ballots L) p) hfit
  have hprop : ∀ v ∈ sortedVotes c, v.rawVote.proposal = p ∧ v.rawVote.step = step := by
    intro v hv
    obtain ⟨s, hs'⟩ := mem_sortedVotes.1 hv
    obtain ⟨hv', hp⟩ := ((ht.counter p c hc).2 s v).1 hs'
    exact ⟨hp, hstep v (ht.voter_mem s v hv').1⟩
  obtain ⟨⟨vs, weight⟩, hvs⟩ : ∃ r, packUntil (Step.reachesQuorum step params) (fun v : Vote => v.cred.weight) 0
      (sortedVotes c) = .ok r := packUntil_isOk _ _ (by omega)
  obtain ⟨⟨tl, htl⟩, hweight, hdone, _⟩ := packUntil_ok _ _ _ hvs
  simp only [zero_add] at hweight htl hdone
  have hle : weight ≤ weightSum (fun v : Vote => v.cred.weight) (sortedVotes c) := by
    rw [hweight, ← htl]
    simp [weightSum]
  obtain ⟨⟨evs, total⟩, hevs⟩ : ∃ r, packUntil (Step.reachesQuorum step params)
      (fun ev : EquivocationVote => ev.cred.weight) weight (sortedPairs vt) = .ok r := packUntil_isOk _ _ (by omega)
  obtain ⟨_, htotal, hdone', _⟩ := packUntil_ok _ _ _ hevs
  simp only at htotal hdone'
  have hquorum : Step.reachesQuorum step params total = true := by
    rcases hdone' with h | h
    · exact h
    · rcases hdone with h' | h'
      · rw [Step.reachesQuorum_iff hs] at h' ⊢
        omega
      · rw [Step.reachesQuorum_iff hs, htotal, h, hweight, h', hsum]
        exact hover.2
  have hne : vs ≠ [] := by
    rintro rfl
    rcases hdone with h | h
    · rw [hweight, weightSum_nil, Step.reachesQuorum_iff hs] at h
      omega
    · obtain ⟨s, hs'⟩ := hover.1
      obtain ⟨v, hv⟩ := (ht.voter_iff s p).1 hs'
      have : v ∈ sortedVotes c := mem_sortedVotes.2 ⟨s, ((ht.counter p c hc).2 s v).2 hv⟩
      rw [← h] at this
      cases this
  obtain ⟨v₀, vs', rfl⟩ := List.exists_cons_of_ne_nil hne
  have hv₀ : v₀.rawVote.step = step := (hprop v₀ (htl ▸ List.mem_append_left _ List.mem_cons_self)).2
  have hpacked : Packed params vt c v₀ (v₀ :: vs') evs weight total :=
    ⟨rfl, by rw [hv₀]; exact hvs, by rw [hv₀]; exact hevs, by rw [hv₀]; exact hquorum⟩
  rw [hget]
  exact ⟨_, genBundle_of_packed hpacked (fun v hv => (hprop v (htl ▸ List.mem_append_left _ hv)).1)⟩

theorem Tracks.addVoter_fits (ht : Tracks w L vt) (hw : Weighted w (v :: L))
    (he : vt.equivocators.lookup v.rawVote.sender = none) (hv : vt.voters.lookup v.rawVote.sender = none)
    (hfit : Tally.tally w (ballots (v :: L)) v.rawVote.proposal < u64Bound) :
    vt.direct v.rawVote.proposal + v.cred.weight < u64Bound := by
  rw [Tally.tally, ballots_cons, Tally.directWeight_cons_first w (ht.not_mem_senders he hv)] at hfit
  rw [ht.direct_eq, (hw _ List.mem_cons_self).1]
  omega

/-- The three ways in which votes, rather than arithmetic, make a tracker panic. -/
def VotePanic : Panic → Prop
  | .tooManyEquivocators _ _ => True
  | .twoValuesOverThreshold => True
  | .bottomAtSoftOrCert _ => True
  | _ => False

theorem Tracks.overThreshold_error (ht : Tracks w L vt) (hs : step ≠ propose)
    (hfit : Tally.totalWeight w (ballots L) < u64Bound) {x : Panic} (h : vt.overThreshold params step = .error x) :
    VotePanic x ∧ Tally.Overrun w (Step.committeeThreshold step params) (Forbidden step) (ballots L) := by
  constructor
  · rw [overThresholdLoop_error vt params step _ _ x (fun p _ => ht.count_fits hfit p) h]
    trivial
  · by_contra hn
    obtain ⟨r, hr⟩ := ht.overThreshold_isOk hs hfit (fun p q hp hq => by
      by_contra hne
      exact hn (.inr (.inl ⟨p, q, hne, hp, hq⟩)))
    rw [h] at hr
    cases hr

theorem Tracks.emitThreshold_error (hw : Weighted w L) (ht : Tracks w L vt)
    (hs : step ≠ propose) (hstep : ∀ v ∈ L, v.rawVote.step = step) (he : e.vote.rawVote.step = step)
    (hT : 0 < Step.committeeThreshold step params) (hfit : Tally.totalWeight w (ballots L) < u64Bound)
    {x : Panic} (h : vt.emitThreshold e params overBefore = .error x) :
    VotePanic x ∧ Tally.Overrun w (Step.committeeThreshold step params) (Forbidden step) (ballots L) := by
  unfold emitThreshold at h
  simp only [he] at h
  cases ha : vt.overThreshold params step with
  | error y =>
    rw [ha, error_bind] at h
    cases h
    exact ht.overThreshold_error hs hfit ha
  | ok overAfter =>
    rw [ha, ok_bind] at h
    cases overBefore with
    | some q => cases h
    | none =>
      cases overAfter with
      | none => cases h
      | some p =>
        have hover := (ht.overThreshold_ok hs ha p).2 rfl
        simp only at h
        split at h
        · rename_i hf
          cases h
          exact ⟨trivial, .inr (.inr ⟨p, hf, hover⟩)⟩
        · obtain ⟨b, hb⟩ := ht.genBundle_isOk hw hs hstep hT hfit hover
          rw [hb] at h
          cases h

/-- **Where weights fit, a step panics only once the votes overrun the threshold, and for one of the three
reasons.** -/
theorem handleVoteAccepted_error (hw : Weighted w (e.vote :: L)) (ht : Tracks w L vt)
    (hs : step ≠ propose) (hstep : ∀ v ∈ e.vote :: L, v.rawVote.step = step)
    (hT : 0 < Step.committeeThreshold step params) (hfit : Tally.totalWeight w (ballots (e.vote :: L)) < u64Bound)
    {x : Panic} (h : vt.handleVoteAccepted e params = .error x) :
    VotePanic x ∧ Tally.Overrun w (Step.committeeThreshold step params) (Forbidden step) (ballots (e.vote :: L)) := by
  have he : e.vote.rawVote.step = step := hstep _ List.mem_cons_self
  have hsub : ballots L ⊆ ballots (e.vote :: L) := List.subset_cons_self _ _
  unfold handleVoteAccepted at h
  simp only [he] at h
  rw [if_neg hs] at h
  split at h
  · cases h
  rename_i hk
  have hk' : vt.equivocators.lookup e.vote.rawVote.sender = none := by simpa using hk
  cases hob : vt.overThreshold params step with
  | error y =>
    rw [hob, error_bind] at h
    cases h
    obtain ⟨hx, ho⟩ := ht.overThreshold_error hs (lt_of_le_of_lt (Tally.totalWeight_mono w hsub) hfit) hob
    exact ⟨hx, ho.mono hsub⟩
  | ok overBefore =>
    rw [hob, ok_bind] at h
    cases hv : vt.voters.lookup e.vote.rawVote.sender with
    | none =>
      rw [hv] at h
      obtain ⟨vt₁, h₁⟩ := addVoter_isOk (ht.addVoter_fits hw hk' hv
        (lt_of_le_of_lt (Tally.tally_le_totalWeight w _ _) hfit))
      simp only [h₁, ok_bind] at h
      exact (ht.cons_first (hw _ List.mem_cons_self).1 hk' hv h₁).emitThreshold_error hw hs hstep he hT hfit h
    | some old =>
      rw [hv] at h
      simp only at h
      split at h
      · cases h
      · rename_i hp
        have ht₁ := ht.cons_second hw hv hp
        have hcount : vt.equivocatorsCount + e.vote.cred.weight = equivocatorWeight w (ballots (e.vote :: L)) :=
          ht₁.equivocatorsCount_eq
        rw [addU64_of_lt (lt_of_le_of_lt (Nat.le_add_left _ _) (ht₁.count_fits hfit bottom)), ok_bind] at h
        split at h
        · rename_i hq
          cases h
          rw [Step.reachesQuorum_iff hs, hcount] at hq
          have hmem := (Tally.mem_equivocators_cons_second (ht.voter_backs hv) (Ne.symm hp)).2 (.inl rfl)
          exact ⟨trivial, .inl ⟨⟨_, hmem⟩, hq⟩⟩
        · split at h
          · cases h
          · exact ht₁.emitThreshold_error hw hs hstep he hT hfit h

end Tracks

/-! ## Runs -/

/-- One accepted vote as a step of a machine that emits threshold events. -/
def deliver (params : ConsensusParams) (vt : VoteTracker) (e : VoteAcceptedEvent) :
    Except Panic (VoteTracker × List ThresholdEvent) := do
  let r ← vt.handleVoteAccepted e params
  return (r.1, r.2.toList)

/-- A fresh tracker fed with accepted votes, in order. -/
def deliverAll (params : ConsensusParams) (es : List VoteAcceptedEvent) :
    Except Panic (VoteTracker × List ThresholdEvent) :=
  Run.run (deliver params) empty es

/-- The votes delivered by a run, the last one first. -/
def delivered (es : List VoteAcceptedEvent) (L : List Vote) : List Vote := (es.map (·.vote)).reverse ++ L

theorem delivered_cons (e : VoteAcceptedEvent) (es : List VoteAcceptedEvent) (L : List Vote) :
    delivered (e :: es) L = delivered es (e.vote :: L) := by
  simp [delivered]

theorem mem_delivered {es : List VoteAcceptedEvent} {L : List Vote} {v : Vote} :
    v ∈ delivered es L ↔ (∃ e ∈ es, e.vote = v) ∨ v ∈ L := by
  simp [delivered]

theorem deliver_eq_ok {params : ConsensusParams} {vt vt' : VoteTracker} {e : VoteAcceptedEvent}
    {tes : List ThresholdEvent} (h : deliver params vt e = .ok (vt', tes)) :
    ∃ ev, vt.handleVoteAccepted e params = .ok (vt', ev) ∧ tes = ev.toList := by
  unfold deliver at h
  obtain ⟨⟨vt₁, ev⟩, h₁, h⟩ := bind_eq_ok.1 h
  cases h
  exact ⟨ev, h₁, rfl⟩

section Runs

variable {w : Address → Nat} {params : ConsensusParams} {step : Step} {es : List VoteAcceptedEvent}

/-- What a run of accepted votes reports, as far as `L` was delivered before and nothing was over the threshold yet. -/
def Reported (w : Address → Nat) (T : Nat) (L : List Vote) (tes : List ThresholdEvent) : Prop :=
  (tes = [] ∧ ∀ p, ¬ Tally.Over w T (ballots L) p) ∨ ∃ te, tes = [te] ∧ Tally.Over w T (ballots L) te.proposal

/-- **A run that does not panic keeps the tally, does not overrun the threshold, and reports the value over it once;**
every event was emitted by one of its votes, out of a tracker of some of the votes delivered. -/
theorem run_ok (hs : step ≠ propose) : ∀ (es : List VoteAcceptedEvent) (L : List Vote) (vt vt' : VoteTracker)
    (tes₀ tes : List ThresholdEvent), Weighted w (delivered es L) → (∀ v ∈ delivered es L, v.rawVote.step = step) →
    Tracks w L vt → ¬ Tally.Overrun w (Step.committeeThreshold step params) (Forbidden step) (ballots L) →
    Reported w (Step.committeeThreshold step params) L tes₀ → Run.run (deliver params) vt es = .ok (vt', tes) →
    Tracks w (delivered es L) vt' ∧
      ¬ Tally.Overrun w (Step.committeeThreshold step params) (Forbidden step) (ballots (delivered es L)) ∧
      Reported w (Step.committeeThreshold step params) (delivered es L) (tes₀ ++ tes) ∧
      ∀ te ∈ tes, ∃ e ∈ es, ∃ L' vt₁, Tracks w L' vt₁ ∧
        ¬ Tally.Overrun w (Step.committeeThreshold step params) (Forbidden step) (ballots L') ∧
        (∀ v ∈ L', v ∈ delivered es L) ∧ Emitted w params L' vt₁ e te
  | [], L, vt, vt', tes₀, tes, _, _, ht, hn, hr, h => by
    cases h
    rw [List.append_nil]
    exact ⟨ht, hn, hr, fun _ hte => absurd hte List.not_mem_nil⟩
  | e :: es, L, vt, vt', tes₀, tes, hw, hstep, ht, hn, hr, h => by
    obtain ⟨vt₁, as, vt₂, bs, h₁, h₂, hc⟩ := Run.run_cons_eq_ok.1 h
    cases hc
    obtain ⟨ev, hhandle, rfl⟩ := deliver_eq_ok h₁
    rw [delivered_cons] at hw hstep ⊢
    have hmem : ∀ v ∈ e.vote :: L, v ∈ delivered es (e.vote :: L) := fun v hv => mem_delivered.2 (.inr hv)
    have hse : e.vote.rawVote.step = step := hstep _ (hmem _ List.mem_cons_self)
    obtain ⟨ht₁, hsound, hev⟩ := handleVoteAccepted_ok (fun v hv => hw v (hmem v hv)) ht hhandle
    rw [hse] at hsound hev
    have hn₁ := hsound hn
    have hr₁ : Reported w (Step.committeeThreshold step params) (e.vote :: L) (tes₀ ++ ev.toList) := by
      rcases hev with ⟨rfl, hno⟩ | ⟨te, rfl, hno, hem⟩
      · rw [Option.toList_none, List.append_nil]
        rcases hr with ⟨rfl, hnone⟩ | ⟨te, rfl, hte⟩
        · refine .inl ⟨rfl, fun p hp => ?_⟩
          obtain ⟨q, hq⟩ := hno ⟨p, hp⟩
          exact hnone q hq
        · refine .inr ⟨te, rfl, ?_⟩
          rcases hte.mono (List.subset_cons_self (ballot e.vote) (ballots L)) with hte | hover
          · exact hte
          · exact absurd (.inl hover) hn₁
      · rcases hr with ⟨rfl, _⟩ | ⟨te', rfl, hte'⟩
        · have hover := hem.crossed
          rw [hse] at hover
          exact .inr ⟨te, rfl, hover⟩
        · exact absurd hte' (hno te'.proposal)
    obtain ⟨ht', hn', hr', hevents⟩ := run_ok hs es (e.vote :: L) vt₁ vt' _ bs hw hstep ht₁ hn₁ hr₁ h₂
    rw [← List.append_assoc]
    refine ⟨ht', hn', hr', fun te hte => ?_⟩
    rcases List.mem_append.1 hte with hte | hte
    · rcases hev with ⟨rfl, _⟩ | ⟨te', rfl, _, hem⟩
      · cases hte
      · obtain rfl : te = te' := by simpa using hte
        exact ⟨e, List.mem_cons_self, e.vote :: L, vt₁, ht₁, hn₁, hmem, hem⟩
    · obtain ⟨e', he', hrest⟩ := hevents te hte
      exact ⟨e', List.mem_cons_of_mem _ he', hrest⟩

/-- A bundle needs a vote, so no event is emitted where nothing has to be reached. -/
theorem Emitted.threshold_pos {L : List Vote} {vt : VoteTracker} {e : VoteAcceptedEvent} {te : ThresholdEvent}
    (h : Emitted w params L vt e te) (ht : Tracks w L vt) (hs : e.vote.rawVote.step ≠ propose)
    (hstep : ∀ v ∈ L, v.rawVote.step = e.vote.rawVote.step) :
    0 < Step.committeeThreshold e.vote.rawVote.step params := by
  obtain ⟨v₀, vs, evs, weight, total, hp, _, _⟩ := genBundle_ok h.bundle
  obtain ⟨c, hc⟩ := (ht.counted_iff te.proposal).2 h.crossed.1
  have hget : FinMap.getD vt.counts te.proposal ⟨0, ∅⟩ = c := by rw [FinMap.getD, hc]; rfl
  rw [hget] at hp
  obtain ⟨⟨tl, htl⟩, -, -, hfirst⟩ := packUntil_ok _ _ _ hp.votes
  have hne : vs ≠ [] := by
    rintro rfl
    cases hp.head
  have hv₀ : v₀ ∈ sortedVotes c := by
    rw [← htl]
    exact List.mem_append_left _ (List.mem_of_mem_head? hp.head)
  obtain ⟨s, hv₀⟩ := mem_sortedVotes.1 hv₀
  have hv₀ := (((ht.counter _ c hc).2 s v₀).1 hv₀).1
  rw [← hstep v₀ (ht.voter_mem s v₀ hv₀).1] at hs ⊢
  have := (hfirst hne).2
  rw [Bool.eq_false_iff, Ne, Step.reachesQuorum_iff hs] at this
  omega

/-- With a threshold of zero the first vote already panics. -/
theorem threshold_pos_of_deliverAll_ok (hs : step ≠ propose) (hne : es ≠ [])
    (hw : Weighted w (delivered es [])) (hstep : ∀ v ∈ delivered es [], v.rawVote.step = step)
    {r : VoteTracker × List ThresholdEvent} (h : deliverAll params es = .ok r) :
    0 < Step.committeeThreshold step params := by
  obtain ⟨e, es, rfl⟩ := List.exists_cons_of_ne_nil hne
  obtain ⟨vt₁, as, vt₂, bs, h₁, h₂, -⟩ := Run.run_cons_eq_ok.1 h
  obtain ⟨ev, hhandle, rfl⟩ := deliver_eq_ok h₁
  have hmem : ∀ v ∈ [e.vote], v ∈ delivered (e :: es) [] := by
    intro v hv
    rw [List.mem_singleton] at hv
    exact mem_delivered.2 (.inl ⟨e, List.mem_cons_self, hv.symm⟩)
  have hse : e.vote.rawVote.step = step := hstep _ (hmem _ List.mem_cons_self)
  obtain ⟨ht₁, -, hev⟩ := handleVoteAccepted_ok (fun v hv => hw v (hmem v hv)) (tracks_empty w) hhandle
  rw [← hse] at hs ⊢
  rcases hev with ⟨rfl, hno⟩ | ⟨te, rfl, -, hem⟩
  · by_contra hT
    have hback : e.vote.rawVote.sender ∈ backers (ballots [e.vote]) e.vote.rawVote.proposal :=
      (Tally.mem_backers_cons_first (by simp [Tally.senders])).2 (.inl ⟨rfl, rfl⟩)
    obtain ⟨p, ⟨s, hs'⟩, _⟩ := hno ⟨e.vote.rawVote.proposal, ⟨_, hback⟩, by omega⟩
    cases (mem_backers.1 hs').1
  · exact hem.threshold_pos ht₁ hs (fun v hv => by rw [hse]; exact hstep v (hmem v hv))

theorem deliverAll_ok (hs : step ≠ propose) (hw : Weighted w (delivered es []))
    (hstep : ∀ v ∈ delivered es [], v.rawVote.step = step) {vt : VoteTracker} {tes : List ThresholdEvent}
    (h : deliverAll params es = .ok (vt, tes)) :
    Tracks w (delivered es []) vt ∧
      ¬ Tally.Overrun w (Step.committeeThreshold step params) (Forbidden step) (ballots (delivered es [])) ∧
      Reported w (Step.committeeThreshold step params) (delivered es []) tes ∧
      ∀ te ∈ tes, ∃ e ∈ es, ∃ L vt₁, Tracks w L vt₁ ∧
        ¬ Tally.Overrun w (Step.committeeThreshold step params) (Forbidden step) (ballots L) ∧
        (∀ v ∈ L, v ∈ delivered es []) ∧ Emitted w params L vt₁ e te :=
  run_ok hs es [] empty vt [] tes hw hstep (tracks_empty w) (Tally.not_overrun_nil _)
    (.inl ⟨rfl, Tally.not_over_nil⟩) h

/-- **Where weights fit, a run panics only once its votes overrun the threshold.** -/
theorem run_error (hs : step ≠ propose) (hT : 0 < Step.committeeThreshold step params) :
    ∀ (es : List VoteAcceptedEvent) (L : List Vote) (vt : VoteTracker) (x : Panic), Weighted w (delivered es L) →
    (∀ v ∈ delivered es L, v.rawVote.step = step) → Tracks w L vt →
    Tally.totalWeight w (ballots (delivered es L)) < u64Bound → Run.run (deliver params) vt es = .error x →
    VotePanic x ∧ Tally.Overrun w (Step.committeeThreshold step params) (Forbidden step) (ballots (delivered es L))
  | [], _, _, _, _, _, _, _, h => by cases h
  | e :: es, L, vt, x, hw, hstep, ht, hfit, h => by
    rw [delivered_cons] at hw hstep hfit ⊢
    have hmem : ∀ v ∈ e.vote :: L, v ∈ delivered es (e.vote :: L) := fun v hv => mem_delivered.2 (.inr hv)
    have hsub : ballots (e.vote :: L) ⊆ ballots (delivered es (e.vote :: L)) := List.map_subset _ hmem
    unfold Run.run deliver at h
    cases h₁ : vt.handleVoteAccepted e params with
    | error y =>
      rw [h₁] at h
      cases h
      obtain ⟨hx, ho⟩ := handleVoteAccepted_error (fun v hv => hw v (hmem v hv)) ht hs
        (fun v hv => hstep v (hmem v hv)) hT (lt_of_le_of_lt (Tally.totalWeight_mono w hsub) hfit) h₁
      exact ⟨hx, ho.mono hsub⟩
    | ok r =>
      rw [h₁] at h
      have ht₁ := (handleVoteAccepted_ok (fun v hv => hw v (hmem v hv)) ht h₁).tracks
      cases h₂ : Run.run (deliver params) r.1 es with
      | ok r₂ =>
        change (Run.run (deliver params) r.1 es >>= _) = _ at h
        rw [h₂] at h
        cases h
      | error y =>
        change (Run.run (deliver params) r.1 es >>= _) = _ at h
        rw [h₂] at h
        cases h
        exact run_error hs hT es (e.vote :: L) r.1 _ hw hstep ht₁ hfit h₂

/-- **A run from a fresh tracker panics exactly when its votes overrun the threshold, or there is a vote and nothing to
reach.** -/
theorem deliverAll_isOk_iff (hs : step ≠ propose) (hw : Weighted w (delivered es []))
    (hstep : ∀ v ∈ delivered es [], v.rawVote.step = step)
    (hfit : Tally.totalWeight w (ballots (delivered es [])) < u64Bound) :
    (∃ r, deliverAll params es = .ok r) ↔ es = [] ∨ (0 < Step.committeeThreshold step params ∧
      ¬ Tally.Overrun w (Step.committeeThreshold step params) (Forbidden step) (ballots (delivered es []))) := by
  constructor
  · rintro ⟨⟨vt, tes⟩, h⟩
    by_cases hes : es = []
    · exact .inl hes
    · exact .inr ⟨threshold_pos_of_deliverAll_ok hs hes hw hstep h, (deliverAll_ok hs hw hstep h).2.1⟩
  · rintro (rfl | ⟨hT, hn⟩)
    · exact ⟨_, rfl⟩
    · cases h : deliverAll params es with
      | ok r => exact ⟨r, rfl⟩
      | error x => exact absurd (run_error hs hT es [] empty x hw hstep (tracks_empty w) hfit h).2 hn

/-- Two runs that agree in everything but the order in which votes came. -/
def SameOutcome (T : Nat) : Except Panic (VoteTracker × List ThresholdEvent) →
    Except Panic (VoteTracker × List ThresholdEvent) → Prop
  | .error x, .error x' => 0 < T → VotePanic x ∧ VotePanic x'
  | .ok (vt, tes), .ok (vt', tes') =>
    (∀ s, s ∈ vt.equivocators ↔ s ∈ vt'.equivocators) ∧ vt.equivocatorsCount = vt'.equivocatorsCount ∧
      (∀ p, vt.count p = vt'.count p) ∧ tes.length ≤ 1 ∧ tes.length = tes'.length ∧
      tes.map (·.proposal) = tes'.map (·.proposal)
  | _, _ => False

theorem sameOutcome_of_tracks {L L' : List Vote} {vt vt' : VoteTracker} {tes tes' : List ThresholdEvent} {T : Nat}
    (hsame : ∀ b, b ∈ ballots L ↔ b ∈ ballots L') (ht : Tracks w L vt) (ht' : Tracks w L' vt')
    (hn : ¬ Tally.Overrun w T (Forbidden step) (ballots L)) (hr : Reported w T L tes) (hr' : Reported w T L' tes') :
    SameOutcome T (.ok (vt, tes)) (.ok (vt', tes')) := by
  refine ⟨?_, ?_, ?_, ?_⟩
  · intro s
    rw [FinMap.mem_iff_lookup, FinMap.mem_iff_lookup, ht.equivocator_iff, ht'.equivocator_iff, ← mem_equivocators,
      ← mem_equivocators, Tally.equivocators_congr hsame]
  · rw [ht.equivocatorsCount_eq, ht'.equivocatorsCount_eq, Tally.equivocatorWeight_congr hsame]
  · intro p
    rw [count, count, ht.direct_eq, ht'.direct_eq, ht.equivocatorsCount_eq, ht'.equivocatorsCount_eq,
      Tally.equivocatorWeight_congr hsame, Tally.directWeight_congr hsame]
  · rcases hr with ⟨rfl, hnone⟩ | ⟨te, rfl, hte⟩
    · rcases hr' with ⟨rfl, _⟩ | ⟨te', rfl, hte'⟩
      · simp
      · exact absurd ((Tally.over_congr hsame _).2 hte') (hnone _)
    · rcases hr' with ⟨rfl, hnone⟩ | ⟨te', rfl, hte'⟩
      · exact absurd ((Tally.over_congr hsame _).1 hte) (hnone _)
      · have hp : te.proposal = te'.proposal := by
          by_contra hne
          exact hn (.inr (.inl ⟨_, _, hne, hte, (Tally.over_congr hsame _).2 hte'⟩))
        simp [hp]

/-- **The order in which a tracker receives its votes does not matter**: two orders both panic, and then because of the
votes, or both end with the same equivocators and counts, having reported the same value or none. -/
theorem deliverAll_order_independent (params : ConsensusParams) (round : Round) (period : Period) (step : Step)
    (w : Address → Nat) (es es' : List VoteAcceptedEvent) (hperm : es.Perm es') (hstep : step ≠ propose)
    (hsame : ∀ e ∈ es, e.vote.rawVote.round = round ∧ e.vote.rawVote.period = period ∧ e.vote.rawVote.step = step)
    (hweight : ∀ e ∈ es, e.vote.cred.weight = w e.vote.rawVote.sender ∧ 0 < e.vote.cred.weight)
    (hfit : ∑ s ∈ (es.map (·.vote.rawVote.sender)).toFinset, w s < u64Bound) :
    SameOutcome (Step.committeeThreshold step params) (deliverAll params es) (deliverAll params es') := by
  have hmem : ∀ v, v ∈ delivered es [] ↔ ∃ e ∈ es, e.vote = v := fun v => by
    rw [mem_delivered, or_iff_left List.not_mem_nil]
  have hsame' : ∀ v, v ∈ delivered es [] ↔ v ∈ delivered es' [] := fun v => by
    simp only [mem_delivered, hperm.mem_iff]
  have hballots : ∀ b, b ∈ ballots (delivered es []) ↔ b ∈ ballots (delivered es' []) := fun b => by
    simp only [ballots, List.mem_map, hsame']
  have hw : Weighted w (delivered es []) := by
    intro v hv
    obtain ⟨e, he, rfl⟩ := (hmem v).1 hv
    exact hweight e he
  have hs : ∀ v ∈ delivered es [], v.rawVote.step = step := by
    intro v hv
    obtain ⟨e, he, rfl⟩ := (hmem v).1 hv
    exact (hsame e he).2.2
  have hw' : Weighted w (delivered es' []) := fun v hv => hw v ((hsame' v).2 hv)
  have hs' : ∀ v ∈ delivered es' [], v.rawVote.step = step := fun v hv => hs v ((hsame' v).2 hv)
  have hfits : Tally.totalWeight w (ballots (delivered es [])) < u64Bound := by
    have : Tally.senders (ballots (delivered es [])) = (es.map (·.vote.rawVote.sender)).toFinset := by
      ext s
      simp [Tally.senders, ballots, ballot, delivered]
    rw [Tally.totalWeight, this]
    exact hfit
  have hfits' : Tally.totalWeight w (ballots (delivered es' [])) < u64Bound :=
    lt_of_le_of_lt (Tally.totalWeight_mono w (fun b hb => (hballots b).2 hb)) hfits
  -- both runs succeed or both panic, because the condition speaks of the votes as a set
  have hiff : (∃ r, deliverAll params es = .ok r) ↔ ∃ r, deliverAll params es' = .ok r := by
    rw [deliverAll_isOk_iff hstep hw hs hfits, deliverAll_isOk_iff hstep hw' hs' hfits', Tally.overrun_congr hballots]
    rw [show es = [] ↔ es' = [] from ⟨fun h => by subst h; exact hperm.nil_eq.symm, fun h => by subst h; exact hperm.eq_nil⟩]
  cases h : deliverAll params es with
  | ok r =>
    obtain ⟨r', h'⟩ := hiff.1 ⟨r, h⟩
    rw [h']
    obtain ⟨ht, hn, hr, -⟩ := deliverAll_ok hstep hw hs h
    obtain ⟨ht', -, hr', -⟩ := deliverAll_ok hstep hw' hs' h'
    exact sameOutcome_of_tracks hballots ht ht' hn hr hr'
  | error x =>
    cases h' : deliverAll params es' with
    | ok r' =>
      obtain ⟨r, hr⟩ := hiff.2 ⟨r', h'⟩
      rw [h] at hr
      cases hr
    | error x' =>
      intro hT
      exact ⟨(run_error hstep hT es [] empty x hw hs (tracks_empty w) hfits h).1,
        (run_error hstep hT es' [] empty x' hw' hs' (tracks_empty w) hfits' h').1⟩

end Runs

/-- Small thresholds for runs on given votes. -/
def smallParams : ConsensusParams :=
  { (default : ConsensusParams) with
    softCommitteeThreshold := 2, certCommitteeThreshold := 2, nextCommitteeThreshold := 2,
    lateCommitteeThreshold := 2, redoCommitteeThreshold := 2, downCommitteeThreshold := 2,
    agreementFilterTimeout := Duration.fromSecs 4, agreementFilterTimeoutPeriod0 := Duration.fromSecs 4,
    agreementDeadlineTimeoutPeriod0 := Duration.fromSecs 17 }

/-- A proposal value told apart from others by its block digest. -/
def valueOf (n : Nat) : ProposalValue := ⟨0, ⟨1⟩, ⟨n⟩, ⟨n⟩⟩

/-- A vote of weight one. -/
def unitVote (sender : Nat) (round : Round) (period : Period) (step : Step) (p : ProposalValue) : Vote where
  rawVote := ⟨⟨sender⟩, round, period, step, p⟩
  cred := { (default : Credential) with weight := 1 }
  sig := default
  validatedAt := 0

/-- The first sender equivocates before or after two others voted; both orders report the same value. -/
theorem deliverAll_order_independent_three :
    SameOutcome 2
      (deliverAll smallParams [⟨unitVote 1 5 0 soft (valueOf 1), ""⟩, ⟨unitVote 1 5 0 soft (valueOf 2), ""⟩,
        ⟨unitVote 2 5 0 soft (valueOf 2), ""⟩])
      (deliverAll smallParams [⟨unitVote 2 5 0 soft (valueOf 2), ""⟩, ⟨unitVote 1 5 0 soft (valueOf 2), ""⟩,
        ⟨unitVote 1 5 0 soft (valueOf 1), ""⟩]) :=
  deliverAll_order_independent smallParams 5 0 soft (fun _ => 1) _ _ (by decide) (by decide) (by decide) (by decide)
    (by decide)

end VoteTracker

end Agreement
end Algod
