import Mathlib.Algebra.BigOperators.Group.Finset.Basic
import Mathlib.Algebra.Order.BigOperators.Group.Finset
import Mathlib.Tactic.TautoSet
/-!
# Tally — weighted ballots with equivocation

Ballots are pairs of a sender and a value.  A sender of two different values is an equivocator: its weight counts for
every value.  The tally of a value is the weight of the senders that voted for it and for nothing else, plus the
weight of all equivocators.  Everything here is stated by membership in the list of ballots, so it does not depend on
their order, and a tally only grows when ballots are added (`tally_mono`).
-/
namespace Tally

variable {σ π : Type} [DecidableEq σ] [DecidableEq π] {L L' : List (σ × π)} {L : List (σ × π)}

/-- A sender of two different values. -/
def Equivocates (L : List (σ × π)) (s : σ) : Prop := ∃ p q, (s, p) ∈ L ∧ (s, q) ∈ L ∧ p ≠ q

instance (L : List (σ × π)) (s : σ) : Decidable (Equivocates L s) :=
  decidable_of_iff (∃ b ∈ L, ∃ c ∈ L, b.1 = s ∧ c.1 = s ∧ b.2 ≠ c.2) (by
    constructor
    · rintro ⟨⟨_, p⟩, hb, ⟨_, q⟩, hc, rfl, hcs, hne⟩
      exact ⟨p, q, hb, by cases hcs; exact hc, hne⟩
    · rintro ⟨p, q, hp, hq, hne⟩
      exact ⟨(s, p), hp, (s, q), hq, rfl, rfl, hne⟩)

def senders (L : List (σ × π)) : Finset σ := (L.map Prod.fst).toFinset

def equivocators (L : List (σ × π)) : Finset σ := (senders L).filter (Equivocates L)

/-- The senders whose only value is `p`. -/
def backers (L : List (σ × π)) (p : π) : Finset σ := (senders L).filter (fun s => (s, p) ∈ L ∧ ¬ Equivocates L s)

def equivocatorWeight (w : σ → Nat) (L : List (σ × π)) : Nat := ∑ s ∈ equivocators L, w s

def directWeight (w : σ → Nat) (L : List (σ × π)) (p : π) : Nat := ∑ s ∈ backers L p, w s

def tally (w : σ → Nat) (L : List (σ × π)) (p : π) : Nat := directWeight w L p + equivocatorWeight w L

def totalWeight (w : σ → Nat) (L : List (σ × π)) : Nat := ∑ s ∈ senders L, w s

omit [DecidableEq π] in
theorem mem_senders {s : σ} : s ∈ senders L ↔ ∃ p, (s, p) ∈ L := by
  simp [senders]

omit [DecidableEq π] in
theorem Equivocates.mem_senders {s : σ} (h : Equivocates L s) : s ∈ senders L := by
  obtain ⟨p, _, hp, _, _⟩ := h
  exact Tally.mem_senders.2 ⟨p, hp⟩

theorem mem_equivocators {s : σ} : s ∈ equivocators L ↔ Equivocates L s := by
  simp only [equivocators, Finset.mem_filter, and_iff_right_iff_imp]
  exact Equivocates.mem_senders

theorem mem_backers {p : π} {s : σ} : s ∈ backers L p ↔ (s, p) ∈ L ∧ ¬ Equivocates L s := by
  simp only [backers, Finset.mem_filter, and_iff_right_iff_imp]
  exact fun h => mem_senders.2 ⟨p, h.1⟩

omit [DecidableEq σ] [DecidableEq π] in
theorem Equivocates.mono (h : L ⊆ L') {s : σ} (hs : Equivocates L s) : Equivocates L' s := by
  obtain ⟨p, q, hp, hq, hne⟩ := hs
  exact ⟨p, q, h hp, h hq, hne⟩

theorem disjoint_backers_equivocators (L : List (σ × π)) (p : π) : Disjoint (backers L p) (equivocators L) := by
  rw [Finset.disjoint_left]
  intro s hs he
  exact (mem_backers.1 hs).2 (mem_equivocators.1 he)

/-- A tally is one sum over the backers and the equivocators together. -/
theorem tally_eq_sum_union (w : σ → Nat) (L : List (σ × π)) (p : π) :
    tally w L p = ∑ s ∈ backers L p ∪ equivocators L, w s := by
  rw [Finset.sum_union (disjoint_backers_equivocators L p)]
  rfl

theorem supporters_mono (h : L ⊆ L') (p : π) :
    backers L p ∪ equivocators L ⊆ backers L' p ∪ equivocators L' := by
  intro s hs
  rw [Finset.mem_union, mem_backers, mem_equivocators] at hs ⊢
  rcases hs with ⟨hp, _⟩ | he
  · by_cases he : Equivocates L' s
    · exact .inr he
    · exact .inl ⟨h hp, he⟩
  · exact .inr (he.mono h)

theorem tally_mono (w : σ → Nat) (h : L ⊆ L') (p : π) : tally w L p ≤ tally w L' p := by
  rw [tally_eq_sum_union, tally_eq_sum_union]
  exact Finset.sum_le_sum_of_subset (supporters_mono h p)

theorem equivocatorWeight_mono (w : σ → Nat) (h : L ⊆ L') :
    equivocatorWeight w L ≤ equivocatorWeight w L' :=
  Finset.sum_le_sum_of_subset (fun _ hs => mem_equivocators.2 ((mem_equivocators.1 hs).mono h))

theorem tally_le_totalWeight (w : σ → Nat) (L : List (σ × π)) (p : π) : tally w L p ≤ totalWeight w L := by
  rw [tally_eq_sum_union]
  apply Finset.sum_le_sum_of_subset
  exact Finset.union_subset (Finset.filter_subset _ _) (Finset.filter_subset _ _)

omit [DecidableEq π] in
theorem totalWeight_mono (w : σ → Nat) (h : L ⊆ L') : totalWeight w L ≤ totalWeight w L' := by
  apply Finset.sum_le_sum_of_subset
  intro s hs
  obtain ⟨p, hp⟩ := mem_senders.1 hs
  exact mem_senders.2 ⟨p, h hp⟩

theorem tally_of_not_backed (w : σ → Nat) {p : π} (h : backers L p = ∅) :
    tally w L p = equivocatorWeight w L := by
  simp [tally, directWeight, h]

/-! ## Order independence -/

section SameBallots

variable {L L' : List (σ × π)} (h : ∀ b, b ∈ L ↔ b ∈ L')
include h

theorem equivocators_congr : equivocators L = equivocators L' := by
  ext s
  rw [mem_equivocators, mem_equivocators]
  exact ⟨Equivocates.mono (fun b => (h b).1), Equivocates.mono (fun b => (h b).2)⟩

theorem backers_congr (p : π) : backers L p = backers L' p := by
  ext s
  rw [mem_backers, mem_backers, h, ← mem_equivocators, ← mem_equivocators, equivocators_congr h]

theorem equivocatorWeight_congr (w : σ → Nat) : equivocatorWeight w L = equivocatorWeight w L' := by
  rw [equivocatorWeight, equivocatorWeight, equivocators_congr h]

theorem directWeight_congr (w : σ → Nat) (p : π) : directWeight w L p = directWeight w L' p := by
  rw [directWeight, directWeight, backers_congr h]

theorem tally_congr (w : σ → Nat) (p : π) : tally w L p = tally w L' p := by
  rw [tally, tally, directWeight_congr h, equivocatorWeight_congr h]

end SameBallots

/-! ## Thresholds -/

/-- A value with a backer whose tally reaches the threshold. -/
def Over (w : σ → Nat) (T : Nat) (L : List (σ × π)) (p : π) : Prop := (backers L p).Nonempty ∧ T ≤ tally w L p

/-- Equivocators alone reach the threshold, or two values do, or a forbidden value does. -/
def Overrun (w : σ → Nat) (T : Nat) (forbidden : π → Prop) (L : List (σ × π)) : Prop :=
  ((equivocators L).Nonempty ∧ T ≤ equivocatorWeight w L) ∨ (∃ p q, p ≠ q ∧ Over w T L p ∧ Over w T L q) ∨
    ∃ p, forbidden p ∧ Over w T L p

section Threshold

variable {w : σ → Nat} {T : Nat} {L L' : List (σ × π)}

/-- A value over the threshold stays over it until its last backer equivocates, and then the equivocators alone reach
the threshold. -/
theorem Over.mono (h : L ⊆ L') {p : π} (ho : Over w T L p) :
    Over w T L' p ∨ ((equivocators L').Nonempty ∧ T ≤ equivocatorWeight w L') := by
  obtain ⟨⟨s, hs⟩, hT⟩ := ho
  have hT' : T ≤ tally w L' p := hT.trans (tally_mono w h p)
  by_cases hb : backers L' p = ∅
  · have he : Equivocates L' s := by
      by_contra hne
      have : s ∈ backers L' p := mem_backers.2 ⟨h (mem_backers.1 hs).1, hne⟩
      rw [hb] at this
      exact Finset.notMem_empty s this
    rw [tally_of_not_backed w hb] at hT'
    exact .inr ⟨⟨s, mem_equivocators.2 he⟩, hT'⟩
  · exact .inl ⟨Finset.nonempty_iff_ne_empty.2 hb, hT'⟩

theorem Overrun.mono {forbidden : π → Prop} (h : L ⊆ L') (ho : Overrun w T forbidden L) :
    Overrun w T forbidden L' := by
  rcases ho with ⟨⟨s, hs⟩, hT⟩ | ⟨p, q, hne, hp, hq⟩ | ⟨p, hf, hp⟩
  · exact .inl ⟨⟨s, mem_equivocators.2 ((mem_equivocators.1 hs).mono h)⟩, hT.trans (equivocatorWeight_mono w h)⟩
  · rcases hp.mono h with hp | he
    · rcases hq.mono h with hq | he
      · exact .inr (.inl ⟨p, q, hne, hp, hq⟩)
      · exact .inl he
    · exact .inl he
  · rcases hp.mono h with hp | he
    · exact .inr (.inr ⟨p, hf, hp⟩)
    · exact .inl he

theorem over_congr (h : ∀ b, b ∈ L ↔ b ∈ L') (p : π) : Over w T L p ↔ Over w T L' p := by
  rw [Over, Over, backers_congr h, tally_congr h]

theorem overrun_congr {forbidden : π → Prop} (h : ∀ b, b ∈ L ↔ b ∈ L') :
    Overrun w T forbidden L ↔ Overrun w T forbidden L' := by
  simp only [Overrun, over_congr h, equivocators_congr h, equivocatorWeight_congr h]

theorem not_over_nil (p : π) : ¬ Over w T ([] : List (σ × π)) p := by
  rintro ⟨⟨s, hs⟩, _⟩
  cases (mem_backers.1 hs).1

theorem not_overrun_nil (forbidden : π → Prop) : ¬ Overrun w T forbidden ([] : List (σ × π)) := by
  rintro (⟨⟨s, hs⟩, _⟩ | ⟨p, _, _, hp, _⟩ | ⟨p, _, hp⟩)
  · obtain ⟨_, _, h, _⟩ := mem_equivocators.1 hs
    cases h
  · exact not_over_nil p hp
  · exact not_over_nil p hp

end Threshold

/-! ## One more ballot

A ballot of a sender that already equivocated, or one that repeats the sender's value, changes nothing; a first ballot
adds a backer; a second, different value turns a backer of the first into an equivocator. -/

variable {L : List (σ × π)}

omit [DecidableEq σ] [DecidableEq π] in
theorem equivocates_cons_iff {s t : σ} {p : π} :
    Equivocates ((s, p) :: L) t ↔ Equivocates L t ∨ (t = s ∧ ∃ q, (s, q) ∈ L ∧ q ≠ p) := by
  constructor
  · rintro ⟨a, b, ha, hb, hne⟩
    rw [List.mem_cons, Prod.mk.injEq] at ha hb
    rcases ha with ⟨rfl, rfl⟩ | ha
    · rcases hb with ⟨_, rfl⟩ | hb
      · exact absurd rfl hne
      · exact .inr ⟨rfl, b, hb, Ne.symm hne⟩
    · rcases hb with ⟨rfl, rfl⟩ | hb
      · exact .inr ⟨rfl, a, ha, hne⟩
      · exact .inl ⟨a, b, ha, hb, hne⟩
  · rintro (h | ⟨rfl, q, hq, hne⟩)
    · exact h.mono (List.subset_cons_self _ _)
    · exact ⟨q, p, List.mem_cons_of_mem _ hq, List.mem_cons_self, hne⟩

variable {s : σ}

theorem equivocators_cons_known {p : π} (hs : Equivocates L s) :
    equivocators ((s, p) :: L) = equivocators L := by
  ext t
  rw [mem_equivocators, mem_equivocators, equivocates_cons_iff]
  constructor
  · rintro (h | ⟨rfl, _⟩)
    · exact h
    · exact hs
  · exact .inl

theorem backers_cons_known {p : π} (hs : Equivocates L s) (q : π) :
    backers ((s, p) :: L) q = backers L q := by
  ext t
  rw [mem_backers, mem_backers, ← mem_equivocators, ← mem_equivocators, equivocators_cons_known hs,
    List.mem_cons, Prod.mk.injEq, mem_equivocators]
  constructor
  · rintro ⟨⟨rfl, rfl⟩ | h, hne⟩
    · exact absurd hs hne
    · exact ⟨h, hne⟩
  · rintro ⟨h, hne⟩
    exact ⟨.inr h, hne⟩

theorem equivocators_cons_first (p : π) (hs : s ∉ senders L) :
    equivocators ((s, p) :: L) = equivocators L := by
  ext t
  rw [mem_equivocators, mem_equivocators, equivocates_cons_iff]
  constructor
  · rintro (h | ⟨rfl, q, hq, _⟩)
    · exact h
    · exact absurd (mem_senders.2 ⟨q, hq⟩) hs
  · exact .inl

theorem mem_backers_cons_first {s t : σ} {p q : π} (hs : s ∉ senders L) :
    t ∈ backers ((s, p) :: L) q ↔ (t = s ∧ q = p) ∨ t ∈ backers L q := by
  rw [mem_backers, mem_backers, ← mem_equivocators, equivocators_cons_first p hs, List.mem_cons, Prod.mk.injEq,
    mem_equivocators]
  constructor
  · rintro ⟨h | h, hne⟩
    · exact .inl h
    · exact .inr ⟨h, hne⟩
  · rintro (⟨rfl, rfl⟩ | ⟨h, hne⟩)
    · exact ⟨.inl ⟨rfl, rfl⟩, fun he => hs he.mem_senders⟩
    · exact ⟨.inr h, hne⟩

theorem directWeight_cons_first (w : σ → Nat) {p : π} (hs : s ∉ senders L) :
    directWeight w ((s, p) :: L) p = directWeight w L p + w s := by
  have hb : backers ((s, p) :: L) p = insert s (backers L p) := by
    ext t
    rw [mem_backers_cons_first hs, Finset.mem_insert, and_iff_left rfl]
  have hn : s ∉ backers L p := fun h => hs (mem_senders.2 ⟨p, (mem_backers.1 h).1⟩)
  rw [directWeight, hb, Finset.sum_insert hn, Nat.add_comm]
  rfl

theorem mem_equivocators_cons_second {s t : σ} {p q : π} (hs : s ∈ backers L q) (hpq : p ≠ q) :
    t ∈ equivocators ((s, p) :: L) ↔ t = s ∨ t ∈ equivocators L := by
  rw [mem_equivocators, mem_equivocators, equivocates_cons_iff]
  constructor
  · rintro (h | ⟨rfl, _⟩)
    · exact .inr h
    · exact .inl rfl
  · rintro (rfl | h)
    · exact .inr ⟨rfl, q, (mem_backers.1 hs).1, Ne.symm hpq⟩
    · exact .inl h

theorem equivocatorWeight_cons_second (w : σ → Nat) {p q : π} (hs : s ∈ backers L q)
    (hpq : p ≠ q) : equivocatorWeight w ((s, p) :: L) = equivocatorWeight w L + w s := by
  have he : equivocators ((s, p) :: L) = insert s (equivocators L) := by
    ext t
    rw [mem_equivocators_cons_second hs hpq, Finset.mem_insert]
  have hn : s ∉ equivocators L := fun h => (mem_backers.1 hs).2 (mem_equivocators.1 h)
  rw [equivocatorWeight, he, Finset.sum_insert hn, Nat.add_comm]
  rfl

theorem mem_backers_cons_second {s t : σ} {p q r : π} (hs : s ∈ backers L q) (hpq : p ≠ q) :
    t ∈ backers ((s, p) :: L) r ↔ t ≠ s ∧ t ∈ backers L r := by
  rw [mem_backers, mem_backers, ← mem_equivocators, mem_equivocators_cons_second hs hpq, List.mem_cons,
    Prod.mk.injEq, mem_equivocators, not_or]
  constructor
  · rintro ⟨⟨rfl, _⟩ | h, hne, hne'⟩
    · exact absurd rfl hne
    · exact ⟨hne, h, hne'⟩
  · rintro ⟨hne, h, hne'⟩
    exact ⟨.inr h, hne, hne'⟩

theorem directWeight_cons_second (w : σ → Nat) {p q : π} (hs : s ∈ backers L q)
    (hpq : p ≠ q) : directWeight w ((s, p) :: L) q + w s = directWeight w L q := by
  have hb : backers ((s, p) :: L) q = (backers L q).erase s := by
    ext t
    rw [mem_backers_cons_second hs hpq, Finset.mem_erase]
  rw [directWeight, hb, Finset.sum_erase_add _ _ hs]
  rfl

end Tally
