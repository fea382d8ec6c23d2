import AlgodRust.Crypto.BinomialBounds
import Mathlib.Data.List.Find
/-!
# BinomialWalk — the early exit of the binomial walk

The factor of a step shrinks with the index and rounding is monotone, so that once a term no longer moves the sum no
later one does.  The walk then returns what the walk without its early exit decides, and more of the digest never
returns less.
-/
namespace Algod
namespace Crypto
namespace F128

variable {a b : F128}

/-- A float that is not zero is known by its value. -/
theorem eq_of_val_eq (ha : a.WellFormed) (hb : b.WellFormed) (hne : a.val ≠ 0) (h : a.val = b.val) : a = b := by
  have hna : Rounding.Normal 128 a.mant := normal_of_ne_zero ha (by rw [← Bool.not_eq_true, ← val_eq_zero_iff]; exact hne)
  have hnb : Rounding.Normal 128 b.mant :=
    normal_of_ne_zero hb (by rw [← Bool.not_eq_true, ← val_eq_zero_iff, ← h]; exact hne)
  have hexp : a.exp.toInt = b.exp.toInt := by
    rcases lt_trichotomy a.exp.toInt b.exp.toInt with hlt | heq | hgt
    · exact absurd h (val_lt_of_exp_lt hna hnb hlt).ne
    · exact heq
    · exact absurd h (val_lt_of_exp_lt hnb hna hgt).ne'
  have hmant : a.mant = b.mant := by
    unfold val at h
    rw [hexp] at h
    exact_mod_cast mul_right_cancel₀ (Rounding.two_zpow_pos b.exp.toInt).ne' h
  obtain ⟨ahi, alo, aexp⟩ := a
  obtain ⟨bhi, blo, bexp⟩ := b
  have hlo := alo.toNat_lt
  have hlo' := blo.toNat_lt
  change wide ahi alo = wide bhi blo at hmant
  unfold wide at hmant
  have h1 : ahi = bhi := UInt64.toNat_inj.1 (by omega)
  have h2 : alo = blo := UInt64.toNat_inj.1 (by omega)
  have h3 : aexp = bexp := Int64.toInt_inj.1 hexp
  rw [h1, h2, h3]

end F128

namespace BinomialF128

open F128 (Rounds)

variable {expected total : ℕ} {money : UInt64} {k a : ℕ} {d : BinomialF128}

/-- The term at index `k` of the recurrence, continued past the flag. -/
def term (d : BinomialF128) (k : ℕ) : BinomialF128 := advance^[k] d

theorem term_succ (d : BinomialF128) (k : ℕ) : d.term (k + 1) = (d.term k).advance := Function.iterate_succ_apply' _ _ _

theorem advance_frozen (d : BinomialF128) :
    d.advance.frozen = true ↔
      d.frozen = true ∨ d.advance.cum.cmp d.cum = .eq ∧ d.advance.pmf.cmp d.pmf = .lt := by
  unfold advance
  rw [Bool.or_eq_true, decide_eq_true_eq]

section Run

variable (hlt : expected < total) (htotal : total < 2 ^ 64) (hmoney : money.toNat < 2 ^ 56)
  (hd : d.Tracks expected total money 0)
include hlt htotal hmoney hd

/-- Every term of the recurrence is on the exact distribution. -/
theorem term_tracks (hk : k ≤ money.toNat) : (d.term k).Tracks expected total money k := by
  induction k with
  | zero => exact hd
  | succ k ih =>
    rw [term_succ]
    exact (advance_spec hlt htotal hmoney hk (ih (Nat.le_of_succ_le hk))).1

end Run

/-- The term at index `k + 1` no longer moves the sum, and the factor that led to it is below one. -/
structure Settled (money : UInt64) (k : ℕ) (d : BinomialF128) : Prop where
  factor : ∃ f g, Rounds (((money.toNat - k : ℕ) : ℚ) / (k + 1 : ℕ)) f ∧ Rounds (f.val * d.pq.val) g ∧ g.val < 1
  sum : Rounds (d.cum.val + d.pmf.val) d.cum

/-- The number of trials left over the index shrinks. -/
theorem ratio_antitone (m k : ℕ) :
    ((m - (k + 1) : ℕ) : ℚ) / (k + 1 + 1 : ℕ) ≤ ((m - k : ℕ) : ℚ) / (k + 1 : ℕ) := by
  have hnum : ((m - (k + 1) : ℕ) : ℚ) ≤ (m - k : ℕ) := by
    have : m - (k + 1) ≤ m - k := by omega
    exact_mod_cast this
  have hden : ((k + 1 : ℕ) : ℚ) ≤ (k + 1 + 1 : ℕ) := by exact_mod_cast Nat.le_succ _
  exact div_le_div₀ (Nat.cast_nonneg _) hnum (by exact_mod_cast Nat.succ_pos k) hden

/-- **The flag is set at a settled term.** -/
theorem advance_settled (hlt : expected < total) (htotal : total < 2 ^ 64) (hmoney : money.toNat < 2 ^ 56)
    (hk : k < money.toNat) (h : d.Tracks expected total money k) (hfrozen : d.frozen = false)
    (hnow : d.advance.frozen = true) : d.advance.Settled money k := by
  obtain ⟨ht, hpq, f, g, hf, hg, hp, hs⟩ := advance_spec hlt htotal hmoney hk h
  obtain ⟨hcum, hpmf⟩ := ((advance_frozen d).1 hnow).resolve_left (by rw [hfrozen]; exact Bool.false_ne_true)
  rw [F128.cmp_eq ht.sum_formed h.sum_formed, compare_eq_iff_eq] at hcum
  rw [F128.cmp_eq ht.term_formed h.term_formed, compare_lt_iff_lt] at hpmf
  refine ⟨⟨f, g, hf, by rw [hpq]; exact hg, ?_⟩, ?_⟩
  · -- a factor of at least one would not have shrunk the term
    by_contra hge
    rw [not_lt] at hge
    have hmono := h.term_formed.rounds.mono hp (le_mul_of_one_le_left (F128.val_nonneg _) hge)
    exact absurd hpmf (not_lt.2 hmono)
  · rw [← hcum] at hs
    exact hs

/-- **Past a settled term** the sum stands still. -/
theorem Settled.advance (hlt : expected < total) (htotal : total < 2 ^ 64) (hmoney : money.toNat < 2 ^ 56)
    (hk : k + 1 < money.toNat) (h : d.Tracks expected total money (k + 1)) (hset : d.Settled money k) :
    d.advance.Settled money (k + 1) ∧ d.advance.cum.val = d.cum.val := by
  obtain ⟨ht, hpq, f, g, hf, hg, hp, hs⟩ := advance_spec hlt htotal hmoney hk h
  obtain ⟨⟨f₀, g₀, hf₀, hg₀, hlt₀⟩, hsum⟩ := hset
  have hff : f.val ≤ f₀.val := hf.mono hf₀ (ratio_antitone money.toNat k)
  have hgg : g.val ≤ g₀.val := hg.mono hg₀ (mul_le_mul_of_nonneg_right hff (F128.val_nonneg _))
  have hg1 : g.val < 1 := lt_of_le_of_lt hgg hlt₀
  have hterm : d.advance.pmf.val ≤ d.pmf.val :=
    hp.mono h.term_formed.rounds (mul_le_of_le_one_left (F128.val_nonneg _) hg1.le)
  have hle : d.advance.cum.val ≤ d.cum.val := hs.mono hsum (add_le_add_right hterm _)
  have hge : d.cum.val ≤ d.advance.cum.val :=
    h.sum_formed.rounds.mono hs (le_add_of_nonneg_right (F128.val_nonneg _))
  have heq := le_antisymm hle hge
  refine ⟨⟨⟨f, g, hf, by rw [hpq]; exact hg, hg1⟩, ?_⟩, heq⟩
  rw [← heq] at hs
  exact hs

section Run

variable (hlt : expected < total) (htotal : total < 2 ^ 64) (hmoney : money.toNat < 2 ^ 56)
  (hd : d.Tracks expected total money 0) (hfresh : d.frozen = false)
include hlt htotal hmoney hd hfresh

/-- A frozen term is settled. -/
theorem frozen_settled (hk : k ≤ money.toNat) (hf : (d.term k).frozen = true) :
    ∃ i, k = i + 1 ∧ (d.term k).Settled money i := by
  induction k with
  | zero =>
    have : d.frozen = true := hf
    rw [hfresh] at this
    cases this
  | succ k ih =>
    rw [term_succ] at hf ⊢
    have htr := term_tracks hlt htotal hmoney hd (Nat.le_of_succ_le hk)
    refine ⟨k, rfl, ?_⟩
    cases hprev : (d.term k).frozen with
    | false => exact advance_settled hlt htotal hmoney hk htr hprev hf
    | true =>
      obtain ⟨i, rfl, hset⟩ := ih (Nat.le_of_succ_le hk) hprev
      exact (hset.advance hlt htotal hmoney hk htr).1

/-- **A frozen sum never changes again**, though the recurrence is continued. -/
theorem frozen_cum (hak : a ≤ k) (hk : k ≤ money.toNat) (hf : (d.term a).frozen = true) :
    (d.term k).cum = (d.term a).cum ∧ (d.term k).frozen = true := by
  induction k, hak using Nat.le_induction with
  | base => exact ⟨rfl, hf⟩
  | succ k hak ih =>
    obtain ⟨hcum, hstill⟩ := ih (Nat.le_of_succ_le hk)
    obtain ⟨i, rfl, hset⟩ := frozen_settled hlt htotal hmoney hd hfresh (Nat.le_of_succ_le hk) hstill
    have htr := term_tracks hlt htotal hmoney hd (Nat.le_of_succ_le hk)
    have htr' := term_tracks hlt htotal hmoney hd hk
    have hval := (hset.advance hlt htotal hmoney hk htr).2
    rw [← term_succ] at hval
    have hne : (d.term (i + 1)).cum.val ≠ 0 := by
      intro h0
      have := htr.sum_ge
      rw [h0, mul_zero] at this
      exact absurd this (by norm_num)
    refine ⟨(F128.eq_of_val_eq htr.sum_formed htr'.sum_formed hne hval.symm).symm.trans hcum, ?_⟩
    rw [term_succ]
    exact (advance_frozen _).2 (.inl hstill)

/-- The loop of `cdf`, which stops at the flag, finds the sum of the continued recurrence. -/
theorem cdfLoop_cum : ∀ (n j : ℕ), j + n ≤ money.toNat → (cdfLoop n (d.term j)).cum = (d.term (j + n)).cum
  | 0, _, _ => rfl
  | n + 1, j, hj => by
    unfold cdfLoop
    cases hf : (d.term j).frozen with
    | true =>
      rw [if_pos rfl]
      exact (frozen_cum hlt htotal hmoney hd hfresh (Nat.le_add_right j _) hj hf).1.symm
    | false =>
      rw [if_neg Bool.false_ne_true, ← term_succ, cdfLoop_cum n (j + 1) (by omega), Nat.add_right_comm j 1 n]
      rfl

theorem cdf_cum (hk : k ≤ money.toNat) : (d.cdf k).cum = (d.term k).cum := by
  have := cdfLoop_cum hlt htotal hmoney hd hfresh k 0 (by omega)
  rw [Nat.zero_add] at this
  unfold cdf
  rw [hd.index]
  exact this

end Run
end BinomialF128

/-! ## The walk -/

open BinomialF128 (term)

variable {ratio ratio' : F128} {money : UInt64} {d : BinomialF128} {n j k : ℕ}

/-- The least index below `n` with a property. -/
def firstIndex (n : ℕ) (p : ℕ → Bool) : Option ℕ := (List.range n).find? p

/-- The ratio does not pass the boundary at `j`. -/
def reaches (ratio : F128) (d : BinomialF128) (j : ℕ) : Bool := decide (ratio.cmp (d.term j).cum ≠ .gt)

/-- What the walk decides: the first boundary that the ratio does not pass, else the first frozen index, else all of the
money. -/
def inverseCdf (ratio : F128) (d : BinomialF128) (n : ℕ) : ℕ :=
  (firstIndex n (reaches ratio d)).getD ((firstIndex n fun j => (d.term j).frozen).getD n)

theorem range_find?_succ (p : ℕ → Bool) (j n : ℕ) :
    (List.range' j (n + 1)).find? p = if p j then some j else (List.range' (j + 1) n).find? p := by
  rw [List.range'_succ, List.find?_cons]
  cases p j <;> rfl

/-- **The walk stops at the first index that is reached or frozen.** -/
theorem walkFrom_eq : ∀ (n j : ℕ) {e : BinomialF128}, e.cdf j = d.term j → (∀ i, (d.term i).at_ = i) →
    walkFrom ratio n j e =
      ((List.range' j n).find? fun i => reaches ratio d i || (d.term i).frozen).getD (j + n)
  | 0, j, _, _, _ => rfl
  | n + 1, j, e, he, hat => by
    unfold walkFrom
    rw [he, range_find?_succ]
    dsimp only
    by_cases hr : ratio.cmp (d.term j).cum ≠ .gt
    · have hreach : reaches ratio d j = true := decide_eq_true hr
      rw [if_pos hr, hreach, Bool.true_or, if_pos rfl]
      rfl
    · have hreach : reaches ratio d j = false := decide_eq_false hr
      rw [if_neg hr, hreach, Bool.false_or]
      cases hf : (d.term j).frozen with
      | true =>
        rw [if_pos rfl, if_pos rfl]
        rfl
      | false =>
        rw [if_neg Bool.false_ne_true, if_neg Bool.false_ne_true]
        have hstep : (d.term j).cdf (j + 1) = d.term (j + 1) := by
          unfold BinomialF128.cdf
          rw [hat, Nat.add_sub_cancel_left, BinomialF128.term_succ]
          unfold BinomialF128.cdfLoop
          rw [if_neg (by rw [hf]; exact Bool.false_ne_true)]
          rfl
        rw [walkFrom_eq n (j + 1) hstep hat, Nat.add_right_comm j 1 n]
        rfl

theorem term_at (h : d.at_ = 0) (k : ℕ) : (d.term k).at_ = k := by
  induction k with
  | zero => exact h
  | succ k ih => rw [BinomialF128.term_succ, BinomialF128.advance_at, ih]

/-- The whole walk. -/
theorem walk_eq (h : d.at_ = 0) : walkFrom ratio n 0 d =
    (firstIndex n fun i => reaches ratio d i || (d.term i).frozen).getD n := by
  have hcdf : d.cdf 0 = d.term 0 := by
    unfold BinomialF128.cdf
    rw [Nat.zero_sub]
    rfl
  have hwalk : walkFrom ratio n 0 d = _ := walkFrom_eq n 0 hcdf (term_at h)
  rw [Nat.zero_add, ← List.range_eq_range'] at hwalk
  exact hwalk

theorem firstIndex_le (p : ℕ → Bool) : (firstIndex n p).getD n ≤ n := by
  rcases h : firstIndex n p with _ | i
  · exact le_rfl
  · have := (List.find?_range_eq_some.1 h).2.1
    exact (List.mem_range.1 this).le

/-- A property that holds more often is found earlier. -/
theorem firstIndex_anti {p q : ℕ → Bool} (h : ∀ i < n, q i = true → p i = true) :
    (firstIndex n p).getD n ≤ (firstIndex n q).getD n := by
  rcases hq : firstIndex n q with _ | i
  · exact firstIndex_le p
  · obtain ⟨hi, hmem, -⟩ := List.find?_range_eq_some.1 hq
    rcases hp : firstIndex n p with _ | i'
    · have := List.find?_range_eq_none.1 hp i (List.mem_range.1 hmem)
      rw [h i (List.mem_range.1 hmem) hi] at this
      cases this
    · obtain ⟨-, -, hmin⟩ := List.find?_range_eq_some.1 hp
      by_contra hlt
      have := hmin i (not_le.1 hlt)
      rw [h i (List.mem_range.1 hmem) hi] at this
      cases this

/-- **The early exit changes nothing**: as long as a frozen boundary is the last one, the first index that is reached or
frozen is what the inverse of the distribution gives. -/
theorem first_eq_inverseCdf (hfrozen : ∀ a k, a ≤ k → k ≤ n → (d.term a).frozen = true → (d.term k).cum = (d.term a).cum) :
    (firstIndex n fun i => reaches ratio d i || (d.term i).frozen).getD n = inverseCdf ratio d n := by
  unfold inverseCdf
  rcases hr : firstIndex n (reaches ratio d) with _ | j
  · -- no boundary is reached, and the walk looks for the flag alone
    have hnone := List.find?_range_eq_none.1 hr
    have hsame : (firstIndex n fun i => reaches ratio d i || (d.term i).frozen) =
        firstIndex n fun i => (d.term i).frozen := by
      unfold firstIndex
      apply List.find?_congr
      intro i hi
      have := hnone i (List.mem_range.1 hi)
      rw [Bool.not_eq_eq_eq_not, Bool.not_true] at this
      rw [this, Bool.false_or]
    rw [hsame]
    rfl
  · obtain ⟨hj, hmem, hmin⟩ := List.find?_range_eq_some.1 hr
    have hfirst : (firstIndex n fun i => reaches ratio d i || (d.term i).frozen) = some j := by
      refine List.find?_range_eq_some.2 ⟨by rw [hj, Bool.true_or], hmem, fun i hi => ?_⟩
      have hnot := hmin i hi
      rw [Bool.not_eq_eq_eq_not, Bool.not_true] at hnot
      rw [hnot, Bool.false_or]
      -- an earlier frozen boundary would have been reached too
      cases hf : (d.term i).frozen with
      | false => rfl
      | true =>
        have hcum := hfrozen i j hi.le (List.mem_range.1 hmem).le hf
        unfold reaches at hj hnot
        rw [hcum, hnot] at hj
        cases hj
    rw [hfirst]
    rfl

/-! ## Sortition -/

theorem reaches_anti (hd : (d.term j).cum.WellFormed) (hr : ratio.WellFormed) (hr' : ratio'.WellFormed)
    (hle : ratio.val ≤ ratio'.val) (h : reaches ratio' d j = true) : reaches ratio d j = true := by
  unfold reaches at h ⊢
  rw [decide_eq_true_eq, F128.cmp_eq hr' hd, Ne, compare_gt_iff_gt, not_lt] at h
  rw [decide_eq_true_eq, F128.cmp_eq hr hd, Ne, compare_gt_iff_gt, not_lt]
  exact hle.trans h

/-- A larger digest has a larger ratio. -/
theorem digestRatio_mono {v w : Bytes32} (h : v.toNat ≤ w.toNat) :
    (f128FromDigestRatio v).val ≤ (f128FromDigestRatio w).val := by
  refine (F128.digestRatio_rounds v).mono (F128.digestRatio_rounds w) ?_
  have hle : (v.toNat : ℚ) ≤ w.toNat := by exact_mod_cast h
  exact div_le_div_of_nonneg_right hle (Nat.cast_nonneg _)

/-- **Sortition is monotone and its early exit is sound.**  The result is at most the money and does not shrink as the
digest grows; a frozen sum stays what it is however far the recurrence goes on, and the walk returns the first boundary
that the ratio does not pass, else the first frozen index, else all of the money. -/
theorem select_sound (money total expected : UInt64) (hmoney : money.toNat < 2 ^ 56) :
    (∀ digest, selectF128 money total expected digest ≤ money.toNat) ∧
      (∀ v w : Bytes32, v.toNat ≤ w.toNat →
        selectF128 money total expected v ≤ selectF128 money total expected w) ∧
      (expected < total → ∃ d, BinomialF128.new expected total money = some d ∧
        (∀ k ≤ money.toNat, (d.cdf k).cum = (d.term k).cum) ∧
        (∀ a k, a ≤ k → k ≤ money.toNat → (d.term a).frozen = true → (d.term k).cum = (d.term a).cum) ∧
        ∀ digest, selectF128 money total expected digest =
          inverseCdf (f128FromDigestRatio digest) d money.toNat) := by
  by_cases hlt : expected < total
  · rw [UInt64.lt_iff_toNat_lt] at hlt
    obtain ⟨d, hnew, htr, hfresh⟩ := BinomialF128.new_tracks hlt hmoney
    have hselect (digest : Bytes32) : selectF128 money total expected digest =
        (firstIndex money.toNat fun i =>
          reaches (f128FromDigestRatio digest) d i || (d.term i).frozen).getD money.toNat := by
      unfold selectF128 binomialCdfWalkF128
      rw [hnew]
      exact walk_eq htr.index
    have hfrozen (a k : ℕ) (hak : a ≤ k) (hk : k ≤ money.toNat) (hf : (d.term a).frozen = true) :
        (d.term k).cum = (d.term a).cum :=
      (BinomialF128.frozen_cum hlt total.toNat_lt hmoney htr hfresh hak hk hf).1
    refine ⟨fun digest => ?_, fun v w hvw => ?_, fun _ => ⟨d, hnew, fun k hk => ?_, hfrozen,
      fun digest => ?_⟩⟩
    · rw [hselect]
      exact firstIndex_le _
    · rw [hselect, hselect]
      refine firstIndex_anti fun i hi h => ?_
      rw [Bool.or_eq_true] at h ⊢
      have hsum := (BinomialF128.term_tracks hlt total.toNat_lt hmoney htr hi.le).sum_formed
      exact h.imp_left (reaches_anti hsum (F128.digestRatio_rounds v).wellFormed
        (F128.digestRatio_rounds w).wellFormed (digestRatio_mono hvw))
    · exact BinomialF128.cdf_cum hlt total.toNat_lt hmoney htr hfresh hk
    · rw [hselect]
      exact first_eq_inverseCdf hfrozen
  · have hnone : BinomialF128.new expected total money = none := if_pos (UInt64.not_lt.1 hlt)
    have hselect (digest : Bytes32) : selectF128 money total expected digest =
        if (f128FromDigestRatio digest).isZero then 0 else money.toNat := by
      unfold selectF128 binomialCdfWalkF128
      rw [hnone]
    refine ⟨fun digest => ?_, fun v w hvw => ?_, fun h => absurd h hlt⟩
    · rw [hselect]
      split <;> omega
    · rw [hselect, hselect]
      cases hv : (f128FromDigestRatio v).isZero with
      | true => exact Nat.zero_le _
      | false =>
        cases hw : (f128FromDigestRatio w).isZero with
        | false => exact le_rfl
        | true =>
          -- the larger ratio is not zero either
          have hle := digestRatio_mono hvw
          rw [F128.val_eq_zero_iff.2 hw] at hle
          rw [F128.val_eq_zero_iff.1 (le_antisymm hle (F128.val_nonneg _))] at hv
          cases hv

theorem select_sound_hundred :
    (100 : UInt64).toNat < 2 ^ 56 ∧ selectF128 100 1000 20 0 ≤ selectF128 100 1000 20 1 :=
  ⟨by decide, (select_sound 100 1000 20 (by decide)).2.1 0 1 (by decide)⟩

end Crypto
end Algod
