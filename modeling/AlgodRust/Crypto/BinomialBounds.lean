import AlgodRust.Crypto.F128Correct
import Mathlib.Data.Nat.Choose.Sum
/-!
# BinomialBounds — the terms of the binomial walk stay in range

Every rounding changes a value by less than a factor of two, so a term of the walk is within a known power of two of
the exact probability.  For fewer than `2 ^ 56` units of money no exponent leaves an `i64`, and every operation of the
walk is rounded correctly.
-/
namespace Algod
namespace Crypto
namespace F128

variable {a b : F128} {x y z u v : ℚ} {c d n : ℕ}

/-! ## Rounded values -/

theorem Rounds.mono (ha : Rounds x a) (hb : Rounds y b) (hxy : x ≤ y) : a.val ≤ b.val :=
  Rounding.Nearest.mono (by omega) ha hb hxy

/-- `y` is within a factor of `2 ^ c` of `x`. -/
def Within (c : ℕ) (x y : ℚ) : Prop := x ≤ 2 ^ c * y ∧ y ≤ 2 ^ c * x

theorem within_refl (x : ℚ) : Within 0 x x := by simp [Within]

theorem Within.trans (h : Within c x y) (h' : Within d y z) : Within (c + d) x z := by
  have hc : (0 : ℚ) ≤ 2 ^ c := by positivity
  have hd : (0 : ℚ) ≤ 2 ^ d := by positivity
  constructor
  · calc x ≤ 2 ^ c * y := h.1
      _ ≤ 2 ^ c * (2 ^ d * z) := mul_le_mul_of_nonneg_left h'.1 hc
      _ = 2 ^ (c + d) * z := by rw [pow_add]; ring
  · calc z ≤ 2 ^ d * y := h'.2
      _ ≤ 2 ^ d * (2 ^ c * x) := mul_le_mul_of_nonneg_left h.2 hd
      _ = 2 ^ (c + d) * x := by rw [pow_add]; ring

theorem Within.mul (h : Within c x y) (h' : Within d u v) (hx : 0 ≤ x) (hy : 0 ≤ y) (hu : 0 ≤ u) (hv : 0 ≤ v) :
    Within (c + d) (x * u) (y * v) := by
  constructor
  · calc x * u ≤ 2 ^ c * y * (2 ^ d * v) := mul_le_mul h.1 h'.1 hu (by positivity)
      _ = 2 ^ (c + d) * (y * v) := by rw [pow_add]; ring
  · calc y * v ≤ 2 ^ c * x * (2 ^ d * u) := mul_le_mul h.2 h'.2 hv (by positivity)
      _ = 2 ^ (c + d) * (x * u) := by rw [pow_add]; ring

theorem Rounds.within (h : Rounds x a) (hx : 0 ≤ x) : Within 1 x a.val := by
  obtain ⟨h1, h2⟩ := Rounding.Nearest.within_two (by omega) h hx
  exact ⟨by rw [pow_one]; exact h1, by rw [pow_one]; exact h2⟩

/-- Zero, or between `2 ^ -n` and `2 ^ n`. -/
def Ranged (n : ℕ) (x : ℚ) : Prop := x = 0 ∨ 1 ≤ 2 ^ n * x ∧ x ≤ 2 ^ n

theorem Ranged.nonneg (h : Ranged n x) : 0 ≤ x := by
  rcases h with rfl | ⟨h, -⟩
  · exact le_rfl
  · have : (0 : ℚ) < 2 ^ n := by positivity
    by_contra hneg
    nlinarith

theorem Within.ranged (h : Within c x y) (hx : Ranged n x) (hy : 0 ≤ y) : Ranged (n + c) y := by
  rcases hx with rfl | ⟨hlo, hhi⟩
  · left
    have := h.2
    rw [mul_zero] at this
    exact le_antisymm this hy
  · right
    have hn : (0 : ℚ) ≤ 2 ^ n := by positivity
    have hc : (0 : ℚ) ≤ 2 ^ c := by positivity
    constructor
    · calc (1 : ℚ) ≤ 2 ^ n * x := hlo
        _ ≤ 2 ^ n * (2 ^ c * y) := mul_le_mul_of_nonneg_left h.1 hn
        _ = 2 ^ (n + c) * y := by rw [pow_add]; ring
    · calc y ≤ 2 ^ c * x := h.2
        _ ≤ 2 ^ c * 2 ^ n := mul_le_mul_of_nonneg_left hhi hc
        _ = 2 ^ (n + c) := by rw [pow_add]; ring

/-- A value in range has an exponent that is an `i64`. -/
theorem Ranged.fits (h : Ranged n x) (hn : n < 2 ^ 63 - 128) : ExponentFits x := by
  rcases h with rfl | ⟨hlo, hhi⟩
  · exact .inl rfl
  · have hpos : (0 : ℚ) < 2 ^ n := by positivity
    apply exponentFits_of_bounds (k := -(n : ℤ)) (l := n)
    · rw [zpow_neg, zpow_natCast, inv_le_iff_one_le_mul₀ hpos, mul_comm]
      exact hlo
    · rw [zpow_natCast]
      exact hhi
    · omega
    · omega

/-- The exponent of a value between powers of two. -/
theorem exponent_of_bounds {l : ℕ} (ha : a.WellFormed) (hlo : 1 ≤ 2 ^ n * a.val) (hhi : a.val ≤ 2 ^ l) :
    -(n : ℤ) - 128 < a.exp.toInt ∧ a.exp.toInt ≤ l - 127 := by
  have hpos : (0 : ℚ) < 2 ^ n := by positivity
  have := Rounding.Nearest.exponent_bounds (k := -(n : ℤ)) (l := l) (by omega) ha.rounds
    (by rw [zpow_neg, zpow_natCast, inv_le_iff_one_le_mul₀ hpos, mul_comm]; exact hlo)
    (by rw [zpow_natCast]; exact hhi)
  omega

theorem Ranged.mul {m : ℕ} (hx : Ranged n x) (hy : Ranged m y) : Ranged (n + m) (x * y) := by
  rcases hx with rfl | ⟨hx1, hx2⟩
  · left
    rw [zero_mul]
  rcases hy with rfl | ⟨hy1, hy2⟩
  · left
    rw [mul_zero]
  right
  have hy0 : 0 ≤ y := Ranged.nonneg (n := m) (.inr ⟨hy1, hy2⟩)
  constructor
  · calc (1 : ℚ) = 1 * 1 := (one_mul 1).symm
      _ ≤ 2 ^ n * x * (2 ^ m * y) := mul_le_mul hx1 hy1 zero_le_one (zero_le_one.trans hx1)
      _ = 2 ^ (n + m) * (x * y) := by rw [pow_add]; ring
  · calc x * y ≤ 2 ^ n * 2 ^ m := mul_le_mul hx2 hy2 hy0 (by positivity)
      _ = 2 ^ (n + m) := (pow_add 2 n m).symm

/-- A quotient of two numbers that are not zero. -/
theorem ranged_div {p q : ℕ} (hp : p ≤ 2 ^ n) (hq0 : 0 < q) (hq : q ≤ 2 ^ n) : Ranged n ((p : ℚ) / q) := by
  rcases Nat.eq_zero_or_pos p with rfl | hp0
  · left
    rw [Nat.cast_zero, zero_div]
  · right
    have hq' : (0 : ℚ) < q := by exact_mod_cast hq0
    have hp1 : (1 : ℚ) ≤ p := by exact_mod_cast hp0
    have hq1 : (1 : ℚ) ≤ q := by exact_mod_cast hq0
    have hpn : (p : ℚ) ≤ 2 ^ n := by exact_mod_cast hp
    have hqn : (q : ℚ) ≤ 2 ^ n := by exact_mod_cast hq
    constructor
    · rw [← mul_div_assoc, one_le_div hq']
      calc (q : ℚ) ≤ 2 ^ n := hqn
        _ ≤ 2 ^ n * p := le_mul_of_one_le_right (by positivity) hp1
    · rw [div_le_iff₀ hq']
      calc (p : ℚ) ≤ 2 ^ n := hpn
        _ ≤ 2 ^ n * q := le_mul_of_one_le_right (by positivity) hq1

/-! ## Powers -/

/-- A product of two values that are within bounds of exact ones. -/
theorem mul_within (ha : a.WellFormed) (hb : b.WellFormed) (hx : Within c x a.val) (hy : Within d y b.val)
    (hxy : Ranged n (x * y)) (hx0 : 0 ≤ x) (hy0 : 0 ≤ y) (hfit : n + (c + d) < 2 ^ 63 - 128) :
    Rounds (a.val * b.val) (a.mul b) ∧ Within (c + d + 1) (x * y) (a.mul b).val := by
  have hnonneg := mul_nonneg (val_nonneg a) (val_nonneg b)
  have hw := hx.mul hy hx0 (val_nonneg a) hy0 (val_nonneg b)
  have hr := mul_rounds ha hb ((hw.ranged hxy hnonneg).fits hfit)
  exact ⟨hr, hw.trans (hr.within hnonneg)⟩

theorem within_one : Within 0 1 (fromU64 1).val := by
  rw [(fromU64_val 1).1]
  exact within_refl 1

theorem ranged_of_le_one {N : ℕ} (hle : x ≤ 1) (h : 1 ≤ 2 ^ N * y) (hyx : y ≤ x) : Ranged N x := by
  right
  have hpos : (0 : ℚ) ≤ 2 ^ N := by positivity
  exact ⟨h.trans (mul_le_mul_of_nonneg_left hyx hpos), hle.trans (one_le_pow₀ one_le_two)⟩

theorem intPowLoop_zero (k : ℕ) (result b : F128) : intPowLoop k result b 0 = result := by
  cases k with
  | zero => rfl
  | succ k => exact if_pos rfl

/-- **Exponentiation by squaring** loses a factor of two at each multiplication: `(s + 1) * e` of them in all. -/
theorem intPowLoop_within {N B : ℕ} (hfit : N + B < 2 ^ 63 - 128) : ∀ (k : ℕ) {r s e : ℕ} {result b : F128} {ρ β : ℚ},
    e < 2 ^ k → result.WellFormed → b.WellFormed → Within r ρ result.val → Within s β b.val →
    0 < ρ → ρ ≤ 1 → 0 < β → β ≤ 1 → r + (s + 1) * e ≤ B → 1 ≤ 2 ^ N * (ρ * β ^ e) →
    (intPowLoop k result b e).WellFormed ∧ Within (r + (s + 1) * e) (ρ * β ^ e) (intPowLoop k result b e).val
  | 0, r, s, e, result, b, ρ, β, he, hwr, _, hr, _, _, _, _, _, _, _ => by
    have he0 : e = 0 := by
      rw [pow_zero] at he
      omega
    subst he0
    rw [Nat.mul_zero, Nat.add_zero, pow_zero, mul_one]
    exact ⟨hwr, hr⟩
  | k + 1, r, s, e, result, b, ρ, β, he, hwr, hwb, hr, hs, hρ, hρ1, hβ, hβ1, hB, hN => by
    unfold intPowLoop
    by_cases he0 : e = 0
    · subst he0
      rw [if_pos rfl, Nat.mul_zero, Nat.add_zero, pow_zero, mul_one]
      exact ⟨hwr, hr⟩
    rw [if_neg he0]
    dsimp only
    have hpowe : β ^ e ≤ β := by
      calc β ^ e ≤ β ^ 1 := pow_le_pow_of_le_one hβ.le hβ1 (by omega)
        _ = β := pow_one β
    have hse : s + 1 ≤ (s + 1) * e := Nat.le_mul_of_pos_right _ (by omega)
    -- the result takes the base in at an odd exponent
    obtain ⟨r', ρ', hwr', hr', hρ', hρ1', hr'B, hρ'eq⟩ : ∃ (r' : ℕ) (ρ' : ℚ),
        (if e % 2 = 1 then result.mul b else result).WellFormed ∧
        Within r' ρ' (if e % 2 = 1 then result.mul b else result).val ∧ 0 < ρ' ∧ ρ' ≤ 1 ∧
        r' = r + (s + 1) * (e % 2) ∧ ρ' = ρ * β ^ (e % 2) := by
      rcases Nat.mod_two_eq_zero_or_one e with hodd | hodd
      · rw [hodd, if_neg (by omega)]
        exact ⟨r, ρ, hwr, hr, hρ, hρ1, by omega, by rw [pow_zero, mul_one]⟩
      · rw [hodd, if_pos rfl]
        have hprod : ρ * β ≤ 1 := mul_le_one₀ hρ1 hβ.le hβ1
        have hranged : Ranged N (ρ * β) := ranged_of_le_one hprod hN (mul_le_mul_of_nonneg_left hpowe hρ.le)
        obtain ⟨hrounds, hwithin⟩ := mul_within hwr hwb hr hs hranged hρ.le hβ.le (by omega)
        exact ⟨r + s + 1, ρ * β, hrounds.wellFormed, hwithin, mul_pos hρ hβ, hprod, by omega, by rw [pow_one]⟩
    have hsplit : e = 2 * (e / 2) + e % 2 := (Nat.div_add_mod e 2).symm
    by_cases hh : e / 2 = 0
    · rw [hh, if_neg (lt_irrefl 0), intPowLoop_zero]
      have heq : e % 2 = e := by omega
      rw [heq] at hr'B hρ'eq
      rw [hr'B, hρ'eq] at hr'
      exact ⟨hwr', hr'⟩
    rw [if_pos (Nat.pos_of_ne_zero hh)]
    -- the base is squared while there are bits left
    have hsq1 : β * β ≤ 1 := mul_le_one₀ hβ1 hβ.le hβ1
    have hsq : ρ * β ^ e ≤ β * β := by
      have hpow2 : β ^ e ≤ β ^ 2 := pow_le_pow_of_le_one hβ.le hβ1 (by omega)
      calc ρ * β ^ e ≤ 1 * β ^ e := mul_le_mul_of_nonneg_right hρ1 (by positivity)
        _ ≤ β * β := by rw [one_mul, ← pow_two]; exact hpow2
    have h2s : 2 * (s + 1) ≤ (s + 1) * e := by
      rw [Nat.mul_comm]
      exact Nat.mul_le_mul_left _ (by omega)
    obtain ⟨hrounds, hwithin⟩ :=
      mul_within hwb hwb hs hs (ranged_of_le_one hsq1 hN hsq) hβ.le hβ.le (by omega)
    have hexpand : (s + 1) * e = (s + s + 1 + 1) * (e / 2) + (s + 1) * (e % 2) := by
      have : (s + 1) * e = (s + 1) * (2 * (e / 2) + e % 2) := by rw [← hsplit]
      rw [this]
      ring
    have hval : ρ' * (β * β) ^ (e / 2) = ρ * β ^ e := by
      have : β ^ e = β ^ (2 * (e / 2) + e % 2) := by rw [← hsplit]
      rw [hρ'eq, this, pow_add, pow_mul, pow_two]
      ring
    have hrec := intPowLoop_within hfit k (e := e / 2) (by rw [pow_succ] at he; omega) hwr' hrounds.wellFormed hr'
      hwithin hρ' hρ1' (mul_pos hβ hβ) hsq1 (by omega) (by rw [hval]; exact hN)
    rw [hval] at hrec
    have hcount : r' + (s + s + 1 + 1) * (e / 2) = r + (s + 1) * e := by omega
    rw [hcount] at hrec
    exact hrec

/-- A quotient of two words. -/
theorem fromU64_div_rounds (u v : UInt64) (hv : v ≠ 0) :
    Rounds (u.toNat / v.toNat) ((fromU64 u).div (fromU64 v)) := by
  have hu' := fromU64_val u
  have hv' := fromU64_val v
  have hv0 : (fromU64 v).isZero = false := by
    rw [← Bool.not_eq_true, ← val_eq_zero_iff, hv'.1]
    exact_mod_cast ne_zero_iff.1 hv
  have hranged : Ranged 64 ((u.toNat : ℚ) / v.toNat) :=
    ranged_div u.toNat_lt.le (Nat.pos_of_ne_zero (ne_zero_iff.1 hv)) v.toNat_lt.le
  have := div_rounds hu'.2 hv'.2 hv0 (by rw [hu'.1, hv'.1]; exact hranged.fits (by omega))
  rw [hu'.1, hv'.1] at this
  exact this

/-- A power of a probability. -/
theorem intPow_within {q : F128} {ρ : ℚ} (hq : q.WellFormed) (hw : Within 1 ρ q.val) (hρ : 0 < ρ) (hρ1 : ρ ≤ 1)
    (hlow : 1 ≤ 2 ^ 64 * ρ) {e : UInt64} (he : e.toNat < 2 ^ 56) :
    (q.intPow e).WellFormed ∧ Within (2 * e.toNat) (ρ ^ e.toNat) (q.intPow e).val := by
  have hN : (1 : ℚ) ≤ 2 ^ (64 * e.toNat) * (1 * ρ ^ e.toNat) := by
    rw [one_mul, pow_mul, ← mul_pow]
    exact one_le_pow₀ hlow
  have h := intPowLoop_within (N := 64 * e.toNat) (B := 2 * e.toNat) (by omega) 64 (r := 0) (s := 1) e.toNat_lt
    (fromU64_val 1).2 hq within_one hw one_pos le_rfl hρ hρ1 (by omega) hN
  rw [one_mul, Nat.zero_add] at h
  exact h

end F128

/-! ## The exact distribution -/

/-- The probability of `k` successes in `m` trials, each with probability `p / t`. -/
def exactPmf (p t m k : ℕ) : ℚ := m.choose k * p ^ k * (t - p : ℕ) ^ (m - k) / t ^ m

section Exact

variable {p t m k : ℕ}

theorem exactPmf_zero : exactPmf p t m 0 = (((t - p : ℕ) : ℚ) / t) ^ m := by
  unfold exactPmf
  rw [Nat.choose_zero_right, Nat.cast_one, pow_zero, Nat.sub_zero, div_pow]
  ring

theorem exactPmf_succ (hpt : p < t) (hk : k < m) :
    exactPmf p t m (k + 1) = ((m - k : ℕ) : ℚ) / (k + 1 : ℕ) * (p / (t - p : ℕ)) * exactPmf p t m k := by
  have hchoose : ((m.choose (k + 1) : ℕ) : ℚ) * (k + 1 : ℕ) = m.choose k * (m - k : ℕ) := by
    exact_mod_cast Nat.choose_succ_right_eq m k
  have hpow : ((t - p : ℕ) : ℚ) ^ (m - k) = (t - p : ℕ) ^ (m - (k + 1)) * (t - p : ℕ) := by
    rw [← pow_succ]
    congr 1
    omega
  have hq : ((t - p : ℕ) : ℚ) ≠ 0 := by
    have : t - p ≠ 0 := by omega
    exact_mod_cast this
  have ht : (t : ℚ) ≠ 0 := by
    have : t ≠ 0 := by omega
    exact_mod_cast this
  have hk1 : ((k + 1 : ℕ) : ℚ) ≠ 0 := by exact_mod_cast Nat.succ_ne_zero k
  unfold exactPmf
  rw [hpow, pow_succ]
  field_simp
  linear_combination ((p : ℚ) * p ^ k) * hchoose

theorem exactPmf_le_one (hpt : p < t) (hk : k ≤ m) : exactPmf p t m k ≤ 1 := by
  have hterm : p ^ k * (t - p) ^ (m - k) * m.choose k ≤ t ^ m := by
    have hsum := add_pow p (t - p) m
    rw [Nat.add_sub_cancel' hpt.le] at hsum
    rw [hsum]
    exact Finset.single_le_sum (f := fun i => p ^ i * (t - p) ^ (m - i) * m.choose i) (fun _ _ => Nat.zero_le _)
      (Finset.mem_range.2 (Nat.lt_succ_of_le hk))
  have ht : (0 : ℚ) < t := by
    have : 0 < t := by omega
    exact_mod_cast this
  unfold exactPmf
  rw [div_le_one (by positivity)]
  calc (m.choose k : ℚ) * p ^ k * (t - p : ℕ) ^ (m - k) = ((p ^ k * (t - p) ^ (m - k) * m.choose k : ℕ) : ℚ) := by
        push_cast
        ring
    _ ≤ ((t ^ m : ℕ) : ℚ) := by exact_mod_cast hterm
    _ = t ^ m := by push_cast; rfl

theorem exactPmf_ranged (hpt : p < t) (ht : t < 2 ^ 64) (hk : k ≤ m) : F128.Ranged (64 * m) (exactPmf p t m k) := by
  have hle := exactPmf_le_one hpt hk
  have htpos : (0 : ℚ) < t := by
    have : 0 < t := by omega
    exact_mod_cast this
  rcases Nat.eq_zero_or_pos (m.choose k * p ^ k * (t - p) ^ (m - k)) with h0 | hpos
  · left
    unfold exactPmf
    have : ((m.choose k * p ^ k * (t - p) ^ (m - k) : ℕ) : ℚ) = 0 := by rw [h0, Nat.cast_zero]
    push_cast at this
    rw [this, zero_div]
  · right
    refine ⟨?_, hle.trans (one_le_pow₀ one_le_two)⟩
    have hnum : (1 : ℚ) ≤ m.choose k * p ^ k * (t - p : ℕ) ^ (m - k) := by exact_mod_cast hpos
    have hden : (t : ℚ) ^ m ≤ 2 ^ (64 * m) := by
      rw [pow_mul]
      exact pow_le_pow_left₀ htpos.le (by exact_mod_cast ht.le) m
    unfold exactPmf
    rw [← mul_div_assoc, one_le_div (by positivity)]
    calc (t : ℚ) ^ m ≤ 2 ^ (64 * m) := hden
      _ ≤ 2 ^ (64 * m) * (m.choose k * p ^ k * (t - p : ℕ) ^ (m - k)) := le_mul_of_one_le_right (by positivity) hnum

end Exact

/-! ## The terms of the walk -/

namespace BinomialF128

open F128 (Rounds Within Ranged fromU64)

/-- The factor of a step and the term and the sum at index `k`, against the exact distribution. -/
structure Tracks (expected total : ℕ) (money : UInt64) (k : ℕ) (d : BinomialF128) : Prop where
  money_eq : d.money = money
  index : d.at_ = k
  factor_formed : d.pq.WellFormed
  factor : Within 1 (expected / (total - expected : ℕ)) d.pq.val
  term_formed : d.pmf.WellFormed
  term : Within (2 * money.toNat + 4 * k) (exactPmf expected total money.toNat k) d.pmf.val
  sum_formed : d.cum.WellFormed
  sum_le : d.cum.val ≤ 2 ^ (6 * money.toNat + 2 * k)
  sum_ge : 1 ≤ 2 ^ (70 * money.toNat) * d.cum.val

variable {expected total : ℕ} {money : UInt64} {k : ℕ} {d : BinomialF128}

/-- The walk starts on the exact distribution. -/
theorem new_tracks {e t : UInt64} (hlt : e.toNat < t.toNat) (hmoney : money.toNat < 2 ^ 56) :
    ∃ d, new e t money = some d ∧ d.Tracks e.toNat t.toNat money 0 ∧ d.frozen = false := by
  have hsub : (t - e).toNat = t.toNat - e.toNat := UInt64.toNat_sub_of_le _ _ (UInt64.le_iff_toNat_le.2 hlt.le)
  have htpos : t ≠ 0 := ne_zero_iff.2 (by omega)
  have hspos : t - e ≠ 0 := ne_zero_iff.2 (by omega)
  have hqf := F128.fromU64_div_rounds (t - e) t htpos
  have hpq := F128.fromU64_div_rounds e (t - e) hspos
  rw [hsub] at hqf hpq
  have ht0 : (0 : ℚ) < t.toNat := by
    have : 0 < t.toNat := by omega
    exact_mod_cast this
  have hq0 : (1 : ℚ) ≤ (t.toNat - e.toNat : ℕ) := by
    have : 1 ≤ t.toNat - e.toNat := by omega
    exact_mod_cast this
  have hq1 : ((t.toNat - e.toNat : ℕ) : ℚ) / t.toNat ≤ 1 := by
    rw [div_le_one ht0]
    exact_mod_cast Nat.sub_le _ _
  have hqpos : (0 : ℚ) < ((t.toNat - e.toNat : ℕ) : ℚ) / t.toNat := div_pos (by linarith) ht0
  have hqlow : (1 : ℚ) ≤ 2 ^ 64 * (((t.toNat - e.toNat : ℕ) : ℚ) / t.toNat) := by
    rw [← mul_div_assoc, one_le_div ht0]
    have : (t.toNat : ℚ) ≤ 2 ^ 64 := by exact_mod_cast t.toNat_lt.le
    linarith
  obtain ⟨hformed, hwithin⟩ := F128.intPow_within hqf.wellFormed (hqf.within hqpos.le) hqpos hq1 hqlow hmoney
  have hranged := exactPmf_ranged hlt t.toNat_lt (Nat.zero_le money.toNat)
  rw [exactPmf_zero] at hranged
  have hpmf := hwithin.ranged hranged (F128.val_nonneg _)
  have hne : exactPmf e.toNat t.toNat money.toNat 0 ≠ 0 := by
    rw [exactPmf_zero]
    positivity
  refine ⟨_, if_neg (by rw [UInt64.le_iff_toNat_le]; omega), ⟨rfl, rfl, hpq.wellFormed, hpq.within (by positivity),
    hformed, ?_, hformed, ?_, ?_⟩, rfl⟩
  · rw [exactPmf_zero]
    exact hwithin
  · have hle := hwithin.2
    rw [← exactPmf_zero] at hle
    calc _ ≤ (2 : ℚ) ^ (2 * money.toNat) * exactPmf e.toNat t.toNat money.toNat 0 := hle
      _ ≤ 2 ^ (2 * money.toNat) * 1 :=
        mul_le_mul_of_nonneg_left (exactPmf_le_one hlt (Nat.zero_le _)) (by positivity)
      _ = 2 ^ (2 * money.toNat) := mul_one _
      _ ≤ 2 ^ (6 * money.toNat + 2 * 0) := pow_le_pow_right₀ one_le_two (by omega)
  · rcases hpmf with h0 | ⟨hge, -⟩
    · have hle := hwithin.1
      rw [h0, mul_zero, ← exactPmf_zero] at hle
      exact absurd (le_antisymm hle (by rw [exactPmf_zero]; exact (pow_pos hqpos _).le)) hne
    · calc (1 : ℚ) ≤ 2 ^ (64 * money.toNat + 2 * money.toNat) * _ := hge
        _ ≤ 2 ^ (70 * money.toNat) * _ :=
          mul_le_mul_of_nonneg_right (pow_le_pow_right₀ one_le_two (by omega)) (F128.val_nonneg _)

theorem advance_money (d : BinomialF128) : d.advance.money = d.money := by unfold advance; rfl

theorem advance_at (d : BinomialF128) : d.advance.at_ = d.at_ + 1 := by unfold advance; rfl

theorem advance_pq (d : BinomialF128) : d.advance.pq = d.pq := by unfold advance; rfl

theorem advance_cum (d : BinomialF128) : d.advance.cum = d.cum.add d.advance.pmf := by unfold advance; rfl

/-- The words of a step: the trials that are left and the index. -/
theorem step_words (hmoney : money.toNat < 2 ^ 56) (hk : k < money.toNat) :
    (UInt64.ofNat (k + 1)).toNat = k + 1 ∧ (money - UInt64.ofNat (k + 1) + 1).toNat = money.toNat - k := by
  have hidx : (UInt64.ofNat (k + 1)).toNat = k + 1 := by
    rw [UInt64.toNat_ofNat']
    omega
  have hone : (1 : UInt64).toNat = 1 := rfl
  have hsub : (money - UInt64.ofNat (k + 1)).toNat = money.toNat - (k + 1) := by
    rw [UInt64.toNat_sub_of_le _ _ (UInt64.le_iff_toNat_le.2 (by omega)), hidx]
  refine ⟨hidx, ?_⟩
  rw [UInt64.toNat_add, hsub, hone]
  omega

/-- A term of the walk is added to the sum. -/
theorem sum_step {pmf : F128} {x : ℚ} (h : d.Tracks expected total money k) (hk : k < money.toNat)
    (hp : pmf.WellFormed) (hpw : Within (1 + 1 + 1 + (2 * money.toNat + 4 * k) + 1) x pmf.val)
    (hx : Ranged (64 * money.toNat) x) (hx1 : x ≤ 1) (hmoney : money.toNat < 2 ^ 56) :
    Rounds (d.cum.val + pmf.val) (d.cum.add pmf) ∧
      (d.cum.add pmf).val ≤ 2 ^ (6 * money.toNat + 2 * (k + 1)) ∧
      1 ≤ 2 ^ (70 * money.toNat) * (d.cum.add pmf).val := by
  have hpnonneg := F128.val_nonneg pmf
  have hterm : pmf.val ≤ 2 ^ (6 * money.toNat + 2 * k) := by
    calc pmf.val ≤ 2 ^ (1 + 1 + 1 + (2 * money.toNat + 4 * k) + 1) * x := hpw.2
      _ ≤ 2 ^ (1 + 1 + 1 + (2 * money.toNat + 4 * k) + 1) * 1 := mul_le_mul_of_nonneg_left hx1 (by positivity)
      _ = 2 ^ (1 + 1 + 1 + (2 * money.toNat + 4 * k) + 1) := mul_one _
      _ ≤ 2 ^ (6 * money.toNat + 2 * k) := pow_le_pow_right₀ one_le_two (by omega)
  have hsum : d.cum.val + pmf.val ≤ 2 ^ (6 * money.toNat + 2 * k + 1) := by
    rw [pow_succ, mul_two]
    exact add_le_add h.sum_le hterm
  have hsumge : 1 ≤ 2 ^ (70 * money.toNat) * (d.cum.val + pmf.val) :=
    h.sum_ge.trans (mul_le_mul_of_nonneg_left (le_add_of_nonneg_right hpnonneg) (by positivity))
  have hranged : Ranged (70 * money.toNat) (d.cum.val + pmf.val) :=
    .inr ⟨hsumge, hsum.trans (pow_le_pow_right₀ one_le_two (by omega))⟩
  -- neither exponent is far from the other
  have hdist : d.cum.isZero = false → pmf.isZero = false → |d.cum.exp.toInt - pmf.exp.toInt| < 2 ^ 63 := by
    intro _ hz
    have hne : pmf.val ≠ 0 := by
      rw [Ne, F128.val_eq_zero_iff, hz]
      exact Bool.false_ne_true
    obtain ⟨hlow, -⟩ := (hpw.ranged hx hpnonneg).resolve_left hne
    have h1 := F128.exponent_of_bounds h.sum_formed h.sum_ge h.sum_le
    have h2 := F128.exponent_of_bounds hp hlow hterm
    rw [abs_lt]
    push_cast at h1 h2
    omega
  have hadd := F128.add_rounds h.sum_formed hp hdist (hranged.fits (by omega))
  refine ⟨hadd, ?_, ?_⟩
  · calc (d.cum.add pmf).val ≤ 2 ^ 1 * (d.cum.val + pmf.val) := (hadd.within hranged.nonneg).2
      _ ≤ 2 ^ 1 * 2 ^ (6 * money.toNat + 2 * k + 1) := mul_le_mul_of_nonneg_left hsum (by positivity)
      _ = 2 ^ (6 * money.toNat + 2 * (k + 1)) := by rw [← pow_add]; congr 1; omega
  · have hmono := h.sum_formed.rounds.mono hadd (le_add_of_nonneg_right hpnonneg)
    exact h.sum_ge.trans (mul_le_mul_of_nonneg_left hmono (by positivity))

/-- **One step of the recurrence**: three rounded products and a rounded sum, and the walk is still on the exact
distribution. -/
theorem advance_spec (hlt : expected < total) (htotal : total < 2 ^ 64) (hmoney : money.toNat < 2 ^ 56)
    (hk : k < money.toNat) (h : d.Tracks expected total money k) :
    d.advance.Tracks expected total money (k + 1) ∧ d.advance.pq = d.pq ∧
      ∃ f g, Rounds (((money.toNat - k : ℕ) : ℚ) / (k + 1 : ℕ)) f ∧ Rounds (f.val * d.pq.val) g ∧
        Rounds (g.val * d.pmf.val) d.advance.pmf ∧ Rounds (d.cum.val + d.advance.pmf.val) d.advance.cum := by
  obtain ⟨hidx, hrest⟩ := step_words hmoney hk
  have hnum := F128.fromU64_val (money - UInt64.ofNat (k + 1) + 1)
  rw [hrest] at hnum
  -- the number of trials left over the index
  have hratio : Ranged 56 (((money.toNat - k : ℕ) : ℚ) / (k + 1 : ℕ)) :=
    F128.ranged_div (by omega) (by omega) (by omega)
  have hf : Rounds (((money.toNat - k : ℕ) : ℚ) / (k + 1 : ℕ))
      ((fromU64 (money - UInt64.ofNat (k + 1) + 1)).divU (UInt64.ofNat (k + 1))) := by
    have hr := F128.divU_rounds hnum.2 (ne_zero_iff.2 (by omega) : UInt64.ofNat (k + 1) ≠ 0)
      (by rw [hnum.1, hidx]; exact hratio.fits (by omega))
    rw [hnum.1, hidx] at hr
    exact hr
  generalize hfdef : (fromU64 (money - UInt64.ofNat (k + 1) + 1)).divU (UInt64.ofNat (k + 1)) = f at hf
  -- the factor of the step
  have hpq : Ranged 64 ((expected : ℚ) / (total - expected : ℕ)) :=
    F128.ranged_div (by omega) (by omega) (by omega)
  obtain ⟨hg, hgw⟩ := F128.mul_within hf.wellFormed h.factor_formed (hf.within hratio.nonneg) h.factor
    (hratio.mul hpq) hratio.nonneg hpq.nonneg (by omega)
  -- the term
  have hprev := exactPmf_ranged hlt htotal hk.le (m := money.toNat)
  have hexact := exactPmf_ranged hlt htotal (Nat.succ_le_of_lt hk)
  rw [exactPmf_succ hlt hk] at hexact
  obtain ⟨hp, hpw⟩ := F128.mul_within hg.wellFormed h.term_formed hgw h.term hexact
    (mul_nonneg hratio.nonneg hpq.nonneg) hprev.nonneg (by omega)
  rw [← exactPmf_succ hlt hk] at hpw hexact
  have hpmf : d.advance.pmf = (f.mul d.pq).mul d.pmf := by
    rw [← hfdef]
    unfold advance
    rw [h.money_eq, h.index]
  rw [← hpmf] at hp hpw
  obtain ⟨hadd, hle, hge⟩ := sum_step h hk hp.wellFormed hpw hexact (exactPmf_le_one hlt (Nat.succ_le_of_lt hk)) hmoney
  rw [← advance_cum] at hadd hle hge
  have hexp : 2 * money.toNat + 4 * (k + 1) = 1 + 1 + 1 + (2 * money.toNat + 4 * k) + 1 := by omega
  refine ⟨⟨(advance_money d).trans h.money_eq, ?_, ?_, ?_, hp.wellFormed, ?_, hadd.wellFormed, hle, hge⟩,
    advance_pq d, f, _, hf, hg, hp, hadd⟩
  · rw [advance_at, h.index]
  · rw [advance_pq]
    exact h.factor_formed
  · rw [advance_pq]
    exact h.factor
  · rw [hexp]
    exact hpw

end BinomialF128
end Crypto
end Algod
