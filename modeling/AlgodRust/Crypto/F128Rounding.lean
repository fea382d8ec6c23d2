import AlgodRust.Crypto.F128Division
import AlgodRust.Lib.Rounding
import Mathlib.Tactic.FieldSimp
/-!
# F128Rounding — the float operations round to nearest, ties to even

The value of a float is a rational.  Every operation assembles a mantissa of 128 bits with two bits that describe what
is dropped below it (`Tail`); `roundNe` then gives the nearest value, with an exponent taken modulo `2 ^ 64`
(`Wraps`).  Where the exponent of the nearest value is an `i64`, that is the nearest value itself (`Rounds`).
-/
namespace Algod
namespace Crypto
namespace F128

open Rounding (Normal Nearest)

variable {a b : F128} {x : ℚ}

/-- The mantissa as a number. -/
def mant (a : F128) : Nat := wide a.hi a.lo

/-- The value of a float. -/
def val (a : F128) : ℚ := a.mant * 2 ^ a.exp.toInt

/-- The top bit of the mantissa is set, or the value is zero. -/
def WellFormed (a : F128) : Prop := a.isZero = true ∨ 2 ^ 63 ≤ a.hi.toNat

/-- A float is the normalized value nearest to `x`, ties to even. -/
def Rounds (x : ℚ) (a : F128) : Prop := Nearest 128 x a.mant a.exp.toInt

/-- The same up to a multiple of `2 ^ 64` in the exponent. -/
def Wraps (x : ℚ) (a : F128) : Prop := ∃ e : ℤ, Nearest 128 x a.mant e ∧ a.exp = Int64.ofInt e

/-- The exponent of the normalized value nearest to `x` is an `i64`. -/
def ExponentFits (x : ℚ) : Prop := x = 0 ∨ ∃ m e, Nearest 128 x m e ∧ -2 ^ 63 ≤ e ∧ e < 2 ^ 63

theorem isZero_iff : a.isZero = true ↔ a.mant = 0 := by
  unfold isZero mant wide
  rw [decide_eq_true_eq, ← UInt64.toNat_inj, ← UInt64.toNat_inj, UInt64.toNat_zero]
  omega

theorem normal_iff : Normal 128 a.mant ↔ 2 ^ 63 ≤ a.hi.toNat := by
  have := a.hi.toNat_lt
  have := a.lo.toNat_lt
  unfold Rounding.Normal mant wide
  omega

theorem wellFormed_iff : a.WellFormed ↔ a.mant = 0 ∨ Normal 128 a.mant := by
  unfold WellFormed
  rw [isZero_iff, normal_iff]

theorem Rounds.wellFormed (h : Rounds x a) : a.WellFormed := wellFormed_iff.2 h.normal

theorem val_nonneg (a : F128) : 0 ≤ a.val := by
  unfold val
  positivity

theorem val_eq_zero_iff : a.val = 0 ↔ a.isZero = true := by
  rw [isZero_iff]
  unfold val
  have := (Rounding.two_zpow_pos a.exp.toInt).ne'
  simp [this]

theorem nearest_zero (e : ℤ) : Nearest 128 0 0 e := by
  refine ⟨.inl rfl, fun y _ => ?_, fun y _ _ => .inr (by simp)⟩
  simp

/-- Where the exponent fits, nothing wraps. -/
theorem Wraps.rounds (h : Wraps x a) (hfit : ExponentFits x) (hx : 0 ≤ x) : Rounds x a := by
  obtain ⟨e, hnear, hexp⟩ := h
  unfold Rounds
  rcases hx.eq_or_lt with rfl | hpos
  · -- the mantissa is zero, so the exponent does not matter
    have hval := hnear.of_float Rounding.float_zero
    have hzero : a.mant = 0 := by
      have := (Rounding.two_zpow_pos e).ne'
      simpa [this] using hval
    rw [hzero]
    exact nearest_zero _
  · obtain ⟨m, e', hnear', hlo, hhi⟩ := hfit.resolve_left hpos.ne'
    have hnormal := hnear.normal_of_pos (by omega) hpos
    have hnormal' := hnear'.normal_of_pos (by omega) hpos
    obtain ⟨-, rfl⟩ := hnormal.unique (by omega) hnormal' (hnear.unique (by omega) hnear')
    rw [hexp, Int64.toInt_ofInt_of_le hlo hhi]
    exact hnear

/-! ## Rounding a mantissa -/

/-- The round bit and the sticky bit describe the part `f` of a unit that is dropped. -/
structure Tail (roundBit sticky : Bool) (f : ℚ) : Prop where
  nonneg : 0 ≤ f
  le_one : f ≤ 1
  low : roundBit = false → 2 * f < 1
  tie : roundBit = true → sticky = false → 2 * f = 1
  high : roundBit = true → sticky = true → 1 < 2 * f

/-- The two bits of a remainder `t` of `d`. -/
theorem tail_of_remainder {roundBit sticky : Bool} {t d : Nat} (ht : t < d) (hround : roundBit = true ↔ d ≤ 2 * t)
    (hsticky : roundBit = true → (sticky = true ↔ 2 * t ≠ d)) : Tail roundBit sticky (t / d : ℚ) := by
  have hd : (0 : ℚ) < d := by
    have : 0 < d := by omega
    exact_mod_cast this
  have htd : (t : ℚ) < d := by exact_mod_cast ht
  refine ⟨by positivity, by rw [div_le_one hd]; exact htd.le, fun h => ?_, fun h hs => ?_, fun h hs => ?_⟩
  · have hlt : 2 * t < d := by
      by_contra hge
      rw [hround.2 (by omega)] at h
      cases h
    rw [← mul_div_assoc, div_lt_one hd]
    exact_mod_cast hlt
  · have heq : 2 * t = d := by
      by_contra hne
      rw [(hsticky h).2 hne] at hs
      cases hs
    rw [← mul_div_assoc, div_eq_one_iff_eq hd.ne']
    exact_mod_cast heq
  · have hne := (hsticky h).1 hs
    have hge := hround.1 h
    have hlt : d < 2 * t := by omega
    rw [← mul_div_assoc, one_lt_div hd]
    exact_mod_cast hlt

/-- **Rounding**: the nearest value to a mantissa and the part of a unit that was dropped. -/
theorem roundNe_wraps {hi lo : UInt64} {roundBit sticky : Bool} {f : ℚ} (e : ℤ) (hm : 2 ^ 63 ≤ hi.toNat)
    (htail : Tail roundBit sticky f) :
    Wraps ((wide hi lo + f) * 2 ^ e) (roundNe hi lo roundBit sticky (Int64.ofInt e)) := by
  have hnormal : Normal 128 (wide hi lo) := normal_iff (a := ⟨hi, lo, 0⟩).2 hm
  have hpos := Rounding.two_zpow_pos e
  have hdist : 2 * ((wide hi lo + f) * 2 ^ e - wide hi lo * 2 ^ e) = 2 * f * 2 ^ e := by ring
  have hodd : lo &&& 1 ≠ 0 ↔ Odd (wide hi lo) := by
    rw [and_one_ne_zero, Nat.odd_iff]
    unfold wide
    omega
  unfold roundNe
  split
  · rename_i hup
    have hnear : Nearest 128 ((wide hi lo + f) * 2 ^ e) (Rounding.next 128 (wide hi lo) e).1
        (Rounding.next 128 (wide hi lo) e).2 := by
      apply Rounding.nearest_up (by omega) hnormal
      · exact mul_le_mul_of_nonneg_right (by linarith [htail.le_one]) hpos.le
      · rw [hdist]
        cases hs : sticky with
        | true =>
          left
          exact lt_mul_of_one_lt_left hpos (htail.high hup.1 hs)
        | false =>
          right
          rw [hs] at hup
          refine ⟨by rw [htail.tie hup.1 hs, one_mul], hodd.1 (hup.2.resolve_left Bool.false_ne_true)⟩
    have hsum := add128_spec hi lo 0 1
    have hone : wide 0 1 = 1 := rfl
    have hlt := wide_lt hi lo
    have hlt' := wide_lt (add64 hi 0 (add64 lo 1 0).2).1 (add64 lo 1 0).1
    rw [hone] at hsum
    dsimp only
    split
    · -- the carry leaves the mantissa: it is the least one at the next exponent
      rename_i hc
      rw [ne_zero_iff] at hc
      have hfull : wide hi lo + 1 = 2 ^ 128 := by
        clear hnear
        omega
      rw [Rounding.next_of_eq hfull] at hnear
      have hmant : mant ⟨bit 63, 0, Int64.ofInt e + 1⟩ = 2 ^ 127 := by
        unfold mant wide
        rw [bit_toNat (by omega), UInt64.toNat_zero, Nat.add_zero, ← pow_add]
      refine ⟨e + 1, ?_, (Int64.ofInt_add e 1).symm⟩
      rw [hmant]
      exact hnear
    · rename_i hc
      rw [ne_zero_iff, not_not] at hc
      rw [hc, Nat.zero_mul, Nat.zero_add] at hsum
      have hroom : wide hi lo + 1 ≠ 2 ^ 128 := by
        rw [← hsum]
        exact hlt'.ne
      rw [Rounding.next_of_ne hroom] at hnear
      refine ⟨e, ?_, rfl⟩
      unfold mant
      rw [hsum]
      exact hnear
  · rename_i hdown
    refine ⟨e, ?_, rfl⟩
    apply Rounding.nearest_down hnormal
    · exact mul_le_mul_of_nonneg_right (by linarith [htail.nonneg]) hpos.le
    · rw [hdist]
      cases hr : roundBit with
      | false =>
        left
        exact mul_lt_of_lt_one_left hpos (htail.low hr)
      | true =>
        right
        have hs : sticky = false := by
          by_contra hs
          exact hdown ⟨hr, .inl (by simpa using hs)⟩
        refine ⟨by rw [htail.tie hr hs, one_mul], ?_⟩
        rw [← Nat.not_odd_iff_even, ← hodd]
        exact fun h => hdown ⟨hr, .inr h⟩

/-! ## Multiplication -/

theorem mul_of_isZero (h : a.isZero = true ∨ b.isZero = true) : a.mul b = zero := by
  unfold mul
  rw [if_pos (by rwa [Bool.or_eq_true])]

theorem zero_wraps : Wraps 0 zero := ⟨0, nearest_zero 0, rfl⟩

/-- A number split at bit `k`. -/
theorem split_val (m t k : Nat) (e : ℤ) :
    ((m * 2 ^ k + t : Nat) : ℚ) * 2 ^ e = (m + t / (2 ^ k : Nat)) * 2 ^ (e + k) := by
  have hpos : (0 : ℚ) < 2 ^ k := by positivity
  rw [zpow_add₀ two_ne_zero, zpow_natCast]
  push_cast
  field_simp

/-- The bits of two words below a mantissa. -/
theorem tail_of_wide {p1 p0 : UInt64} :
    Tail (decide (p1 &&& bit 63 ≠ 0)) (decide (p1 &&& ~~~(bit 63) ≠ 0) || decide (p0 ≠ 0))
      ((wide p1 p0 : ℚ) / (2 ^ 128 : Nat)) := by
  apply tail_of_remainder (wide_lt p1 p0)
  · rw [decide_eq_true_eq, and_top_ne_zero]
    have := p0.toNat_lt
    unfold wide
    omega
  · intro hround
    rw [decide_eq_true_eq, and_top_ne_zero] at hround
    rw [Bool.or_eq_true, decide_eq_true_eq, decide_eq_true_eq, and_below_ne_zero not_top_toNat, ne_zero_iff]
    have := p1.toNat_lt
    unfold wide
    omega

/-- The bits of two words below a mantissa that took over their top bit. -/
theorem tail_of_wide_shifted {p1 p0 : UInt64} :
    Tail (decide (p1 &&& bit 62 ≠ 0)) (decide (p1 &&& ~~~(shl 3 62) ≠ 0) || decide (p0 ≠ 0))
      (((p1.toNat % 2 ^ 63 * 2 ^ 64 + p0.toNat : Nat) : ℚ) / (2 ^ 127 : Nat)) := by
  have h0 := p0.toNat_lt
  have h1 := p1.toNat_lt
  apply tail_of_remainder
  · omega
  · rw [decide_eq_true_eq, and_bit_ne_zero (by omega)]
    omega
  · intro hround
    rw [decide_eq_true_eq, and_bit_ne_zero (by omega)] at hround
    rw [Bool.or_eq_true, decide_eq_true_eq, decide_eq_true_eq, and_below_ne_zero not_top2_toNat, ne_zero_iff]
    omega

theorem isZero_eq_false (h : Normal 128 a.mant) : a.isZero = false := by
  rw [← Bool.not_eq_true, isZero_iff]
  exact h.ne_zero

/-- A mantissa shifted to the left by one bit. -/
theorem shifted_words {p3 : UInt64} (p2 p1 p0 : UInt64) (h : p3.toNat < 2 ^ 63) :
    wide4 p3 p2 p1 p0 = wide (shl p3 1 ||| shr p2 63) (shl p2 1 ||| shr p1 63) * 2 ^ 127 +
      (p1.toNat % 2 ^ 63 * 2 ^ 64 + p0.toNat) ∧
    (shl p3 1 ||| shr p2 63).toNat = 2 * p3.toNat + p2.toNat / 2 ^ 63 := by
  have hhi := shl_or_shr p3 p2 (n := 1) (by omega)
  have hlo := shl_or_shr p2 p1 (n := 1) (by omega)
  have h2 := p2.toNat_lt
  have h1 := p1.toNat_lt
  rw [shl_toNat, shr_toNat] at hhi hlo
  unfold wide4 wide
  rw [hhi, hlo]
  omega

/-- **A product is rounded correctly**, up to the wrap of its exponent. -/
theorem mul_wraps (ha : Normal 128 a.mant) (hb : Normal 128 b.mant) : Wraps (a.val * b.val) (a.mul b) := by
  have hspec := mulWords_spec a.hi a.lo b.hi b.lo
  unfold mul
  rw [isZero_eq_false ha, isZero_eq_false hb, Bool.or_false, if_neg Bool.false_ne_true]
  have hval : a.val * b.val = (a.mant * b.mant : ℕ) * 2 ^ (a.exp.toInt + b.exp.toInt) := by
    unfold val
    rw [zpow_add₀ two_ne_zero]
    push_cast
    ring
  have hlow : 2 ^ 254 ≤ a.mant * b.mant := by
    calc 2 ^ 254 = 2 ^ 127 * 2 ^ 127 := by rw [← pow_add]
      _ ≤ a.mant * b.mant := Nat.mul_le_mul ha.1 hb.1
  have hmant : a.mant * b.mant = wide a.hi a.lo * wide b.hi b.lo := rfl
  rw [hval]
  rw [hmant, ← hspec] at hlow ⊢
  generalize mulWords a.hi a.lo b.hi b.lo = w at hlow ⊢
  obtain ⟨p3, p2, p1, p0⟩ := w
  dsimp only at hlow ⊢
  have hexp : ∀ k : ℤ, a.exp + b.exp + Int64.ofInt k = Int64.ofInt (a.exp.toInt + b.exp.toInt + k) := by
    intro k
    rw [Int64.ofInt_add, Int64.ofInt_add, Int64.ofInt_toInt, Int64.ofInt_toInt]
  split
  · -- the product has 256 bits
    rename_i htop
    rw [and_top_ne_zero] at htop
    have hexp := hexp 128
    have hx := split_val (wide p3 p2) (wide p1 p0) 128 (a.exp.toInt + b.exp.toInt)
    unfold wide4
    rw [hx]
    exact hexp ▸ roundNe_wraps _ htop tail_of_wide
  · -- the product has 255 bits
    rename_i htop
    rw [and_top_ne_zero, not_le] at htop
    obtain ⟨hsplit, hhi⟩ := shifted_words p2 p1 p0 htop
    have hnormal : 2 ^ 63 ≤ (shl p3 1 ||| shr p2 63).toNat := by
      rw [hhi]
      have h2 := p2.toNat_lt
      have h1 := p1.toNat_lt
      have h0 := p0.toNat_lt
      unfold wide4 wide at hlow
      omega
    have hexp := hexp 127
    rw [hsplit, split_val]
    exact hexp ▸ roundNe_wraps _ hnormal tail_of_wide_shifted

/-! ## Division by a word -/

theorem add_le_of_dvd {c t d : Nat} (ht : c ∣ t) (hd : c ∣ d) (hlt : t < d) : t + c ≤ d := by
  obtain ⟨k, rfl⟩ := ht
  obtain ⟨l, rfl⟩ := hd
  have hkl : k < l := Nat.lt_of_mul_lt_mul_left hlt
  calc c * k + c = c * (k + 1) := by ring
    _ ≤ c * l := Nat.mul_le_mul_left _ hkl

/-- The digits of `a * 2 ^ 128` over a word. -/
theorem div64_chain (hi lo : UInt64) {u : UInt64} (hu : 0 < u.toNat) :
    let d3 := div64 0 hi u
    let d2 := div64 d3.2 lo u
    let d1 := div64 d2.2 0 u
    let d0 := div64 d1.2 0 u
    wide4 d3.1 d2.1 d1.1 d0.1 * u.toNat + d0.2.toNat = wide hi lo * 2 ^ 128 ∧ d0.2.toNat < u.toNat := by
  intro d3 d2 d1 d0
  obtain ⟨h3, hr3⟩ := div64_spec 0 hi hu
  obtain ⟨h2, hr2⟩ := div64_spec _ lo hr3
  obtain ⟨h1, hr1⟩ := div64_spec _ 0 hr2
  obtain ⟨h0, hr0⟩ := div64_spec _ 0 hr1
  refine ⟨?_, hr0⟩
  change d3.1.toNat * u.toNat + d3.2.toNat = wide 0 hi at h3
  change d2.1.toNat * u.toNat + d2.2.toNat = wide d3.2 lo at h2
  change d1.1.toNat * u.toNat + d1.2.toNat = wide d2.2 0 at h1
  change d0.1.toNat * u.toNat + d0.2.toNat = wide d1.2 0 at h0
  unfold wide4
  unfold wide at *
  rw [UInt64.toNat_zero] at *
  rw [two_pow_128]
  generalize (2 : Nat) ^ 64 = w at *
  zify at *
  linear_combination w * w * w * h3 + w * w * h2 + w * h1 + h0

/-- The bits below a mantissa that was shifted to the left by `k`, with a remainder below them. -/
theorem tail_of_quotient {o1 o0 rem u : UInt64} {k : Nat} (hk : k ≤ 64) (hdvd : 2 ^ k ∣ wide o1 o0)
    (hrem : rem.toNat < u.toNat) :
    Tail (decide (o1 &&& bit 63 ≠ 0))
      (decide (o1 &&& ~~~(bit 63) ≠ 0) || decide (o0 ≠ 0) || decide (rem ≠ 0))
      (((wide o1 o0 * u.toNat + rem.toNat * 2 ^ k : Nat) : ℚ) / (2 ^ 128 * u.toNat : Nat)) := by
  have hu : 0 < u.toNat := by omega
  have hround : (decide (o1 &&& bit 63 ≠ 0) = true) ↔ 2 ^ 127 ≤ wide o1 o0 := by
    rw [decide_eq_true_eq, and_top_ne_zero]
    have := o0.toNat_lt
    unfold wide
    omega
  have hsticky : (decide (o1 &&& ~~~(bit 63) ≠ 0) || decide (o0 ≠ 0) || decide (rem ≠ 0)) = true ↔
      wide o1 o0 % 2 ^ 127 ≠ 0 ∨ rem.toNat ≠ 0 := by
    rw [Bool.or_eq_true, Bool.or_eq_true, decide_eq_true_eq, decide_eq_true_eq, decide_eq_true_eq,
      and_below_ne_zero not_top_toNat, ne_zero_iff, ne_zero_iff]
    have := o0.toNat_lt
    unfold wide
    omega
  have hlt := wide_lt o1 o0
  have hpow : ∀ n, 64 ≤ n → 2 ^ k ∣ 2 ^ n := fun n hn => Nat.pow_dvd_pow 2 (by omega)
  generalize wide o1 o0 = t at *
  -- the remainder is below the last bit of `t`
  have hbelow : ∀ d, 2 ^ k ∣ d → t < d → t * u.toNat + rem.toNat * 2 ^ k < d * u.toNat := by
    intro d hd htd
    have hle := add_le_of_dvd hdvd hd htd
    calc t * u.toNat + rem.toNat * 2 ^ k < t * u.toNat + u.toNat * 2 ^ k := by
          have := Nat.mul_lt_mul_of_pos_right hrem (Nat.two_pow_pos k)
          omega
      _ = (t + 2 ^ k) * u.toNat := by ring
      _ ≤ d * u.toNat := Nat.mul_le_mul_right _ hle
  apply tail_of_remainder
  · exact hbelow _ (hpow 128 (by omega)) hlt
  · rw [hround]
    constructor
    · intro h
      have := Nat.mul_le_mul_right u.toNat h
      omega
    · intro h
      by_contra hge
      have := hbelow (2 ^ 127) (hpow 127 (by omega)) (by omega)
      omega
  · intro h
    rw [hround] at h
    rw [hsticky]
    obtain ⟨t', rfl⟩ : ∃ t', t = 2 ^ 127 + t' := ⟨t - 2 ^ 127, by omega⟩
    have hmod : (2 ^ 127 + t') % 2 ^ 127 = t' := by omega
    rw [hmod, Nat.add_mul]
    have hmul : t' * u.toNat = 0 ↔ t' = 0 := by
      rw [Nat.mul_eq_zero]
      omega
    have hmul' : rem.toNat * 2 ^ k = 0 ↔ rem.toNat = 0 := by
      rw [Nat.mul_eq_zero]
      have := Nat.two_pow_pos k
      omega
    omega

/-- A number whose leading word is not zero, shifted until its top bit is set. -/
theorem normalized {w : UInt64} {k r : Nat} (hw : w ≠ 0) (hr : r < 2 ^ k) :
    2 ^ (63 + k) ≤ (w.toNat * 2 ^ k + r) * 2 ^ leadingZeros w ∧
      (w.toNat * 2 ^ k + r) * 2 ^ leadingZeros w < 2 ^ (64 + k) := by
  obtain ⟨hlt, hlo, hhi⟩ := leadingZeros_spec hw
  generalize leadingZeros w = z at hlt hlo hhi
  have hnext : w.toNat * 2 ^ z + 2 ^ z ≤ 2 ^ 64 :=
    add_le_of_dvd (Nat.dvd_mul_left _ _) (Nat.pow_dvd_pow 2 (by omega)) hhi
  constructor
  · calc 2 ^ (63 + k) = 2 ^ 63 * 2 ^ k := pow_add 2 63 k
      _ ≤ w.toNat * 2 ^ z * 2 ^ k := Nat.mul_le_mul_right _ hlo
      _ = w.toNat * 2 ^ k * 2 ^ z := by ring
      _ ≤ (w.toNat * 2 ^ k + r) * 2 ^ z := Nat.mul_le_mul_right _ (Nat.le_add_right _ _)
  · calc (w.toNat * 2 ^ k + r) * 2 ^ z < (w.toNat * 2 ^ k + 2 ^ k) * 2 ^ z :=
          Nat.mul_lt_mul_of_pos_right (by omega) (Nat.two_pow_pos z)
      _ = (w.toNat * 2 ^ z + 2 ^ z) * 2 ^ k := by ring
      _ ≤ 2 ^ 64 * 2 ^ k := Nat.mul_le_mul_right _ hnext
      _ = 2 ^ (64 + k) := (pow_add 2 64 k).symm

/-- The shift that normalizes a quotient of a normalized mantissa by a word. -/
theorem quotient_shift {q3 q2 q1 q0 u : UInt64} {m r : Nat} (hm : 2 ^ 127 ≤ m) (hr : r < u.toNat)
    (hq : wide4 q3 q2 q1 q0 * u.toNat + r = m * 2 ^ 128) :
    let lz := if q3 ≠ 0 then leadingZeros q3 else 64
    lz ≤ 64 ∧ 2 ^ 255 ≤ wide4 q3 q2 q1 q0 * 2 ^ lz ∧ wide4 q3 q2 q1 q0 * 2 ^ lz < 2 ^ 256 := by
  intro lz
  have h2 := q2.toNat_lt
  have h1 := q1.toNat_lt
  have h0 := q0.toNat_lt
  have hu := u.toNat_lt
  by_cases h3 : q3 = 0
  · have hlz : lz = 64 := if_neg (not_not.2 h3)
    rw [hlz]
    have hlt : wide4 q3 q2 q1 q0 < 2 ^ 192 := by
      rw [h3]
      unfold wide4 wide
      rw [UInt64.toNat_zero]
      omega
    have hge : 2 ^ 191 ≤ wide4 q3 q2 q1 q0 := by
      by_contra hsmall
      have hle : (wide4 q3 q2 q1 q0 + 1) * u.toNat ≤ 2 ^ 191 * u.toNat := Nat.mul_le_mul_right _ (by omega)
      have hle' : 2 ^ 191 * u.toNat ≤ 2 ^ 191 * 2 ^ 64 := Nat.mul_le_mul_left _ hu.le
      have hm' : 2 ^ 127 * 2 ^ 128 ≤ m * 2 ^ 128 := Nat.mul_le_mul_right _ hm
      rw [Nat.add_mul, Nat.one_mul] at hle
      omega
    omega
  · have hlz : lz = leadingZeros q3 := if_pos h3
    rw [hlz]
    have hsplit : wide4 q3 q2 q1 q0 = q3.toNat * 2 ^ 192 + (q2.toNat * 2 ^ 128 + wide q1 q0) := by
      unfold wide4 wide
      omega
    have hrest : q2.toNat * 2 ^ 128 + wide q1 q0 < 2 ^ 192 := by
      unfold wide
      omega
    rw [hsplit]
    exact ⟨(leadingZeros_spec h3).1.le, normalized h3 hrest⟩

/-- **A quotient by a word is rounded correctly**, up to the wrap of its exponent. -/
theorem divU_wraps {u : UInt64} (ha : Normal 128 a.mant) (hu : u ≠ 0) : Wraps (a.val / u.toNat) (a.divU u) := by
  have hupos : 0 < u.toNat := Nat.pos_of_ne_zero (ne_zero_iff.1 hu)
  have hchain := div64_chain a.hi a.lo hupos
  unfold divU
  rw [isZero_eq_false ha, if_neg (fun h => h.elim Bool.false_ne_true hu)]
  dsimp only at hchain ⊢
  generalize (div64 (div64 (div64 (div64 0 a.hi u).2 a.lo u).2 0 u).2 0 u) = d0 at hchain ⊢
  generalize (div64 (div64 (div64 0 a.hi u).2 a.lo u).2 0 u).1 = q1 at hchain ⊢
  generalize (div64 (div64 0 a.hi u).2 a.lo u).1 = q2 at hchain ⊢
  generalize (div64 0 a.hi u).1 = q3 at hchain ⊢
  obtain ⟨q0, rem⟩ := d0
  obtain ⟨hq, hrem⟩ := hchain
  dsimp only at hq hrem ⊢
  obtain ⟨hlz, hge, hlt⟩ := quotient_shift ha.1 hrem hq
  generalize (if q3 ≠ 0 then leadingZeros q3 else 64) = lz at hlz hge hlt ⊢
  have hshl := shl256_spec q3 q2 q1 q0 (by omega : lz < 256) hlt
  generalize shl256 q3 q2 q1 q0 lz = o at hshl ⊢
  obtain ⟨o3, o2, o1, o0⟩ := o
  dsimp only at hshl ⊢
  rw [← hshl] at hge
  have hnormal : 2 ^ 63 ≤ o3.toNat := by
    have h2 := o2.toNat_lt
    have h1 := o1.toNat_lt
    have h0 := o0.toNat_lt
    unfold wide4 wide at hge
    omega
  have hdvd : 2 ^ lz ∣ wide o1 o0 := by
    have hall : 2 ^ lz ∣ wide4 o3 o2 o1 o0 := hshl ▸ Nat.dvd_mul_left _ _
    have htop : 2 ^ lz ∣ wide o3 o2 * 2 ^ 128 := (Nat.pow_dvd_pow 2 (by omega)).mul_left _
    exact (Nat.dvd_add_right htop).1 hall
  have hexp : a.exp - Int64.ofNat lz = Int64.ofInt (a.exp.toInt - lz) := by
    rw [Int64.ofInt_sub, Int64.ofInt_toInt, Int64.ofInt_eq_ofNat]
  have hx : a.val / u.toNat = (wide o3 o2 + ((wide o1 o0 * u.toNat + rem.toNat * 2 ^ lz : Nat) : ℚ) /
      (2 ^ 128 * u.toNat : Nat)) * 2 ^ (a.exp.toInt - lz) := by
    have hu0 : (u.toNat : ℚ) ≠ 0 := by exact_mod_cast hupos.ne'
    have hnat : wide4 o3 o2 o1 o0 * u.toNat + rem.toNat * 2 ^ lz = wide a.hi a.lo * 2 ^ 128 * 2 ^ lz := by
      rw [hshl, ← hq]
      ring
    have hq' := congrArg (Nat.cast : Nat → ℚ) hnat
    unfold wide4 at hq'
    unfold val mant
    rw [zpow_sub₀ two_ne_zero, zpow_natCast]
    push_cast at hq' ⊢
    field_simp
    linear_combination -hq'
  rw [hx, hexp]
  exact roundNe_wraps _ hnormal (tail_of_quotient hlz hdvd hrem)

/-! ## Division -/

/-- The four digits of `a * 2 ^ 128` over a normalized mantissa: the first is zero, the second at most one. -/
theorem divStep_chain {hi lo v1 v0 : UInt64} (hm : Normal 128 (wide hi lo)) (hv : Normal 128 (wide v1 v0)) :
    let d3 := divStep 0 0 hi v1 v0
    let d2 := divStep d3.2.1 d3.2.2 lo v1 v0
    let d1 := divStep d2.2.1 d2.2.2 0 v1 v0
    let d0 := divStep d1.2.1 d1.2.2 0 v1 v0
    (d2.1.toNat * 2 ^ 128 + wide d1.1 d0.1) * wide v1 v0 + wide d0.2.1 d0.2.2 = wide hi lo * 2 ^ 128 ∧
      wide d0.2.1 d0.2.2 < wide v1 v0 ∧ d2.1.toNat ≤ 1 ∧ 2 ^ 127 ≤ d2.1.toNat * 2 ^ 128 + wide d1.1 d0.1 := by
  intro d3 d2 d1 d0
  have hv1 : 0 < v1.toNat := by
    have h1 := hv.1
    have h0 := v0.toNat_lt
    unfold wide at h1
    omega
  have hz : wide 0 0 = 0 := rfl
  have hhi := hi.toNat_lt
  obtain ⟨h3, hr3⟩ := divStep_spec 0 0 hi hv1 (by rw [hz]; exact hv.pos)
  change d3.1.toNat * wide v1 v0 + wide d3.2.1 d3.2.2 = wide 0 0 * 2 ^ 64 + hi.toNat at h3
  change wide d3.2.1 d3.2.2 < wide v1 v0 at hr3
  obtain ⟨h2, hr2⟩ := divStep_spec _ _ lo hv1 hr3
  change d2.1.toNat * wide v1 v0 + wide d2.2.1 d2.2.2 = wide d3.2.1 d3.2.2 * 2 ^ 64 + lo.toNat at h2
  change wide d2.2.1 d2.2.2 < wide v1 v0 at hr2
  obtain ⟨h1, hr1⟩ := divStep_spec _ _ 0 hv1 hr2
  change d1.1.toNat * wide v1 v0 + wide d1.2.1 d1.2.2 = wide d2.2.1 d2.2.2 * 2 ^ 64 + (0 : UInt64).toNat at h1
  change wide d1.2.1 d1.2.2 < wide v1 v0 at hr1
  obtain ⟨h0, hr0⟩ := divStep_spec _ _ 0 hv1 hr1
  change d0.1.toNat * wide v1 v0 + wide d0.2.1 d0.2.2 = wide d1.2.1 d1.2.2 * 2 ^ 64 + (0 : UInt64).toNat at h0
  change wide d0.2.1 d0.2.2 < wide v1 v0 at hr0
  rw [UInt64.toNat_zero] at h1 h0
  rw [hz, Nat.zero_mul, Nat.zero_add] at h3
  have hVlow := hv.1
  have hVhigh := hv.2
  have hmlow := hm.1
  have hmhigh := hm.2
  -- the high word is below the divisor
  have hq3 : d3.1.toNat = 0 := by
    by_contra hne
    have := Nat.mul_le_mul_right (wide v1 v0) (Nat.one_le_iff_ne_zero.2 hne)
    omega
  rw [hq3, Nat.zero_mul, Nat.zero_add] at h3
  rw [h3] at h2
  change d2.1.toNat * wide v1 v0 + wide d2.2.1 d2.2.2 = wide hi lo at h2
  have hq2 : d2.1.toNat ≤ 1 := by
    by_contra hne
    have := Nat.mul_le_mul_right (wide v1 v0) (Nat.succ_le_of_lt (not_le.1 hne))
    omega
  have hsum : (d2.1.toNat * 2 ^ 128 + wide d1.1 d0.1) * wide v1 v0 + wide d0.2.1 d0.2.2 = wide hi lo * 2 ^ 128 := by
    have hd : wide d1.1 d0.1 = d1.1.toNat * 2 ^ 64 + d0.1.toNat := rfl
    rw [hd, two_pow_128]
    generalize wide v1 v0 = V at *
    generalize wide hi lo = A at *
    generalize wide d0.2.1 d0.2.2 = R0 at *
    generalize wide d1.2.1 d1.2.2 = R1 at *
    generalize wide d2.2.1 d2.2.2 = R2 at *
    clear hVlow hVhigh hmlow hmhigh hm hv
    generalize (2 : Nat) ^ 64 = w at *
    zify at *
    linear_combination w * w * h2 + w * h1 + h0
  refine ⟨hsum, hr0, hq2, ?_⟩
  by_contra hlt
  have hle : (d2.1.toNat * 2 ^ 128 + wide d1.1 d0.1 + 1) * wide v1 v0 ≤ 2 ^ 127 * wide v1 v0 :=
    Nat.mul_le_mul_right _ (by omega)
  rw [Nat.add_mul, Nat.one_mul] at hle
  have hle' : 2 ^ 127 * wide v1 v0 ≤ 2 ^ 127 * 2 ^ 128 := Nat.mul_le_mul_left _ hVhigh.le
  have hm' : 2 ^ 127 * 2 ^ 128 ≤ wide hi lo * 2 ^ 128 := Nat.mul_le_mul_right _ hmlow
  omega

/-- The quotient in units of its last digit. -/
theorem div_val (hb : Normal 128 b.mant) {q r : Nat} (h : q * b.mant + r = a.mant * 2 ^ 128) :
    a.val / b.val = (q + (r : ℚ) / b.mant) * 2 ^ (a.exp.toInt - b.exp.toInt - 128) := by
  have hb0 : (b.mant : ℚ) ≠ 0 := by exact_mod_cast hb.ne_zero
  have hcast := congrArg (Nat.cast : Nat → ℚ) h
  have h128 : (2 : ℚ) ^ (128 : ℤ) = 2 ^ 128 := zpow_natCast 2 128
  unfold val
  rw [zpow_sub₀ two_ne_zero, zpow_sub₀ two_ne_zero, h128]
  push_cast at hcast
  have hpos := (Rounding.two_zpow_pos b.exp.toInt).ne'
  field_simp
  linear_combination -hcast

/-- A quotient of 129 bits: the last bit and the remainder. -/
theorem tail_of_odd_quotient {q0 remHi remLo : UInt64} {v : Nat} (hrem : wide remHi remLo < v) :
    Tail (decide (q0 &&& 1 ≠ 0)) (decide (remHi ≠ 0) || decide (remLo ≠ 0))
      (((q0.toNat % 2 * v + wide remHi remLo : Nat) : ℚ) / (2 * v : Nat)) := by
  have hround : (decide (q0 &&& 1 ≠ 0) = true) ↔ q0.toNat % 2 = 1 := by rw [decide_eq_true_eq, and_one_ne_zero]
  have hsticky : (decide (remHi ≠ 0) || decide (remLo ≠ 0)) = true ↔ wide remHi remLo ≠ 0 := by
    rw [Bool.or_eq_true, decide_eq_true_eq, decide_eq_true_eq, ne_zero_iff, ne_zero_iff]
    unfold wide
    omega
  generalize wide remHi remLo = r at *
  have hmod : q0.toNat % 2 = 0 ∨ q0.toNat % 2 = 1 := by omega
  apply tail_of_remainder
  · rcases hmod with h | h <;> rw [h] <;> omega
  · rw [hround]
    rcases hmod with h | h <;> rw [h] <;> omega
  · intro h
    rw [hround] at h
    rw [hsticky, h]
    omega

/-- A quotient of 128 bits: twice the remainder against the divisor. -/
theorem doubled_words (remHi remLo v1 v0 : UInt64) (hrem : wide remHi remLo < wide v1 v0) :
    (shr remHi 63 ≠ 0 ∨ v1 < (shl remHi 1 ||| shr remLo 63) ∨
        (shl remHi 1 ||| shr remLo 63) = v1 ∧ v0 ≤ shl remLo 1 ↔ wide v1 v0 ≤ 2 * wide remHi remLo) ∧
      (wide v1 v0 ≤ 2 * wide remHi remLo →
        wide (sub64 (shl remHi 1 ||| shr remLo 63) v1 (sub64 (shl remLo 1) v0 0).2).1 (sub64 (shl remLo 1) v0 0).1 =
          2 * wide remHi remLo - wide v1 v0) := by
  have hor := shl_or_shr remHi remLo (n := 1) (by omega)
  have hhi := shifted remHi (n := 1) (by omega)
  have hlo := shifted remLo (n := 1) (by omega)
  have hdlt := (shl remHi 1 ||| shr remLo 63).toNat_lt
  have hllt := (shl remLo 1).toNat_lt
  have hv1 := v1.toNat_lt
  have hv0 := v0.toNat_lt
  simp only [Nat.reduceSub] at hor hhi hlo
  obtain ⟨hs0, hb0⟩ := sub64_spec (shl remLo 1) v0 0 (by decide)
  generalize sub64 (shl remLo 1) v0 0 = s0 at hs0 hb0 ⊢
  obtain ⟨hs1, hb1⟩ := sub64_spec (shl remHi 1 ||| shr remLo 63) v1 s0.2 hb0
  generalize sub64 (shl remHi 1 ||| shr remLo 63) v1 s0.2 = s1 at hs1 hb1 ⊢
  rw [UInt64.toNat_zero] at hs0
  rw [ne_zero_iff, UInt64.lt_iff_toNat_lt, ← UInt64.toNat_inj, UInt64.le_iff_toNat_le]
  have hs1lt := s1.1.toNat_lt
  have hs0lt := s0.1.toNat_lt
  unfold wide at hrem ⊢
  generalize (shl remHi 1 ||| shr remLo 63).toNat = dhi at *
  generalize (shl remLo 1).toNat = dlo at *
  generalize (shl remHi 1).toNat = thi at *
  generalize (shr remHi 63).toNat = c at *
  generalize (shr remLo 63).toNat = l at *
  constructor
  · omega
  · omega

/-- **A quotient is rounded correctly**, up to the wrap of its exponent. -/
theorem div_wraps (ha : Normal 128 a.mant) (hb : Normal 128 b.mant) : Wraps (a.val / b.val) (a.div b) := by
  have hchain := divStep_chain ha hb
  unfold div
  rw [isZero_eq_false ha, isZero_eq_false hb, Bool.or_false, if_neg Bool.false_ne_true]
  dsimp only at hchain ⊢
  generalize divStep 0 0 a.hi b.hi b.lo = d3 at hchain ⊢
  generalize divStep d3.2.1 d3.2.2 a.lo b.hi b.lo = d2 at hchain ⊢
  generalize divStep d2.2.1 d2.2.2 0 b.hi b.lo = d1 at hchain ⊢
  generalize divStep d1.2.1 d1.2.2 0 b.hi b.lo = d0 at hchain ⊢
  obtain ⟨q2, rem2⟩ := d2
  obtain ⟨q1, rem1⟩ := d1
  obtain ⟨q0, remHi, remLo⟩ := d0
  obtain ⟨hsum, hrem, hq2, hge⟩ := hchain
  dsimp only at hsum hrem hq2 hge ⊢
  have hval := div_val (a := a) hb hsum
  have hexp : a.exp - b.exp - 128 = Int64.ofInt (a.exp.toInt - b.exp.toInt - 128) := by
    rw [Int64.ofInt_sub, Int64.ofInt_sub, Int64.ofInt_toInt, Int64.ofInt_toInt]
    rfl
  generalize a.exp.toInt - b.exp.toInt - 128 = e at hval hexp
  rw [hval, hexp]
  have h0 := q0.toNat_lt
  have h1 := q1.toNat_lt
  split
  · -- the quotient has 129 bits
    rename_i hq
    rw [ne_zero_iff] at hq
    have hq2 : q2.toNat = 1 := by omega
    have hexp1 : Int64.ofInt e + 1 = Int64.ofInt (e + 1) := (Int64.ofInt_add e 1).symm
    have hhi := shl_or_shr q2 q1 (n := 63) (by omega)
    have hlo := shl_or_shr q1 q0 (n := 63) (by omega)
    simp only [Nat.reduceSub] at hhi hlo
    rw [shl_toNat, shr_toNat] at hhi hlo
    have hnormal : 2 ^ 63 ≤ (shl q2 63 ||| shr q1 1).toNat := by omega
    have hmant : 2 ^ 128 + wide q1 q0 = wide (shl q2 63 ||| shr q1 1) (shl q1 63 ||| shr q0 1) * 2 + q0.toNat % 2 := by
      unfold wide
      omega
    have hx : (((q2.toNat * 2 ^ 128 + wide q1 q0 : Nat) : ℚ) + (wide remHi remLo : ℚ) / b.mant) * 2 ^ e =
        (wide (shl q2 63 ||| shr q1 1) (shl q1 63 ||| shr q0 1) +
          ((q0.toNat % 2 * b.mant + wide remHi remLo : Nat) : ℚ) / (2 * b.mant : Nat)) * 2 ^ (e + 1) := by
      have hb0 : (b.mant : ℚ) ≠ 0 := by exact_mod_cast hb.ne_zero
      rw [hq2, Nat.one_mul, hmant, Rounding.two_zpow_succ]
      push_cast
      field_simp
      ring
    rw [hx, hexp1]
    exact roundNe_wraps _ hnormal (tail_of_odd_quotient hrem)
  · -- the quotient has 128 bits
    rename_i hq
    rw [ne_zero_iff, not_not] at hq
    rw [hq, Nat.zero_mul, Nat.zero_add] at hge ⊢
    have hnormal : 2 ^ 63 ≤ q1.toNat := by
      unfold wide at hge
      omega
    obtain ⟨htest, hdiff⟩ := doubled_words remHi remLo b.hi b.lo hrem
    split
    · rename_i hbig
      rw [htest] at hbig
      have hdiff := hdiff hbig
      apply roundNe_wraps _ hnormal
      apply tail_of_remainder hrem
      · simpa using hbig
      · intro _
        rw [Bool.or_eq_true, decide_eq_true_eq, decide_eq_true_eq, ne_zero_iff, ne_zero_iff]
        unfold wide at hdiff hbig ⊢
        omega
    · rename_i hsmall
      rw [htest] at hsmall
      apply roundNe_wraps _ hnormal
      apply tail_of_remainder hrem
      · simpa using hsmall
      · intro h
        cases h

end F128
end Crypto
end Algod
