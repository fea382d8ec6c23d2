import AlgodRust.Crypto.F128
import Mathlib.Data.Nat.Bitwise
import Mathlib.Data.Nat.Log
import Mathlib.Tactic.LinearCombination
import Mathlib.Tactic.Ring
import Mathlib.Tactic.Zify
/-!
# F128Words — what the word operations of the float compute

Each operation on words as an equation between natural numbers.  `wide` reads two words as a number, `wide4` four.
-/
namespace Algod
namespace Crypto

variable {x y : UInt64} {n : Nat}

/-- Two words as a number. -/
def wide (hi lo : UInt64) : Nat := hi.toNat * 2 ^ 64 + lo.toNat

/-- Four words as a number. -/
def wide4 (a3 a2 a1 a0 : UInt64) : Nat := wide a3 a2 * 2 ^ 128 + wide a1 a0

/-- Written out, so that a word can stand for any number in a sum. -/
theorem two_pow_128 : (2 : Nat) ^ 128 = 2 ^ 64 * 2 ^ 64 := by rw [← pow_add]

theorem wide_lt (hi lo : UInt64) : wide hi lo < 2 ^ 128 := by
  have := hi.toNat_lt
  have := lo.toNat_lt
  unfold wide
  omega

theorem ofNat_toNat_of_lt {k : Nat} (h : k < 2 ^ 64) : (UInt64.ofNat k).toNat = k :=
  UInt64.toNat_ofNat_of_lt' h

theorem ne_zero_iff : x ≠ 0 ↔ x.toNat ≠ 0 := not_congr UInt64.toNat_inj.symm

/-! ## Shifts and bits -/

theorem shl_toNat (x : UInt64) (n : Nat) : (shl x n).toNat = x.toNat * 2 ^ n % 2 ^ 64 := by
  unfold shl
  rw [UInt64.toNat_ofNat', Nat.shiftLeft_eq]

theorem shr_toNat (x : UInt64) (n : Nat) : (shr x n).toNat = x.toNat / 2 ^ n := by
  unfold shr
  rw [Nat.shiftRight_eq_div_pow]
  exact ofNat_toNat_of_lt (lt_of_le_of_lt (Nat.div_le_self _ _) x.toNat_lt)

theorem bit_toNat (h : n < 64) : (bit n).toNat = 2 ^ n := by
  unfold bit
  rw [shl_toNat]
  have h1 : (1 : UInt64).toNat = 1 := rfl
  rw [h1, one_mul]
  exact Nat.mod_eq_of_lt (Nat.pow_lt_pow_right one_lt_two h)

/-- The two halves of a shifted word: what stays and what leaves at the top. -/
theorem shifted (x : UInt64) (h : n ≤ 64) :
    x.toNat * 2 ^ n = (shr x (64 - n)).toNat * 2 ^ 64 + (shl x n).toNat := by
  rw [shl_toNat, shr_toNat]
  have hpow : (2 : Nat) ^ 64 = 2 ^ (64 - n) * 2 ^ n := by rw [← pow_add]; congr 1; omega
  have hdiv : x.toNat / 2 ^ (64 - n) = x.toNat * 2 ^ n / 2 ^ 64 := by
    rw [hpow]
    exact (Nat.mul_div_mul_right _ _ (Nat.two_pow_pos n)).symm
  rw [hdiv]
  exact (Nat.div_add_mod' _ _).symm

/-- What a shift brings in from below does not meet what stays. -/
theorem shl_or_shr (x y : UInt64) (h : n ≤ 64) :
    (shl x n ||| shr y (64 - n)).toNat = (shl x n).toNat + (shr y (64 - n)).toNat := by
  have hpow : (2 : Nat) ^ 64 = 2 ^ (64 - n) * 2 ^ n := by rw [← pow_add]; congr 1; omega
  have hlow : (shr y (64 - n)).toNat < 2 ^ n := by
    rw [shr_toNat]
    apply Nat.div_lt_of_lt_mul
    have := y.toNat_lt
    rw [hpow] at this
    exact this
  have hmul : (shl x n).toNat = 2 ^ n * (x.toNat % 2 ^ (64 - n)) := by
    rw [shl_toNat, hpow, Nat.mul_mod_mul_right, Nat.mul_comm]
  rw [UInt64.toNat_or, hmul, ← Nat.two_pow_add_eq_or_of_lt hlow]

theorem and_one_ne_zero : x &&& 1 ≠ 0 ↔ x.toNat % 2 = 1 := by
  rw [ne_zero_iff, UInt64.toNat_and]
  have h1 : (1 : UInt64).toNat = 1 := rfl
  rw [h1, Nat.and_one_is_mod]
  omega

theorem and_bit_ne_zero (h : n < 64) : x &&& bit n ≠ 0 ↔ x.toNat / 2 ^ n % 2 = 1 := by
  rw [ne_zero_iff, UInt64.toNat_and, bit_toNat h, Nat.and_two_pow]
  have := Nat.two_pow_pos n
  rw [← Nat.toNat_testBit]
  cases x.toNat.testBit n <;> simp

theorem and_top_ne_zero : x &&& bit 63 ≠ 0 ↔ 2 ^ 63 ≤ x.toNat := by
  rw [and_bit_ne_zero (by omega)]
  have := x.toNat_lt
  omega

/-- A mask of the bits below `n`. -/
theorem and_below_ne_zero {mask : UInt64} (hmask : mask.toNat = 2 ^ n - 1) : x &&& mask ≠ 0 ↔ x.toNat % 2 ^ n ≠ 0 := by
  rw [ne_zero_iff, UInt64.toNat_and, hmask, Nat.and_two_pow_sub_one_eq_mod]

theorem not_top_toNat : (~~~(bit 63)).toNat = 2 ^ 63 - 1 := by decide

theorem not_top2_toNat : (~~~(shl 3 62)).toNat = 2 ^ 62 - 1 := by decide

theorem bit_sub_one_toNat (h : n < 64) : (bit n - 1).toNat = 2 ^ n - 1 := by
  have hb := bit_toNat h
  have hpos := Nat.two_pow_pos n
  have h1 : (1 : UInt64).toNat = 1 := rfl
  rw [UInt64.toNat_sub_of_le _ _ (by rw [UInt64.le_iff_toNat_le, hb, h1]; omega), hb, h1]

/-- The shift that brings the highest bit of a word to the top. -/
theorem leadingZeros_spec (h : x ≠ 0) :
    leadingZeros x < 64 ∧ 2 ^ 63 ≤ x.toNat * 2 ^ leadingZeros x ∧ x.toNat * 2 ^ leadingZeros x < 2 ^ 64 := by
  unfold leadingZeros
  rw [if_neg h]
  rw [ne_zero_iff] at h
  have hlt := x.toNat_lt
  have hlog : x.toNat.log2 < 64 := (Nat.log2_lt h).2 hlt
  have hlo := Nat.log2_self_le h
  have hhi := Nat.lt_log2_self (n := x.toNat)
  generalize x.toNat.log2 = k at hlog hlo hhi
  have hpow : (2 : Nat) ^ 63 = 2 ^ k * 2 ^ (63 - k) := by rw [← pow_add]; congr 1; omega
  have hpow' : (2 : Nat) ^ 64 = 2 ^ (k + 1) * 2 ^ (63 - k) := by rw [← pow_add]; congr 1; omega
  refine ⟨by omega, ?_, ?_⟩
  · rw [hpow]
    exact Nat.mul_le_mul_right _ hlo
  · rw [hpow']
    exact Nat.mul_lt_mul_of_pos_right hhi (Nat.two_pow_pos _)

/-! ## Sums, differences, products and quotients -/

theorem mul64_spec (x y : UInt64) : wide (mul64 x y).1 (mul64 x y).2 = x.toNat * y.toNat := by
  unfold mul64 wide
  dsimp only
  have hx := x.toNat_lt
  have hy := y.toNat_lt
  have hp : x.toNat * y.toNat < 2 ^ 64 * 2 ^ 64 := Nat.mul_lt_mul'' hx hy
  rw [Nat.shiftRight_eq_div_pow, UInt64.toNat_ofNat', UInt64.toNat_ofNat',
    Nat.mod_eq_of_lt (Nat.div_lt_of_lt_mul hp)]
  exact Nat.div_add_mod' _ _

theorem add64_spec (x y carry : UInt64) :
    (add64 x y carry).2.toNat * 2 ^ 64 + (add64 x y carry).1.toNat = x.toNat + y.toNat + carry.toNat := by
  unfold add64
  dsimp only
  have := x.toNat_lt
  have := y.toNat_lt
  have := carry.toNat_lt
  rw [Nat.shiftRight_eq_div_pow, UInt64.toNat_ofNat', UInt64.toNat_ofNat']
  omega

/-- The sum of two words and two words, with the carry out of the upper ones. -/
theorem add128_spec (hi lo hi' lo' : UInt64) :
    (add64 hi hi' (add64 lo lo' 0).2).2.toNat * 2 ^ 128 +
      wide (add64 hi hi' (add64 lo lo' 0).2).1 (add64 lo lo' 0).1 = wide hi lo + wide hi' lo' := by
  have hlow := add64_spec lo lo' 0
  have hhigh := add64_spec hi hi' (add64 lo lo' 0).2
  rw [UInt64.toNat_zero] at hlow
  unfold wide
  rw [two_pow_128]
  have hmul := congrArg (· * 2 ^ 64) hhigh
  simp only [Nat.add_mul, Nat.mul_assoc] at hmul ⊢
  generalize (2 : Nat) ^ 64 = w at *
  omega

theorem sub64_spec (x y borrow : UInt64) (hb : borrow.toNat ≤ 1) :
    (sub64 x y borrow).1.toNat + y.toNat + borrow.toNat = x.toNat + (sub64 x y borrow).2.toNat * 2 ^ 64 ∧
      (sub64 x y borrow).2.toNat ≤ 1 := by
  unfold sub64
  dsimp only
  have := x.toNat_lt
  have := y.toNat_lt
  have h1 : (1 : UInt64).toNat = 1 := rfl
  have h0 : (0 : UInt64).toNat = 0 := rfl
  split
  · dsimp only
    rw [h1, UInt64.toNat_ofNat']
    omega
  · dsimp only
    rw [h0, UInt64.toNat_ofNat']
    omega

theorem div64_spec (hi lo : UInt64) (h : hi.toNat < y.toNat) :
    (div64 hi lo y).1.toNat * y.toNat + (div64 hi lo y).2.toNat = wide hi lo ∧ (div64 hi lo y).2.toNat < y.toNat := by
  unfold div64 wide
  dsimp only
  have hlo := lo.toNat_lt
  have hy := y.toNat_lt
  have hor : hi.toNat <<< 64 ||| lo.toNat = hi.toNat * 2 ^ 64 + lo.toNat := by
    rw [Nat.shiftLeft_eq, Nat.mul_comm, ← Nat.two_pow_add_eq_or_of_lt hlo]
  rw [hor]
  have hypos : 0 < y.toNat := by omega
  have hq : (hi.toNat * 2 ^ 64 + lo.toNat) / y.toNat < 2 ^ 64 := by
    apply Nat.div_lt_of_lt_mul
    calc hi.toNat * 2 ^ 64 + lo.toNat < (hi.toNat + 1) * 2 ^ 64 := by omega
      _ ≤ y.toNat * 2 ^ 64 := Nat.mul_le_mul_right _ h
  have hr := Nat.mod_lt (hi.toNat * 2 ^ 64 + lo.toNat) hypos
  rw [ofNat_toNat_of_lt hq, ofNat_toNat_of_lt (hr.trans hy)]
  exact ⟨Nat.div_add_mod' _ _, hr⟩

theorem carry_le_one (x y : UInt64) : (add64 x y 0).2.toNat ≤ 1 := by
  have := add64_spec x y 0
  have := x.toNat_lt
  have := y.toNat_lt
  rw [UInt64.toNat_zero] at *
  omega

/-- **The four words of a product.** -/
theorem mulWords_spec (aHi aLo bHi bLo : UInt64) :
    wide4 (F128.mulWords aHi aLo bHi bLo).1 (F128.mulWords aHi aLo bHi bLo).2.1
      (F128.mulWords aHi aLo bHi bLo).2.2.1 (F128.mulWords aHi aLo bHi bLo).2.2.2 = wide aHi aLo * wide bHi bLo := by
  unfold F128.mulWords
  dsimp only
  have hhh := mul64_spec aHi bHi
  have hhl := mul64_spec aHi bLo
  have hlh := mul64_spec aLo bHi
  have hll := mul64_spec aLo bLo
  generalize mul64 aHi bHi = hh at *
  generalize mul64 aHi bLo = hl at *
  generalize mul64 aLo bHi = lh at *
  generalize mul64 aLo bLo = ll at *
  have hA := add64_spec ll.1 hl.2 0
  have hA1 := carry_le_one ll.1 hl.2
  generalize add64 ll.1 hl.2 0 = sA at *
  have hB := add64_spec sA.1 lh.2 0
  have hB1 := carry_le_one sA.1 lh.2
  generalize add64 sA.1 lh.2 0 = sB at *
  have hC := add64_spec hh.2 hl.1 0
  have hC1 := carry_le_one hh.2 hl.1
  generalize add64 hh.2 hl.1 0 = sC at *
  have hD := add64_spec sC.1 lh.1 0
  have hD1 := carry_le_one sC.1 lh.1
  generalize add64 sC.1 lh.1 0 = sD at *
  have hE := add64_spec sD.1 (sA.2 + sB.2) 0
  have hE1 := carry_le_one sD.1 (sA.2 + sB.2)
  generalize add64 sD.1 (sA.2 + sB.2) 0 = sE at *
  have hcarry : (sA.2 + sB.2).toNat = sA.2.toNat + sB.2.toNat := by
    rw [UInt64.toNat_add]
    omega
  rw [hcarry] at hE
  rw [UInt64.toNat_zero] at hA hB hC hD hE
  -- the sum with the top word taken as a natural number
  have hsum : (hh.1.toNat + sC.2.toNat + sD.2.toNat + sE.2.toNat) * (2 ^ 64 * 2 ^ 64 * 2 ^ 64) +
      sE.1.toNat * (2 ^ 64 * 2 ^ 64) + sB.1.toNat * 2 ^ 64 + ll.2.toNat = wide aHi aLo * wide bHi bLo := by
    unfold wide at *
    generalize (2 : Nat) ^ 64 = w at *
    zify at *
    linear_combination w * w * hhh + w * (hhl + hlh) + hll + w * (hA + hB) + w * w * (hC + hD + hE)
  have hlt : (hh.1.toNat + sC.2.toNat + sD.2.toNat + sE.2.toNat) < 2 ^ 64 := by
    have h1 := wide_lt aHi aLo
    have h2 := wide_lt bHi bLo
    have h3 : wide aHi aLo * wide bHi bLo < 2 ^ 128 * 2 ^ 128 := Nat.mul_lt_mul'' h1 h2
    rw [← hsum, two_pow_128] at h3
    by_contra hge
    have := Nat.mul_le_mul_right (2 ^ 64 * 2 ^ 64 * 2 ^ 64) (Nat.le_of_not_lt hge)
    omega
  have htop : (hh.1 + sC.2 + sD.2 + sE.2).toNat = hh.1.toNat + sC.2.toNat + sD.2.toNat + sE.2.toNat := by
    rw [UInt64.toNat_add, UInt64.toNat_add, UInt64.toNat_add]
    omega
  rw [← hsum]
  unfold wide4 wide
  rw [htop, two_pow_128]
  ring

/-! ## Wide shifts -/

theorem shl256Word_toNat (inw : List UInt64) (n i : Nat) :
    (shl256Word inw n i).toNat =
      (shl (inw.getD (i + n / 64) 0) (n % 64)).toNat + (shr (inw.getD (i + n / 64 + 1) 0) (64 - n % 64)).toNat := by
  have hzero : ∀ k, (shl 0 k).toNat = 0 := fun k => by
    rw [shl_toNat, UInt64.toNat_zero, Nat.zero_mul, Nat.zero_mod]
  have hzero' : ∀ k, (shr 0 k).toNat = 0 := fun k => by rw [shr_toNat, UInt64.toNat_zero, Nat.zero_div]
  have hout : ∀ k, inw.length ≤ k → inw.getD k 0 = 0 := fun k hk => List.getD_eq_default _ _ hk
  unfold shl256Word
  dsimp only
  split
  · rename_i h
    rw [hout _ h, hout _ (by omega), hzero, hzero']
    rfl
  · split
    · exact shl_or_shr _ _ (by omega)
    · rename_i h
      by_cases hs : n % 64 = 0
      · rw [hs, Nat.sub_zero, shr_toNat, Nat.div_eq_of_lt (UInt64.toNat_lt _), Nat.add_zero]
      · rw [hout (i + n / 64 + 1) (by omega), hzero', Nat.add_zero]

/-- A shift that loses no bit at the top multiplies. -/
theorem shl256_spec (a3 a2 a1 a0 : UInt64) (hn : n < 256) (hfit : wide4 a3 a2 a1 a0 * 2 ^ n < 2 ^ 256) :
    wide4 (shl256 a3 a2 a1 a0 n).1 (shl256 a3 a2 a1 a0 n).2.1 (shl256 a3 a2 a1 a0 n).2.2.1
      (shl256 a3 a2 a1 a0 n).2.2.2 = wide4 a3 a2 a1 a0 * 2 ^ n := by
  have hs : n % 64 ≤ 64 := by omega
  have hpow : (2 : Nat) ^ n = 2 ^ (n % 64) * 2 ^ (64 * (n / 64)) := by
    rw [← pow_add, Nat.mod_add_div]
  have h3 := shifted a3 hs
  have h2 := shifted a2 hs
  have h1 := shifted a1 hs
  have h0 := shifted a0 hs
  have hw : n / 64 = 0 ∨ n / 64 = 1 ∨ n / 64 = 2 ∨ n / 64 = 3 := by omega
  have hz : ((0 : UInt64)).toNat = 0 := rfl
  have hz1 := shifted 0 hs
  unfold shl256
  dsimp only
  unfold wide4 wide at hfit ⊢
  simp only [shl256Word_toNat]
  rw [hpow] at hfit ⊢
  rw [hz, Nat.zero_mul] at hz1
  generalize hS : (2 : Nat) ^ (n % 64) = S at *
  have expand : ((a3.toNat * 2 ^ 64 + a2.toNat) * 2 ^ 128 + (a1.toNat * 2 ^ 64 + a0.toNat)) * S =
      (a3.toNat * S * 2 ^ 64 + a2.toNat * S) * 2 ^ 128 + (a1.toNat * S * 2 ^ 64 + a0.toNat * S) := by ring
  rw [← Nat.mul_assoc, expand] at hfit ⊢
  rcases hw with hw | hw | hw | hw
  all_goals
    rw [hw] at hfit ⊢
    simp only [Nat.zero_add, Nat.reduceAdd, List.getD_cons_zero, List.getD_cons_succ, List.getD_nil, Nat.reduceMul,
      Nat.add_zero, pow_zero, Nat.mul_one] at hfit ⊢
    omega

/-- A word split at a bit: above it and below it. -/
theorem split_at (x : UInt64) (h : n ≤ 64) :
    x.toNat = (shr x n).toNat * 2 ^ n + x.toNat % 2 ^ n ∧ x.toNat % 2 ^ n < 2 ^ n ∧
      (shl x (64 - n)).toNat = x.toNat % 2 ^ n * 2 ^ (64 - n) := by
  rw [shr_toNat, shl_toNat]
  have hpow : (2 : Nat) ^ 64 = 2 ^ n * 2 ^ (64 - n) := by rw [← pow_add]; congr 1; omega
  refine ⟨(Nat.div_add_mod' _ _).symm, Nat.mod_lt _ (Nat.two_pow_pos n), ?_⟩
  rw [hpow, Nat.mul_mod_mul_right]

/-- The round bit and the sticky bit of the `n` lowest bits of a word. -/
theorem low_bits (x : UInt64) (h1 : 1 ≤ n) (h : n ≤ 64) :
    (shr x (n - 1) &&& 1 ≠ 0 ↔ 2 ^ n ≤ 2 * (x.toNat % 2 ^ n)) ∧
      ((if 2 ≤ n then decide (x &&& (bit (n - 1) - 1) ≠ 0) else false) = true ↔ 2 * (x.toNat % 2 ^ n) % 2 ^ n ≠ 0) := by
  obtain ⟨k, rfl⟩ : ∃ k, n = k + 1 := ⟨n - 1, by omega⟩
  rw [Nat.add_sub_cancel]
  have hpos := Nat.two_pow_pos k
  have hmod : x.toNat % 2 ^ (k + 1) = x.toNat % 2 ^ k + 2 ^ k * (x.toNat / 2 ^ k % 2) := by
    rw [pow_succ, Nat.mod_mul]
  have hlt := Nat.mod_lt x.toNat hpos
  have hbit : x.toNat / 2 ^ k % 2 = 0 ∨ x.toNat / 2 ^ k % 2 = 1 := by omega
  have hmul : 2 * (x.toNat % 2 ^ (k + 1)) % 2 ^ (k + 1) = 2 * (x.toNat % 2 ^ k) := by
    rw [pow_succ, Nat.mul_comm (2 ^ k) 2, Nat.mul_mod_mul_left, Nat.mul_comm 2 (2 ^ k),
      Nat.mod_mul_right_mod]
  constructor
  · rw [and_one_ne_zero, shr_toNat, hmod, pow_succ]
    rcases hbit with hb | hb <;> rw [hb]
    · simp only [Nat.mul_zero, Nat.add_zero]
      omega
    · simp only [Nat.mul_one, true_iff]
      omega
  · rw [hmul]
    split
    · rw [decide_eq_true_eq, and_below_ne_zero (bit_sub_one_toNat (by omega))]
      omega
    · have hk : k = 0 := by omega
      subst hk
      rw [pow_zero, Nat.mod_one]
      simp

/-- **A shift to the right**: what it keeps, what it drops, and the two bits that describe the drop. -/
theorem shr128gs_spec (hi lo : UInt64) (hn : n ≤ 128) :
    ∃ t, wide hi lo = wide (shr128gs hi lo n).1 (shr128gs hi lo n).2.1 * 2 ^ n + t ∧ t < 2 ^ n ∧
      ((shr128gs hi lo n).2.2.1 = true ↔ 2 ^ n ≤ 2 * t) ∧ ((shr128gs hi lo n).2.2.2 = true ↔ 2 * t % 2 ^ n ≠ 0) := by
  have hhi := hi.toNat_lt
  have hlo := lo.toNat_lt
  have hz : (0 : UInt64).toNat = 0 := rfl
  unfold shr128gs shr128
  rcases Nat.eq_zero_or_pos n with rfl | hpos
  · refine ⟨0, by simp, by simp, by simp, by simp⟩
  have hn0 : n ≠ 0 := by omega
  rcases Nat.lt_or_ge n 64 with h64 | h64
  · -- both words move
    obtain ⟨hround, hsticky⟩ := low_bits lo (by omega) h64.le
    obtain ⟨hsplit, hlt, hshl⟩ := split_at hi h64.le
    have hlow := (split_at lo h64.le).1
    have hor := shl_or_shr hi lo (n := 64 - n) (by omega)
    rw [Nat.sub_sub_self h64.le] at hor
    have hpow : (2 : Nat) ^ (64 - n) * 2 ^ n = 2 ^ 64 := by rw [← pow_add]; congr 1; omega
    simp only [if_neg hn0, if_pos h64, if_pos h64.le]
    refine ⟨lo.toNat % 2 ^ n, ?_, Nat.mod_lt _ (Nat.two_pow_pos n), ?_, hsticky⟩
    · unfold wide
      rw [UInt64.or_comm, hor, hshl]
      calc hi.toNat * 2 ^ 64 + lo.toNat
          = ((shr hi n).toNat * 2 ^ n + hi.toNat % 2 ^ n) * 2 ^ 64 + ((shr lo n).toNat * 2 ^ n + lo.toNat % 2 ^ n) := by
            rw [← hsplit, ← hlow]
        _ = ((shr hi n).toNat * 2 ^ n * 2 ^ 64 + hi.toNat % 2 ^ n * (2 ^ (64 - n) * 2 ^ n)) +
              ((shr lo n).toNat * 2 ^ n + lo.toNat % 2 ^ n) := by rw [hpow]; ring
        _ = _ := by ring
    · rw [decide_eq_true_eq]
      exact hround
  rcases Nat.eq_or_lt_of_le h64 with h64 | h64
  · -- the low word leaves
    subst h64
    obtain ⟨hround, hsticky⟩ := low_bits lo (n := 64) (by omega) le_rfl
    rw [Nat.mod_eq_of_lt hlo] at hround hsticky
    simp only [if_neg hn0, if_neg (lt_irrefl 64), if_pos (by omega : 64 < 128), if_pos le_rfl]
    refine ⟨lo.toNat, ?_, hlo, ?_, hsticky⟩
    · unfold wide
      rw [shr_toNat, Nat.sub_self, pow_zero, Nat.div_one, hz]
      ring
    · rw [decide_eq_true_eq]
      exact hround
  rcases Nat.lt_or_ge n 128 with h128 | h128
  · -- the low word leaves and a part of the high word
    obtain ⟨m, rfl⟩ : ∃ m, n = 64 + (m + 1) := ⟨n - 65, by omega⟩
    obtain ⟨hround, hsticky⟩ := low_bits hi (n := m + 1) (by omega) (by omega)
    obtain ⟨hsplit, hlt, -⟩ := split_at hi (n := m + 1) (by omega)
    have hpow : (2 : Nat) ^ (64 + (m + 1)) = 2 ^ (m + 1) * 2 ^ 64 := by rw [← pow_add]; congr 1; omega
    have heven : (2 : Nat) ^ (m + 1) = 2 * 2 ^ m := by rw [pow_succ, Nat.mul_comm]
    simp only [if_neg hn0, if_neg (by omega : ¬ 64 + (m + 1) < 64), if_pos h128,
      if_neg (by omega : ¬ 64 + (m + 1) ≤ 64), Nat.add_sub_cancel_left]
    refine ⟨hi.toNat % 2 ^ (m + 1) * 2 ^ 64 + lo.toNat, ?_, ?_, ?_, ?_⟩
    · unfold wide
      rw [hz, hpow]
      calc hi.toNat * 2 ^ 64 + lo.toNat
          = ((shr hi (m + 1)).toNat * 2 ^ (m + 1) + hi.toNat % 2 ^ (m + 1)) * 2 ^ 64 + lo.toNat := by rw [← hsplit]
        _ = _ := by ring
    · rw [hpow]
      omega
    · rw [decide_eq_true_eq, hround, hpow]
      omega
    · have hdouble : 2 * (hi.toNat % 2 ^ (m + 1) * 2 ^ 64 + lo.toNat) % 2 ^ (64 + (m + 1)) =
          2 * (hi.toNat % 2 ^ (m + 1)) % 2 ^ (m + 1) * 2 ^ 64 + 2 * lo.toNat := by
        rw [hpow]
        generalize hi.toNat % 2 ^ (m + 1) = h at hlt ⊢
        rw [heven] at hlt ⊢
        rw [Nat.mul_mod_mul_left]
        have hh := Nat.div_add_mod h (2 ^ m)
        have hr := Nat.mod_lt h (Nat.two_pow_pos m)
        have hsum : 2 * (h * 2 ^ 64 + lo.toNat) =
            2 * (h % 2 ^ m) * 2 ^ 64 + 2 * lo.toNat + 2 * 2 ^ m * 2 ^ 64 * (h / 2 ^ m) := by
          rw [← hh, Nat.mul_add_div (Nat.two_pow_pos m), Nat.div_eq_of_lt hr, Nat.mul_add_mod, Nat.mod_mod]
          ring
        rw [hsum, Nat.add_mul_mod_self_left]
        apply Nat.mod_eq_of_lt
        omega
      rw [Bool.or_eq_true, decide_eq_true_eq, hsticky, hdouble, ne_zero_iff]
      omega
  · -- everything leaves
    have hn128 : n = 128 := by omega
    subst hn128
    simp only [if_neg hn0, if_neg (by omega : ¬ 128 < 64), if_neg (lt_irrefl 128), if_neg (by omega : ¬ 128 ≤ 64)]
    refine ⟨wide hi lo, ?_, wide_lt hi lo, ?_, ?_⟩
    · unfold wide
      rw [hz]
      omega
    · rw [decide_eq_true_eq, and_top_ne_zero]
      unfold wide
      omega
    · rw [Bool.or_eq_true, decide_eq_true_eq, decide_eq_true_eq, and_below_ne_zero not_top_toNat, ne_zero_iff]
      unfold wide
      omega

end Crypto
end Algod
