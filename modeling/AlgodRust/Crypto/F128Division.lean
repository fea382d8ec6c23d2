import AlgodRust.Crypto.F128Words
/-!
# F128Division — one digit of a long division is exact

The estimate `qhat` of a quotient digit satisfies `qhat * v1 + rhat = uHi:uMid`, so the test of the loop compares
`qhat` times the divisor with the dividend.  The loop lowers `qhat` only while the product is too large, and ends when
it is not, or when `rhat` has left its word and the product cannot be.  So the digit is exact and the step never
adds the divisor back.
-/
namespace Algod
namespace Crypto
namespace F128

variable {uHi uMid uLo v1 v0 : UInt64}

/-- A digit of a quotient. -/
def Digit (dividend divisor q : Nat) : Prop := q * divisor ≤ dividend ∧ dividend < (q + 1) * divisor

/-- The test of the loop: the high and low word of a product against `rhat:uLo`. -/
theorem product_exceeds (uLo v0 q rhat : UInt64) :
    (rhat < (mul64 q v0).1 ∨ (mul64 q v0).1 = rhat ∧ uLo < (mul64 q v0).2) ↔
      rhat.toNat * 2 ^ 64 + uLo.toNat < q.toNat * v0.toNat := by
  rw [← mul64_spec]
  have h1 := (mul64 q v0).2.toNat_lt
  have h2 := uLo.toNat_lt
  generalize mul64 q v0 = p at *
  unfold wide
  rw [UInt64.lt_iff_toNat_lt, UInt64.lt_iff_toNat_lt, ← UInt64.toNat_inj]
  omega

/-- The product of a digit and the divisor against the dividend, by the remainder that is left for the low word. -/
theorem product_le_iff {q r h v1 : Nat} (l v0 w : Nat) (hinv : q * v1 + r = h) :
    q * (v1 * w + v0) ≤ h * w + l ↔ q * v0 ≤ r * w + l := by
  have hq : q * (v1 * w + v0) = q * v1 * w + q * v0 := by ring
  have hh : h * w = q * v1 * w + r * w := by rw [← hinv]; ring
  rw [hq, hh]
  omega

/-- **The loop ends at the digit.** -/
theorem lowerQhat_digit (hv0 : v0.toNat < 2 ^ 64) : ∀ (qhat : Nat) (rhat : UInt64), qhat < 2 ^ 64 →
    qhat * v1.toNat + rhat.toNat = wide uHi uMid →
    wide uHi uMid * 2 ^ 64 + uLo.toNat < (qhat + 1) * wide v1 v0 →
    Digit (wide uHi uMid * 2 ^ 64 + uLo.toNat) (wide v1 v0) (lowerQhat uLo v1 v0 qhat rhat) ∧
      lowerQhat uLo v1 v0 qhat rhat ≤ qhat
  | 0, rhat, _, _, hmax => ⟨⟨by rw [lowerQhat, Nat.zero_mul]; exact Nat.zero_le _, hmax⟩, le_refl _⟩
  | qhat + 1, rhat, hlt, hinv, hmax => by
    have hq : (UInt64.ofNat (qhat + 1)).toNat = qhat + 1 := ofNat_toNat_of_lt hlt
    have htest := product_exceeds uLo v0 (UInt64.ofNat (qhat + 1)) rhat
    rw [hq] at htest
    have hle := product_le_iff uLo.toNat v0.toNat (2 ^ 64) hinv
    unfold lowerQhat
    dsimp only
    by_cases hbig : rhat.toNat * 2 ^ 64 + uLo.toNat < (qhat + 1) * v0.toNat
    · rw [if_pos (htest.2 hbig)]
      have hover : wide uHi uMid * 2 ^ 64 + uLo.toNat < (qhat + 1) * wide v1 v0 :=
        not_le.1 fun h => absurd (hle.1 h) (not_le.2 hbig)
      have hsum := add64_spec rhat v1 0
      rw [UInt64.toNat_zero, Nat.add_zero] at hsum
      have hmul : (qhat + 1) * v1.toNat = qhat * v1.toNat + v1.toNat := by ring
      split
      · -- `rhat` leaves its word, past every product
        rename_i hc
        rw [ne_zero_iff] at hc
        refine ⟨⟨?_, hover⟩, Nat.le_succ _⟩
        have hinv' : qhat * v1.toNat + (rhat.toNat + v1.toNat) = wide uHi uMid := by omega
        have hprod : qhat * v0.toNat ≤ (rhat.toNat + v1.toNat) * 2 ^ 64 + uLo.toNat := by
          have h1 : qhat * v0.toNat ≤ 2 ^ 64 * 2 ^ 64 := Nat.mul_le_mul (by omega) hv0.le
          have h2 : 2 ^ 64 * 2 ^ 64 ≤ (rhat.toNat + v1.toNat) * 2 ^ 64 := Nat.mul_le_mul_right _ (by omega)
          omega
        exact (product_le_iff uLo.toNat v0.toNat (2 ^ 64) hinv').2 hprod
      · rename_i hc
        rw [ne_zero_iff, not_not] at hc
        obtain ⟨hdigit, hqle⟩ := lowerQhat_digit hv0 qhat (add64 rhat v1 0).1 (by omega) (by omega) hover
        exact ⟨hdigit, by omega⟩
    · rw [if_neg (fun h => hbig (htest.1 h))]
      exact ⟨⟨hle.2 (not_lt.1 hbig), hmax⟩, le_refl _⟩

/-- **The estimate of a digit is the digit.** -/
theorem estimate_digit (uLo : UInt64) (hv : 0 < v1.toNat) (hr : wide uHi uMid < wide v1 v0) :
    Digit (wide uHi uMid * 2 ^ 64 + uLo.toNat) (wide v1 v0) (estimate uHi uMid uLo v1 v0).toNat := by
  have hv0 := v0.toNat_lt
  have hmid := uMid.toNat_lt
  have hlo := uLo.toNat_lt
  unfold estimate
  split
  · -- the high words agree: the largest digit
    rename_i hge
    rw [UInt64.le_iff_toNat_le] at hge
    have htop : uHi.toNat = v1.toNat := by
      unfold wide at hr
      omega
    have hmax : wide uHi uMid * 2 ^ 64 + uLo.toNat < (2 ^ 64 - 1 + 1) * wide v1 v0 := by
      have := Nat.mul_le_mul_right (2 ^ 64) (Nat.succ_le_of_lt hr)
      omega
    have hsum := add64_spec uMid v1 0
    rw [UInt64.toNat_zero, Nat.add_zero] at hsum
    have hinv : (2 ^ 64 - 1) * v1.toNat + (uMid.toNat + v1.toNat) = wide uHi uMid := by
      unfold wide
      omega
    dsimp only
    split
    · rename_i hc
      rw [ne_zero_iff] at hc
      rw [ofNat_toNat_of_lt (by omega)]
      refine ⟨?_, hmax⟩
      have hprod : (2 ^ 64 - 1) * v0.toNat ≤ (uMid.toNat + v1.toNat) * 2 ^ 64 + uLo.toNat := by
        omega
      exact (product_le_iff uLo.toNat v0.toNat (2 ^ 64) hinv).2 hprod
    · rename_i hc
      rw [ne_zero_iff, not_not] at hc
      obtain ⟨hdigit, hle⟩ := lowerQhat_digit hv0 (2 ^ 64 - 1) (add64 uMid v1 0).1 (by omega) (by omega) hmax
      rw [ofNat_toNat_of_lt (by omega)]
      exact hdigit
  · rename_i hlt
    rw [UInt64.le_iff_toNat_le, not_le] at hlt
    obtain ⟨hdiv, hrem⟩ := div64_spec uHi uMid hlt
    have hq := (div64 uHi uMid v1).1.toNat_lt
    generalize div64 uHi uMid v1 = d at hdiv hrem hq ⊢
    dsimp only
    have hmax : wide uHi uMid * 2 ^ 64 + uLo.toNat < (d.1.toNat + 1) * wide v1 v0 := by
      have h1 : (d.1.toNat + 1) * v1.toNat = d.1.toNat * v1.toNat + v1.toNat := by ring
      have h2 : wide uHi uMid + 1 ≤ (d.1.toNat + 1) * v1.toNat := by omega
      calc wide uHi uMid * 2 ^ 64 + uLo.toNat < (wide uHi uMid + 1) * 2 ^ 64 := by omega
        _ ≤ (d.1.toNat + 1) * v1.toNat * 2 ^ 64 := Nat.mul_le_mul_right _ h2
        _ = (d.1.toNat + 1) * (v1.toNat * 2 ^ 64) := by ring
        _ ≤ (d.1.toNat + 1) * wide v1 v0 := Nat.mul_le_mul_left _ (by unfold wide; omega)
    obtain ⟨hdigit, hle⟩ := lowerQhat_digit hv0 d.1.toNat d.2 hq hdiv hmax
    rw [ofNat_toNat_of_lt (by omega)]
    exact hdigit

/-- **One step of the division**: the digit and the remainder. -/
theorem divStep_spec (uHi uMid uLo : UInt64) (hv : 0 < v1.toNat) (hr : wide uHi uMid < wide v1 v0) :
    (divStep uHi uMid uLo v1 v0).1.toNat * wide v1 v0 +
        wide (divStep uHi uMid uLo v1 v0).2.1 (divStep uHi uMid uLo v1 v0).2.2 = wide uHi uMid * 2 ^ 64 + uLo.toNat ∧
      wide (divStep uHi uMid uLo v1 v0).2.1 (divStep uHi uMid uLo v1 v0).2.2 < wide v1 v0 := by
  obtain ⟨hle, hmax⟩ := estimate_digit uLo hv hr
  unfold divStep
  dsimp only
  generalize estimate uHi uMid uLo v1 v0 = qhat at hle hmax ⊢
  have hp1 := mul64_spec qhat v1
  have hp0 := mul64_spec qhat v0
  generalize mul64 qhat v1 = p1 at hp1 ⊢
  generalize mul64 qhat v0 = p0 at hp0 ⊢
  have hmid := add64_spec p1.2 p0.1 0
  have hmid1 := carry_le_one p1.2 p0.1
  generalize add64 p1.2 p0.1 0 = mid at hmid hmid1 ⊢
  obtain ⟨hs0, hb0⟩ := sub64_spec uLo p0.2 0 (by decide)
  generalize sub64 uLo p0.2 0 = s0 at hs0 hb0 ⊢
  obtain ⟨hs1, hb1⟩ := sub64_spec uMid mid.1 _ hb0
  generalize sub64 uMid mid.1 s0.2 = s1 at hs1 hb1 ⊢
  obtain ⟨hs2, hb2⟩ := sub64_spec uHi (p1.1 + mid.2) _ hb1
  generalize sub64 uHi (p1.1 + mid.2) s1.2 = s2 at hs2 hb2 ⊢
  rw [UInt64.toNat_zero] at hmid hs0
  -- the product as three words
  have hprod : qhat.toNat * wide v1 v0 = (p1.1.toNat + mid.2.toNat) * 2 ^ 128 + wide mid.1 p0.2 := by
    unfold wide at hp1 hp0 ⊢
    rw [two_pow_128]
    generalize (2 : Nat) ^ 64 = w at *
    zify at *
    linear_combination -w * hp1 - hp0 - w * hmid
  have hV := wide_lt v1 v0
  have hhi : (p1.1 + mid.2).toNat = p1.1.toNat + mid.2.toNat := by
    have hq := qhat.toNat_lt
    have hlt : qhat.toNat * wide v1 v0 < 2 ^ 64 * 2 ^ 128 := Nat.mul_lt_mul'' hq hV
    rw [UInt64.toNat_add]
    omega
  rw [hhi] at hs2
  -- the difference as three words and a borrow
  have hdiff : s2.1.toNat * 2 ^ 128 + wide s1.1 s0.1 + qhat.toNat * wide v1 v0 =
      wide uHi uMid * 2 ^ 64 + uLo.toNat + s2.2.toNat * (2 ^ 64 * 2 ^ 128) := by
    rw [hprod]
    unfold wide
    rw [two_pow_128]
    generalize (2 : Nat) ^ 64 = w at *
    zify at *
    linear_combination w * w * hs2 + w * hs1 + hs0
  have hs2lt := s2.1.toNat_lt
  have hslt := wide_lt s1.1 s0.1
  have hmul : (qhat.toNat + 1) * wide v1 v0 = qhat.toNat * wide v1 v0 + wide v1 v0 := by ring
  rw [hmul] at hmax
  have hborrow : s2.2.toNat = 0 := by omega
  have hzero : s2.2 = 0 := UInt64.toNat_inj.1 hborrow
  rw [if_neg (not_not.2 hzero)]
  dsimp only
  omega

end F128
end Crypto
end Algod
