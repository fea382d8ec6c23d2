import AlgodRust.Crypto.F128Rounding
/-!
# F128Correct — sums, conversions, the order and the ratio of a digest

The rest of the arithmetic of the float: a sum drops what the smaller mantissa has below the larger one, a word
converts exactly, the comparison is the order of the values, and the ratio of a digest divides by `2 ^ 256` and takes an
exact half for more than a half, which it is by the real denominator.  `arithmetic_correctly_rounded` is the whole.
-/
namespace Algod
namespace Crypto
namespace F128

open Rounding (Normal Nearest)

variable {a b : F128} {x : ℚ}

/-! ## Addition -/

/-- A float is the nearest one to its own value. -/
theorem WellFormed.rounds (h : a.WellFormed) : Rounds a.val a := by
  rcases wellFormed_iff.1 h with hz | hn
  · unfold Rounds val
    rw [hz, Nat.cast_zero, zero_mul]
    exact nearest_zero _
  · apply Rounding.nearest_down hn le_rfl
    left
    rw [sub_self, mul_zero]
    exact Rounding.two_zpow_pos _

theorem exp_ofInt (a : F128) : a.exp = Int64.ofInt a.exp.toInt := (Int64.ofInt_toInt a.exp).symm

theorem Rounds.wraps (h : Rounds x a) : Wraps x a := ⟨a.exp.toInt, h, exp_ofInt a⟩

/-- A mantissa shifted to the right by one bit, with a carry that comes in at the top. -/
theorem carried_words (shi slo : UInt64) :
    2 ^ 128 + wide shi slo = wide (shr shi 1 ||| bit 63) (shr slo 1 ||| shl shi 63) * 2 + slo.toNat % 2 ∧
      2 ^ 63 ≤ (shr shi 1 ||| bit 63).toNat := by
  have hhi := shl_or_shr 1 shi (n := 63) (by omega)
  have hlo := shl_or_shr shi slo (n := 63) (by omega)
  simp only [Nat.reduceSub] at hhi hlo
  have h1 : (1 : UInt64).toNat = 1 := rfl
  have hshi := shi.toNat_lt
  have hslo := slo.toNat_lt
  rw [shl_toNat, shr_toNat, h1] at hhi
  rw [shl_toNat, shr_toNat] at hlo
  unfold bit wide
  rw [UInt64.or_comm (shr shi 1), hhi, UInt64.or_comm (shr slo 1), hlo]
  omega

/-- A sum that carries: the last bit of the sum above what the shift dropped. -/
theorem tail_of_odd_sum {slo : UInt64} {round sticky : Bool} {t n : Nat} (ht : t < 2 ^ n)
    (hround : round = true ↔ 2 ^ n ≤ 2 * t) (hsticky : sticky = true ↔ 2 * t % 2 ^ n ≠ 0) :
    Tail (decide (slo &&& 1 ≠ 0)) (sticky || round)
      (((slo.toNat % 2 * 2 ^ n + t : Nat) : ℚ) / (2 * 2 ^ n : Nat)) := by
  have hodd : (decide (slo &&& 1 ≠ 0) = true) ↔ slo.toNat % 2 = 1 := by rw [decide_eq_true_eq, and_one_ne_zero]
  have hdropped : (sticky || round) = true ↔ t ≠ 0 := by
    rw [Bool.or_eq_true, hsticky, hround]
    constructor
    · rintro (h | h) rfl
      · simp at h
      · omega
    · intro h
      by_cases hbig : 2 ^ n ≤ 2 * t
      · exact .inr hbig
      · left
        rw [Nat.mod_eq_of_lt (by omega)]
        omega
  generalize 2 ^ n = d at *
  have hmod : slo.toNat % 2 = 0 ∨ slo.toNat % 2 = 1 := by omega
  apply tail_of_remainder
  · rcases hmod with h | h <;> rw [h] <;> omega
  · rw [hodd]
    rcases hmod with h | h <;> rw [h] <;> omega
  · intro h
    rw [hodd] at h
    rw [hdropped, h]
    omega

theorem sub_toInt (hle : b.exp.toInt ≤ a.exp.toInt) (hlt : a.exp.toInt - b.exp.toInt < 2 ^ 63) :
    (a.exp - b.exp).toInt = a.exp.toInt - b.exp.toInt := by
  rw [Int64.toInt_sub]
  exact Int.bmod_eq_of_le_mul_two (by omega) (by omega)

/-- **A sum is rounded correctly**, up to the wrap of its exponent. -/
theorem addOrdered_wraps (ha : Normal 128 a.mant) (hb : Normal 128 b.mant) (hle : b.exp.toInt ≤ a.exp.toInt)
    (hlt : a.exp.toInt - b.exp.toInt < 2 ^ 63) : Wraps (a.val + b.val) (a.addOrdered b) := by
  have hsub := sub_toInt hle hlt
  unfold addOrdered
  have h128 : (128 : Int64).toInt = 128 := rfl
  have htest : 128 < a.exp - b.exp ↔ 128 < a.exp.toInt - b.exp.toInt := by
    rw [Int64.lt_iff_toInt_lt, h128, hsub]
  by_cases hfar : 128 < a.exp.toInt - b.exp.toInt
  · -- the smaller one is below the round bit
    rw [if_pos (htest.2 hfar)]
    apply Rounds.wraps
    have hsmall : 2 * b.val < 2 ^ a.exp.toInt := by
      have hm : (b.mant : ℚ) < 2 ^ (128 : ℤ) := by
        rw [zpow_ofNat]
        exact_mod_cast hb.2
      calc 2 * b.val < 2 * (2 ^ (128 : ℤ) * 2 ^ b.exp.toInt) := by
            unfold val
            have := mul_lt_mul_of_pos_right hm (Rounding.two_zpow_pos b.exp.toInt)
            linarith
        _ = 2 ^ (b.exp.toInt + 129) := by
            rw [zpow_add₀ two_ne_zero]
            have : (2 : ℚ) ^ (129 : ℤ) = 2 * 2 ^ (128 : ℤ) := Rounding.two_zpow_succ 128
            rw [this]
            ring
        _ ≤ 2 ^ a.exp.toInt := zpow_le_zpow_right₀ one_le_two (by omega)
    have hdist : a.val + b.val - a.mant * 2 ^ a.exp.toInt = b.val := by
      unfold val
      ring
    apply Rounding.nearest_down ha
    · have := val_nonneg b
      linarith
    · left
      rw [hdist]
      exact hsmall
  · rw [if_neg (fun h => hfar (htest.1 h)), hsub]
    dsimp only
    obtain ⟨n, hn⟩ : ∃ n : Nat, a.exp.toInt - b.exp.toInt = n := ⟨(a.exp.toInt - b.exp.toInt).toNat, by omega⟩
    have hcast : ((n : ℤ) % 2 ^ 32).toNat = n := by omega
    rw [hn] at hfar ⊢
    rw [hcast]
    obtain ⟨t, ht, htlt, hround, hsticky⟩ := shr128gs_spec b.hi b.lo (n := n) (by omega)
    generalize shr128gs b.hi b.lo n = r at ht hround hsticky ⊢
    obtain ⟨bhi, blo, round, sticky⟩ := r
    dsimp only at ht hround hsticky ⊢
    have hsum := add128_spec a.hi a.lo bhi blo
    have hxval : a.val + b.val = ((wide a.hi a.lo + wide bhi blo : Nat) + (t : ℚ) / (2 ^ n : Nat)) * 2 ^ a.exp.toInt := by
      have hexp : a.exp.toInt = b.exp.toInt + n := by omega
      have hb' := split_val (wide bhi blo) t n b.exp.toInt
      rw [← ht, ← hexp] at hb'
      unfold val mant
      rw [hb']
      push_cast
      ring
    have hslt := wide_lt (add64 a.hi bhi (add64 a.lo blo 0).2).1 (add64 a.lo blo 0).1
    have halow := ha.1
    unfold mant at halow
    rw [hxval]
    generalize add64 a.lo blo 0 = low at hsum hslt ⊢
    generalize add64 a.hi bhi low.2 = high at hsum hslt ⊢
    split
    · -- a carry out of the mantissa
      rename_i hc
      rw [ne_zero_iff] at hc
      have hba := wide_lt a.hi a.lo
      have hbb := wide_lt bhi blo
      have hone : high.2.toNat = 1 := by omega
      rw [hone, Nat.one_mul] at hsum
      obtain ⟨hsplit, hnormal⟩ := carried_words high.1 low.1
      have hexp1 : a.exp + 1 = Int64.ofInt (a.exp.toInt + 1) := by
        rw [Int64.ofInt_add, Int64.ofInt_toInt]
        rfl
      have hx : ((wide a.hi a.lo + wide bhi blo : Nat) + (t : ℚ) / (2 ^ n : Nat)) * 2 ^ a.exp.toInt =
          (wide (shr high.1 1 ||| bit 63) (shr low.1 1 ||| shl high.1 63) +
            ((low.1.toNat % 2 * 2 ^ n + t : Nat) : ℚ) / (2 * 2 ^ n : Nat)) * 2 ^ (a.exp.toInt + 1) := by
        have hpos : (0 : ℚ) < 2 ^ n := by positivity
        rw [← hsum, hsplit, Rounding.two_zpow_succ]
        push_cast
        field_simp
        ring
      rw [hx, hexp1]
      exact roundNe_wraps _ hnormal (tail_of_odd_sum htlt hround hsticky)
    · rename_i hc
      rw [ne_zero_iff, not_not] at hc
      rw [hc, Nat.zero_mul, Nat.zero_add] at hsum
      have hnormal : 2 ^ 63 ≤ high.1.toNat := by
        have h1 := low.1.toNat_lt
        unfold wide at hsum halow
        omega
      rw [← hsum]
      have hexp0 := exp_ofInt a
      rw [hexp0, Int64.toInt_ofInt_of_le (Int64.le_toInt _) (Int64.toInt_lt _)]
      apply roundNe_wraps _ hnormal
      apply tail_of_remainder htlt hround
      intro h
      rw [hround] at h
      rw [hsticky]
      have hmod : 2 * t % 2 ^ n = 2 * t - 2 ^ n := by
        rw [Nat.mod_eq_sub_mod h, Nat.mod_eq_of_lt (by omega)]
      rw [hmod]
      omega

/-! ## Conversions and the order -/

/-- Bounds on a number that keep the exponent of its nearest value in an `i64`. -/
theorem exponentFits_of_bounds {k l : ℤ} (hk : (2 : ℚ) ^ k ≤ x) (hl : x ≤ (2 : ℚ) ^ l) (hlo : -2 ^ 63 + 128 ≤ k)
    (hhi : l < 2 ^ 63) : ExponentFits x := by
  have hpos : 0 < x := lt_of_lt_of_le (Rounding.two_zpow_pos k) hk
  have hnear := Rounding.roundPos_nearest (p := 128) (by omega) hpos
  obtain ⟨h1, h2⟩ := hnear.exponent_bounds (by omega) hk hl
  exact .inr ⟨_, _, hnear, by omega, by omega⟩

/-- **A word converts exactly.** -/
theorem fromU64_val (u : UInt64) : (fromU64 u).val = u.toNat ∧ (fromU64 u).WellFormed := by
  unfold fromU64
  split
  · rename_i h
    rw [h]
    exact ⟨by simp [val, mant, wide, zero], .inl rfl⟩
  · rename_i h
    obtain ⟨hlt, hlo, hhi⟩ := leadingZeros_spec h
    dsimp only
    generalize leadingZeros u = s at hlt hlo hhi ⊢
    have hshl : (shl u s).toNat = u.toNat * 2 ^ s := by
      rw [shl_toNat]
      exact Nat.mod_eq_of_lt hhi
    have hexp : (-Int64.ofNat s - 64).toInt = -(s : ℤ) - 64 := by
      have h : -Int64.ofNat s - 64 = Int64.ofInt (-(s : ℤ) - 64) := by
        rw [Int64.ofInt_sub, Int64.ofInt_neg, Int64.ofInt_eq_ofNat]
        rfl
      rw [h]
      exact Int64.toInt_ofInt_of_le (by omega) (by omega)
    refine ⟨?_, .inr (by dsimp only; omega)⟩
    unfold val mant wide
    dsimp only
    have h64 : (2 : ℚ) ^ (64 : ℤ) = 2 ^ 64 := zpow_natCast 2 64
    rw [hexp, hshl, UInt64.toNat_zero, zpow_sub₀ two_ne_zero, zpow_neg, zpow_natCast, h64]
    push_cast
    have hs : (0 : ℚ) < 2 ^ s := by positivity
    field_simp
    ring

theorem val_lt_of_exp_lt (ha : Normal 128 a.mant) (hb : Normal 128 b.mant) (h : a.exp.toInt < b.exp.toInt) :
    a.val < b.val := by
  have hma : (a.mant : ℚ) < 2 ^ 128 := by exact_mod_cast ha.2
  have hmb : (2 : ℚ) ^ 127 ≤ b.mant := by exact_mod_cast hb.1
  have hstep : (2 : ℚ) ^ 128 * 2 ^ a.exp.toInt ≤ 2 ^ 127 * 2 ^ b.exp.toInt := by
    have h1 : (2 : ℚ) ^ (a.exp.toInt + 1) ≤ 2 ^ b.exp.toInt := zpow_le_zpow_right₀ one_le_two (by omega)
    rw [Rounding.two_zpow_succ] at h1
    linarith
  unfold val
  calc (a.mant : ℚ) * 2 ^ a.exp.toInt < 2 ^ 128 * 2 ^ a.exp.toInt :=
        mul_lt_mul_of_pos_right hma (Rounding.two_zpow_pos _)
    _ ≤ 2 ^ 127 * 2 ^ b.exp.toInt := hstep
    _ ≤ b.mant * 2 ^ b.exp.toInt := mul_le_mul_of_nonneg_right hmb (Rounding.two_zpow_pos _).le

theorem compare_of_iff {α β : Type} [LinearOrder α] [LinearOrder β] {s t : α} {u v : β} (hlt : s < t ↔ u < v)
    (hgt : t < s ↔ v < u) : compare s t = compare u v := by
  rcases lt_trichotomy s t with h | h | h
  · rw [compare_lt_iff_lt.2 h, compare_lt_iff_lt.2 (hlt.1 h)]
  · have huv : u = v := by
      apply le_antisymm
      · exact not_lt.1 fun h' => (h ▸ hgt.2 h').ne rfl
      · exact not_lt.1 fun h' => (h ▸ hlt.2 h').ne rfl
    rw [compare_eq_iff_eq.2 h, compare_eq_iff_eq.2 huv]
  · rw [compare_gt_iff_gt.2 h, compare_gt_iff_gt.2 (hgt.1 h)]

theorem mant_lt_iff (h : a.exp = b.exp) : a.mant < b.mant ↔ a.val < b.val := by
  unfold val
  rw [h, mul_lt_mul_iff_left₀ (Rounding.two_zpow_pos b.exp.toInt), Nat.cast_lt]

/-- **The comparison is the order of the values.** -/
theorem cmp_eq (ha : a.WellFormed) (hb : b.WellFormed) : a.cmp b = compare a.val b.val := by
  unfold cmp
  have hna := val_nonneg a
  have hnb := val_nonneg b
  cases hza : a.isZero with
  | true =>
    have h0 := val_eq_zero_iff.2 hza
    cases hzb : b.isZero with
    | true =>
      have h1 := val_eq_zero_iff.2 hzb
      exact (compare_eq_iff_eq.2 (h0.trans h1.symm)).symm
    | false =>
      have h1 : b.val ≠ 0 := fun h => by rw [val_eq_zero_iff.1 h] at hzb; cases hzb
      exact (compare_lt_iff_lt.2 (by rw [h0]; exact lt_of_le_of_ne hnb h1.symm)).symm
  | false =>
    have h0 : a.val ≠ 0 := fun h => by rw [val_eq_zero_iff.1 h] at hza; cases hza
    cases hzb : b.isZero with
    | true =>
      have h1 := val_eq_zero_iff.2 hzb
      exact (compare_gt_iff_gt.2 (by rw [h1]; exact lt_of_le_of_ne hna h0.symm)).symm
    | false =>
      have hma : Normal 128 a.mant := (wellFormed_iff.1 ha).resolve_left fun h => by
        rw [← isZero_iff, hza] at h
        cases h
      have hmb : Normal 128 b.mant := (wellFormed_iff.1 hb).resolve_left fun h => by
        rw [← isZero_iff, hzb] at h
        cases h
      dsimp only
      split
      · rename_i hexp
        have hne : a.exp.toInt ≠ b.exp.toInt := fun h => hexp (Int64.toInt.inj h)
        rcases lt_or_gt_of_ne hne with hlt | hgt
        · rw [compare_lt_iff_lt.2 hlt, compare_lt_iff_lt.2 (val_lt_of_exp_lt hma hmb hlt)]
        · rw [compare_gt_iff_gt.2 hgt, compare_gt_iff_gt.2 (val_lt_of_exp_lt hmb hma hgt)]
      · rename_i hexp
        rw [not_not] at hexp
        have hlt := mant_lt_iff hexp
        have hgt := mant_lt_iff hexp.symm
        have hla := a.lo.toNat_lt
        have hlb := b.lo.toNat_lt
        unfold mant wide at hlt hgt
        split
        · rename_i hhi
          have hne : a.hi.toNat ≠ b.hi.toNat := fun h => hhi (UInt64.toNat_inj.1 h)
          apply compare_of_iff
          · rw [← hlt]
            omega
          · rw [← hgt]
            omega
        · rename_i hhi
          rw [not_not] at hhi
          rw [hhi] at hlt hgt
          apply compare_of_iff
          · rw [← hlt]
            omega
          · rw [← hgt]
            omega

/-! ## The ratio of a digest -/

/-- A number of 256 bits shifted until its top bit is set. -/
theorem normalized_256 {w : UInt64} {n k s r : Nat} (hw : w ≠ 0) (hn : n = w.toNat * 2 ^ k + r) (hr : r < 2 ^ k)
    (hks : k + s = 192) :
    s + leadingZeros w < 256 ∧ 2 ^ 255 ≤ n * 2 ^ (s + leadingZeros w) ∧ n * 2 ^ (s + leadingZeros w) < 2 ^ 256 := by
  obtain ⟨hlo, hhi⟩ := normalized hw hr
  have hlt := (leadingZeros_spec hw).1
  rw [← hn] at hlo hhi
  have hmul : n * 2 ^ (s + leadingZeros w) = n * 2 ^ leadingZeros w * 2 ^ s := by
    rw [pow_add]
    ring
  rw [hmul]
  refine ⟨by omega, ?_, ?_⟩
  · calc 2 ^ 255 = 2 ^ (63 + k) * 2 ^ s := by rw [← pow_add]; congr 1; omega
      _ ≤ _ := Nat.mul_le_mul_right _ hlo
  · calc _ < 2 ^ (64 + k) * 2 ^ s := Nat.mul_lt_mul_of_pos_right hhi (Nat.two_pow_pos s)
      _ = 2 ^ 256 := by rw [← pow_add]; congr 1; omega

/-- The leading zeros of four words. -/
theorem leading_spec {w3 w2 w1 w0 : UInt64} (h : ¬(w3 = 0 ∧ w2 = 0 ∧ w1 = 0 ∧ w0 = 0)) :
    let leading :=
      if w3 ≠ 0 then leadingZeros w3
      else if w2 ≠ 0 then 64 + leadingZeros w2
      else if w1 ≠ 0 then 128 + leadingZeros w1
      else 192 + leadingZeros w0
    leading < 256 ∧ 2 ^ 255 ≤ wide4 w3 w2 w1 w0 * 2 ^ leading ∧ wide4 w3 w2 w1 w0 * 2 ^ leading < 2 ^ 256 := by
  intro leading
  have h2 := w2.toNat_lt
  have h1 := w1.toNat_lt
  have h0 := w0.toNat_lt
  have hz : (0 : UInt64).toNat = 0 := rfl
  by_cases hw3 : w3 = 0
  · by_cases hw2 : w2 = 0
    · by_cases hw1 : w1 = 0
      · have hw0 : w0 ≠ 0 := fun hw0 => h ⟨hw3, hw2, hw1, hw0⟩
        have hl : leading = 192 + leadingZeros w0 := by simp [leading, hw3, hw2, hw1]
        rw [hl]
        apply normalized_256 (k := 0) (r := 0) hw0 _ (by omega) (by omega)
        rw [hw3, hw2, hw1]
        simp [wide4, wide]
      · have hl : leading = 128 + leadingZeros w1 := by simp [leading, hw3, hw2, hw1]
        rw [hl]
        apply normalized_256 (k := 64) (r := w0.toNat) hw1 _ (by omega) (by omega)
        rw [hw3, hw2]
        unfold wide4 wide
        omega
    · have hl : leading = 64 + leadingZeros w2 := by simp [leading, hw3, hw2]
      rw [hl]
      apply normalized_256 (k := 128) (r := wide w1 w0) hw2 _ (wide_lt w1 w0) (by omega)
      rw [hw3]
      unfold wide4
      simp [wide]
  · have hl : leading = 0 + leadingZeros w3 := by simp [leading, hw3]
    rw [hl]
    apply normalized_256 (k := 192) (r := w2.toNat * 2 ^ 128 + wide w1 w0) hw3
    · unfold wide4 wide
      omega
    · unfold wide
      omega
    · omega

/-- The words of a digest. -/
theorem digest_words (n : Nat) (h : n < 2 ^ 256) :
    wide4 (UInt64.ofNat (n >>> 192)) (UInt64.ofNat (n >>> 128)) (UInt64.ofNat (n >>> 64)) (UInt64.ofNat n) = n := by
  unfold wide4 wide
  simp only [UInt64.toNat_ofNat', Nat.shiftRight_eq_div_pow]
  omega

/-- What is dropped below the mantissa of a ratio by `2 ^ 256 - 1`: an exact half of the digest is more than a half. -/
theorem tail_of_ratio (n3 n2 n1 n0 : UInt64) :
    let roundBit := decide (n1 &&& bit 63 ≠ 0)
    let sticky := decide (n1 &&& ~~~(bit 63) ≠ 0) || decide (n0 ≠ 0)
    Tail roundBit (sticky || (roundBit && !sticky))
      (((wide n1 n0 * 2 ^ 128 + wide n3 n2 : Nat) : ℚ) / ((2 ^ 256 - 1 : Nat) : ℚ)) := by
  intro roundBit sticky
  have hround : roundBit = true ↔ 2 ^ 127 ≤ wide n1 n0 := by
    rw [decide_eq_true_eq, and_top_ne_zero]
    have := n0.toNat_lt
    unfold wide
    omega
  have hm := wide_lt n3 n2
  have ht := wide_lt n1 n0
  generalize wide n1 n0 = t at *
  generalize wide n3 n2 = m at *
  have hd : (0 : ℚ) < ((2 ^ 256 - 1 : Nat) : ℚ) := by norm_num
  refine ⟨by positivity, ?_, fun h => ?_, fun h hs => ?_, fun h _ => ?_⟩
  · rw [div_le_one hd, Nat.cast_le]
    omega
  · have hlt : t < 2 ^ 127 := by
      by_contra hge
      rw [hround.2 (not_lt.1 hge)] at h
      cases h
    rw [← mul_div_assoc, div_lt_one hd]
    have : 2 * (t * 2 ^ 128 + m) < 2 ^ 256 - 1 := by omega
    exact_mod_cast this
  · rw [h, Bool.true_and, Bool.or_not_self] at hs
    cases hs
  · have hge := hround.1 h
    rw [← mul_div_assoc, one_lt_div hd]
    have : 2 ^ 256 - 1 < 2 * (t * 2 ^ 128 + m) := by omega
    exact_mod_cast this

/-- A ratio by `w * w - 1` in units of a mantissa taken out of the numerator. -/
theorem ratio_split {d m t w l : ℚ} (hw : w ≠ 0) (hl : l ≠ 0) (hw1 : w * w - 1 ≠ 0) (h : m * w + t = d * l) :
    d / (w * w - 1) = (m + (t * w + m) / (w * w - 1)) * (w⁻¹ / l) := by
  have hsum : m + (t * w + m) / (w * w - 1) = w * (d * l) / (w * w - 1) := by
    rw [eq_div_iff hw1, add_mul, div_mul_cancel₀ _ hw1, ← h]
    ring
  rw [hsum]
  field_simp

/-- **The ratio of a digest is rounded correctly.** -/
theorem digestRatio_rounds (d : Bytes32) : Rounds (d.toNat / ((2 ^ 256 - 1 : Nat) : ℚ)) (f128FromDigestRatio d) := by
  have hwords := digest_words d.toNat d.isLt
  unfold f128FromDigestRatio
  dsimp only
  generalize UInt64.ofNat (d.toNat >>> 192) = w3 at *
  generalize UInt64.ofNat (d.toNat >>> 128) = w2 at *
  generalize UInt64.ofNat (d.toNat >>> 64) = w1 at *
  generalize UInt64.ofNat d.toNat = w0 at *
  split
  · rename_i hzero
    obtain ⟨rfl, rfl, rfl, rfl⟩ := hzero
    have hd0 : d.toNat = 0 := by rw [← hwords]; rfl
    rw [hd0, Nat.cast_zero, zero_div]
    exact nearest_zero _
  · rename_i hne
    obtain ⟨hlt, hge, hfit⟩ := leading_spec hne
    generalize (if w3 ≠ 0 then leadingZeros w3 else if w2 ≠ 0 then 64 + leadingZeros w2 else
      if w1 ≠ 0 then 128 + leadingZeros w1 else 192 + leadingZeros w0) = leading at hlt hge hfit ⊢
    have hshl := shl256_spec w3 w2 w1 w0 hlt hfit
    rw [hwords] at hshl hge
    generalize shl256 w3 w2 w1 w0 leading = n at hshl ⊢
    obtain ⟨n3, n2, n1, n0⟩ := n
    dsimp only at hshl ⊢
    rw [← hshl] at hge
    have hnormal : 2 ^ 63 ≤ n3.toNat := by
      have h2 := n2.toNat_lt
      have h1 := n1.toNat_lt
      have h0 := n0.toNat_lt
      unfold wide4 wide at hge
      omega
    have hexp : -128 - Int64.ofNat leading = Int64.ofInt (-128 - leading) := by
      rw [Int64.ofInt_sub, Int64.ofInt_eq_ofNat]
      rfl
    have hx : (d.toNat : ℚ) / ((2 ^ 256 - 1 : Nat) : ℚ) = (wide n3 n2 +
        ((wide n1 n0 * 2 ^ 128 + wide n3 n2 : Nat) : ℚ) / ((2 ^ 256 - 1 : Nat) : ℚ)) * 2 ^ (-128 - (leading : ℤ)) := by
      have hcast : (wide n3 n2 : ℚ) * 2 ^ 128 + wide n1 n0 = d.toNat * 2 ^ leading := by
        unfold wide4 at hshl
        exact_mod_cast hshl
      have hden : ((2 ^ 256 - 1 : Nat) : ℚ) = 2 ^ 128 * 2 ^ 128 - 1 := by norm_num
      have h128 : (2 : ℚ) ^ (-128 : ℤ) = (2 ^ 128)⁻¹ := by
        rw [zpow_neg]
        exact congrArg _ (zpow_natCast 2 128)
      rw [hden, zpow_sub₀ two_ne_zero, zpow_natCast, h128, Nat.cast_add, Nat.cast_mul, Nat.cast_pow, Nat.cast_ofNat]
      exact ratio_split (by positivity) (by positivity) (by norm_num) hcast
    have hwraps := @roundNe_wraps n3 n2 _ _ _ (-128 - (leading : ℤ)) hnormal (tail_of_ratio n3 n2 n1 n0)
    rw [hexp]
    rw [← hx] at hwraps
    refine hwraps.rounds ?_ (by positivity)
    have hpos : 1 ≤ d.toNat := by
      by_contra h0
      have : d.toNat = 0 := by omega
      rw [this, Nat.zero_mul] at hshl
      omega
    have hone : (1 : ℚ) ≤ d.toNat := by exact_mod_cast hpos
    have hden : (0 : ℚ) < ((2 ^ 256 - 1 : Nat) : ℚ) := by norm_num
    refine exponentFits_of_bounds (k := -256) (l := 0) ?_ ?_ (by norm_num) (by norm_num)
    · rw [le_div_iff₀ hden]
      refine le_trans ?_ hone
      norm_num
    · rw [zpow_zero, div_le_one hden, Nat.cast_le]
      exact Nat.le_pred_of_lt d.isLt

/-! ## Every operation -/

theorem normal_of_ne_zero (h : a.WellFormed) (hz : a.isZero = false) : Normal 128 a.mant :=
  (wellFormed_iff.1 h).resolve_left fun h0 => by
    rw [← isZero_iff, hz] at h0
    cases h0

theorem mul_rounds (ha : a.WellFormed) (hb : b.WellFormed) (hfit : ExponentFits (a.val * b.val)) :
    Rounds (a.val * b.val) (a.mul b) := by
  refine Wraps.rounds ?_ hfit (mul_nonneg (val_nonneg a) (val_nonneg b))
  cases hza : a.isZero with
  | true =>
    rw [mul_of_isZero (.inl hza), val_eq_zero_iff.2 hza, zero_mul]
    exact zero_wraps
  | false =>
    cases hzb : b.isZero with
    | true =>
      rw [mul_of_isZero (.inr hzb), val_eq_zero_iff.2 hzb, mul_zero]
      exact zero_wraps
    | false => exact mul_wraps (normal_of_ne_zero ha hza) (normal_of_ne_zero hb hzb)

theorem div_rounds (ha : a.WellFormed) (hb : b.WellFormed) (hb0 : b.isZero = false)
    (hfit : ExponentFits (a.val / b.val)) : Rounds (a.val / b.val) (a.div b) := by
  refine Wraps.rounds ?_ hfit (div_nonneg (val_nonneg a) (val_nonneg b))
  cases hza : a.isZero with
  | true =>
    have hdiv : a.div b = zero := by
      unfold div
      rw [hza, Bool.true_or, if_pos rfl]
    rw [hdiv, val_eq_zero_iff.2 hza, zero_div]
    exact zero_wraps
  | false => exact div_wraps (normal_of_ne_zero ha hza) (normal_of_ne_zero hb hb0)

theorem divU_rounds {u : UInt64} (ha : a.WellFormed) (hu : u ≠ 0) (hfit : ExponentFits (a.val / u.toNat)) :
    Rounds (a.val / u.toNat) (a.divU u) := by
  refine Wraps.rounds ?_ hfit (div_nonneg (val_nonneg a) (Nat.cast_nonneg _))
  cases hza : a.isZero with
  | true =>
    have hdiv : a.divU u = zero := by
      unfold divU
      rw [if_pos (.inl hza)]
    rw [hdiv, val_eq_zero_iff.2 hza, zero_div]
    exact zero_wraps
  | false => exact divU_wraps (normal_of_ne_zero ha hza) hu

/-- The exponents of a sum must not be further apart than an `i64` holds. -/
theorem add_rounds (ha : a.WellFormed) (hb : b.WellFormed)
    (hdist : a.isZero = false → b.isZero = false → |a.exp.toInt - b.exp.toInt| < 2 ^ 63)
    (hfit : ExponentFits (a.val + b.val)) : Rounds (a.val + b.val) (a.add b) := by
  refine Wraps.rounds ?_ hfit (add_nonneg (val_nonneg a) (val_nonneg b))
  unfold add
  cases hza : a.isZero with
  | true =>
    rw [if_pos rfl, val_eq_zero_iff.2 hza, zero_add]
    exact hb.rounds.wraps
  | false =>
    rw [if_neg Bool.false_ne_true]
    cases hzb : b.isZero with
    | true =>
      rw [if_pos rfl, val_eq_zero_iff.2 hzb, add_zero]
      exact ha.rounds.wraps
    | false =>
      rw [if_neg Bool.false_ne_true]
      have hma := normal_of_ne_zero ha hza
      have hmb := normal_of_ne_zero hb hzb
      have hdist := abs_lt.1 (hdist hza hzb)
      split
      · rename_i hlt
        rw [Int64.lt_iff_toInt_lt] at hlt
        rw [add_comm]
        exact addOrdered_wraps hmb hma hlt.le (by omega)
      · rename_i hge
        rw [Int64.lt_iff_toInt_lt, not_lt] at hge
        exact addOrdered_wraps hma hmb hge (by omega)

/-- **The arithmetic is correctly rounded**: wherever the exponent of the nearest normalized value is an `i64` (and, for
a sum of two that are not zero, the difference of the exponents), the operation returns that value, ties to even.  Words convert exactly, the
comparison is the order of the values, and the ratio of every digest is rounded correctly. -/
theorem arithmetic_correctly_rounded (a b : F128) (ha : a.WellFormed) (hb : b.WellFormed) :
    (ExponentFits (a.val * b.val) → Rounds (a.val * b.val) (a.mul b)) ∧
      ((a.isZero = false → b.isZero = false → |a.exp.toInt - b.exp.toInt| < 2 ^ 63) →
        ExponentFits (a.val + b.val) → Rounds (a.val + b.val) (a.add b)) ∧
      (b.isZero = false → ExponentFits (a.val / b.val) → Rounds (a.val / b.val) (a.div b)) ∧
      (∀ u : UInt64, 0 < u.toNat → ExponentFits (a.val / u.toNat) → Rounds (a.val / u.toNat) (a.divU u)) ∧
      (∀ u : UInt64, (fromU64 u).WellFormed ∧ (fromU64 u).val = u.toNat) ∧
      a.cmp b = compare a.val b.val ∧
      ∀ d : Bytes32, Rounds (d.toNat / ((2 ^ 256 - 1 : Nat) : ℚ)) (f128FromDigestRatio d) :=
  ⟨mul_rounds ha hb, add_rounds ha hb, div_rounds ha hb,
    fun _ hu hfit => divU_rounds ha (ne_zero_iff.2 hu.ne') hfit,
    fun u => ⟨(fromU64_val u).2, (fromU64_val u).1⟩, cmp_eq ha hb, digestRatio_rounds⟩

/-- One and three: their product, their sum and a third, which is rounded. -/
theorem arithmetic_correctly_rounded_third :
    Rounds ((fromU64 1).val * (fromU64 3).val) ((fromU64 1).mul (fromU64 3)) ∧
      Rounds ((fromU64 1).val + (fromU64 3).val) ((fromU64 1).add (fromU64 3)) ∧
      Rounds ((fromU64 1).val / (fromU64 3).val) ((fromU64 1).div (fromU64 3)) := by
  obtain ⟨hmul, hadd, hdiv, -⟩ :=
    arithmetic_correctly_rounded (fromU64 1) (fromU64 3) (fromU64_val 1).2 (fromU64_val 3).2
  have h1 : (fromU64 1).val = 1 := (fromU64_val 1).1.trans Nat.cast_one
  have h3 : (fromU64 3).val = 3 := (fromU64_val 3).1
  refine ⟨hmul ?_, hadd (fun _ _ => by decide) ?_, hdiv (by decide) ?_⟩ <;> rw [h1, h3]
  · exact exponentFits_of_bounds (k := 1) (l := 2) (by norm_num) (by norm_num) (by norm_num) (by norm_num)
  · exact exponentFits_of_bounds (k := 1) (l := 2) (by norm_num) (by norm_num) (by norm_num) (by norm_num)
  · exact exponentFits_of_bounds (k := -2) (l := 0) (by norm_num) (by norm_num) (by norm_num) (by norm_num)

end F128
end Crypto
end Algod
