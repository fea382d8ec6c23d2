import Mathlib.Data.Int.Log
import Mathlib.Data.Rat.Floor
import Mathlib.Algebra.Order.Field.Power
import Mathlib.Tactic.Linarith
import Mathlib.Tactic.Positivity
import Mathlib.Tactic.Ring
/-!
# Rounding — nearest values with a mantissa of `p` bits, ties to even

The non-negative values of a binary float with `p` bits of mantissa and no bound on the exponent: zero and `m * 2 ^ e`
with `2 ^ (p - 1) ≤ m < 2 ^ p`.  `Nearest p x m e` says that `m * 2 ^ e` is such a value, that none is closer to `x`,
and that another one is as close only if `m` is even.  There is one such value for every `x ≥ 0` (`roundNE`), it grows
with `x`, and a float value is its own.
-/
namespace Rounding

variable {p m m' : ℕ} {e e' : ℤ} {x y : ℚ}

/-- A mantissa of `p` bits. -/
def Normal (p m : ℕ) : Prop := 2 ^ (p - 1) ≤ m ∧ m < 2 ^ p

/-- A value with a mantissa of `p` bits. -/
def Float (p : ℕ) (y : ℚ) : Prop := y = 0 ∨ ∃ (m : ℕ) (e : ℤ), Normal p m ∧ y = m * 2 ^ e

/-- `m * 2 ^ e` is the value nearest to `x`, ties to even. -/
structure Nearest (p : ℕ) (x : ℚ) (m : ℕ) (e : ℤ) : Prop where
  normal : m = 0 ∨ Normal p m
  closest : ∀ y, Float p y → |x - m * 2 ^ e| ≤ |x - y|
  even : ∀ y, Float p y → |x - m * 2 ^ e| = |x - y| → y = m * 2 ^ e ∨ Even m

theorem two_zpow_pos (e : ℤ) : (0 : ℚ) < 2 ^ e := by positivity

theorem two_zpow_succ (e : ℤ) : (2 : ℚ) ^ (e + 1) = 2 * 2 ^ e := by
  rw [zpow_add_one₀ two_ne_zero, mul_comm]

theorem Normal.pos (h : Normal p m) : 0 < m := lt_of_lt_of_le (by positivity) h.1

theorem Normal.ne_zero (h : Normal p m) : m ≠ 0 := h.pos.ne'

theorem float_zero : Float p 0 := .inl rfl

theorem Normal.float (h : Normal p m) (e : ℤ) : Float p (m * 2 ^ e) := .inr ⟨m, e, h, rfl⟩

theorem Nearest.float (h : Nearest p x m e) : Float p (m * 2 ^ e) := by
  rcases h.normal with rfl | hm
  · left
    simp
  · exact hm.float e

/-- No value lies between two neighbours. -/
theorem Float.gap (hy : Float p y) (hm : Normal p m) (e : ℤ) : y ≤ m * 2 ^ e ∨ ((m : ℚ) + 1) * 2 ^ e ≤ y := by
  have hpos := two_zpow_pos e
  rcases hy with rfl | ⟨n, k, hn, rfl⟩
  · left
    positivity
  rcases le_or_gt e k with hek | hke
  · -- a multiple of `2 ^ e`
    obtain ⟨d, rfl⟩ : ∃ d : ℕ, k = e + d := ⟨(k - e).toNat, by omega⟩
    have hk : (n : ℚ) * 2 ^ (e + (d : ℤ)) = ((n * 2 ^ d : ℕ) : ℚ) * 2 ^ e := by
      rw [zpow_add₀ two_ne_zero, zpow_natCast]
      push_cast
      ring
    rw [hk]
    rcases Nat.lt_or_ge m (n * 2 ^ d) with hlt | hge
    · right
      exact mul_le_mul_of_nonneg_right (by exact_mod_cast hlt) hpos.le
    · left
      exact mul_le_mul_of_nonneg_right (by exact_mod_cast hge) hpos.le
  · -- below the least mantissa at `e`
    left
    have hstep : (2 : ℚ) ^ (p : ℤ) * 2 ^ k ≤ 2 ^ ((p : ℤ) - 1) * 2 ^ e := by
      rw [← zpow_add₀ two_ne_zero, ← zpow_add₀ two_ne_zero]
      exact zpow_le_zpow_right₀ one_le_two (by omega)
    have hp : 1 ≤ p := by
      rcases Nat.eq_zero_or_pos p with rfl | h
      · have := hm.1
        have := hm.2
        simp at *
        omega
      · exact h
    have hn2 : (n : ℚ) ≤ 2 ^ (p : ℤ) := by
      rw [zpow_natCast]
      exact_mod_cast hn.2.le
    have hm1 : (2 : ℚ) ^ ((p : ℤ) - 1) ≤ m := by
      have : ((p : ℤ) - 1) = ((p - 1 : ℕ) : ℤ) := by omega
      rw [this, zpow_natCast]
      exact_mod_cast hm.1
    calc (n : ℚ) * 2 ^ k ≤ 2 ^ (p : ℤ) * 2 ^ k := mul_le_mul_of_nonneg_right hn2 (two_zpow_pos k).le
      _ ≤ 2 ^ ((p : ℤ) - 1) * 2 ^ e := hstep
      _ ≤ m * 2 ^ e := mul_le_mul_of_nonneg_right hm1 hpos.le

/-! ## Rounding down and up -/

/-- Less than half a unit above a mantissa, or half a unit above an even one. -/
theorem nearest_down (hm : Normal p m) (hlo : (m : ℚ) * 2 ^ e ≤ x)
    (hhalf : 2 * (x - m * 2 ^ e) < 2 ^ e ∨ 2 * (x - m * 2 ^ e) = 2 ^ e ∧ Even m) : Nearest p x m e := by
  have hup : 2 * (x - m * 2 ^ e) ≤ 2 ^ e := hhalf.elim le_of_lt (fun h => h.1.le)
  have hself : |x - m * 2 ^ e| = x - m * 2 ^ e := abs_of_nonneg (by linarith)
  refine ⟨.inr hm, fun y hy => ?_, fun y hy heq => ?_⟩
  · rw [hself]
    rcases hy.gap hm e with h | h
    · rw [abs_of_nonneg (by linarith)]
      linarith
    · rw [abs_sub_comm]
      refine le_trans ?_ (le_abs_self _)
      linarith
  · rcases hy.gap hm e with h | h
    · left
      rw [hself, abs_of_nonneg (by linarith)] at heq
      linarith
    · right
      have hle : y - x ≤ |x - y| := by
        rw [abs_sub_comm]
        exact le_abs_self _
      rcases hhalf with hlt | ⟨_, heven⟩
      · rw [hself] at heq
        linarith
      · exact heven

/-- The next mantissa, where it still has `p` bits, else the least one at the next exponent. -/
def next (p m : ℕ) (e : ℤ) : ℕ × ℤ := if m + 1 = 2 ^ p then (2 ^ (p - 1), e + 1) else (m + 1, e)

theorem next_of_eq (h : m + 1 = 2 ^ p) (e : ℤ) : next p m e = (2 ^ (p - 1), e + 1) := if_pos h

theorem next_of_ne (h : m + 1 ≠ 2 ^ p) (e : ℤ) : next p m e = (m + 1, e) := if_neg h

theorem next_val (hp : 1 ≤ p) (m : ℕ) (e : ℤ) : ((next p m e).1 : ℚ) * 2 ^ (next p m e).2 = (m + 1) * 2 ^ e := by
  unfold next
  split
  · rename_i h
    have hcast : ((m : ℚ) + 1) = 2 ^ p := by exact_mod_cast h
    obtain ⟨q, rfl⟩ : ∃ q, p = q + 1 := ⟨p - 1, by omega⟩
    rw [hcast, two_zpow_succ]
    rw [Nat.add_sub_cancel, pow_succ]
    push_cast
    ring
  · push_cast
    rfl

theorem next_normal (hp : 1 ≤ p) (hm : Normal p m) (e : ℤ) : Normal p (next p m e).1 := by
  unfold next
  split
  · exact ⟨le_refl _, Nat.pow_lt_pow_right one_lt_two (by omega)⟩
  · have := hm.1
    have := hm.2
    exact ⟨by dsimp only; omega, by dsimp only; omega⟩

theorem next_even (hp : 2 ≤ p) (hm : Odd m) (e : ℤ) : Even (next p m e).1 := by
  unfold next
  split
  · exact (Nat.even_pow.2 ⟨even_two, by omega⟩)
  · exact hm.add_one

/-- More than half a unit above a mantissa, or half a unit above an odd one. -/
theorem nearest_up (hp : 2 ≤ p) (hm : Normal p m) (hhi : x ≤ ((m : ℚ) + 1) * 2 ^ e)
    (hhalf : 2 ^ e < 2 * (x - m * 2 ^ e) ∨ 2 * (x - m * 2 ^ e) = 2 ^ e ∧ Odd m) :
    Nearest p x (next p m e).1 (next p m e).2 := by
  have hval := next_val (by omega : 1 ≤ p) m e
  have hdown : 2 ^ e ≤ 2 * (x - m * 2 ^ e) := hhalf.elim le_of_lt (fun h => h.1.ge)
  have hpos := two_zpow_pos e
  have hself : |x - ((m : ℚ) + 1) * 2 ^ e| = (m + 1) * 2 ^ e - x := by
    rw [abs_sub_comm, abs_of_nonneg (by linarith)]
  refine ⟨.inr (next_normal (by omega) hm e), fun y hy => ?_, fun y hy heq => ?_⟩
  · rw [hval, hself]
    rcases hy.gap hm e with h | h
    · refine le_trans ?_ (le_abs_self _)
      linarith
    · rw [abs_sub_comm]
      refine le_trans ?_ (le_abs_self _)
      linarith
  · rw [hval, hself] at heq
    rw [hval]
    rcases hy.gap hm e with h | h
    · right
      have hle : x - y ≤ |x - y| := le_abs_self _
      rcases hhalf with hlt | ⟨_, hodd⟩
      · linarith
      · exact next_even hp hodd e
    · left
      rw [abs_sub_comm, abs_of_nonneg (by linarith)] at heq
      linarith

/-! ## One nearest value, and more for more -/

theorem Normal.exponent_le (hp : 1 ≤ p) (hm : Normal p m) (hm' : Normal p m')
    (h : (m : ℚ) * 2 ^ e = m' * 2 ^ e') : e' ≤ e := by
  by_contra hlt
  obtain ⟨d, rfl⟩ : ∃ d : ℕ, e' = e + (d + 1 : ℕ) := ⟨(e' - e - 1).toNat, by omega⟩
  have heq : (m : ℚ) = ((m' * 2 ^ (d + 1) : ℕ) : ℚ) := by
    rw [zpow_add₀ two_ne_zero, zpow_natCast] at h
    have hne : (2 : ℚ) ^ e ≠ 0 := (two_zpow_pos e).ne'
    apply mul_right_cancel₀ hne
    rw [h]
    push_cast
    ring
  have hnat : m = m' * 2 ^ (d + 1) := by exact_mod_cast heq
  have hge : 2 ^ p ≤ m := by
    obtain ⟨q, rfl⟩ : ∃ q, p = q + 1 := ⟨p - 1, by omega⟩
    rw [hnat, pow_succ]
    calc 2 ^ q * 2 ≤ m' * 2 ^ 1 := Nat.mul_le_mul hm'.1 (le_refl _)
      _ ≤ m' * 2 ^ (d + 1) := Nat.mul_le_mul_left _ (Nat.pow_le_pow_right two_pos (by omega))
  exact absurd hm.2 (not_lt.2 hge)

/-- A value has one mantissa and one exponent. -/
theorem Normal.unique (hp : 1 ≤ p) (hm : Normal p m) (hm' : Normal p m') (h : (m : ℚ) * 2 ^ e = m' * 2 ^ e') :
    m = m' ∧ e = e' := by
  have he : e = e' := le_antisymm (hm'.exponent_le hp hm h.symm) (hm.exponent_le hp hm' h)
  subst he
  have := mul_right_cancel₀ (two_zpow_pos e).ne' h
  exact ⟨by exact_mod_cast this, rfl⟩

theorem midpoint_le {r s : ℚ} (hsr : s < r) (h : |x - r| ≤ |x - s|) : r + s ≤ 2 * x := by
  by_contra hlt
  rcases le_total x s with hxs | hxs
  · rw [abs_of_nonpos (by linarith), abs_of_nonpos (by linarith)] at h
    linarith
  · rw [abs_of_nonneg (by linarith : 0 ≤ x - s), abs_sub_comm] at h
    have := le_abs_self (r - x)
    linarith

theorem le_midpoint {r s : ℚ} (hsr : s < r) (h : |x - s| ≤ |x - r|) : 2 * x ≤ r + s := by
  by_contra hlt
  rcases le_total r x with hxr | hxr
  · rw [abs_of_nonneg (by linarith), abs_of_nonneg (by linarith)] at h
    linarith
  · rw [abs_of_nonpos (by linarith : x - r ≤ 0)] at h
    have := le_abs_self (x - s)
    linarith

/-- **The nearest value grows with what is rounded.** -/
theorem Nearest.mono (hp : 1 ≤ p) (hx : Nearest p x m e) (hy : Nearest p y m' e') (hxy : x ≤ y) :
    (m : ℚ) * 2 ^ e ≤ m' * 2 ^ e' := by
  by_contra hlt
  rw [not_le] at hlt
  -- the two values are as far from the midpoint, so both are even
  have hx2 := midpoint_le hlt (hx.closest _ hy.float)
  have hy2 := le_midpoint hlt (hy.closest _ hx.float)
  have hmid : 2 * x = m * 2 ^ e + m' * 2 ^ e' := by linarith
  have hxeq : y = x := by linarith
  subst hxeq
  have hdist : |y - m * 2 ^ e| = |y - m' * 2 ^ e'| := by
    rw [abs_of_nonpos (by linarith), abs_of_nonneg (by linarith)]
    linarith
  have hem : Even m := (hx.even _ hy.float hdist).resolve_left hlt.ne
  have hem' : Even m' := (hy.even _ hx.float hdist.symm).resolve_left hlt.ne'
  have hm : Normal p m := by
    rcases hx.normal with rfl | h
    · have : (0 : ℚ) ≤ m' * 2 ^ e' := by positivity
      simp at hlt
      linarith
    · exact h
  rcases hy.normal with rfl | hm'
  · -- zero: half of the other value is the midpoint
    have hfloat := hx.closest _ (hm.float (e - 1))
    have hhalf : (m : ℚ) * 2 ^ (e - 1) = y := by
      rw [zpow_sub_one₀ two_ne_zero]
      push_cast at hmid
      linarith
    rw [hhalf, sub_self, abs_zero] at hfloat
    have := abs_nonpos_iff.1 hfloat
    have : (0 : ℚ) < m * 2 ^ e := by
      have := hm.pos
      positivity
    push_cast at hmid
    linarith
  · -- neighbours: one of them is odd
    have hnext := next_val hp m' e'
    have hnn := next_normal hp hm' e'
    have hge : ((m' : ℚ) + 1) * 2 ^ e' ≤ m * 2 ^ e := (hx.float.gap hm' e').resolve_left (not_le.2 hlt)
    have hle : (m : ℚ) * 2 ^ e ≤ (m' + 1) * 2 ^ e' := by
      have hcl := hy.closest _ (hnn.float (next p m' e').2)
      rw [hnext] at hcl
      have hpos := two_zpow_pos e'
      have := le_midpoint (by linarith : (m' : ℚ) * 2 ^ e' < (m' + 1) * 2 ^ e') hcl
      linarith
    obtain ⟨h1, -⟩ := hm.unique hp hnn ((le_antisymm hle hge).trans hnext.symm)
    have hp2 : Even (2 ^ p) := Nat.even_pow.2 ⟨even_two, by omega⟩
    unfold next at h1
    split at h1
    · rename_i h
      rw [← h] at hp2
      exact (Nat.even_add_one.1 hp2) hem'
    · rw [h1] at hem
      exact (Nat.even_add_one.1 hem) hem'

theorem Nearest.unique (hp : 1 ≤ p) (h : Nearest p x m e) (h' : Nearest p x m' e') :
    (m : ℚ) * 2 ^ e = m' * 2 ^ e' :=
  le_antisymm (h.mono hp h' le_rfl) (h'.mono hp h le_rfl)

/-- A float value is its own nearest one. -/
theorem Nearest.of_float (h : Nearest p x m e) (hx : Float p x) : (m : ℚ) * 2 ^ e = x := by
  have := h.closest x hx
  rw [sub_self, abs_zero] at this
  linarith [abs_nonpos_iff.1 this]

theorem normal_least (hp : 1 ≤ p) : Normal p (2 ^ (p - 1)) :=
  ⟨le_refl _, Nat.pow_lt_pow_right one_lt_two (by omega)⟩

/-- Nothing positive is nearest to zero: there are values below it. -/
theorem Nearest.normal_of_pos (hp : 1 ≤ p) (h : Nearest p x m e) (hx : 0 < x) : Normal p m := by
  rcases h.normal with rfl | hm
  · have hbelow := h.closest _ ((normal_least hp).float (Int.log 2 x - (p - 1 : ℕ)))
    have hle : (2 : ℚ) ^ Int.log 2 x ≤ x := by exact_mod_cast Int.zpow_log_le_self one_lt_two hx
    have hy : ((2 ^ (p - 1) : ℕ) : ℚ) * 2 ^ (Int.log 2 x - (p - 1 : ℕ)) = 2 ^ Int.log 2 x := by
      push_cast
      rw [← zpow_natCast, ← zpow_add₀ two_ne_zero]
      congr 1
      omega
    have hpos := two_zpow_pos (Int.log 2 x)
    rw [hy, Nat.cast_zero, zero_mul, sub_zero, abs_of_pos hx, abs_of_nonneg (by linarith)] at hbelow
    linarith
  · exact hm

theorem float_two_zpow (hp : 1 ≤ p) (k : ℤ) : Float p (2 ^ k) := by
  refine .inr ⟨2 ^ (p - 1), k - (p - 1 : ℕ), normal_least hp, ?_⟩
  push_cast
  rw [← zpow_natCast, ← zpow_add₀ two_ne_zero]
  congr 1
  omega

theorem nearest_of_float (h : Normal p m) (e : ℤ) : Nearest p (m * 2 ^ e) m e := by
  apply nearest_down h le_rfl
  left
  rw [sub_self, mul_zero]
  exact two_zpow_pos e

/-- A power of two below a number is below its nearest value. -/
theorem Nearest.two_zpow_le (hp : 1 ≤ p) (h : Nearest p x m e) {k : ℤ} (hk : (2 : ℚ) ^ k ≤ x) : (2 : ℚ) ^ k ≤ m * 2 ^ e := by
  obtain h0 | ⟨n, l, hn, hl⟩ := float_two_zpow hp k
  · exact absurd h0 (two_zpow_pos k).ne'
  · rw [hl] at hk ⊢
    exact (nearest_of_float hn l).mono hp h hk

/-- A power of two above a number is above its nearest value. -/
theorem Nearest.le_two_zpow (hp : 1 ≤ p) (h : Nearest p x m e) {k : ℤ} (hk : x ≤ (2 : ℚ) ^ k) : m * 2 ^ e ≤ (2 : ℚ) ^ k := by
  obtain h0 | ⟨n, l, hn, hl⟩ := float_two_zpow hp k
  · exact absurd h0 (two_zpow_pos k).ne'
  · rw [hl] at hk ⊢
    exact h.mono hp (nearest_of_float hn l) hk

/-- Bounds on a number are bounds on the exponent of its nearest value. -/
theorem Nearest.exponent_bounds (hp : 1 ≤ p) (h : Nearest p x m e) {k l : ℤ} (hk : (2 : ℚ) ^ k ≤ x) (hl : x ≤ (2 : ℚ) ^ l) :
    k - p < e ∧ e ≤ l - p + 1 := by
  have hm := h.normal_of_pos hp (lt_of_lt_of_le (two_zpow_pos k) hk)
  have hlo := h.two_zpow_le hp hk
  have hhi := h.le_two_zpow hp hl
  have hp1 : ((p - 1 : ℕ) : ℤ) = (p : ℤ) - 1 := by omega
  constructor
  · have hlt : (2 : ℚ) ^ k < 2 ^ ((p : ℤ) + e) := by
      rw [zpow_add₀ two_ne_zero, zpow_natCast]
      exact lt_of_le_of_lt hlo (mul_lt_mul_of_pos_right (by exact_mod_cast hm.2) (two_zpow_pos e))
    have := (zpow_lt_zpow_iff_right₀ (one_lt_two : (1 : ℚ) < 2)).1 hlt
    omega
  · have hle : (2 : ℚ) ^ (((p - 1 : ℕ) : ℤ) + e) ≤ 2 ^ l := by
      rw [zpow_add₀ two_ne_zero, zpow_natCast]
      exact le_trans (mul_le_mul_of_nonneg_right (by exact_mod_cast hm.1) (two_zpow_pos e).le) hhi
    have := (zpow_le_zpow_iff_right₀ (one_lt_two : (1 : ℚ) < 2)).1 hle
    omega

/-- Rounding changes a number by less than a factor of two. -/
theorem Nearest.within_two (hp : 1 ≤ p) (h : Nearest p x m e) (hx : 0 ≤ x) : x ≤ 2 * (m * 2 ^ e) ∧ m * 2 ^ e ≤ 2 * x := by
  rcases hx.eq_or_lt with rfl | hpos
  · rw [h.of_float float_zero]
    simp
  · have hlo : (2 : ℚ) ^ Int.log 2 x ≤ x := by exact_mod_cast Int.zpow_log_le_self one_lt_two hpos
    have hhi : x ≤ (2 : ℚ) ^ (Int.log 2 x + 1) := by exact_mod_cast (Int.lt_zpow_succ_log_self one_lt_two x).le
    have h1 := h.two_zpow_le hp hlo
    have h2 := h.le_two_zpow hp hhi
    rw [two_zpow_succ] at hhi h2
    exact ⟨by linarith, by linarith⟩

/-! ## Rounding as a function -/

/-- The mantissa and the exponent nearest to a positive number. -/
def roundPos (p : ℕ) (x : ℚ) : ℕ × ℤ :=
  let e := Int.log 2 x - ((p : ℤ) - 1)
  let q := x / 2 ^ e
  let m := ⌊q⌋₊
  if 2 * (q - m) < 1 ∨ 2 * (q - m) = 1 ∧ m % 2 = 0 then (m, e) else next p m e

/-- The float value nearest to a number of either sign. -/
def roundNE (p : ℕ) (x : ℚ) : ℚ :=
  if x = 0 then 0
  else if x < 0 then -((roundPos p (-x)).1 * 2 ^ (roundPos p (-x)).2)
  else (roundPos p x).1 * 2 ^ (roundPos p x).2

theorem roundPos_nearest (hp : 2 ≤ p) (hx : 0 < x) : Nearest p x (roundPos p x).1 (roundPos p x).2 := by
  unfold roundPos
  dsimp only
  generalize he : Int.log 2 x - ((p : ℤ) - 1) = e
  have hpos := two_zpow_pos e
  have hq : x / 2 ^ e * 2 ^ e = x := div_mul_cancel₀ x hpos.ne'
  have hlog : Int.log 2 x = e + ((p : ℤ) - 1) := by omega
  have hp1 : ((p - 1 : ℕ) : ℤ) = (p : ℤ) - 1 := by omega
  have hlo : (2 : ℚ) ^ (p - 1) ≤ x / 2 ^ e := by
    rw [le_div_iff₀ hpos, ← zpow_natCast, ← zpow_add₀ two_ne_zero, hp1, add_comm, ← hlog]
    exact_mod_cast Int.zpow_log_le_self one_lt_two hx
  have hhi : x / 2 ^ e < 2 ^ p := by
    rw [div_lt_iff₀ hpos, ← zpow_natCast, ← zpow_add₀ two_ne_zero]
    have h : ((p : ℤ) + e) = Int.log 2 x + 1 := by omega
    rw [h]
    exact_mod_cast Int.lt_zpow_succ_log_self one_lt_two x
  generalize hqdef : x / 2 ^ e = q at hq hlo hhi
  have hq0 : 0 ≤ q := le_trans (by positivity) hlo
  have hfloor := Nat.floor_le hq0
  have hceil := Nat.lt_floor_add_one q
  have hnormal : Normal p ⌊q⌋₊ := by
    refine ⟨Nat.le_floor (by exact_mod_cast hlo), ?_⟩
    rw [Nat.floor_lt hq0]
    exact_mod_cast hhi
  generalize ⌊q⌋₊ = m at hfloor hceil hnormal ⊢
  have hdist : 2 * (x - m * 2 ^ e) = 2 * (q - m) * 2 ^ e := by
    rw [← hq]
    ring
  split
  · rename_i hdown
    apply nearest_down hnormal
    · rw [← hq]
      exact mul_le_mul_of_nonneg_right hfloor hpos.le
    · rw [hdist]
      rcases hdown with hlt | ⟨heq, heven⟩
      · left
        exact mul_lt_of_lt_one_left hpos hlt
      · right
        exact ⟨by rw [heq, one_mul], Nat.even_iff.2 heven⟩
  · rename_i hup
    rw [not_or, not_lt, not_and_or] at hup
    apply nearest_up hp hnormal
    · rw [← hq]
      exact mul_le_mul_of_nonneg_right hceil.le hpos.le
    · rw [hdist]
      rcases lt_or_eq_of_le hup.1 with hlt | heq
      · left
        exact lt_mul_of_one_lt_left hpos hlt
      · right
        refine ⟨by rw [← heq, one_mul], Nat.odd_iff.2 ?_⟩
        have := hup.2.resolve_left (fun h => h heq.symm)
        omega

@[simp] theorem roundNE_zero (p : ℕ) : roundNE p 0 = 0 := if_pos rfl

theorem roundNE_of_pos (hx : 0 < x) : roundNE p x = (roundPos p x).1 * 2 ^ (roundPos p x).2 := by
  unfold roundNE
  rw [if_neg hx.ne', if_neg (not_lt.2 hx.le)]

theorem roundNE_nonneg (hx : 0 ≤ x) : 0 ≤ roundNE p x := by
  rcases hx.eq_or_lt with rfl | hpos
  · rw [roundNE_zero]
  · rw [roundNE_of_pos hpos]
    positivity

theorem roundNE_mono (hp : 2 ≤ p) (hx : 0 ≤ x) (hxy : x ≤ y) : roundNE p x ≤ roundNE p y := by
  rcases hx.eq_or_lt with rfl | hpos
  · rw [roundNE_zero]
    exact roundNE_nonneg hxy
  · rw [roundNE_of_pos hpos, roundNE_of_pos (lt_of_lt_of_le hpos hxy)]
    exact (roundPos_nearest hp hpos).mono (by omega) (roundPos_nearest hp (lt_of_lt_of_le hpos hxy)) hxy

theorem roundNE_of_float (hp : 2 ≤ p) (hx : 0 ≤ x) (h : Float p x) : roundNE p x = x := by
  rcases hx.eq_or_lt with rfl | hpos
  · rw [roundNE_zero]
  · rw [roundNE_of_pos hpos]
    exact (roundPos_nearest hp hpos).of_float h

end Rounding
