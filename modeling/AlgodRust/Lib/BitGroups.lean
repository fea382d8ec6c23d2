import Mathlib.Data.Nat.Digits.Defs
import Mathlib.Tactic.Ring
/-!
# BitGroups — one number in groups of bits, regrouped

A list of groups of `v` bits, the lowest first, is cut into groups of `w` bits through a buffer.  What was read and what
was written are one number as long as the bits of the buffer are counted above what was written (`Regroup`); reading a
group (`Regroup.absorb`) and writing one (`Regroup.emit`) keep it so.
-/
namespace BitGroups

/-- The groups of `v` bits that were read are the groups of `w` bits that were written and the bits of the buffer. -/
structure Regroup (v w : Nat) (read : List Nat) (buffer bits : Nat) (written : List Nat) : Prop where
  value : Nat.ofDigits (2 ^ w) written + 2 ^ (w * written.length) * buffer = Nat.ofDigits (2 ^ v) read
  count : w * written.length + bits = v * read.length
  fits : buffer < 2 ^ bits
  small : ∀ d ∈ written, d < 2 ^ w

variable {v w : Nat} {read written : List Nat} {buffer bits : Nat}

theorem Regroup.nil : Regroup v w [] 0 0 [] := ⟨by simp, rfl, by decide, fun _ h => absurd h (by simp)⟩

theorem or_shiftLeft_eq {d : Nat} (h : buffer < 2 ^ bits) : buffer ||| d <<< bits = buffer + 2 ^ bits * d := by
  rw [Nat.shiftLeft_eq, Nat.mul_comm d, Nat.or_comm, ← Nat.two_pow_add_eq_or_of_lt h, Nat.add_comm]

theorem Regroup.absorb (h : Regroup v w read buffer bits written) {d : Nat} (hd : d < 2 ^ v) :
    Regroup v w (read ++ [d]) (buffer ||| d <<< bits) (bits + v) written where
  value := by
    have hpow : (2 : Nat) ^ (w * written.length) * 2 ^ bits = (2 ^ v) ^ read.length := by
      rw [← Nat.pow_add, h.count, Nat.pow_mul]
    rw [or_shiftLeft_eq h.fits, Nat.ofDigits_append, Nat.ofDigits_singleton, ← h.value, ← hpow]
    ring
  count := by
    rw [List.length_append, List.length_singleton, Nat.mul_add, Nat.mul_one, ← h.count]
    omega
  fits := by
    have hstep : 2 ^ bits * (d + 1) ≤ 2 ^ bits * 2 ^ v := Nat.mul_le_mul_left _ hd
    rw [or_shiftLeft_eq h.fits, Nat.pow_add]
    have hfits := h.fits
    rw [Nat.mul_add, Nat.mul_one] at hstep
    omega
  small := h.small

theorem Regroup.emit (h : Regroup v w read buffer bits written) (hbits : w ≤ bits) :
    Regroup v w read (buffer >>> w) (bits - w) (written ++ [buffer &&& (2 ^ w - 1)]) where
  value := by
    have hsplit := Nat.div_add_mod buffer (2 ^ w)
    have hpow : ((2 : Nat) ^ w) ^ written.length = 2 ^ (w * written.length) := (Nat.pow_mul ..).symm
    rw [Nat.and_two_pow_sub_one_eq_mod, Nat.shiftRight_eq_div_pow, Nat.ofDigits_append, Nat.ofDigits_singleton,
      List.length_append, List.length_singleton, ← h.value, hpow]
    calc _ = Nat.ofDigits (2 ^ w) written + 2 ^ (w * written.length) * (2 ^ w * (buffer / 2 ^ w) + buffer % 2 ^ w) := by ring
      _ = _ := by rw [hsplit]
  count := by
    have hcount := h.count
    rw [List.length_append, List.length_singleton, Nat.mul_add, Nat.mul_one]
    omega
  fits := by
    rw [Nat.shiftRight_eq_div_pow]
    apply Nat.div_lt_of_lt_mul
    rw [← Nat.pow_add, Nat.add_sub_cancel' hbits]
    exact h.fits
  small := by
    intro d hd
    rcases List.mem_append.1 hd with hd | hd
    · exact h.small d hd
    · rw [List.mem_singleton.1 hd, Nat.and_two_pow_sub_one_eq_mod]
      exact Nat.mod_lt _ (Nat.two_pow_pos w)

/-- The groups that were written are the number, with no group too many. -/
structure Regrouped (v w : Nat) (read written : List Nat) : Prop where
  value : Nat.ofDigits (2 ^ w) written = Nat.ofDigits (2 ^ v) read
  enough : v * read.length ≤ w * written.length
  tight : w * written.length < v * read.length + w
  small : ∀ d ∈ written, d < 2 ^ w

/-- Nothing is left in the buffer. -/
theorem Regroup.done (h : Regroup v w read buffer 0 written) (hw : 0 < w) : Regrouped v w read written where
  value := by
    have hzero : buffer = 0 := by have := h.fits; simpa using this
    have hvalue := h.value
    rwa [hzero, Nat.mul_zero, Nat.add_zero] at hvalue
  enough := by have := h.count; omega
  tight := by have := h.count; omega
  small := h.small

/-- What is left in the buffer is the last group. -/
theorem Regroup.flush (h : Regroup v w read buffer bits written) (hpos : bits ≠ 0) (hbits : bits < w) :
    Regrouped v w read (written ++ [buffer]) where
  value := by
    rw [Nat.ofDigits_append, Nat.ofDigits_singleton, ← h.value, Nat.pow_mul]
  enough := by
    have := h.count
    rw [List.length_append, List.length_singleton, Nat.mul_add]
    omega
  tight := by
    have := h.count
    rw [List.length_append, List.length_singleton, Nat.mul_add]
    omega
  small := by
    intro d hd
    rcases List.mem_append.1 hd with hd | hd
    · exact h.small d hd
    · rw [List.mem_singleton.1 hd]
      exact h.fits.trans (Nat.pow_lt_pow_right (by decide) hbits)

end BitGroups
