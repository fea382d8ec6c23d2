import AlgodRust.Avm.SquareRoot
/-!
# Powers — `exp` and `expw`

Both multiply by the base and stop at the first product that leaves their range; exponents from the number of bits of
the range on are refused before.  The products only grow, and a base of at least two has left the range by then, so
that the refused powers are exactly those out of range (`expImpl_eq`).
-/
namespace Algod
namespace Avm

theorem checkedPow_eq {bound base j : Nat} (times : Nat) (hbase : 0 < base) (hj : base ^ j < bound) :
    checkedPow bound base times (base ^ j) = if base ^ (j + times) < bound then some (base ^ (j + times)) else none := by
  induction times generalizing j with
  | zero => simp [checkedPow, hj]
  | succ times ih =>
    unfold checkedPow
    rw [← Nat.pow_succ]
    by_cases hnext : base ^ (j + 1) < bound
    · rw [if_pos hnext, ih hnext, show j + 1 + times = j + (times + 1) by omega]
    · -- the later powers are no smaller
      have hlater : base ^ (j + 1) ≤ base ^ (j + (times + 1)) := Nat.pow_le_pow_right hbase (by omega)
      rw [if_neg hnext, if_neg (by omega)]

/-- **A power is computed exactly, or refused for being out of range.** -/
theorem expImpl_eq {maxExp base : Nat} (exp : Nat) (hmax : 0 < maxExp) (hbase : base < 2 ^ maxExp) :
    expImpl (2 ^ maxExp) maxExp base exp =
      if exp = 0 ∧ base = 0 then .error "0^0 is undefined"
      else if base ^ exp < 2 ^ maxExp then .ok (base ^ exp) else .error s!"{base}^{exp} overflow" := by
  have hone : 1 < 2 ^ maxExp := Nat.one_lt_two_pow (by omega)
  unfold expImpl
  by_cases hundefined : exp = 0 ∧ base = 0
  · rw [if_pos hundefined, if_pos hundefined]
  rw [if_neg hundefined, if_neg hundefined]
  by_cases hzero : base = 0
  · have hpow : base ^ exp = 0 := by rw [hzero]; exact Nat.zero_pow (by omega)
    rw [if_pos hzero, hpow, if_pos (by omega)]
  rw [if_neg hzero]
  by_cases hunit : exp = 0 ∨ base = 1
  · have hpow : base ^ exp = 1 := by rcases hunit with rfl | rfl <;> simp
    rw [if_pos hunit, hpow, if_pos hone]
  rw [if_neg hunit]
  by_cases hlarge : exp ≥ maxExp
  · have hpow : 2 ^ maxExp ≤ base ^ exp := calc
      2 ^ maxExp ≤ 2 ^ exp := Nat.pow_le_pow_right (by omega) hlarge
      _ ≤ base ^ exp := Nat.pow_le_pow_left (by omega) exp
    rw [if_pos hlarge, if_neg (by omega)]
  · have hstart : base ^ 1 < 2 ^ maxExp := by rwa [Nat.pow_one]
    have hpow := checkedPow_eq (exp - 1) (by omega) hstart
    rw [Nat.pow_one, show 1 + (exp - 1) = exp by omega] at hpow
    rw [if_neg hlarge, hpow]
    by_cases hfits : base ^ exp < 2 ^ maxExp
    · simp only [hfits, if_true]
    · simp only [hfits, if_false]

section Stack

variable {d : Data} {below : List AvmValue} {a b : Nat} {f : Nat → Nat → Except String (List Nat)}

theorem pushAll_of_room {vs : List AvmValue} (hroom : d.stack.length + vs.length ≤ maxStackDepth) :
    pushAll vs d = .ok () { d with stack := d.stack ++ vs } := by
  induction vs generalizing d with
  | nil => rw [List.append_nil]; rfl
  | cons v vs ih =>
    rw [List.length_cons] at hroom
    refine Run.state_bind_eq_ok.2 ⟨(), _, push_of_room v (by omega), ?_⟩
    rw [ih (by simp only [List.length_append, List.length_singleton]; omega)]
    simp

theorem uintOp2_of_ok (instr : Instruction) (results : List Nat) (hd : d.stack = below ++ [.uint a, .uint b])
    (hf : f a b = .ok results) (hroom : below.length + results.length ≤ maxStackDepth) :
    uintOp2 f instr d = .ok () { d with stack := below ++ results.map .uint } := by
  have hb : d.stack = (below ++ [.uint a]) ++ [.uint b] := by simp [hd]
  refine Run.state_bind_eq_ok.2 ⟨b, _, popUint_of_top _ hb, ?_⟩
  refine Run.state_bind_eq_ok.2 ⟨a, _, popUint_of_top _ rfl, ?_⟩
  rw [hf]
  exact Run.state_bind_eq_ok.2 ⟨results, _, rfl, pushAll_of_room (by simpa using hroom)⟩

theorem uintOp2_of_error (instr : Instruction) {text : String} (hd : d.stack = below ++ [.uint a, .uint b])
    (hf : f a b = .error text) : uintOp2 f instr d = .error (.other text) { d with stack := below } := by
  have hb : d.stack = (below ++ [.uint a]) ++ [.uint b] := by simp [hd]
  refine Run.state_bind_eq_error.2 (.inr ⟨b, _, popUint_of_top _ hb, ?_⟩)
  refine Run.state_bind_eq_error.2 (.inr ⟨a, _, popUint_of_top _ rfl, ?_⟩)
  rw [hf]
  exact Run.state_bind_eq_error.2 (.inl rfl)

/-- An operation that pushes the words of a power. -/
theorem powerOp_eq (instr : Instruction) {maxExp : Nat} (words : Nat → List Nat)
    (hd : d.stack = below ++ [.uint a, .uint b]) (hmax : 0 < maxExp) (ha : a < 2 ^ maxExp)
    (hroom : ∀ n, below.length + (words n).length ≤ maxStackDepth) :
    uintOp2 (fun base exp => (expImpl (2 ^ maxExp) maxExp base exp).map words) instr d =
      if b = 0 ∧ a = 0 then .error (.other "0^0 is undefined") { d with stack := below }
      else if a ^ b < 2 ^ maxExp then .ok () { d with stack := below ++ (words (a ^ b)).map .uint }
      else .error (.other s!"{a}^{b} overflow") { d with stack := below } := by
  have hexp := expImpl_eq b hmax ha
  by_cases hundefined : b = 0 ∧ a = 0
  · rw [if_pos hundefined] at hexp ⊢
    exact uintOp2_of_error instr hd (by rw [hexp]; rfl)
  rw [if_neg hundefined] at hexp ⊢
  by_cases hfits : a ^ b < 2 ^ maxExp
  · rw [if_pos hfits] at hexp ⊢
    exact uintOp2_of_ok instr _ hd (by rw [hexp]; rfl) (hroom _)
  · rw [if_neg hfits] at hexp ⊢
    exact uintOp2_of_error instr hd (by rw [hexp]; rfl)

/-- **`exp` and `expw` push the power, in one word and in two, if and only if it fits**; they refuse zero to the power
of zero, and every power that does not fit. -/
theorem powers_exact (instr : Instruction) (d : Data) (below : List AvmValue) (a b : Nat)
    (hd : d.stack = below ++ [.uint a, .uint b]) (ha : a < 2 ^ 64) (hroom : d.stack.length ≤ maxStackDepth) :
    opExp instr d =
        (if b = 0 ∧ a = 0 then .error (.other "0^0 is undefined") { d with stack := below }
        else if a ^ b < 2 ^ 64 then .ok () { d with stack := below ++ [.uint (a ^ b)] }
        else .error (.other s!"{a}^{b} overflow") { d with stack := below }) ∧
      opExpw instr d =
        (if b = 0 ∧ a = 0 then .error (.other "0^0 is undefined") { d with stack := below }
        else if a ^ b < 2 ^ 128 then
          .ok () { d with stack := below ++ [.uint (a ^ b / 2 ^ 64), .uint (a ^ b % 2 ^ 64)] }
        else .error (.other s!"{a}^{b} overflow") { d with stack := below }) := by
  have hlen : below.length + 2 ≤ maxStackDepth := by rw [hd, List.length_append] at hroom; exact hroom
  exact ⟨powerOp_eq instr (fun n => [n]) hd (by decide) ha fun _ => (by rw [List.length_singleton]; omega),
    powerOp_eq instr (fun n => [n / 2 ^ 64, n % 2 ^ 64]) hd (by decide) (lt_trans ha (by decide : 2 ^ 64 < 2 ^ 128))
      fun _ => hlen⟩

/-- Three to the power of forty-one is the first power of three that does not fit into one word. -/
theorem powers_exact_three :
    opExp ⟨0x94, none, 1, .none⟩ ⟨[.uint 3, .uint 41], [], 700, 0, [], []⟩ =
        .error (.other "3^41 overflow") ⟨[], [], 700, 0, [], []⟩ ∧
      opExpw ⟨0x94, none, 1, .none⟩ ⟨[.uint 3, .uint 41], [], 700, 0, [], []⟩ =
        .ok () ⟨[.uint (3 ^ 41 / 2 ^ 64), .uint (3 ^ 41 % 2 ^ 64)], [], 700, 0, [], []⟩ := by
  obtain ⟨hexp, hexpw⟩ := powers_exact ⟨0x94, none, 1, .none⟩ ⟨[.uint 3, .uint 41], [], 700, 0, [], []⟩ [] 3 41 rfl
    (by decide) (by decide)
  rw [if_neg (by decide), if_neg (by decide)] at hexp
  rw [if_neg (by decide), if_pos (by decide)] at hexpw
  exact ⟨hexp, hexpw⟩

end Stack

end Avm
end Algod
