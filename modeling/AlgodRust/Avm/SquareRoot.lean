import AlgodRust.Avm.Operations
import Mathlib.Tactic.Linarith
import Mathlib.Tactic.Ring
/-!
# SquareRoot — the iteration behind `sqrt`

From any estimate that is not too small, each step of the iteration gives another one (`newton_above`), and the first
estimate that a step does not lower is the root (`sqrtLoop_root`).  The opcode starts at the number itself with a
smaller estimate at hand, which has to be smaller: it is not for the number two, so `sqrt` of two is two.  Every other
number has its root, and no sum of the iteration leaves 64 bits.
-/
namespace Algod
namespace Avm

/-- The integer square root. -/
def IsRoot (a r : Nat) : Prop := r * r ≤ a ∧ a < (r + 1) * (r + 1)

instance (a r : Nat) : Decidable (IsRoot a r) := by unfold IsRoot; infer_instance

theorem IsRoot.unique {a r r' : Nat} (h : IsRoot a r) (h' : IsRoot a r') : r = r' := by
  rw [Nat.eq_sqrt.2 h, Nat.eq_sqrt.2 h']

/-- The sums of the iteration, in the order they are computed. -/
def sqrtSums (a x y : Nat) : List Nat := if y < x then (y + a / y) :: sqrtSums a y ((y + a / y) / 2) else []
termination_by x

/-- One step from a positive estimate leads to one above the root, or to the root. -/
theorem newton_above {a x : Nat} (hx : 0 < x) : a < ((x + a / x) / 2 + 1) * ((x + a / x) / 2 + 1) := by
  have hdiv := Nat.div_add_mod a x
  have hmod := Nat.mod_lt a hx
  generalize a / x = q at *
  obtain ⟨y, hy⟩ : ∃ y, (x + q) / 2 = y := ⟨_, rfl⟩
  have hhalf : x + q + 1 ≤ 2 * (y + 1) := by omega
  have ha : a < x * (q + 1) := by
    rw [Nat.mul_add, Nat.mul_one]
    omega
  rw [hy]
  -- four times a product is at most the square of the sum
  have hfour : 4 * (x * (q + 1)) ≤ (x + (q + 1)) * (x + (q + 1)) := by
    rcases Nat.le_total x (q + 1) with hle | hle
    · obtain ⟨k, hk⟩ := Nat.exists_eq_add_of_le hle
      rw [hk]
      nlinarith [Nat.zero_le (k * k)]
    · obtain ⟨k, hk⟩ := Nat.exists_eq_add_of_le hle
      rw [hk]
      nlinarith [Nat.zero_le (k * k)]
  have hsq : (x + (q + 1)) * (x + (q + 1)) ≤ (2 * (y + 1)) * (2 * (y + 1)) :=
    Nat.mul_le_mul (by omega) (by omega)
  have hring : (2 * (y + 1)) * (2 * (y + 1)) = 4 * ((y + 1) * (y + 1)) := by ring
  omega

/-- A step that does not lower an estimate shows that it is not above the root. -/
theorem newton_below {a x : Nat} (h : ¬ (x + a / x) / 2 < x) : x * x ≤ a := by
  have hx : x ≤ a / x := by omega
  calc x * x ≤ a / x * x := Nat.mul_le_mul_right x hx
    _ ≤ a := Nat.div_mul_le_self a x

/-- **The iteration ends at the root**, from any positive estimate above it. -/
theorem sqrtLoop_root {a x y : Nat} (hx : 0 < x) (habove : a < (x + 1) * (x + 1)) (hy : y = (x + a / x) / 2) :
    IsRoot a (sqrtLoop a x y) := by
  induction x using Nat.strongRecOn generalizing y with
  | ind x ih =>
    unfold sqrtLoop
    by_cases hlt : y < x
    · rw [if_pos hlt]
      have hnext : a < (y + 1) * (y + 1) := by
        rw [hy]
        exact newton_above hx
      by_cases hzero : y = 0
      · -- an estimate of zero is only reached for zero
        subst hzero
        have ha : a = 0 := by omega
        subst ha
        unfold sqrtLoop
        decide
      · exact ih y hlt (by omega) hnext rfl
    · rw [if_neg hlt]
      subst hy
      exact ⟨newton_below hlt, habove⟩

/-- The sums after the first one stay within the number itself, or are small. -/
theorem sqrtSums_le {a x y : Nat} (ha : 2 ≤ a) (hpos : 0 < x) (hx : x ≤ a / 2 + 1) (hy : y = (x + a / x) / 2) :
    ∀ n ∈ sqrtSums a x y, n ≤ max a 4 := by
  induction x using Nat.strongRecOn generalizing y with
  | ind x ih =>
    unfold sqrtSums
    by_cases hlt : y < x
    · rw [if_pos hlt]
      have hdiv := Nat.div_add_mod a x
      have hmod := Nat.mod_lt a hpos
      have hypos : y ≠ 0 := by
        rintro rfl
        have hone : x = 1 := by
          generalize a / x = q at hy
          omega
        subst hone
        rw [Nat.div_one] at hy
        omega
      have hsum : y + a / y ≤ max a 4 := by
        by_cases hone : y = 1
        · -- an estimate of one is only reached for numbers up to three
          have hthree : a ≤ 3 := by
            have hcases : x = 2 ∨ x = 3 := by
              generalize a / x = q at hy
              omega
            rcases hcases with rfl | rfl <;> omega
          subst hone
          rw [Nat.div_one]
          omega
        · have hhalf : a / y ≤ a / 2 := Nat.div_le_div_left (by omega) (by decide)
          omega
      intro n hn
      rcases List.mem_cons.1 hn with rfl | hn
      · exact hsum
      · exact ih y hlt (by omega) (by omega) rfl n hn
    · rw [if_neg hlt]
      intro n hn
      cases hn

/-- What the opcode pushes for a number. -/
def sqrtOf (a : Nat) : Nat := if a ≤ 1 then a else sqrtLoop a a (a / 2 + 1)

/-- The sums that it computes on the way. -/
def sqrtOfSums (a : Nat) : List Nat := if a ≤ 1 then [] else (a / 2 + 1) :: sqrtSums a a (a / 2 + 1)

/-- **Every number but two has its root**: from three on the estimate at hand is the smaller one. -/
theorem sqrtOf_root_iff (a : Nat) : IsRoot a (sqrtOf a) ↔ a ≠ 2 := by
  unfold sqrtOf
  by_cases hsmall : a ≤ 1
  · rw [if_pos hsmall]
    have hcases : a = 0 ∨ a = 1 := by omega
    rcases hcases with rfl | rfl <;> decide
  rw [if_neg hsmall]
  by_cases htwo : a = 2
  · subst htwo
    unfold sqrtLoop
    decide
  · unfold sqrtLoop
    rw [if_pos (by omega)]
    have habove : a < (a / 2 + 1 + 1) * (a / 2 + 1 + 1) := by
      have hle : (a / 2 + 1 + 1) * 2 ≤ (a / 2 + 1 + 1) * (a / 2 + 1 + 1) := Nat.mul_le_mul_left _ (by omega)
      omega
    exact iff_of_true (sqrtLoop_root (by omega) habove rfl) htwo

theorem sqrtOfSums_lt {a : Nat} (ha : a < u64Bound) : ∀ n ∈ sqrtOfSums a, n < u64Bound := by
  have hbound : 4 < u64Bound := by decide
  unfold sqrtOfSums
  by_cases hsmall : a ≤ 1
  · rw [if_pos hsmall]
    intro n hn
    cases hn
  rw [if_neg hsmall]
  have hfirst : a / 2 + 1 < u64Bound := by omega
  intro n hn
  rcases List.mem_cons.1 hn with rfl | hn
  · exact hfirst
  unfold sqrtSums at hn
  by_cases hlt : a / 2 + 1 < a
  · rw [if_pos hlt] at hn
    have hone : a / (a / 2 + 1) ≤ 1 := Nat.le_of_lt_succ ((Nat.div_lt_iff_lt_mul (by omega)).2 (by omega))
    rcases List.mem_cons.1 hn with rfl | hn
    · omega
    · have := sqrtSums_le (by omega) (by omega) (Nat.le_refl _) rfl n hn
      omega
  · rw [if_neg hlt] at hn
    cases hn

theorem pop_of_top (name : String) {d : Data} {below : List AvmValue} {v : AvmValue} (hd : d.stack = below ++ [v]) :
    pop name d = .ok v { d with stack := below } := by
  refine Run.state_bind_eq_ok.2 ⟨d, d, rfl, ?_⟩
  rw [hd, List.getLast?_concat, List.dropLast_concat]
  rfl

theorem popUint_of_top (name : String) {d : Data} {below : List AvmValue} {a : Nat} (hd : d.stack = below ++ [.uint a]) :
    popUint name d = .ok a { d with stack := below } :=
  Run.state_bind_eq_ok.2 ⟨_, _, pop_of_top name hd, rfl⟩

theorem push_of_room {d : Data} (v : AvmValue) (hroom : d.stack.length < maxStackDepth) :
    push v d = .ok () { d with stack := d.stack ++ [v] } := by
  refine Run.state_bind_eq_ok.2 ⟨d, d, rfl, ?_⟩
  rw [if_neg (by omega)]
  rfl

theorem opSqrt_eq (instr : Instruction) {d : Data} {below : List AvmValue} {a : Nat} (hd : d.stack = below ++ [.uint a])
    (hroom : below.length < maxStackDepth) :
    opSqrt instr d = .ok () { d with stack := below ++ [.uint (sqrtOf a)] } := by
  refine Run.state_bind_eq_ok.2 ⟨a, { d with stack := below }, popUint_of_top _ hd, ?_⟩
  refine Run.state_bind_eq_ok.2 ⟨_, _, rfl, ?_⟩
  exact Run.state_bind_eq_ok.2 ⟨(), _, push_of_room _ hroom, rfl⟩

/-- **`sqrt` pushes the integer square root of every number but two**, and none of its additions leaves 64 bits. -/
theorem opSqrt_root_iff (instr : Instruction) (d : Data) (below : List AvmValue) (a : Nat)
    (hd : d.stack = below ++ [.uint a]) (hroom : d.stack.length ≤ maxStackDepth) (ha : a < u64Bound) :
    ((∃ r, opSqrt instr d = .ok () { d with stack := below ++ [.uint r] } ∧ IsRoot a r ∧ ∀ r', IsRoot a r' → r' = r) ∧
      ∀ n ∈ sqrtOfSums a, n < u64Bound) ↔ a ≠ 2 := by
  have hlen : below.length < maxStackDepth := by
    rw [hd, List.length_append] at hroom
    exact hroom
  rw [opSqrt_eq instr hd hlen, ← sqrtOf_root_iff a]
  constructor
  · rintro ⟨⟨r, hr, hroot, -⟩, -⟩
    have hstack := congrArg Data.stack (EStateM.Result.ok.inj hr).2
    have hval : sqrtOf a = r := by simpa using hstack
    rw [hval]
    exact hroot
  · intro hroot
    exact ⟨⟨_, rfl, hroot, fun r' h' => h'.unique hroot⟩, sqrtOfSums_lt ha⟩

/-- A stack with one number. -/
def sqrtInput (a : Nat) : Data := ⟨[.uint a], [], 700, 0, [], []⟩

/-- The instruction `sqrt`. -/
def sqrtInstr : Instruction := ⟨0x92, none, 1, .none⟩

/-- The root of the largest number. -/
theorem opSqrt_root_iff_max :
    (∃ r, opSqrt sqrtInstr (sqrtInput (2 ^ 64 - 1)) = .ok () { sqrtInput (2 ^ 64 - 1) with stack := [] ++ [.uint r] } ∧
      IsRoot (2 ^ 64 - 1) r ∧ ∀ r', IsRoot (2 ^ 64 - 1) r' → r' = r) ∧ ∀ n ∈ sqrtOfSums (2 ^ 64 - 1), n < u64Bound :=
  (opSqrt_root_iff sqrtInstr (sqrtInput (2 ^ 64 - 1)) [] (2 ^ 64 - 1) rfl (by decide) (by decide)).2 (by decide)

/-- Two is left on the stack as its own root. -/
theorem opSqrt_two : opSqrt sqrtInstr (sqrtInput 2) = .ok () (sqrtInput 2) ∧ ¬ IsRoot 2 2 ∧ IsRoot 2 1 := by
  refine ⟨?_, by decide, by decide⟩
  rw [@opSqrt_eq sqrtInstr (sqrtInput 2) [] 2 rfl (by decide)]
  unfold sqrtOf sqrtLoop
  rfl

end Avm
end Algod
