import AlgodRust.Avm.Dispatch
import AlgodRust.Avm.Effects
/-!
# Limits — what the opcodes keep of the sizes of values and of the budget

The stack is never too deep, and no opcode makes a byte string that is longer than the longest one it is given, or than
the limit that concatenation enforces (`Inside`).  An opcode with a known cost charges nothing itself and never fails
for want of budget.  Both are said at once, as what a computation upholds (`Tame`), and gone through once for each
opcode; what an opcode fetches from outside the machine is left to its values (`pushAll_tame`).
-/
namespace Algod
namespace Avm

open Msgpack (Bytes beBytes)
open Run (Upholds Fine)

/-! ## Sizes -/

def AvmValue.size : AvmValue → Nat
  | .uint _ => 0
  | .bytes bs => bs.length

@[simp] theorem AvmValue.size_uint (n : Nat) : (AvmValue.uint n).size = 0 := rfl

@[simp] theorem AvmValue.size_bytes (bs : Bytes) : (AvmValue.bytes bs).size = bs.length := rfl

/-- The stack is not too deep, no value on it or in the scratch space is longer than a limit, and, where one is given,
the budget and the cost are what they were. -/
structure Inside (limit : Nat) (spent : Option (Int × Nat)) (d : Data) : Prop where
  depth : d.stack.length ≤ maxStackDepth
  stack : ∀ v ∈ d.stack, v.size ≤ limit
  scratch : ∀ v ∈ d.scratch, v.size ≤ limit
  spent : ∀ b ∈ spent, (d.budget, d.cost) = b

/-- A failure for want of budget. -/
def AvmError.isBudget : AvmError → Bool
  | .budgetExceeded _ _ => true
  | _ => false

/-- Where the budget is not touched, its want is no reason to fail. -/
def Harmless (spent : Option (Int × Nat)) (e : AvmError) : Prop := spent.isSome = true → e.isBudget = false

theorem Harmless.of_eq {spent : Option (Int × Nat)} {e : AvmError} (h : e.isBudget = false) : Harmless spent e := fun _ => h

/-- A computation that keeps the machine inside its limits, with a property of its value. -/
abbrev Tame (limit : Nat) (spent : Option (Int × Nat)) {α : Type} (x : OnData α) (Q : α → Prop) : Prop :=
  Upholds (Inside limit spent) (Harmless spent) x Q

variable {limit : Nat} {spent : Option (Int × Nat)} {d : Data}

/-- Only the stack changes, and only values that fit are on it. -/
theorem Inside.setStack (h : Inside limit spent d) {stack : List AvmValue} (hlen : stack.length ≤ maxStackDepth)
    (hall : ∀ v ∈ stack, v.size ≤ limit) : Inside limit spent { d with stack := stack } :=
  ⟨hlen, hall, h.scratch, h.spent⟩

theorem Inside.setScratch (h : Inside limit spent d) {scratch : List AvmValue} (hall : ∀ v ∈ scratch, v.size ≤ limit) :
    Inside limit spent { d with scratch := scratch } :=
  ⟨h.depth, h.stack, hall, h.spent⟩

/-! ## The stack -/

section Stack

variable (name : String)

theorem pop_tame : Tame limit spent (pop name) (fun v => v.size ≤ limit) := by
  apply Upholds.get_bind
  intro d hd
  cases htop : d.stack.getLast? with
  | none => exact Harmless.of_eq rfl
  | some v =>
    refine ⟨hd.setStack ?_ fun w hw => hd.stack w (List.mem_of_mem_dropLast hw), hd.stack v (List.mem_of_getLast? htop)⟩
    exact Nat.le_trans (List.dropLast_sublist _).length_le hd.depth

theorem popUint_tame : Tame limit spent (popUint name) (fun _ => True) := by
  apply (pop_tame name).bind
  rintro (n | bs) -
  · exact Upholds.pure trivial
  · exact Upholds.throw (Harmless.of_eq rfl)

theorem popBytes_tame : Tame limit spent (popBytes name) (fun bs => bs.length ≤ limit) := by
  apply (pop_tame name).bind
  rintro (n | bs) hv
  · exact Upholds.throw (Harmless.of_eq rfl)
  · exact Upholds.pure hv

theorem push_tame {v : AvmValue} (hv : v.size ≤ limit) : Tame limit spent (push v) (fun _ => True) := by
  apply Upholds.get_bind
  intro d hd
  by_cases hfull : d.stack.length ≥ maxStackDepth
  · rw [if_pos hfull]; exact Harmless.of_eq rfl
  · rw [if_neg hfull]
    refine ⟨hd.setStack ?_ ?_, trivial⟩
    · rw [List.length_append, List.length_singleton]
      omega
    · intro w hw
      rcases List.mem_append.1 hw with hw | hw
      · exact hd.stack w hw
      · rw [List.mem_singleton.1 hw]; exact hv

theorem pushUint_tame (n : Nat) : Tame limit spent (push (.uint n)) (fun _ => True) := push_tame (Nat.zero_le _)

/-- **Pushing values of which none is too long.** -/
theorem pushAll_tame : ∀ {vs : List AvmValue}, (∀ v ∈ vs, v.size ≤ limit) → Tame limit spent (pushAll vs) (fun _ => True)
  | [], _ => Upholds.pure trivial
  | v :: _, h => (push_tame (h v List.mem_cons_self)).bind fun _ _ =>
    pushAll_tame fun w hw => h w (List.mem_cons_of_mem _ hw)

theorem pushUints_tame (ns : List Nat) : Tame limit spent (pushAll (ns.map .uint)) (fun _ => True) := by
  apply pushAll_tame
  intro v hv
  obtain ⟨n, -, rfl⟩ := List.mem_map.1 hv
  exact Nat.zero_le _

theorem ofText_tame {α : Type} {x : Except String α} {Q : α → Prop} (h : ∀ a, x = .ok a → Q a) :
    Tame limit spent (ofText x) Q := by
  cases x with
  | ok a => exact Upholds.pure (h a rfl)
  | error text => exact Upholds.throw (Harmless.of_eq rfl)

/-- An immediate argument of an instruction, of which nothing more is known. -/
theorem getUint8_tame (instr : Instruction) : Tame limit spent (immediate (getUint8 instr)) (fun _ => True) := by
  unfold getUint8
  split
  · exact Upholds.pure trivial
  · exact Upholds.throw (Harmless.of_eq rfl)

theorem getUint8Pair_tame (instr : Instruction) : Tame limit spent (immediate (getUint8Pair instr)) (fun _ => True) := by
  unfold getUint8Pair
  split
  · exact Upholds.pure trivial
  · exact Upholds.throw (Harmless.of_eq rfl)

theorem getUint8Triple_tame (instr : Instruction) :
    Tame limit spent (immediate (getUint8Triple instr)) (fun _ => True) := by
  unfold getUint8Triple
  split
  · exact Upholds.pure trivial
  · exact Upholds.throw (Harmless.of_eq rfl)

/-- A failure with a text. -/
theorem other_tame {α : Type} {Q : α → Prop} (text : String) :
    Tame limit spent (throw (.other text) : OnData α) Q := Upholds.throw (Harmless.of_eq rfl)

theorem chargeCost_tame (cost : Nat) : Tame limit none (chargeCost name cost) (fun _ => True) := by
  apply Upholds.get_bind
  intro d hd
  by_cases hmuch : (cost : Int) > d.budget
  · rw [if_pos hmuch]; intro h; cases h
  · rw [if_neg hmuch]
    exact ⟨⟨hd.depth, hd.stack, hd.scratch, fun b hb => by cases hb⟩, trivial⟩

end Stack

/-! ## Moving values -/

section Moves

variable (instr : Instruction)

theorem opIntcblock_tame : Tame limit spent (opIntcblock instr) (fun _ => True) := by
  unfold opIntcblock
  split
  · exact Upholds.modify fun d hd => ⟨hd.depth, hd.stack, hd.scratch, hd.spent⟩
  · exact Upholds.throw (Harmless.of_eq rfl)

theorem opBytecblock_tame : Tame limit spent (opBytecblock instr) (fun _ => True) := by
  unfold opBytecblock
  split
  · exact Upholds.modify fun d hd => ⟨hd.depth, hd.stack, hd.scratch, hd.spent⟩
  · exact Upholds.throw (Harmless.of_eq rfl)

theorem opPop_tame : Tame limit spent (opPop instr) (fun _ => True) :=
  (pop_tame _).bind fun _ _ => Upholds.pure trivial

theorem opDup_tame : Tame limit spent (opDup instr) (fun _ => True) := by
  apply (pop_tame _).bind
  intro v hv
  apply pushAll_tame
  simp [hv]

theorem opDup2_tame : Tame limit spent (opDup2 instr) (fun _ => True) := by
  apply (pop_tame _).bind
  intro b hb
  apply (pop_tame _).bind
  intro a ha
  apply pushAll_tame
  simp [ha, hb]

theorem opSelect_tame : Tame limit spent (opSelect instr) (fun _ => True) := by
  apply (popUint_tame _).bind
  intro c _
  apply (pop_tame _).bind
  intro b hb
  apply (pop_tame _).bind
  intro a ha
  apply push_tame
  split
  · exact hb
  · exact ha

theorem opDig_tame : Tame limit spent (opDig instr) (fun _ => True) := by
  apply (getUint8_tame _).bind
  intro n _
  apply Upholds.get_bind
  intro d hd
  split
  · exact Harmless.of_eq rfl
  · refine pushAll_tame (fun v hv => ?_) d hd
    exact hd.stack v (List.mem_of_getElem? (Option.mem_toList.1 hv))

/-- Values that are moved on the stack. -/
theorem moveAt_tame {f : List AvmValue → Nat → List AvmValue}
    (hlen : ∀ stack pos, pos < stack.length → (f stack pos).length ≤ stack.length)
    (hmem : ∀ stack pos, ∀ v ∈ f stack pos, v ∈ stack) : Tame limit spent (moveAt instr f) (fun _ => True) := by
  apply (getUint8_tame _).bind
  intro n _
  apply Upholds.get_bind
  intro d hd
  split
  · exact Harmless.of_eq rfl
  · refine ⟨hd.setStack (Nat.le_trans (hlen _ _ ?_) hd.depth) fun v hv => hd.stack v (hmem _ _ v hv), trivial⟩
    omega

theorem opCover_tame : Tame limit spent (opCover instr) (fun _ => True) := by
  apply moveAt_tame
  · intro stack pos hpos
    have htop : stack.getLast?.toList.length ≤ 1 := by cases stack.getLast? <;> simp
    simp only [List.length_append, List.length_take, List.length_dropLast, List.length_drop]
    omega
  · intro stack pos v hv
    simp only [List.mem_append, Option.mem_toList] at hv
    rcases hv with (hv | hv) | hv
    · exact List.mem_of_mem_take hv
    · exact List.mem_of_getLast? hv
    · exact List.mem_of_mem_drop (List.mem_of_mem_dropLast hv)

theorem opUncover_tame : Tame limit spent (opUncover instr) (fun _ => True) := by
  apply moveAt_tame
  · intro stack pos hpos
    have hval : stack[pos]?.toList.length ≤ 1 := by cases stack[pos]? <;> simp
    simp only [List.length_append, List.length_take, List.length_drop]
    omega
  · intro stack pos v hv
    simp only [List.mem_append, Option.mem_toList] at hv
    rcases hv with (hv | hv) | hv
    · exact List.mem_of_mem_take hv
    · exact List.mem_of_mem_drop hv
    · exact List.mem_of_getElem? hv

/-- What is left of the stack when its two top values are replaced by values that fit. -/
theorem Inside.replaceTop (hd : Inside limit spent d) {values : List AvmValue}
    (htop : (d.stack.drop (d.stack.length - 2)).length = 2) (hlen : values.length ≤ 2) (hall : ∀ v ∈ values, v.size ≤ limit) :
    Inside limit spent { d with stack := d.stack.take (d.stack.length - 2) ++ values } := by
  have hdepth := hd.depth
  rw [List.length_drop] at htop
  apply hd.setStack
  · simp only [List.length_append, List.length_take]
    omega
  · intro v hv
    rcases List.mem_append.1 hv with hv | hv
    · exact hd.stack v (List.mem_of_mem_take hv)
    · exact hall v hv

theorem opSwap_tame : Tame limit spent opSwap (fun _ => True) := by
  apply Upholds.get_bind
  intro d hd
  have hsizes : ∀ v ∈ d.stack.drop (d.stack.length - 2), v.size ≤ limit := fun v hv =>
    hd.stack v (List.mem_of_mem_drop hv)
  have hreplace := @Inside.replaceTop limit spent d hd
  generalize htop : d.stack.drop (d.stack.length - 2) = top at hsizes hreplace
  match top with
  | [a, b] =>
    exact ⟨hreplace rfl (Nat.le_refl 2) fun v hv => hsizes v (by simpa [or_comm] using hv), trivial⟩
  | [] => exact Harmless.of_eq rfl
  | [_] => exact Harmless.of_eq rfl
  | _ :: _ :: _ :: _ => exact Harmless.of_eq rfl

theorem opBury_tame : Tame limit spent (opBury instr) (fun _ => True) := by
  apply (getUint8_tame _).bind
  intro n _
  apply (pop_tame _).bind
  intro val hval
  apply Upholds.get_bind
  intro d hd
  split
  · exact Harmless.of_eq rfl
  · refine ⟨hd.setStack (by rw [List.length_set]; exact hd.depth) fun v hv => ?_, trivial⟩
    rcases List.mem_or_eq_of_mem_set hv with hv | rfl
    · exact hd.stack v hv
    · exact hval

theorem opPopn_tame : Tame limit spent (opPopn instr) (fun _ => True) := by
  apply (getUint8_tame _).bind
  intro n _
  apply Upholds.get_bind
  intro d hd
  split
  · exact Harmless.of_eq rfl
  · exact ⟨hd.setStack (Nat.le_trans (List.take_sublist _ _).length_le hd.depth) fun v hv =>
      hd.stack v (List.mem_of_mem_take hv), trivial⟩

theorem opDupn_tame : Tame limit spent (opDupn instr) (fun _ => True) := by
  apply (getUint8_tame _).bind
  intro n _
  apply Upholds.get_bind
  intro d hd
  cases htop : d.stack.getLast? with
  | none => exact Harmless.of_eq rfl
  | some val =>
    refine pushAll_tame (fun v hv => ?_) d hd
    rw [List.eq_of_mem_replicate hv]
    exact hd.stack val (List.mem_of_getLast? htop)

theorem opStore_tame : Tame limit spent (opStore instr) (fun _ => True) := by
  apply (getUint8_tame _).bind
  intro i _
  apply (pop_tame _).bind
  intro val hval
  apply Upholds.modify
  intro d hd
  apply hd.setScratch
  intro v hv
  rcases List.mem_or_eq_of_mem_set hv with hv | rfl
  · exact hd.scratch v hv
  · exact hval

theorem opLoad_tame : Tame limit spent (opLoad instr) (fun _ => True) := by
  apply (getUint8_tame _).bind
  intro i _
  apply Upholds.get_bind
  intro d hd
  refine push_tame ?_ d hd
  rw [List.getD_eq_getElem?_getD]
  cases hval : d.scratch[i.toNat]? with
  | none => exact Nat.zero_le _
  | some val => exact hd.scratch val (List.mem_of_getElem? hval)

theorem opStores_tame : Tame limit spent (opStores instr) (fun _ => True) := by
  apply (pop_tame _).bind
  intro val hval
  apply (popUint_tame _).bind
  intro idx _
  apply Upholds.get_bind
  intro d hd
  split
  · exact Harmless.of_eq rfl
  · refine ⟨hd.setScratch fun v hv => ?_, trivial⟩
    rcases List.mem_or_eq_of_mem_set hv with hv | rfl
    · exact hd.scratch v hv
    · exact hval

theorem opLoads_tame : Tame limit spent (opLoads instr) (fun _ => True) := by
  apply (popUint_tame _).bind
  intro idx _
  apply Upholds.get_bind
  intro d hd
  cases hval : d.scratch[idx]? with
  | none => exact Harmless.of_eq rfl
  | some val => exact push_tame (hd.scratch val (List.mem_of_getElem? hval)) d hd

end Moves

/-! ## Arithmetic and logic -/

section Numbers

variable (instr : Instruction)

theorem uintOp1_tame (f : Nat → Except String (List Nat)) : Tame limit spent (uintOp1 f instr) (fun _ => True) := by
  apply (popUint_tame _).bind
  intro a _
  apply (ofText_tame fun _ _ => trivial).bind
  intro results _
  exact pushUints_tame results

theorem uintOp2_tame (f : Nat → Nat → Except String (List Nat)) : Tame limit spent (uintOp2 f instr) (fun _ => True) := by
  apply (popUint_tame _).bind
  intro b _
  apply (popUint_tame _).bind
  intro a _
  apply (ofText_tame fun _ _ => trivial).bind
  intro results _
  exact pushUints_tame results

theorem compareOp_tame (text : String) (result : Bool → Nat) :
    Tame limit spent (compareOp text result instr) (fun _ => True) := by
  apply Upholds.get_bind
  intro d hd
  have hreplace := @Inside.replaceTop limit spent d hd
  have hsingle := @opPop_tame limit spent instr d hd
  generalize htop : d.stack.drop (d.stack.length - 2) = top at hreplace
  match top with
  | [.uint _, .uint _] => exact ⟨hreplace rfl (Nat.le_succ 1) (by simp), trivial⟩
  | [.bytes _, .bytes _] => exact ⟨hreplace rfl (Nat.le_succ 1) (by simp), trivial⟩
  | [.uint _, .bytes _] => exact Harmless.of_eq rfl
  | [.bytes _, .uint _] => exact Harmless.of_eq rfl
  | [] => exact hsingle
  | [a] => cases a <;> exact hsingle
  | a :: b :: _ :: _ => cases a <;> cases b <;> exact hsingle

theorem opDivmodw_tame : Tame limit spent (opDivmodw instr) (fun _ => True) := by
  apply (popUint_tame _).bind
  intro bLow _
  apply (popUint_tame _).bind
  intro bHigh _
  apply (popUint_tame _).bind
  intro aLow _
  apply (popUint_tame _).bind
  intro aHigh _
  apply Upholds.ite
  · intro _; exact other_tame _
  · intro _
    apply pushAll_tame
    simp

theorem opDivw_tame : Tame limit spent (opDivw instr) (fun _ => True) := by
  apply (popUint_tame _).bind
  intro b _
  apply (popUint_tame _).bind
  intro aLow _
  apply (popUint_tame _).bind
  intro aHigh _
  apply Upholds.ite
  · intro _; exact other_tame _
  · intro _
    apply Upholds.ite
    · intro _; exact other_tame _
    · intro _; exact pushUint_tame _

theorem opBitlen_tame : Tame limit spent (opBitlen instr) (fun _ => True) := by
  apply (pop_tame _).bind
  rintro (n | bs) -
  · exact pushUint_tame _
  · exact pushUint_tame _

theorem opGetbit_tame : Tame limit spent (opGetbit instr) (fun _ => True) := by
  apply (popUint_tame _).bind
  intro n _
  apply (pop_tame _).bind
  intro target _
  apply (ofText_tame fun _ _ => trivial).bind
  intro bit _
  exact pushUint_tame bit

/-- A bit that is set leaves the length. -/
theorem setbit_size {target result : AvmValue} {n v : Nat} (h : setbit target n v = .ok result) :
    result.size ≤ target.size := by
  unfold setbit at h
  split at h
  · cases h
  · cases target with
    | uint val =>
      simp only at h
      split at h
      · cases h
      · cases h; exact Nat.zero_le _
    | bytes bs =>
      simp only at h
      split at h
      · cases h
      · cases h
        simp only [AvmValue.size_bytes, List.length_set]
        exact Nat.le_refl _

theorem opSetbit_tame : Tame limit spent (opSetbit instr) (fun _ => True) := by
  apply (popUint_tame _).bind
  intro v _
  apply (popUint_tame _).bind
  intro n _
  apply (pop_tame _).bind
  intro target htarget
  apply (ofText_tame fun result h => Nat.le_trans (setbit_size h) htarget).bind
  intro result hresult
  exact push_tame hresult

theorem opGetbyte_tame : Tame limit spent (opGetbyte instr) (fun _ => True) := by
  apply (popUint_tame _).bind
  intro n _
  apply (popBytes_tame _).bind
  intro bs _
  cases bs[n]? with
  | none => exact other_tame _
  | some byte => exact pushUint_tame _

theorem opSetbyte_tame : Tame limit spent (opSetbyte instr) (fun _ => True) := by
  apply (popUint_tame _).bind
  intro v _
  apply (popUint_tame _).bind
  intro n _
  apply (popBytes_tame _).bind
  intro bs hbs
  apply Upholds.ite
  · intro _; exact other_tame _
  · intro _
    apply Upholds.ite
    · intro _; exact other_tame _
    · intro _
      apply push_tame
      rw [AvmValue.size_bytes, List.length_set]
      exact hbs

end Numbers

/-! ## Byte strings -/

section ByteStrings

variable (instr : Instruction)

theorem length_slice (a : Bytes) (s e : Nat) : (slice a s e).length ≤ a.length := by
  unfold slice
  simp only [List.length_take, List.length_drop]
  omega

theorem opLen_tame : Tame limit spent (opLen instr) (fun _ => True) :=
  (popBytes_tame _).bind fun _ _ => pushUint_tame _

theorem opBtoi_tame : Tame limit spent (opBtoi instr) (fun _ => True) := by
  apply (popBytes_tame _).bind
  intro a _
  apply Upholds.ite
  · intro _; exact other_tame _
  · intro _; exact pushUint_tame _

theorem substring_length {a result : Bytes} {s e : Nat} (h : substring a s e = .ok result) : result.length ≤ a.length := by
  unfold substring at h
  split at h
  · cases h
  · split at h
    · cases h
    · cases h; exact length_slice a s e

theorem opSubstring_tame : Tame limit spent (opSubstring instr) (fun _ => True) := by
  apply (getUint8Pair_tame _).bind
  rintro ⟨s, e⟩ _
  apply (popBytes_tame _).bind
  intro a ha
  apply (ofText_tame fun result h => Nat.le_trans (substring_length h) ha).bind
  intro result hresult
  exact push_tame hresult

theorem opSubstring3_tame : Tame limit spent (opSubstring3 instr) (fun _ => True) := by
  apply (popUint_tame _).bind
  intro e _
  apply (popUint_tame _).bind
  intro s _
  apply (popBytes_tame _).bind
  intro a ha
  apply Upholds.ite
  · intro _; exact other_tame _
  · intro _
    apply (ofText_tame fun result h => Nat.le_trans (substring_length h) ha).bind
    intro result hresult
    exact push_tame hresult

theorem opExtract_tame : Tame limit spent (opExtract instr) (fun _ => True) := by
  apply (getUint8Pair_tame _).bind
  rintro ⟨s, l⟩ _
  apply (popBytes_tame _).bind
  intro a ha
  apply Upholds.ite
  · intro _; exact other_tame _
  · intro _
    apply Upholds.ite
    · intro _
      apply push_tame
      rw [AvmValue.size_bytes, List.length_drop]
      omega
    · intro _
      apply Upholds.ite
      · intro _; exact other_tame _
      · intro _; exact push_tame (Nat.le_trans (length_slice _ _ _) ha)

theorem opExtract3_tame : Tame limit spent (opExtract3 instr) (fun _ => True) := by
  apply (popUint_tame _).bind
  intro l _
  apply (popUint_tame _).bind
  intro s _
  apply (popBytes_tame _).bind
  intro a ha
  apply Upholds.ite
  · intro _; exact other_tame _
  · intro _
    apply Upholds.ite
    · intro _; exact other_tame _
    · intro _; exact push_tame (Nat.le_trans (length_slice _ _ _) ha)

theorem extractUint_tame (size : Nat) : Tame limit spent (extractUint size instr) (fun _ => True) := by
  apply (popUint_tame _).bind
  intro s _
  apply (popBytes_tame _).bind
  intro a _
  apply Upholds.ite
  · intro _; exact other_tame _
  · intro _; exact pushUint_tame _

/-- Bytes that are written over others leave the length. -/
theorem replaceBytes_length {name : String} {a b result : Bytes} {s : Nat} (h : replaceBytes name a s b = .ok result) :
    result.length ≤ a.length := by
  unfold replaceBytes at h
  split at h
  · cases h
  · split at h
    · cases h
    · cases h
      simp only [List.length_append, List.length_take, List.length_drop]
      omega

theorem opReplace2_tame : Tame limit spent (opReplace2 instr) (fun _ => True) := by
  apply (getUint8_tame _).bind
  intro s _
  apply (popBytes_tame _).bind
  intro b _
  apply (popBytes_tame _).bind
  intro a ha
  apply (ofText_tame fun result h => Nat.le_trans (replaceBytes_length h) ha).bind
  intro result hresult
  exact push_tame hresult

theorem opReplace3_tame : Tame limit spent (opReplace3 instr) (fun _ => True) := by
  apply (popBytes_tame _).bind
  intro b _
  apply (popUint_tame _).bind
  intro s _
  apply (popBytes_tame _).bind
  intro a ha
  apply (ofText_tame fun result h => Nat.le_trans (replaceBytes_length h) ha).bind
  intro result hresult
  exact push_tame hresult

theorem length_zipWith_padTo (f : UInt8 → UInt8 → UInt8) (a b : Bytes) :
    (List.zipWith f (padTo (max a.length b.length) a) (padTo (max a.length b.length) b)).length =
      max a.length b.length := by
  unfold padTo
  simp only [List.length_zipWith, List.length_append, List.length_replicate]
  omega

theorem bitwiseOp2_tame (f : UInt8 → UInt8 → UInt8) : Tame limit spent (bitwiseOp2 f instr) (fun _ => True) := by
  apply (popBytes_tame _).bind
  intro b hb
  apply (popBytes_tame _).bind
  intro a ha
  apply push_tame
  rw [AvmValue.size_bytes, length_zipWith_padTo]
  exact Nat.max_le.2 ⟨ha, hb⟩

theorem opBbitwiseNot_tame : Tame limit spent (opBbitwiseNot instr) (fun _ => True) := by
  apply (popBytes_tame _).bind
  intro a ha
  apply push_tame
  rw [AvmValue.size_bytes, List.length_map]
  exact ha

/-! The opcodes from here on make byte strings of their own, which are not longer than the limit of concatenation. -/

variable (hlimit : maxStringSize ≤ limit)

include hlimit

theorem opItob_tame : Tame limit spent (opItob instr) (fun _ => True) := by
  apply (popUint_tame _).bind
  intro a _
  apply push_tame
  rw [AvmValue.size_bytes, Msgpack.length_beBytes]
  exact Nat.le_trans (by decide) hlimit

theorem opConcat_tame : Tame limit spent (opConcat instr) (fun _ => True) := by
  apply (popBytes_tame _).bind
  intro b _
  apply (popBytes_tame _).bind
  intro a _
  apply Upholds.ite
  · intro _; exact other_tame _
  · intro hshort
    apply push_tame
    rw [AvmValue.size_bytes, List.length_append]
    exact Nat.le_trans (Nat.not_lt.1 hshort) hlimit

theorem opBzero_tame : Tame limit spent (opBzero instr) (fun _ => True) := by
  apply (popUint_tame _).bind
  intro n _
  apply Upholds.ite
  · intro _; exact other_tame _
  · intro hshort
    apply push_tame
    rw [AvmValue.size_bytes, List.length_replicate]
    exact Nat.le_trans (Nat.not_lt.1 hshort) hlimit

end ByteStrings

/-! ## Byte arithmetic -/

section ByteMath

theorem foldl_bytes_lt : ∀ (bs : Bytes) (n k : Nat), n < 256 ^ k →
    bs.foldl (fun n byte => 256 * n + byte.toNat) n < 256 ^ (k + bs.length)
  | [], _, _, h => h
  | byte :: bs, n, k, h => by
    have hbyte := byte.toNat_lt
    have hnext : 256 * n + byte.toNat < 256 ^ (k + 1) := by
      rw [Nat.pow_succ]
      omega
    have := foldl_bytes_lt bs (256 * n + byte.toNat) (k + 1) hnext
    rw [List.foldl_cons, List.length_cons]
    rwa [Nat.add_right_comm, Nat.add_assoc] at this

theorem biguintFromBytes_lt (bs : Bytes) : biguintFromBytes bs < 256 ^ bs.length := by
  have := foldl_bytes_lt bs 0 0 (by decide)
  rwa [Nat.zero_add] at this

/-- A number below a power of 256 has as many bytes at most. -/
theorem length_biguintToBytes {n k : Nat} (h : n < 256 ^ k) : (biguintToBytes n).length ≤ k := by
  unfold biguintToBytes bitCount
  rw [Msgpack.length_beBytes]
  split
  · omega
  · rename_i hn
    have hlog : Nat.log2 n < 8 * k := by
      rw [Nat.log2_lt hn, Nat.pow_mul]
      exact h
    omega

theorem checkBigintInput_lt {bs : Bytes} {n : Nat} (h : checkBigintInput bs = .ok n) : n < 256 ^ maxBigintLen := by
  unfold checkBigintInput at h
  split at h
  · cases h
  · rename_i hshort
    cases h
    exact Nat.lt_of_lt_of_le (biguintFromBytes_lt bs) (Nat.pow_le_pow_right (by decide) (Nat.not_lt.1 hshort))

variable (instr : Instruction)

/-- What is computed from two numbers of at most 64 bytes. -/
theorem bigintOp2_tame {f : Nat → Nat → Except String AvmValue}
    (hf : ∀ a b v, a < 256 ^ maxBigintLen → b < 256 ^ maxBigintLen → f a b = .ok v → v.size ≤ limit) :
    Tame limit spent (bigintOp2 f instr) (fun _ => True) := by
  apply (popBytes_tame _).bind
  intro bs _
  apply (popBytes_tame _).bind
  intro as _
  apply (ofText_tame fun _ h => checkBigintInput_lt h).bind
  intro a ha
  apply (ofText_tame fun _ h => checkBigintInput_lt h).bind
  intro b hb
  apply (ofText_tame fun v hv => hf a b v ha hb hv).bind
  intro v hv
  exact push_tame hv

/-- A comparison of two numbers. -/
theorem bigintTest_tame (test : Nat → Nat → Bool) :
    Tame limit spent (bigintOp2 (fun a b => .ok (.uint (truth (test a b)))) instr) (fun _ => True) := by
  apply bigintOp2_tame instr
  intro a b v _ _ h
  cases h
  exact Nat.zero_le _

variable (hlimit : maxStringSize ≤ limit)

include hlimit

theorem bigint_size {n : Nat} (h : n < 256 ^ (2 * maxBigintLen)) : (bigint n).size ≤ limit :=
  Nat.le_trans (length_biguintToBytes h) (Nat.le_trans (by decide) hlimit)

theorem opBadd_tame : Tame limit spent (opBadd instr) (fun _ => True) := by
  apply bigintOp2_tame instr
  intro a b v ha hb h
  cases h
  apply bigint_size hlimit
  have : (256 : Nat) ^ maxBigintLen + 256 ^ maxBigintLen ≤ 256 ^ (2 * maxBigintLen) := by decide
  omega

theorem opBmul_tame : Tame limit spent (opBmul instr) (fun _ => True) := by
  apply bigintOp2_tame instr
  intro a b v ha hb h
  cases h
  apply bigint_size hlimit
  rw [Nat.two_mul, Nat.pow_add]
  exact Nat.mul_lt_mul'' ha hb

theorem opBsub_tame : Tame limit spent (opBsub instr) (fun _ => True) := by
  apply bigintOp2_tame instr
  intro a b v ha _ h
  have hdouble : (256 : Nat) ^ maxBigintLen ≤ 256 ^ (2 * maxBigintLen) := by decide
  split at h
  · cases h
  · cases h
    apply bigint_size hlimit
    omega

theorem opBdiv_tame : Tame limit spent (opBdiv instr) (fun _ => True) := by
  apply bigintOp2_tame instr
  intro a b v ha _ h
  have hdouble : (256 : Nat) ^ maxBigintLen ≤ 256 ^ (2 * maxBigintLen) := by decide
  split at h
  · cases h
  · cases h
    apply bigint_size hlimit
    have := Nat.div_le_self a b
    omega

theorem opBmod_tame : Tame limit spent (opBmod instr) (fun _ => True) := by
  apply bigintOp2_tame instr
  intro a b v ha _ h
  have hdouble : (256 : Nat) ^ maxBigintLen ≤ 256 ^ (2 * maxBigintLen) := by decide
  split at h
  · cases h
  · cases h
    apply bigint_size hlimit
    have := Nat.mod_le a b
    omega

theorem opBsqrt_tame : Tame limit spent (opBsqrt instr) (fun _ => True) := by
  apply (popBytes_tame _).bind
  intro bs _
  apply (ofText_tame fun _ h => checkBigintInput_lt h).bind
  intro a ha
  apply push_tame
  apply bigint_size hlimit
  have hdouble : (256 : Nat) ^ maxBigintLen ≤ 256 ^ (2 * maxBigintLen) := by decide
  have := Nat.sqrt_le_self a
  omega

end ByteMath

end Avm
end Algod
