import AlgodRust.Avm.ControlFlow
/-!
# Effects — what a step leaves alone and what it costs

Flow control touches neither the record of the opcodes that ran nor the budget (`flowOp_steady`).  A step therefore
charges the cost of its instruction and what the handler charges (`step_spends`): a program that goes on has always
paid for it, where every opcode without a fixed cost charges something.
-/
namespace Algod
namespace Avm

/-! ## Flow control -/

section Steady

/-- The record of the opcodes and the budget are the same. -/
structure Untouched (m m' : Machine) : Prop where
  hits : m'.opcodeHits = m.opcodeHits
  budget : m'.data.budget = m.data.budget

abbrev Steady {α : Type} (x : Flow α) : Prop := Run.Respects Untouched x

variable {α β : Type} (instr : Instruction)

theorem Untouched.refl (m : Machine) : Untouched m m := ⟨rfl, rfl⟩

theorem Untouched.trans (m₁ m₂ m₃ : Machine) (h₁ : Untouched m₁ m₂) (h₂ : Untouched m₂ m₃) : Untouched m₁ m₃ :=
  ⟨h₂.hits.trans h₁.hits, h₂.budget.trans h₁.budget⟩

theorem Steady.bind {x : Flow α} {f : α → Flow β} (hx : Steady x) (hf : ∀ a, Steady (f a)) : Steady (x >>= f) :=
  Run.Respects.bind Untouched.trans hx hf

theorem Steady.pure (a : α) : Steady (Pure.pure a : Flow α) := Run.Respects.pure Untouched.refl a

theorem Steady.throw (e : AvmError) : Steady (throw e : Flow α) := Run.Respects.throw e

/-- The machine that is read is the machine the rest starts from. -/
theorem Steady.get_bind {f : Machine → Flow α} (hf : ∀ m, Steady (f m)) : Steady (get >>= f) :=
  Run.Respects.get_bind fun m a m' h => hf m m a m' h

theorem Steady.modify {f : Machine → Machine} (hf : ∀ m, Untouched m (f m)) : Steady (modify f) := Run.Respects.modify hf

theorem onData_steady {x : OnData α} (hx : Run.Respects (fun d d' : Data => d'.budget = d.budget) x) : Steady (onData x) := by
  intro m a m' h
  obtain ⟨d, hd, rfl⟩ := onData_eq_ok.1 h
  exact ⟨rfl, hx _ _ _ hd⟩

theorem pop_steady (name : String) : Steady (onData (pop name)) := by
  apply onData_steady
  intro d v d' h
  rw [(pop_eq_ok h).2]

theorem popUint_steady (name : String) : Steady (onData (popUint name)) := by
  apply onData_steady
  intro d n d' h
  rw [(popUint_eq_ok h).2]

theorem popN_steady (name : String) (n : Nat) : Steady (onData (popN name n)) := by
  apply onData_steady
  intro d vs d' h
  rw [← (popN_eq_ok h).2.2]

theorem push_steady (v : AvmValue) : Steady (onData (push v)) := by
  apply onData_steady
  apply Run.Respects.get_bind
  intro d _ d' h
  by_cases hfull : d.stack.length ≥ maxStackDepth
  · rw [if_pos hfull] at h; cases h
  · rw [if_neg hfull] at h; cases h; rfl

theorem clearFrame_steady (frame : CallFrame) : Steady (onData (clearFrame frame)) := by
  apply onData_steady
  apply Run.Respects.get_bind
  intro d _ d' h
  by_cases hshort : d.stack.length < frame.framePointer + frame.returns
  · simp only [hshort, if_true] at h
    split at h
    · cases h
    · split at h <;> cases h
  · simp only [hshort, if_false] at h
    cases h
    rfl

theorem ofExcept_steady (x : Except AvmError α) : Steady (ofExcept x) := by
  cases x with
  | ok a => exact .pure a
  | error e => exact .throw e

theorem jump_steady (pc : Nat) : Steady (jump pc) := .modify fun _ => ⟨rfl, rfl⟩

theorem advance_steady : Steady advance := .modify fun _ => ⟨rfl, rfl⟩

theorem branch_steady : Steady (branch instr) :=
  .get_bind fun _ => (ofExcept_steady _).bind jump_steady

theorem opBnz_steady : Steady (opBnz instr) := by
  apply (popUint_steady _).bind
  intro val
  by_cases hval : val ≠ 0
  · rw [if_pos hval]; exact branch_steady instr
  · rw [if_neg hval]; exact advance_steady

theorem opBz_steady : Steady (opBz instr) := by
  apply (popUint_steady _).bind
  intro val
  by_cases hval : val = 0
  · rw [if_pos hval]; exact branch_steady instr
  · rw [if_neg hval]; exact advance_steady

theorem opReturn_steady : Steady (opReturn instr) := (popUint_steady _).bind fun _ => .modify fun _ => ⟨rfl, rfl⟩

theorem opAssert_steady : Steady (opAssert instr) := by
  apply (popUint_steady _).bind
  intro val
  by_cases hval : val ≠ 0
  · rw [if_pos hval]; exact .pure _
  · rw [if_neg hval]; exact .get_bind fun _ => .throw _

theorem pushCallFrame_steady (frame : CallFrame) : Steady (pushCallFrame frame) := by
  apply Run.Respects.get_bind
  intro m _ m' h
  by_cases hfull : m.callStack.length ≥ maxCallStackDepth
  · rw [if_pos hfull] at h; cases h
  · rw [if_neg hfull] at h; cases h; exact ⟨rfl, rfl⟩

theorem popCallFrame_steady : Steady popCallFrame := by
  apply Run.Respects.get_bind
  intro m _ m' h
  cases hcalls : m.callStack with
  | nil => simp only [hcalls] at h; cases h
  | cons frame frames => simp only [hcalls] at h; cases h; exact ⟨rfl, rfl⟩

theorem opCallsub_steady : Steady (opCallsub instr) := by
  apply Steady.get_bind
  intro _
  apply (pushCallFrame_steady _).bind
  intro _
  apply (branch_steady instr).bind
  intro _
  apply Steady.modify
  intro m
  by_cases hproto : (m.program.instructions[m.pc]?).any (fun target => target.opcode == 0x8a) = true
  · rw [if_pos hproto]; exact ⟨rfl, rfl⟩
  · rw [if_neg hproto]; exact .refl m

theorem opRetsub_steady : Steady opRetsub := by
  apply popCallFrame_steady.bind
  intro frame
  cases hclear : frame.clear with
  | true =>
    simp only [if_true]
    exact (clearFrame_steady _).bind fun _ => jump_steady _
  | false => exact jump_steady _

theorem opProto_steady : Steady (opProto instr) := by
  apply Run.Respects.get_bind
  intro m _ m' h
  cases hcallsub : m.fromCallsub with
  | false => simp only [hcallsub] at h; cases h
  | true =>
    simp only [hcallsub, Bool.not_true, Bool.false_eq_true, if_false] at h
    rw [Run.state_bind_eq_ok] at h
    obtain ⟨_, m₁, hset, h⟩ := h
    cases hset
    cases hi : instr.immediates with
    | uint8Pair args returns =>
      cases hcalls : m.callStack with
      | nil => simp only [hi, hcalls] at h; cases h
      | cons frame frames =>
        simp only [hi, hcalls] at h
        by_cases hlow : frame.framePointer < args.toNat
        · rw [if_pos hlow] at h; cases h
        · rw [if_neg hlow] at h; cases h; exact ⟨rfl, rfl⟩
    | _ => simp only [hi] at h; cases h

theorem frameAccess_steady : Steady (frameAccess instr) := by
  intro m r m' h
  rw [frameAccess_eq_ok h]
  exact .refl m

theorem opFrameDig_steady : Steady (opFrameDig instr) := by
  apply (frameAccess_steady instr).bind
  intro r
  apply (ofExcept_steady _).bind
  intro idx
  apply Steady.get_bind
  intro m
  cases m.data.stack[idx]? with
  | none => exact .throw _
  | some val => exact push_steady val

theorem opFrameBury_steady : Steady (opFrameBury instr) := by
  apply (frameAccess_steady instr).bind
  intro r
  apply (pop_steady _).bind
  intro val
  apply (ofExcept_steady _).bind
  intro idx
  apply Run.Respects.get_bind
  intro m _ m' h
  by_cases hidx : idx ≥ m.data.stack.length
  · rw [if_pos hidx] at h; cases h
  · rw [if_neg hidx] at h; cases h; exact ⟨rfl, rfl⟩

theorem opSwitch_steady : Steady (opSwitch instr) := by
  unfold opSwitch
  cases instr.immediates with
  | labels offsets =>
    apply (popUint_steady _).bind
    intro index
    cases offsets[index]? with
    | none => exact advance_steady
    | some offset => exact .get_bind fun _ => (ofExcept_steady _).bind jump_steady
  | _ => exact .throw _

theorem opMatch_steady : Steady (opMatch instr) := by
  unfold opMatch
  cases instr.immediates with
  | labels offsets =>
    apply (pop_steady _).bind
    intro targetVal
    apply (popN_steady _ _).bind
    intro matchValues
    cases (matchValues.findIdx? (fun val => val == targetVal)).bind (fun i => offsets[i]?) with
    | none => exact advance_steady
    | some offset => exact .get_bind fun _ => (ofExcept_steady _).bind jump_steady
  | _ => exact .throw _

/-- **Flow control leaves the record of the opcodes and the budget alone.** -/
theorem flowOp_steady {f : Flow Unit} (hf : flowOp instr = some f) : Steady f := by
  unfold flowOp at hf
  split at hf <;> cases hf
  · exact .throw _
  · exact opBnz_steady instr
  · exact opBz_steady instr
  · exact branch_steady instr
  · exact opReturn_steady instr
  · exact opAssert_steady instr
  · exact opCallsub_steady instr
  · exact opRetsub_steady
  · exact opProto_steady instr
  · exact opFrameDig_steady instr
  · exact opFrameBury_steady instr
  · exact opSwitch_steady instr
  · exact opMatch_steady instr

/-- The end of the instructions ends the program. -/
theorem finishImplicit_eq_ok {m m' : Machine} (h : finishImplicit m = .ok () m') :
    m.data.stack ≠ [] ∧ m'.finished = true ∧ Untouched m m' := by
  unfold finishImplicit at h
  rw [Run.state_bind_eq_ok] at h
  obtain ⟨_, m₁, hmodify, h⟩ := h
  cases hmodify
  rw [Run.state_bind_eq_ok] at h
  obtain ⟨m₂, _, hget, h⟩ := h
  cases hget
  rcases hstack : m.data.stack with _ | ⟨v, _ | ⟨w, vs⟩⟩
  · simp only [hstack] at h; cases h
  · cases v with
    | uint n => simp only [hstack] at h; cases h; exact ⟨by simp, rfl, rfl, rfl⟩
    | bytes bs => simp only [hstack] at h; cases h
  · simp only [hstack] at h; cases h

theorem checkArguments_steady : Steady (checkArguments instr) := by
  apply Steady.get_bind
  intro m
  cases argGate instr m.data.stack with
  | none => exact .pure _
  | some e => exact .throw e

theorem advanceFrom_steady (oldPc : Nat) : Steady (advanceFrom oldPc) := by
  apply Steady.modify
  intro m
  by_cases hstay : (!m.finished && m.pc == oldPc) = true
  · rw [if_pos hstay]; exact ⟨rfl, rfl⟩
  · rw [if_neg hstay]; exact .refl m

end Steady

/-! ## Steps -/

section Step

variable {σ : Type} {handlers : Handlers σ} {s s' : Machine × σ} {m m' : Machine} {instr : Instruction}

/-- The parts of a step. -/
theorem step_eq_ok (h : step handlers s = .ok () s') : s.1.finished = false ∧
    ((s.1.program.instructions[s.1.pc]? = none ∧ ∃ m, finishImplicit s.1 = .ok () m ∧ s' = (m, s.2)) ∨
      ∃ instr m₂ m₃ s₄ m₅, s.1.program.instructions[s.1.pc]? = some instr ∧
        checkArguments instr { s.1 with opcodeHits := s.1.opcodeHits.set instr.opcode.toNat true } = .ok () m₂ ∧
        chargeStatic instr m₂ = .ok () m₃ ∧ dispatch handlers instr (m₃, s.2) = .ok () s₄ ∧
        advanceFrom s.1.pc s₄.1 = .ok () m₅ ∧ s' = (m₅, s₄.2)) := by
  unfold step at h
  rw [Run.state_bind_eq_ok] at h
  obtain ⟨s₀, _, hget, h⟩ := h
  cases hget
  cases hfin : s.1.finished with
  | true => rw [hfin] at h; cases h
  | false =>
    refine ⟨rfl, ?_⟩
    simp only [hfin, Bool.false_eq_true, if_false] at h
    cases hinstr : s.1.program.instructions[s.1.pc]? with
    | none =>
      simp only [hinstr] at h
      obtain ⟨m, hm, rfl⟩ := onMachine_eq_ok.1 h
      exact .inl ⟨rfl, m, hm, rfl⟩
    | some instr =>
      simp only [hinstr] at h
      rw [Run.state_bind_eq_ok] at h
      obtain ⟨_, s₁, hhit, h⟩ := h
      obtain ⟨m₁, hm₁, rfl⟩ := onMachine_eq_ok.1 hhit
      cases hm₁
      rw [Run.state_bind_eq_ok] at h
      obtain ⟨_, s₂, hargs, h⟩ := h
      rw [Run.state_bind_eq_ok] at h
      obtain ⟨_, s₃, hcharge, h⟩ := h
      rw [Run.state_bind_eq_ok] at h
      obtain ⟨_, s₄, hop, hadvance⟩ := h
      obtain ⟨m₂, hm₂, rfl⟩ := onMachine_eq_ok.1 hargs
      obtain ⟨m₃, hm₃, rfl⟩ := onMachine_eq_ok.1 hcharge
      obtain ⟨m₅, hm₅, rfl⟩ := onMachine_eq_ok.1 hadvance
      exact .inr ⟨instr, m₂, m₃, s₄, m₅, rfl, hm₂, hm₃, hop, hm₅, rfl⟩

theorem dispatch_eq_ok (h : dispatch handlers instr s = .ok () s') :
    (∃ f m, flowOp instr = some f ∧ f s.1 = .ok () m ∧ s' = (m, s.2)) ∨
      (flowOp instr = none ∧ ∃ t, handlers.handle s.1.mode s.1.program.version instr (s.1.data, s.2) = .ok () t ∧
        s' = ({ s.1 with data := t.1 }, t.2)) := by
  unfold dispatch at h
  rw [Run.state_bind_eq_ok] at h
  obtain ⟨s₀, _, hget, h⟩ := h
  cases hget
  rw [Run.state_bind_eq_ok] at h
  obtain ⟨_, s₁, hmode, h⟩ := h
  obtain ⟨m₁, hm₁, rfl⟩ := onMachine_eq_ok.1 hmode
  obtain ⟨-, rfl⟩ := ofExcept_eq_ok.1 hm₁
  cases hflow : flowOp instr with
  | some f =>
    simp only [hflow] at h
    obtain ⟨m, hm, rfl⟩ := onMachine_eq_ok.1 h
    exact .inl ⟨f, m, rfl, hm, rfl⟩
  | none =>
    simp only [hflow] at h
    obtain ⟨t, ht, rfl⟩ := Run.zoom_eq_ok.1 h
    exact .inr ⟨rfl, t, ht, rfl⟩

/-! ### Costs -/

/-- The budget is only spent, and only as far as it goes. -/
def Spends (d d' : Data) : Prop := d'.budget ≤ d.budget ∧ (d'.budget = d.budget ∨ 0 ≤ d'.budget)

theorem Spends.of_eq {d d' : Data} (h : d'.budget = d.budget) : Spends d d' := ⟨h.le, .inl h⟩

theorem Spends.trans {d₁ d₂ d₃ : Data} (h : Spends d₁ d₂) (h' : Spends d₂ d₃) : Spends d₁ d₃ := by
  unfold Spends at *
  omega

/-- The opcodes charge for what they do and never give anything back. -/
def Frugal (handlers : Handlers σ) : Prop :=
  ∀ mode version instr s s', handlers.handle mode version instr s = .ok () s' → Spends s.1 s'.1

/-- An opcode without a fixed cost charges something. -/
def NoFreeOpcode (handlers : Handlers σ) : Prop :=
  ∀ mode version instr s s', staticCost version instr = none → handlers.handle mode version instr s = .ok () s' →
    s'.1.budget < s.1.budget

def CostKind.positive : CostKind → Bool
  | .static cost => decide (1 ≤ cost)
  | .dynamic => true

theorem lookup_positive : ∀ spec ∈ opcodeTable, spec.cost.positive = true := by
  rw [← List.all_eq_true]
  decide

theorem lookupSub_positive : ∀ p ∈ appBoxSubOps, p.2.cost.positive = true := by decide

theorem resolveSpec_positive {opcode : UInt8} {sub : Option UInt8} {spec : OpSpec} (h : resolveSpec opcode sub = some spec) :
    spec.cost.positive = true := by
  unfold resolveSpec at h
  obtain ⟨top, htop, h⟩ := Option.bind_eq_some_iff.1 h
  split at h
  · unfold lookupSub at h
    obtain ⟨p, hp, rfl⟩ := Option.map_eq_some_iff.1 h
    exact lookupSub_positive p (List.mem_of_find?_eq_some hp)
  · obtain rfl := Option.some.inj h
    exact lookup_positive top (List.mem_of_find?_eq_some htop)

theorem effectiveCost_positive {spec : OpSpec} (h : spec.cost.positive = true) (version : Nat) :
    (effectiveCost spec version).positive = true := by
  unfold effectiveCost
  split
  · split
    · rfl
    split
    · rfl
    split
    · rfl
    · exact h
  · exact h

/-- **No instruction is free.** -/
theorem staticCost_pos {version cost : Nat} (h : staticCost version instr = some cost) : 1 ≤ cost := by
  unfold staticCost at h
  cases hspec : resolveSpec instr.opcode instr.subOpcode with
  | none => simp only [hspec, Option.map_none] at h; cases h
  | some spec =>
    simp only [hspec, Option.map_some] at h
    have hpos := effectiveCost_positive (resolveSpec_positive hspec) version
    cases hcost : effectiveCost spec version with
    | dynamic => simp only [hcost] at h; cases h
    | static c =>
      simp only [hcost] at h
      obtain rfl := Option.some.inj h
      rw [hcost] at hpos
      exact of_decide_eq_true hpos

/-- The bytes of the flow control opcodes. -/
def flowBytes : List UInt8 := [0x00, 0x40, 0x41, 0x42, 0x43, 0x44, 0x88, 0x89, 0x8a, 0x8b, 0x8c, 0x8d, 0x8e]

set_option maxRecDepth 20000 in
theorem flowBytes_lookup : ∀ byte ∈ flowBytes, lookup byte = some ⟨byte, ((lookup byte).map OpSpec.name).getD "",
    ((lookup byte).map OpSpec.version).getD 0, .static 1, .any, ((lookup byte).map OpSpec.imm).getD .none, false⟩ := by
  decide

theorem mem_flowBytes {f : Flow Unit} (hf : flowOp instr = some f) : instr.opcode ∈ flowBytes := by
  have key : ∀ {n : Nat}, instr.opcode.toNat = n → n < 256 → instr.opcode = UInt8.ofNat n := by
    intro n hn hlt
    rw [← hn, UInt8.ofNat_toNat]
  unfold flowOp at hf
  split at hf
  case h_14 => cases hf
  all_goals
    rename_i hop
    rw [key hop (by decide)]
    decide

set_option maxRecDepth 20000 in
theorem staticCost_of_flowOp {f : Flow Unit} (hf : flowOp instr = some f) (version : Nat) :
    (staticCost version instr).isSome = true := by
  have hmem := mem_flowBytes hf
  have hlookup := flowBytes_lookup _ hmem
  have hcheap : instr.opcode ≠ 0x01 ∧ instr.opcode ≠ 0x02 ∧ instr.opcode ≠ 0x03 := by
    revert hmem
    generalize instr.opcode = byte
    revert byte
    decide
  unfold staticCost resolveSpec
  rw [hlookup]
  simp [effectiveCost, hcheap.1, hcheap.2.1, hcheap.2.2]

theorem chargeStatic_eq_ok (h : chargeStatic instr m = .ok () m') :
    m'.program = m.program ∧ m'.mode = m.mode ∧ m'.opcodeHits = m.opcodeHits ∧ Spends m.data m'.data ∧
      ((staticCost m.program.version instr).isSome → m'.data.budget < m.data.budget) := by
  unfold chargeStatic at h
  rw [Run.state_bind_eq_ok] at h
  obtain ⟨m₀, m₁, hget, h⟩ := h
  cases hget
  cases hcost : staticCost m.program.version instr with
  | none =>
    simp only [hcost] at h
    cases h
    exact ⟨rfl, rfl, rfl, .of_eq rfl, fun hsome => (by cases hsome)⟩
  | some cost =>
    simp only [hcost] at h
    obtain ⟨d, hd, rfl⟩ := onData_eq_ok.1 h
    unfold chargeCost at hd
    rw [Run.state_bind_eq_ok] at hd
    obtain ⟨d₀, d₁, hget, hd⟩ := hd
    cases hget
    by_cases hbudget : (cost : Int) > m.data.budget
    · rw [if_pos hbudget] at hd
      cases hd
    · rw [if_neg hbudget] at hd
      cases hd
      have hpos := staticCost_pos hcost
      refine ⟨rfl, rfl, rfl, ⟨?_, .inr ?_⟩, fun _ => ?_⟩ <;> simp only <;> omega

/-- **A step spends**: it costs something unless it ends the program. -/
theorem step_spends (hfrugal : Frugal handlers) (h : step handlers s = .ok () s') :
    Spends s.1.data s'.1.data ∧
      (NoFreeOpcode handlers → (s'.1.finished = true ∧ s'.2 = s.2) ∨ s'.1.data.budget < s.1.data.budget) := by
  obtain ⟨-, ⟨-, m, hfinish, rfl⟩ | ⟨instr, m₂, m₃, s₄, m₅, -, hargs, hcharge, hdispatch, hadvance, rfl⟩⟩ := step_eq_ok h
  · obtain ⟨-, hfin, huntouched⟩ := finishImplicit_eq_ok hfinish
    exact ⟨.of_eq huntouched.budget, fun _ => .inl ⟨hfin, rfl⟩⟩
  · have hargs' : m₂.data.budget = s.1.data.budget := (checkArguments_steady instr _ _ _ hargs).budget
    have hadvance' : m₅.data.budget = s₄.1.data.budget := (advanceFrom_steady _ _ _ _ hadvance).budget
    obtain ⟨-, -, -, hspends, hpaid⟩ := chargeStatic_eq_ok hcharge
    have hfirst : Spends s.1.data m₃.data := (Spends.of_eq hargs').trans hspends
    obtain ⟨f, m, hflow, hf, rfl⟩ | ⟨-, t, ht, rfl⟩ := dispatch_eq_ok hdispatch
    · have hkept : m.data.budget = m₃.data.budget := (flowOp_steady instr hflow _ _ _ hf).budget
      refine ⟨hfirst.trans (.of_eq (hadvance'.trans hkept)), fun _ => .inr ?_⟩
      have hlt := hpaid (staticCost_of_flowOp hflow _)
      show m₅.data.budget < s.1.data.budget
      simp only at hadvance'
      omega
    · have hhandled : Spends m₃.data t.1 := hfrugal _ _ _ _ _ ht
      simp only at hadvance'
      refine ⟨hfirst.trans (hhandled.trans (.of_eq hadvance')), fun hfree => .inr ?_⟩
      have hprogram : m₃.program = m₂.program := (chargeStatic_eq_ok hcharge).1
      have hlast : t.1.budget ≤ m₃.data.budget := hhandled.1
      show m₅.data.budget < s.1.data.budget
      cases hcost : staticCost m₃.program.version instr with
      | some cost =>
        have hlt := hpaid (by rw [← hprogram, hcost]; rfl)
        omega
      | none =>
        have hlt : t.1.budget < m₃.data.budget := hfree _ _ _ _ _ hcost ht
        have hle := hfirst.1
        omega

end Step

end Avm
end Algod
