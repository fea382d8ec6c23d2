import AlgodRust.Avm.OpLimits
/-!
# ValueSizes — how deep the stack and how long its values get

The stack is never deeper than its limit, and the frames of subroutines lie within it (`run_healthy`).  No opcode makes
a byte string that is too long, but the ones that push a constant of the program, a field of a transaction or the
contents of a box push it at whatever length it has: along a run the limit holds exactly as far as what was fetched
keeps it (`withinLimits_iff`).
-/
namespace Algod
namespace Avm

open Msgpack (Bytes)
open Run (Upholds Fine Path)

variable {limit : Nat} {spent : Option (Int × Nat)}

/-! ## Flow control -/

section Flow

/-- A frame lies within the stack, and so do the arguments that a subroutine has declared below it. -/
def CallFrame.Lies (frame : CallFrame) : Prop :=
  frame.framePointer ≤ maxStackDepth ∧ (frame.clear = true → frame.args ≤ frame.framePointer)

/-- A machine that runs a program, inside its limits and with frames that lie within the stack. -/
structure Healthy (limit : Nat) (spent : Option (Int × Nat)) (program : Program) (mode : ExecMode) (m : Machine) : Prop where
  data : Inside limit spent m.data
  program : m.program = program
  mode : m.mode = mode
  frames : ∀ frame ∈ m.callStack, frame.Lies

variable {program : Program} {mode : ExecMode} (instr : Instruction)

/-- Flow control that keeps the machine healthy. -/
abbrev Guides (limit : Nat) (spent : Option (Int × Nat)) (program : Program) (mode : ExecMode) {α : Type} (x : Flow α) :
    Prop :=
  Upholds (Healthy limit spent program mode) (Harmless spent) x (fun _ => True)

theorem onData_guides {α : Type} {Q : α → Prop} {x : OnData α} (hx : Tame limit spent x Q) :
    Upholds (Healthy limit spent program mode) (Harmless spent) (onData x) Q :=
  hx.zoom (fun _ hm => hm.data) (fun _ _ hd hm => ⟨hd, hm.program, hm.mode, hm.frames⟩)

theorem popUint_guides : Guides limit spent program mode (onData (popUint instr.name)) := onData_guides (popUint_tame _)

theorem set_guides {m : Machine} (hm : Healthy limit spent program mode m) :
    Guides limit spent program mode (set m : Flow PUnit) :=
  fun _ _ => ⟨hm, trivial⟩

theorem jump_guides (pc : Nat) : Guides limit spent program mode (jump pc) :=
  Upholds.modify fun _ hm => ⟨hm.data, hm.program, hm.mode, hm.frames⟩

theorem advance_guides : Guides limit spent program mode advance :=
  Upholds.modify fun _ hm => ⟨hm.data, hm.program, hm.mode, hm.frames⟩

theorem ofExcept_guides {α : Type} {x : Except AvmError α} (hx : Run.Raises (fun e => e.isBudget = false) x) :
    Guides limit spent program mode (ofExcept x) := by
  cases x with
  | ok a => exact Upholds.pure trivial
  | error e => exact Upholds.throw (Harmless.of_eq (hx e rfl))

theorem getBranchTarget_raises (p : Program) (offset : Int) :
    Run.Raises (fun e => e.isBudget = false) (getBranchTarget p instr offset) := by
  unfold getBranchTarget
  split
  · exact .ok _
  · exact .error rfl

theorem resolveLabel_raises (p : Program) (offset : Int) :
    Run.Raises (fun e => e.isBudget = false) (resolveLabel p instr offset) := by
  unfold resolveLabel
  split
  · exact .ok _
  · exact .error rfl

theorem branchTarget_raises (p : Program) : Run.Raises (fun e => e.isBudget = false) (branchTarget p instr) := by
  unfold branchTarget
  split
  · exact getBranchTarget_raises instr p _
  · unfold getVarintBranchTarget
    simp only
    split
    · exact .error rfl
    · split
      · exact .ok _
      · exact .error rfl
  · exact .error rfl

theorem frameIndex_raises (framePointer : Nat) (raw : UInt8) :
    Run.Raises (fun e => e.isBudget = false) (frameIndex framePointer raw) := by
  unfold frameIndex
  generalize (if raw.toNat < 128 then (raw.toNat : Int) else (raw.toNat : Int) - 256) = offset
  by_cases hpos : 0 ≤ offset
  · simp only [hpos, if_true]; exact .ok _
  · simp only [hpos, if_false]
    generalize (if offset = -128 then u64Bound - 128 else (-offset).toNat) = below
    split
    · exact .ok _
    · exact .error rfl

theorem branch_guides : Guides limit spent program mode (branch instr) := by
  apply Upholds.get_bind
  intro m hm
  exact ((ofExcept_guides (branchTarget_raises instr m.program)).bind fun target _ => jump_guides target) m hm

theorem opBnz_guides : Guides limit spent program mode (opBnz instr) := by
  apply (popUint_guides instr).bind
  intro val _
  apply Upholds.ite
  · intro _; exact branch_guides instr
  · intro _; exact advance_guides

theorem opBz_guides : Guides limit spent program mode (opBz instr) := by
  apply (popUint_guides instr).bind
  intro val _
  apply Upholds.ite
  · intro _; exact branch_guides instr
  · intro _; exact advance_guides

theorem opReturn_guides : Guides limit spent program mode (opReturn instr) := by
  apply (popUint_guides instr).bind
  intro val _
  exact Upholds.modify fun _ hm => ⟨hm.data, hm.program, hm.mode, hm.frames⟩

theorem opAssert_guides : Guides limit spent program mode (opAssert instr) := by
  apply (popUint_guides instr).bind
  intro val _
  apply Upholds.ite
  · intro _; exact Upholds.pure trivial
  · intro _; exact Upholds.get_bind fun _ _ => Harmless.of_eq rfl

theorem pushCallFrame_guides {frame : CallFrame} (hframe : frame.Lies) :
    Guides limit spent program mode (pushCallFrame frame) := by
  apply Upholds.get_bind
  intro m hm
  by_cases hfull : m.callStack.length ≥ maxCallStackDepth
  · rw [if_pos hfull]; exact Harmless.of_eq rfl
  · rw [if_neg hfull]
    refine ⟨⟨hm.data, hm.program, hm.mode, fun f hf => ?_⟩, trivial⟩
    rcases List.mem_cons.1 hf with rfl | hmem
    · exact hframe
    · exact hm.frames f hmem

theorem opCallsub_guides : Guides limit spent program mode (opCallsub instr) := by
  apply Upholds.get_bind
  intro m hm
  have hframe : CallFrame.Lies ⟨m.pc + 1, m.data.stack.length, false, 0, 0⟩ :=
    ⟨hm.data.depth, fun hclear => by cases hclear⟩
  refine ((pushCallFrame_guides hframe).bind fun _ _ => (branch_guides instr).bind fun _ _ => ?_) m hm
  apply Upholds.modify
  intro m hm
  split
  · exact ⟨hm.data, hm.program, hm.mode, hm.frames⟩
  · exact hm

theorem popCallFrame_guides : Guides limit spent program mode popCallFrame := by
  apply Upholds.get_bind
  intro m hm
  cases hcalls : m.callStack with
  | nil => exact Harmless.of_eq rfl
  | cons frame frames =>
    have hframes := hm.frames
    rw [hcalls] at hframes
    exact ⟨⟨hm.data, hm.program, hm.mode, fun f hf => hframes f (List.mem_cons_of_mem _ hf)⟩, trivial⟩

/-- What a subroutine returns was on the stack, above what it leaves there. -/
theorem clearFrame_tame (frame : CallFrame) : Tame limit spent (clearFrame frame) (fun _ => True) := by
  apply Upholds.get_bind
  intro d hd
  by_cases hshort : d.stack.length < frame.framePointer + frame.returns
  · simp only [hshort, if_true]
    split
    · exact Harmless.of_eq rfl
    · split
      · exact Harmless.of_eq rfl
      · exact Harmless.of_eq rfl
  · simp only [hshort, if_false]
    refine ⟨hd.setStack ?_ ?_, trivial⟩
    · have hdepth := hd.depth
      rw [List.length_append, List.length_take, List.length_take, List.length_drop]
      omega
    · intro v hv
      rcases List.mem_append.1 hv with hv | hv
      · exact hd.stack v (List.mem_of_mem_take hv)
      · exact hd.stack v (List.mem_of_mem_drop (List.mem_of_mem_take hv))

theorem opRetsub_guides : Guides limit spent program mode opRetsub := by
  apply popCallFrame_guides.bind
  intro frame _
  cases hclear : frame.clear with
  | true =>
    simp only [if_true]
    exact (onData_guides (clearFrame_tame frame)).bind fun _ _ => jump_guides _
  | false => exact jump_guides _

theorem opProto_guides : Guides limit spent program mode (opProto instr) := by
  apply Upholds.get_bind
  intro m hm
  cases hcallsub : m.fromCallsub with
  | false => exact Harmless.of_eq rfl
  | true =>
    simp only [Bool.not_true, Bool.false_eq_true, if_false]
    have hleft : Healthy limit spent program mode { m with fromCallsub := false } :=
      ⟨hm.data, hm.program, hm.mode, hm.frames⟩
    refine ((set_guides hleft).bind fun _ _ => ?_) m hm
    cases instr.immediates with
    | uint8Pair args returns =>
      cases hcalls : m.callStack with
      | nil => exact Upholds.throw (Harmless.of_eq rfl)
      | cons frame frames =>
        have hframes := hm.frames
        rw [hcalls] at hframes
        apply Upholds.ite
        · intro _; exact Upholds.throw (Harmless.of_eq rfl)
        · intro hargs
          refine set_guides ⟨hm.data, hm.program, hm.mode, fun f hf => ?_⟩
          rcases List.mem_cons.1 hf with rfl | hmem
          · exact ⟨(hframes frame List.mem_cons_self).1, fun _ => Nat.le_of_not_lt hargs⟩
          · exact hframes f (List.mem_cons_of_mem _ hmem)
    | _ => exact Upholds.throw (Harmless.of_eq rfl)

theorem frameAccess_guides : Guides limit spent program mode (frameAccess instr) := by
  apply Upholds.get_bind
  intro m hm
  cases instr.immediates with
  | uint8 raw =>
    cases m.callStack with
    | nil => exact Harmless.of_eq rfl
    | cons frame frames => exact ⟨hm, trivial⟩
  | _ => exact Harmless.of_eq rfl

theorem opFrameDig_guides : Guides limit spent program mode (opFrameDig instr) := by
  apply (frameAccess_guides instr).bind
  rintro ⟨raw, frame⟩ _
  apply (ofExcept_guides (frameIndex_raises _ _)).bind
  intro idx _
  apply Upholds.get_bind
  intro m hm
  cases hval : m.data.stack[idx]? with
  | none => exact Harmless.of_eq rfl
  | some val => exact onData_guides (push_tame (hm.data.stack val (List.mem_of_getElem? hval))) m hm

theorem opFrameBury_guides : Guides limit spent program mode (opFrameBury instr) := by
  apply (frameAccess_guides instr).bind
  rintro ⟨raw, frame⟩ _
  apply (onData_guides (pop_tame _)).bind
  intro val hval
  apply (ofExcept_guides (frameIndex_raises _ _)).bind
  intro idx _
  apply Upholds.get_bind
  intro m hm
  by_cases hrange : idx ≥ m.data.stack.length
  · rw [if_pos hrange]; exact Harmless.of_eq rfl
  · rw [if_neg hrange]
    refine ⟨⟨hm.data.setStack ?_ ?_, hm.program, hm.mode, hm.frames⟩, trivial⟩
    · rw [List.length_set]; exact hm.data.depth
    · intro v hv
      rcases List.mem_or_eq_of_mem_set hv with hv | rfl
      · exact hm.data.stack v hv
      · exact hval

theorem popN_guides (name : String) : ∀ n, Tame limit spent (popN name n) (fun _ => True)
  | 0 => Upholds.pure trivial
  | n + 1 => (pop_tame _).bind fun _ _ => (popN_guides name n).bind fun _ _ => Upholds.pure trivial

/-- A jump to a label. -/
theorem toLabel_guides (offset : Int) :
    Guides limit spent program mode (do
      let m ← get
      let target ← ofExcept (resolveLabel m.program instr offset)
      jump target) := by
  apply Upholds.get_bind
  intro m hm
  exact ((ofExcept_guides (resolveLabel_raises instr m.program offset)).bind fun target _ => jump_guides target) m hm

theorem opSwitch_guides : Guides limit spent program mode (opSwitch instr) := by
  unfold opSwitch
  cases instr.immediates with
  | labels offsets =>
    apply (popUint_guides instr).bind
    intro index _
    cases offsets[index]? with
    | none => exact advance_guides
    | some offset => exact toLabel_guides instr offset
  | _ => exact Upholds.throw (Harmless.of_eq rfl)

theorem opMatch_guides : Guides limit spent program mode (opMatch instr) := by
  unfold opMatch
  cases instr.immediates with
  | labels offsets =>
    apply (onData_guides (pop_tame _)).bind
    intro targetVal _
    apply (onData_guides (popN_guides _ _)).bind
    intro matchValues _
    cases (matchValues.findIdx? (fun val => val == targetVal)).bind (fun i => offsets[i]?) with
    | none => exact advance_guides
    | some offset => exact toLabel_guides instr offset
  | _ => exact Upholds.throw (Harmless.of_eq rfl)

/-- **Flow control keeps a machine healthy**, and its budget. -/
theorem flowOp_guides {f : Flow Unit} (hf : flowOp instr = some f) : Guides limit spent program mode f := by
  unfold flowOp at hf
  split at hf <;> cases hf
  · exact Upholds.throw (Harmless.of_eq rfl)
  · exact opBnz_guides instr
  · exact opBz_guides instr
  · exact branch_guides instr
  · exact opReturn_guides instr
  · exact opAssert_guides instr
  · exact opCallsub_guides instr
  · exact opRetsub_guides
  · exact opProto_guides instr
  · exact opFrameDig_guides instr
  · exact opFrameBury_guides instr
  · exact opSwitch_guides instr
  · exact opMatch_guides instr

end Flow

/-! ## Steps -/

section Step

variable {σ : Type} (prims : Primitives) (ctx : Context σ) {s s' : Machine × σ} {m m' : Machine} {instr : Instruction}
  {program : Program}

/-- The data of a machine that has paid for an instruction. -/
def Data.charged (version : Nat) (instr : Instruction) (d : Data) : Data :=
  match staticCost version instr with
  | some cost => { d with cost := min (d.cost + cost) (u64Bound - 1), budget := d.budget - cost }
  | none => d

theorem charged_stack (version : Nat) (instr : Instruction) (d : Data) :
    (d.charged version instr).stack = d.stack ∧ (d.charged version instr).scratch = d.scratch := by
  unfold Data.charged
  split
  · exact ⟨rfl, rfl⟩
  · exact ⟨rfl, rfl⟩

theorem chargeStatic_pays (h : chargeStatic instr m = .ok () m') :
    (∀ cost ∈ staticCost m.program.version instr, (cost : Int) ≤ m.data.budget) ∧
      m' = { m with data := m.data.charged m.program.version instr } := by
  unfold chargeStatic at h
  rw [Run.state_bind_eq_ok] at h
  obtain ⟨m₀, m₁, hget, h⟩ := h
  cases hget
  unfold Data.charged
  cases hcost : staticCost m.program.version instr with
  | none =>
    simp only [hcost] at h
    cases h
    exact ⟨fun _ hc => (by cases hc), rfl⟩
  | some cost =>
    simp only [hcost] at h
    obtain ⟨d, hd, rfl⟩ := onData_eq_ok.1 h
    unfold chargeCost at hd
    rw [Run.state_bind_eq_ok] at hd
    obtain ⟨d₀, d₁, hget, hd⟩ := hd
    cases hget
    by_cases hbudget : (cost : Int) > m.data.budget
    · rw [if_pos hbudget] at hd
      cases hd
    · rw [if_neg hbudget] at hd
      cases hd
      refine ⟨fun c hc => ?_, rfl⟩
      cases hc
      omega

theorem checkArguments_eq_ok (h : checkArguments instr m = .ok () m') : m' = m := by
  unfold checkArguments at h
  rw [Run.state_bind_eq_ok] at h
  obtain ⟨m₀, m₁, hget, h⟩ := h
  cases hget
  cases hgate : argGate instr m.data.stack with
  | some e => simp only [hgate] at h; cases h
  | none => simp only [hgate] at h; cases h; rfl

/-- The machine when its instruction runs: the opcode is recorded and paid for. -/
def Machine.readied (m : Machine) (instr : Instruction) : Machine :=
  { m with opcodeHits := m.opcodeHits.set instr.opcode.toNat true, data := m.data.charged m.program.version instr }

/-- What a step does: it ends the program, or it pays for its instruction, runs it and moves on. -/
theorem step_runs {handlers : Handlers σ} (h : step handlers s = .ok () s') : s.1.finished = false ∧
    ((s.1.program.instructions[s.1.pc]? = none ∧ ∃ m, finishImplicit s.1 = .ok () m ∧ s' = (m, s.2)) ∨
      ∃ instr s₂ m, s.1.program.instructions[s.1.pc]? = some instr ∧
        (∀ cost ∈ staticCost s.1.program.version instr, (cost : Int) ≤ s.1.data.budget) ∧
        dispatch handlers instr (s.1.readied instr, s.2) = .ok () s₂ ∧ advanceFrom s.1.pc s₂.1 = .ok () m ∧
        s' = (m, s₂.2)) := by
  obtain ⟨hrunning, hend | ⟨instr, m₂, m₃, s₄, m₅, hinstr, hargs, hcharge, hdispatch, hadvance, rfl⟩⟩ := step_eq_ok h
  · exact ⟨hrunning, .inl hend⟩
  · cases checkArguments_eq_ok hargs
    obtain ⟨hpaid, rfl⟩ := chargeStatic_pays hcharge
    exact ⟨hrunning, .inr ⟨instr, s₄, m₅, hinstr, hpaid, hdispatch, hadvance, rfl⟩⟩

theorem finishImplicit_data (h : finishImplicit m = .ok () m') : m' = { m with finished := true, pass := m'.pass } := by
  unfold finishImplicit at h
  rw [Run.state_bind_eq_ok] at h
  obtain ⟨_, m₁, hmodify, h⟩ := h
  cases hmodify
  rw [Run.state_bind_eq_ok] at h
  obtain ⟨m₂, _, hget, h⟩ := h
  cases hget
  rcases hstack : m.data.stack with _ | ⟨v, _ | ⟨w, vs⟩⟩
  · simp only [hstack] at h; cases h
  · cases v with
    | uint n => simp only [hstack] at h; cases h; rfl
    | bytes bs => simp only [hstack] at h; cases h
  · simp only [hstack] at h; cases h

theorem advanceFrom_guides {mode : ExecMode} (oldPc : Nat) :
    Guides limit spent program mode (advanceFrom oldPc) := by
  apply Upholds.modify
  intro m hm
  split
  · exact ⟨hm.data, hm.program, hm.mode, hm.frames⟩
  · exact hm

theorem checkRuntimeMode_raises (mode : ExecMode) (opcode : UInt8) :
    Run.Raises (fun e => e.isBudget = false) (checkRuntimeMode mode opcode) := by
  unfold checkRuntimeMode
  split
  · exact .ok _
  · split
    · exact .error rfl
    · exact .error rfl
    · exact .ok _

/-- The values that an instruction takes from the constants of the program or from the context. -/
def fetchedBy (instr : Instruction) (s : Machine × σ) : List AvmValue :=
  if (flowOp instr).isSome then []
  else (handlerOf prims ctx s.1.mode s.1.program.version instr).fetched (s.1.data, s.2)

/-- **An instruction keeps a machine healthy as far as what it fetches does.** -/
theorem dispatch_healthy {mode : ExecMode} (hs : Healthy limit spent program mode s.1)
    (hkeeps : checkRuntimeMode mode instr.opcode = .ok () →
      (handlerOf prims ctx mode program.version instr).Keeps limit spent)
    (hfetched : ∀ v ∈ fetchedBy prims ctx instr s, v.size ≤ limit) :
    Fine (fun t : Machine × σ => Healthy limit spent program mode t.1) (Harmless spent) (fun _ => True)
      (dispatch (operations prims ctx) instr s) := by
  show Fine _ _ _ (EStateM.bind (onMachine (ofExcept (checkRuntimeMode s.1.mode instr.opcode))) _ s)
  rw [hs.mode, hs.program]
  unfold EStateM.bind
  cases hmode : checkRuntimeMode mode instr.opcode with
  | error e => exact Harmless.of_eq (checkRuntimeMode_raises mode instr.opcode e hmode)
  | ok _ =>
    unfold fetchedBy at hfetched
    cases hflow : flowOp instr with
    | some f =>
      exact ((flowOp_guides instr hflow).zoom (I := fun t : Machine × σ => Healthy limit spent program mode t.1)
        (fun _ ht => ht) (fun _ _ ht _ => ht)) s hs
    | none =>
      simp only [hflow, Option.isSome_none, Bool.false_eq_true, if_false, hs.mode, hs.program] at hfetched
      have hrun := (hkeeps hmode).run (s := (s.1.data, s.2)) hs.data hfetched
      show Fine _ _ _ (Run.zoom (fun t : Machine × σ => (t.1.data, t.2)) (fun t s => (⟨t.1, s.1.callStack, s.1.pc,
        s.1.mode, s.1.program, s.1.finished, s.1.pass, s.1.fromCallsub, s.1.opcodeHits⟩, t.2))
        ((handlerOf prims ctx mode program.version instr).run) s)
      unfold Run.zoom
      cases hr : (handlerOf prims ctx mode program.version instr).run (s.1.data, s.2) with
      | error e t => rw [hr] at hrun; exact hrun
      | ok _ t => rw [hr] at hrun; exact ⟨⟨hrun.1, hs.program, hs.mode, hs.frames⟩, trivial⟩

/-- The values that the instruction of a state takes from the constants of the program or from the context. -/
def fetchedAt (s : Machine × σ) : List AvmValue :=
  match s.1.program.instructions[s.1.pc]? with
  | none => []
  | some instr => fetchedBy prims ctx instr (s.1.readied instr, s.2)

theorem Inside.charged {d : Data} (h : Inside limit none d) (version : Nat) (instr : Instruction) :
    Inside limit none (d.charged version instr) := by
  obtain ⟨hstack, hscratch⟩ := charged_stack version instr d
  exact ⟨by rw [hstack]; exact h.depth, by rw [hstack]; exact h.stack, by rw [hscratch]; exact h.scratch,
    fun b hb => by cases hb⟩

/-- **A step keeps a machine healthy as far as what it fetches does.** -/
theorem step_healthy {mode : ExecMode} (hlimit : maxStringSize ≤ limit)
    (hs : Healthy limit none program mode s.1) (hfetched : ∀ v ∈ fetchedAt prims ctx s, v.size ≤ limit)
    (h : step (operations prims ctx) s = .ok () s') : Healthy limit none program mode s'.1 := by
  obtain ⟨-, ⟨-, m, hfinish, rfl⟩ | ⟨instr, s₂, m, hinstr, -, hdispatch, hadvance, rfl⟩⟩ := step_runs h
  · show Healthy limit none program mode m
    rw [finishImplicit_data hfinish]
    exact ⟨hs.data, hs.program, hs.mode, hs.frames⟩
  · simp only [fetchedAt, hinstr] at hfetched
    have hready : Healthy limit none program mode (s.1.readied instr) :=
      ⟨hs.data.charged _ _, hs.program, hs.mode, hs.frames⟩
    have hfine := dispatch_healthy prims ctx (s := (s.1.readied instr, s.2)) hready
      (fun _ => handlerOf_keeps prims instr ctx mode program.version hlimit) hfetched
    rw [hdispatch] at hfine
    exact ((advanceFrom_guides _).ok hfine.1 hadvance).1

theorem pushAll_eq_ok : ∀ {vs : List AvmValue} {d d' : Data}, pushAll vs d = .ok () d' → d'.stack = d.stack ++ vs
  | [], d, d', h => by
    cases h
    exact (List.append_nil _).symm
  | v :: vs, d, d', h => by
    unfold pushAll at h
    rw [Run.state_bind_eq_ok] at h
    obtain ⟨_, d₁, hpush, h⟩ := h
    have hd₁ : d₁.stack = d.stack ++ [v] := by
      unfold push at hpush
      rw [Run.state_bind_eq_ok] at hpush
      obtain ⟨d₀, d₂, hget, hpush⟩ := hpush
      cases hget
      by_cases hfull : d.stack.length ≥ maxStackDepth
      · rw [if_pos hfull] at hpush; cases hpush
      · rw [if_neg hfull] at hpush; cases hpush; rfl
    rw [pushAll_eq_ok h, hd₁, List.append_assoc, List.singleton_append]

theorem onStack_eq_ok {α : Type} {x : OnData α} {a : α} {t t' : Data × σ} :
    onStack x t = .ok a t' ↔ ∃ d, x t.1 = .ok a d ∧ (d, t.2) = t' := Run.zoom_eq_ok

/-- What an opcode has fetched is on the stack after it. -/
theorem Handler.run_pushes {handler : Handler σ} {t t' : Data × σ} (h : handler.run t = .ok () t') :
    ∀ v ∈ handler.fetched t, v ∈ t'.1.stack := by
  intro v hv
  cases handler with
  | compute x => cases hv
  | fetch x =>
    obtain ⟨values, t₁, hx, hpush⟩ := Run.state_bind_eq_ok.1 h
    simp only [Handler.fetched, hx] at hv
    obtain ⟨d, hd, rfl⟩ := onStack_eq_ok.1 hpush
    rw [pushAll_eq_ok hd]
    exact List.mem_append_right _ hv

theorem advanceFrom_data {oldPc : Nat} (h : advanceFrom oldPc m = .ok () m') : m'.data = m.data := by
  cases h
  by_cases hstay : (!m.finished && m.pc == oldPc) = true
  · simp only [hstay, if_true]
  · simp only [hstay, if_false, Bool.false_eq_true]

theorem step_pushes (h : step (operations prims ctx) s = .ok () s') :
    ∀ v ∈ fetchedAt prims ctx s, v ∈ s'.1.data.stack := by
  intro v hv
  obtain ⟨-, ⟨hend, -⟩ | ⟨instr, s₂, m, hinstr, -, hdispatch, hadvance, rfl⟩⟩ := step_runs h
  · simp only [fetchedAt, hend] at hv
    cases hv
  · simp only [fetchedAt, hinstr, fetchedBy] at hv
    show v ∈ m.data.stack
    rw [advanceFrom_data hadvance]
    obtain ⟨f, m₁, hflow, -⟩ | ⟨hflow, t, ht, rfl⟩ := dispatch_eq_ok hdispatch
    · simp only [hflow, Option.isSome_some, if_true] at hv
      cases hv
    · simp only [hflow, Option.isSome_none, Bool.false_eq_true, if_false] at hv
      exact Handler.run_pushes ht v hv

/-- Some bound holds for any values. -/
theorem exists_size_bound : ∀ vs : List AvmValue, ∃ bound, maxStringSize ≤ bound ∧ ∀ v ∈ vs, v.size ≤ bound
  | [] => ⟨maxStringSize, Nat.le_refl _, fun _ h => by cases h⟩
  | v :: vs => by
    obtain ⟨bound, hbound, hvs⟩ := exists_size_bound vs
    refine ⟨max v.size bound, Nat.le_trans hbound (Nat.le_max_right _ _), fun w hw => ?_⟩
    rcases List.mem_cons.1 hw with rfl | hmem
    · exact Nat.le_max_left _ _
    · exact Nat.le_trans (hvs w hmem) (Nat.le_max_right _ _)

/-- A machine whose stack is not too deep is inside some limits, and values at hand are too. -/
theorem exists_inside {d : Data} (hdepth : d.stack.length ≤ maxStackDepth) (vs : List AvmValue) :
    ∃ limit, maxStringSize ≤ limit ∧ Inside limit (some (d.budget, d.cost)) d ∧ ∀ v ∈ vs, v.size ≤ limit := by
  obtain ⟨bound, hbound, hall⟩ := exists_size_bound (d.stack ++ d.scratch ++ vs)
  refine ⟨bound, hbound, ⟨hdepth, fun v hv => hall v ?_, fun v hv => hall v ?_, fun b hb => ?_⟩, fun v hv => hall v ?_⟩
  · exact List.mem_append_left _ (List.mem_append_left _ hv)
  · exact List.mem_append_left _ (List.mem_append_right _ hv)
  · exact Option.some.inj hb
  · exact List.mem_append_right _ hv

theorem Inside.forget {d : Data} (h : Inside limit spent d) : Inside limit none d :=
  ⟨h.depth, h.stack, h.scratch, fun b hb => by cases hb⟩

theorem healthy_new (program : Program) (mode : ExecMode) (budget : Int) :
    Healthy limit none program mode (Machine.new program mode budget) := by
  refine ⟨⟨Nat.zero_le _, fun v hv => (by cases hv), fun v hv => ?_, fun b hb => (by cases hb)⟩, rfl, rfl,
    fun frame hframe => (by cases hframe)⟩
  rw [List.eq_of_mem_replicate hv]
  exact Nat.zero_le _

end Step

/-! ## Runs -/

section Run

variable {σ : Type} (prims : Primitives) (ctx : Context σ)

/-- A run of a machine, with the states its steps start from. -/
abbrev Visits (handlers : Handlers σ) (s : Machine × σ) (visited : List (Machine × σ)) (s' : Machine × σ) : Prop :=
  Path (fun s (_ : Unit) s' started => step handlers s = .ok () s' ∧ started = [s]) s visited s'

/-- The stack holds at most so many values, and every byte string on it or in the scratch space at most so many bytes. -/
def WithinLimits (d : Data) : Prop :=
  d.stack.length ≤ maxStackDepth ∧ ∀ bs, AvmValue.bytes bs ∈ d.stack ++ d.scratch → bs.length ≤ maxStringSize

theorem withinLimits_iff_inside {d : Data} : WithinLimits d ↔ Inside maxStringSize none d := by
  constructor
  · rintro ⟨hdepth, hall⟩
    have hsize : ∀ v ∈ d.stack ++ d.scratch, v.size ≤ maxStringSize := by
      rintro (n | bs) hv
      · exact Nat.zero_le _
      · exact hall bs hv
    exact ⟨hdepth, fun v hv => hsize v (List.mem_append_left _ hv), fun v hv => hsize v (List.mem_append_right _ hv),
      fun b hb => by cases hb⟩
  · intro h
    refine ⟨h.depth, fun bs hbs => ?_⟩
    rcases List.mem_append.1 hbs with hmem | hmem
    · exact h.stack _ hmem
    · exact h.scratch _ hmem

/-- **The stack is never too deep**, and every frame lies within it. -/
theorem run_healthy {program : Program} {mode : ExecMode} {budget : Int} {c : σ} {visited : List (Machine × σ)}
    {s : Machine × σ} (hrun : Visits (operations prims ctx) (Machine.new program mode budget, c) visited s) :
    ∃ limit, maxStringSize ≤ limit ∧ Healthy limit none program mode s.1 := by
  refine hrun.invariant (fun _ s => ∃ limit, maxStringSize ≤ limit ∧ Healthy limit none program mode s.1)
    ⟨maxStringSize, Nat.le_refl _, healthy_new program mode budget⟩ ?_
  rintro _ s₁ _ s₂ _ ⟨_, -, hs₁⟩ ⟨hstep, -⟩
  -- whatever is fetched, some limit is large enough for it
  obtain ⟨limit, hlimit, hinside, hfetched⟩ := exists_inside hs₁.data.depth (fetchedAt prims ctx s₁)
  exact ⟨limit, hlimit,
    step_healthy prims ctx hlimit ⟨hinside.forget, hs₁.program, hs₁.mode, hs₁.frames⟩ hfetched hstep⟩

/-- **The machine is within its limits along a run exactly as far as what it fetches is**: every state of a run of any
program has a stack that is not too deep and no byte string that is too long, exactly if no instruction of the run took
a longer one from the constants of the program or from its context. -/
theorem withinLimits_iff (program : Program) (mode : ExecMode) (budget : Int) (c : σ) (visited : List (Machine × σ))
    (s : Machine × σ) (hrun : Visits (operations prims ctx) (Machine.new program mode budget, c) visited s) :
    (∀ t ∈ visited ++ [s], WithinLimits t.1.data) ↔
      ∀ t ∈ visited, ∀ v ∈ fetchedAt prims ctx t, v.size ≤ maxStringSize := by
  induction hrun with
  | nil =>
    constructor
    · intro _ t ht; cases ht
    · intro _ t ht
      rw [List.mem_singleton.1 ht]
      exact withinLimits_iff_inside.2 (healthy_new program mode budget).data
  | snoc hbefore hstep ih =>
    rename_i before started s₁ s₂ _
    obtain ⟨hstep, rfl⟩ := hstep
    obtain ⟨_, -, hhealthy⟩ := run_healthy prims ctx hbefore
    simp only [List.forall_mem_append, List.forall_mem_singleton] at ih ⊢
    constructor
    · rintro ⟨hall, hs₂⟩
      refine ⟨ih.1 hall, fun v hv => ?_⟩
      exact (withinLimits_iff_inside.1 hs₂).stack v (step_pushes prims ctx hstep v hv)
    · rintro ⟨hall, hs₁⟩
      have hwithin := ih.2 hall
      refine ⟨hwithin, withinLimits_iff_inside.2 ?_⟩
      have hkept : Healthy maxStringSize none program mode s₁.1 :=
        ⟨withinLimits_iff_inside.1 hwithin.2, hhealthy.program, hhealthy.mode, hhealthy.frames⟩
      exact (step_healthy prims ctx (Nat.le_refl _) hkept hs₁ hstep).data

/-- A program of one instruction, which pushes a constant of so many zeros. -/
def constantProgram (n : Nat) : Bytes :=
  [3, 0x80, UInt8.ofNat (n % 128 + 128), UInt8.ofNat (n / 128)] ++ List.replicate n 0

/-- The machine at the start of such a program. -/
def constantMachine (n : Nat) : Machine × Unit :=
  (Machine.new ⟨3, [⟨0x80, none, 0, .bytes (List.replicate n 0)⟩]⟩ .logicSig 700, ())

/-- The libraries and the surroundings of programs that need none. -/
def bareOperations : Handlers Unit := operations noPrimitives (nullContext fun _ => "")

set_option maxRecDepth 20000 in
/-- A constant of two hundred bytes is within the limits. -/
theorem withinLimits_iff_constant :
    ∃ s, parse (constantProgram 200) = .ok (constantMachine 200).1.program ∧
      Visits bareOperations (constantMachine 200) [constantMachine 200] s ∧ s.1.data.stack.length = 1 ∧
      WithinLimits s.1.data := by
  obtain ⟨_, s, hstep, hs⟩ := @Run.ok_of_okAnd _ _ _ (step bareOperations (constantMachine 200))
    (fun s => decide (s.1.data.stack.length = 1)) (by decide)
  have hrun : Visits bareOperations (constantMachine 200) ([] ++ [constantMachine 200]) s :=
    Path.nil.snoc (e := ()) ⟨hstep, rfl⟩
  refine ⟨s, by decide, hrun, of_decide_eq_true hs, ?_⟩
  refine (withinLimits_iff noPrimitives (nullContext fun _ => "") _ _ _ _ _ s hrun).2 ?_ s (by simp)
  intro t ht v hv
  rw [List.nil_append, List.mem_singleton] at ht
  rw [ht] at hv
  revert v
  decide

set_option maxRecDepth 20000 in
/-- **A constant can be too long**: a program pushes one byte more than the limit, and nothing stops it. -/
theorem longConstant_pushed :
    ∃ s, parse (constantProgram 4097) = .ok (constantMachine 4097).1.program ∧
      Visits bareOperations (constantMachine 4097) [constantMachine 4097] s ∧ ¬ WithinLimits s.1.data := by
  obtain ⟨_, s, hstep, hs⟩ := @Run.ok_of_okAnd _ _ _ (step bareOperations (constantMachine 4097))
    (fun s => s.1.data.stack.any fun v => decide (maxStringSize < v.size)) (by decide)
  refine ⟨s, by decide, Path.nil.snoc (e := ()) ⟨hstep, rfl⟩, fun hwithin => ?_⟩
  obtain ⟨v, hv, hlong⟩ := List.any_eq_true.1 hs
  exact Nat.not_le_of_lt (of_decide_eq_true hlong) ((withinLimits_iff_inside.1 hwithin).stack v hv)

end Run

end Avm
end Algod
