import AlgodRust.Avm.Machine
import Mathlib.Logic.Relation
/-!
# ControlFlow — where the machine goes next

`transferTarget` says, from the state before a step, where an instruction that transfers control points.  The machine
goes there unless that is the instruction itself: a step takes a program counter that has not changed for one that no
branch has set, and moves on (`controlTransfer_iff`).
-/
namespace Algod
namespace Avm

open Msgpack (Bytes)

/-- Where the label that a list of labels has at an index points. -/
def labelTarget (p : Program) (instr : Instruction) (offsets : List Int) (i : Nat) : Option Nat :=
  offsets[i]?.bind (fun offset => (resolveLabel p instr offset).toOption)

/-- Where an instruction transfers control to; `none` where it transfers none. -/
def transferTarget (m : Machine) (instr : Instruction) : Option Nat :=
  match instr.opcode.toNat with
  | 0x40 =>
    match m.data.stack.getLast? with
    | some (.uint v) => if v ≠ 0 then (branchTarget m.program instr).toOption else none
    | _ => none
  | 0x41 =>
    match m.data.stack.getLast? with
    | some (.uint v) => if v = 0 then (branchTarget m.program instr).toOption else none
    | _ => none
  | 0x42 => (branchTarget m.program instr).toOption
  | 0x88 => (branchTarget m.program instr).toOption
  | 0x89 => m.callStack.head?.map CallFrame.returnPc
  | 0x8d =>
    match instr.immediates, m.data.stack.getLast? with
    | .labels offsets, some (.uint i) => labelTarget m.program instr offsets i
    | _, _ => none
  | 0x8e =>
    match instr.immediates, m.data.stack.getLast? with
    | .labels offsets, some v =>
      -- the cases are the values right below the top of the stack
      let below := m.data.stack.dropLast
      let cases := below.drop (below.length - offsets.length)
      (cases.findIdx? (fun c => c == v)).bind (labelTarget m.program instr offsets)
    | _, _ => none
  | _ => none

/-- The machine is where the instruction points, or at the next one where it points nowhere and has not finished. -/
def GoesWherePointed (m : Machine) (instr : Instruction) (m' : Machine) : Prop :=
  match transferTarget m instr with
  | some target => m'.pc = target
  | none => m'.finished = false → m'.pc = m.pc + 1

section Specs

variable {m m' : Machine} {d d' : Data} {instr : Instruction} {name : String}

theorem onData_eq_ok {α : Type} {x : OnData α} {a : α} :
    onData x m = .ok a m' ↔ ∃ d, x m.data = .ok a d ∧ { m with data := d } = m' := Run.zoom_eq_ok

theorem ofExcept_eq_ok {α : Type} {x : Except AvmError α} {a : α} : ofExcept x m = .ok a m' ↔ x = .ok a ∧ m' = m := by
  cases x with
  | error e =>
    constructor
    · intro h; cases h
    · rintro ⟨h, -⟩; cases h
  | ok b =>
    constructor
    · intro h; cases h; exact ⟨rfl, rfl⟩
    · rintro ⟨h, rfl⟩; cases h; rfl

theorem pop_eq_ok {v : AvmValue} (h : pop name d = .ok v d') :
    d.stack.getLast? = some v ∧ d' = { d with stack := d.stack.dropLast } := by
  unfold pop at h
  rw [Run.state_bind_eq_ok] at h
  obtain ⟨d₁, d₂, hget, h⟩ := h
  cases hget
  cases hv : d.stack.getLast? with
  | none =>
    simp only [hv] at h
    cases h
  | some v' =>
    simp only [hv] at h
    cases h
    exact ⟨rfl, rfl⟩

theorem popUint_eq_ok {n : Nat} (h : popUint name d = .ok n d') :
    d.stack.getLast? = some (.uint n) ∧ d' = { d with stack := d.stack.dropLast } := by
  unfold popUint at h
  rw [Run.state_bind_eq_ok] at h
  obtain ⟨v, d₁, hpop, h⟩ := h
  cases v with
  | uint n' =>
    cases h
    exact pop_eq_ok hpop
  | bytes _ => cases h

/-- Popping takes the values off the end of the stack. -/
theorem popN_eq_ok : ∀ {n : Nat} {d d' : Data} {vs : List AvmValue}, popN name n d = .ok vs d' →
    d.stack = d'.stack ++ vs ∧ vs.length = n ∧ { d with stack := d'.stack } = d'
  | 0, d, d', vs, h => by
    cases h
    simp
  | n + 1, d, d', vs, h => by
    unfold popN at h
    rw [Run.state_bind_eq_ok] at h
    obtain ⟨v, d₁, hpop, h⟩ := h
    rw [Run.state_bind_eq_ok] at h
    obtain ⟨below, d₂, hbelow, h⟩ := h
    cases h
    obtain ⟨hlast, rfl⟩ := pop_eq_ok hpop
    obtain ⟨hstack, hlength, hrest⟩ := popN_eq_ok hbelow
    simp only at hstack hrest
    refine ⟨?_, by rw [List.length_append, hlength]; rfl, hrest⟩
    rw [← List.append_assoc, ← hstack]
    exact (List.dropLast_append_getLast? v hlast).symm

theorem branch_eq_ok (h : branch instr m = .ok () m') :
    ∃ target, branchTarget m.program instr = .ok target ∧ m' = { m with pc := target } := by
  unfold branch at h
  rw [Run.state_bind_eq_ok] at h
  obtain ⟨m₁, m₂, hget, h⟩ := h
  cases hget
  rw [Run.state_bind_eq_ok] at h
  obtain ⟨target, m₃, htarget, h⟩ := h
  obtain ⟨htarget, rfl⟩ := ofExcept_eq_ok.1 htarget
  cases h
  exact ⟨target, htarget, rfl⟩

end Specs

/-! ## What the flow control opcodes do to the program counter -/

/-- The program counter is set to a target, or it is not set: then it stays or is moved to the next instruction. -/
def Moves (m m' : Machine) : Option Nat → Prop
  | some target => m'.pc = target ∧ m'.finished = m.finished
  | none => m'.pc = m.pc ∨ m'.pc = m.pc + 1

section Moves

variable {m m₁ m' : Machine} {instr : Instruction}

/-- What is popped off the stack does not matter. -/
theorem Moves.of_data {target : Option Nat} {d : Data} (h : Moves { m with data := d } m' target) : Moves m m' target := by
  cases target <;> exact h

theorem branch_moves (h : branch instr m = .ok () m') : Moves m m' (branchTarget m.program instr).toOption := by
  obtain ⟨target, htarget, rfl⟩ := branch_eq_ok h
  rw [htarget]
  exact ⟨rfl, rfl⟩

theorem advance_moves (h : advance m = .ok () m') : Moves m m' none := by
  cases h
  exact .inr rfl

theorem jump_moves {target : Nat} (h : jump target m = .ok () m') : Moves m m' (some target) := by
  cases h
  exact ⟨rfl, rfl⟩

theorem opBnz_moves (h : opBnz instr m = .ok () m') (hop : instr.opcode.toNat = 0x40) :
    Moves m m' (transferTarget m instr) := by
  unfold opBnz at h
  rw [Run.state_bind_eq_ok] at h
  obtain ⟨v, m₁, hpop, h⟩ := h
  obtain ⟨d, hd, rfl⟩ := onData_eq_ok.1 hpop
  obtain ⟨hlast, -⟩ := popUint_eq_ok hd
  have htarget : transferTarget m instr = if v ≠ 0 then (branchTarget m.program instr).toOption else none := by
    simp only [transferTarget, hop, hlast]
  rw [htarget]
  by_cases hv : v ≠ 0
  · rw [if_pos hv] at h ⊢
    exact (branch_moves h).of_data
  · rw [if_neg hv] at h ⊢
    exact (advance_moves h).of_data

theorem opBz_moves (h : opBz instr m = .ok () m') (hop : instr.opcode.toNat = 0x41) :
    Moves m m' (transferTarget m instr) := by
  unfold opBz at h
  rw [Run.state_bind_eq_ok] at h
  obtain ⟨v, m₁, hpop, h⟩ := h
  obtain ⟨d, hd, rfl⟩ := onData_eq_ok.1 hpop
  obtain ⟨hlast, -⟩ := popUint_eq_ok hd
  have htarget : transferTarget m instr = if v = 0 then (branchTarget m.program instr).toOption else none := by
    simp only [transferTarget, hop, hlast]
  rw [htarget]
  by_cases hv : v = 0
  · rw [if_pos hv] at h ⊢
    exact (branch_moves h).of_data
  · rw [if_neg hv] at h ⊢
    exact (advance_moves h).of_data

/-- A call goes to its target, whatever instruction is there. -/
theorem opCallsub_moves (h : opCallsub instr m = .ok () m') :
    Moves m m' (branchTarget m.program instr).toOption := by
  unfold opCallsub at h
  rw [Run.state_bind_eq_ok] at h
  obtain ⟨m₀, m₁, hget, h⟩ := h
  cases hget
  rw [Run.state_bind_eq_ok] at h
  obtain ⟨_, m₁, hpush, h⟩ := h
  rw [Run.state_bind_eq_ok] at h
  obtain ⟨_, m₂, hbranch, h⟩ := h
  have hpushed : ∃ frames, m₁ = { m with callStack := frames } := by
    unfold pushCallFrame at hpush
    rw [Run.state_bind_eq_ok] at hpush
    obtain ⟨m₀, m₃, hget, hpush⟩ := hpush
    cases hget
    by_cases hfull : m.callStack.length ≥ maxCallStackDepth
    · rw [if_pos hfull] at hpush
      cases hpush
    · rw [if_neg hfull] at hpush
      cases hpush
      exact ⟨_, rfl⟩
  obtain ⟨frames, rfl⟩ := hpushed
  obtain ⟨target, htarget, rfl⟩ := branch_eq_ok hbranch
  have hprogram : branchTarget m.program instr = .ok target := htarget
  rw [hprogram]
  cases h
  constructor
  · simp only
    split <;> rfl
  · simp only
    split <;> rfl

theorem opRetsub_moves (h : opRetsub m = .ok () m') : Moves m m' (m.callStack.head?.map CallFrame.returnPc) := by
  unfold opRetsub at h
  rw [Run.state_bind_eq_ok] at h
  obtain ⟨frame, m₁, hpop, h⟩ := h
  have hpopped : ∃ frames, m.callStack = frame :: frames ∧ m₁ = { m with callStack := frames } := by
    unfold popCallFrame at hpop
    rw [Run.state_bind_eq_ok] at hpop
    obtain ⟨m₀, m₃, hget, hpop⟩ := hpop
    cases hget
    cases hstack : m.callStack with
    | nil =>
      simp only [hstack] at hpop
      cases hpop
    | cons frame' frames =>
      simp only [hstack] at hpop
      cases hpop
      exact ⟨frames, rfl, rfl⟩
  obtain ⟨frames, hstack, rfl⟩ := hpopped
  rw [hstack]
  show m'.pc = frame.returnPc ∧ m'.finished = m.finished
  by_cases hclear : frame.clear = true
  · rw [if_pos hclear, Run.state_bind_eq_ok] at h
    obtain ⟨_, m₂, hframe, h⟩ := h
    obtain ⟨d, -, rfl⟩ := onData_eq_ok.1 hframe
    have hmoves := jump_moves (show jump frame.returnPc _ = .ok () m' from h)
    exact hmoves
  · rw [if_neg hclear] at h
    have hmoves := jump_moves (show jump frame.returnPc _ = .ok () m' from h)
    exact hmoves

/-- A selected label is gone to; otherwise the next instruction is. -/
theorem label_moves {p : Program} (hp : m.program = p) {offset : Option Int} (h : (match offset with
      | some offset => do
        let m ← get
        let target ← ofExcept (resolveLabel m.program instr offset)
        jump target
      | none => advance : Flow Unit) m = .ok () m') :
    Moves m m' (offset.bind (fun offset => (resolveLabel p instr offset).toOption)) := by
  cases offset with
  | none => exact advance_moves h
  | some offset =>
    simp only at h
    rw [Run.state_bind_eq_ok] at h
    obtain ⟨m₀, m₁, hget, h⟩ := h
    cases hget
    rw [Run.state_bind_eq_ok] at h
    obtain ⟨target, m₂, htarget, h⟩ := h
    obtain ⟨htarget, rfl⟩ := ofExcept_eq_ok.1 htarget
    rw [hp] at htarget
    rw [Option.bind_some, htarget]
    exact jump_moves h

theorem opSwitch_moves (h : opSwitch instr m = .ok () m') (hop : instr.opcode.toNat = 0x8d) :
    Moves m m' (transferTarget m instr) := by
  unfold opSwitch at h
  cases himm : instr.immediates with
  | labels offsets =>
    simp only [himm] at h
    rw [Run.state_bind_eq_ok] at h
    obtain ⟨index, m₁, hpop, h⟩ := h
    obtain ⟨d, hd, rfl⟩ := onData_eq_ok.1 hpop
    obtain ⟨hlast, -⟩ := popUint_eq_ok hd
    have htarget : transferTarget m instr = labelTarget m.program instr offsets index := by
      simp only [transferTarget, hop, himm, hlast]
    rw [htarget]
    exact (label_moves rfl h).of_data
  | _ =>
    simp only [himm] at h
    cases h

theorem opMatch_moves (h : opMatch instr m = .ok () m') (hop : instr.opcode.toNat = 0x8e) :
    Moves m m' (transferTarget m instr) := by
  unfold opMatch at h
  cases himm : instr.immediates with
  | labels offsets =>
    simp only [himm] at h
    rw [Run.state_bind_eq_ok] at h
    obtain ⟨v, m₁, hpop, h⟩ := h
    obtain ⟨d, hd, rfl⟩ := onData_eq_ok.1 hpop
    obtain ⟨hlast, rfl⟩ := pop_eq_ok hd
    rw [Run.state_bind_eq_ok] at h
    obtain ⟨vs, m₂, hpopN, h⟩ := h
    obtain ⟨d, hdN, rfl⟩ := onData_eq_ok.1 hpopN
    obtain ⟨hstack, hlength, -⟩ := popN_eq_ok hdN
    -- the values that were popped are the cases
    have hcases : m.data.stack.dropLast.drop (m.data.stack.dropLast.length - offsets.length) = vs := by
      simp only at hstack
      rw [hstack, List.length_append, hlength, Nat.add_sub_cancel, List.drop_left]
    have htarget : transferTarget m instr =
        (vs.findIdx? (fun c => c == v)).bind (labelTarget m.program instr offsets) := by
      simp only [transferTarget, hop, himm, hlast, hcases]
    rw [htarget]
    have hmoves := (label_moves rfl h).of_data.of_data
    unfold labelTarget
    rw [← Option.bind_assoc]
    exact hmoves
  | _ =>
    simp only [himm] at h
    cases h

/-- The opcodes that set no target: they leave the program counter alone. -/
theorem onData_moves {α : Type} {x : OnData α} {a : α} (h : onData x m = .ok a m') : Moves m m' none := by
  obtain ⟨d, -, rfl⟩ := onData_eq_ok.1 h
  exact .inl rfl

theorem opReturn_moves (h : opReturn instr m = .ok () m') : Moves m m' none := by
  unfold opReturn at h
  rw [Run.state_bind_eq_ok] at h
  obtain ⟨v, m₁, hpop, h⟩ := h
  obtain ⟨d, -, rfl⟩ := onData_eq_ok.1 hpop
  cases h
  exact .inl rfl

theorem opAssert_moves (h : opAssert instr m = .ok () m') : Moves m m' none := by
  unfold opAssert at h
  rw [Run.state_bind_eq_ok] at h
  obtain ⟨v, m₁, hpop, h⟩ := h
  by_cases hv : v ≠ 0
  · rw [if_pos hv] at h
    cases h
    exact onData_moves hpop
  · rw [if_neg hv] at h
    cases h

theorem opProto_moves (h : opProto instr m = .ok () m') : Moves m m' none := by
  unfold opProto at h
  rw [Run.state_bind_eq_ok] at h
  obtain ⟨m₀, m₁, hget, h⟩ := h
  cases hget
  cases hcall : m.fromCallsub with
  | false =>
    simp only [hcall, Bool.not_false, if_true] at h
    cases h
  | true =>
    simp only [hcall, Bool.not_true, Bool.false_eq_true, if_false] at h
    rw [Run.state_bind_eq_ok] at h
    obtain ⟨_, m₂, hset, h⟩ := h
    cases hset
    cases himm : instr.immediates with
    | uint8Pair args returns =>
      cases hstack : m.callStack with
      | nil =>
        simp only [himm, hstack] at h
        cases h
      | cons frame frames =>
        simp only [himm, hstack] at h
        by_cases hargs : frame.framePointer < args.toNat
        · rw [if_pos hargs] at h
          cases h
        · rw [if_neg hargs] at h
          cases h
          exact .inl rfl
    | _ =>
      simp only [himm] at h
      cases h

theorem frameAccess_eq_ok {r : UInt8 × CallFrame} (h : frameAccess instr m = .ok r m') : m' = m := by
  unfold frameAccess at h
  rw [Run.state_bind_eq_ok] at h
  obtain ⟨m₀, m₁, hget, h⟩ := h
  cases hget
  cases himm : instr.immediates with
  | uint8 raw =>
    cases hstack : m.callStack with
    | nil =>
      simp only [himm, hstack] at h
      cases h
    | cons frame frames =>
      simp only [himm, hstack] at h
      cases h
      rfl
  | _ =>
    simp only [himm] at h
    cases h

theorem opFrameDig_moves (h : opFrameDig instr m = .ok () m') : Moves m m' none := by
  unfold opFrameDig at h
  rw [Run.state_bind_eq_ok] at h
  obtain ⟨r, m₁, haccess, h⟩ := h
  cases frameAccess_eq_ok haccess
  rw [Run.state_bind_eq_ok] at h
  obtain ⟨idx, m₂, hidx, h⟩ := h
  obtain ⟨-, rfl⟩ := ofExcept_eq_ok.1 hidx
  rw [Run.state_bind_eq_ok] at h
  obtain ⟨m₀, m₃, hget, h⟩ := h
  cases hget
  cases hval : m₂.data.stack[idx]? with
  | none =>
    simp only [hval] at h
    cases h
  | some val =>
    simp only [hval] at h
    exact onData_moves h

theorem opFrameBury_moves (h : opFrameBury instr m = .ok () m') : Moves m m' none := by
  unfold opFrameBury at h
  rw [Run.state_bind_eq_ok] at h
  obtain ⟨r, m₁, haccess, h⟩ := h
  cases frameAccess_eq_ok haccess
  rw [Run.state_bind_eq_ok] at h
  obtain ⟨val, m₂, hpop, h⟩ := h
  obtain ⟨d, -, rfl⟩ := onData_eq_ok.1 hpop
  rw [Run.state_bind_eq_ok] at h
  obtain ⟨idx, m₃, hidx, h⟩ := h
  obtain ⟨-, rfl⟩ := ofExcept_eq_ok.1 hidx
  rw [Run.state_bind_eq_ok] at h
  obtain ⟨m₀, m₄, hget, h⟩ := h
  cases hget
  by_cases hrange : idx ≥ d.stack.length
  · simp only [hrange, if_true] at h
    cases h
  · simp only [hrange, if_false] at h
    cases h
    exact .inl rfl

/-- **Every flow control opcode sets the target it points to, and only that.** -/
theorem flowOp_moves {f : Flow Unit} (hf : flowOp instr = some f) (h : f m = .ok () m') :
    Moves m m' (transferTarget m instr) := by
  unfold flowOp at hf
  split at hf <;> cases hf
  case h_1 hop => cases h
  case h_2 hop => exact opBnz_moves h hop
  case h_3 hop => exact opBz_moves h hop
  case h_4 hop => simpa only [transferTarget, hop] using branch_moves h
  case h_5 hop => simpa only [transferTarget, hop] using opReturn_moves h
  case h_6 hop => simpa only [transferTarget, hop] using opAssert_moves h
  case h_7 hop => simpa only [transferTarget, hop] using opCallsub_moves h
  case h_8 hop => simpa only [transferTarget, hop] using opRetsub_moves h
  case h_9 hop => simpa only [transferTarget, hop] using opProto_moves h
  case h_10 hop => simpa only [transferTarget, hop] using opFrameDig_moves h
  case h_11 hop => simpa only [transferTarget, hop] using opFrameBury_moves h
  case h_12 hop => exact opSwitch_moves h hop
  case h_13 hop => exact opMatch_moves h hop

theorem transferTarget_of_data (hf : flowOp instr = none) (m : Machine) : transferTarget m instr = none := by
  unfold flowOp at hf
  unfold transferTarget
  split at hf <;> cases hf
  split <;> simp_all

end Moves

/-! ## Steps -/

section Step

variable {σ : Type} {handlers : Handlers σ} {s s' : Machine × σ} {m m' : Machine} {instr : Instruction}

theorem onMachine_eq_ok {α : Type} {x : Flow α} {a : α} :
    onMachine x s = .ok a s' ↔ ∃ m, x s.1 = .ok a m ∧ (m, s.2) = s' := Run.zoom_eq_ok

theorem transferTarget_congr (hstack : m'.data.stack = m.data.stack) (hcalls : m'.callStack = m.callStack)
    (hprogram : m'.program = m.program) : transferTarget m' instr = transferTarget m instr := by
  unfold transferTarget
  rw [hstack, hcalls, hprogram]

theorem dispatch_moves (h : dispatch handlers instr s = .ok () s') :
    Moves s.1 s'.1 (transferTarget s.1 instr) := by
  unfold dispatch at h
  rw [Run.state_bind_eq_ok] at h
  obtain ⟨s₀, s₁, hget, h⟩ := h
  cases hget
  rw [Run.state_bind_eq_ok] at h
  obtain ⟨_, s₂, hmode, h⟩ := h
  obtain ⟨m₂, hm₂, rfl⟩ := onMachine_eq_ok.1 hmode
  obtain ⟨-, rfl⟩ := ofExcept_eq_ok.1 hm₂
  cases hflow : flowOp instr with
  | some f =>
    simp only [hflow] at h
    obtain ⟨m₃, hm₃, rfl⟩ := onMachine_eq_ok.1 h
    exact flowOp_moves hflow hm₃
  | none =>
    simp only [hflow] at h
    rw [transferTarget_of_data hflow]
    obtain ⟨t, -, rfl⟩ := Run.zoom_eq_ok.1 h
    exact .inl rfl

/-- What happens before an instruction is dispatched keeps the program counter, the stack and the call stack. -/
theorem prepare_eq_ok {m₁ m₂ m₃ : Machine} (hhit : recordHit instr m = .ok () m₁)
    (hargs : checkArguments instr m₁ = .ok () m₂) (hcharge : chargeStatic instr m₂ = .ok () m₃) :
    m₃.pc = m.pc ∧ m₃.finished = m.finished ∧ transferTarget m₃ instr = transferTarget m instr := by
  cases hhit
  have hsame : m₂ = { m with opcodeHits := m.opcodeHits.set instr.opcode.toNat true } := by
    unfold checkArguments at hargs
    rw [Run.state_bind_eq_ok] at hargs
    obtain ⟨m₀, m₄, hget, hargs⟩ := hargs
    cases hget
    cases hgate : argGate instr m.data.stack with
    | some e =>
      simp only [hgate] at hargs
      cases hargs
    | none =>
      simp only [hgate] at hargs
      cases hargs
      rfl
  subst hsame
  unfold chargeStatic at hcharge
  rw [Run.state_bind_eq_ok] at hcharge
  obtain ⟨m₀, m₄, hget, hcharge⟩ := hcharge
  cases hget
  cases hcost : staticCost m.program.version instr with
  | none =>
    simp only [hcost] at hcharge
    cases hcharge
    exact ⟨rfl, rfl, transferTarget_congr rfl rfl rfl⟩
  | some cost =>
    simp only [hcost] at hcharge
    obtain ⟨d, hd, rfl⟩ := onData_eq_ok.1 hcharge
    have hstack : d.stack = m.data.stack := by
      unfold chargeCost at hd
      rw [Run.state_bind_eq_ok] at hd
      obtain ⟨d₀, d₁, hget, hd⟩ := hd
      cases hget
      by_cases hbudget : (cost : Int) > m.data.budget
      · rw [if_pos hbudget] at hd
        cases hd
      · rw [if_neg hbudget] at hd
        cases hd
        rfl
    exact ⟨rfl, rfl, transferTarget_congr hstack rfl rfl⟩

/-- One step: the opcode moves the program counter, and then the step does where it has not changed. -/
theorem step_moves (hinstr : s.1.program.instructions[s.1.pc]? = some instr) (h : step handlers s = .ok () s') :
    s.1.finished = false ∧ ∃ m, Moves s.1 m (transferTarget s.1 instr) ∧
      s'.1 = if !m.finished && m.pc == s.1.pc then { m with pc := m.pc + 1 } else m := by
  unfold step at h
  rw [Run.state_bind_eq_ok] at h
  obtain ⟨s₀, s₁, hget, h⟩ := h
  cases hget
  cases hfinished : s.1.finished with
  | true =>
    simp only [hfinished, if_true] at h
    cases h
  | false =>
    refine ⟨rfl, ?_⟩
    simp only [hfinished, Bool.false_eq_true, if_false, hinstr] at h
    rw [Run.state_bind_eq_ok] at h
    obtain ⟨_, s₂, hhit, h⟩ := h
    rw [Run.state_bind_eq_ok] at h
    obtain ⟨_, s₃, hargs, h⟩ := h
    rw [Run.state_bind_eq_ok] at h
    obtain ⟨_, s₄, hcharge, h⟩ := h
    rw [Run.state_bind_eq_ok] at h
    obtain ⟨_, s₅, hdispatch, h⟩ := h
    obtain ⟨m₁, hm₁, rfl⟩ := onMachine_eq_ok.1 hhit
    obtain ⟨m₂, hm₂, rfl⟩ := onMachine_eq_ok.1 hargs
    obtain ⟨m₃, hm₃, rfl⟩ := onMachine_eq_ok.1 hcharge
    obtain ⟨m₄, hadvance, rfl⟩ := onMachine_eq_ok.1 h
    obtain ⟨hpc, hfin, htarget⟩ := prepare_eq_ok hm₁ hm₂ hm₃
    have hmoves := dispatch_moves hdispatch
    simp only at hmoves
    rw [htarget] at hmoves
    cases hadvance
    refine ⟨s₅.1, ?_, rfl⟩
    cases htransfer : transferTarget s.1 instr with
    | some target =>
      rw [htransfer] at hmoves
      exact ⟨hmoves.1, hmoves.2.trans hfin⟩
    | none =>
      rw [htransfer] at hmoves
      unfold Moves at hmoves ⊢
      rw [hpc] at hmoves
      exact hmoves

/-- A step goes where its instruction points exactly where that is another instruction. -/
theorem step_goesWherePointed_iff (hinstr : s.1.program.instructions[s.1.pc]? = some instr)
    (h : step handlers s = .ok () s') :
    GoesWherePointed s.1 instr s'.1 ↔ transferTarget s.1 instr ≠ some s.1.pc := by
  obtain ⟨hrunning, m, hmoves, hs'⟩ := step_moves hinstr h
  unfold GoesWherePointed
  rw [hs']
  cases htransfer : transferTarget s.1 instr with
  | some target =>
    rw [htransfer] at hmoves
    obtain ⟨hpc, hfinished⟩ := hmoves
    rw [hrunning] at hfinished
    simp only [hfinished, hpc, Bool.not_false, Bool.true_and, beq_iff_eq, ne_eq, Option.some.injEq]
    by_cases hself : target = s.1.pc
    · rw [if_pos hself]
      simp [hself]
    · rw [if_neg hself]
      exact ⟨fun _ => hself, fun _ => hpc⟩
  | none =>
    rw [htransfer] at hmoves
    simp only [ne_eq, reduceCtorEq, not_false_eq_true, iff_true]
    intro hunfinished
    rcases hmoves with hpc | hpc
    · cases hfinished : m.finished with
      | true =>
        simp only [hfinished, Bool.not_true, Bool.false_and, Bool.false_eq_true, if_false] at hunfinished
        cases hunfinished
      | false => simp [hpc]
    · have hne : ¬ (m.pc = s.1.pc) := by omega
      simp [hpc]

end Step

/-- The states a program can reach: its bytes are parsed, and the machine takes any number of successful steps. -/
def Reached {σ : Type} (handlers : Handlers σ) (raw : Bytes) (mode : ExecMode) (budget : Int) (ctx : σ)
    (s : Machine × σ) : Prop :=
  ∃ program, parse raw = .ok program ∧
    Relation.ReflTransGen (fun s s' => step handlers s = .ok () s') (Machine.new program mode budget, ctx) s

/-- **Control transfers go where they point, unless they point to themselves**: in every state that any program reaches,
a successful step of an instruction goes to its target, or to the next instruction where it transfers no control, exactly
if the instruction does not point to itself. -/
theorem controlTransfer_iff {σ : Type} (handlers : Handlers σ) (raw : Bytes) (mode : ExecMode) (budget : Int) (ctx : σ)
    (s s' : Machine × σ) (_hreached : Reached handlers raw mode budget ctx s) (instr : Instruction)
    (hinstr : s.1.program.instructions[s.1.pc]? = some instr) (h : step handlers s = .ok () s') :
    GoesWherePointed s.1 instr s'.1 ↔ transferTarget s.1 instr ≠ some s.1.pc :=
  step_goesWherePointed_iff hinstr h

/-- Flow control alone. -/
def flowOnly : Handlers Unit := ⟨fun _ _ instr => throw (.other instr.name)⟩

set_option maxRecDepth 20000 in
/-- `callsub`, over an `err`, to a `retsub`: the `retsub` goes back to the `err`. -/
theorem controlTransfer_iff_retsub :
    ∃ s s', Reached flowOnly [4, 0x88, 0x00, 0x01, 0x00, 0x89] .logicSig 700 () s ∧
      step flowOnly s = .ok () s' ∧ s'.1.pc = 1 ∧ GoesWherePointed s.1 ⟨0x89, none, 4, .none⟩ s'.1 := by
  obtain ⟨_, s, hcall, hs⟩ := @Run.ok_of_okAnd _ _ _
    (step flowOnly (Machine.new ⟨4, [⟨0x88, none, 0, .int16 1⟩, ⟨0x00, none, 3, .none⟩, ⟨0x89, none, 4, .none⟩]⟩
      .logicSig 700, ()))
    (fun s => decide (s.1.program.instructions[s.1.pc]? = some ⟨0x89, none, 4, .none⟩ ∧
      transferTarget s.1 ⟨0x89, none, 4, .none⟩ = some 1 ∧ s.1.pc = 2 ∧
      Run.okAnd (fun s' => decide (s'.1.pc = 1)) (step flowOnly s) = true))
    (by decide)
  obtain ⟨hinstr, htarget, hpc, hstep⟩ := of_decide_eq_true hs
  obtain ⟨_, s', hret, hs'⟩ := Run.ok_of_okAnd hstep
  have hreached : Reached flowOnly [4, 0x88, 0x00, 0x01, 0x00, 0x89] .logicSig 700 () s :=
    ⟨_, by decide, .single hcall⟩
  refine ⟨s, s', hreached, hret, of_decide_eq_true hs', ?_⟩
  apply (controlTransfer_iff flowOnly _ _ _ _ s s' hreached _ hinstr hret).2
  rw [htarget, hpc]
  decide

set_option maxRecDepth 20000 in
/-- **A branch to itself falls through**: the program that is one branch to its own first byte ends after one step. -/
theorem selfBranch_fallsThrough :
    ∃ s s', Reached flowOnly [4, 0x42, 0xff, 0xfd] .logicSig 700 () s ∧
      s.1.program.instructions[s.1.pc]? = some ⟨0x42, none, 0, .int16 (-3)⟩ ∧
      getBranchTarget s.1.program ⟨0x42, none, 0, .int16 (-3)⟩ (-3) = .ok 0 ∧
      step flowOnly s = .ok () s' ∧ s'.1.pc = 1 ∧ ¬ GoesWherePointed s.1 ⟨0x42, none, 0, .int16 (-3)⟩ s'.1 := by
  obtain ⟨_, s', hstep, hs'⟩ := @Run.ok_of_okAnd _ _ _
    (step flowOnly (Machine.new ⟨4, [⟨0x42, none, 0, .int16 (-3)⟩]⟩ .logicSig 700, ()))
    (fun s' => decide (s'.1.pc = 1)) (by decide)
  have hpc := of_decide_eq_true hs'
  refine ⟨_, s', ⟨_, by decide, .refl⟩, by decide, by decide, hstep, hpc, ?_⟩
  have htarget : transferTarget (Machine.new ⟨4, [⟨0x42, none, 0, .int16 (-3)⟩]⟩ .logicSig 700)
      ⟨0x42, none, 0, .int16 (-3)⟩ = some 0 := by decide
  unfold GoesWherePointed
  rw [htarget, hpc]
  exact Nat.one_ne_zero

end Avm
end Algod
