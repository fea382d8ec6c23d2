import AlgodRust.Avm.Bytecode
import AlgodRust.Lib.Run
/-!
# Machine — the stack machine and its flow control

One step checks the arguments of the instruction at the program counter, charges its cost, executes it, and moves to the
next instruction unless the program counter has changed.  Branches, subroutines, frames and the end of a program are
executed here.  Every other opcode is a `Handlers` parameter: those functions read the mode and the version and write
the stack, the scratch space, the constants and the budget (`Data`) and the state of the context, and nothing else of
the machine.
-/
namespace Algod
namespace Avm

open Msgpack (Bytes)

inductive AvmValue
  | uint (n : Nat)
  | bytes (bs : Bytes)
deriving DecidableEq, Repr

inductive ExecMode
  | logicSig
  | application
deriving DecidableEq, Repr

structure CallFrame where
  returnPc : Nat
  framePointer : Nat
  clear : Bool
  args : Nat
  returns : Nat
deriving DecidableEq, Repr

/-- The part of a machine that opcodes other than flow control work on.  The top of the stack is its last value. -/
structure Data where
  stack : List AvmValue
  scratch : List AvmValue
  budget : Int
  cost : Nat
  intConstants : List Nat
  byteConstants : List Bytes
deriving DecidableEq, Repr

/-- A machine.  The first frame of the call stack is the innermost one. -/
structure Machine where
  data : Data
  callStack : List CallFrame
  pc : Nat
  mode : ExecMode
  program : Program
  finished : Bool
  pass : Bool
  fromCallsub : Bool
  opcodeHits : List Bool
deriving DecidableEq, Repr

def maxStackDepth : Nat := 1000
def scratchSpaceSize : Nat := 256
def maxCallStackDepth : Nat := 256

def Machine.new (program : Program) (mode : ExecMode) (budget : Int) : Machine :=
  { data := ⟨[], List.replicate scratchSpaceSize (.uint 0), budget, 0, [], []⟩
    callStack := []
    pc := 0
    mode := mode
    program := program
    finished := false
    pass := false
    fromCallsub := false
    opcodeHits := List.replicate 256 false }

def Instruction.name (instr : Instruction) : String := opName instr.opcode instr.subOpcode

/-- The byte offset of the current instruction in the whole program, as errors report it. -/
def Machine.bytePc (m : Machine) : Nat :=
  (if m.program.version < 128 then 1 else 2) +
    ((m.program.instructions[m.pc]?).map Instruction.offset).getD m.program.endOffset

/-! ## The stack -/

section Stack

abbrev OnData := EStateM AvmError Data

def push (v : AvmValue) : OnData Unit := do
  let d ← get
  if d.stack.length ≥ maxStackDepth then throw .stackOverflow
  else set { d with stack := d.stack ++ [v] }

def pop (name : String) : OnData AvmValue := do
  let d ← get
  match d.stack.getLast? with
  | none => throw (.stackUnderflow name)
  | some v => do
    set { d with stack := d.stack.dropLast }
    return v

def popUint (name : String) : OnData Nat := do
  match ← pop name with
  | .uint n => return n
  | .bytes _ => throw (.wrongType .uint .bytes)

/-- Pop values; the deepest one comes first. -/
def popN (name : String) : Nat → OnData (List AvmValue)
  | 0 => return []
  | n + 1 => do
    let v ← pop name
    let below ← popN name n
    return below ++ [v]

def chargeCost (name : String) (cost : Nat) : OnData Unit := do
  let d ← get
  if (cost : Int) > d.budget then throw (.budgetExceeded name d.cost)
  else set { d with cost := min (d.cost + cost) (u64Bound - 1), budget := d.budget - cost }

def accepts (want : ArgType) (value : AvmValue) : Bool :=
  match want, value with
  | .any, _ => true
  | .uint, .uint _ => true
  | .bytes, .bytes _ => true
  | _, _ => false

def gotType : AvmValue → ArgType
  | .uint _ => .uint
  | .bytes _ => .bytes

/-- The first of some values, counting from an index, that does not have the type it should have. -/
def firstWrong (name : String) : Nat → List ArgType → List AvmValue → Option AvmError
  | i, want :: wants, v :: vs => if accepts want v then firstWrong name (i + 1) wants vs
    else some (.wrongArgument name i want (gotType v))
  | _, _, _ => none

/-- The arguments of the opcodes that are checked before they run: enough of them, then each one's type. -/
def argGate (instr : Instruction) (stack : List AvmValue) : Option AvmError :=
  if instr.subOpcode.isSome then none
  else
    match argTypes instr.opcode with
    | none => none
    | some types =>
      if stack.length < types.length then some (.stackUnderflow instr.name)
      else firstWrong instr.name 0 types (stack.drop (stack.length - types.length))

end Stack

/-! ## Branch targets -/

/-- The instruction at a byte offset; the end of the program is one. -/
def Program.instructionAt (p : Program) (offset : Nat) : Option Nat :=
  match p.offsetToIndex offset with
  | some idx => some idx
  | none => if offset = p.endOffset then some p.instructions.length else none

/-- The byte offset a distance after the end of an instruction, in the arithmetic of machine words. -/
def Instruction.relative (instr : Instruction) (offset : Int) : Nat :=
  (((instr.offset + 1 + immediateByteLen instr.immediates : Nat) + offset) % (u64Bound : Int)).toNat

def getBranchTarget (p : Program) (instr : Instruction) (offset : Int) : Except AvmError Nat :=
  match p.instructionAt (instr.relative offset) with
  | some idx => .ok idx
  | none => .error (.noSuchBranchTarget (instr.relative offset))

def getVarintBranchTarget (p : Program) (instr : Instruction) (offset : Int) (varintLen : Nat) : Except AvmError Nat :=
  let target := varintBranchTarget instr.offset varintLen offset
  if target < 0 ∨ target > p.endOffset then .error (.branchOutside target)
  else
    match p.instructionAt target.toNat with
    | some idx => .ok idx
    | none => .error (.noSuchBranchTarget target.toNat)

def resolveLabel (p : Program) (instr : Instruction) (offset : Int) : Except AvmError Nat :=
  match p.instructionAt (instr.relative offset) with
  | some idx => .ok idx
  | none => .error (.noSuchLabelTarget (instr.relative offset))

/-- Where a branch instruction points. -/
def branchTarget (p : Program) (instr : Instruction) : Except AvmError Nat :=
  match instr.immediates with
  | .int16 offset => getBranchTarget p instr offset
  | .branchVarint offset varintLen => getVarintBranchTarget p instr offset varintLen
  | _ => .error (.wrongImmediate "branch")

/-! ## Flow control -/

section Flow

abbrev Flow := EStateM AvmError Machine

def onData {α : Type} (x : OnData α) : Flow α := Run.zoom Machine.data (fun d m => { m with data := d }) x

def ofExcept {α : Type} (x : Except AvmError α) : Flow α :=
  match x with
  | .ok a => pure a
  | .error e => throw e

def advance : Flow Unit := modify (fun m => { m with pc := m.pc + 1 })

def jump (pc : Nat) : Flow Unit := modify (fun m => { m with pc := pc })

def branch (instr : Instruction) : Flow Unit := do
  let m ← get
  let target ← ofExcept (branchTarget m.program instr)
  jump target

def opErr : Flow Unit := throw .errExecuted

def opBnz (instr : Instruction) : Flow Unit := do
  let val ← onData (popUint instr.name)
  if val ≠ 0 then branch instr else advance

def opBz (instr : Instruction) : Flow Unit := do
  let val ← onData (popUint instr.name)
  if val = 0 then branch instr else advance

def opReturn (instr : Instruction) : Flow Unit := do
  let val ← onData (popUint instr.name)
  modify (fun m => { m with finished := true, pass := decide (val ≠ 0) })

def opAssert (instr : Instruction) : Flow Unit := do
  let val ← onData (popUint instr.name)
  if val ≠ 0 then return ()
  else do
    let m ← get
    throw (.assertFailed m.bytePc)

def pushCallFrame (frame : CallFrame) : Flow Unit := do
  let m ← get
  if m.callStack.length ≥ maxCallStackDepth then throw .callStackOverflow
  else set { m with callStack := frame :: m.callStack }

def popCallFrame : Flow CallFrame := do
  let m ← get
  match m.callStack with
  | [] => throw .emptyCallStack
  | frame :: frames => do
    set { m with callStack := frames }
    return frame

def opCallsub (instr : Instruction) : Flow Unit := do
  let m ← get
  pushCallFrame ⟨m.pc + 1, m.data.stack.length, false, 0, 0⟩
  branch instr
  -- a subroutine that starts with `proto` is entered only by a call
  modify (fun m => if (m.program.instructions[m.pc]?).any (fun target => target.opcode == 0x8a)
    then { m with fromCallsub := true } else m)

/-- Move the return values of a subroutine that declared them down over its arguments. -/
def clearFrame (frame : CallFrame) : OnData Unit := do
  let d ← get
  let depth := d.stack.length
  if depth < frame.framePointer + frame.returns then
    if depth < frame.framePointer then throw .belowFrame
    else if depth = frame.framePointer then throw (.noReturnValues frame.returns)
    else throw (.tooFewReturnValues (depth - frame.framePointer) frame.returns)
  else
    let kept := d.stack.take (frame.framePointer - frame.args)
    set { d with stack := kept ++ (d.stack.drop frame.framePointer).take frame.returns }

def opRetsub : Flow Unit := do
  let frame ← popCallFrame
  if frame.clear then onData (clearFrame frame)
  jump frame.returnPc

def opProto (instr : Instruction) : Flow Unit := do
  let m ← get
  if !m.fromCallsub then throw .protoWithoutCallsub
  else do
    set { m with fromCallsub := false }
    match instr.immediates with
    | .uint8Pair args returns =>
      match m.callStack with
      | [] => throw .protoNoFrame
      | frame :: frames =>
        if frame.framePointer < args.toNat then throw (.protoMissingArgs args.toNat frame.framePointer)
        else
          let frame := { frame with clear := true, args := args.toNat, returns := returns.toNat }
          set { m with fromCallsub := false, callStack := frame :: frames }
    | _ => throw (.wrongImmediate "proto")

/-- The index in the stack of a byte, read as a signed one, relative to the frame.  The negation of the least such
number is itself, so it reaches below every frame. -/
def frameIndex (framePointer : Nat) (raw : UInt8) : Except AvmError Nat :=
  let offset : Int := if raw.toNat < 128 then raw.toNat else (raw.toNat : Int) - 256
  if 0 ≤ offset then .ok (framePointer + offset.toNat)
  else
    let below := if offset = -128 then u64Bound - 128 else (-offset).toNat
    if below ≤ framePointer then .ok (framePointer - below) else .error (.frameIndexOverflow framePointer offset)

/-- The immediate of a frame access and the frame it is relative to. -/
def frameAccess (instr : Instruction) : Flow (UInt8 × CallFrame) := do
  let m ← get
  match instr.immediates, m.callStack with
  | .uint8 raw, frame :: _ => return (raw, frame)
  | .uint8 _, [] => throw (.noCallFrame instr.name)
  | _, _ => throw (.wrongImmediate instr.name)

def opFrameDig (instr : Instruction) : Flow Unit := do
  let (raw, frame) ← frameAccess instr
  let idx ← ofExcept (frameIndex frame.framePointer raw)
  let m ← get
  match m.data.stack[idx]? with
  | none => throw (.frameIndexOutOfRange instr.name idx m.data.stack.length)
  | some val => onData (push val)

def opFrameBury (instr : Instruction) : Flow Unit := do
  let (raw, frame) ← frameAccess instr
  let val ← onData (pop instr.name)
  let idx ← ofExcept (frameIndex frame.framePointer raw)
  let m ← get
  if idx ≥ m.data.stack.length then throw (.frameIndexOutOfRange instr.name idx m.data.stack.length)
  else set { m with data := { m.data with stack := m.data.stack.set idx val } }

def opSwitch (instr : Instruction) : Flow Unit := do
  match instr.immediates with
  | .labels offsets =>
    let index ← onData (popUint instr.name)
    match offsets[index]? with
    | some offset =>
      let m ← get
      let target ← ofExcept (resolveLabel m.program instr offset)
      jump target
    | none => advance
  | _ => throw (.wrongImmediate "switch")

def opMatch (instr : Instruction) : Flow Unit := do
  match instr.immediates with
  | .labels offsets =>
    let targetVal ← onData (pop instr.name)
    let matchValues ← onData (popN instr.name offsets.length)
    match (matchValues.findIdx? (fun val => val == targetVal)).bind (fun i => offsets[i]?) with
    | some offset =>
      let m ← get
      let target ← ofExcept (resolveLabel m.program instr offset)
      jump target
    | none => advance
  | _ => throw (.wrongImmediate "match")

/-- The function of a flow control opcode. -/
def flowOp (instr : Instruction) : Option (Flow Unit) :=
  match instr.opcode.toNat with
  | 0x00 => some opErr
  | 0x40 => some (opBnz instr)
  | 0x41 => some (opBz instr)
  | 0x42 => some (branch instr)
  | 0x43 => some (opReturn instr)
  | 0x44 => some (opAssert instr)
  | 0x88 => some (opCallsub instr)
  | 0x89 => some opRetsub
  | 0x8a => some (opProto instr)
  | 0x8b => some (opFrameDig instr)
  | 0x8c => some (opFrameBury instr)
  | 0x8d => some (opSwitch instr)
  | 0x8e => some (opMatch instr)
  | _ => none

/-- The end of the instructions: one integer is left, and it decides. -/
def finishImplicit : Flow Unit := do
  modify (fun m => { m with finished := true, pass := false })
  let m ← get
  match m.data.stack with
  | [.uint v] => set { m with pass := decide (v ≠ 0) }
  | [.bytes _] => throw .finishedWithBytes
  | _ => throw (.stackLength m.data.stack.length)

end Flow

/-! ## Steps -/

/-- The functions of the opcodes that are not flow control, with the state of the context they work in. -/
structure Handlers (σ : Type) where
  handle : ExecMode → Nat → Instruction → EStateM AvmError (Data × σ) Unit

section Step

variable {σ : Type} (handlers : Handlers σ)

def onMachine {α : Type} (x : Flow α) : EStateM AvmError (Machine × σ) α := Run.zoom Prod.fst (fun m s => (m, s.2)) x

/-- An opcode may not run in a program it does not belong to. -/
def checkRuntimeMode (mode : ExecMode) (opcode : UInt8) : Except AvmError Unit :=
  match lookup opcode with
  | none => .ok ()
  | some spec =>
    match mode, spec.mode with
    | .logicSig, .application => .error (.notAllowedInMode spec.name .logicSig)
    | .application, .logicSig => .error (.notAllowedInMode spec.name .application)
    | _, _ => .ok ()

/-- Run a handler on its part of the machine and the context. -/
def onHandled {α : Type} (x : EStateM AvmError (Data × σ) α) : EStateM AvmError (Machine × σ) α :=
  Run.zoom (fun s : Machine × σ => (s.1.data, s.2)) (fun t s => ({ s.1 with data := t.1 }, t.2)) x

def dispatch (instr : Instruction) : EStateM AvmError (Machine × σ) Unit := do
  let s ← get
  onMachine (ofExcept (checkRuntimeMode s.1.mode instr.opcode))
  match flowOp instr with
  | some f => onMachine f
  | none => onHandled (handlers.handle s.1.mode s.1.program.version instr)

/-- The cost that is charged before an instruction runs. -/
def staticCost (version : Nat) (instr : Instruction) : Option Nat :=
  match (resolveSpec instr.opcode instr.subOpcode).map (fun spec => effectiveCost spec version) with
  | some (.static cost) => some cost
  | _ => none

def chargeStatic (instr : Instruction) : Flow Unit := do
  let m ← get
  match staticCost m.program.version instr with
  | some cost => onData (chargeCost instr.name cost)
  | none => return ()

def recordHit (instr : Instruction) : Flow Unit :=
  modify (fun m => { m with opcodeHits := m.opcodeHits.set instr.opcode.toNat true })

def checkArguments (instr : Instruction) : Flow Unit := do
  let m ← get
  match argGate instr m.data.stack with
  | some e => throw e
  | none => return ()

/-- Where the program counter has not moved, move it to the next instruction. -/
def advanceFrom (oldPc : Nat) : Flow Unit :=
  modify (fun m => if !m.finished && m.pc == oldPc then { m with pc := m.pc + 1 } else m)

/-- **Execute one instruction.** -/
def step : EStateM AvmError (Machine × σ) Unit := do
  let s ← get
  if s.1.finished then throw .alreadyFinished
  else
    match s.1.program.instructions[s.1.pc]? with
    | none => onMachine finishImplicit
    | some instr => do
      onMachine (recordHit instr)
      onMachine (checkArguments instr)
      onMachine (chargeStatic instr)
      dispatch handlers instr
      onMachine (advanceFrom s.1.pc)

/-- Run to completion, if as many steps are enough. -/
def run : Nat → Machine × σ → Option (EStateM.Result AvmError (Machine × σ) Bool)
  | 0, s => if s.1.finished then some (.ok s.1.pass s) else none
  | steps + 1, s =>
    if s.1.finished then some (.ok s.1.pass s)
    else
      match step handlers s with
      | .ok _ s' => run steps s'
      | .error e s' => some (.error e s')

end Step

end Avm
end Algod
