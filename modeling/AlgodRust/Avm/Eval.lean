import AlgodRust.Avm.ControlFlow
import AlgodRust.Ledger.Store
/-!
# Eval — the entry points, with and without a tracer

A program is checked against the consensus parameters and its transaction group, parsed and run.  Every entry point has
a copy that tells a tracer what happens.  The copies for applications leave one check out: that a program older than
shared resources is not called with an access list.
-/
namespace Algod
namespace Avm

open Msgpack (Bytes)
open Ledger (TealValue SignedTransaction)

inductive ProgramType
  | approval
  | clearState
  | logicSig
deriving DecidableEq, Repr

/-- A tracer: how each event changes what it has recorded. -/
structure EvalTracer (τ : Type) where
  beforeProgram : ProgramType → Bytes → τ → τ
  afterProgram : ProgramType → Bool → Option AvmError → τ → τ
  recordProgramCost : ProgramType → Nat → τ → τ
  beforeOpcode : Nat → UInt8 → τ → τ
  afterOpcode : Nat → UInt8 → List AvmValue → List AvmValue → Option AvmError → τ → τ
  recordScratchWrite : Nat → τ → τ

/-- What a program reads of its surroundings before it runs, and what is taken from them afterwards. -/
structure AvmContext (σ : Type) where
  handlers : Handlers σ
  consensusLogicSigVersion : σ → Option Nat
  minAvmVersion : σ → Nat
  txnHasAccess : σ → Bool
  groupIndex : σ → Nat
  currentAppId : σ → Nat
  takeGlobalDelta : σ → FinMap Bytes (Option TealValue) × σ
  takeLocalDeltas : σ → FinMap Address (FinMap Bytes (Option TealValue)) × σ
  takeLocalDeltaOrder : σ → List Address × σ
  takeInnerTransactions : σ → List SignedTransaction × σ
  takeLogs : σ → List Bytes × σ

/-! ## Checks before a run -/

def sharedResourcesVersion : Nat := 9
def backBranchEnabledVersion : Nat := 4

def checkProgramVersionAllowed (version ceiling : Nat) : Except AvmError Unit :=
  if version > ceiling then .error (.versionAboveCeiling version ceiling) else .ok ()

def checkMinAvmVersion (version min : Nat) : Except AvmError Unit :=
  if version < min then .error (.belowMinAvmVersion min version) else .ok ()

def checkPreSharedResourcesAccess (version : Nat) (hasAccess : Bool) : Except AvmError Unit :=
  if version < sharedResourcesVersion ∧ hasAccess = true then .error .preSharedResourcesAccess else .ok ()

/-- A check of the version of a program; a program without a readable one is left to the parser. -/
def onVersion (program : Bytes) (check : Nat → Except AvmError Unit) : Except AvmError Unit :=
  match peekVersion program with
  | some version => check version
  | none => .ok ()

/-- The ceiling on the version of a program, where the context knows one. -/
def checkCeiling (program : Bytes) (ceiling : Option Nat) : Except AvmError Unit :=
  match ceiling with
  | some c => onVersion program (fun version => checkProgramVersionAllowed version c)
  | none => .ok ()

/-- Before there were branches back, the cost of all instructions together must fit the budget. -/
def staticCostFrom (version : Nat) (max : Int) : List Instruction → Int → Except AvmError Unit
  | [], _ => .ok ()
  | instr :: instrs, sum =>
    let sum := sum + (staticCost version instr).getD 0
    if sum > max then .error (.staticCostExceeded instr.offset max) else staticCostFrom version max instrs sum

def staticCostCheck (program : Program) (max : Int) : Except AvmError Unit :=
  if program.version ≥ backBranchEnabledVersion then .ok () else staticCostFrom program.version max program.instructions 0

/-! ## Results -/

structure StateDump where
  scratch : List AvmValue
  stack : List AvmValue
deriving DecidableEq, Repr, Inhabited

/-- Where a program failed. -/
structure ErrorDetail where
  pc : Nat
  groupIndex : Nat
  appIndex : Option Nat
  evalStates : List StateDump
deriving DecidableEq, Repr

structure AvmResult where
  globalDelta : FinMap Bytes (Option TealValue)
  localDeltas : FinMap Address (FinMap Bytes (Option TealValue))
  localDeltaOrder : List Address
  innerTransactions : List SignedTransaction
  logs : List Bytes
  approved : Bool
  error : Option AvmError
  errorDetail : Option ErrorDetail
  coverage : List Bool
  scratch : List TealValue

/-- How an entry point ends that returns no result. -/
inductive EvalStop
  | error (e : AvmError)
  | logicSig (e : AvmError) (detail : ErrorDetail)
  | panic
deriving DecidableEq, Repr

def toTealValue : AvmValue → TealValue
  | .uint n => .uint n
  | .bytes bs => .bytes bs

def AvmResult.empty : AvmResult where
  globalDelta := ∅
  localDeltas := ∅
  localDeltaOrder := []
  innerTransactions := []
  logs := []
  approved := false
  error := none
  errorDetail := none
  coverage := List.replicate 256 false
  scratch := List.replicate scratchSpaceSize (.uint 0)

def AvmValue.isEmpty : AvmValue → Bool
  | .uint n => n == 0
  | .bytes bs => bs.isEmpty

/-- The stack, and the scratch space up to the last slot that is in use. -/
def dumpEvalState (m : Machine) : StateDump :=
  ⟨(m.data.scratch.reverse.dropWhile AvmValue.isEmpty).reverse, m.data.stack⟩

def evalErrorDetail (m : Machine) (groupIndex : Nat) (appIndex : Option Nat) : ErrorDetail :=
  ⟨m.bytePc, groupIndex, appIndex, List.replicate groupIndex default ++ [dumpEvalState m]⟩

def consume (remaining cost : Int) : Except AvmError Int :=
  if remaining - cost < 0 then .error (.poolExhausted cost remaining) else .ok (remaining - cost)

section Outcomes

variable {σ : Type} (ops : AvmContext σ)

/-- The result of an application that ran, with what accumulated in the context. -/
def collect (m : Machine) (c : σ) (approved : Bool) (error : Option (AvmError × ErrorDetail)) : AvmResult × σ :=
  let (globalDelta, c) := ops.takeGlobalDelta c
  let (localDeltas, c) := ops.takeLocalDeltas c
  let (localDeltaOrder, c) := ops.takeLocalDeltaOrder c
  let (innerTransactions, c) := ops.takeInnerTransactions c
  let (logs, c) := ops.takeLogs c
  ({ globalDelta, localDeltas, localDeltaOrder, innerTransactions, logs, approved
     error := error.map Prod.fst
     errorDetail := error.map Prod.snd
     coverage := m.opcodeHits
     scratch := m.data.scratch.map toTealValue }, c)

/-- The result of a clear-state program that did not approve: nothing it did counts but its scratch space. -/
def AvmResult.cleared (m : Machine) (error : Option (AvmError × ErrorDetail)) : AvmResult :=
  { AvmResult.empty with
    coverage := m.opcodeHits
    scratch := m.data.scratch.map toTealValue
    error := error.map Prod.fst
    errorDetail := error.map Prod.snd }

/-- After the run of an approval program: the pool pays for it, and a failure is a result too. -/
def approvalOutcome (budget : Int) :
    EStateM.Result AvmError (Machine × σ) Bool → EStateM.Result EvalStop (σ × Int) AvmResult
  | .ok pass (m, c) =>
    match consume budget (budget - m.data.budget) with
    | .error e => .error (.error e) (c, budget)
    | .ok budget =>
      let r := collect ops m c pass none
      .ok r.1 (r.2, budget)
  | .error e (m, c) =>
    let budget := ((consume budget (budget - m.data.budget)).toOption).getD budget
    let r := collect ops m c false (some (e, evalErrorDetail m (ops.groupIndex c) (some (ops.currentAppId c))))
    .ok r.1 (r.2, budget)

def clearStateOutcome : EStateM.Result AvmError (Machine × σ) Bool → EStateM.Result EvalStop σ AvmResult
  | .ok true (m, c) =>
    let r := collect ops m c true none
    .ok r.1 r.2
  | .ok false (m, c) => .ok (AvmResult.cleared m none) c
  | .error e (m, c) =>
    .ok (AvmResult.cleared m (some (e, evalErrorDetail m (ops.groupIndex c) (some (ops.currentAppId c))))) c

def logicSigOutcome (groupIndex : Nat) (budget : Int) :
    EStateM.Result AvmError (Machine × σ) Bool → EStateM.Result EvalStop (σ × Int) Bool
  | .ok pass (m, c) =>
    match consume budget (budget - m.data.budget) with
    | .error e => .error (.error e) (c, budget)
    | .ok budget => .ok pass (c, budget)
  | .error e (m, c) =>
    let budget := ((consume budget (budget - m.data.budget)).toOption).getD budget
    .error (.logicSig e (evalErrorDetail m groupIndex none)) (c, budget)

/-! ## Without a tracer -/

/-- Run an approval program; `none` where it takes more steps. -/
def runApprovalProgram (steps : Nat) (program : Bytes) (c : σ) (budget : Int) :
    Option (EStateM.Result EvalStop (σ × Int) AvmResult) :=
  match checkCeiling program (ops.consensusLogicSigVersion c) with
  | .error e => some (.error (.error e) (c, budget))
  | .ok _ =>
    match onVersion program (fun version => checkPreSharedResourcesAccess version (ops.txnHasAccess c)) with
    | .error e => some (.error (.error e) (c, budget))
    | .ok _ =>
      match onVersion program (fun version => checkMinAvmVersion version (ops.minAvmVersion c)) with
      | .error e => some (.error (.error e) (c, budget))
      | .ok _ =>
        match parse program with
        | .error (.error e) => some (.error (.error e) (c, budget))
        | .error .panic => some (.error .panic (c, budget))
        | .ok parsed =>
          (run ops.handlers steps (Machine.new parsed .application budget, c)).map (approvalOutcome ops budget)

/-- Run a clear-state program.  It has a budget of its own and never fails. -/
def runClearStateProgram (steps : Nat) (program : Bytes) (c : σ) (consensus : ConsensusParams) :
    Option (EStateM.Result EvalStop σ AvmResult) :=
  match onVersion program (fun version => checkProgramVersionAllowed version consensus.logicSigVersion) with
  | .error _ => some (.ok AvmResult.empty c)
  | .ok _ =>
    match onVersion program (fun version => checkPreSharedResourcesAccess version (ops.txnHasAccess c)) with
    | .error _ => some (.ok AvmResult.empty c)
    | .ok _ =>
      match onVersion program (fun version => checkMinAvmVersion version (ops.minAvmVersion c)) with
      | .error _ => some (.ok AvmResult.empty c)
      | .ok _ =>
        match parse program with
        | .error (.error _) => some (.ok AvmResult.empty c)
        | .error .panic => some (.error .panic c)
        | .ok parsed =>
          (run ops.handlers steps (Machine.new parsed .application consensus.maxAppProgramCost, c)).map
            (clearStateOutcome ops)

/-- Run a LogicSig program. -/
def runLogicSigProgram (steps : Nat) (program : Bytes) (c : σ) (budget : Int) :
    Option (EStateM.Result EvalStop (σ × Int) Bool) :=
  match checkCeiling program (ops.consensusLogicSigVersion c) with
  | .error e => some (.error (.error e) (c, budget))
  | .ok _ =>
    match onVersion program (fun version => checkMinAvmVersion version (ops.minAvmVersion c)) with
    | .error e => some (.error (.error e) (c, budget))
    | .ok _ =>
      match parse program with
      | .error (.error e) => some (.error (.error e) (c, budget))
      | .error .panic => some (.error .panic (c, budget))
      | .ok parsed =>
        match staticCostCheck parsed budget with
        | .error e => some (.error (.error e) (c, budget))
        | .ok _ =>
          (run ops.handlers steps (Machine.new parsed .logicSig budget, c)).map
            (logicSigOutcome (ops.groupIndex c) budget)

end Outcomes

/-! ## With a tracer -/

section Traced

variable {σ τ : Type} (ops : AvmContext σ) (tracer : EvalTracer τ) (hash : Bytes → Bytes)

/-- The scratch slot that an instruction is about to write, read off before it runs. -/
def scratchWriteSlot (instr : Instruction) (stack : List AvmValue) : Option Nat :=
  if instr.opcode = 0x35 then
    match instr.immediates with
    | .uint8 slot => some slot.toNat
    | _ => none
  else if instr.opcode = 0x3f then
    match stack.dropLast.getLast? with
    | some (.uint n) => some n
    | _ => none
  else none

/-- The tracer learns of a failed instruction, with the stack and the scratch space it left. -/
def reporting {α : Type} (pc : Nat) (instr : Instruction) (x : EStateM AvmError ((Machine × σ) × τ) α) :
    EStateM AvmError ((Machine × σ) × τ) α :=
  Run.onFailure (fun e s t => tracer.afterOpcode pc instr.opcode s.1.data.stack s.1.data.scratch (some e) t) x

/-- Execute one instruction with a tracer. -/
def stepWithTracer (handlers : Handlers σ) : EStateM AvmError ((Machine × σ) × τ) Unit := do
  let s ← get
  if s.1.1.finished then throw .alreadyFinished
  else
    match s.1.1.program.instructions[s.1.1.pc]? with
    | none => Run.beside (onMachine finishImplicit)
    | some instr => do
      let oldPc := s.1.1.pc
      Run.beside (onMachine (recordHit instr))
      Run.observe (fun _ t => tracer.beforeOpcode oldPc instr.opcode t)
      reporting tracer oldPc instr (Run.beside (onMachine (checkArguments instr)))
      let slot := scratchWriteSlot instr s.1.1.data.stack
      reporting tracer oldPc instr (Run.beside (onMachine (chargeStatic instr)))
      reporting tracer oldPc instr (Run.beside (dispatch handlers instr))
      Run.observe (fun _ t => slot.elim t (fun slot => tracer.recordScratchWrite slot t))
      Run.observe (fun s t => tracer.afterOpcode oldPc instr.opcode s.1.data.stack s.1.data.scratch none t)
      Run.beside (onMachine (advanceFrom oldPc))

def runWithTracer (handlers : Handlers σ) :
    Nat → (Machine × σ) × τ → Option (EStateM.Result AvmError ((Machine × σ) × τ) Bool)
  | 0, s => if s.1.1.finished then some (.ok s.1.1.pass s) else none
  | steps + 1, s =>
    if s.1.1.finished then some (.ok s.1.1.pass s)
    else
      match stepWithTracer tracer handlers s with
      | .ok _ s' => runWithTracer handlers steps s'
      | .error e s' => some (.error e s')

/-- Attach what a tracer has recorded to an outcome. -/
def attach {ε ρ α : Type} (t : τ) : EStateM.Result ε ρ α → EStateM.Result ε (ρ × τ) α
  | .ok a s => .ok a (s, t)
  | .error e s => .error e (s, t)

/-- The tracer learns of a program that is refused before it runs. -/
def refused (type : ProgramType) (program : Bytes) (e : AvmError) (t : τ) : τ :=
  tracer.afterProgram type false (some e) (tracer.beforeProgram type (hash program) t)

/-- The tracer learns how a program ended.  Where the pool cannot pay for it, it does not. -/
def completed (type : ProgramType) (paid : Int → Bool) : EStateM.Result AvmError ((Machine × σ) × τ) Bool → τ
  | .ok pass ((m, _), t) =>
    if paid m.data.budget then tracer.recordProgramCost type m.data.cost (tracer.afterProgram type pass none t) else t
  | .error e ((m, _), t) => tracer.recordProgramCost type m.data.cost (tracer.afterProgram type false (some e) t)

/-- Run an approval program with a tracer. -/
def runApprovalProgramWithTracer (steps : Nat) (program : Bytes) (c : σ) (budget : Int) (t : τ) :
    Option (EStateM.Result EvalStop ((σ × Int) × τ) AvmResult) :=
  match checkCeiling program (ops.consensusLogicSigVersion c) with
  | .error e => some (.error (.error e) ((c, budget), refused tracer hash .approval program e t))
  | .ok _ =>
    match onVersion program (fun version => checkMinAvmVersion version (ops.minAvmVersion c)) with
    | .error e => some (.error (.error e) ((c, budget), refused tracer hash .approval program e t))
    | .ok _ =>
      match parse program with
      | .error (.error e) => some (.error (.error e) ((c, budget), refused tracer hash .approval program e t))
      | .error .panic => some (.error .panic ((c, budget), t))
      | .ok parsed =>
        (runWithTracer tracer ops.handlers steps
          ((Machine.new parsed .application budget, c), tracer.beforeProgram .approval (hash program) t)).map fun r =>
            attach (completed tracer .approval (fun left => (consume budget (budget - left)).toOption.isSome) r)
              (approvalOutcome ops budget (Run.erase r))

/-- Run a clear-state program with a tracer. -/
def runClearStateProgramWithTracer (steps : Nat) (program : Bytes) (c : σ) (consensus : ConsensusParams) (t : τ) :
    Option (EStateM.Result EvalStop (σ × τ) AvmResult) :=
  match onVersion program (fun version => checkProgramVersionAllowed version consensus.logicSigVersion) with
  | .error e => some (.ok AvmResult.empty (c, refused tracer hash .clearState program e t))
  | .ok _ =>
    match onVersion program (fun version => checkMinAvmVersion version (ops.minAvmVersion c)) with
    | .error e => some (.ok AvmResult.empty (c, refused tracer hash .clearState program e t))
    | .ok _ =>
      match parse program with
      | .error (.error e) => some (.ok AvmResult.empty (c, refused tracer hash .clearState program e t))
      | .error .panic => some (.error .panic (c, t))
      | .ok parsed =>
        (runWithTracer tracer ops.handlers steps
          ((Machine.new parsed .application consensus.maxAppProgramCost, c),
            tracer.beforeProgram .clearState (hash program) t)).map fun r =>
            attach (completed tracer .clearState (fun _ => true) r) (clearStateOutcome ops (Run.erase r))

/-- Run a LogicSig program with a tracer. -/
def runLogicSigProgramWithTracer (steps : Nat) (program : Bytes) (c : σ) (budget : Int) (t : τ) :
    Option (EStateM.Result EvalStop ((σ × Int) × τ) Bool) :=
  match checkCeiling program (ops.consensusLogicSigVersion c) with
  | .error e => some (.error (.error e) ((c, budget), refused tracer hash .logicSig program e t))
  | .ok _ =>
    match onVersion program (fun version => checkMinAvmVersion version (ops.minAvmVersion c)) with
    | .error e => some (.error (.error e) ((c, budget), refused tracer hash .logicSig program e t))
    | .ok _ =>
      match parse program with
      | .error (.error e) => some (.error (.error e) ((c, budget), refused tracer hash .logicSig program e t))
      | .error .panic => some (.error .panic ((c, budget), t))
      | .ok parsed =>
        match staticCostCheck parsed budget with
        | .error e => some (.error (.error e) ((c, budget), refused tracer hash .logicSig program e t))
        | .ok _ =>
          (runWithTracer tracer ops.handlers steps
            ((Machine.new parsed .logicSig budget, c), tracer.beforeProgram .logicSig (hash program) t)).map fun r =>
              attach (completed tracer .logicSig (fun left => (consume budget (budget - left)).toOption.isSome) r)
                (logicSigOutcome (ops.groupIndex c) budget (Run.erase r))

end Traced

end Avm
end Algod
