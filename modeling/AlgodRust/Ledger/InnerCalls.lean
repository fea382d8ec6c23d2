import AlgodRust.Avm.Eval
import AlgodRust.Ledger.Applications
import AlgodRust.Validate.Fee
/-!
# InnerCalls — a group of application calls and the transactions their programs issue

The calls of a group run in order on one budget, one fee credit, one fee residue and one allowance of inner
transactions.  A program builds a group of transactions and submits it; each transaction of it is performed in turn,
and one that calls an application runs another program before the first one goes on.  What is shared goes into the
context of the called program and comes back from it when it returns.  `GroupRun.next` is one step of this: an
instruction of the program on top, the start of a call, a transaction of a submitted group, or the end of any of them.

What the transactions do to the ledger, the checks that do not read what is shared, and every opcode but the four that
build and submit are the fields of `Surroundings`.
-/
namespace Algod
namespace Ledger

open Msgpack (Bytes)
open Avm (AvmError AvmValue Data ExecMode Handlers Instruction Machine ProgramType)
open Validate (feeForUsage feesPaid oneMicros summarizeFees)

def maxAppCallDepth : Nat := 8
def appBudgetPerCall : Nat := 700
def i64Bound : Nat := 2 ^ 63

/-- The budget of a group with a number of application calls. -/
def groupBudgetNew (numAppCalls : Nat) : Int := min (appBudgetPerCall * numAppCalls) (i64Bound - 1)

/-! ## Contexts -/

/-- A submitted group: what it uses and owes, the transactions that were performed and those still to come. -/
structure Submission where
  usage : Nat
  required : Nat
  done : List SignedTransaction
  todo : List SignedTransaction

/-- What the context of a program holds for inner transactions, and the rest of it. -/
structure InnerContext (ρ : Type) where
  rest : ρ
  stx : SignedTransaction
  groupLen : Nat
  depth : Nat
  appAddress : Address
  feeCredit : Nat
  feeResidue : Nat
  opcodeBudget : Int
  pooledInners : Option Nat
  innerBuilding : List SignedTransaction
  innerTxns : List (List SignedTransaction)
  submission : Option Submission

def SignedTransaction.clearsState (stx : SignedTransaction) : Bool := stx.txn.onCompletion == onCompletionClearState

structure Surroundings (ρ : Type) where
  /-- The opcodes that neither control the flow nor build or submit transactions. -/
  handle : ExecMode → Nat → Instruction → InnerContext ρ → EStateM AvmError (Data × ρ) Unit
  /-- The transaction with a field set, where the version allows it and the value fits. -/
  setField : InnerContext ρ → Nat → Instruction → AvmValue → SignedTransaction → Except AvmError SignedTransaction
  /-- Reentrancy, and the existence and the versions of the programs of a called application. -/
  checkCall : InnerContext ρ → SignedTransaction → Except AvmError Unit
  /-- The sender may send it; its rewards, its fee, its new key and the counter of transactions. -/
  prepare : InnerContext ρ → SignedTransaction → Except AvmError (SignedTransaction × ρ)
  /-- A transaction that calls no application. -/
  perform : InnerContext ρ → SignedTransaction → Except AvmError (SignedTransaction × ρ)
  /-- Before the program of a called application: it is created or joined. -/
  enter : InnerContext ρ → SignedTransaction → Except AvmError (SignedTransaction × ρ)
  /-- The program of a call and the address of its application. -/
  load : ρ → SignedTransaction → Except AvmError (Bytes × Address)
  /-- The checks of a program's version. -/
  screen : ProgramType → InnerContext ρ → Bytes → Except AvmError Unit
  /-- After the program of a called application, with the caller's context, its own, and whether it approved. -/
  leave : InnerContext ρ → InnerContext ρ → Bool → Except AvmError (SignedTransaction × ρ)
  /-- The same for calls that stand in the group. -/
  enterOuter : ρ → SignedTransaction → Except AvmError ρ
  leaveOuter : ρ → InnerContext ρ → Bool → Except AvmError ρ

section Context

variable {ρ : Type} (env : Surroundings ρ) (consensus : ConsensusParams)

namespace InnerContext

/-- How many inner transactions may still be submitted. -/
def remainingInners (ctx : InnerContext ρ) : Nat :=
  let unpooled := consensus.maxInnerTransactions * ctx.groupLen - (ctx.innerTxns.map List.length).sum
  if consensus.enableInnerTransactionPooling then ctx.pooledInners.getD unpooled else unpooled

/-- A transaction without a sender is sent by the application. -/
def withSender (ctx : InnerContext ρ) (stx : SignedTransaction) : SignedTransaction :=
  if stx.txn.sender = .zero then { stx with txn := { stx.txn with sender := ctx.appAddress } } else stx

/-- A transaction as it is submitted: it is valid while the calling one is. -/
def complete (ctx : InnerContext ρ) (stx : SignedTransaction) : SignedTransaction :=
  let stx := ctx.withSender stx
  { stx with txn := { stx.txn with firstValid := ctx.stx.txn.firstValid, lastValid := ctx.stx.txn.lastValid } }

end InnerContext

def feeSaturation : AvmError := .other "inner group fee saturation"

def tooManyInners (count left : Nat) : AvmError :=
  .other ("too many inner transactions " ++ toString count ++ " with " ++ toString left ++ " left")

/-- Add a transaction to the group that is being built.  Its fee is what the group still owes with it. -/
def pushInnerBuilder (ctx : InnerContext ρ) : Except AvmError (InnerContext ρ) :=
  let sums := summarizeFees (ctx.innerBuilding.map ctx.withSender) consensus
  let fee := feeForUsage consensus.minTxnFee (satAdd sums.1 oneMicros) oneMicros ctx.feeResidue
  if fee.2.2 then .error feeSaturation
  else
    let defaultFee := if sums.2 < fee.1 then fee.1 - sums.2 - ctx.feeCredit else 0
    let stx : SignedTransaction := { (default : SignedTransaction) with
      txn := { (default : Transaction) with fee := defaultFee } }
    .ok { ctx with innerBuilding := ctx.innerBuilding ++ [stx] }

def itxnBegin (ctx : InnerContext ρ) : Except AvmError (InnerContext ρ) :=
  if !ctx.innerBuilding.isEmpty then .error (.other "itxn_begin without itxn_submit")
  else if ctx.stx.clearsState then .error (.other "clear state programs can not issue inner transactions")
  else pushInnerBuilder consensus ctx

def itxnNext (ctx : InnerContext ρ) : Except AvmError (InnerContext ρ) :=
  let count := ctx.innerBuilding.length
  if ctx.innerBuilding.isEmpty then .error (.other "itxn_next without itxn_begin")
  else if count ≥ consensus.maxTxGroupSize then .error (tooManyInners count (ctx.remainingInners consensus))
  else if count > ctx.remainingInners consensus then .error (tooManyInners count (ctx.remainingInners consensus))
  else pushInnerBuilder consensus ctx

/-- Set a field of the last transaction that is being built. -/
def itxnField (version : Nat) (instr : Instruction) (d : Data) (ctx : InnerContext ρ) :
    Except AvmError (Data × InnerContext ρ) :=
  match d.stack.getLast?, ctx.innerBuilding.getLast? with
  | none, _ => .error (.stackUnderflow instr.name)
  | some _, none => .error (.other "itxn_field: no inner txn being built")
  | some value, some stx =>
    match env.setField ctx version instr value stx with
    | .error e => .error e
    | .ok stx =>
      .ok ({ d with stack := d.stack.dropLast }, { ctx with innerBuilding := ctx.innerBuilding.dropLast ++ [stx] })

/-- What a group owes, and the credit and the residue it leaves. -/
structure FeeCharge where
  usage : Nat
  required : Nat
  credit : Nat
  residue : Nat
deriving DecidableEq, Repr

/-- The fee of a group is paid by its transactions and, where they pay too little, from the credit. -/
def chargeFees (credit residue : Nat) (txns : List SignedTransaction) : Except AvmError FeeCharge :=
  let sums := summarizeFees txns consensus
  let fee := feeForUsage consensus.minTxnFee sums.1 oneMicros residue
  if fee.2.2 then .error feeSaturation
  else if sums.2 < fee.1 then
    if credit < fee.1 - sums.2 then
      .error (.other ("group fee " ++ toString sums.2 ++ " too small (needs " ++
        toString (fee.1 - sums.2 - credit) ++ " more)"))
    else .ok ⟨sums.1, fee.1, credit - (fee.1 - sums.2), fee.2.1⟩
  else .ok ⟨sums.1, fee.1, satAdd credit (sums.2 - fee.1), fee.2.1⟩

def innerTypes : List String := ["pay", "axfer", "acfg", "afrz", "keyreg"]

/-- Only some types can be submitted, and calls nest only so deep. -/
def checkInner (ctx : InnerContext ρ) (stx : SignedTransaction) : Except AvmError Unit :=
  if innerTypes.any stx.txn.txnType.is then .ok ()
  else if stx.txn.txnType.is "appl" then
    if ctx.depth ≥ maxAppCallDepth then .error (.other ("appl depth (" ++ toString ctx.depth ++ ") exceeded"))
    else env.checkCall ctx stx
  else .error (.other ("unsupported inner transaction type: " ++ stx.txn.txnType.asStr))

/-- Submit the group that was built, up to its first transaction. -/
def itxnSubmit (ctx : InnerContext ρ) : Except AvmError (InnerContext ρ) :=
  let count := ctx.innerBuilding.length
  if ctx.innerBuilding.isEmpty then .error (.other "itxn_submit without itxn_begin")
  else if count > ctx.remainingInners consensus ∨ count > consensus.maxTxGroupSize then
    .error (tooManyInners count (ctx.remainingInners consensus))
  else do
    let txns := ctx.innerBuilding.map ctx.complete
    let charge ← chargeFees consensus ctx.feeCredit ctx.feeResidue txns
    let ctx := { ctx with
      innerBuilding := []
      pooledInners := ctx.pooledInners.map (fun left => left - count)
      feeCredit := charge.credit
      feeResidue := charge.residue }
    txns.forM (checkInner env ctx)
    .ok { ctx with submission := some ⟨charge.usage, charge.required, [], txns⟩ }

/-- A computation on the machine's data and the context that fails without a trace. -/
def orFail {α : Type} (s : α) : Except AvmError α → EStateM.Result AvmError α Unit
  | .ok s' => .ok () s'
  | .error e => .error e s

/-- The opcodes, with those that build and submit transactions. -/
def innerHandlers : Handlers (InnerContext ρ) where
  handle mode version instr := fun s =>
    match instr.opcode.toNat with
    | 0xb1 => orFail s ((itxnBegin consensus s.2).map (fun ctx => (s.1, ctx)))
    | 0xb2 => orFail s (itxnField env version instr s.1 s.2)
    -- the group is performed in the steps that follow, and the budget is read back after the last one
    | 0xb3 => orFail s ((itxnSubmit env consensus { s.2 with opcodeBudget := s.1.budget }).map (fun ctx => (s.1, ctx)))
    | 0xb6 => orFail s ((itxnNext consensus s.2).map (fun ctx => (s.1, ctx)))
    | _ => Run.zoom (fun s : Data × InnerContext ρ => (s.1, s.2.rest)) (fun t s => (t.1, { s.2 with rest := t.2 }))
        (env.handle mode version instr s.2) s

end Context

/-! ## Steps -/

/-- A program that runs, with its context and the budget it was started on. -/
structure Frame (ρ : Type) where
  machine : Machine
  ctx : InnerContext ρ
  groupBudget : Int

def Frame.clears {ρ : Type} (f : Frame ρ) : Bool := f.ctx.stx.clearsState

/-- A group that was submitted, as it was charged. -/
structure GroupCharge where
  txns : List SignedTransaction
  usage : Nat
  required : Nat
  /-- Whether the sum of the fees or the credit was cut off at 64 bits. -/
  saturated : Bool

/-- A group of application calls that is being run: what its calls share, the calls still to come and the programs that
run, the one on top first.  The last three fields record what happened: what approval programs were charged, how many
inner calls of them were started, and the groups that were submitted. -/
structure GroupRun (ρ : Type) where
  rest : ρ
  pool : Int
  feeCredit : Nat
  feeResidue : Nat
  pooledInners : Option Nat
  groupLen : Nat
  calls : List SignedTransaction
  frames : List (Frame ρ)
  charged : Int
  started : Nat
  groups : List GroupCharge

section Step

variable {ρ : Type} (env : Surroundings ρ) (consensus : ConsensusParams)

/-- The machine of a call.  A clear-state program has a budget of its own, and where it is refused it does not run. -/
def startProgram (ctx : InnerContext ρ) (program : Bytes) (budget : Int) : Except AvmError (Option (Frame ρ)) :=
  if ctx.stx.clearsState then
    match env.screen .clearState ctx program with
    | .error _ => .ok none
    | .ok _ =>
      match Avm.parse program with
      | .error (.error _) => .ok none
      | .error .panic => .error (.other "panic")
      | .ok parsed => .ok (some ⟨Machine.new parsed .application consensus.maxAppProgramCost, ctx, budget⟩)
  else
    match env.screen .approval ctx program with
    | .error e => .error e
    | .ok _ =>
      match Avm.parse program with
      | .error (.error e) => .error e
      | .error .panic => .error (.other "panic")
      | .ok parsed => .ok (some ⟨Machine.new parsed .application budget, ctx, budget⟩)

/-- What a program leaves of the budget it was started on, where it may end so. -/
def remainingBudget (f : Frame ρ) (approved : Bool) : Except AvmError Int :=
  if f.clears then .ok f.groupBudget
  else if approved then Avm.consume f.groupBudget (f.groupBudget - f.machine.data.budget)
  else .error (.other "program rejected")

namespace GroupRun

def outerContext (g : GroupRun ρ) (rest : ρ) (stx : SignedTransaction) (appAddress : Address) : InnerContext ρ where
  rest := rest
  stx := stx
  groupLen := g.groupLen
  depth := 0
  appAddress := appAddress
  feeCredit := g.feeCredit
  feeResidue := g.feeResidue
  opcodeBudget := 0
  pooledInners := g.pooledInners
  innerBuilding := []
  innerTxns := []
  submission := none

/-- The end of a call that stands in the group. -/
def endOuter (g : GroupRun ρ) (ctx : InnerContext ρ) (pool : Int) (approved : Bool) : Except AvmError (GroupRun ρ) := do
  let rest ← env.leaveOuter g.rest ctx approved
  return { g with
    rest := rest
    pool := pool
    feeCredit := ctx.feeCredit
    feeResidue := ctx.feeResidue
    pooledInners := ctx.pooledInners
    frames := [] }

/-- The start of a call that stands in the group.  A clear-state program that is empty does not run. -/
def startOuter (g : GroupRun ρ) (stx : SignedTransaction) (calls : List SignedTransaction) :
    Except AvmError (GroupRun ρ) := do
  let rest ← env.enterOuter g.rest stx
  let loaded ← env.load rest stx
  let ctx := g.outerContext rest stx loaded.2
  let g := { g with rest := rest, calls := calls }
  if stx.clearsState ∧ loaded.1.isEmpty then endOuter env g ctx g.pool false
  else
    match startProgram env consensus ctx loaded.1 g.pool with
    | .error e => .error e
    | .ok none => endOuter env g ctx g.pool false
    | .ok (some f) => .ok { g with frames := [f] }

def innerContext (caller : InnerContext ρ) (sub : Submission) (rest : ρ) (stx : SignedTransaction) (appAddress : Address) :
    InnerContext ρ where
  rest := rest
  stx := stx
  groupLen := sub.done.length + sub.todo.length
  depth := caller.depth + 1
  appAddress := appAddress
  feeCredit := caller.feeCredit
  feeResidue := caller.feeResidue
  opcodeBudget := 0
  pooledInners := caller.pooledInners
  innerBuilding := []
  innerTxns := []
  submission := none

/-- The end of a call that a program made, back in the context of that program. -/
def endInner (caller : Frame ρ) (ctx : InnerContext ρ) (sub : Submission) (budget : Int) (approved : Bool) :
    Except AvmError (Frame ρ) := do
  let left ← env.leave caller.ctx ctx approved
  return { caller with ctx := { caller.ctx with
    rest := left.2
    opcodeBudget := budget
    feeCredit := ctx.feeCredit
    feeResidue := ctx.feeResidue
    pooledInners := ctx.pooledInners
    submission := some { sub with done := sub.done ++ [left.1] } } }

/-- What a transaction records does not change what it is. -/
def recorded (stx stx' : SignedTransaction) : SignedTransaction := { stx' with txn := stx.txn }

/-- The start of a call that a program makes. -/
def startInner (g : GroupRun ρ) (caller : Frame ρ) (frames : List (Frame ρ)) (sub : Submission) (stx : SignedTransaction)
    (todo : List SignedTransaction) : Except AvmError (GroupRun ρ) := do
  let entered ← env.enter caller.ctx stx
  let stx := recorded stx entered.1
  if stx.clearsState ∧ caller.ctx.opcodeBudget < consensus.maxAppProgramCost then
    .error (.other ("attempted ClearState execution with low OpcodeBudget " ++ toString caller.ctx.opcodeBudget))
  else
    let loaded ← env.load entered.2 stx
    let budget := if stx.clearsState then caller.ctx.opcodeBudget
      else caller.ctx.opcodeBudget + consensus.maxAppProgramCost
    let ctx := innerContext caller.ctx sub entered.2 stx loaded.2
    let sub := { sub with todo := todo }
    let caller := { caller with ctx := { caller.ctx with rest := entered.2, opcodeBudget := budget, submission := some sub } }
    match startProgram env consensus ctx loaded.1 budget with
    | .error e => .error e
    | .ok none =>
      match endInner env caller ctx sub budget false with
      | .error e => .error e
      | .ok caller => .ok { g with frames := caller :: frames }
    | .ok (some f) => .ok { g with
        frames := f :: caller :: frames
        started := if stx.clearsState then g.started else g.started + 1 }

/-- The next transaction of a submitted group. -/
def performNext (g : GroupRun ρ) (f : Frame ρ) (frames : List (Frame ρ)) (sub : Submission) (stx : SignedTransaction)
    (todo : List SignedTransaction) : Except AvmError (GroupRun ρ) := do
  let prepared ← env.prepare f.ctx stx
  let stx := recorded stx prepared.1
  let f := { f with ctx := { f.ctx with rest := prepared.2 } }
  if stx.txn.txnType.is "appl" then startInner env consensus g f frames sub stx todo
  else
    let performed ← env.perform f.ctx stx
    return { g with frames := { f with ctx := { f.ctx with
      rest := performed.2
      submission := some { sub with done := sub.done ++ [performed.1], todo := todo } } } :: frames }

/-- After the last transaction of a group the program goes on with what is left of the budget. -/
def finishSubmit (g : GroupRun ρ) (f : Frame ρ) (frames : List (Frame ρ)) (sub : Submission) : GroupRun ρ :=
  { g with frames := { f with
      machine := { f.machine with data := { f.machine.data with budget := f.ctx.opcodeBudget } }
      ctx := { f.ctx with innerTxns := f.ctx.innerTxns ++ [sub.done], submission := none } } :: frames }

/-- The end of a program. -/
def endProgram (g : GroupRun ρ) (f : Frame ρ) (frames : List (Frame ρ)) (approved : Bool) : Except AvmError (GroupRun ρ) :=
  match remainingBudget f approved with
  | .error e => .error e
  | .ok budget =>
    match frames with
    | [] => endOuter env g f.ctx budget approved
    | caller :: frames =>
      match caller.ctx.submission with
      | none => .error (.other "panic")
      | some sub =>
        match endInner env caller f.ctx sub budget approved with
        | .error e => .error e
        | .ok caller => .ok { g with frames := caller :: frames }

/-- The sum of the fees or the credit is cut off. -/
def saturates (credit required : Nat) (txns : List SignedTransaction) : Bool :=
  decide (feesPaid txns ≥ u64Bound) || decide (credit + (feesPaid txns - required) ≥ u64Bound)

/-- After an instruction: what the program was charged, and the group it submitted. -/
def afterStep (g : GroupRun ρ) (f : Frame ρ) (frames : List (Frame ρ)) (machine : Machine) (ctx : InnerContext ρ) :
    GroupRun ρ :=
  { g with
    frames := { f with machine := machine, ctx := ctx } :: frames
    charged := if f.clears then g.charged else g.charged + (f.machine.data.budget - machine.data.budget)
    groups := match ctx.submission with
      | none => g.groups
      | some sub => g.groups ++ [⟨sub.todo, sub.usage, sub.required, saturates f.ctx.feeCredit sub.required sub.todo⟩] }

/-- An instruction of the program on top.  A clear-state program that fails just ends. -/
def stepProgram (g : GroupRun ρ) (f : Frame ρ) (frames : List (Frame ρ)) : Except AvmError (GroupRun ρ) :=
  match Avm.step (innerHandlers env consensus) (f.machine, f.ctx) with
  | .ok _ s => .ok (afterStep g f frames s.1 s.2)
  | .error e s => if f.clears then endProgram env g { f with machine := s.1, ctx := s.2 } frames false else .error e

/-- **One step of a group of calls**, and nothing where all of them are done. -/
def next (g : GroupRun ρ) : Option (Except AvmError (GroupRun ρ)) :=
  match g.frames with
  | [] =>
    match g.calls with
    | [] => none
    | stx :: calls => some (startOuter env consensus g stx calls)
  | f :: frames =>
    match f.ctx.submission with
    | some sub =>
      match sub.todo with
      | [] => some (.ok (finishSubmit g f frames sub))
      | stx :: todo => some (performNext env consensus g f frames sub stx todo)
    | none => if f.machine.finished then some (endProgram env g f frames f.machine.pass) else some (stepProgram env consensus g f frames)

/-- Run the calls to the end, or to the first failure, if as many steps are enough. -/
def run : Nat → GroupRun ρ → Option (Except AvmError (GroupRun ρ))
  | 0, g => if (g.next env consensus).isNone then some (.ok g) else none
  | steps + 1, g =>
    match g.next env consensus with
    | none => some (.ok g)
    | some (.error e) => some (.error e)
    | some (.ok g') => run steps g'

end GroupRun

end Step

end Ledger
end Algod
