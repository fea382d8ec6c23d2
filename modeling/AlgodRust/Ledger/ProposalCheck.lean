import AlgodRust.Ledger.EvalBlock
import AlgodRust.Validate.Block
/-!
# ProposalCheck — the validator that agreement asks before it votes

A proposal is validated without the ledger first (`bridgeValidate`).  It is then evaluated over the committed ledger; an
evaluation that reaches no verdict is tried again while that may help, and in the end the duplicate checks that need no
execution decide, or nothing does and the proposal is accepted on the first validation alone.
-/
namespace Algod
namespace Ledger

open Validate (Env)

/-! ## The verdict of an evaluation -/

inductive Violation
  | payouts (v : PayoutViolation)
  | transaction (r : PrologueRejection)
deriving DecidableEq, Repr

inductive NoVerdictReason
  | evaluation (e : BlockError)
  | stale
  | ledgerBusy
  | ledgerPoisoned
  | ledgerBehind (current round : Round)
deriving DecidableEq, Repr

inductive ProposalCheck
  | valid
  | violation (v : Violation)
  | noVerdict (reason : NoVerdictReason) (transient : Bool)
deriving DecidableEq, Repr

/-- What the evaluation of a proposal is asked for: the payouts and the duplicate checks. -/
def proposalCheckProbe : ProbeRequest where
  skipEpilogue := false
  poolWithdrawn := false
  generate := false
  validatePayouts := true
  checkDup := true
  blockDups := .new

/-- A rejection of a payout, or of the transaction the evaluation failed on, is a verdict; any other failure is none. -/
def proposalCheckFrom (result : Except BlockError EvalState) : ProposalCheck :=
  match result with
  | .ok _ => .valid
  | .error (.txn _ (.prologue r)) => .violation (.transaction r)
  | .error (.payout v) => .violation (.payouts v)
  | .error e => .noVerdict (.evaluation e) false

def Prepass.violation? : Prepass → Option Rejection
  | .violation r => some r
  | _ => none

def withProloguePrepass (check : ProposalCheck) (prepass : Option Rejection) : ProposalCheck :=
  match check, prepass with
  | .noVerdict _ _, some r => .violation (.transaction (.rejected r))
  | check, _ => check

/-- The leases of a fresh overlay are none. -/
def Store.overlay (s : Store) : Store := { s with tail := { s.tail with leases := .new } }

/-- What happens to the ledger while an evaluation reads it without holding its lock. -/
inductive DuringEval
  | steady
  | movedBeforeVerdict
  | movedBeforePrepass
  | poisoned
deriving DecidableEq, Repr

section Check

variable (env : Env) (txid : Transaction → Digest) (ext : GroupInfo → Externals) (blockExt : BlockExternals)

/-- Evaluate a block on a fresh overlay over `base`. -/
def evaluateBlockOnOverlay (base : Store) (block : Block) : Except BlockError EvalState :=
  applyBlockImpl env.protocols txid ext blockExt (.overlay base.tail) false proposalCheckProbe base.overlay block

/-- **The check of a proposal** against the committed store `base`.  A ledger that moved while it was read makes the
result void, and the duplicate checks are then not run. -/
def evaluateProposalCheck (base : Store) (during : DuringEval) (block : Block) : ProposalCheck :=
  if during = .movedBeforeVerdict ∨ block.round ≠ base.currentRound + 1 then .noVerdict .stale true
  else
    let check := proposalCheckFrom (evaluateBlockOnOverlay env txid ext blockExt base block)
    if during = .movedBeforePrepass then check
    else withProloguePrepass check (prologuePrepass env.protocols txid base.tail block).violation?

/-! ## Attempts -/

/-- What trying the ledger's lock finds. -/
inductive LockTry
  | busy
  | poisoned
  | free (s : Store) (during : DuringEval)

inductive Attempt
  | verdict (v : Option Violation)
  | noVerdict (reason : NoVerdictReason) (retry : Bool)
deriving DecidableEq, Repr

/-- One attempt.  A round at or below the committed one is settled. -/
def attempt (block : Block) : LockTry → Attempt
  | .busy => .noVerdict .ledgerBusy true
  | .poisoned => .noVerdict .ledgerPoisoned false
  | .free s during =>
    let current := s.currentRound
    if block.round ≤ current then .verdict none
    else if block.round > current + 1 then .noVerdict (.ledgerBehind current block.round) true
    else
      let check := evaluateProposalCheck env txid ext blockExt s during block
      if during = .poisoned then .noVerdict .ledgerPoisoned false
      else
        match check with
        | .valid => .verdict none
        | .violation v => .verdict (some v)
        | .noVerdict reason transient => .noVerdict reason transient

/-- The block's own duplicates, without the ledger. -/
def blockDupsFrom (consensus : ConsensusParams) (rule : GenesisRestoreRule) (round : Round) :
    BlockDups → List (SignedTransaction × Digest) → Except Rejection Unit
  | _, [] => .ok ()
  | block, (stx, id) :: rest => do
    alive round consensus rule stx
    let _ ← block.check consensus stx.txn id round
    blockDupsFrom consensus rule round (block.record stx.txn id) rest

def blockDupsPrepass (block : Block) : Prepass :=
  match env.protocols block.currentProtocol with
  | none => .couldNotRun (.unknownProtocol block.currentProtocol)
  | some consensus =>
    let rule := GenesisRestoreRule.forParams consensus block
    match rule.checkPayset 0 block.payset with
    | .error e => .couldNotRun (.notStripped e.1 e.2)
    | .ok _ =>
      match blockDupsFrom consensus rule block.round .new (block.payset.zip (paysetTxidsWithRule txid block.payset rule)) with
      | .error r => .violation r
      | .ok _ => .clean

/-- The last resort: the duplicate checks against the ledger where it is free and at the parent round, otherwise the
block's own. -/
def lastResortPrepass (block : Block) (lock : LockTry) : Option Rejection :=
  match lock with
  | .free s _ =>
    if s.currentRound + 1 = block.round then
      match prologuePrepass env.protocols txid s.tail block with
      | .violation r => some r
      | .clean => none
      | .couldNotRun _ => (blockDupsPrepass env txid block).violation?
    else (blockDupsPrepass env txid block).violation?
  | _ => (blockDupsPrepass env txid block).violation?

/-- The attempts within the budget, and the try of the lock at its end.  It returns the violation that rejects. -/
def ledgerVerdict (block : Block) (last : LockTry) : List LockTry → Option Violation
  | [] => (lastResortPrepass env txid block last).map (fun r => .transaction (.rejected r))
  | lock :: rest =>
    match attempt env txid ext blockExt block lock with
    | .verdict v => v
    | .noVerdict _ retry =>
      if retry && !rest.isEmpty then ledgerVerdict block last rest
      else (lastResortPrepass env txid block last).map (fun r => .transaction (.rejected r))

/-! ## The validator -/

/-- What the stateless validator is built with. -/
structure BlockValidatorBridge where
  genesisId : String
  genesisHash : Bytes32
  prevTimestamp : Option Int

inductive AgreementError
  | validationFailed (errors : List Validate.BlockValidationError)
  | violation (v : Violation)
deriving DecidableEq, Repr

/-- There are no raw payset entries in the agreement path. -/
def bridgeValidate (bridge : BlockValidatorBridge) (block : Block) : Except AgreementError Unit :=
  let result := Validate.validateBlock env bridge.prevTimestamp bridge.genesisId bridge.genesisHash none block
  if result.isValid then .ok () else .error (.validationFailed result.errors)

/-- **The validator that the node hands to agreement.**  `tries` are the attempts its time allows, at least one. -/
def agreementBlockValidator (bridge : BlockValidatorBridge) (tries : List LockTry) (last : LockTry) (block : Block) :
    Except AgreementError Unit := do
  bridgeValidate env bridge block
  match ledgerVerdict env txid ext blockExt block last tries with
  | some v => .error (.violation v)
  | none => .ok ()

/-- The validator accepts exactly the blocks that pass the enforced checks and that no verdict over the ledger rejects. -/
theorem agreementBlockValidator_eq_ok {bridge : BlockValidatorBridge} {tries : List LockTry} {last : LockTry}
    {block : Block} :
    agreementBlockValidator env txid ext blockExt bridge tries last block = .ok () ↔
      Validate.Enforced env bridge.prevTimestamp bridge.genesisId bridge.genesisHash block ∧
        ledgerVerdict env txid ext blockExt block last tries = none := by
  unfold agreementBlockValidator bridgeValidate
  rw [Run.bind_eq_ok, ← Validate.validateBlock_isValid]
  constructor
  · rintro ⟨_, hb, hv⟩
    simp only at hb
    split at hb
    · rename_i hvalid
      split at hv
      · cases hv
      · rename_i hnone
        exact ⟨hvalid, hnone⟩
    · cases hb
  · rintro ⟨hvalid, hnone⟩
    refine ⟨(), ?_, ?_⟩
    · simp only [hvalid, if_true]
    · rw [hnone]

end Check

end Ledger
end Algod
