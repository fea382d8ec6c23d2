import AlgodRust.Ledger.Types
import AlgodRust.Lib.FinMap
import Mathlib.Data.Finset.Basic
/-!
# TransactionPool — the groups that wait for a block

The pool keeps the groups it has accepted in two forms: the list of the groups in order, and the index of their
transactions by id.  A group is first put into a pair of buffers; `rememberCommit` appends the buffers to the pending
groups, or replaces the pending groups by them after the evaluator was rebuilt and has judged them again.

Evaluator and ledger are given by what the pool asks of them.  A call comes with the ledger as it finds it and the time;
calls are taken one after another, so that a wait for a new block, or for an assembled one, ends with its time.
-/
namespace Algod
namespace Pool

open Ledger (Block BlockHeader SignedTransaction Transaction TxnType)

abbrev Group := List SignedTransaction

/-! ## Errors -/

/-- What evaluation recorded where a program failed. -/
structure AvmErrorDetail where
  pc : Nat
  groupIndex : Nat
  appIndex : Option Nat
deriving DecidableEq, Repr

inductive VerifyKind
  | notWell
  | groupId
  | tooLarge
  | other
deriving DecidableEq, Repr

inductive FramedKind
  | minBalance
  | other
deriving DecidableEq, Repr

inductive RejectClass
  | other
  | tealReject
  | tealErr
  | txidInLedger (inBlock : Bool)
  | leaseInLedger (inBlock : Bool)
  | alive
  | minBalance
  | groupId
  | tooLarge
  | notWell
  | verify (kind : VerifyKind)
  | framed (kind : FramedKind)
deriving DecidableEq, Repr

/-- An error of the evaluator or the ledger.  Of the kinds the pool does not tell apart only the text is kept, and the
diagnostics found along its sources. -/
inductive AlgoError
  | validation (message : String)
  | ledger (message : String)
  | rejected (message : String) (cls : RejectClass) (detail : Option AvmErrorDetail)
  | other (text : String) (detail : Option AvmErrorDetail)
deriving DecidableEq, Repr

namespace AlgoError

def display : AlgoError → String
  | .validation message => "validation error: " ++ message
  | .ledger message => "ledger error: " ++ message
  | .rejected message _ _ => message
  | .other text _ => text

def batchHasFailedSigs : String := "At least one signature didn't pass verification"

def isBatchSigFailure : AlgoError → Bool
  | .validation message => message == batchHasFailedSigs
  | _ => false

def avmEvalDetail : AlgoError → Option AvmErrorDetail
  | .rejected _ _ detail => detail
  | .other _ detail => detail
  | _ => none

end AlgoError

inductive PoolError
  | pendingQueueFull
  | noPendingBlockEvaluator
  | nodeCatchingUp
  | evaluatorRebuildFailed (message : String)
  | staleBlockAssemblyRequest
  | feeBelowThreshold (fee feeThreshold feePerByte encodedLen : Nat)
  | poolShutdown
  | inBlockOnlyField (index : Nat) (field : String)
  | duplicateTxn (id : Digest)
  | alreadyInLedger (id : Digest)
  | evaluator (message : String)
  | evaluatorWithDetail (message : String) (detail : AvmErrorDetail)
  | txnRejected (message : String) (cls : RejectClass) (detail : Option AvmErrorDetail)
  | signatureBatchFailed
  | remember (inner : PoolError)
deriving DecidableEq, Repr

/-- The digits of a number, five bits each, the highest first. -/
def base32Digits : Nat → Nat → List Char
  | 0, _ => []
  | k + 1, n => base32Digits k (n / 32) ++ ["ABCDEFGHIJKLMNOPQRSTUVWXYZ234567".toList.getD (n % 32) 'A']

/-- A digest in base 32: four zero bits follow its 256. -/
def digestText (id : Digest) : String := String.ofList (base32Digits 52 (16 * id.bytes.toNat))

def PoolError.display : PoolError → String
  | .pendingQueueFull => "TransactionPool.checkPendingQueueSize: transaction pool have reached capacity"
  | .noPendingBlockEvaluator => "TransactionPool.ingest: no pending block evaluator"
  | .nodeCatchingUp => "TransactionPool: node is catching up"
  | .evaluatorRebuildFailed message => "TransactionPool: cannot rebuild the block evaluator: " ++ message
  | .staleBlockAssemblyRequest =>
    "AssembleBlock: requested block assembly specified a round that is older than current transaction pool round"
  | .feeBelowThreshold fee threshold perByte length =>
    "fee " ++ toString fee ++ " below threshold " ++ toString threshold ++ " (" ++ toString perByte ++ " per byte * " ++
      toString length ++ " bytes)"
  | .poolShutdown => "transaction pool is shutting down"
  | .inBlockOnlyField index field =>
    "TransactionPool.Remember: txn " ++ toString index ++ ": Unknown field: " ++ field
  | .duplicateTxn id => "transaction already in the pool: " ++ digestText id
  | .alreadyInLedger id => "transaction already in ledger: " ++ digestText id
  | .evaluator message => "TransactionPool.ingest: " ++ message
  | .evaluatorWithDetail message _ => "TransactionPool.ingest: " ++ message
  | .txnRejected message _ _ => message
  | .signatureBatchFailed => AlgoError.batchHasFailedSigs
  | .remember inner => "TransactionPool.Remember: " ++ inner.display

def poolErrorFromEvaluator (e : AlgoError) : PoolError :=
  if e.isBatchSigFailure then .signatureBatchFailed
  else
    match e with
    | .rejected _ cls _ => .txnRejected e.display cls e.avmEvalDetail
    | _ =>
      match e.avmEvalDetail with
      | some detail => .evaluatorWithDetail e.display detail
      | none => .evaluator e.display

/-! ## What the pool asks of others -/

/-- What the pool asks of an evaluator.  A group may change the evaluator also where it is refused. -/
structure BlockEvaluator (ε : Type) where
  round : ε → Round
  testTransactionGroup : ε → Group → Except AlgoError Unit
  transactionGroup : ε → Group → Except AlgoError Unit × ε
  generateBlock : ε → Except AlgoError Block × ε
  resetTxnBytes : ε → ε
  checksDuplicates : ε → Bool

/-- What the pool asks of the ledger. -/
structure PoolLedger (ε : Type) where
  latest : Round
  blockHdr : Round → Except AlgoError BlockHeader
  startEvaluator : BlockHeader → Nat → Nat → Except AlgoError ε
  containsConfirmedTxid : Digest → Bool

/-- The ledger and the time, in milliseconds, of a call. -/
structure Moment (ε : Type) where
  ledger : PoolLedger ε
  now : Nat

/-- The id of a transaction, and the length of the encoding of a signed one. -/
structure TxnEncoding where
  computeTxnId : Transaction → Digest
  encodedLen : SignedTransaction → Nat

structure PoolConfig where
  poolSize : Nat
  exponentialIncreaseFactor : Nat
  proposalAssemblyTime : Nat

/-! ## Status cache -/

structure StatusCache where
  cur : FinMap Digest String
  prev : Option (FinMap Digest String)
  capacity : Nat

namespace StatusCache

def new (capacity : Nat) : StatusCache := ⟨∅, none, capacity⟩

def check (c : StatusCache) (id : Digest) : Option String :=
  match c.cur.lookup id with
  | some err => some err
  | none => c.prev.bind (·.lookup id)

/-- A full generation becomes the previous one. -/
def put (c : StatusCache) (id : Digest) (err : String) : StatusCache :=
  if c.capacity ≤ c.cur.entries.length then { c with cur := (∅ : FinMap Digest String).insert id err, prev := some c.cur }
  else { c with cur := c.cur.insert id err }

def putAll (c : StatusCache) (ids : List Digest) (err : String) : StatusCache := ids.foldl (·.put · err) c

def reset (c : StatusCache) : StatusCache := { c with cur := ∅, prev := none }

end StatusCache

/-! ## State -/

structure AssemblyResults where
  ok : Bool
  block : Option Block
  err : Option AlgoError
  roundStartedEvaluating : Round

def AssemblyResults.started (round : Round) : AssemblyResults := ⟨false, none, none, round⟩

structure AssemblyState where
  deadline : Option Nat
  round : Round
  results : AssemblyResults

structure PoolInner (ε : Type) where
  rememberedTxGroups : List Group
  rememberedTxids : FinMap Digest SignedTransaction
  evaluator : Option ε
  evaluatorPaused : Bool
  reprimeOnDemand : Bool
  pausedCommitted : List (Finset Digest)
  pausedLastRound : Option Round
  reprimeAttempt : Option (Round × Nat)
  lastRebuildError : Option String
  numPendingWholeBlocks : Nat
  feeThresholdMultiplier : Nat
  stateproofOverflowed : Bool
  statusCache : StatusCache

structure PendingState where
  txGroups : List Group
  txids : FinMap Digest SignedTransaction

structure TransactionPool (ε : Type) where
  config : PoolConfig
  inner : PoolInner ε
  pending : PendingState
  assembly : AssemblyState
  feePerByte : Nat
  shutdown : Bool

def maxPausedBlocks : Nat := 1000
def reprimeRetryInterval : Nat := 1000

/-- Multiplication that stops at the greatest 64-bit number. -/
def saturatingMul (a b : Nat) : Nat := min (a * b) (u64Bound - 1)

/-- The address state proofs are sent from. -/
def stateProofSender : Address := ⟨0xbb3c5262a9d5c74d2027e3a7eae4d6ff70cf6c4ce4c5e057c11ed39b95344205⟩

/-- An in-block flag on the first transaction that has one. -/
def rejectInBlockFlags (index : Nat) : Group → Except PoolError Unit
  | [] => .ok ()
  | stx :: rest =>
    if stx.hasGenesisHash then .error (.inBlockOnlyField index "hgh")
    else if stx.hasGenesisId then .error (.inBlockOnlyField index "hgi")
    else rejectInBlockFlags (index + 1) rest

/-- A text holds another. -/
def contains (s t : String) : Bool := decide (t.toList <:+: s.toList)

def noSpace (e : PoolError) : Bool := contains e.display "no space" || contains e.display "NoSpace"

namespace TransactionPool

variable {ε : Type} (enc : TxnEncoding) (ev : BlockEvaluator ε)

def new (config : PoolConfig) : TransactionPool ε where
  config := { config with exponentialIncreaseFactor := max config.exponentialIncreaseFactor 1 }
  inner := ⟨[], ∅, none, false, false, [], none, none, none, 0, 0, false, .new config.poolSize⟩
  pending := ⟨[], ∅⟩
  assembly := ⟨none, 0, .started 0⟩
  feePerByte := 0
  shutdown := false

/-- The ids of the transactions of a group. -/
def groupIds (g : Group) : List Digest := g.map (fun stx => enc.computeTxnId stx.txn)

/-! ### Checks -/

/-- Room in the pool.  One state proof may go over it, once. -/
def checkPendingQueueSize (p : TransactionPool ε) (g : Group) : Except PoolError Unit × TransactionPool ε :=
  if p.config.poolSize < p.pending.txids.entries.length + g.length then
    match g with
    | [stx] =>
      if stx.txn.txnType = .stpf ∧ p.inner.stateproofOverflowed = false then
        (.ok (), { p with inner := { p.inner with stateproofOverflowed := true } })
      else (.error .pendingQueueFull, p)
    | _ => (.error .pendingQueueFull, p)
  else (.ok (), p)

def feeGrowth (factor : Nat) : Nat → Nat → Nat
  | 0, fee => fee
  | n + 1, fee => feeGrowth factor n (saturatingMul fee factor)

/-- The least fee for a byte, which doubles with each block that is full. -/
def recomputeFeePerByte (p : TransactionPool ε) : Nat :=
  let fee := saturatingMul 1 p.inner.feeThresholdMultiplier
  let fee := if fee = 0 ∧ 1 < p.inner.numPendingWholeBlocks then 1 else fee
  feeGrowth p.config.exponentialIncreaseFactor (p.inner.numPendingWholeBlocks - 1) fee

def checkSufficientFee (stx : SignedTransaction) (feePerByte groupSize : Nat) : Except PoolError Unit :=
  if groupSize = 1 ∧ stx.txn.txnType = .stpf ∧ stx.txn.sender = stateProofSender ∧ stx.txn.fee = 0 then .ok ()
  else if feePerByte = 0 then .ok ()
  else
    let feeThreshold := saturatingMul feePerByte (enc.encodedLen stx)
    if stx.txn.fee < feeThreshold then
      .error (.feeBelowThreshold stx.txn.fee feeThreshold feePerByte (enc.encodedLen stx))
    else .ok ()

def checkFees (feePerByte groupSize : Nat) : Group → Except PoolError Unit
  | [] => .ok ()
  | stx :: rest => do
    checkSufficientFee enc stx feePerByte groupSize
    checkFees feePerByte groupSize rest

def checkDuplicate (ledger : PoolLedger ε) (p : TransactionPool ε) : Group → Except PoolError Unit
  | [] => .ok ()
  | stx :: rest =>
    let id := enc.computeTxnId stx.txn
    if id ∈ p.pending.txids ∨ id ∈ p.inner.rememberedTxids then .error (.duplicateTxn id)
    else if ledger.containsConfirmedTxid id then .error (.alreadyInLedger id)
    else checkDuplicate ledger p rest

/-! ### Feeding the evaluator -/

/-- The first transaction of a group that is past its last round. -/
def checkExpired (effectiveRound : Round) : Group → Except PoolError Unit
  | [] => .ok ()
  | stx :: rest =>
    if stx.txn.lastValid < effectiveRound then
      .error (.txnRejected ("txn dead: round " ++ toString effectiveRound ++ " outside of " ++ toString stx.txn.firstValid ++
        "--" ++ toString stx.txn.lastValid) .other none)
    else checkExpired effectiveRound rest

def addToPendingBlockEvaluatorOnce (g : Group) (inner : PoolInner ε) : Except PoolError Unit × PoolInner ε :=
  match inner.evaluator with
  | none => (.error .noPendingBlockEvaluator, inner)
  | some e =>
    match checkExpired (ev.round e + inner.numPendingWholeBlocks) g with
    | .error err => (.error err, inner)
    | .ok _ =>
      match ev.transactionGroup e g with
      | (.ok _, e') => (.ok (), { inner with evaluator := some e' })
      | (.error err, e') => (.error (poolErrorFromEvaluator err), { inner with evaluator := some e' })

/-- A block that is full is counted, and the group goes to the next one. -/
def nextPendingBlock (inner : PoolInner ε) : PoolInner ε :=
  { inner with
    numPendingWholeBlocks := inner.numPendingWholeBlocks + 1
    evaluator := inner.evaluator.map ev.resetTxnBytes }

def addToPendingBlockEvaluator (g : Group) (inner : PoolInner ε) : Except PoolError Unit × PoolInner ε :=
  match addToPendingBlockEvaluatorOnce ev g inner with
  | (.ok _, inner') => (.ok (), inner')
  | (.error e, inner') =>
    if noSpace e then addToPendingBlockEvaluatorOnce ev g (nextPendingBlock ev inner') else (.error e, inner')

/-- A group goes into the buffers. -/
def store (g : Group) (inner : PoolInner ε) : PoolInner ε :=
  { inner with
    rememberedTxGroups := inner.rememberedTxGroups ++ [g]
    rememberedTxids := g.foldl (fun m stx => m.insert (enc.computeTxnId stx.txn) stx) inner.rememberedTxids }

def addToBlockEvaluator (g : Group) (inner : PoolInner ε) : Except PoolError Unit × PoolInner ε :=
  match addToPendingBlockEvaluator ev g inner with
  | (.ok _, inner') => (.ok (), store enc g inner')
  | (.error e, inner') => (.error e, inner')

def rememberCommit (flush : Bool) (p : TransactionPool ε) : TransactionPool ε :=
  if flush then
    { p with
      pending := ⟨p.inner.rememberedTxGroups, p.inner.rememberedTxids⟩
      inner := { p.inner with rememberedTxGroups := [], rememberedTxids := ∅, stateproofOverflowed := false } }
  else
    { p with
      pending := ⟨p.pending.txGroups ++ p.inner.rememberedTxGroups,
        p.inner.rememberedTxids.entries.foldl (fun m e => m.insert e.1 e.2) p.pending.txids⟩
      inner := { p.inner with rememberedTxGroups := [], rememberedTxids := ∅ } }

/-! ### Rebuilding the evaluator -/

/-- One group that was pending: it was committed, it is accepted again, or it goes. -/
def refeed (committed : Finset Digest) (inner : PoolInner ε) (g : Group) : PoolInner ε :=
  match g with
  | [] => inner
  | first :: _ =>
    if enc.computeTxnId first.txn ∈ committed then
      { inner with statusCache := inner.statusCache.putAll (groupIds enc g) "" }
    else
      match addToBlockEvaluator enc ev g inner with
      | (.ok _, inner') => inner'
      | (.error e, inner') => { inner' with statusCache := inner'.statusCache.putAll (groupIds enc g) e.display }

/-- The block is generated at once if its round is waited for. -/
def pregenerate (p : TransactionPool ε) : TransactionPool ε :=
  match p.inner.evaluator with
  | none => p
  | some e =>
    if !p.assembly.results.ok ∧ p.assembly.round ≤ ev.round e then
      match ev.generateBlock e with
      | (.ok block, e') =>
        { p with
          inner := { p.inner with evaluator := some e' }
          assembly := { p.assembly with results := { p.assembly.results with ok := true, block := some block } } }
      | (.error err, e') =>
        { p with
          inner := { p.inner with evaluator := some e' }
          assembly := { p.assembly with results := { p.assembly.results with ok := true, err := some err } } }
    else p

/-- The state of a pool with a new evaluator, before it is fed. -/
def primed (e : ε) (inner : PoolInner ε) : PoolInner ε :=
  { inner with
    evaluator := some e
    numPendingWholeBlocks := 0
    reprimeOnDemand := false
    reprimeAttempt := none
    lastRebuildError := none
    pausedCommitted := []
    rememberedTxGroups := []
    rememberedTxids := ∅ }

def recomputeBlockEvaluator (ledger : PoolLedger ε) (committed : Finset Digest) (p : TransactionPool ε) :
    TransactionPool ε :=
  let p := { p with inner := { p.inner with evaluator := none } }
  if p.inner.evaluatorPaused then p
  else
    let committed := p.inner.pausedCommitted.foldl (· ∪ ·) committed
    match ledger.blockHdr ledger.latest with
    | .error e => { p with inner := { p.inner with lastRebuildError := some ("block header: " ++ e.display) } }
    | .ok prevHdr =>
      let txgroups := p.pending.txGroups
      let p := { p with
        assembly := { p.assembly with results := .started (ledger.latest + 1) }
        inner := { p.inner with numPendingWholeBlocks := 0 } }
      let hint := (txgroups.map List.length).sum - committed.card
      match ledger.startEvaluator prevHdr hint 0 with
      | .error e => { p with inner := { p.inner with lastRebuildError := some ("start evaluator: " ++ e.display) } }
      | .ok e =>
        let p := { p with inner := txgroups.foldl (refeed enc ev committed) (primed e p.inner) }
        rememberCommit true (pregenerate ev p)

/-- The last attempt to rebuild was for the same round, and not long ago. -/
def recentlyTried (m : Moment ε) (inner : PoolInner ε) : Bool :=
  match inner.reprimeAttempt with
  | some (round, at_) => round == m.ledger.latest && decide (m.now - at_ < reprimeRetryInterval)
  | none => false

def maybeReprime (m : Moment ε) (p : TransactionPool ε) : TransactionPool ε :=
  if p.inner.evaluator.isSome || !p.inner.reprimeOnDemand || p.inner.evaluatorPaused then p
  else if recentlyTried m p.inner then p
  else
    recomputeBlockEvaluator enc ev m.ledger ∅
      { p with inner := { p.inner with reprimeAttempt := some (m.ledger.latest, m.now) } }

def noEvaluatorError (inner : PoolInner ε) : PoolError :=
  if inner.evaluatorPaused then .nodeCatchingUp
  else if inner.reprimeOnDemand then
    match inner.lastRebuildError with
    | some message => .evaluatorRebuildFailed message
    | none => .nodeCatchingUp
  else .noPendingBlockEvaluator

/-! ### Calls -/

/-- The checks of fee and of duplicates, and the evaluator's. -/
def judge (m : Moment ε) (g : Group) (p : TransactionPool ε) (e : ε) : Except PoolError Unit × TransactionPool ε :=
  let feePerByte := recomputeFeePerByte p
  let p := { p with feePerByte := feePerByte }
  match checkFees enc feePerByte g.length g with
  | .error err => (.error err, p)
  | .ok _ =>
    match if ev.checksDuplicates e then .ok () else checkDuplicate enc m.ledger p g with
    | .error err => (.error err, p)
    | .ok _ =>
      match addToPendingBlockEvaluator ev g p.inner with
      | (.error err, inner) => (.error err, { p with inner := inner })
      | (.ok _, inner) => (.ok (), { p with inner := store enc g inner })

def ingest (m : Moment ε) (g : Group) (p : TransactionPool ε) : Except PoolError Unit × TransactionPool ε :=
  if p.inner.evaluatorPaused then (.error .nodeCatchingUp, p)
  else
    let p := maybeReprime enc ev m p
    match p.inner.evaluator with
    | none => (.error (noEvaluatorError p.inner), p)
    | some e => judge enc ev m g p e

/-- An error of the verification of a group is returned as it is, every other one is framed. -/
def frameError : PoolError → PoolError
  | .signatureBatchFailed => .signatureBatchFailed
  | .txnRejected message (.verify kind) detail => .txnRejected message (.verify kind) detail
  | e => .remember e

def remember (m : Moment ε) (g : Group) (p : TransactionPool ε) : Except PoolError Unit × TransactionPool ε :=
  match rejectInBlockFlags 0 g with
  | .error e => (.error e, p)
  | .ok _ =>
    match checkPendingQueueSize p g with
    | (.error e, p) => (.error e, p)
    | (.ok _, p) =>
      if p.shutdown then (.error .poolShutdown, p)
      else
        match ingest enc ev m g p with
        | (.error e, p) => (.error (frameError e), p)
        | (.ok _, p) => (.ok (), rememberCommit false p)

/-- An error of the test of a group. -/
def testError (e : AlgoError) : PoolError :=
  match e with
  | .rejected _ _ _ => poolErrorFromEvaluator e
  | _ => .evaluator e.display

def test (m : Moment ε) (g : Group) (p : TransactionPool ε) : Except PoolError Unit × TransactionPool ε :=
  match rejectInBlockFlags 0 g with
  | .error e => (.error e, p)
  | .ok _ =>
    match checkPendingQueueSize p g with
    | (.error e, p) => (.error e, p)
    | (.ok _, p) =>
      if p.inner.evaluatorPaused then (.error .nodeCatchingUp, p)
      else
        let p := maybeReprime enc ev m p
        match p.inner.evaluator with
        | none => (.error (noEvaluatorError p.inner), p)
        | some e =>
          match ev.testTransactionGroup e g with
          | .error err => (.error (testError err), p)
          | .ok _ => (.ok (), p)

/-- The transaction, the text of the error it left the pool with, and whether the pool knows it. -/
def lookup (p : TransactionPool ε) (id : Digest) : SignedTransaction × String × Bool :=
  match p.pending.txids.lookup id with
  | some stx => (stx, "", true)
  | none =>
    match p.inner.statusCache.check id with
    | some err => (default, err, true)
    | none => (default, "", false)

def adjustFeeThreshold (p : TransactionPool ε) : TransactionPool ε :=
  let mult := p.inner.feeThresholdMultiplier
  let mult := match p.inner.numPendingWholeBlocks with
    | 0 => mult / p.config.exponentialIncreaseFactor
    | 1 => mult
    | _ => if mult = 0 then 1 else saturatingMul mult p.config.exponentialIncreaseFactor
  { p with inner := { p.inner with feeThresholdMultiplier := mult } }

/-- A block that comes while the evaluator is paused: of its transactions those that wait here are kept. -/
def recordPaused (round : Round) (committed : Finset Digest) (p : TransactionPool ε) : TransactionPool ε :=
  let p := adjustFeeThreshold { p with inner := { p.inner with pausedLastRound := some round } }
  let kept := if maxPausedBlocks ≤ p.inner.pausedCommitted.length then p.inner.pausedCommitted.drop 1
    else p.inner.pausedCommitted
  let relevant := committed.filter (fun id => id ∈ p.pending.txids ∨ id ∈ p.inner.rememberedTxids)
  { p with inner := { p.inner with numPendingWholeBlocks := 0, pausedCommitted := kept ++ [relevant] } }

def onNewBlock (m : Moment ε) (round : Round) (committed : Finset Digest) (p : TransactionPool ε) : TransactionPool ε :=
  if p.shutdown then p
  else if p.inner.evaluatorPaused then
    if p.inner.pausedLastRound.all (· < round) then recordPaused round committed p else p
  else if p.inner.evaluator.all (fun e => decide (ev.round e ≤ round)) then
    recomputeBlockEvaluator enc ev m.ledger committed (adjustFeeThreshold p)
  else p

def ensureEvaluatorPrimed (m : Moment ε) (p : TransactionPool ε) : TransactionPool ε :=
  if p.inner.evaluator.isNone then recomputeBlockEvaluator enc ev m.ledger ∅ p else p

/-! ### Eviction -/

/-- The pending transactions among some. -/
def found (p : TransactionPool ε) (ids : List Digest) : List SignedTransaction := ids.filterMap p.pending.txids.lookup

/-- A group is named by its group id; a transaction without one by its own id, and by its sender. -/
def hit (p : TransactionPool ε) (ids : List Digest) (g : Group) : Bool :=
  match g with
  | [] => false
  | first :: rest =>
    if first.txn.group ≠ 0 then (p.found ids).any (fun stx => stx.txn.group ≠ 0 && stx.txn.group == first.txn.group)
    else
      rest.isEmpty && (p.found ids).any (fun stx => stx.txn.group == 0 && stx.txn.sender == first.txn.sender) &&
        ids.contains (enc.computeTxnId first.txn)

def evictGroups (m : Moment ε) (ids : List Digest) (error : AlgoError) (p : TransactionPool ε) :
    Nat × TransactionPool ε :=
  let gone := p.pending.txGroups.filter (hit enc p ids)
  if gone.isEmpty then (0, p)
  else
    let evicted := gone.flatMap (groupIds enc)
    let text := (poolErrorFromEvaluator error).display
    let p := { p with
      pending := ⟨p.pending.txGroups.filter (fun g => !hit enc p ids g),
        evicted.foldl (fun m id => m.erase id) p.pending.txids⟩
      inner := { p.inner with statusCache := p.inner.statusCache.putAll evicted text } }
    (gone.length, if p.inner.evaluator.isSome then recomputeBlockEvaluator enc ev m.ledger ∅ p else p)

/-! ### Assembly -/

def assembleEmptyBlock (ledger : PoolLedger ε) (round : Round) : Except PoolError Block :=
  match ledger.blockHdr (round - 1) with
  | .error e => .error (.evaluator ("TransactionPool.assembleEmptyBlock: cannot get prev header for " ++
      toString (round - 1) ++ ": " ++ e.display))
  | .ok prevHdr =>
    match ledger.startEvaluator prevHdr 0 0 with
    | .error e => .error (.evaluator ("TransactionPool.assembleEmptyBlock: cannot start evaluator for " ++ toString round ++
        ": " ++ e.display))
    | .ok e =>
      match (ev.generateBlock e).1 with
      | .error err => .error (.evaluator ("TransactionPool.assembleEmptyBlock: cannot generate block for " ++
          toString round ++ ": " ++ err.display))
      | .ok block => .ok block

/-- The result that was assembled, if it is for this round. -/
def assembled (ledger : PoolLedger ε) (round : Round) (p : TransactionPool ε) : Except PoolError Block :=
  let results := p.assembly.results
  match results.err with
  | some e => .error (.evaluator ("AssembleBlock: encountered error for round " ++ toString round ++ ": " ++ e.display))
  | none =>
    if round < results.roundStartedEvaluating then .error .staleBlockAssemblyRequest
    else if results.roundStartedEvaluating = round - 1 then
      assembleEmptyBlock ev ledger round
    else if results.roundStartedEvaluating < round then
      .error (.evaluator ("AssembleBlock: assembled block round much behind requested round: " ++
        toString results.roundStartedEvaluating ++ " != " ++ toString round))
    else
      match results.block with
      | some block => .ok block
      | none => .error (.evaluator "AssembleBlock: no block produced")

def assembleBlock (ledger : PoolLedger ε) (round : Round) (deadline : Nat) (p : TransactionPool ε) :
    Except PoolError Block × TransactionPool ε :=
  let started := p.assembly.results.roundStartedEvaluating
  if started ≤ round - 2 then (assembleEmptyBlock ev ledger round, p)
  else if round < started then (.error .staleBlockAssemblyRequest, p)
  else
    let p := { p with assembly := { p.assembly with deadline := some deadline, round := round } }
    let done := { p with assembly := { p.assembly with deadline := none } }
    if p.assembly.results.ok then (assembled ev ledger round p, done)
    else (assembleEmptyBlock ev ledger round, done)

def assembleDevModeBlock (m : Moment ε) (p : TransactionPool ε) : Except PoolError Block × TransactionPool ε :=
  let p := recomputeBlockEvaluator enc ev m.ledger ∅ p
  match p.inner.evaluator with
  | none => (.error (if p.inner.evaluatorPaused then .nodeCatchingUp else .noPendingBlockEvaluator), p)
  | some e => assembleBlock ev m.ledger (ev.round e) (m.now + p.config.proposalAssemblyTime) p

/-! ### Control -/

def reset (p : TransactionPool ε) : TransactionPool ε where
  config := p.config
  inner := { p.inner with
    rememberedTxids := ∅
    rememberedTxGroups := []
    numPendingWholeBlocks := 0
    feeThresholdMultiplier := 0
    evaluator := none
    pausedCommitted := []
    stateproofOverflowed := false
    statusCache := p.inner.statusCache.reset }
  pending := ⟨[], ∅⟩
  assembly := p.assembly
  feePerByte := 0
  shutdown := p.shutdown

def pauseEvaluator (p : TransactionPool ε) : TransactionPool ε :=
  { p with inner := { p.inner with
      evaluatorPaused := true, evaluator := none, reprimeOnDemand := true, pausedLastRound := none } }

def resumeEvaluator (m : Moment ε) (prime : Bool) (p : TransactionPool ε) : TransactionPool ε :=
  let p := { p with inner := { p.inner with evaluatorPaused := false, pausedLastRound := none } }
  if prime then
    recomputeBlockEvaluator enc ev m.ledger ∅
      { p with inner := { p.inner with reprimeAttempt := some (m.ledger.latest, m.now) } }
  else p

def shutDown (p : TransactionPool ε) : TransactionPool ε := { p with shutdown := true }

end TransactionPool

/-! ## Runs -/

inductive Call
  | remember (g : Group)
  | test (g : Group)
  | lookup (id : Digest)
  | onNewBlock (round : Round) (committed : Finset Digest)
  | evictGroups (ids : List Digest) (error : AlgoError)
  | pauseEvaluator
  | resumeEvaluator (prime : Bool)
  | assembleDevModeBlock
  | ensureEvaluatorPrimed
  | reset
  | shutDown

inductive Answer
  | none
  | result (r : Except PoolError Unit)
  | found (r : SignedTransaction × String × Bool)
  | dropped (n : Nat)
  | block (r : Except PoolError Block)

section Runs

variable {ε : Type} (enc : TxnEncoding) (ev : BlockEvaluator ε)

open TransactionPool

def perform (m : Moment ε) (p : TransactionPool ε) : Call → Answer × TransactionPool ε
  | .remember g => (.result (remember enc ev m g p).1, (remember enc ev m g p).2)
  | .test g => (.result (test enc ev m g p).1, (test enc ev m g p).2)
  | .lookup id => (.found (lookup p id), p)
  | .onNewBlock round committed => (.none, onNewBlock enc ev m round committed p)
  | .evictGroups ids error => (.dropped (evictGroups enc ev m ids error p).1, (evictGroups enc ev m ids error p).2)
  | .pauseEvaluator => (.none, pauseEvaluator p)
  | .resumeEvaluator prime => (.none, resumeEvaluator enc ev m prime p)
  | .assembleDevModeBlock => (.block (assembleDevModeBlock enc ev m p).1, (assembleDevModeBlock enc ev m p).2)
  | .ensureEvaluatorPrimed => (.none, ensureEvaluatorPrimed enc ev m p)
  | .reset => (.none, reset p)
  | .shutDown => (.none, shutDown p)

/-- The calls of a run, each at its moment, one after another. -/
def performAll : List (Moment ε × Call) → TransactionPool ε → List Answer × TransactionPool ε
  | [], p => ([], p)
  | (m, c) :: calls, p =>
    let r := performAll calls (perform enc ev m p c).2
    ((perform enc ev m p c).1 :: r.1, r.2)

/-- The groups that `remember` accepted in a run. -/
def acceptedGroups : List (Moment ε × Call) → TransactionPool ε → List Group
  | [], _ => []
  | (m, c) :: calls, p =>
    match c, (perform enc ev m p c).1 with
    | .remember g, .result (.ok _) => g :: acceptedGroups calls (perform enc ev m p c).2
    | _, _ => acceptedGroups calls (perform enc ev m p c).2

end Runs

end Pool
end Algod
