import AlgodRust.Validate.Merkle
import AlgodRust.Lib.Run
import Mathlib.Data.Finset.Basic
import Mathlib.Logic.Function.Basic
/-!
# CatchupPass — one pass of the catchup service

`sync_pass_core` with its fetch workers, one atomic step at a time.  A worker takes a permit, claims a round under the
claim lock, fetches it with retries and sends the result; the apply loop buffers the results, applies the rounds in
order and hands a permit back for each.  A step is one access to what the threads share (a load, a store, a lock, a
message), and a `Move` says which thread takes it, with what the code outside gives back there: an answer of the fetcher,
a panic, a time that ran out, a shutdown request, the ledger after a call.  A schedule is a list of moves.

`wait_for_progress` may end at any time, so the version counter behind it is left out; a worker that is not spawned yet
is one that has not moved.
-/
namespace Algod
namespace Ledger

open Msgpack (Bytes)

inductive FetchError
  | noBlockForRound (round : Nat)
  | networkError (text : String)
  | timeout
  | noPeersAvailable
deriving DecidableEq, Repr

inductive SyncExitReason
  | done
  | noPeer
  | noBlock
  | stopping
  | behindDeltas
  | unsupported
deriving DecidableEq, Repr

structure FetchedBlockCert (Cert : Type) where
  block : Block
  cert : Option Cert
  rawPaysetBlobs : Option (List Bytes)

inductive FetchOutcome (Cert : Type)
  | unsupported
  | fetch (r : Except FetchError (FetchedBlockCert Cert))

/-- The ledger as a pass sees it, over the states it may be in. -/
structure CatchupLedger (Λ Cert : Type) where
  nextRound : Λ → Nat
  roundIsNotSupported : Λ → Nat → Bool
  isBehindCommittingDeltas : Λ → Bool
  authenticateBlock : Λ → Block → Cert → Except String Unit

def maxParallelBlocks : Nat := 256
def fetchAheadMaxExtra : Nat := 32
def noPrefetchWorkers : Nat := 1
def catchupRetryLimit : Nat := 500

/-- The rounds a pass may have claimed ahead of the apply cursor. -/
def fetchWindow (workers : Nat) : Nat :=
  if workers ≤ noPrefetchWorkers then 1 else workers + min workers fetchAheadMaxExtra

/-- What a pass is started with.  `workers` of the `parallelBlocks` threads could be spawned. -/
structure Pass (Λ Cert : Type) where
  ledger : CatchupLedger Λ Cert
  hashes : Validate.Hashes
  protocols : String → Option ConsensusParams
  defaultParams : ConsensusParams
  noBlockThreshold : Nat
  parallelBlocks : Nat
  workers : Nat

section Machine

variable {Λ Cert Waiter : Type}

/-- The size of the two channels. -/
def Pass.maxWindow (P : Pass Λ Cert) : Nat := fetchWindow (min (max P.parallelBlocks 1) maxParallelBlocks)

def Pass.contentsMatchHeader (P : Pass Λ Cert) (f : FetchedBlockCert Cert) : Except Validate.ProtocolError Bool :=
  Validate.contentsMatchHeader P.hashes P.protocols P.defaultParams f.block f.rawPaysetBlobs

/-- Where a fetch worker stands.  From `readingGate` to `releasing`, and in `engaged` and `disengaging`, it holds the
claim lock. -/
inductive WorkerState (Cert : Type)
  | idle
  | waiting
  | permitted
  | claiming
  | locking
  | readingGate
  | readingApplied
  | readingWorkers (applied : Nat)
  | loadingNext (limit : Option Nat)
  | swapping (limit : Option Nat) (cur : Nat)
  | releasing (round : Option Nat)
  | gated
  | claimed (round : Nat)
  | asking (round : Nat)
  | attempting (round left noBlock : Nat) (last : FetchError)
  | limiting (round left noBlock : Nat)
  | fetching (round left noBlock : Nat)
  | probing (round left noBlock : Nat) (e : FetchError) (slept : Bool)
  | leaving (round : Nat) (r : Except FetchError (FetchedBlockCert Cert))
  | settling (round : Nat) (outcome : FetchOutcome Cert)
  | engaging (round : Nat) (e : FetchError)
  | engaged (round : Nat) (e : FetchError)
  | disengaging (round : Nat) (e : FetchError)
  | sending (round : Nat) (outcome : FetchOutcome Cert)
  | returned

def WorkerState.hasReturned : WorkerState Cert → Bool
  | .returned => true
  | _ => false

/-- Where the apply loop stands.  The block that is authenticated, compared with its header and committed is the one
of `f`; `seen` is the ledger that authenticated it. -/
inductive ApplyState (Λ Cert : Type)
  | spawned
  | handingOut (left : Nat)
  | receiving
  | scanning
  | polling (outcome : FetchOutcome Cert)
  | authenticating (f : FetchedBlockCert Cert) (cert : Cert)
  | matching (f : FetchedBlockCert Cert) (cert : Cert) (seen : Λ)
  | ensuring (f : FetchedBlockCert Cert) (cert : Cert) (seen : Λ)
  | advancing
  | pressing
  | moving
  | giving
  | raising
  | closing
  | finishing
  | over

/-- What the threads share: the pass's counters and flags, its two channels and the ledger. -/
structure PassCtx (Λ Cert : Type) (n : Nat) where
  ledger : Λ
  nextToFetch : Nat
  stop : Bool := false
  windowLimit : Nat := u64Bound - 1
  tipSeen : Bool := false
  probing : Finset Nat := ∅
  applied : Nat
  fetchFailed : Bool := false
  claimLock : Option (Fin n) := none
  workers : Nat := 0
  permits : Nat := 0
  permitTx : Bool := true
  results : List (Nat × FetchOutcome Cert) := []

/-- What the apply loop keeps for itself. -/
structure ApplyLoop (Λ Cert Waiter : Type) where
  phase : ApplyState Λ Cert := .spawned
  nextApply : Nat
  buffer : Nat → Option (FetchOutcome Cert) := fun _ => none
  stopped : Bool := false
  exitReason : SyncExitReason := .done
  waiters : List Waiter := []

/-- A block that is handed to `ensure_block`. -/
structure Ensured (Λ Cert : Type) where
  fetched : FetchedBlockCert Cert
  cert : Cert
  seen : Λ

inductive PassEvent (Λ Cert : Type) (n : Nat)
  | claimed (worker : Fin n) (round : Nat)
  | ensured (e : Ensured Λ Cert)

/-- What a step depends on beside the state. -/
inductive Choice (Λ Cert Waiter : Type)
  | go
  | answer (r : Except FetchError (FetchedBlockCert Cert)) (elapsed : Bool)
  | panic
  | timeout (shutdown : Bool)
  | trigger (w : Waiter)
  | poll (shutdown : Bool)
  | ledgerAfter (l : Λ)

/-- Whether a round is the lowest that probes the tip, once it is entered there. -/
def lowestProbing (probing : Finset Nat) (round : Nat) : Bool := decide (∀ r ∈ probing, round ≤ r)

def FetchOutcome.isUnsupported : FetchOutcome Cert → Bool
  | .unsupported => true
  | .fetch _ => false

def exitReasonOf : FetchError → SyncExitReason
  | .noPeersAvailable => .noPeer
  | _ => .noBlock

def stoppingError : FetchError := .networkError "catchup pass stopping"

def panicError (round : Nat) : FetchError := .networkError ("fetch worker panicked fetching round " ++ toString round)

section Worker

variable (P : Pass Λ Cert) {n : Nat}

/-- The answer of one `fetch_block` in `fetch_round_with_retries`; `elapsed` says that the transport has failed for
`wall_bound`. -/
def fetchAnswered (c : PassCtx Λ Cert n) (round left noBlock : Nat) (elapsed : Bool) :
    Except FetchError (FetchedBlockCert Cert) → PassCtx Λ Cert n × WorkerState Cert
  | .ok b => (c, .leaving round (.ok b))
  | .error .noPeersAvailable => (c, .leaving round (.error .noPeersAvailable))
  | .error (.noBlockForRound r) =>
    ({ c with tipSeen := true },
      if P.noBlockThreshold < noBlock + 1 then .leaving round (.error (.noBlockForRound r))
      else .probing round left (noBlock + 1) (.noBlockForRound r) false)
  | .error e => (c, if elapsed then .leaving round (.error e) else .attempting round left noBlock e)

/-- What a worker does with the outcome of a round before it sends it. -/
def settle (c : PassCtx Λ Cert n) (round : Nat) : FetchOutcome Cert → PassCtx Λ Cert n × WorkerState Cert
  | .unsupported => ({ c with windowLimit := min c.windowLimit round }, .sending round .unsupported)
  | .fetch (.error e) => ({ c with tipSeen := true }, .engaging round e)
  | .fetch (.ok b) => (c, .sending round (.fetch (.ok b)))

/-- A step of `claim_round` once `next_to_fetch` was read as `cur`: the limit is tested, then compared and swapped. -/
def claimRound (c : PassCtx Λ Cert n) (limit : Option Nat) (cur : Nat) :
    PassCtx Λ Cert n × WorkerState Cert × List Nat :=
  if limit.any (fun l => decide (l ≤ cur)) then (c, .releasing none, [])
  else if c.nextToFetch = cur then
    ({ c with nextToFetch := cur + 1 }, .releasing (some cur), [cur])
  else (c, .swapping limit c.nextToFetch, [])

/-- A step of a fetch worker, with the round it claims in it; none where it waits. -/
def workerStep (w : Fin n) (c : PassCtx Λ Cert n) :
    WorkerState Cert → Choice Λ Cert Waiter → Option (PassCtx Λ Cert n × WorkerState Cert × List Nat)
  | .idle, .go => some (c, if c.stop then .returned else .waiting, [])
  | .waiting, .go =>
    if 0 < c.permits then some ({ c with permits := c.permits - 1 }, .permitted, [])
    else if c.permitTx then none
    else some (c, .returned, [])
  | .permitted, .go => some (c, if c.stop then .returned else .claiming, [])
  | .claiming, .go => some (c, if c.stop then .returned else .locking, [])
  | .locking, .go => if c.claimLock = none then some ({ c with claimLock := some w }, .readingGate, []) else none
  | .readingGate, .go => some (c, if c.fetchFailed then .readingApplied else .loadingNext none, [])
  | .readingApplied, .go => some (c, .readingWorkers c.applied, [])
  | .readingWorkers applied, .go => some (c, .loadingNext (some (applied + c.workers)), [])
  | .loadingNext limit, .go => some (c, .swapping limit c.nextToFetch, [])
  | .swapping limit cur, .go => some (claimRound c limit cur)
  | .releasing none, .go => some ({ c with claimLock := none }, .gated, [])
  | .releasing (some round), .go => some ({ c with claimLock := none }, .claimed round, [])
  | .gated, .go => some (c, .claiming, [])
  | .claimed round, .go => some (c, if c.windowLimit < round then .returned else .asking round, [])
  | .asking round, .go =>
    some (c, if P.ledger.roundIsNotSupported c.ledger round then .settling round .unsupported
      else .attempting round catchupRetryLimit 0 .timeout, [])
  | .asking round, .panic => some (c, .settling round (.fetch (.error (panicError round))), [])
  | .attempting round 0 _ last, .go => some (c, .leaving round (.error last), [])
  | .attempting round (left + 1) noBlock _, .go =>
    some (c, if c.stop then .leaving round (.error stoppingError) else .limiting round left noBlock, [])
  | .limiting round left noBlock, .go =>
    some (c, if c.windowLimit < round then .leaving round (.error stoppingError) else .fetching round left noBlock, [])
  | .fetching round left noBlock, .answer r elapsed =>
    let (c', ws) := fetchAnswered P c round left noBlock elapsed r
    some (c', ws, [])
  | .fetching round _ _, .panic => some (c, .leaving round (.error (panicError round)), [])
  | .probing round left noBlock e slept, .go =>
    let probing := insert round c.probing
    some ({ c with probing }, if lowestProbing probing round then
      if slept then .attempting round left noBlock e else .probing round left noBlock e true
      else .leaving round (.error e), [])
  | .leaving round r, .go => some ({ c with probing := c.probing.erase round }, .settling round (.fetch r), [])
  | .settling round outcome, .go =>
    let (c', ws) := settle c round outcome
    some (c', ws, [])
  | .engaging round e, .go =>
    if c.claimLock = none then some ({ c with claimLock := some w }, .engaged round e, []) else none
  | .engaged round e, .go => some ({ c with fetchFailed := true }, .disengaging round e, [])
  | .disengaging round e, .go => some ({ c with claimLock := none }, .sending round (.fetch (.error e)), [])
  | .sending round outcome, .go =>
    if c.results.length < P.maxWindow then
      some ({ c with results := c.results ++ [(round, outcome)] },
        if outcome.isUnsupported then .returned else .idle, [])
    else none
  | _, _ => none

end Worker

section Apply

variable (P : Pass Λ Cert) {n : Nat}

/-- `raise_stop` and the end of the pass for a reason. -/
def ApplyLoop.raise (m : ApplyLoop Λ Cert Waiter) (reason : SyncExitReason) : ApplyLoop Λ Cert Waiter :=
  { m with phase := .raising, stopped := true, exitReason := reason }

/-- The outcome of the round the cursor waits for, up to its certificate. -/
def ApplyLoop.examine (m : ApplyLoop Λ Cert Waiter) : FetchOutcome Cert → ApplyLoop Λ Cert Waiter
  | .unsupported => m.raise .unsupported
  | .fetch (.error e) => m.raise (exitReasonOf e)
  | .fetch (.ok f) =>
    if f.block.round ≠ m.nextApply then m.raise .noBlock
    else
      match f.cert with
      | none => m.raise .noBlock
      | some cert => { m with phase := .authenticating f cert }

/-- What the apply loop does with a message: once the pass is stopped it is dropped. -/
def ApplyLoop.accept (m : ApplyLoop Λ Cert Waiter) (round : Nat) (outcome : FetchOutcome Cert) : ApplyLoop Λ Cert Waiter :=
  if m.stopped then m
  else { m with buffer := Function.update m.buffer round (some outcome), phase := .scanning }

/-- Look for the round the cursor waits for. -/
def ApplyLoop.scan (m : ApplyLoop Λ Cert Waiter) : ApplyLoop Λ Cert Waiter :=
  match m.buffer m.nextApply with
  | none => { m with phase := .receiving }
  | some outcome => { m with buffer := Function.update m.buffer m.nextApply none, phase := .polling outcome }

/-- A step of the apply loop, with the block it commits in it; none where it waits.  `gone` says that every worker has
returned. -/
def applyStep (gone : Bool) (c : PassCtx Λ Cert n) (m : ApplyLoop Λ Cert Waiter) :
    ApplyState Λ Cert → Choice Λ Cert Waiter →
      Option (PassCtx Λ Cert n × ApplyLoop Λ Cert Waiter × List (Ensured Λ Cert))
  | .spawned, .go => some ({ c with workers := n }, { m with phase := .handingOut (fetchWindow n) }, [])
  | .handingOut 0, .go => some (c, { m with phase := .receiving }, [])
  | .handingOut (left + 1), .go =>
    if c.permits < P.maxWindow then some ({ c with permits := c.permits + 1 }, { m with phase := .handingOut left }, [])
    else none
  | .receiving, .trigger w =>
    if m.stopped = false ∧ c.tipSeen = false then some (c, { m with waiters := m.waiters ++ [w] }, []) else none
  | .receiving, .go =>
    match c.results with
    | (round, outcome) :: results => some ({ c with results }, m.accept round outcome, [])
    | [] => if gone then some (c, { m with phase := .finishing }, []) else none
  | .receiving, .timeout shutdown =>
    if c.results.isEmpty = true ∧ gone = false then
      some (c, if m.stopped = false ∧ shutdown = true then m.raise .stopping else m, [])
    else none
  | .scanning, .go => some (c, m.scan, [])
  | .polling outcome, .poll shutdown => some (c, if shutdown then m.raise .stopping else m.examine outcome, [])
  | .authenticating f cert, .go =>
    match P.ledger.authenticateBlock c.ledger f.block cert with
    | .error _ => some (c, m.raise .noBlock, [])
    | .ok () => some (c, { m with phase := .matching f cert c.ledger }, [])
  | .matching f cert seen, .go =>
    match P.contentsMatchHeader f with
    | .ok true => some (c, { m with phase := .ensuring f cert seen }, [])
    | _ => some (c, m.raise .noBlock, [])
  | .ensuring f cert seen, .ledgerAfter l =>
    some ({ c with ledger := l }, { m with phase := .advancing }, [⟨f, cert, seen⟩])
  | .advancing, .go =>
    some (c, if P.ledger.nextRound c.ledger ≤ m.nextApply then m.raise .noBlock else { m with phase := .pressing }, [])
  | .pressing, .go =>
    some (c, if P.ledger.isBehindCommittingDeltas c.ledger then m.raise .behindDeltas
      else { m with phase := .moving }, [])
  | .moving, .go =>
    some ({ c with applied := m.nextApply + 1 }, { m with nextApply := m.nextApply + 1, phase := .giving }, [])
  | .giving, .go =>
    some ({ c with permits := if c.permitTx = true ∧ c.permits < P.maxWindow then c.permits + 1 else c.permits },
      { m with phase := .scanning }, [])
  | .raising, .go => some ({ c with stop := true }, { m with phase := .closing }, [])
  | .closing, .go => some ({ c with permitTx := false }, { m with phase := .receiving }, [])
  | .finishing, .go => some ({ c with stop := true, permitTx := false }, { m with phase := .over }, [])
  | _, _ => none

end Apply

/-! ## Schedules -/

/-- A pass: what is shared, its workers and its apply loop. -/
structure PassState (Λ Cert Waiter : Type) (n : Nat) where
  ctx : PassCtx Λ Cert n
  worker : Fin n → WorkerState Cert := fun _ => .idle
  loop : ApplyLoop Λ Cert Waiter

/-- Whose step comes next.  Other threads may change the ledger at any time. -/
inductive Move (Λ Cert Waiter : Type) (n : Nat)
  | worker (w : Fin n) (choice : Choice Λ Cert Waiter)
  | apply (choice : Choice Λ Cert Waiter)
  | ledger (l : Λ)

/-- A thread that is to move waits. -/
inductive Blocked
  | blocked
deriving DecidableEq, Repr

variable (P : Pass Λ Cert)

def passStep (s : PassState Λ Cert Waiter P.workers) :
    Move Λ Cert Waiter P.workers → Except Blocked (PassState Λ Cert Waiter P.workers × List (PassEvent Λ Cert P.workers))
  | .worker w choice =>
    match workerStep P w s.ctx (s.worker w) choice with
    | none => .error .blocked
    | some (ctx, ws, rounds) =>
      .ok ({ s with ctx, worker := Function.update s.worker w ws }, rounds.map (.claimed w))
  | .apply choice =>
    match applyStep P (decide (∀ w, (s.worker w).hasReturned = true)) s.ctx s.loop s.loop.phase choice with
    | none => .error .blocked
    | some (ctx, loop, blocks) => .ok ({ s with ctx, loop }, blocks.map .ensured)
  | .ledger l => .ok ({ s with ctx := { s.ctx with ledger := l } }, [])

/-- A pass begins at the next round of the ledger. -/
def syncPass (l : Λ) : PassState Λ Cert Waiter P.workers where
  ctx := { ledger := l, nextToFetch := P.ledger.nextRound l, applied := P.ledger.nextRound l }
  loop := { nextApply := P.ledger.nextRound l }

end Machine

/-- The rounds that were claimed, in order. -/
def claimedRounds {Λ Cert : Type} {n : Nat} (tr : List (PassEvent Λ Cert n)) : List Nat :=
  tr.filterMap (fun e => match e with | .claimed _ round => some round | .ensured _ => none)

/-- The blocks that were handed to the ledger, in order. -/
def ensuredBlocks {Λ Cert : Type} {n : Nat} (tr : List (PassEvent Λ Cert n)) : List (Ensured Λ Cert) :=
  tr.filterMap (fun e => match e with | .claimed _ _ => none | .ensured e => some e)

end Ledger
end Algod
