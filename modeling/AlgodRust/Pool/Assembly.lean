import AlgodRust.Pool.Capacity
import Mathlib.Logic.Relation
import Mathlib.Logic.Function.Basic
/-!
# Assembly — blocks for the round that was asked for

Calls of the pool run in threads of their own.  What is under `mu` is changed by its owner, the assembly state in short
sections by anybody: a rebuild empties the slot of the assembled block, feeds its evaluator and fills the slot, and a
request for a block looks at the slot, waits, prepares an empty block, looks again.  A step of a thread is one section,
and time is what the scheduler says (`Oracle.late`), so that a wait may end whenever it likes.

The block in the slot is of the round the slot names (`SlotOk`): whoever fills it has emptied it before, and nobody else
has had `mu` since.  `stages_eq` ties the sections of a rebuild to `recomputeBlockEvaluator`.
-/
namespace Algod
namespace Pool

open Ledger (Block BlockHeader)
open TransactionPool

/-! ## A rebuild, section by section -/

/-- How far a rebuild has come, with what it has read. -/
inductive Stage
  | begin (committed : Finset Digest)
  | header (committed : Finset Digest) (latest : Round)
  | results (committed : Finset Digest) (latest : Round) (prevHdr : BlockHeader)
  | start (committed : Finset Digest) (prevHdr : BlockHeader) (txgroups : List Group)
  | feed (committed : Finset Digest) (txgroups : List Group)
  | generate
  | flush

section Model

variable {ε : Type} (enc : TxnEncoding) (ev : BlockEvaluator ε)

/-- One section of a rebuild; `none` is its end. -/
def stageStep (ledger : PoolLedger ε) (p : TransactionPool ε) : Stage → TransactionPool ε × Option Stage
  | .begin committed =>
    let p := { p with inner := { p.inner with evaluator := none } }
    if p.inner.evaluatorPaused then (p, none)
    else (p, some (.header (p.inner.pausedCommitted.foldl (· ∪ ·) committed) ledger.latest))
  | .header committed latest =>
    match ledger.blockHdr latest with
    | .error e => ({ p with inner := { p.inner with lastRebuildError := some ("block header: " ++ e.display) } }, none)
    | .ok prevHdr => (p, some (.results committed latest prevHdr))
  | .results committed latest prevHdr =>
    ({ p with
      assembly := { p.assembly with results := .started (latest + 1) }
      inner := { p.inner with numPendingWholeBlocks := 0 } }, some (.start committed prevHdr p.pending.txGroups))
  | .start committed prevHdr txgroups =>
    let hint := (txgroups.map List.length).sum - committed.card
    match ledger.startEvaluator prevHdr hint 0 with
    | .error e => ({ p with inner := { p.inner with lastRebuildError := some ("start evaluator: " ++ e.display) } }, none)
    | .ok e => ({ p with inner := primed e p.inner }, some (.feed committed txgroups))
  | .feed committed txgroups =>
    ({ p with inner := txgroups.foldl (refeed enc ev committed) p.inner }, some .generate)
  | .generate => (pregenerate ev p, some .flush)
  | .flush => (rememberCommit true p, none)

/-! ## Threads -/

/-- The calls that work under `mu`. -/
inductive Work
  | remember (g : Group)
  | onNewBlock (round : Round) (committed : Finset Digest)
  | evictGroups (ids : List Digest) (error : AlgoError)

inductive Thread
  | idle
  -- `remember`: the count of the pending transactions, and the flag of the state proofs
  | checking (g : Group)
  | flagging (g : Group)
  -- under `mu`
  | entering (w : Work)
  | working (w : Work)
  | rebuilding (stage : Stage) (next : Option Group)
  | judging (g : Group)
  -- `ingest` waits for a new block
  | waiting (g : Group)
  -- `assembleBlock`
  | assembling (round : Round) (deadline : Nat)
  | awaiting (round : Round)
  | fallback (round : Round)
  | prepared (round : Round) (empty : Except PoolError Block)
  | awaitingLonger (round : Round) (empty : Except PoolError Block)
  | collecting (round : Round)
  | emptying (round : Round)
  | returned (round : Round) (result : Except PoolError Block)

/-- What the threads share: the pool, and who has `mu`. -/
structure Shared (ε : Type) where
  pool : TransactionPool ε
  mu : Option Nat

/-- What a step finds outside: the ledger, the time, and whether its wait is over. -/
structure Oracle (ε : Type) where
  ledger : PoolLedger ε
  now : Nat
  late : Bool

def Shared.leave (s : Shared ε) : Shared ε := { s with mu := none }

/-- The deadline of the assembly. -/
def setDeadline (p : TransactionPool ε) (deadline : Option Nat) : TransactionPool ε :=
  { p with assembly := { p.assembly with deadline := deadline } }

def stepWork (o : Oracle ε) (s : Shared ε) : Work → Shared ε × Thread
  | .remember g =>
    let p := s.pool
    if p.shutdown || p.inner.evaluatorPaused then (s.leave, .idle)
    else if p.inner.evaluator.isSome || !p.inner.reprimeOnDemand || recentlyTried ⟨o.ledger, o.now⟩ p.inner then
      (s, .judging g)
    else
      ({ s with pool := { p with inner := { p.inner with reprimeAttempt := some (o.ledger.latest, o.now) } } },
        .rebuilding (.begin ∅) (some g))
  | .onNewBlock round committed =>
    let p := s.pool
    if p.shutdown then (s.leave, .idle)
    else if p.inner.evaluatorPaused then
      if p.inner.pausedLastRound.all (· < round) then ({ s.leave with pool := recordPaused round committed p }, .idle)
      else (s.leave, .idle)
    else if p.inner.evaluator.all (fun e => decide (ev.round e ≤ round)) then
      ({ s with pool := adjustFeeThreshold p }, .rebuilding (.begin committed) none)
    else (s.leave, .idle)
  | .evictGroups ids error =>
    let p := s.pool
    if (evictedGroups enc p ids).isEmpty then (s.leave, .idle)
    else if p.inner.evaluator.isSome then ({ s with pool := withoutGroups enc p ids error }, .rebuilding (.begin ∅) none)
    else ({ s.leave with pool := withoutGroups enc p ids error }, .idle)

/-- The evaluator is behind the ledger and there is time to wait, or the group is judged. -/
def stepJudging (o : Oracle ε) (s : Shared ε) (g : Group) : Shared ε × Thread :=
  match s.pool.inner.evaluator with
  | none => (s.leave, .idle)
  | some e =>
    if ev.round e ≤ o.ledger.latest ∧ o.late = false then (s.leave, .waiting g)
    else
      match judge enc ev ⟨o.ledger, o.now⟩ g s.pool e with
      | (.error _, p) => ({ s.leave with pool := p }, .idle)
      | (.ok _, p) => ({ s.leave with pool := rememberCommit false p }, .idle)

/-- The result in the slot, if it is for this round. -/
def stepCollecting (s : Shared ε) (round : Round) : Shared ε × Thread :=
  let results := s.pool.assembly.results
  let s := { s with pool := setDeadline s.pool none }
  match results.err with
  | some e =>
    (s, .returned round (.error (.evaluator ("AssembleBlock: encountered error for round " ++ toString round ++ ": " ++
      e.display))))
  | none =>
    if round < results.roundStartedEvaluating then (s, .returned round (.error .staleBlockAssemblyRequest))
    else if results.roundStartedEvaluating = round - 1 then (s, .emptying round)
    else if results.roundStartedEvaluating < round then
      (s, .returned round (.error (.evaluator ("AssembleBlock: assembled block round much behind requested round: " ++
        toString results.roundStartedEvaluating ++ " != " ++ toString round))))
    else
      match results.block with
      | some block => (s, .returned round (.ok block))
      | none => (s, .returned round (.error (.evaluator "AssembleBlock: no block produced")))

/-- The wait for the slot goes on. -/
def stillWaits (o : Oracle ε) (s : Shared ε) (round : Round) : Bool :=
  !o.late && (!s.pool.assembly.results.ok || s.pool.assembly.results.roundStartedEvaluating != round)

/-- One step of a thread; `none` where it is blocked or has nothing to do. -/
def stepThread (o : Oracle ε) (s : Shared ε) (t : Nat) : Thread → Option (Shared ε × Thread)
  | .idle => none
  | .returned _ _ => none
  | .checking g =>
    match rejectInBlockFlags 0 g with
    | .error _ => some (s, .idle)
    | .ok _ =>
      if s.pool.config.poolSize < s.pool.pending.txids.entries.length + g.length then
        if isStateProof g then some (s, .flagging g) else some (s, .idle)
      else some (s, .entering (.remember g))
  | .flagging g =>
    if s.mu.isSome then none
    else if s.pool.inner.stateproofOverflowed then some (s, .idle)
    else some ({ s with pool := taken s.pool }, .entering (.remember g))
  | .entering w => if s.mu.isSome then none else some ({ s with mu := some t }, .working w)
  | .working w => some (stepWork enc ev o s w)
  | .rebuilding stage next =>
    match stageStep enc ev o.ledger s.pool stage with
    | (p, some stage') => some ({ s with pool := p }, .rebuilding stage' next)
    | (p, none) =>
      match next with
      | some g => some ({ s with pool := p }, .judging g)
      | none => some ({ s.leave with pool := p }, .idle)
  | .judging g => some (stepJudging enc ev o s g)
  | .waiting g =>
    if s.mu.isSome then none
    else if s.pool.inner.evaluatorPaused || s.pool.inner.evaluator.isNone || s.pool.shutdown then some (s, .idle)
    else some ({ s with mu := some t }, .judging g)
  | .assembling round deadline =>
    if s.pool.assembly.results.roundStartedEvaluating ≤ round - 2 then some (s, .emptying round)
    else if round < s.pool.assembly.results.roundStartedEvaluating then
      some (s, .returned round (.error .staleBlockAssemblyRequest))
    else
      some ({ s with pool := { s.pool with assembly := { s.pool.assembly with deadline := some deadline, round := round } } },
        .awaiting round)
  | .awaiting round =>
    if stillWaits o s round then some (s, .awaiting round)
    else if !s.pool.assembly.results.ok then some (s, .fallback round)
    else some (s, .collecting round)
  | .fallback round => some (s, .prepared round (assembleEmptyBlock ev o.ledger round))
  | .prepared round empty =>
    if round < s.pool.assembly.results.roundStartedEvaluating then
      some (s, .returned round (.error .staleBlockAssemblyRequest))
    else some (s, .awaitingLonger round empty)
  | .awaitingLonger round empty =>
    if stillWaits o s round then some (s, .awaitingLonger round empty)
    else if !s.pool.assembly.results.ok then some ({ s with pool := setDeadline s.pool none }, .returned round empty)
    else some (s, .collecting round)
  | .collecting round => some (stepCollecting s round)
  | .emptying round => some (s, .returned round (assembleEmptyBlock ev o.ledger round))

/-- A call as it begins. -/
def Thread.isCall : Thread → Bool
  | .checking _ => true
  | .entering (.onNewBlock _ _) => true
  | .entering (.evictGroups _ _) => true
  | .assembling _ _ => true
  | _ => false

/-- A thread that may begin a call. -/
def Thread.isFree : Thread → Bool
  | .idle => true
  | .returned _ _ => true
  | _ => false

structure System (ε : Type) where
  shared : Shared ε
  threads : Nat → Thread

/-- The ledger's headers and evaluators are of the rounds asked for. -/
structure LedgerRounds (ledger : PoolLedger ε) : Prop where
  blockHdr : ∀ round hdr, ledger.blockHdr round = .ok hdr → hdr.round = round
  startEvaluator : ∀ hdr hint bytes e, ledger.startEvaluator hdr hint bytes = .ok e → ev.round e = hdr.round + 1

/-- An evaluator builds a block for one round. -/
structure EvaluatorRounds : Prop where
  transactionGroup : ∀ e g, ev.round (ev.transactionGroup e g).2 = ev.round e
  resetTxnBytes : ∀ e, ev.round (ev.resetTxnBytes e) = ev.round e
  generateBlock : ∀ e block, (ev.generateBlock e).1 = .ok block → block.round = ev.round e

/-- A thread begins a call, or takes a step with whatever it finds outside. -/
inductive SystemStep : System ε → System ε → Prop
  | call {s : System ε} (t : Nat) (th : Thread) : (s.threads t).isFree = true → th.isCall = true →
    SystemStep s { s with threads := Function.update s.threads t th }
  | act {s : System ε} (t : Nat) (o : Oracle ε) (shared : Shared ε) (th : Thread) : LedgerRounds ev o.ledger →
    stepThread enc ev o s.shared t (s.threads t) = some (shared, th) →
    SystemStep s { shared := shared, threads := Function.update s.threads t th }

def System.new (config : PoolConfig) : System ε := ⟨⟨TransactionPool.new config, none⟩, fun _ => .idle⟩

/-- What some steps of some threads lead to. -/
def Reaches (s s' : System ε) : Prop := Relation.ReflTransGen (SystemStep enc ev) s s'

end Model

/-! ## The slot -/

section Invariant

variable {ε : Type} (ev : BlockEvaluator ε)

/-- A block in the slot is of the round the slot names. -/
def SlotOk (p : TransactionPool ε) : Prop :=
  ∀ block, p.assembly.results.block = some block → block.round = p.assembly.results.roundStartedEvaluating

/-- What a rebuild knows of the slot: once it has emptied the slot, its evaluator is for the round the slot names. -/
def StageOk (p : TransactionPool ε) : Stage → Prop
  | .begin _ => True
  | .header _ _ => True
  | .results _ latest prevHdr => prevHdr.round = latest
  | .start _ prevHdr _ => p.assembly.results.roundStartedEvaluating = prevHdr.round + 1
  | .feed _ _ => ∀ e, p.inner.evaluator = some e → ev.round e = p.assembly.results.roundStartedEvaluating
  | .generate => ∀ e, p.inner.evaluator = some e → ev.round e = p.assembly.results.roundStartedEvaluating
  | .flush => True

/-- A result of `assembleBlock`. -/
def ResultOk (round : Round) (result : Except PoolError Block) : Prop :=
  1 ≤ round → ∀ block, result = .ok block → block.round = round

def ThreadOk (p : TransactionPool ε) : Thread → Prop
  | .rebuilding stage _ => StageOk ev p stage
  | .prepared round empty => ResultOk round empty
  | .awaitingLonger round empty => ResultOk round empty
  | .returned round result => ResultOk round result
  | _ => True

def Thread.holdsMu : Thread → Bool
  | .working _ => true
  | .rebuilding _ _ => true
  | .judging _ => true
  | _ => false

structure SystemOk (s : System ε) : Prop where
  slot : SlotOk s.shared.pool
  threads : ∀ t, ThreadOk ev s.shared.pool (s.threads t)
  owner : ∀ t, (s.threads t).holdsMu = true → s.shared.mu = some t

variable {ev} {enc : TxnEncoding} {p p' : TransactionPool ε}

/-- Sections that leave the results and what is under `mu` as they are. -/
structure Quiet (p p' : TransactionPool ε) : Prop where
  results : p'.assembly.results = p.assembly.results
  inner : p'.inner = p.inner

theorem StageOk.quiet {stage : Stage} (h : StageOk ev p stage) (hquiet : Quiet p p') : StageOk ev p' stage := by
  cases stage with
  | begin _ => trivial
  | header _ _ => trivial
  | results _ _ _ => exact h
  | start _ _ _ =>
    show p'.assembly.results.roundStartedEvaluating = _
    rw [hquiet.results]
    exact h
  | feed _ _ =>
    show ∀ e, p'.inner.evaluator = some e → _
    rw [hquiet.results, hquiet.inner]
    exact h
  | generate =>
    show ∀ e, p'.inner.evaluator = some e → _
    rw [hquiet.results, hquiet.inner]
    exact h
  | flush => trivial

/-- A thread without `mu` does not look at the pool, and one with it sees no change in what it relies on. -/
theorem ThreadOk.quiet {th : Thread} (h : ThreadOk ev p th) (hquiet : th.holdsMu = true → Quiet p p') :
    ThreadOk ev p' th := by
  cases th with
  | rebuilding stage next => exact StageOk.quiet h (hquiet rfl)
  | prepared _ _ => exact h
  | awaitingLonger _ _ => exact h
  | returned _ _ => exact h
  | _ => trivial

/-! ### The evaluator keeps its round -/

variable (hev : EvaluatorRounds ev)

include hev

theorem once_round {round : Round} (g : Group) (inner : PoolInner ε)
    (h : ∀ e, inner.evaluator = some e → ev.round e = round) :
    ∀ e, (addToPendingBlockEvaluatorOnce ev g inner).2.evaluator = some e → ev.round e = round := by
  unfold addToPendingBlockEvaluatorOnce
  cases he : inner.evaluator with
  | none =>
    intro e he'
    rw [he] at he'
    cases he'
  | some e =>
    simp only
    cases checkExpired (ev.round e + inner.numPendingWholeBlocks) g with
    | error err => exact h
    | ok u =>
      simp only
      have hround := hev.transactionGroup e g
      cases htxn : ev.transactionGroup e g with
      | mk r e' =>
        rw [htxn] at hround
        have hkeeps : ∀ e'', some e' = some e'' → ev.round e'' = round := by
          intro e'' heq
          cases heq
          exact hround.trans (h e he)
        cases r with
        | error err => exact hkeeps
        | ok u => exact hkeeps

theorem add_round {round : Round} (g : Group) (inner : PoolInner ε)
    (h : ∀ e, inner.evaluator = some e → ev.round e = round) :
    ∀ e, (addToPendingBlockEvaluator ev g inner).2.evaluator = some e → ev.round e = round := by
  have honce := once_round hev g inner h
  unfold addToPendingBlockEvaluator
  cases hadd : addToPendingBlockEvaluatorOnce ev g inner with
  | mk r inner' =>
    rw [hadd] at honce
    cases r with
    | ok u => exact honce
    | error err =>
      simp only
      split
      · refine once_round hev g _ ?_
        intro e he
        obtain ⟨e', he', rfl⟩ := Option.map_eq_some_iff.1 he
        exact (hev.resetTxnBytes e').trans (honce e' he')
      · exact honce

theorem refeed_round {round : Round} (committed : Finset Digest) (g : Group) (inner : PoolInner ε)
    (h : ∀ e, inner.evaluator = some e → ev.round e = round) :
    ∀ e, (refeed enc ev committed inner g).evaluator = some e → ev.round e = round := by
  cases g with
  | nil => exact h
  | cons first rest =>
    have hadd := add_round hev (first :: rest) inner h
    unfold refeed addToBlockEvaluator
    simp only
    split
    · exact h
    · cases hr : addToPendingBlockEvaluator ev (first :: rest) inner with
      | mk r inner' =>
        rw [hr] at hadd
        cases r with
        | ok u => exact hadd
        | error e => exact hadd

theorem foldl_refeed_round {round : Round} (committed : Finset Digest) : ∀ (groups : List Group) (inner : PoolInner ε),
    (∀ e, inner.evaluator = some e → ev.round e = round) →
    ∀ e, (groups.foldl (refeed enc ev committed) inner).evaluator = some e → ev.round e = round
  | [], _, h => h
  | g :: groups, i, h => foldl_refeed_round committed groups _ (refeed_round hev committed g i h)

omit hev

/-! ### One step -/

/-- **An empty block is of the round asked for.** -/
theorem assembleEmptyBlock_round (hev : EvaluatorRounds ev) {ledger : PoolLedger ε} (hledger : LedgerRounds ev ledger)
    (round : Round) : ResultOk round (assembleEmptyBlock ev ledger round) := by
  intro hround block hblock
  unfold assembleEmptyBlock at hblock
  cases hhdr : ledger.blockHdr (round - 1) with
  | error e =>
    rw [hhdr] at hblock
    cases hblock
  | ok prevHdr =>
    rw [hhdr] at hblock
    simp only at hblock
    cases hstart : ledger.startEvaluator prevHdr 0 0 with
    | error e =>
      rw [hstart] at hblock
      cases hblock
    | ok e =>
      rw [hstart] at hblock
      simp only at hblock
      cases hgen : (ev.generateBlock e).1 with
      | error err =>
        rw [hgen] at hblock
        cases hblock
      | ok b =>
        rw [hgen] at hblock
        cases hblock
        rw [hev.generateBlock e block hgen, hledger.startEvaluator prevHdr 0 0 e hstart, hledger.blockHdr _ _ hhdr]
        exact Nat.sub_add_cancel hround

theorem pregenerate_slot (hev : EvaluatorRounds ev) (hslot : SlotOk p)
    (h : ∀ e, p.inner.evaluator = some e → ev.round e = p.assembly.results.roundStartedEvaluating) :
    SlotOk (pregenerate ev p) := by
  unfold pregenerate
  cases he : p.inner.evaluator with
  | none => exact hslot
  | some e =>
    simp only
    split
    · have hgen := hev.generateBlock e
      cases hb : ev.generateBlock e with
      | mk r e' =>
        rw [hb] at hgen
        cases r with
        | ok block =>
          intro block' hblock'
          cases hblock'
          exact (hgen block rfl).trans (h e he)
        | error err => exact hslot
    · exact hslot

/-- **A section of a rebuild keeps the slot.** -/
theorem stageStep_ok (hev : EvaluatorRounds ev) {ledger : PoolLedger ε} (hledger : LedgerRounds ev ledger) (hslot : SlotOk p)
    {stage : Stage} (hstage : StageOk ev p stage) :
    SlotOk (stageStep enc ev ledger p stage).1 ∧
      ∀ stage', (stageStep enc ev ledger p stage).2 = some stage' →
        StageOk ev (stageStep enc ev ledger p stage).1 stage' := by
  cases stage with
  | begin committed =>
    unfold stageStep
    simp only
    split
    · exact ⟨hslot, fun _ h => nomatch h⟩
    · exact ⟨hslot, fun _ h => by cases h; trivial⟩
  | header committed latest =>
    unfold stageStep
    simp only
    cases hhdr : ledger.blockHdr latest with
    | error e => exact ⟨hslot, fun _ h => nomatch h⟩
    | ok prevHdr => exact ⟨hslot, fun _ h => by cases h; exact hledger.blockHdr latest prevHdr hhdr⟩
  | results committed latest prevHdr =>
    refine ⟨(fun block hblock => nomatch hblock), fun stage' h => ?_⟩
    cases h
    show latest + 1 = prevHdr.round + 1
    rw [show prevHdr.round = latest from hstage]
  | start committed prevHdr txgroups =>
    unfold stageStep
    simp only
    cases hstart : ledger.startEvaluator prevHdr ((txgroups.map List.length).sum - committed.card) 0 with
    | error e => exact ⟨hslot, fun _ h => nomatch h⟩
    | ok e =>
      refine ⟨hslot, fun stage' h => ?_⟩
      cases h
      intro e' he'
      cases he'
      exact (hledger.startEvaluator _ _ _ _ hstart).trans (show _ = _ from hstage).symm
  | feed committed txgroups =>
    refine ⟨hslot, fun stage' h => ?_⟩
    cases h
    exact foldl_refeed_round hev committed txgroups p.inner hstage
  | generate =>
    refine ⟨pregenerate_slot hev hslot hstage, fun stage' h => ?_⟩
    cases h
    trivial
  | flush => exact ⟨hslot, fun _ h => nomatch h⟩

/-- What a step of a thread does to the others: nothing they rely on, or it had `mu` or found it free. -/
def Apart (t : Nat) (s s' : Shared ε) : Prop :=
  (Quiet s.pool s'.pool ∧ s'.mu = s.mu) ∨ s.mu = some t ∨ s.mu = none

theorem Quiet.refl (p : TransactionPool ε) : Quiet p p := ⟨rfl, rfl⟩

theorem stepWork_ok {o : Oracle ε} {s : Shared ε} {t : Nat} {w : Work} (hslot : SlotOk s.pool) (hmu : s.mu = some t) :
    SlotOk (stepWork enc ev o s w).1.pool ∧ ThreadOk ev (stepWork enc ev o s w).1.pool (stepWork enc ev o s w).2 ∧
      ((stepWork enc ev o s w).2.holdsMu = true → (stepWork enc ev o s w).1.mu = some t) := by
  cases w with
  | remember g =>
    unfold stepWork
    simp only
    split
    · exact ⟨hslot, trivial, fun h => nomatch h⟩
    split
    · exact ⟨hslot, trivial, fun _ => hmu⟩
    · exact ⟨hslot, trivial, fun _ => hmu⟩
  | onNewBlock round committed =>
    unfold stepWork
    simp only
    split
    · exact ⟨hslot, trivial, fun h => nomatch h⟩
    split
    · split
      · exact ⟨hslot, trivial, fun h => nomatch h⟩
      · exact ⟨hslot, trivial, fun h => nomatch h⟩
    split
    · exact ⟨hslot, trivial, fun _ => hmu⟩
    · exact ⟨hslot, trivial, fun h => nomatch h⟩
  | evictGroups ids error =>
    unfold stepWork
    simp only
    split
    · exact ⟨hslot, trivial, fun h => nomatch h⟩
    split
    · exact ⟨hslot, trivial, fun _ => hmu⟩
    · exact ⟨hslot, trivial, fun h => nomatch h⟩

theorem stepJudging_ok {o : Oracle ε} {s : Shared ε} {g : Group} (hslot : SlotOk s.pool) :
    SlotOk (stepJudging enc ev o s g).1.pool ∧ ThreadOk ev (stepJudging enc ev o s g).1.pool (stepJudging enc ev o s g).2 ∧
      (stepJudging enc ev o s g).2.holdsMu = false := by
  unfold stepJudging
  cases he : s.pool.inner.evaluator with
  | none => exact ⟨hslot, trivial, rfl⟩
  | some e =>
    simp only
    split
    · exact ⟨hslot, trivial, rfl⟩
    · obtain ⟨fee, o', n, -, ⟨err, hjudge⟩ | ⟨hjudge, -⟩⟩ := @judge_cases ε enc ev ⟨o.ledger, o.now⟩ g s.pool e he
      · rw [hjudge]
        exact ⟨hslot, trivial, rfl⟩
      · rw [hjudge]
        exact ⟨hslot, trivial, rfl⟩

/-- **The block that is collected is of the round asked for**, since the slot names it. -/
theorem stepCollecting_ok {s : Shared ε} {round : Round} (hslot : SlotOk s.pool) :
    SlotOk (stepCollecting s round).1.pool ∧ ThreadOk ev (stepCollecting s round).1.pool (stepCollecting s round).2 ∧
      (stepCollecting s round).2.holdsMu = false ∧ Quiet s.pool (stepCollecting s round).1.pool ∧
      (stepCollecting s round).1.mu = s.mu := by
  have herror : ∀ e, ResultOk round (.error e) := fun e _ block h => nomatch h
  have hquiet : Quiet s.pool (setDeadline s.pool none) := ⟨rfl, rfl⟩
  unfold stepCollecting
  simp only
  split
  · exact ⟨hslot, herror _, rfl, hquiet, rfl⟩
  split
  · exact ⟨hslot, herror _, rfl, hquiet, rfl⟩
  split
  · exact ⟨hslot, trivial, rfl, hquiet, rfl⟩
  split
  · exact ⟨hslot, herror _, rfl, hquiet, rfl⟩
  · rename_i hnot hbehind hless
    split
    · rename_i block hblock
      refine ⟨hslot, ?_, rfl, hquiet, rfl⟩
      intro _ block' heq
      cases heq
      rw [hslot block hblock]
      exact Nat.le_antisymm (Nat.le_of_not_lt hnot) (Nat.le_of_not_lt hless)
    · exact ⟨hslot, herror _, rfl, hquiet, rfl⟩

/-- **One step of a thread.** -/
theorem stepThread_ok (hev : EvaluatorRounds ev) {o : Oracle ε} (hledger : LedgerRounds ev o.ledger)
    {s s' : Shared ε} {t : Nat}
    {th th' : Thread} (hslot : SlotOk s.pool) (hthread : ThreadOk ev s.pool th) (hmu : th.holdsMu = true → s.mu = some t)
    (h : stepThread enc ev o s t th = some (s', th')) :
    SlotOk s'.pool ∧ ThreadOk ev s'.pool th' ∧ (th'.holdsMu = true → s'.mu = some t) ∧ Apart t s s' := by
  -- a thread that moves on and touches nothing that is shared
  have hmoved : ∀ th' : Thread, ThreadOk ev s.pool th' → th'.holdsMu = false →
      SlotOk s.pool ∧ ThreadOk ev s.pool th' ∧ (th'.holdsMu = true → s.mu = some t) ∧ Apart t s s :=
    fun _ hok hnot => ⟨hslot, hok, (fun hholds => by rw [hnot] at hholds; cases hholds), .inl ⟨.refl _, rfl⟩⟩
  cases th with
  | idle => cases h
  | returned _ _ => cases h
  | checking g =>
    unfold stepThread at h
    simp only at h
    split at h
    · cases h
      exact hmoved _ trivial rfl
    split at h
    · split at h
      · cases h
        exact hmoved _ trivial rfl
      · cases h
        exact hmoved _ trivial rfl
    · cases h
      exact hmoved _ trivial rfl
  | flagging g =>
    unfold stepThread at h
    simp only at h
    split at h
    · cases h
    rename_i hfree
    have hnone : s.mu = none := Option.not_isSome_iff_eq_none.1 hfree
    split at h
    · cases h
      exact hmoved _ trivial rfl
    · cases h
      exact ⟨hslot, trivial, (fun h => nomatch h), .inr (.inr hnone)⟩
  | entering w =>
    unfold stepThread at h
    simp only at h
    split at h
    · cases h
    rename_i hfree
    cases h
    exact ⟨hslot, trivial, (fun _ => rfl), .inr (.inr (Option.not_isSome_iff_eq_none.1 hfree))⟩
  | working w =>
    have hown := hmu rfl
    have hstep : stepWork enc ev o s w = (s', th') := Option.some.inj h
    have hok := @stepWork_ok ε ev enc o s t w hslot hown
    rw [hstep] at hok
    obtain ⟨hslot', hthread', hmu'⟩ := hok
    exact ⟨hslot', hthread', hmu', .inr (.inl hown)⟩
  | rebuilding stage next =>
    have hown := hmu rfl
    obtain ⟨hslot', hstage'⟩ := @stageStep_ok ε ev enc s.pool hev o.ledger hledger hslot stage hthread
    unfold stepThread at h
    simp only at h
    cases hstep : stageStep enc ev o.ledger s.pool stage with
    | mk p r =>
      rw [hstep] at h hslot' hstage'
      cases r with
      | some stage' =>
        cases h
        exact ⟨hslot', hstage' stage' rfl, (fun _ => hown), .inr (.inl hown)⟩
      | none =>
        cases next with
        | some g =>
          cases h
          exact ⟨hslot', trivial, (fun _ => hown), .inr (.inl hown)⟩
        | none =>
          cases h
          exact ⟨hslot', trivial, (fun h => nomatch h), .inr (.inl hown)⟩
  | judging g =>
    have hown := hmu rfl
    have hstep : stepJudging enc ev o s g = (s', th') := Option.some.inj h
    have hok := @stepJudging_ok ε ev enc o s g hslot
    rw [hstep] at hok
    obtain ⟨hslot', hthread', hnot⟩ := hok
    exact ⟨hslot', hthread', (fun hholds => by rw [hnot] at hholds; cases hholds), .inr (.inl hown)⟩
  | waiting g =>
    unfold stepThread at h
    simp only at h
    split at h
    · cases h
    rename_i hfree
    split at h
    · cases h
      exact hmoved _ trivial rfl
    · cases h
      exact ⟨hslot, trivial, (fun _ => rfl), .inr (.inr (Option.not_isSome_iff_eq_none.1 hfree))⟩
  | assembling round deadline =>
    unfold stepThread at h
    simp only at h
    split at h
    · cases h
      exact hmoved _ trivial rfl
    split at h
    · cases h
      exact hmoved _ (fun _ block h => nomatch h) rfl
    · cases h
      exact ⟨hslot, trivial, (fun h => nomatch h), .inl ⟨⟨rfl, rfl⟩, rfl⟩⟩
  | awaiting round =>
    unfold stepThread at h
    simp only at h
    split at h
    · cases h
      exact hmoved _ trivial rfl
    split at h
    · cases h
      exact hmoved _ trivial rfl
    · cases h
      exact hmoved _ trivial rfl
  | fallback round =>
    cases h
    exact hmoved _ (assembleEmptyBlock_round hev hledger round) rfl
  | prepared round empty =>
    unfold stepThread at h
    simp only at h
    split at h
    · cases h
      exact hmoved _ (fun _ block h => nomatch h) rfl
    · cases h
      exact hmoved _ hthread rfl
  | awaitingLonger round empty =>
    unfold stepThread at h
    simp only at h
    split at h
    · cases h
      exact hmoved _ hthread rfl
    split at h
    · cases h
      exact ⟨hslot, hthread, (fun h => nomatch h), .inl ⟨⟨rfl, rfl⟩, rfl⟩⟩
    · cases h
      exact hmoved _ trivial rfl
  | collecting round =>
    have hstep : stepCollecting s round = (s', th') := Option.some.inj h
    have hok := @stepCollecting_ok ε ev s round hslot
    rw [hstep] at hok
    obtain ⟨hslot', hthread', hnot, hquiet, hmu'⟩ := hok
    exact ⟨hslot', hthread', (fun hholds => by rw [hnot] at hholds; cases hholds), .inl ⟨hquiet, hmu'⟩⟩
  | emptying round =>
    cases h
    exact hmoved _ (assembleEmptyBlock_round hev hledger round) rfl

/-! ## Every interleaving -/

theorem systemOk_new (config : PoolConfig) : SystemOk ev (System.new config : System ε) :=
  ⟨(fun _ h => nomatch h), (fun _ => trivial), fun _ h => nomatch h⟩

theorem SystemOk.step (hev : EvaluatorRounds ev) {s s' : System ε} (hs : SystemOk ev s) (h : SystemStep enc ev s s') :
    SystemOk ev s' := by
  cases h with
  | call t th hfree hcall =>
    have hth : ThreadOk ev s.shared.pool th ∧ th.holdsMu = false := by
      cases th with
      | checking _ => exact ⟨trivial, rfl⟩
      | entering _ => exact ⟨trivial, rfl⟩
      | assembling _ _ => exact ⟨trivial, rfl⟩
      | _ => cases hcall
    refine ⟨hs.slot, fun u => ?_, fun u => ?_⟩
    · by_cases hu : u = t
      · subst hu
        simp only [Function.update_self]
        exact hth.1
      · simp only [Function.update_of_ne hu]
        exact hs.threads u
    · by_cases hu : u = t
      · subst hu
        simp only [Function.update_self]
        rw [hth.2]
        exact fun h => nomatch h
      · simp only [Function.update_of_ne hu]
        exact hs.owner u
  | act t o shared th hledger hstep =>
    obtain ⟨hslot, hthread, hmu, hapart⟩ := stepThread_ok hev hledger hs.slot (hs.threads t) (hs.owner t) hstep
    -- another thread that has `mu` sees a step that leaves its part alone
    have hother : ∀ u, u ≠ t → (s.threads u).holdsMu = true →
        Quiet s.shared.pool shared.pool ∧ shared.mu = s.shared.mu := by
      intro u hu hholds
      have hown := hs.owner u hholds
      rcases hapart with hquiet | hmine | hfree
      · exact hquiet
      · rw [hown] at hmine
        exact absurd (Option.some.inj hmine) hu
      · rw [hown] at hfree
        cases hfree
    refine ⟨hslot, fun u => ?_, fun u => ?_⟩
    · by_cases hu : u = t
      · subst hu
        simp only [Function.update_self]
        exact hthread
      · simp only [Function.update_of_ne hu]
        exact (hs.threads u).quiet (fun hholds => (hother u hu hholds).1)
    · by_cases hu : u = t
      · subst hu
        simp only [Function.update_self]
        exact hmu
      · simp only [Function.update_of_ne hu]
        exact fun hholds => ((hother u hu hholds).2).trans (hs.owner u hholds)

theorem SystemOk.reaches (hev : EvaluatorRounds ev) {s s' : System ε} (hs : SystemOk ev s) (h : Reaches enc ev s s') :
    SystemOk ev s' := by
  induction h with
  | refl => exact hs
  | tail _ hstep ih => exact ih.step hev hstep

/-- **Block assembly answers for the round asked**, in every interleaving of calls: where the evaluators and the ledger keep
to their rounds, a block that `assembleBlock` returns for a round from 1 on is of that round. -/
theorem assembled_round (hev : EvaluatorRounds ev) (config : PoolConfig) (s : System ε)
    (hs : Reaches enc ev (System.new config) s) (t : Nat) (round : Round) (block : Block) (hround : 1 ≤ round)
    (hreturned : s.threads t = .returned round (.ok block)) : block.round = round := by
  have hok := (systemOk_new config).reaches hev hs
  have hthread := hok.threads t
  rw [hreturned] at hthread
  exact hthread hround block rfl

end Invariant

/-! ## A request that waits for a rebuild -/

section Schedule

variable {ε : Type} (enc : TxnEncoding) (ev : BlockEvaluator ε)

/-- A schedule: which thread begins a call or takes a step, and what it finds. -/
inductive Move (ε : Type)
  | call (t : Nat) (th : Thread)
  | act (t : Nat) (o : Oracle ε)

def System.move (s : System ε) : Move ε → Option (System ε)
  | .call t th =>
    if (s.threads t).isFree && th.isCall then some { s with threads := Function.update s.threads t th } else none
  | .act t o =>
    (stepThread enc ev o s.shared t (s.threads t)).map
      (fun r => { shared := r.1, threads := Function.update s.threads t r.2 })

def System.moveAll : List (Move ε) → System ε → Option (System ε)
  | [], s => some s
  | m :: moves, s => (s.move enc ev m).bind (System.moveAll moves)

variable {enc ev}

theorem reaches_of_moves : ∀ (moves : List (Move ε)) {s s' : System ε},
    (∀ t o, Move.act t o ∈ moves → LedgerRounds ev o.ledger) → s.moveAll enc ev moves = some s' → Reaches enc ev s s'
  | [], s, s', _, h => by
    cases h
    exact .refl
  | m :: moves, s, s', hledgers, h => by
    obtain ⟨s₁, hmove, hrest⟩ := Option.bind_eq_some_iff.1 h
    have hreaches := reaches_of_moves moves (fun t o hin => hledgers t o (List.mem_cons_of_mem _ hin)) hrest
    refine Relation.ReflTransGen.head ?_ hreaches
    cases m with
    | call t th =>
      unfold System.move at hmove
      simp only at hmove
      split at hmove
      · rename_i hfree
        rw [Bool.and_eq_true] at hfree
        cases hmove
        exact .call t th hfree.1 hfree.2
      · cases hmove
    | act t o =>
      obtain ⟨⟨shared, th⟩, hstep, rfl⟩ := Option.map_eq_some_iff.1 hmove
      exact .act t o shared th (hledgers t o List.mem_cons_self) hstep

end Schedule

theorem roundEvaluator_rounds (enc : TxnEncoding) : EvaluatorRounds (roundEvaluator enc) where
  transactionGroup e g := by
    simp only [roundEvaluator]
    split <;> rfl
  resetTxnBytes _ := rfl
  generateBlock e block h := by
    cases h
    rfl

theorem roundMoment_rounds (enc : TxnEncoding) (latest : Round) (confirmed : List Digest) :
    LedgerRounds (roundEvaluator enc) (roundMoment latest confirmed).ledger where
  blockHdr round hdr h := by
    cases h
    rfl
  startEvaluator hdr hint bytes e h := by
    cases h
    rfl

def sampleOracle (late : Bool) : Oracle (Round × List Digest) := ⟨(roundMoment 10 []).ledger, 0, late⟩

/-- A call of a thread, or a step of it that is in time or late. -/
def sampleMove : Nat × (Thread ⊕ Bool) → Move (Round × List Digest)
  | (t, .inl th) => .call t th
  | (t, .inr late) => .act t (sampleOracle late)

/-- A rebuild empties the slot; a request comes, runs out of time and prepares an empty block; the rebuild fills the slot,
and the request takes what it finds there. -/
def sampleSchedule : List (Move (Round × List Digest)) :=
  List.map sampleMove ([(1, .inl (.entering (.onNewBlock 10 ∅)))] ++ List.replicate 5 (1, .inr false) ++
    [(2, .inl (.assembling 11 500)), (2, .inr false), (2, .inr true), (2, .inr false), (2, .inr false)] ++
    List.replicate 4 (1, .inr false) ++ List.replicate 2 (2, .inr false))

def sampleSystem : System (Round × List Digest) :=
  (System.moveAll sampleEncoding (roundEvaluator sampleEncoding) sampleSchedule (.new ⟨10, 2, 500⟩)).getD (.new ⟨10, 2, 500⟩)

theorem sampleSystem_reached : Reaches sampleEncoding (roundEvaluator sampleEncoding) (.new ⟨10, 2, 500⟩) sampleSystem := by
  refine reaches_of_moves sampleSchedule ?_ rfl
  intro t o hin
  obtain ⟨⟨t', call | late⟩, -, heq⟩ := List.mem_map.1 hin
  · cases heq
  · cases heq
    exact roundMoment_rounds sampleEncoding 10 []

theorem assembled_round_eleven : ∃ block, sampleSystem.threads 2 = .returned 11 (.ok block) ∧ block.round = 11 := by
  refine ⟨{ (default : Block) with round := 11 }, rfl, ?_⟩
  exact assembled_round (roundEvaluator_rounds sampleEncoding) ⟨10, 2, 500⟩ sampleSystem sampleSystem_reached 2 11 _
    (by decide) rfl

end Pool
end Algod
