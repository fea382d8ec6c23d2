import AlgodRust.Pool.PureTest
/-!
# Departures — the groups that leave the pool

A group leaves when a block committed it, when a new evaluator refuses it or when it is evicted.  Each departure writes
the same text for every transaction of the group.  `rebuildDepartures` reads off a rebuild which groups leave and why;
`recompute_rebuilt` says that a rebuild leaves the others as they were, in their order, and that the status cache has got
the records of the departures and no other.  Nothing is asked of the evaluator here.
-/
namespace Algod
namespace Pool

open Ledger (SignedTransaction)
open TransactionPool

/-! ## Records -/

inductive Cause
  | committed
  | refused (e : PoolError)
  | evicted (e : AlgoError)

/-- The text of the records of a group. -/
def Cause.text : Cause → String
  | .committed => ""
  | .refused e => e.display
  | .evicted e => (poolErrorFromEvaluator e).display

structure Departure where
  group : Group
  cause : Cause

def Departure.records (enc : TxnEncoding) (d : Departure) : List (Digest × String) :=
  (groupIds enc d.group).map (fun id => (id, d.cause.text))

def allRecords (enc : TxnEncoding) (ds : List Departure) : List (Digest × String) := ds.flatMap (·.records enc)

def StatusCache.putRecords (c : StatusCache) (records : List (Digest × String)) : StatusCache :=
  records.foldl (fun c r => c.put r.1 r.2) c

namespace StatusCache

@[simp] theorem putRecords_nil (c : StatusCache) : c.putRecords [] = c := rfl

theorem putRecords_append (c : StatusCache) (l l' : List (Digest × String)) :
    c.putRecords (l ++ l') = (c.putRecords l).putRecords l' := List.foldl_append

theorem putAll_eq (c : StatusCache) (ids : List Digest) (err : String) :
    c.putAll ids err = c.putRecords (ids.map (fun id => (id, err))) := by
  unfold putAll putRecords
  rw [List.foldl_map]

end StatusCache

@[simp] theorem allRecords_nil (enc : TxnEncoding) : allRecords enc [] = [] := rfl

@[simp] theorem allRecords_append (enc : TxnEncoding) (ds ds' : List Departure) :
    allRecords enc (ds ++ ds') = allRecords enc ds ++ allRecords enc ds' := List.flatMap_append

@[simp] theorem allRecords_single (enc : TxnEncoding) (d : Departure) : allRecords enc [d] = d.records enc := by
  simp [allRecords]

section Refeed

variable {ε : Type} (enc : TxnEncoding) (ev : BlockEvaluator ε) {inner : PoolInner ε}

/-! ## Feeding the pending groups to a new evaluator -/

/-- Why a pending group leaves, if it does. -/
def refeedCause (committed : Finset Digest) (inner : PoolInner ε) (g : Group) : Option Cause :=
  match g with
  | [] => none
  | first :: _ =>
    if enc.computeTxnId first.txn ∈ committed then some .committed
    else
      match (addToBlockEvaluator enc ev g inner).1 with
      | .ok _ => none
      | .error e => some (.refused e)

def refeedDepartures (committed : Finset Digest) : List Group → PoolInner ε → List Departure
  | [], _ => []
  | g :: groups, i =>
    ((refeedCause enc ev committed i g).map (Departure.mk g)).toList ++
      refeedDepartures committed groups (refeed enc ev committed i g)

/-- The groups that stay; an empty one is left out. -/
def refeedSurvivors (committed : Finset Digest) : List Group → PoolInner ε → List Group
  | [], _ => []
  | g :: groups, i =>
    (if g ≠ [] ∧ (refeedCause enc ev committed i g).isNone then [g] else []) ++
      refeedSurvivors committed groups (refeed enc ev committed i g)

variable {enc ev} {committed : Finset Digest}

/-- A group that is fed changes the evaluator and the count of full blocks. -/
theorem once_same (g : Group) (inner : PoolInner ε) :
    ∃ o n, (addToPendingBlockEvaluatorOnce ev g inner).2 = { inner with evaluator := o, numPendingWholeBlocks := n } ∧
      (inner.evaluator.isSome → o.isSome) := by
  unfold addToPendingBlockEvaluatorOnce
  cases he : inner.evaluator with
  | none => exact ⟨inner.evaluator, inner.numPendingWholeBlocks, rfl, fun h => nomatch h⟩
  | some e =>
    simp only
    cases checkExpired (ev.round e + inner.numPendingWholeBlocks) g with
    | error err => exact ⟨inner.evaluator, inner.numPendingWholeBlocks, rfl, fun h => by rw [he]; exact h⟩
    | ok u =>
      simp only
      cases ev.transactionGroup e g with
      | mk r e' =>
        cases r with
        | error err => exact ⟨some e', inner.numPendingWholeBlocks, rfl, fun _ => rfl⟩
        | ok u => exact ⟨some e', inner.numPendingWholeBlocks, rfl, fun _ => rfl⟩

theorem add_same (g : Group) (inner : PoolInner ε) :
    ∃ o n, (addToPendingBlockEvaluator ev g inner).2 = { inner with evaluator := o, numPendingWholeBlocks := n } ∧
      (inner.evaluator.isSome → o.isSome) := by
  obtain ⟨o, n, honce, hsome⟩ := @once_same ε ev g inner
  unfold addToPendingBlockEvaluator
  cases hadd : addToPendingBlockEvaluatorOnce ev g inner with
  | mk r inner' =>
    rw [hadd] at honce
    subst honce
    cases r with
    | ok u => exact ⟨o, n, rfl, hsome⟩
    | error err =>
      simp only
      split
      · obtain ⟨o', n', hagain, hsome'⟩ :=
          @once_same ε ev g (nextPendingBlock ev { inner with evaluator := o, numPendingWholeBlocks := n })
        refine ⟨o', n', hagain, fun h => hsome' ?_⟩
        have ho := hsome h
        unfold nextPendingBlock
        simp only [Option.isSome_map]
        exact ho
      · exact ⟨o, n, rfl, hsome⟩

/-- One group: it is left out, it leaves with its records, or it goes into the buffers. -/
theorem refeed_cases (g : Group) (inner : PoolInner ε) :
    ∃ o n, (inner.evaluator.isSome → o.isSome) ∧
      refeed enc ev committed inner g =
        { inner with
          evaluator := o
          numPendingWholeBlocks := n
          rememberedTxGroups := inner.rememberedTxGroups ++
            (if g ≠ [] ∧ (refeedCause enc ev committed inner g).isNone then [g] else [])
          rememberedTxids := (if g ≠ [] ∧ (refeedCause enc ev committed inner g).isNone then [g] else []).foldl
            (fun m g => g.foldl (fun m stx => m.insert (enc.computeTxnId stx.txn) stx) m) inner.rememberedTxids
          statusCache := inner.statusCache.putRecords
            (allRecords enc ((refeedCause enc ev committed inner g).map (Departure.mk g)).toList) } := by
  cases g with
  | nil =>
    refine ⟨inner.evaluator, inner.numPendingWholeBlocks, id, ?_⟩
    simp [refeed, refeedCause]
  | cons first rest =>
    by_cases hcommitted : enc.computeTxnId first.txn ∈ committed
    · have hcause : refeedCause enc ev committed inner (first :: rest) = some .committed := by
        unfold refeedCause
        simp only
        rw [if_pos hcommitted]
      refine ⟨inner.evaluator, inner.numPendingWholeBlocks, id, ?_⟩
      rw [hcause]
      unfold refeed
      simp only
      rw [if_pos hcommitted, StatusCache.putAll_eq]
      simp [Departure.records, Cause.text]
    · obtain ⟨o, n, hadd, hsome⟩ := @add_same ε ev (first :: rest) inner
      have hcause : refeedCause enc ev committed inner (first :: rest) =
          match (addToPendingBlockEvaluator ev (first :: rest) inner).1 with
          | .ok _ => none
          | .error e => some (.refused e) := by
        unfold refeedCause addToBlockEvaluator
        simp only
        rw [if_neg hcommitted]
        cases addToPendingBlockEvaluator ev (first :: rest) inner with
        | mk r inner' =>
          cases r with
          | ok u => rfl
          | error e => rfl
      refine ⟨o, n, hsome, ?_⟩
      rw [hcause]
      unfold refeed addToBlockEvaluator
      simp only
      rw [if_neg hcommitted]
      cases hr : addToPendingBlockEvaluator ev (first :: rest) inner with
      | mk r inner' =>
        rw [hr] at hadd
        simp only at hadd
        subst hadd
        cases r with
        | ok u => simp [store]
        | error e => simp [StatusCache.putAll_eq, Departure.records, Cause.text]

/-- **All groups, one after another**: the survivors are in the buffers, and the departures have written their records. -/
theorem foldl_refeed_eq : ∀ (groups : List Group) (inner : PoolInner ε),
    ∃ o n, (inner.evaluator.isSome → o.isSome) ∧
      groups.foldl (refeed enc ev committed) inner =
        { inner with
          evaluator := o
          numPendingWholeBlocks := n
          rememberedTxGroups := inner.rememberedTxGroups ++ refeedSurvivors enc ev committed groups inner
          rememberedTxids := (refeedSurvivors enc ev committed groups inner).foldl
            (fun m g => g.foldl (fun m stx => m.insert (enc.computeTxnId stx.txn) stx) m) inner.rememberedTxids
          statusCache := inner.statusCache.putRecords (allRecords enc (refeedDepartures enc ev committed groups inner)) }
  | [], i => by
    refine ⟨i.evaluator, i.numPendingWholeBlocks, id, ?_⟩
    simp [refeedSurvivors, refeedDepartures]
  | g :: groups, i => by
    obtain ⟨o, n, hsome, hone⟩ := @refeed_cases ε enc ev committed g i
    obtain ⟨o', n', hsome', hrest⟩ := foldl_refeed_eq groups (refeed enc ev committed i g)
    have hev : (refeed enc ev committed i g).evaluator = o := by rw [hone]
    refine ⟨o', n', fun h => hsome' (by rw [hev]; exact hsome h), ?_⟩
    rw [List.foldl_cons, hrest, refeedSurvivors, refeedDepartures, allRecords_append, StatusCache.putRecords_append,
      List.foldl_append, ← List.append_assoc]
    generalize refeedSurvivors enc ev committed groups (refeed enc ev committed i g) = survivors
    generalize refeedDepartures enc ev committed groups (refeed enc ev committed i g) = departures
    rw [hone]

theorem refeedSurvivors_sublist : ∀ (groups : List Group) (inner : PoolInner ε),
    (refeedSurvivors enc ev committed groups inner).Sublist groups
  | [], _ => .slnil
  | g :: groups, i => by
    unfold refeedSurvivors
    split
    · exact (refeedSurvivors_sublist groups _).cons_cons g
    · exact (refeedSurvivors_sublist groups _).cons g

/-- A group of the pool stays, or it leaves, or it is empty. -/
theorem mem_survivors_or : ∀ {groups : List Group} {inner : PoolInner ε} {g : Group}, g ∈ groups → g ≠ [] →
    g ∈ refeedSurvivors enc ev committed groups inner ∨
      ∃ d ∈ refeedDepartures enc ev committed groups inner, d.group = g
  | g' :: groups, i, g, hg, hne => by
    unfold refeedSurvivors refeedDepartures
    rcases List.mem_cons.1 hg with rfl | hg
    · cases hcause : refeedCause enc ev committed i g with
      | none => exact .inl (List.mem_append_left _ (by simp [hne]))
      | some c => exact .inr ⟨⟨g, c⟩, by simp, rfl⟩
    · rcases @mem_survivors_or groups (refeed enc ev committed i g') g hg hne with h | ⟨d, hd, hg⟩
      · exact .inl (List.mem_append_right _ h)
      · exact .inr ⟨d, List.mem_append_right _ hd, hg⟩

/-- A group leaves for a block exactly if its first transaction is among the committed ones. -/
theorem refeedCause_some {g : Group} {c : Cause} (h : refeedCause enc ev committed inner g = some c) :
    ∃ first rest, g = first :: rest ∧
      ((c = .committed ∧ enc.computeTxnId first.txn ∈ committed) ∨
        (∃ e, c = .refused e) ∧ enc.computeTxnId first.txn ∉ committed) := by
  cases g with
  | nil => cases h
  | cons first rest =>
    refine ⟨first, rest, rfl, ?_⟩
    unfold refeedCause at h
    simp only at h
    by_cases hcommitted : enc.computeTxnId first.txn ∈ committed
    · rw [if_pos hcommitted] at h
      cases h
      exact .inl ⟨rfl, hcommitted⟩
    · rw [if_neg hcommitted] at h
      refine .inr ⟨?_, hcommitted⟩
      cases hadd : (addToBlockEvaluator enc ev (first :: rest) inner).1 with
      | ok u =>
        rw [hadd] at h
        cases h
      | error e =>
        rw [hadd] at h
        cases h
        exact ⟨e, rfl⟩

theorem mem_refeedDepartures {groups : List Group} {d : Departure}
    (hd : d ∈ refeedDepartures enc ev committed groups inner) :
    d.group ∈ groups ∧ ∃ first rest, d.group = first :: rest ∧
      ((d.cause = .committed ∧ enc.computeTxnId first.txn ∈ committed) ∨
        (∃ e, d.cause = .refused e) ∧ enc.computeTxnId first.txn ∉ committed) := by
  induction groups generalizing inner with
  | nil => cases hd
  | cons g groups ih =>
    rcases List.mem_append.1 hd with hd | hd
    · cases hcause : refeedCause enc ev committed inner g with
      | none =>
        rw [hcause] at hd
        cases hd
      | some c =>
        rw [hcause] at hd
        obtain rfl := List.mem_singleton.1 hd
        exact ⟨List.mem_cons_self, refeedCause_some hcause⟩
    · obtain ⟨hg, hrest⟩ := ih hd
      exact ⟨List.mem_cons_of_mem _ hg, hrest⟩

theorem survivor_not_committed {groups : List Group} {g : Group}
    (hg : g ∈ refeedSurvivors enc ev committed groups inner) :
    ∃ first rest, g = first :: rest ∧ enc.computeTxnId first.txn ∉ committed := by
  induction groups generalizing inner with
  | nil => cases hg
  | cons g' groups ih =>
    rcases List.mem_append.1 hg with hg | hg
    · split at hg
      · rename_i hstays
        obtain rfl := List.mem_singleton.1 hg
        cases g with
        | nil => exact absurd rfl hstays.1
        | cons first rest =>
          refine ⟨first, rest, rfl, fun hcommitted => ?_⟩
          have hcause := hstays.2
          unfold refeedCause at hcause
          simp only at hcause
          rw [if_pos hcommitted] at hcause
          cases hcause
      · cases hg
    · exact ih hg

end Refeed

/-! ## A rebuild -/

section Rebuild

variable {ε : Type} (enc : TxnEncoding) (ev : BlockEvaluator ε)

/-- The transactions a rebuild takes as committed: those of the block, and those of the blocks of a pause. -/
def mergedCommitted (committed : Finset Digest) (inner : PoolInner ε) : Finset Digest :=
  inner.pausedCommitted.foldl (· ∪ ·) committed

/-- The evaluator that a rebuild starts with, where it gets one. -/
def rebuildStart (ledger : PoolLedger ε) (committed : Finset Digest) (p : TransactionPool ε) : Option ε :=
  if p.inner.evaluatorPaused then none
  else
    match ledger.blockHdr ledger.latest with
    | .error _ => none
    | .ok hdr =>
      (ledger.startEvaluator hdr ((p.pending.txGroups.map List.length).sum -
        (mergedCommitted committed p.inner).card) 0).toOption

def rebuildDepartures (ledger : PoolLedger ε) (committed : Finset Digest) (p : TransactionPool ε) : List Departure :=
  match rebuildStart ledger committed p with
  | none => []
  | some e => refeedDepartures enc ev (mergedCommitted committed p.inner) p.pending.txGroups (primed e p.inner)

/-- The index and the groups have the same ids. -/
def Covered (groups : List Group) (txids : FinMap Digest SignedTransaction) : Prop :=
  ∀ id, id ∈ txids ↔ id ∈ allIds enc groups

/-- A pool gives up some groups, with their records, and keeps the others. -/
structure Sheds (ds : List Departure) (p p' : TransactionPool ε) : Prop where
  sub : p'.pending.txGroups.Sublist p.pending.txGroups
  parts : ∀ g ∈ p.pending.txGroups, g ≠ [] → g ∈ p'.pending.txGroups ∨ ∃ d ∈ ds, d.group = g
  covered : Covered enc p.pending.txGroups p.pending.txids → Covered enc p'.pending.txGroups p'.pending.txids
  status : p'.inner.statusCache = p.inner.statusCache.putRecords (allRecords enc ds)
  groups : p.inner.rememberedTxGroups = [] → p'.inner.rememberedTxGroups = []
  txids : p.inner.rememberedTxids = ∅ → p'.inner.rememberedTxids = ∅
  config : p'.config = p.config
  shutdown : p'.shutdown = p.shutdown
  paused : p'.inner.evaluatorPaused = p.inner.evaluatorPaused
  reprime : p.inner.reprimeOnDemand = false → p'.inner.reprimeOnDemand = false

variable {enc ev} {p p' p'' : TransactionPool ε}

theorem mem_mergedCommitted {committed : Finset Digest} {inner : PoolInner ε} {id : Digest} :
    id ∈ mergedCommitted committed inner ↔ id ∈ committed ∨ ∃ s ∈ inner.pausedCommitted, id ∈ s := by
  unfold mergedCommitted
  induction inner.pausedCommitted generalizing committed with
  | nil => simp
  | cons s sets ih =>
    rw [List.foldl_cons, ih, Finset.mem_union, List.exists_mem_cons_iff]
    tauto

theorem covered_survivors (groups : List Group) :
    Covered enc groups (groups.foldl (fun m g => g.foldl (fun m stx => m.insert (enc.computeTxnId stx.txn) stx) m) ∅) := by
  have hmem : ∀ (groups : List Group) (m : FinMap Digest SignedTransaction) (id : Digest),
      id ∈ groups.foldl (fun m g => g.foldl (fun m stx => m.insert (enc.computeTxnId stx.txn) stx) m) m ↔
        id ∈ m ∨ id ∈ allIds enc groups := by
    intro groups
    induction groups with
    | nil => simp [allIds]
    | cons g groups ih =>
      intro m id
      have hsplit : allIds enc (g :: groups) = groupIds enc g ++ allIds enc groups := rfl
      rw [List.foldl_cons, ih, mem_foldl_insert (fun stx : SignedTransaction => enc.computeTxnId stx.txn) (fun stx => stx),
        hsplit, List.mem_append, or_assoc]
      rfl
  intro id
  rw [hmem]
  simp

/-- **A rebuild that gets no evaluator** leaves everything that waits. -/
theorem recompute_stopped {ledger : PoolLedger ε} {committed : Finset Digest} (h : rebuildStart ledger committed p = none) :
    ∃ err n, (recomputeBlockEvaluator enc ev ledger committed p).inner =
        { p.inner with evaluator := none, lastRebuildError := err, numPendingWholeBlocks := n } ∧
      (recomputeBlockEvaluator enc ev ledger committed p).pending = p.pending ∧
      (recomputeBlockEvaluator enc ev ledger committed p).config = p.config ∧
      (recomputeBlockEvaluator enc ev ledger committed p).shutdown = p.shutdown := by
  unfold rebuildStart mergedCommitted at h
  unfold recomputeBlockEvaluator
  simp only
  by_cases hpaused : p.inner.evaluatorPaused = true
  · rw [if_pos hpaused]
    exact ⟨_, _, rfl, rfl, rfl, rfl⟩
  · rw [if_neg hpaused] at h ⊢
    cases hhdr : ledger.blockHdr ledger.latest with
    | error e => exact ⟨_, _, rfl, rfl, rfl, rfl⟩
    | ok hdr =>
      rw [hhdr] at h
      simp only at h ⊢
      cases hstart : ledger.startEvaluator hdr ((p.pending.txGroups.map List.length).sum -
          (p.inner.pausedCommitted.foldl (· ∪ ·) committed).card) 0 with
      | error e => exact ⟨_, _, rfl, rfl, rfl, rfl⟩
      | ok e =>
        rw [hstart] at h
        cases h

theorem pregenerate_same (p : TransactionPool ε) :
    ∃ o, (pregenerate ev p).inner = { p.inner with evaluator := o } ∧ (p.inner.evaluator.isSome → o.isSome) ∧
      (pregenerate ev p).pending = p.pending ∧ (pregenerate ev p).config = p.config ∧
      (pregenerate ev p).shutdown = p.shutdown := by
  unfold pregenerate
  cases he : p.inner.evaluator with
  | none => exact ⟨p.inner.evaluator, rfl, (fun h => nomatch h), rfl, rfl, rfl⟩
  | some e =>
    simp only
    split
    · cases ev.generateBlock e with
      | mk r e' =>
        cases r with
        | ok block => exact ⟨some e', rfl, (fun _ => rfl), rfl, rfl, rfl⟩
        | error err => exact ⟨some e', rfl, (fun _ => rfl), rfl, rfl, rfl⟩
    · exact ⟨p.inner.evaluator, rfl, (fun _ => by rw [he]; rfl), rfl, rfl, rfl⟩

/-- **A rebuild that gets its evaluator**: the survivors are pending, the departures are on record, and nothing is kept of
the blocks of a pause. -/
theorem recompute_rebuilt {ledger : PoolLedger ε} {committed : Finset Digest} {e : ε}
    (h : rebuildStart ledger committed p = some e) :
    ∃ o n survivors,
      survivors = refeedSurvivors enc ev (mergedCommitted committed p.inner) p.pending.txGroups (primed e p.inner) ∧
      o.isSome ∧
      (recomputeBlockEvaluator enc ev ledger committed p).inner =
        { primed e p.inner with
          evaluator := o
          numPendingWholeBlocks := n
          stateproofOverflowed := false
          statusCache := p.inner.statusCache.putRecords (allRecords enc (rebuildDepartures enc ev ledger committed p)) } ∧
      (recomputeBlockEvaluator enc ev ledger committed p).pending =
        ⟨survivors, survivors.foldl (fun m g => g.foldl (fun m stx => m.insert (enc.computeTxnId stx.txn) stx) m) ∅⟩ ∧
      (recomputeBlockEvaluator enc ev ledger committed p).config = p.config ∧
      (recomputeBlockEvaluator enc ev ledger committed p).shutdown = p.shutdown := by
  have hds : rebuildDepartures enc ev ledger committed p =
      refeedDepartures enc ev (mergedCommitted committed p.inner) p.pending.txGroups (primed e p.inner) := by
    unfold rebuildDepartures
    rw [h]
  rw [hds]
  unfold rebuildStart mergedCommitted at h
  unfold recomputeBlockEvaluator mergedCommitted
  simp only
  by_cases hpaused : p.inner.evaluatorPaused = true
  · rw [if_pos hpaused] at h
    cases h
  · rw [if_neg hpaused] at h ⊢
    cases hhdr : ledger.blockHdr ledger.latest with
    | error err =>
      rw [hhdr] at h
      cases h
    | ok hdr =>
      rw [hhdr] at h
      simp only at h ⊢
      cases hstart : ledger.startEvaluator hdr ((p.pending.txGroups.map List.length).sum -
          (p.inner.pausedCommitted.foldl (· ∪ ·) committed).card) 0 with
      | error err =>
        rw [hstart] at h
        cases h
      | ok e' =>
        rw [hstart] at h
        obtain rfl : e' = e := Option.some.inj h
        simp only
        obtain ⟨o, n, hsome, hfold⟩ := @foldl_refeed_eq ε enc ev (p.inner.pausedCommitted.foldl (· ∪ ·) committed)
          p.pending.txGroups (primed e' p.inner)
        have hprimed : primed e' { p.inner with evaluator := none, numPendingWholeBlocks := 0 } = primed e' p.inner := rfl
        rw [hprimed, hfold]
        obtain ⟨o', hinner, hsome', hpending, hconfig, hshutdown⟩ := @pregenerate_same ε ev
          { p with
            inner :=
              { primed e' p.inner with
                evaluator := o
                numPendingWholeBlocks := n
                rememberedTxGroups := (primed e' p.inner).rememberedTxGroups ++
                  refeedSurvivors enc ev (p.inner.pausedCommitted.foldl (· ∪ ·) committed) p.pending.txGroups
                    (primed e' p.inner)
                rememberedTxids :=
                  (refeedSurvivors enc ev (p.inner.pausedCommitted.foldl (· ∪ ·) committed) p.pending.txGroups
                    (primed e' p.inner)).foldl
                    (fun m g => g.foldl (fun m stx => m.insert (enc.computeTxnId stx.txn) stx) m)
                    (primed e' p.inner).rememberedTxids
                statusCache := (primed e' p.inner).statusCache.putRecords (allRecords enc
                  (refeedDepartures enc ev (p.inner.pausedCommitted.foldl (· ∪ ·) committed) p.pending.txGroups
                    (primed e' p.inner))) }
            assembly := { p.assembly with results := .started (ledger.latest + 1) } }
        refine ⟨o', n, _, rfl, hsome' (hsome rfl), ?_, ?_, ?_, ?_⟩
        · unfold rememberCommit
          simp only [if_true, hinner]
          rfl
        · unfold rememberCommit
          simp only [if_true, hinner]
          rfl
        · unfold rememberCommit
          simp only [if_true, hconfig]
        · unfold rememberCommit
          simp only [if_true, hshutdown]

theorem Sheds.of_same (hpending : p'.pending = p.pending) (hstatus : p'.inner.statusCache = p.inner.statusCache)
    (hgroups : p'.inner.rememberedTxGroups = p.inner.rememberedTxGroups)
    (htxids : p'.inner.rememberedTxids = p.inner.rememberedTxids) (hconfig : p'.config = p.config)
    (hshutdown : p'.shutdown = p.shutdown) (hpaused : p'.inner.evaluatorPaused = p.inner.evaluatorPaused)
    (hreprime : p'.inner.reprimeOnDemand = p.inner.reprimeOnDemand) : Sheds enc [] p p' where
  sub := by rw [hpending]
  parts g hg _ := .inl (by rw [hpending]; exact hg)
  covered h := by rw [hpending]; exact h
  status := hstatus
  groups h := hgroups.trans h
  txids h := htxids.trans h
  config := hconfig
  shutdown := hshutdown
  paused := hpaused
  reprime h := hreprime.trans h

theorem recompute_sheds (p : TransactionPool ε) (ledger : PoolLedger ε) (committed : Finset Digest) :
    Sheds enc (rebuildDepartures enc ev ledger committed p) p (recomputeBlockEvaluator enc ev ledger committed p) := by
  cases hstart : rebuildStart ledger committed p with
  | none =>
    obtain ⟨err, n, hinner, hpending, hconfig, hshutdown⟩ := @recompute_stopped ε enc ev p ledger committed hstart
    have hds : rebuildDepartures enc ev ledger committed p = [] := by
      unfold rebuildDepartures
      rw [hstart]
    rw [hds]
    refine .of_same hpending ?_ ?_ ?_ hconfig hshutdown ?_ ?_ <;> rw [hinner]
  | some e =>
    obtain ⟨o, n, survivors, hsurvivors, -, hinner, hpending, hconfig, hshutdown⟩ :=
      @recompute_rebuilt ε enc ev p ledger committed e hstart
    have hds : rebuildDepartures enc ev ledger committed p =
        refeedDepartures enc ev (mergedCommitted committed p.inner) p.pending.txGroups (primed e p.inner) := by
      unfold rebuildDepartures
      rw [hstart]
    refine ⟨?_, ?_, ?_, ?_, ?_, ?_, hconfig, hshutdown, ?_, ?_⟩
    · rw [hpending, hsurvivors]
      exact refeedSurvivors_sublist _ _
    · intro g hg hne
      rw [hpending, hsurvivors, hds]
      exact mem_survivors_or hg hne
    · intro _
      rw [hpending]
      exact covered_survivors survivors
    · rw [hinner]
    · intro _
      rw [hinner]
      rfl
    · intro _
      rw [hinner]
      rfl
    · rw [hinner]
      rfl
    · intro _
      rw [hinner]
      rfl

/-! ## Eviction -/

/-- The groups that an eviction names. -/
def evictedGroups (enc : TxnEncoding) (p : TransactionPool ε) (ids : List Digest) : List Group :=
  p.pending.txGroups.filter (hit enc p ids)

/-- The pool after the named groups are taken out, before a rebuild. -/
def withoutGroups (enc : TxnEncoding) (p : TransactionPool ε) (ids : List Digest) (error : AlgoError) : TransactionPool ε :=
  { p with
    pending := ⟨p.pending.txGroups.filter (fun g => !hit enc p ids g),
      (allIds enc (evictedGroups enc p ids)).foldl (fun m id => m.erase id) p.pending.txids⟩
    inner := { p.inner with
      statusCache := p.inner.statusCache.putAll (allIds enc (evictedGroups enc p ids))
        (poolErrorFromEvaluator error).display } }

def evictionDepartures (enc : TxnEncoding) (p : TransactionPool ε) (ids : List Digest) (error : AlgoError) : List Departure :=
  (evictedGroups enc p ids).map (fun g => ⟨g, .evicted error⟩)

theorem evictGroups_eq (m : Moment ε) (ids : List Digest) (error : AlgoError) (p : TransactionPool ε) :
    (evictGroups enc ev m ids error p).2 =
      if evictedGroups enc p ids = [] then p
      else if p.inner.evaluator.isSome then recomputeBlockEvaluator enc ev m.ledger ∅ (withoutGroups enc p ids error)
      else withoutGroups enc p ids error := by
  unfold evictGroups
  simp only [List.isEmpty_iff]
  split
  · rename_i hnone
    have hnone' : evictedGroups enc p ids = [] := hnone
    rw [if_pos hnone']
  · rename_i hsome
    have hsome' : ¬ evictedGroups enc p ids = [] := hsome
    rw [if_neg hsome']
    split
    · rfl
    · rfl

/-- The index loses no id of a group that stays, where no named group has one. -/
theorem withoutGroups_sheds (p : TransactionPool ε) (ids : List Digest) (error : AlgoError)
    (hapart : ∀ g ∈ p.pending.txGroups, hit enc p ids g = false →
      ∀ id ∈ groupIds enc g, id ∉ allIds enc (evictedGroups enc p ids)) :
    Sheds enc (evictionDepartures enc p ids error) p (withoutGroups enc p ids error) where
  sub := List.filter_sublist
  parts g hg _ := by
    cases hhit : hit enc p ids g with
    | false => exact .inl (List.mem_filter.2 ⟨hg, by rw [hhit]; rfl⟩)
    | true => exact .inr ⟨⟨g, .evicted error⟩, List.mem_map.2 ⟨g, List.mem_filter.2 ⟨hg, hhit⟩, rfl⟩, rfl⟩
  covered h := by
    intro id
    show id ∈ (allIds enc (evictedGroups enc p ids)).foldl (fun m id => m.erase id) p.pending.txids ↔ _
    rw [mem_foldl_erase, h]
    constructor
    · rintro ⟨hid, hout⟩
      obtain ⟨g, hg, hidg⟩ := List.mem_flatMap.1 hid
      refine List.mem_flatMap.2 ⟨g, List.mem_filter.2 ⟨hg, ?_⟩, hidg⟩
      cases hhit : hit enc p ids g with
      | false => rfl
      | true => exact absurd (List.mem_flatMap.2 ⟨g, List.mem_filter.2 ⟨hg, hhit⟩, hidg⟩) hout
    · intro hid
      obtain ⟨g, hg, hidg⟩ := List.mem_flatMap.1 hid
      obtain ⟨hg, hhit⟩ := List.mem_filter.1 hg
      rw [Bool.not_eq_true'] at hhit
      exact ⟨List.mem_flatMap.2 ⟨g, hg, hidg⟩, hapart g hg hhit id hidg⟩
  status := by
    show p.inner.statusCache.putAll _ _ = _
    rw [StatusCache.putAll_eq]
    congr 1
    unfold evictionDepartures allRecords allIds
    rw [List.map_flatMap, List.flatMap_map]
    rfl
  groups h := h
  txids h := h
  config := rfl
  shutdown := rfl
  paused := rfl
  reprime h := h

end Rebuild

/-! ## Admission -/

section Admission

variable {ε : Type} (enc : TxnEncoding) (ev : BlockEvaluator ε)

/-- The departures of a rebuild on demand. -/
def reprimeDepartures (m : Moment ε) (p : TransactionPool ε) : List Departure :=
  if p.inner.evaluator.isSome || !p.inner.reprimeOnDemand || p.inner.evaluatorPaused then []
  else if recentlyTried m p.inner then []
  else
    rebuildDepartures enc ev m.ledger ∅ { p with inner := { p.inner with reprimeAttempt := some (m.ledger.latest, m.now) } }

/-- The departures of a call to `remember`. -/
def rememberDepartures (m : Moment ε) (g : Group) (p : TransactionPool ε) : List Departure :=
  match rejectInBlockFlags 0 g, (checkPendingQueueSize p g).1 with
  | .ok _, .ok _ => if p.shutdown then [] else reprimeDepartures enc ev m (checkPendingQueueSize p g).2
  | _, _ => []

/-- The departures of a call to `test`. -/
def testDepartures (m : Moment ε) (g : Group) (p : TransactionPool ε) : List Departure :=
  match rejectInBlockFlags 0 g, (checkPendingQueueSize p g).1 with
  | .ok _, .ok _ => reprimeDepartures enc ev m (checkPendingQueueSize p g).2
  | _, _ => []

/-- What a group that is fed leaves of a pool. -/
def withEvaluator (p : TransactionPool ε) (fee : Nat) (o : Option ε) (n : Nat) : TransactionPool ε :=
  { p with feePerByte := fee, inner := { p.inner with evaluator := o, numPendingWholeBlocks := n } }

/-- A group behind the pending ones. -/
def withGroup (p : TransactionPool ε) (g : Group) : TransactionPool ε :=
  rememberCommit false { p with inner := store enc g p.inner }

variable {enc ev} {p : TransactionPool ε} {g : Group}

theorem check_sheds (p : TransactionPool ε) (g : Group) : Sheds enc [] p (checkPendingQueueSize p g).2 := by
  rcases checkPendingQueueSize_cases p g with heq | heq <;> rw [heq] <;> exact .of_same rfl rfl rfl rfl rfl rfl rfl rfl

/-- What the verdict on a group depends on: the flag of the state proofs is no part of it. -/
theorem add_flag (g : Group) (inner : PoolInner ε) (b : Bool) :
    (addToPendingBlockEvaluator ev g { inner with stateproofOverflowed := b }).1 =
      (addToPendingBlockEvaluator ev g inner).1 := by
  have honce : ∀ inner : PoolInner ε,
      addToPendingBlockEvaluatorOnce ev g { inner with stateproofOverflowed := b } =
        ((addToPendingBlockEvaluatorOnce ev g inner).1,
          { (addToPendingBlockEvaluatorOnce ev g inner).2 with stateproofOverflowed := b }) := by
    intro inner
    unfold addToPendingBlockEvaluatorOnce
    simp only
    split
    · rfl
    split
    · rfl
    split
    · rfl
    · rfl
  unfold addToPendingBlockEvaluator
  rw [honce]
  cases addToPendingBlockEvaluatorOnce ev g inner with
  | mk r inner' =>
    cases r with
    | ok u => rfl
    | error e =>
      simp only
      split
      · have hnext : nextPendingBlock ev { inner' with stateproofOverflowed := b } =
            { nextPendingBlock ev inner' with stateproofOverflowed := b } := rfl
        rw [hnext, honce]
      · rfl

theorem judge_cases (m : Moment ε) (g : Group) (p : TransactionPool ε) {e : ε} (he : p.inner.evaluator = some e) :
    ∃ fee o n, o.isSome ∧
      ((∃ err, judge enc ev m g p e = (.error err, withEvaluator p fee o n)) ∨
        (judge enc ev m g p e =
            (.ok (), { withEvaluator p fee o n with inner := store enc g (withEvaluator p fee o n).inner }) ∧
          (addToPendingBlockEvaluator ev g p.inner).1 = .ok ())) := by
  have hsome : p.inner.evaluator.isSome := by rw [he]; rfl
  unfold judge
  simp only
  cases checkFees enc (recomputeFeePerByte p) g.length g with
  | error err => exact ⟨recomputeFeePerByte p, p.inner.evaluator, p.inner.numPendingWholeBlocks, hsome, .inl ⟨err, rfl⟩⟩
  | ok u =>
    simp only
    generalize (if ev.checksDuplicates e = true then Except.ok () else
      checkDuplicate enc m.ledger { p with feePerByte := recomputeFeePerByte p } g) = dup
    cases dup with
    | error err => exact ⟨recomputeFeePerByte p, p.inner.evaluator, p.inner.numPendingWholeBlocks, hsome, .inl ⟨err, rfl⟩⟩
    | ok u =>
      simp only
      obtain ⟨o, n, hadd, ho⟩ := @add_same ε ev g p.inner
      refine ⟨recomputeFeePerByte p, o, n, ho hsome, ?_⟩
      cases hr : addToPendingBlockEvaluator ev g p.inner with
      | mk r inner =>
        rw [hr] at hadd
        simp only at hadd
        subst hadd
        cases r with
        | error err => exact .inl ⟨err, rfl⟩
        | ok u => exact .inr ⟨rfl, rfl⟩

theorem reprimeDepartures_paused (h : p.inner.evaluatorPaused = true) (m : Moment ε) :
    reprimeDepartures enc ev m p = [] := by
  unfold reprimeDepartures
  rw [h]
  simp

/-- **What `remember` does**: it refuses the group before the pool is asked, after the check of the capacity or after a
rebuild on demand, or it puts the group behind the others. -/
theorem remember_cases (m : Moment ε) (g : Group) (p : TransactionPool ε) :
    (rememberDepartures enc ev m g p = [] ∧
      ((∃ e, remember enc ev m g p = (.error e, p)) ∨
        ∃ e, remember enc ev m g p = (.error e, (checkPendingQueueSize p g).2))) ∨
    (rememberDepartures enc ev m g p = reprimeDepartures enc ev m (checkPendingQueueSize p g).2 ∧ ∃ fee o n,
      ((o.isSome → (maybeReprime enc ev m (checkPendingQueueSize p g).2).inner.evaluator.isSome) ∧
        ∃ e, remember enc ev m g p =
          (.error e, withEvaluator (maybeReprime enc ev m (checkPendingQueueSize p g).2) fee o n)) ∨
      ((checkPendingQueueSize p g).1 = .ok () ∧
        (maybeReprime enc ev m (checkPendingQueueSize p g).2).inner.evaluator.isSome ∧
        (addToPendingBlockEvaluator ev g (maybeReprime enc ev m (checkPendingQueueSize p g).2).inner).1 = .ok () ∧
        remember enc ev m g p =
          (.ok (), withGroup enc (withEvaluator (maybeReprime enc ev m (checkPendingQueueSize p g).2) fee o n) g))) := by
  have hshutdown : (checkPendingQueueSize p g).2.shutdown = p.shutdown := (@check_sheds ε enc p g).shutdown
  unfold remember rememberDepartures
  cases rejectInBlockFlags 0 g with
  | error e => exact .inl ⟨rfl, .inl ⟨e, rfl⟩⟩
  | ok u =>
    simp only
    cases hcheck : checkPendingQueueSize p g with
    | mk r q =>
      rw [hcheck] at hshutdown
      cases r with
      | error e => exact .inl ⟨rfl, .inr ⟨e, rfl⟩⟩
      | ok u =>
        simp only at hshutdown ⊢
        by_cases hdown : q.shutdown = true
        · rw [if_pos hdown, if_pos (hshutdown ▸ hdown)]
          exact .inl ⟨rfl, .inr ⟨_, rfl⟩⟩
        rw [if_neg hdown, if_neg (hshutdown ▸ hdown)]
        unfold ingest
        by_cases hpaused : q.inner.evaluatorPaused = true
        · rw [if_pos hpaused]
          exact .inl ⟨reprimeDepartures_paused hpaused m, .inr ⟨_, rfl⟩⟩
        rw [if_neg hpaused]
        simp only
        refine .inr ⟨trivial, ?_⟩
        cases he : (maybeReprime enc ev m q).inner.evaluator with
        | none =>
          refine ⟨(maybeReprime enc ev m q).feePerByte, (maybeReprime enc ev m q).inner.evaluator,
            (maybeReprime enc ev m q).inner.numPendingWholeBlocks, .inl ⟨?_, _, rfl⟩⟩
          rw [he]
          exact id
        | some e =>
          simp only
          obtain ⟨fee, o, n, ho, ⟨err, hjudge⟩ | ⟨hjudge, hadd⟩⟩ := @judge_cases ε enc ev m g _ e he
          · rw [hjudge]
            exact ⟨fee, o, n, .inl ⟨fun _ => rfl, _, rfl⟩⟩
          · rw [hjudge]
            exact ⟨fee, o, n, .inr ⟨trivial, rfl, hadd, rfl⟩⟩

theorem test_cases (m : Moment ε) (g : Group) (p : TransactionPool ε) :
    (testDepartures enc ev m g p = [] ∧
      ((test enc ev m g p).2 = p ∨ (test enc ev m g p).2 = (checkPendingQueueSize p g).2)) ∨
    (testDepartures enc ev m g p = reprimeDepartures enc ev m (checkPendingQueueSize p g).2 ∧
      (test enc ev m g p).2 = maybeReprime enc ev m (checkPendingQueueSize p g).2) := by
  unfold test testDepartures
  cases rejectInBlockFlags 0 g with
  | error e => exact .inl ⟨rfl, .inl rfl⟩
  | ok u =>
    simp only
    cases hcheck : checkPendingQueueSize p g with
    | mk r q =>
      cases r with
      | error e => exact .inl ⟨rfl, .inr rfl⟩
      | ok u =>
        simp only
        by_cases hpaused : q.inner.evaluatorPaused = true
        · rw [if_pos hpaused]
          exact .inl ⟨reprimeDepartures_paused hpaused m, .inr rfl⟩
        rw [if_neg hpaused]
        refine .inr ⟨trivial, ?_⟩
        split
        · rfl
        split
        · rfl
        · rfl

end Admission

end Pool
end Algod
