import AlgodRust.Pool.Capacity
/-!
# StatusRecords — what became of a transaction that was accepted

The history of a run tells, newest first, which groups were accepted, which blocks came and which groups left with which
cause.  The status cache is the records of its departures, put one after another (`Accounted.status`), and the newest
event that names an accepted transaction is a departure unless the transaction is still pending (`Accounted.present`).
That a group a block has committed leaves as committed is a matter of care: a block whose rebuild fails is forgotten, and
so is a block of a pause when its group is evicted before the rebuild (`Proper`).
-/
namespace Algod
namespace Pool

open Ledger (SignedTransaction)
open TransactionPool

/-! ## Two generations of records -/

namespace StatusCache

/-- A record in the current generation, or in the previous one while the current one has at most `n` entries. -/
def Holds (c : StatusCache) (id : Digest) (text : String) (n : Nat) : Prop :=
  c.cur.lookup id = some text ∨
    (c.cur.lookup id = none ∧ (∃ m, c.prev = some m ∧ m.lookup id = some text) ∧ c.cur.entries.length ≤ n)

theorem Holds.check {c : StatusCache} {id : Digest} {text : String} {n : Nat} (h : c.Holds id text n) :
    c.check id = some text := by
  unfold StatusCache.check
  rcases h with hcur | ⟨hcur, ⟨m, hprev, hm⟩, -⟩
  · rw [hcur]
  · rw [hcur, hprev]
    exact hm

theorem put_capacity (c : StatusCache) (id : Digest) (text : String) : (c.put id text).capacity = c.capacity := by
  unfold put
  split <;> rfl

theorem putRecords_capacity : ∀ (records : List (Digest × String)) (c : StatusCache),
    (c.putRecords records).capacity = c.capacity
  | [], _ => rfl
  | r :: records, c => (putRecords_capacity records (c.put r.1 r.2)).trans (put_capacity c r.1 r.2)

theorem put_holds (c : StatusCache) (id : Digest) (text : String) : (c.put id text).Holds id text 0 := by
  unfold put
  split
  · exact .inl (AList.lookup_insert _)
  · exact .inl (AList.lookup_insert _)

theorem length_insert_le {m : FinMap Digest String} {id : Digest} {text : String} :
    (m.insert id text).entries.length ≤ m.entries.length + 1 := by
  rw [AList.entries_insert, List.length_cons]
  exact Nat.succ_le_succ (List.kerase_sublist _ _).length_le

/-- A record of another transaction: the current generation may be turned over once. -/
theorem Holds.put {c : StatusCache} {id id' : Digest} {text text' : String} {n : Nat} (h : c.Holds id text n)
    (hne : id ≠ id') (hn : n < c.capacity) : (c.put id' text').Holds id text (n + 1) := by
  unfold StatusCache.put
  split
  · rename_i hfull
    rcases h with hcur | ⟨-, -, hlen⟩
    · refine .inr ⟨?_, ⟨c.cur, rfl, hcur⟩, ?_⟩
      · rw [AList.lookup_insert_ne hne]
        rfl
      · exact (length_insert_le).trans (by simp)
    · omega
  · rcases h with hcur | ⟨hcur, hprev, hlen⟩
    · exact .inl (by rw [AList.lookup_insert_ne hne]; exact hcur)
    · refine .inr ⟨by rw [AList.lookup_insert_ne hne]; exact hcur, hprev, ?_⟩
      exact (length_insert_le).trans (by omega)

theorem Holds.putRecords : ∀ (records : List (Digest × String)) {c : StatusCache} {id : Digest} {text : String} {n : Nat},
    c.Holds id text n → id ∉ records.map Prod.fst → n + records.length ≤ c.capacity →
    (c.putRecords records).Holds id text (n + records.length)
  | [], _, _, _, _, h, _, _ => h
  | r :: records, c, id, text, n, h, hout, hlen => by
    rw [List.map_cons, List.mem_cons, not_or] at hout
    rw [List.length_cons] at hlen ⊢
    have hstep : (c.put r.1 r.2).Holds id text (n + 1) := h.put hout.1 (by omega)
    have hrest := Holds.putRecords records hstep hout.2 (by rw [put_capacity]; omega)
    rw [Nat.add_assoc, Nat.add_comm 1] at hrest
    exact hrest

/-- **A record is found as long as no more than `capacity` others are put after it.** -/
theorem check_putRecords (c : StatusCache) (id : Digest) (text : String) (records : List (Digest × String))
    (hout : id ∉ records.map Prod.fst) (hlen : records.length ≤ c.capacity) :
    ((c.put id text).putRecords records).check id = some text := by
  refine (Holds.putRecords records (c.put_holds id text) hout ?_).check
  rw [put_capacity]
  omega

end StatusCache

/-! ## Histories -/

inductive Event
  | accepted (g : Group)
  | block (committed : Finset Digest)
  | departed (d : Departure)

/-- A call of the pool, or a request for a block. -/
inductive PoolCall
  | call (c : Call)
  | assembleBlock (round : Round) (deadline : Nat)

def PoolCall.isReset : PoolCall → Bool
  | .call .reset => true
  | _ => false

section Spec

variable {ε : Type} (enc : TxnEncoding) (ev : BlockEvaluator ε)

/-- A block that came since the group was last accepted has the transaction. -/
def CommittedSince : List Event → Group → Digest → Prop
  | [], _, _ => False
  | .accepted g' :: h, g, id => g' ≠ g ∧ CommittedSince h g id
  | .block committed :: h, g, id => id ∈ committed ∨ CommittedSince h g id
  | .departed _ :: h, g, id => CommittedSince h g id

/-- The records of the departures, the oldest first. -/
def recordsOf : List Event → List (Digest × String)
  | [] => []
  | .departed d :: h => recordsOf h ++ d.records enc
  | _ :: h => recordsOf h

/-- An event names a transaction. -/
def Mentions (t : Digest) : Event → Prop
  | .accepted g => t ∈ groupIds enc g
  | .block _ => False
  | .departed d => t ∈ groupIds enc d.group

/-- The newest event that names a transaction is a departure. -/
def LastDeparts (t : Digest) (h : List Event) : Prop :=
  ∃ after d before, h = after ++ .departed d :: before ∧ t ∈ groupIds enc d.group ∧ ∀ e ∈ after, ¬ Mentions enc t e

/-- Every group left as committed exactly if a block since its acceptance has its first transaction. -/
def CausesRight : List Event → Prop
  | [] => True
  | .departed d :: h =>
    (∃ first rest, d.group = first :: rest ∧
      (d.cause = .committed ↔ CommittedSince h d.group (enc.computeTxnId first.txn))) ∧ CausesRight h
  | _ :: h => CausesRight h

def blockDepartures (m : Moment ε) (round : Round) (committed : Finset Digest) (p : TransactionPool ε) : List Departure :=
  if p.shutdown then []
  else if p.inner.evaluatorPaused then []
  else if p.inner.evaluator.all (fun e => decide (ev.round e ≤ round)) then
    rebuildDepartures enc ev m.ledger committed (adjustFeeThreshold p)
  else []

def evictDepartures (m : Moment ε) (ids : List Digest) (error : AlgoError) (p : TransactionPool ε) : List Departure :=
  if evictedGroups enc p ids = [] then []
  else
    evictionDepartures enc p ids error ++
      if p.inner.evaluator.isSome then rebuildDepartures enc ev m.ledger ∅ (withoutGroups enc p ids error) else []

def callDepartures (m : Moment ε) (p : TransactionPool ε) : Call → List Departure
  | .remember g => rememberDepartures enc ev m g p
  | .test g => testDepartures enc ev m g p
  | .onNewBlock round committed => blockDepartures enc ev m round committed p
  | .evictGroups ids error => evictDepartures enc ev m ids error p
  | .resumeEvaluator prime =>
    if prime then
      rebuildDepartures enc ev m.ledger ∅
        { p with inner := { p.inner with
            evaluatorPaused := false, pausedLastRound := none, reprimeAttempt := some (m.ledger.latest, m.now) } }
    else []
  | .assembleDevModeBlock => rebuildDepartures enc ev m.ledger ∅ p
  | .ensureEvaluatorPrimed => if p.inner.evaluator.isNone then rebuildDepartures enc ev m.ledger ∅ p else []
  | _ => []

def departed (ds : List Departure) : List Event := (ds.map Event.departed).reverse

def acceptance (g : Group) : Except PoolError Unit → List Event
  | .ok _ => [.accepted g]
  | .error _ => []

/-- The events of a call, the newest first. -/
def events (m : Moment ε) (p : TransactionPool ε) : PoolCall → List Event
  | .call (.remember g) => acceptance g (remember enc ev m g p).1 ++ departed (rememberDepartures enc ev m g p)
  | .call (.onNewBlock round committed) => departed (blockDepartures enc ev m round committed p) ++ [.block committed]
  | .call c => departed (callDepartures enc ev m p c)
  | .assembleBlock _ _ => []

def enact (m : Moment ε) (p : TransactionPool ε) : PoolCall → TransactionPool ε
  | .call c => (perform enc ev m p c).2
  | .assembleBlock round deadline => (assembleBlock ev m.ledger round deadline p).2

def enactAll : List (Moment ε × PoolCall) → TransactionPool ε → TransactionPool ε
  | [], p => p
  | (m, c) :: calls, p => enactAll calls (enact enc ev m p c)

/-- The history of a run, after an older one. -/
def history : List (Moment ε × PoolCall) → TransactionPool ε → List Event → List Event
  | [], _, h => h
  | (m, c) :: calls, p, h => history calls (enact enc ev m p c) (events enc ev m p c ++ h)

/-- A new block is acted on: recorded for the time after a pause, or the evaluator is rebuilt. -/
def Handled (m : Moment ε) (p : TransactionPool ε) (round : Round) (committed : Finset Digest) : Prop :=
  p.shutdown = false ∧
    if p.inner.evaluatorPaused then p.inner.pausedLastRound.all (· < round) = true
    else p.inner.evaluator.all (fun e => decide (ev.round e ≤ round)) = true ∧ (rebuildStart m.ledger committed p).isSome

/-- A block that has the first transaction of a pending group is acted on, and a pause has room for it; no group that a
block of a pause has is evicted, nor one that shares an id with a group that stays. -/
def Proper (m : Moment ε) (p : TransactionPool ε) : PoolCall → Prop
  | .call (.onNewBlock round committed) =>
    ((∃ first rest, first :: rest ∈ p.pending.txGroups ∧ enc.computeTxnId first.txn ∈ committed) →
      Handled ev m p round committed) ∧
    (p.shutdown = false → p.inner.evaluatorPaused = true → p.inner.pausedLastRound.all (· < round) = true →
      p.inner.pausedCommitted.length < maxPausedBlocks)
  | .call (.evictGroups ids _) =>
    (∀ first rest, first :: rest ∈ evictedGroups enc p ids → ∀ s ∈ p.inner.pausedCommitted, enc.computeTxnId first.txn ∉ s) ∧
    (∀ g ∈ p.pending.txGroups, hit enc p ids g = false → ∀ id ∈ groupIds enc g, id ∉ allIds enc (evictedGroups enc p ids))
  | _ => True

def AllProper : List (Moment ε × PoolCall) → TransactionPool ε → Prop
  | [], _ => True
  | (m, c) :: calls, p => Proper enc ev m p c ∧ AllProper calls (enact enc ev m p c)

/-- What a history tells of a pool. -/
structure Accounted (limit : Nat) (h : List Event) (p : TransactionPool ε) : Prop where
  status : p.inner.statusCache = (StatusCache.new limit).putRecords (recordsOf enc h)
  covered : Covered enc p.pending.txGroups p.pending.txids
  groups : p.inner.rememberedTxGroups = []
  txids : p.inner.rememberedTxids = ∅
  idle : p.inner.evaluator.isSome → p.inner.pausedCommitted = []
  stopped : p.inner.evaluatorPaused = true → p.inner.evaluator = none
  marked : ∀ first rest, first :: rest ∈ p.pending.txGroups →
    (CommittedSince h (first :: rest) (enc.computeTxnId first.txn) ↔
      ∃ s ∈ p.inner.pausedCommitted, enc.computeTxnId first.txn ∈ s)
  present : ∀ g t, .accepted g ∈ h → t ∈ groupIds enc g → t ∈ allIds enc p.pending.txGroups ∨ LastDeparts enc t h
  causes : CausesRight enc h

end Spec

variable {ε : Type} {enc : TxnEncoding} {ev : BlockEvaluator ε}

theorem recordsOf_append : ∀ (h h' : List Event), recordsOf enc (h ++ h') = recordsOf enc h' ++ recordsOf enc h
  | [], h' => (List.append_nil _).symm
  | .accepted _ :: h, h' => recordsOf_append h h'
  | .block _ :: h, h' => recordsOf_append h h'
  | .departed d :: h, h' => by
    show recordsOf enc (h ++ h') ++ d.records enc = recordsOf enc h' ++ (recordsOf enc h ++ d.records enc)
    rw [recordsOf_append h h', List.append_assoc]

@[simp] theorem departed_nil : departed [] = [] := rfl

theorem departed_append (ds ds' : List Departure) : departed (ds ++ ds') = departed ds' ++ departed ds := by
  simp [departed]

theorem departed_cons (d : Departure) (ds : List Departure) : departed (d :: ds) = departed ds ++ [.departed d] := by
  simp [departed]

theorem mem_departed {ds : List Departure} {e : Event} : e ∈ departed ds ↔ ∃ d ∈ ds, e = .departed d := by
  simp [departed, eq_comm]

theorem recordsOf_departed (ds : List Departure) : recordsOf enc (departed ds) = allRecords enc ds := by
  induction ds with
  | nil => rfl
  | cons d ds ih =>
    rw [departed_cons, recordsOf_append, ih]
    rfl

theorem committedSince_departed (ds : List Departure) (h : List Event) (g : Group) (id : Digest) :
    CommittedSince (departed ds ++ h) g id ↔ CommittedSince h g id := by
  induction ds generalizing h with
  | nil => exact Iff.rfl
  | cons d ds ih =>
    rw [departed_cons, List.append_assoc, ih]
    exact Iff.rfl

/-- Departures after a history, each of which has its right cause there. -/
theorem CausesRight.departed {ds : List Departure} {h : List Event} (hh : CausesRight enc h)
    (hds : ∀ d ∈ ds, ∃ first rest, d.group = first :: rest ∧
      (d.cause = .committed ↔ CommittedSince h d.group (enc.computeTxnId first.txn))) :
        CausesRight enc (departed ds ++ h) := by
  induction ds generalizing h with
  | nil => exact hh
  | cons d ds ih =>
    rw [departed_cons, List.append_assoc]
    exact ih ⟨hds d List.mem_cons_self, hh⟩ (fun d' hd' => hds d' (List.mem_cons_of_mem _ hd'))

theorem CausesRight.at {after : List Event} {d : Departure} {before : List Event}
    (h : CausesRight enc (after ++ .departed d :: before)) :
    ∃ first rest, d.group = first :: rest ∧
      (d.cause = .committed ↔ CommittedSince before d.group (enc.computeTxnId first.txn)) := by
  induction after with
  | nil => exact h.1
  | cons e after ih =>
    cases e with
    | accepted _ => exact ih h
    | block _ => exact ih h
    | departed _ => exact ih h.2

/-- Newer events among which only departures name a transaction. -/
theorem LastDeparts.append {t : Digest} {h : List Event} : ∀ (l : List Event),
    (∀ e ∈ l, Mentions enc t e → ∃ d, e = .departed d) → (LastDeparts enc t h ∨ ∃ e ∈ l, Mentions enc t e) →
    LastDeparts enc t (l ++ h)
  | [], _, hor => hor.resolve_right (fun ⟨_, he, _⟩ => nomatch he)
  | e :: l, hl, hor => by
    by_cases hmentions : Mentions enc t e
    · obtain ⟨d, rfl⟩ := hl e List.mem_cons_self hmentions
      exact ⟨[], d, l ++ h, rfl, hmentions, fun _ he => nomatch he⟩
    · have hrest : LastDeparts enc t h ∨ ∃ e ∈ l, Mentions enc t e := by
        rcases hor with hlast | ⟨e', he', hm⟩
        · exact .inl hlast
        · rcases List.mem_cons.1 he' with rfl | he'
          · exact absurd hm hmentions
          · exact .inr ⟨e', he', hm⟩
      obtain ⟨after, d, before, heq, ht, hafter⟩ :=
        LastDeparts.append l (fun e' he' => hl e' (List.mem_cons_of_mem _ he')) hrest
      refine ⟨e :: after, d, before, by rw [List.cons_append, heq]; rfl, ht, ?_⟩
      intro e' he'
      rcases List.mem_cons.1 he' with rfl | he'
      · exact hmentions
      · exact hafter e' he'

/-! ## Steps -/

variable {limit : Nat} {h : List Event} {p p' : TransactionPool ε}

theorem accounted_new (config : PoolConfig) :
    Accounted enc config.poolSize [] (TransactionPool.new config : TransactionPool ε) where
  status := rfl
  covered id := by simp [TransactionPool.new, allIds]
  groups := rfl
  txids := rfl
  idle hsome := nomatch hsome
  stopped hpaused := nomatch hpaused
  marked _ _ hin := nomatch hin
  present _ _ hin := nomatch hin
  causes := trivial

theorem recordsOf_blocks (blocks : List (Finset Digest)) : recordsOf enc (blocks.map .block ++ h) = recordsOf enc h := by
  induction blocks with
  | nil => rfl
  | cons s blocks ih => exact ih

theorem CausesRight.blocks (blocks : List (Finset Digest)) (hh : CausesRight enc h) :
    CausesRight enc (blocks.map .block ++ h) := by
  induction blocks with
  | nil => exact hh
  | cons s blocks ih => exact ih

/-- **Groups leave**, after some blocks came: it remains to see that their causes are right and that the blocks of a pause
are those that count for the groups that stay. -/
theorem Accounted.sheds {ds : List Departure} {blocks : List (Finset Digest)} (hp : Accounted enc limit h p)
    (hsheds : Sheds enc ds p p')
    (hcauses : ∀ d ∈ ds, ∃ first rest, d.group = first :: rest ∧
      (d.cause = .committed ↔ CommittedSince (blocks.map .block ++ h) d.group (enc.computeTxnId first.txn)))
    (hmarked : ∀ first rest, first :: rest ∈ p'.pending.txGroups →
      (CommittedSince (blocks.map .block ++ h) (first :: rest) (enc.computeTxnId first.txn) ↔
        ∃ s ∈ p'.inner.pausedCommitted, enc.computeTxnId first.txn ∈ s))
    (hidle : p'.inner.evaluator.isSome → p'.inner.pausedCommitted = [])
    (hstopped : p'.inner.evaluatorPaused = true → p'.inner.evaluator = none) :
    Accounted enc limit (departed ds ++ (blocks.map .block ++ h)) p' where
  status := by
    rw [hsheds.status, hp.status, ← StatusCache.putRecords_append, recordsOf_append, recordsOf_blocks, recordsOf_departed]
  covered := hsheds.covered hp.covered
  groups := hsheds.groups hp.groups
  txids := hsheds.txids hp.txids
  idle := hidle
  stopped := hstopped
  marked first rest hin := by
    rw [committedSince_departed]
    exact hmarked first rest hin
  present g t hin ht := by
    have hold : .accepted g ∈ h := by
      rcases List.mem_append.1 hin with hin | hin
      · obtain ⟨d, -, hd⟩ := mem_departed.1 hin
        cases hd
      · rcases List.mem_append.1 hin with hin | hin
        · obtain ⟨s, -, hs⟩ := List.mem_map.1 hin
          cases hs
        · exact hin
    have hnew : ∀ e ∈ departed ds ++ blocks.map .block, Mentions enc t e → ∃ d, e = .departed d := by
      intro e he hmentions
      rcases List.mem_append.1 he with he | he
      · obtain ⟨d, -, rfl⟩ := mem_departed.1 he
        exact ⟨d, rfl⟩
      · obtain ⟨s, -, rfl⟩ := List.mem_map.1 he
        exact hmentions.elim
    rw [← List.append_assoc]
    rcases hp.present g t hold ht with hpending | hlast
    · obtain ⟨g', hg', htg'⟩ := List.mem_flatMap.1 hpending
      have hne : g' ≠ [] := by
        rintro rfl
        cases htg'
      rcases hsheds.parts g' hg' hne with hstays | ⟨d, hd, rfl⟩
      · exact .inl (List.mem_flatMap.2 ⟨g', hstays, htg'⟩)
      · refine .inr (LastDeparts.append _ hnew (.inr ⟨.departed d, ?_, htg'⟩))
        exact List.mem_append_left _ (mem_departed.2 ⟨d, hd, rfl⟩)
    · exact .inr (LastDeparts.append _ hnew (.inl hlast))
  causes := (hp.causes.blocks blocks).departed hcauses

/-- Nothing that the history speaks of has changed. -/
theorem Accounted.of_same (hp : Accounted enc limit h p) (hpending : p'.pending = p.pending)
    (hstatus : p'.inner.statusCache = p.inner.statusCache)
    (hgroups : p'.inner.rememberedTxGroups = p.inner.rememberedTxGroups)
    (htxids : p'.inner.rememberedTxids = p.inner.rememberedTxids)
    (hcommitted : p'.inner.pausedCommitted = p.inner.pausedCommitted)
    (hevaluator : p'.inner.evaluator.isSome → p.inner.evaluator.isSome)
    (hpaused : p'.inner.evaluatorPaused = true → p'.inner.evaluator = none) : Accounted enc limit h p' where
  status := hstatus.trans hp.status
  covered := by
    rw [hpending]
    exact hp.covered
  groups := hgroups.trans hp.groups
  txids := htxids.trans hp.txids
  idle hsome := hcommitted.trans (hp.idle (hevaluator hsome))
  stopped := hpaused
  marked first rest hin := by
    rw [hcommitted]
    rw [hpending] at hin
    exact hp.marked first rest hin
  present g t hin ht := by
    rw [hpending]
    exact hp.present g t hin ht
  causes := hp.causes

theorem committedSince_block {g : Group} {id : Digest} {committed : Finset Digest} :
    CommittedSince ([committed].map .block ++ h) g id ↔ id ∈ committed ∨ CommittedSince h g id := Iff.rfl

theorem committedSince_blocks {g : Group} {id : Digest} {blocks : List (Finset Digest)} :
    CommittedSince (blocks.map .block ++ h) g id ↔ (∃ s ∈ blocks, id ∈ s) ∨ CommittedSince h g id := by
  induction blocks with
  | nil => simp
  | cons s blocks ih =>
    show id ∈ s ∨ CommittedSince (blocks.map .block ++ h) g id ↔ _
    rw [ih, List.exists_mem_cons_iff, or_assoc]

/-- **A rebuild**: a group leaves as committed exactly if a block since its acceptance has it, the blocks of a pause
included.  Where the rebuild fails no pending group may be in the new block. -/
theorem Accounted.recompute (hp : Accounted enc limit h p) (ledger : PoolLedger ε) {committed : Finset Digest}
    {blocks : List (Finset Digest)} (hblocks : ∀ id, (∃ s ∈ blocks, id ∈ s) ↔ id ∈ committed)
    (hstart : rebuildStart ledger committed p = none → ∀ first rest, first :: rest ∈ p.pending.txGroups →
      enc.computeTxnId first.txn ∉ committed) :
    Accounted enc limit (departed (rebuildDepartures enc ev ledger committed p) ++ (blocks.map .block ++ h))
      (recomputeBlockEvaluator enc ev ledger committed p) := by
  have hsheds := @recompute_sheds ε enc ev p ledger committed
  have hmerged : ∀ first rest, first :: rest ∈ p.pending.txGroups →
      (CommittedSince (blocks.map .block ++ h) (first :: rest) (enc.computeTxnId first.txn) ↔
        enc.computeTxnId first.txn ∈ mergedCommitted committed p.inner) := by
    intro first rest hin
    rw [committedSince_blocks, mem_mergedCommitted, hp.marked first rest hin, hblocks]
  cases hs : rebuildStart ledger committed p with
  | none =>
    obtain ⟨err, n, hinner, hpending, -, -⟩ := @recompute_stopped ε enc ev p ledger committed hs
    have hds : rebuildDepartures enc ev ledger committed p = [] := by
      unfold rebuildDepartures
      rw [hs]
    rw [hds] at hsheds ⊢
    refine hp.sheds hsheds (fun d hd => nomatch hd) ?_ ?_ ?_
    · intro first rest hin
      rw [hpending] at hin
      rw [hmerged first rest hin, mem_mergedCommitted, hinner]
      exact or_iff_right (hstart hs first rest hin)
    · intro hsome
      rw [hinner] at hsome
      cases hsome
    · intro _
      rw [hinner]
  | some e =>
    obtain ⟨o, n, survivors, hsurvivors, -, hinner, hpending, -, -⟩ := @recompute_rebuilt ε enc ev p ledger committed e hs
    have hds : rebuildDepartures enc ev ledger committed p =
        refeedDepartures enc ev (mergedCommitted committed p.inner) p.pending.txGroups (primed e p.inner) := by
      unfold rebuildDepartures
      rw [hs]
    refine hp.sheds hsheds ?_ ?_ ?_ ?_
    · intro d hd
      rw [hds] at hd
      obtain ⟨hin, first, rest, hgroup, hcause⟩ := mem_refeedDepartures hd
      refine ⟨first, rest, hgroup, ?_⟩
      rw [hgroup] at hin ⊢
      rw [hmerged first rest hin]
      rcases hcause with ⟨hcause, hcommitted⟩ | ⟨⟨err, hcause⟩, hcommitted⟩
      · exact ⟨fun _ => hcommitted, fun _ => hcause⟩
      · rw [hcause]
        exact ⟨(fun heq => nomatch heq), fun hin => absurd hin hcommitted⟩
    · intro first rest hin
      have hold := hsheds.sub.subset hin
      rw [hpending, hsurvivors] at hin
      obtain ⟨first', rest', heq, hout⟩ := survivor_not_committed hin
      obtain ⟨rfl, rfl⟩ := List.cons.inj heq
      rw [hmerged first rest hold, hinner]
      refine ⟨fun hin => absurd hin hout, ?_⟩
      rintro ⟨s, hs, -⟩
      cases hs
    · intro _
      rw [hinner]
      rfl
    · intro hpaused
      rw [hsheds.paused] at hpaused
      unfold rebuildStart at hs
      rw [if_pos hpaused] at hs
      cases hs

/-- A rebuild without a new block. -/
theorem Accounted.rebuild (hp : Accounted enc limit h p) (ledger : PoolLedger ε) :
    Accounted enc limit (departed (rebuildDepartures enc ev ledger ∅ p) ++ h) (recomputeBlockEvaluator enc ev ledger ∅ p) :=
  @Accounted.recompute ε enc ev limit h p hp ledger ∅ [] (fun id => by simp) (fun _ _ _ _ => Finset.notMem_empty _)

theorem Accounted.checked (hp : Accounted enc limit h p) (g : Group) :
    Accounted enc limit h (checkPendingQueueSize p g).2 := by
  rcases checkPendingQueueSize_cases p g with heq | heq <;> rw [heq]
  · exact hp
  · exact hp.of_same rfl rfl rfl rfl rfl id hp.stopped

theorem Accounted.reprime (hp : Accounted enc limit h p) (m : Moment ε) :
    Accounted enc limit (departed (reprimeDepartures enc ev m p) ++ h) (maybeReprime enc ev m p) := by
  unfold maybeReprime reprimeDepartures
  split
  · exact hp
  split
  · exact hp
  · refine Accounted.rebuild ?_ _
    exact hp.of_same rfl rfl rfl rfl rfl id hp.stopped

theorem Accounted.withEvaluator (hp : Accounted enc limit h p) (fee : Nat) {o : Option ε} (n : Nat)
    (ho : o.isSome → p.inner.evaluator.isSome) : Accounted enc limit h (withEvaluator p fee o n) := by
  refine hp.of_same rfl rfl rfl rfl rfl ho ?_
  intro hpaused
  have hnone := hp.stopped hpaused
  rw [hnone] at ho
  cases o with
  | none => rfl
  | some e => cases ho rfl

/-- **A group is accepted**: no block of a pause is left, since that takes an evaluator. -/
theorem Accounted.accept (hp : Accounted enc limit h p) (hnone : p.inner.pausedCommitted = []) (g : Group) :
    Accounted enc limit (.accepted g :: h) (withGroup enc p g) := by
  have hpending := @withGroup_pending ε enc p g hp.groups hp.txids
  refine ⟨hp.status, ?_, rfl, rfl, hp.idle, hp.stopped, ?_, ?_, hp.causes⟩
  · intro id
    rw [hpending, mem_foldl_insert (fun e : Sigma (fun _ : Digest => SignedTransaction) => e.1) (fun e => e.2), hp.covered,
      allIds_append, allIds_single, List.mem_append]
    refine or_congr Iff.rfl ?_
    have hmem : id ∈ (g.foldl (fun m stx => m.insert (enc.computeTxnId stx.txn) stx) (∅ : FinMap Digest SignedTransaction)) ↔
        id ∈ groupIds enc g := by
      rw [mem_foldl_insert (fun stx : SignedTransaction => enc.computeTxnId stx.txn) (fun stx => stx)]
      simp [groupIds]
    rw [← hmem]
    rfl
  · intro first rest hin
    have hout : ¬ ∃ s ∈ (withGroup enc p g).inner.pausedCommitted, enc.computeTxnId first.txn ∈ s := by
      rintro ⟨s, hs, -⟩
      have hs' : s ∈ p.inner.pausedCommitted := hs
      rw [hnone] at hs'
      cases hs'
    refine ⟨?_, fun hin => absurd hin hout⟩
    rintro ⟨hne, hsince⟩
    rw [hpending] at hin
    rcases List.mem_append.1 hin with hin | hin
    · exact absurd ((hp.marked first rest hin).1 hsince) hout
    · exact absurd (List.mem_singleton.1 hin).symm hne
  · intro g' t hin ht
    rw [hpending, allIds_append, allIds_single, List.mem_append]
    by_cases htg : t ∈ groupIds enc g
    · exact .inl (.inr htg)
    · rcases List.mem_cons.1 hin with heq | hin
      · cases heq
        exact absurd ht htg
      · rcases hp.present g' t hin ht with hpend | hlast
        · exact .inl (.inl hpend)
        · refine .inr (LastDeparts.append [.accepted g] ?_ (.inl hlast))
          intro e he hmentions
          rw [List.mem_singleton.1 he] at hmentions
          exact absurd hmentions htg

theorem Accounted.remember (hp : Accounted enc limit h p) (m : Moment ε) (g : Group) :
    Accounted enc limit (events enc ev m p (.call (.remember g)) ++ h) (remember enc ev m g p).2 := by
  have hchecked := hp.checked g
  have hprimed := @Accounted.reprime ε enc ev limit h _ hchecked m
  have hevents : events enc ev m p (.call (.remember g)) =
      acceptance g (TransactionPool.remember enc ev m g p).1 ++ departed (rememberDepartures enc ev m g p) := rfl
  rw [hevents]
  rcases @remember_cases ε enc ev m g p with
    ⟨hds, ⟨e, heq⟩ | ⟨e, heq⟩⟩ | ⟨hds, fee, o, n, ⟨ho, e, heq⟩ | ⟨-, hsome, -, heq⟩⟩
  · rw [hds, heq]
    exact hp
  · rw [hds, heq]
    exact hchecked
  · rw [hds, heq]
    exact hprimed.withEvaluator fee n ho
  · rw [hds, heq]
    have hfed := @Accounted.withEvaluator ε enc limit _ _ hprimed fee o n (fun _ => hsome)
    exact hfed.accept (hprimed.idle hsome) g

theorem Accounted.test (hp : Accounted enc limit h p) (m : Moment ε) (g : Group) :
    Accounted enc limit (departed (testDepartures enc ev m g p) ++ h) (test enc ev m g p).2 := by
  have hchecked := hp.checked g
  rcases @test_cases ε enc ev m g p with ⟨hds, heq | heq⟩ | ⟨hds, heq⟩
  · rw [hds, heq]
    exact hp
  · rw [hds, heq]
    exact hchecked
  · rw [hds, heq]
    exact hchecked.reprime m

/-- A block that no pending group is in changes nothing of what counts. -/
theorem Accounted.strange (hp : Accounted enc limit h p) {committed : Finset Digest}
    (hout : ∀ first rest, first :: rest ∈ p.pending.txGroups → enc.computeTxnId first.txn ∉ committed) :
    Accounted enc limit (.block committed :: h) p := by
  have hsheds : Sheds enc [] p p := .of_same rfl rfl rfl rfl rfl rfl rfl rfl
  refine @Accounted.sheds ε enc limit h p p [] [committed] hp hsheds (fun d hd => nomatch hd) ?_ hp.idle hp.stopped
  intro first rest hin
  rw [committedSince_block, hp.marked first rest hin]
  exact or_iff_right (hout first rest hin)

/-- **A block that comes during a pause**: of its transactions those that wait here are kept. -/
theorem Accounted.recordPaused (hp : Accounted enc limit h p) (hpaused : p.inner.evaluatorPaused = true) (round : Round)
    (committed : Finset Digest) (hroom : p.inner.pausedCommitted.length < maxPausedBlocks) :
    Accounted enc limit (.block committed :: h) (recordPaused round committed p) := by
  have hkept : (TransactionPool.recordPaused round committed p).inner.pausedCommitted = p.inner.pausedCommitted ++
      [committed.filter (fun id => id ∈ p.pending.txids ∨ id ∈ p.inner.rememberedTxids)] := by
    unfold TransactionPool.recordPaused adjustFeeThreshold
    simp only
    rw [if_neg (Nat.not_le.2 hroom)]
  have hnone := hp.stopped hpaused
  have hsheds : Sheds enc [] p (TransactionPool.recordPaused round committed p) :=
    .of_same rfl rfl rfl rfl rfl rfl rfl rfl
  have hevaluator : (TransactionPool.recordPaused round committed p).inner.evaluator = none := hnone
  refine @Accounted.sheds ε enc limit h p _ [] [committed] hp hsheds (fun d hd => nomatch hd) ?_ ?_ (fun _ => hevaluator)
  · intro first rest hin
    have hwaits : enc.computeTxnId first.txn ∈ p.pending.txids :=
      (hp.covered _).2 (List.mem_flatMap.2 ⟨first :: rest, hin, List.mem_cons_self⟩)
    rw [committedSince_block, hp.marked first rest hin, hkept]
    simp only [List.mem_append, List.mem_singleton, or_and_right, exists_or, exists_eq_left, Finset.mem_filter, hwaits,
      true_or, and_true]
    exact or_comm
  · intro hsome
    rw [hevaluator] at hsome
    cases hsome

theorem Accounted.newBlock (hp : Accounted enc limit h p) (m : Moment ε) (round : Round) (committed : Finset Digest)
    (hproper : Proper enc ev m p (.call (.onNewBlock round committed))) :
    Accounted enc limit (events enc ev m p (.call (.onNewBlock round committed)) ++ h)
      (onNewBlock enc ev m round committed p) := by
  obtain ⟨hhandled, hroom⟩ := hproper
  -- a block that is not acted on has no pending group
  have hstrange : ¬ Handled ev m p round committed → Accounted enc limit (.block committed :: h) p := by
    intro hnot
    exact hp.strange (fun first rest hin hcommitted => hnot (hhandled ⟨first, rest, hin, hcommitted⟩))
  have hevents : events enc ev m p (.call (.onNewBlock round committed)) ++ h =
      departed (blockDepartures enc ev m round committed p) ++ (.block committed :: h) := by
    show (departed _ ++ [.block committed]) ++ h = _
    rw [List.append_assoc]
    rfl
  rw [hevents]
  unfold blockDepartures TransactionPool.onNewBlock
  by_cases hdown : p.shutdown = true
  · rw [if_pos hdown, if_pos hdown]
    exact hstrange (fun hh => by rw [hh.1] at hdown; cases hdown)
  rw [if_neg hdown, if_neg hdown]
  by_cases hpaused : p.inner.evaluatorPaused = true
  · rw [if_pos hpaused, if_pos hpaused]
    by_cases hfresh : p.inner.pausedLastRound.all (· < round) = true
    · rw [if_pos hfresh]
      exact hp.recordPaused hpaused round committed (hroom (Bool.eq_false_iff.2 hdown) hpaused hfresh)
    · rw [if_neg hfresh]
      refine hstrange (fun hh => hfresh ?_)
      have := hh.2
      rw [if_pos hpaused] at this
      exact this
  rw [if_neg hpaused, if_neg hpaused]
  by_cases hdue : p.inner.evaluator.all (fun e => decide (ev.round e ≤ round)) = true
  · rw [if_pos hdue, if_pos hdue]
    have hadjusted : Accounted enc limit h (adjustFeeThreshold p) := hp.of_same rfl rfl rfl rfl rfl id hp.stopped
    refine @Accounted.recompute ε enc ev limit h _ hadjusted m.ledger committed [committed] (fun id => by simp) ?_
    intro hstart first rest hin hcommitted
    have hh := (hhandled ⟨first, rest, hin, hcommitted⟩).2
    rw [if_neg hpaused] at hh
    have hstart' : rebuildStart m.ledger committed p = none := hstart
    rw [hstart'] at hh
    cases hh.2
  · rw [if_neg hdue, if_neg hdue]
    refine hstrange (fun hh => hdue ?_)
    have := hh.2
    rw [if_neg hpaused] at this
    exact this.1

theorem Accounted.evicted (hp : Accounted enc limit h p) (m : Moment ε) (ids : List Digest) (error : AlgoError)
    (hproper : Proper enc ev m p (.call (.evictGroups ids error))) :
    Accounted enc limit (departed (evictDepartures enc ev m ids error p) ++ h)
      (evictGroups enc ev m ids error p).2 := by
  obtain ⟨hunmarked, hapart⟩ := hproper
  rw [evictGroups_eq]
  unfold evictDepartures
  by_cases hnone : evictedGroups enc p ids = []
  · rw [if_pos hnone, if_pos hnone]
    exact hp
  rw [if_neg hnone, if_neg hnone]
  have hout : Accounted enc limit (departed (evictionDepartures enc p ids error) ++ h) (withoutGroups enc p ids error) := by
    refine @Accounted.sheds ε enc limit h p _ _ [] hp (withoutGroups_sheds p ids error hapart) ?_ ?_ hp.idle hp.stopped
    · intro d hd
      obtain ⟨g, hg, rfl⟩ := List.mem_map.1 hd
      obtain ⟨hin, hhit⟩ := List.mem_filter.1 hg
      cases g with
      | nil => cases hhit
      | cons first rest =>
        refine ⟨first, rest, rfl, (fun heq => nomatch heq), fun hsince => ?_⟩
        obtain ⟨s, hs, hmem⟩ := (hp.marked first rest hin).1 hsince
        exact absurd hmem (hunmarked first rest hg s hs)
    · intro first rest hin
      exact hp.marked first rest (List.mem_filter.1 hin).1
  by_cases hsome : p.inner.evaluator.isSome = true
  · rw [if_pos hsome, if_pos hsome, departed_append, List.append_assoc]
    exact hout.rebuild m.ledger
  · rw [if_neg hsome, if_neg hsome, List.append_nil]
    exact hout

theorem assembleBlock_same (ledger : PoolLedger ε) (round : Round) (deadline : Nat) (p : TransactionPool ε) :
    (assembleBlock ev ledger round deadline p).2.inner = p.inner ∧
      (assembleBlock ev ledger round deadline p).2.pending = p.pending := by
  unfold assembleBlock
  simp only
  split
  · exact ⟨rfl, rfl⟩
  split
  · exact ⟨rfl, rfl⟩
  split
  · exact ⟨rfl, rfl⟩
  · exact ⟨rfl, rfl⟩

theorem Accounted.of_inner (hp : Accounted enc limit h p) (hinner : p'.inner = p.inner) (hpending : p'.pending = p.pending) :
    Accounted enc limit h p' := by
  refine hp.of_same hpending ?_ ?_ ?_ ?_ ?_ ?_ <;> rw [hinner]
  · exact id
  · exact hp.stopped

/-- **Every call keeps the account**, but for a reset. -/
theorem Accounted.enact (hp : Accounted enc limit h p) (m : Moment ε) (c : PoolCall) (hreset : c.isReset = false)
    (hproper : Proper enc ev m p c) : Accounted enc limit (events enc ev m p c ++ h) (enact enc ev m p c) := by
  cases c with
  | assembleBlock round deadline =>
    obtain ⟨hinner, hpending⟩ := @assembleBlock_same ε ev m.ledger round deadline p
    exact hp.of_inner hinner hpending
  | call c =>
    cases c with
    | remember g => exact hp.remember m g
    | test g => exact hp.test m g
    | lookup id => exact hp
    | onNewBlock round committed => exact hp.newBlock m round committed hproper
    | evictGroups ids error => exact hp.evicted m ids error hproper
    | pauseEvaluator => exact hp.of_same rfl rfl rfl rfl rfl (fun hsome => nomatch hsome) (fun _ => rfl)
    | resumeEvaluator prime =>
      have hready : ∀ attempt, Accounted enc limit h
          { p with inner := { p.inner with evaluatorPaused := false, pausedLastRound := none, reprimeAttempt := attempt } } :=
        fun _ => hp.of_same rfl rfl rfl rfl rfl id (fun hpaused => nomatch hpaused)
      cases prime with
      | true => exact (hready _).rebuild m.ledger
      | false => exact hready _
    | assembleDevModeBlock =>
      have hre := @Accounted.rebuild ε enc ev limit h p hp m.ledger
      show Accounted enc limit (departed (rebuildDepartures enc ev m.ledger ∅ p) ++ h)
        (TransactionPool.assembleDevModeBlock enc ev m p).2
      unfold TransactionPool.assembleDevModeBlock
      simp only
      cases (recomputeBlockEvaluator enc ev m.ledger ∅ p).inner.evaluator with
      | none => exact hre
      | some e =>
        obtain ⟨hinner, hpending⟩ := @assembleBlock_same ε ev m.ledger (ev.round e)
          (m.now + (recomputeBlockEvaluator enc ev m.ledger ∅ p).config.proposalAssemblyTime)
          (recomputeBlockEvaluator enc ev m.ledger ∅ p)
        exact hre.of_inner hinner hpending
    | ensureEvaluatorPrimed =>
      show Accounted enc limit
        (departed (if p.inner.evaluator.isNone then rebuildDepartures enc ev m.ledger ∅ p else []) ++ h)
        (TransactionPool.ensureEvaluatorPrimed enc ev m p)
      unfold TransactionPool.ensureEvaluatorPrimed
      split
      · exact hp.rebuild m.ledger
      · exact hp
    | reset => cases hreset
    | shutDown => exact hp.of_same rfl rfl rfl rfl rfl id hp.stopped

theorem Accounted.enactAll : ∀ (calls : List (Moment ε × PoolCall)) {h : List Event} {p : TransactionPool ε},
    Accounted enc limit h p → (∀ c ∈ calls, c.2.isReset = false) → AllProper enc ev calls p →
    Accounted enc limit (history enc ev calls p h) (enactAll enc ev calls p)
  | [], _, _, hp, _, _ => hp
  | (m, c) :: calls, _, _, hp, hcalls, hproper =>
    Accounted.enactAll calls (hp.enact m c (hcalls _ List.mem_cons_self) hproper.1)
      (fun c' hc' => hcalls c' (List.mem_cons_of_mem _ hc')) hproper.2

/-! ## No transaction vanishes -/

theorem mentions_of_record {t : Digest} : ∀ {h : List Event}, t ∈ (recordsOf enc h).map Prod.fst → ∃ e ∈ h, Mentions enc t e
  | .accepted _ :: h, ht => by
    obtain ⟨e, he, hm⟩ := @mentions_of_record t h ht
    exact ⟨e, List.mem_cons_of_mem _ he, hm⟩
  | .block _ :: h, ht => by
    obtain ⟨e, he, hm⟩ := @mentions_of_record t h ht
    exact ⟨e, List.mem_cons_of_mem _ he, hm⟩
  | .departed d :: h, ht => by
    have hsplit : recordsOf enc (.departed d :: h) = recordsOf enc h ++ d.records enc := rfl
    rw [hsplit, List.map_append, List.mem_append] at ht
    rcases ht with ht | ht
    · obtain ⟨e, he, hm⟩ := @mentions_of_record t h ht
      exact ⟨e, List.mem_cons_of_mem _ he, hm⟩
    · refine ⟨.departed d, List.mem_cons_self, ?_⟩
      rw [Departure.records, List.map_map] at ht
      obtain ⟨id, hid, rfl⟩ := List.mem_map.1 ht
      exact hid

/-- The last place of an element in a list. -/
theorem last_split {t : Digest} : ∀ {l : List Digest}, t ∈ l → ∃ l₁ l₂, l = l₁ ++ t :: l₂ ∧ t ∉ l₂
  | x :: l, ht => by
    by_cases hl : t ∈ l
    · obtain ⟨l₁, l₂, rfl, hout⟩ := last_split hl
      exact ⟨x :: l₁, l₂, rfl, hout⟩
    · obtain rfl := (List.mem_cons.1 ht).resolve_right hl
      exact ⟨[], l, rfl, hl⟩

/-- The record of the newest departure, as long as few others follow. -/
theorem Accounted.check {t : Digest} {after : List Event} {d : Departure} {before : List Event} {ids ids' : List Digest}
    (hp : Accounted enc limit h p) (hsplit : h = after ++ .departed d :: before)
    (hids : groupIds enc d.group = ids ++ t :: ids') (hlast : t ∉ ids') (hafter : ∀ e ∈ after, ¬ Mentions enc t e)
    (hfew : ids'.length + (recordsOf enc after).length ≤ limit) : p.inner.statusCache.check t = some d.cause.text := by
  have hrecords : recordsOf enc h =
      (recordsOf enc before ++ ids.map (fun id => (id, d.cause.text))) ++
        ((t, d.cause.text) :: (ids'.map (fun id => (id, d.cause.text)) ++ recordsOf enc after)) := by
    have hd : recordsOf enc (.departed d :: before) = recordsOf enc before ++ d.records enc := rfl
    rw [hsplit, recordsOf_append, hd, Departure.records, hids]
    simp
  have hcapacity := StatusCache.putRecords_capacity (recordsOf enc before ++ ids.map (fun id => (id, d.cause.text)))
    (StatusCache.new limit)
  rw [hp.status, hrecords, StatusCache.putRecords_append]
  refine StatusCache.check_putRecords _ t d.cause.text _ ?_ ?_
  · rw [List.map_append, List.mem_append, not_or]
    constructor
    · simpa using hlast
    · intro ht
      obtain ⟨e, he, hm⟩ := mentions_of_record ht
      exact hafter e he hm
  · rw [hcapacity, List.length_append, List.length_map]
    exact hfew

/-- **No accepted transaction vanishes silently.**  After every run from a new pool, without a reset and with calls that
are proper, a transaction that was accepted is pending and found, or the newest event that names it is a departure of its
group.  That departure is a commitment exactly if a block since the group's acceptance has the group's first transaction,
and its text is found as long as fewer than `poolSize` records of other transactions follow the transaction's own. -/
theorem accepted_accounted (config : PoolConfig) (calls : List (Moment ε × PoolCall))
    (hreset : ∀ c ∈ calls, c.2.isReset = false) (hproper : AllProper enc ev calls (TransactionPool.new config))
    (p : TransactionPool ε) (hp : p = Pool.enactAll enc ev calls (TransactionPool.new config)) (h : List Event)
    (hh : h = history enc ev calls (TransactionPool.new config) []) (g : Group) (hg : .accepted g ∈ h) (t : Digest)
    (ht : t ∈ groupIds enc g) :
    (t ∈ allIds enc p.pending.txGroups ∧ (lookup p t).2 = ("", true)) ∨
    ∃ after d before ids ids', h = after ++ .departed d :: before ∧ (∀ e ∈ after, ¬ Mentions enc t e) ∧
      groupIds enc d.group = ids ++ t :: ids' ∧ t ∉ ids' ∧
      (∃ first rest, d.group = first :: rest ∧
        (d.cause = .committed ↔ CommittedSince before d.group (enc.computeTxnId first.txn))) ∧
      (ids'.length + (recordsOf enc after).length < config.poolSize → lookup p t = (default, d.cause.text, true)) := by
  have hacc := Accounted.enactAll calls (@accounted_new ε enc config) hreset hproper
  rw [← hp, ← hh] at hacc
  by_cases hpending : t ∈ allIds enc p.pending.txGroups
  · refine .inl ⟨hpending, ?_⟩
    obtain ⟨stx, hstx⟩ := FinMap.mem_iff_lookup.1 ((hacc.covered t).2 hpending)
    unfold lookup
    rw [hstx]
  · obtain ⟨after, d, before, hsplit, htd, hafter⟩ := (hacc.present g t hg ht).resolve_left hpending
    obtain ⟨ids, ids', hids, hlast⟩ := last_split htd
    refine .inr ⟨after, d, before, ids, ids', hsplit, hafter, hids, hlast, ?_, fun hfew => ?_⟩
    · exact CausesRight.at (hsplit ▸ hacc.causes)
    · have hgone : p.pending.txids.lookup t = none := by
        rw [AList.lookup_eq_none]
        exact fun hin => hpending ((hacc.covered t).1 hin)
      unfold lookup
      rw [hgone, hacc.check hsplit hids hlast hafter (Nat.le_of_lt hfew)]

/-! ## A block whose rebuild fails -/

def paymentId : Digest := sampleEncoding.computeTxnId (samplePayment 1).txn

/-- A payment is accepted, and a block has it. -/
def committedCalls : List (Moment (Round × List Digest) × PoolCall) :=
  [(roundMoment 10 [], .call (.onNewBlock 10 ∅)), (roundMoment 10 [], .call (.remember [samplePayment 1])),
    (roundMoment 11 [paymentId], .call (.onNewBlock 11 {paymentId}))]

theorem committedCalls_proper :
    AllProper sampleEncoding (roundEvaluator sampleEncoding) committedCalls (.new ⟨1, 2, 500⟩) := by
  refine ⟨⟨?_, ?_⟩, trivial, ⟨fun _ => ⟨by decide, ?_⟩, ?_⟩, trivial⟩
  · rintro ⟨first, rest, hin, -⟩
    cases hin
  · exact fun _ hpaused => nomatch hpaused
  · rw [if_neg (by decide)]
    exact ⟨by decide, by decide⟩
  · exact fun _ hpaused => absurd hpaused (by decide)

theorem accepted_accounted_payment :
    lookup (enactAll sampleEncoding (roundEvaluator sampleEncoding) committedCalls (.new ⟨1, 2, 500⟩)) paymentId =
      (default, "", true) ∧
    (paymentId ∈ allIds sampleEncoding
        (enactAll sampleEncoding (roundEvaluator sampleEncoding) committedCalls (.new ⟨1, 2, 500⟩)).pending.txGroups ∨
      LastDeparts sampleEncoding paymentId
        (history sampleEncoding (roundEvaluator sampleEncoding) committedCalls (.new ⟨1, 2, 500⟩) [])) := by
  constructor
  · rfl
  · have hg : Event.accepted [samplePayment 1] ∈
        history sampleEncoding (roundEvaluator sampleEncoding) committedCalls (.new ⟨1, 2, 500⟩) [] :=
      .tail _ (.tail _ (.head _))
    rcases accepted_accounted ⟨1, 2, 500⟩ committedCalls (by decide) committedCalls_proper _ rfl _ rfl [samplePayment 1]
        hg paymentId List.mem_cons_self with ⟨hin, -⟩ | ⟨after, d, before, ids, ids', hsplit, hafter, hids, -⟩
    · exact .inl hin
    · exact .inr ⟨after, d, before, hsplit, by rw [hids]; simp, hafter⟩

/-- A ledger that cannot read its latest header. -/
def failingMoment (latest : Round) : Moment (Round × List Digest) where
  ledger := { (roundMoment latest []).ledger with blockHdr := fun _ => .error (.ledger "database is locked") }
  now := 0

/-- The block that has the payment comes while the header cannot be read; the next one comes after it can. -/
def forgottenCalls : List (Moment (Round × List Digest) × PoolCall) :=
  [(roundMoment 10 [], .call (.onNewBlock 10 ∅)), (roundMoment 10 [], .call (.remember [samplePayment 1])),
    (failingMoment 11, .call (.onNewBlock 11 {paymentId})), (roundMoment 12 [paymentId], .call (.onNewBlock 12 ∅))]

set_option maxRecDepth 8000 in
/-- The payment was accepted and a block has it since, but its record is the error of the next rebuild. -/
theorem committed_payment_refused :
    (∀ c ∈ forgottenCalls, c.2.isReset = false) ∧
    (∃ d h, history sampleEncoding (roundEvaluator sampleEncoding) forgottenCalls (.new ⟨1, 2, 500⟩) [] =
      .departed d :: h ∧ d.group = [samplePayment 1] ∧ CommittedSince h [samplePayment 1] paymentId) ∧
    lookup (enactAll sampleEncoding (roundEvaluator sampleEncoding) forgottenCalls (.new ⟨1, 2, 500⟩)) paymentId =
      (default, "TransactionPool.ingest: ledger error: transaction already in ledger", true) := by
  refine ⟨by decide, ⟨⟨[samplePayment 1], .refused (.evaluator "ledger error: transaction already in ledger")⟩,
    [.block ∅, .block {paymentId}, .accepted [samplePayment 1], .block ∅], ?_, rfl, ?_⟩, ?_⟩
  · rfl
  · exact .inr (.inl (Finset.mem_singleton_self _))
  · rfl

end Pool
end Algod
