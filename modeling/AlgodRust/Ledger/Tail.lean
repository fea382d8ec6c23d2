import AlgodRust.Ledger.Types
import AlgodRust.Lib.FinMap
/-!
# Tail — what the ledger remembers of recent transactions

The lease table holds, for a sender and a lease, the last round in which the lease is in force.  The txtail holds one
row per committed round with the ids, last valid rounds and leases of its transactions.  Lemmas about the table speak
of the leases in force (`InForce`), not of its entries: an entry may be raised, or purged once it has expired.
-/
namespace Algod
namespace Ledger

/-- A lease of a sender. -/
abbrev LeaseKey := Address × Bytes32

structure LeaseTable where
  entries : FinMap LeaseKey Round
deriving Inhabited

namespace LeaseTable

def new : LeaseTable := ⟨∅⟩

/-- Whether a transaction with this sender and lease is allowed; the zero lease always is. -/
def check (t : LeaseTable) (sender : Address) (lease : Bytes32) (currentRound : Round) : Bool :=
  if lease = 0 then true
  else
    match t.entries.lookup (sender, lease) with
    | some storedLastValid => decide (storedLastValid < currentRound)
    | none => true

/-- The entry keeps the later of its expiry and `lastValid`. -/
def record (t : LeaseTable) (sender : Address) (lease : Bytes32) (lastValid : Round) : LeaseTable :=
  if lease = 0 then t
  else
    match t.entries.lookup (sender, lease) with
    | some expires => if expires ≥ lastValid then t else ⟨t.entries.insert (sender, lease) lastValid⟩
    | none => ⟨t.entries.insert (sender, lease) lastValid⟩

def purgeExpired (t : LeaseTable) (currentRound : Round) : LeaseTable :=
  ⟨FinMap.retain (fun _ lastValid => decide (lastValid ≥ currentRound)) t.entries⟩

/-- The lease is in force in `round`. -/
def InForce (t : LeaseTable) (k : LeaseKey) (round : Round) : Prop := ∃ e, t.entries.lookup k = some e ∧ round ≤ e

theorem check_eq_true {t : LeaseTable} {sender : Address} {lease : Bytes32} {round : Round} :
    t.check sender lease round = true ↔ lease = 0 ∨ ¬ t.InForce (sender, lease) round := by
  unfold check InForce
  by_cases hl : lease = 0
  · rw [if_pos hl]
    exact ⟨fun _ => .inl hl, fun _ => rfl⟩
  · rw [if_neg hl]
    cases h : t.entries.lookup (sender, lease) with
    | none => simp
    | some e =>
      simp only [Option.some.injEq, exists_eq_left', decide_eq_true_eq, not_le]
      constructor
      · exact .inr
      · rintro (h₀ | hr)
        · exact absurd h₀ hl
        · exact hr

theorem inForce_record {t : LeaseTable} {sender : Address} {lease : Bytes32} {lastValid : Round} {k : LeaseKey}
    {round : Round} :
    (t.record sender lease lastValid).InForce k round ↔
      t.InForce k round ∨ k = (sender, lease) ∧ lease ≠ 0 ∧ round ≤ lastValid := by
  unfold record InForce
  by_cases hl : lease = 0
  · simp [hl]
  · rw [if_neg hl]
    by_cases hk : k = (sender, lease)
    · subst hk
      cases h : t.entries.lookup (sender, lease) with
      | none =>
        simp only [AList.lookup_insert, Option.some.injEq, exists_eq_left']
        constructor
        · intro hr
          exact .inr ⟨trivial, hl, hr⟩
        · rintro (⟨_, he, _⟩ | ⟨_, _, hr⟩)
          · cases he
          · exact hr
      | some e =>
        by_cases he : e ≥ lastValid
        · simp only [if_pos he, h, Option.some.injEq, exists_eq_left']
          constructor
          · exact .inl
          · rintro (hr | ⟨_, _, hr⟩)
            · exact hr
            · exact le_trans hr he
        · simp only [if_neg he, AList.lookup_insert, Option.some.injEq, exists_eq_left']
          constructor
          · intro hr
            exact .inr ⟨trivial, hl, hr⟩
          · rintro (hr | ⟨_, _, hr⟩)
            · exact le_trans hr (le_of_lt (not_le.1 he))
            · exact hr
    · cases h : t.entries.lookup (sender, lease) with
      | none => simp [hk]
      | some e =>
        by_cases he : e ≥ lastValid
        · simp [he, hk]
        · simp [he, hk]

/-- Purging at a round loses no lease in force from that round on. -/
theorem inForce_purgeExpired {t : LeaseTable} {current : Round} {k : LeaseKey} {round : Round} (h : current ≤ round) :
    (t.purgeExpired current).InForce k round ↔ t.InForce k round := by
  unfold purgeExpired InForce
  simp only [FinMap.lookup_retain, Option.filter_eq_some_iff, decide_eq_true_eq]
  constructor
  · rintro ⟨e, ⟨he, _⟩, hr⟩
    exact ⟨e, he, hr⟩
  · rintro ⟨e, he, hr⟩
    exact ⟨e, ⟨he, le_trans h hr⟩, hr⟩

end LeaseTable

structure TxTailRoundLease where
  sender : Address
  lease : Bytes32
  txnIdx : Nat
deriving DecidableEq, Repr

/-- One row of the txtail.  The block header it also holds is not read by the functions here. -/
structure TxTailRound where
  txnIds : List Digest
  lastValid : List Round
  leases : List TxTailRoundLease
deriving DecidableEq, Repr

/-- Record the leases of a row that are in force at `activeAt`; an entry whose index is out of range is skipped. -/
def LeaseTable.recordTxtailRound (t : LeaseTable) (tail : TxTailRound) (activeAt : Round) : LeaseTable :=
  tail.leases.foldl (fun t e =>
    match tail.lastValid[e.txnIdx]? with
    | none => t
    | some lastValid => if lastValid ≥ activeAt then t.record e.sender e.lease lastValid else t) t

/-- The row of a payset whose transactions have the ids `txids`. -/
def txtailFromBlockAndTxids (payset : List SignedTransaction) (txids : List Digest) : TxTailRound :=
  let rows := (payset.zip txids).zipIdx
  { txnIds := rows.map (fun r => r.1.2)
    lastValid := rows.map (fun r => r.1.1.txn.lastValid)
    leases := rows.filterMap (fun r =>
      if r.1.1.txn.lease ≠ 0 then some ⟨r.1.1.txn.sender, r.1.1.txn.lease, r.2⟩ else none) }

theorem txtailFromBlockAndTxids_txnIds {payset : List SignedTransaction} {txids : List Digest}
    (h : txids.length = payset.length) : (txtailFromBlockAndTxids payset txids).txnIds = txids := by
  unfold txtailFromBlockAndTxids
  simp only
  have hids : (payset.zip txids).zipIdx.map (fun r => r.1.2) = ((payset.zip txids).zipIdx.map Prod.fst).map Prod.snd := by
    rw [List.map_map]
    rfl
  rw [hids, List.zipIdx_map_fst, List.map_snd_zip (le_of_eq h)]

/-- How far back a node keeps its rows, beyond what the protocol asks for. -/
structure RetentionConfig where
  maxBlockHistoryLookback : Nat
  catchpointMinRoundsLookback : Nat
  archival : Bool
deriving DecidableEq, Repr, Inhabited

/-- The part of a committed store that the duplicate checks read. -/
structure ChainTail where
  currentRound : Round
  leases : LeaseTable
  txtail : FinMap Round TxTailRound
  retention : RetentionConfig
deriving Inhabited

namespace ChainTail

/-- The ids among `txids` that a row of the last `maxTxnLife` rounds holds.  A missing row holds none. -/
def txtailConfirmedTxids (s : ChainTail) (txids : List Digest) (maxTxnLife : Nat) : List Digest :=
  let lo := max (s.currentRound - maxTxnLife) 1
  let held := (List.range' lo (s.currentRound + 1 - lo)).flatMap
    (fun r => ((s.txtail.lookup r).map TxTailRound.txnIds).getD [])
  txids.filter (fun id => decide (id ∈ held))

theorem mem_window {lo hi r : Nat} : r ∈ List.range' lo (hi + 1 - lo) ↔ lo ≤ r ∧ r ≤ hi := by
  rw [List.mem_range'_1]
  omega

theorem mem_txtailConfirmedTxids {s : ChainTail} {txids : List Digest} {maxTxnLife : Nat} {id : Digest} :
    id ∈ s.txtailConfirmedTxids txids maxTxnLife ↔
      id ∈ txids ∧ ∃ r row, s.currentRound - maxTxnLife ≤ r ∧ 1 ≤ r ∧ r ≤ s.currentRound ∧
        s.txtail.lookup r = some row ∧ id ∈ row.txnIds := by
  unfold txtailConfirmedTxids
  simp only [List.mem_filter, decide_eq_true_eq, List.mem_flatMap, mem_window, max_le_iff]
  constructor
  · rintro ⟨hid, r, ⟨⟨h₁, h₂⟩, h₃⟩, hm⟩
    cases hrow : s.txtail.lookup r with
    | none =>
      rw [hrow] at hm
      cases hm
    | some row =>
      rw [hrow] at hm
      exact ⟨hid, r, row, h₁, h₂, h₃, hrow, hm⟩
  · rintro ⟨hid, r, row, h₁, h₂, h₃, hrow, hm⟩
    refine ⟨hid, r, ⟨⟨h₁, h₂⟩, h₃⟩, ?_⟩
    rw [hrow]
    exact hm

def putTxtail (s : ChainTail) (round : Round) (row : TxTailRound) : ChainTail :=
  { s with txtail := s.txtail.insert round row }

def forgetBefore (s : ChainTail) (round : Round) : ChainTail :=
  { s with txtail := FinMap.retain (fun r _ => decide (r ≥ round)) s.txtail }

/-- The round below which rows are dropped once `round` is committed: the oldest of what the protocol and the node ask
for.  An archival node drops nothing. -/
def forgetBeforeRound (retention : RetentionConfig) (consensus : ConsensusParams) (round : Nat) : Nat :=
  let retainSize := consensus.maxTxnLife + consensus.deeperBlockHeaderHistory
  if retention.archival then 0
  else
    let floor := (round + 1) - retainSize
    let floor := if retention.maxBlockHistoryLookback > 0
      then min floor ((round + 1) - retention.maxBlockHistoryLookback) else floor
    if retention.catchpointMinRoundsLookback > 0
      then min floor ((round + 1) - retention.catchpointMinRoundsLookback) else floor

theorem forgetBeforeRound_le (retention : RetentionConfig) (consensus : ConsensusParams) (round : Nat) :
    forgetBeforeRound retention consensus round ≤ round + 1 - consensus.maxTxnLife := by
  unfold forgetBeforeRound
  simp only
  split_ifs <;> omega

end ChainTail

end Ledger
end Algod
