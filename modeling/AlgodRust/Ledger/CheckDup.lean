import AlgodRust.Ledger.Tail
import AlgodRust.Lib.Run
/-!
# CheckDup — the duplicate and lease checks of a block's payset

Before a transaction is evaluated it must be alive in the block's round, and neither its id nor its lease may be held
by an earlier transaction of the block or by the ledger.  `prologuePrepass` runs the checks over a whole payset without
executing anything.  A transaction's id is the hash of its encoding with the genesis fields restored, so it is a
function `txid` of the restored transaction.
-/
namespace Algod
namespace Ledger

open Run (bind_eq_ok)

inductive Rejection
  | txnDead (round first last : Round)
  | genesisIdMismatch (txn expected : String)
  | genesisHashMismatch (txn expected : Bytes32)
  | genesisHashMissing
  | genesisHashNotAllowed (txn : Bytes32)
  | transactionInLedger (txid : Digest) (inBlock : Bool)
  | leaseInLedger (txid : Digest) (sender : Address) (lease : Bytes32) (inBlock : Bool)
  | missingRound (lastValid : Round)
deriving DecidableEq, Repr

/-- The validity window, then the genesis id and the genesis hash. -/
def blockAliveWithGenesis (round : Round) (genesisId : String) (genesisHash : Bytes32) (params : ConsensusParams)
    (txn : Transaction) (txnGenesisId : String) (txnGenesisHash : Bytes32) : Except Rejection Unit :=
  if round < txn.firstValid ∨ round > txn.lastValid then .error (.txnDead round txn.firstValid txn.lastValid)
  else if !txnGenesisId.isEmpty && txnGenesisId != genesisId then .error (.genesisIdMismatch txnGenesisId genesisId)
  else if params.supportGenesisHash then
    if txnGenesisHash ≠ 0 ∧ txnGenesisHash ≠ genesisHash then .error (.genesisHashMismatch txnGenesisHash genesisHash)
    else if params.requireGenesisHash = true ∧ txnGenesisHash = 0 then .error .genesisHashMissing
    else .ok ()
  else if txnGenesisHash ≠ 0 then .error (.genesisHashNotAllowed txnGenesisHash)
  else .ok ()

def alive (round : Round) (consensus : ConsensusParams) (rule : GenesisRestoreRule) (stx : SignedTransaction) :
    Except Rejection Unit :=
  let g := rule.restoredGenesis stx
  blockAliveWithGenesis round rule.genesisId rule.genesisHash consensus stx.txn g.1 g.2

theorem alive_eq_ok {round : Round} {consensus : ConsensusParams} {rule : GenesisRestoreRule} {stx : SignedTransaction}
    {u : Unit} (h : alive round consensus rule stx = .ok u) : stx.txn.firstValid ≤ round ∧ round ≤ stx.txn.lastValid := by
  unfold alive blockAliveWithGenesis at h
  simp only at h
  split at h
  · cases h
  · rename_i hw
    rw [not_or, not_lt, not_lt] at hw
    exact hw

/-! ## The block's own transactions -/

/-- The transactions already evaluated in the block. -/
structure BlockDups where
  txids : Finset Digest
  leases : FinMap LeaseKey Round

namespace BlockDups

def new : BlockDups := ⟨∅, ∅⟩

def record (b : BlockDups) (txn : Transaction) (txid : Digest) : BlockDups :=
  { txids := insert txid b.txids
    leases := if txn.lease ≠ 0 then b.leases.insert (txn.sender, txn.lease) txn.lastValid else b.leases }

/-- The block's half of the check.  It returns whether the lease checks apply to the transaction. -/
def check (b : BlockDups) (consensus : ConsensusParams) (txn : Transaction) (txid : Digest) (round : Round) :
    Except Rejection Bool :=
  if txid ∈ b.txids then .error (.transactionInLedger txid true)
  else
    let leased := consensus.supportTransactionLeases && decide (txn.lease ≠ 0)
    if leased && (b.leases.lookup (txn.sender, txn.lease)).any (fun expires => decide (round ≤ expires)) then
      .error (.leaseInLedger txid txn.sender txn.lease true)
    else .ok leased

theorem check_eq_ok {b : BlockDups} {consensus : ConsensusParams} {txn : Transaction} {txid : Digest} {round : Round}
    {leased : Bool} (h : b.check consensus txn txid round = .ok leased) :
    txid ∉ b.txids ∧ leased = (consensus.supportTransactionLeases && decide (txn.lease ≠ 0)) ∧
      (leased = true → ∀ e, b.leases.lookup (txn.sender, txn.lease) = some e → e < round) := by
  unfold check at h
  split at h
  · cases h
  · rename_i hid
    simp only at h
    split at h
    · cases h
    · rename_i hlease
      cases h
      refine ⟨hid, rfl, fun hl e he => ?_⟩
      rw [hl, he] at hlease
      simpa using hlease

end BlockDups

/-! ## The ledger -/

/-- The round a block is evaluated in and the ids of its payset. -/
structure LedgerDups where
  round : Round
  txids : List Digest

/-- The leases in force at `activeAt` that the rows `[first, last]` record; a missing row records none. -/
def windowLeases (s : ChainTail) (first last activeAt : Round) : LeaseTable :=
  let first := max first 1
  (List.range' first (last + 1 - first)).foldl (fun t r =>
    match s.txtail.lookup r with
    | none => t
    | some tail => t.recordTxtailRound tail activeAt) LeaseTable.new

namespace LedgerDups

def txidInLedger (l : LedgerDups) (s : ChainTail) (consensus : ConsensusParams) (txid : Digest) : Bool :=
  decide (txid ∈ s.txtailConfirmedTxids l.txids consensus.maxTxnLife)

/-- A committed transaction with this sender and lease is still in force.  At the next round the lease table answers;
for a past round, or a protocol whose window is the transaction's own, the rows of the window do. -/
def leaseInLedger (l : LedgerDups) (s : ChainTail) (consensus : ConsensusParams) (txn : Transaction) : Bool :=
  let latest := s.currentRound
  let recentLo := latest - consensus.maxTxnLife
  if !consensus.fixTransactionLeases then
    let first := max txn.firstValid recentLo
    let last := min txn.lastValid latest
    !(windowLeases s first last l.round).check txn.sender txn.lease l.round
  else if l.round > latest then !s.leases.check txn.sender txn.lease l.round
  else
    let first := max (l.round - consensus.maxTxnLife) recentLo
    !(windowLeases s first l.round l.round).check txn.sender txn.lease l.round

end LedgerDups

def checkDupLedgerHalf (s : ChainTail) (consensus : ConsensusParams) (txn : Transaction) (txid : Digest) (leased : Bool)
    (ledger : LedgerDups) : Except Rejection Unit :=
  if txn.lastValid < s.currentRound then .error (.missingRound txn.lastValid)
  else if leased && ledger.leaseInLedger s consensus txn then
    .error (.leaseInLedger txid txn.sender txn.lease false)
  else if ledger.txidInLedger s consensus txid then .error (.transactionInLedger txid false)
  else .ok ()

/-- At the next round, under a protocol with the lease fix: the ledger's half passes where the lease table and the rows
of the last `maxTxnLife` rounds hold neither the lease nor the id. -/
theorem checkDupLedgerHalf_eq_ok {s : ChainTail} {consensus : ConsensusParams} {txn : Transaction} {txid : Digest}
    {leased : Bool} {ledger : LedgerDups} {u : Unit} (hfix : consensus.fixTransactionLeases = true)
    (hround : s.currentRound < ledger.round) (h : checkDupLedgerHalf s consensus txn txid leased ledger = .ok u) :
    (leased = true → s.leases.check txn.sender txn.lease ledger.round = true) ∧
      txid ∉ s.txtailConfirmedTxids ledger.txids consensus.maxTxnLife := by
  unfold checkDupLedgerHalf at h
  split at h
  · cases h
  · split at h
    · cases h
    · rename_i hlease
      split at h
      · cases h
      · rename_i hid
        constructor
        · intro hl
          unfold LedgerDups.leaseInLedger at hlease
          simp only [hl, hfix, Bool.not_true, Bool.true_and] at hlease
          rw [if_neg Bool.false_ne_true, if_pos hround] at hlease
          simpa using hlease
        · simpa [LedgerDups.txidInLedger] using hid

def checkDup (s : ChainTail) (consensus : ConsensusParams) (txn : Transaction) (txid : Digest) (block : BlockDups)
    (ledger : LedgerDups) : Except Rejection Unit := do
  let leased ← block.check consensus txn txid ledger.round
  checkDupLedgerHalf s consensus txn txid leased ledger

/-! ## A whole payset -/

section Payset

variable (protocols : String → Option ConsensusParams) (txid : Transaction → Digest)

/-- The id of every transaction of a payset, as the txtail records it. -/
def paysetTxidsWithRule (payset : List SignedTransaction) (rule : GenesisRestoreRule) : List Digest :=
  payset.map (fun stx => txid (rule.restoredTxn stx))

/-- The checks of the payset's transactions in order, each recorded in the block once it passed. -/
def checkPaysetFrom (s : ChainTail) (consensus : ConsensusParams) (rule : GenesisRestoreRule) (ledger : LedgerDups) :
    BlockDups → List (SignedTransaction × Digest) → Except Rejection Unit
  | _, [] => .ok ()
  | block, (stx, id) :: rest => do
    alive ledger.round consensus rule stx
    checkDup s consensus stx.txn id block ledger
    checkPaysetFrom s consensus rule ledger (block.record stx.txn id) rest

inductive CouldNotRun
  | unknownProtocol (protocol : String)
  | notStripped (index : Nat) (error : GenesisFieldError)
deriving DecidableEq, Repr

inductive Prepass
  | violation (r : Rejection)
  | clean
  | couldNotRun (r : CouldNotRun)
deriving DecidableEq, Repr

def prologuePrepass (s : ChainTail) (block : Block) : Prepass :=
  match protocols block.currentProtocol with
  | none => .couldNotRun (.unknownProtocol block.currentProtocol)
  | some consensus =>
    let rule := GenesisRestoreRule.forParams consensus block
    match rule.checkPayset 0 block.payset with
    | .error e => .couldNotRun (.notStripped e.1 e.2)
    | .ok _ =>
      let txids := paysetTxidsWithRule txid block.payset rule
      match checkPaysetFrom s consensus rule ⟨block.round, txids⟩ .new (block.payset.zip txids) with
      | .error r => .violation r
      | .ok _ => .clean

/-- **A clean payset passed every check**, under the parameters of the block's protocol. -/
theorem prologuePrepass_eq_clean {s : ChainTail} {block : Block} (h : prologuePrepass protocols txid s block = .clean) :
    ∃ consensus, protocols block.currentProtocol = some consensus ∧
      let rule := GenesisRestoreRule.forParams consensus block
      let txids := paysetTxidsWithRule txid block.payset rule
      rule.checkPayset 0 block.payset = .ok () ∧
        checkPaysetFrom s consensus rule ⟨block.round, txids⟩ .new (block.payset.zip txids) = .ok () := by
  unfold prologuePrepass at h
  split at h
  · cases h
  · rename_i consensus hp
    simp only at h
    split at h
    · cases h
    · rename_i hstripped
      split at h
      · cases h
      · rename_i hcheck
        exact ⟨consensus, hp, hstripped, hcheck⟩

end Payset

end Ledger
end Algod
