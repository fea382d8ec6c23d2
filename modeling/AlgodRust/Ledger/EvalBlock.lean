import AlgodRust.Ledger.Apply
import AlgodRust.Ledger.CheckDup
import Mathlib.Data.List.SplitBy
/-!
# EvalBlock — evaluating a block

A block starts by withdrawing the rewards it accrues from the pool.  Its groups are then applied in order, each
transaction after the checks of its prologue, and the end of the block resets expired and absent accounts, judges and
pays the proposer's payout and records the proposal.  A store that stages a pending block keeps the leases of that block
apart from the committed ones (`StoreView`).
-/
namespace Algod
namespace Ledger

open Msgpack (Bytes Value)

/-! ## Block-start withdrawal -/

def testnetGenesisHash : Bytes32 := 0x4863b518a4b3c84ec810f22d4f1081cb0f71f059a7ac20dec62f7f70e5093a22
def testnetBankAddress : Address := ⟨0x30fdcc231b9d8c3609af7f7bb1e5ef8f963a48b07213528defbd886d96ae4884⟩
def testnetOverspentRewardsRounds : List Round := [1499995, 2926564]
def testnetOverspentRewardsAmount : Nat := 20000000000

structure BlockRewardsWithdrawal where
  round : Round
  pool : Address
  prevRewardsLevel : Nat
  rewardsLevel : Nat
  prevRewardUnits : Nat
  genesisHash : Bytes32
  minBalance : Nat
deriving DecidableEq, Repr

def BlockRewardsWithdrawal.isTestnetHotfixRound (w : BlockRewardsWithdrawal) : Bool :=
  decide (w.round ∈ testnetOverspentRewardsRounds) && decide (w.genesisHash = testnetGenesisHash)

inductive WithdrawalError
  | levelBelow (level prevLevel : Nat) (round : Round)
  | rewards (e : ApplyError)
  | bankOverspent (balance amount : Nat)
  | poolOverflow (pool : Address)
  | poolOverspent (round : Round)
  | poolBelowMinBalance (round : Round)
deriving DecidableEq, Repr

def rewardsOf (account : AccountData) (level : Nat) : Except WithdrawalError AccountData :=
  match withRewards account level with
  | .error e => .error (.rewards e)
  | .ok r => .ok r.1

/-- In two rounds of one network the bank refills the pool. -/
def workaroundOverspentRewards (s : Store) (w : BlockRewardsWithdrawal) : Except WithdrawalError Store :=
  if !w.isTestnetHotfixRound then .ok s
  else do
    let amount := testnetOverspentRewardsAmount
    let bank ← rewardsOf (s.getOrDefaultAccount testnetBankAddress) w.rewardsLevel
    if bank.microAlgos < amount then .error (.bankOverspent bank.microAlgos amount)
    else
      let s := s.setAccount testnetBankAddress { bank with microAlgos := bank.microAlgos - amount }
      let pool ← rewardsOf (s.getOrDefaultAccount w.pool) w.rewardsLevel
      if pool.microAlgos + amount < u64Bound
      then .ok (s.setAccount w.pool { pool with microAlgos := pool.microAlgos + amount })
      else .error (.poolOverflow w.pool)

def withdrawBlockRewards (s : Store) (w : BlockRewardsWithdrawal) : Except WithdrawalError Store :=
  if w.rewardsLevel < w.prevRewardsLevel then .error (.levelBelow w.rewardsLevel w.prevRewardsLevel w.round)
  else do
    let rewardsPerUnit := w.rewardsLevel - w.prevRewardsLevel
    let s ← workaroundOverspentRewards s w
    let poolOld := s.getOrDefaultAccount w.pool
    let pool ← rewardsOf poolOld w.rewardsLevel
    let withdrawal := w.prevRewardUnits * rewardsPerUnit
    -- the product and the difference are checked
    if withdrawal ≥ u64Bound ∨ pool.microAlgos < withdrawal then .error (.poolOverspent w.round)
    else
      let pool := { pool with microAlgos := pool.microAlgos - withdrawal }
      let s := if pool ≠ poolOld then s.setAccount w.pool pool else s
      if pool.microAlgos < w.minBalance then .error (.poolBelowMinBalance w.round) else .ok s

/-! ## The prologue of a transaction -/

/-- How a store answers the duplicate checks: the committed tail, and the leases of the block it stages. -/
structure StoreView where
  committed : Store → ChainTail
  pending : Store → LeaseTable

namespace StoreView

/-- A store that stages nothing. -/
def plain : StoreView := ⟨Store.tail, fun _ => LeaseTable.new⟩

/-- An overlay over a committed store: the overlay's own lease table holds the leases of the pending block. -/
def overlay (base : ChainTail) : StoreView := ⟨fun _ => base, fun s => s.tail.leases⟩

end StoreView

inductive PrologueRejection
  | rejected (r : Rejection)
  | authorizer (txid : Digest) (correct actual : Address)
deriving DecidableEq, Repr

/-- The sender's account names who may authorize its transactions. -/
def checkAuthorizerFor (s : Store) (stx : SignedTransaction) (txid : Digest) : Except PrologueRejection Unit :=
  let sender := stx.txn.sender
  let correct := ((s.getAccount sender).bind AccountData.authAddr).getD sender
  let actual := stx.authAddr.getD sender
  if actual ≠ correct then .error (.authorizer txid correct actual) else .ok ()

section Prologue

variable (view : StoreView)

/-- The block's own transactions, then the leases of the pending block, then the ledger. -/
def checkDupIn (s : Store) (consensus : ConsensusParams) (txn : Transaction) (txid : Digest) (block : BlockDups)
    (ledger : LedgerDups) : Except Rejection Unit := do
  let leased ← block.check consensus txn txid ledger.round
  if leased && !(view.pending s).check txn.sender txn.lease ledger.round then
    .error (.leaseInLedger txid txn.sender txn.lease true)
  else checkDupLedgerHalf (view.committed s) consensus txn txid leased ledger

/-- The checks of a transaction before it is applied.  A transaction that passes the duplicate check is recorded. -/
def txnPrologue (s : Store) (consensus : ConsensusParams) (rule : GenesisRestoreRule) (ledger : LedgerDups)
    (dups : BlockDups) (stx : SignedTransaction) (txid : Digest) : Except PrologueRejection BlockDups :=
  match (do alive ledger.round consensus rule stx; checkDupIn view s consensus stx.txn txid dups ledger) with
  | .error r => .error (.rejected r)
  | .ok _ => do
    checkAuthorizerFor s stx txid
    return dups.record stx.txn txid

end Prologue

/-! ## The payset -/

/-- What the programs of a transaction see besides the store: its group, the state the group started in, and its index
in the group. -/
structure GroupInfo where
  txns : List SignedTransaction
  start : Store × Cells
  index : Nat

inductive TxnFailure
  | prologue (r : PrologueRejection)
  | apply (e : ApplyError)
deriving DecidableEq, Repr

structure EvalState where
  store : Store
  cells : Cells
  dups : BlockDups
  applyData : List ApplyData

/-- What stays the same while the payset is applied. -/
structure PaysetContext where
  ctx : ApplyContext
  rule : GenesisRestoreRule
  ledger : LedgerDups
  checkDup : Bool

section Payset

variable (ext : GroupInfo → Externals) (view : StoreView) (p : PaysetContext)

/-- One transaction of a group. -/
def evalTransaction (txns : List SignedTransaction) (start : Store × Cells) (st : EvalState)
    (m : (SignedTransaction × Digest) × Nat) : Except TxnFailure EvalState :=
  let stx := m.1.1
  match (if p.checkDup then txnPrologue view st.store p.ctx.consensus p.rule p.ledger st.dups stx m.1.2
    else .ok st.dups) with
  | .error r => .error (.prologue r)
  | .ok dups =>
    match applyTransaction (ext ⟨txns, start, m.2⟩) p.ctx 0 (st.store, st.cells) stx with
    | .error e => .error (.apply e)
    | .ok r => .ok ⟨r.1.1, r.1.2, dups, st.applyData ++ [r.2]⟩

/-- A group from the state it starts in.  The failing transaction is the one after those applied. -/
def applyGroupFrom (txns : List SignedTransaction) (start : Store × Cells) :
    EvalState → List ((SignedTransaction × Digest) × Nat) → Except (Nat × TxnFailure) EvalState
  | st, [] => .ok st
  | st, m :: rest =>
    match evalTransaction ext view p txns start st m with
    | .error e => .error (st.applyData.length, e)
    | .ok st' => applyGroupFrom txns start st' rest

def applyGroupTransactions (st : EvalState) (group : List (SignedTransaction × Digest)) :
    Except (Nat × TxnFailure) EvalState :=
  applyGroupFrom ext view p (group.map Prod.fst) (st.store, st.cells) st group.zipIdx

/-- Adjacent transactions of one group id, other than zero, form a group. -/
def sameGroup (a b : SignedTransaction × Digest) : Bool :=
  decide (a.1.txn.group ≠ 0) && decide (a.1.txn.group = b.1.txn.group)

def detectTransactionGroups (payset : List (SignedTransaction × Digest)) : List (List (SignedTransaction × Digest)) :=
  payset.splitBy sameGroup

def applyPayset (st : EvalState) (payset : List (SignedTransaction × Digest)) : Except (Nat × TxnFailure) EvalState :=
  (detectTransactionGroups payset).foldlM (applyGroupTransactions ext view p) st

end Payset

/-! ## The end of a block -/

inductive PayoutViolation
  | feesCollectedDisabled (fees : Nat)
  | proposerDisabled (proposer : Address)
  | payoutDisabled (payout : Nat)
  | feesCollectedWrong (header paid : Nat)
  | bonusOverflow (incentive bonus : Nat)
  | aboveAllowed (payout allowed : Nat)
  | proposerMissing
  | proposerClosed (proposer : Address) (payout : Nat)
deriving DecidableEq, Repr

inductive BlockError
  | unknownProtocol (protocol : String)
  | notStripped (index : Nat) (error : GenesisFieldError)
  | wrongRound (expected got : Round)
  | withdrawal (e : WithdrawalError)
  | txn (index : Nat) (e : TxnFailure)
  | tooManyExpired (count max : Nat)
  | expiredDuplicate (account : Address)
  | expiredNoVoteKey (account : Address)
  | expiredKeyValid (account : Address) (lastValid round : Round)
  | absent (code : Nat)
  | payout (v : PayoutViolation)
  | stateProofTracking (code : Nat)
  | sinkInsufficient (sink : Address) (balance payout : Nat)
  | payoutOverflow (payout : Nat)
deriving DecidableEq, Repr

/-- The duplicates, the vote keys and their last rounds of the accounts a block calls expired. -/
def validateExpiredFrom (s : Store) (round : Nat) : List Address → List Address → Except BlockError Unit
  | _, [] => .ok ()
  | seen, addr :: rest =>
    if addr ∈ seen then .error (.expiredDuplicate addr)
    else
      let account := s.getOrDefaultAccount addr
      if account.voteId.all (fun v => decide (v = 0)) then .error (.expiredNoVoteKey addr)
      else if account.voteLastValid ≥ round then .error (.expiredKeyValid addr account.voteLastValid round)
      else validateExpiredFrom s round (addr :: seen) rest

def validateExpiredOnlineAccounts (s : Store) (block : Block) (consensus : ConsensusParams) : Except BlockError Unit :=
  let expired := block.expiredParticipationAccounts.getD []
  if expired.length > consensus.maxProposedExpiredOnlineAccounts then
    .error (.tooManyExpired expired.length consensus.maxProposedExpiredOnlineAccounts)
  else validateExpiredFrom s block.round [] expired

def clearOnlineState (s : Store) (addr : Address) : Store :=
  s.setAccount addr { s.getOrDefaultAccount addr with
    status := .offline
    voteId := none
    selectionId := none
    stateProofId := none
    voteFirstValid := 0
    voteLastValid := 0
    voteKeyDilution := 0 }

def resetExpiredOnlineAccounts (s : Store) (block : Block) (consensus : ConsensusParams) : Except BlockError Store :=
  let expired := block.expiredParticipationAccounts.getD []
  if expired.length > consensus.maxProposedExpiredOnlineAccounts then
    .error (.tooManyExpired expired.length consensus.maxProposedExpiredOnlineAccounts)
  else .ok (expired.foldl clearOnlineState s)

def suspend (s : Store) (addr : Address) : Store :=
  s.setAccount addr { s.getOrDefaultAccount addr with status := .offline, incentiveEligible := false }

def suspendAbsentAccounts (s : Store) (block : Block) : Store :=
  (block.absentParticipationAccounts.getD []).foldl suspend s

/-- What the fee sink has above its minimum balance. -/
def feeSinkAvailable (s : Store) (sink : Address) (pendingCredit : Nat) : Nat :=
  match s.getAccount sink with
  | none => 0
  | some account => min (account.microAlgos + pendingCredit) (u64Bound - 1) - minBalance account

def proposerPayout (params : ConsensusParams) (feesCollected bonus available : Nat) : Except (Nat × Nat) Nat :=
  if !params.payoutsEnabled then .ok 0
  else
    let incentive := feesCollected * min params.payoutsPercent 100 / 100
    if incentive + bonus < u64Bound then .ok (min (incentive + bonus) available) else .error (incentive, bonus)

def isClosedAccount (account : AccountData) : Bool := decide (account = default)

def validateProposerPayout (s : Store) (block : Block) (consensus : ConsensusParams) (paid : Nat) :
    Except PayoutViolation Unit :=
  if !consensus.payoutsEnabled then
    if block.feesCollected ≠ 0 then .error (.feesCollectedDisabled block.feesCollected)
    else if !block.proposer.isZero then .error (.proposerDisabled block.proposer)
    else if block.proposerPayout ≠ 0 then .error (.payoutDisabled block.proposerPayout)
    else .ok ()
  else if block.feesCollected ≠ paid then .error (.feesCollectedWrong block.feesCollected paid)
  else
    match proposerPayout consensus block.feesCollected block.bonus (feeSinkAvailable s block.feeSink 0) with
    | .error e => .error (.bonusOverflow e.1 e.2)
    | .ok allowed =>
      if block.proposerPayout > allowed then .error (.aboveAllowed block.proposerPayout allowed)
      else if block.proposer.isZero then .error .proposerMissing
      else if block.proposerPayout ≠ 0 ∧ (s.getAccount block.proposer).all isClosedAccount = true then
        .error (.proposerClosed block.proposer block.proposerPayout)
      else .ok ()

/-- The debit is written before the proposer is read: the proposer may be the fee sink. -/
def applyProposerPayout (s : Store) (block : Block) : Except BlockError Store :=
  if block.proposer.isZero || block.proposerPayout == 0 then .ok s
  else
    let sink := s.getOrDefaultAccount block.feeSink
    if sink.microAlgos < block.proposerPayout then
      .error (.sinkInsufficient block.feeSink sink.microAlgos block.proposerPayout)
    else
      let s := s.setAccount block.feeSink { sink with microAlgos := sink.microAlgos - block.proposerPayout }
      let proposer := s.getOrDefaultAccount block.proposer
      if proposer.microAlgos + block.proposerPayout < u64Bound then
        .ok (s.setAccount block.proposer { proposer with microAlgos := proposer.microAlgos + block.proposerPayout })
      else .error (.payoutOverflow block.proposerPayout)

/-- A proposer whose account is suspended comes back online. -/
def recordProposal (s : Store) (block : Block) : Store :=
  if block.proposer.isZero then s
  else
    let account := s.getOrDefaultAccount block.proposer
    let account := if isClosedAccount account then account else { account with lastProposed := block.round }
    let hasVoteKey := account.voteId.any (fun v => decide (v ≠ 0))
    let account := if account.status = .offline ∧ hasVoteKey = true then { account with status := .online } else account
    s.setAccount block.proposer account

/-! ## A whole block -/

/-- What the caller asks of an evaluation; `blockDups` is what earlier groups of a pending block recorded. -/
structure ProbeRequest where
  skipEpilogue : Bool
  poolWithdrawn : Bool
  generate : Bool
  validatePayouts : Bool
  checkDup : Bool
  blockDups : BlockDups

/-- The checks of a validating evaluation that other components answer.  They read the store and change nothing. -/
structure BlockExternals where
  validateAbsentOnlineAccounts : Store → Block → ConsensusParams → Except Nat Unit
  validateStateProofTracking : Store → Cells → Block → ConsensusParams → Except Nat Unit

/-- Whether an account was silent for too long: the stake of the past rounds and the challenges that an account should
have answered.  `total` fails where the stake cannot be determined. -/
structure AbsenceTest where
  total : Store → Block → ConsensusParams → Except Nat Unit
  isAbsent : Store → Block → ConsensusParams → Address → AccountData → Except Nat Bool

inductive AbsentError
  | tooMany (count max : Nat)
  | duplicate (account : Address)
  | notOnline (account : Address)
  | zeroAlgos (account : Address)
  | notEligible (account : Address)
  | notAbsent (account : Address)
  | test (code : Nat)
deriving DecidableEq, Repr

/-- The accounts a block calls absent: each once, online, funded, eligible and absent. -/
def validateAbsentFrom (test : AbsenceTest) (s : Store) (block : Block) (consensus : ConsensusParams) :
    List Address → List Address → Except AbsentError Unit
  | _, [] => .ok ()
  | seen, addr :: rest =>
    if addr ∈ seen then .error (.duplicate addr)
    else
      let account := s.getOrDefaultAccount addr
      if account.status ≠ .online then .error (.notOnline addr)
      else if account.microAlgos = 0 then .error (.zeroAlgos addr)
      else if !account.incentiveEligible then .error (.notEligible addr)
      else
        match test.isAbsent s block consensus addr account with
        | .error code => .error (.test code)
        | .ok false => .error (.notAbsent addr)
        | .ok true => validateAbsentFrom test s block consensus (addr :: seen) rest

def validateAbsentOnlineAccounts (test : AbsenceTest) (s : Store) (block : Block) (consensus : ConsensusParams) :
    Except AbsentError Unit :=
  let absent := block.absentParticipationAccounts.getD []
  if absent.length > consensus.payoutsMaxMarkAbsent then
    .error (.tooMany absent.length consensus.payoutsMaxMarkAbsent)
  else if absent = [] then .ok ()
  else
    match test.total s block consensus with
    | .error code => .error (.test code)
    | .ok _ => validateAbsentFrom test s block consensus [] absent

/-- The checks of a block with the test of absence and the state-proof tracking of other components.  The reason of a
refusal is not passed on. -/
def blockExternals (test : AbsenceTest) (tracking : Store → Cells → Block → ConsensusParams → Except Nat Unit) :
    BlockExternals where
  validateAbsentOnlineAccounts s block consensus :=
    (validateAbsentOnlineAccounts test s block consensus).mapError (fun _ => 0)
  validateStateProofTracking := tracking

/-- The fields of the header that the store follows. -/
def setRewardsState (s : Store) (block : Block) : Store :=
  { s with
    rewardsLevel := block.rewardsLevel
    rewardsRate := block.rewardsRate
    rewardsResidue := block.rewardsResidue
    rewardsRecalculationRound := block.rewardsRecalculationRound
    feeSink := block.feeSink
    rewardsPool := block.rewardsPool }

/-- The withdrawal of a block: the totals are only read where the level moves. -/
def blockWithdrawal (s : Store) (block : Block) (consensus : ConsensusParams) : BlockRewardsWithdrawal where
  round := block.round
  pool := s.rewardsPool
  prevRewardsLevel := s.rewardsLevel
  rewardsLevel := block.rewardsLevel
  prevRewardUnits := if block.rewardsLevel = s.rewardsLevel then 0 else s.accountTotals.rewardUnits
  genesisHash := s.genesisHash
  minBalance := consensus.minBalance

/-- The start of a block: its rewards state is set and, unless that was done before, its rewards are withdrawn. -/
def startBlock (s : Store) (block : Block) (consensus : ConsensusParams) (poolWithdrawn : Bool) :
    Except WithdrawalError Store :=
  if poolWithdrawn then .ok (setRewardsState s block)
  else withdrawBlockRewards (setRewardsState s block) (blockWithdrawal s block consensus)

section Block

variable (protocols : String → Option ConsensusParams) (txid : Transaction → Digest) (ext : GroupInfo → Externals)
  (blockExt : BlockExternals) (view : StoreView)

/-- The steps at the end of a block. -/
def endOfBlock (validate checkPayouts : Bool) (s : Store) (cells : Cells) (block : Block) (consensus : ConsensusParams) :
    Except BlockError Store := do
  if validate then validateExpiredOnlineAccounts s block consensus
  let s ← resetExpiredOnlineAccounts s block consensus
  if validate then
    match blockExt.validateAbsentOnlineAccounts s block consensus with
    | .error e => .error (.absent e)
    | .ok _ => .ok ()
  let s := suspendAbsentAccounts s block
  if checkPayouts then
    match validateProposerPayout s block consensus cells.feesCollected with
    | .error v => .error (.payout v)
    | .ok _ => .ok ()
  if validate then
    match blockExt.validateStateProofTracking s cells block consensus with
    | .error e => .error (.stateProofTracking e)
    | .ok _ => .ok ()
  let s ← applyProposerPayout s block
  return recordProposal s block

/-- What the store records of the block once it is applied. -/
def commitBlock (s : Store) (block : Block) : Store :=
  { s with
    protocol := block.currentProtocol
    txnCounter := block.txnCounter
    tail := { s.tail with currentRound := block.round, leases := s.tail.leases.purgeExpired block.round } }

/-- The context in which the payset of a block is applied. -/
def paysetContext (req : ProbeRequest) (block : Block) (consensus : ConsensusParams) (rule : GenesisRestoreRule)
    (txids : List Digest) : PaysetContext where
  ctx :=
    { rewardsLevel := block.rewardsLevel
      feeSink := block.feeSink
      round := block.round
      mode := .execute
      callerTracksLeases := false
      generate := req.generate
      consensus := consensus }
  rule := rule
  ledger := ⟨block.round, txids⟩
  checkDup := req.checkDup

/-- **Evaluate a block** by executing its payset on a store that persists nothing. -/
def applyBlockImpl (validate : Bool) (req : ProbeRequest) (s : Store) (block : Block) :
    Except BlockError EvalState :=
  match protocols block.currentProtocol with
  | none => .error (.unknownProtocol block.currentProtocol)
  | some consensus =>
    let rule := GenesisRestoreRule.forParams consensus block
    match rule.checkPayset 0 block.payset with
    | .error e => .error (.notStripped e.1 e.2)
    | .ok _ =>
      let txids := paysetTxidsWithRule txid block.payset rule
      let expected := s.currentRound + 1
      if block.round ≠ expected then .error (.wrongRound expected block.round)
      else
        match startBlock s block consensus req.poolWithdrawn with
        | .error e => .error (.withdrawal e)
        | .ok s₁ =>
          let cells : Cells := ⟨s.txnCounter, 0, 0⟩
          let req := { req with checkDup := validate || req.checkDup }
          match applyPayset ext view (paysetContext req block consensus rule txids)
              ⟨s₁, cells, req.blockDups, []⟩ ((rule.restorePayset block.payset).zip txids) with
          | .error e => .error (.txn e.1 e.2)
          | .ok st =>
            if req.skipEpilogue then .ok st
            else
              match endOfBlock blockExt validate (validate || req.validatePayouts) st.store st.cells block consensus with
              | .error e => .error e
              | .ok s₂ => .ok { st with store := commitBlock s₂ block }

end Block

end Ledger
end Algod
