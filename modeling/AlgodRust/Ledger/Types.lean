import AlgodRust.Basics
import AlgodRust.Lib.Msgpack
/-!
# Types — transactions, accounts and blocks

The records the ledger stores and a block carries.  A transaction has the fields of every transaction type in one
record, as the source has them; an optional field may be absent or present, and where present it may hold zeros.  Parts
that only application calls, state proofs and heartbeats look into are kept as the MessagePack value that stands for
them in an encoding.
-/
namespace Algod
namespace Ledger

open Msgpack (Bytes Value)

inductive TxnType
  | pay
  | axfer
  | acfg
  | afrz
  | appl
  | keyreg
  | stpf
  | hb
  | unknown (s : String)
deriving DecidableEq, Repr

namespace TxnType

def asStr : TxnType → String
  | .pay => "pay"
  | .axfer => "axfer"
  | .acfg => "acfg"
  | .afrz => "afrz"
  | .appl => "appl"
  | .keyreg => "keyreg"
  | .stpf => "stpf"
  | .hb => "hb"
  | .unknown s => s

/-- Comparison with a name, as the source writes it everywhere. -/
def is (t : TxnType) (s : String) : Bool := decide (t.asStr = s)

instance : Inhabited TxnType := ⟨.unknown ""⟩

end TxnType

structure AssetParams where
  total : Nat
  decimals : Nat
  defaultFrozen : Bool
  unitName : Bytes
  assetName : Bytes
  url : Bytes
  metadataHash : Option Bytes32
  manager : Option Address
  reserve : Option Address
  freeze : Option Address
  clawback : Option Address
deriving DecidableEq, Repr, Inhabited

structure StateSchema where
  numUint : Nat
  numByteSlice : Nat
deriving DecidableEq, Repr, Inhabited

structure BoxRef where
  index : Nat
  name : Option Bytes
deriving DecidableEq, Repr, Inhabited

structure HeartbeatTxnFields where
  address : Address
  proof : Option Value
  seed : Bytes32
  voteId : Bytes32
  keyDilution : Nat
  hbChallengeDiscount : Bool
deriving Inhabited

structure Transaction where
  txnType : TxnType
  sender : Address
  fee : Nat
  firstValid : Round
  lastValid : Round
  note : Bytes
  genesisId : String
  genesisHash : Bytes32
  group : Bytes32
  lease : Bytes32
  rekeyTo : Option Address
  -- payment
  amount : Nat
  receiver : Address
  closeRemainderTo : Address
  -- asset transfer
  xaid : Nat
  assetAmount : Nat
  assetSender : Option Address
  assetReceiver : Option Address
  assetCloseTo : Option Address
  -- asset configuration
  configAsset : Nat
  assetParams : Option AssetParams
  -- asset freeze
  freezeAsset : Nat
  freezeAccount : Option Address
  assetFrozen : Bool
  -- application call
  applicationId : Nat
  onCompletion : Nat
  approvalProgram : Option Bytes
  clearStateProgram : Option Bytes
  appArguments : Option (List (Option Bytes))
  accounts : Option (List Address)
  foreignApps : Option (List Nat)
  foreignAssets : Option (List Nat)
  boxes : Option (List BoxRef)
  globalStateSchema : Option StateSchema
  localStateSchema : Option StateSchema
  extraProgramPages : Nat
  access : Option (List Value)
  rejectVersion : Nat
  -- key registration
  votePk : Option Bytes32
  selectionPk : Option Bytes32
  stateProofPk : Option Bytes64
  voteFirst : Nat
  voteLast : Nat
  voteKeyDilution : Nat
  nonParticipation : Bool
  -- state proof
  stateProofType : Nat
  stateProof : Option Value
  stateProofMessage : Option Value
  -- heartbeat
  heartbeat : Option HeartbeatTxnFields
deriving Inhabited

/-- A transaction as it stands in a block, with what its execution recorded. -/
structure SignedTransaction where
  txn : Transaction
  sig : Bytes64
  msig : Option Value
  lsig : Option Value
  pqsig : Option Value
  authAddr : Option Address
  hasGenesisId : Bool
  hasGenesisHash : Bool
  closingAmount : Nat
  assetClosingAmount : Nat
  senderRewards : Nat
  receiverRewards : Nat
  closeRewards : Nat
  evalDelta : Option Value
  applyDataConfigAsset : Nat
  applyDataApplicationId : Nat
deriving Inhabited

structure BlockHeader where
  round : Round
  branch : Bytes32
  seed : Bytes32
  txnCommitment : Bytes32
  timestamp : Int
  genesisId : String
  genesisHash : Bytes32
  proposer : Address
  feeSink : Address
  rewardsPool : Address
  rewardsLevel : Nat
  rewardsRate : Nat
  rewardsResidue : Nat
  rewardsRecalculationRound : Round
  currentProtocol : String
  nextProtocol : String
  nextProtocolApprovals : Nat
  nextProtocolSwitchOn : Round
  nextProtocolVoteBefore : Round
  txnCounter : Nat
  feesCollected : Nat
  bonus : Nat
  proposerPayout : Nat
  prev512 : Bytes64
  txn256 : Bytes32
  txn512 : Bytes64
  stateProofTracking : Option Value
  upgradePropose : String
  upgradeDelay : Nat
  upgradeApprove : Bool
  expiredParticipationAccounts : Option (List Address)
  absentParticipationAccounts : Option (List Address)
  load : Nat
  congestionTax : Nat
deriving Inhabited

structure Block extends BlockHeader where
  payset : List SignedTransaction
deriving Inhabited

/-! ## Genesis fields -/

/-- Which genesis fields of a stored transaction are filled in from the block header. -/
structure GenesisRestoreRule where
  genesisId : String
  genesisHash : Bytes32
  requireGenesisHash : Bool
  supportsStripped : Bool

inductive GenesisFieldError
  | genesisIdNotEmpty (id : String)
  | genesisHashNotEmpty
  | hasGenesisHashObviated
deriving DecidableEq, Repr

namespace GenesisRestoreRule

def forParams (params : ConsensusParams) (block : Block) : GenesisRestoreRule :=
  ⟨block.genesisId, block.genesisHash, params.requireGenesisHash, params.supportSignedTxnInBlock⟩

def decide (rule : GenesisRestoreRule) (stx : SignedTransaction) : Bool × Bool :=
  if !rule.supportsStripped then (false, false)
  else
    (stx.hasGenesisId && stx.txn.genesisId.isEmpty,
      stx.txn.genesisHash == 0 && (rule.requireGenesisHash || stx.hasGenesisHash))

/-- The genesis id and hash of the transaction after restoring. -/
def restoredGenesis (rule : GenesisRestoreRule) (stx : SignedTransaction) : String × Bytes32 :=
  let d := rule.decide stx
  (if d.1 then rule.genesisId else stx.txn.genesisId, if d.2 then rule.genesisHash else stx.txn.genesisHash)

def restoredTxn (rule : GenesisRestoreRule) (stx : SignedTransaction) : Transaction :=
  let g := rule.restoredGenesis stx
  { stx.txn with genesisId := g.1, genesisHash := g.2 }

def restorePayset (rule : GenesisRestoreRule) (payset : List SignedTransaction) : List SignedTransaction :=
  payset.map (fun stx => { stx with txn := rule.restoredTxn stx })

/-- The form of a transaction in a block: genesis fields equal to the header's go, and flags that came with it. -/
def strip (rule : GenesisRestoreRule) (stx : SignedTransaction) : SignedTransaction :=
  if !rule.supportsStripped then { stx with hasGenesisId := false, hasGenesisHash := false }
  else
    let sameId := !stx.txn.genesisId.isEmpty && stx.txn.genesisId == rule.genesisId
    let sameHash := stx.txn.genesisHash != 0 && stx.txn.genesisHash == rule.genesisHash
    { stx with
      hasGenesisId := sameId
      hasGenesisHash := sameHash && !rule.requireGenesisHash
      txn := { stx.txn with
        genesisId := if sameId then "" else stx.txn.genesisId
        genesisHash := if sameHash then 0 else stx.txn.genesisHash } }

def checkStripped (rule : GenesisRestoreRule) (stx : SignedTransaction) : Except GenesisFieldError Unit :=
  if !rule.supportsStripped then .ok ()
  else if !stx.txn.genesisId.isEmpty then .error (.genesisIdNotEmpty stx.txn.genesisId)
  else if stx.txn.genesisHash ≠ 0 then .error .genesisHashNotEmpty
  else if rule.requireGenesisHash && stx.hasGenesisHash then .error .hasGenesisHashObviated
  else .ok ()

/-- The first transaction of a payset that is not in stripped form, from index `i` on. -/
def checkPayset (rule : GenesisRestoreRule) (i : Nat) :
    List SignedTransaction → Except (Nat × GenesisFieldError) Unit
  | [] => .ok ()
  | stx :: rest =>
    match rule.checkStripped stx with
    | .error e => .error (i, e)
    | .ok _ => rule.checkPayset (i + 1) rest

end GenesisRestoreRule

end Ledger
end Algod
