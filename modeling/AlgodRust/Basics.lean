import Mathlib.Data.BitVec
/-!
# Basics — fixed-width values, checked arithmetic and consensus parameters

What every crate of the node shares.  Byte arrays are bit vectors read in big-endian order, so the lexicographic order
of the bytes is the order of the numbers.  Rounds, periods, steps and weights are unsigned 64-bit integers of the
source and natural numbers here; where the source adds two of them, `addU64` fails on overflow the way a build with
overflow checks panics.
-/
namespace Algod

/-- A 32-byte account address. -/
structure Address where
  bytes : BitVec 256
deriving DecidableEq, Repr

/-- A 32-byte hash. -/
structure Digest where
  bytes : BitVec 256
deriving DecidableEq, Repr

def Address.zero : Address := ⟨0⟩
def Digest.zero : Digest := ⟨0⟩

instance : Inhabited Address := ⟨Address.zero⟩
instance : Inhabited Digest := ⟨Digest.zero⟩

/-- A key, a lease or a group id: 32 bytes. -/
abbrev Bytes32 := BitVec 256

/-- A 64-byte key or digest. -/
abbrev Bytes64 := BitVec 512

def Address.isZero (a : Address) : Bool := decide (a = Address.zero)

abbrev Round := Nat

/-- A duration in nanoseconds. -/
abbrev Duration := Nat

def Duration.fromMillis (ms : Nat) : Duration := ms * 1000000
def Duration.fromSecs (s : Nat) : Duration := s * 1000000000

/-- The bound of an unsigned 64-bit integer. -/
def u64Bound : Nat := 2 ^ 64

/-- How a block header commits to its payset. -/
inductive PaysetCommitType
  | unsupported
  | flat
  | merkle
deriving DecidableEq, Repr, Inhabited

/-- The parameters of one consensus version that the modelled functions read. -/
structure ConsensusParams where
  defaultKeyDilution : Nat
  seedLookback : Nat
  seedRefreshInterval : Nat
  softCommitteeThreshold : Nat
  certCommitteeThreshold : Nat
  nextCommitteeThreshold : Nat
  lateCommitteeThreshold : Nat
  redoCommitteeThreshold : Nat
  downCommitteeThreshold : Nat
  agreementFilterTimeout : Duration
  agreementFilterTimeoutPeriod0 : Duration
  agreementDeadlineTimeoutPeriod0 : Duration
  fastRecoveryLambda : Duration
  dynamicFilterTimeout : Bool
  maxTxnLife : Nat
  deeperBlockHeaderHistory : Nat
  supportTransactionLeases : Bool
  fixTransactionLeases : Bool
  supportGenesisHash : Bool
  requireGenesisHash : Bool
  supportSignedTxnInBlock : Bool
  minBalance : Nat
  rewardUnit : Nat
  rewardsInApplyData : Bool
  unfundedSenders : Bool
  maximumMinimumBalance : Nat
  maxAssetsPerAccount : Nat
  enableAssetCloseAmount : Bool
  closeRequiresBaseMinBalance : Bool
  supportBecomeNonParticipatingTransactions : Bool
  enableKeyregCoherencyCheck : Bool
  enableStateProofKeyregCheck : Bool
  payoutsEnabled : Bool
  payoutsGoOnlineFee : Nat
  payoutsPercent : Nat
  payoutsMaxMarkAbsent : Nat
  enableHeartbeat : Bool
  supportRekeying : Bool
  enforceAuthAddrSenderDiff : Bool
  enableLogicsigCostPooling : Bool
  maxProposedExpiredOnlineAccounts : Nat
  -- block headers
  paysetCommit : PaysetCommitType
  enableSha256TxnCommitmentHeader : Bool
  enableSha512BlockHash : Bool
  maxTxnBytesPerBlock : Nat
  loadTracking : Bool
  maxVersionStringLen : Nat
  minUpgradeWaitRounds : Nat
  maxUpgradeWaitRounds : Nat
  defaultUpgradeWaitRounds : Nat
  upgradeVoteRounds : Nat
  upgradeThreshold : Nat
  approvedUpgrade : Option (String × Nat)
  -- rewards schedule
  pendingResidueRewards : Bool
  rewardsCalculationFix : Bool
  rewardsRateRefreshInterval : Nat
  -- programs
  logicSigVersion : Nat
  maxAppProgramCost : Nat
  maxAppProgramLen : Nat
  maxAppTotalProgramLen : Nat
  maxExtraAppProgramPages : Nat
  maxAppTotalArgLen : Nat
  logicSigMaxSize : Nat
  minInnerApplVersion : Nat
  maxInnerTransactions : Nat
  maxTxGroupSize : Nat
  enableInnerTransactionPooling : Bool
  maxAppsCreated : Nat
  maxAppsOptedIn : Nat
  enableProperExtraPageAccounting : Bool
  enableAppVersioning : Bool
  -- application state
  maxAppBytesValueLen : Nat
  maxAppSumKeyValueLens : Nat
  noEmptyLocalDeltas : Bool
  -- boxes
  maxAppKeyLen : Nat
  maxBoxSize : Nat
  bytesPerBoxReference : Nat
  enableBareBudgetError : Bool
  -- fees
  minTxnFee : Nat
  maxTxnNoteBytes : Nat
  perByteTxnSurcharge : Nat
  -- state proofs
  stateProofInterval : Nat
  stateProofVotersLookback : Nat
  -- the next block header
  bonusBaseRound : Nat
  bonusBaseAmount : Nat
  bonusDecayInterval : Nat
  maxTimestampIncrement : Int
deriving DecidableEq, Repr, Inhabited

end Algod
