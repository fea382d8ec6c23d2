import AlgodRust.Basics
import AlgodRust.Lib.Msgpack
/-!
# Fields — the fields that opcodes name in an immediate byte

For each kind of field its members in the order of their bytes, with the version from which a program may name them.
-/
namespace Algod
namespace Avm

/-- The member of an enumeration with a byte. -/
def fieldFromU8 {α : Type} (enumeration : String) (members : List α) (byte : UInt8) : Except String α :=
  match members[byte.toNat]? with
  | some field => .ok field
  | none => .error s!"invalid {enumeration} field index: {byte.toNat}"

/-! ## Transactions -/

/-- A field of a transaction: the version from which it can be read, whether it is an array, and the version from which
an inner transaction can set it, or zero. -/
structure TxnField where
  name : String
  version : Nat
  isArray : Bool
  itxVersion : Nat
deriving DecidableEq, Repr

def txnFields : List TxnField :=
  [ ⟨"Sender", 0, false, 5⟩, ⟨"Fee", 0, false, 5⟩, ⟨"FirstValid", 0, false, 0⟩, ⟨"FirstValidTime", 7, false, 0⟩,
    ⟨"LastValid", 0, false, 0⟩, ⟨"Note", 0, false, 6⟩, ⟨"Lease", 0, false, 0⟩, ⟨"Receiver", 0, false, 5⟩,
    ⟨"Amount", 0, false, 5⟩, ⟨"CloseRemainderTo", 0, false, 5⟩, ⟨"VotePK", 0, false, 6⟩, ⟨"SelectionPK", 0, false, 6⟩,
    ⟨"VoteFirst", 0, false, 6⟩, ⟨"VoteLast", 0, false, 6⟩, ⟨"VoteKeyDilution", 0, false, 6⟩, ⟨"Type", 0, false, 5⟩,
    ⟨"TypeEnum", 0, false, 5⟩, ⟨"XferAsset", 0, false, 5⟩, ⟨"AssetAmount", 0, false, 5⟩, ⟨"AssetSender", 0, false, 5⟩,
    ⟨"AssetReceiver", 0, false, 5⟩, ⟨"AssetCloseTo", 0, false, 5⟩, ⟨"GroupIndex", 0, false, 0⟩, ⟨"TxID", 0, false, 0⟩,
    ⟨"ApplicationID", 2, false, 6⟩, ⟨"OnCompletion", 2, false, 6⟩, ⟨"ApplicationArgs", 2, true, 6⟩,
    ⟨"NumAppArgs", 2, false, 0⟩, ⟨"Accounts", 2, true, 6⟩, ⟨"NumAccounts", 2, false, 0⟩,
    ⟨"ApprovalProgram", 2, false, 6⟩, ⟨"ClearStateProgram", 2, false, 6⟩, ⟨"RekeyTo", 2, false, 6⟩,
    ⟨"ConfigAsset", 2, false, 5⟩, ⟨"ConfigAssetTotal", 2, false, 5⟩, ⟨"ConfigAssetDecimals", 2, false, 5⟩,
    ⟨"ConfigAssetDefaultFrozen", 2, false, 5⟩, ⟨"ConfigAssetUnitName", 2, false, 5⟩, ⟨"ConfigAssetName", 2, false, 5⟩,
    ⟨"ConfigAssetURL", 2, false, 5⟩, ⟨"ConfigAssetMetadataHash", 2, false, 5⟩, ⟨"ConfigAssetManager", 2, false, 5⟩,
    ⟨"ConfigAssetReserve", 2, false, 5⟩, ⟨"ConfigAssetFreeze", 2, false, 5⟩, ⟨"ConfigAssetClawback", 2, false, 5⟩,
    ⟨"FreezeAsset", 2, false, 5⟩, ⟨"FreezeAssetAccount", 2, false, 5⟩, ⟨"FreezeAssetFrozen", 2, false, 5⟩,
    ⟨"Assets", 3, true, 6⟩, ⟨"NumAssets", 3, false, 0⟩, ⟨"Applications", 3, true, 6⟩,
    ⟨"NumApplications", 3, false, 0⟩, ⟨"GlobalNumUint", 3, false, 6⟩, ⟨"GlobalNumByteSlice", 3, false, 6⟩,
    ⟨"LocalNumUint", 3, false, 6⟩, ⟨"LocalNumByteSlice", 3, false, 6⟩, ⟨"ExtraProgramPages", 4, false, 6⟩,
    ⟨"Nonparticipation", 5, false, 6⟩, ⟨"Logs", 5, true, 0⟩, ⟨"NumLogs", 5, false, 0⟩,
    ⟨"CreatedAssetID", 5, false, 0⟩, ⟨"CreatedApplicationID", 5, false, 0⟩, ⟨"LastLog", 6, false, 0⟩,
    ⟨"StateProofPK", 6, false, 6⟩, ⟨"ApprovalProgramPages", 7, true, 7⟩, ⟨"NumApprovalProgramPages", 7, false, 0⟩,
    ⟨"ClearStateProgramPages", 7, true, 7⟩, ⟨"NumClearStateProgramPages", 7, false, 0⟩,
    ⟨"RejectVersion", 12, false, 12⟩ ]

def TxnField.fromU8 : UInt8 → Except String TxnField := fieldFromU8 "TxnField" txnFields

def TxnField.unknownDisplay (byte : UInt8) : String := s!"TxnField({byte.toNat})"

/-! ## Other reads -/

def globalFields : List (String × Nat) :=
  [ ("MinTxnFee", 0), ("MinBalance", 0), ("MaxTxnLife", 0), ("ZeroAddress", 0), ("GroupSize", 0),
    ("LogicSigVersion", 2), ("Round", 2), ("LatestTimestamp", 2), ("CurrentApplicationID", 2), ("CreatorAddress", 3),
    ("CurrentApplicationAddress", 5), ("GroupID", 5), ("OpcodeBudget", 6), ("CallerApplicationID", 6),
    ("CallerApplicationAddress", 6), ("AssetCreateMinBalance", 10), ("AssetOptInMinBalance", 10), ("GenesisHash", 10),
    ("PayoutsEnabled", 11), ("PayoutsGoOnlineFee", 11), ("PayoutsPercent", 11), ("PayoutsMinBalance", 11),
    ("PayoutsMaxBalance", 11) ]

def assetHoldingFields : List String := ["AssetBalance", "AssetFrozen"]

def assetParamsFields : List (String × Nat) :=
  [ ("AssetTotal", 2), ("AssetDecimals", 2), ("AssetDefaultFrozen", 2), ("AssetUnitName", 2), ("AssetName", 2),
    ("AssetURL", 2), ("AssetMetadataHash", 2), ("AssetManager", 2), ("AssetReserve", 2), ("AssetFreeze", 2),
    ("AssetClawback", 2), ("AssetCreator", 5) ]

def appParamsFields : List (String × Nat) :=
  [ ("AppApprovalProgram", 5), ("AppClearStateProgram", 5), ("AppGlobalNumUint", 5), ("AppGlobalNumByteSlice", 5),
    ("AppLocalNumUint", 5), ("AppLocalNumByteSlice", 5), ("AppExtraProgramPages", 5), ("AppCreator", 5),
    ("AppAddress", 5), ("AppVersion", 12), ("AppSizeSponsor", 13), ("AppForeignBoxReads", 13),
    ("AppFamilyBoxAccess", 13) ]

/-- The version from which a program can set a parameter of its application; zero for never. -/
def appParamsSetVersion (name : String) : Nat :=
  if name = "AppForeignBoxReads" ∨ name = "AppFamilyBoxAccess" then 13 else 0

def acctParamsFields : List (String × Nat) :=
  [ ("AcctBalance", 6), ("AcctMinBalance", 6), ("AcctAuthAddr", 6), ("AcctTotalNumUint", 8),
    ("AcctTotalNumByteSlice", 8), ("AcctTotalExtraAppPages", 8), ("AcctTotalAppsCreated", 8),
    ("AcctTotalAppsOptedIn", 8), ("AcctTotalAssetsCreated", 8), ("AcctTotalAssets", 8), ("AcctTotalBoxes", 8),
    ("AcctTotalBoxBytes", 8), ("AcctIncentiveEligible", 11), ("AcctLastProposed", 11), ("AcctLastHeartbeat", 11) ]

def blockFields : List (String × Nat) :=
  [ ("BlkSeed", 7), ("BlkTimestamp", 7), ("BlkProposer", 11), ("BlkFeesCollected", 11), ("BlkBonus", 11),
    ("BlkBranch", 11), ("BlkFeeSink", 11), ("BlkProtocol", 11), ("BlkTxnCounter", 11), ("BlkProposerPayout", 11),
    ("BlkBranch512", 13), ("BlkSha512_256TxnCommitment", 13), ("BlkSha256TxnCommitment", 13),
    ("BlkSha512TxnCommitment", 13) ]

/-! ## Variants of an operation -/

inductive EcdsaCurve
  | secp256k1
  | secp256r1
deriving DecidableEq, Repr

def EcdsaCurve.fromU8 : UInt8 → Except String EcdsaCurve := fieldFromU8 "EcdsaCurve" [.secp256k1, .secp256r1]

inductive EcGroup
  | bn254g1
  | bn254g2
  | bls12381g1
  | bls12381g2
deriving DecidableEq, Repr

def EcGroup.fromU8 : UInt8 → Except String EcGroup :=
  fieldFromU8 "EcGroup" [.bn254g1, .bn254g2, .bls12381g1, .bls12381g2]

inductive Base64Encoding
  | url
  | std
deriving DecidableEq, Repr

def Base64Encoding.fromU8 : UInt8 → Except String Base64Encoding := fieldFromU8 "Base64Encoding" [.url, .std]

inductive JsonRefType
  | string
  | uint64
  | object
deriving DecidableEq, Repr

def JsonRefType.fromU8 : UInt8 → Except String JsonRefType := fieldFromU8 "JSONRefType" [.string, .uint64, .object]

/-- There is one standard so far. -/
def vrfStandardFromU8 : UInt8 → Except String Unit := fieldFromU8 "VrfStandard" [()]

end Avm
end Algod
