import AlgodRust.Ledger.Tail
/-!
# Store — accounts, assets and applications

What a ledger store holds, with its reads and writes, the minimum balance of an account and the rewards it earns.
Amounts are unsigned 64-bit integers.  Where the source adds two of them without a check the sum wraps around
(`wrapAdd`), as it does in the release build; where it checks, the function fails.
-/
namespace Algod
namespace Ledger

open Msgpack (Bytes Value)

/-- Unchecked addition of unsigned 64-bit integers. -/
def wrapAdd (a b : Nat) : Nat := (a + b) % u64Bound

inductive AccountStatus
  | offline
  | online
  | notParticipating
deriving DecidableEq, Repr, Inhabited

structure AccountData where
  microAlgos : Nat
  rewardsBase : Nat
  rewardedMicroAlgos : Nat
  status : AccountStatus
  voteId : Option Bytes32
  selectionId : Option Bytes32
  stateProofId : Option Bytes64
  voteFirstValid : Round
  voteLastValid : Round
  voteKeyDilution : Nat
  authAddr : Option Address
  totalAssetsOptedIn : Nat
  totalCreatedAssets : Nat
  totalAppsOptedIn : Nat
  totalCreatedApps : Nat
  totalExtraAppPages : Nat
  totalBoxBytes : Nat
  totalBoxes : Nat
  totalAppSchema : StateSchema
  incentiveEligible : Bool
  lastProposed : Round
  lastHeartbeat : Round
  updateRound : Round
deriving DecidableEq, Repr, Inhabited

structure AssetHolding where
  amount : Nat
  frozen : Bool
deriving DecidableEq, Repr, Inhabited

structure AssetParamsRecord where
  params : AssetParams
  creator : Address
deriving DecidableEq, Repr, Inhabited

inductive TealValue
  | uint (n : Nat)
  | bytes (bs : Bytes)
deriving DecidableEq, Repr

structure AppLocalState where
  schema : StateSchema
  keyValue : FinMap Bytes TealValue

structure AppParams where
  creator : Address
  approvalProgram : Bytes
  clearStateProgram : Bytes
  globalState : FinMap Bytes TealValue
  localStateSchema : StateSchema
  globalStateSchema : StateSchema
  extraProgramPages : Nat
  version : Nat
  sizeSponsor : Address
  foreignBoxReads : Bool
  familyBoxAccess : Bool

/-- The reward units of the online and the offline accounts, as of the last committed round. -/
structure AccountTotals where
  onlineRewardUnits : Nat
  offlineRewardUnits : Nat
deriving DecidableEq, Repr, Inhabited

def AccountTotals.rewardUnits (t : AccountTotals) : Nat :=
  min (t.onlineRewardUnits + t.offlineRewardUnits) (u64Bound - 1)

/-- A ledger store at a round. -/
structure Store where
  accounts : FinMap Address AccountData
  assetParams : FinMap Nat AssetParamsRecord
  assetHoldings : FinMap (Address × Nat) AssetHolding
  appParams : FinMap Nat AppParams
  appLocalStates : FinMap (Address × Nat) AppLocalState
  boxes : FinMap (Nat × Bytes) Bytes
  rewardsLevel : Nat
  rewardsRate : Nat
  rewardsResidue : Nat
  rewardsRecalculationRound : Round
  feeSink : Address
  rewardsPool : Address
  genesisId : String
  genesisHash : Bytes32
  protocol : String
  txnCounter : Nat
  accountTotals : AccountTotals
  blockHeaders : FinMap Round BlockHeader
  tail : ChainTail
deriving Inhabited

namespace Store

def getAccount (s : Store) (a : Address) : Option AccountData := s.accounts.lookup a
def getOrDefaultAccount (s : Store) (a : Address) : AccountData := (s.getAccount a).getD default
def setAccount (s : Store) (a : Address) (d : AccountData) : Store := { s with accounts := s.accounts.insert a d }

def getAssetParams (s : Store) (id : Nat) : Option AssetParamsRecord := s.assetParams.lookup id
def setAssetParams (s : Store) (id : Nat) (r : AssetParamsRecord) : Store :=
  { s with assetParams := s.assetParams.insert id r }
def removeAssetParams (s : Store) (id : Nat) : Store := { s with assetParams := s.assetParams.erase id }

def getAssetHolding (s : Store) (a : Address) (id : Nat) : Option AssetHolding := s.assetHoldings.lookup (a, id)
def setAssetHolding (s : Store) (a : Address) (id : Nat) (h : AssetHolding) : Store :=
  { s with assetHoldings := s.assetHoldings.insert (a, id) h }
def removeAssetHolding (s : Store) (a : Address) (id : Nat) : Store :=
  { s with assetHoldings := s.assetHoldings.erase (a, id) }
def hasAssetHolding (s : Store) (a : Address) (id : Nat) : Bool := (s.getAssetHolding a id).isSome

def currentRound (s : Store) : Round := s.tail.currentRound
def getBlockHeader (s : Store) (round : Round) : Option BlockHeader := s.blockHeaders.lookup round

def getAppParams (s : Store) (id : Nat) : Option AppParams := s.appParams.lookup id

def recordLease (s : Store) (sender : Address) (lease : Bytes32) (lastValid : Round) : Store :=
  { s with tail := { s.tail with leases := s.tail.leases.record sender lease lastValid } }

theorem getAccount_setAccount (s : Store) (a b : Address) (d : AccountData) :
    (s.setAccount a d).getAccount b = if b = a then some d else s.getAccount b :=
  FinMap.lookup_insert_eq s.accounts a b d

theorem getOrDefaultAccount_setAccount (s : Store) (a b : Address) (d : AccountData) :
    (s.setAccount a d).getOrDefaultAccount b = if b = a then d else s.getOrDefaultAccount b := by
  unfold getOrDefaultAccount
  rw [getAccount_setAccount]
  split <;> rfl

@[simp] theorem getOrDefaultAccount_setAccount_self (s : Store) (a : Address) (d : AccountData) :
    (s.setAccount a d).getOrDefaultAccount a = d := by
  rw [getOrDefaultAccount_setAccount, if_pos rfl]

/-- What an account that is written keeps, every account keeps. -/
theorem keep_setAccount {β : Type} (f : AccountData → β) {s : Store} {a : Address} {d : AccountData}
    (h : f d = f (s.getOrDefaultAccount a)) (b : Address) :
    f ((s.setAccount a d).getOrDefaultAccount b) = f (s.getOrDefaultAccount b) := by
  rw [getOrDefaultAccount_setAccount]
  split
  · rename_i hb
    rw [hb, h]
  · rfl

end Store

/-! ## Minimum balance -/

def minBalanceBase : Nat := 100000
def assetOptInMinBalance : Nat := 100000
def appFlatParamsMinBalance : Nat := 100000
def appFlatOptInMinBalance : Nat := 100000
def schemaMinBalancePerEntry : Nat := 25000
def schemaUintMinBalance : Nat := 3500
def schemaBytesMinBalance : Nat := 25000
def boxFlatMinBalance : Nat := 2500
def boxByteMinBalance : Nat := 400

/-- The balance an account must keep for what it holds. -/
def minBalance (account : AccountData) : Nat :=
  let schema := account.totalAppSchema
  let schemaCost := schemaMinBalancePerEntry * (schema.numUint + schema.numByteSlice) +
    schemaUintMinBalance * schema.numUint + schemaBytesMinBalance * schema.numByteSlice
  (minBalanceBase + account.totalAssetsOptedIn * assetOptInMinBalance +
    account.totalCreatedApps * appFlatParamsMinBalance + account.totalAppsOptedIn * appFlatOptInMinBalance +
    account.totalExtraAppPages * appFlatParamsMinBalance + account.totalBoxes * boxFlatMinBalance +
    account.totalBoxBytes * boxByteMinBalance + schemaCost) % u64Bound

/-! ## Rewards -/

def rewardUnits : Nat := 1000000

/-- The rewards an account has not claimed yet; `none` where the base is above the level or the product overflows. -/
def computePendingRewards (account : AccountData) (rewardsLevel : Nat) : Option Nat :=
  if account.status = .notParticipating ∨ account.microAlgos = 0 then some 0
  else if rewardsLevel < account.rewardsBase then none
  else
    let pending := (rewardsLevel - account.rewardsBase) * (account.microAlgos / rewardUnits)
    if pending < u64Bound then some pending else none

/-- Bring an account up to the rewards level.  It returns the account and what it earned. -/
def applyRewards (account : AccountData) (rewardsLevel : Nat) : Option (AccountData × Nat) :=
  if account.status = .notParticipating then some (account, 0)
  else if account.rewardsBase = rewardsLevel then some (account, 0)
  else do
    let pending ← computePendingRewards account rewardsLevel
    if pending > 0 then
      if account.microAlgos + pending < u64Bound then
        some ({ account with
          microAlgos := account.microAlgos + pending
          rewardedMicroAlgos := wrapAdd account.rewardedMicroAlgos pending
          rewardsBase := rewardsLevel }, pending)
      else none
    else some ({ account with rewardsBase := rewardsLevel }, pending)

/-- The balance of an account with the rewards it has not claimed yet. -/
def balanceWithRewards (account : AccountData) (rewardsLevel : Nat) : Option Nat := do
  let pending ← computePendingRewards account rewardsLevel
  if account.microAlgos + pending < u64Bound then some (account.microAlgos + pending) else none

end Ledger
end Algod
