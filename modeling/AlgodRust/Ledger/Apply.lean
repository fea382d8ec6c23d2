import AlgodRust.Ledger.Store
import AlgodRust.Lib.Run
/-!
# Apply — executing one transaction

`applyTransaction` brings the payer and the accounts a payment credits up to the rewards level, rekeys the sender,
takes the fee, runs the function of the transaction's type and checks the minimum balance of every account the
transaction names.  A failed transaction returns its error: the caller keeps the store it had.  Application calls, state
proofs, heartbeats and recorded deltas are executed by other components (`Externals`); what they read of a transaction
that is none of theirs is spelled out there.
-/
namespace Algod
namespace Ledger

open Msgpack (Bytes Value)

inductive ApplyMode
  | replay
  | execute
deriving DecidableEq, Repr

/-- The part of the context of an apply that stays the same while it runs. -/
structure ApplyContext where
  rewardsLevel : Nat
  feeSink : Address
  round : Round
  mode : ApplyMode
  callerTracksLeases : Bool
  generate : Bool
  consensus : ConsensusParams

/-- The cells of the context that transactions advance. -/
structure Cells where
  txnCounter : Nat
  feesCollected : Nat
  stateProofNext : Round
deriving DecidableEq, Repr, Inhabited

/-- What an account that is closed may not have any of. -/
inductive Outstanding
  | assets
  | createdAssets
  | applicationsOptedIn
  | boxes
  | boxBytes
  | createdApplications
deriving DecidableEq, Repr

inductive HeartbeatKind
  | discounted
  | cheap
  | free
deriving DecidableEq, Repr

inductive HeartbeatError
  | missingFields
  | noAccount (address : Address)
  | notOnline (kind : HeartbeatKind) (address : Address)
  | notIncentiveEligible (kind : HeartbeatKind) (address : Address)
  | noChallenge (kind : HeartbeatKind) (address : Address)
  | notChallenged (kind : HeartbeatKind) (address : Address)
  | noHeader (round : Round)
  | otherSeed (round : Round)
  | otherVoteId (address : Address)
  | otherKeyDilution (address : Address) (given held : Nat)
deriving DecidableEq, Repr

inductive ApplyError
  | rewardsOverflow (account : AccountData) (level : Nat)
  | insufficientForFee (sender : Address) (balance fee : Nat)
  | insufficientForPayment (sender : Address) (balance amount : Nat)
  | cannotClose (what : Outstanding) (count : Nat)
  | cannotCloseMinBalance (mbr base : Nat)
  | cannotCloseRequires (sender : Address) (mbr : Nat)
  | acfgTooManyAssets (total max : Nat)
  | acfgNoAsset (id : Nat)
  | acfgNotManager (sender : Address) (id : Nat)
  | acfgDestroyNoHolding (creator : Address) (id : Nat)
  | acfgDestroyHeldElsewhere (amount total id : Nat)
  | axferZeroAsset
  | axferNoAsset (id : Nat)
  | axferNotClawback (sender : Address) (id : Nat)
  | axferOptInNoAsset (id : Nat)
  | axferOptInTooManyAssets (total max : Nat)
  | axferNoHolding (account : Address) (id : Nat)
  | axferFrozen (account : Address) (id : Nat)
  | axferInsufficient (account : Address) (held amount id : Nat)
  | axferReceiverNoHolding (account : Address) (id : Nat)
  | axferReceiverFrozen (account : Address) (id : Nat)
  | axferCloseByClawback (id : Nat)
  | axferCloseAllocating
  | axferCloseNoHolding (account : Address) (id : Nat)
  | axferCloseFrozen (account : Address) (id : Nat)
  | axferCloseToNoHolding (account : Address) (id : Nat)
  | axferCloseToFrozen (account : Address) (id : Nat)
  | afrzZeroAsset
  | afrzNoAsset (id : Nat)
  | afrzNotFreezer (sender : Address) (id : Nat)
  | afrzNoAccount
  | afrzNoHolding (account : Address) (id : Nat)
  | keyregNotParticipating (sender : Address)
  | keyregNonparticipationUnsupported
  | keyregNoKeyDilution
  | keyregLastBeforeFirst (last first : Round)
  | keyregExpired (last round : Round)
  | keyregTooFarInFuture (first next : Round)
  | belowMinBalance (account : Address) (balance min assets : Nat)
  | tooMuchSpace (account : Address) (min max : Nat)
  | unknownTransactionType (name : String)
  | heartbeatNotSupported
  | heartbeat (error : HeartbeatError)
  | stateProofTypeNotSupported (type : Nat)
  | stateProofNoMessage
  | stateProofsNotEnabled
  | stateProofNoHeader (round : Round)
  | stateProofOtherRound (expected got : Round)
  | external (code : Nat)
deriving DecidableEq, Repr

structure ApplyData where
  closingAmount : Nat
  assetClosingAmount : Nat
  senderRewards : Nat
  receiverRewards : Nat
  closeRewards : Nat
  configAsset : Nat
  applicationId : Nat
  derivedApplicationId : Nat
  evalDelta : Option Value
deriving Inhabited

/-- The components that execute what is not executed here.  A recorded delta is applied with the application's id, the
sender and the accounts array of its transaction. -/
structure Externals where
  applyAppl : ApplyContext → Nat → SignedTransaction → Store × Cells → Except ApplyError ((Store × Cells) × Option Value)
  applyHeartbeat : ApplyContext → Transaction → Store → Except ApplyError Store
  applyStateProof : ApplyContext → Transaction → Store × Cells → Except ApplyError ((Store × Cells) × ApplyData)
  applyEvalDelta : ApplyContext → Nat → Nat → Address → List Address → Value → Store × Cells →
    Except ApplyError (Store × Cells)
  innerParticipants : Value → List Address

/-- Components that execute nothing. -/
def noExternals : Externals where
  applyAppl _ _ _ _ := .error (.external 0)
  applyHeartbeat _ _ _ := .error (.external 0)
  applyStateProof _ _ _ := .error (.external 0)
  applyEvalDelta _ _ _ _ _ _ _ := .error (.external 0)
  innerParticipants _ := []

/-! ## Participants -/

def pushNew (addrs : List Address) (a : Address) : List Address := if a ∈ addrs then addrs else addrs ++ [a]

/-- Add an address that is present and not zero. -/
def pushSome (addrs : List Address) (a : Option Address) : List Address :=
  match a with
  | none => addrs
  | some a => if a.isZero then addrs else pushNew addrs a

/-- The accounts a transaction names. -/
def txnParticipants (txn : Transaction) : List Address :=
  let addrs := [txn.sender]
  let addrs := if !txn.receiver.isZero && txn.receiver != txn.sender then addrs ++ [txn.receiver] else addrs
  let addrs := if !txn.closeRemainderTo.isZero && txn.closeRemainderTo != txn.sender &&
    txn.closeRemainderTo != txn.receiver then addrs ++ [txn.closeRemainderTo] else addrs
  let addrs := [txn.assetReceiver, txn.assetSender, txn.assetCloseTo].foldl pushSome addrs
  pushSome addrs txn.freezeAccount

/-- The accounts that are brought up to the rewards level. -/
def rewardParticipants (txn : Transaction) : List Address :=
  let addrs := [txn.sender]
  if txn.txnType.is "pay" then
    let addrs := if !txn.receiver.isZero && txn.receiver != txn.sender then addrs ++ [txn.receiver] else addrs
    if !txn.closeRemainderTo.isZero && txn.closeRemainderTo != txn.sender && txn.closeRemainderTo != txn.receiver
    then addrs ++ [txn.closeRemainderTo] else addrs
  else addrs

/-- Every account a transaction may change, with the fee sink and the rewards pool. -/
def snapshotAddrs (ctx : ApplyContext) (s : Store) (txn : Transaction) : List Address :=
  let touched := txnParticipants txn
  let touched := ((txn.accounts.getD []).map some).foldl pushSome touched
  let touched := pushSome touched (txn.heartbeat.map HeartbeatTxnFields.address)
  let touched :=
    if txn.txnType.is "acfg" then
      if txn.configAsset ≠ 0 then
        match s.getAssetParams txn.configAsset with
        | none => touched
        | some record => pushNew touched record.creator
      else touched
    else if txn.txnType.is "appl" then
      if txn.applicationId ≠ 0 then
        match s.getAppParams txn.applicationId with
        | none => touched
        | some params => pushSome (pushNew touched params.creator) (some params.sizeSponsor)
      else touched
    else touched
  pushNew (pushNew touched ctx.feeSink) s.rewardsPool

/-! ## Rewards and fees -/

def withRewards (account : AccountData) (level : Nat) : Except ApplyError (AccountData × Nat) :=
  match applyRewards account level with
  | none => .error (.rewardsOverflow account level)
  | some r => .ok r

def isPayCreditRole (txn : Transaction) (addr : Address) : Bool :=
  txn.txnType.is "pay" && addr != txn.sender && (addr == txn.receiver || addr == txn.closeRemainderTo)

structure RewardsPassOutcome where
  senderRewards : Nat
  receiverRewards : Nat
  closeRewards : Nat
deriving Inhabited

/-- One account of the rewards pass.  An empty account through which no Algos move is not written. -/
def rewardsPassStep (txn : Transaction) (level : Nat) (consensus : ConsensusParams) (st : Store × RewardsPassOutcome)
    (addr : Address) : Except ApplyError (Store × RewardsPassOutcome) := do
  let before := st.1.getOrDefaultAccount addr
  let r ← withRewards before level
  let unwrittenSender := addr == txn.sender && txn.fee == 0
  let unwrittenPayReceiver := addr != txn.sender && addr == txn.receiver && txn.txnType.is "pay" && txn.amount == 0
  let skipWrite := consensus.unfundedSenders && (unwrittenSender || isPayCreditRole txn addr) &&
    before.microAlgos == 0 && r.2 == 0 &&
    (unwrittenSender || unwrittenPayReceiver || (st.1.getAccount addr).all (fun a => a == default))
  let s := if skipWrite then st.1 else st.1.setAccount addr r.1
  let out := st.2
  let out :=
    if consensus.rewardsInApplyData then
      if addr = txn.sender then { out with senderRewards := wrapAdd out.senderRewards r.2 }
      else if addr = txn.receiver then { out with receiverRewards := wrapAdd out.receiverRewards r.2 }
      else if addr = txn.closeRemainderTo then { out with closeRewards := wrapAdd out.closeRewards r.2 }
      else out
    else out
  return (s, out)

def applyRewardsPass (txn : Transaction) (level : Nat) (consensus : ConsensusParams) (s : Store) (addrs : List Address) :
    Except ApplyError (Store × RewardsPassOutcome) :=
  addrs.foldlM (rewardsPassStep txn level consensus) (s, default)

/-- A zero fee of an empty sender is not written where senders may be unfunded. -/
def applyFee (ctx : ApplyContext) (sender : Address) (fee : Nat) (st : Store × Cells) :
    Except ApplyError (Store × Cells) :=
  let before := st.1.getOrDefaultAccount sender
  if before.microAlgos < fee then .error (.insufficientForFee sender before.microAlgos fee)
  else
    let skipWrite := ctx.consensus.unfundedSenders && fee == 0 && before.microAlgos == 0
    let s := if skipWrite then st.1
      else st.1.setAccount sender { before with microAlgos := before.microAlgos - fee }
    let sink := s.getOrDefaultAccount ctx.feeSink
    let s := s.setAccount ctx.feeSink { sink with microAlgos := wrapAdd sink.microAlgos fee }
    let c := st.2
    let c := if sender ≠ ctx.feeSink
      then { c with feesCollected := min (c.feesCollected + fee) (u64Bound - 1) } else c
    .ok (s, c)

/-! ## Payments -/

def closingRecord (s : Store) (txn : Transaction) (generate : Bool) : Option AccountData :=
  if !generate || !txn.txnType.is "pay" || txn.closeRemainderTo.isZero then none
  else some (s.getOrDefaultAccount txn.sender)

def checkCloseMinBalance (closing : Option AccountData) (sender : Address) (consensus : ConsensusParams) :
    Except ApplyError Unit :=
  match closing with
  | none => .ok ()
  | some rec =>
    if minBalance rec > consensus.minBalance then .error (.cannotCloseRequires sender (minBalance rec)) else .ok ()

def legacyCloseChecks (sender : AccountData) : Except ApplyError Unit :=
  if sender.totalAssetsOptedIn > 0 then .error (.cannotClose .assets sender.totalAssetsOptedIn)
  else if sender.totalCreatedAssets > 0 then .error (.cannotClose .createdAssets sender.totalCreatedAssets)
  else if sender.totalAppsOptedIn > 0 then .error (.cannotClose .applicationsOptedIn sender.totalAppsOptedIn)
  else if sender.totalBoxes > 0 then .error (.cannotClose .boxes sender.totalBoxes)
  else if sender.totalBoxBytes > 0 then .error (.cannotClose .boxBytes sender.totalBoxBytes)
  else if sender.totalCreatedApps > 0 then .error (.cannotClose .createdApplications sender.totalCreatedApps)
  else .ok ()

/-- Add to the balance of an account that was brought up to the rewards level first. -/
def credit (s : Store) (addr : Address) (amount level : Nat) : Except ApplyError Store := do
  let r ← withRewards (s.getOrDefaultAccount addr) level
  return s.setAccount addr { r.1 with microAlgos := wrapAdd r.1.microAlgos amount }

def payTransfer (s : Store) (txn : Transaction) (level : Nat) : Except ApplyError Store :=
  if txn.amount > 0 || !txn.receiver.isZero then
    let sender := s.getOrDefaultAccount txn.sender
    if sender.microAlgos < txn.amount then .error (.insufficientForPayment txn.sender sender.microAlgos txn.amount)
    else
      let s := if txn.amount > 0 || (s.getAccount txn.sender).isSome
        then s.setAccount txn.sender { sender with microAlgos := sender.microAlgos - txn.amount } else s
      if txn.amount > 0 then credit s txn.receiver txn.amount level else .ok s
  else .ok s

def closeChecks (sender : AccountData) (consensus : ConsensusParams) : Except ApplyError Unit :=
  if consensus.closeRequiresBaseMinBalance then
    if minBalance sender ≠ consensus.minBalance then
      .error (.cannotCloseMinBalance (minBalance sender) consensus.minBalance)
    else .ok ()
  else legacyCloseChecks sender

/-- Move what is left of the sender's balance and reset its record.  It returns the closing amount. -/
def payClose (s : Store) (txn : Transaction) (level : Nat) (consensus : ConsensusParams) :
    Except ApplyError (Store × Nat) :=
  if txn.closeRemainderTo.isZero then .ok (s, 0)
  else do
    let sender := s.getOrDefaultAccount txn.sender
    let closeAmount := sender.microAlgos
    closeChecks sender consensus
    let s := s.setAccount txn.sender default
    let s ← if closeAmount > 0 then credit s txn.closeRemainderTo closeAmount level else .ok s
    return (s, closeAmount)

def applyPay (s : Store) (txn : Transaction) (level : Nat) (consensus : ConsensusParams) :
    Except ApplyError (Store × Nat) := do
  let s ← payTransfer s txn level
  payClose s txn level consensus

/-! ## Assets -/

def tooManyAssets (account : AccountData) (consensus : ConsensusParams) : Bool :=
  decide (consensus.maxAssetsPerAccount > 0) && decide (account.totalAssetsOptedIn ≥ consensus.maxAssetsPerAccount)

def acfgCreate (s : Store) (txn : Transaction) (txnCounter : Nat) (consensus : ConsensusParams) :
    Except ApplyError (Store × Nat) :=
  let newAssetId := wrapAdd txnCounter 1
  let sender := s.getOrDefaultAccount txn.sender
  if tooManyAssets sender consensus then
    .error (.acfgTooManyAssets sender.totalAssetsOptedIn consensus.maxAssetsPerAccount)
  else
    let params := txn.assetParams.getD default
    let s := s.setAssetParams newAssetId ⟨params, txn.sender⟩
    let s := s.setAssetHolding txn.sender newAssetId ⟨params.total, false⟩
    let sender := s.getOrDefaultAccount txn.sender
    let s := s.setAccount txn.sender { sender with
      totalCreatedAssets := wrapAdd sender.totalCreatedAssets 1
      totalAssetsOptedIn := wrapAdd sender.totalAssetsOptedIn 1 }
    .ok (s, newAssetId)

def acfgDestroy (s : Store) (existing : AssetParamsRecord) (assetId : Nat) : Except ApplyError Store :=
  match s.getAssetHolding existing.creator assetId with
  | none => .error (.acfgDestroyNoHolding existing.creator assetId)
  | some holding =>
    if holding.amount ≠ existing.params.total then
      .error (.acfgDestroyHeldElsewhere holding.amount existing.params.total assetId)
    else
      let s := s.removeAssetParams assetId
      let s := s.removeAssetHolding existing.creator assetId
      let creator := s.getOrDefaultAccount existing.creator
      .ok (s.setAccount existing.creator { creator with
        totalCreatedAssets := creator.totalCreatedAssets - 1
        totalAssetsOptedIn := creator.totalAssetsOptedIn - 1 })

/-- A role is replaced only where it is set and not zero, and the transaction has the field. -/
def updateRole (existing new : Option Address) : Option Address :=
  if existing.any (fun a => !a.isZero) && new.isSome then new else existing

def acfgReconfigure (existing params : AssetParams) : AssetParams :=
  { existing with
    manager := updateRole existing.manager params.manager
    reserve := updateRole existing.reserve params.reserve
    freeze := updateRole existing.freeze params.freeze
    clawback := updateRole existing.clawback params.clawback }

/-- It returns the id of a created asset, or zero. -/
def applyAcfg (s : Store) (txn : Transaction) (txnCounter : Nat) (consensus : ConsensusParams) :
    Except ApplyError (Store × Nat) :=
  if txn.configAsset = 0 then acfgCreate s txn txnCounter consensus
  else
    let assetId := txn.configAsset
    match s.getAssetParams assetId with
    | none => .error (.acfgNoAsset assetId)
    | some existing =>
      let manager := existing.params.manager.getD Address.zero
      if manager.isZero || txn.sender != manager then .error (.acfgNotManager txn.sender assetId)
      else
        let params := txn.assetParams.getD default
        if params = default then do
          let s ← acfgDestroy s existing assetId
          return (s, 0)
        else .ok (s.setAssetParams assetId { existing with params := acfgReconfigure existing.params params }, 0)

/-- The account an asset is taken from, and whether it is taken by clawback. -/
def axferSource (txn : Transaction) : Address × Bool :=
  match txn.assetSender.filter (fun a => !a.isZero) with
  | some a => (a, true)
  | none => (txn.sender, false)

def axferClawback (s : Store) (txn : Transaction) : Except ApplyError Unit :=
  if (axferSource txn).2 then
    match s.getAssetParams txn.xaid with
    | none => .error (.axferNoAsset txn.xaid)
    | some record =>
      if txn.sender ≠ record.params.clawback.getD Address.zero then .error (.axferNotClawback txn.sender txn.xaid)
      else .ok ()
  else .ok ()

def axferOptIn (s : Store) (txn : Transaction) (consensus : ConsensusParams) : Except ApplyError Store :=
  let source := axferSource txn
  let isOptIn := txn.assetReceiver.getD Address.zero == source.1 && txn.assetAmount == 0 && !source.2
  if isOptIn && !s.hasAssetHolding source.1 txn.xaid then
    match s.getAssetParams txn.xaid with
    | none => .error (.axferOptInNoAsset txn.xaid)
    | some record =>
      let account := s.getOrDefaultAccount source.1
      if tooManyAssets account consensus then
        .error (.axferOptInTooManyAssets account.totalAssetsOptedIn consensus.maxAssetsPerAccount)
      else
        let s := s.setAssetHolding source.1 txn.xaid ⟨0, record.params.defaultFrozen⟩
        let account := s.getOrDefaultAccount source.1
        .ok (s.setAccount source.1 { account with totalAssetsOptedIn := wrapAdd account.totalAssetsOptedIn 1 })
  else .ok s

def axferTransfer (s : Store) (txn : Transaction) : Except ApplyError Store :=
  let source := axferSource txn
  let receiver := txn.assetReceiver.getD Address.zero
  if txn.assetAmount > 0 then
    match s.getAssetHolding source.1 txn.xaid with
    | none => .error (.axferNoHolding source.1 txn.xaid)
    | some held =>
      if held.frozen && !source.2 then .error (.axferFrozen source.1 txn.xaid)
      else if held.amount < txn.assetAmount then
        .error (.axferInsufficient source.1 held.amount txn.assetAmount txn.xaid)
      else
        let s := s.setAssetHolding source.1 txn.xaid { held with amount := held.amount - txn.assetAmount }
        match s.getAssetHolding receiver txn.xaid with
        | none => .error (.axferReceiverNoHolding receiver txn.xaid)
        | some got =>
          if got.frozen && !source.2 then .error (.axferReceiverFrozen receiver txn.xaid)
          else .ok (s.setAssetHolding receiver txn.xaid { got with amount := wrapAdd got.amount txn.assetAmount })
  else .ok s

/-- Close the source's holding to `closeTo`.  A holding closed to the creator is never frozen. -/
def axferCloseTo (s : Store) (source closeTo : Address) (assetId : Nat) (consensus : ConsensusParams) :
    Except ApplyError (Store × Nat) := do
  let creator := (s.getAssetParams assetId).map AssetParamsRecord.creator
  if creator = some source then .error .axferCloseAllocating
  else
    let bypassFreeze := creator == some closeTo
    match s.getAssetHolding source assetId with
    | none => .error (.axferCloseNoHolding source assetId)
    | some held =>
      let remaining := held.amount
      let closing := if consensus.enableAssetCloseAmount then remaining else 0
      if remaining > 0 && held.frozen && !bypassFreeze then .error (.axferCloseFrozen source assetId)
      else
        let s ← if remaining > 0 then
            match s.getAssetHolding closeTo assetId with
            | none => .error (.axferCloseToNoHolding closeTo assetId)
            | some got =>
              if got.frozen && !bypassFreeze then .error (.axferCloseToFrozen closeTo assetId)
              else .ok (s.setAssetHolding closeTo assetId { got with amount := wrapAdd got.amount remaining })
          else .ok s
        let s := s.removeAssetHolding source assetId
        let account := s.getOrDefaultAccount source
        return (s.setAccount source { account with totalAssetsOptedIn := account.totalAssetsOptedIn - 1 }, closing)

def axferClose (s : Store) (txn : Transaction) (consensus : ConsensusParams) : Except ApplyError (Store × Nat) :=
  match txn.assetCloseTo.filter (fun a => !a.isZero) with
  | none => .ok (s, 0)
  | some closeTo =>
    let source := axferSource txn
    if source.2 then .error (.axferCloseByClawback txn.xaid)
    else axferCloseTo s source.1 closeTo txn.xaid consensus

/-- It returns the amount of a closed holding. -/
def applyAxfer (s : Store) (txn : Transaction) (consensus : ConsensusParams) : Except ApplyError (Store × Nat) :=
  if txn.xaid = 0 then .error .axferZeroAsset
  else do
    axferClawback s txn
    let s ← axferOptIn s txn consensus
    let s ← axferTransfer s txn
    axferClose s txn consensus

def applyAfrz (s : Store) (txn : Transaction) : Except ApplyError Store :=
  let assetId := txn.freezeAsset
  if assetId = 0 then .error .afrzZeroAsset
  else
    match s.getAssetParams assetId with
    | none => .error (.afrzNoAsset assetId)
    | some record =>
      let freezer := record.params.freeze.getD Address.zero
      if freezer.isZero || txn.sender != freezer then .error (.afrzNotFreezer txn.sender assetId)
      else
        match txn.freezeAccount with
        | none => .error .afrzNoAccount
        | some target =>
          match s.getAssetHolding target assetId with
          | none => .error (.afrzNoHolding target assetId)
          | some holding => .ok (s.setAssetHolding target assetId { holding with frozen := txn.assetFrozen })

/-! ## Key registration -/

/-- Twice the seed refresh interval times the seed lookback. -/
def balanceLookback : Nat := 320

def keyregOffline (s : Store) (txn : Transaction) (consensus : ConsensusParams) : Except ApplyError Store :=
  if txn.nonParticipation && !consensus.supportBecomeNonParticipatingTransactions then
    .error .keyregNonparticipationUnsupported
  else
    let account := s.getOrDefaultAccount txn.sender
    .ok (s.setAccount txn.sender { account with
      status := if txn.nonParticipation then .notParticipating else .offline
      voteId := none
      selectionId := none
      stateProofId := none
      voteFirstValid := 0
      voteLastValid := 0
      voteKeyDilution := 0 })

def keyregOnline (s : Store) (txn : Transaction) (votePk selectionPk : Bytes32) (round : Nat)
    (consensus : ConsensusParams) : Except ApplyError Store :=
  if txn.voteKeyDilution = 0 then .error .keyregNoKeyDilution
  else if txn.voteLast < txn.voteFirst then .error (.keyregLastBeforeFirst txn.voteLast txn.voteFirst)
  else if consensus.enableKeyregCoherencyCheck = true ∧ txn.voteLast ≤ round then
    .error (.keyregExpired txn.voteLast round)
  else if consensus.enableKeyregCoherencyCheck = true ∧ txn.voteFirst > wrapAdd round 1 then
    .error (.keyregTooFarInFuture txn.voteFirst (wrapAdd round 1))
  else
    let account := s.getOrDefaultAccount txn.sender
    let account := { account with
      status := .online
      voteId := some votePk
      selectionId := some selectionPk
      stateProofId := if consensus.enableStateProofKeyregCheck then txn.stateProofPk else account.stateProofId
      voteFirstValid := txn.voteFirst
      voteLastValid := txn.voteLast
      voteKeyDilution := txn.voteKeyDilution }
    let account :=
      if consensus.payoutsEnabled then
        { account with
          lastHeartbeat := wrapAdd round balanceLookback
          incentiveEligible := account.incentiveEligible || decide (txn.fee ≥ consensus.payoutsGoOnlineFee) }
      else account
    .ok (s.setAccount txn.sender account)

/-- Both keys are present: the account goes online; otherwise it goes offline.  The keys have a fixed length, so a key
of zeros is not an empty one. -/
def applyKeyreg (s : Store) (txn : Transaction) (round : Nat) (consensus : ConsensusParams) : Except ApplyError Store :=
  if (s.getOrDefaultAccount txn.sender).status = .notParticipating then .error (.keyregNotParticipating txn.sender)
  else
    match txn.votePk, txn.selectionPk with
    | some votePk, some selectionPk => keyregOnline s txn votePk selectionPk round consensus
    | _, _ => keyregOffline s txn consensus

/-! ## One transaction -/

/-- The sender is rekeyed before anything else; to itself or to zero removes the key. -/
def applyRekey (s : Store) (txn : Transaction) : Store :=
  match txn.rekeyTo with
  | none => s
  | some new =>
    let account := s.getOrDefaultAccount txn.sender
    s.setAccount txn.sender { account with authAddr := if new = txn.sender ∨ new.isZero = true then none else some new }

/-- The id counter an asset configuration starts from: a replayed creation has the id its block recorded. -/
def acfgCounter (ctx : ApplyContext) (c : Cells) (stx : SignedTransaction) : Nat :=
  if ctx.mode = .replay ∧ stx.txn.configAsset = 0 ∧ stx.applyDataConfigAsset ≠ 0 then stx.applyDataConfigAsset - 1
  else c.txnCounter

section Dispatch

variable (ext : Externals)

/-- The function of the transaction's type. -/
def applyByType (ctx : ApplyContext) (depth : Nat) (stx : SignedTransaction) (st : Store × Cells) (ad : ApplyData) :
    Except ApplyError ((Store × Cells) × ApplyData) :=
  let txn := stx.txn
  if txn.txnType.is "pay" then do
    let closing := closingRecord st.1 txn ctx.generate
    let st ← applyFee ctx txn.sender txn.fee st
    let r ← applyPay st.1 txn ctx.rewardsLevel ctx.consensus
    checkCloseMinBalance closing txn.sender ctx.consensus
    return ((r.1, st.2), { ad with closingAmount := r.2 })
  else if txn.txnType.is "acfg" then do
    let st ← applyFee ctx txn.sender txn.fee st
    let r ← applyAcfg st.1 txn (acfgCounter ctx st.2 stx) ctx.consensus
    return ((r.1, st.2), { ad with configAsset := r.2 })
  else if txn.txnType.is "axfer" then do
    let st ← applyFee ctx txn.sender txn.fee st
    let r ← applyAxfer st.1 txn ctx.consensus
    return ((r.1, st.2), { ad with assetClosingAmount := r.2 })
  else if txn.txnType.is "afrz" then do
    let st ← applyFee ctx txn.sender txn.fee st
    let s ← applyAfrz st.1 txn
    return ((s, st.2), ad)
  else if txn.txnType.is "appl" then do
    let counter := st.2.txnCounter
    let r ← ext.applyAppl ctx depth stx st
    let ad :=
      if txn.applicationId = 0 then
        { ad with
          derivedApplicationId := if ctx.mode = .execute then wrapAdd counter 1 else ad.derivedApplicationId
          applicationId := if stx.applyDataApplicationId ≠ 0 then stx.applyDataApplicationId else wrapAdd counter 1 }
      else ad
    return (r.1, if ctx.mode = .execute then { ad with evalDelta := r.2 } else ad)
  else if txn.txnType.is "keyreg" then do
    let st ← applyFee ctx txn.sender txn.fee st
    let s ← applyKeyreg st.1 txn ctx.round ctx.consensus
    return ((s, st.2), ad)
  else if txn.txnType.is "hb" then
    if !ctx.consensus.enableHeartbeat then .error .heartbeatNotSupported
    else do
      let st ← applyFee ctx txn.sender txn.fee st
      let s ← ext.applyHeartbeat ctx txn st.1
      return ((s, st.2), ad)
  else .error (.unknownTransactionType txn.txnType.asStr)

/-- A delta the block recorded, for a transaction that does not execute it itself. -/
def applyRecordedDelta (ctx : ApplyContext) (depth : Nat) (stx : SignedTransaction) (st : Store × Cells) :
    Except ApplyError (Store × Cells) :=
  if stx.txn.txnType.is "appl" then .ok st
  else
    match stx.evalDelta with
    | none => .ok st
    | some dt =>
      let appId := if stx.applyDataApplicationId ≠ 0 then stx.applyDataApplicationId else stx.txn.applicationId
      ext.applyEvalDelta ctx depth appId stx.txn.sender (stx.txn.accounts.getD []) dt st

/-- An account after a top-level transaction.  The fee sink, the rewards pool, deleted accounts and the receiver of
nothing are exempt. -/
def checkMinBalance (ctx : ApplyContext) (txn : Transaction) (s : Store) (addr : Address) : Except ApplyError Unit :=
  if addr = ctx.feeSink ∨ addr = s.rewardsPool then .ok ()
  else
    match s.getAccount addr with
    | none => .ok ()
    | some account =>
      if account = default then .ok ()
      else if txn.txnType.is "pay" = true ∧ txn.amount = 0 ∧ addr = txn.receiver ∧ addr ≠ txn.sender ∧
          addr ≠ txn.closeRemainderTo ∧ ctx.consensus.unfundedSenders = true ∧
          account.microAlgos / max ctx.consensus.rewardUnit 1 = 0 then .ok ()
      else if account.microAlgos < minBalance account then
        .error (.belowMinBalance addr account.microAlgos (minBalance account) account.totalAssetsOptedIn)
      else if ctx.consensus.maximumMinimumBalance ≠ 0 ∧ minBalance account > ctx.consensus.maximumMinimumBalance then
        .error (.tooMuchSpace addr (minBalance account) ctx.consensus.maximumMinimumBalance)
      else .ok ()

/-- Record the round in an account the transaction left in the store. -/
def stampUpdateRound (ctx : ApplyContext) (s : Store) (addr : Address) : Store :=
  match s.getAccount addr with
  | none => s
  | some account =>
    if account = default then s
    else if account.updateRound < ctx.round then s.setAccount addr { account with updateRound := ctx.round }
    else s

/-- The checks and records that follow the execution of a transaction. -/
def finishTransaction (ctx : ApplyContext) (depth : Nat) (txn : Transaction) (addrs : List Address) (st : Store × Cells)
    (ad : ApplyData) : Except ApplyError ((Store × Cells) × ApplyData) := do
  if depth = 0 then
    let checked := (ad.evalDelta.map ext.innerParticipants).getD []
    (checked.foldl pushNew addrs).forM (checkMinBalance ctx txn st.1)
  let s := if ctx.callerTracksLeases then st.1 else st.1.recordLease txn.sender txn.lease txn.lastValid
  let c := { st.2 with txnCounter := wrapAdd st.2.txnCounter 1 }
  return ((addrs.foldl (stampUpdateRound ctx) s, c), ad)

/-- **Apply one transaction.** -/
def applyTransaction (ctx : ApplyContext) (depth : Nat) (st : Store × Cells) (stx : SignedTransaction) :
    Except ApplyError ((Store × Cells) × ApplyData) :=
  let txn := stx.txn
  if txn.txnType.is "stpf" then do
    let r ← ext.applyStateProof ctx txn st
    return ((r.1.1, { r.1.2 with txnCounter := wrapAdd r.1.2.txnCounter 1 }), r.2)
  else do
    let addrs := snapshotAddrs ctx st.1 txn
    let pass ← applyRewardsPass txn ctx.rewardsLevel ctx.consensus st.1 (rewardParticipants txn)
    let ad := { (default : ApplyData) with
      senderRewards := pass.2.senderRewards
      receiverRewards := pass.2.receiverRewards
      closeRewards := pass.2.closeRewards }
    let r ← applyByType ext ctx depth stx (applyRekey pass.1 txn, st.2) ad
    let st ← applyRecordedDelta ext ctx depth stx r.1
    let ad := if ctx.mode = .replay then { r.2 with evalDelta := stx.evalDelta } else r.2
    finishTransaction ext ctx depth txn addrs st ad

end Dispatch

end Ledger
end Algod
