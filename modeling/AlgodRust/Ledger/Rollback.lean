import AlgodRust.Ledger.ApplyFrame
import AlgodRust.Validate.Fee
/-!
# Rollback — what a failed transaction leaves in an in-memory ledger

The ledger state kept in memory has no layers: a transaction writes into its maps, and where it fails the records of the
accounts and assets listed before it ran are put back.  `applyTransactionInner` is `applyTransaction` on such a state,
with the state at every point where it may fail.  The list leaves out the zero address and the asset id zero, and a few
branches write there: the maps are as before exactly where none of these writes was reached
(`restored_iff_not_strays`).
-/
namespace Algod
namespace Ledger

open Run
open Msgpack (Bytes Value)
open Validate (txnSizePricingEnabled)

/-! ## Heartbeats -/

/-- The rules of proposer payouts, as far as a challenge depends on them. -/
structure PayoutRules where
  challengeInterval : Nat
  challengeGracePeriod : Nat
  challengeBits : Nat
  maxMarkAbsent : Nat
  enabled : Bool
  goOnlineFee : Nat
  percent : Nat
  minBalance : Nat
  maxBalance : Nat
deriving DecidableEq, Repr, Inhabited

inductive ChallengePeriod
  | risky
  | active
deriving DecidableEq, Repr

structure Challenge where
  round : Round
  seed : Bytes32
  bits : Nat
deriving DecidableEq, Repr

instance : Inhabited Challenge := ⟨⟨0, 0, 0⟩⟩

/-- The first `n` bits agree. -/
def bitsMatch (a b : Bytes32) (n : Nat) : Bool :=
  if n > 256 then false else a >>> (256 - n) == b >>> (256 - n)

def lastSeen (lastProposed lastHeartbeat : Round) : Round := max lastProposed lastHeartbeat

namespace Challenge

def isZero (ch : Challenge) : Bool := ch.round == 0 && ch.seed == 0 && ch.bits == 0

def failed (ch : Challenge) (address : Address) (seen : Round) : Bool :=
  ch.round != 0 && bitsMatch ch.seed address.bytes ch.bits && decide (seen < ch.round)

end Challenge

/-- The part of the challenge interval a round has to be in. -/
def ChallengePeriod.includes (period : ChallengePeriod) (last grace round : Nat) : Bool :=
  match period with
  | .risky => !(decide (round ≤ wrapAdd last (grace / 2)) || decide (round > wrapAdd last grace))
  | .active => !(decide (round ≤ wrapAdd last grace) || decide (round > wrapAdd last (2 * grace)))

section Heartbeat

variable (rulesOf : String → Option PayoutRules) (rules : PayoutRules)

/-- The challenge in effect at a round; where the rules changed since it was issued there is none. -/
def findChallenge (s : Store) (currentRound : Round) (period : ChallengePeriod) : Challenge :=
  if rules.challengeInterval = 0 ∨ currentRound < rules.challengeInterval then default
  else
    let last := currentRound - currentRound % rules.challengeInterval
    if !period.includes last rules.challengeGracePeriod currentRound then default
    else
      match s.getBlockHeader last with
      | none => default
      | some header =>
        if rulesOf header.currentProtocol = some rules then ⟨last, header.seed, rules.challengeBits⟩ else default

/-- How a heartbeat claims not to pay its fee, if it does. -/
def heartbeatKind (txn : Transaction) (hb : HeartbeatTxnFields) (consensus : ConsensusParams) : Option HeartbeatKind :=
  if txnSizePricingEnabled consensus then if hb.hbChallengeDiscount then some .discounted else none
  else if txn.fee < consensus.minTxnFee ∧ txn.group = 0 then some (if txn.fee > 0 then .cheap else .free)
  else none

/-- Only an online account that is eligible and challenged need not pay. -/
def checkDiscount (s : Store) (hb : HeartbeatTxnFields) (account : AccountData) (round : Round) :
    Option HeartbeatKind → Except ApplyError Unit
  | none => .ok ()
  | some kind =>
    if account.status ≠ .online then .error (.heartbeat (.notOnline kind hb.address))
    else if !account.incentiveEligible then .error (.heartbeat (.notIncentiveEligible kind hb.address))
    else
      let ch := findChallenge rulesOf rules s round .risky
      if ch.isZero then .error (.heartbeat (.noChallenge kind hb.address))
      else if !ch.failed hb.address (lastSeen account.lastProposed account.lastHeartbeat) then
        .error (.heartbeat (.notChallenged kind hb.address))
      else .ok ()

/-- The keys and the seed the heartbeat was signed for. -/
def checkHeartbeatKeys (s : Store) (txn : Transaction) (hb : HeartbeatTxnFields) (account : AccountData) :
    Except ApplyError Unit :=
  match s.getBlockHeader txn.firstValid with
  | none => .error (.heartbeat (.noHeader txn.firstValid))
  | some header =>
    if header.seed ≠ hb.seed then .error (.heartbeat (.otherSeed txn.firstValid))
    else if account.voteId.getD 0 ≠ hb.voteId then .error (.heartbeat (.otherVoteId hb.address))
    else if account.voteKeyDilution ≠ hb.keyDilution then
      .error (.heartbeat (.otherKeyDilution hb.address hb.keyDilution account.voteKeyDilution))
    else .ok ()

def applyHeartbeat (s : Store) (txn : Transaction) (round : Round) (consensus : ConsensusParams) :
    Except ApplyError Store :=
  match txn.heartbeat with
  | none => .error (.heartbeat .missingFields)
  | some hb =>
    match s.getAccount hb.address with
    | none => .error (.heartbeat (.noAccount hb.address))
    | some account => do
      checkDiscount rulesOf rules s hb account round (heartbeatKind txn hb consensus)
      checkHeartbeatKeys s txn hb account
      let account := s.getOrDefaultAccount hb.address
      return s.setAccount hb.address { account with lastHeartbeat := round }

end Heartbeat

/-! ## Snapshots -/

/-- The saved values of some keys; `none` for a key that was absent. -/
structure StateSnapshot where
  accounts : List (Address × Option AccountData)
  assetHoldings : List ((Address × Nat) × Option AssetHolding)
  assetParams : List (Nat × Option AssetParamsRecord)
  appParams : List (Nat × Option AppParams)
  appLocalStates : List ((Address × Nat) × Option AppLocalState)
  boxes : List ((Nat × Bytes) × Option Bytes)
  snapshottedBoxAppIds : List Nat

section Saved

variable {κ α : Type} [DecidableEq κ]

def saveKeys (m : FinMap κ α) (ks : List κ) : List (κ × Option α) := ks.map (fun k => (k, m.lookup k))

/-- The entries of a map whose keys meet `f`. -/
def saveEntries (m : FinMap κ α) (f : κ → Bool) : List (κ × Option α) :=
  (m.entries.filter (fun e => f e.1)).map (fun e => (e.1, some e.2))

def putBackEntry (m : FinMap κ α) (e : κ × Option α) : FinMap κ α :=
  match e.2 with
  | some d => m.insert e.1 d
  | none => m.erase e.1

def putBack (m : FinMap κ α) (saved : List (κ × Option α)) : FinMap κ α := saved.foldl putBackEntry m

/-- Put the saved entries back and drop the entries that meet `f` and were not saved. -/
def putBackOnly (f : κ → Bool) (m : FinMap κ α) (saved : List (κ × Option α)) : FinMap κ α :=
  FinMap.retain (fun k _ => !f k || decide (k ∈ saved.map Prod.fst)) (putBack m saved)

end Saved

namespace Store

def snapshot (s : Store) (addrs : List Address) : StateSnapshot where
  accounts := saveKeys s.accounts addrs
  assetHoldings := saveEntries s.assetHoldings (fun k => decide (k.1 ∈ addrs))
  assetParams := []
  appParams := []
  appLocalStates := saveEntries s.appLocalStates (fun k => decide (k.1 ∈ addrs))
  boxes := []
  snapshottedBoxAppIds := []

def snapshotWithIds (s : Store) (addrs : List Address) (assetIds appIds : List Nat) : StateSnapshot :=
  { s.snapshot addrs with
    assetParams := saveKeys s.assetParams assetIds
    appParams := saveKeys s.appParams appIds
    boxes := appIds.flatMap (fun id => saveEntries s.boxes (fun k => decide (k.1 = id)))
    snapshottedBoxAppIds := appIds }

def restoreSnapshot (s : Store) (snap : StateSnapshot) : Store :=
  let addrs := snap.accounts.map Prod.fst
  { s with
    accounts := putBack s.accounts snap.accounts
    assetHoldings := putBackOnly (fun k => decide (k.1 ∈ addrs)) s.assetHoldings snap.assetHoldings
    assetParams := putBack s.assetParams snap.assetParams
    appParams := putBack s.appParams snap.appParams
    appLocalStates := putBackOnly (fun k => decide (k.1 ∈ addrs)) s.appLocalStates snap.appLocalStates
    boxes := if snap.snapshottedBoxAppIds = [] then putBack s.boxes snap.boxes
      else putBackOnly (fun k => decide (k.1 ∈ snap.snapshottedBoxAppIds)) s.boxes snap.boxes }

end Store

/-- The transaction types whose execution is followed here. -/
inductive PlainType
  | pay
  | keyreg
  | acfg
  | axfer
  | afrz
  | hb
deriving DecidableEq, Repr

def PlainType.asStr : PlainType → String
  | .pay => "pay"
  | .keyreg => "keyreg"
  | .acfg => "acfg"
  | .axfer => "axfer"
  | .afrz => "afrz"
  | .hb => "hb"

/-- The assets whose parameters are saved. -/
def snapshotAssetIds (c : Cells) (stx : SignedTransaction) : PlainType → List Nat
  | .acfg =>
    let ids := if stx.txn.configAsset ≠ 0 then [stx.txn.configAsset] else []
    let ids := if stx.txn.configAsset = 0 ∧ wrapAdd c.txnCounter 1 ≠ 0 then ids ++ [wrapAdd c.txnCounter 1] else ids
    if stx.applyDataConfigAsset ≠ 0 ∧ stx.applyDataConfigAsset ∉ ids then ids ++ [stx.applyDataConfigAsset] else ids
  | .axfer => if stx.txn.xaid ≠ 0 then [stx.txn.xaid] else []
  | .afrz => if stx.txn.freezeAsset ≠ 0 then [stx.txn.freezeAsset] else []
  | _ => []

def takeSnapshot (ctx : ApplyContext) (st : Store × Cells) (stx : SignedTransaction) (t : PlainType) : StateSnapshot :=
  let addrs := snapshotAddrs ctx st.1 stx.txn
  let ids := snapshotAssetIds st.2 stx t
  if ids = [] then st.1.snapshot addrs else st.1.snapshotWithIds addrs ids []

/-! ## The body of a transaction

A step that checks everything before it writes is `atomic`.  A payment writes its sender before it credits, and an asset
transfer takes before it puts: these are two steps. -/

abbrev Body := EStateM ApplyError (Store × Cells)

def onStore (f : Store → Except ApplyError Store) : Body Unit :=
  atomic (fun st => (f st.1).map (fun s => ((s, st.2), ())))

def onStoreWith {α : Type} (f : Store → Except ApplyError (Store × α)) : Body α :=
  atomic (fun st => (f st.1).map (fun r => ((r.1, st.2), r.2)))

def check (f : Store → Except ApplyError Unit) : Body Unit :=
  atomic (fun st => (f st.1).map (fun _ => (st, ())))

def rewardsPass (ctx : ApplyContext) (txn : Transaction) : Body RewardsPassOutcome :=
  (rewardParticipants txn).foldlM (fun out addr =>
    onStoreWith (fun s => rewardsPassStep txn ctx.rewardsLevel ctx.consensus (s, out) addr)) default

def takeFee (ctx : ApplyContext) (txn : Transaction) : Body Unit :=
  atomic (fun st => (applyFee ctx txn.sender txn.fee st).map (fun st => (st, ())))

def payDebit (s : Store) (txn : Transaction) : Except ApplyError Store :=
  let sender := s.getOrDefaultAccount txn.sender
  if sender.microAlgos < txn.amount then .error (.insufficientForPayment txn.sender sender.microAlgos txn.amount)
  else .ok (if txn.amount > 0 || (s.getAccount txn.sender).isSome
    then s.setAccount txn.sender { sender with microAlgos := sender.microAlgos - txn.amount } else s)

def creditIf (ctx : ApplyContext) (addr : Address) (amount : Nat) : Body Unit :=
  if amount > 0 then onStore (fun s => credit s addr amount ctx.rewardsLevel) else pure ()

def payTransferBody (ctx : ApplyContext) (txn : Transaction) : Body Unit :=
  if txn.amount > 0 || !txn.receiver.isZero then do
    onStore (fun s => payDebit s txn)
    creditIf ctx txn.receiver txn.amount
  else pure ()

/-- The checks of a close and the reset of the sender's record. -/
def payReset (s : Store) (txn : Transaction) (consensus : ConsensusParams) : Except ApplyError (Store × Nat) := do
  let sender := s.getOrDefaultAccount txn.sender
  closeChecks sender consensus
  return (s.setAccount txn.sender default, sender.microAlgos)

def payCloseBody (ctx : ApplyContext) (txn : Transaction) : Body Nat :=
  if txn.closeRemainderTo.isZero then pure 0
  else do
    let closeAmount ← onStoreWith (fun s => payReset s txn ctx.consensus)
    creditIf ctx txn.closeRemainderTo closeAmount
    return closeAmount

def axferTake (s : Store) (txn : Transaction) : Except ApplyError Store :=
  let source := axferSource txn
  match s.getAssetHolding source.1 txn.xaid with
  | none => .error (.axferNoHolding source.1 txn.xaid)
  | some held =>
    if held.frozen && !source.2 then .error (.axferFrozen source.1 txn.xaid)
    else if held.amount < txn.assetAmount then
      .error (.axferInsufficient source.1 held.amount txn.assetAmount txn.xaid)
    else .ok (s.setAssetHolding source.1 txn.xaid { held with amount := held.amount - txn.assetAmount })

def axferPut (s : Store) (txn : Transaction) : Except ApplyError Store :=
  let receiver := txn.assetReceiver.getD Address.zero
  match s.getAssetHolding receiver txn.xaid with
  | none => .error (.axferReceiverNoHolding receiver txn.xaid)
  | some got =>
    if got.frozen && !(axferSource txn).2 then .error (.axferReceiverFrozen receiver txn.xaid)
    else .ok (s.setAssetHolding receiver txn.xaid { got with amount := wrapAdd got.amount txn.assetAmount })

def axferTransferBody (txn : Transaction) : Body Unit :=
  if txn.assetAmount > 0 then do
    onStore (fun s => axferTake s txn)
    onStore (fun s => axferPut s txn)
  else pure ()

def axferMoveBody (ctx : ApplyContext) (txn : Transaction) : Body Unit :=
  if txn.xaid = 0 then throw .axferZeroAsset
  else do
    check (fun s => axferClawback s txn)
    onStore (fun s => axferOptIn s txn ctx.consensus)
    axferTransferBody txn

section Body

variable (rulesOf : String → Option PayoutRules) (rules : PayoutRules)

/-- The function of the transaction's type, up to the close of an account or a holding.  It returns the record of the
sender that a close is judged by. -/
def moveByType (ctx : ApplyContext) (stx : SignedTransaction) (ad : ApplyData) :
    PlainType → Body (ApplyData × Option AccountData)
  | .pay => do
    let st ← get
    takeFee ctx stx.txn
    payTransferBody ctx stx.txn
    return (ad, closingRecord st.1 stx.txn ctx.generate)
  | .acfg => do
    takeFee ctx stx.txn
    let st ← get
    let id ← onStoreWith (fun s => applyAcfg s stx.txn (acfgCounter ctx st.2 stx) ctx.consensus)
    return ({ ad with configAsset := id }, none)
  | .axfer => do
    takeFee ctx stx.txn
    axferMoveBody ctx stx.txn
    return (ad, none)
  | .afrz => do
    takeFee ctx stx.txn
    onStore (fun s => applyAfrz s stx.txn)
    return (ad, none)
  | .keyreg => do
    takeFee ctx stx.txn
    onStore (fun s => applyKeyreg s stx.txn ctx.round ctx.consensus)
    return (ad, none)
  | .hb =>
    if !ctx.consensus.enableHeartbeat then throw .heartbeatNotSupported
    else do
      takeFee ctx stx.txn
      onStore (fun s => applyHeartbeat rulesOf rules s stx.txn ctx.round ctx.consensus)
      return (ad, none)

/-- Rewards, rekeying and the writes of the transaction before a close. -/
def moves (ctx : ApplyContext) (stx : SignedTransaction) (t : PlainType) : Body (ApplyData × Option AccountData) := do
  let pass ← rewardsPass ctx stx.txn
  let ad := { (default : ApplyData) with
    senderRewards := pass.senderRewards
    receiverRewards := pass.receiverRewards
    closeRewards := pass.closeRewards }
  onStore (fun s => .ok (applyRekey s stx.txn))
  moveByType rulesOf rules ctx stx ad t

/-- The close of an account or a holding. -/
def closeByType (ctx : ApplyContext) (txn : Transaction) (r : ApplyData × Option AccountData) : PlainType → Body ApplyData
  | .pay => do
    let closing ← payCloseBody ctx txn
    check (fun _ => checkCloseMinBalance r.2 txn.sender ctx.consensus)
    return { r.1 with closingAmount := closing }
  | .axfer => do
    let closing ← onStoreWith (fun s => axferClose s txn ctx.consensus)
    return { r.1 with assetClosingAmount := closing }
  | _ => return r.1

/-- The checks of `finishTransaction` come before its writes. -/
def finish (ext : Externals) (ctx : ApplyContext) (depth : Nat) (txn : Transaction) (addrs : List Address)
    (ad : ApplyData) : Body ApplyData :=
  atomic (fun st => finishTransaction ext ctx depth txn addrs st ad)

/-- The body of a transaction of a plain type.  A delta its block recorded is executed by another component. -/
def applyTransactionInnerBody (ext : Externals) (ctx : ApplyContext) (depth : Nat) (stx : SignedTransaction)
    (t : PlainType) (addrs : List Address) : Body ApplyData := do
  let r ← moves rulesOf rules ctx stx t
  let ad ← closeByType ctx stx.txn r t
  atomic (fun st => (applyRecordedDelta ext ctx depth stx st).map (fun st => (st, ())))
  finish ext ctx depth stx.txn addrs (if ctx.mode = .replay then { ad with evalDelta := stx.evalDelta } else ad)

/-- **Apply one transaction to a state in memory**: where it fails, the snapshot is put back. -/
def applyTransactionInner (ext : Externals) (ctx : ApplyContext) (depth : Nat) (stx : SignedTransaction)
    (t : PlainType) : Body ApplyData := fun st =>
  match applyTransactionInnerBody rulesOf rules ext ctx depth stx t (snapshotAddrs ctx st.1 stx.txn) st with
  | .ok ad st' => .ok ad st'
  | .error e st' => .error e (st'.1.restoreSnapshot (takeSnapshot ctx st stx t), st'.2)

end Body

/-! ## What a snapshot brings back -/

section Saved

variable {κ α : Type} [DecidableEq κ]

theorem lookup_putBackEntry (m : FinMap κ α) (e : κ × Option α) (k : κ) :
    (putBackEntry m e).lookup k = if k = e.1 then e.2 else m.lookup k := by
  obtain ⟨k', o⟩ := e
  cases o with
  | none => exact FinMap.lookup_erase_eq m k' k
  | some d => exact FinMap.lookup_insert_eq m k' k d

theorem lookup_putBack {f : κ → Option α} (k : κ) : ∀ (saved : List (κ × Option α)) (m : FinMap κ α),
    (∀ e ∈ saved, e.2 = f e.1) →
      (putBack m saved).lookup k = if k ∈ saved.map Prod.fst then f k else m.lookup k
  | [], _, _ => by simp [putBack]
  | e :: saved, m, h => by
    have he : e.2 = f e.1 := h e List.mem_cons_self
    show (putBack (putBackEntry m e) saved).lookup k = _
    rw [lookup_putBack k saved _ (fun e' he' => h e' (List.mem_cons_of_mem _ he')), List.map_cons, lookup_putBackEntry]
    by_cases hk : k ∈ saved.map Prod.fst
    · rw [if_pos hk, if_pos (List.mem_cons_of_mem _ hk)]
    rw [if_neg hk]
    by_cases hke : k = e.1
    · rw [if_pos hke, if_pos (by rw [hke]; exact List.mem_cons_self), hke, ← he]
    · rw [if_neg hke, if_neg]
      rw [List.mem_cons, not_or]
      exact ⟨hke, hk⟩

theorem saveKeys_fst (m : FinMap κ α) (ks : List κ) : (saveKeys m ks).map Prod.fst = ks := by
  unfold saveKeys
  rw [List.map_map]
  exact List.map_id ks

theorem lookup_putBack_saveKeys (m₀ m : FinMap κ α) (ks : List κ) (k : κ) :
    (putBack m (saveKeys m₀ ks)).lookup k = if k ∈ ks then m₀.lookup k else m.lookup k := by
  rw [lookup_putBack (f := fun k => m₀.lookup k) k _ _ (by simp [saveKeys]), saveKeys_fst]

theorem mem_saveEntries {m : FinMap κ α} {f : κ → Bool} {e : κ × Option α} :
    e ∈ saveEntries m f ↔ f e.1 = true ∧ e.2.isSome = true ∧ e.2 = m.lookup e.1 := by
  unfold saveEntries
  rw [List.mem_map]
  constructor
  · rintro ⟨⟨k, a⟩, he, rfl⟩
    rw [List.mem_filter] at he
    exact ⟨he.2, rfl, (FinMap.mem_entries.1 he.1).symm⟩
  · obtain ⟨k, o⟩ := e
    rintro ⟨hf, hsome, hlookup⟩
    cases o with
    | none => cases hsome
    | some a => exact ⟨⟨k, a⟩, List.mem_filter.2 ⟨FinMap.mem_entries.2 hlookup.symm, hf⟩, rfl⟩

/-- Entries that were absent are dropped again. -/
theorem lookup_putBackOnly (m₀ m : FinMap κ α) (f : κ → Bool) (k : κ) :
    (putBackOnly f m (saveEntries m₀ f)).lookup k = if f k = true then m₀.lookup k else m.lookup k := by
  have hmem : k ∈ (saveEntries m₀ f).map Prod.fst ↔ f k = true ∧ (m₀.lookup k).isSome = true := by
    rw [List.mem_map]
    constructor
    · rintro ⟨e, he, rfl⟩
      obtain ⟨hf, hsome, hlookup⟩ := mem_saveEntries.1 he
      exact ⟨hf, hlookup ▸ hsome⟩
    · rintro ⟨hf, hsome⟩
      exact ⟨(k, m₀.lookup k), mem_saveEntries.2 ⟨hf, hsome, rfl⟩, rfl⟩
  unfold putBackOnly
  rw [FinMap.lookup_retain, lookup_putBack (f := fun k => m₀.lookup k) k _ _ (fun e he => (mem_saveEntries.1 he).2.2)]
  by_cases hf : f k = true
  · rw [if_pos hf]
    cases hk : m₀.lookup k with
    | none =>
      have hnot : k ∉ (saveEntries m₀ f).map Prod.fst := by rw [hmem, hk]; simp
      rw [if_neg hnot]
      cases m.lookup k with
      | none => rfl
      | some a => exact Option.filter_some_neg (by simp only [hf, hnot]; rfl)
    | some a =>
      have hin : k ∈ (saveEntries m₀ f).map Prod.fst := by rw [hmem, hk]; exact ⟨hf, rfl⟩
      rw [if_pos hin]
      exact Option.filter_some_pos (by simp only [hin, decide_true, Bool.or_true])
  · have hnot : k ∉ (saveEntries m₀ f).map Prod.fst := by rw [hmem]; exact fun h => hf h.1
    rw [if_neg hf, if_neg hnot]
    cases m.lookup k with
    | none => rfl
    | some a => exact Option.filter_some_pos (by simp [hf])

end Saved

/-- What a transaction of a plain type can change, as far as it is not listed: the accounts and holdings of addresses
not in `addrs`, the parameters of assets not in `ids`, and applications, boxes and leases. -/
structure SameOutside (addrs : List Address) (ids : List Nat) (s s' : Store) : Prop where
  accounts : ∀ a ∉ addrs, s'.getAccount a = s.getAccount a
  holdings : ∀ a ∉ addrs, ∀ id, s'.getAssetHolding a id = s.getAssetHolding a id
  params : ∀ id ∉ ids, s'.getAssetParams id = s.getAssetParams id
  appParams : ∀ id, s'.getAppParams id = s.getAppParams id
  localStates : ∀ k : Address × Nat, k.1 ∉ addrs → s'.appLocalStates.lookup k = s.appLocalStates.lookup k
  boxes : ∀ k, s'.boxes.lookup k = s.boxes.lookup k
  leases : s'.tail.leases = s.tail.leases

/-- Every map of the state answers as before, and the leases are the same. -/
structure Restored (s s' : Store) : Prop where
  accounts : ∀ a, s'.accounts.lookup a = s.accounts.lookup a
  assetHoldings : ∀ k, s'.assetHoldings.lookup k = s.assetHoldings.lookup k
  assetParams : ∀ id, s'.assetParams.lookup id = s.assetParams.lookup id
  appParams : ∀ id, s'.appParams.lookup id = s.appParams.lookup id
  appLocalStates : ∀ k, s'.appLocalStates.lookup k = s.appLocalStates.lookup k
  boxes : ∀ k, s'.boxes.lookup k = s.boxes.lookup k
  leases : s'.tail.leases = s.tail.leases

namespace SameOutside

variable {addrs : List Address} {ids : List Nat} {s s₁ s₂ : Store}

theorem refl (s : Store) : SameOutside addrs ids s s :=
  ⟨fun _ _ => rfl, fun _ _ _ => rfl, fun _ _ => rfl, fun _ => rfl, fun _ _ => rfl, fun _ => rfl, rfl⟩

theorem trans (h : SameOutside addrs ids s s₁) (h' : SameOutside addrs ids s₁ s₂) : SameOutside addrs ids s s₂ where
  accounts a ha := (h'.accounts a ha).trans (h.accounts a ha)
  holdings a ha id := (h'.holdings a ha id).trans (h.holdings a ha id)
  params id hid := (h'.params id hid).trans (h.params id hid)
  appParams id := (h'.appParams id).trans (h.appParams id)
  localStates k hk := (h'.localStates k hk).trans (h.localStates k hk)
  boxes k := (h'.boxes k).trans (h.boxes k)
  leases := h'.leases.trans h.leases

theorem symm (h : SameOutside addrs ids s s₁) : SameOutside addrs ids s₁ s where
  accounts a ha := (h.accounts a ha).symm
  holdings a ha id := (h.holdings a ha id).symm
  params id hid := (h.params id hid).symm
  appParams id := (h.appParams id).symm
  localStates k hk := (h.localStates k hk).symm
  boxes k := (h.boxes k).symm
  leases := h.leases.symm

theorem setAccount {a : Address} (ha : a ∈ addrs) (d : AccountData) : SameOutside addrs ids s (s.setAccount a d) :=
  { refl s with
    accounts := fun b hb => by
      rw [Store.getAccount_setAccount, if_neg]
      exact fun h => hb (h ▸ ha) }

theorem setAssetHolding {a : Address} (ha : a ∈ addrs) (id : Nat) (d : AssetHolding) :
    SameOutside addrs ids s (s.setAssetHolding a id d) :=
  { refl s with
    holdings := fun b hb id' => by
      refine (FinMap.lookup_insert_eq s.assetHoldings (a, id) (b, id') d).trans (if_neg ?_)
      exact fun h => hb ((Prod.mk.inj h).1 ▸ ha) }

theorem removeAssetHolding {a : Address} (ha : a ∈ addrs) (id : Nat) :
    SameOutside addrs ids s (s.removeAssetHolding a id) :=
  { refl s with
    holdings := fun b hb id' => by
      refine (FinMap.lookup_erase_eq s.assetHoldings (a, id) (b, id')).trans (if_neg ?_)
      exact fun h => hb ((Prod.mk.inj h).1 ▸ ha) }

theorem setAssetParams {id : Nat} (hid : id ∈ ids) (r : AssetParamsRecord) :
    SameOutside addrs ids s (s.setAssetParams id r) :=
  { (refl s : SameOutside addrs ids s s) with
    params := fun id' hid' => by
      refine (FinMap.lookup_insert_eq s.assetParams id id' r).trans (if_neg ?_)
      exact fun h => hid' (h ▸ hid) }

theorem removeAssetParams {id : Nat} (hid : id ∈ ids) : SameOutside addrs ids s (s.removeAssetParams id) :=
  { (refl s : SameOutside addrs ids s s) with
    params := fun id' hid' => by
      refine (FinMap.lookup_erase_eq s.assetParams id id').trans (if_neg ?_)
      exact fun h => hid' (h ▸ hid) }

end SameOutside

section Restoring

variable (s s' : Store) (addrs : List Address) (assetIds appIds : List Nat)

theorem lookup_accounts_restoreSnapshot (a : Address) :
    (s'.restoreSnapshot (s.snapshotWithIds addrs assetIds appIds)).accounts.lookup a =
      if a ∈ addrs then s.accounts.lookup a else s'.accounts.lookup a :=
  lookup_putBack_saveKeys s.accounts s'.accounts addrs a

theorem lookup_assetHoldings_restoreSnapshot (k : Address × Nat) :
    (s'.restoreSnapshot (s.snapshotWithIds addrs assetIds appIds)).assetHoldings.lookup k =
      if k.1 ∈ addrs then s.assetHoldings.lookup k else s'.assetHoldings.lookup k := by
  show (putBackOnly (fun k => decide (k.1 ∈ (saveKeys s.accounts addrs).map Prod.fst)) s'.assetHoldings
    (saveEntries s.assetHoldings (fun k => decide (k.1 ∈ addrs)))).lookup k = _
  rw [saveKeys_fst, lookup_putBackOnly]
  simp

theorem lookup_appLocalStates_restoreSnapshot (k : Address × Nat) :
    (s'.restoreSnapshot (s.snapshotWithIds addrs assetIds appIds)).appLocalStates.lookup k =
      if k.1 ∈ addrs then s.appLocalStates.lookup k else s'.appLocalStates.lookup k := by
  show (putBackOnly (fun k => decide (k.1 ∈ (saveKeys s.accounts addrs).map Prod.fst)) s'.appLocalStates
    (saveEntries s.appLocalStates (fun k => decide (k.1 ∈ addrs)))).lookup k = _
  rw [saveKeys_fst, lookup_putBackOnly]
  simp

theorem lookup_assetParams_restoreSnapshot (id : Nat) :
    (s'.restoreSnapshot (s.snapshotWithIds addrs assetIds appIds)).assetParams.lookup id =
      if id ∈ assetIds then s.assetParams.lookup id else s'.assetParams.lookup id :=
  lookup_putBack_saveKeys s.assetParams s'.assetParams assetIds id

theorem lookup_appParams_restoreSnapshot (id : Nat) :
    (s'.restoreSnapshot (s.snapshotWithIds addrs assetIds appIds)).appParams.lookup id =
      if id ∈ appIds then s.appParams.lookup id else s'.appParams.lookup id :=
  lookup_putBack_saveKeys s.appParams s'.appParams appIds id

end Restoring

variable {addrs : List Address} {b : Address}

/-- **Putting a snapshot back restores the state exactly where nothing outside it was changed.** -/
theorem restored_restoreSnapshot {s s' : Store} {ids : List Nat} :
    Restored s (s'.restoreSnapshot (s.snapshotWithIds addrs ids [])) ↔ SameOutside addrs ids s s' := by
  have hacc := lookup_accounts_restoreSnapshot s s' addrs ids []
  have hhold := lookup_assetHoldings_restoreSnapshot s s' addrs ids []
  have hloc := lookup_appLocalStates_restoreSnapshot s s' addrs ids []
  have hpar := lookup_assetParams_restoreSnapshot s s' addrs ids []
  constructor
  · intro r
    refine ⟨fun a ha => ?_, fun a ha id => ?_, fun id hid => ?_, r.appParams, fun k hk => ?_, r.boxes, r.leases⟩
    · have := r.accounts a
      rw [hacc, if_neg ha] at this
      exact this
    · have := r.assetHoldings (a, id)
      rw [hhold, if_neg ha] at this
      exact this
    · have := r.assetParams id
      rw [hpar, if_neg hid] at this
      exact this
    · have := r.appLocalStates k
      rw [hloc, if_neg hk] at this
      exact this
  · intro o
    refine ⟨fun a => ?_, fun k => ?_, fun id => ?_, o.appParams, fun k => ?_, o.boxes, o.leases⟩
    · rw [hacc]
      split
      · rfl
      · exact o.accounts a ‹_›
    · rw [hhold]
      split
      · rfl
      · exact o.holdings k.1 ‹_› k.2
    · rw [hpar]
      split
      · rfl
      · exact o.params id ‹_›
    · rw [hloc]
      split
      · rfl
      · exact o.localStates k ‹_›

/-! ## The addresses of a snapshot -/

theorem mem_pushNew {a b : Address} : b ∈ pushNew addrs a ↔ b ∈ addrs ∨ b = a := by
  unfold pushNew
  split
  · rename_i h
    exact ⟨.inl, fun hb => hb.elim id (fun hba => hba ▸ h)⟩
  · rw [List.mem_append, List.mem_singleton]

theorem mem_pushSome {o : Option Address} :
    b ∈ pushSome addrs o ↔ b ∈ addrs ∨ (o = some b ∧ b ≠ Address.zero) := by
  cases o with
  | none => simp [pushSome]
  | some a =>
    unfold pushSome Address.isZero
    simp only [decide_eq_true_eq, Option.some.injEq]
    by_cases ha : a = Address.zero
    · rw [if_pos ha]
      exact ⟨.inl, fun h => h.elim id (fun h => absurd (h.1.symm.trans ha) h.2)⟩
    · rw [if_neg ha, mem_pushNew]
      constructor
      · rintro (h | rfl)
        · exact .inl h
        · exact .inr ⟨rfl, ha⟩
      · rintro (h | ⟨rfl, _⟩)
        · exact .inl h
        · exact .inr rfl

theorem mem_foldl_pushSome : ∀ {os : List (Option Address)} {addrs : List Address}, b ∈ addrs →
    b ∈ os.foldl pushSome addrs
  | [], _, h => h
  | o :: os, addrs, h => by
    rw [List.foldl_cons]
    exact mem_foldl_pushSome (mem_pushSome.2 (.inl h))

theorem mem_payNames {txn : Transaction}
    (hb : b = txn.sender ∨ (b ≠ Address.zero ∧ (b = txn.receiver ∨ b = txn.closeRemainderTo))) :
    b ∈ (let addrs := [txn.sender]
      let addrs := if !txn.receiver.isZero && txn.receiver != txn.sender then addrs ++ [txn.receiver] else addrs
      if !txn.closeRemainderTo.isZero && txn.closeRemainderTo != txn.sender &&
        txn.closeRemainderTo != txn.receiver then addrs ++ [txn.closeRemainderTo] else addrs) := by
  unfold Address.isZero
  rcases hb with rfl | ⟨hb, rfl | rfl⟩
  · simp only []
    split <;> split <;> simp
  · by_cases hs : txn.receiver = txn.sender
    · simp only []
      split <;> split <;> simp [hs]
    · simp only []
      split <;> split <;> simp_all
  · by_cases hs : txn.closeRemainderTo = txn.sender
    · simp only []
      split <;> split <;> simp [hs]
    · by_cases hr : txn.closeRemainderTo = txn.receiver
      · simp only []
        split <;> split <;> simp_all
      · simp only []
        split <;> split <;> simp_all

/-- The accounts a transaction names are in its list, the zero address only as the sender. -/
theorem mem_txnParticipants {txn : Transaction}
    (hb : b = txn.sender ∨ (b ≠ Address.zero ∧ (b = txn.receiver ∨ b = txn.closeRemainderTo ∨
      txn.assetReceiver = some b ∨ txn.assetSender = some b ∨ txn.assetCloseTo = some b ∨ txn.freezeAccount = some b))) :
    b ∈ txnParticipants txn := by
  unfold txnParticipants
  simp only [List.foldl_cons, List.foldl_nil, mem_pushSome]
  rcases hb with hb | ⟨hb, h | h | h | h | h | h⟩
  · exact .inl (.inl (.inl (.inl (mem_payNames (.inl hb)))))
  · exact .inl (.inl (.inl (.inl (mem_payNames (.inr ⟨hb, .inl h⟩)))))
  · exact .inl (.inl (.inl (.inl (mem_payNames (.inr ⟨hb, .inr h⟩)))))
  · exact .inl (.inl (.inl (.inr ⟨h, hb⟩)))
  · exact .inl (.inl (.inr ⟨h, hb⟩))
  · exact .inl (.inr ⟨h, hb⟩)
  · exact .inr ⟨h, hb⟩

section Addresses

variable {ctx : ApplyContext} {s : Store} {txn : Transaction}

theorem mem_snapshotAddrs_of_heartbeat {b : Address} (hb : b ∈ pushSome
    (((txn.accounts.getD []).map some).foldl pushSome (txnParticipants txn)) (txn.heartbeat.map HeartbeatTxnFields.address)) :
    b ∈ snapshotAddrs ctx s txn := by
  unfold snapshotAddrs
  simp only [mem_pushNew]
  refine .inl (.inl ?_)
  split
  · split
    · split
      · exact hb
      · exact mem_pushNew.2 (.inl hb)
    · exact hb
  · split
    · split
      · split
        · exact hb
        · exact mem_pushSome.2 (.inl (mem_pushNew.2 (.inl hb)))
      · exact hb
    · exact hb

theorem mem_snapshotAddrs_of_participant {b : Address} (hb : b ∈ txnParticipants txn) : b ∈ snapshotAddrs ctx s txn :=
  mem_snapshotAddrs_of_heartbeat (mem_pushSome.2 (.inl (mem_foldl_pushSome hb)))

theorem sender_mem_snapshotAddrs : txn.sender ∈ snapshotAddrs ctx s txn :=
  mem_snapshotAddrs_of_participant (mem_txnParticipants (.inl rfl))

theorem feeSink_mem_snapshotAddrs : ctx.feeSink ∈ snapshotAddrs ctx s txn := by
  unfold snapshotAddrs
  simp only [mem_pushNew]
  exact .inl (.inr trivial)

theorem creator_mem_snapshotAddrs (ht : txn.txnType.is "acfg" = true) (hid : txn.configAsset ≠ 0)
    {record : AssetParamsRecord} (hr : s.getAssetParams txn.configAsset = some record) :
    record.creator ∈ snapshotAddrs ctx s txn := by
  unfold snapshotAddrs
  simp only [mem_pushNew, if_pos ht, if_pos hid, hr]
  exact .inl (.inl (.inr trivial))

end Addresses

/-! ## Steps that stay within the snapshot -/

/-- Nothing outside the lists changes, and no id is used. -/
def Stays (addrs : List Address) (ids : List Nat) (st st' : Store × Cells) : Prop :=
  SameOutside addrs ids st.1 st'.1 ∧ st'.2.txnCounter = st.2.txnCounter

section Stays

variable {addrs : List Address} {ids : List Nat} {txn : Transaction} {consensus : ConsensusParams} {s s' : Store}
  {ctx : ApplyContext}

theorem Stays.refl (st : Store × Cells) : Stays addrs ids st st := ⟨.refl st.1, rfl⟩

theorem Stays.trans (st₁ st₂ st₃ : Store × Cells) (h : Stays addrs ids st₁ st₂) (h' : Stays addrs ids st₂ st₃) :
    Stays addrs ids st₁ st₃ :=
  ⟨h.1.trans h'.1, h'.2.trans h.2⟩

theorem confined_onStore {f : Store → Except ApplyError Store}
    (hf : ∀ s s', f s = .ok s' → SameOutside addrs ids s s') : Confined (Stays addrs ids) (onStore f) := by
  refine Confined.atomic Stays.refl fun st p h => ?_
  obtain ⟨s, hs, rfl⟩ := map_eq_ok.1 h
  exact ⟨hf _ _ hs, rfl⟩

theorem confined_onStoreWith {α : Type} {f : Store → Except ApplyError (Store × α)}
    (hf : ∀ s r, f s = .ok r → SameOutside addrs ids s r.1) : Confined (Stays addrs ids) (onStoreWith f) := by
  refine Confined.atomic Stays.refl fun st p h => ?_
  obtain ⟨r, hr, rfl⟩ := map_eq_ok.1 h
  exact ⟨hf _ _ hr, rfl⟩

theorem confined_check (f : Store → Except ApplyError Unit) : Confined (Stays addrs ids) (check f) := by
  refine Confined.atomic Stays.refl fun st p h => ?_
  obtain ⟨_, _, rfl⟩ := map_eq_ok.1 h
  exact Stays.refl st

theorem rewardsPassStep_stays {level : Nat} {st r : Store × RewardsPassOutcome} {addr : Address} (ha : addr ∈ addrs)
    (h : rewardsPassStep txn level consensus st addr = .ok r) : SameOutside addrs ids st.1 r.1 := by
  obtain ⟨w, _, h⟩ := bind_eq_ok.1 h
  cases h
  simp only
  split
  · exact .refl _
  · exact .setAccount ha _

theorem rewardsPass_confined (h : ∀ a ∈ rewardParticipants txn, a ∈ addrs) :
    Confined (Stays addrs ids) (rewardsPass ctx txn) :=
  Confined.foldlM Stays.refl Stays.trans _ _ fun _ ha _ =>
    confined_onStoreWith fun _ _ hr => rewardsPassStep_stays (h _ ha) hr

theorem applyRekey_stays (hs : txn.sender ∈ addrs) (s : Store) :
    SameOutside addrs ids s (applyRekey s txn) := by
  unfold applyRekey
  split
  · exact .refl s
  · exact .setAccount hs _

theorem takeFee_confined (hs : txn.sender ∈ addrs) (hsink : ctx.feeSink ∈ addrs) :
    Confined (Stays addrs ids) (takeFee ctx txn) := by
  refine Confined.atomic Stays.refl fun st p h => ?_
  obtain ⟨st', hst, rfl⟩ := map_eq_ok.1 h
  unfold applyFee at hst
  simp only at hst
  split at hst
  · cases hst
  · cases hst
    constructor
    · refine SameOutside.trans ?_ (.setAccount hsink _)
      split
      · exact .refl _
      · exact .setAccount hs _
    · simp only
      split <;> rfl

theorem credit_stays {addr : Address} {amount level : Nat} (ha : addr ∈ addrs)
    (h : credit s addr amount level = .ok s') : SameOutside addrs ids s s' := by
  obtain ⟨r, _, h⟩ := bind_eq_ok.1 h
  cases h
  exact .setAccount ha _

theorem payDebit_stays (hs : txn.sender ∈ addrs) (h : payDebit s txn = .ok s') :
    SameOutside addrs ids s s' := by
  unfold payDebit at h
  simp only at h
  split at h
  · cases h
  · cases h
    split
    · exact .setAccount hs _
    · exact .refl s

theorem payCloseBody_confined (hs : txn.sender ∈ addrs)
    (hc : txn.closeRemainderTo ≠ Address.zero → txn.closeRemainderTo ∈ addrs) :
    Confined (Stays addrs ids) (payCloseBody ctx txn) := by
  unfold payCloseBody
  by_cases hz : txn.closeRemainderTo.isZero = true
  · rw [if_pos hz]
    exact Confined.pure Stays.refl 0
  rw [if_neg hz]
  have hne : txn.closeRemainderTo ≠ Address.zero := fun h => hz (by rw [h]; rfl)
  refine Confined.bind Stays.trans (confined_onStoreWith fun s r hr => ?_) fun amount => ?_
  · obtain ⟨_, _, hr⟩ := bind_eq_ok.1 hr
    cases hr
    exact .setAccount hs _
  · refine Confined.bind Stays.trans ?_ fun _ => Confined.pure Stays.refl amount
    exact Confined.ite (confined_onStore fun _ _ h => credit_stays (hc hne) h) (Confined.pure Stays.refl ())

theorem axferOptIn_stays
    (hs : (axferSource txn).1 ∈ addrs) (h : axferOptIn s txn consensus = .ok s') : SameOutside addrs ids s s' := by
  unfold axferOptIn at h
  simp only at h
  split at h
  · split at h
    · cases h
    · split at h
      · cases h
      · cases h
        exact (SameOutside.setAssetHolding hs _ _).trans (.setAccount hs _)
  · cases h
    exact .refl s

theorem axferTake_stays (hs : (axferSource txn).1 ∈ addrs)
    (h : axferTake s txn = .ok s') : SameOutside addrs ids s s' := by
  unfold axferTake at h
  simp only at h
  split at h
  · cases h
  · split at h
    · cases h
    · split at h
      · cases h
      · cases h
        exact .setAssetHolding hs _ _

theorem axferCloseTo_stays {s : Store} {r : Store × Nat} {source closeTo : Address} {id : Nat}
    (hs : source ∈ addrs) (hc : closeTo ∈ addrs)
    (h : axferCloseTo s source closeTo id consensus = .ok r) : SameOutside addrs ids s r.1 := by
  unfold axferCloseTo at h
  simp only at h
  split at h
  · cases h
  · split at h
    · cases h
    · split at h
      · cases h
      · split at h
        · split at h
          · cases h
          · split at h
            · cases h
            · cases h
              exact ((SameOutside.setAssetHolding hc _ _).trans (.removeAssetHolding hs _)).trans (.setAccount hs _)
        · cases h
          exact (SameOutside.removeAssetHolding hs _).trans (.setAccount hs _)

theorem axferClose_stays {s : Store} {r : Store × Nat}
    (hs : (axferSource txn).1 ∈ addrs) (hc : ∀ a, txn.assetCloseTo = some a → a ≠ Address.zero → a ∈ addrs)
    (h : axferClose s txn consensus = .ok r) : SameOutside addrs ids s r.1 := by
  unfold axferClose at h
  split at h
  · cases h
    exact .refl s
  · rename_i closeTo hclose
    simp only at h
    split at h
    · cases h
    · obtain ⟨hsome, hz⟩ := Option.filter_eq_some_iff.1 hclose
      refine axferCloseTo_stays hs (hc closeTo hsome fun h0 => ?_) h
      rw [h0] at hz
      cases hz

theorem applyKeyreg_stays {round : Nat}
    (hs : txn.sender ∈ addrs) (h : applyKeyreg s txn round consensus = .ok s') : SameOutside addrs ids s s' := by
  obtain ⟨-, d, rfl, -⟩ := applyKeyreg_registers h
  exact .setAccount hs d

end Stays

/-! ## Writes outside the snapshot -/

/-- The write a transaction of this type ends its first half with goes to a record that is not saved, and changes it. -/
def WritesUnsaved (ctx : ApplyContext) (stx : SignedTransaction) (st : Store × Cells) : PlainType → Prop
  | .pay => Address.zero ∉ snapshotAddrs ctx st.1 stx.txn ∧ stx.txn.receiver = Address.zero ∧ stx.txn.amount > 0
  | .axfer =>
    Address.zero ∉ snapshotAddrs ctx st.1 stx.txn ∧ stx.txn.assetReceiver.getD Address.zero = Address.zero ∧
      stx.txn.assetAmount > 0
  | .afrz =>
    Address.zero ∉ snapshotAddrs ctx st.1 stx.txn ∧ stx.txn.freezeAccount = some Address.zero ∧
      ∀ holding, st.1.getAssetHolding Address.zero stx.txn.freezeAsset = some holding →
        holding.frozen ≠ stx.txn.assetFrozen
  | .hb =>
    Address.zero ∉ snapshotAddrs ctx st.1 stx.txn ∧
      stx.txn.heartbeat.map HeartbeatTxnFields.address = some Address.zero ∧
      ∀ account, st.1.getAccount Address.zero = some account → account.lastHeartbeat ≠ ctx.round
  | .acfg =>
    stx.txn.configAsset = 0 ∧ wrapAdd (acfgCounter ctx st.2 stx) 1 = 0 ∧
      st.1.getAssetParams 0 ≠ some ⟨stx.txn.assetParams.getD default, stx.txn.sender⟩
  | .keyreg => False

/-- The transaction reaches a write outside the snapshot: everything it checks before is in order. -/
def Strays (rulesOf : String → Option PayoutRules) (rules : PayoutRules) (ctx : ApplyContext) (stx : SignedTransaction)
    (st : Store × Cells) (t : PlainType) : Prop :=
  WritesUnsaved ctx stx st t ∧ ∃ r st₁, moves rulesOf rules ctx stx t st = .ok r st₁

namespace SameOutside

variable {addrs : List Address} {ids : List Nat} {s s₀ s₁ : Store}

theorem with_ids (h : SameOutside addrs [] s s₁) : SameOutside addrs ids s s₁ :=
  { h with params := fun id _ => h.params id List.not_mem_nil }

theorem iff_of_left (h : SameOutside addrs ids s s₀) : SameOutside addrs ids s s₁ ↔ SameOutside addrs ids s₀ s₁ :=
  ⟨h.symm.trans, h.trans⟩

/-- A write outside the lists keeps the rest where it writes what is there. -/
theorem setAccount_iff {a : Address} (ha : a ∉ addrs) {d : AccountData} :
    SameOutside addrs ids s (s.setAccount a d) ↔ s.getAccount a = some d := by
  constructor
  · intro h
    have := h.accounts a ha
    rw [Store.getAccount_setAccount, if_pos rfl] at this
    exact this.symm
  · intro h
    refine { refl s with accounts := fun b _ => ?_ }
    rw [Store.getAccount_setAccount]
    split
    · rename_i hb
      rw [hb, h]
    · rfl

theorem setAssetHolding_iff {a : Address} (ha : a ∉ addrs) {id : Nat} {d : AssetHolding} :
    SameOutside addrs ids s (s.setAssetHolding a id d) ↔ s.getAssetHolding a id = some d := by
  have hget : ∀ b id', (s.setAssetHolding a id d).getAssetHolding b id' =
      if (b, id') = (a, id) then some d else s.getAssetHolding b id' := fun b id' =>
    FinMap.lookup_insert_eq s.assetHoldings (a, id) (b, id') d
  constructor
  · intro h
    have := h.holdings a ha id
    rw [hget, if_pos rfl] at this
    exact this.symm
  · intro h
    refine { refl s with holdings := fun b _ id' => ?_ }
    rw [hget]
    split
    · rename_i hb
      obtain ⟨rfl, rfl⟩ := Prod.mk.inj hb
      exact h.symm
    · rfl

theorem setAssetParams_iff {id : Nat} (hid : id ∉ ids) {r : AssetParamsRecord} :
    SameOutside addrs ids s (s.setAssetParams id r) ↔ s.getAssetParams id = some r := by
  have hget : ∀ id', (s.setAssetParams id r).getAssetParams id' = if id' = id then some r else s.getAssetParams id' :=
    fun id' => FinMap.lookup_insert_eq s.assetParams id id' r
  constructor
  · intro h
    have := h.params id hid
    rw [hget, if_pos rfl] at this
    exact this.symm
  · intro h
    refine { (refl s : SameOutside addrs ids s s) with params := fun id' _ => ?_ }
    rw [hget]
    split
    · rename_i hi
      rw [hi, h]
    · rfl

end SameOutside

/-- Rewards add to a balance, and what they add is counted. -/
theorem withRewards_adds {account : AccountData} {level : Nat} {r : AccountData × Nat}
    (h : withRewards account level = .ok r) :
    r.1.microAlgos = account.microAlgos ∨ ∃ p, 0 < p ∧ account.microAlgos + p < u64Bound ∧
      r.1.microAlgos = account.microAlgos + p ∧ r.1.rewardedMicroAlgos = wrapAdd account.rewardedMicroAlgos p := by
  unfold withRewards at h
  split at h
  · cases h
  · rename_i r' hr
    cases h
    unfold applyRewards at hr
    split at hr
    · cases hr
      exact .inl rfl
    · split at hr
      · cases hr
        exact .inl rfl
      · obtain ⟨p, _, hr⟩ := Option.bind_eq_some_iff.1 hr
        split at hr
        · rename_i hp
          split at hr
          · rename_i hb
            cases hr
            exact .inr ⟨p, hp, hb, rfl, rfl⟩
          · cases hr
        · cases hr
          exact .inl rfl

/-- A credit of a positive amount changes the account. -/
theorem credit_changes {addrs : List Address} {ids : List Nat} {s s' : Store} {a : Address} {amount level : Nat}
    (ha : a ∉ addrs) (hpos : 0 < amount) (hlt : amount < u64Bound) (h : credit s a amount level = .ok s') :
    ¬ SameOutside addrs ids s s' := by
  obtain ⟨r, hr, h⟩ := bind_eq_ok.1 h
  cases h
  rw [SameOutside.setAccount_iff ha]
  intro hsome
  have hd : s.getOrDefaultAccount a = { r.1 with microAlgos := wrapAdd r.1.microAlgos amount } := by
    unfold Store.getOrDefaultAccount
    rw [hsome]
    rfl
  have hm : (s.getOrDefaultAccount a).microAlgos = wrapAdd r.1.microAlgos amount := by rw [hd]
  have hw : (s.getOrDefaultAccount a).rewardedMicroAlgos = r.1.rewardedMicroAlgos := by rw [hd]
  unfold wrapAdd u64Bound at *
  rcases withRewards_adds hr with hsame | ⟨p, hp, hb, hadd, hcount⟩
  · omega
  · unfold wrapAdd u64Bound at *
    omega

section Moves

variable {rulesOf : String → Option PayoutRules} {rules : PayoutRules} {ctx : ApplyContext} {stx : SignedTransaction}
  {addrs : List Address} {ids : List Nat}

/-- The addresses every transaction writes before its own function runs, and the source of an asset transfer. -/
structure Lists (ctx : ApplyContext) (txn : Transaction) (addrs : List Address) : Prop where
  sender : txn.sender ∈ addrs
  feeSink : ctx.feeSink ∈ addrs
  rewarded : ∀ a ∈ rewardParticipants txn, a ∈ addrs
  source : (axferSource txn).1 ∈ addrs

theorem mem_rewardParticipants {txn : Transaction} {a : Address} (h : a ∈ rewardParticipants txn) :
    a ∈ txnParticipants txn := by
  apply mem_txnParticipants
  unfold rewardParticipants Address.isZero at h
  simp only at h
  split at h
  · split at h <;> split at h <;> simp_all <;> grind
  · exact .inl (List.mem_singleton.1 h)

theorem axferSource_mem (txn : Transaction) : (axferSource txn).1 ∈ txnParticipants txn := by
  apply mem_txnParticipants
  unfold axferSource
  split
  · rename_i a ha
    obtain ⟨hsome, hz⟩ := Option.filter_eq_some_iff.1 ha
    refine .inr ⟨fun h0 => ?_, .inr (.inr (.inr (.inl hsome)))⟩
    rw [show a = Address.zero from h0] at hz
    cases hz
  · exact .inl rfl

theorem lists_snapshotAddrs (ctx : ApplyContext) (s : Store) (txn : Transaction) :
    Lists ctx txn (snapshotAddrs ctx s txn) where
  sender := sender_mem_snapshotAddrs
  feeSink := feeSink_mem_snapshotAddrs
  rewarded _ ha := mem_snapshotAddrs_of_participant (mem_rewardParticipants ha)
  source := mem_snapshotAddrs_of_participant (axferSource_mem txn)

variable (hl : Lists ctx stx.txn addrs)
include hl

theorem payTransferBody_breaks : Breaks (Stays addrs ids) (payTransferBody ctx stx.txn) := by
  refine Breaks.ite (Breaks.bind Stays.trans (confined_onStore fun _ _ h => payDebit_stays hl.sender h) fun _ => ?_)
    (.of_confined (Confined.pure Stays.refl ()))
  exact Breaks.ite (Breaks.atomic Stays.refl _) (.of_confined (Confined.pure Stays.refl ()))

theorem axferMoveBody_breaks : Breaks (Stays addrs ids) (axferMoveBody ctx stx.txn) := by
  refine Breaks.ite (fun s e s' h => ?_) (Breaks.bind Stays.trans (confined_check _) fun _ => ?_)
  · cases h
    exact Stays.refl s
  refine Breaks.bind Stays.trans (confined_onStore fun _ _ h => axferOptIn_stays hl.source h) fun _ => ?_
  refine Breaks.ite (Breaks.bind Stays.trans (confined_onStore fun _ _ h => axferTake_stays hl.source h) fun _ => ?_)
    (.of_confined (Confined.pure Stays.refl ()))
  exact Breaks.atomic Stays.refl _

theorem moveByType_breaks (ad : ApplyData) (t : PlainType) :
    Breaks (Stays addrs ids) (moveByType rulesOf rules ctx stx ad t) := by
  have hfee : Confined (Stays addrs ids) (takeFee ctx stx.txn) := takeFee_confined hl.sender hl.feeSink
  have hget : Confined (Stays addrs ids) (get : Body (Store × Cells)) := Stays.refl
  cases t with
  | pay =>
    refine Breaks.bind Stays.trans hget fun _ => Breaks.bind Stays.trans hfee fun _ => ?_
    exact (payTransferBody_breaks hl).bind_pure _
  | keyreg => exact Breaks.bind Stays.trans hfee fun _ => (Breaks.atomic Stays.refl _).bind_pure _
  | acfg =>
    refine Breaks.bind Stays.trans hfee fun _ => Breaks.bind Stays.trans hget fun _ => ?_
    exact (Breaks.atomic Stays.refl _).bind_pure _
  | axfer => exact Breaks.bind Stays.trans hfee fun _ => (axferMoveBody_breaks hl).bind_pure _
  | afrz => exact Breaks.bind Stays.trans hfee fun _ => (Breaks.atomic Stays.refl _).bind_pure _
  | hb =>
    refine Breaks.ite (fun s e s' h => ?_) (Breaks.bind Stays.trans hfee fun _ => ?_)
    · cases h
      exact Stays.refl s
    · exact (Breaks.atomic Stays.refl _).bind_pure _

/-- **A transaction that fails in its first half has changed nothing that is not saved.** -/
theorem moves_breaks (t : PlainType) : Breaks (Stays addrs ids) (moves rulesOf rules ctx stx t) := by
  refine Breaks.bind Stays.trans (rewardsPass_confined hl.rewarded) fun _ => ?_
  refine Breaks.bind Stays.trans (confined_onStore fun s s' h => ?_) fun _ => moveByType_breaks hl _ t
  cases h
  exact applyRekey_stays hl.sender s

/-- The state in which the function of the type runs is, outside the snapshot, the state before the transaction. -/
theorem moves_ok {t : PlainType} {st st₁ : Store × Cells} {r : ApplyData × Option AccountData}
    (h : moves rulesOf rules ctx stx t st = .ok r st₁) :
    ∃ ad st₀, Stays addrs [] st st₀ ∧ moveByType rulesOf rules ctx stx ad t st₀ = .ok r st₁ := by
  obtain ⟨pass, sa, ha, h⟩ := state_bind_eq_ok.1 h
  obtain ⟨_, sb, hb, h⟩ := state_bind_eq_ok.1 h
  have hpass : Stays addrs [] st sa := (rewardsPass_confined hl.rewarded).ok ha
  have hrekey : Confined (Stays addrs []) (onStore (fun s => .ok (applyRekey s stx.txn))) :=
    confined_onStore fun s s' h => by
      cases h
      exact applyRekey_stays hl.sender s
  exact ⟨_, sb, hpass.trans _ _ _ (hrekey.ok hb), h⟩

theorem takeFee_ok {st st₁ : Store × Cells} (h : takeFee ctx stx.txn st = .ok () st₁) : Stays addrs [] st st₁ :=
  (takeFee_confined hl.sender hl.feeSink).ok h

end Moves

theorem onStore_eq_ok {f : Store → Except ApplyError Store} {st st' : Store × Cells} {u : Unit}
    (h : onStore f st = .ok u st') : f st.1 = .ok st'.1 ∧ st'.2 = st.2 := by
  unfold onStore at h
  rw [atomic_eq_ok, map_eq_ok] at h
  obtain ⟨s, hs, hp⟩ := h
  cases hp
  exact ⟨hs, rfl⟩

theorem onStoreWith_eq_ok {α : Type} {f : Store → Except ApplyError (Store × α)} {st st' : Store × Cells} {a : α}
    (h : onStoreWith f st = .ok a st') : f st.1 = .ok (st'.1, a) ∧ st'.2 = st.2 := by
  unfold onStoreWith at h
  rw [atomic_eq_ok, map_eq_ok] at h
  obtain ⟨r, hr, hp⟩ := h
  cases hp
  exact ⟨hr, rfl⟩

section Unsaved

variable {ctx : ApplyContext} {stx : SignedTransaction} {addrs : List Address} {ids : List Nat}
  {st₀ st₁ : Store × Cells} {s s' : Store}

/-- The receiver is in the list or it is the zero address. -/
theorem payTransferBody_ok (hl : Lists ctx stx.txn addrs) (hlt : stx.txn.amount < u64Bound)
    (hmem : stx.txn.receiver ≠ Address.zero → stx.txn.receiver ∈ addrs)
    (h : payTransferBody ctx stx.txn st₀ = .ok () st₁) :
    SameOutside addrs ids st₀.1 st₁.1 ↔
      ¬ (Address.zero ∉ addrs ∧ stx.txn.receiver = Address.zero ∧ stx.txn.amount > 0) := by
  unfold payTransferBody at h
  by_cases hpos : stx.txn.amount > 0
  · rw [if_pos (by simp [hpos])] at h
    obtain ⟨_, sd, hd, h⟩ := state_bind_eq_ok.1 h
    have hdebit : SameOutside addrs ids st₀.1 sd.1 := payDebit_stays hl.sender (onStore_eq_ok hd).1
    unfold creditIf at h
    rw [if_pos hpos] at h
    obtain ⟨hc, _⟩ := onStore_eq_ok h
    rw [hdebit.iff_of_left]
    by_cases hin : stx.txn.receiver ∈ addrs
    · exact iff_of_true (credit_stays hin hc) fun hu => hu.1 (hu.2.1 ▸ hin)
    · have hz : stx.txn.receiver = Address.zero := by
        by_contra hne
        exact hin (hmem hne)
      exact iff_of_false (credit_changes hin hpos hlt hc) (not_not.2 ⟨hz ▸ hin, hz, hpos⟩)
  · refine iff_of_true ?_ fun hu => hpos hu.2.2
    split at h
    · obtain ⟨_, sd, hd, h⟩ := state_bind_eq_ok.1 h
      unfold creditIf at h
      rw [if_neg hpos] at h
      cases h
      exact payDebit_stays hl.sender (onStore_eq_ok hd).1
    · cases h
      exact .refl _

theorem axferPut_ok (hpos : stx.txn.assetAmount > 0) (hlt : stx.txn.assetAmount < u64Bound)
    (hmem : ∀ a, stx.txn.assetReceiver = some a → a ≠ Address.zero → a ∈ addrs) (h : axferPut s stx.txn = .ok s') :
    SameOutside addrs ids s s' ↔
      ¬ (Address.zero ∉ addrs ∧ stx.txn.assetReceiver.getD Address.zero = Address.zero ∧ stx.txn.assetAmount > 0) := by
  have hreceiver : stx.txn.assetReceiver.getD Address.zero ∈ addrs ∨
      stx.txn.assetReceiver.getD Address.zero = Address.zero := by
    cases hr : stx.txn.assetReceiver with
    | none => exact .inr rfl
    | some a =>
      by_cases ha : a = Address.zero
      · exact .inr ha
      · exact .inl (hmem a hr ha)
  unfold axferPut at h
  simp only at h
  generalize stx.txn.assetReceiver.getD Address.zero = receiver at h hreceiver ⊢
  split at h
  · cases h
  · rename_i got hgot
    split at h
    · cases h
    cases h
    by_cases hin : receiver ∈ addrs
    · exact iff_of_true (.setAssetHolding hin _ _) fun hu => hu.1 (hu.2.1 ▸ hin)
    · have hz : receiver = Address.zero := hreceiver.resolve_left hin
      rw [SameOutside.setAssetHolding_iff hin, hgot]
      refine iff_of_false (fun heq => ?_) (not_not.2 ⟨hz ▸ hin, hz, hpos⟩)
      have hamount : got.amount = wrapAdd got.amount stx.txn.assetAmount :=
        congrArg AssetHolding.amount (Option.some.inj heq)
      unfold wrapAdd u64Bound at *
      omega

theorem axferMoveBody_ok (hl : Lists ctx stx.txn addrs) (hlt : stx.txn.assetAmount < u64Bound)
    (hmem : ∀ a, stx.txn.assetReceiver = some a → a ≠ Address.zero → a ∈ addrs)
    (h : axferMoveBody ctx stx.txn st₀ = .ok () st₁) :
    SameOutside addrs ids st₀.1 st₁.1 ↔
      ¬ (Address.zero ∉ addrs ∧ stx.txn.assetReceiver.getD Address.zero = Address.zero ∧ stx.txn.assetAmount > 0) := by
  unfold axferMoveBody at h
  split at h
  · cases h
  obtain ⟨_, sc, hc, h⟩ := state_bind_eq_ok.1 h
  obtain ⟨_, so, ho, h⟩ := state_bind_eq_ok.1 h
  have hcheck : SameOutside addrs ids st₀.1 sc.1 := ((confined_check _).ok hc).1
  have hoptIn : SameOutside addrs ids sc.1 so.1 := axferOptIn_stays hl.source (onStore_eq_ok ho).1
  rw [(hcheck.trans hoptIn).iff_of_left]
  unfold axferTransferBody at h
  by_cases hpos : stx.txn.assetAmount > 0
  · rw [if_pos hpos] at h
    obtain ⟨_, sk, hk, h⟩ := state_bind_eq_ok.1 h
    have htake : SameOutside addrs ids so.1 sk.1 := axferTake_stays hl.source (onStore_eq_ok hk).1
    rw [htake.iff_of_left]
    exact axferPut_ok hpos hlt hmem (onStore_eq_ok h).1
  · rw [if_neg hpos] at h
    cases h
    exact iff_of_true (.refl _) fun hu => hpos hu.2.2

theorem applyAfrz_ok (hmem : ∀ a, stx.txn.freezeAccount = some a → a ≠ Address.zero → a ∈ addrs)
    (h : applyAfrz s stx.txn = .ok s') :
    SameOutside addrs ids s s' ↔
      ¬ (Address.zero ∉ addrs ∧ stx.txn.freezeAccount = some Address.zero ∧
        ∀ holding, s.getAssetHolding Address.zero stx.txn.freezeAsset = some holding →
          holding.frozen ≠ stx.txn.assetFrozen) := by
  unfold applyAfrz at h
  simp only at h
  split at h
  · cases h
  split at h
  · cases h
  split at h
  · cases h
  split at h
  · cases h
  rename_i target htarget
  split at h
  · cases h
  rename_i holding hholding
  cases h
  by_cases hin : target ∈ addrs
  · refine iff_of_true (.setAssetHolding hin _ _) fun hu => hu.1 ?_
    rw [htarget] at hu
    exact Option.some.inj hu.2.1 ▸ hin
  · have hz : target = Address.zero := by
      by_contra hne
      exact hin (hmem target htarget hne)
    subst hz
    rw [SameOutside.setAssetHolding_iff hin, hholding]
    constructor
    · intro heq hu
      exact hu.2.2 holding rfl (congrArg AssetHolding.frozen (Option.some.inj heq))
    · intro hu
      by_contra hne
      refine hu ⟨hin, htarget, fun holding' h' hf => hne ?_⟩
      cases h'
      rw [← hf]

theorem applyHeartbeat_ok {rulesOf : String → Option PayoutRules} {rules : PayoutRules}
    {consensus : ConsensusParams} {round : Round}
    (hmem : ∀ hb, stx.txn.heartbeat = some hb → hb.address ≠ Address.zero → hb.address ∈ addrs)
    (h : applyHeartbeat rulesOf rules s stx.txn round consensus = .ok s') :
    SameOutside addrs ids s s' ↔
      ¬ (Address.zero ∉ addrs ∧ stx.txn.heartbeat.map HeartbeatTxnFields.address = some Address.zero ∧
        ∀ account, s.getAccount Address.zero = some account → account.lastHeartbeat ≠ round) := by
  unfold applyHeartbeat at h
  split at h
  · cases h
  rename_i hb hhb
  split at h
  · cases h
  rename_i account haccount
  obtain ⟨_, _, h⟩ := bind_eq_ok.1 h
  obtain ⟨_, _, h⟩ := bind_eq_ok.1 h
  cases h
  have hdefault : s.getOrDefaultAccount hb.address = account := by
    unfold Store.getOrDefaultAccount
    rw [haccount]
    rfl
  simp only [hdefault, hhb, Option.map_some]
  by_cases hin : hb.address ∈ addrs
  · refine iff_of_true (.setAccount hin _) fun hu => hu.1 ?_
    exact Option.some.inj hu.2.1 ▸ hin
  · have hz : hb.address = Address.zero := by
      by_contra hne
      exact hin (hmem hb hhb hne)
    rw [SameOutside.setAccount_iff hin, haccount]
    rw [hz] at hin haccount
    constructor
    · intro heq hu
      exact hu.2.2 account haccount (congrArg AccountData.lastHeartbeat (Option.some.inj heq))
    · intro hu
      by_contra hne
      refine hu ⟨hin, congrArg some hz, fun account' h' hl => hne ?_⟩
      rw [haccount] at h'
      cases h'
      rw [← hl]

theorem mem_snapshotAssetIds_acfg {c : Cells} {id : Nat} : id ∈ snapshotAssetIds c stx .acfg ↔
    (id = stx.txn.configAsset ∧ stx.txn.configAsset ≠ 0) ∨
      (stx.txn.configAsset = 0 ∧ id = wrapAdd c.txnCounter 1 ∧ wrapAdd c.txnCounter 1 ≠ 0) ∨
      (id = stx.applyDataConfigAsset ∧ stx.applyDataConfigAsset ≠ 0) := by
  unfold snapshotAssetIds
  simp only
  generalize wrapAdd c.txnCounter 1 = w
  generalize stx.txn.configAsset = n
  generalize stx.applyDataConfigAsset = d
  by_cases hn : n = 0 <;> by_cases hw : w = 0 <;> grind

/-- The id of a created asset is in the list or it has wrapped around to zero. -/
theorem created_mem_snapshotAssetIds {c : Cells} (h0 : stx.txn.configAsset = 0)
    (hlt : stx.applyDataConfigAsset < u64Bound) (hne : wrapAdd (acfgCounter ctx c stx) 1 ≠ 0) :
    wrapAdd (acfgCounter ctx c stx) 1 ∈ snapshotAssetIds c stx .acfg := by
  have hcases : wrapAdd (acfgCounter ctx c stx) 1 = wrapAdd c.txnCounter 1 ∨
      (stx.applyDataConfigAsset ≠ 0 ∧ wrapAdd (acfgCounter ctx c stx) 1 = stx.applyDataConfigAsset) := by
    unfold acfgCounter
    split
    · rename_i hr
      refine .inr ⟨hr.2.2, ?_⟩
      have := hr.2.2
      unfold wrapAdd u64Bound at *
      omega
    · exact .inl rfl
  rw [mem_snapshotAssetIds_acfg]
  rcases hcases with hc | ⟨hd, hc⟩
  · rw [hc] at hne ⊢
    exact .inr (.inl ⟨h0, rfl, hne⟩)
  · rw [hc]
    exact .inr (.inr ⟨rfl, hd⟩)

/-- A creation writes the parameters of the new asset, and nothing else that is not its sender's. -/
theorem acfgCreate_ok {s : Store} {r : Store × Nat} {counter : Nat} {consensus : ConsensusParams}
    (hs : stx.txn.sender ∈ addrs) (h : acfgCreate s stx.txn counter consensus = .ok r) :
    SameOutside addrs ids
      (s.setAssetParams (wrapAdd counter 1) ⟨stx.txn.assetParams.getD default, stx.txn.sender⟩) r.1 := by
  unfold acfgCreate at h
  simp only at h
  split at h
  · cases h
  · cases h
    exact (SameOutside.setAssetHolding hs _ _).trans (.setAccount hs _)

theorem acfgDestroy_stays {existing : AssetParamsRecord} {id : Nat} (hc : existing.creator ∈ addrs)
    (hid : id ∈ ids) (h : acfgDestroy s existing id = .ok s') : SameOutside addrs ids s s' := by
  unfold acfgDestroy at h
  split at h
  · cases h
  · simp only at h
    split at h
    · cases h
    · cases h
      exact ((SameOutside.removeAssetParams hid).trans (.removeAssetHolding hc _)).trans (.setAccount hc _)

theorem applyAcfg_ok {s : Store} {r : Store × Nat} {c : Cells} (hlt : stx.applyDataConfigAsset < u64Bound)
    (hs : stx.txn.sender ∈ addrs)
    (hcreator : stx.txn.configAsset ≠ 0 → ∀ record, s.getAssetParams stx.txn.configAsset = some record →
      record.creator ∈ addrs)
    (h : applyAcfg s stx.txn (acfgCounter ctx c stx) ctx.consensus = .ok r) :
    SameOutside addrs (snapshotAssetIds c stx .acfg) s r.1 ↔
      ¬ (stx.txn.configAsset = 0 ∧ wrapAdd (acfgCounter ctx c stx) 1 = 0 ∧
        s.getAssetParams 0 ≠ some ⟨stx.txn.assetParams.getD default, stx.txn.sender⟩) := by
  unfold applyAcfg at h
  by_cases h0 : stx.txn.configAsset = 0
  · rw [if_pos h0] at h
    have hrest : SameOutside addrs (snapshotAssetIds c stx .acfg) _ r.1 := acfgCreate_ok hs h
    by_cases hz : wrapAdd (acfgCounter ctx c stx) 1 = 0
    · have hnot : 0 ∉ snapshotAssetIds c stx .acfg := by
        rw [mem_snapshotAssetIds_acfg]
        rintro (⟨h, hne⟩ | ⟨_, h, hne⟩ | ⟨h, hne⟩) <;> exact hne h.symm
      rw [hz] at hrest
      have hiff : SameOutside addrs (snapshotAssetIds c stx .acfg) s
          (s.setAssetParams 0 ⟨stx.txn.assetParams.getD default, stx.txn.sender⟩) ↔ _ :=
        SameOutside.setAssetParams_iff hnot
      constructor
      · intro hsame hu
        exact hu.2.2 (hiff.1 (hsame.trans hrest.symm))
      · intro hu
        refine (hiff.2 ?_).trans hrest
        by_contra hne
        exact hu ⟨h0, hz, hne⟩
    · refine iff_of_true ?_ fun hu => hz hu.2.1
      exact (SameOutside.setAssetParams (created_mem_snapshotAssetIds h0 hlt hz) _).trans hrest
  · refine iff_of_true ?_ fun hu => h0 hu.1
    have hid : stx.txn.configAsset ∈ snapshotAssetIds c stx .acfg := mem_snapshotAssetIds_acfg.2 (.inl ⟨rfl, h0⟩)
    rw [if_neg h0] at h
    simp only at h
    split at h
    · cases h
    rename_i existing hexisting
    split at h
    · cases h
    split at h
    · obtain ⟨s₁, hs₁, h⟩ := bind_eq_ok.1 h
      cases h
      exact acfgDestroy_stays (hcreator h0 existing hexisting) hid hs₁
    · cases h
      exact .setAssetParams hid _

end Unsaved

/-! ## Failed transactions -/

/-- The amounts and the recorded id are unsigned 64-bit integers. -/
structure InRange (stx : SignedTransaction) : Prop where
  amount : stx.txn.amount < u64Bound
  assetAmount : stx.txn.assetAmount < u64Bound
  configAsset : stx.applyDataConfigAsset < u64Bound

section Failed

variable {rulesOf : String → Option PayoutRules} {rules : PayoutRules} {ctx : ApplyContext} {stx : SignedTransaction}
  {t : PlainType} {st st' st₁ : Store × Cells}

theorem participant_mem {b : Address} (hb : b ≠ Address.zero) (h : b = stx.txn.receiver ∨ b = stx.txn.closeRemainderTo ∨
    stx.txn.assetReceiver = some b ∨ stx.txn.assetSender = some b ∨ stx.txn.assetCloseTo = some b ∨
    stx.txn.freezeAccount = some b) : b ∈ snapshotAddrs ctx st.1 stx.txn :=
  mem_snapshotAddrs_of_participant (mem_txnParticipants (.inr ⟨hb, h⟩))

/-- **The first half of a transaction stays within the snapshot unless it writes what is not saved.** -/
theorem moves_same_iff (ht : stx.txn.txnType.is t.asStr = true) (hrange : InRange stx)
    {r : ApplyData × Option AccountData} (h : moves rulesOf rules ctx stx t st = .ok r st₁) :
    SameOutside (snapshotAddrs ctx st.1 stx.txn) (snapshotAssetIds st.2 stx t) st.1 st₁.1 ↔
      ¬ WritesUnsaved ctx stx st t := by
  have hl := lists_snapshotAddrs ctx st.1 stx.txn
  obtain ⟨ad, st₀, h₀, h⟩ := moves_ok hl h
  cases t with
  | pay =>
    obtain ⟨_, sg, hg, h⟩ := state_bind_eq_ok.1 h
    cases hg
    obtain ⟨_, sf, hf, h⟩ := state_bind_eq_ok.1 h
    obtain ⟨_, sp, hp, h⟩ := state_bind_eq_ok.1 h
    cases h
    have hpre := h₀.trans _ _ _ (takeFee_ok hl hf)
    rw [hpre.1.with_ids.iff_of_left]
    exact payTransferBody_ok hl hrange.amount (fun hne => participant_mem hne (.inl rfl)) hp
  | keyreg =>
    obtain ⟨_, sf, hf, h⟩ := state_bind_eq_ok.1 h
    obtain ⟨_, sk, hk, h⟩ := state_bind_eq_ok.1 h
    cases h
    have hpre := h₀.trans _ _ _ (takeFee_ok hl hf)
    rw [hpre.1.with_ids.iff_of_left]
    exact iff_of_true (applyKeyreg_stays hl.sender (onStore_eq_ok hk).1) id
  | acfg =>
    obtain ⟨_, sf, hf, h⟩ := state_bind_eq_ok.1 h
    obtain ⟨_, sg, hg, h⟩ := state_bind_eq_ok.1 h
    cases hg
    obtain ⟨id, sa, ha, h⟩ := state_bind_eq_ok.1 h
    cases h
    have hpre := h₀.trans _ _ _ (takeFee_ok hl hf)
    have hparams : ∀ id, sf.1.getAssetParams id = st.1.getAssetParams id := fun id =>
      hpre.1.params id List.not_mem_nil
    have hcounter : acfgCounter ctx sf.2 stx = acfgCounter ctx st.2 stx := by
      unfold acfgCounter
      rw [hpre.2]
    have ha' := (onStoreWith_eq_ok ha).1
    rw [hcounter] at ha'
    rw [hpre.1.with_ids.iff_of_left]
    refine (applyAcfg_ok hrange.configAsset hl.sender (fun h0 record hr => ?_) ha').trans ?_
    · rw [hparams] at hr
      exact creator_mem_snapshotAddrs ht h0 hr
    · rw [hparams]
      exact Iff.rfl
  | axfer =>
    obtain ⟨_, sf, hf, h⟩ := state_bind_eq_ok.1 h
    obtain ⟨_, sx, hx, h⟩ := state_bind_eq_ok.1 h
    cases h
    have hpre := h₀.trans _ _ _ (takeFee_ok hl hf)
    rw [hpre.1.with_ids.iff_of_left]
    exact axferMoveBody_ok hl hrange.assetAmount (fun a ha hne => participant_mem hne (.inr (.inr (.inl ha)))) hx
  | afrz =>
    obtain ⟨_, sf, hf, h⟩ := state_bind_eq_ok.1 h
    obtain ⟨_, sz, hz, h⟩ := state_bind_eq_ok.1 h
    cases h
    have hpre := h₀.trans _ _ _ (takeFee_ok hl hf)
    rw [hpre.1.with_ids.iff_of_left, applyAfrz_ok (fun a ha hne => participant_mem hne
      (.inr (.inr (.inr (.inr (.inr ha)))))) (onStore_eq_ok hz).1]
    refine not_congr (and_congr_right fun hzero => ?_)
    rw [hpre.1.holdings _ hzero]
  | hb =>
    simp only [moveByType] at h
    split at h
    · cases h
    obtain ⟨_, sf, hf, h⟩ := state_bind_eq_ok.1 h
    obtain ⟨_, sh, hh, h⟩ := state_bind_eq_ok.1 h
    cases h
    have hpre := h₀.trans _ _ _ (takeFee_ok hl hf)
    rw [hpre.1.with_ids.iff_of_left, applyHeartbeat_ok (fun hb hhb hne => ?_) (onStore_eq_ok hh).1]
    · refine not_congr (and_congr_right fun hzero => ?_)
      rw [hpre.1.accounts _ hzero]
    · refine mem_snapshotAddrs_of_heartbeat (mem_pushSome.2 (.inr ⟨?_, hne⟩))
      rw [hhb]
      rfl

theorem closeByType_confined {addrs : List Address} {ids : List Nat} (hl : Lists ctx stx.txn addrs)
    (hc : stx.txn.closeRemainderTo ≠ Address.zero → stx.txn.closeRemainderTo ∈ addrs)
    (hac : ∀ a, stx.txn.assetCloseTo = some a → a ≠ Address.zero → a ∈ addrs) (r : ApplyData × Option AccountData) :
    Confined (Stays addrs ids) (closeByType ctx stx.txn r t) := by
  cases t with
  | pay =>
    refine Confined.bind Stays.trans (payCloseBody_confined hl.sender hc) fun _ => ?_
    exact Confined.bind Stays.trans (confined_check _) fun _ => Confined.pure Stays.refl _
  | axfer =>
    refine Confined.bind Stays.trans (confined_onStoreWith fun _ _ h => ?_) fun _ => Confined.pure Stays.refl _
    exact axferClose_stays hl.source hac h
  | keyreg => exact Confined.pure Stays.refl _
  | acfg => exact Confined.pure Stays.refl _
  | afrz => exact Confined.pure Stays.refl _
  | hb => exact Confined.pure Stays.refl _

/-- What the body of a failed transaction left behind stays within the snapshot unless it strayed. -/
theorem body_same_iff (ext : Externals) (depth : Nat) (ht : stx.txn.txnType.is t.asStr = true)
    (hdelta : stx.evalDelta = none) (hrange : InRange stx) {e : ApplyError}
    (h : applyTransactionInnerBody rulesOf rules ext ctx depth stx t (snapshotAddrs ctx st.1 stx.txn) st = .error e st') :
    SameOutside (snapshotAddrs ctx st.1 stx.txn) (snapshotAssetIds st.2 stx t) st.1 st'.1 ↔
      ¬ Strays rulesOf rules ctx stx st t := by
  have hl := lists_snapshotAddrs ctx st.1 stx.txn
  rcases state_bind_eq_error.1 h with hm | ⟨r, st₁, hm, h⟩
  · -- the failure came first: no write outside the snapshot was reached
    refine iff_of_true (moves_breaks hl t _ _ _ hm).1 fun hs => ?_
    obtain ⟨_, r, st₁, hok⟩ := hs
    rw [hm] at hok
    cases hok
  have hclose : Confined (Stays (snapshotAddrs ctx st.1 stx.txn) (snapshotAssetIds st.2 stx t))
      (closeByType ctx stx.txn r t) :=
    closeByType_confined hl (fun hne => participant_mem hne (.inr (.inl rfl)))
      (fun a ha hne => participant_mem hne (.inr (.inr (.inr (.inr (.inl ha)))))) r
  have hrest : SameOutside (snapshotAddrs ctx st.1 stx.txn) (snapshotAssetIds st.2 stx t) st₁.1 st'.1 := by
    rcases state_bind_eq_error.1 h with hc | ⟨ad, st₂, hc, h⟩
    · exact (hclose.error hc).1
    have hdone : Breaks (Stays (snapshotAddrs ctx st.1 stx.txn) (snapshotAssetIds st.2 stx t))
        (atomic (fun st => (applyRecordedDelta ext ctx depth stx st).map (fun st => (st, ()))) >>= fun _ =>
          finish ext ctx depth stx.txn (snapshotAddrs ctx st.1 stx.txn)
            (if ctx.mode = .replay then { ad with evalDelta := stx.evalDelta } else ad)) := by
      refine Breaks.bind Stays.trans (Confined.atomic Stays.refl fun s p hp => ?_) fun _ => Breaks.atomic Stays.refl _
      obtain ⟨s', hs', rfl⟩ := map_eq_ok.1 hp
      unfold applyRecordedDelta at hs'
      rw [hdelta] at hs'
      split at hs' <;> cases hs' <;> exact Stays.refl s
    exact ((hclose.ok hc).trans _ _ _ (hdone _ _ _ h)).1
  have hmoves := moves_same_iff ht hrange hm
  constructor
  · intro hsame hs
    exact hmoves.1 (hsame.trans hrest.symm) hs.1
  · intro hs
    refine (hmoves.2 fun hw => hs ⟨hw, r, st₁, hm⟩).trans hrest

theorem takeSnapshot_eq : takeSnapshot ctx st stx t =
    st.1.snapshotWithIds (snapshotAddrs ctx st.1 stx.txn) (snapshotAssetIds st.2 stx t) [] := by
  unfold takeSnapshot
  simp only
  split
  · rename_i h
    rw [h]
    rfl
  · rfl

/-- **A failed transaction leaves no trace exactly where it did not reach a write outside the snapshot.** -/
theorem restored_iff_not_strays (ext : Externals) (depth : Nat) (ht : stx.txn.txnType.is t.asStr = true)
    (hdelta : stx.evalDelta = none) (hrange : InRange stx) {e : ApplyError}
    (h : applyTransactionInner rulesOf rules ext ctx depth stx t st = .error e st') :
    Restored st.1 st'.1 ↔ ¬ Strays rulesOf rules ctx stx st t := by
  unfold applyTransactionInner at h
  split at h
  · cases h
  · rename_i e' sb hb
    cases h
    rw [takeSnapshot_eq, restored_restoreSnapshot]
    exact body_same_iff ext depth ht hdelta hrange hb

end Failed

/-- An account pays to the zero address and keeps less than its minimum balance. -/
def burnTxn : SignedTransaction :=
  { (default : SignedTransaction) with
    txn := { (default : Transaction) with txnType := .pay, sender := ⟨1⟩, fee := 1000, amount := 100000 } }

def burnStore : Store :=
  { (default : Store) with
    accounts := (∅ : FinMap Address AccountData).insert ⟨1⟩ { (default : AccountData) with microAlgos := 150000 }
    feeSink := ⟨2⟩
    rewardsPool := ⟨3⟩ }

def burnContext : ApplyContext := ⟨0, ⟨2⟩, 1, .execute, false, false, default⟩

def burn : EStateM.Result ApplyError (Store × Cells) ApplyData :=
  applyTransactionInner (fun _ => none) default noExternals burnContext 0 burnTxn .pay (burnStore, default)

theorem burn_inRange : InRange burnTxn := ⟨by decide, by decide, by decide⟩

/-- The payment fails its last check and the credit of the zero address stays. -/
theorem burn_fails : ∃ e st', burn = .error e st' ∧
    (st'.1.getAccount Address.zero).any (fun a => a.microAlgos == 100000) = true :=
  error_of_errorAnd (by decide)

theorem failed_transaction_leaves_credit : ¬ ∀ (rulesOf : String → Option PayoutRules) (rules : PayoutRules)
    (ext : Externals) (ctx : ApplyContext) (depth : Nat) (stx : SignedTransaction) (t : PlainType)
    (st st' : Store × Cells) (e : ApplyError), stx.txn.txnType.is t.asStr = true → stx.evalDelta = none → InRange stx →
      applyTransactionInner rulesOf rules ext ctx depth stx t st = .error e st' → Restored st.1 st'.1 := by
  intro hall
  obtain ⟨e, st', hrun, hcredit⟩ := burn_fails
  have hrestored := hall _ _ _ _ _ burnTxn .pay _ st' e (by decide) rfl burn_inRange hrun
  have hnone : st'.1.getAccount Address.zero = none := (hrestored.accounts Address.zero).trans (by decide)
  rw [hnone] at hcredit
  cases hcredit

theorem restored_iff_not_strays_burn : ∃ e st', burn = .error e st' ∧
    (Restored burnStore st'.1 ↔ ¬ Strays (fun _ => none) default burnContext burnTxn (burnStore, default) .pay) := by
  obtain ⟨e, st', hrun, _⟩ := burn_fails
  exact ⟨e, st', hrun, restored_iff_not_strays noExternals 0 (by decide) rfl burn_inRange hrun⟩

end Ledger
end Algod
