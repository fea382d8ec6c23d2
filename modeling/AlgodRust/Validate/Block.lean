import AlgodRust.Validate.Merkle
import AlgodRust.Lib.Run
/-!
# Block — the stateless validation of a block

`validateBlock` collects every error of a block: its protocol and timestamp, each transaction and each group, the
genesis fields, the commitments to the payset, the size and the load.  Well-formedness, signatures, proofs and fees of
transactions are checked by other components (`Checks`).  A commitment that does not match is an error only where the
caller hands over the raw entries of the payset; otherwise it is printed and dropped.
-/
namespace Algod
namespace Validate

open Msgpack Ledger Codec

def maxTimestampIncrement : Int := 25
def maxGroupSize : Nat := 16
def logicsigBudget : Int := 20000

structure SpecialAddresses where
  feeSink : Address
  rewardsPool : Address
deriving DecidableEq, Repr

/-- The opcodes the logic signatures of a group may still execute. -/
structure GroupBudget where
  remaining : Int
deriving DecidableEq, Repr

def GroupBudget.forLogicsig (groupSize : Nat) : GroupBudget := ⟨logicsigBudget * groupSize⟩

/-- The components that check what is not checked here.  A signature may spend the budget of its group; fees are
summarised as usage and total. -/
structure Checks where
  validateTransactionWellformed : Transaction → Bool → ConsensusParams → SpecialAddresses → Except String Unit
  checkStateProofPayload : Transaction → Except String Unit
  verifyTransactionSignature : SignedTransaction → List SignedTransaction → Nat → ConsensusParams → GroupBudget →
    GroupBudget × Except String Unit
  verifyHeartbeatProof : Value → Bytes32 → Round → Nat → Bytes32 → Except String Unit
  logicSigGroupSizeCheck : List SignedTransaction → ConsensusParams → Except String Unit
  summarizeFees : List SignedTransaction → ConsensusParams → Nat × Nat
  requiredFeeForUsage : Nat → ConsensusParams → Nat × Bool

/-! ## Errors -/

inductive TxnError
  | rules (message : String)
  | dead (round first last : Round)
  | authAddrIsSender
  | rekeyingNotSupported
deriving DecidableEq, Repr

inductive SignatureError
  | signature (message : String)
  | heartbeatFieldsMissing
  | heartbeatProofMissing
  | heartbeatProof (message : String)
deriving DecidableEq, Repr

inductive GroupError
  | tooLarge (size : Nat)
  | heartbeatFieldsMissing
  | stateProofPayload (message : String)
  | boxIndexExceedsForeignApps
  | unknownType (name : String)
  | heartbeatWithApplicationCall
  | logicSigSize (message : String)
  | incomplete (groupId computed : Bytes32)
deriving DecidableEq, Repr

inductive GenesisError
  | headerGenesisId (block expected : String)
  | headerGenesisHash (block expected : Bytes32)
  | txnGenesisId (txnIndex : Nat) (txn block : String)
  | txnGenesisHash (txnIndex : Nat) (txn block : Bytes32)
deriving DecidableEq, Repr

/-- The transactions whose fees are pooled: a group, or one transaction on its own by its id. -/
inductive FeeGroup
  | group (id : Bytes32)
  | ungrouped (txid : Bytes32)
deriving DecidableEq, Repr

inductive BlockValidationError
  | protocol (e : ProtocolError)
  | timestampTooOld (current previous : Int)
  | timestampTooNew (current previous maxIncrement : Int)
  | commitment (e : CommitmentError)
  | transactionValidationFailed (txnIndex : Nat) (error : TxnError)
  | signatureVerificationFailed (txnIndex : Nat) (error : SignatureError)
  | groupValidationFailed (error : GroupError)
  | genesisConsistencyFailed (error : GenesisError)
  | groupFeePoolingFailed (group : FeeGroup) (totalFee requiredFee : Nat)
  | aggregateBlockSizeExceeded (totalBytes maxBytes : Nat)
  | badLoad (expected actual : Nat)
  | paysetGenesisFields (index : Nat) (error : GenesisFieldError)
deriving DecidableEq, Repr

/-- The error of a failed check, if it failed. -/
def errorsOf {ε α : Type} (wrap : ε → BlockValidationError) : Except ε α → List BlockValidationError
  | .error e => [wrap e]
  | .ok _ => []

/-! ## The header -/

def timestampErrors (prevTimestamp : Option Int) (block : Block) : List BlockValidationError :=
  match prevTimestamp with
  | none => []
  | some prev =>
    if prev > 0 then
      (if block.timestamp < prev then [.timestampTooOld block.timestamp prev] else []) ++
      -- the sum of 64-bit integers wraps around
      (if block.timestamp > Int.bmod (prev + maxTimestampIncrement) (2 ^ 64)
        then [.timestampTooNew block.timestamp prev maxTimestampIncrement] else [])
    else []

def headerGenesisErrors (genesisId : String) (genesisHash : Bytes32) (block : Block) : List BlockValidationError :=
  (if !block.genesisId.isEmpty && block.genesisId != genesisId
    then [.genesisConsistencyFailed (.headerGenesisId block.genesisId genesisId)] else []) ++
  (if block.genesisHash ≠ 0 ∧ block.genesisHash ≠ genesisHash
    then [.genesisConsistencyFailed (.headerGenesisHash block.genesisHash genesisHash)] else [])

def computeExpectedLoad (blockSize maxSize : Nat) : Nat :=
  if maxSize = 0 then 1000000 else min (1000000 * blockSize / maxSize) 1000000

/-- The size of the payset and, where the protocol tracks it, the load; without a protocol there is neither limit. -/
def sizeErrors (params : Option ConsensusParams) (block : Block) (totalTxnBytes : Nat) : List BlockValidationError :=
  match params with
  | none => []
  | some p =>
    (if totalTxnBytes > p.maxTxnBytesPerBlock
      then [.aggregateBlockSizeExceeded totalTxnBytes p.maxTxnBytesPerBlock] else []) ++
    (if p.loadTracking = true ∧ block.load ≠ computeExpectedLoad totalTxnBytes p.maxTxnBytesPerBlock
      then [.badLoad (computeExpectedLoad totalTxnBytes p.maxTxnBytesPerBlock) block.load] else [])

/-! ## Groups -/

/-- An entry of the payset with its index: `stx` with the genesis fields restored, `stored` as the block has it. -/
structure Member where
  index : Nat
  stx : SignedTransaction
  stored : SignedTransaction

def Member.group (m : Member) : Bytes32 := m.stx.txn.group

/-- A member joins the group before it where both have the same group id, up to the largest size. -/
def joinGroup (groups : List (List Member)) (m : Member) : Except GroupError (List (List Member)) :=
  match groups.getLast? with
  | none => .ok [[m]]
  | some g =>
    if m.group ≠ 0 ∧ g.head?.map Member.group = some m.group then
      if g.length ≥ maxGroupSize then .error (.tooLarge (g.length + 1)) else .ok (groups.dropLast ++ [g ++ [m]])
    else .ok (groups ++ [[m]])

def detectValidationGroups (payset : List Member) : Except GroupError (List (List Member)) :=
  payset.foldlM joinGroup []

def triggersResourceAvailability (txn : Transaction) : Bool :=
  txn.txnType.is "appl" || txn.txnType.is "acfg" && decide (txn.configAsset = 0)

def checkApplicationCallBoxes (txn : Transaction) : Except GroupError Unit :=
  if txn.access.isSome then .ok ()
  else if (txn.boxes.getD []).any (fun b => decide (b.index > (txn.foreignApps.getD []).length)) then
    .error .boxIndexExceedsForeignApps
  else .ok ()

section Groups

variable (checks : Checks)

/-- One member of a group; the flags say whether a heartbeat and whether a trigger of resource availability was seen. -/
def checkTxnGroupStep (seen : Bool × Bool) (stx : SignedTransaction) : Except GroupError (Bool × Bool) :=
  let txn := stx.txn
  if txn.txnType.is "hb" then
    if txn.heartbeat.isNone then .error .heartbeatFieldsMissing else .ok (true, seen.2)
  else if txn.txnType.is "stpf" then
    match checks.checkStateProofPayload txn with
    | .error message => .error (.stateProofPayload message)
    | .ok _ => .ok seen
  else if txn.txnType.is "appl" then do
    checkApplicationCallBoxes txn
    return (seen.1, true)
  else if txn.txnType.is "pay" || txn.txnType.is "keyreg" || txn.txnType.is "acfg" || txn.txnType.is "axfer" ||
      txn.txnType.is "afrz" then
    .ok (seen.1, seen.2 || triggersResourceAvailability txn)
  else .error (.unknownType txn.txnType.asStr)

def checkTxnGroup (group : List SignedTransaction) : Except GroupError Unit := do
  let seen ← group.foldlM (checkTxnGroupStep checks) (false, false)
  if seen.1 && seen.2 then .error .heartbeatWithApplicationCall else .ok ()

def verifyMemberHeartbeatProof (stx : SignedTransaction) : Except SignatureError Unit :=
  if !stx.txn.txnType.is "hb" then .ok ()
  else
    match stx.txn.heartbeat with
    | none => .error .heartbeatFieldsMissing
    | some hb =>
      match hb.proof with
      | none => .error .heartbeatProofMissing
      | some proof =>
        match checks.verifyHeartbeatProof proof hb.voteId stx.txn.lastValid hb.keyDilution hb.seed with
        | .error message => .error (.heartbeatProof message)
        | .ok u => .ok u

def verifyAuthAddrSenderDiff (stx : SignedTransaction) (enforce : Bool) : Except TxnError Unit :=
  if enforce = true ∧ stx.authAddr = some stx.txn.sender then .error .authAddrIsSender else .ok ()

def verifyRekeyingSupported (stx : SignedTransaction) (supportRekeying : Bool) : Except TxnError Unit :=
  if supportRekeying = false ∧ stx.authAddr.isSome = true then .error .rekeyingNotSupported else .ok ()

def verifyAlive (round : Round) (stx : SignedTransaction) : Except TxnError Unit :=
  if round < stx.txn.firstValid ∨ round > stx.txn.lastValid then
    .error (.dead round stx.txn.firstValid stx.txn.lastValid)
  else .ok ()

/-- What the loop over the groups has found: the errors, the size of the entries so far, and whether every signature of
the current group is good. -/
structure GroupLoop where
  budget : GroupBudget
  errors : List BlockValidationError
  totalTxnBytes : Nat
  sigOk : Bool

/-- One member of a group.  State proofs are only counted; without pooling every member has a budget of its own. -/
def validateMember (params : ConsensusParams) (spec : SpecialAddresses) (round : Round) (group : List SignedTransaction)
    (alreadyVerified : Bool) (l : GroupLoop) (member : Member × Nat) : GroupLoop :=
  let m := member.1
  let stx := m.stx
  let budget := if params.enableLogicsigCostPooling then l.budget else GroupBudget.forLogicsig 1
  let size := (canonicalEncodeSignedTxnInBlock m.stored).length
  if stx.txn.txnType.is "stpf" && stx.txn.stateProof.isSome then
    { l with budget := budget, totalTxnBytes := l.totalTxnBytes + size }
  else
    let wellformed := checks.validateTransactionWellformed stx.txn (decide (stx.txn.group ≠ 0)) params spec
    let signature := if alreadyVerified then (budget, .ok ())
      else checks.verifyTransactionSignature stx group member.2 params budget
    let proof := verifyMemberHeartbeatProof checks stx
    let txnFailed := fun e => BlockValidationError.transactionValidationFailed m.index e
    let sigFailed := fun e => BlockValidationError.signatureVerificationFailed m.index e
    { budget := signature.1
      errors := l.errors ++ errorsOf (txnFailed ∘ TxnError.rules) wellformed ++
        errorsOf txnFailed (verifyAlive round stx) ++
        errorsOf (sigFailed ∘ SignatureError.signature) signature.2 ++
        errorsOf sigFailed proof ++
        errorsOf txnFailed (verifyAuthAddrSenderDiff stx params.enforceAuthAddrSenderDiff) ++
        errorsOf txnFailed (verifyRekeyingSupported stx params.supportRekeying)
      totalTxnBytes := l.totalTxnBytes + size
      sigOk := l.sigOk && signature.2.toOption.isSome && proof.toOption.isSome }

/-- One group: its structure, then its members, then the size of its logic signatures. -/
def validateGroup (params : ConsensusParams) (spec : SpecialAddresses) (round : Round) (alreadyVerified : Bool)
    (acc : List BlockValidationError × Nat) (members : List Member) : List BlockValidationError × Nat :=
  let group := members.map Member.stx
  let budget := GroupBudget.forLogicsig (if params.enableLogicsigCostPooling then members.length else 1)
  let errors := acc.1 ++ errorsOf .groupValidationFailed (checkTxnGroup checks group)
  let l := members.zipIdx.foldl (validateMember checks params spec round group alreadyVerified)
    ⟨budget, errors, acc.2, true⟩
  (l.errors ++ errorsOf (BlockValidationError.groupValidationFailed ∘ GroupError.logicSigSize)
    (checks.logicSigGroupSizeCheck group params), l.totalTxnBytes)

/-! ## The whole payset -/

variable (H : Hashes)

/-- The groups of a payset by their ids, in the order in which the ids occur; members need not be adjacent. -/
def collectGroups (payset : List SignedTransaction) : List (Bytes32 × List SignedTransaction) :=
  (((payset.map (fun stx => stx.txn.group)).filter (fun g => decide (g ≠ 0))).eraseDups).map
    (fun g => (g, payset.filter (fun stx => decide (stx.txn.group = g))))

def computeTxnIdWithoutGroup (txn : Transaction) : Bytes32 :=
  H.sha512_256 (utf8 "TX" ++ (canonicalMap (transactionFields txn txn.genesisId txn.genesisHash 0)).encode)

def computeGroupIdFromHashes (hashes : List Bytes32) : Bytes32 :=
  H.sha512_256 (utf8 "TG" ++ (canonicalMap
    [("txlist", if hashes.isEmpty then none else some (.array (hashes.map (fun h => .bin (digestBytes h)))))]).encode)

/-- A group of one is not checked here. -/
def validateTransactionGroupOf (g : Bytes32 × List SignedTransaction) : Except GroupError Unit :=
  if g.2.length < 2 then .ok ()
  else if g.2.length > maxGroupSize then .error (.tooLarge g.2.length)
  else
    let computed := computeGroupIdFromHashes H (g.2.map (fun stx => computeTxnIdWithoutGroup H stx.txn))
    if g.1 = computed then .ok () else .error (.incomplete g.1 computed)

def validateTransactionGroup (payset : List SignedTransaction) : Except GroupError Unit :=
  (collectGroups payset).forM (validateTransactionGroupOf H)

def checkGroupFee (params : ConsensusParams) (group : FeeGroup) (members : List SignedTransaction) :
    Except BlockValidationError Unit :=
  let fees := checks.summarizeFees members params
  let required := checks.requiredFeeForUsage fees.1 params
  if required.2 || decide (fees.2 < required.1) then .error (.groupFeePoolingFailed group fees.2 required.1) else .ok ()

/-- The groups first, then every transaction outside a group on its own. -/
def validateGroupFees (params : ConsensusParams) (payset : List SignedTransaction) : Except BlockValidationError Unit := do
  (collectGroups payset).forM (fun g => checkGroupFee checks params (.group g.1) g.2)
  (payset.filter (fun stx => decide (stx.txn.group = 0))).forM (fun stx =>
    checkGroupFee checks params (.ungrouped (computeTxid H stx.txn)) [stx])

/-- The first transaction, from index `i` on, whose genesis fields are not the block's. -/
def validateGenesisConsistency (genesisId : String) (genesisHash : Bytes32) (i : Nat) :
    List SignedTransaction → Except GenesisError Unit
  | [] => .ok ()
  | stx :: rest =>
    if !stx.txn.genesisId.isEmpty && stx.txn.genesisId != genesisId then
      .error (.txnGenesisId i stx.txn.genesisId genesisId)
    else if stx.txn.genesisHash ≠ 0 ∧ stx.txn.genesisHash ≠ genesisHash then
      .error (.txnGenesisHash i stx.txn.genesisHash genesisHash)
    else validateGenesisConsistency genesisId genesisHash (i + 1) rest

end Groups

/-! ## Validation -/

structure BlockValidationResult where
  round : Round
  errors : List BlockValidationError
  txnCount : Nat
  totalTxnBytes : Nat

def BlockValidationResult.isValid (r : BlockValidationResult) : Bool := r.errors.isEmpty

/-- Everything validation reads that is not in the block. -/
structure Env where
  protocols : String → Option ConsensusParams
  defaultParams : ConsensusParams
  hashes : Hashes
  checks : Checks

section Validation

variable (env : Env)

def protocolErrors (block : Block) : List BlockValidationError :=
  errorsOf .protocol (validateProtocolVersion env.protocols block.currentProtocol)

/-- The parameters the payset is checked under; the default ones keep the checks running on an unknown protocol. -/
def Env.paramsOf (block : Block) : ConsensusParams := (env.protocols block.currentProtocol).getD env.defaultParams

/-- The entries of the payset, restored by the rule. -/
def membersOf (rule : GenesisRestoreRule) (payset : List SignedTransaction) : List Member :=
  ((rule.restorePayset payset).zip payset).zipIdx.map (fun p => ⟨p.2, p.1.1, p.1.2⟩)

/-- The errors of the groups and the size of their entries; a payset that does not split into groups has no more. -/
def groupErrors (block : Block) (members : List Member) : List BlockValidationError × Nat :=
  match detectValidationGroups members with
  | .error e => ([.groupValidationFailed e], 0)
  | .ok groups =>
    groups.foldl (validateGroup env.checks (env.paramsOf block) ⟨block.feeSink, block.rewardsPool⟩ block.round false)
      ([], 0)

/-- The errors of the payset as a whole. -/
def paysetErrors (block : Block) (restored : List SignedTransaction) : List BlockValidationError :=
  errorsOf .groupValidationFailed (validateTransactionGroup env.hashes restored) ++
  errorsOf id (validateGroupFees env.checks env.hashes (env.paramsOf block) restored)

/-- A commitment that does not match is an error only where the raw entries are at hand. -/
def commitmentErrors (block : Block) (rawBlobs : Option (List Bytes)) : List BlockValidationError :=
  let blobs := usableBlobs block rawBlobs
  let errors := verifyPaysetCommitments env.hashes env.protocols env.defaultParams block blobs
  if blobs.isSome then errors.map .commitment else []

def sizeLimits (block : Block) : Option ConsensusParams :=
  if block.currentProtocol.isEmpty then none else env.protocols block.currentProtocol

/-- **Validate a block.**  A payset that is not in stripped form ends the validation. -/
def validateBlock (prevTimestamp : Option Int) (genesisId : String) (genesisHash : Bytes32)
    (rawBlobs : Option (List Bytes)) (block : Block) : BlockValidationResult :=
  let header := protocolErrors env block ++ timestampErrors prevTimestamp block
  let rule := GenesisRestoreRule.forParams (env.paramsOf block) block
  match rule.checkPayset 0 block.payset with
  | .error e => ⟨block.round, header ++ [.paysetGenesisFields e.1 e.2], block.payset.length, 0⟩
  | .ok _ =>
    let restored := rule.restorePayset block.payset
    let groups := groupErrors env block (membersOf rule block.payset)
    ⟨block.round,
      header ++ groups.1 ++ paysetErrors env block restored ++ headerGenesisErrors genesisId genesisHash block ++
        errorsOf .genesisConsistencyFailed (validateGenesisConsistency block.genesisId block.genesisHash 0 restored) ++
        commitmentErrors env block rawBlobs ++ sizeErrors (sizeLimits env block) block groups.2,
      block.payset.length, groups.2⟩

/-! ## What a valid block passed -/

theorem errorsOf_eq_nil {ε : Type} {wrap : ε → BlockValidationError} {r : Except ε Unit} :
    errorsOf wrap r = [] ↔ r = .ok () := by
  cases r with
  | error e => simp [errorsOf]
  | ok u => simp [errorsOf]

/-- Without raw entries no commitment is an error. -/
@[simp] theorem commitmentErrors_none (block : Block) : commitmentErrors env block none = [] := rfl

/-- The checks that a block without raw entries is held to. -/
structure Enforced (prevTimestamp : Option Int) (genesisId : String) (genesisHash : Bytes32) (block : Block) : Prop where
  protocol : validateProtocolVersion env.protocols block.currentProtocol = .ok ()
  timestamp : timestampErrors prevTimestamp block = []
  stripped : (GenesisRestoreRule.forParams (env.paramsOf block) block).checkPayset 0 block.payset = .ok ()
  groups : (groupErrors env block (membersOf (.forParams (env.paramsOf block) block) block.payset)).1 = []
  payset : paysetErrors env block (GenesisRestoreRule.restorePayset (.forParams (env.paramsOf block) block) block.payset) = []
  headerGenesis : headerGenesisErrors genesisId genesisHash block = []
  txnGenesis : validateGenesisConsistency block.genesisId block.genesisHash 0
    (GenesisRestoreRule.restorePayset (.forParams (env.paramsOf block) block) block.payset) = .ok ()
  size : sizeErrors (sizeLimits env block) block
    (groupErrors env block (membersOf (.forParams (env.paramsOf block) block) block.payset)).2 = []

/-- **A block is valid exactly where it passes the enforced checks**; the commitments to the payset are none of them. -/
theorem validateBlock_isValid {prevTimestamp : Option Int} {genesisId : String} {genesisHash : Bytes32} {block : Block} :
    (validateBlock env prevTimestamp genesisId genesisHash none block).isValid = true ↔
      Enforced env prevTimestamp genesisId genesisHash block := by
  unfold validateBlock BlockValidationResult.isValid
  simp only
  split
  · rename_i e hstripped
    simp only [List.isEmpty_iff, List.append_eq_nil_iff, List.cons_ne_nil, and_false, false_iff]
    intro h
    rw [h.stripped] at hstripped
    cases hstripped
  · rename_i u hstripped
    simp only [List.isEmpty_iff, List.append_eq_nil_iff, commitmentErrors_none, and_true, protocolErrors,
      errorsOf_eq_nil]
    constructor
    · rintro ⟨⟨⟨⟨⟨⟨hp, ht⟩, hg⟩, hs⟩, hh⟩, hx⟩, hz⟩
      exact ⟨hp, ht, hstripped, hg, hs, hh, hx, hz⟩
    · intro h
      exact ⟨⟨⟨⟨⟨⟨h.protocol, h.timestamp⟩, h.groups⟩, h.payset⟩, h.headerGenesis⟩, h.txnGenesis⟩, h.size⟩

end Validation

end Validate
end Algod
