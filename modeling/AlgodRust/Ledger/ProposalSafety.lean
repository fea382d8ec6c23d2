import AlgodRust.Ledger.ProposalCheck
import AlgodRust.Ledger.Upgrade
/-!
# ProposalSafety — what an accepted proposal is not held to

Neither the stateless validation nor the evaluation over the ledger reads the commitments of a header to its payset, the
hash of the header before it or its upgrade fields other than the protocol itself.  A proposal whose header is wrong
there is accepted where the rest of it passes.
-/
namespace Algod
namespace Ledger

open Validate (Env Enforced contentsMatchHeader)

/-! ## Commitments to the payset -/

/-- The block with its commitments to the payset set to zero. -/
def Block.withoutCommitments (b : Block) : Block := { b with txnCommitment := 0, txn256 := 0, txn512 := 0 }

section Commitments

variable {env : Env} {txid : Transaction → Digest} {ext : GroupInfo → Externals} {blockExt : BlockExternals}

theorem enforced_withoutCommitments {prevTimestamp : Option Int} {genesisId : String} {genesisHash : Bytes32}
    {b : Block} :
    Enforced env prevTimestamp genesisId genesisHash b.withoutCommitments ↔
      Enforced env prevTimestamp genesisId genesisHash b :=
  ⟨fun h => ⟨h.protocol, h.timestamp, h.stripped, h.groups, h.payset, h.headerGenesis, h.txnGenesis, h.size⟩,
    fun h => ⟨h.protocol, h.timestamp, h.stripped, h.groups, h.payset, h.headerGenesis, h.txnGenesis, h.size⟩⟩

theorem attempt_withoutCommitments (b : Block) (lock : LockTry) :
    attempt env txid ext blockExt b.withoutCommitments lock = attempt env txid ext blockExt b lock := rfl

theorem lastResortPrepass_withoutCommitments (b : Block) (lock : LockTry) :
    lastResortPrepass env txid b.withoutCommitments lock = lastResortPrepass env txid b lock := rfl

/-- No attempt over the ledger reads the commitments. -/
theorem ledgerVerdict_withoutCommitments (b : Block) (last : LockTry) : ∀ tries : List LockTry,
    ledgerVerdict env txid ext blockExt b.withoutCommitments last tries = ledgerVerdict env txid ext blockExt b last tries
  | [] => rfl
  | lock :: rest => by
    unfold ledgerVerdict
    rw [attempt_withoutCommitments, lastResortPrepass_withoutCommitments, ledgerVerdict_withoutCommitments b last rest]

end Commitments

/-- **When an accepted proposal carries the payset its header commits to**: only where it does so anyway, or where the
block with its commitments erased is rejected. -/
theorem accepted_contentsMatchHeader_iff (env : Env) (txid : Transaction → Digest) (ext : GroupInfo → Externals)
    (blockExt : BlockExternals) (bridge : BlockValidatorBridge) (tries : List LockTry) (last : LockTry) (b : Block) :
    (agreementBlockValidator env txid ext blockExt bridge tries last b = .ok () →
      contentsMatchHeader env.hashes env.protocols env.defaultParams b none = .ok true) ↔
    contentsMatchHeader env.hashes env.protocols env.defaultParams b none = .ok true ∨
      ¬ Enforced env bridge.prevTimestamp bridge.genesisId bridge.genesisHash b.withoutCommitments ∨
      (ledgerVerdict env txid ext blockExt b.withoutCommitments last tries).isSome = true := by
  rw [agreementBlockValidator_eq_ok, enforced_withoutCommitments, ledgerVerdict_withoutCommitments,
    ← Option.ne_none_iff_isSome]
  constructor
  · intro h
    by_cases he : Enforced env bridge.prevTimestamp bridge.genesisId bridge.genesisHash b
    · by_cases hv : ledgerVerdict env txid ext blockExt b last tries = none
      · exact .inl (h ⟨he, hv⟩)
      · exact .inr (.inr hv)
    · exact .inr (.inl he)
  · rintro (hm | he | hv) ⟨he', hv'⟩
    · exact hm
    · exact absurd he' he
    · exact absurd hv' hv

/-! ## A small chain -/

/-- Components that reject every transaction: a block without transactions asks none of them. -/
def rejectingChecks : Validate.Checks where
  validateTransactionWellformed _ _ _ _ := .error "rules"
  checkStateProofPayload _ := .error "state proof"
  verifyTransactionSignature _ _ _ _ budget := (budget, .error "signature")
  verifyHeartbeatProof _ _ _ _ _ := .error "proof"
  logicSigGroupSizeCheck _ _ := .error "size"
  summarizeFees _ _ := (1, 0)
  requiredFeeForUsage _ _ := (1, true)

def rejectingExternals : Externals where
  applyAppl _ _ _ _ := .error (.external 0)
  applyHeartbeat _ _ _ := .error (.external 0)
  applyStateProof _ _ _ := .error (.external 0)
  applyEvalDelta _ _ _ _ _ _ _ := .error (.external 0)
  innerParticipants _ := []

def rejectingBlockExternals : BlockExternals where
  validateAbsentOnlineAccounts _ _ _ := .error 0
  validateStateProofTracking _ _ _ _ := .error 0

def merkleParams : ConsensusParams := { (default : ConsensusParams) with paysetCommit := .merkle }

/-- One protocol, and any hash functions. -/
def oneProtocol (H : Validate.Hashes) : Env where
  protocols v := if v = "p" then some merkleParams else none
  defaultParams := merkleParams
  hashes := H
  checks := rejectingChecks

def genesisHeader : BlockHeader := { (default : BlockHeader) with currentProtocol := "p" }

/-- A chain of the genesis header alone. -/
def genesisStore : Store := { (default : Store) with blockHeaders := AList.insert 0 genesisHeader ∅ }

def emptyBlock : Block :=
  { (default : Block) with round := 1, currentProtocol := "p", branch := 0, txnCommitment := 0, txn256 := 0, txn512 := 0 }

def noHashes : Validate.Hashes := ⟨fun _ => 0, fun _ => 0, fun _ => 0⟩

def genesisBridge : BlockValidatorBridge := ⟨"g", 0, some 0⟩

/-- The validator of the small chain, with the ledger free and steady. -/
def genesisValidator (H : Validate.Hashes) (b : Block) : Except AgreementError Unit :=
  agreementBlockValidator (oneProtocol H) (fun _ => .zero) (fun _ => rejectingExternals) rejectingBlockExternals
    genesisBridge [.free genesisStore .steady] .busy b

theorem oneProtocol_verdict (H : Validate.Hashes) :
    ledgerVerdict (oneProtocol H) (fun _ => .zero) (fun _ => rejectingExternals) rejectingBlockExternals emptyBlock .busy
      [.free genesisStore .steady] = none := by
  change ledgerVerdict (oneProtocol noHashes) (fun _ => .zero) (fun _ => rejectingExternals) rejectingBlockExternals
    emptyBlock .busy [.free genesisStore .steady] = none
  decide

theorem emptyBlock_enforced (H : Validate.Hashes) : Enforced (oneProtocol H) (some 0) "g" 0 emptyBlock where
  protocol := by
    change Validate.validateProtocolVersion (oneProtocol noHashes).protocols "p" = .ok ()
    decide
  timestamp := rfl
  stripped := rfl
  groups := rfl
  payset := by
    simp only [Validate.paysetErrors, GenesisRestoreRule.restorePayset, Validate.validateTransactionGroup,
      Validate.validateGroupFees, Validate.collectGroups, emptyBlock]
    rfl
  headerGenesis := by decide
  txnGenesis := rfl
  size := by
    change Validate.sizeErrors (Validate.sizeLimits (oneProtocol noHashes) emptyBlock) emptyBlock 0 = []
    decide

/-- The block without transactions, with a commitment to some payset. -/
def wrongCommitment : Block := { emptyBlock with txnCommitment := 1 }

/-- A block without transactions is accepted although its header commits to another payset, whatever the hashes. -/
theorem wrongCommitment_accepted (H : Validate.Hashes) :
    genesisValidator H wrongCommitment = .ok () ∧
      contentsMatchHeader H (oneProtocol H).protocols (oneProtocol H).defaultParams wrongCommitment none = .ok false := by
  constructor
  · refine (agreementBlockValidator_eq_ok _ _ _ _).2 ⟨?_, ?_⟩
    · exact enforced_withoutCommitments.1 (emptyBlock_enforced H)
    · rw [← ledgerVerdict_withoutCommitments]
      exact oneProtocol_verdict H
  · have hm : Validate.hasPaysetCommitMerkle (oneProtocol H).protocols wrongCommitment.currentProtocol = true := by
      change Validate.hasPaysetCommitMerkle (oneProtocol noHashes).protocols "p" = true
      decide
    have hroot : Validate.computePaysetCommitment H (oneProtocol H).protocols (oneProtocol H).defaultParams
        wrongCommitment none = 0 := by
      rw [Validate.computePaysetCommitment, if_pos hm]
      exact Validate.computePaysetMerkleRoot_of_nil _ _ _ rfl _
    refine Validate.contentsMatchHeader_eq_false _ _ _ (emptyBlock_enforced H).protocol ?_ ?_
    · decide
    · rw [show Validate.usableBlobs wrongCommitment none = none from rfl, hroot]
      decide

theorem accepted_wrongCommitment : genesisValidator noHashes wrongCommitment = .ok () ∧
    contentsMatchHeader noHashes (oneProtocol noHashes).protocols (oneProtocol noHashes).defaultParams wrongCommitment none =
      .ok false := wrongCommitment_accepted noHashes

/-! ## The chain and its upgrade rule -/

/-- The block extends the last header of the store: it has the header's hash, and its upgrade fields are what its own
vote makes of the header's. -/
def Block.ExtendsTip (digest : BlockHeader → Bytes32) (protocols : String → Option ConsensusParams) (s : Store)
    (b : Block) : Prop :=
  ∃ prev params, s.getBlockHeader s.currentRound = some prev ∧ protocols prev.currentProtocol = some params ∧
    b.branch = digest prev ∧
    applyUpgradeVote prev.upgradeState b.round b.upgradeVote params = .ok b.upgradeState

/-- The block with the hash of the header before it and its upgrade fields erased; its protocol stays. -/
def Block.withoutChain (b : Block) : Block :=
  { b with
    branch := 0
    nextProtocol := ""
    nextProtocolApprovals := 0
    nextProtocolVoteBefore := 0
    nextProtocolSwitchOn := 0
    upgradePropose := ""
    upgradeDelay := 0
    upgradeApprove := false }

section Chain

variable {env : Env} {txid : Transaction → Digest} {ext : GroupInfo → Externals} {blockExt : BlockExternals}

theorem enforced_withoutChain {prevTimestamp : Option Int} {genesisId : String} {genesisHash : Bytes32} {b : Block} :
    Enforced env prevTimestamp genesisId genesisHash b.withoutChain ↔
      Enforced env prevTimestamp genesisId genesisHash b :=
  ⟨fun h => ⟨h.protocol, h.timestamp, h.stripped, h.groups, h.payset, h.headerGenesis, h.txnGenesis, h.size⟩,
    fun h => ⟨h.protocol, h.timestamp, h.stripped, h.groups, h.payset, h.headerGenesis, h.txnGenesis, h.size⟩⟩

theorem evaluateBlockOnOverlay_withoutChain (s : Store) (b : Block) :
    evaluateBlockOnOverlay env txid ext blockExt s b.withoutChain = evaluateBlockOnOverlay env txid ext blockExt s b :=
  rfl

/-- A verdict is `valid` exactly where the evaluation succeeds. -/
theorem proposalCheckFrom_eq_valid {r : Except BlockError EvalState} :
    proposalCheckFrom r = .valid ↔ ∃ st, r = .ok st := by
  cases r with
  | ok st => exact ⟨fun _ => ⟨st, rfl⟩, fun _ => rfl⟩
  | error e =>
    constructor
    · intro h
      unfold proposalCheckFrom at h
      split at h <;> simp_all
    · rintro ⟨_, h⟩
      cases h

theorem withProloguePrepass_eq_valid {check : ProposalCheck} {prepass : Option Rejection} :
    withProloguePrepass check prepass = .valid ↔ check = .valid := by
  cases check <;> cases prepass <;> simp [withProloguePrepass]

theorem evaluateProposalCheck_eq_valid {s : Store} {b : Block} (hround : b.round = s.currentRound + 1) :
    evaluateProposalCheck env txid ext blockExt s .steady b = .valid ↔
      ∃ st, evaluateBlockOnOverlay env txid ext blockExt s b = .ok st := by
  unfold evaluateProposalCheck
  rw [if_neg (by simp [hround])]
  simp only [reduceCtorEq, if_false]
  rw [withProloguePrepass_eq_valid, proposalCheckFrom_eq_valid]

/-- A valid verdict over a steady ledger accepts what the enforced checks accept. -/
theorem ledgerVerdict_of_valid {s : Store} {b : Block} {last : LockTry} {rest : List LockTry}
    (hround : b.round = s.currentRound + 1)
    (hvalid : evaluateProposalCheck env txid ext blockExt s .steady b = .valid) :
    ledgerVerdict env txid ext blockExt b last (.free s .steady :: rest) = none := by
  have h₁ : ¬ b.round ≤ s.currentRound := by rw [hround]; exact Nat.not_succ_le_self _
  have h₂ : ¬ b.round > s.currentRound + 1 := by rw [hround]; exact lt_irrefl _
  have ha : attempt env txid ext blockExt b (.free s .steady) = .verdict none := by
    unfold attempt
    simp only [h₁, h₂, hvalid, if_false, reduceCtorEq]
  unfold ledgerVerdict
  rw [ha]

end Chain

/-- **When a proposal accepted with a valid verdict extends the chain under the upgrade rule**: only where its header
says so anyway, or where the block with these fields erased fails an enforced check or does not evaluate. -/
theorem valid_extendsTip_iff (digest : BlockHeader → Bytes32) (env : Env) (txid : Transaction → Digest)
    (ext : GroupInfo → Externals) (blockExt : BlockExternals) (genesisId : String) (genesisHash : Bytes32) (s : Store)
    (rest : List LockTry) (last : LockTry) (b : Block) (hround : b.round = s.currentRound + 1) :
    (agreementBlockValidator env txid ext blockExt
        ⟨genesisId, genesisHash, (s.getBlockHeader s.currentRound).map BlockHeader.timestamp⟩
        (.free s .steady :: rest) last b = .ok () →
      evaluateProposalCheck env txid ext blockExt s .steady b = .valid → b.ExtendsTip digest env.protocols s) ↔
    b.ExtendsTip digest env.protocols s ∨
      ¬ Enforced env ((s.getBlockHeader s.currentRound).map BlockHeader.timestamp) genesisId genesisHash b.withoutChain ∨
      ∀ st, evaluateBlockOnOverlay env txid ext blockExt s b.withoutChain ≠ .ok st := by
  rw [agreementBlockValidator_eq_ok, enforced_withoutChain, evaluateBlockOnOverlay_withoutChain]
  constructor
  · intro h
    by_cases he : Enforced env ((s.getBlockHeader s.currentRound).map BlockHeader.timestamp) genesisId genesisHash b
    · by_cases hv : evaluateProposalCheck env txid ext blockExt s .steady b = .valid
      · exact .inl (h ⟨he, ledgerVerdict_of_valid hround hv⟩ hv)
      · rw [evaluateProposalCheck_eq_valid hround] at hv
        exact .inr (.inr fun st hst => hv ⟨st, hst⟩)
    · exact .inr (.inl he)
  · rintro (hx | he | hn) ⟨he', _⟩ hv'
    · exact hx
    · exact absurd he' he
    · obtain ⟨st, hst⟩ := (evaluateProposalCheck_eq_valid hround).1 hv'
      exact absurd hst (hn st)

/-- The theorem at the block without transactions that extends the small chain. -/
theorem valid_extendsTip_iff_emptyBlock :
    emptyBlock.round = genesisStore.currentRound + 1 ∧
    ((agreementBlockValidator (oneProtocol noHashes) (fun _ => .zero) (fun _ => rejectingExternals)
          rejectingBlockExternals ⟨"g", 0, (genesisStore.getBlockHeader genesisStore.currentRound).map BlockHeader.timestamp⟩
          [.free genesisStore .steady] .busy emptyBlock = .ok () →
        evaluateProposalCheck (oneProtocol noHashes) (fun _ => .zero) (fun _ => rejectingExternals)
          rejectingBlockExternals genesisStore .steady emptyBlock = .valid →
        emptyBlock.ExtendsTip (fun _ => 0) (oneProtocol noHashes).protocols genesisStore) ↔
      emptyBlock.ExtendsTip (fun _ => 0) (oneProtocol noHashes).protocols genesisStore ∨
        ¬ Enforced (oneProtocol noHashes) ((genesisStore.getBlockHeader genesisStore.currentRound).map
          BlockHeader.timestamp) "g" 0 emptyBlock.withoutChain ∨
        ∀ st, evaluateBlockOnOverlay (oneProtocol noHashes) (fun _ => .zero) (fun _ => rejectingExternals)
          rejectingBlockExternals genesisStore emptyBlock.withoutChain ≠ .ok st) :=
  ⟨rfl, valid_extendsTip_iff (fun _ => 0) (oneProtocol noHashes) (fun _ => .zero) (fun _ => rejectingExternals)
    rejectingBlockExternals "g" 0 genesisStore [] .busy emptyBlock rfl⟩

/-- The block without transactions, with another hash than that of the genesis header. -/
def wrongBranch (digest : BlockHeader → Bytes32) : Block := { emptyBlock with branch := digest genesisHeader + 1 }

theorem emptyBlock_evaluates :
    ∃ st, evaluateBlockOnOverlay (oneProtocol noHashes) (fun _ => .zero) (fun _ => rejectingExternals)
      rejectingBlockExternals genesisStore emptyBlock = .ok st := by
  obtain ⟨st, hst, _⟩ := @Run.ok_of_any _ _ (evaluateBlockOnOverlay (oneProtocol noHashes) (fun _ => .zero)
    (fun _ => rejectingExternals) rejectingBlockExternals genesisStore emptyBlock) (fun _ => true) (by decide)
  exact ⟨st, hst⟩

/-- A block that does not carry the hash of the header before it is accepted with a valid verdict, whatever the hash. -/
theorem wrongBranch_valid (digest : BlockHeader → Bytes32) :
    genesisValidator noHashes (wrongBranch digest) = .ok () ∧
      evaluateProposalCheck (oneProtocol noHashes) (fun _ => .zero) (fun _ => rejectingExternals)
        rejectingBlockExternals genesisStore .steady (wrongBranch digest) = .valid ∧
      (genesisStore.getBlockHeader genesisStore.currentRound).map BlockHeader.timestamp = genesisBridge.prevTimestamp ∧
      ¬ (wrongBranch digest).ExtendsTip digest (oneProtocol noHashes).protocols genesisStore := by
  have hround : (wrongBranch digest).round = genesisStore.currentRound + 1 := rfl
  have hvalid : evaluateProposalCheck (oneProtocol noHashes) (fun _ => .zero) (fun _ => rejectingExternals)
      rejectingBlockExternals genesisStore .steady (wrongBranch digest) = .valid := by
    rw [evaluateProposalCheck_eq_valid hround, ← evaluateBlockOnOverlay_withoutChain]
    exact emptyBlock_evaluates
  refine ⟨?_, hvalid, rfl, ?_⟩
  · refine (agreementBlockValidator_eq_ok _ _ _ _).2 ⟨?_, ledgerVerdict_of_valid hround hvalid⟩
    exact enforced_withoutChain.1 (emptyBlock_enforced noHashes)
  · rintro ⟨prev, params, hprev, -, hbranch, -⟩
    cases hprev
    have hne : digest genesisHeader + 1 ≠ digest genesisHeader := by
      intro h
      simp at h
    exact hne hbranch

theorem valid_wrongBranch : genesisValidator noHashes (wrongBranch fun _ => 0) = .ok () ∧
    evaluateProposalCheck (oneProtocol noHashes) (fun _ => .zero) (fun _ => rejectingExternals)
      rejectingBlockExternals genesisStore .steady (wrongBranch fun _ => 0) = .valid ∧
    (genesisStore.getBlockHeader genesisStore.currentRound).map BlockHeader.timestamp = genesisBridge.prevTimestamp ∧
    ¬ (wrongBranch fun _ => 0).ExtendsTip (fun _ => 0) (oneProtocol noHashes).protocols genesisStore :=
  wrongBranch_valid fun _ => 0

end Ledger
end Algod
