import AlgodRust.Basics
import AlgodRust.Crypto.MerkleArray
/-!
# StateProof — the prover and the verifier of state proofs

A prover holds a slot for each participant and gathers signatures on a message.  To make a proof it commits to the slots,
each with the weight signed below it, draws coins from the commitments and reveals the slot that each coin falls in.  The
verifier draws the same coins and checks the revealed slots against the two commitments.  The Falcon library and the
stream of coins are arbitrary functions, and the logarithm of the proven weight is a given integer.
-/
namespace Algod
namespace Crypto

open Msgpack (Bytes beBytes)

def leBytes (k n : Nat) : Bytes := (beBytes k n).reverse

/-! ## Merkle signatures -/

namespace MerkleSig

-- "KP"
def keysInMss : Bytes := [0x4b, 0x50]

def cryptoPrimitivesId : Nat := 0

/-- A Falcon-1024 public key of 1793 bytes. -/
structure FalconVerifier where
  k : BitVec 14344
deriving DecidableEq, Repr, Inhabited

def FalconVerifier.isZero (v : FalconVerifier) : Bool := decide (v.k = 0)
def FalconVerifier.getFixedLengthHashableRepresentation (v : FalconVerifier) : Bytes := beBytes 1793 v.k.toNat

/-- The root of a participant's ephemeral keys, and the number of rounds that each is for. -/
structure Verifier where
  commitment : Bytes64
  keyLifetime : Nat
deriving DecidableEq, Repr, Inhabited

structure SingleLeafProof where
  proof : Proof
deriving DecidableEq, Repr, Inhabited

structure Signature where
  signature : Bytes
  vectorCommitmentIndex : Nat
  proof : SingleLeafProof
  verifyingKey : FalconVerifier
deriving DecidableEq, Repr, Inhabited

inductive MerkleSignatureError
  | keyLifetimeIsZero
  | verificationFailed (msg : String)
  | falconError (msg : String)
  | saltVersionMismatch
deriving DecidableEq, Repr

def MerkleSignatureError.text : MerkleSignatureError → String
  | .keyLifetimeIsZero => "key lifetime is zero"
  | .verificationFailed msg => s!"merkle signature verification failed: {msg}"
  | .falconError msg => s!"falcon error: {msg}"
  | .saltVersionMismatch => "signature salt version mismatch"

/-- The functions of the Falcon library. -/
structure Falcon where
  verify : FalconVerifier → Bytes → Bytes → Except String Bool
  saltVersion : Bytes → Except String UInt8
  convertCompressedToCt : Bytes → Except String Bytes

def maxEncodedTreeDepth : Nat := 16

/-- The depth, then a digest for each level of the deepest tree: zeros for the levels that the tree lacks. -/
def SingleLeafProof.getFixedLengthHashableRepresentation (p : SingleLeafProof) : Bytes :=
  let digestSize := p.proof.hashFactory.digestSize
  let zeroDigest := List.replicate digestSize 0
  [UInt8.ofNat p.proof.treeDepth] ++ (List.replicate (maxEncodedTreeDepth - p.proof.treeDepth) zeroDigest).flatten ++
    (List.range p.proof.treeDepth).flatMap (fun i =>
      if p.proof.path.getD i [] ≠ [] then p.proof.path.getD i [] else zeroDigest)

def Signature.isZero (s : Signature) : Bool :=
  s.signature.isEmpty && decide (s.vectorCommitmentIndex = 0) && decide (s.proof = ⟨⟨[], ⟨.sha512_256⟩, 0⟩⟩) &&
    s.verifyingKey.isZero

section Falcon

variable (falcon : Falcon)

def Signature.validateSaltVersion (s : Signature) (version : UInt8) : Except MerkleSignatureError Unit := do
  let actual ← (falcon.saltVersion s.signature).mapError .falconError
  if actual ≠ version then throw .saltVersionMismatch

def Signature.getFixedLengthHashableRepresentation (s : Signature) : Except MerkleSignatureError Bytes := do
  let sigBytes ← (falcon.convertCompressedToCt s.signature).mapError .falconError
  return leBytes 2 cryptoPrimitivesId ++ sigBytes ++ s.verifyingKey.getFixedLengthHashableRepresentation ++
    leBytes 8 s.vectorCommitmentIndex ++ s.proof.getFixedLengthHashableRepresentation

def firstRoundInKeyLifetime (round keyLifetime : Nat) : Nat := round - round % keyLifetime

/-- The leaf of an ephemeral key. -/
def keyRoundPair (round : Nat) (key : FalconVerifier) : Hashable where
  hashPrefix := keysInMss
  data := leBytes 2 cryptoPrimitivesId ++ leBytes 8 round ++ key.getFixedLengthHashableRepresentation

def Verifier.verifyBytes (F : HashFunctions) (v : Verifier) (round : Nat) (msg : Bytes) (sig : Signature) :
    Except MerkleSignatureError Unit := do
  if v.keyLifetime = 0 then throw .keyLifetimeIsZero
  let validKeyRound := firstRoundInKeyLifetime round v.keyLifetime
  (verifyVectorCommitment F (beBytes 64 v.commitment.toNat)
    [(sig.vectorCommitmentIndex, keyRoundPair validKeyRound sig.verifyingKey)] sig.proof.proof).mapError
    (fun e => .verificationFailed e.text)
  let result ← (falcon.verify sig.verifyingKey sig.signature msg).mapError .falconError
  if !result then throw (.verificationFailed "falcon signature verification failed")

end Falcon

end MerkleSig

/-! ## State proofs -/

def precisionBits : Nat := 16
def ln2IntApproximation : Nat := 45427
def maxReveals : Nat := 640
def maxTreeDepth : Nat := 20
def merkleSignatureSchemeSaltVersion : UInt8 := 0

-- "sps" and "spp"
def stateProofSig : Bytes := [0x73, 0x70, 0x73]
def stateProofPart : Bytes := [0x73, 0x70, 0x70]

inductive StateProofError
  | treeDepthTooLarge
  | emptyFalconSignature
  | proofTreeDepthTooLarge
  | saltVersionMismatch
  | tooManyReveals
  | zeroSignedWeight
  | insufficientSignedWeight
  | signatureVerificationFailed (pos : Nat) (reason : String)
  | sigVectorCommitmentFailed (e : MerkleError)
  | partVectorCommitmentFailed (e : MerkleError)
  | noRevealInPos (pos : Nat)
  | coinNotInRange (pos coin : Nat)
  | internal (msg : String)
  | invalidHashType (field : String) (actual expected : HashType)
  | invalidSigCommitSize (actual expected : Nat)
  | positionOutOfBound (pos bound : Nat)
  | positionAlreadyPresent
  | positionWithZeroWeight (pos : Nat)
  | coinIndexError (lo hi coin : Nat)
  | signedWeightLessThanProvenWeight (signed proven : Nat)
  | negativeNumOfRevealsEquation
  -- not an error value: an addition that panics in a build with overflow checks
  | overflow
deriving DecidableEq, Repr

/-- The text of the errors that building a committable signature has: another error holds it. -/
def StateProofError.text : StateProofError → String
  | .emptyFalconSignature => "buildCommittableSignature: empty Falcon signature"
  | .proofTreeDepthTooLarge => "buildCommittableSignature: proof tree depth exceeds maximum"
  | .internal msg => s!"internal state-proof error: {msg}"
  | _ => ""

/-- `a + b` of two 64-bit numbers. -/
def addWeights (a b : Nat) : Except StateProofError Nat := if a + b < u64Bound then .ok (a + b) else .error .overflow

structure SigSlotCommit where
  sig : MerkleSig.Signature
  l : Nat
deriving DecidableEq, Repr, Inhabited

structure Participant where
  pk : MerkleSig.Verifier
  weight : Nat
deriving DecidableEq, Repr, Inhabited

structure Reveal where
  sigSlot : SigSlotCommit
  part : Participant
deriving DecidableEq, Repr

def Participant.toBeHashed (p : Participant) : Hashable where
  hashPrefix := stateProofPart
  data := leBytes 8 p.weight ++ leBytes 8 p.pk.keyLifetime ++ beBytes 64 p.pk.commitment.toNat

def participantsArray (ps : List Participant) : HashArray where
  length := ps.length
  marshal pos := match ps[pos]? with
    | some p => .ok p.toBeHashed
    | none => .error (.posOutOfBound pos ps.length)

/-- A proof; the reveals are in the order of their positions. -/
structure StateProof where
  sigCommit : GenericDigest
  signedWeight : Nat
  sigProofs : Proof
  partProofs : Proof
  merkleSignatureSaltVersion : UInt8
  reveals : List (Nat × Reveal)
  positionsToReveal : List Nat
deriving DecidableEq, Repr

structure CommittableSignatureSlot where
  l : Nat
  serializedSignature : Bytes
  isEmptySlot : Bool

def CommittableSignatureSlot.toBeHashed (slot : CommittableSignatureSlot) : Hashable where
  hashPrefix := stateProofSig
  data := if slot.isEmptySlot then [] else leBytes 8 slot.l ++ slot.serializedSignature

/-- What the coins are drawn from. -/
structure CoinChoiceSeed where
  partCommitment : GenericDigest
  lnProvenWeight : Nat
  sigCommitment : GenericDigest
  signedWeight : Nat
  data : Bytes32

/-! ## Weights -/

def getSubExpressions (signedWeight : Nat) : Nat × Nat × Nat :=
  let d := signedWeight.log2
  let y := 2 ^ (2 * d) + 2 ^ (d + 2) * signedWeight + signedWeight * signedWeight
  let x := (signedWeight * signedWeight - 2 ^ (2 * d)) * 3 * 2 ^ precisionBits
  let w := d * (ln2IntApproximation - 1)
  (y, x, w)

def verifyWeights (signedWeight lnProvenWeight numOfReveals strengthTarget : Nat) : Except StateProofError Unit :=
  if numOfReveals > maxReveals then .error .tooManyReveals
  else if signedWeight = 0 then .error .zeroSignedWeight
  else
    let (y, x, w) := getSubExpressions signedWeight
    let lhs := numOfReveals * (x + w * y)
    let rhs := (strengthTarget * ln2IntApproximation + numOfReveals * lnProvenWeight) * y
    if lhs < rhs then .error .insufficientSignedWeight else .ok ()

/-- `x + (w - lnProvenWeight) * y`, where that is not negative. -/
def revealsDenom (y x w lnProvenWeight : Nat) : Except StateProofError Nat :=
  if w ≥ lnProvenWeight then .ok (x + (w - lnProvenWeight) * y)
  else
    let sub := (lnProvenWeight - w) * y
    if sub ≥ x then .error .negativeNumOfRevealsEquation else .ok (x - sub)

/-- The smallest number of reveals that `verifyWeights` accepts. -/
def numReveals (signedWeight lnProvenWeight strengthTarget : Nat) : Except StateProofError Nat := do
  let (y, x, w) := getSubExpressions signedWeight
  let numerator := strengthTarget * ln2IntApproximation * y
  let denom ← revealsDenom y x w lnProvenWeight
  if denom = 0 then .error .negativeNumOfRevealsEquation
  else
    let res := numerator / denom + 1
    if res > maxReveals then .error .tooManyReveals else .ok res

/-! ## The verifier -/

structure Verifier where
  strengthTarget : Nat
  lnProvenWeight : Nat
  participantsCommitment : GenericDigest

def Verifier.withLnProvenWeight (participantsCommitment : GenericDigest) (lnProvenWeight strengthTarget : Nat) : Verifier :=
  ⟨strengthTarget, lnProvenWeight, participantsCommitment⟩

def verifyStateProofAlgorithms (s : StateProof) : Except StateProofError Unit := do
  let expected := HashType.sumhash
  let hashSize := expected.digestSize
  if s.sigProofs.hashFactory.hashType ≠ expected then
    throw (.invalidHashType "SigProofs" s.sigProofs.hashFactory.hashType expected)
  if s.partProofs.hashFactory.hashType ≠ expected then
    throw (.invalidHashType "PartProofs" s.partProofs.hashFactory.hashType expected)
  if s.sigCommit.length ≠ hashSize then throw (.invalidSigCommitSize s.sigCommit.length hashSize)
  s.reveals.forM (fun (_, reveal) =>
    let sig := reveal.sigSlot.sig
    if sig.isZero = false ∧ sig.proof.proof.hashFactory.hashType ≠ expected then
      throw (.invalidHashType "reveal Merkle signature proof" sig.proof.proof.hashFactory.hashType expected)
    else pure ())

def verifyStateProofTreesDepth (s : StateProof) : Except StateProofError Unit := do
  if s.sigProofs.treeDepth > maxTreeDepth then throw .treeDepthTooLarge
  if s.partProofs.treeDepth > maxTreeDepth then throw .treeDepthTooLarge

section Parameters

variable (F : HashFunctions) (falcon : MerkleSig.Falcon) (coins : CoinChoiceSeed → Nat → Nat)

def buildCommittableSignature (sigCommit : SigSlotCommit) : Except StateProofError CommittableSignatureSlot := do
  if sigCommit.sig.isZero then return ⟨0, [], true⟩
  if sigCommit.sig.signature.isEmpty then throw .emptyFalconSignature
  if sigCommit.sig.proof.proof.treeDepth > MerkleSig.maxEncodedTreeDepth then throw .proofTreeDepthTooLarge
  let sigBytes ← (sigCommit.sig.getFixedLengthHashableRepresentation falcon).mapError (fun e => .internal e.text)
  return ⟨sigCommit.l, sigBytes, false⟩

def verifyParticipant (round pos : Nat) (data : Bytes32) (part : Participant) (sig : MerkleSig.Signature) :
    Except StateProofError Unit :=
  (part.pk.verifyBytes falcon F round (beBytes 32 data.toNat) sig).mapError (fun e =>
    .signatureVerificationFailed pos e.text)

/-- The coin of each position falls within the weight of its reveal. -/
def verifyCoins (reveals : List (Nat × Reveal)) : List (Nat × Nat) → Except StateProofError Unit
  | [] => .ok ()
  | (pos, coin) :: rest => do
    match reveals.lookup pos with
    | none => throw (.noRevealInPos pos)
    | some reveal =>
      let l := reveal.sigSlot.l
      let upper ← addWeights l reveal.part.weight
      if ¬ (l ≤ coin ∧ coin < upper) then throw (.coinNotInRange pos coin)
      verifyCoins reveals rest

def Verifier.verify (v : Verifier) (round : Nat) (data : Bytes32) (s : StateProof) : Except StateProofError Unit := do
  verifyStateProofAlgorithms s
  verifyStateProofTreesDepth s
  verifyWeights s.signedWeight v.lnProvenWeight s.positionsToReveal.length v.strengthTarget
  s.reveals.forM (fun (_, reveal) =>
    (reveal.sigSlot.sig.validateSaltVersion falcon s.merkleSignatureSaltVersion).mapError (fun _ => .saltVersionMismatch))
  let sigElems ← s.reveals.mapM (fun (pos, r) => do
    let sig ← buildCommittableSignature falcon r.sigSlot
    verifyParticipant F falcon round pos data r.part r.sigSlot.sig
    return (pos, sig.toBeHashed))
  (verifyVectorCommitment F s.sigCommit sigElems s.sigProofs).mapError .sigVectorCommitmentFailed
  let partElems := s.reveals.map (fun (pos, r) => (pos, r.part.toBeHashed))
  (verifyVectorCommitment F v.participantsCommitment partElems s.partProofs).mapError .partVectorCommitmentFailed
  let choice : CoinChoiceSeed := ⟨v.participantsCommitment, v.lnProvenWeight, s.sigCommit, s.signedWeight, data⟩
  verifyCoins s.reveals (s.positionsToReveal.zip ((List.range s.positionsToReveal.length).map (coins choice)))

/-! ## The prover -/

structure ProverSigSlot where
  weight : Nat
  commit : SigSlotCommit
deriving DecidableEq, Repr, Inhabited

structure Prover where
  data : Bytes32
  round : Nat
  participants : List Participant
  partTree : Tree
  lnProvenWeight : Nat
  provenWeight : Nat
  strengthTarget : Nat
  sigs : List ProverSigSlot
  signedWeight : Nat
  cachedProof : Option StateProof

namespace Prover

/-- `lnProvenWeight` stands for the logarithm of the proven weight. -/
def makeProver (data : Bytes32) (round lnProvenWeight provenWeight : Nat) (participants : List Participant)
    (partTree : Tree) (strengthTarget : Nat) : Prover where
  data := data
  round := round
  participants := participants
  partTree := partTree
  lnProvenWeight := lnProvenWeight
  provenWeight := provenWeight
  strengthTarget := strengthTarget
  sigs := List.replicate participants.length ⟨0, ⟨⟨[], 0, ⟨⟨[], ⟨.sha512_256⟩, 0⟩⟩, ⟨0⟩⟩, 0⟩⟩
  signedWeight := 0
  cachedProof := none

def present (p : Prover) (pos : Nat) : Except StateProofError Bool :=
  match p.sigs[pos]? with
  | none => .error (.positionOutOfBound pos p.sigs.length)
  | some slot => .ok (decide (slot.weight ≠ 0))

def isValid (p : Prover) (pos : Nat) (sig : MerkleSig.Signature) (verifySig : Bool) : Except StateProofError Unit :=
  match p.participants[pos]? with
  | none => .error (.positionOutOfBound pos p.participants.length)
  | some part =>
    if part.weight = 0 then .error (.positionWithZeroWeight pos)
    else if verifySig then do
      (sig.validateSaltVersion falcon merkleSignatureSchemeSaltVersion).mapError (fun _ => .saltVersionMismatch)
      verifyParticipant F falcon p.round pos p.data part sig
    else .ok ()

def ready (p : Prover) : Bool := p.cachedProof.isSome || decide (p.signedWeight > p.provenWeight)

/-- Add a signature that `isValid` accepts; the source panics where the participant is missing. -/
def add (pos : Nat) (sig : MerkleSig.Signature) : EStateM StateProofError Prover Unit := fun p =>
  match p.present pos with
  | .error e => .error e p
  | .ok true => .error .positionAlreadyPresent p
  | .ok false =>
    let weight := (p.participants[pos]?.getD default).weight
    let slot := p.sigs[pos]?.getD default
    let p := { p with sigs := p.sigs.set pos { slot with weight := weight, commit := { slot.commit with sig := sig } } }
    match addWeights p.signedWeight weight with
    | .error e => .error e p
    | .ok signedWeight => .ok () { p with signedWeight := signedWeight, cachedProof := none }

/-- Search for the slot that a coin falls in, between `lo` and `hi`; the interval shrinks at each step. -/
def coinIndexFrom (sigs : List ProverSigSlot) (coinWeight : Nat) : Nat → Nat → Nat → Except StateProofError Nat
  | 0, lo, hi => .error (.coinIndexError lo hi coinWeight)
  | fuel + 1, lo, hi =>
    if lo ≥ hi then .error (.coinIndexError lo hi coinWeight)
    else
      let mid := (lo + hi) / 2
      let slot := sigs.getD mid default
      if coinWeight < slot.commit.l then coinIndexFrom sigs coinWeight fuel lo mid
      else do
        let upper ← addWeights slot.commit.l slot.weight
        if coinWeight < upper then return mid
        coinIndexFrom sigs coinWeight fuel (mid + 1) hi

def coinIndex (sigs : List ProverSigSlot) (coinWeight : Nat) : Except StateProofError Nat :=
  coinIndexFrom sigs coinWeight (sigs.length + 1) 0 sigs.length

/-- The slots after one, each with the weight below it. -/
def fillFrom (prev : ProverSigSlot) : List ProverSigSlot → Except StateProofError (List ProverSigSlot)
  | [] => .ok []
  | next :: rest => do
    let l ← addWeights prev.commit.l prev.weight
    let slot := { next with commit := { next.commit with l := l } }
    let filled ← fillFrom slot rest
    return slot :: filled

/-- The first slot keeps its prefix, which is zero. -/
def fillPrefixes : List ProverSigSlot → Except StateProofError (List ProverSigSlot)
  | [] => .ok []
  | slot :: rest => do
    let filled ← fillFrom slot rest
    return slot :: filled

def proverSigArray (sigs : List ProverSigSlot) : HashArray where
  length := sigs.length
  marshal pos :=
    ((buildCommittableSignature falcon (sigs.getD pos default).commit).mapError (fun e => .arrayError e.text)).map
      CommittableSignatureSlot.toBeHashed

structure RevealState where
  reveals : List (Nat × Reveal)
  proofPositions : List Nat
  revealsSequence : List Nat

/-- Reveal the slots that the coins fall in, each once. -/
def revealCoins (sigs : List ProverSigSlot) (participants : List Participant) :
    List Nat → RevealState → Except StateProofError RevealState
  | [], st => .ok st
  | coin :: rest, st => do
    let pos ← coinIndex sigs coin
    if pos ≥ participants.length then throw (.positionOutOfBound pos participants.length)
    let st := { st with revealsSequence := st.revealsSequence ++ [pos] }
    if (st.reveals.lookup pos).isSome then revealCoins sigs participants rest st
    else
      let reveal := ⟨(sigs.getD pos default).commit, participants.getD pos default⟩
      revealCoins sigs participants rest { st with
        reveals := st.reveals.orderedInsert (fun a b => a.1 ≤ b.1) (pos, reveal)
        proofPositions := st.proofPositions ++ [pos] }

/-- The proof of a prover whose slots have their prefixes. -/
def buildProof (p : Prover) : Except StateProofError StateProof := do
  let sigTree ← (buildVectorCommitmentTree F (proverSigArray falcon p.sigs) ⟨.sumhash⟩).mapError (fun e => .internal e.text)
  let nr ← numReveals p.signedWeight p.lnProvenWeight p.strengthTarget
  let choice : CoinChoiceSeed := ⟨p.partTree.root, p.lnProvenWeight, sigTree.root, p.signedWeight, p.data⟩
  let st ← revealCoins p.sigs p.participants ((List.range nr).map (coins choice)) ⟨[], [], []⟩
  let sigProofs ← (sigTree.prove F st.proofPositions).mapError (fun e => .internal e.text)
  let partProofs ← (p.partTree.prove F st.proofPositions).mapError (fun e => .internal e.text)
  return ⟨sigTree.root, p.signedWeight, sigProofs, partProofs, merkleSignatureSchemeSaltVersion, st.reveals,
    st.revealsSequence⟩

def createProof : EStateM StateProofError Prover StateProof := fun p =>
  match p.cachedProof with
  | some cached => .ok cached p
  | none =>
    if p.ready = false then .error (.signedWeightLessThanProvenWeight p.signedWeight p.provenWeight) p
    else
      match fillPrefixes p.sigs with
      | .error e => .error e p
      | .ok sigs =>
        -- the prefixes stay in the slots, whatever follows
        let p := { p with sigs := sigs }
        match p.buildProof F falcon coins with
        | .error e => .error e p
        | .ok s => .ok s { p with cachedProof := some s }

end Prover

end Parameters

end Crypto
end Algod
