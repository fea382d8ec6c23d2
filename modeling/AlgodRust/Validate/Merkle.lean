import AlgodRust.Codec.Canonical
/-!
# Merkle — the commitments of a block header to its payset

A header commits to the payset by the root of a Merkle tree (or, before, by a hash of the whole payset) and, where the
protocol has them, by two vector commitments.  The hash functions are arbitrary.  A payset entry is hashed by its
encoding in the block, which is either re-encoded from the entry or handed over as it came (`rawBlobs`); an id is the
hash of the transaction with its genesis fields restored.
-/
namespace Algod
namespace Validate

open Msgpack Ledger Codec

/-- The three hash functions of the commitments. -/
structure Hashes where
  sha512_256 : Bytes → Bytes32
  sha256 : Bytes → Bytes32
  sha512 : Bytes → Bytes64

def digestBytes {w : Nat} (d : BitVec w) : Bytes := beBytes (w / 8) d.toNat

/-! ## Layers -/

section Layers

variable {α : Type}

/-- The parents of a layer, paired from the left; `last` is what an unpaired child becomes. -/
def nextLayer (node : α → α → α) (last : α → List α) : List α → List α
  | [] => []
  | [child] => last child
  | left :: right :: rest => node left right :: nextLayer node last rest

theorem length_nextLayer (node : α → α → α) (last : α → List α) (hlast : ∀ c, (last c).length ≤ 1) :
    ∀ layer : List α, 2 * (nextLayer node last layer).length ≤ layer.length + 1
  | [] => Nat.zero_le _
  | [c] => by
    have := hlast c
    simp only [nextLayer, List.length_cons, List.length_nil]
    omega
  | l :: r :: rest => by
    have := length_nextLayer node last hlast rest
    simp only [nextLayer, List.length_cons]
    omega

/-- Layers are built until one node is left. -/
def treeRoot (node : α → α → α) (last : α → List α) (hlast : ∀ c, (last c).length ≤ 1) (layer : List α) : Option α :=
  if layer.length > 1 then treeRoot node last hlast (nextLayer node last layer) else layer.head?
termination_by layer.length
decreasing_by
  have := length_nextLayer node last hlast layer
  omega

theorem treeRoot_nil (node : α → α → α) (last : α → List α) (hlast : ∀ c, (last c).length ≤ 1) :
    treeRoot node last hlast [] = none := by
  rw [treeRoot]
  exact if_neg (by simp)

end Layers

section Commitments

variable (H : Hashes) (protocols : String → Option ConsensusParams) (defaultParams : ConsensusParams)

/-- The rule of the block's protocol; an unknown protocol gets the rule of the default parameters. -/
def ruleForBlock (block : Block) : GenesisRestoreRule :=
  .forParams ((protocols block.currentProtocol).getD defaultParams) block

/-- The encodings of the payset's entries: the raw ones where they are given. -/
def stibEncodings (block : Block) (rawBlobs : Option (List Bytes)) : List Bytes :=
  rawBlobs.getD (block.payset.map canonicalEncodeSignedTxnInBlock)

/-! ## The Merkle root and the flat commitment -/

def computeTxid (txn : Transaction) : Bytes32 := H.sha512_256 (utf8 "TX" ++ canonicalEncodeTransaction txn)
def computeStibHash (stib : Bytes) : Bytes32 := H.sha512_256 (utf8 "STIB" ++ stib)

def computeLeafHash (txid stibHash : Bytes32) : Bytes32 :=
  H.sha512_256 (utf8 "TL" ++ digestBytes txid ++ digestBytes stibHash)

def computeInternalHash (left right : Bytes32) : Bytes32 :=
  H.sha512_256 (utf8 "MA" ++ digestBytes left ++ digestBytes right)

/-- A child without a sibling is paired with the zero hash; an empty payset has the zero hash. -/
def computePaysetMerkleRoot (block : Block) (rawBlobs : Option (List Bytes)) : Bytes32 :=
  let rule := ruleForBlock protocols defaultParams block
  let leaves := (block.payset.zip (stibEncodings block rawBlobs)).map (fun p =>
    computeLeafHash H (computeTxid H (rule.restoredTxn p.1)) (computeStibHash H p.2))
  (treeRoot (computeInternalHash H) (fun c => [computeInternalHash H c 0]) (fun _ => le_refl _) leaves).getD 0

theorem computePaysetMerkleRoot_of_nil {block : Block} (h : block.payset = []) (rawBlobs : Option (List Bytes)) :
    computePaysetMerkleRoot H protocols defaultParams block rawBlobs = 0 := by
  unfold computePaysetMerkleRoot
  simp only [h, List.zip_nil_left, List.map_nil, treeRoot_nil, Option.getD_none]

def computePaysetFlatCommitment (block : Block) (rawBlobs : Option (List Bytes)) : Bytes32 :=
  let stibs := stibEncodings block rawBlobs
  -- the array header of as many entries, then the entries as they are
  H.sha512_256 (utf8 "PF" ++ if stibs = [] then Value.nil.encode
    else (⟨.array, stibs.length⟩ : Header).bytes ++ stibs.flatten)

/-! ## Vector commitments -/

inductive HashAlgo
  | sha256
  | sha512
deriving DecidableEq, Repr

def vcHash : HashAlgo → Bytes → Bytes
  | .sha256, bs => digestBytes (H.sha256 bs)
  | .sha512, bs => digestBytes (H.sha512 bs)

/-- Reverse the `depth` lowest bits. -/
def bitReverse (index depth : Nat) : Nat :=
  ((List.range depth).foldl (fun (p : Nat × Nat) _ => (2 * p.1 + p.2 % 2, p.2 / 2)) (0, index)).1

/-- The ids and entries are hashed by SHA-256 whatever the hash of the tree; leaves stand at their bit-reversed
positions, and the positions up to the next power of two hold the bottom element. -/
def computeVectorCommitment (algo : HashAlgo) (block : Block) (rawBlobs : Option (List Bytes)) : Bytes :=
  let bottom := vcHash H algo (utf8 "MB")
  if block.payset = [] then bottom
  else
    let rule := ruleForBlock protocols defaultParams block
    let leaves := (block.payset.zip (stibEncodings block rawBlobs)).map (fun p =>
      let txid := vcHash H .sha256 (utf8 "TX" ++ canonicalEncodeTransaction (rule.restoredTxn p.1))
      let stibHash := vcHash H .sha256 (utf8 "STIB" ++ p.2)
      vcHash H algo (utf8 "TL" ++ txid ++ stibHash))
    let paddedLen := block.payset.length.nextPowerOfTwo
    let depth := paddedLen.log2
    let layer := leaves.zipIdx.foldl (fun layer p => layer.set (bitReverse p.2 depth) p.1)
      (List.replicate paddedLen bottom)
    let node := fun left right => vcHash H algo (utf8 "MA" ++ left ++ right)
    (treeRoot node (fun _ => []) (fun _ => Nat.zero_le _) layer).getD bottom

/-! ## The commitments of a header -/

inductive CommitmentError
  | paysetCommitmentMismatch (expected computed : Bytes32)
  | vectorCommitmentMismatch (field : String) (expected computed : Bytes)
deriving DecidableEq, Repr

def hasPaysetCommitMerkle (version : String) : Bool :=
  (protocols version).any (fun p => decide (p.paysetCommit = .merkle))
def hasTxn256 (version : String) : Bool := (protocols version).any ConsensusParams.enableSha256TxnCommitmentHeader
def hasTxn512 (version : String) : Bool := (protocols version).any ConsensusParams.enableSha512BlockHash

/-- The commitment to the payset that the protocol has. -/
def computePaysetCommitment (block : Block) (rawBlobs : Option (List Bytes)) : Bytes32 :=
  if hasPaysetCommitMerkle protocols block.currentProtocol
  then computePaysetMerkleRoot H protocols defaultParams block rawBlobs
  else computePaysetFlatCommitment H block rawBlobs

/-- A vector commitment that the protocol has. -/
def verifyEnabled {w : Nat} (enabled : Bool) (field : String) (expected : BitVec w) (computed : Bytes) :
    List CommitmentError :=
  if enabled = true ∧ digestBytes expected ≠ computed then
    [.vectorCommitmentMismatch field (digestBytes expected) computed] else []

/-- A vector commitment that the protocol does not have must be zero. -/
def verifyDisabled {w : Nat} (enabled : Bool) (field : String) (expected : BitVec w) : List CommitmentError :=
  if enabled = false ∧ expected ≠ 0 then
    [.vectorCommitmentMismatch field (digestBytes expected) (digestBytes (0 : BitVec w))] else []

/-- Every field of the header that does not match the payset. -/
def verifyPaysetCommitments (block : Block) (rawBlobs : Option (List Bytes)) : List CommitmentError :=
  let version := block.currentProtocol
  let computed := computePaysetCommitment H protocols defaultParams block rawBlobs
  (if (block.txnCommitment ≠ 0 ∨ block.payset ≠ []) ∧ block.txnCommitment ≠ computed then
    [.paysetCommitmentMismatch block.txnCommitment computed] else []) ++
  verifyEnabled (hasTxn256 protocols version) "txn256" block.txn256
    (computeVectorCommitment H protocols defaultParams .sha256 block rawBlobs) ++
  verifyEnabled (hasTxn512 protocols version) "txn512" block.txn512
    (computeVectorCommitment H protocols defaultParams .sha512 block rawBlobs) ++
  verifyDisabled (hasTxn256 protocols version) "txn256" block.txn256 ++
  verifyDisabled (hasTxn512 protocols version) "txn512" block.txn512

inductive ProtocolError
  | empty
  | unknown (version : String)
deriving DecidableEq, Repr

def validateProtocolVersion (version : String) : Except ProtocolError Unit :=
  if version.isEmpty then .error .empty
  else if (protocols version).isNone then .error (.unknown version)
  else .ok ()

/-- Raw entries of another number than the payset's are not used. -/
def usableBlobs (block : Block) (rawBlobs : Option (List Bytes)) : Option (List Bytes) :=
  rawBlobs.filter (fun blobs => decide (blobs.length = block.payset.length))

/-- **Whether the payset of a block is the one its header commits to.** -/
def contentsMatchHeader (block : Block) (rawBlobs : Option (List Bytes)) : Except ProtocolError Bool := do
  validateProtocolVersion protocols block.currentProtocol
  return (verifyPaysetCommitments H protocols defaultParams block (usableBlobs block rawBlobs)).isEmpty

/-- A header whose commitment is not that of its payset does not match. -/
theorem contentsMatchHeader_eq_false {block : Block} {rawBlobs : Option (List Bytes)}
    (hp : validateProtocolVersion protocols block.currentProtocol = .ok ()) (h : block.txnCommitment ≠ 0)
    (hne : block.txnCommitment ≠
      computePaysetCommitment H protocols defaultParams block (usableBlobs block rawBlobs)) :
    contentsMatchHeader H protocols defaultParams block rawBlobs = .ok false := by
  unfold contentsMatchHeader
  rw [hp]
  have hcons : (verifyPaysetCommitments H protocols defaultParams block (usableBlobs block rawBlobs)).isEmpty = false := by
    unfold verifyPaysetCommitments
    simp only
    rw [if_pos ⟨.inl h, hne⟩]
    rfl
  rw [hcons]
  rfl

end Commitments

end Validate
end Algod
