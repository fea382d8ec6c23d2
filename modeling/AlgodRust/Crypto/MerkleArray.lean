import Mathlib.Data.List.Sort
import Mathlib.Data.BitVec
import AlgodRust.Lib.Run
import AlgodRust.Lib.Msgpack
/-!
# MerkleArray — Merkle trees over arrays, and vector commitments

A tree is the list of its layers, leaves first.  A vector commitment pads the array to a power of two with a bottom
element and puts element `i` at the leaf whose position is `i` with its bits reversed.  A proof carries the siblings that
the positions to prove do not give each other, the depth of the tree and its hash; the verifier climbs from the leaves
for as long as there are siblings left or more than one position.  The hash functions are arbitrary, up to the size of
their digests.
-/
namespace Algod
namespace Crypto

open Msgpack (Bytes)

/-! ## Hashes -/

inductive HashType
  | sha512_256
  | sumhash
  | sha256
  | sha512
deriving DecidableEq, Repr, Inhabited

def HashType.digestSize : HashType → Nat
  | .sha512_256 => 32
  | .sumhash => 64
  | .sha256 => 32
  | .sha512 => 64

theorem HashType.digestSize_pos (t : HashType) : 0 < t.digestSize := by
  cases t <;> decide

/-- The hash functions, one for each type. -/
structure HashFunctions where
  hash : HashType → Bytes → Bytes
  length_hash : ∀ t bs, (hash t bs).length = t.digestSize

structure HashFactory where
  hashType : HashType
deriving DecidableEq, Repr, Inhabited

def HashFactory.digestSize (factory : HashFactory) : Nat := factory.hashType.digestSize

abbrev GenericDigest := Bytes

/-- A layer of the tree, from left to right. -/
abbrev Layer := List GenericDigest

/-- What an object gives to be hashed: the prefix of its domain and its bytes. -/
structure Hashable where
  hashPrefix : Bytes
  data : Bytes
deriving DecidableEq, Repr, Inhabited

def Hashable.input (h : Hashable) : Bytes := h.hashPrefix ++ h.data

-- "MA" and "MB"
def maPrefix : Bytes := [0x4d, 0x41]
def mbPrefix : Bytes := [0x4d, 0x42]

inductive MerkleError
  | rootMismatch
  | provingZeroCommitment
  | nonEmptyProofForEmptyElements
  | posOutOfBound (pos bound : Nat)
  | pathElementSizeMismatch (index len digestSize : Nat)
  | noMoreSiblingHints
  | levelBeyondTreeHeight (level height : Nat)
  | internalError (msg : String)
  | arrayError (msg : String)
  -- not an error value: a shift by 64 or more, which panics in a build with overflow checks
  | shiftOverflow
deriving DecidableEq, Repr

/-- The text of an error. -/
def MerkleError.text : MerkleError → String
  | .rootMismatch => "root mismatch"
  | .provingZeroCommitment => "proving in zero-length commitment"
  | .nonEmptyProofForEmptyElements => "non-empty proof for empty set of elements"
  | .posOutOfBound pos bound => s!"pos {pos} out of bound {bound}"
  | .pathElementSizeMismatch index len digestSize =>
    s!"proof path element length does not match digest size: path element {index} length {len}, digest size {digestSize}"
  | .noMoreSiblingHints => "no more sibling hints"
  | .levelBeyondTreeHeight level height => s!"level {level} beyond tree height {height}"
  | .internalError msg => s!"internal error: {msg}"
  | .arrayError msg => s!"array error: {msg}"
  | .shiftOverflow => "attempt to shift left with overflow"

/-- `1u64 << bits`. -/
def oneShl (bits : Nat) : Except MerkleError Nat := if bits < 64 then .ok (2 ^ bits) else .error .shiftOverflow

/-! ## Arrays -/

/-- The leaves given to the tree builder. -/
structure HashArray where
  length : Nat
  marshal : Nat → Except MerkleError Hashable

/-- The number of bits of a number: 64 less the leading zeros. -/
def bitLen (n : Nat) : Nat := if n = 0 then 0 else n.log2 + 1

/-- An index read with its `pathLen` bits reversed. -/
def merkleTreeToVectorCommitmentIndex (msbIndex pathLen : Nat) : Except MerkleError Nat :=
  if pathLen = 0 then
    if msbIndex ≠ 0 then .error (.posOutOfBound msbIndex 1) else .ok 0
  else do
    let bound ← oneShl pathLen
    if msbIndex ≥ bound then .error (.posOutOfBound msbIndex bound)
    else .ok ((BitVec.ofNat 64 msbIndex).reverse.toNat >>> (64 - pathLen))

def bottomElement : Hashable := ⟨mbPrefix, []⟩

/-- An array padded to a power of two, its indices reversed. -/
structure VectorCommitmentArray where
  inner : HashArray
  pathLen : Nat
  paddedLen : Nat

namespace VectorCommitmentArray

def new (inner : HashArray) : Except MerkleError VectorCommitmentArray :=
  if inner.length ≤ 1 then .ok ⟨inner, 1, 1⟩
  else do
    let path := bitLen (inner.length - 1)
    let fullSize ← oneShl path
    return ⟨inner, path, fullSize⟩

def marshal (array : VectorCommitmentArray) (pos : Nat) : Except MerkleError Hashable := do
  let lsbIndex ← merkleTreeToVectorCommitmentIndex pos array.pathLen
  if lsbIndex ≥ array.paddedLen then .error (.posOutOfBound pos array.paddedLen)
  else if lsbIndex < array.inner.length then array.inner.marshal lsbIndex
  else .ok bottomElement

end VectorCommitmentArray

/-! ## Trees -/

structure Tree where
  levels : List Layer
  numOfElements : Nat
  hash : HashFactory
  isVectorCommitment : Bool
deriving DecidableEq, Repr

structure Proof where
  path : List GenericDigest
  hashFactory : HashFactory
  treeDepth : Nat
deriving DecidableEq, Repr, Inhabited

/-- The root; an empty tree has the empty digest. -/
def Tree.root (tree : Tree) : GenericDigest := ((tree.levels.getLast?).getD []).headD []

/-- Cut or zero-extend to `n` bytes. -/
def resize (n : Nat) (bs : Bytes) : Bytes := bs.take n ++ List.replicate (n - bs.length) 0

/-- The input of an inner node as the builder writes it: the right child may be missing. -/
def pairBuffer (digestSize : Nat) (left : GenericDigest) (right : Option GenericDigest) : Bytes :=
  let buf := if left.length < digestSize then resize digestSize left else left
  match right with
  | some right =>
    let buf := buf ++ right
    if right.length < digestSize then resize (2 * digestSize) buf else buf
  | none => resize (2 * digestSize) buf

/-- The input of an inner node as the verifier writes it: each child in its own slot. -/
def pairToBeHashed (left right : GenericDigest) (digestSize : Nat) : Bytes :=
  resize digestSize left ++ resize digestSize right

structure LayerItem where
  pos : Nat
  hash : GenericDigest
deriving DecidableEq, Repr

/-- Where a sibling that is not in the partial layer comes from. -/
abbrev Siblings := Nat → Nat → EStateM MerkleError (List GenericDigest) GenericDigest

section Hashed

variable (F : HashFunctions)

def HashFactory.hashBytes (factory : HashFactory) (parts : List Bytes) : GenericDigest :=
  F.hash factory.hashType parts.flatten

def genericHashObj (factory : HashFactory) (h : Hashable) : GenericDigest :=
  factory.hashBytes F [h.hashPrefix, h.data]

def buildNextLayer (factory : HashFactory) : Layer → Layer
  | [] => []
  | [left] => [factory.hashBytes F [maPrefix, pairBuffer factory.digestSize left none]]
  | left :: right :: rest =>
    factory.hashBytes F [maPrefix, pairBuffer factory.digestSize left (some right)] :: buildNextLayer factory rest

/-- Layers are built until one has a single node; each has fewer nodes than the one below, so the number of leaves is
fuel enough. -/
def buildLayers (factory : HashFactory) : Nat → Layer → List Layer
  | 0, leaves => [leaves]
  | fuel + 1, leaves =>
    if leaves.length > 1 then leaves :: buildLayers factory fuel (buildNextLayer F factory leaves) else [leaves]

def buildTree (leaves : Layer) (factory : HashFactory) (numOfElements : Nat) (isVectorCommitment : Bool) : Tree where
  levels := if leaves = [] then [] else buildLayers F factory leaves.length leaves
  numOfElements := numOfElements
  hash := factory
  isVectorCommitment := isVectorCommitment

/-- The digests of the leaves. -/
def hashLeaves (length : Nat) (marshal : Nat → Except MerkleError Hashable) (factory : HashFactory) :
    Except MerkleError Layer :=
  (List.range length).mapM (fun i => do
    let elem ← (marshal i).mapError (fun e => .arrayError e.text)
    return genericHashObj F factory elem)

def build (array : HashArray) (factory : HashFactory) : Except MerkleError Tree := do
  let leaves ← hashLeaves F array.length array.marshal factory
  return buildTree F leaves factory array.length false

def buildVectorCommitmentTree (array : HashArray) (factory : HashFactory) : Except MerkleError Tree := do
  let vcArray ← VectorCommitmentArray.new array
  let leaves ← hashLeaves F vcArray.paddedLen vcArray.marshal factory
  return buildTree F leaves factory array.length true

/-! ## Partial layers -/

/-- The parent of an item, given its sibling. -/
def LayerItem.up (factory : HashFactory) (digestSize : Nat) (doHash : Bool) (item : LayerItem) (sibling : GenericDigest) :
    LayerItem where
  pos := item.pos / 2
  hash :=
    if doHash then
      factory.hashBytes F [maPrefix,
        if item.pos % 2 = 0 then pairToBeHashed item.hash sibling digestSize
        else pairToBeHashed sibling item.hash digestSize]
    else []

/-- Move a partial layer one level up. -/
def partialLayerUp (siblings : Siblings) (level : Nat) (doHash : Bool) (factory : HashFactory) (digestSize : Nat) :
    List LayerItem → EStateM MerkleError (List GenericDigest) (List LayerItem)
  | [] => pure []
  | [item] => do
    let sibling ← siblings level (item.pos ^^^ 1)
    return [item.up F factory digestSize doHash sibling]
  | item :: next :: rest =>
    if next.pos = item.pos ^^^ 1 then do
      let above ← partialLayerUp siblings level doHash factory digestSize rest
      return item.up F factory digestSize doHash next.hash :: above
    else do
      let sibling ← siblings level (item.pos ^^^ 1)
      let above ← partialLayerUp siblings level doHash factory digestSize (next :: rest)
      return item.up F factory digestSize doHash sibling :: above

/-! ## Proving -/

/-- The siblings of the prover: read from the tree, and kept as the hints of the proof. -/
def siblingsProve (tree : Tree) : Siblings := fun level pos hints =>
  if level ≥ tree.levels.length then .error (.levelBeyondTreeHeight level tree.levels.length) hints
  else
    let result := (tree.levels.getD level []).getD pos []
    .ok result (hints ++ [result])

/-- The items of sorted positions, a repeated one once. -/
def leafItems (leaves : Layer) : Option Nat → List Nat → List LayerItem
  | _, [] => []
  | prev, pos :: rest =>
    if prev = some pos then leafItems leaves prev rest
    else ⟨pos, leaves.getD pos []⟩ :: leafItems leaves (some pos) rest

/-- The levels `l, l + 1, …` of the loop, `n` of them. -/
def proveLevels (tree : Tree) : Nat → Nat → List LayerItem → EStateM MerkleError (List GenericDigest) (List LayerItem)
  | 0, _, pl => pure pl
  | n + 1, l, pl => do
    let above ← partialLayerUp F (siblingsProve tree) l false tree.hash tree.hash.digestSize pl
    proveLevels tree n (l + 1) above

def Tree.createProof (tree : Tree) (idxs : List Nat) : Except MerkleError Proof :=
  match proveLevels F tree (tree.levels.length - 1) 0 (leafItems (tree.levels.headD []) none idxs) [] with
  | .error e _ => .error e
  | .ok pl hints =>
    if pl.length ≠ 1 then .error (.internalError s!"partial layer produced {pl.length} hashes")
    else .ok ⟨hints, tree.hash, tree.levels.length - 1⟩

def Tree.createEmptyProof (tree : Tree) : Proof := ⟨[], tree.hash, tree.levels.length - 1⟩

def Tree.convertLeavesIndexes (tree : Tree) (idxs : List Nat) : Except MerkleError (List Nat) :=
  idxs.mapM (fun idx => merkleTreeToVectorCommitmentIndex idx (tree.levels.length - 1))

def Tree.prove (tree : Tree) (idxs : List Nat) : Except MerkleError Proof := do
  if idxs = [] then return tree.createEmptyProof
  if tree.numOfElements = 0 then throw .provingZeroCommitment
  idxs.forM (fun idx =>
    if idx ≥ tree.numOfElements then throw (.posOutOfBound idx tree.numOfElements) else pure ())
  let sortedIdxs ← if tree.isVectorCommitment then tree.convertLeavesIndexes idxs else pure idxs
  tree.createProof F (sortedIdxs.insertionSort (· ≤ ·))

/-! ## Verifying -/

/-- The siblings of the verifier: the hints of the proof, in order. -/
def siblingsVerify : Siblings := fun _ _ hints =>
  match hints with
  | [] => .error .noMoreSiblingHints []
  | hint :: rest => .ok hint rest

/-- Climb while hints are left or there is more than one item. -/
def verifyLevels (factory : HashFactory) (digestSize : Nat) :
    Nat → Nat → List LayerItem → EStateM MerkleError (List GenericDigest) (List LayerItem)
  | 0, _, pl => pure pl
  | fuel + 1, l, pl => fun hints =>
    if hints ≠ [] ∨ pl.length > 1 then
      (do
        let above ← partialLayerUp F siblingsVerify l true factory digestSize pl
        verifyLevels factory digestSize fuel (l + 1) above) hints
    else .ok pl hints

def inspectRoot (root : GenericDigest) : List LayerItem → Except MerkleError Unit
  | [] => .error (.internalError "empty partial layer")
  | computed :: _ => if computed.pos ≠ 0 ∨ computed.hash ≠ root then .error .rootMismatch else .ok ()

/-- Every level consumes a hint or an item, so there are fewer levels than hints and items. -/
def verifyPath (root : GenericDigest) (proof : Proof) (pl : List LayerItem) (digestSize : Nat) :
    Except MerkleError Unit := do
  proof.path.zipIdx.forM (fun (hint, i) =>
    if hint ≠ [] ∧ hint.length ≠ digestSize then throw (.pathElementSizeMismatch i hint.length digestSize) else pure ())
  match verifyLevels F proof.hashFactory digestSize (proof.path.length + pl.length) 0 pl proof.path with
  | .error e _ => .error e
  | .ok pl _ => inspectRoot root pl

/-- The elements to verify, hashed. -/
def verifyItems (proof : Proof) (elems : List (Nat × Hashable)) : Except MerkleError (List LayerItem) :=
  elems.mapM (fun (pos, elem) => do
    let bound ← oneShl proof.treeDepth
    if pos ≥ bound then throw (.posOutOfBound pos bound)
    return ⟨pos, genericHashObj F proof.hashFactory elem⟩)

def verify (root : GenericDigest) (elems : List (Nat × Hashable)) (proof : Proof) : Except MerkleError Unit := do
  if elems = [] then
    if proof.path ≠ [] then throw .nonEmptyProofForEmptyElements
    return ()
  let hashedLeaves ← verifyItems F proof elems
  verifyPath F root proof (hashedLeaves.insertionSort (fun a b => a.pos ≤ b.pos)) proof.hashFactory.digestSize

def verifyVectorCommitment (root : GenericDigest) (elems : List (Nat × Hashable)) (proof : Proof) :
    Except MerkleError Unit := do
  let converted ← elems.mapM (fun (idx, elem) => do
    let vcIdx ← merkleTreeToVectorCommitmentIndex idx proof.treeDepth
    return (vcIdx, elem))
  verify F root converted proof

end Hashed

end Crypto
end Algod
