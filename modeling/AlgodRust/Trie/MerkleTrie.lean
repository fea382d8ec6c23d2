import AlgodRust.Trie.Cache
/-!
# MerkleTrie — adding, deleting, looking up, hashing

A trie over elements of one length.  An internal node branches on one byte; a leaf holds what is left of its element.
Adding and deleting give every node on the path a fresh number, so that a node that was not created since the last commit
is as it was then, hash included.  An element that is there already is not added again, and one that is not there is not
deleted.
-/
namespace Algod
namespace Trie

open Run
open Msgpack (Bytes)

structure MerkleTrie where
  root : Option Nat
  cache : MerkleTrieCache
  elementLength : Nat
  dirty : Bool

abbrev TrieM := EStateM TrieError MerkleTrie

namespace MerkleTrie

def withCacheTarget (elementLength target : Nat) : MerkleTrie := ⟨none, .withTarget target, elementLength, false⟩

def setCache (t : MerkleTrie) (c : MerkleTrieCache) : MerkleTrie := { t with cache := c }

end MerkleTrie

def allocateNode (n : TrieNode) : TrieM Nat := fun t =>
  let r := t.cache.allocate n
  .ok r.2 { t with cache := r.1, dirty := true }

def refurbishNode (id : Nat) : TrieM Nat := fun t =>
  match t.cache.refurbish id with
  | none => .error .panic { t with dirty := true }
  | some r => .ok r.2 { t with cache := r.1, dirty := true }

def deleteNode (id : Nat) : TrieM Unit := modify fun t => t.setCache (t.cache.delete id)

/-- The first place where two byte strings differ; `none` where one of them ends before. -/
def diverge : Bytes → Bytes → Option Nat
  | a :: as, b :: bs => if a = b then (diverge as bs).map (· + 1) else some 0
  | _, _ => none

section Store

variable (store : PageStore)

def getNode (id : Nat) : TrieM TrieNode := fun t =>
  let r := t.cache.get store id
  match r.2 with
  | none => .error (.missingNode id) (t.setCache r.1)
  | some n => .ok n (t.setCache r.1)

def updateNode (id : Nat) (f : TrieNode → TrieNode) : TrieM TrieNode := fun t =>
  let r := t.cache.getMut store id f
  match r.2 with
  | none => .error (.missingNode id) (t.setCache r.1)
  | some n => .ok n (t.setCache r.1)

/-! ## Lookup -/

/-- The child on byte `b`: the mask is asked, then the list. -/
def childAt (n : TrieNode) (b : UInt8) : TrieM Nat :=
  match n.children[n.indexOf b]? with
  | none => throw .panic
  | some c => pure c.childId

def nodeFind : Bytes → Nat → TrieM Bool
  | [], id => do
    let n ← getNode store id
    return n.isLeaf && decide ([] = n.hash)
  | b :: rest, id => do
    let n ← getNode store id
    if n.isLeaf then return decide (b :: rest = n.hash)
    else if b ∈ n.childrenMask then do
      let child ← childAt n b
      nodeFind rest child
    else return false

/-! ## Adding -/

/-- The two children of a branch, in the order of their bytes. -/
def branchChildren (b : UInt8) (id : Nat) (b' : UInt8) (id' : Nat) : List ChildEntry :=
  if b < b' then [⟨b, id⟩, ⟨b', id'⟩] else [⟨b', id'⟩, ⟨b, id⟩]

/-- The nodes with one child above a branch, from the branch up. -/
def allocateAncestors (d path : Bytes) : List Nat → Nat → TrieM Nat
  | [], top => pure top
  | i :: is, top =>
    match d[i]? with
    | none => throw .panic
    | some b => do
      let top ← allocateNode ⟨path ++ d.take i, [⟨b, top⟩], {b}⟩
      allocateAncestors d path is top

/-- Replace a leaf by a branch to it and to the new element, with a node for every byte they share. -/
def splitLeaf (id : Nat) (held d path : Bytes) : TrieM Nat :=
  match diverge held d with
  | none => throw .panic
  | some i =>
    match held[i]?, d[i]? with
    | some b, some b' => do
      let cur ← allocateNode (.leaf (held.drop (i + 1)))
      let new ← allocateNode (.leaf (d.drop (i + 1)))
      let branch ← allocateNode ⟨path ++ d.take i, branchChildren b cur b' new, {b, b'}⟩
      let top ← allocateAncestors d path (List.range i).reverse branch
      deleteNode id
      return top
    | _, _ => throw .panic

def insertChild (b : UInt8) (leaf : Nat) (path : Bytes) (n : TrieNode) : TrieNode :=
  ⟨path, n.children.insertIdx (n.indexOf b) ⟨b, leaf⟩, insert b n.childrenMask⟩

/-- Give the child at a place another number. -/
def redirectChild (i child : Nat) (path : Bytes) (n : TrieNode) : TrieNode :=
  { n with hash := path, children := n.children.modify i (fun c => { c with childId := child }) }

/-- Add an element that is not there.  It returns the number that stands for the node from now on. -/
def nodeAdd : Bytes → Nat → Bytes → TrieM Nat
  | [], id, path => do
    let n ← getNode store id
    if n.isLeaf then splitLeaf id n.hash [] path else throw .panic
  | b :: rest, id, path => do
    let n ← getNode store id
    if n.isLeaf then splitLeaf id n.hash (b :: rest) path
    else if b ∈ n.childrenMask then do
      let child ← childAt n b
      let child ← nodeAdd rest child (path ++ [b])
      let _ ← updateNode store id (redirectChild (n.indexOf b) child path)
      refurbishNode id
    else do
      let leaf ← allocateNode (.leaf rest)
      let _ ← updateNode store id (insertChild b leaf path)
      refurbishNode id

/-! ## Deleting -/

def removeChild (i : Nat) (b : UInt8) (path : Bytes) (n : TrieNode) : TrieNode :=
  ⟨path, n.children.eraseIdx i, n.childrenMask.erase b⟩

/-- A node whose only child is a leaf becomes that leaf; any other gets a fresh number. -/
def collapseOrRefurbish (id : Nat) : TrieM Nat := do
  let n ← getNode store id
  match n.children with
  | [only] => do
    let child ← getNode store only.childId
    if child.isLeaf then do
      deleteNode only.childId
      deleteNode id
      allocateNode (.leaf (only.hashIndex :: child.hash))
    else refurbishNode id
  | _ => refurbishNode id

/-- Remove an element that is there from below an internal node. -/
def nodeRemove : Bytes → Nat → Bytes → TrieM Nat
  | [], id, _ => do
    let _ ← getNode store id
    throw .panic
  | b :: rest, id, path => do
    let n ← getNode store id
    let child ← childAt n b
    let c ← getNode store child
    if c.isLeaf then do
      deleteNode child
      let _ ← updateNode store id (removeChild (n.indexOf b) b path)
      collapseOrRefurbish store id
    else do
      let child ← nodeRemove rest child (path ++ [b])
      let _ ← updateNode store id (redirectChild (n.indexOf b) child path)
      collapseOrRefurbish store id

/-! ## Hashing -/

variable (hash : Bytes → Bytes)

/-- What a node's hash takes of a child. -/
def childDigest (c : ChildEntry) (n : TrieNode) : Bytes :=
  (if n.isLeaf then 0 else 1) :: UInt8.ofNat n.hash.length :: c.hashIndex :: n.hash

/-- Compute the hash of a node after those of its children that were created since the last commit.  The first argument
bounds the depth. -/
def recomputeHashAt : Nat → Nat → Bytes → TrieM Unit
  | 0, _, _ => throw .panic
  | depth + 1, id, path => do
    let n ← updateNode store id (fun n => n)
    if n.isLeaf then return ()
    else do
      n.children.forM (fun c => do
        let t ← get
        if c.childId ∈ t.cache.pendingCreated then recomputeHashAt depth c.childId (path ++ [c.hashIndex])
        else return ())
      let acc ← n.children.foldlM (fun acc c => do
        let child ← getNode store c.childId
        return acc ++ childDigest c child) (UInt8.ofNat path.length :: path)
      let _ ← updateNode store id (fun n => { n with hash := hash acc })
      return ()

/-- The length of the elements bounds the depth of the trie. -/
def recomputeAllHashes (root : Nat) : TrieM Unit := do
  let t ← get
  recomputeHashAt store hash (t.elementLength + 1) root []

/-- Bring the hashes up to date where something changed. -/
def refreshHashes : TrieM Unit := do
  let t ← get
  if t.dirty then do
    match t.root with
    | none => pure ()
    | some root => recomputeAllHashes store hash root
    modify fun t => { t with dirty := false }
  else pure ()

/-! ## The operations -/

def setRoot (root : Option Nat) : TrieM Unit := modify fun t => { t with root := root, dirty := true }

def MerkleTrie.add (element : Bytes) : TrieM Bool := do
  modify fun t => if t.elementLength = 0 then { t with elementLength := element.length } else t
  let t ← get
  if element.length ≠ t.elementLength then throw (.elementLength element.length t.elementLength)
  else
    match t.root with
    | none => do
      let id ← allocateNode (.leaf element)
      setRoot (some id)
      return true
    | some root => do
      let found ← nodeFind store element root
      if found then return false
      else do
        let root ← nodeAdd store element root []
        setRoot (some root)
        return true

def MerkleTrie.delete (element : Bytes) : TrieM Bool := do
  let t ← get
  match t.root with
  | none => return false
  | some root =>
    if element.length ≠ t.elementLength then throw (.elementLength element.length t.elementLength)
    else do
      let found ← nodeFind store element root
      if !found then return false
      else do
        let n ← getNode store root
        if n.isLeaf then do
          deleteNode root
          setRoot none
          return true
        else do
          let root ← nodeRemove store element root []
          setRoot (some root)
          return true

def MerkleTrie.contains (element : Bytes) : TrieM Bool := do
  let t ← get
  if element.length ≠ t.elementLength then return false
  else
    match t.root with
    | none => return false
    | some root => nodeFind store element root

def emptyRootHash : Bytes := List.replicate 32 0

def MerkleTrie.rootHash : TrieM Bytes := do
  let t ← get
  match t.root with
  | none => return emptyRootHash
  | some root => do
    refreshHashes store hash
    let n ← getNode store root
    return hash ((if n.isLeaf then 0 else 1) :: n.hash)

/-- Drop pages.  It refuses where the trie is marked as changed. -/
def MerkleTrie.evict : TrieM Unit := do
  let t ← get
  if t.dirty then throw .dirtyCache else set (t.setCache (t.cache.evict t.root))

end Store

/-- Open the trie a store holds. -/
def MerkleTrie.load (store : PageStore) (target : Nat) : Option MerkleTrie :=
  store.metadata.map (fun m =>
    ⟨m.root, { MerkleTrieCache.withTarget target with
      nextNodeId := m.nextNodeId, lastCommittedNodeId := m.nextNodeId }, m.elementLength, false⟩)

end Trie
end Algod
