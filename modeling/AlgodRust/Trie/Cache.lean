import AlgodRust.Lib.FinMap
import AlgodRust.Lib.Run
import AlgodRust.Lib.Msgpack
import Mathlib.Data.List.Sort
/-!
# Cache — the pages of a Merkle trie

Nodes have numbers and live on pages of 116: the page of a node is its number divided by 116.  The cache keeps some pages
in memory, with the nodes created and the pages touched since the last commit, and fetches a page that is not in memory
from the store behind it.  A stored page is kept as its contents, and page 0 as the record it encodes.  The order in
which pages were last used is a list with the latest first.
-/
namespace Algod
namespace Trie

open Run
open Msgpack (Bytes)

def nodesPerPage : Nat := 116
def firstNodeId : Nat := 0x4160

structure ChildEntry where
  hashIndex : UInt8
  childId : Nat
deriving DecidableEq, Repr, Inhabited

/-- The hash of a leaf is what is left of its element; that of an internal node is the bytes that lead to it until the
hash is computed. -/
structure TrieNode where
  hash : Bytes
  children : List ChildEntry
  childrenMask : Finset UInt8
deriving DecidableEq, Inhabited

namespace TrieNode

def leaf (remainder : Bytes) : TrieNode := ⟨remainder, [], ∅⟩

def isLeaf (n : TrieNode) : Bool := n.children.isEmpty

/-- The place of the first child whose byte is not below `b`. -/
def indexOf (n : TrieNode) (b : UInt8) : Nat := n.children.findIdx (fun c => decide (b ≤ c.hashIndex))

end TrieNode

inductive TrieError
  | missingNode (id : Nat)
  | elementLength (got expected : Nat)
  | dirtyCache
  | storeFailed
  | panic
deriving DecidableEq, Repr

/-! ## The store -/

structure PageNode where
  hash : Bytes
  children : List ChildEntry
  isLeaf : Bool
deriving DecidableEq, Inhabited

structure TrieMetadata where
  root : Option Nat
  nextNodeId : Nat
  elementLength : Nat
  nodesPerPage : Nat
deriving DecidableEq, Repr, Inhabited

/-- What the page committer holds. -/
structure PageStore where
  metadata : Option TrieMetadata
  pages : FinMap Nat (FinMap Nat PageNode)

instance : Inhabited PageStore := ⟨⟨none, ∅⟩⟩

def trieNodeToPageNode (n : TrieNode) : PageNode :=
  if n.isLeaf then ⟨n.hash, [], true⟩
  else ⟨n.hash, n.children.insertionSort (fun c c' => c.hashIndex ≤ c'.hashIndex), false⟩

def pageNodeToTrieNode (n : PageNode) : TrieNode :=
  if n.isLeaf then .leaf n.hash else ⟨n.hash, n.children, (n.children.map ChildEntry.hashIndex).toFinset⟩

def mapValues {κ α β : Type} (f : α → β) (m : FinMap κ α) : FinMap κ β where
  entries := m.entries.map (fun e => ⟨e.1, f e.2⟩)
  nodupKeys := by
    have h := m.nodupKeys
    unfold List.NodupKeys List.keys at *
    rw [List.map_map]
    exact h

theorem lookup_mapValues {κ α β : Type} [DecidableEq κ] (f : α → β) (m : FinMap κ α) (k : κ) :
    (mapValues f m).lookup k = (m.lookup k).map f := by
  apply Option.ext
  intro b
  rw [← FinMap.mem_entries, Option.map_eq_some_iff]
  constructor
  · intro h
    obtain ⟨⟨k', a⟩, ha, he⟩ := List.mem_map.1 h
    cases he
    exact ⟨a, FinMap.mem_entries.1 ha, rfl⟩
  · rintro ⟨a, ha, rfl⟩
    exact List.mem_map.2 ⟨⟨k, a⟩, FinMap.mem_entries.2 ha, rfl⟩

abbrev Page := FinMap Nat TrieNode

/-! ## The cache -/

structure MerkleTrieCache where
  pages : FinMap Nat Page
  nextNodeId : Nat
  lastCommittedNodeId : Nat
  pendingCreated : Finset Nat
  pendingDirtyPages : Finset Nat
  pendingDeletionPages : Finset Nat
  pagesPriority : List Nat
  cachedNodeCount : Nat
  cachedNodeCountTarget : Nat
  lruDisabled : Bool

def pageOf (id : Nat) : Nat := id / nodesPerPage

namespace MerkleTrieCache

def withTarget (target : Nat) : MerkleTrieCache :=
  ⟨∅, firstNodeId, firstNodeId, ∅, ∅, ∅, [], 0, target, false⟩

def page (c : MerkleTrieCache) (p : Nat) : Page := FinMap.getD c.pages p ∅

/-- The node with this number, as far as its page is in memory. -/
def node? (c : MerkleTrieCache) (id : Nat) : Option TrieNode := (c.page (pageOf id)).lookup id

def prioritizeFront (c : MerkleTrieCache) (p : Nat) : MerkleTrieCache :=
  { c with pagesPriority := p :: c.pagesPriority.erase p }

def removeFromPriority (c : MerkleTrieCache) (p : Nat) : MerkleTrieCache :=
  { c with pagesPriority := c.pagesPriority.erase p }

/-- Put a node on the page of its number. -/
def putNode (c : MerkleTrieCache) (id : Nat) (n : TrieNode) : MerkleTrieCache :=
  { c with pages := c.pages.insert (pageOf id) ((c.page (pageOf id)).insert id n) }

/-- Take a node off its page; the page stays, be it empty. -/
def takeNode (c : MerkleTrieCache) (id : Nat) : MerkleTrieCache :=
  { c with pages := c.pages.insert (pageOf id) ((c.page (pageOf id)).erase id) }

def removePage (c : MerkleTrieCache) (p : Nat) : MerkleTrieCache :=
  removeFromPriority { c with pages := c.pages.erase p } p

/-- Give the next number to a node. -/
def place (c : MerkleTrieCache) (n : TrieNode) : MerkleTrieCache :=
  let id := c.nextNodeId
  let c := { c.putNode id n with
    nextNodeId := id + 1
    cachedNodeCount := c.cachedNodeCount + 1
    pendingCreated := insert id c.pendingCreated
    pendingDirtyPages := insert (pageOf id) c.pendingDirtyPages }
  c.prioritizeFront (pageOf id)

def allocate (c : MerkleTrieCache) (n : TrieNode) : MerkleTrieCache × Nat := (c.place n, c.nextNodeId)

/-- Move a node in memory to a fresh number; `none` where it is not in memory. -/
def refurbish (c : MerkleTrieCache) (oldId : Nat) : Option (MerkleTrieCache × Nat) :=
  match c.node? oldId with
  | none => none
  | some n =>
    let old := pageOf oldId
    let c' := { c.takeNode oldId with cachedNodeCount := c.cachedNodeCount - 1 }
    let c' :=
      if oldId ∈ c.pendingCreated then
        let c' := { c' with pendingCreated := c.pendingCreated.erase oldId }
        if FinMap.isEmpty (c'.page old) then
          { c'.removePage old with pendingDirtyPages := c'.pendingDirtyPages.erase old }
        else c'
      else { c' with pendingDeletionPages := insert old c.pendingDeletionPages }
    some (c'.place n, c'.nextNodeId)

/-- Remove a node.  One that was never committed leaves no record. -/
def delete (c : MerkleTrieCache) (id : Nat) : MerkleTrieCache :=
  let p := pageOf id
  let resident := (c.pages.lookup p).isSome
  let c' := if (c.node? id).isSome then { c.takeNode id with cachedNodeCount := c.cachedNodeCount - 1 } else c
  if id ∈ c.pendingCreated then
    let c' := { c' with pendingCreated := c.pendingCreated.erase id }
    if resident && FinMap.isEmpty (c'.page p) then c'.removePage p else c'
  else { c' with pendingDeletionPages := insert p c.pendingDeletionPages }

/-- Fetch a page that is not in memory.  Page 0 holds no nodes. -/
def tryLazyLoadPage (store : PageStore) (c : MerkleTrieCache) (p : Nat) : MerkleTrieCache :=
  if (c.pages.lookup p).isSome then c
  else if p = 0 then c
  else
    match store.pages.lookup p with
    | none => c
    | some stored =>
      let nodes := mapValues pageNodeToTrieNode stored
      let c := { c with
        pages := c.pages.insert p nodes
        cachedNodeCount := c.cachedNodeCount + nodes.entries.length }
      c.prioritizeFront p

/-- The cache after looking for a node. -/
def touch (store : PageStore) (c : MerkleTrieCache) (id : Nat) : MerkleTrieCache :=
  match c.node? id with
  | some _ => c.prioritizeFront (pageOf id)
  | none => c.tryLazyLoadPage store (pageOf id)

def get (store : PageStore) (c : MerkleTrieCache) (id : Nat) : MerkleTrieCache × Option TrieNode :=
  let c := c.touch store id
  (c, c.node? id)

/-- Borrow a node to change it by `f`: its page has to be written again. -/
def getMut (store : PageStore) (c : MerkleTrieCache) (id : Nat) (f : TrieNode → TrieNode) :
    MerkleTrieCache × Option TrieNode :=
  let c := if (c.node? id).isSome then c else c.tryLazyLoadPage store (pageOf id)
  match c.node? id with
  | none => (c, none)
  | some n =>
    let c := c.prioritizeFront (pageOf id)
    ({ c.putNode id (f n) with pendingDirtyPages := insert (pageOf id) c.pendingDirtyPages }, some n)

/-- Drop the pages used least recently until few enough nodes are left; the list is the order of use from the back.  It
stops at the page of the root. -/
def evictFrom (rootPage : Option Nat) : List Nat → MerkleTrieCache → MerkleTrieCache
  | [], c => c
  | back :: rest, c =>
    if c.cachedNodeCount ≤ c.cachedNodeCountTarget then c
    else if some back = rootPage then c
    else
      let count := (c.page back).entries.length
      evictFrom rootPage rest { c.removePage back with cachedNodeCount := c.cachedNodeCount - count }

def evict (c : MerkleTrieCache) (root : Option Nat) : MerkleTrieCache :=
  if c.lruDisabled then c
  else
    let rootPage := root.map pageOf
    let c := match rootPage with
      | none => c
      | some p => if p ∈ c.pagesPriority then c.prioritizeFront p else c
    evictFrom rootPage c.pagesPriority.reverse c

end MerkleTrieCache

end Trie
end Algod
