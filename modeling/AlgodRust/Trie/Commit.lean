import AlgodRust.Trie.MerkleTrie
import Mathlib.Data.Finset.Lattice.Fold
import Mathlib.Data.Finset.Option
import Mathlib.Order.Lattice.Nat
/-!
# Commit — writing a trie to its store

A commit first moves nodes: the children of a node that are spread over too many pages go to one page at the end, and the
nodes of a new page that is not full enough go to the end as well.  Then it writes the pages that are new or changed,
deletes the empty ones, writes page 0, and forgets what was pending.  A failed write ends it; what was stored before stays
stored, and what was moved stays moved.
-/
namespace Algod
namespace Trie

open Run
open Msgpack (Bytes)

def maxChildrenPagesThreshold : Nat := 64

/-- The target fill factor of a page is 95 per cent. -/
def isFull (count : Nat) : Bool := decide (95 * nodesPerPage ≤ 100 * count)
def isOverfull (count : Nat) : Bool := decide (95 * nodesPerPage < 100 * count)

/-- The elements of a set in ascending order. -/
def ascending (s : Finset Nat) : List Nat := (List.range (s.sup id + 1)).filter (fun n => decide (n ∈ s))

def sortedKeys (p : Page) : List Nat := p.keys.insertionSort (· ≤ ·)

/-- A cache while nodes are moved, with the pages that received nodes. -/
structure Moving where
  cache : MerkleTrieCache
  reallocatedPages : Finset Nat

namespace Moving

def receive (m : Moving) (p : Nat) : Moving :=
  ⟨m.cache.prioritizeFront p, insert p m.reallocatedPages⟩

def dropPage (m : Moving) (p : Nat) : Moving := ⟨m.cache.removePage p, m.reallocatedPages.erase p⟩

/-- Move a node to the page of the next number, unless it is on it or not in memory. -/
def reallocateNode (m : Moving) (id : Nat) : Moving × Nat :=
  let next := m.cache.nextNodeId
  let current := pageOf id
  if current = pageOf next then (m, id)
  else
    match m.cache.node? id with
    | none => (m, id)
    | some n =>
      let m := { m with cache := m.cache.takeNode id }
      let m := if FinMap.isEmpty (m.cache.page current) then m.dropPage current else m
      let c := { m.cache with pendingDeletionPages := insert current m.cache.pendingDeletionPages }
      let c := { c.putNode next n with nextNodeId := next + 1 }
      (receive { m with cache := c } (pageOf next), next)

/-- Move nodes one after the other; it returns their numbers. -/
def reallocateNodes (m : Moving) : List Nat → Moving × List Nat
  | [] => (m, [])
  | id :: ids =>
    let r := m.reallocateNode id
    let rs := reallocateNodes r.1 ids
    (rs.1, r.2 :: rs.2)

/-- Go on with the next page where the children fit on one page and the current one is full. -/
def freshPageFor (m : Moving) (childCount : Nat) : Moving :=
  let c := m.cache
  let page := pageOf c.nextNodeId
  if childCount < nodesPerPage ∧ isOverfull (c.page page).entries.length = true then
    { m with cache := { c with nextNodeId := (1 + page) * nodesPerPage } }
  else m

def replaceChildIds (ids : List Nat) (n : TrieNode) : TrieNode :=
  { n with children := List.zipWith (fun c id => { c with childId := id }) n.children ids }

def spread (n : TrieNode) : Bool :=
  decide (n.children.length > maxChildrenPagesThreshold) &&
    decide (((n.children.map (fun c => pageOf c.childId)).toFinset).card > maxChildrenPagesThreshold)

/-- Bring the children of a node together. -/
def relocateChildren (m : Moving) (id : Nat) : Moving :=
  match m.cache.node? id with
  | none => m
  | some n =>
    if spread n then
      let r := (m.freshPageFor n.children.length).reallocateNodes (n.children.map ChildEntry.childId)
      match r.1.cache.node? id with
      | none => r.1
      | some n => { r.1 with cache := r.1.cache.putNode id (replaceChildIds r.2 n) }
    else m

def fanoutRelocateChildrenOnPage (isNewPage : Nat → Bool) (m : Moving) (page : Nat) : Moving :=
  (sortedKeys (m.cache.page page)).foldl (fun m id =>
    if isNewPage page || decide (id ∈ m.cache.pendingCreated) then m.relocateChildren id else m) m

end Moving

/-- A cache while new pages are packed, with the numbers that nodes moved from and to. -/
structure Packing extends Moving where
  reallocationMap : FinMap Nat Nat
  pagesToCreate : List Nat
  survivingCreated : Finset Nat

namespace Packing

/-- Make room for `count` nodes from the next number on: the page is entered before a node is put there, unless its
first and its last page are in memory already. -/
def enterPage (m : Moving) (count : Nat) : Moving :=
  let c := m.cache
  let first := pageOf c.nextNodeId
  let last := pageOf (c.nextNodeId + count - 1)
  let enter := fun p : Nat => receive { m with cache := { c with pages := c.pages.insert p (c.page p) } } p
  if (c.pages.lookup first).isNone then enter first
  else if (c.pages.lookup last).isNone then enter last
  else m
where
  receive := Moving.receive

/-- Put a node at a number further on. -/
def moveTo (r : Packing) (oldId newId : Nat) (n : TrieNode) : Packing :=
  { r with
    toMoving := Moving.receive { r.toMoving with cache := r.cache.putNode newId n } (pageOf newId)
    reallocationMap := r.reallocationMap.insert oldId newId }

/-- Put nodes at consecutive numbers. -/
def moveAll (r : Packing) : List (Nat × TrieNode) → Nat → Packing
  | [], _ => r
  | (oldId, n) :: rest, next => (r.moveTo oldId next n).moveAll rest (next + 1)

/-- The nodes of a page in the order of their numbers. -/
def nodesOf (p : Page) : List (Nat × TrieNode) :=
  (sortedKeys p).filterMap (fun id => (p.lookup id).map (fun n => (id, n)))

/-- Move every node of a page to the end. -/
def reallocatePage (r : Packing) (page : Nat) : Packing :=
  let nodes := nodesOf (r.cache.page page)
  let count := nodes.length
  if count = 0 then { r with toMoving := r.toMoving.dropPage page }
  else
    let start := r.cache.nextNodeId
    let m := enterPage r.toMoving count
    let m := { m with cache := { m.cache with pages := m.cache.pages.erase page, nextNodeId := start + count } }
    let r := { r with toMoving := m }.moveAll nodes start
    { r with toMoving := ⟨r.cache.removeFromPriority page, r.reallocatedPages.erase page⟩ }

/-- A new page that is full enough is written as it is; the nodes of any other new page move. -/
def packPage (newPageThreshold : Nat) (r : Packing) (page : Nat) : Packing :=
  if page < newPageThreshold then r
  else
    let count := (r.cache.page page).entries.length
    if isFull count then if count = 0 then r else { r with pagesToCreate := r.pagesToCreate ++ [page] }
    else { r.reallocatePage page with survivingCreated := r.survivingCreated.erase page }

end Packing

/-- Follow the moves of a number; no number moves more often than the map has entries. -/
def chase (moved : FinMap Nat Nat) : Nat → Nat → Nat
  | 0, id => id
  | fuel + 1, id =>
    match moved.lookup id with
    | none => id
    | some id' => chase moved fuel id'

def remapChildren (moved : FinMap Nat Nat) (n : TrieNode) : TrieNode :=
  { n with children := n.children.map (fun c => { c with childId := chase moved moved.entries.length c.childId }) }

def remapPage (moved : FinMap Nat Nat) (c : MerkleTrieCache) (p : Nat) : MerkleTrieCache :=
  match c.pages.lookup p with
  | none => c
  | some nodes => { c with pages := c.pages.insert p (mapValues (remapChildren moved) nodes) }

/-- The pages at the end that hold moved nodes; the search stops at the first page without nodes. -/
def tailPages (m : Moving) : Nat → Nat → List Nat
  | 0, _ => []
  | fuel + 1, p =>
    if FinMap.isEmpty (m.cache.page p) then []
    else (if p ∈ m.reallocatedPages then [p] else []) ++ tailPages m fuel (p + 1)

structure CommitPlan where
  cache : MerkleTrieCache
  root : Option Nat
  pagesToCreate : Finset Nat
  pagesToDelete : Finset Nat
  pagesToUpdate : Finset Nat

def newPageThreshold (c : MerkleTrieCache) : Nat := (c.lastCommittedNodeId + (nodesPerPage - 1)) / nodesPerPage

def createdPages (c : MerkleTrieCache) : Finset Nat := c.pendingCreated.image pageOf

/-- The first number of the next page. -/
def nextPageStart (c : MerkleTrieCache) : Nat := (c.nextNodeId + (nodesPerPage - 1)) / nodesPerPage * nodesPerPage

/-- Bring children together, then pack the new pages. -/
def packPendingPages (c : MerkleTrieCache) : Packing :=
  let sortedCreated := ascending (createdPages c)
  let threshold := newPageThreshold c
  let m : Moving := ⟨{ c with nextNodeId := nextPageStart c }, ∅⟩
  let m := sortedCreated.foldl (Moving.fanoutRelocateChildrenOnPage (fun p => decide (threshold ≤ p))) m
  sortedCreated.foldl (Packing.packPage threshold) ⟨m, ∅, [], createdPages c⟩

/-- What to write, once the nodes have moved. -/
def planWrites (c : MerkleTrieCache) (root : Option Nat) (r : Packing) : CommitPlan :=
  let cache := (ascending (r.survivingCreated ∪ r.reallocatedPages)).foldl (remapPage r.reallocationMap) r.cache
  let root := root.map (fun id => (r.reallocationMap.lookup id).getD id)
  let firstCreated := (ascending (createdPages c)).head?.filter (fun p => (cache.pages.lookup p).isSome)
  let toRemove := cache.pendingDeletionPages ∪ firstCreated.toFinset
  let tail := tailPages ⟨cache, r.reallocatedPages⟩ (cache.pages.entries.length + 1) (pageOf (nextPageStart c))
  let create := r.pagesToCreate.toFinset ∪ tail.toFinset
  let update := toRemove.filter (fun p => ¬ FinMap.isEmpty (cache.page p))
  let erase := toRemove.filter (fun p => FinMap.isEmpty (cache.page p))
  let handled := create ∪ erase ∪ update ∪ r.reallocatedPages ∪ createdPages c
  let touched := cache.pendingDirtyPages.filter (fun p => p ∉ handled ∧ ¬ FinMap.isEmpty (cache.page p))
  ⟨cache, root, create, erase, update ∪ touched⟩

def reallocatePendingPages (c : MerkleTrieCache) (root : Option Nat) : CommitPlan :=
  planWrites c root (packPendingPages c)

/-- One call of the page committer. -/
inductive PageWrite
  | put (page : Nat) (nodes : FinMap Nat PageNode)
  | erase (page : Nat)
  | metadata (m : TrieMetadata)

def PageWrite.store (s : PageStore) : PageWrite → PageStore
  | .put p nodes => { s with pages := s.pages.insert p nodes }
  | .erase p => { s with pages := s.pages.erase p }
  | .metadata m => { s with metadata := some m }

def PageWrite.cache (c : MerkleTrieCache) : PageWrite → MerkleTrieCache
  | .erase p => c.removePage p
  | _ => c

def pageWrites (c : MerkleTrieCache) (pages : Finset Nat) : List PageWrite :=
  (ascending pages).filterMap (fun p =>
    if FinMap.isEmpty (c.page p) then none else some (.put p (mapValues trieNodeToPageNode (c.page p))))

/-- The calls of a commit, in order. -/
def CommitPlan.writes (plan : CommitPlan) (elementLength : Nat) : List PageWrite :=
  pageWrites plan.cache plan.pagesToCreate ++ pageWrites plan.cache plan.pagesToUpdate ++
    (ascending plan.pagesToDelete).map PageWrite.erase ++
    [.metadata ⟨plan.root, plan.cache.nextNodeId, elementLength, nodesPerPage⟩]

def forgetPending (c : MerkleTrieCache) : MerkleTrieCache :=
  { c with
    pendingCreated := ∅
    pendingDirtyPages := ∅
    pendingDeletionPages := ∅
    lastCommittedNodeId := c.nextNodeId }

/-- Perform the calls of a plan.  The call with the number `fails`, if there is one, fails. -/
def writePages (plan : CommitPlan) (elementLength : Nat) (fails : Option Nat) :
    EStateM TrieError (MerkleTrie × PageStore) Unit := fun w =>
  let writes := plan.writes elementLength
  let performed := writes.take (fails.getD writes.length)
  let cache := performed.foldl PageWrite.cache plan.cache
  let store := performed.foldl PageWrite.store w.2
  let t := { w.1 with root := plan.root }
  if fails.any (fun k => decide (k < writes.length)) then .error .storeFailed (t.setCache cache, store)
  else .ok () (t.setCache (forgetPending cache), store)

/-- **Write the trie to the store.** -/
def MerkleTrie.commit (hash : Bytes → Bytes) (fails : Option Nat) : EStateM TrieError (MerkleTrie × PageStore) Unit :=
  fun w =>
    match refreshHashes w.2 hash w.1 with
    | .error e t => .error e (t, w.2)
    | .ok _ t => writePages (reallocatePendingPages t.cache t.root) t.elementLength fails (t, w.2)

end Trie
end Algod
