import AlgodRust.Lib.Keyed
import AlgodRust.Trie.Eviction
import Mathlib.Data.Set.Lattice
import Mathlib.Order.CompletePartialOrder
/-!
# Represents — the set a trie stands for

What a trie is for: a set of byte strings of one length, with a hash that depends on the set alone.  A set with one
element is a leaf; any other branches on the first byte.  `Rep` says that the nodes seen from a number on stand for a set
and lists the numbers they have; no number occurs twice.  The hash of a node that is not `stale` is that of its set, and
below a node that is not in `created` no node is.
-/
namespace Algod
namespace Trie

open Msgpack (Bytes)

/-! ## Sets of elements and their hash -/

/-- What follows a byte. -/
def under (b : UInt8) (S : Set Bytes) : Set Bytes := {d | b :: d ∈ S}

variable {S : Set Bytes}

@[simp] theorem mem_under {b : UInt8} {d : Bytes} : d ∈ under b S ↔ b :: d ∈ S := Iff.rfl

def allBytes : List UInt8 := (List.range 256).map UInt8.ofNat

theorem mem_allBytes (b : UInt8) : b ∈ allBytes := by
  refine List.mem_map.2 ⟨b.toNat, List.mem_range.2 b.toNat_lt, ?_⟩
  simp

set_option maxRecDepth 20000 in
theorem allBytes_ascending : (allBytes.map UInt8.toNat).Pairwise (· < ·) := by
  have hmap : allBytes.map UInt8.toNat = List.range 256 := by decide
  rw [hmap]
  exact List.pairwise_lt_range

open Classical in
/-- The first bytes of the elements, in order. -/
noncomputable def firstBytesOf (S : Set Bytes) : List UInt8 := allBytes.filter (fun b => decide (under b S).Nonempty)

open Classical in
/-- An element of a set, the one where there is only one. -/
noncomputable def someElement (S : Set Bytes) : Bytes := if h : S.Nonempty then h.some else []

theorem someElement_singleton (e : Bytes) : someElement {e} = e := by
  have h : ({e} : Set Bytes).Nonempty := Set.singleton_nonempty e
  unfold someElement
  rw [dif_pos h]
  exact h.some_mem

open Classical in
/-- The hash of a node that stands for a set of strings of a length, at the end of a path: of a leaf its string. -/
noncomputable def nodeHash (hash : Bytes → Bytes) : Nat → Bytes → Set Bytes → Bytes
  | 0, _, S => someElement S
  | L + 1, path, S =>
    if S.Nontrivial then
      hash (UInt8.ofNat path.length :: path ++ (firstBytesOf S).flatMap (fun b =>
        let h := nodeHash hash L (path ++ [b]) (under b S)
        (if (under b S).Nontrivial then 1 else 0) :: UInt8.ofNat h.length :: b :: h))
    else someElement S

open Classical in
/-- The root hash of a set. -/
noncomputable def setHash (hash : Bytes → Bytes) (L : Nat) (S : Set Bytes) : Bytes :=
  if S.Nonempty then hash ((if S.Nontrivial then 1 else 0) :: nodeHash hash L [] S) else emptyRootHash

/-! ## Nodes -/

/-- The order of children. -/
def byteKey (c : ChildEntry) : Nat := c.hashIndex.toNat

theorem TrieNode.indexOf_eq (n : TrieNode) (b : UInt8) : n.indexOf b = Keyed.place byteKey b.toNat n.children := rfl

/-- The children of a node are those of a set. -/
structure Fan (S : Set Bytes) (n : TrieNode) : Prop where
  cons : [] ∉ S
  sorted : Keyed.Ascending byteKey n.children
  index : ∀ b, (∃ c ∈ n.children, c.hashIndex = b) ↔ (under b S).Nonempty
  mask : ∀ b, b ∈ n.childrenMask ↔ (under b S).Nonempty

/-- A node is the inner node of a set. -/
structure Branch (hash : Bytes → Bytes) (created stale : Set Nat) (L : Nat) (path : Bytes) (id : Nat) (S : Set Bytes)
    (n : TrieNode) : Prop extends Fan S n where
  many : S.Nontrivial
  hashed : id ∉ stale → n.hash = nodeHash hash (L + 1) path S
  old : id ∉ created → ∀ c ∈ n.children, c.childId ∉ created

/-- The numbers below the children of a node are apart from each other and from its own. -/
structure Apart (S : Set Bytes) (id : Nat) (G : UInt8 → Set Nat) : Prop where
  self : ∀ b, id ∉ G b
  disjoint : ∀ b b', b ≠ b' → Disjoint (G b) (G b')
  rest : ∀ b, ¬ (under b S).Nonempty → G b = ∅

/-- **The nodes from a number on stand for a set**, and have the given numbers. -/
inductive Rep (hash : Bytes → Bytes) (created stale : Set Nat) (v : Nat → Option TrieNode) :
    Nat → Bytes → Nat → Set Bytes → Set Nat → Prop
  | leaf {L : Nat} {path h : Bytes} {id : Nat} (hv : v id = some (.leaf h)) (hlen : h.length = L) :
      Rep hash created stale v L path id {h} {id}
  | branch {L : Nat} {path : Bytes} {id : Nat} {S : Set Bytes} {n : TrieNode} {G : UInt8 → Set Nat} (hv : v id = some n)
      (hn : Branch hash created stale L path id S n) (hG : Apart S id G)
      (hc : ∀ c ∈ n.children, Rep hash created stale v L (path ++ [c.hashIndex]) c.childId (under c.hashIndex S)
        (G c.hashIndex)) :
      Rep hash created stale v (L + 1) path id S (insert id (⋃ b, G b))

theorem leaf_isLeaf (h : Bytes) : (TrieNode.leaf h).isLeaf = true := rfl

/-- A leaf is what its hash says. -/
theorem Fan.isLeaf {n : TrieNode} (h : Fan S n) (hne : S.Nonempty) : n.isLeaf = false := by
  obtain ⟨e, he⟩ := hne
  cases e with
  | nil => exact absurd he h.cons
  | cons b d =>
    obtain ⟨c, hc, -⟩ := (h.index b).2 ⟨d, he⟩
    unfold TrieNode.isLeaf
    cases hcs : n.children with
    | nil => rw [hcs] at hc; cases hc
    | cons _ _ => rfl

/-- The child of a byte is found at its place. -/
theorem Fan.childAt {n : TrieNode} (h : Fan S n) {c : ChildEntry} (hc : c ∈ n.children) :
    n.children[n.indexOf c.hashIndex]? = some c := by
  rw [n.indexOf_eq]
  exact Keyed.getElem?_place h.sorted hc

theorem Fan.hashIndexes {n : TrieNode} (h : Fan S n) :
    n.children.map ChildEntry.hashIndex = firstBytesOf S := by
  classical
  have hinj : Function.Injective UInt8.toNat := fun a b hab => UInt8.toNat_inj.1 hab
  apply List.map_injective_iff.2 hinj
  have hfilter : ((firstBytesOf S).map UInt8.toNat).Pairwise (· < ·) :=
    List.Pairwise.sublist (List.filter_sublist.map _) allBytes_ascending
  refine List.Pairwise.eq_of_mem_iff ?_ hfilter fun k => ?_
  · rw [List.map_map]
    exact h.sorted
  · constructor
    · intro hk
      obtain ⟨b, hb, rfl⟩ := List.mem_map.1 hk
      obtain ⟨c, hc, rfl⟩ := List.mem_map.1 hb
      refine List.mem_map_of_mem (List.mem_filter.2 ⟨mem_allBytes _, ?_⟩)
      exact decide_eq_true ((h.index c.hashIndex).1 ⟨c, hc, rfl⟩)
    · intro hk
      obtain ⟨b, hb, rfl⟩ := List.mem_map.1 hk
      obtain ⟨c, hc, rfl⟩ := (h.index b).2 (of_decide_eq_true (List.mem_filter.1 hb).2)
      exact List.mem_map_of_mem (List.mem_map_of_mem hc)

/-! ## What is represented -/

namespace Rep

variable {hash : Bytes → Bytes} {created stale : Set Nat} {v : Nat → Option TrieNode} {L : Nat} {path : Bytes}
  {id : Nat} {S : Set Bytes} {F : Set Nat}

theorem id_mem (h : Rep hash created stale v L path id S F) : id ∈ F := by
  cases h with
  | leaf _ _ => exact rfl
  | branch _ _ _ _ => exact Set.mem_insert _ _

theorem nonempty (h : Rep hash created stale v L path id S F) : S.Nonempty := by
  cases h with
  | leaf _ _ => exact Set.singleton_nonempty _
  | branch _ hn _ _ => exact hn.many.nonempty

theorem length (h : Rep hash created stale v L path id S F) : ∀ e ∈ S, e.length = L := by
  induction h with
  | leaf _ hlen =>
    intro e he
    rw [Set.mem_singleton_iff] at he
    rw [he, hlen]
  | branch _ hn _ _ ih =>
    intro e he
    cases e with
    | nil => exact absurd he hn.cons
    | cons b d =>
      obtain ⟨c, hc, rfl⟩ := (hn.index b).2 ⟨d, he⟩
      rw [List.length_cons, ih c hc d he]

/-- Every number of a represented set has a node. -/
theorem seen (h : Rep hash created stale v L path id S F) : ∀ i ∈ F, ∃ n, v i = some n := by
  induction h with
  | leaf hv _ =>
    intro i hi
    rw [Set.mem_singleton_iff.1 hi]
    exact ⟨_, hv⟩
  | @branch _ _ _ S n G hv hn hG _ ih =>
    intro i hi
    rcases hi with rfl | hi
    · exact ⟨_, hv⟩
    · obtain ⟨b, hb⟩ := Set.mem_iUnion.1 hi
      by_cases hne : (under b S).Nonempty
      · obtain ⟨c, hc, rfl⟩ := (hn.index b).2 hne
        exact ih c hc i hb
      · rw [hG.rest b hne] at hb
        cases hb

/-- **What stands for a set depends on the nodes of its numbers alone.** -/
theorem congr {created' stale' : Set Nat} {v' : Nat → Option TrieNode} (h : Rep hash created stale v L path id S F)
    (hv : ∀ i ∈ F, v' i = v i) (hc : ∀ i ∈ F, i ∈ created' ↔ i ∈ created) (hs : ∀ i ∈ F, i ∈ stale → i ∈ stale') :
    Rep hash created' stale' v' L path id S F := by
  induction h with
  | leaf hleaf hlen => exact .leaf ((hv _ rfl).trans hleaf) hlen
  | @branch _ _ id S n G hnode hn hG hchild ih =>
    have hself : id ∈ insert id (⋃ b, G b) := Set.mem_insert _ _
    have hsub : ∀ b, ∀ i ∈ G b, i ∈ insert id (⋃ b, G b) := fun b i hi =>
      Set.mem_insert_of_mem _ (Set.mem_iUnion.2 ⟨b, hi⟩)
    refine .branch ((hv _ hself).trans hnode) ⟨hn.toFan, hn.many, ?_, ?_⟩ hG fun c hcm => ?_
    · exact fun hstale => hn.hashed fun h => hstale (hs _ hself h)
    · intro hold c hcm hnew
      have hmem := hsub _ _ (hchild c hcm).id_mem
      exact hn.old (fun h => hold ((hc _ hself).2 h)) c hcm ((hc _ hmem).1 hnew)
    · exact ih c hcm (fun i hi => hv i (hsub _ i hi)) (fun i hi => hc i (hsub _ i hi)) (fun i hi => hs i (hsub _ i hi))

/-- Fewer hashes are known to be right. -/
theorem weaken {stale' : Set Nat} (h : Rep hash created stale v L path id S F) (hs : stale ⊆ stale') :
    Rep hash created stale' v L path id S F :=
  h.congr (fun _ _ => rfl) (fun _ _ => Iff.rfl) fun _ _ hi => hs hi

/-- A set with more than one element is an inner node. -/
theorem inner (h : Rep hash created stale v L path id S F) (hS : S.Nontrivial) : ∃ L' n G, L = L' + 1 ∧
    F = insert id (⋃ b, G b) ∧ v id = some n ∧ Branch hash created stale L' path id S n ∧ Apart S id G ∧
      ∀ c ∈ n.children, Rep hash created stale v L' (path ++ [c.hashIndex]) c.childId (under c.hashIndex S)
        (G c.hashIndex) := by
  cases h with
  | leaf _ _ => exact absurd hS (Set.not_nontrivial_singleton)
  | branch hv hn hG hc => exact ⟨_, _, _, rfl, rfl, hv, hn, hG, hc⟩

/-- A set with one element is a leaf. -/
theorem single (h : Rep hash created stale v L path id S F) (hS : ¬ S.Nontrivial) :
    ∃ e, v id = some (.leaf e) ∧ e.length = L ∧ S = {e} ∧ F = {id} := by
  cases h with
  | leaf hv hlen => exact ⟨_, hv, hlen, rfl, rfl⟩
  | branch _ hn _ _ => exact absurd hn.many hS

/-- The node of a set is a leaf where the set has one element only. -/
theorem isLeaf_iff (h : Rep hash created stale v L path id S F) {n : TrieNode} (hv : v id = some n) :
    n.isLeaf = true ↔ ¬ S.Nontrivial := by
  cases h with
  | leaf hleaf _ =>
    rw [hleaf] at hv
    cases hv
    exact ⟨fun _ => Set.not_nontrivial_singleton, fun _ => rfl⟩
  | branch hnode hn _ _ =>
    rw [hnode] at hv
    cases hv
    rw [hn.isLeaf hn.many.nonempty]
    exact ⟨fun h => (by cases h), fun h => absurd hn.many h⟩

/-- The hash of a node that is not stale is that of its set. -/
theorem hash_eq (h : Rep hash created stale v L path id S F) {n : TrieNode} (hv : v id = some n) (hs : id ∉ stale) :
    n.hash = nodeHash hash L path S := by
  cases h with
  | @leaf L _ e _ hleaf _ =>
    rw [hleaf] at hv
    cases hv
    cases L with
    | zero => exact (someElement_singleton e).symm
    | succ L =>
      rw [nodeHash, if_neg Set.not_nontrivial_singleton]
      exact (someElement_singleton e).symm
  | branch hnode hn _ _ =>
    rw [hnode] at hv
    cases hv
    exact hn.hashed hs

open Classical in
/-- **Lookup answers membership.** -/
theorem findIn_eq (h : Rep hash created stale v L path id S F) : ∀ {d : Bytes}, d.length = L →
    findIn v d id = .ok (decide (d ∈ S)) := by
  induction h with
  | @leaf L path e id hleaf hlen =>
    intro d hd
    have hseen : Trie.seen v id = .ok (.leaf e) := by rw [Trie.seen, hleaf]
    cases d with
    | nil =>
      rw [findIn, hseen]
      exact congrArg Except.ok (decide_eq_decide.2 Set.mem_singleton_iff.symm)
    | cons b rest =>
      rw [findIn, hseen]
      exact congrArg Except.ok (decide_eq_decide.2 Set.mem_singleton_iff.symm)
  | @branch L path id S n G hnode hn hG hchild ih =>
    intro d hd
    have hseen : Trie.seen v id = .ok n := by rw [Trie.seen, hnode]
    cases d with
    | nil => cases hd
    | cons b rest =>
      rw [findIn, hseen, Run.ok_bind, hn.isLeaf hn.many.nonempty, if_neg Bool.false_ne_true]
      by_cases hb : (under b S).Nonempty
      · obtain ⟨c, hc, rfl⟩ := (hn.index b).2 hb
        have hseenChild : seenChild n c.hashIndex = .ok c.childId := by rw [seenChild, hn.childAt hc]
        rw [if_pos ((hn.mask _).2 hb), hseenChild, Run.ok_bind, ih c hc (Nat.succ.inj hd)]
        rfl
      · have hout : b :: rest ∉ S := fun hm => hb ⟨rest, hm⟩
        rw [if_neg fun hm => hb ((hn.mask b).1 hm), decide_eq_false hout]
        rfl

end Rep

end Trie
end Algod
