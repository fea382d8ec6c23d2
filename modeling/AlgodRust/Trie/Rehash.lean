import AlgodRust.Trie.SetModel
/-!
# Rehash — recomputing hashes

Hashes are recomputed from the root down, into the nodes that were created since the last commit only.  That is enough:
a node that was not created since then has the right hash, and so have all nodes below it (`Rep.untouched`).  Afterwards
no node is stale, and nothing but hashes of created nodes has changed.
-/
namespace Algod
namespace Trie

open Run
open Msgpack (Bytes)

/-- A cache that differs from another in the pages it has fetched and in the created nodes among the given numbers. -/
structure Rehashed (store : PageStore) (F : Set Nat) (c c' : MerkleTrieCache) : Prop where
  view : ∀ i, i ∉ F ∨ i ∉ c.pendingCreated → view store c' i = view store c i
  seen : ∀ i n, Trie.view store c i = some n → ∃ n', Trie.view store c' i = some n'
  resident : ∀ p, Resident c p → Resident c' p
  next : c'.nextNodeId = c.nextNodeId
  lastCommitted : c'.lastCommittedNodeId = c.lastCommittedNodeId
  created : c'.pendingCreated = c.pendingCreated
  deletion : c'.pendingDeletionPages = c.pendingDeletionPages

section Rehashed

variable {store : PageStore} {F F' D : Set Nat} {c c' c'' : MerkleTrieCache}

theorem Rehashed.books (h : Rehashed store F c c') (hb : Books store c D) : Books store c' D := by
  refine hb.transfer ?_ (fun i _ hc => h.view i (.inr hc)) h.resident h.next h.lastCommitted h.created h.deletion
  intro i hi
  obtain ⟨n, hn⟩ := hb.seen i hi
  exact h.seen i n hn

theorem Quiet.rehashed (h : Quiet store c c') : Rehashed store F c c' :=
  ⟨fun i _ => h.view i, fun i n hn => ⟨n, (h.view i).trans hn⟩, h.resident, h.next, h.lastCommitted, h.created,
    h.deletion⟩

theorem Rehashed.mono (h : Rehashed store F c c') (hF : F ⊆ F') : Rehashed store F' c c' :=
  ⟨fun i hi => h.view i (hi.imp_left fun hn hm => hn (hF hm)), h.seen, h.resident, h.next, h.lastCommitted, h.created,
    h.deletion⟩

theorem Rehashed.trans (h : Rehashed store F c c') (h' : Rehashed store F c' c'') : Rehashed store F c c'' := by
  refine ⟨fun i hi => ?_, fun i n hn => ?_, fun p hp => h'.resident p (h.resident p hp), h'.next.trans h.next,
    h'.lastCommitted.trans h.lastCommitted, h'.created.trans h.created, h'.deletion.trans h.deletion⟩
  · rw [h'.view i (by rw [h.created]; exact hi), h.view i hi]
  · obtain ⟨n', hn'⟩ := h.seen i n hn
    exact h'.seen i n' hn'

/-- What stands for a set apart from the given numbers still does. -/
theorem Rep.rehashed {hash : Bytes → Bytes} {stale : Set Nat} {L : Nat} {path : Bytes} {id : Nat} {S : Set Bytes}
    (h : Rep hash ↑c.pendingCreated stale (Trie.view store c) L path id S F) (hr : Rehashed store F' c c')
    (hF : Disjoint F F') : Rep hash ↑c'.pendingCreated stale (Trie.view store c') L path id S F :=
  h.congr (fun i hi => hr.view i (.inl (Set.disjoint_left.1 hF hi))) (fun i _ => by rw [hr.created]) fun _ _ hi => hi

end Rehashed

/-- A computation succeeds, changes created nodes among the given numbers only, and its result is as said. -/
def Rehashes {α : Type} (store : PageStore) (F : Set Nat) (t : MerkleTrie) (x : TrieM α)
    (post : α → MerkleTrieCache → Prop) : Prop :=
  ∃ a c', x t = .ok a (t.setCache c') ∧ Rehashed store F t.cache c' ∧ post a c'

section Steps

variable {α β : Type} {hash : Bytes → Bytes} {store : PageStore} {F F' : Set Nat} {t : MerkleTrie} {id : Nat}
  {n : TrieNode}

theorem Rehashes.pure {post : α → MerkleTrieCache → Prop} {a : α} (h : post a t.cache) :
    Rehashes store F t (Pure.pure a) post := ⟨a, t.cache, rfl, Quiet.refl.rehashed, h⟩

theorem Rehashes.bind {x : TrieM α} {f : α → TrieM β} {P : α → MerkleTrieCache → Prop} {Q : β → MerkleTrieCache → Prop}
    (hx : Rehashes store F' t x P) (hF : F' ⊆ F)
    (hf : ∀ a c', Rehashed store F' t.cache c' → P a c' → Rehashes store F (t.setCache c') (f a) Q) :
    Rehashes store F t (x >>= f) Q := by
  obtain ⟨a, c₁, h₁, hr₁, hP⟩ := hx
  obtain ⟨b, c₂, h₂, hr₂, hQ⟩ := hf a c₁ hr₁ hP
  exact ⟨b, c₂, state_bind_eq_ok.2 ⟨a, _, h₁, h₂⟩, (hr₁.mono hF).trans hr₂, hQ⟩

theorem peek_rehashes (hn : view store t.cache id = some n) :
    Rehashes store F t (updateNode store id (fun n => n)) (fun m c' => m = n ∧ Quiet store t.cache c') := by
  obtain ⟨c', h, hw⟩ := updateNode_written (fun n => n) hn
  have hq := hw.quiet hn
  exact ⟨n, c', h, hq.rehashed, rfl, hq⟩

/-- Below a node that was not created since the last commit, no node was. -/
theorem Rep.untouched {created stale : Set Nat} {v : Nat → Option TrieNode} {L : Nat} {path : Bytes} {S : Set Bytes}
    (h : Rep hash created stale v L path id S F) (hid : id ∉ created) : ∀ i ∈ F, i ∉ created := by
  induction h with
  | leaf _ _ =>
    intro i hi
    rw [Set.mem_singleton_iff.1 hi]
    exact hid
  | @branch _ _ _ S n G hv hn hG _ ih =>
    rintro i (rfl | hi)
    · exact hid
    · obtain ⟨b, hb⟩ := Set.mem_iUnion.1 hi
      by_cases hne : (under b S).Nonempty
      · obtain ⟨c, hc, rfl⟩ := (hn.index b).2 hne
        exact ih c hc (hn.old hid c hc) i hb
      · rw [hG.rest b hne] at hb
        cases hb

/-- The nodes stand for a set, and none is stale. -/
abbrev Fresh (hash : Bytes → Bytes) (store : PageStore) (c : MerkleTrieCache) :
    Nat → Bytes → Nat → Set Bytes → Set Nat → Prop :=
  Rep hash ↑c.pendingCreated ∅ (view store c)

theorem Stands.fresh {c : MerkleTrieCache} {L : Nat} {path : Bytes} {S : Set Bytes}
    (h : Stands hash store c L path id S F) (hid : id ∉ c.pendingCreated) : Fresh hash store c L path id S F :=
  h.congr (fun _ _ => rfl) (fun _ _ => Iff.rfl) fun i hi hc => absurd hc (h.untouched hid i hi)

/-! ## The children of a node -/

/-- The numbers below the children in a list. -/
def footprint (G : UInt8 → Set Nat) (cs : List ChildEntry) : Set Nat := {i | ∃ c ∈ cs, i ∈ G c.hashIndex}

section Children

variable {L : Nat} {path : Bytes} {S : Set Bytes} {G : UInt8 → Set Nat}

/-- What recomputing does at a child of a node. -/
def rehashChild (store : PageStore) (hash : Bytes → Bytes) (depth : Nat) (path : Bytes) (c : ChildEntry) : TrieM Unit := do
  let t ← get
  if c.childId ∈ t.cache.pendingCreated then recomputeHashAt store hash depth c.childId (path ++ [c.hashIndex])
  else return ()

/-- Recomputing at each level below `L` makes what is there fresh. -/
def RehashesBelow (hash : Bytes → Bytes) (store : PageStore) (L : Nat) : Prop :=
  ∀ (path : Bytes) (id : Nat) (S : Set Bytes) (F : Set Nat) (t : MerkleTrie), Stands hash store t.cache L path id S F →
    Rehashes store F t (recomputeHashAt store hash (L + 1) id path) (fun _ c' => Fresh hash store c' L path id S F)

theorem rehashChild_rehashes (hL : RehashesBelow hash store L) {c : ChildEntry}
    (hc : Stands hash store t.cache L (path ++ [c.hashIndex]) c.childId (under c.hashIndex S) (G c.hashIndex)) :
    Rehashes store (G c.hashIndex) t (rehashChild store hash (L + 1) path c)
      (fun _ c' => Fresh hash store c' L (path ++ [c.hashIndex]) c.childId (under c.hashIndex S) (G c.hashIndex)) := by
  have hget : rehashChild store hash (L + 1) path c t = (if c.childId ∈ t.cache.pendingCreated then
      recomputeHashAt store hash (L + 1) c.childId (path ++ [c.hashIndex]) else Pure.pure () : TrieM Unit) t := rfl
  unfold Rehashes
  rw [hget]
  by_cases hcreated : c.childId ∈ t.cache.pendingCreated
  · rw [if_pos hcreated]
    exact hL _ _ _ _ t hc
  · rw [if_neg hcreated]
    exact Rehashes.pure (hc.fresh hcreated)

/-- **The children of a node, one after the other.** -/
theorem rehashChildren_rehashes (hL : RehashesBelow hash store L) (hG : ∀ b b', b ≠ b' → Disjoint (G b) (G b')) :
    ∀ (cs : List ChildEntry) (t : MerkleTrie), Keyed.Ascending byteKey cs →
      (∀ c ∈ cs, Stands hash store t.cache L (path ++ [c.hashIndex]) c.childId (under c.hashIndex S) (G c.hashIndex)) →
        Rehashes store (footprint G cs) t (cs.forM (rehashChild store hash (L + 1) path))
          (fun _ c' => ∀ c ∈ cs,
            Fresh hash store c' L (path ++ [c.hashIndex]) c.childId (under c.hashIndex S) (G c.hashIndex))
  | [], t, _, _ => Rehashes.pure fun c hc => (by cases hc)
  | c :: cs, t, hs, hcs => by
    obtain ⟨hfirst, hrest⟩ := Keyed.ascending_cons.1 hs
    have hapart : ∀ c' ∈ cs, Disjoint (G c.hashIndex) (G c'.hashIndex) := fun c' hc' =>
      hG _ _ fun he => Nat.ne_of_lt (hfirst c' hc') (congrArg UInt8.toNat he)
    refine (rehashChild_rehashes hL (hcs c List.mem_cons_self)).bind (fun i hi => ⟨c, List.mem_cons_self, hi⟩)
      fun _ c₁ hr₁ hfresh => ?_
    have hcs₁ : ∀ c' ∈ cs, Stands hash store c₁ L (path ++ [c'.hashIndex]) c'.childId (under c'.hashIndex S)
        (G c'.hashIndex) := fun c' hc' =>
      ((hcs c' (List.mem_cons_of_mem _ hc')).rehashed hr₁ (hapart c' hc').symm).weaken (by rw [hr₁.created])
    obtain ⟨u, c₂, h₂, hr₂, hcs₂⟩ := rehashChildren_rehashes hL hG cs (t.setCache c₁) hrest hcs₁
    refine ⟨u, c₂, h₂, hr₂.mono fun i ⟨c', hc', hi⟩ => ⟨c', List.mem_cons_of_mem _ hc', hi⟩, fun c' hc' => ?_⟩
    rcases List.mem_cons.1 hc' with rfl | hc'
    · refine hfresh.rehashed hr₂ (Set.disjoint_left.2 fun i hi ⟨x, hx, hxi⟩ => ?_)
      exact Set.disjoint_left.1 (hapart x hx) hi hxi
    · exact hcs₂ c' hc'

open Classical in
/-- What a child adds to the bytes that are hashed. -/
noncomputable def digestOf (hash : Bytes → Bytes) (L : Nat) (path : Bytes) (S : Set Bytes) (b : UInt8) : Bytes :=
  (if (under b S).Nontrivial then 1 else 0) :: UInt8.ofNat (nodeHash hash L (path ++ [b]) (under b S)).length :: b ::
    nodeHash hash L (path ++ [b]) (under b S)

theorem childDigest_eq {c : MerkleTrieCache} {x : ChildEntry}
    (hx : Fresh hash store c L (path ++ [x.hashIndex]) x.childId (under x.hashIndex S) (G x.hashIndex))
    (hn : view store c x.childId = some n) : childDigest x n = digestOf hash L path S x.hashIndex := by
  have hhash := hx.hash_eq hn (Set.notMem_empty _)
  unfold childDigest digestOf
  rw [← hhash]
  by_cases hmany : (under x.hashIndex S).Nontrivial
  · rw [if_pos hmany, if_neg fun h => (hx.isLeaf_iff hn).1 h hmany]
  · rw [if_neg hmany, if_pos ((hx.isLeaf_iff hn).2 hmany)]

/-- The bytes of the children are collected. -/
theorem collect_rehashes : ∀ (cs : List ChildEntry) (acc : Bytes) (t : MerkleTrie),
    (∀ c ∈ cs, Fresh hash store t.cache L (path ++ [c.hashIndex]) c.childId (under c.hashIndex S) (G c.hashIndex)) →
      Rehashes store F t (cs.foldlM (fun acc c => do
        let child ← getNode store c.childId
        return acc ++ childDigest c child) acc)
        (fun r c' => r = acc ++ (cs.map ChildEntry.hashIndex).flatMap (digestOf hash L path S) ∧ Quiet store t.cache c')
  | [], acc, t, _ => Rehashes.pure ⟨(List.append_nil acc).symm, .refl⟩
  | c :: cs, acc, t, hcs => by
    obtain ⟨n, hn⟩ := (hcs c List.mem_cons_self).seen _ (hcs c List.mem_cons_self).id_mem
    have hdigest := childDigest_eq (hcs c List.mem_cons_self) hn
    obtain ⟨c₁, hget, hq₁, -⟩ := getNode_quiet hn
    have hcs₁ : ∀ c' ∈ cs, Fresh hash store c₁ L (path ++ [c'.hashIndex]) c'.childId (under c'.hashIndex S)
        (G c'.hashIndex) := fun c' hc' =>
      (hcs c' (List.mem_cons_of_mem _ hc')).congr (fun i _ => hq₁.view i) (fun i _ => by rw [hq₁.created]) fun _ _ h => h
    obtain ⟨r, c₂, hfold, hr₂, hr, hq₂⟩ := collect_rehashes cs (acc ++ childDigest c n) (t.setCache c₁) hcs₁
    refine ⟨r, c₂, ?_, (hq₁.rehashed).trans hr₂, ?_, ?_⟩
    · rw [List.foldlM_cons]
      refine state_bind_eq_ok.2 ⟨acc ++ childDigest c n, t.setCache c₁, ?_, hfold⟩
      exact state_bind_eq_ok.2 ⟨n, _, hget, rfl⟩
    · rw [hr, hdigest, List.map_cons, List.flatMap_cons, List.append_assoc]
    · exact hq₁.trans hq₂

end Children

/-! ## A node and all below it -/

theorem nodeHash_of_many {L : Nat} {path : Bytes} {S : Set Bytes} (hmany : S.Nontrivial) :
    nodeHash hash (L + 1) path S =
      hash (UInt8.ofNat path.length :: path ++ (firstBytesOf S).flatMap (digestOf hash L path S)) := by
  rw [nodeHash, if_pos hmany]
  rfl

theorem footprint_children {S : Set Bytes} {G : UInt8 → Set Nat} (hfan : Fan S n) (hG : Apart S id G) :
    footprint G n.children = ⋃ b, G b := by
  ext i
  rw [Set.mem_iUnion]
  constructor
  · rintro ⟨c, -, hi⟩
    exact ⟨_, hi⟩
  · rintro ⟨b, hi⟩
    by_cases hne : (under b S).Nonempty
    · obtain ⟨c, hc, rfl⟩ := (hfan.index b).2 hne
      exact ⟨c, hc, hi⟩
    · rw [hG.rest b hne] at hi
      cases hi

/-- Writing the hash of an inner node, which is the one it has unless it was created since the last commit. -/
theorem Written.rehashed {c c' : MerkleTrieCache} {h : Bytes} (hw : Written store c c' id { n with hash := h })
    (hn : view store c id = some n) (hold : id ∉ c.pendingCreated → n.hash = h) : Rehashed store {id} c c' := by
  refine ⟨fun i hi => ?_, fun i m hm => ?_, hw.resident, hw.next, hw.lastCommitted, hw.created, hw.deletion⟩
  · by_cases hid : i = id
    · subst hid
      rw [hw.self, hn, ← hold (hi.resolve_left fun hne => hne rfl)]
    · exact hw.other i hid
  · by_cases hid : i = id
    · exact ⟨_, hid ▸ hw.self⟩
    · exact ⟨m, (hw.other i hid).trans hm⟩

/-- **Recomputing leaves no stale hash.** -/
theorem rehashesBelow (hash : Bytes → Bytes) (store : PageStore) : ∀ L, RehashesBelow hash store L := by
  have hleaf : ∀ (L : Nat) (path e : Bytes) (id : Nat) (t : MerkleTrie), view store t.cache id = some (.leaf e) →
      e.length = L → Rehashes store {id} t (recomputeHashAt store hash (L + 1) id path)
        (fun _ c' => Fresh hash store c' L path id {e} {id}) := by
    intro L path e id t hv hlen
    rw [recomputeHashAt]
    refine (peek_rehashes hv).bind subset_rfl fun m c₁ _ hpeek => ?_
    obtain ⟨rfl, hq⟩ := hpeek
    rw [leaf_isLeaf, if_pos rfl]
    exact Rehashes.pure (.leaf ((hq.view id).trans hv) hlen)
  intro L
  induction L with
  | zero =>
    intro path id S F t h
    cases h with
    | leaf hv hlen => exact hleaf 0 path _ id t hv hlen
  | succ M ih =>
    intro path id S F t h
    cases h with
    | leaf hv hlen => exact hleaf (M + 1) path _ id t hv hlen
    | @branch _ _ _ _ n G hv hn hG hc =>
      have hchildren := footprint_children hn.toFan hG
      have hself : id ∉ ⋃ b, G b := fun hm => by
        obtain ⟨b, hb⟩ := Set.mem_iUnion.1 hm
        exact hG.self b hb
      have hsub : (⋃ b, G b) ⊆ insert id (⋃ b, G b) := Set.subset_insert _ _
      rw [recomputeHashAt]
      refine (peek_rehashes hv).bind (Set.empty_subset _) fun m c₁ _ hpeek => ?_
      obtain ⟨rfl, hq⟩ := hpeek
      rw [hn.isLeaf hn.many.nonempty, if_neg Bool.false_ne_true]
      have hc₁ : ∀ c ∈ m.children, Stands hash store c₁ M (path ++ [c.hashIndex]) c.childId (under c.hashIndex S)
          (G c.hashIndex) := fun c hcm => (hc c hcm).kept hq.keeps
      have hloop := rehashChildren_rehashes ih hG.disjoint m.children (t.setCache c₁) hn.sorted hc₁
      rw [hchildren] at hloop
      refine hloop.bind hsub fun _ c₂ hr₂ hfresh => ?_
      refine (collect_rehashes (F := ∅) m.children _ ((t.setCache c₁).setCache c₂) hfresh).bind (Set.empty_subset _)
        fun acc c₃ hr₃ hcollect => ?_
      obtain ⟨hacc, hq₃⟩ := hcollect
      have hhash : hash acc = nodeHash hash (M + 1) path S := by
        rw [hacc, hn.toFan.hashIndexes, nodeHash_of_many hn.many]
      have hcreated : c₃.pendingCreated = t.cache.pendingCreated :=
        hq₃.created.trans (hr₂.created.trans hq.created)
      have hv₃ : view store c₃ id = some m :=
        (hq₃.view id).trans ((hr₂.view id (.inl hself)).trans ((hq.view id).trans hv))
      obtain ⟨c₄, hupdate, hw⟩ := updateNode_written (t := ((t.setCache c₁).setCache c₂).setCache c₃)
        (fun m => { m with hash := hash acc }) hv₃
      have hold : id ∉ c₃.pendingCreated → m.hash = hash acc := by
        intro hnew
        rw [hcreated] at hnew
        rw [hhash]
        exact hn.hashed hnew
      have hr₄ : Rehashed store {id} c₃ c₄ := hw.rehashed hv₃ hold
      refine ⟨(), c₄, state_bind_eq_ok.2 ⟨m, _, hupdate, rfl⟩, hr₄.mono ?_, ?_⟩
      · exact Set.singleton_subset_iff.2 (Set.mem_insert _ _)
      refine .branch hw.self ⟨⟨hn.cons, hn.sorted, hn.index, hn.mask⟩, hn.many, fun _ => hhash, fun hold c hcm => ?_⟩ hG
        fun c hcm => ?_
      · have hsame : c₄.pendingCreated = t.cache.pendingCreated := hw.created.trans hcreated
        rw [hsame] at hold ⊢
        exact hn.old hold c hcm
      · have hfresh₃ : Fresh hash store c₃ M (path ++ [c.hashIndex]) c.childId (under c.hashIndex S) (G c.hashIndex) :=
          (hfresh c hcm).rehashed hr₃ (Set.disjoint_empty _)
        exact hfresh₃.rehashed hr₄ (Set.disjoint_singleton_right.2 (hG.self _))

end Steps

end Trie
end Algod
