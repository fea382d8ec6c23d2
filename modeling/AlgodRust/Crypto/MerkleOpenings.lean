import AlgodRust.Crypto.VectorCommitment
/-!
# MerkleOpenings — proofs of several elements, complete and sound

Completeness: the positions of a proof, once sorted, stay strictly increasing on the way up, so that one item is left at
the root and the proof exists; a repeated index counts once.  Soundness, for a tree as it is built from the array itself:
the verifier neither knows how deep the tree is nor which leaves exist.  What it computes at the root is a node of the
tree, and from a level where all of its items are nodes of one layer the level below has items that are nodes of the
layer below (`Above.below`), since a digest has one input only; and an item is no missing child, whose place holds zeros.
The way down ends at the elements and at the leaves together, as no element has the digest of a node.
-/
namespace Algod
namespace Crypto

open Msgpack (Bytes)

/-! ## Sorted positions -/

theorem mem_parents : ∀ {ps : List Nat} {x : Nat}, x ∈ parents ps → ∃ p ∈ ps, x = p / 2
  | [p], x, h => ⟨p, List.mem_cons_self, List.eq_of_mem_singleton h⟩
  | p :: q :: rest, x, h => by
    unfold parents at h
    split at h
    · rcases List.mem_cons.1 h with rfl | h
      · exact ⟨p, List.mem_cons_self, rfl⟩
      · obtain ⟨r, hr, rfl⟩ := mem_parents h
        exact ⟨r, List.mem_cons_of_mem _ (List.mem_cons_of_mem _ hr), rfl⟩
    · rcases List.mem_cons.1 h with rfl | h
      · exact ⟨p, List.mem_cons_self, rfl⟩
      · obtain ⟨r, hr, rfl⟩ := mem_parents h
        exact ⟨r, List.mem_cons_of_mem _ hr, rfl⟩

/-- Increasing positions have increasing parents: two that share one are next to each other and are taken together. -/
theorem parents_pairwise : ∀ {ps : List Nat}, ps.Pairwise (· < ·) → (parents ps).Pairwise (· < ·)
  | [], _ => List.Pairwise.nil
  | [p], _ => List.pairwise_singleton _ _
  | p :: q :: rest, h => by
    obtain ⟨hp, hrest⟩ := List.pairwise_cons.1 h
    obtain ⟨hq, hrest'⟩ := List.pairwise_cons.1 hrest
    have hpq := hp q List.mem_cons_self
    unfold parents
    by_cases hsib : q = p ^^^ 1
    · rw [if_pos hsib]
      refine List.pairwise_cons.2 ⟨fun x hx => ?_, parents_pairwise hrest'⟩
      obtain ⟨r, hr, rfl⟩ := mem_parents hx
      have hqr := hq r hr
      rcases Nat.mod_two_eq_zero_or_one p with heven | hodd
      · rw [xor_one_of_even heven] at hsib
        omega
      · rw [xor_one_of_odd hodd] at hsib
        omega
    · rw [if_neg hsib]
      refine List.pairwise_cons.2 ⟨fun x hx => ?_, parents_pairwise hrest⟩
      obtain ⟨r, hr, rfl⟩ := mem_parents hx
      have hqr : q ≤ r := by
        rcases List.mem_cons.1 hr with rfl | hr
        · exact Nat.le_refl _
        · exact Nat.le_of_lt (hq r hr)
      rcases Nat.mod_two_eq_zero_or_one p with heven | hodd
      · rw [xor_one_of_even heven] at hsib
        omega
      · omega

theorem ancestors_pairwise : ∀ {levels : List Layer} {ps : List Nat}, ps.Pairwise (· < ·) →
    (ancestors levels ps).Pairwise (· < ·)
  | [], _, h => h
  | [_], _, h => h
  | _ :: next :: above, _, h => @ancestors_pairwise (next :: above) _ (parents_pairwise h)

theorem ancestors_ne_nil : ∀ {levels : List Layer} {ps : List Nat}, ps ≠ [] → ancestors levels ps ≠ []
  | [], _, h => h
  | [_], _, h => h
  | _ :: next :: above, _, h => @ancestors_ne_nil (next :: above) _ (length_parents h)

/-- The items of sorted positions are at increasing positions, each of them once. -/
theorem leafItems_pairwise (leaves : Layer) : ∀ (prev : Option Nat) {ps : List Nat}, ps.Pairwise (· ≤ ·) →
    (∀ a ∈ prev, ∀ p ∈ ps, a ≤ p) → ((leafItems leaves prev ps).map LayerItem.pos).Pairwise (· < ·) ∧
      ∀ x, x ∈ (leafItems leaves prev ps).map LayerItem.pos ↔ x ∈ ps ∧ prev ≠ some x
  | _, [], _, _ => ⟨List.Pairwise.nil, fun x => by simp [leafItems]⟩
  | prev, p :: ps, hsorted, hprev => by
    obtain ⟨hp, hps⟩ := List.pairwise_cons.1 hsorted
    unfold leafItems
    by_cases hsame : prev = some p
    · rw [if_pos hsame]
      obtain ⟨hpair, hmem⟩ := leafItems_pairwise leaves prev hps (fun a ha q hq => hprev a ha q (List.mem_cons_of_mem _ hq))
      refine ⟨hpair, fun x => (hmem x).trans ?_⟩
      rw [List.mem_cons]
      constructor
      · exact fun ⟨hx, hne⟩ => ⟨.inr hx, hne⟩
      · rintro ⟨rfl | hx, hne⟩
        · exact absurd hsame hne
        · exact ⟨hx, hne⟩
    · rw [if_neg hsame]
      obtain ⟨hpair, hmem⟩ := leafItems_pairwise leaves (some p) hps (by rintro a ha; cases ha; exact hp)
      refine ⟨?_, fun x => ?_⟩
      · rw [List.map_cons]
        refine List.pairwise_cons.2 ⟨fun x hx => ?_, hpair⟩
        obtain ⟨hx, hne⟩ := (hmem x).1 hx
        exact Nat.lt_of_le_of_ne (hp x hx) (fun heq => hne (congrArg some heq))
      · rw [List.map_cons, List.mem_cons, List.mem_cons, hmem x]
        by_cases hxp : x = p
        · subst hxp
          exact iff_of_true (.inl rfl) ⟨.inl rfl, hsame⟩
        · constructor
          · rintro (hx | ⟨hx, -⟩)
            · exact absurd hx hxp
            · refine ⟨.inr hx, fun hprevx => ?_⟩
              -- a position before the first one is not repeated behind it
              have hle := hprev x hprevx p List.mem_cons_self
              have hge := hp x hx
              omega
          · rintro ⟨hx | hx, -⟩
            · exact absurd hx hxp
            · exact .inr ⟨hx, fun heq => hxp (Option.some.inj heq).symm⟩

/-! ## Completeness -/

section Complete

variable {F : HashFunctions}

/-- **A proof of positions in range exists.** -/
theorem createProof_ok {tree : Tree} (hlay : Layered F tree.hash tree.levels) {idxs : List Nat} (hne : idxs ≠ [])
    (hb : ∀ i ∈ idxs, i < (tree.levels.headD []).length) :
    ∃ proof, tree.createProof F (idxs.insertionSort (· ≤ ·)) = .ok proof ∧ proof.hashFactory = tree.hash ∧
      proof.treeDepth = tree.levels.length - 1 := by
  have hlevels : tree.levels ≠ [] := by
    intro h0
    rw [h0] at hlay
    cases hlay
  have hlen := List.length_pos_of_ne_nil hlevels
  obtain ⟨hpair, hmem⟩ := leafItems_pairwise (tree.levels.headD []) none (List.pairwise_insertionSort (· ≤ ·) idxs)
    (by simp)
  obtain ⟨top, hrun, hpos⟩ := proveLevels_eq (F := F) tree (tree.levels.length - 1) 0
    (leafItems (tree.levels.headD []) none (idxs.insertionSort (· ≤ ·))) [] (by omega)
  rw [List.drop_zero] at hpos
  have hb' : ∀ p ∈ (leafItems (tree.levels.headD []) none (idxs.insertionSort (· ≤ ·))).map LayerItem.pos,
      p < (tree.levels.headD []).length := by
    intro p hp
    exact hb p ((List.mem_insertionSort _).1 ((hmem p).1 hp).1)
  have hps : (leafItems (tree.levels.headD []) none (idxs.insertionSort (· ≤ ·))).map LayerItem.pos ≠ [] := by
    obtain ⟨i, hi⟩ := List.exists_mem_of_ne_nil idxs hne
    exact List.ne_nil_of_mem ((hmem i).2 ⟨(List.mem_insertionSort _).2 hi, nofun⟩)
  -- all positions have come together at zero
  have hone : top.length = 1 := by
    rw [← List.length_map LayerItem.pos, hpos]
    have hzero := ancestors_lt hlay hb'
    have hpairTop := @ancestors_pairwise tree.levels _ hpair
    have hneTop := @ancestors_ne_nil tree.levels _ hps
    match hanc : ancestors tree.levels ((leafItems (tree.levels.headD []) none
      (idxs.insertionSort (· ≤ ·))).map LayerItem.pos) with
    | [] => exact absurd hanc hneTop
    | [_] => rfl
    | a :: b :: rest =>
      rw [hanc] at hzero hpairTop
      have hab := (List.pairwise_cons.1 hpairTop).1 b List.mem_cons_self
      rw [hzero a List.mem_cons_self, hzero b (List.mem_cons_of_mem _ List.mem_cons_self)] at hab
      omega
  refine ⟨⟨[] ++ hintsOf (tree.levels.drop 0)
    ((leafItems (tree.levels.headD []) none (idxs.insertionSort (· ≤ ·))).map LayerItem.pos), tree.hash,
    tree.levels.length - 1⟩, ?_, rfl, rfl⟩
  unfold Tree.createProof
  rw [hrun]
  simp only [hone, ne_eq, not_true_eq_false, if_false]

/-- The verifier sorts the items of distinct positions into what the prover started from. -/
theorem sort_itemsOf_eq {leaves : Layer} {ps idxs : List Nat} (hnodup : ps.Nodup) (hmem : ∀ p, p ∈ ps ↔ p ∈ idxs) :
    (itemsOf leaves ps).insertionSort (fun a b => a.pos ≤ b.pos) = leafItems leaves none (idxs.insertionSort (· ≤ ·)) := by
  obtain ⟨hpair, hmem'⟩ := leafItems_pairwise leaves none (List.pairwise_insertionSort (· ≤ ·) idxs) (by simp)
  rw [insertionSort_itemsOf, leafItems_eq]
  congr 1
  refine List.Pairwise.eq_of_mem_iff ?_ hpair (fun x => ?_)
  · have hsorted := List.pairwise_insertionSort (· ≤ ·) ps
    have hnodup' : (ps.insertionSort (· ≤ ·)).Nodup := (List.perm_insertionSort _ _).nodup_iff.2 hnodup
    exact (hsorted.and hnodup').imp (fun ⟨hle, hne⟩ => Nat.lt_of_le_of_ne hle hne)
  · rw [List.mem_insertionSort, hmem x, hmem' x, List.mem_insertionSort]
    exact ⟨fun h => ⟨h, nofun⟩, fun h => h.1⟩

/-- The proof of some positions verifies the leaves at them. -/
theorem verify_leaves {tree : Tree} (hlay : Layered F tree.hash tree.levels)
    (hs : Sized tree.hash.digestSize (tree.levels.headD [])) (hdepth : tree.levels.length - 1 < 64)
    {idxs : List Nat} {proof : Proof} (hproof : tree.createProof F (idxs.insertionSort (· ≤ ·)) = .ok proof)
    (hfactory : proof.hashFactory = tree.hash) (hd : proof.treeDepth = tree.levels.length - 1)
    {elems : List (Nat × Hashable)} (hne : elems ≠ []) (hnodup : (elems.map Prod.fst).Nodup)
    (hmem : ∀ p, p ∈ elems.map Prod.fst ↔ p ∈ idxs)
    (hb : ∀ e ∈ elems, e.1 < (tree.levels.headD []).length ∧ e.1 < 2 ^ proof.treeDepth)
    (hleaf : ∀ e ∈ elems, (tree.levels.headD []).getD e.1 [] = genericHashObj F tree.hash e.2) :
    verify F tree.root elems proof = .ok () := by
  have hitems : verifyItems F proof elems = .ok (itemsOf (tree.levels.headD []) (elems.map Prod.fst)) := by
    have hmap : itemsOf (tree.levels.headD []) (elems.map Prod.fst) =
        elems.map (fun e => ⟨e.1, (tree.levels.headD []).getD e.1 []⟩) := by
      unfold itemsOf
      rw [List.map_map]
      rfl
    rw [hmap]
    refine Run.mapM_eq_map (fun e he => ?_)
    have hshl : oneShl proof.treeDepth = .ok (2 ^ proof.treeDepth) := if_pos (by omega)
    simp only [hshl, Run.ok_bind, if_neg (Nat.not_le.2 (hb e he).2), hleaf e he, hfactory]
    rfl
  have hsorted := @sort_itemsOf_eq (tree.levels.headD []) _ _ hnodup hmem
  have hpath := verifyPath_createProof hlay hs hproof hsorted (by
      intro h0
      have hlen := congrArg List.length h0
      rw [List.length_insertionSort, itemsOf, List.length_map, List.length_map, List.length_nil] at hlen
      exact hne (List.length_eq_zero_iff.1 hlen)) (by
      intro item hitem
      obtain ⟨p, hp, rfl⟩ := List.mem_map.1 ((List.perm_insertionSort _ _).subset hitem)
      obtain ⟨e, he, rfl⟩ := List.mem_map.1 hp
      exact (hb e he).1)
  unfold verify
  rw [if_neg hne]
  exact Run.bind_eq_ok.2 ⟨_, hitems, hpath⟩

variable {factory : HashFactory} {array : HashArray} {tree : Tree}

/-- What is known of the tree of an array as it is. -/
structure PlainTree (F : HashFunctions) (factory : HashFactory) (array : HashArray) (tree : Tree) : Prop where
  hash_eq : tree.hash = factory
  numOfElements_eq : tree.numOfElements = array.length
  isVectorCommitment : tree.isVectorCommitment = false
  empty : array.length = 0 → tree.levels = []
  layered : array.length ≠ 0 → Layered F factory tree.levels
  sized : Sized factory.digestSize (tree.levels.headD [])
  length_leaves : (tree.levels.headD []).length = array.length
  leaf : ∀ p < array.length, ∃ elem, array.marshal p = .ok elem ∧
    (tree.levels.headD []).getD p [] = genericHashObj F factory elem

theorem plainTree_of_build (h : build F array factory = .ok tree) : PlainTree F factory array tree := by
  obtain ⟨leaves, hleaves, hret⟩ := Run.bind_eq_ok.1 h
  obtain rfl := Except.ok.inj hret
  obtain ⟨hlen, hleaf⟩ := hashLeaves_eq_ok hleaves
  have hhead := @headD_buildTree F factory leaves array.length false
  have hnil_iff : leaves = [] ↔ array.length = 0 := by rw [← hlen, List.length_eq_zero_iff]
  refine ⟨rfl, rfl, rfl, fun h0 => if_pos (hnil_iff.2 h0), fun h0 => ?_, ?_, ?_, ?_⟩
  · exact layered_buildTree (fun hnil => h0 (hnil_iff.1 hnil)) _ _
  · rw [hhead]
    exact sized_of_hashed (fun p hp => hleaf p (hlen ▸ hp))
  · rw [hhead, hlen]
  · rw [hhead]
    exact hleaf

/-- The range check of the prover. -/
theorem rangeCheck_ok {idxs : List Nat} {n : Nat} (hb : ∀ i ∈ idxs, i < n) :
    idxs.forM (fun idx => if idx ≥ n then (throw (.posOutOfBound idx n) : Except MerkleError Unit) else pure ()) = .ok () :=
  Run.forM_eq_ok.2 (fun i hi => if_neg (Nat.not_le.2 (hb i hi)))

/-- **Proofs of a plain tree are complete.** -/
theorem PlainTree.complete (h : PlainTree F factory array tree) (hlen : array.length ≤ 2 ^ 63) {idxs : List Nat}
    (hne : idxs ≠ []) (hb : ∀ i ∈ idxs, i < array.length) :
    ∃ proof, tree.prove F idxs = .ok proof ∧ ∀ elems : List (Nat × Hashable), (elems.map Prod.fst).Nodup →
      (∀ i, i ∈ elems.map Prod.fst ↔ i ∈ idxs) → (∀ e ∈ elems, array.marshal e.1 = .ok e.2) →
      verify F tree.root elems proof = .ok () := by
  obtain ⟨i, hi⟩ := List.exists_mem_of_ne_nil idxs hne
  have hpos : array.length ≠ 0 := by
    have := hb i hi
    omega
  have hlay : Layered F tree.hash tree.levels := by
    rw [h.hash_eq]
    exact h.layered hpos
  have hs : Sized tree.hash.digestSize (tree.levels.headD []) := by
    rw [h.hash_eq]
    exact h.sized
  have hb' : ∀ i ∈ idxs, i < (tree.levels.headD []).length := by
    rw [h.length_leaves]
    exact hb
  obtain ⟨hdepth, hsize⟩ := hlay.length_levels_le
  have hdepth' := @hdepth 63 (by rw [h.length_leaves]; exact hlen)
  obtain ⟨proof, hproof, hfactory, hd⟩ := createProof_ok hlay hne hb'
  refine ⟨proof, ?_, fun elems hnodup hmem hmarshal => ?_⟩
  · unfold Tree.prove
    rw [if_neg hne, h.numOfElements_eq, if_neg hpos, h.isVectorCommitment]
    simp only [Bool.false_eq_true, if_false]
    exact Run.bind_eq_ok.2 ⟨(), rangeCheck_ok hb, hproof⟩
  · have helems : elems ≠ [] := by
      rintro rfl
      exact absurd ((hmem i).2 hi) (by simp)
    have hin : ∀ e ∈ elems, e.1 < (tree.levels.headD []).length := fun e he =>
      hb' e.1 ((hmem e.1).1 (List.mem_map_of_mem he))
    refine verify_leaves hlay hs (by omega) hproof hfactory hd helems hnodup hmem (fun e he => ⟨hin e he, ?_⟩)
      (fun e he => ?_)
    · rw [hd]
      exact Nat.lt_of_lt_of_le (hin e he) hsize
    · obtain ⟨elem, helem, hleaf⟩ := h.leaf e.1 (by rw [← h.length_leaves]; exact hin e he)
      rw [hmarshal e he] at helem
      rw [hleaf, h.hash_eq, Except.ok.inj helem]

/-- **Proofs of a vector commitment are complete.** -/
theorem VcTree.complete (h : VcTree F factory array tree) {idxs : List Nat} (hne : idxs ≠ [])
    (hb : ∀ i ∈ idxs, i < array.length) :
    ∃ proof, tree.prove F idxs = .ok proof ∧ ∀ elems : List (Nat × Hashable), (elems.map Prod.fst).Nodup →
      (∀ i, i ∈ elems.map Prod.fst ↔ i ∈ idxs) → (∀ e ∈ elems, array.marshal e.1 = .ok e.2) →
      verifyVectorCommitment F tree.root elems proof = .ok () := by
  obtain ⟨i, hi⟩ := List.exists_mem_of_ne_nil idxs hne
  have hpos : array.length ≠ 0 := by
    have := hb i hi
    omega
  have hlay : Layered F tree.hash tree.levels := by
    rw [h.hash_eq]
    exact h.layered
  have hs : Sized tree.hash.digestSize (tree.levels.headD []) := by
    rw [h.hash_eq]
    exact h.sized
  have hD := Nat.le_of_lt h.depth_lt
  have hlevels := h.length_levels
  have hlt : ∀ i < array.length, i < 2 ^ vcDepth array := fun i hi => Nat.lt_of_lt_of_le hi (length_le_padded array)
  have hconv : tree.convertLeavesIndexes idxs = .ok (idxs.map (reverseBits (vcDepth array))) := by
    unfold Tree.convertLeavesIndexes
    rw [hlevels, Nat.add_sub_cancel]
    exact Run.mapM_eq_map (fun i hi => (index_eq_ok h.depth_lt).2 ⟨hlt i (hb i hi), rfl⟩)
  obtain ⟨proof, hproof, hfactory, hd⟩ := @createProof_ok F tree hlay (idxs.map (reverseBits (vcDepth array)))
    (fun h0 => hne (List.map_eq_nil_iff.1 h0)) (by
      intro p hp
      obtain ⟨i, _, rfl⟩ := List.mem_map.1 hp
      rw [h.length_leaves]
      exact reverseBits_lt hD i)
  rw [hlevels, Nat.add_sub_cancel] at hd
  refine ⟨proof, ?_, fun elems hnodup hmem hmarshal => ?_⟩
  · unfold Tree.prove
    rw [if_neg hne, h.numOfElements_eq, if_neg hpos, h.isVectorCommitment]
    simp only [if_true]
    exact Run.bind_eq_ok.2 ⟨(), rangeCheck_ok hb, Run.bind_eq_ok.2 ⟨_, hconv, hproof⟩⟩
  · have helems : elems ≠ [] := by
      rintro rfl
      exact absurd ((hmem i).2 hi) (by simp)
    have hin : ∀ e ∈ elems, e.1 < array.length := fun e he => hb e.1 ((hmem e.1).1 (List.mem_map_of_mem he))
    -- the verifier reads the indices at the depth of the tree
    let converted := elems.map (fun e => (reverseBits (vcDepth array) e.1, e.2))
    have hfst : converted.map Prod.fst = (elems.map Prod.fst).map (reverseBits (vcDepth array)) := by
      simp only [converted, List.map_map]
      rfl
    have hconverted : elems.mapM (fun e => do
        let vcIdx ← merkleTreeToVectorCommitmentIndex e.1 proof.treeDepth
        return (vcIdx, e.2)) = .ok converted := by
      refine Run.mapM_eq_map (fun e he => ?_)
      rw [hd, (index_eq_ok h.depth_lt).2 ⟨hlt e.1 (hin e he), rfl⟩]
      rfl
    have hinj : ∀ i ∈ elems.map Prod.fst, ∀ j ∈ elems.map Prod.fst,
        reverseBits (vcDepth array) i = reverseBits (vcDepth array) j → i = j := by
      intro i hi j hj hij
      obtain ⟨e, he, rfl⟩ := List.mem_map.1 hi
      obtain ⟨e', he', rfl⟩ := List.mem_map.1 hj
      rw [← reverseBits_reverseBits hD (hlt e.1 (hin e he)), hij, reverseBits_reverseBits hD (hlt e'.1 (hin e' he'))]
    unfold verifyVectorCommitment
    refine Run.bind_eq_ok.2 ⟨converted, hconverted, ?_⟩
    refine verify_leaves hlay hs (by rw [hlevels, Nat.add_sub_cancel]; exact h.depth_lt) hproof hfactory
      (by rw [hd, hlevels, Nat.add_sub_cancel]) (fun h0 => helems (List.map_eq_nil_iff.1 h0))
      (by rw [hfst]; exact (List.nodup_map_iff_inj_on hnodup).2 hinj) (fun p => ?_) (fun c hc => ?_) (fun c hc => ?_)
    · rw [hfst, List.mem_map, List.mem_map]
      exact exists_congr (fun i => and_congr_left (fun _ => hmem i))
    · obtain ⟨e, _, rfl⟩ := List.mem_map.1 hc
      have hin := reverseBits_lt hD e.1
      rw [h.length_leaves, hd]
      exact ⟨hin, hin⟩
    · obtain ⟨e, he, rfl⟩ := List.mem_map.1 hc
      have hback := reverseBits_reverseBits hD (hlt e.1 (hin e he))
      obtain ⟨x, hx, hleaf⟩ := h.leaf_of_index (reverseBits_lt hD e.1) (by rw [hback]; exact hin e he)
      rw [hback, hmarshal e he] at hx
      rw [hleaf, h.hash_eq, Except.ok.inj hx]

/-- What the tree of an array proves of its elements, the verifier accepts. -/
theorem VcTree.verify_prove (h : VcTree F factory array tree) {idxs : List Nat} {proof : Proof} (hne : idxs ≠ [])
    (hprove : tree.prove F idxs = .ok proof) {elems : List (Nat × Hashable)} (hperm : (elems.map Prod.fst).Perm idxs)
    (hnodup : idxs.Nodup) (hmarshal : ∀ e ∈ elems, array.marshal e.1 = .ok e.2) :
    verifyVectorCommitment F tree.root elems proof = .ok () := by
  obtain ⟨hb, -⟩ := h.prove_eq_ok hne hprove
  obtain ⟨proof', hproof', hverify⟩ := h.complete hne hb
  obtain rfl := Except.ok.inj (hprove.symm.trans hproof')
  exact hverify elems (hperm.nodup_iff.2 hnodup) (fun i => hperm.mem_iff) hmarshal

end Complete

/-! ## What the verifier hashes -/

section Sound

variable {F : HashFunctions} {factory : HashFactory} {pl above : List LayerItem} {inputs : List Bytes}

/-- The inputs of the nodes one level up from some items, with the hints for the siblings that they lack. -/
def upInputs (digestSize : Nat) : List LayerItem → List GenericDigest → List Bytes
  | [], _ => []
  | [item], hints => [item.upInput digestSize (hints.headD [])]
  | item :: next :: rest, hints =>
    if next.pos = item.pos ^^^ 1 then item.upInput digestSize next.hash :: upInputs digestSize rest hints
    else item.upInput digestSize (hints.headD []) :: upInputs digestSize (next :: rest) hints.tail

/-- The inputs of all nodes on the way up. -/
def verifyInputs (F : HashFunctions) (factory : HashFactory) :
    Nat → Nat → List LayerItem → List GenericDigest → List Bytes
  | 0, _, _, _ => []
  | fuel + 1, l, pl, hints =>
    if hints ≠ [] ∨ pl.length > 1 then
      upInputs factory.digestSize pl hints ++
        match partialLayerUp F siblingsVerify l true factory factory.digestSize pl hints with
        | .ok above rest => verifyInputs F factory fuel (l + 1) above rest
        | .error _ _ => []
    else []

/-- Two siblings give the same node, whichever of them is named first. -/
theorem upInput_comm {item next : LayerItem} (h : next.pos = item.pos ^^^ 1) (digestSize : Nat) :
    next.upInput digestSize item.hash = item.upInput digestSize next.hash := by
  unfold LayerItem.upInput
  rcases Nat.mod_two_eq_zero_or_one item.pos with heven | hodd
  · rw [xor_one_of_even heven] at h
    have hnext : ¬ next.pos % 2 = 0 := by omega
    rw [if_neg hnext, if_pos heven]
  · rw [xor_one_of_odd hodd] at h
    have hnext : next.pos % 2 = 0 := by omega
    have hitem : ¬ item.pos % 2 = 0 := by omega
    rw [if_pos hnext, if_neg hitem]

/-- What one level of the verifier computes: every item has a parent, which is the hash of an input that holds the item,
and every parent is such a hash. -/
structure Above (F : HashFunctions) (factory : HashFactory) (pl above : List LayerItem) (inputs : List Bytes) : Prop where
  parent : ∀ item ∈ pl, ∃ parent ∈ above, parent.pos = item.pos / 2 ∧ ∃ sibling,
    parent.hash = F.hash factory.hashType (item.upInput factory.digestSize sibling) ∧
      item.upInput factory.digestSize sibling ∈ inputs
  hashed : ∀ parent ∈ above, ∃ x ∈ inputs, parent.hash = F.hash factory.hashType x

theorem Above.nil (inputs : List Bytes) : Above F factory [] [] inputs :=
  ⟨fun _ h => (by cases h), fun _ h => (by cases h)⟩

theorem Above.cons (h : Above F factory pl above inputs) (item : LayerItem) (sibling : GenericDigest) :
    Above F factory (item :: pl) (item.up F factory factory.digestSize true sibling :: above)
      (item.upInput factory.digestSize sibling :: inputs) where
  parent := by
    intro item' hmem
    rcases List.mem_cons.1 hmem with rfl | hmem
    · exact ⟨_, List.mem_cons_self, rfl, sibling, up_hash _ _, List.mem_cons_self⟩
    · obtain ⟨parent, hparent, hpos, sibling', hhash, hin⟩ := h.parent item' hmem
      exact ⟨parent, List.mem_cons_of_mem _ hparent, hpos, sibling', hhash, List.mem_cons_of_mem _ hin⟩
  hashed := by
    intro parent hmem
    rcases List.mem_cons.1 hmem with rfl | hmem
    · exact ⟨_, List.mem_cons_self, up_hash _ _⟩
    · obtain ⟨x, hx, hhash⟩ := h.hashed parent hmem
      exact ⟨x, List.mem_cons_of_mem _ hx, hhash⟩

theorem Above.cons_pair (h : Above F factory pl above inputs)
    {item next : LayerItem} (hnext : next.pos = item.pos ^^^ 1) :
    Above F factory (item :: next :: pl) (item.up F factory factory.digestSize true next.hash :: above)
      (item.upInput factory.digestSize next.hash :: inputs) where
  parent := by
    intro item' hmem
    rcases List.mem_cons.1 hmem with rfl | hmem
    · exact ⟨_, List.mem_cons_self, rfl, next.hash, up_hash _ _, List.mem_cons_self⟩
    · rcases List.mem_cons.1 hmem with rfl | hmem
      · refine ⟨_, List.mem_cons_self, ?_, item.hash, ?_, ?_⟩
        · show item.pos / 2 = item'.pos / 2
          rcases Nat.mod_two_eq_zero_or_one item.pos with heven | hodd
          · rw [hnext, xor_one_of_even heven]
            omega
          · rw [hnext, xor_one_of_odd hodd]
            omega
        · rw [upInput_comm hnext]
          exact up_hash _ _
        · rw [upInput_comm hnext]
          exact List.mem_cons_self
      · obtain ⟨parent, hparent, hpos, sibling', hhash, hin⟩ := h.parent item' hmem
        exact ⟨parent, List.mem_cons_of_mem _ hparent, hpos, sibling', hhash, List.mem_cons_of_mem _ hin⟩
  hashed := (h.cons item next.hash).hashed

/-- One level of the verifier. -/
theorem partialLayerUp_above (level : Nat) : ∀ (pl : List LayerItem) {hints rest : List GenericDigest}
    {above : List LayerItem},
    partialLayerUp F siblingsVerify level true factory factory.digestSize pl hints = .ok above rest →
      Above F factory pl above (upInputs factory.digestSize pl hints) ∧
        above.length + rest.length ≤ pl.length + hints.length ∧
        (pl ≠ [] → above.length + rest.length < pl.length + hints.length ∧ above ≠ [])
  | [], hints, rest, above, h => by
    cases h
    exact ⟨Above.nil _, Nat.le_refl _, fun hne => absurd rfl hne⟩
  | [item], hints, rest, above, h => by
    unfold partialLayerUp at h
    obtain ⟨sibling, hints', hsib, hret⟩ := Run.state_bind_eq_ok.1 h
    cases hret
    cases hints with
    | nil => cases hsib
    | cons hint hints =>
      cases hsib
      refine ⟨?_, ?_, fun _ => ⟨?_, List.cons_ne_nil _ _⟩⟩
      · exact (Above.nil []).cons item _
      · simp only [List.length_cons, List.length_nil]
        omega
      · simp only [List.length_cons, List.length_nil]
        omega
  | item :: next :: pl, hints, rest, above, h => by
    unfold partialLayerUp at h
    by_cases hnext : next.pos = item.pos ^^^ 1
    · rw [if_pos hnext] at h
      obtain ⟨above', hints', hup, hret⟩ := Run.state_bind_eq_ok.1 h
      cases hret
      obtain ⟨habove, hle, -⟩ := partialLayerUp_above level pl hup
      rw [upInputs, if_pos hnext]
      refine ⟨habove.cons_pair hnext, ?_, fun _ => ⟨?_, List.cons_ne_nil _ _⟩⟩
      · simp only [List.length_cons]
        omega
      · simp only [List.length_cons]
        omega
    · rw [if_neg hnext] at h
      obtain ⟨sibling, hints₁, hsib, h⟩ := Run.state_bind_eq_ok.1 h
      obtain ⟨above', hints₂, hup, hret⟩ := Run.state_bind_eq_ok.1 h
      cases hret
      cases hints with
      | nil => cases hsib
      | cons hint hints =>
        cases hsib
        obtain ⟨habove, hle, -⟩ := partialLayerUp_above level (next :: pl) hup
        rw [upInputs, if_neg hnext]
        refine ⟨habove.cons item _, ?_, fun _ => ⟨?_, List.cons_ne_nil _ _⟩⟩
        · simp only [List.length_cons] at hle ⊢
          omega
        · simp only [List.length_cons] at hle ⊢
          omega

/-! ## Down from the root -/

/-- No inputs of nodes collide, none collides with an element, and no digest is that of a missing child. -/
structure Separated (H : Bytes → GenericDigest) (digestSize : Nat) (elements nodes : Set Bytes) : Prop where
  node_inj : ∀ x ∈ nodes, ∀ y ∈ nodes, H x = H y → x = y
  element_node : ∀ x ∈ elements, ∀ y ∈ nodes, H x ≠ H y
  nonzero : ∀ x, x ∈ elements ∨ x ∈ nodes → H x ≠ resize digestSize []

/-- Items that are nodes of a layer. -/
def AtLayer (layer : Layer) (pl : List LayerItem) : Prop :=
  ∀ item ∈ pl, item.pos < layer.length ∧ item.hash = layer.getD item.pos []

variable {tree : Tree} {elements nodes : Set Bytes}

theorem Layered.last {levels : List Layer} (h : Layered F factory levels) :
    (levels.getD (levels.length - 1) []).length = 1 := by
  induction h with
  | root top => rfl
  | up hlen h ih => exact ih

theorem Layered.length_pos {levels : List Layer} (h : Layered F factory levels) : 0 < levels.length := by
  cases h <;> exact Nat.succ_pos _

/-- A node above the leaves is the hash of an input that was hashed for the tree. -/
theorem Layered.node_input (hlay : Layered F factory tree.levels) (hhash : tree.hash = factory)
    (hs : Sized factory.digestSize (tree.levels.headD [])) {m q : Nat} (hm : m + 1 < tree.levels.length)
    (hq : q < (tree.levels.getD (m + 1) []).length) :
    2 * q < (tree.levels.getD m []).length ∧
      maPrefix ++ pairToBeHashed ((tree.levels.getD m []).getD (2 * q) []) ((tree.levels.getD m []).getD (2 * q + 1) [])
        factory.digestSize ∈ tree.nodeInputs ∧
      (tree.levels.getD (m + 1) []).getD q [] = F.hash factory.hashType (maPrefix ++
        pairToBeHashed ((tree.levels.getD m []).getD (2 * q) []) ((tree.levels.getD m []).getD (2 * q + 1) [])
          factory.digestSize) := by
  have hs' := hlay.sized_getD hs (m := m) (by omega)
  rw [hlay.getD_succ hm, length_buildNextLayer] at hq
  have hlt : 2 * q < (tree.levels.getD m []).length := by omega
  refine ⟨hlt, mem_treeInputs hm (by rw [hhash]; exact mem_nodeInputs hs' hlt), ?_⟩
  rw [hlay.getD_succ hm, getD_buildNextLayer (F := F) _ hs' q hlt]
  unfold HashFactory.hashBytes
  simp only [List.flatten_cons, List.flatten_nil, List.append_nil]

/-- **One level down**: below items that are nodes of a layer, the items are nodes of the layer below. -/
theorem Above.below (hlay : Layered F factory tree.levels) (hhash : tree.hash = factory)
    (hs : Sized factory.digestSize (tree.levels.headD []))
    (hsep : Separated (F.hash factory.hashType) factory.digestSize elements nodes)
    (htree : ∀ x ∈ tree.nodeInputs, x ∈ nodes)
    (h : Above F factory pl above inputs) (hinputs : ∀ x ∈ inputs, x ∈ nodes)
    (hpl : ∀ item ∈ pl, ∃ x, (x ∈ elements ∨ x ∈ nodes) ∧ item.hash = F.hash factory.hashType x) {m : Nat}
    (hm : m + 1 < tree.levels.length) (habove : AtLayer (tree.levels.getD (m + 1) []) above) :
    AtLayer (tree.levels.getD m []) pl := by
  intro item hitem
  obtain ⟨parent, hparent, hpos, sibling, hparentHash, hmem⟩ := h.parent item hitem
  obtain ⟨x, hx, hitemHash⟩ := hpl item hitem
  have hsize : item.hash.length = factory.digestSize := by
    rw [hitemHash]
    exact F.length_hash _ _
  obtain ⟨hlt, hnode⟩ := habove parent hparent
  obtain ⟨hlt', hin, hnodeHash⟩ := hlay.node_input hhash hs hm hlt
  have hs' := hlay.sized_getD hs (m := m) (by omega)
  have hinput := hsep.node_inj _ (hinputs _ hmem) _ (htree _ hin) (hparentHash.symm.trans (hnode.trans hnodeHash))
  unfold LayerItem.upInput at hinput
  by_cases heven : item.pos % 2 = 0
  · rw [if_pos heven] at hinput
    have hleft := (pair_inj hinput).1
    have hpos' : 2 * parent.pos = item.pos := by omega
    rw [resize_of_length hsize, resize_of_length (hs'.getD hlt')] at hleft
    rw [hpos'] at hlt' hleft
    exact ⟨hlt', hleft⟩
  · rw [if_neg heven] at hinput
    have hright := (pair_inj hinput).2
    have hpos' : 2 * parent.pos + 1 = item.pos := by omega
    rw [hpos', resize_of_length hsize] at hright
    by_cases hin : item.pos < (tree.levels.getD m []).length
    · rw [resize_of_length (hs'.getD hin)] at hright
      exact ⟨hin, hright⟩
    · -- the place of a missing child holds zeros
      rw [List.getD_eq_default _ _ (Nat.not_lt.1 hin), hitemHash] at hright
      exact absurd hright (hsep.nonzero x hx)

/-- **From the root down to the items**: they are nodes of one layer of the tree. -/
theorem verifyLevels_atLayer (hlay : Layered F factory tree.levels) (hhash : tree.hash = factory)
    (hs : Sized factory.digestSize (tree.levels.headD []))
    (hsep : Separated (F.hash factory.hashType) factory.digestSize elements nodes)
    (htree : ∀ x ∈ tree.nodeInputs, x ∈ nodes)
    (hleaves : ∀ p < (tree.levels.headD []).length, ∃ x ∈ elements,
      (tree.levels.headD []).getD p [] = F.hash factory.hashType x) :
    ∀ (fuel l : Nat) {pl top : List LayerItem} {hints rest : List GenericDigest},
      verifyLevels F factory factory.digestSize fuel l pl hints = .ok top rest → pl.length + hints.length ≤ fuel →
      pl ≠ [] → (∀ x ∈ verifyInputs F factory fuel l pl hints, x ∈ nodes) →
      (∀ item ∈ pl, ∃ x, (x ∈ elements ∨ x ∈ nodes) ∧ item.hash = F.hash factory.hashType x) →
      inspectRoot tree.root top = .ok () → ∃ m < tree.levels.length, AtLayer (tree.levels.getD m []) pl
  | 0, l, pl, top, hints, rest, _, hfuel, hne, _, _, _ => by
    have := List.length_pos_of_ne_nil hne
    omega
  | fuel + 1, l, pl, top, hints, rest, hrun, hfuel, hne, hinputs, hpl, hroot => by
    unfold verifyLevels at hrun
    unfold verifyInputs at hinputs
    by_cases hgo : hints ≠ [] ∨ pl.length > 1
    · rw [if_pos hgo] at hrun hinputs
      obtain ⟨above, hints', hup, hrun⟩ := Run.state_bind_eq_ok.1 hrun
      obtain ⟨habove, -, hless⟩ := partialLayerUp_above l pl hup
      obtain ⟨hless, haboveNe⟩ := hless hne
      rw [hup] at hinputs
      have hup' : ∀ x ∈ upInputs factory.digestSize pl hints, x ∈ nodes := fun x hx =>
        hinputs x (List.mem_append_left _ hx)
      obtain ⟨m, hm, hat⟩ := verifyLevels_atLayer hlay hhash hs hsep htree hleaves fuel (l + 1) hrun (by omega) haboveNe
        (fun x hx => hinputs x (List.mem_append_right _ hx))
        (fun parent hparent => by
          obtain ⟨x, hx, hxhash⟩ := habove.hashed parent hparent
          exact ⟨x, .inr (hup' x hx), hxhash⟩) hroot
      cases m with
      | zero =>
        -- a node with the digest of a leaf
        obtain ⟨parent, hparent⟩ := List.exists_mem_of_ne_nil above haboveNe
        obtain ⟨x, hx, hxhash⟩ := habove.hashed parent hparent
        obtain ⟨hlt, hnode⟩ := hat parent hparent
        have hhead : tree.levels.getD 0 [] = tree.levels.headD [] := by cases tree.levels <;> rfl
        rw [hhead] at hlt hnode
        obtain ⟨e, he, hleaf⟩ := hleaves parent.pos hlt
        exact absurd (hleaf.symm.trans (hnode.symm.trans hxhash)) (hsep.element_node e he x (hup' x hx))
      | succ m => exact ⟨m, by omega, habove.below hlay hhash hs hsep htree hup' hpl hm hat⟩
    · rw [if_neg hgo] at hrun
      cases hrun
      have hlen := List.length_pos_of_ne_nil hne
      obtain ⟨item, rfl⟩ : ∃ item, pl = [item] := List.length_eq_one_iff.1 (by omega)
      have hitem : item.pos = 0 ∧ item.hash = tree.root := by
        simp only [inspectRoot] at hroot
        by_cases hbad : item.pos ≠ 0 ∨ item.hash ≠ tree.root
        · rw [if_pos hbad] at hroot
          cases hroot
        · exact ⟨Classical.not_not.1 (fun h => hbad (.inl h)), Classical.not_not.1 (fun h => hbad (.inr h))⟩
      have hlevels := hlay.length_pos
      refine ⟨tree.levels.length - 1, by omega, fun item' hmem => ?_⟩
      rw [List.eq_of_mem_singleton hmem, hitem.1, hitem.2, hlay.last,
        @Tree.root_eq tree (tree.levels.length - 1) (by omega)]
      exact ⟨Nat.one_pos, rfl⟩

/-- What the verifier computes are digests. -/
theorem verifyLevels_sized : ∀ (fuel l : Nat) {pl top : List LayerItem} {hints rest : List GenericDigest},
    verifyLevels F factory factory.digestSize fuel l pl hints = .ok top rest →
      (∀ item ∈ pl, item.hash.length = factory.digestSize) → ∀ item ∈ top, item.hash.length = factory.digestSize
  | 0, l, pl, top, hints, rest, hrun, hpl => by
    cases hrun
    exact hpl
  | fuel + 1, l, pl, top, hints, rest, hrun, hpl => by
    unfold verifyLevels at hrun
    by_cases hgo : hints ≠ [] ∨ pl.length > 1
    · rw [if_pos hgo] at hrun
      obtain ⟨above, hints', hup, hrun⟩ := Run.state_bind_eq_ok.1 hrun
      obtain ⟨habove, -, -⟩ := partialLayerUp_above l pl hup
      refine verifyLevels_sized fuel (l + 1) hrun (fun parent hparent => ?_)
      obtain ⟨x, -, hx⟩ := habove.hashed parent hparent
      rw [hx]
      exact F.length_hash _ _
    · rw [if_neg hgo] at hrun
      cases hrun
      exact hpl

/-- The inputs of the elements to verify, beside those of the array. -/
def openedElements (array : HashArray) (elems : List (Nat × Hashable)) : Set Bytes :=
  {x | x ∈ array.inputs ∨ ∃ e ∈ elems, x = e.2.input}

/-- The items that the verifier starts from. -/
def openedItems (F : HashFunctions) (factory : HashFactory) (elems : List (Nat × Hashable)) : List LayerItem :=
  (elems.map fun e => (⟨e.1, genericHashObj F factory e.2⟩ : LayerItem)).insertionSort (fun a b => a.pos ≤ b.pos)

/-- The inputs of the nodes that the tree and the verifier hash. -/
def openedNodes (F : HashFunctions) (tree : Tree) (elems : List (Nat × Hashable)) (proof : Proof) : Set Bytes :=
  {x | x ∈ tree.nodeInputs ∨ x ∈ verifyInputs F proof.hashFactory (proof.path.length + elems.length) 0
    (openedItems F proof.hashFactory elems) proof.path}

/-- What the verifier accepts. -/
theorem verify_eq_ok {root : GenericDigest} {elems : List (Nat × Hashable)} {proof : Proof} (hne : elems ≠ [])
    (hd : proof.treeDepth < 64) (h : verify F root elems proof = .ok ()) :
    ∃ top rest, verifyLevels F proof.hashFactory proof.hashFactory.digestSize (proof.path.length + elems.length) 0
      (openedItems F proof.hashFactory elems) proof.path = .ok top rest ∧ inspectRoot root top = .ok () := by
  unfold verify at h
  rw [if_neg hne] at h
  obtain ⟨items, hitems, h⟩ := Run.bind_eq_ok.1 h
  have hmap : items = elems.map fun e => (⟨e.1, genericHashObj F proof.hashFactory e.2⟩ : LayerItem) := by
    have hall := Run.mapM_eq_ok.1 hitems
    have hshl : oneShl proof.treeDepth = .ok (2 ^ proof.treeDepth) := if_pos hd
    refine List.ext_getElem (by rw [List.length_map, hall.length_eq]) (fun i hi hi' => ?_)
    have hi'' : i < elems.length := by rw [hall.length_eq]; exact hi
    have hat := hall.get hi'' hi
    rw [List.get_eq_getElem, List.get_eq_getElem] at hat
    simp only [hshl, Run.ok_bind] at hat
    rw [List.getElem_map]
    split at hat
    · cases hat
    · exact (Except.ok.inj hat).symm
  unfold verifyPath at h
  obtain ⟨_, _, h⟩ := Run.bind_eq_ok.1 h
  have hlen : (items.insertionSort (fun a b => a.pos ≤ b.pos)).length = elems.length := by
    rw [List.length_insertionSort, hmap, List.length_map]
  rw [hlen, hmap] at h
  cases hrun : verifyLevels F proof.hashFactory proof.hashFactory.digestSize (proof.path.length + elems.length) 0
      (openedItems F proof.hashFactory elems) proof.path with
  | error e s =>
    unfold openedItems at hrun
    rw [hrun] at h
    cases h
  | ok top rest =>
    unfold openedItems at hrun
    rw [hrun] at h
    exact ⟨top, rest, rfl, h⟩

/-- **Proofs of a plain tree are sound.** -/
theorem PlainTree.sound {array : HashArray} (h : PlainTree F factory array tree) {elems : List (Nat × Hashable)}
    (hne : elems ≠ []) {proof : Proof} (hd : proof.treeDepth < 64) (hfactory : proof.hashFactory = tree.hash)
    (hsep : Separated (F.hash factory.hashType) factory.digestSize (openedElements array elems)
      (openedNodes F tree elems proof)) (hok : verify F tree.root elems proof = .ok ()) :
    ∀ e ∈ elems, e.1 < array.length ∧ ∃ x, array.marshal e.1 = .ok x ∧
      genericHashObj F factory e.2 = genericHashObj F factory x := by
  obtain ⟨top, rest, hrun, hroot⟩ := verify_eq_ok hne hd hok
  rw [hfactory, h.hash_eq] at hrun
  unfold openedNodes at hsep
  rw [hfactory, h.hash_eq] at hsep
  have hperm := List.perm_insertionSort (fun a b : LayerItem => a.pos ≤ b.pos)
    (elems.map fun e => (⟨e.1, genericHashObj F factory e.2⟩ : LayerItem))
  have hitems : ∀ item, item ∈ openedItems F factory elems ↔
      ∃ e ∈ elems, (⟨e.1, genericHashObj F factory e.2⟩ : LayerItem) = item := fun item => by
    unfold openedItems
    rw [hperm.mem_iff, List.mem_map]
  have hhashed : ∀ item ∈ openedItems F factory elems, ∃ x ∈ openedElements array elems,
      item.hash = F.hash factory.hashType x := by
    intro item hitem
    obtain ⟨e, he, rfl⟩ := (hitems item).1 hitem
    exact ⟨e.2.input, .inr ⟨e, he, rfl⟩, genericHashObj_eq e.2⟩
  have hitemsNe : openedItems F factory elems ≠ [] := by
    obtain ⟨e, he⟩ := List.exists_mem_of_ne_nil elems hne
    exact List.ne_nil_of_mem ((hitems _).2 ⟨e, he, rfl⟩)
  have hlenItems : (openedItems F factory elems).length = elems.length := by
    unfold openedItems
    rw [List.length_insertionSort, List.length_map]
  by_cases hzero : array.length = 0
  · -- the root of an empty tree is no digest
    have hempty : tree.root = [] := by
      unfold Tree.root
      rw [h.empty hzero]
      rfl
    have hsized := verifyLevels_sized _ 0 hrun (fun item hitem => by
      obtain ⟨x, -, hx⟩ := hhashed item hitem
      rw [hx]
      exact F.length_hash _ _)
    rw [hempty] at hroot
    cases top with
    | nil => cases hroot
    | cons item _ =>
      have hpos := factory.hashType.digestSize_pos
      have hlen := hsized item List.mem_cons_self
      simp only [inspectRoot] at hroot
      rw [if_pos (.inr (fun h0 => by rw [h0] at hlen; exact Nat.ne_of_lt hpos hlen))] at hroot
      cases hroot
  · have hlay := h.layered hzero
    have hleaves : ∀ p < (tree.levels.headD []).length, ∃ x ∈ openedElements array elems,
        (tree.levels.headD []).getD p [] = F.hash factory.hashType x := by
      intro p hp
      rw [h.length_leaves] at hp
      obtain ⟨elem, hmarshal, hleaf⟩ := h.leaf p hp
      exact ⟨elem.input, .inl ⟨p, hp, elem, hmarshal, rfl⟩, hleaf.trans (genericHashObj_eq elem)⟩
    obtain ⟨m, hm, hat⟩ := verifyLevels_atLayer hlay h.hash_eq h.sized hsep (fun x hx => .inl hx) hleaves _ 0 hrun
      (by omega) hitemsNe (fun x hx => .inr hx)
      (fun item hitem => by
        obtain ⟨x, hx, hxhash⟩ := hhashed item hitem
        exact ⟨x, .inl hx, hxhash⟩) hroot
    intro e he
    have hmem := (hitems _).2 ⟨e, he, rfl⟩
    obtain ⟨hlt, hnode⟩ := hat _ hmem
    cases m with
    | zero =>
      have hhead : tree.levels.getD 0 [] = tree.levels.headD [] := by cases tree.levels <;> rfl
      rw [hhead] at hlt hnode
      rw [h.length_leaves] at hlt
      obtain ⟨elem, hmarshal, hleaf⟩ := h.leaf e.1 hlt
      exact ⟨hlt, elem, hmarshal, hnode.trans hleaf⟩
    | succ m =>
      -- an element with the digest of a node
      obtain ⟨-, hin, hnodeHash⟩ := hlay.node_input h.hash_eq h.sized hm hlt
      obtain ⟨x, hx, hxhash⟩ := hhashed _ hmem
      exact absurd (hxhash.symm.trans (hnode.trans hnodeHash)) (hsep.element_node x hx _ (.inl hin))

end Sound

/-- **Merkle proofs are complete and sound.**  An array whose leaves fit in memory is far below the bound on its length; a
proof carries the distinct indices of a list in any order. -/
theorem merkleProofs_complete_and_sound {F : HashFunctions} {factory : HashFactory} {array : HashArray}
    (hlen : array.length ≤ 2 ^ 63) :
    (∀ tree, build F array factory = .ok tree →
      (∀ idxs : List Nat, idxs ≠ [] → (∀ i ∈ idxs, i < array.length) → ∃ proof, tree.prove F idxs = .ok proof ∧
        ∀ elems : List (Nat × Hashable), (elems.map Prod.fst).Nodup → (∀ i, i ∈ elems.map Prod.fst ↔ i ∈ idxs) →
          (∀ e ∈ elems, array.marshal e.1 = .ok e.2) → verify F tree.root elems proof = .ok ()) ∧
      ∀ (elems : List (Nat × Hashable)) (proof : Proof), elems ≠ [] → (elems.map Prod.fst).Nodup →
        proof.treeDepth < 64 → proof.hashFactory = tree.hash →
        Separated (F.hash factory.hashType) factory.digestSize (openedElements array elems)
          (openedNodes F tree elems proof) → verify F tree.root elems proof = .ok () →
        ∀ e ∈ elems, e.1 < array.length ∧ ∃ x, array.marshal e.1 = .ok x ∧
          genericHashObj F factory e.2 = genericHashObj F factory x) ∧
    ∀ tree, buildVectorCommitmentTree F array factory = .ok tree → ∀ idxs : List Nat, idxs ≠ [] →
      (∀ i ∈ idxs, i < array.length) → ∃ proof, tree.prove F idxs = .ok proof ∧
        ∀ elems : List (Nat × Hashable), (elems.map Prod.fst).Nodup → (∀ i, i ∈ elems.map Prod.fst ↔ i ∈ idxs) →
          (∀ e ∈ elems, array.marshal e.1 = .ok e.2) → verifyVectorCommitment F tree.root elems proof = .ok () := by
  refine ⟨fun tree hbuild => ?_, fun tree hbuild idxs hne hb => (vcTree_of_build hbuild).complete hne hb⟩
  have htree := plainTree_of_build hbuild
  refine ⟨fun idxs hne hb => htree.complete hlen hne hb, ?_⟩
  intro elems proof hne _ hd hfactory hsep hok
  exact htree.sound hne hd hfactory hsep hok

/-! ## Three elements under SHA-512/256 -/

-- the digests of the node over two elements, of the node over one, and of the root
def oddNode0 : Nat := 0x48aa2f36fabcf8a9de9394eda1bf4138f2aaf7ba8b32272e114f925678643f80
def oddNode1 : Nat := 0x1c39aed756e589aa26391f2223c8fe6b152af7d1f0d20ae26975e0e5782562c1
def oddRoot : Nat := 0x0999c348741ecf0165bd575d5e30354f0552d2bd70fc862f85b3f22324ec3c61

/-- The inputs of the sample that SHA-512/256 hashes, with their digests. -/
def oddDigests : List (Bytes × Nat) :=
  [((sampleElement 0).input, sampleLeaf0), ((sampleElement 1).input, sampleLeaf1), ((sampleElement 2).input, sampleLeaf2),
    (sampleNodeInput sampleLeaf0 sampleLeaf1, oddNode0), (sampleNodeInput sampleLeaf2 0, oddNode1),
    (sampleNodeInput oddNode0 oddNode1, oddRoot)]

def oddHash : HashFunctions where
  hash t bs :=
    if t = .sha512_256 then Msgpack.beBytes 32 ((oddDigests.lookup bs).getD 0) else List.replicate t.digestSize 0
  length_hash := by
    intro t bs
    split
    · rename_i ht
      rw [ht, Msgpack.length_beBytes]
      rfl
    · exact List.length_replicate

def oddArray : HashArray where
  length := 3
  marshal i := .ok (sampleElement (UInt8.ofNat i))

def oddTree : Tree where
  levels :=
    [[sampleLeaf0, sampleLeaf1, sampleLeaf2].map (Msgpack.beBytes 32), [oddNode0, oddNode1].map (Msgpack.beBytes 32),
      [Msgpack.beBytes 32 oddRoot]]
  numOfElements := 3
  hash := sha512_256
  isVectorCommitment := false

theorem build_oddTree : build oddHash oddArray sha512_256 = .ok oddTree := by
  obtain ⟨tree, hbuild, htree⟩ := @Run.ok_of_any _ _ (build oddHash oddArray sha512_256)
    (fun tree => decide (tree = oddTree)) (by decide)
  rw [hbuild, of_decide_eq_true htree]

/-- What opens indices 2 and 0: the element beside index 0 and nothing beside index 2. -/
def oddProof : Proof := ⟨[Msgpack.beBytes 32 sampleLeaf1, []], sha512_256, 2⟩

theorem Separated.of_lists {H : Bytes → GenericDigest} {digestSize : Nat} {elements nodes : Set Bytes} (es ns : List Bytes)
    (hes : ∀ x ∈ elements, x ∈ es) (hns : ∀ x ∈ nodes, x ∈ ns)
    (h : (∀ x ∈ ns, ∀ y ∈ ns, H x = H y → x = y) ∧ (∀ x ∈ es, ∀ y ∈ ns, H x ≠ H y) ∧
      ∀ x ∈ es ++ ns, H x ≠ resize digestSize []) : Separated H digestSize elements nodes :=
  ⟨fun x hx y hy => h.1 x (hns x hx) y (hns y hy), fun x hx y hy => h.2.1 x (hes x hx) y (hns y hy),
    fun x hx => h.2.2 x (List.mem_append.2 (hx.imp (hes x) (hns x)))⟩

theorem odd_separated : Separated (oddHash.hash .sha512_256) 32
    (openedElements oddArray [(2, sampleElement 2), (0, sampleElement 0)])
    (openedNodes oddHash oddTree [(2, sampleElement 2), (0, sampleElement 0)] oddProof) := by
  refine .of_lists ([0, 1, 2].map (fun b => (sampleElement b).input)) oddTree.nodeInputs ?_ ?_ (by decide)
  · rintro x (⟨j, hj, y, hy, rfl⟩ | ⟨e, he, rfl⟩)
    · obtain rfl := Except.ok.inj hy
      have hj' : j < 3 := hj
      obtain rfl | rfl | rfl : j = 0 ∨ j = 1 ∨ j = 2 := by omega
      all_goals decide
    · revert e
      decide
  · rintro x (hx | hx)
    · exact hx
    · revert x
      decide

set_option maxRecDepth 20000 in
/-- The proof for the indices 2, 0, 2 of three elements is accepted, and opens them to these elements only. -/
theorem merkleProofs_of_three :
    (∃ proof, oddTree.prove oddHash [2, 0, 2] = .ok proof ∧
      verify oddHash oddTree.root [(2, sampleElement 2), (0, sampleElement 0)] proof = .ok ()) ∧
    ∀ e ∈ [(2, sampleElement 2), (0, sampleElement 0)], e.1 < oddArray.length ∧ ∃ x, oddArray.marshal e.1 = .ok x ∧
      genericHashObj oddHash sha512_256 e.2 = genericHashObj oddHash sha512_256 x := by
  have hlen : oddArray.length ≤ 2 ^ 63 := by decide
  obtain ⟨hcomplete, hsound⟩ := (merkleProofs_complete_and_sound hlen).1 oddTree build_oddTree
  constructor
  · obtain ⟨proof, hproof, hverify⟩ := hcomplete [2, 0, 2] (List.cons_ne_nil _ _) (by decide)
    refine ⟨proof, hproof, hverify _ (by decide) (fun i => ?_) (fun e he => ?_)⟩
    · simp only [List.map_cons, List.map_nil, List.mem_cons, List.not_mem_nil, or_false]
      tauto
    · rcases List.mem_pair.1 he with rfl | rfl
      · rfl
      · rfl
  · exact hsound _ oddProof (List.cons_ne_nil _ _) (by decide) (by decide) rfl odd_separated
      ((@Run.ok_of_any _ _ _ (fun _ => true) (by decide)).elim (fun _ h => h.1))

end Crypto
end Algod
