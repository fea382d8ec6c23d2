import AlgodRust.Crypto.MerkleComplete
/-!
# VectorCommitment — what a vector commitment binds

A leaf of the tree of an array holds the element whose index is the position of the leaf with its bits reversed, or the
bottom element.  The verifier reverses the bits of an index at the depth that the proof claims, and climbs as many levels
as the proof has hints.  Where the hash has no collision, a proof is accepted only if it has the tree's depth of hints and
the element is the one of the leaf; which index that leaf has depends on the depth that the proof claims, and nothing
compares that with the tree's (`opensOnlyItself_iff`).
-/
namespace Algod
namespace Crypto

open Msgpack (Bytes)

/-! ## Reversed indices -/

/-- The lowest `depth` bits in reverse. -/
def reverseBits (depth i : Nat) : Nat := (BitVec.ofNat 64 i).reverse.toNat >>> (64 - depth)

theorem testBit_reverseBits {depth : Nat} (hd : depth ≤ 64) (i k : Nat) :
    (reverseBits depth i).testBit k = (decide (k < depth) && i.testBit (depth - 1 - k)) := by
  unfold reverseBits
  rw [Nat.testBit_shiftRight, BitVec.testBit_toNat, BitVec.getLsbD_reverse, BitVec.getMsbD]
  by_cases hk : k < depth
  · have h1 : 64 - depth + k < 64 := by omega
    have h2 : 64 - 1 - (64 - depth + k) = depth - 1 - k := by omega
    have h3 : depth - 1 - k < 64 := by omega
    simp only [hk, h1, h2, BitVec.getLsbD_ofNat, h3, decide_true, Bool.true_and]
  · have h1 : ¬ 64 - depth + k < 64 := by omega
    simp only [hk, h1, decide_false, Bool.false_and]

theorem reverseBits_lt {depth : Nat} (hd : depth ≤ 64) (i : Nat) : reverseBits depth i < 2 ^ depth := by
  refine Nat.lt_pow_two_of_testBit _ (fun k hk => ?_)
  rw [testBit_reverseBits hd]
  have : ¬ k < depth := by omega
  simp [this]

/-- An index and the index at its reversed position in a tree of another depth are the same fraction. -/
theorem reverseBits_mul {d depth i : Nat} (hd : d ≤ 64) (hdepth : depth ≤ 64) (hi : i < 2 ^ d)
    (hpos : reverseBits d i < 2 ^ depth) : reverseBits depth (reverseBits d i) * 2 ^ d = i * 2 ^ depth := by
  refine Nat.eq_of_testBit_eq (fun b => ?_)
  rw [Nat.testBit_mul_two_pow, Nat.testBit_mul_two_pow, testBit_reverseBits hdepth, testBit_reverseBits hd]
  by_cases hb : d ≤ b
  · by_cases hb' : depth ≤ b
    · by_cases hlt : b - d < depth
      · have h1 : depth - 1 - (b - d) < d := by omega
        have h2 : d - 1 - (depth - 1 - (b - d)) = b - depth := by omega
        simp [hb, hb', hlt, h1, h2]
      · have h1 : i.testBit (b - depth) = false :=
          Nat.testBit_lt_two_pow (Nat.lt_of_lt_of_le hi (Nat.pow_le_pow_right (by omega) (by omega)))
        simp [hlt, h1]
    · have h1 : ¬ depth - 1 - (b - d) < d := by omega
      simp [hb', h1]
  · by_cases hb' : depth ≤ b
    · -- a bit of the index that the position has at or above the depth of the tree
      have h1 : (reverseBits d i).testBit (d - 1 - (b - depth)) = false :=
        Nat.testBit_lt_two_pow (Nat.lt_of_lt_of_le hpos (Nat.pow_le_pow_right (by omega) (by omega)))
      rw [testBit_reverseBits hd] at h1
      have h2 : d - 1 - (b - depth) < d := by omega
      have h3 : d - 1 - (d - 1 - (b - depth)) = b - depth := by omega
      simp only [h2, h3, decide_true, Bool.true_and] at h1
      simp [hb, h1]
    · simp [hb, hb']

theorem reverseBits_reverseBits {depth i : Nat} (hd : depth ≤ 64) (hi : i < 2 ^ depth) :
    reverseBits depth (reverseBits depth i) = i :=
  Nat.eq_of_mul_eq_mul_right (Nat.two_pow_pos depth) (reverseBits_mul hd hd hi (reverseBits_lt hd i))

/-- Conversely, the same fraction at another depth has the same position. -/
theorem reverseBits_of_mul {d depth i j : Nat} (hd : d ≤ 64) (hdepth : depth ≤ 64) (hj : j < 2 ^ depth)
    (h : j * 2 ^ d = i * 2 ^ depth) : i < 2 ^ d ∧ reverseBits d i = reverseBits depth j := by
  have hi : i < 2 ^ d := by
    refine Nat.lt_of_mul_lt_mul_right (a := 2 ^ depth) ?_
    rw [← h, Nat.mul_comm (2 ^ d)]
    exact Nat.mul_lt_mul_of_pos_right hj (Nat.two_pow_pos d)
  refine ⟨hi, Nat.eq_of_testBit_eq (fun k => ?_)⟩
  rw [testBit_reverseBits hd, testBit_reverseBits hdepth]
  -- both are the bit of the common product at `d + depth - 1 - k`
  have hbit := congrArg (fun n => n.testBit (d + depth - 1 - k)) h
  simp only [Nat.testBit_mul_two_pow] at hbit
  by_cases h1 : k < d
  · by_cases h2 : k < depth
    · have e1 : d ≤ d + depth - 1 - k := by omega
      have e2 : depth ≤ d + depth - 1 - k := by omega
      have e3 : d + depth - 1 - k - d = depth - 1 - k := by omega
      have e4 : d + depth - 1 - k - depth = d - 1 - k := by omega
      simp only [e1, e2, e3, e4, decide_true, Bool.true_and] at hbit
      simp [h1, h2, hbit]
    · have e1 : ¬ d ≤ d + depth - 1 - k := by omega
      have e2 : depth ≤ d + depth - 1 - k := by omega
      have e4 : d + depth - 1 - k - depth = d - 1 - k := by omega
      simp only [e1, e2, e4, decide_true, decide_false, Bool.true_and, Bool.false_and] at hbit
      simp [h2, ← hbit]
  · by_cases h2 : k < depth
    · have e1 : d ≤ d + depth - 1 - k := by omega
      have e2 : ¬ depth ≤ d + depth - 1 - k := by omega
      have e3 : d + depth - 1 - k - d = depth - 1 - k := by omega
      simp only [e1, e2, e3, decide_true, decide_false, Bool.true_and, Bool.false_and] at hbit
      simp [h1, hbit]
    · simp [h1, h2]

set_option maxRecDepth 20000 in
theorem index_eq_ok {i d v : Nat} (hd : d < 64) :
    merkleTreeToVectorCommitmentIndex i d = .ok v ↔ i < 2 ^ d ∧ v = reverseBits d i := by
  unfold merkleTreeToVectorCommitmentIndex
  split
  · rename_i h0
    subst h0
    have hrev : reverseBits 0 0 = 0 := by decide
    rw [Nat.pow_zero, Nat.lt_one_iff]
    split
    · rename_i hi
      exact ⟨fun h => (by cases h), fun h => absurd h.1 hi⟩
    · rename_i hi
      obtain rfl := not_not.mp hi
      rw [hrev]
      exact ⟨fun h => ⟨rfl, (Except.ok.inj h).symm⟩, fun h => by rw [h.2]⟩
  · have hshl : oneShl d = .ok (2 ^ d) := if_pos hd
    rw [hshl, Run.ok_bind]
    split
    · rename_i hi
      exact ⟨fun h => (by cases h), fun h => absurd h.1 (Nat.not_lt.mpr hi)⟩
    · rename_i hi
      exact ⟨fun h => ⟨Nat.not_le.mp hi, (Except.ok.inj h).symm⟩, fun h => by rw [h.2]; rfl⟩

/-! ## The leaves of a commitment -/

/-- The depth of the tree of an array. -/
def vcDepth (array : HashArray) : Nat := if array.length ≤ 1 then 0 else bitLen (array.length - 1)

theorem length_le_padded (array : HashArray) : array.length ≤ 2 ^ vcDepth array := by
  unfold vcDepth bitLen
  split
  · assumption
  · split
    · omega
    · have := Nat.lt_log2_self (n := array.length - 1)
      omega

/-- The element at a leaf. -/
def leafElement (array : HashArray) (p : Nat) : Except MerkleError Hashable :=
  if reverseBits (vcDepth array) p < array.length then array.marshal (reverseBits (vcDepth array) p)
  else .ok bottomElement

set_option maxRecDepth 20000 in
theorem vcArray_new_eq_ok {array : HashArray} {vc : VectorCommitmentArray} (h : VectorCommitmentArray.new array = .ok vc) :
    vcDepth array < 64 ∧ vc.paddedLen = 2 ^ vcDepth array ∧ ∀ p < 2 ^ vcDepth array, vc.marshal p = leafElement array p := by
  unfold VectorCommitmentArray.new at h
  unfold vcDepth leafElement VectorCommitmentArray.marshal
  split at h
  · rename_i hle
    obtain rfl := Except.ok.inj h
    simp only [vcDepth, if_pos hle]
    refine ⟨by decide, rfl, fun p hp => ?_⟩
    -- the only leaf of the tree, read at the length 1
    obtain rfl : p = 0 := by simpa using hp
    have hindex : merkleTreeToVectorCommitmentIndex 0 1 = .ok (reverseBits 0 0) := by decide
    have hzero : reverseBits 0 0 = 0 := by decide
    rw [hindex, Run.ok_bind, hzero, if_neg (by decide)]
  · rename_i hgt
    obtain ⟨fullSize, hshl, hret⟩ := Run.bind_eq_ok.mp h
    obtain rfl := Except.ok.inj hret
    unfold oneShl at hshl
    split at hshl
    · rename_i hlt
      obtain rfl := Except.ok.inj hshl
      simp only [vcDepth, if_neg hgt]
      refine ⟨hlt, trivial, fun p hp => ?_⟩
      have hin := reverseBits_lt (Nat.le_of_lt hlt) p
      rw [(index_eq_ok hlt).mpr ⟨hp, rfl⟩, Run.ok_bind, if_neg (Nat.not_le.mpr hin)]
    · cases hshl

section Trees

variable {F : HashFunctions} {factory : HashFactory} {tree : Tree} {array : HashArray} {levels : List Layer}

/-- What is known of the tree of an array. -/
structure VcTree (F : HashFunctions) (factory : HashFactory) (array : HashArray) (tree : Tree) : Prop where
  hash_eq : tree.hash = factory
  numOfElements_eq : tree.numOfElements = array.length
  isVectorCommitment : tree.isVectorCommitment = true
  depth_lt : vcDepth array < 64
  layered : Layered F factory tree.levels
  sized : Sized factory.digestSize (tree.levels.headD [])
  length_leaves : (tree.levels.headD []).length = 2 ^ vcDepth array
  leaf : ∀ p < 2 ^ vcDepth array, ∃ elem, leafElement array p = .ok elem ∧
    (tree.levels.headD []).getD p [] = genericHashObj F factory elem

theorem hashLeaves_eq_ok {length : Nat} {marshal : Nat → Except MerkleError Hashable} {leaves : Layer}
    (h : hashLeaves F length marshal factory = .ok leaves) :
    leaves.length = length ∧ ∀ p < length, ∃ elem, marshal p = .ok elem ∧
      leaves.getD p [] = genericHashObj F factory elem := by
  have hall := Run.mapM_eq_ok.mp h
  have hlen : leaves.length = length := by
    rw [← hall.length_eq, List.length_range]
  refine ⟨hlen, fun p hp => ?_⟩
  have hp' : p < (List.range length).length := by rw [List.length_range]; exact hp
  have hp'' : p < leaves.length := by rw [hlen]; exact hp
  have hat := hall.get hp' hp''
  rw [List.get_eq_getElem, List.get_eq_getElem, List.getElem_range] at hat
  obtain ⟨elem, helem, hret⟩ := Run.bind_eq_ok.mp hat
  refine ⟨elem, ?_, ?_⟩
  · cases hm : marshal p with
    | error e => rw [hm] at helem; cases helem
    | ok x => rw [hm] at helem; cases helem; rfl
  · rw [List.getD_eq_getElem _ _ hp'']
    exact (Except.ok.inj hret).symm

theorem headD_buildTree (leaves : Layer) (n : Nat) (isVectorCommitment : Bool) :
    (buildTree F leaves factory n isVectorCommitment).levels.headD [] = leaves := by
  unfold buildTree
  by_cases hnil : leaves = []
  · simp only [hnil]
    rfl
  · obtain ⟨above, habove⟩ := @buildLayers_head F factory leaves.length leaves
    simp only [if_neg hnil, habove]
    rfl

theorem layered_buildTree {leaves : Layer} (hne : leaves ≠ []) (n : Nat) (isVectorCommitment : Bool) :
    Layered F factory (buildTree F leaves factory n isVectorCommitment).levels := by
  have hlevels : (buildTree F leaves factory n isVectorCommitment).levels = buildLayers F factory leaves.length leaves :=
    if_neg hne
  rw [hlevels]
  exact layered_buildLayers _ _ hne (Nat.le_refl _)

theorem sized_of_hashed {leaves : Layer} {P : Nat → Hashable → Prop}
    (h : ∀ p < leaves.length, ∃ elem, P p elem ∧ leaves.getD p [] = genericHashObj F factory elem) :
    Sized factory.digestSize leaves := by
  intro d hd
  obtain ⟨p, hp, rfl⟩ := List.getElem_of_mem hd
  obtain ⟨elem, _, helem⟩ := h p hp
  rw [← List.getD_eq_getElem _ [] hp, helem]
  exact length_hashBytes _

theorem vcTree_of_build (h : buildVectorCommitmentTree F array factory = .ok tree) :
    VcTree F factory array tree := by
  obtain ⟨vc, hvc, h⟩ := Run.bind_eq_ok.mp h
  obtain ⟨leaves, hleaves, hret⟩ := Run.bind_eq_ok.mp h
  obtain rfl := Except.ok.inj hret
  obtain ⟨hdepth, hpadded, hmarshal⟩ := vcArray_new_eq_ok hvc
  obtain ⟨hlen, hleaf⟩ := hashLeaves_eq_ok hleaves
  rw [hpadded] at hlen hleaf
  have hne : leaves ≠ [] := by
    rintro rfl
    have := Nat.two_pow_pos (vcDepth array)
    rw [← hlen, List.length_nil] at this
    omega
  have hhead := @headD_buildTree F factory leaves array.length true
  refine ⟨rfl, rfl, rfl, hdepth, layered_buildTree hne _ _, ?_, ?_, ?_⟩
  · rw [hhead]
    exact sized_of_hashed (fun p hp => hleaf p (hlen ▸ hp))
  · rw [hhead, hlen]
  · rw [hhead]
    intro p hp
    rw [← hmarshal p hp]
    exact hleaf p hp

/-- The layers above a layer are as many as its size has doublings. -/
theorem Layered.length_levels_le (h : Layered F factory levels) :
    (∀ {depth : Nat}, (levels.headD []).length ≤ 2 ^ depth → levels.length ≤ depth + 1) ∧
      (levels.headD []).length ≤ 2 ^ (levels.length - 1) := by
  induction h with
  | root top => exact ⟨fun _ => Nat.le_add_left 1 _, Nat.le_refl 1⟩
  | @up layer above hlen h ih =>
    obtain ⟨hle, hsize⟩ := ih
    rw [List.headD_cons, length_buildNextLayer] at hle hsize
    simp only [List.headD_cons, List.length_cons] at hle hsize ⊢
    constructor
    · intro depth hdepth
      cases depth with
      | zero => omega
      | succ depth =>
        rw [Nat.pow_succ] at hdepth
        have := @hle depth (by omega)
        omega
    · rw [show above.length + 1 + 1 - 1 = above.length + 1 - 1 + 1 by omega, Nat.pow_succ]
      omega

/-- A layer of `2 ^ depth` nodes has `depth` layers above it. -/
theorem Layered.length_levels (h : Layered F factory levels) {depth : Nat}
    (hlen : (levels.headD []).length = 2 ^ depth) : levels.length = depth + 1 := by
  obtain ⟨hle, hsize⟩ := h.length_levels_le
  rw [hlen] at hsize
  have hdepth := (Nat.pow_le_pow_iff_right Nat.one_lt_two).1 hsize
  have hlevels := hle hlen.le
  have hpos : 0 < levels.length := by cases h <;> exact Nat.succ_pos _
  omega

theorem VcTree.length_levels (h : VcTree F factory array tree) :
    tree.levels.length = vcDepth array + 1 := h.layered.length_levels h.length_leaves

/-! ## Proofs of several elements -/

theorem VcTree.leaf_of_index (h : VcTree F factory array tree) {p : Nat} (hp : p < 2 ^ vcDepth array)
    (hj : reverseBits (vcDepth array) p < array.length) :
    ∃ x, array.marshal (reverseBits (vcDepth array) p) = .ok x ∧
      (tree.levels.headD []).getD p [] = genericHashObj F factory x := by
  obtain ⟨elem, hmarshal, hleaf⟩ := h.leaf p hp
  unfold leafElement at hmarshal
  rw [if_pos hj] at hmarshal
  exact ⟨elem, hmarshal, hleaf⟩

theorem insertionSort_itemsOf (leaves : Layer) (ps : List Nat) :
    (itemsOf leaves ps).insertionSort (fun a b => a.pos ≤ b.pos) = itemsOf leaves (ps.insertionSort (· ≤ ·)) := by
  unfold itemsOf
  exact (List.map_insertionSort (· ≤ ·) (fun a b : LayerItem => a.pos ≤ b.pos) _ ps (fun _ _ _ _ => Iff.rfl)).symm

theorem VcTree.prove_eq_ok (h : VcTree F factory array tree) {idxs : List Nat} {proof : Proof}
    (hne : idxs ≠ []) (hprove : tree.prove F idxs = .ok proof) :
    (∀ i ∈ idxs, i < array.length) ∧
      tree.createProof F ((idxs.map (reverseBits (vcDepth array))).insertionSort (· ≤ ·)) = .ok proof := by
  unfold Tree.prove at hprove
  rw [if_neg hne, h.isVectorCommitment, if_pos rfl, h.numOfElements_eq] at hprove
  split at hprove
  · cases hprove
  obtain ⟨_, hbound, hprove⟩ := Run.bind_eq_ok.mp hprove
  have hb : ∀ i ∈ idxs, i < array.length := by
    intro i hi
    by_contra hge
    have := Run.forM_eq_ok.mp hbound i hi
    rw [if_pos (Nat.not_lt.mp hge)] at this
    cases this
  refine ⟨hb, ?_⟩
  have hconv : tree.convertLeavesIndexes idxs = .ok (idxs.map (reverseBits (vcDepth array))) := by
    unfold Tree.convertLeavesIndexes
    rw [h.length_levels, Nat.add_sub_cancel]
    exact Run.mapM_eq_map (fun i hi =>
      (index_eq_ok h.depth_lt).mpr ⟨Nat.lt_of_lt_of_le (hb i hi) (length_le_padded array), rfl⟩)
  rw [hconv, Run.ok_bind] at hprove
  exact hprove

/-! ## The inputs that are hashed -/

/-- The inputs of the nodes above a layer. -/
def nodeInputs (digestSize : Nat) : Layer → List Bytes
  | [] => []
  | [left] => [maPrefix ++ pairBuffer digestSize left none]
  | left :: right :: rest => (maPrefix ++ pairBuffer digestSize left (some right)) :: nodeInputs digestSize rest

/-- The inputs of the inner nodes hashed while the tree was built. -/
def Tree.nodeInputs (tree : Tree) : List Bytes := tree.levels.dropLast.flatMap (Crypto.nodeInputs tree.hash.digestSize)

/-- The inputs of the elements hashed while the tree was built. -/
def HashArray.inputs (array : HashArray) : Set Bytes := {bs | ∃ j < array.length, ∃ x, array.marshal j = .ok x ∧ bs = x.input}

/-- The input of the parent of an item. -/
def LayerItem.upInput (digestSize : Nat) (item : LayerItem) (sibling : GenericDigest) : Bytes :=
  maPrefix ++ if item.pos % 2 = 0 then pairToBeHashed item.hash sibling digestSize
    else pairToBeHashed sibling item.hash digestSize

theorem up_hash (item : LayerItem) (sibling : GenericDigest) :
    (item.up F factory factory.digestSize true sibling).hash =
      F.hash factory.hashType (item.upInput factory.digestSize sibling) := by
  unfold LayerItem.up LayerItem.upInput HashFactory.hashBytes
  simp only [if_true, List.flatten_cons, List.flatten_nil, List.append_nil]

/-- Climb from one item along the hints. -/
def climb (F : HashFunctions) (factory : HashFactory) (item : LayerItem) (hints : List GenericDigest) : LayerItem :=
  hints.foldl (fun item hint => item.up F factory factory.digestSize true hint) item

/-- The inputs of the nodes hashed on the way. -/
def climbInputs (F : HashFunctions) (factory : HashFactory) : LayerItem → List GenericDigest → List Bytes
  | _, [] => []
  | item, hint :: hints =>
    item.upInput factory.digestSize hint ::
      climbInputs F factory (item.up F factory factory.digestSize true hint) hints

theorem climb_append (item : LayerItem) (hints : List GenericDigest) (hint : GenericDigest) :
    climb F factory item (hints ++ [hint]) = (climb F factory item hints).up F factory factory.digestSize true hint := by
  unfold climb
  rw [List.foldl_append]
  rfl

theorem climbInputs_append : ∀ (item : LayerItem) (hints : List GenericDigest) (hint : GenericDigest),
    climbInputs F factory item (hints ++ [hint]) =
      climbInputs F factory item hints ++ [(climb F factory item hints).upInput factory.digestSize hint]
  | _, [], _ => rfl
  | _, _ :: hints, hint => congrArg _ (climbInputs_append _ hints hint)

theorem climb_pos : ∀ (item : LayerItem) (hints : List GenericDigest),
    (climb F factory item hints).pos = item.pos / 2 ^ hints.length
  | _, [] => by
    rw [List.length_nil, Nat.pow_zero, Nat.div_one]
    rfl
  | item, hint :: hints => by
    rw [List.length_cons, Nat.pow_succ', ← Nat.div_div_eq_div_mul]
    exact climb_pos (item.up F factory factory.digestSize true hint) hints

theorem climb_size {item : LayerItem} (h : item.hash.length = factory.digestSize) : ∀ hints : List GenericDigest,
    (climb F factory item hints).hash.length = factory.digestSize := by
  intro hints
  induction hints using List.reverseRecOn with
  | nil => exact h
  | append_singleton hints hint _ =>
    rw [climb_append, up_hash]
    exact F.length_hash _ _

/-- With one item the verifier climbs along all its hints. -/
theorem verifyLevels_single : ∀ (hints : List GenericDigest) (fuel l : Nat) (item : LayerItem), hints.length ≤ fuel →
    verifyLevels F factory factory.digestSize fuel l [item] hints = .ok [climb F factory item hints] []
  | [], 0, _, _, _ => rfl
  | [], fuel + 1, _, _, _ => by
    unfold verifyLevels
    refine if_neg ?_
    simp
  | hint :: hints, 0, _, _, h => by simp at h
  | hint :: hints, fuel + 1, l, item, h => by
    have ih := verifyLevels_single hints fuel (l + 1) (item.up F factory factory.digestSize true hint) (by simpa using h)
    unfold verifyLevels
    refine (if_pos (.inl (List.cons_ne_nil _ _))).trans ?_
    exact Run.state_bind_eq_ok.mpr ⟨_, _, Run.state_bind_eq_ok.mpr ⟨_, _, rfl, rfl⟩, ih⟩

theorem verifyPath_single {root : GenericDigest} {d : Nat} {path : List GenericDigest} {item : LayerItem} :
    verifyPath F root ⟨path, factory, d⟩ [item] factory.digestSize = .ok () ↔
      (∀ hint ∈ path, hint = [] ∨ hint.length = factory.digestSize) ∧ climb F factory item path = ⟨0, root⟩ := by
  have hrun := @verifyLevels_single F factory path (path.length + 1) 0 item (by omega)
  have hinspect : inspectRoot root [climb F factory item path] = .ok () ↔ climb F factory item path = ⟨0, root⟩ := by
    generalize climb F factory item path = top
    obtain ⟨pos, hash⟩ := top
    rw [LayerItem.mk.injEq]
    simp only [inspectRoot]
    split
    · rename_i hbad
      refine ⟨fun h => (by cases h), fun h => ?_⟩
      exact (hbad.elim (fun hp => hp h.1) (fun hh => hh h.2)).elim
    · rename_i hgood
      rw [not_or] at hgood
      exact ⟨fun _ => ⟨not_not.mp hgood.1, not_not.mp hgood.2⟩, fun _ => rfl⟩
  unfold verifyPath
  rw [Run.bind_eq_ok]
  simp only [List.length_cons, List.length_nil, Nat.zero_add]
  rw [hrun, ← hinspect]
  exact ⟨fun ⟨_, hsizes, h⟩ => ⟨sizeCheck_eq_ok.mp hsizes, h⟩, fun ⟨hsizes, h⟩ => ⟨(), sizeCheck_eq_ok.mpr hsizes, h⟩⟩

/-- What a proof of one element must be to be accepted. -/
theorem verifyVectorCommitment_single {root : GenericDigest} {i d : Nat} (hd : d < 64) {e : Hashable}
    {path : List GenericDigest} :
    verifyVectorCommitment F root [(i, e)] ⟨path, factory, d⟩ = .ok () ↔
      i < 2 ^ d ∧ (∀ hint ∈ path, hint = [] ∨ hint.length = factory.digestSize) ∧
        climb F factory ⟨reverseBits d i, genericHashObj F factory e⟩ path = ⟨0, root⟩ := by
  unfold verifyVectorCommitment
  rw [List.mapM_cons, List.mapM_nil]
  by_cases hi : i < 2 ^ d
  · have hindex := (index_eq_ok hd).mpr ⟨hi, rfl⟩
    have hshl : oneShl d = .ok (2 ^ d) := if_pos hd
    have hin : ¬ reverseBits d i ≥ 2 ^ d := Nat.not_le.mpr (reverseBits_lt (Nat.le_of_lt hd) i)
    have hitems : verifyItems F ⟨path, factory, d⟩ [(reverseBits d i, e)] =
        .ok [⟨reverseBits d i, genericHashObj F factory e⟩] := by
      unfold verifyItems
      rw [List.mapM_cons, List.mapM_nil]
      simp only [hshl, Run.ok_bind, if_neg hin]
      rfl
    have hverify : verify F root [(reverseBits d i, e)] ⟨path, factory, d⟩ =
        verifyPath F root ⟨path, factory, d⟩ [⟨reverseBits d i, genericHashObj F factory e⟩] factory.digestSize := by
      unfold verify
      rw [if_neg (List.cons_ne_nil _ _)]
      simp only [hitems]
      rfl
    simp only [hindex]
    rw [and_iff_right hi, ← verifyPath_single (d := d), ← hverify]
    rfl
  · refine ⟨fun h => ?_, fun h => absurd h.1 hi⟩
    obtain ⟨_, hconv, _⟩ := Run.bind_eq_ok.mp h
    obtain ⟨c, hc, _⟩ := Run.bind_eq_ok.mp hconv
    obtain ⟨v, hv, _⟩ := Run.bind_eq_ok.mp hc
    exact absurd ((index_eq_ok hd).mp hv).1 hi

/-! ## Layers by their number -/

theorem Layered.getD_succ (h : Layered F factory levels) :
    ∀ {m : Nat}, m + 1 < levels.length → levels.getD (m + 1) [] = buildNextLayer F factory (levels.getD m []) := by
  induction h with
  | root top => intro m hm; simp at hm
  | up hlen h ih =>
    intro m hm
    cases m with
    | zero => rfl
    | succ m => exact ih (by simpa using hm)

theorem Layered.sized_getD (h : Layered F factory levels)
    (hs : Sized factory.digestSize (levels.headD [])) {m : Nat} (hm : m < levels.length) :
    Sized factory.digestSize (levels.getD m []) := by
  cases m with
  | zero =>
    have hhead : levels.getD 0 [] = levels.headD [] := by cases levels <;> rfl
    rw [hhead]
    exact hs
  | succ m =>
    rw [h.getD_succ hm]
    exact sized_buildNextLayer _

theorem Layered.length_getD (h : Layered F factory levels) {depth : Nat}
    (hlen : (levels.headD []).length = 2 ^ depth) : ∀ {m : Nat}, m ≤ depth → (levels.getD m []).length = 2 ^ (depth - m)
  | 0, _ => by
    have hhead : levels.getD 0 [] = levels.headD [] := by cases levels <;> rfl
    rw [hhead, hlen, Nat.sub_zero]
  | m + 1, hm => by
    have hlevels := h.length_levels hlen
    rw [h.getD_succ (by omega), length_buildNextLayer, h.length_getD hlen (by omega : m ≤ depth)]
    have hpow : 2 ^ (depth - m) = 2 * 2 ^ (depth - (m + 1)) := by
      rw [← Nat.pow_succ']
      congr 1
      omega
    omega

/-- The root is the only node of the last layer. -/
theorem Tree.root_eq {depth : Nat} (hlen : tree.levels.length = depth + 1) :
    tree.root = (tree.levels.getD depth []).getD 0 [] := by
  unfold Tree.root
  rw [List.getLast?_eq_getElem?, hlen, Nat.add_sub_cancel, List.getD_eq_getElem?_getD, List.getD_eq_getElem?_getD,
    List.headD_eq_head?_getD, List.head?_eq_getElem?]

theorem mem_nodeInputs {digestSize : Nat} : ∀ {layer : Layer}, Sized digestSize layer → ∀ {i : Nat}, 2 * i < layer.length →
    maPrefix ++ pairToBeHashed (layer.getD (2 * i) []) (layer.getD (2 * i + 1) []) digestSize ∈ nodeInputs digestSize layer
  | [], _, _, h => by simp at h
  | [left], hs, i, h => by
    obtain rfl : i = 0 := by simp at h; omega
    have hl := hs left List.mem_cons_self
    unfold nodeInputs
    rw [pairBuffer_eq hl (by simp)]
    exact List.mem_cons_self
  | left :: right :: rest, hs, 0, _ => by
    have hl := hs left List.mem_cons_self
    have hr := hs right (List.mem_cons_of_mem _ List.mem_cons_self)
    unfold nodeInputs
    rw [pairBuffer_eq hl (by rintro r hr'; cases hr'; exact hr)]
    exact List.mem_cons_self
  | left :: right :: rest, hs, i + 1, h => by
    have hrest : Sized digestSize rest := fun d hd => hs d (List.mem_cons_of_mem _ (List.mem_cons_of_mem _ hd))
    exact List.mem_cons_of_mem _ (mem_nodeInputs hrest (i := i) (by simp at h; omega))

theorem mem_treeInputs {m : Nat} (hm : m + 1 < tree.levels.length) {x : Bytes}
    (hx : x ∈ nodeInputs tree.hash.digestSize (tree.levels.getD m [])) : x ∈ tree.nodeInputs := by
  refine List.mem_flatMap.mpr ⟨tree.levels.getD m [], ?_, hx⟩
  have hm' : m < tree.levels.dropLast.length := by rw [List.length_dropLast]; omega
  rw [List.getD_eq_getElem _ _ (by omega), ← List.getElem_dropLast hm']
  exact List.getElem_mem hm'

/-! ## No collisions -/

/-- No inputs of nodes collide, and no elements, nodes and the bottom element collide with each other. -/
structure CollisionFree (H : Bytes → GenericDigest) (elements nodes : Set Bytes) : Prop where
  node_inj : ∀ x ∈ nodes, ∀ y ∈ nodes, H x = H y → x = y
  element_node : ∀ x ∈ elements, ∀ y ∈ nodes, H x ≠ H y
  element_bottom : ∀ x ∈ elements, H x ≠ H bottomElement.input
  node_bottom : ∀ y ∈ nodes, H y ≠ H bottomElement.input

theorem pair_inj {digestSize : Nat} {l r l' r' : GenericDigest}
    (h : maPrefix ++ pairToBeHashed l r digestSize = maPrefix ++ pairToBeHashed l' r' digestSize) :
    resize digestSize l = resize digestSize l' ∧ resize digestSize r = resize digestSize r' := by
  have h' := List.append_cancel_left h
  exact List.append_inj h' (by rw [length_resize, length_resize])

/-- The children of a node determine the item below it. -/
theorem of_upInput_eq {item : LayerItem} {sibling : GenericDigest} {layer : Layer} {q : Nat}
    (hsize : item.hash.length = factory.digestSize) (hs : Sized factory.digestSize layer) (hq : 2 * q + 1 < layer.length)
    (hpos : item.pos / 2 = q)
    (h : item.upInput factory.digestSize sibling = maPrefix ++ pairToBeHashed (layer.getD (2 * q) [])
      (layer.getD (2 * q + 1) []) factory.digestSize) : item = ⟨item.pos, layer.getD item.pos []⟩ := by
  obtain ⟨pos, hash⟩ := item
  unfold LayerItem.upInput at h
  simp only [LayerItem.mk.injEq, true_and] at hpos hsize h ⊢
  split at h
  · rename_i heven
    have hleft := (pair_inj h).1
    rw [resize_of_length hsize, resize_of_length (hs.getD (by omega))] at hleft
    rw [hleft]
    congr 1
    omega
  · rename_i hodd
    have hright := (pair_inj h).2
    rw [resize_of_length hsize, resize_of_length (hs.getD hq)] at hright
    rw [hright]
    congr 1
    omega

theorem genericHashObj_eq (h : Hashable) : genericHashObj F factory h = F.hash factory.hashType h.input := by
  unfold genericHashObj HashFactory.hashBytes Hashable.input
  simp only [List.flatten_cons, List.flatten_nil, List.append_nil]

section Sound

variable {array : HashArray} {tree : Tree} {elements nodes : Set Bytes}

/-- A leaf is the hash of an element of the array, or of the bottom element. -/
theorem VcTree.leaf_input (h : VcTree F factory array tree) {p : Nat} (hp : p < 2 ^ vcDepth array) :
    ∃ x, (x ∈ array.inputs ∨ x = bottomElement.input) ∧
      (tree.levels.headD []).getD p [] = F.hash factory.hashType x := by
  obtain ⟨elem, hmarshal, hleaf⟩ := h.leaf p hp
  rw [genericHashObj_eq] at hleaf
  unfold leafElement at hmarshal
  split at hmarshal
  · rename_i hlt
    exact ⟨_, .inl ⟨_, hlt, elem, hmarshal, rfl⟩, hleaf⟩
  · cases hmarshal
    exact ⟨_, .inr rfl, hleaf⟩

/-- Climbing from an element to a node of the tree, one climbs as many levels as the node is high, from the leaf at that
position. -/
theorem VcTree.climb_sound (h : VcTree F factory array tree) (hfree : CollisionFree (F.hash factory.hashType) elements nodes)
    (harray : array.inputs ⊆ elements) (htree : ∀ x ∈ tree.nodeInputs, x ∈ nodes) {item : LayerItem} {x : Bytes}
    (hx : x ∈ elements) (hitem : item.hash = F.hash factory.hashType x) :
    ∀ (m : Nat), m ≤ vcDepth array → ∀ (hints : List GenericDigest) (q : Nat),
      (∀ y ∈ climbInputs F factory item hints, y ∈ nodes) → q < 2 ^ (vcDepth array - m) →
      climb F factory item hints = ⟨q, (tree.levels.getD m []).getD q []⟩ →
      hints.length = m ∧ item.hash = (tree.levels.headD []).getD item.pos [] := by
  have hlevels := h.length_levels
  have hhead : tree.levels.getD 0 [] = tree.levels.headD [] := by cases tree.levels <;> rfl
  have hsize : item.hash.length = factory.digestSize := by
    rw [hitem]
    exact F.length_hash _ _
  intro m
  induction m with
  | zero =>
    intro _ hints q hnodes hq hclimb
    rw [hhead] at hclimb
    rw [Nat.sub_zero] at hq
    induction hints using List.reverseRecOn with
    | nil =>
      have hitem' : item = ⟨q, _⟩ := hclimb
      rw [hitem']
      exact ⟨rfl, rfl⟩
    | append_singleton hints hint _ =>
      -- a node with the digest of a leaf
      obtain ⟨y, hy, hleaf⟩ := h.leaf_input hq
      rw [climbInputs_append] at hnodes
      have hnode := hnodes _ (List.mem_append_right _ List.mem_cons_self)
      have hcollide := congrArg LayerItem.hash hclimb
      rw [climb_append, up_hash] at hcollide
      have hcollide' := hcollide.trans hleaf
      rcases hy with hy | rfl
      · exact absurd hcollide'.symm (hfree.element_node y (harray hy) _ hnode)
      · exact absurd hcollide' (hfree.node_bottom _ hnode)
  | succ m ih =>
    intro hm hints q hnodes hq hclimb
    have hpow : 2 ^ (vcDepth array - m) = 2 * 2 ^ (vcDepth array - (m + 1)) := by
      rw [← Nat.pow_succ']
      congr 1
      omega
    have hlen := h.layered.length_getD h.length_leaves (m := m) (by omega)
    have hs := h.layered.sized_getD h.sized (m := m) (by omega)
    have hq' : 2 * q + 1 < (tree.levels.getD m []).length := by omega
    have hmem : maPrefix ++ pairToBeHashed ((tree.levels.getD m []).getD (2 * q) [])
      ((tree.levels.getD m []).getD (2 * q + 1) [])
        factory.digestSize ∈ nodes := by
      refine htree _ (mem_treeInputs (m := m) (by omega) ?_)
      rw [h.hash_eq]
      exact mem_nodeInputs hs (by omega)
    have hnode := getD_buildNextLayer (F := F) (tree.levels.getD m []) hs q (by omega)
    rw [← h.layered.getD_succ (by omega)] at hnode
    unfold HashFactory.hashBytes at hnode
    simp only [List.flatten_cons, List.flatten_nil, List.append_nil] at hnode
    rw [hnode] at hclimb
    induction hints using List.reverseRecOn with
    | nil =>
      -- an element with the digest of a node
      have hcollide := hitem.symm.trans (congrArg LayerItem.hash hclimb)
      exact absurd hcollide (hfree.element_node x hx _ hmem)
    | append_singleton hints hint _ =>
      rw [climbInputs_append] at hnodes
      have hup := hnodes _ (List.mem_append_right _ List.mem_cons_self)
      have hhash := congrArg LayerItem.hash hclimb
      have hpos := congrArg LayerItem.pos hclimb
      rw [climb_append] at hhash hpos
      rw [up_hash] at hhash
      have hinput := hfree.node_inj _ hup _ hmem hhash
      have hbelow := of_upInput_eq (climb_size hsize hints) hs hq' hpos hinput
      have hposBelow : (climb F factory item hints).pos / 2 = q := hpos
      obtain ⟨hlen', hleaf⟩ := ih (by omega) hints _ (fun y hy => hnodes y (List.mem_append_left _ hy)) (by omega) hbelow
      exact ⟨by rw [List.length_append, List.length_cons, List.length_nil, hlen'], hleaf⟩

/-- An accepted proof of an element opens the leaf at the reversed index. -/
theorem VcTree.leaf_of_verify (h : VcTree F factory array tree) {i d : Nat} (hd : d < 64) {e : Hashable}
    {path : List GenericDigest}
    (hfree : CollisionFree (F.hash factory.hashType) (insert e.input array.inputs) {x | x ∈ tree.nodeInputs ∨
      x ∈ climbInputs F factory ⟨reverseBits d i, genericHashObj F factory e⟩ path})
    (hok : verifyVectorCommitment F tree.root [(i, e)] ⟨path, factory, d⟩ = .ok ()) :
    i < 2 ^ d ∧ reverseBits d i < 2 ^ vcDepth array ∧
      genericHashObj F factory e = (tree.levels.headD []).getD (reverseBits d i) [] := by
  obtain ⟨hi, -, hclimb⟩ := (verifyVectorCommitment_single hd).mp hok
  have hpos := congrArg LayerItem.pos hclimb
  rw [climb_pos] at hpos
  rw [Tree.root_eq h.length_levels] at hclimb
  obtain ⟨hlen, hleaf⟩ := h.climb_sound hfree (Set.subset_insert _ _) (fun x hx => .inl hx) (Set.mem_insert _ _)
    (genericHashObj_eq e) (vcDepth array) (Nat.le_refl _) path 0 (fun y hy => .inr hy) (Nat.two_pow_pos _) hclimb
  rw [hlen] at hpos
  exact ⟨hi, (Nat.div_eq_zero_iff.mp hpos).resolve_left (Nat.ne_of_gt (Nat.two_pow_pos _)), hleaf⟩

/-! ## Honest paths -/

theorem upInput_itemOf (digestSize : Nat) (layer : Layer) (p : Nat) :
    LayerItem.upInput digestSize ⟨p, layer.getD p []⟩ (layer.getD (p ^^^ 1) []) =
      maPrefix ++ pairToBeHashed (layer.getD (2 * (p / 2)) []) (layer.getD (2 * (p / 2) + 1) []) digestSize := by
  unfold LayerItem.upInput
  rcases Nat.mod_two_eq_zero_or_one p with heven | hodd
  · have h2 : 2 * (p / 2) = p := by omega
    simp only [heven, if_true, xor_one_of_even heven, h2]
  · have h2 : 2 * (p / 2) = p - 1 := by omega
    have h2' : p - 1 + 1 = p := by omega
    simp only [hodd, xor_one_of_odd hodd, h2, h2', Nat.one_ne_zero, if_false]

/-- Along the siblings of the tree one climbs to the root, and hashes nodes of the tree only. -/
theorem climb_honest {levels : List Layer} (h : Layered F factory levels) :
    ∀ {p : Nat}, Sized factory.digestSize (levels.headD []) → p < (levels.headD []).length →
      climb F factory ⟨p, (levels.headD []).getD p []⟩ (hintsOf levels [p]) =
          ⟨0, ((levels.getLast?).getD []).getD 0 []⟩ ∧
        ∀ y ∈ climbInputs F factory ⟨p, (levels.headD []).getD p []⟩ (hintsOf levels [p]),
          y ∈ levels.dropLast.flatMap (nodeInputs factory.digestSize) := by
  induction h with
  | root top =>
    intro p _ hp
    obtain rfl : p = 0 := by simpa using hp
    exact ⟨rfl, fun y hy => by cases hy⟩
  | @up layer above hlen h ih =>
    intro p hs hp
    have hp' : p < layer.length := hp
    have hlen' := @length_buildNextLayer F factory layer
    obtain ⟨hclimb, hinputs⟩ := ih (p := p / 2) (sized_buildNextLayer layer) (by rw [List.headD_cons]; omega)
    have hup := up_itemOf (F := F) hs hp
    rw [List.headD_cons] at hup hs hclimb hinputs ⊢
    have hhints : hintsOf (layer :: buildNextLayer F factory layer :: above) [p] =
        layer.getD (p ^^^ 1) [] :: hintsOf (buildNextLayer F factory layer :: above) [p / 2] := rfl
    rw [hhints]
    unfold climb climbInputs
    rw [List.foldl_cons, hup]
    refine ⟨hclimb, fun y hy => ?_⟩
    rw [List.dropLast_cons_cons, List.flatMap_cons]
    rcases List.mem_cons.mp hy with rfl | hy
    · rw [upInput_itemOf]
      exact List.mem_append_left _ (mem_nodeInputs hs (by omega))
    · exact List.mem_append_right _ (hinputs y hy)

/-- The siblings of a leaf prove its element, at whatever depth its position is the reversed index. -/
theorem VcTree.verify_honest (h : VcTree F factory array tree) {i d : Nat} (hd : d < 64) (hi : i < 2 ^ d)
    (hpos : reverseBits d i < 2 ^ vcDepth array) {e : Hashable}
    (hleaf : genericHashObj F factory e = (tree.levels.headD []).getD (reverseBits d i) []) :
    verifyVectorCommitment F tree.root [(i, e)] ⟨hintsOf tree.levels [reverseBits d i], factory, d⟩ = .ok () ∧
      ∀ y ∈ climbInputs F factory ⟨reverseBits d i, genericHashObj F factory e⟩ (hintsOf tree.levels [reverseBits d i]),
        y ∈ tree.nodeInputs := by
  obtain ⟨hclimb, hinputs⟩ := climb_honest h.layered (p := reverseBits d i) h.sized (by rw [h.length_leaves]; exact hpos)
  rw [← hleaf] at hclimb hinputs
  have hroot : ((tree.levels.getLast?).getD []).getD 0 [] = tree.root := by
    unfold Tree.root
    rw [List.getD_eq_getElem?_getD, List.headD_eq_head?_getD, List.head?_eq_getElem?]
  rw [hroot] at hclimb
  refine ⟨(verifyVectorCommitment_single hd).mpr ⟨hi, hintsOf_size h.layered h.sized, hclimb⟩, ?_⟩
  unfold Tree.nodeInputs
  rw [h.hash_eq]
  exact hinputs

/-! ## Position binding -/

/-- Whatever proof of depth `d` opens the index, it opens it to the element of the array at the index: for every element
and path without a collision among the inputs that building the tree and verifying the proof hash. -/
def OpensOnlyItself (F : HashFunctions) (factory : HashFactory) (array : HashArray) (tree : Tree) (i d : Nat) : Prop :=
  ∀ (e : Hashable) (path : List GenericDigest),
    CollisionFree (F.hash factory.hashType) (insert e.input array.inputs) {x | x ∈ tree.nodeInputs ∨
      x ∈ climbInputs F factory ⟨reverseBits d i, genericHashObj F factory e⟩ path} →
    verifyVectorCommitment F tree.root [(i, e)] ⟨path, factory, d⟩ = .ok () →
    i < array.length ∧ ∃ x, array.marshal i = .ok x ∧ genericHashObj F factory e = genericHashObj F factory x

/-- An index is bound exactly where no element of the array but its own stands at the same fraction of the tree as the
index of the depth that the proof claims: with the depth of the tree, the index itself. -/
theorem opensOnlyItself_iff (hbuild : buildVectorCommitmentTree F array factory = .ok tree) {i d : Nat} (hd : d < 64)
    (hfree : CollisionFree (F.hash factory.hashType) array.inputs {x | x ∈ tree.nodeInputs}) :
    OpensOnlyItself F factory array tree i d ↔
      ∀ j < array.length, j * 2 ^ d = i * 2 ^ (tree.levels.length - 1) → i < array.length ∧
        ∀ x y, array.marshal i = .ok x → array.marshal j = .ok y →
          genericHashObj F factory y = genericHashObj F factory x := by
  have h := vcTree_of_build hbuild
  have hD := Nat.le_of_lt h.depth_lt
  rw [h.length_levels, Nat.add_sub_cancel]
  constructor
  · intro hopens j hj hfrac
    have hj' := Nat.lt_of_lt_of_le hj (length_le_padded array)
    obtain ⟨hi, hpos⟩ := reverseBits_of_mul (Nat.le_of_lt hd) hD hj' hfrac
    have hp : reverseBits d i < 2 ^ vcDepth array := by
      rw [hpos]
      exact reverseBits_lt hD j
    have hback : reverseBits (vcDepth array) (reverseBits d i) = j := by
      rw [hpos]
      exact reverseBits_reverseBits hD hj'
    obtain ⟨e, he, hleaf⟩ := h.leaf_of_index hp (by rw [hback]; exact hj)
    rw [hback] at he
    obtain ⟨hok, hinputs⟩ := h.verify_honest hd hi hp hleaf.symm
    have hsame : insert e.input array.inputs = array.inputs := Set.insert_eq_of_mem ⟨j, hj, e, he, rfl⟩
    have hnodes : {x | x ∈ tree.nodeInputs ∨ x ∈ climbInputs F factory ⟨reverseBits d i, genericHashObj F factory e⟩
        (hintsOf tree.levels [reverseBits d i])} = {x | x ∈ tree.nodeInputs} := by
      ext x
      exact ⟨fun hx => hx.elim id (hinputs x), .inl⟩
    obtain ⟨hlt, x, hx, hhash⟩ := hopens e _ (by rw [hsame, hnodes]; exact hfree) hok
    refine ⟨hlt, fun x' y hx' hy => ?_⟩
    obtain rfl := Except.ok.inj (hx.symm.trans hx')
    obtain rfl := Except.ok.inj (he.symm.trans hy)
    exact hhash
  · intro hcond e path hfree' hok
    obtain ⟨hi, hp, hleaf⟩ := h.leaf_of_verify hd hfree' hok
    have hfrac := reverseBits_mul (Nat.le_of_lt hd) hD hi hp
    by_cases hj : reverseBits (vcDepth array) (reverseBits d i) < array.length
    · obtain ⟨y, hy, hleaf'⟩ := h.leaf_of_index hp hj
      obtain ⟨hlt, hsame⟩ := hcond _ hj hfrac
      -- the elements of the array could all be read when the tree was built
      have hp' := reverseBits_lt hD i
      have hback := reverseBits_reverseBits hD (Nat.lt_of_lt_of_le hlt (length_le_padded array))
      obtain ⟨x, hx, -⟩ := h.leaf_of_index hp' (by rw [hback]; exact hlt)
      rw [hback] at hx
      exact ⟨hlt, x, hx, by rw [hleaf, hleaf']; exact hsame x y hx hy⟩
    · -- a bottom leaf
      obtain ⟨elem, hmarshal, hbottom⟩ := h.leaf _ hp
      unfold leafElement at hmarshal
      rw [if_neg hj] at hmarshal
      cases hmarshal
      rw [hbottom, genericHashObj_eq, genericHashObj_eq] at hleaf
      exact absurd hleaf (hfree'.element_bottom _ (Set.mem_insert _ _))

end Sound

end Trees

/-! ## Four elements under SHA-512/256 -/

/-- An element of one byte. -/
def sampleElement (b : UInt8) : Hashable := ⟨[0x54, 0x4c], [b]⟩

-- the digests of the four elements
def sampleLeaf0 : Nat := 0x290580f2a2249aa98f5489f5caadc02200a02c30f56138fb7961f8657aaeda58
def sampleLeaf1 : Nat := 0x6bdd5934edd8541fc28ba87516c506a958468668cce3e745c65ef45b6e4d7793
def sampleLeaf2 : Nat := 0x8669f58cf7b9e69aa694ba413cf7d8a56c79f0dbb8e94b5e840fb81009ce253e
def sampleLeaf3 : Nat := 0xcdf5780f9cd08c8bed63754b98dac9e8b9f13b8db6373c129a3471776851be5a

-- of the two nodes above them, and of the root
def sampleNode0 : Nat := 0x0115e3ce98722942b37b5cb7126326360ebc778565e3ba911a64dc0484c0646d
def sampleNode1 : Nat := 0x76e360f63105098151929d373cf75ade97214cfa8fa800eaea59095f88da1b6c
def sampleRoot : Nat := 0xa66b39def5835e3fd24312decc281a55c68d8cd26bc6eef538e63f056b605cd8

def sampleNodeInput (left right : Nat) : Bytes := maPrefix ++ (Msgpack.beBytes 32 left ++ Msgpack.beBytes 32 right)

/-- The inputs of the sample that SHA-512/256 hashes, with their digests. -/
def sampleDigests : List (Bytes × Nat) :=
  [((sampleElement 0).input, sampleLeaf0), ((sampleElement 1).input, sampleLeaf1), ((sampleElement 2).input, sampleLeaf2),
    ((sampleElement 3).input, sampleLeaf3), (sampleNodeInput sampleLeaf0 sampleLeaf2, sampleNode0),
    (sampleNodeInput sampleLeaf1 sampleLeaf3, sampleNode1), (sampleNodeInput sampleNode0 sampleNode1, sampleRoot),
    (bottomElement.input, 0x8c4026c96082bbee2c56c91f068db9e1b22b25d1d19e020fce15c89d9dfd0e4c)]

def sampleHash : HashFunctions where
  hash t bs :=
    if t = .sha512_256 then Msgpack.beBytes 32 ((sampleDigests.lookup bs).getD 0) else List.replicate t.digestSize 0
  length_hash := by
    intro t bs
    split
    · rename_i ht
      rw [ht, Msgpack.length_beBytes]
      rfl
    · exact List.length_replicate

def sampleArray : HashArray where
  length := 4
  marshal i := .ok (sampleElement (UInt8.ofNat i))

def sha512_256 : HashFactory := ⟨.sha512_256⟩

def sampleTree : Tree where
  levels :=
    [[sampleLeaf0, sampleLeaf2, sampleLeaf1, sampleLeaf3].map (Msgpack.beBytes 32),
      [sampleNode0, sampleNode1].map (Msgpack.beBytes 32), [Msgpack.beBytes 32 sampleRoot]]
  numOfElements := 4
  hash := sha512_256
  isVectorCommitment := true

set_option maxRecDepth 20000 in
theorem build_sampleTree : buildVectorCommitmentTree sampleHash sampleArray sha512_256 = .ok sampleTree := by
  obtain ⟨tree, hbuild, htree⟩ := @Run.ok_of_any _ _ (buildVectorCommitmentTree sampleHash sampleArray sha512_256)
    (fun tree => decide (tree = sampleTree)) (by decide)
  rw [hbuild, of_decide_eq_true htree]

theorem CollisionFree.of_lists {H : Bytes → GenericDigest} {elements nodes : Set Bytes} (es ns : List Bytes)
    (hes : ∀ x ∈ elements, x ∈ es) (hns : ∀ x ∈ nodes, x ∈ ns)
    (h : (∀ x ∈ ns, ∀ y ∈ ns, H x = H y → x = y) ∧ (∀ x ∈ es, ∀ y ∈ ns, H x ≠ H y) ∧
      (∀ x ∈ es, H x ≠ H bottomElement.input) ∧ ∀ y ∈ ns, H y ≠ H bottomElement.input) :
    CollisionFree H elements nodes :=
  ⟨fun x hx y hy => h.1 x (hns x hx) y (hns y hy), fun x hx y hy => h.2.1 x (hes x hx) y (hns y hy),
    fun x hx => h.2.2.1 x (hes x hx), fun y hy => h.2.2.2 y (hns y hy)⟩

theorem sampleArray_inputs {x : Bytes} (hx : x ∈ sampleArray.inputs) :
    x ∈ [0, 1, 2, 3].map (fun b => (sampleElement b).input) := by
  obtain ⟨j, hj, y, hy, rfl⟩ := hx
  obtain rfl := Except.ok.inj hy
  have hj' : j < 4 := hj
  obtain rfl | rfl | rfl | rfl : j = 0 ∨ j = 1 ∨ j = 2 ∨ j = 3 := by omega
  all_goals decide

theorem sample_collisionFree :
    CollisionFree (sampleHash.hash .sha512_256) sampleArray.inputs {x | x ∈ sampleTree.nodeInputs} :=
  .of_lists ([0, 1, 2, 3].map (fun b => (sampleElement b).input)) sampleTree.nodeInputs (fun _ => sampleArray_inputs)
    (fun _ hx => hx) (by decide)

/-- Proofs of the depth of the tree bind the index. -/
theorem sample_opensOnlyItself : OpensOnlyItself sampleHash sha512_256 sampleArray sampleTree 1 2 := by
  refine (opensOnlyItself_iff build_sampleTree (by decide) sample_collisionFree).mpr (fun j _ hfrac => ?_)
  obtain rfl : j = 1 := Nat.eq_of_mul_eq_mul_right (by decide) hfrac
  exact ⟨by decide, fun x y hx hy => congrArg _ (Except.ok.inj (hy.symm.trans hx))⟩

set_option maxRecDepth 20000 in
/-- A proof that claims half of the depth opens index 1 to the element of index 2. -/
theorem sample_opensAnother : ¬ OpensOnlyItself sampleHash sha512_256 sampleArray sampleTree 1 1 := by
  intro h
  let path := [Msgpack.beBytes 32 sampleLeaf0, Msgpack.beBytes 32 sampleNode1]
  have hfree : CollisionFree (sampleHash.hash .sha512_256) (insert (sampleElement 2).input sampleArray.inputs)
      {x | x ∈ sampleTree.nodeInputs ∨ x ∈ climbInputs sampleHash sha512_256
        ⟨reverseBits 1 1, genericHashObj sampleHash sha512_256 (sampleElement 2)⟩ path} := by
    refine .of_lists ([0, 1, 2, 3].map (fun b => (sampleElement b).input)) sampleTree.nodeInputs ?_ ?_ (by decide)
    · rintro x (rfl | hx)
      · decide
      · exact sampleArray_inputs hx
    · rintro x (hx | hx)
      · exact hx
      · revert x
        decide
  have hok : verifyVectorCommitment sampleHash sampleTree.root [(1, sampleElement 2)] ⟨path, sha512_256, 1⟩ = .ok () :=
    (@Run.ok_of_any _ _ _ (fun _ => true) (by decide)).elim (fun _ h => h.1)
  obtain ⟨-, x, hx, hhash⟩ := h _ _ hfree hok
  obtain rfl := Except.ok.inj hx
  revert hhash
  decide

end Crypto
end Algod
