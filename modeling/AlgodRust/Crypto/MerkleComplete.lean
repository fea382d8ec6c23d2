import Mathlib.Data.Nat.Bitwise
import AlgodRust.Crypto.MerkleArray
/-!
# MerkleComplete — what a tree proves, the verifier accepts

The prover and the verifier walk the same positions up the tree.  At every level the prover hands out the digests of the
siblings that the positions do not have among themselves (`missing`), the verifier takes them in the same order, and the
items it computes hold the digests of the next layer at the parent positions.  The loop of the verifier has no depth to
go by; below the root there is always a hint left or a second item, so it stops exactly at the root.
-/
namespace Algod
namespace Crypto

open Msgpack (Bytes)

/-! ## Layers -/

theorem length_resize (n : Nat) (bs : Bytes) : (resize n bs).length = n := by
  unfold resize
  simp only [List.length_append, List.length_take, List.length_replicate]
  omega

theorem resize_of_length {n : Nat} {bs : Bytes} (h : bs.length = n) : resize n bs = bs := by
  unfold resize
  rw [List.take_of_length_le (Nat.le_of_eq h), h, Nat.sub_self, List.replicate_zero, List.append_nil]

theorem resize_append_nil {n : Nat} {bs : Bytes} (h : bs.length = n) :
    resize (2 * n) bs = resize n bs ++ resize n [] := by
  rw [resize_of_length h]
  unfold resize
  rw [List.take_of_length_le (by omega), List.take_nil, List.nil_append, List.length_nil, h]
  congr 2
  omega

/-- Every digest of a layer has the size of the hash. -/
def Sized (digestSize : Nat) (layer : Layer) : Prop := ∀ d ∈ layer, d.length = digestSize

theorem Sized.getD {digestSize : Nat} {layer : Layer} (h : Sized digestSize layer) {i : Nat} (hi : i < layer.length) :
    (layer.getD i []).length = digestSize := by
  rw [List.getD_eq_getElem _ _ hi]
  exact h _ (List.getElem_mem hi)

/-- The builder and the verifier write the same node. -/
theorem pairBuffer_eq {digestSize : Nat} {left : GenericDigest} {right : Option GenericDigest}
    (hl : left.length = digestSize) (hr : ∀ r ∈ right, r.length = digestSize) :
    pairBuffer digestSize left right = pairToBeHashed left (right.getD []) digestSize := by
  unfold pairBuffer pairToBeHashed
  have hnot : ¬ left.length < digestSize := by omega
  simp only [if_neg hnot]
  cases right with
  | none => exact resize_append_nil hl
  | some r =>
    have hr' : r.length = digestSize := hr r rfl
    have hnot' : ¬ r.length < digestSize := by omega
    simp only [if_neg hnot', Option.getD_some]
    rw [resize_of_length hl, resize_of_length hr']

section Hashed

variable {F : HashFunctions} {factory : HashFactory}

theorem length_hashBytes (parts : List Bytes) : (factory.hashBytes F parts).length = factory.digestSize :=
  F.length_hash _ _

theorem length_buildNextLayer : ∀ layer : Layer, (buildNextLayer F factory layer).length = (layer.length + 1) / 2
  | [] => rfl
  | [_] => by
    unfold buildNextLayer
    simp only [List.length_cons, List.length_nil]
  | _ :: _ :: rest => by
    unfold buildNextLayer
    simp only [List.length_cons]
    rw [length_buildNextLayer rest]
    omega

theorem sized_buildNextLayer : ∀ layer : Layer, Sized factory.digestSize (buildNextLayer F factory layer)
  | [], d, h => by cases h
  | [_], d, h => by
    rw [List.eq_of_mem_singleton h]
    exact length_hashBytes _
  | _ :: _ :: rest, d, h => by
    rcases List.mem_cons.mp h with rfl | h'
    · exact length_hashBytes _
    · exact sized_buildNextLayer rest d h'

/-- A node of the next layer is the hash of its two children, a missing one empty. -/
theorem getD_buildNextLayer : ∀ (layer : Layer), Sized factory.digestSize layer → ∀ i, 2 * i < layer.length →
    (buildNextLayer F factory layer).getD i [] =
      factory.hashBytes F [maPrefix,
        pairToBeHashed (layer.getD (2 * i) []) (layer.getD (2 * i + 1) []) factory.digestSize]
  | [], _, i, h => by simp at h
  | [left], hs, i, h => by
    obtain rfl : i = 0 := by simp at h; omega
    have hl := hs left List.mem_cons_self
    unfold buildNextLayer
    rw [pairBuffer_eq hl (by simp)]
    rfl
  | left :: right :: rest, hs, 0, _ => by
    have hl := hs left List.mem_cons_self
    have hr := hs right (List.mem_cons_of_mem _ List.mem_cons_self)
    unfold buildNextLayer
    rw [pairBuffer_eq hl (by rintro r hr'; cases hr'; exact hr)]
    rfl
  | left :: right :: rest, hs, i + 1, h => by
    have hrest : Sized factory.digestSize rest := fun d hd =>
      hs d (List.mem_cons_of_mem _ (List.mem_cons_of_mem _ hd))
    have ih := getD_buildNextLayer rest hrest i (by simp at h; omega)
    unfold buildNextLayer
    rw [List.getD_cons_succ, ih]
    rfl

/-- The layers above a layer: each the next of the one below, up to a single node. -/
inductive Layered (F : HashFunctions) (factory : HashFactory) : List Layer → Prop
  | root (top : GenericDigest) : Layered F factory [[top]]
  | up {layer : Layer} {above : List Layer} (hlen : 1 < layer.length)
      (h : Layered F factory (buildNextLayer F factory layer :: above)) :
      Layered F factory (layer :: buildNextLayer F factory layer :: above)

theorem buildLayers_head (fuel : Nat) (leaves : Layer) :
    ∃ above, buildLayers F factory fuel leaves = leaves :: above := by
  cases fuel with
  | zero => exact ⟨[], rfl⟩
  | succ fuel =>
    unfold buildLayers
    split
    · exact ⟨_, rfl⟩
    · exact ⟨[], rfl⟩

theorem layered_buildLayers : ∀ (fuel : Nat) (leaves : Layer), leaves ≠ [] → leaves.length ≤ fuel →
    Layered F factory (buildLayers F factory fuel leaves)
  | 0, leaves, hne, h => absurd (List.length_eq_zero_iff.mp (Nat.le_zero.mp h)) hne
  | fuel + 1, leaves, hne, h => by
    unfold buildLayers
    split
    · rename_i hlen
      have hnext := @length_buildNextLayer F factory leaves
      have hne' : buildNextLayer F factory leaves ≠ [] := by
        intro h0
        rw [h0, List.length_nil] at hnext
        omega
      have ih := layered_buildLayers fuel _ hne' (by rw [hnext]; omega)
      obtain ⟨above, habove⟩ := @buildLayers_head F factory fuel (buildNextLayer F factory leaves)
      rw [habove] at ih ⊢
      exact .up hlen ih
    · obtain ⟨top, rfl⟩ : ∃ top, leaves = [top] := by
        refine List.length_eq_one_iff.mp ?_
        have : leaves.length ≠ 0 := fun h0 => hne (List.length_eq_zero_iff.mp h0)
        omega
      exact .root top

end Hashed

/-! ## Positions -/

theorem xor_one_of_even {n : Nat} (h : n % 2 = 0) : n ^^^ 1 = n + 1 := Nat.xor_one_of_even (Nat.even_iff.mpr h)

theorem xor_one_of_odd {n : Nat} (h : n % 2 = 1) : n ^^^ 1 = n - 1 := Nat.xor_one_of_odd (Nat.odd_iff.mpr h)

/-- The siblings that the positions do not give each other. -/
def missing : List Nat → List Nat
  | [] => []
  | [p] => [p ^^^ 1]
  | p :: q :: rest => if q = p ^^^ 1 then missing rest else (p ^^^ 1) :: missing (q :: rest)

/-- The positions one level up. -/
def parents : List Nat → List Nat
  | [] => []
  | [p] => [p / 2]
  | p :: q :: rest => if q = p ^^^ 1 then p / 2 :: parents rest else p / 2 :: parents (q :: rest)

/-! ## One level -/

/-- Items at these positions that hold the digests of a layer. -/
def itemsOf (layer : Layer) (ps : List Nat) : List LayerItem := ps.map (fun p => ⟨p, layer.getD p []⟩)

section Level

variable {F : HashFunctions} {factory : HashFactory}

theorem length_parents : ∀ {ps : List Nat}, ps ≠ [] → parents ps ≠ []
  | [p], _ => by simp [parents]
  | p :: q :: rest, _ => by
    unfold parents
    split <;> simp

theorem parents_lt {bound : Nat} : ∀ {ps : List Nat}, (∀ p ∈ ps, p < bound) → ∀ p ∈ parents ps, p < (bound + 1) / 2
  | [], _, p, h => by cases h
  | [p], hb, p', h => by
    have := hb p List.mem_cons_self
    rw [List.eq_of_mem_singleton h]
    omega
  | p :: q :: rest, hb, p', h => by
    have hp := hb p List.mem_cons_self
    unfold parents at h
    split at h
    · rcases List.mem_cons.mp h with rfl | h
      · omega
      · exact parents_lt (fun x hx => hb x (by simp [hx])) _ h
    · rcases List.mem_cons.mp h with rfl | h
      · omega
      · exact parents_lt (fun x hx => hb x (List.mem_cons_of_mem _ hx)) _ h

/-- The prover hands out the digests of the missing siblings, whatever its items hold. -/
theorem partialLayerUp_prove {tree : Tree} {level : Nat} (hlevel : level < tree.levels.length) :
    ∀ (pl : List LayerItem) (hints : List GenericDigest), ∃ above,
      partialLayerUp F (siblingsProve tree) level false factory factory.digestSize pl hints =
        .ok above (hints ++ (missing (pl.map LayerItem.pos)).map (fun p => (tree.levels.getD level []).getD p [])) ∧
      above.map LayerItem.pos = parents (pl.map LayerItem.pos)
  | [], hints => by
    refine ⟨[], ?_, rfl⟩
    simp only [List.map_nil, missing, List.append_nil]
    rfl
  | [item], hints => by
    refine ⟨[item.up F factory factory.digestSize false ((tree.levels.getD level []).getD (item.pos ^^^ 1) [])], ?_,
      by rfl⟩
    have hsib : siblingsProve tree level (item.pos ^^^ 1) hints = _ := if_neg (Nat.not_le.mpr hlevel)
    unfold partialLayerUp
    exact Run.state_bind_eq_ok.mpr ⟨_, _, hsib, rfl⟩
  | item :: next :: rest, hints => by
    by_cases hnext : next.pos = item.pos ^^^ 1
    · obtain ⟨above, hup, hpos⟩ := partialLayerUp_prove hlevel rest hints
      refine ⟨item.up F factory factory.digestSize false next.hash :: above, ?_, ?_⟩
      · unfold partialLayerUp
        rw [if_pos hnext]
        simp only [List.map_cons, missing, if_pos hnext]
        exact Run.state_bind_eq_ok.mpr ⟨_, _, hup, rfl⟩
      · simp only [List.map_cons, parents, if_pos hnext, hpos]
        rfl
    · let sibling := (tree.levels.getD level []).getD (item.pos ^^^ 1) []
      have hsib : siblingsProve tree level (item.pos ^^^ 1) hints = .ok sibling (hints ++ [sibling]) :=
        if_neg (Nat.not_le.mpr hlevel)
      obtain ⟨above, hup, hpos⟩ := partialLayerUp_prove hlevel (next :: rest) (hints ++ [sibling])
      refine ⟨item.up F factory factory.digestSize false sibling :: above, ?_, ?_⟩
      · unfold partialLayerUp
        rw [if_neg hnext]
        simp only [List.map_cons, missing, if_neg hnext]
        rw [← List.append_cons] at hup
        exact Run.state_bind_eq_ok.mpr ⟨_, _, hsib, Run.state_bind_eq_ok.mpr ⟨_, _, hup, rfl⟩⟩
      · simp only [List.map_cons, parents, if_neg hnext] at hpos ⊢
        rw [hpos]
        rfl

/-- The parent of an item of a layer is an item of the next layer. -/
theorem up_itemOf {layer : Layer} (hs : Sized factory.digestSize layer) {p : Nat} (hp : p < layer.length) :
    LayerItem.up F factory factory.digestSize true ⟨p, layer.getD p []⟩ (layer.getD (p ^^^ 1) []) =
      ⟨p / 2, (buildNextLayer F factory layer).getD (p / 2) []⟩ := by
  have hnode := getD_buildNextLayer (F := F) layer hs (p / 2) (by omega)
  unfold LayerItem.up
  rw [hnode]
  rcases Nat.mod_two_eq_zero_or_one p with heven | hodd
  · have h2 : 2 * (p / 2) = p := by omega
    simp only [heven, if_true, xor_one_of_even heven, h2]
  · have h2 : 2 * (p / 2) = p - 1 := by omega
    have h2' : p - 1 + 1 = p := by omega
    simp only [hodd, if_true, xor_one_of_odd hodd, h2, h2', Nat.one_ne_zero, if_false]

/-- Given the digests of the missing siblings, the verifier computes the items of the next layer. -/
theorem partialLayerUp_verify {layer : Layer} (hs : Sized factory.digestSize layer) (level : Nat) :
    ∀ (ps : List Nat), (∀ p ∈ ps, p < layer.length) → ∀ rest : List GenericDigest,
      partialLayerUp F siblingsVerify level true factory factory.digestSize (itemsOf layer ps)
          ((missing ps).map (fun p => layer.getD p []) ++ rest) =
        .ok (itemsOf (buildNextLayer F factory layer) (parents ps)) rest
  | [], _, rest => rfl
  | [p], hb, rest => by
    have hup := up_itemOf (F := F) hs (hb p List.mem_cons_self)
    unfold itemsOf partialLayerUp parents
    simp only [List.map_cons, List.map_nil, ← hup]
    exact Run.state_bind_eq_ok.mpr ⟨_, _, rfl, rfl⟩
  | p :: q :: ps, hb, rest => by
    have hup := up_itemOf (F := F) hs (hb p List.mem_cons_self)
    by_cases hq : q = p ^^^ 1
    · have ih := partialLayerUp_verify hs level ps (fun x hx => hb x (by simp [hx])) rest
      unfold itemsOf at *
      rw [List.map_cons, List.map_cons]
      unfold partialLayerUp
      simp only [List.map_cons, missing, parents, if_pos hq, ← hup]
      refine Run.state_bind_eq_ok.mpr ⟨_, _, ih, ?_⟩
      rw [hq]
      rfl
    · have ih := partialLayerUp_verify hs level (q :: ps) (fun x hx => hb x (List.mem_cons_of_mem _ hx)) rest
      unfold itemsOf at *
      rw [List.map_cons, List.map_cons]
      unfold partialLayerUp
      simp only [List.map_cons, missing, parents, if_neg hq, ← hup]
      exact Run.state_bind_eq_ok.mpr ⟨_, _, rfl, Run.state_bind_eq_ok.mpr ⟨_, _, ih, rfl⟩⟩

end Level

/-! ## All levels -/

/-- The hints of a proof of these positions. -/
def hintsOf : List Layer → List Nat → List GenericDigest
  | layer :: next :: above, ps =>
    (missing ps).map (fun p => layer.getD p []) ++ hintsOf (next :: above) (parents ps)
  | _, _ => []

/-- The positions that these have at the top. -/
def ancestors : List Layer → List Nat → List Nat
  | _ :: next :: above, ps => ancestors (next :: above) (parents ps)
  | _, ps => ps

theorem length_missing : ∀ ps : List Nat, ps.length + (missing ps).length = 2 * (parents ps).length
  | [] => rfl
  | [_] => rfl
  | p :: q :: rest => by
    unfold missing parents
    split
    · have := length_missing rest
      simp only [List.length_cons]
      omega
    · have := length_missing (q :: rest)
      simp only [List.length_cons] at this ⊢
      omega

section Levels

variable {F : HashFunctions}

theorem proveLevels_eq (tree : Tree) : ∀ (n l : Nat) (pl : List LayerItem) (hints : List GenericDigest),
    tree.levels.length = l + n + 1 → ∃ top,
      proveLevels F tree n l pl hints = .ok top (hints ++ hintsOf (tree.levels.drop l) (pl.map LayerItem.pos)) ∧
      top.map LayerItem.pos = ancestors (tree.levels.drop l) (pl.map LayerItem.pos)
  | 0, l, pl, hints, hlen => by
    have hl : l < tree.levels.length := by omega
    have hdrop : tree.levels.drop l = [tree.levels[l]] := by
      rw [List.drop_eq_getElem_cons hl, List.drop_of_length_le (by omega)]
    refine ⟨pl, ?_, ?_⟩
    · rw [hdrop]
      unfold hintsOf
      rw [List.append_nil]
      rfl
    · rw [hdrop]
      rfl
  | n + 1, l, pl, hints, hlen => by
    have hl : l < tree.levels.length := by omega
    have hl' : l + 1 < tree.levels.length := by omega
    have hdrop' := List.drop_eq_getElem_cons hl'
    have hdrop : tree.levels.drop l = tree.levels[l] :: tree.levels[l + 1] :: tree.levels.drop (l + 1 + 1) := by
      rw [List.drop_eq_getElem_cons hl, hdrop']
    obtain ⟨above, hup, hpos⟩ := @partialLayerUp_prove F tree.hash tree l hl pl hints
    obtain ⟨top, htop, htopPos⟩ := proveLevels_eq tree n (l + 1) above
      (hints ++ (missing (pl.map LayerItem.pos)).map (fun p => (tree.levels.getD l []).getD p [])) (by omega)
    rw [hpos] at htop htopPos
    refine ⟨top, ?_, ?_⟩
    · unfold proveLevels
      rw [hdrop]
      unfold hintsOf
      rw [← hdrop', ← List.append_assoc, ← List.getD_eq_getElem tree.levels [] hl]
      exact Run.state_bind_eq_ok.mpr ⟨_, _, hup, htop⟩
    · rw [hdrop, htopPos, hdrop']
      rfl

theorem ancestors_lt {factory : HashFactory} {levels : List Layer} (h : Layered F factory levels) :
    ∀ {ps : List Nat}, (∀ p ∈ ps, p < (levels.headD []).length) → ∀ p ∈ ancestors levels ps, p = 0 := by
  induction h with
  | root top =>
    intro ps hb p hp
    have hlt : p < [top].length := hb p hp
    simpa using hlt
  | up hlen h ih =>
    intro ps hb p hp
    refine ih ?_ p hp
    intro p' hp'
    rw [List.headD_cons, length_buildNextLayer]
    exact parents_lt hb p' hp'

/-- Below the root there is a hint left or a second item: the loop of the verifier climbs to the root and stops there. -/
theorem verifyLevels_eq {factory : HashFactory} {levels : List Layer} (h : Layered F factory levels) :
    ∀ {ps : List Nat} {fuel : Nat} (l : Nat), Sized factory.digestSize (levels.headD []) → ps ≠ [] →
      (∀ p ∈ ps, p < (levels.headD []).length) → (ancestors levels ps).length = 1 →
      (hintsOf levels ps).length + ps.length ≤ fuel →
      verifyLevels F factory factory.digestSize fuel l (itemsOf (levels.headD []) ps) (hintsOf levels ps) =
        .ok (itemsOf ((levels.getLast?).getD []) (ancestors levels ps)) [] := by
  induction h with
  | root top =>
    intro ps fuel l _ _ _ hone _
    have hone' : ps.length = 1 := hone
    have hstop : ¬ (([] : List GenericDigest) ≠ [] ∨ (itemsOf [top] ps).length > 1) := by
      simp only [itemsOf, List.length_map, hone']
      simp
    cases fuel with
    | zero => rfl
    | succ fuel =>
      unfold verifyLevels
      exact if_neg hstop
  | @up layer above hlen h ih =>
    intro ps fuel l hs hne hb hone hfuel
    have hcount := length_missing ps
    have hparents : (parents ps).length ≠ 0 := fun h0 => length_parents hne (List.length_eq_zero_iff.mp h0)
    have hhints : hintsOf (layer :: buildNextLayer F factory layer :: above) ps =
        (missing ps).map (fun p => layer.getD p []) ++ hintsOf (buildNextLayer F factory layer :: above) (parents ps) := rfl
    have hlenHints := congrArg List.length hhints
    rw [List.length_append, List.length_map] at hlenHints
    obtain ⟨fuel, rfl⟩ : ∃ fuel', fuel = fuel' + 1 := ⟨fuel - 1, by omega⟩
    have hgo : hintsOf (layer :: buildNextLayer F factory layer :: above) ps ≠ [] ∨ (itemsOf layer ps).length > 1 := by
      by_cases hmany : ps.length > 1
      · exact .inr (by rw [itemsOf, List.length_map]; exact hmany)
      · -- a single position has no sibling among the items
        refine .inl (fun h0 => ?_)
        rw [h0, List.length_nil] at hlenHints
        have := List.length_pos_of_ne_nil hne
        omega
    have hup := partialLayerUp_verify (F := F) hs l ps hb (hintsOf (buildNextLayer F factory layer :: above) (parents ps))
    have hrest := @ih (parents ps) fuel (l + 1) (sized_buildNextLayer layer) (length_parents hne)
      (fun p hp => by
        rw [List.headD_cons, length_buildNextLayer]
        exact parents_lt hb p hp) hone (by omega)
    unfold verifyLevels
    rw [List.headD_cons]
    refine (if_pos hgo).trans ?_
    rw [hhints]
    exact Run.state_bind_eq_ok.mpr ⟨_, _, hup, hrest⟩

end Levels

/-! ## A proof of a tree verifies -/

section Proofs

variable {F : HashFunctions}

theorem leafItems_eq (leaves : Layer) : ∀ (prev : Option Nat) (idxs : List Nat),
    leafItems leaves prev idxs = itemsOf leaves ((leafItems leaves prev idxs).map LayerItem.pos)
  | _, [] => rfl
  | prev, pos :: rest => by
    unfold leafItems
    split
    · exact leafItems_eq leaves prev rest
    · rw [List.map_cons]
      unfold itemsOf
      rw [List.map_cons]
      exact congrArg _ (leafItems_eq leaves (some pos) rest)

/-- What the prover returns: the hints of the positions, which lead to one node. -/
theorem createProof_eq_ok {tree : Tree} {idxs : List Nat} {proof : Proof} (hne : tree.levels ≠ [])
    (h : tree.createProof F idxs = .ok proof) :
    let ps := (leafItems (tree.levels.headD []) none idxs).map LayerItem.pos
    proof = ⟨hintsOf tree.levels ps, tree.hash, tree.levels.length - 1⟩ ∧ (ancestors tree.levels ps).length = 1 := by
  intro ps
  have hlen := List.length_pos_of_ne_nil hne
  obtain ⟨top, hrun, hpos⟩ := proveLevels_eq (F := F) tree (tree.levels.length - 1) 0
    (leafItems (tree.levels.headD []) none idxs) [] (by omega)
  rw [List.drop_zero] at hrun hpos
  unfold Tree.createProof at h
  rw [hrun] at h
  simp only at h
  split at h
  · cases h
  · rename_i hone
    cases h
    exact ⟨rfl, by rw [← hpos, List.length_map]; exact not_not.mp hone⟩

/-- Every hint is a digest of the tree, or empty. -/
theorem hintsOf_size {factory : HashFactory} {levels : List Layer} (h : Layered F factory levels) :
    ∀ {ps : List Nat}, Sized factory.digestSize (levels.headD []) → ∀ hint ∈ hintsOf levels ps,
      hint = [] ∨ hint.length = factory.digestSize := by
  induction h with
  | root top => intro ps _ hint hmem; cases hmem
  | @up layer above hlen h ih =>
    intro ps hs hint hmem
    rcases List.mem_append.mp hmem with hmem | hmem
    · obtain ⟨p, _, rfl⟩ := List.mem_map.mp hmem
      by_cases hp : p < layer.length
      · exact .inr (hs.getD hp)
      · exact .inl (List.getD_eq_default _ _ (Nat.not_lt.mp hp))
    · exact ih (sized_buildNextLayer layer) hint hmem

/-- The size check of the verifier. -/
theorem sizeCheck_eq_ok {path : List GenericDigest} {digestSize : Nat} :
    path.zipIdx.forM (fun (p : GenericDigest × Nat) =>
      if p.1 ≠ [] ∧ p.1.length ≠ digestSize then
        (throw (.pathElementSizeMismatch p.2 p.1.length digestSize) : Except MerkleError Unit)
      else pure ()) = .ok () ↔ ∀ hint ∈ path, hint = [] ∨ hint.length = digestSize := by
  rw [Run.forM_eq_ok]
  constructor
  · intro h hint hmem
    obtain ⟨i, hi, rfl⟩ := List.getElem_of_mem hmem
    have hone := h (path[i], i) (List.mem_zipIdx_iff_getElem?.mpr (List.getElem?_eq_getElem hi))
    by_contra hbad
    rw [not_or] at hbad
    rw [if_pos hbad] at hone
    cases hone
  · intro h p hp
    refine if_neg ?_
    rintro ⟨hempty, hsize⟩
    exact (h p.1 (List.fst_mem_of_mem_zipIdx hp)).elim hempty hsize

theorem verifyPath_createProof {tree : Tree} (hlay : Layered F tree.hash tree.levels)
    (hs : Sized tree.hash.digestSize (tree.levels.headD [])) {idxs : List Nat} {proof : Proof}
    (h : tree.createProof F idxs = .ok proof) {items : List LayerItem}
    (hitems : items = leafItems (tree.levels.headD []) none idxs) (hne : items ≠ [])
    (hb : ∀ item ∈ items, item.pos < (tree.levels.headD []).length) :
    verifyPath F tree.root proof items proof.hashFactory.digestSize = .ok () := by
  subst hitems
  have hlevels : tree.levels ≠ [] := by
    intro h0
    rw [h0] at hlay
    cases hlay
  obtain ⟨rfl, hone⟩ := createProof_eq_ok hlevels h
  generalize hps : (leafItems (tree.levels.headD []) none idxs).map LayerItem.pos = ps at hone ⊢
  have hitems := leafItems_eq (tree.levels.headD []) none idxs
  rw [hps] at hitems
  have hne' : ps ≠ [] := by
    rintro rfl
    exact hne (List.map_eq_nil_iff.mp hps)
  have hb' : ∀ p ∈ ps, p < (tree.levels.headD []).length := by
    intro p hp
    rw [← hps] at hp
    obtain ⟨item, hitem, rfl⟩ := List.mem_map.mp hp
    exact hb item hitem
  have hsizes := sizeCheck_eq_ok.mpr (@hintsOf_size F _ _ hlay ps hs)
  have hrun := verifyLevels_eq hlay 0 hs hne' hb' hone (Nat.le_refl _)
  have hlenItems : (itemsOf (tree.levels.headD []) ps).length = ps.length := List.length_map _
  rw [hitems]
  unfold verifyPath
  refine Run.bind_eq_ok.mpr ⟨(), hsizes, ?_⟩
  simp only [hlenItems]
  rw [hrun]
  obtain ⟨p, hp⟩ := List.length_eq_one_iff.mp hone
  have hp0 : p = 0 := ancestors_lt hlay hb' p (by rw [hp]; exact List.mem_cons_self)
  rw [hp, hp0]
  have hroot : ((tree.levels.getLast?).getD []).getD 0 [] = tree.root := by
    unfold Tree.root
    rw [List.getD_eq_getElem?_getD, List.headD_eq_head?_getD, List.head?_eq_getElem?]
  refine if_neg ?_
  rintro (h0 | h0)
  · exact h0 rfl
  · exact h0 hroot

end Proofs

end Crypto
end Algod
