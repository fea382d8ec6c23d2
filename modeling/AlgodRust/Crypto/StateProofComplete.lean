import AlgodRust.Crypto.MerkleOpenings
import AlgodRust.Crypto.StateProof
/-!
# StateProofComplete — the proofs that the prover builds verify

A prover whose slots hold only signatures that were accepted stays such a prover, whatever it is asked (`Sound`).  The
number of reveals it computes meets the verifier's inequality, the slot that its search finds for a coin is one that the
coin falls in, so a signed one, and the positions that it proves in the two trees are those that it reveals.
-/
namespace Algod
namespace Crypto

open Msgpack (Bytes beBytes)

/-! ## Weights -/

/-- Rounding the quotient up gives enough reveals. -/
theorem le_div_succ_mul (n : Nat) {d : Nat} (hd : 0 < d) : n ≤ (n / d + 1) * d := by
  rw [Nat.mul_comm]
  exact Nat.le_of_lt (Nat.lt_mul_div_succ n hd)

theorem revealsDenom_eq {y x w lnProvenWeight denom : Nat} (h : revealsDenom y x w lnProvenWeight = .ok denom) :
    denom + lnProvenWeight * y = x + w * y := by
  unfold revealsDenom at h
  split at h
  · rename_i hge
    obtain rfl := Except.ok.inj h
    rw [Nat.add_assoc, ← Nat.add_mul, Nat.sub_add_cancel hge]
  · rename_i hlt
    simp only at h
    split at h
    · cases h
    · rename_i hsub
      obtain rfl := Except.ok.inj h
      have hsplit : lnProvenWeight * y = (lnProvenWeight - w) * y + w * y := by
        rw [← Nat.add_mul, Nat.sub_add_cancel (by omega)]
      omega

theorem verifyWeights_of_numReveals {signedWeight lnProvenWeight strengthTarget nr : Nat} (hsigned : signedWeight ≠ 0)
    (h : numReveals signedWeight lnProvenWeight strengthTarget = .ok nr) :
    verifyWeights signedWeight lnProvenWeight nr strengthTarget = .ok () ∧ 0 < nr := by
  unfold numReveals at h
  unfold verifyWeights
  generalize getSubExpressions signedWeight = e at h ⊢
  obtain ⟨y, x, w⟩ := e
  simp only at h ⊢
  obtain ⟨denom, hdenom, h⟩ := Run.bind_eq_ok.mp h
  have hsum := revealsDenom_eq hdenom
  split at h
  · cases h
  · rename_i hpos
    split at h
    · cases h
    · rename_i hmax
      obtain rfl := Except.ok.inj h
      have hle := le_div_succ_mul (strengthTarget * ln2IntApproximation * y) (Nat.pos_of_ne_zero hpos)
      have hnr : 0 < strengthTarget * ln2IntApproximation * y / denom + 1 := Nat.succ_pos _
      generalize strengthTarget * ln2IntApproximation * y / denom + 1 = nr at hle hmax hnr ⊢
      rw [if_neg hmax, if_neg hsigned, ← hsum]
      refine ⟨if_neg (Nat.not_lt.mpr ?_), hnr⟩
      calc (strengthTarget * ln2IntApproximation + nr * lnProvenWeight) * y
          = strengthTarget * ln2IntApproximation * y + nr * (lnProvenWeight * y) := by rw [Nat.add_mul, Nat.mul_assoc nr]
        _ ≤ nr * denom + nr * (lnProvenWeight * y) := Nat.add_le_add_right hle _
        _ = nr * (denom + lnProvenWeight * y) := (Nat.mul_add ..).symm

/-! ## Slots and coins -/

namespace Prover

/-- The coin falls in a slot: between the weight signed below it and that with its own. -/
structure Falls (sigs : List ProverSigSlot) (pos coin : Nat) : Prop where
  lt : pos < sigs.length
  range : ∃ upper, addWeights (sigs.getD pos default).commit.l (sigs.getD pos default).weight = .ok upper ∧
    (sigs.getD pos default).commit.l ≤ coin ∧ coin < upper

theorem coinIndexFrom_eq_ok {sigs : List ProverSigSlot} {coin pos : Nat} : ∀ {fuel lo hi : Nat}, hi ≤ sigs.length →
    coinIndexFrom sigs coin fuel lo hi = .ok pos → Falls sigs pos coin
  | 0, _, _, _, h => by cases h
  | fuel + 1, lo, hi, hhi, h => by
    unfold coinIndexFrom at h
    split at h
    · cases h
    rename_i hlo
    simp only at h
    split at h
    · exact coinIndexFrom_eq_ok (by omega) h
    rename_i hl
    obtain ⟨upper, hupper, h⟩ := Run.bind_eq_ok.mp h
    split at h
    · rename_i hlt
      obtain rfl := Except.ok.inj h
      exact ⟨by omega, upper, hupper, Nat.not_lt.mp hl, hlt⟩
    · exact coinIndexFrom_eq_ok hhi h

/-- A coin falls in a slot only if something was signed there. -/
theorem Falls.weight_ne {sigs : List ProverSigSlot} {pos coin : Nat} (h : Falls sigs pos coin) :
    (sigs.getD pos default).weight ≠ 0 := by
  obtain ⟨-, upper, hupper, hle, hlt⟩ := h
  intro h0
  unfold addWeights at hupper
  split at hupper
  · have := Except.ok.inj hupper
    omega
  · cases hupper

/-- What filling the prefixes leaves of a slot. -/
def slotKey (slot : ProverSigSlot) : Nat × MerkleSig.Signature := (slot.weight, slot.commit.sig)

theorem fillFrom_key {prev : ProverSigSlot} : ∀ {rest filled : List ProverSigSlot}, fillFrom prev rest = .ok filled →
    filled.map slotKey = rest.map slotKey := by
  intro rest
  induction rest generalizing prev with
  | nil =>
    intro filled h
    obtain rfl := Except.ok.inj h
    rfl
  | cons next rest ih =>
    intro filled h
    obtain ⟨l, -, h⟩ := Run.bind_eq_ok.mp h
    obtain ⟨filled', hrest, h⟩ := Run.bind_eq_ok.mp h
    obtain rfl := Except.ok.inj h
    rw [List.map_cons, List.map_cons, ih hrest]
    rfl

theorem fillPrefixes_key {sigs filled : List ProverSigSlot} (h : fillPrefixes sigs = .ok filled) :
    filled.map slotKey = sigs.map slotKey := by
  cases sigs with
  | nil =>
    obtain rfl := Except.ok.inj h
    rfl
  | cons slot rest =>
    obtain ⟨filled', hrest, h⟩ := Run.bind_eq_ok.mp h
    obtain rfl := Except.ok.inj h
    rw [List.map_cons, List.map_cons, fillFrom_key hrest]

/-! ## Reveals -/

/-- The reveals after some coins: one for each position drawn, in two orders, of the slot and the participant there. -/
structure Revealed (sigs : List ProverSigSlot) (participants : List Participant) (drawn : List Nat) (st : RevealState) :
    Prop where
  falls : List.Forall₂ (Falls sigs) st.revealsSequence drawn
  bound : ∀ pos ∈ st.revealsSequence, pos < participants.length
  shown : ∀ pos ∈ st.revealsSequence, pos ∈ st.reveals.map Prod.fst
  drawn : ∀ e ∈ st.reveals, e.1 ∈ st.revealsSequence
  value : ∀ e ∈ st.reveals, e.2 = ⟨(sigs.getD e.1 default).commit, participants.getD e.1 default⟩
  perm : (st.reveals.map Prod.fst).Perm st.proofPositions
  nodup : st.proofPositions.Nodup

theorem isSome_lookup {pos : Nat} {reveals : List (Nat × Reveal)} :
    (reveals.lookup pos).isSome ↔ pos ∈ reveals.map Prod.fst := by
  rw [List.lookup_isSome_iff, List.mem_map]
  exact ⟨fun ⟨e, he, hpos⟩ => ⟨e, he, (beq_iff_eq.mp hpos).symm⟩, fun ⟨e, he, hpos⟩ => ⟨e, he, beq_iff_eq.mpr hpos.symm⟩⟩

theorem mem_of_lookup {pos : Nat} {r : Reveal} {reveals : List (Nat × Reveal)} (h : reveals.lookup pos = some r) :
    (pos, r) ∈ reveals := by
  obtain ⟨l₁, l₂, rfl, -⟩ := List.lookup_eq_some_iff.mp h
  exact List.mem_append_right _ List.mem_cons_self

section Reveals

variable {sigs : List ProverSigSlot} {participants : List Participant} {drawn : List Nat} {st : RevealState} {pos coin : Nat}

theorem Revealed.none : Revealed sigs participants [] ⟨[], [], []⟩ where
  falls := .nil
  bound := fun _ h => by cases h
  shown := fun _ h => by cases h
  drawn := fun _ h => by cases h
  value := fun _ h => by cases h
  perm := .nil
  nodup := List.nodup_nil

/-- A coin that falls in a slot revealed before. -/
theorem Revealed.again (h : Revealed sigs participants drawn st) (hfalls : Falls sigs pos coin)
    (hlt : pos < participants.length) (hshown : pos ∈ st.reveals.map Prod.fst) :
    Revealed sigs participants (drawn ++ [coin]) { st with revealsSequence := st.revealsSequence ++ [pos] } where
  falls := List.rel_append h.falls (.cons hfalls .nil)
  bound := fun p hp => (List.mem_append.mp hp).elim (h.bound p) (fun hp => by rw [List.eq_of_mem_singleton hp]; exact hlt)
  shown := fun p hp => (List.mem_append.mp hp).elim (h.shown p)
    (fun hp => by rw [List.eq_of_mem_singleton hp]; exact hshown)
  drawn := fun e he => List.mem_append_left _ (h.drawn e he)
  value := h.value
  perm := h.perm
  nodup := h.nodup

/-- A coin that falls in another. -/
theorem Revealed.fresh (h : Revealed sigs participants drawn st) (hfalls : Falls sigs pos coin)
    (hlt : pos < participants.length) (hnew : pos ∉ st.reveals.map Prod.fst) :
    Revealed sigs participants (drawn ++ [coin])
      { st with
        revealsSequence := st.revealsSequence ++ [pos]
        reveals := st.reveals.orderedInsert (fun a b => a.1 ≤ b.1)
          (pos, ⟨(sigs.getD pos default).commit, participants.getD pos default⟩)
        proofPositions := st.proofPositions ++ [pos] } := by
  have hins := List.perm_orderedInsert (fun a b : Nat × Reveal => a.1 ≤ b.1)
    (pos, ⟨(sigs.getD pos default).commit, participants.getD pos default⟩) st.reveals
  have hperm : ((st.reveals.orderedInsert (fun a b => a.1 ≤ b.1)
      (pos, ⟨(sigs.getD pos default).commit, participants.getD pos default⟩)).map Prod.fst).Perm
      (st.proofPositions ++ [pos]) := by
    refine (hins.map Prod.fst).trans ?_
    rw [List.map_cons]
    exact (h.perm.cons pos).trans (List.perm_append_singleton pos _).symm
  have hnewPos : pos ∉ st.proofPositions := fun hp => hnew (h.perm.symm.subset hp)
  constructor
  · exact List.rel_append h.falls (.cons hfalls .nil)
  · intro p hp
    rcases List.mem_append.mp hp with hp | hp
    · exact h.bound p hp
    · rw [List.eq_of_mem_singleton hp]
      exact hlt
  · intro p hp
    refine hperm.symm.subset ?_
    rcases List.mem_append.mp hp with hp | hp
    · exact List.mem_append_left _ (h.perm.subset (h.shown p hp))
    · exact List.mem_append_right _ hp
  · intro e he
    rcases List.mem_cons.mp (hins.subset he) with rfl | he
    · exact List.mem_append_right _ List.mem_cons_self
    · exact List.mem_append_left _ (h.drawn e he)
  · intro e he
    rcases List.mem_cons.mp (hins.subset he) with rfl | he
    · rfl
    · exact h.value e he
  · exact hperm
  · exact List.nodup_append.mpr ⟨h.nodup, List.nodup_singleton pos, fun a ha b hb hab =>
      hnewPos (by rw [← List.eq_of_mem_singleton hb, ← hab]; exact ha)⟩

theorem revealCoins_revealed : ∀ {coins drawn : List Nat} {st st' : RevealState}, Revealed sigs participants drawn st →
    revealCoins sigs participants coins st = .ok st' → Revealed sigs participants (drawn ++ coins) st' := by
  intro coins
  induction coins with
  | nil =>
    intro drawn st st' hst h
    obtain rfl := Except.ok.inj h
    rw [List.append_nil]
    exact hst
  | cons coin rest ih =>
    intro drawn st st' hst h
    obtain ⟨pos, hpos, h⟩ := Run.bind_eq_ok.mp h
    have hfalls := coinIndexFrom_eq_ok (Nat.le_refl _) hpos
    rw [List.append_cons]
    split at h
    · cases h
    rename_i hlt
    have hlt' := Nat.not_le.mp hlt
    simp only at h
    split at h
    · rename_i hshown
      exact ih (hst.again hfalls hlt' (isSome_lookup.mp hshown)) h
    · rename_i hnew
      exact ih (hst.fresh hfalls hlt' (fun hp => hnew (isSome_lookup.mpr hp))) h

end Reveals

theorem verifyCoins_eq_ok {reveals : List (Nat × Reveal)} : ∀ {pairs : List (Nat × Nat)},
    (∀ q ∈ pairs, ∃ r upper, reveals.lookup q.1 = some r ∧ addWeights r.sigSlot.l r.part.weight = .ok upper ∧
      r.sigSlot.l ≤ q.2 ∧ q.2 < upper) → verifyCoins reveals pairs = .ok ()
  | [], _ => rfl
  | (pos, coin) :: rest, h => by
    obtain ⟨r, upper, hlookup, hupper, hle, hlt⟩ := h (pos, coin) List.mem_cons_self
    have ih := verifyCoins_eq_ok (fun q hq => h q (List.mem_cons_of_mem _ hq))
    unfold verifyCoins
    simp only [hlookup, hupper, Run.ok_bind]
    rw [if_neg (not_not.mpr ⟨hle, hlt⟩)]
    exact ih

/-! ## A proof verifies -/

section Verify

variable {F : HashFunctions} {falcon : MerkleSig.Falcon} {coins : CoinChoiceSeed → Nat → Nat} {factory : HashFactory}

/-- A signature that was accepted for a participant. -/
structure Accepted (F : HashFunctions) (falcon : MerkleSig.Falcon) (round : Nat) (data : Bytes32) (part : Participant)
    (sig : MerkleSig.Signature) : Prop where
  salt : sig.validateSaltVersion falcon merkleSignatureSchemeSaltVersion = .ok ()
  verified : ∀ pos, verifyParticipant F falcon round pos data part sig = .ok ()
  hashType : sig.proof.proof.hashFactory.hashType = .sumhash

/-- Every slot that has weight has the participant's, with a signature accepted for it. -/
def Signed (F : HashFunctions) (falcon : MerkleSig.Falcon) (p : Prover) : Prop :=
  ∀ i < p.sigs.length, (p.sigs.getD i default).weight ≠ 0 →
    (p.sigs.getD i default).weight = (p.participants.getD i default).weight ∧
      Accepted F falcon p.round p.data (p.participants.getD i default) (p.sigs.getD i default).commit.sig

/-- The verifier accepts a proof of the prover. -/
def Verifies (F : HashFunctions) (falcon : MerkleSig.Falcon) (coins : CoinChoiceSeed → Nat → Nat) (p : Prover)
    (s : StateProof) : Prop :=
  (Verifier.withLnProvenWeight p.partTree.root p.lnProvenWeight p.strengthTarget).verify F falcon coins p.round p.data s =
    .ok ()

/-- The root of a commitment has the size of its hash. -/
theorem length_root {array : HashArray} {tree : Tree} (h : VcTree F factory array tree) :
    tree.root.length = factory.digestSize := by
  have hlevels := h.length_levels
  have hsized := h.layered.sized_getD h.sized (m := vcDepth array) (by omega)
  have hlen := h.layered.length_getD h.length_leaves (m := vcDepth array) (Nat.le_refl _)
  rw [Tree.root_eq hlevels]
  exact hsized.getD (by rw [hlen]; exact Nat.two_pow_pos _)

theorem proof_of_prove {array : HashArray} {tree : Tree} (h : VcTree F factory array tree)
    {idxs : List Nat} {proof : Proof} (hne : idxs ≠ []) (hprove : tree.prove F idxs = .ok proof) :
    proof.hashFactory = factory ∧ proof.treeDepth = vcDepth array := by
  obtain ⟨-, hcreate⟩ := h.prove_eq_ok hne hprove
  have hlevels : tree.levels ≠ [] := fun h0 => by
    have := h.length_levels
    rw [h0, List.length_nil] at this
    omega
  obtain ⟨rfl, -⟩ := createProof_eq_ok hlevels hcreate
  exact ⟨h.hash_eq, by rw [h.length_levels, Nat.add_sub_cancel]⟩

/-- A slot of a committed array has a committable signature, which is its leaf. -/
theorem committable_of_tree {sigs : List ProverSigSlot} {sigTree : Tree}
    (h : VcTree F factory (proverSigArray falcon sigs) sigTree) {pos : Nat} (hpos : pos < sigs.length) :
    ∃ slot, buildCommittableSignature falcon (sigs.getD pos default).commit = .ok slot ∧
      (proverSigArray falcon sigs).marshal pos = .ok slot.toBeHashed := by
  have hD := Nat.le_of_lt h.depth_lt
  have hback := reverseBits_reverseBits hD (Nat.lt_of_lt_of_le hpos (length_le_padded (proverSigArray falcon sigs)))
  obtain ⟨x, hx, -⟩ := h.leaf_of_index (reverseBits_lt hD pos) (by rw [hback]; exact hpos)
  rw [hback] at hx
  cases hslot : buildCommittableSignature falcon (sigs.getD pos default).commit with
  | error e =>
    simp only [proverSigArray, hslot] at hx
    cases hx
  | ok slot =>
    refine ⟨slot, rfl, ?_⟩
    simp only [proverSigArray, hslot]
    rfl

section Proofs

variable {p : Prover} {s : StateProof} {st : RevealState} {drawn : List Nat}

theorem exists_of_forall₂_left {α β : Type} {R : α → β → Prop} {as : List α} {bs : List β} (h : List.Forall₂ R as bs) :
    ∀ a ∈ as, ∃ b, R a b := by
  induction h with
  | nil => intro a ha; cases ha
  | cons hab _ ih =>
    intro a ha
    rcases List.mem_cons.mp ha with rfl | ha
    · exact ⟨_, hab⟩
    · exact ih a ha

/-- A revealed slot was signed. -/
theorem Revealed.signed (hrev : Revealed p.sigs p.participants drawn st) (hsigned : Signed F falcon p)
    {e : Nat × Reveal} (he : e ∈ st.reveals) :
    e.1 < p.sigs.length ∧ (p.sigs.getD e.1 default).weight = e.2.part.weight ∧
      Accepted F falcon p.round p.data e.2.part e.2.sigSlot.sig := by
  obtain ⟨coin, hfalls⟩ := exists_of_forall₂_left hrev.falls e.1 (hrev.drawn e he)
  rw [hrev.value e he]
  exact ⟨hfalls.lt, hsigned e.1 hfalls.lt hfalls.weight_ne⟩

theorem verifyAlgorithms_ok (hrev : Revealed p.sigs p.participants drawn st) (hsigned : Signed F falcon p)
    (hs : s.reveals = st.reveals) (hsig : s.sigProofs.hashFactory = ⟨.sumhash⟩)
    (hpart : s.partProofs.hashFactory = ⟨.sumhash⟩) (hcommit : s.sigCommit.length = HashType.sumhash.digestSize) :
    verifyStateProofAlgorithms s = .ok () := by
  unfold verifyStateProofAlgorithms
  simp only [hsig, hpart, hcommit, ne_eq, not_true_eq_false, if_false, hs]
  refine Run.forM_eq_ok.mpr (fun e he => if_neg ?_)
  rintro ⟨-, hbad⟩
  exact hbad (hrev.signed hsigned he).2.2.hashType

theorem verifyDepth_ok {depth : Nat} (hsig : s.sigProofs.treeDepth = depth) (hpart : s.partProofs.treeDepth = depth)
    (hdepth : depth ≤ maxTreeDepth) : verifyStateProofTreesDepth s = .ok () := by
  unfold verifyStateProofTreesDepth
  rw [hsig, hpart, if_neg (Nat.not_lt.mpr hdepth)]
  exact if_neg (Nat.not_lt.mpr hdepth)

/-- The coins that the prover drew fall in the weights that it reveals. -/
theorem Revealed.coins_ok (hrev : Revealed p.sigs p.participants drawn st) (hsigned : Signed F falcon p) :
    verifyCoins st.reveals (st.revealsSequence.zip drawn) = .ok () := by
  refine verifyCoins_eq_ok (fun q hq => ?_)
  obtain ⟨hlt, upper, hupper, hle, hlt'⟩ := (List.forall₂_iff_zip.mp hrev.falls).2 hq
  have hpos : q.1 ∈ st.revealsSequence := (List.of_mem_zip hq).1
  obtain ⟨r, hr⟩ := Option.isSome_iff_exists.mp (isSome_lookup.mpr (hrev.shown q.1 hpos))
  have hmem := mem_of_lookup hr
  have hvalue := hrev.value _ hmem
  have hweight := (hrev.signed hsigned hmem).2.1
  have hl : r.sigSlot.l = (p.sigs.getD q.1 default).commit.l := by
    rw [show r = _ from hvalue]
  exact ⟨r, upper, hr, by rw [hl, ← hweight]; exact hupper, by rw [hl]; exact hle, hlt'⟩

theorem participants_marshal {ps : List Participant} {pos : Nat} (h : pos < ps.length) :
    (participantsArray ps).marshal pos = .ok (ps.getD pos default).toBeHashed := by
  unfold participantsArray
  simp only [List.getElem?_eq_getElem h, List.getD_eq_getElem _ _ h]

/-- The leaves that the verifier computes of the revealed slots are those of the commitment. -/
theorem Revealed.sigElems_ok (hrev : Revealed p.sigs p.participants drawn st) (hsigned : Signed F falcon p) {sigTree : Tree}
    {factory : HashFactory} (hsig : VcTree F factory (proverSigArray falcon p.sigs) sigTree) :
    ∃ elems, st.reveals.mapM (fun (e : Nat × Reveal) => do
        let sig ← buildCommittableSignature falcon e.2.sigSlot
        verifyParticipant F falcon p.round e.1 p.data e.2.part e.2.sigSlot.sig
        return (e.1, sig.toBeHashed)) = .ok elems ∧
      List.Forall₂ (fun (e : Nat × Reveal) (el : Nat × Hashable) =>
        el.1 = e.1 ∧ (proverSigArray falcon p.sigs).marshal e.1 = .ok el.2) st.reveals elems := by
  refine Run.mapM_ok (fun e he => ?_)
  obtain ⟨hlt, -, haccepted⟩ := hrev.signed hsigned he
  obtain ⟨slot, hslot, hmarshal⟩ := committable_of_tree hsig hlt
  have hcommit : e.2.sigSlot = (p.sigs.getD e.1 default).commit := by rw [hrev.value e he]
  refine ⟨(e.1, slot.toBeHashed), ?_, rfl, hmarshal⟩
  rw [← hcommit] at hslot
  exact Run.bind_eq_ok.mpr ⟨slot, hslot, Run.bind_eq_ok.mpr ⟨(), haccepted.verified e.1, rfl⟩⟩

theorem elems_of_forall₂ {marshal : Nat → Except MerkleError Hashable} {reveals : List (Nat × Reveal)}
    {elems : List (Nat × Hashable)}
    (h : List.Forall₂ (fun (e : Nat × Reveal) (el : Nat × Hashable) => el.1 = e.1 ∧ marshal e.1 = .ok el.2) reveals elems) :
    elems.map Prod.fst = reveals.map Prod.fst ∧ ∀ el ∈ elems, marshal el.1 = .ok el.2 := by
  induction h with
  | nil => exact ⟨rfl, fun el hel => by cases hel⟩
  | cons hab _ ih =>
    refine ⟨by rw [List.map_cons, List.map_cons, hab.1, ih.1], fun el hel => ?_⟩
    rcases List.mem_cons.mp hel with rfl | hel
    · rw [hab.1]
      exact hab.2
    · exact ih.2 el hel

/-- What a prover builds, the verifier accepts. -/
theorem verify_buildProof (hlen : p.sigs.length = p.participants.length) (hsigned : Signed F falcon p)
    (htree : VcTree F ⟨.sumhash⟩ (participantsArray p.participants) p.partTree)
    (hdepth : p.partTree.levels.length - 1 ≤ maxTreeDepth) (hweight : p.signedWeight ≠ 0)
    (h : p.buildProof F falcon coins = .ok s) : Verifies F falcon coins p s := by
  obtain ⟨sigTree, hsigTree, h⟩ := Run.bind_eq_ok.mp h
  obtain ⟨nr, hnr, h⟩ := Run.bind_eq_ok.mp h
  obtain ⟨st, hst, h⟩ := Run.bind_eq_ok.mp h
  obtain ⟨sigProofs, hsigProofs, h⟩ := Run.bind_eq_ok.mp h
  obtain ⟨partProofs, hpartProofs, h⟩ := Run.bind_eq_ok.mp h
  obtain rfl := Except.ok.inj h
  rw [Run.mapError_eq_ok] at hsigTree hsigProofs hpartProofs
  have hsig := vcTree_of_build hsigTree
  have hrev := revealCoins_revealed Revealed.none hst
  rw [List.nil_append] at hrev
  obtain ⟨hverifyWeights, hnrPos⟩ := verifyWeights_of_numReveals hweight hnr
  have hlenSeq : st.revealsSequence.length = nr := by
    rw [hrev.falls.length_eq, List.length_map, List.length_range]
  -- both trees have as many leaves
  have hsameDepth : vcDepth (proverSigArray falcon p.sigs) = vcDepth (participantsArray p.participants) := by
    unfold vcDepth proverSigArray participantsArray
    rw [hlen]
  have hdepth' : vcDepth (participantsArray p.participants) ≤ maxTreeDepth := by
    rw [htree.length_levels, Nat.add_sub_cancel] at hdepth
    exact hdepth
  have hne : st.proofPositions ≠ [] := by
    intro h0
    have hkeys := List.Perm.eq_nil (h0 ▸ hrev.perm)
    obtain ⟨pos, hpos⟩ := List.exists_mem_of_length_pos (by omega : 0 < st.revealsSequence.length)
    have := hrev.shown pos hpos
    rw [hkeys] at this
    cases this
  obtain ⟨hsigFactory, hsigDepth⟩ := proof_of_prove hsig hne hsigProofs
  obtain ⟨hpartFactory, hpartDepth⟩ := proof_of_prove htree hne hpartProofs
  rw [hsameDepth] at hsigDepth
  obtain ⟨sigElems, hsigElems, hall⟩ := hrev.sigElems_ok hsigned hsig
  obtain ⟨hsigKeys, hsigMarshal⟩ := elems_of_forall₂ hall
  have hsigVerify := hsig.verify_prove hne hsigProofs (hsigKeys ▸ hrev.perm) hrev.nodup hsigMarshal
  have hpartVerify : verifyVectorCommitment F p.partTree.root
      (st.reveals.map (fun e => (e.1, e.2.part.toBeHashed))) partProofs = .ok () := by
    refine htree.verify_prove hne hpartProofs (by rw [List.map_map]; exact hrev.perm) hrev.nodup (fun el hel => ?_)
    obtain ⟨e, he, rfl⟩ := List.mem_map.mp hel
    rw [participants_marshal (hrev.bound e.1 (hrev.drawn e he)), hrev.value e he]
  have hsalt : st.reveals.forM (fun (e : Nat × Reveal) =>
      (e.2.sigSlot.sig.validateSaltVersion falcon merkleSignatureSchemeSaltVersion).mapError
        (fun _ => StateProofError.saltVersionMismatch)) = .ok () :=
    Run.forM_eq_ok.mpr (fun e he => Run.mapError_eq_ok.mpr (hrev.signed hsigned he).2.2.salt)
  unfold Verifies Verifier.verify
  refine Run.bind_eq_ok.mpr ⟨(), verifyAlgorithms_ok hrev hsigned rfl hsigFactory hpartFactory (length_root hsig), ?_⟩
  refine Run.bind_eq_ok.mpr ⟨(), verifyDepth_ok hsigDepth hpartDepth hdepth', ?_⟩
  refine Run.bind_eq_ok.mpr ⟨(), by rw [hlenSeq]; exact hverifyWeights, ?_⟩
  refine Run.bind_eq_ok.mpr ⟨(), hsalt, ?_⟩
  refine Run.bind_eq_ok.mpr ⟨sigElems, hsigElems, ?_⟩
  refine Run.bind_eq_ok.mpr ⟨(), Run.mapError_eq_ok.mpr hsigVerify, ?_⟩
  refine Run.bind_eq_ok.mpr ⟨(), Run.mapError_eq_ok.mpr hpartVerify, ?_⟩
  rw [hlenSeq]
  exact hrev.coins_ok hsigned

end Proofs

/-! ## Runs of a prover -/

/-- What a prover was made for. -/
def subject (p : Prover) : Bytes32 × Nat × List Participant × Tree × Nat × Nat :=
  (p.data, p.round, p.participants, p.partTree, p.lnProvenWeight, p.strengthTarget)

/-- A prover that holds accepted signatures only, and a cached proof only if it verifies. -/
structure Sound (F : HashFunctions) (falcon : MerkleSig.Falcon) (coins : CoinChoiceSeed → Nat → Nat) (p : Prover) : Prop where
  length_sigs : p.sigs.length = p.participants.length
  signed : Signed F falcon p
  tree : VcTree F ⟨.sumhash⟩ (participantsArray p.participants) p.partTree
  depth : p.partTree.levels.length - 1 ≤ maxTreeDepth
  cached : ∀ s ∈ p.cachedProof, Verifies F falcon coins p s

/-- The state that a call leaves, whether it fails or not. -/
def after {α : Type} : EStateM.Result StateProofError Prover α → Prover
  | .ok _ p => p
  | .error _ p => p

/-- A call on a prover: an addition of a signature that it accepts, or the making of a proof. -/
inductive Step (F : HashFunctions) (falcon : MerkleSig.Falcon) (coins : CoinChoiceSeed → Nat → Nat) : Prover → Prover → Prop
  | add {p : Prover} {pos : Nat} {sig : MerkleSig.Signature} (hvalid : p.isValid F falcon pos sig true = .ok ())
      (hhash : sig.proof.proof.hashFactory.hashType = .sumhash) : Step F falcon coins p (after (Prover.add pos sig p))
  | createProof {p : Prover} : Step F falcon coins p (after (Prover.createProof F falcon coins p))

theorem accepted_of_isValid {p : Prover} {pos : Nat} {sig : MerkleSig.Signature}
    (h : p.isValid F falcon pos sig true = .ok ()) (hhash : sig.proof.proof.hashFactory.hashType = .sumhash) :
    Accepted F falcon p.round p.data (p.participants.getD pos default) sig := by
  unfold isValid at h
  split at h
  · cases h
  · rename_i part hpart
    have hget : p.participants.getD pos default = part := by
      rw [List.getD_eq_getElem?_getD, hpart]
      rfl
    rw [hget]
    split at h
    · cases h
    rw [if_pos rfl] at h
    obtain ⟨_, hsalt, hverify⟩ := Run.bind_eq_ok.mp h
    refine ⟨Run.mapError_eq_ok.mp hsalt, fun pos' => ?_, hhash⟩
    exact Run.mapError_eq_ok.mpr (Run.mapError_eq_ok.mp hverify)

section Steps

variable {p : Prover}

theorem subject_add (pos : Nat) (sig : MerkleSig.Signature) : (after (add pos sig p)).subject = p.subject := by
  unfold add
  split
  · rfl
  · rfl
  · simp only
    split <;> rfl

theorem subject_createProof : (after (createProof F falcon coins p)).subject = p.subject := by
  unfold createProof
  split
  · rfl
  split
  · rfl
  split
  · rfl
  · simp only
    split <;> rfl

/-- Soundness is about the slots, the cached proof and what the prover was made for. -/
theorem Sound.of_slots (h : Sound F falcon coins p) {p' : Prover} (hsubject : p'.subject = p.subject)
    (hlen : p'.sigs.length = p.sigs.length) (hsigned : Signed F falcon p')
    (hcached : ∀ s ∈ p'.cachedProof, Verifies F falcon coins p' s) : Sound F falcon coins p' := by
  simp only [subject, Prod.mk.injEq] at hsubject
  obtain ⟨-, -, hparts, htree, -, -⟩ := hsubject
  exact ⟨by rw [hlen, h.length_sigs, hparts], hsigned, by rw [hparts, htree]; exact h.tree,
    by rw [htree]; exact h.depth, hcached⟩

theorem Verifies.of_subject {s : StateProof} (h : Verifies F falcon coins p s) {p' : Prover}
    (hsubject : p'.subject = p.subject) : Verifies F falcon coins p' s := by
  simp only [subject, Prod.mk.injEq] at hsubject
  obtain ⟨hdata, hround, -, htree, hln, hstrength⟩ := hsubject
  unfold Verifies
  rw [hdata, hround, htree, hln, hstrength]
  exact h

/-- Signing a slot with an accepted signature. -/
theorem Signed.set (h : Signed F falcon p) {pos : Nat} {slot : ProverSigSlot}
    (hweight : slot.weight = (p.participants.getD pos default).weight)
    (haccepted : Accepted F falcon p.round p.data (p.participants.getD pos default) slot.commit.sig) :
    Signed F falcon { p with sigs := p.sigs.set pos slot } := by
  intro i hi hne
  rw [List.length_set] at hi
  simp only [List.getD_eq_getElem?_getD, List.getElem?_set] at hne ⊢
  by_cases hpos : pos = i
  · subst hpos
    simp only [if_true, if_pos hi, Option.getD_some, ← List.getD_eq_getElem?_getD]
    exact ⟨hweight, haccepted⟩
  · simp only [if_neg hpos, ← List.getD_eq_getElem?_getD] at hne ⊢
    exact h i hi hne

theorem Sound.add (h : Sound F falcon coins p) {pos : Nat} {sig : MerkleSig.Signature}
    (hvalid : p.isValid F falcon pos sig true = .ok ()) (hhash : sig.proof.proof.hashFactory.hashType = .sumhash) :
    Sound F falcon coins (after (Prover.add pos sig p)) := by
  have haccepted := accepted_of_isValid hvalid hhash
  have hset : Signed F falcon { p with sigs := p.sigs.set pos ⟨(p.participants[pos]?.getD default).weight,
      sig, (p.sigs[pos]?.getD default).commit.l⟩ } :=
    h.signed.set rfl haccepted
  unfold Prover.add
  split
  · exact h
  · exact h
  · simp only
    split
    · exact h.of_slots rfl (List.length_set ..) hset (fun s hs => (h.cached s hs).of_subject rfl)
    · exact h.of_slots rfl (List.length_set ..) hset (fun s hs => by cases hs)

/-- Filling the prefixes changes no weight and no signature. -/
theorem Signed.fill (h : Signed F falcon p) {sigs : List ProverSigSlot} (hfill : fillPrefixes p.sigs = .ok sigs) :
    sigs.length = p.sigs.length ∧ Signed F falcon { p with sigs := sigs } := by
  have hkeys := fillPrefixes_key hfill
  have hlen : sigs.length = p.sigs.length := by
    simpa using congrArg List.length hkeys
  have hkey : ∀ i < p.sigs.length, slotKey (sigs.getD i default) = slotKey (p.sigs.getD i default) := by
    intro i hi
    have hat := congrArg (fun l => l[i]?) hkeys
    simp only [List.getElem?_map, List.getElem?_eq_getElem hi, List.getElem?_eq_getElem (hlen ▸ hi : i < sigs.length),
      Option.map_some, Option.some.injEq] at hat
    rw [List.getD_eq_getElem _ _ hi, List.getD_eq_getElem _ _ (hlen ▸ hi : i < sigs.length)]
    exact hat
  refine ⟨hlen, fun i hi hne => ?_⟩
  have hi' : i < p.sigs.length := hlen ▸ hi
  obtain ⟨hw, hs⟩ := Prod.mk.inj (hkey i hi')
  simp only at hne ⊢
  rw [hw] at hne ⊢
  rw [hs]
  exact h i hi' hne

/-- A proof that a sound prover returns verifies, and the prover stays sound. -/
theorem Sound.createProof (h : Sound F falcon coins p) :
    Sound F falcon coins (after (Prover.createProof F falcon coins p)) ∧
      ∀ s p', Prover.createProof F falcon coins p = .ok s p' → Verifies F falcon coins p s := by
  unfold Prover.createProof
  split
  · rename_i cached hcached
    refine ⟨h, fun s p' hok => ?_⟩
    cases hok
    exact h.cached _ hcached
  rename_i hnone
  split
  · exact ⟨h, fun s p' hok => by cases hok⟩
  rename_i hready
  split
  · exact ⟨h, fun s p' hok => by cases hok⟩
  rename_i sigs hfill
  obtain ⟨hlen, hsigned⟩ := h.signed.fill hfill
  have hweight : p.signedWeight ≠ 0 := by
    simp only [ready, hnone, Option.isSome_none, Bool.false_or, decide_eq_false_iff_not, not_not] at hready
    omega
  have hfilled : Sound F falcon coins { p with sigs := sigs } :=
    h.of_slots rfl hlen hsigned (fun s hs => (h.cached s hs).of_subject rfl)
  simp only
  split
  · exact ⟨hfilled, fun s p' hok => by cases hok⟩
  · rename_i s hbuild
    have hverifies := verify_buildProof hfilled.length_sigs hsigned hfilled.tree hfilled.depth hweight hbuild
    refine ⟨hfilled.of_slots rfl rfl hsigned ?_, fun s' p' hok => ?_⟩
    · intro s' hs'
      cases hs'
      exact hverifies.of_subject rfl
    · cases hok
      exact hverifies.of_subject rfl

theorem Sound.step (h : Sound F falcon coins p) {p' : Prover} (hstep : Step F falcon coins p p') :
    Sound F falcon coins p' ∧ p'.subject = p.subject := by
  cases hstep with
  | add hvalid hhash => exact ⟨h.add hvalid hhash, subject_add _ _⟩
  | createProof => exact ⟨h.createProof.1, subject_createProof⟩

end Steps

theorem sound_makeProver {participants : List Participant} {partTree : Tree}
    (hbuild : buildVectorCommitmentTree F (participantsArray participants) ⟨.sumhash⟩ = .ok partTree)
    (hdepth : partTree.levels.length - 1 ≤ maxTreeDepth) (data : Bytes32)
    (round lnProvenWeight provenWeight strengthTarget : Nat) :
    Sound F falcon coins (makeProver data round lnProvenWeight provenWeight participants partTree strengthTarget) where
  length_sigs := List.length_replicate
  signed := by
    intro i hi hne
    refine absurd ?_ hne
    have hi' : i < participants.length := by simpa [makeProver] using hi
    simp only [makeProver, List.getD_eq_getElem?_getD, List.getElem?_replicate, if_pos hi', Option.getD_some]
  tree := vcTree_of_build hbuild
  depth := hdepth
  cached := fun s hs => by cases hs

theorem Sound.run {p₀ p : Prover} (h : Sound F falcon coins p₀) (hrun : Relation.ReflTransGen (Step F falcon coins) p₀ p) :
    Sound F falcon coins p ∧ p.subject = p₀.subject := by
  induction hrun with
  | refl => exact ⟨h, rfl⟩
  | tail _ hstep ih =>
    obtain ⟨hq, hsub⟩ := ih.1.step hstep
    exact ⟨hq, hsub.trans ih.2⟩

/-- **State proofs of the prover verify**: after any additions of accepted signatures and any proofs made before, a
proof that the prover returns is accepted by the verifier of the same participants, weight and strength. -/
theorem verify_of_createProof {participants : List Participant} {partTree : Tree}
    (hbuild : buildVectorCommitmentTree F (participantsArray participants) ⟨.sumhash⟩ = .ok partTree)
    (hdepth : partTree.levels.length - 1 ≤ maxTreeDepth) {data : Bytes32}
    {round lnProvenWeight provenWeight strengthTarget : Nat} {p p' : Prover} {s : StateProof}
    (hrun : Relation.ReflTransGen (Step F falcon coins)
      (makeProver data round lnProvenWeight provenWeight participants partTree strengthTarget) p)
    (h : createProof F falcon coins p = .ok s p') :
    (Verifier.withLnProvenWeight partTree.root lnProvenWeight strengthTarget).verify F falcon coins round data s =
      .ok () := by
  have hstart : Sound F falcon coins (makeProver data round lnProvenWeight provenWeight participants partTree strengthTarget) :=
    sound_makeProver hbuild hdepth data round lnProvenWeight provenWeight strengthTarget
  obtain ⟨hsound, hsubject⟩ := hstart.run hrun
  have hverifies : Verifies F falcon coins (makeProver data round lnProvenWeight provenWeight participants partTree
      strengthTarget) s := (hsound.createProof.2 s p' h).of_subject hsubject.symm
  exact hverifies

end Verify

/-! ## One participant -/

-- a Falcon key under which the polynomial 1 signs the zero message: the key is the point that the message hashes to
def sampleKeyChunks : List Nat :=
  [0x68d85822bc293746de191bf6ec4972e07cc1d39e69a22af7a0ad68770e910217,
    0x9659385ae1da656284136faa96468dc7c1b23296691e14f145683fb31f92166f,
    0x382159c3df8a7e0d06193640fa9e823d5094c29abf90f0b31e96ea59c068e1f9,
    0xa1345af9c201ddc0f4a0c67b44385f205d9c19598b906b7ee56aaa9bab524025,
    0xd36436a40e1ac65ad3f1a530b29679b8f029eb3a5081b95d4ebe0cee6a926ae0,
    0x6e231d5d8b1b6409b5b9f557480fe871a67f616a8aa7af30427b8e832487d4a7,
    0x2ae40f5f8065d67b006f80ba3c2b50684e863ce52bd8b4553893380414de45f5,
    0x50ce21a59053f768491cd63b55036f2ec28640d2ce60c21bd254501262c0fa05,
    0x1f0fd2bf916f841025ce704ca6d904570389fc0091b183c450c1d2eb4297a99b,
    0x16cf0a21cef0556ca6d623c0ea4899a1c954a5397d927d3057ebb58781946b5e,
    0x2b831ac5d9ca4317b0b5204ea796ae9749268a99d841b67890ddf3dd841c3b0d,
    0xdf605b00e00a265a0139a6f3bb612907ad0b3705b49e28285f1b346d80f9a120,
    0xee59ad1a63242ba518e696d3dc136abbcaef4297684106e57090825dad1a7159,
    0x99996f54bdd864da4f9477906615b0579deb4c00a3cadf048a6d05eda0325380,
    0x9180deb11cc8a6565249faeca74401fa452b50ef7794300b573226001d795dc1,
    0x4ac4fa0e36d886651a762fbd7237b1c6f6b09ebdc9654e2a006ab3b933259ba4,
    0x1d20d8a0c43e8eec58d5544832362dd592ccc509af441818e3cd5556090bc4f7,
    0x4b6846723f8a0bea10965e742a0dd7eaa5b2bf51105a671cbacda9e5d348b869,
    0xaec6312542062a26611663148120c696692b855c4ada12e86a1b603d5f84ae94,
    0x5b4c66c8fbc3c7ef4ba23a7b08d0eb21eedbb4f24e8b527adaa1a01cda0f72be,
    0x6487e7371d7ef542d89cc677442824d787404eb5a6f5a5eb0b9b6894358d4fb0,
    0x1c8ecfa0b9cb155da43500c4e9cfbc9c44c5fa2d05b37555920da89ba0a12919,
    0xc68e69a635cbc3b740373210fef615644cbdb972e88059855ad5558542291217,
    0x7afc915b4ee70d4278581361359f5ebc3074243f55cc78da79033255ad1adaf9,
    0x1ed8455cbdf7536f2e78145875ba5caa5db146483ed3256e36be6bd9907e2119,
    0x435304c9b282e69988a2d97d32d15ec3fdaf39360139b8390ac94b1c11686ced,
    0x693a9154a8b2e17877f8c542260e4e72a43b1ae391eb8b4e55eb1c26522a01a1,
    0xa1d3135535e6db2b0e18679616b1242523b7bcb8bcd5add7b7b419b90933df98,
    0x95bafda36226a06d80c2e3a8a1cfabc4de1bb30d3d55ac87d7f66ee64c6ae731,
    0x2a4a57a52438892aa38d92443688af2729988c8617b1e7eeb3ea5a6006ed1159,
    0xa623647c5f98455c869b28683d266829e86a8489b66c5db123030d56c0227a4e,
    0xaf0e5145ee931f6ac77da0d838bea17b24d4acbb9b54666362d3701c99673090,
    0xfd7003df1449d04cb7e89a3337728dc0b91cec7efebaf877ac45b15632f93b84,
    0x77717200d4e120e210dec1c9d3aeb508fa357916cca19c8ef7f69a41c9466112,
    0x5add68960c90e9d3cc0bc37f2e85f7815d902c5ae8863cd5203ba86784246a42,
    0x330a2308c758e402317ffaedec39604d57794b1abdb12e7781196d5444b68716,
    0x0367bd2799024a65d315841a9027ed454d361edf71d0d56206f9ab70459aba17,
    0x12d555770d7588e18e037561cc6cd9f5672fa688703e81a9f244442301c71a9f,
    0x0b6c54a9abeb290529bc407639bbe78414b0fe31b7cec69034c1b1a7d0a84aa6,
    0x1d7acbd00715e88b06b2170dabce01f5b44fc7b31cfa125ba6ad5cea1a20c50d,
    0x6ea8e65dd6cddfdb5b1c285ae288492d1858202e62e0b6f60a904c59b575154c,
    0x5a0c9c5906f596851fa6c856cd4c793560fa241cacabfad3c3859677573d14dd,
    0x4cb066f5b46f8e951c89d6384e137d640e90e8ea56aa5a10960162b506302db7,
    0xf795c1346dcde063c2f588b985b5da15575f52a6f8a4a4d835263e6446c8c00e,
    0x1284605d4764250007a01746b894d822183ad72d9878776b316db548d21e6ac6,
    0x23893e59d8a766e727b060e6a0ea0b26a24ed50404ee374e0c26d17bdaef144d,
    0x6e63c2c7d373b10a7802ef27aa0659a7bba101738a30d30d91ee3448a49211e6,
    0xb284dd7665585e3f3211bfd6a40274ade6c88a3a4a164459f1d4dbe4b29f94b4,
    0x0524d0fb51fed829c72163b6a4e3a38de625113ab071408c925c949528336be4,
    0x74b22ff81063624fb0d4512403829ca1bfa87f8f6d172c34a62dd03e4dfae275,
    0x4cc6f39cd50a246cc0534abac8d6a3222ca42d0571686b426692afe5be0a608e,
    0x09b903fb102644388fb869cdd245448adaf0267c48b0c304c8215d79ee5876de,
    0x8620842e74c974638f3e48d2f4cfeb14a7a4617bc129390fb6a967cccd655008,
    0xd8f8011ff0a18cb4b937430a16f05a0319695e3c02fc7728461a59dd4b7a0a21,
    0xeeaa405982d9ee8728556315a88d745a226583f45708b916c1b62cd9ae780213,
    0xfb15dba143ea6411c203130d054cb75bd174be85f10a4a579321e29adbb4e73c]

def sampleKey : MerkleSig.FalconVerifier := ⟨BitVec.ofNat 14344 (sampleKeyChunks.foldl (fun n c => n * 2 ^ 256 + c) 0x0a)⟩

/-- The polynomial 1, compressed: nine bits for each coefficient. -/
def sampleSigBytes : Bytes :=
  [0xba, 0x00, 0x01, 0x80, 0x40, 0x20, 0x10, 0x08, 0x04, 0x02, 0x01] ++
    (List.replicate 127 [0x00, 0x80, 0x40, 0x20, 0x10, 0x08, 0x04, 0x02, 0x01]).flatten

/-- Falcon, as it answers for the sample. -/
def sampleFalcon : MerkleSig.Falcon where
  verify key sig msg := .ok (decide (key = sampleKey ∧ sig = sampleSigBytes ∧ msg = List.replicate 32 0))
  saltVersion sig := .ok (sig.getD 1 0)
  convertCompressedToCt sig :=
    if sig = sampleSigBytes then .ok ([0xda, 0x00, 0x00, 0x10] ++ List.replicate 1534 0) else .error ""

-- the Sumhash digests of the key's leaf, of the participant's and of the slot's
def sampleKeyRoot : Nat := 0xa41db0828fb0c16651671094d594fd98f972390d0caabdbe21460c5a7aa7dfb90e33936c3972f0289a8573db5663542937dbc226916665176ecf3c87596bad3d
def samplePartRoot : Nat := 0x76422bc1e47f907e67512b16cab91efe0999d7a8ea1b8c953ee1a0a4d8aaf6258cf4121428fbc6030d62cf23e1eed2e4110ff1a6b3f8c1834efa299f27b0d492
def sampleSigRoot : Nat := 0x57351a32fe5560cac77b19fe4a236ce736771b59b69117af3c4a04dd8240de9c8fb6a5093750a75e062b8ed698598af4bbaf7f576afcc5d35d013c1d17cde106

/-- Sumhash, as it answers for the three leaves of the sample. -/
def sampleSumhash : HashFunctions where
  hash t bs :=
    if t = .sumhash then
      beBytes 64 (if bs.take 2 = MerkleSig.keysInMss then sampleKeyRoot
        else if bs.take 3 = stateProofPart then samplePartRoot
        else if bs.take 3 = stateProofSig then sampleSigRoot else 0)
    else List.replicate t.digestSize 0
  length_hash := by
    intro t bs
    split
    · rename_i ht
      rw [ht, Msgpack.length_beBytes]
      rfl
    · exact List.length_replicate

def samplePart : Participant := ⟨⟨BitVec.ofNat 512 sampleKeyRoot, 256⟩, 4⟩
def sampleSignature : MerkleSig.Signature := ⟨sampleSigBytes, 0, ⟨⟨[], ⟨.sumhash⟩, 0⟩⟩, sampleKey⟩
def samplePartTree : Tree := ⟨[[beBytes 64 samplePartRoot]], 1, ⟨.sumhash⟩, true⟩

/-- The first coin of the sample is 1. -/
def sampleCoins : CoinChoiceSeed → Nat → Nat := fun _ _ => 1

/-- Of the weight 4, more than 1 is to be proven. -/
def sampleProver : Prover := makeProver 0 256 0 1 [samplePart] samplePartTree 1

set_option maxRecDepth 20000 in
theorem build_samplePartTree :
    buildVectorCommitmentTree sampleSumhash (participantsArray [samplePart]) ⟨.sumhash⟩ = .ok samplePartTree := by
  obtain ⟨tree, hbuild, htree⟩ := @Run.ok_of_any _ _
    (buildVectorCommitmentTree sampleSumhash (participantsArray [samplePart]) ⟨.sumhash⟩)
    (fun tree => decide (tree = samplePartTree)) (by decide)
  rw [hbuild, of_decide_eq_true htree]

/-- The prover of the sample, given the signature, makes a proof. -/
theorem sample_verifies : ∃ s p', createProof sampleSumhash sampleFalcon sampleCoins
    (after (add 0 sampleSignature sampleProver)) =
      .ok s p' ∧
    (Verifier.withLnProvenWeight samplePartTree.root 0 1).verify sampleSumhash sampleFalcon sampleCoins 256 0 s = .ok () := by
  have hvalid : sampleProver.isValid sampleSumhash sampleFalcon 0 sampleSignature true = .ok () :=
    (@Run.ok_of_any _ _ _ (fun _ => true) (by decide +kernel)).elim (fun _ h => h.1)
  obtain ⟨s, p', hs, -⟩ := @Run.ok_of_okAnd _ _ _
    (createProof sampleSumhash sampleFalcon sampleCoins (after (add 0 sampleSignature sampleProver))) (fun _ => true)
    (by decide +kernel)
  exact ⟨s, p', hs, verify_of_createProof build_samplePartTree (by decide) (.single (.add hvalid rfl)) hs⟩

end Prover

end Crypto
end Algod
