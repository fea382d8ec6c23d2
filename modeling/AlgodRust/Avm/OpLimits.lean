import AlgodRust.Avm.Limits
/-!
# OpLimits — every opcode keeps the machine inside its limits

The libraries behind the opcodes return byte strings of known lengths, or ones that are not longer than their input.
What comes from the constants of a program or from its context is bounded by nothing: an opcode that fetches keeps the
limits as far as the values it has fetched do (`Handler.Keeps.run`).
-/
namespace Algod
namespace Avm

open Msgpack (Bytes beBytes)
open Run (Upholds Fine)

variable {limit : Nat} {spent : Option (Int × Nat)} (prims : Primitives) (instr : Instruction)

/-! ## Signatures and hashes -/

section Signatures

theorem popEd25519_tame : Tame limit spent (popEd25519 instr) (fun _ => True) := by
  apply (popBytes_tame _).bind
  intro pubkey _
  apply (popBytes_tame _).bind
  intro sig _
  apply (popBytes_tame _).bind
  intro data _
  apply Upholds.ite
  · intro _; exact other_tame _
  · intro _
    apply Upholds.ite
    · intro _; exact other_tame _
    · intro _; exact Upholds.pure trivial

theorem opEd25519verifyBare_tame : Tame limit spent (opEd25519verifyBare prims instr) (fun _ => True) := by
  apply (popEd25519_tame instr).bind
  rintro ⟨data, sig, pubkey⟩ _
  exact pushUint_tame _

theorem opFalconVerify_tame : Tame limit spent (opFalconVerify prims instr) (fun _ => True) := by
  apply (popBytes_tame _).bind
  intro pubkey _
  apply (popBytes_tame _).bind
  intro sig _
  apply (popBytes_tame _).bind
  intro data _
  apply Upholds.ite
  · intro _; exact other_tame _
  · intro _; exact pushUint_tame _

theorem ecdsaCurve_tame (version : Nat) : Tame limit spent (ecdsaCurve version instr) (fun _ => True) := by
  apply (getUint8_tame _).bind
  intro byte _
  apply (ofText_tame fun _ _ => trivial).bind
  intro curve _
  apply Upholds.ite
  · intro _; exact other_tame _
  · intro _; exact Upholds.pure trivial

theorem opEcdsaVerify_tame (version : Nat) : Tame limit none (opEcdsaVerify prims version instr) (fun _ => True) := by
  apply (ecdsaCurve_tame instr version).bind
  intro curve _
  apply (chargeCost_tame _ _).bind
  intro _ _
  apply (popBytes_tame _).bind
  intro pkY _
  apply (popBytes_tame _).bind
  intro pkX _
  apply (popBytes_tame _).bind
  intro sigS _
  apply (popBytes_tame _).bind
  intro sigR _
  apply (popBytes_tame _).bind
  intro data _
  apply Upholds.ite
  · intro _; exact other_tame _
  · intro _; exact pushUint_tame _

variable (hlimit : maxStringSize ≤ limit)

include hlimit

/-- Bytes of a length that is known and small. -/
theorem vector_size {n : Nat} (hn : n ≤ maxStringSize) (v : Vector UInt8 n) : (AvmValue.bytes v.toList).size ≤ limit := by
  rw [AvmValue.size_bytes, Vector.length_toList]
  exact Nat.le_trans hn hlimit

/-- Two coordinates of 32 bytes. -/
theorem pushKey_tame (x y : Vector UInt8 32) :
    Tame limit spent (pushAll [.bytes x.toList, .bytes y.toList]) (fun _ => True) := by
  apply pushAll_tame
  intro v hv
  rcases List.mem_pair.1 hv with rfl | rfl
  · exact vector_size hlimit (by decide) x
  · exact vector_size hlimit (by decide) y

theorem hashOp_tame {n : Nat} (hn : n ≤ maxStringSize) (hash : Bytes → Vector UInt8 n) :
    Tame limit spent (hashOp hash instr) (fun _ => True) := by
  apply (popBytes_tame _).bind
  intro data _
  exact push_tame (vector_size hlimit hn _)

theorem costlyHashOp_tame {n : Nat} (hn : n ≤ maxStringSize) (hash : Bytes → Vector UInt8 n) (base cost size : Nat) :
    Tame limit none (costlyHashOp hash base cost size instr) (fun _ => True) := by
  apply (popBytes_tame _).bind
  intro data _
  apply (chargeCost_tame _ _).bind
  intro _ _
  exact push_tame (vector_size hlimit hn _)

theorem opEcdsaPkDecompress_tame (version : Nat) :
    Tame limit none (opEcdsaPkDecompress prims version instr) (fun _ => True) := by
  apply (ecdsaCurve_tame instr version).bind
  intro curve _
  apply (chargeCost_tame _ _).bind
  intro _ _
  apply (popBytes_tame _).bind
  intro compressed _
  cases prims.ecdsaDecompress curve compressed with
  | none => exact other_tame _
  | some key => exact pushKey_tame hlimit key.1 key.2

theorem opEcdsaPkRecover_tame : Tame limit spent (opEcdsaPkRecover prims instr) (fun _ => True) := by
  apply (getUint8_tame _).bind
  intro byte _
  apply (ofText_tame fun _ _ => trivial).bind
  intro curve _
  apply Upholds.ite
  · intro _; exact other_tame _
  · intro _
    apply (popUint_tame _).bind
    intro recid _
    apply (popBytes_tame _).bind
    intro sigS _
    apply (popBytes_tame _).bind
    intro sigR _
    apply (popBytes_tame _).bind
    intro data _
    apply Upholds.ite
    · intro _; exact other_tame _
    · intro _
      apply Upholds.ite
      · intro _; exact other_tame _
      · intro _
        apply (ofText_tame fun _ _ => trivial).bind
        rintro ⟨x, y⟩ _
        exact pushKey_tame hlimit x y

theorem opVrfVerify_tame : Tame limit spent (opVrfVerify prims instr) (fun _ => True) := by
  apply (getUint8_tame _).bind
  intro byte _
  apply (ofText_tame fun _ _ => trivial).bind
  intro _ _
  apply (popBytes_tame _).bind
  intro pubkey _
  apply (popBytes_tame _).bind
  intro proof _
  apply (popBytes_tame _).bind
  intro data _
  apply Upholds.ite
  · intro _; exact other_tame _
  · intro _
    apply Upholds.ite
    · intro _; exact other_tame _
    · intro _
      cases prims.vrfVerify pubkey proof data with
      | none =>
        apply pushAll_tame
        intro v hv
        rcases List.mem_pair.1 hv with rfl | rfl
        · rw [AvmValue.size_bytes, List.length_replicate]; exact Nat.le_trans (by decide) hlimit
        · exact Nat.zero_le _
      | some output =>
        apply pushAll_tame
        intro v hv
        rcases List.mem_pair.1 hv with rfl | rfl
        · exact vector_size hlimit (by decide) output
        · exact Nat.zero_le _

end Signatures

/-! ## Encodings -/

section Encodings

theorem opBase64Decode_tame : Tame limit none (opBase64Decode prims instr) (fun _ => True) := by
  apply (getUint8_tame _).bind
  intro byte _
  apply (ofText_tame fun _ _ => trivial).bind
  intro encoding _
  apply (popBytes_tame _).bind
  intro raw hraw
  apply (chargeCost_tame _ _).bind
  intro _ _
  refine (ofText_tame (Q := fun decoded : Bytes => decoded.length ≤ limit) ?_).bind fun _ h => push_tame h
  intro decoded h
  have hshort := prims.base64Decode_length _ _ _ _ (Run.mapError_eq_ok.1 h)
  exact Nat.le_trans (Nat.le_trans hshort (List.length_filter_le _ _)) hraw

theorem jsonValue_size {type : JsonRefType} {raw : Bytes} {v : AvmValue} (h : jsonValue prims type raw = .ok v) :
    v.size ≤ raw.length := by
  cases type with
  | string =>
    obtain ⟨out, hout, rfl⟩ := Run.map_eq_ok.1 h
    exact Json.decodeJsonStringLenient_length (Run.mapError_eq_ok.1 hout)
  | uint64 =>
    obtain ⟨n, -, rfl⟩ := Run.map_eq_ok.1 h
    exact Nat.zero_le _
  | object =>
    obtain ⟨_, -, rfl⟩ := Run.map_eq_ok.1 h
    exact Nat.le_refl _

theorem jsonMember_size {type : JsonRefType} {text key : Bytes} {v : AvmValue}
    (h : jsonMember prims type text key = .ok v) : v.size ≤ text.length := by
  obtain ⟨parsed, hparsed, h⟩ := Run.bind_eq_ok.1 h
  cases hfind : parsed.find? (fun e => e.1 == key) with
  | none => simp only [hfind] at h; cases h
  | some entry =>
    simp only [hfind] at h
    exact Nat.le_trans (jsonValue_size prims h)
      (Json.parseJsonObject_length hparsed entry (List.mem_of_find?_eq_some hfind))

theorem opJsonRef_tame : Tame limit none (opJsonRef prims instr) (fun _ => True) := by
  apply (getUint8_tame _).bind
  intro byte _
  apply (ofText_tame fun _ _ => trivial).bind
  intro type _
  apply (popBytes_tame _).bind
  intro key _
  apply Upholds.ite
  · intro _; exact other_tame _
  · intro _
    apply (popBytes_tame _).bind
    intro text htext
    apply (chargeCost_tame _ _).bind
    intro _ _
    apply (ofText_tame fun _ h => Nat.le_trans (jsonMember_size prims h) htext).bind
    intro value hvalue
    exact push_tame hvalue

end Encodings

/-! ## Curves and hashes over field elements -/

section Curves

theorem length_flatMap_beBytes (size : Nat) : ∀ ns : List Nat, (ns.flatMap (beBytes size)).length = ns.length * size
  | [] => by simp
  | n :: ns => by
    rw [List.flatMap_cons, List.length_append, Msgpack.length_beBytes, length_flatMap_beBytes size ns, List.length_cons,
      Nat.succ_mul, Nat.add_comm]

/-- The encoding of a point has the size of a point. -/
theorem length_pointToBytes (g : EcGroup) (point : EcPoint g) : (pointToBytes g point).length = g.pointSize := by
  cases point with
  | none => exact List.length_replicate
  | some coordinates =>
    unfold pointToBytes
    rw [length_flatMap_beBytes, Vector.length_toList]
    rfl

theorem pointSize_le (g : EcGroup) : g.pointSize ≤ maxStringSize := by cases g <;> decide

/-- Results of which every one is a point. -/
def PointOf (g : EcGroup) (x : Except String Bytes) : Prop := ∀ bs, x = .ok bs → bs.length = g.pointSize

theorem ecAdd_point (g : EcGroup) (a b : Bytes) : PointOf g (ecAdd prims g a b) := by
  intro bs h
  obtain ⟨_, -, h⟩ := Run.bind_eq_ok.1 h
  obtain ⟨_, -, h⟩ := Run.bind_eq_ok.1 h
  cases h
  exact length_pointToBytes g _

theorem ecScalarMul_point (g : EcGroup) (a k : Bytes) : PointOf g (ecScalarMul prims g a k) := by
  intro bs h
  unfold ecScalarMul at h
  split at h
  · cases h
  · obtain ⟨_, -, h⟩ := Run.bind_eq_ok.1 h
    cases h
    exact length_pointToBytes g _

theorem ecMultiScalarMul_point (g : EcGroup) (points scalars : Bytes) :
    PointOf g (ecMultiScalarMul prims g points scalars) := by
  intro bs h
  obtain ⟨_, -, h⟩ := Run.bind_eq_ok.1 h
  split at h
  · cases h
  · cases h
    exact length_pointToBytes g _

theorem ecMapTo_point (g : EcGroup) (bytes : Bytes) : PointOf g (ecMapTo prims g bytes) := by
  intro bs h
  unfold ecMapTo at h
  split at h
  · obtain ⟨_, -, h⟩ := Run.bind_eq_ok.1 h
    obtain ⟨_, -, h⟩ := Run.bind_eq_ok.1 h
    cases h
    exact length_pointToBytes g _
  · split at h
    · cases h
    · obtain ⟨_, -, h⟩ := Run.bind_eq_ok.1 h
      obtain ⟨_, -, h⟩ := Run.bind_eq_ok.1 h
      obtain ⟨_, -, h⟩ := Run.bind_eq_ok.1 h
      cases h
      exact length_pointToBytes g _

theorem getEcGroup_tame : Tame limit spent (getEcGroup instr) (fun _ => True) := by
  apply (getUint8_tame _).bind
  intro byte _
  cases EcGroup.fromU8 byte with
  | ok g => exact Upholds.pure trivial
  | error text => exact other_tame _

theorem topLen_tame : Tame limit spent topLen (fun _ => True) := by
  apply Upholds.get_bind
  intro d hd
  cases d.stack.getLast? with
  | none => exact ⟨hd, trivial⟩
  | some v => cases v <;> exact ⟨hd, trivial⟩

theorem opEcPairingCheck_tame : Tame limit none (opEcPairingCheck prims instr) (fun _ => True) := by
  apply (getEcGroup_tame instr).bind
  intro g _
  apply topLen_tame.bind
  intro len _
  apply (chargeCost_tame _ _).bind
  intro _ _
  apply (popBytes_tame _).bind
  intro last _
  apply (popBytes_tame _).bind
  intro prev _
  apply (ofText_tame fun _ _ => trivial).bind
  intro ok _
  exact pushUint_tame _

theorem opEcSubgroupCheck_tame : Tame limit none (opEcSubgroupCheck prims instr) (fun _ => True) := by
  apply (getEcGroup_tame instr).bind
  intro g _
  apply (chargeCost_tame _ _).bind
  intro _ _
  apply (popBytes_tame _).bind
  intro bs _
  apply (ofText_tame fun _ _ => trivial).bind
  intro point _
  exact pushUint_tame _

theorem mimc_length {p rounds : Nat} {data bs : Bytes} (h : mimc prims p rounds data = .ok bs) : bs.length = 32 := by
  unfold mimc at h
  obtain ⟨elements, -, h⟩ := Run.bind_eq_ok.1 h
  rw [← Except.ok.inj h, Msgpack.length_beBytes]

theorem poseidon2_length {p : Nat} {seed : String} {data bs : Bytes} (h : poseidon2 prims p seed data = .ok bs) :
    bs.length = 32 := by
  unfold poseidon2 at h
  obtain ⟨elements, -, h⟩ := Run.bind_eq_ok.1 h
  rw [← Except.ok.inj h, Msgpack.length_beBytes]

variable (hlimit : maxStringSize ≤ limit)

include hlimit

/-- A point that has been computed is pushed. -/
theorem pushPoint_tame {g : EcGroup} {x : Except String Bytes} (hx : PointOf g x) :
    Tame limit none (do let result ← ofText x; push (.bytes result)) (fun _ => True) := by
  apply (ofText_tame hx).bind
  intro result hresult
  apply push_tame
  rw [AvmValue.size_bytes, hresult]
  exact Nat.le_trans (pointSize_le g) hlimit

theorem opEcAdd_tame : Tame limit none (opEcAdd prims instr) (fun _ => True) := by
  apply (getEcGroup_tame instr).bind
  intro g _
  apply (chargeCost_tame _ _).bind
  intro _ _
  apply (popBytes_tame _).bind
  intro b _
  apply (popBytes_tame _).bind
  intro a _
  exact pushPoint_tame hlimit (ecAdd_point prims g a b)

theorem opEcScalarMul_tame : Tame limit none (opEcScalarMul prims instr) (fun _ => True) := by
  apply (getEcGroup_tame instr).bind
  intro g _
  apply (chargeCost_tame _ _).bind
  intro _ _
  apply (popBytes_tame _).bind
  intro k _
  apply (popBytes_tame _).bind
  intro a _
  exact pushPoint_tame hlimit (ecScalarMul_point prims g a k)

theorem opEcMultiScalarMul_tame : Tame limit none (opEcMultiScalarMul prims instr) (fun _ => True) := by
  apply (getEcGroup_tame instr).bind
  intro g _
  apply topLen_tame.bind
  intro len _
  apply (chargeCost_tame _ _).bind
  intro _ _
  apply (popBytes_tame _).bind
  intro scalars _
  apply (popBytes_tame _).bind
  intro points _
  exact pushPoint_tame hlimit (ecMultiScalarMul_point prims g points scalars)

theorem opEcMapTo_tame : Tame limit none (opEcMapTo prims instr) (fun _ => True) := by
  apply (getEcGroup_tame instr).bind
  intro g _
  apply (chargeCost_tame _ _).bind
  intro _ _
  apply (popBytes_tame _).bind
  intro bs _
  exact pushPoint_tame hlimit (ecMapTo_point prims g bs)

/-- A hash over field elements has 32 bytes. -/
theorem fieldHashOp_tame {base chunkCost : Nat} {invalid : Nat → String} {hashes : List (Bytes → Except String Bytes)}
    (hhashes : ∀ hash ∈ hashes, ∀ data bs, hash data = .ok bs → bs.length = 32) :
    Tame limit none (fieldHashOp base chunkCost invalid hashes instr) (fun _ => True) := by
  apply (getUint8_tame _).bind
  intro config _
  apply (popBytes_tame _).bind
  intro data _
  apply Upholds.ite
  · intro _; exact other_tame _
  · intro _
    apply Upholds.ite
    · intro _; exact other_tame _
    · intro _
      apply (chargeCost_tame _ _).bind
      intro _ _
      cases hhash : hashes[config.toNat]? with
      | none => exact other_tame _
      | some hash =>
        apply (ofText_tame (hhashes hash (List.mem_of_getElem? hhash) data)).bind
        intro result hresult
        apply push_tame
        rw [AvmValue.size_bytes, hresult]
        exact Nat.le_trans (by decide) hlimit

theorem opMimc_tame : Tame limit none (opMimc prims instr) (fun _ => True) := by
  apply fieldHashOp_tame instr hlimit
  intro hash hmem data bs h
  rcases List.mem_pair.1 hmem with hash_eq | hash_eq
  · rw [hash_eq] at h; exact mimc_length prims h
  · rw [hash_eq] at h; exact mimc_length prims h

theorem opPoseidon2_tame : Tame limit none (opPoseidon2 prims instr) (fun _ => True) := by
  apply fieldHashOp_tame instr hlimit
  intro hash hmem data bs h
  rcases List.mem_pair.1 hmem with hash_eq | hash_eq
  · rw [hash_eq] at h; exact poseidon2_length prims h
  · rw [hash_eq] at h; exact poseidon2_length prims h

end Curves

/-! ## The opcodes that compute -/

section Computing

variable (hlimit : maxStringSize ≤ limit)

include hlimit

/-- **An opcode of a known cost keeps the limits and charges nothing more.** -/
theorem plainOps_tame : ∀ e ∈ plainOps prims instr, Tame limit spent e.2 (fun _ => True) := by
  simp only [plainOps, List.forall_mem_cons]
  refine ⟨hashOp_tame instr hlimit (by decide) _, hashOp_tame instr hlimit (by decide) _,
    hashOp_tame instr hlimit (by decide) _, opEcdsaPkRecover_tame prims instr hlimit, opEd25519verifyBare_tame prims instr,
    opFalconVerify_tame prims instr, hashOp_tame instr hlimit (by decide) _, opVrfVerify_tame prims instr hlimit,
    opIntcblock_tame instr, opBytecblock_tame instr, ?_⟩
  refine ⟨uintOp2_tame instr _, uintOp2_tame instr _, uintOp2_tame instr _, uintOp2_tame instr _, uintOp2_tame instr _,
    uintOp2_tame instr _, uintOp2_tame instr _, uintOp2_tame instr _, compareOp_tame instr _ _, compareOp_tame instr _ _,
    uintOp1_tame instr _, uintOp2_tame instr _, uintOp2_tame instr _, uintOp2_tame instr _, opDivmodw_tame instr,
    uintOp2_tame instr _, uintOp2_tame instr _, uintOp1_tame instr _, opBitlen_tame instr, uintOp2_tame instr _,
    uintOp2_tame instr _, opDivw_tame instr, ?_⟩
  refine ⟨uintOp2_tame instr _, uintOp2_tame instr _, uintOp2_tame instr _, uintOp2_tame instr _, uintOp2_tame instr _,
    uintOp1_tame instr _, opGetbit_tame instr, opSetbit_tame instr, opGetbyte_tame instr, opSetbyte_tame instr, ?_⟩
  refine ⟨opLoad_tame instr, opStore_tame instr, opLoads_tame instr, opStores_tame instr, opBury_tame instr,
    opPopn_tame instr, opDupn_tame instr, opPop_tame instr, opDup_tame instr, opDup2_tame instr, opDig_tame instr,
    opSwap_tame, opSelect_tame instr, opCover_tame instr, opUncover_tame instr, ?_⟩
  refine ⟨opLen_tame instr, opItob_tame instr hlimit, opBtoi_tame instr, opConcat_tame instr hlimit,
    opSubstring_tame instr, opSubstring3_tame instr, opExtract_tame instr, opExtract3_tame instr,
    extractUint_tame instr _, extractUint_tame instr _, extractUint_tame instr _, opReplace2_tame instr,
    opReplace3_tame instr, opBzero_tame instr hlimit, ?_⟩
  exact ⟨opBsqrt_tame instr hlimit, opBadd_tame instr hlimit, opBsub_tame instr hlimit, opBdiv_tame instr hlimit,
    opBmul_tame instr hlimit, bigintTest_tame instr _, bigintTest_tame instr _, bigintTest_tame instr _,
    bigintTest_tame instr _, bigintTest_tame instr _, bigintTest_tame instr _, opBmod_tame instr hlimit,
    bitwiseOp2_tame instr _, bitwiseOp2_tame instr _, bitwiseOp2_tame instr _, opBbitwiseNot_tame instr,
    fun _ h => by cases h⟩

theorem costlyOps_tame (version : Nat) : ∀ e ∈ costlyOps prims version instr, Tame limit none e.2 (fun _ => True) := by
  simp only [costlyOps, List.forall_mem_cons]
  exact ⟨opEcdsaVerify_tame prims instr version, opEcdsaPkDecompress_tame prims instr hlimit version,
    opBase64Decode_tame prims instr, opJsonRef_tame prims instr, costlyHashOp_tame instr hlimit (by decide) _ _ _ _,
    costlyHashOp_tame instr hlimit (by decide) _ _ _ _, opEcAdd_tame prims instr hlimit,
    opEcScalarMul_tame prims instr hlimit, opEcPairingCheck_tame prims instr, opEcMultiScalarMul_tame prims instr hlimit,
    opEcSubgroupCheck_tame prims instr, opEcMapTo_tame prims instr hlimit, opMimc_tame prims instr hlimit,
    opPoseidon2_tame prims instr hlimit, fun _ h => by cases h⟩

end Computing

/-! ## The opcodes that fetch -/

section Fetching

variable {σ : Type} (ctx : Context σ) (mode : ExecMode) (version : Nat) {α : Type}

/-- A computation beside a context that keeps the machine inside its limits. -/
abbrev Fetches (limit : Nat) (spent : Option (Int × Nat)) {α : Type} (x : Op σ α) : Prop :=
  Upholds (fun s : Data × σ => Inside limit spent s.1) (Harmless spent) x (fun _ => True)

theorem Fetches.next {α β : Type} {x : Op σ α} {f : α → Op σ β} (hx : Fetches limit spent x)
    (hf : ∀ a, Fetches limit spent (f a)) : Fetches limit spent (x >>= f) :=
  hx.bind fun a _ => hf a

theorem Fetches.give (a : α) : Fetches limit spent (pure a : Op σ α) := Upholds.pure trivial

theorem onStack_fetches {Q : α → Prop} {x : OnData α} (hx : Tame limit spent x Q) :
    Fetches limit spent (onStack x : Op σ α) :=
  (hx.mono fun _ _ => trivial).zoom (fun _ hs => hs) (fun _ _ ht _ => ht)

theorem asks_fetches (f : σ → Except String α) : Fetches limit spent (asks f) := by
  intro s hs
  cases hf : f s.2 with
  | ok a =>
    have hask : asks f s = .ok a s := Run.state_bind_eq_ok.2 ⟨s, s, rfl, by rw [hf]; rfl⟩
    rw [hask]
    exact ⟨hs, trivial⟩
  | error text =>
    have hask : asks f s = .error (.other text) s := Run.state_bind_eq_error.2 (.inr ⟨s, s, rfl, by rw [hf]; rfl⟩)
    rw [hask]
    exact Harmless.of_eq rfl

theorem acts_fetches (x : EStateM String σ α) : Fetches limit spent (acts x) := by
  intro s hs
  unfold acts
  cases x s.2 with
  | ok a t => exact ⟨hs, trivial⟩
  | error text t => exact Harmless.of_eq rfl

/-! ### Arguments -/

theorem pop_fetches : Fetches limit spent (onStack (pop instr.name) : Op σ AvmValue) := onStack_fetches (pop_tame _)

theorem popUint_fetches : Fetches limit spent (onStack (popUint instr.name) : Op σ Nat) :=
  onStack_fetches (popUint_tame _)

theorem popBytes_fetches : Fetches limit spent (onStack (popBytes instr.name) : Op σ Bytes) :=
  onStack_fetches (popBytes_tame _)

theorem getUint8_fetches : Fetches limit spent (onStack (immediate (getUint8 instr)) : Op σ UInt8) :=
  onStack_fetches (getUint8_tame _)

theorem getUint8Pair_fetches : Fetches limit spent (onStack (immediate (getUint8Pair instr)) : Op σ (UInt8 × UInt8)) :=
  onStack_fetches (getUint8Pair_tame _)

theorem ofText_fetches (x : Except String α) : Fetches limit spent (onStack (ofText x) : Op σ α) :=
  onStack_fetches (ofText_tame fun _ _ => trivial)

theorem versionedField_tame (enumeration : String) (fields : List (String × Nat)) :
    Tame limit spent (versionedField version instr enumeration fields) (fun _ => True) := by
  apply (getUint8_tame _).bind
  intro byte _
  apply (ofText_tame fun _ _ => trivial).bind
  intro field _
  apply Upholds.ite
  · intro _; exact other_tame _
  · intro _; exact Upholds.pure trivial

theorem settableField_tame : Tame limit spent (settableField version instr) (fun _ => True) := by
  apply (getUint8_tame _).bind
  intro byte _
  cases appParamsFields[byte.toNat]? with
  | none => exact other_tame _
  | some field =>
    apply Upholds.ite
    · intro _; exact Upholds.pure trivial
    · intro _; exact other_tame _

/-! ### Constants -/

theorem getIntConstant_tame (idx : Nat) : Tame limit spent (getIntConstant idx) (fun _ => True) := by
  apply Upholds.get_bind
  intro d hd
  cases d.intConstants[idx]? with
  | none => exact Harmless.of_eq rfl
  | some n => exact ⟨hd, trivial⟩

theorem getByteConstant_tame (idx : Nat) : Tame limit spent (getByteConstant idx) (fun _ => True) := by
  apply Upholds.get_bind
  intro d hd
  cases d.byteConstants[idx]? with
  | none => exact Harmless.of_eq rfl
  | some bs => exact ⟨hd, trivial⟩

theorem opIntc_tame : Tame limit spent (opIntc instr) (fun _ => True) :=
  (getUint8_tame _).bind fun _ _ => getIntConstant_tame _

theorem opBytec_tame : Tame limit spent (opBytec instr) (fun _ => True) :=
  (getUint8_tame _).bind fun _ _ => getByteConstant_tame _

theorem opPushint_tame : Tame limit spent (opPushint instr) (fun _ => True) := by
  unfold opPushint
  split
  · exact Upholds.pure trivial
  · exact Upholds.throw (Harmless.of_eq rfl)

theorem opPushbytes_tame : Tame limit spent (opPushbytes instr) (fun _ => True) := by
  unfold opPushbytes
  split
  · exact Upholds.pure trivial
  · exact Upholds.throw (Harmless.of_eq rfl)

theorem opPushints_tame : Tame limit spent (opPushints instr) (fun _ => True) := by
  unfold opPushints
  split
  · exact Upholds.pure trivial
  · exact Upholds.throw (Harmless.of_eq rfl)

theorem opPushbytess_tame : Tame limit spent (opPushbytess instr) (fun _ => True) := by
  unfold opPushbytess
  split
  · exact Upholds.pure trivial
  · exact Upholds.throw (Harmless.of_eq rfl)

theorem opEd25519verifyProgram_fetches : Fetches limit spent (opEd25519verifyProgram prims ctx instr) := by
  refine (asks_fetches _).next fun hash => onStack_fetches (Q := fun _ => True) ?_
  apply (popEd25519_tame instr).bind
  rintro ⟨data, sig, pubkey⟩ _
  exact Upholds.pure trivial

/-! ### Reading the transactions -/

theorem readTxnField_fetches (group : Option Nat) (byte : UInt8) (index : Option Nat) :
    Fetches limit spent (readTxnField ctx group byte index) :=
  (asks_fetches _).next fun _ => .give _

theorem readArg_fetches (idx : Nat) : Fetches limit spent (readArg ctx idx) := (asks_fetches _).next fun _ => .give _

theorem opArg_fetches : Fetches limit spent (opArg ctx instr) :=
  (getUint8_fetches instr).next fun _ => readArg_fetches ctx _

theorem opArgs_fetches : Fetches limit spent (opArgs ctx instr) :=
  (popUint_fetches instr).next fun _ => readArg_fetches ctx _

theorem opTxn_fetches : Fetches limit spent (opTxn ctx version instr) :=
  (getUint8_fetches instr).next fun _ => (ofText_fetches _).next fun _ => readTxnField_fetches ctx _ _ _

theorem opGtxn_fetches : Fetches limit spent (opGtxn ctx version instr) :=
  (getUint8Pair_fetches instr).next fun _ => (ofText_fetches _).next fun _ => readTxnField_fetches ctx _ _ _

theorem opTxna_fetches : Fetches limit spent (opTxna ctx version instr) :=
  (getUint8Pair_fetches instr).next fun _ => (ofText_fetches _).next fun _ => readTxnField_fetches ctx _ _ _

theorem opGtxna_fetches : Fetches limit spent (opGtxna ctx version instr) :=
  (onStack_fetches (getUint8Triple_tame instr)).next fun _ => (ofText_fetches _).next fun _ =>
    readTxnField_fetches ctx _ _ _

theorem opGtxns_fetches : Fetches limit spent (opGtxns ctx version instr) :=
  (getUint8_fetches instr).next fun _ => (ofText_fetches _).next fun _ => (popUint_fetches instr).next fun _ =>
    readTxnField_fetches ctx _ _ _

theorem opGtxnsa_fetches : Fetches limit spent (opGtxnsa ctx version instr) :=
  (getUint8Pair_fetches instr).next fun _ => (ofText_fetches _).next fun _ => (popUint_fetches instr).next fun _ =>
    readTxnField_fetches ctx _ _ _

theorem opTxnas_fetches : Fetches limit spent (opTxnas ctx version instr) :=
  (getUint8_fetches instr).next fun _ => (ofText_fetches _).next fun _ => (popUint_fetches instr).next fun _ =>
    readTxnField_fetches ctx _ _ _

theorem opGtxnas_fetches : Fetches limit spent (opGtxnas ctx version instr) :=
  (getUint8Pair_fetches instr).next fun _ => (ofText_fetches _).next fun _ => (popUint_fetches instr).next fun _ =>
    readTxnField_fetches ctx _ _ _

theorem opGtxnsas_fetches : Fetches limit spent (opGtxnsas ctx version instr) :=
  (getUint8_fetches instr).next fun _ => (ofText_fetches _).next fun _ => (popUint_fetches instr).next fun _ =>
    (popUint_fetches instr).next fun _ => readTxnField_fetches ctx _ _ _

theorem opBlock_fetches : Fetches limit spent (opBlock ctx version instr) :=
  (onStack_fetches (versionedField_tame instr version _ _)).next fun _ => (popUint_fetches instr).next fun _ =>
    (asks_fetches _).next fun _ => .give _

theorem opGlobal_fetches : Fetches limit spent (opGlobal ctx version instr mode) := by
  apply (onStack_fetches (versionedField_tame instr version _ _)).next
  intro byte
  apply Upholds.ite
  · intro _; exact onStack_fetches (other_tame (Q := fun _ => True) _)
  · intro _
    apply Upholds.ite
    · intro _; exact Upholds.get_bind fun s hs => ⟨hs, trivial⟩
    · intro _
      apply Upholds.ite
      · intro _; exact (asks_fetches _).next fun _ => .give _
      · intro _
        apply Upholds.ite
        · intro _; exact (asks_fetches _).next fun _ => .give _
        · intro _; exact (asks_fetches _).next fun _ => .give _

/-- **The opcodes that read leave the machine inside its limits**; what they read is not in it yet. -/
theorem readOps_fetches : ∀ e ∈ readOps prims ctx mode version instr, Fetches limit spent e.2 := by
  simp only [readOps, List.forall_mem_cons]
  have hint : ∀ idx, Fetches limit spent (onStack (getIntConstant idx) : Op σ _) :=
    fun idx => onStack_fetches (getIntConstant_tame idx)
  have hbyte : ∀ idx, Fetches limit spent (onStack (getByteConstant idx) : Op σ _) :=
    fun idx => onStack_fetches (getByteConstant_tame idx)
  refine ⟨opEd25519verifyProgram_fetches prims instr ctx, onStack_fetches (opIntc_tame instr), hint _, hint _, hint _,
    hint _, onStack_fetches (opBytec_tame instr), hbyte _, hbyte _, hbyte _, hbyte _,
    onStack_fetches (opPushbytes_tame instr), onStack_fetches (opPushint_tame instr),
    onStack_fetches (opPushbytess_tame instr), onStack_fetches (opPushints_tame instr), ?_⟩
  exact ⟨opArg_fetches instr ctx, readArg_fetches ctx _, readArg_fetches ctx _, readArg_fetches ctx _,
    readArg_fetches ctx _, opTxn_fetches instr ctx version, opGlobal_fetches instr ctx mode version,
    opGtxn_fetches instr ctx version, opTxna_fetches instr ctx version, opGtxna_fetches instr ctx version,
    opGtxns_fetches instr ctx version, opGtxnsa_fetches instr ctx version, opTxnas_fetches instr ctx version,
    opGtxnas_fetches instr ctx version, opGtxnsas_fetches instr ctx version, opArgs_fetches instr ctx,
    opBlock_fetches instr ctx version, fun _ h => by cases h⟩

/-! ### Accounts and applications -/

theorem accountNumber_fetches (f : σ → Bytes → Except String Nat) : Fetches limit spent (accountNumber ctx instr f) :=
  (pop_fetches instr).next fun _ => (asks_fetches _).next fun _ => .give _

theorem opAppParamsSet_fetches : Fetches limit spent (opAppParamsSet ctx version instr) := by
  apply (onStack_fetches (settableField_tame instr version)).next
  intro field
  apply (popUint_fetches instr).next
  intro arg
  apply (asks_fetches _).next
  intro app
  by_cases hreads : field = "AppForeignBoxReads"
  · simp only [hreads, if_true]; exact (acts_fetches _).next fun _ => .give _
  · simp only [hreads, if_false]
    by_cases haccess : field = "AppFamilyBoxAccess"
    · simp only [haccess, if_true]; exact (acts_fetches _).next fun _ => .give _
    · simp only [haccess, if_false]
      exact (onStack_fetches (other_tame (Q := fun _ => True) _)).next fun _ => .give _

theorem opAppOptedIn_fetches : Fetches limit spent (opAppOptedIn ctx version instr) :=
  (popUint_fetches instr).next fun _ => (pop_fetches instr).next fun _ => (asks_fetches _).next fun _ => .give _

theorem opAppLocalGet_fetches : Fetches limit spent (opAppLocalGet ctx version instr) :=
  (popBytes_fetches instr).next fun _ => (pop_fetches instr).next fun _ => (asks_fetches _).next fun _ => .give _

theorem opAppLocalGetEx_fetches : Fetches limit spent (opAppLocalGetEx ctx version instr) :=
  (popBytes_fetches instr).next fun _ => (popUint_fetches instr).next fun _ => (pop_fetches instr).next fun _ =>
    (asks_fetches _).next fun _ => .give _

theorem opAppGlobalGet_fetches : Fetches limit spent (opAppGlobalGet ctx instr) :=
  (popBytes_fetches instr).next fun _ => (asks_fetches _).next fun _ => .give _

theorem opAppGlobalGetEx_fetches : Fetches limit spent (opAppGlobalGetEx ctx instr) :=
  (popBytes_fetches instr).next fun _ => (popUint_fetches instr).next fun _ => (asks_fetches _).next fun _ =>
    .give _

theorem opAppLocalPut_fetches : Fetches limit spent (opAppLocalPut ctx version instr) :=
  (pop_fetches instr).next fun _ => (popBytes_fetches instr).next fun _ => (pop_fetches instr).next fun _ =>
    (asks_fetches _).next fun _ => (acts_fetches _).next fun _ => .give _

theorem opAppGlobalPut_fetches : Fetches limit spent (opAppGlobalPut ctx instr) :=
  (pop_fetches instr).next fun _ => (popBytes_fetches instr).next fun _ => (asks_fetches _).next fun _ =>
    (acts_fetches _).next fun _ => .give _

theorem opAppLocalDel_fetches : Fetches limit spent (opAppLocalDel ctx version instr) :=
  (popBytes_fetches instr).next fun _ => (pop_fetches instr).next fun _ => (asks_fetches _).next fun _ =>
    (acts_fetches _).next fun _ => .give _

theorem opAppGlobalDel_fetches : Fetches limit spent (opAppGlobalDel ctx instr) :=
  (popBytes_fetches instr).next fun _ => (asks_fetches _).next fun _ => (acts_fetches _).next fun _ => .give _

theorem opAssetHoldingGet_fetches : Fetches limit spent (opAssetHoldingGet ctx version instr) :=
  (getUint8_fetches instr).next fun _ => (ofText_fetches _).next fun _ => (popUint_fetches instr).next fun _ =>
    (pop_fetches instr).next fun _ => (asks_fetches _).next fun _ => .give _

theorem opAssetParamsGet_fetches : Fetches limit spent (opAssetParamsGet ctx version instr) :=
  (onStack_fetches (versionedField_tame instr version _ _)).next fun _ => (popUint_fetches instr).next fun _ =>
    (asks_fetches _).next fun _ => .give _

theorem opAppParamsGet_fetches : Fetches limit spent (opAppParamsGet ctx version instr) :=
  (onStack_fetches (versionedField_tame instr version _ _)).next fun _ => (popUint_fetches instr).next fun _ =>
    (asks_fetches _).next fun _ => .give _

theorem opAcctParamsGet_fetches : Fetches limit spent (opAcctParamsGet ctx version instr) :=
  (onStack_fetches (versionedField_tame instr version _ _)).next fun _ => (pop_fetches instr).next fun _ =>
    (asks_fetches _).next fun _ => .give _

theorem opVoterParamsGet_fetches : Fetches limit spent (opVoterParamsGet ctx instr) :=
  (getUint8_fetches instr).next fun _ => (pop_fetches instr).next fun _ => (asks_fetches _).next fun _ => .give _

theorem opLog_fetches : Fetches limit spent (opLog ctx instr) :=
  (popBytes_fetches instr).next fun _ => (acts_fetches _).next fun _ => .give _

theorem opGload_fetches : Fetches limit spent (opGload ctx instr) :=
  (getUint8Pair_fetches instr).next fun _ => (asks_fetches _).next fun _ => .give _

theorem opGloads_fetches : Fetches limit spent (opGloads ctx instr) :=
  (getUint8_fetches instr).next fun _ => (popUint_fetches instr).next fun _ => (asks_fetches _).next fun _ =>
    .give _

theorem opGloadss_fetches : Fetches limit spent (opGloadss ctx instr) :=
  (popUint_fetches instr).next fun _ => (popUint_fetches instr).next fun _ => (asks_fetches _).next fun _ => .give _

theorem opGaid_fetches : Fetches limit spent (opGaid ctx instr) :=
  (getUint8_fetches instr).next fun _ => (asks_fetches _).next fun _ => .give _

theorem opGaids_fetches : Fetches limit spent (opGaids ctx instr) :=
  (popUint_fetches instr).next fun _ => (asks_fetches _).next fun _ => .give _

/-! ### Inner transactions -/

theorem readItxnField_fetches (group : Option Nat) (byte : UInt8) (index : Option Nat) :
    Fetches limit spent (readItxnField ctx group byte index) :=
  (asks_fetches _).next fun _ => .give _

/-- Inner transactions spend what they spend. -/
theorem opItxnSubmit_fetches : Fetches limit none (opItxnSubmit ctx) := by
  refine Upholds.bind (Upholds.modify fun _ hs => hs) fun _ _ => (acts_fetches _).next fun _ => ?_
  refine Upholds.bind (Upholds.modify fun s hs => ?_) fun _ _ => Fetches.give _
  by_cases hpools : ctx.supportsBudgetPooling s.2 = true
  · rw [if_pos hpools]
    exact ⟨hs.depth, hs.stack, hs.scratch, fun b hb => by cases hb⟩
  · rw [if_neg hpools]
    exact hs

theorem opItxnField_fetches : Fetches limit spent (opItxnField ctx version instr) :=
  (getUint8_fetches instr).next fun _ => (ofText_fetches _).next fun _ => (pop_fetches instr).next fun _ =>
    (acts_fetches _).next fun _ => .give _

theorem opItxn_fetches : Fetches limit spent (opItxn ctx instr) :=
  (getUint8_fetches instr).next fun _ => readItxnField_fetches ctx _ _ _

theorem opItxna_fetches : Fetches limit spent (opItxna ctx instr) :=
  (getUint8Pair_fetches instr).next fun _ => readItxnField_fetches ctx _ _ _

theorem opGitxn_fetches : Fetches limit spent (opGitxn ctx instr) :=
  (getUint8Pair_fetches instr).next fun _ => readItxnField_fetches ctx _ _ _

theorem opGitxna_fetches : Fetches limit spent (opGitxna ctx instr) :=
  (onStack_fetches (getUint8Triple_tame instr)).next fun _ => readItxnField_fetches ctx _ _ _

theorem opItxnas_fetches : Fetches limit spent (opItxnas ctx instr) :=
  (getUint8_fetches instr).next fun _ => (popUint_fetches instr).next fun _ => readItxnField_fetches ctx _ _ _

theorem opGitxnas_fetches : Fetches limit spent (opGitxnas ctx instr) :=
  (getUint8Pair_fetches instr).next fun _ => (popUint_fetches instr).next fun _ => readItxnField_fetches ctx _ _ _

/-! ### Boxes -/

theorem opBoxCreate_fetches : Fetches limit spent (opBoxCreate ctx instr) :=
  (popUint_fetches instr).next fun _ => (popBytes_fetches instr).next fun _ => (acts_fetches _).next fun _ =>
    .give _

theorem opBoxExtract_fetches : Fetches limit spent (opBoxExtract ctx instr) :=
  (popUint_fetches instr).next fun _ => (popUint_fetches instr).next fun _ => (popBytes_fetches instr).next fun _ =>
    (acts_fetches _).next fun _ => .give _

theorem opBoxReplace_fetches : Fetches limit spent (opBoxReplace ctx instr) :=
  (popBytes_fetches instr).next fun _ => (popUint_fetches instr).next fun _ =>
    (popBytes_fetches instr).next fun _ => (acts_fetches _).next fun _ => .give _

theorem opBoxDel_fetches : Fetches limit spent (opBoxDel ctx instr) :=
  (popBytes_fetches instr).next fun _ => (acts_fetches _).next fun _ => .give _

theorem opBoxLen_fetches : Fetches limit spent (opBoxLen ctx instr) :=
  (popBytes_fetches instr).next fun _ => (acts_fetches _).next fun _ => .give _

theorem opBoxGet_fetches : Fetches limit spent (opBoxGet ctx instr) :=
  (popBytes_fetches instr).next fun _ => (acts_fetches _).next fun _ => .give _

theorem opBoxPut_fetches : Fetches limit spent (opBoxPut ctx instr) :=
  (popBytes_fetches instr).next fun _ => (popBytes_fetches instr).next fun _ => (acts_fetches _).next fun _ =>
    .give _

theorem opBoxSplice_fetches : Fetches limit spent (opBoxSplice ctx instr) :=
  (popBytes_fetches instr).next fun _ => (popUint_fetches instr).next fun _ => (popUint_fetches instr).next fun _ =>
    (popBytes_fetches instr).next fun _ => (acts_fetches _).next fun _ => .give _

theorem opBoxResize_fetches : Fetches limit spent (opBoxResize ctx instr) :=
  (popUint_fetches instr).next fun _ => (popBytes_fetches instr).next fun _ => (acts_fetches _).next fun _ =>
    .give _

theorem opAppBoxCreate_fetches : Fetches limit spent (opAppBoxCreate ctx instr) :=
  (popUint_fetches instr).next fun _ => (popBytes_fetches instr).next fun _ => (popUint_fetches instr).next fun _ =>
    (acts_fetches _).next fun _ => .give _

theorem opAppBoxExtract_fetches : Fetches limit spent (opAppBoxExtract ctx instr) :=
  (popUint_fetches instr).next fun _ => (popUint_fetches instr).next fun _ => (popBytes_fetches instr).next fun _ =>
    (popUint_fetches instr).next fun _ => (acts_fetches _).next fun _ => .give _

theorem opAppBoxReplace_fetches : Fetches limit spent (opAppBoxReplace ctx instr) :=
  (popBytes_fetches instr).next fun _ => (popUint_fetches instr).next fun _ =>
    (popBytes_fetches instr).next fun _ => (popUint_fetches instr).next fun _ => (acts_fetches _).next fun _ =>
    .give _

theorem opAppBoxDel_fetches : Fetches limit spent (opAppBoxDel ctx instr) :=
  (popBytes_fetches instr).next fun _ => (popUint_fetches instr).next fun _ => (acts_fetches _).next fun _ =>
    .give _

theorem opAppBoxLen_fetches : Fetches limit spent (opAppBoxLen ctx instr) :=
  (popBytes_fetches instr).next fun _ => (popUint_fetches instr).next fun _ => (acts_fetches _).next fun _ =>
    .give _

theorem opAppBoxGet_fetches : Fetches limit spent (opAppBoxGet ctx instr) :=
  (popBytes_fetches instr).next fun _ => (popUint_fetches instr).next fun _ => (acts_fetches _).next fun _ =>
    .give _

theorem opAppBoxPut_fetches : Fetches limit spent (opAppBoxPut ctx instr) :=
  (popBytes_fetches instr).next fun _ => (popBytes_fetches instr).next fun _ =>
    (popUint_fetches instr).next fun _ => (acts_fetches _).next fun _ => .give _

theorem opAppBoxSplice_fetches : Fetches limit spent (opAppBoxSplice ctx instr) :=
  (popBytes_fetches instr).next fun _ => (popUint_fetches instr).next fun _ => (popUint_fetches instr).next fun _ =>
    (popBytes_fetches instr).next fun _ => (popUint_fetches instr).next fun _ => (acts_fetches _).next fun _ =>
    .give _

theorem opAppBoxResize_fetches : Fetches limit spent (opAppBoxResize ctx instr) :=
  (popUint_fetches instr).next fun _ => (popBytes_fetches instr).next fun _ => (popUint_fetches instr).next fun _ =>
    (acts_fetches _).next fun _ => .give _

theorem opAppBox_fetches : Fetches limit spent (opAppBox ctx instr) := by
  unfold opAppBox
  split
  · exact opAppBoxCreate_fetches instr ctx
  · exact opAppBoxExtract_fetches instr ctx
  · exact opAppBoxReplace_fetches instr ctx
  · exact opAppBoxDel_fetches instr ctx
  · exact opAppBoxLen_fetches instr ctx
  · exact opAppBoxGet_fetches instr ctx
  · exact opAppBoxPut_fetches instr ctx
  · exact opAppBoxSplice_fetches instr ctx
  · exact opAppBoxResize_fetches instr ctx
  · exact Upholds.throw (Harmless.of_eq rfl)
  · exact Upholds.throw (Harmless.of_eq rfl)

theorem appOps_fetches : ∀ e ∈ appOps ctx version instr, Fetches limit none e.2 := by
  simp only [appOps, List.forall_mem_cons]
  exact ⟨opGload_fetches instr ctx, opGloads_fetches instr ctx, opGaid_fetches instr ctx, opGaids_fetches instr ctx,
    opGloadss_fetches instr ctx, accountNumber_fetches instr ctx _, opAppOptedIn_fetches instr ctx version,
    opAppLocalGet_fetches instr ctx version, opAppLocalGetEx_fetches instr ctx version,
    opAppGlobalGet_fetches instr ctx, opAppGlobalGetEx_fetches instr ctx, opAppLocalPut_fetches instr ctx version,
    opAppGlobalPut_fetches instr ctx, opAppLocalDel_fetches instr ctx version, opAppGlobalDel_fetches instr ctx,
    opAssetHoldingGet_fetches instr ctx version, opAssetParamsGet_fetches instr ctx version,
    opAppParamsGet_fetches instr ctx version, opAcctParamsGet_fetches instr ctx version,
    opVoterParamsGet_fetches instr ctx, (asks_fetches _).next fun _ => .give _,
    opAppParamsSet_fetches instr ctx version, accountNumber_fetches instr ctx _, opLog_fetches instr ctx,
    (acts_fetches _).next fun _ => .give _, opItxnField_fetches instr ctx version, opItxnSubmit_fetches ctx,
    opItxn_fetches instr ctx, opItxna_fetches instr ctx, (acts_fetches _).next fun _ => .give _,
    opGitxn_fetches instr ctx, opGitxna_fetches instr ctx, opBoxCreate_fetches instr ctx,
    opBoxExtract_fetches instr ctx, opBoxReplace_fetches instr ctx, opBoxDel_fetches instr ctx,
    opBoxLen_fetches instr ctx, opBoxGet_fetches instr ctx, opBoxPut_fetches instr ctx, opItxnas_fetches instr ctx,
    opGitxnas_fetches instr ctx, opBoxSplice_fetches instr ctx, opBoxResize_fetches instr ctx,
    opAppBox_fetches instr ctx, fun _ h => by cases h⟩

/-! ### Every opcode -/

/-- The values an opcode is about to push that it has not computed. -/
def Handler.fetched : Handler σ → Data × σ → List AvmValue
  | .compute _, _ => []
  | .fetch x, s =>
    match x s with
    | .ok values _ => values
    | .error _ _ => []

/-- An opcode keeps the limits up to the point where it pushes what it has fetched. -/
def Handler.Keeps (limit : Nat) (spent : Option (Int × Nat)) : Handler σ → Prop
  | .compute x => Tame limit spent x (fun _ => True)
  | .fetch x => Fetches limit spent x

/-- **What an opcode pushes of the values it has fetched decides.** -/
theorem Handler.Keeps.run {handler : Handler σ} (h : handler.Keeps limit spent) {s : Data × σ}
    (hs : Inside limit spent s.1) (hfetched : ∀ v ∈ handler.fetched s, v.size ≤ limit) :
    Fine (fun s : Data × σ => Inside limit spent s.1) (Harmless spent) (fun _ => True) (handler.run s) := by
  cases handler with
  | compute x => exact onStack_fetches h s hs
  | fetch x =>
    have hx : Fine _ _ _ (x s) := h s hs
    have hbind : (Handler.fetch x).run s = EStateM.bind x (fun values => onStack (pushAll values)) s := rfl
    rw [hbind]
    unfold EStateM.bind
    unfold Handler.fetched at hfetched
    cases hr : x s with
    | error e t => rw [hr] at hx; exact hx
    | ok values t =>
      rw [hr] at hx
      simp only [hr] at hfetched
      exact onStack_fetches (pushAll_tame hfetched) t hx.1

/-- An entry of a table that is found is in it. -/
theorem mem_of_lookup {β : Type} {b : β} {table : List (Nat × β)} {n : Nat} (h : table.lookup n = some b) :
    (n, b) ∈ table := by
  obtain ⟨l₁, l₂, rfl, -⟩ := List.lookup_eq_some_iff.1 h
  exact List.mem_append_right _ List.mem_cons_self

/-- Every opcode keeps the limits as far as the values it fetches do. -/
theorem handlerOf_keeps (hlimit : maxStringSize ≤ limit) : (handlerOf prims ctx mode version instr).Keeps limit none := by
  unfold handlerOf
  split
  · next x hx =>
    rcases List.mem_append.1 (mem_of_lookup hx) with hmem | hmem
    · exact plainOps_tame prims instr hlimit _ hmem
    · exact costlyOps_tame prims instr hlimit version _ hmem
  · split
    · next x hx =>
      rcases List.mem_append.1 (mem_of_lookup hx) with hmem | hmem
      · exact readOps_fetches prims instr ctx mode version _ hmem
      · exact appOps_fetches instr ctx version _ hmem
    · exact Upholds.throw (Harmless.of_eq rfl)

end Fetching

end Avm
end Algod
