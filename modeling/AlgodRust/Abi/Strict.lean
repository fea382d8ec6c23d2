import AlgodRust.Abi.RoundTrip
/-!
# Strict — which inputs of the decoder are encodings

The decoder takes a bool from the highest bit of its byte and never looks at the others, and it takes the children of a
tuple from where the head says they are and never asks whether that is all of the input.  So it accepts inputs that no
value is encoded to.  An input is the encoding of the value it is decoded to exactly when it is strict at every level
(`encode_decode_iff`): no bit of a byte of bools is set that belongs to no bool, and the first tail starts where the head
ends; without a tail, the input ends there.
-/
namespace Algod
namespace Abi

open Msgpack (Bytes beBytes)
open Network (beNat)
open HeadTail

/-! ## Strict inputs -/

/-- The bytes of bools in a head have no bit that belongs to no bool. -/
def padded : List Field → Bytes → Bool
  | [], _ => true
  | .bools count :: fs, data => lowBits (data.headD 0) count == 0 && padded fs data.tail
  | .child t :: fs, data => padded fs (data.drop ((slotOf t).size u16))

/-- The head is padded with zeros and the tails follow it. -/
def tupleStrict (types : List AbiType) (data : Bytes) : Bool :=
  decide (Tight u16 (slots types) data) && padded (fields types) data

/-- The bytes of the children of a tuple. -/
def childBytes (types : List AbiType) (data : Bytes) : List Bytes :=
  ((HeadTail.read u16 (slots types) data).map (fun ps => (expand (fields types) ps).map Part.content)).getD []

mutual
/-- Strict at every level. -/
def strict : AbiType → Bytes → Bool
  | .bool, data => lowBits (data.headD 0) 1 == 0
  | .arrayStatic elem len, data =>
    tupleStrict (List.replicate len elem) data && (childBytes (List.replicate len elem) data).all (strict elem)
  | .arrayDynamic elem, data =>
    let types := List.replicate (beNat (data.take 2)) elem
    tupleStrict types (data.drop 2) && (childBytes types (data.drop 2)).all (strict elem)
  | .tuple children, data => tupleStrict children data && strictAll children (childBytes children data)
  | .uint _, _ | .ufixed _ _, _ | .byte, _ | .address, _ | .string, _ => true

def strictAll : List AbiType → List Bytes → Bool
  | t :: ts, segment :: segments => strict t segment && strictAll ts segments
  | _, _ => true
end

/-! ## One tuple -/

theorem paddedPieces_resolve {whole : Bytes} :
    ∀ {fs : List Field} {es : List (Entry UInt8)} {ps : List (HeadTail.Part UInt8)},
    resolve whole es = some ps → (PaddedPieces fs ps ↔ PaddedPieces fs es)
  | _, [], ps, h => by
    cases h
    rename_i fs
    cases fs with
    | nil => exact Iff.rfl
    | cons f fs => cases f <;> exact Iff.rfl
  | fs, .inline bs :: es, ps, h => by
    obtain ⟨ps', hps, rfl⟩ := Option.map_eq_some_iff.1 h
    cases fs with
    | nil => exact Iff.rfl
    | cons f fs =>
      have ih := @paddedPieces_resolve whole fs es ps' hps
      cases f with
      | bools count => exact and_congr_right (fun _ => ih)
      | child t => exact ih
  | fs, .pointed start :: es, ps, h => by
    rw [resolve] at h
    split at h
    · cases h
    · obtain ⟨ps', hps, rfl⟩ := Option.map_eq_some_iff.1 h
      cases fs with
      | nil => exact Iff.rfl
      | cons f fs =>
        have ih := @paddedPieces_resolve whole fs es ps' hps
        cases f <;> exact ih

theorem paddedPieces_scan : ∀ {fs : List Field} {data rest : Bytes} {es : List (Entry UInt8)},
    scan u16 (fs.map Field.slot) data = some (es, rest) → (PaddedPieces fs es ↔ padded fs data = true)
  | [], data, rest, es, h => by
    cases h
    exact iff_of_true trivial rfl
  | .bools count :: fs, data, rest, es, h => by
    rw [List.map_cons, Field.slot, scan] at h
    split at h
    · rename_i hle
      obtain ⟨⟨es', rest'⟩, hscan, heq⟩ := Option.map_eq_some_iff.1 h
      cases heq
      rw [List.drop_one] at hscan
      have ih := paddedPieces_scan hscan
      have hhead : (data.take 1).headD 0 = data.headD 0 := by cases data <;> rfl
      rw [padded, Bool.and_eq_true, beq_iff_eq, ← ih, ← hhead]
      exact Iff.rfl
    · cases h
  | .child t :: fs, data, rest, es, h => by
    rw [List.map_cons, Field.slot] at h
    rw [padded]
    unfold slotOf at h ⊢
    split at h
    · rename_i hdyn
      rw [if_pos hdyn]
      rw [scan] at h
      split at h
      · obtain ⟨⟨es', rest'⟩, hscan, heq⟩ := Option.map_eq_some_iff.1 h
        cases heq
        exact paddedPieces_scan hscan
      · cases h
    · rename_i hdyn
      rw [if_neg hdyn]
      rw [scan] at h
      split at h
      · obtain ⟨⟨es', rest'⟩, hscan, heq⟩ := Option.map_eq_some_iff.1 h
        cases heq
        exact paddedPieces_scan hscan
      · cases h

variable {types : List AbiType} {data : Bytes}

theorem paddedPieces_read {ps : List (HeadTail.Part UInt8)} (h : HeadTail.read u16 (slots types) data = some ps) :
    PaddedPieces (fields types) ps ↔ padded (fields types) data = true := by
  obtain ⟨⟨es, rest⟩, hscan, hps⟩ := Option.bind_eq_some_iff.1 h
  exact (paddedPieces_resolve hps).trans (paddedPieces_scan hscan)

theorem pieceOf_content {t : AbiType} {p : HeadTail.Part UInt8} (h : p.slot = slotOf t) : pieceOf t (Part.content p) = p := by
  unfold pieceOf
  unfold slotOf at h
  cases p with
  | inline bs =>
    split at h
    · cases h
    · rename_i hdyn
      rw [if_neg hdyn]
      rfl
  | pointed bs =>
    split at h
    · rename_i hdyn
      rw [if_pos hdyn]
      rfl
    · cases h

/-- **Packing the children again gives the bytes back that are padded with zeros.** -/
theorem partsOf_expand (h : Cut types) : ∀ {ps : List (HeadTail.Part UInt8)}, ps.map Piece.slot = slots types →
    (expand (fields types) ps).length = types.length ∧
      (partsOf types ((expand (fields types) ps).map Part.content) = ps ↔ PaddedPieces (fields types) ps) := by
  induction h with
  | nil =>
    intro ps hslots
    rw [List.map_eq_nil_iff.1 hslots]
    exact ⟨rfl, iff_of_true rfl trivial⟩
  | @child t ts ht h ih =>
    intro ps hslots
    rw [slots_child ht] at hslots
    cases ps with
    | nil => cases hslots
    | cons p ps =>
      obtain ⟨hp, hps⟩ := List.cons.inj hslots
      obtain ⟨hlen, ih⟩ := ih hps
      rw [fields_child ht, expand_child, List.map_cons, partsOf_child ht, pieceOf_content hp, List.length_cons, hlen,
        List.length_cons]
      refine ⟨rfl, ?_⟩
      rw [List.cons.injEq, and_iff_right rfl, ih]
      cases p <;> exact Iff.rfl
  | @bools k ts hk hend h ih =>
    intro ps hslots
    rw [slots_bools hk hend] at hslots
    cases ps with
    | nil => cases hslots
    | cons p ps =>
      obtain ⟨hp, hps⟩ := List.cons.inj hslots
      obtain ⟨hlen, ih⟩ := ih hps
      cases p with
      | pointed bs => cases hp
      | inline bs =>
        obtain ⟨b, rfl⟩ : ∃ b, bs = [b] := List.length_eq_one_iff.1 (Slot.inline.inj hp)
        have hbits : ((List.range (k + 1)).map (bitAt b)).length = k + 1 := by rw [List.length_map, List.length_range]
        have hcontent : (expand (.bools (k + 1) :: fields ts) (.inline [b] :: ps)).map Part.content =
            ((List.range (k + 1)).map (bitAt b)).map (fun b => [boolByte b]) ++ (expand (fields ts) ps).map Part.content := by
          rw [expand, List.map_append, List.map_map, List.map_map]
          rfl
        rw [fields_bools hk hend, hcontent, partsOf_bools hk hend hbits]
        constructor
        · rw [expand, List.length_append, List.length_map, List.length_range, hlen, List.length_append, List.length_replicate]
        · rw [List.cons.injEq, Piece.inline.injEq, List.cons.injEq, and_iff_left rfl, ih, packed_bitAt (by omega)]
          exact Iff.rfl

variable {segments : List Bytes}

/-- **A tuple that the decoder accepts is the encoding of its children exactly when it is strict and they are encoded by
their segments.** -/
theorem encodeTuple_eq_iff {values : List (AbiValue × Except String Bytes)}
    (hsizes : HaveSizes types) (hlen : data.length < u64Bound)
    (hbools : List.Forall₂ BoolValue types values)
    (hfit : ∀ es, List.Forall₂ (fun v e => v.2 = .ok e) values es → List.Forall₂ Fitting types es)
    (h : tupleSegments types data = .ok segments) : encodeTupleWithTypes values types = .ok data ↔
      tupleStrict types data = true ∧ List.Forall₂ (fun v e => v.2 = .ok e) values segments := by
  obtain ⟨ps, hread, rfl⟩ := (tupleSegments_eq_ok hlen hsizes).1 h
  have hslots := slot_of_read hread
  have hparts := (partsOf_expand (cut types) hslots).2
  unfold tupleStrict
  rw [Bool.and_eq_true, decide_eq_true_iff, ← paddedPieces_read hread, ← hparts, ← write_eq_iff hread]
  constructor
  · intro hencode
    obtain ⟨es, hes, hwrite, hread', -, hsegments⟩ := tupleSegments_encode hsizes hbools hfit hencode
    obtain rfl := Except.ok.inj ((hsegments hlen).symm.trans h)
    have hsame := Option.some.inj (hread.symm.trans hread')
    rw [← hsame] at hwrite
    exact ⟨⟨hwrite, hsame.symm⟩, hes⟩
  · rintro ⟨⟨⟨hfits, hwrite⟩, hsame⟩, hes⟩
    refine (encodeTupleWithTypes_eq_ok hbools).2 ⟨_, hes, ?_⟩
    rw [hsame, hslots]
    exact ⟨hfits, hwrite⟩

/-! ## Values -/

/-- What is known of the decoder at one type: its values have the type, and the strict inputs are encodings. -/
def StrictAt (t : AbiType) : Prop := ∀ data budget v budget', data.length < u64Bound →
  decodeInner t data budget = .ok v budget' → HasType t v ∧ (encode v = .ok data ↔ strict t data = true)

theorem decodeChildren_strict : ∀ {types : List AbiType} {segments : List Bytes} {budget budget' : Nat}
    {values : List AbiValue}, (∀ t ∈ types, StrictAt t) → segments.length = types.length →
      (∀ segment ∈ segments, segment.length < u64Bound) → decodeChildren types segments budget = .ok values budget' →
      List.Forall₂ HasType types values ∧
        (List.Forall₂ (fun v e => encode v = .ok e) values segments ↔ strictAll types segments = true)
  | [], [], _, _, _, _, _, _, h => by
    cases h
    exact ⟨.nil, iff_of_true .nil rfl⟩
  | t :: types, segment :: segments, budget, budget', values, hstrict, hlen, hshort, h => by
    rw [decodeChildren] at h
    obtain ⟨v, budget₁, hv, h⟩ := Run.state_bind_eq_ok.1 h
    obtain ⟨vs, budget₂, hvs, hret⟩ := Run.state_bind_eq_ok.1 h
    cases hret
    obtain ⟨htype, hiff⟩ := hstrict t List.mem_cons_self segment budget v budget₁ (hshort _ List.mem_cons_self) hv
    obtain ⟨htypes, hall⟩ := decodeChildren_strict (fun t' ht' => hstrict t' (List.mem_cons_of_mem _ ht'))
      (Nat.succ.inj hlen) (fun s hs => hshort s (List.mem_cons_of_mem _ hs)) hvs
    refine ⟨.cons htype htypes, ?_⟩
    rw [List.forall₂_cons, strictAll, Bool.and_eq_true, hiff, hall]

theorem strictAll_replicate (elem : AbiType) : ∀ (segments : List Bytes),
    strictAll (List.replicate segments.length elem) segments = segments.all (strict elem)
  | [] => rfl
  | segment :: segments => by
    rw [List.length_cons, List.replicate_succ, strictAll, strictAll_replicate elem segments, List.all_cons]

variable {budget budget' : Nat}

theorem lift_eq_ok {β : Type} {x : Except String β} {b : β} (h : lift x budget = .ok b budget') :
    x = .ok b ∧ budget' = budget := by
  cases x with
  | ok b' =>
    cases h
    exact ⟨rfl, rfl⟩
  | error e => cases h

/-- The decoder finds a segment for every child. -/
theorem childBytes_eq (hwf : ∀ t ∈ types, WellFormed t)
    (hlen : data.length < u64Bound) (h : tupleSegments types data = .ok segments) :
    childBytes types data = segments ∧ segments.length = types.length := by
  obtain ⟨ps, hread, hcontent⟩ := (tupleSegments_eq_ok hlen (haveSizes hwf)).1 h
  constructor
  · unfold childBytes
    rw [hread]
    exact hcontent
  · rw [← hcontent, List.length_map]
    exact (partsOf_expand (cut types) (slot_of_read hread)).1

/-- A tuple or the body of an array. -/
theorem tuple_strict {values : List AbiValue} (hwf : ∀ t ∈ types, WellFormed t) (hstrict : ∀ t ∈ types, StrictAt t)
    (hlen : data.length < u64Bound) (hsegments : tupleSegments types data = .ok segments)
    (h : decodeChildren types segments budget = .ok values budget') : List.Forall₂ HasType types values ∧
      (encodeTupleWithTypes (encodeEach values) types = .ok data ↔
        (tupleStrict types data && strictAll types (childBytes types data)) = true) := by
  have hsizes := haveSizes hwf
  obtain ⟨hchild, hcount⟩ := childBytes_eq hwf hlen hsegments
  obtain ⟨htypes, hall⟩ := decodeChildren_strict hstrict hcount (length_segment_lt hlen hsizes hsegments) h
  refine ⟨htypes, ?_⟩
  have hfit : ∀ es, List.Forall₂ (fun v e => v.2 = .ok e) (encodeEach values) es → List.Forall₂ Fitting types es :=
    fun es hes => fitting_all (fun t ht => encodes_fitting t (hwf t ht)) htypes (encodeEach_ok.1 hes)
  rw [encodeTuple_eq_iff hsizes hlen (boolValues htypes) hfit hsegments, encodeEach_ok, hall, Bool.and_eq_true, hchild]

theorem forall_of_forall₂_replicate {elem : AbiType} : ∀ {len : Nat} {values : List AbiValue},
    List.Forall₂ HasType (List.replicate len elem) values → values.length = len ∧ ∀ v ∈ values, HasType elem v
  | 0, _, .nil => ⟨rfl, fun _ h => (by cases h)⟩
  | len + 1, _, h => by
    rw [List.replicate_succ] at h
    cases h with
    | cons hv hvs =>
      obtain ⟨hlen, hall⟩ := forall_of_forall₂_replicate hvs
      refine ⟨congrArg (· + 1) hlen, fun v' hv' => ?_⟩
      rcases List.mem_cons.1 hv' with rfl | hv'
      · exact hv
      · exact hall v' hv'

/-- The body of an array. -/
theorem array_strict {elem : AbiType} (helem : WellFormed elem) (hstrict : StrictAt elem) {len budget budget' : Nat}
    {values : List AbiValue} (hlen : data.length < u64Bound)
    (hsegments : tupleSegments (List.replicate len elem) data = .ok segments)
    (h : segments.mapM (decodeInner elem) budget = .ok values budget') :
    values.length = len ∧ (∀ v ∈ values, HasType elem v) ∧
      (encodeTupleWithTypes (encodeEach values) (List.replicate values.length elem) = .ok data ↔
        (tupleStrict (List.replicate len elem) data && (childBytes (List.replicate len elem) data).all
          (strict elem)) = true) := by
  have hwf : ∀ t ∈ List.replicate len elem, WellFormed t := fun t ht => by rw [List.eq_of_mem_replicate ht]; exact helem
  obtain ⟨hchild, hcount⟩ := childBytes_eq hwf hlen hsegments
  rw [List.length_replicate] at hcount
  rw [mapM_decodeInner, hcount] at h
  obtain ⟨htypes, hiff⟩ := tuple_strict hwf (fun t ht => by rw [List.eq_of_mem_replicate ht]; exact hstrict) hlen hsegments h
  obtain ⟨hvalues, hall⟩ := forall_of_forall₂_replicate htypes
  have hstrictAll := strictAll_replicate elem segments
  rw [hcount] at hstrictAll
  rw [hchild, hstrictAll] at hiff
  refine ⟨hvalues, hall, ?_⟩
  rw [hvalues, hchild]
  exact hiff

theorem decodeFixed_eq_ok {what : String} {byteLen : Nat} {v w : AbiValue}
    (h : decodeFixed what byteLen data v budget = .ok w budget') : data.length = byteLen ∧ w = v := by
  unfold decodeFixed at h
  split at h
  · cases h
  · rename_i hlen
    cases h
    exact ⟨Classical.not_not.1 hlen, rfl⟩

set_option maxRecDepth 20000 in
theorem boolByte_fin : ∀ b : Fin 256, boolByte (decide (UInt8.ofNat b.val &&& 0x80 ≠ 0)) = UInt8.ofNat b.val ↔
    lowBits (UInt8.ofNat b.val) 1 = 0 := by
  decide

theorem boolByte_high (b : UInt8) : boolByte (decide (b &&& 0x80 ≠ 0)) = b ↔ lowBits b 1 = 0 := by
  have h := boolByte_fin ⟨b.toNat, b.toNat_lt⟩
  rwa [UInt8.ofNat_toNat] at h

theorem beNat_lt_pow {bits : Nat} (hmod : bits % 8 = 0) (hlen : data.length = bits / 8) :
    beNat data < 2 ^ bits := by
  have h := beNat_lt data
  rwa [hlen, pow_bits hmod] at h

/-- **The strict inputs of the decoder are the encodings.** -/
theorem decodeInner_strict (t : AbiType) (hwf : WellFormed t) : StrictAt t := by
  induction t with
  | uint bits =>
    intro data budget v budget' _ h
    cases hwf with
    | uint hbits hmod =>
      rw [decodeInner] at h
      obtain ⟨hlen, rfl⟩ := decodeFixed_eq_ok h
      have hnum := beNat_lt_pow hmod hlen
      refine ⟨.uint hnum, iff_of_true ?_ (by rw [strict])⟩
      rw [encode, encodeUint_eq hbits hmod hnum, beBytes_beNat hlen]
  | ufixed bits precision =>
    intro data budget v budget' _ h
    cases hwf with
    | ufixed hbits hmod =>
      rw [decodeInner] at h
      obtain ⟨hlen, rfl⟩ := decodeFixed_eq_ok h
      have hnum := beNat_lt_pow hmod hlen
      refine ⟨.ufixed hnum, iff_of_true ?_ (by rw [strict])⟩
      rw [encode, encodeUint_eq hbits hmod hnum, beBytes_beNat hlen]
  | bool =>
    intro data budget v budget' _ h
    rw [decodeInner] at h
    split at h
    · cases h
    · rename_i hlen
      obtain ⟨b, rfl⟩ := List.length_eq_one_iff.1 (Classical.not_not.1 hlen)
      cases h
      refine ⟨.bool _, ?_⟩
      rw [encode, strict, beq_iff_eq, ← boolByte_high]
      show Except.ok [boolByte _] = Except.ok [b] ↔ _
      rw [Except.ok.injEq, List.cons.injEq, and_iff_left rfl]
      rfl
  | byte =>
    intro data budget v budget' _ h
    rw [decodeInner] at h
    split at h
    · cases h
    · rename_i hlen
      obtain ⟨b, rfl⟩ := List.length_eq_one_iff.1 (Classical.not_not.1 hlen)
      cases h
      exact ⟨.byte b, iff_of_true rfl rfl⟩
  | address =>
    intro data budget v budget' _ h
    rw [decodeInner] at h
    obtain ⟨hlen, rfl⟩ := decodeFixed_eq_ok h
    refine ⟨.address _, iff_of_true ?_ (by rw [strict])⟩
    have hnum := beNat_lt data
    rw [hlen] at hnum
    rw [encode, BitVec.toNat_ofNat, Nat.mod_eq_of_lt (Nat.lt_of_lt_of_le hnum (by decide)), beBytes_beNat hlen]
  | string =>
    intro data budget v budget' _ h
    rw [decodeInner] at h
    split at h
    · cases h
    · split at h
      · cases h
      · rename_i hshort hlen
        cases h
        refine ⟨.string _, iff_of_true ?_ (by rw [strict])⟩
        have htake : (data.take 2).length = 2 := by
          rw [List.length_take]
          omega
        have hlen' : (data.drop 2).length = beNat (data.take 2) := by
          rw [List.length_drop]
          omega
        have hlt := beNat_lt (data.take 2)
        rw [htake] at hlt
        rw [encode, hlen', if_neg (by omega), beBytes_beNat htake, List.take_append_drop]
  | arrayStatic elem len ih =>
    intro data budget v budget' hlen h
    cases hwf with
    | arrayStatic helem _ =>
      rw [decodeInner] at h
      obtain ⟨_, budget₁, -, h⟩ := Run.state_bind_eq_ok.1 h
      obtain ⟨segments, budget₂, hlift, h⟩ := Run.state_bind_eq_ok.1 h
      obtain ⟨values, budget₃, hvalues, hret⟩ := Run.state_bind_eq_ok.1 h
      cases hret
      obtain ⟨hsegments, rfl⟩ := lift_eq_ok hlift
      obtain ⟨rfl, htypes, hiff⟩ := array_strict helem (ih helem) hlen hsegments hvalues
      refine ⟨.arrayStatic htypes, ?_⟩
      rw [encode, hiff, strict]
  | arrayDynamic elem ih =>
    intro data budget v budget' hlen h
    cases hwf with
    | arrayDynamic helem =>
      rw [decodeInner] at h
      split at h
      · cases h
      · rename_i hshort
        obtain ⟨_, budget₁, -, h⟩ := Run.state_bind_eq_ok.1 h
        obtain ⟨segments, budget₂, hlift, h⟩ := Run.state_bind_eq_ok.1 h
        obtain ⟨values, budget₃, hvalues, hret⟩ := Run.state_bind_eq_ok.1 h
        cases hret
        obtain ⟨hsegments, rfl⟩ := lift_eq_ok hlift
        obtain ⟨hcount, htypes, hiff⟩ := array_strict helem (ih helem) (by rw [List.length_drop]; omega) hsegments hvalues
        refine ⟨.arrayDynamic htypes, ?_⟩
        have htake : (data.take 2).length = 2 := by
          rw [List.length_take]
          omega
        have hlt := beNat_lt (data.take 2)
        rw [htake] at hlt
        have hcountBytes : beBytes 2 values.length = data.take 2 := by rw [hcount, beBytes_beNat htake]
        rw [encode, if_neg (by omega), strict, ← hiff, hcountBytes]
        constructor
        · intro hencode
          obtain ⟨body, hbody, hret⟩ := Run.bind_eq_ok.1 hencode
          rw [hbody]
          have hwhole : data.take 2 ++ body = data.take 2 ++ data.drop 2 := by
            rw [List.take_append_drop]
            exact Except.ok.inj hret
          exact congrArg Except.ok (List.append_cancel_left hwhole)
        · intro hbody
          rw [hbody, Run.ok_bind]
          show Except.ok _ = _
          rw [List.take_append_drop]
  | tuple types ih =>
    intro data budget v budget' hlen h
    cases hwf with
    | tuple hchildren _ =>
      rw [decodeInner] at h
      obtain ⟨segments, budget₁, hlift, h⟩ := Run.state_bind_eq_ok.1 h
      obtain ⟨values, budget₂, hvalues, hret⟩ := Run.state_bind_eq_ok.1 h
      cases hret
      obtain ⟨hsegments, rfl⟩ := lift_eq_ok hlift
      obtain ⟨htypes, hiff⟩ := tuple_strict hchildren (fun t ht => ih t ht (hchildren t ht)) hlen hsegments hvalues
      refine ⟨.tuple htypes, ?_⟩
      rw [encode, inferTypes_eq (fun t _ => inferType_eq t) htypes, hiff, strict]

/-- **What the decoder accepts is an encoding exactly when it is strict**, and two strict inputs with one value are the
same. -/
theorem encode_decode_iff {s : String} {t : AbiType} (ht : typeOf s = .ok t) :
    (∀ b v, b.length < 2 ^ 64 → decode t b = .ok v → (encode v = .ok b ↔ strict t b = true)) ∧
    ∀ b₁ b₂ v, b₁.length < 2 ^ 64 → b₂.length < 2 ^ 64 → strict t b₁ = true → strict t b₂ = true → decode t b₁ = .ok v →
      decode t b₂ = .ok v → b₁ = b₂ := by
  have hiff : ∀ b v, b.length < 2 ^ 64 → decode t b = .ok v → (encode v = .ok b ↔ strict t b = true) := by
    intro b v hlen h
    unfold decode at h
    cases hrun : decodeInner t b maxZeroSizeElems with
    | ok v' budget =>
      rw [hrun] at h
      obtain rfl := Except.ok.inj h
      exact (decodeInner_strict t (typeOf_wellFormed ht) b _ _ _ hlen hrun).2
    | error e budget =>
      rw [hrun] at h
      cases h
  refine ⟨hiff, ?_⟩
  intro b₁ b₂ v hlen₁ hlen₂ hstrict₁ hstrict₂ h₁ h₂
  have hb₁ := (hiff b₁ v hlen₁ h₁).2 hstrict₁
  have hb₂ := (hiff b₂ v hlen₂ h₂).2 hstrict₂
  exact Except.ok.inj (hb₁.symm.trans hb₂)

theorem typeOf_sample : typeOf "(bool,uint8)" = .ok (.tuple [.bool, .uint 8]) := rfl

/-- An input of the one encoding of its value. -/
theorem encode_decode_strict : encode (.tuple [.bool true, .uint 7 8]) = .ok [0x80, 0x07] :=
  ((encode_decode_iff typeOf_sample).1 [0x80, 0x07] (.tuple [.bool true, .uint 7 8]) (by decide) rfl).2 (by decide)

/-- Bits that belong to no bool, and a byte behind the head. -/
theorem decode_not_strict : ¬ ∀ (s : String) (t : AbiType) (b₁ b₂ : Bytes) (v : AbiValue), typeOf s = .ok t →
    decode t b₁ = .ok v → decode t b₂ = .ok v → b₁ = b₂ := by
  intro h
  have hsame := h "(bool,uint8)" _ [0x80, 0x07] [0xff, 0x07, 0x00] (.tuple [.bool true, .uint 7 8]) typeOf_sample rfl rfl
  cases hsame

end Abi
end Algod
