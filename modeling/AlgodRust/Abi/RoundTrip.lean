import AlgodRust.Abi.Layout
/-!
# RoundTrip — what was encoded is decoded

For one tuple: the encodings of its children are the segments that the decoder finds (`tupleSegments_encode`).  For a value,
by induction over its type: the decoder gets every child back from its own encoding, and has counted the elements without
bytes on the way (`decodeInner_encode`).
-/
namespace Algod
namespace Abi

open Msgpack (Bytes beBytes)
open Network (beNat)
open HeadTail

/-! ## One tuple -/

/-- An encoding of the shape that its type asks for. -/
structure Fitting (t : AbiType) (e : Bytes) : Prop where
  bool : t.isBool = true → ∃ b, e = [boolByte b]
  size : t.isDynamic = false → t.byteLen = some e.length

theorem fitting_split {ts : List AbiType} : ∀ {k : Nat} {es : List Bytes},
    List.Forall₂ Fitting (List.replicate k .bool ++ ts) es → ∃ (bits : List Bool) (rest : List Bytes), bits.length = k ∧
      es = bits.map (fun b => [boolByte b]) ++ rest ∧ List.Forall₂ Fitting ts rest
  | 0, es, h => ⟨[], es, rfl, rfl, h⟩
  | k + 1, es, h => by
    rw [List.replicate_succ, List.cons_append] at h
    cases h with
    | cons he hes =>
      obtain ⟨bits, rest, hlen, rfl, hrest⟩ := fitting_split hes
      obtain ⟨b, rfl⟩ := he.bool rfl
      exact ⟨b :: bits, rest, congrArg (· + 1) hlen, rfl, hrest⟩

theorem content_pieceOf (t : AbiType) (e : Bytes) : (pieceOf t e).content = e := by
  unfold pieceOf
  split <;> rfl

theorem Fitting.slot_pieceOf {t : AbiType} {e : Bytes} (h : Fitting t e) : (pieceOf t e).slot = slotOf t := by
  unfold pieceOf slotOf
  by_cases hdyn : t.isDynamic = true
  · rw [if_pos hdyn, if_pos hdyn]
    rfl
  · rw [if_neg hdyn, if_neg hdyn, h.size (Bool.eq_false_iff.2 hdyn)]
    rfl

variable {types : List AbiType}

/-- The record of a tuple has the slots of its types, and the children in it are those that were put there. -/
theorem partsOf_fitting (h : Cut types) : ∀ {es : List Bytes}, List.Forall₂ Fitting types es →
    (partsOf types es).map Piece.slot = slots types ∧
      (expand (fields types) (partsOf types es)).map Part.content = es := by
  induction h with
  | nil =>
    intro es hfit
    cases hfit
    exact ⟨rfl, rfl⟩
  | @child t ts ht h ih =>
    intro es hfit
    cases hfit with
    | cons he hes =>
      obtain ⟨hslots, hcontent⟩ := ih hes
      rw [partsOf_child ht, slots_child ht, fields_child ht, expand_child, List.map_cons, List.map_cons, hslots, hcontent,
        he.slot_pieceOf, content_pieceOf]
      exact ⟨rfl, rfl⟩
  | @bools k ts hk hend h ih =>
    intro es hfit
    obtain ⟨bits, rest, hbits, rfl, hrest⟩ := fitting_split hfit
    obtain ⟨hslots, hcontent⟩ := ih hrest
    have hpacked := bitAt_packed bits (by omega)
    rw [partsOf_bools hk hend hbits, slots_bools hk hend, fields_bools hk hend, expand, List.map_cons, hslots,
      List.map_append,
      hcontent, List.map_map]
    refine ⟨rfl, congrArg (· ++ rest) ?_⟩
    conv_rhs => rw [← hpacked, List.map_map, hbits]
    rfl

theorem tupleSegments_eq_ok {data : Bytes} (hlen : data.length < u64Bound) (hsizes : HaveSizes types)
    {es : List Bytes} : tupleSegments types data = .ok es ↔
      ∃ ps, HeadTail.read u16 (slots types) data = some ps ∧ (expand (fields types) ps).map Part.content = es := by
  have h := tupleSegments_eq hlen hsizes
  rw [← Option.map_eq_some_iff, ← h]
  cases tupleSegments types data with
  | ok es' =>
    show _ ↔ some es' = some es
    rw [Option.some.injEq, Except.ok.injEq]
  | error e => exact iff_of_false (fun heq => by cases heq) (fun heq => by cases heq)

theorem mem_expand : ∀ (fs : List Field) (ps : List (HeadTail.Part UInt8)), ∀ q ∈ expand fs ps,
    (Part.content q).length ≤ 1 ∨ q ∈ ps
  | [], ps, q, hq => .inr hq
  | .bools _ :: _, [], q, hq => .inr hq
  | .child _ :: _, [], q, hq => .inr hq
  | .bools count :: fs, .inline bs :: ps, q, hq => by
    rw [expand] at hq
    rcases List.mem_append.1 hq with hq | hq
    · obtain ⟨i, -, rfl⟩ := List.mem_map.1 hq
      exact .inl (Nat.le_refl 1)
    · exact (mem_expand fs ps q hq).imp_right (List.mem_cons_of_mem _)
  | .bools count :: fs, .pointed bs :: ps, q, hq => by
    rw [expand_pointed] at hq
    rcases List.mem_cons.1 hq with rfl | hq
    · exact .inr List.mem_cons_self
    · exact (mem_expand fs ps q hq).imp_right (List.mem_cons_of_mem _)
  | .child t :: fs, p :: ps, q, hq => by
    rw [expand_child] at hq
    rcases List.mem_cons.1 hq with rfl | hq
    · exact .inr List.mem_cons_self
    · exact (mem_expand fs ps q hq).imp_right (List.mem_cons_of_mem _)

/-- Segments are not longer than the data. -/
theorem length_segment_lt {data : Bytes} (hlen : data.length < u64Bound) (hsizes : HaveSizes types)
    {es : List Bytes} (h : tupleSegments types data = .ok es) : ∀ e ∈ es, e.length < u64Bound := by
  obtain ⟨ps, hread, rfl⟩ := (tupleSegments_eq_ok hlen hsizes).1 h
  intro e he
  obtain ⟨q, hq, rfl⟩ := List.mem_map.1 he
  rcases mem_expand (fields types) ps q hq with hone | hmem
  · exact Nat.lt_of_le_of_lt hone (show 1 < u64Bound by decide)
  · exact Nat.lt_of_le_of_lt (length_content_le hread hmem) hlen

/-- **The segments of an encoded tuple are the encodings of its children.** -/
theorem tupleSegments_encode {values : List (AbiValue × Except String Bytes)} {data : Bytes}
    (hsizes : HaveSizes types) (hbools : List.Forall₂ BoolValue types values)
    (hfit : ∀ es, List.Forall₂ (fun v e => v.2 = .ok e) values es → List.Forall₂ Fitting types es)
    (h : encodeTupleWithTypes values types = .ok data) : ∃ es, List.Forall₂ (fun v e => v.2 = .ok e) values es ∧
      (Fits u16 (headLen u16 (slots types)) (partsOf types es) ∧ write u16 (partsOf types es) = data) ∧
      HeadTail.read u16 (slots types) data = some (partsOf types es) ∧ headLen u16 (slots types) ≤ data.length ∧
      (data.length < u64Bound → tupleSegments types data = .ok es) := by
  obtain ⟨es, hes, hfits, hwrite⟩ := (encodeTupleWithTypes_eq_ok hbools).1 h
  obtain ⟨hslots, hcontent⟩ := partsOf_fitting (cut types) (hfit es hes)
  have hread := read_write hfits
  rw [hslots, hwrite] at hread
  rw [hslots] at hfits
  refine ⟨es, hes, ⟨hfits, hwrite⟩, hread, ?_, fun hlen => (tupleSegments_eq_ok hlen hsizes).2 ⟨_, hread, hcontent⟩⟩
  rw [← hwrite, write, List.length_append, length_heads, hslots]
  omega

/-! ## Values of a type -/

/-- The values of a type: the elements of an array are of its element type, and an integer has no more bits than its type. -/
inductive HasType : AbiType → AbiValue → Prop
  | uint {num bits : Nat} : num < 2 ^ bits → HasType (.uint bits) (.uint num bits)
  | ufixed {num bits precision : Nat} : num < 2 ^ bits → HasType (.ufixed bits precision) (.ufixed num bits precision)
  | bool (b : Bool) : HasType .bool (.bool b)
  | byte (b : UInt8) : HasType .byte (.byte b)
  | address (bytes : Bytes32) : HasType .address (.address bytes)
  | string (bytes : Bytes) : HasType .string (.string bytes)
  | arrayStatic {elem : AbiType} {values : List AbiValue} : (∀ v ∈ values, HasType elem v) →
    HasType (.arrayStatic elem values.length) (.arrayStatic values elem)
  | arrayDynamic {elem : AbiType} {values : List AbiValue} : (∀ v ∈ values, HasType elem v) →
    HasType (.arrayDynamic elem) (.arrayDynamic values elem)
  | tuple {types : List AbiType} {values : List AbiValue} : List.Forall₂ HasType types values →
    HasType (.tuple types) (.tuple values)

/-- How many elements of arrays take no bytes, in all of a value. -/
def zeroSizeElemsHere (elemType : AbiType) (len : Nat) : Nat := if elemType.byteLen = some 0 then len else 0

mutual
def zeroSizeElems : AbiValue → Nat
  | .arrayStatic values elemType | .arrayDynamic values elemType =>
    zeroSizeElemsHere elemType values.length + zeroSizeElemsAll values
  | .tuple values => zeroSizeElemsAll values
  | .uint _ _ | .ufixed _ _ _ | .bool _ | .byte _ | .address _ | .string _ => 0

def zeroSizeElemsAll : List AbiValue → Nat
  | [] => 0
  | v :: vs => zeroSizeElems v + zeroSizeElemsAll vs
end

theorem encodeEach_eq (values : List AbiValue) : encodeEach values = values.map (fun v => (v, encode v)) := by
  induction values with
  | nil => rfl
  | cons v vs ih =>
    rw [encodeEach, ih]
    rfl

theorem inferTypes_eq : ∀ {types : List AbiType} {values : List AbiValue}, (∀ t ∈ types, ∀ v, HasType t v → inferType v = t) →
    List.Forall₂ HasType types values → inferTypes values = types
  | _, _, _, .nil => rfl
  | _, _, h, .cons hv hvs => by
    rw [inferTypes, h _ List.mem_cons_self _ hv, inferTypes_eq (fun t ht => h t (List.mem_cons_of_mem _ ht)) hvs]

/-- The encoder knows the type of a value. -/
theorem inferType_eq (t : AbiType) : ∀ v, HasType t v → inferType v = t := by
  induction t with
  | uint bits => rintro _ ⟨⟩; rfl
  | ufixed bits precision => rintro _ ⟨⟩; rfl
  | bool => rintro _ ⟨⟩; rfl
  | byte => rintro _ ⟨⟩; rfl
  | address => rintro _ ⟨⟩; rfl
  | string => rintro _ ⟨⟩; rfl
  | arrayStatic elem len ih => rintro _ ⟨⟩; rfl
  | arrayDynamic elem ih => rintro _ ⟨⟩; rfl
  | tuple children ih =>
    intro v hv
    cases hv with
    | tuple hvalues => rw [inferType, inferTypes_eq ih hvalues]

/-! ## Integers -/

theorem beBytes_zero (d : Nat) : beBytes d 0 = List.replicate d 0 := by
  induction d with
  | zero => rfl
  | succ d ih =>
    rw [beBytes, List.replicate_succ', ih]
    rfl

theorem beBytes_add (d : Nat) : ∀ {m num : Nat}, num < 256 ^ m → beBytes (m + d) num = List.replicate d 0 ++ beBytes m num
  | 0, num, h => by
    obtain rfl : num = 0 := by omega
    rw [Nat.zero_add, beBytes_zero]
    exact (List.append_nil _).symm
  | m + 1, num, h => by
    rw [Nat.pow_succ'] at h
    rw [Nat.add_right_comm, beBytes, beBytes, beBytes_add d (Nat.div_lt_of_lt_mul h), List.append_assoc]

theorem bitLen_le {num bits : Nat} (h : num < 2 ^ bits) : bitLen num ≤ bits := by
  unfold bitLen
  by_cases h0 : num = 0
  · rw [if_pos h0]
    exact Nat.zero_le _
  · rw [if_neg h0]
    exact (Nat.log2_lt h0).2 h

theorem lt_bitLen (num : Nat) : num < 2 ^ bitLen num := by
  unfold bitLen
  by_cases h0 : num = 0
  · rw [if_pos h0, h0]
    decide
  · rw [if_neg h0]
    exact Nat.lt_log2_self

theorem pow_bits {bits : Nat} (h : bits % 8 = 0) : 256 ^ (bits / 8) = 2 ^ bits := by
  rw [show (256 : Nat) = 2 ^ 8 from rfl, ← Nat.pow_mul, show 8 * (bits / 8) = bits by omega]

/-- An integer of a type is written with the bytes of the type. -/
theorem encodeUint_eq {num bits : Nat} (hbits : 8 ≤ bits) (hmod : bits % 8 = 0) (hnum : num < 2 ^ bits) :
    encodeUint num bits = .ok (beBytes (bits / 8) num) := by
  have hlen := bitLen_le hnum
  have hlt := lt_bitLen num
  have hraw : (toBytesBe num).length = max 1 (divCeil (bitLen num) 8) := Msgpack.length_beBytes _ _
  have hceil : bitLen num ≤ 8 * divCeil (bitLen num) 8 ∧ divCeil (bitLen num) 8 ≤ bits / 8 := by
    unfold divCeil
    omega
  have hfits : num < 256 ^ max 1 (divCeil (bitLen num) 8) := by
    refine Nat.lt_of_lt_of_le hlt ?_
    rw [show (256 : Nat) = 2 ^ 8 from rfl, ← Nat.pow_mul]
    exact Nat.pow_le_pow_right (by decide) (by omega)
  unfold encodeUint
  simp only
  rw [hraw, if_neg (by omega)]
  have hpad := beBytes_add (bits / 8 - max 1 (divCeil (bitLen num) 8)) hfits
  rw [Nat.add_sub_cancel' (by omega)] at hpad
  rw [hpad]
  rfl

/-! ## Sizes -/

theorem checkedAdd_eq_some {a b c : Nat} : checkedAdd a b = some c ↔ a + b = c ∧ a + b < u64Bound := by
  unfold checkedAdd
  split
  · rename_i h
    rw [Option.some.injEq, and_iff_left h]
  · rename_i h
    exact iff_of_false (fun heq => by cases heq) (fun hc => h hc.2)

theorem checkedMul_eq_some {a b c : Nat} : checkedMul a b = some c ↔ a * b = c ∧ a * b < u64Bound := by
  unfold checkedMul
  split
  · rename_i h
    rw [Option.some.injEq, and_iff_left h]
  · rename_i h
    exact iff_of_false (fun heq => by cases heq) (fun hc => h hc.2)

/-- The size of the head of a tuple. -/
def headSize (types : List AbiType) : Nat := headLen u16 (slots types)

variable {t : AbiType}

theorem headSize_child (ht : t.isBool = false) (ts : List AbiType) :
    headSize (t :: ts) = (slotOf t).size u16 + headSize ts := by
  unfold headSize
  rw [slots_child ht, headLen_cons]

/-- A run of bools, eight to a byte. -/
theorem headSize_bools {ts : List AbiType} (hclosed : Closed ts) : ∀ (n : Nat),
    headSize (List.replicate n .bool ++ ts) = divCeil n 8 + headSize ts := by
  intro n
  induction n using Nat.strongRecOn with
  | ind n ih =>
    unfold headSize at ih ⊢
    rcases Nat.eq_zero_or_pos n with rfl | hpos
    · show headLen u16 (slots ts) = 0 + _
      rw [Nat.zero_add]
    · by_cases hlong : n ≤ 8
      · obtain ⟨k, rfl⟩ : ∃ k, n = k + 1 := ⟨n - 1, by omega⟩
        have hone : divCeil (k + 1) 8 = 1 := by
          unfold divCeil
          omega
        rw [slots_bools (by omega) (.inr hclosed), headLen_cons, hone]
        rfl
      · have hcut : List.replicate n AbiType.bool ++ ts =
            List.replicate (7 + 1) .bool ++ (List.replicate (n - 8) .bool ++ ts) := by
          rw [← List.append_assoc, List.replicate_append_replicate, show 7 + 1 + (n - 8) = n by omega]
        have hceil : divCeil n 8 = 1 + divCeil (n - 8) 8 := by
          unfold divCeil
          omega
        rw [hcut, slots_bools (by omega) (.inl rfl), headLen_cons, ih (n - 8) (by omega), hceil, Nat.add_assoc]
        rfl

theorem size_slotOf {size : Nat} (h : t.childHeadLen = some size) : (slotOf t).size u16 = size := by
  unfold AbiType.childHeadLen at h
  unfold slotOf AbiType.byteLen
  split at h
  · rename_i hdyn
    rw [if_pos hdyn]
    exact Option.some.inj h
  · rename_i hdyn
    rw [if_neg hdyn, if_neg hdyn, h]
    rfl

theorem boolRun_map (types : List AbiType) :
    ((types.map (fun c => (c, c.childHeadLen))).takeWhile (fun c => c.1.isBool)).length = boolRun types := by
  unfold boolRun
  rw [List.takeWhile_map, List.length_map]
  rfl

/-- The sum of the source counts whole runs of bools, the record their bytes. -/
theorem headLenFrom_eq : ∀ (fuel : Nat) {types : List AbiType} {size n : Nat}, types.length ≤ fuel →
    headLenFrom fuel size (types.map (fun c => (c, c.childHeadLen))) = some n → n = size + headSize types
  | 0, types, size, n, hfuel, h => by
    rw [List.length_eq_zero_iff.1 (Nat.le_zero.1 hfuel)]
    exact (Option.some.inj h).symm
  | fuel + 1, [], size, n, _, h => (Option.some.inj h).symm
  | fuel + 1, t :: ts, size, n, hfuel, h => by
    rw [List.length_cons] at hfuel
    rw [List.map_cons, headLenFrom] at h
    by_cases ht : t.isBool = true
    · rw [if_pos ht, ← List.map_cons (f := fun c : AbiType => (c, c.childHeadLen)), boolRun_map] at h
      dsimp only at h
      rw [← List.map_drop] at h
      obtain ⟨rest, heq, hclosed⟩ := eq_replicate_append (t :: ts)
      have hrun := boolRun_cons_bool ht ts
      have hdrop : (t :: ts).drop (boolRun (t :: ts)) = rest :=
        (congrArg (List.drop (boolRun (t :: ts))) heq).trans (List.drop_left' List.length_replicate)
      have hlen := congrArg List.length heq
      rw [List.length_append, List.length_replicate, List.length_cons] at hlen
      obtain ⟨size', hadd, h⟩ := Option.bind_eq_some_iff.1 h
      obtain ⟨rfl, -⟩ := checkedAdd_eq_some.1 hadd
      rw [hdrop] at h
      have ih := headLenFrom_eq fuel (by omega) h
      rw [heq, headSize_bools hclosed, ih, Nat.add_assoc]
    · rw [if_neg ht] at h
      obtain ⟨len, hchild, h⟩ := Option.bind_eq_some_iff.1 h
      obtain ⟨size', hadd, h⟩ := Option.bind_eq_some_iff.1 h
      obtain ⟨rfl, -⟩ := checkedAdd_eq_some.1 hadd
      have ih := headLenFrom_eq fuel (by omega) h
      rw [headSize_child (Bool.eq_false_iff.2 ht), size_slotOf hchild, ih, Nat.add_assoc]

variable {types : List AbiType}

theorem headLen_tuple {n : Nat} (h : (AbiType.tuple types).headLen = some n) :
    n = headSize types := by
  rw [AbiType.headLen, AbiType.childHeadLens_eq] at h
  have := headLenFrom_eq types.length (Nat.le_refl _) h
  omega

/-- The head of an array. -/
theorem headSize_replicate_child (ht : t.isBool = false) {size : Nat} (h : t.childHeadLen = some size)
    (len : Nat) : headSize (List.replicate len t) = size * len := by
  induction len with
  | zero => rfl
  | succ len ih => rw [List.replicate_succ, headSize_child ht, ih, size_slotOf h, Nat.mul_succ, Nat.add_comm]

theorem headSize_replicate_bool (len : Nat) : headSize (List.replicate len .bool) = divCeil len 8 := by
  have h := @headSize_bools [] (fun _ h => (by cases h)) len
  rwa [List.append_nil] at h

variable {elem : AbiType}

theorem headLen_arrayStatic {len n : Nat} (h : (AbiType.arrayStatic elem len).headLen = some n) :
    n = headSize (List.replicate len elem) := by
  rw [AbiType.headLen] at h
  by_cases hbool : elem.isBool = true
  · rw [if_pos hbool] at h
    rw [eq_bool_of_isBool hbool, headSize_replicate_bool]
    exact (Option.some.inj h).symm
  · rw [if_neg hbool] at h
    obtain ⟨size, hchild, hmul⟩ := Option.bind_eq_some_iff.1 h
    rw [headSize_replicate_child (Bool.eq_false_iff.2 hbool) hchild]
    exact (checkedMul_eq_some.1 hmul).1.symm

/-- A record without offsets ends with its head. -/
theorem tails_partsOf (h : Cut types) : ∀ {es : List Bytes}, List.Forall₂ Fitting types es →
    (∀ t ∈ types, t.isDynamic = false) → tails (partsOf types es) = [] := by
  induction h with
  | nil =>
    intro es hfit _
    cases hfit
    rfl
  | @child t ts ht h ih =>
    intro es hfit hstatic
    cases hfit with
    | cons he hes =>
      rw [partsOf_child ht, pieceOf, hstatic t List.mem_cons_self, if_neg Bool.false_ne_true]
      exact ih hes (fun t' ht' => hstatic t' (List.mem_cons_of_mem _ ht'))
  | @bools k ts hk hend h ih =>
    intro es hfit hstatic
    obtain ⟨bits, rest, hbits, rfl, hrest⟩ := fitting_split hfit
    rw [partsOf_bools hk hend hbits]
    exact ih hrest (fun t' ht' => hstatic t' (List.mem_append_right _ ht'))

/-- The sizes of the heads that a type and its parts are made of. -/
theorem WellFormed.headLen_isSome (h : WellFormed t) : t.headLen.isSome := by
  cases h with
  | arrayStatic _ h => exact h
  | tuple _ h => exact h
  | _ => rfl

theorem WellFormed.byteLen_isSome (h : WellFormed t) (hstatic : t.isDynamic = false) : t.byteLen.isSome := by
  unfold AbiType.byteLen
  rw [hstatic, if_neg Bool.false_ne_true]
  exact h.headLen_isSome

theorem haveSizes (h : ∀ t ∈ types, WellFormed t) : HaveSizes types := fun t ht =>
  (h t ht).byteLen_isSome

theorem WellFormed.childHeadLen (h : WellFormed t) : ∃ size, t.childHeadLen = some size := by
  unfold AbiType.childHeadLen
  split
  · exact ⟨2, rfl⟩
  · exact Option.isSome_iff_exists.1 h.headLen_isSome

/-- A static tuple takes the size of its head. -/
theorem length_encodeTuple {values : List (AbiValue × Except String Bytes)} {data : Bytes}
    (hbools : List.Forall₂ BoolValue types values)
    (hfit : ∀ es, List.Forall₂ (fun v e => v.2 = .ok e) values es → List.Forall₂ Fitting types es)
    (hstatic : ∀ t ∈ types, t.isDynamic = false) (h : encodeTupleWithTypes values types = .ok data) :
    data.length = headSize types := by
  obtain ⟨es, hes, -, hwrite⟩ := (encodeTupleWithTypes_eq_ok hbools).1 h
  rw [← hwrite, write, tails_partsOf (cut types) (hfit es hes) hstatic, List.append_nil, length_heads,
    (partsOf_fitting (cut types) (hfit es hes)).1]
  rfl

/-! ## Encodings fit their types -/

variable {values : List AbiValue}

/-- The children of a tuple or an array, as values that the encoder is given. -/
theorem boolValues (h : List.Forall₂ HasType types values) :
    List.Forall₂ BoolValue types (encodeEach values) := by
  rw [encodeEach_eq, List.forall₂_map_right_iff]
  refine h.imp (fun t v hv ht => ?_)
  cases hv with
  | bool b => exact ⟨b, rfl⟩
  | _ => cases ht

theorem encodeEach_ok {es : List Bytes} :
    List.Forall₂ (fun v e => v.2 = .ok e) (encodeEach values) es ↔ List.Forall₂ (fun v e => encode v = .ok e) values es := by
  rw [encodeEach_eq, List.forall₂_map_left_iff]

theorem forall₂_replicate : ∀ {values : List AbiValue}, (∀ v ∈ values, HasType elem v) →
    List.Forall₂ HasType (List.replicate values.length elem) values
  | [], _ => .nil
  | v :: values, h => by
    rw [List.length_cons, List.replicate_succ]
    exact .cons (h v List.mem_cons_self) (forall₂_replicate (fun v' hv' => h v' (List.mem_cons_of_mem _ hv')))

/-- What is known of the encodings of one type. -/
def EncodesFitting (t : AbiType) : Prop := ∀ v e, HasType t v → encode v = .ok e → Fitting t e

theorem fitting_all : ∀ {types : List AbiType} {values : List AbiValue} {es : List Bytes},
    (∀ t ∈ types, EncodesFitting t) → List.Forall₂ HasType types values →
      List.Forall₂ (fun v e => encode v = .ok e) values es → List.Forall₂ Fitting types es
  | _, _, _, _, .nil, .nil => .nil
  | _, _, _, h, .cons hv hvs, .cons he hes =>
    .cons (h _ List.mem_cons_self _ _ hv he) (fitting_all (fun t ht => h t (List.mem_cons_of_mem _ ht)) hvs hes)

theorem isDynamic_replicate (h : elem.isDynamic = false) (len : Nat) :
    ∀ t ∈ List.replicate len elem, t.isDynamic = false := by
  intro t ht
  rw [List.eq_of_mem_replicate ht]
  exact h

/-- **Encodings have the size of their type.** -/
theorem encodes_fitting (t : AbiType) (hwf : WellFormed t) : EncodesFitting t := by
  induction t with
  | uint bits =>
    intro v e hv he
    cases hv with
    | uint hnum =>
      cases hwf with
      | uint hbits hmod =>
        rw [encode, encodeUint_eq hbits hmod hnum] at he
        cases he
        exact ⟨(fun h => by cases h), fun _ => by rw [Msgpack.length_beBytes]; rfl⟩
  | ufixed bits precision =>
    intro v e hv he
    cases hv with
    | ufixed hnum =>
      cases hwf with
      | ufixed hbits hmod =>
        rw [encode, encodeUint_eq hbits hmod hnum] at he
        cases he
        exact ⟨(fun h => by cases h), fun _ => by rw [Msgpack.length_beBytes]; rfl⟩
  | bool =>
    intro v e hv he
    cases hv with
    | bool b =>
      cases he
      exact ⟨fun _ => ⟨b, rfl⟩, fun _ => rfl⟩
  | byte =>
    intro v e hv he
    cases hv
    cases he
    exact ⟨(fun h => by cases h), fun _ => rfl⟩
  | address =>
    intro v e hv he
    cases hv
    rw [encode] at he
    rw [← Except.ok.inj he]
    exact ⟨(fun h => by cases h), fun _ => by rw [Msgpack.length_beBytes]; rfl⟩
  | string => exact fun _ _ _ _ => ⟨(fun h => by cases h), (fun h => by cases h)⟩
  | arrayDynamic elem ih => exact fun _ _ _ _ => ⟨(fun h => by cases h), (fun h => by cases h)⟩
  | arrayStatic elem len ih =>
    intro v e hv he
    refine ⟨(fun h => by cases h), fun hstatic => ?_⟩
    cases hv with
    | @arrayStatic _ values hvalues =>
      cases hwf with
      | arrayStatic helem hsize =>
        have htypes := forall₂_replicate hvalues
        obtain ⟨n, hn⟩ := Option.isSome_iff_exists.1 hsize
        rw [encode] at he
        have hlen := length_encodeTuple (boolValues htypes) (fun es hes =>
          fitting_all (fun t ht => by rw [List.eq_of_mem_replicate ht]; exact ih helem) htypes (encodeEach_ok.1 hes))
          (isDynamic_replicate (by rwa [AbiType.isDynamic] at hstatic) _) he
        unfold AbiType.byteLen
        rw [hstatic, if_neg Bool.false_ne_true, hn, hlen, headLen_arrayStatic hn]
  | tuple types ih =>
    intro v e hv he
    refine ⟨(fun h => by cases h), fun hstatic => ?_⟩
    cases hv with
    | @tuple _ values hvalues =>
      cases hwf with
      | tuple hchildren hsize =>
        obtain ⟨n, hn⟩ := Option.isSome_iff_exists.1 hsize
        rw [encode, inferTypes_eq (fun t _ => inferType_eq t) hvalues] at he
        have hall : ∀ t ∈ types, t.isDynamic = false := by
          intro t ht
          rw [AbiType.isDynamic, AbiType.anyDynamic_eq] at hstatic
          exact Bool.eq_false_iff.2 (List.any_eq_false.1 hstatic t ht)
        have hlen := length_encodeTuple (boolValues hvalues) (fun es hes =>
          fitting_all (fun t ht => ih t ht (hchildren t ht)) hvalues (encodeEach_ok.1 hes)) hall he
        unfold AbiType.byteLen
        rw [hstatic, if_neg Bool.false_ne_true, hn, hlen, headLen_tuple hn]

/-! ## The budget -/

theorem repeatedMinLen_eq (hwf : WellFormed elem) {len : Nat} (h : headSize (List.replicate len elem) < u64Bound) :
    repeatedMinLen elem len = some (headSize (List.replicate len elem)) := by
  unfold repeatedMinLen
  by_cases hbool : elem.isBool = true
  · rw [if_pos hbool, eq_bool_of_isBool hbool, headSize_replicate_bool]
  · obtain ⟨size, hsize⟩ := hwf.childHeadLen
    have hhead := headSize_replicate_child (Bool.eq_false_iff.2 hbool) hsize len
    rw [hhead] at h ⊢
    rw [if_neg hbool]
    unfold AbiType.childHeadLen at hsize
    unfold AbiType.byteLen
    by_cases hdyn : elem.isDynamic = true
    · rw [if_pos hdyn] at hsize ⊢
      obtain rfl := Option.some.inj hsize
      rw [Nat.mul_comm] at h ⊢
      exact checkedMul_eq_some.2 ⟨rfl, h⟩
    · rw [if_neg hdyn] at hsize ⊢
      rw [if_neg hdyn, hsize]
      exact checkedMul_eq_some.2 ⟨rfl, h⟩

/-- The elements that the check counts are those that take no bytes. -/
theorem zeroSizeElemsHere_eq (hwf : WellFormed elem) (len : Nat) :
    zeroSizeElemsHere elem len = if headSize (List.replicate len elem) = 0 then len else 0 := by
  unfold zeroSizeElemsHere
  by_cases hbool : elem.isBool = true
  · rw [eq_bool_of_isBool hbool, headSize_replicate_bool, if_neg (by decide)]
    split
    · rename_i h
      unfold divCeil at h
      omega
    · rfl
  · obtain ⟨size, hsize⟩ := hwf.childHeadLen
    rw [headSize_replicate_child (Bool.eq_false_iff.2 hbool) hsize]
    unfold AbiType.childHeadLen at hsize
    unfold AbiType.byteLen
    by_cases hdyn : elem.isDynamic = true
    · rw [if_pos hdyn] at hsize ⊢
      obtain rfl := Option.some.inj hsize
      rw [if_neg (fun h => by cases h)]
      split <;> omega
    · rw [if_neg hdyn] at hsize ⊢
      rw [hsize]
      by_cases hzero : size = 0
      · rw [hzero, if_pos rfl, Nat.zero_mul, if_pos rfl]
      · rw [if_neg (fun h => hzero (Option.some.inj h))]
        split
        · rename_i h
          exact ((Nat.mul_eq_zero.1 h).resolve_left hzero).symm
        · rfl

/-- The check of an array that has room for its head. -/
theorem checkRepeatedMinLen_ok (hwf : WellFormed elem) {len available budget : Nat}
    (hroom : headSize (List.replicate len elem) ≤ available) (havailable : available < u64Bound)
    (hbudget : zeroSizeElemsHere elem len ≤ budget) :
    checkRepeatedMinLen elem len available budget = .ok () (budget - zeroSizeElemsHere elem len) := by
  rw [zeroSizeElemsHere_eq hwf] at hbudget ⊢
  unfold checkRepeatedMinLen
  rw [repeatedMinLen_eq hwf (Nat.lt_of_le_of_lt hroom havailable)]
  cases hmin : headSize (List.replicate len elem) with
  | zero =>
    rw [hmin, if_pos rfl] at hbudget
    rw [if_pos rfl]
    show (if len ≤ budget then set (budget - len) else throw _ : EStateM String Nat Unit) budget = _
    rw [if_pos hbudget]
    rfl
  | succ min =>
    rw [hmin] at hroom
    rw [if_neg (Nat.succ_ne_zero min), Nat.sub_zero]
    show (if min + 1 ≤ available then pure () else throw _ : EStateM String Nat Unit) budget = _
    rw [if_pos hroom]
    rfl

/-! ## Values are read back -/

theorem mapM_decodeInner (elem : AbiType) : ∀ (segments : List Bytes),
    segments.mapM (decodeInner elem) = decodeChildren (List.replicate segments.length elem) segments
  | [] => rfl
  | segment :: segments => by
    rw [List.mapM_cons, mapM_decodeInner elem segments, List.length_cons, List.replicate_succ, decodeChildren]

/-- What is known of the decoder at one type. -/
def DecodesEncoded (t : AbiType) : Prop := ∀ v e budget, HasType t v → encode v = .ok e → e.length < u64Bound →
  zeroSizeElems v ≤ budget → decodeInner t e budget = .ok v (budget - zeroSizeElems v)

theorem decodeChildren_encode : ∀ {types : List AbiType} {values : List AbiValue} {es : List Bytes} {budget : Nat},
    (∀ t ∈ types, DecodesEncoded t) → List.Forall₂ HasType types values →
      List.Forall₂ (fun v e => encode v = .ok e) values es → (∀ e ∈ es, e.length < u64Bound) →
      zeroSizeElemsAll values ≤ budget → decodeChildren types es budget = .ok values (budget - zeroSizeElemsAll values)
  | _, _, _, _, _, .nil, .nil, _, _ => rfl
  | t :: types, v :: values, e :: es, budget, h, .cons hv hvs, .cons he hes, hlen, hbudget => by
    rw [zeroSizeElemsAll] at hbudget ⊢
    have hhead := h t List.mem_cons_self v _ budget hv he (hlen _ List.mem_cons_self) (by omega)
    have hrest := @decodeChildren_encode types values es (budget - zeroSizeElems v)
      (fun t' ht' => h t' (List.mem_cons_of_mem _ ht')) hvs hes (fun e' he' => hlen e' (List.mem_cons_of_mem _ he'))
        (by omega)
    rw [decodeChildren]
    refine Run.state_bind_eq_ok.2 ⟨v, _, hhead, Run.state_bind_eq_ok.2 ⟨values, _, hrest, ?_⟩⟩
    rw [Nat.sub_sub]
    rfl

/-- **A tuple of encoded children is decoded.** -/
theorem decodeTuple_encode {data : Bytes} {budget : Nat}
    (hwf : ∀ t ∈ types, WellFormed t) (hdecode : ∀ t ∈ types, DecodesEncoded t) (hvalues : List.Forall₂ HasType types values)
    (h : encodeTupleWithTypes (encodeEach values) types = .ok data) (hlen : data.length < u64Bound)
    (hbudget : zeroSizeElemsAll values ≤ budget) : headSize types ≤ data.length ∧ ∃ segments,
      tupleSegments types data = .ok segments ∧ segments.length = types.length ∧
        decodeChildren types segments budget = .ok values (budget - zeroSizeElemsAll values) := by
  have hfit : ∀ es, List.Forall₂ (fun v e => v.2 = .ok e) (encodeEach values) es → List.Forall₂ Fitting types es :=
    fun es hes => fitting_all (fun t ht => encodes_fitting t (hwf t ht)) hvalues (encodeEach_ok.1 hes)
  obtain ⟨es, hes, -, -, hhead, hsegments⟩ := tupleSegments_encode (haveSizes hwf) (boolValues hvalues) hfit h
  have hsegments := hsegments hlen
  refine ⟨hhead, es, hsegments, (hfit es hes).length_eq.symm, ?_⟩
  exact decodeChildren_encode hdecode hvalues (encodeEach_ok.1 hes) (length_segment_lt hlen (haveSizes hwf) hsegments) hbudget

theorem lift_ok {β : Type} (b : β) (budget : Nat) : lift (.ok b) budget = .ok b budget := rfl

theorem decodeFixed_ok {what : String} {byteLen : Nat} {data : Bytes} (h : data.length = byteLen) (v : AbiValue)
    (budget : Nat) :
    decodeFixed what byteLen data v budget = .ok v budget := by
  unfold decodeFixed
  rw [if_neg (fun hne => hne h)]
  rfl

/-- **What was encoded is decoded.** -/
theorem decodeInner_encode (t : AbiType) (hwf : WellFormed t) : DecodesEncoded t := by
  induction t with
  | uint bits =>
    intro v e budget hv he _ _
    cases hv with
    | uint hnum =>
      cases hwf with
      | uint hbits hmod =>
        rw [encode, encodeUint_eq hbits hmod hnum] at he
        rw [← Except.ok.inj he, decodeInner, decodeFixed_ok (Msgpack.length_beBytes _ _),
          Network.beNat_beBytes (by rwa [pow_bits hmod])]
        rfl
  | ufixed bits precision =>
    intro v e budget hv he _ _
    cases hv with
    | ufixed hnum =>
      cases hwf with
      | ufixed hbits hmod =>
        rw [encode, encodeUint_eq hbits hmod hnum] at he
        rw [← Except.ok.inj he, decodeInner, decodeFixed_ok (Msgpack.length_beBytes _ _),
          Network.beNat_beBytes (by rwa [pow_bits hmod])]
        rfl
  | bool =>
    intro v e budget hv he _ _
    cases hv with
    | bool b =>
      cases he
      cases b <;> rfl
  | byte =>
    intro v e budget hv he _ _
    cases hv
    cases he
    rfl
  | address =>
    intro v e budget hv he _ _
    cases hv with
    | address bytes =>
      rw [encode] at he
      rw [← Except.ok.inj he, decodeInner, decodeFixed_ok (Msgpack.length_beBytes _ _),
        Network.beNat_beBytes (Nat.lt_of_lt_of_le bytes.isLt (by decide)), BitVec.ofNat_toNat, BitVec.setWidth_eq]
      rfl
  | string =>
    intro v e budget hv he _ _
    cases hv with
    | string bytes =>
      rw [encode] at he
      split at he
      · cases he
      · rename_i hle
        have hwidth := Msgpack.length_beBytes 2 bytes.length
        have htake : beNat ((beBytes 2 bytes.length ++ bytes).take 2) = bytes.length := by
          rw [List.take_left' hwidth, Network.beNat_beBytes (show bytes.length < 256 ^ 2 by omega)]
        rw [← Except.ok.inj he, decodeInner, htake, List.length_append, hwidth, if_neg (by omega),
          if_neg (fun hne => hne rfl), List.drop_left' hwidth]
        rfl
  | arrayStatic elem len ih =>
    intro v e budget hv he hlen hbudget
    cases hv with
    | @arrayStatic _ values hvalues =>
      cases hwf with
      | arrayStatic helem _ =>
        rw [encode] at he
        rw [zeroSizeElems] at hbudget ⊢
        obtain ⟨hroom, segments, hsegments, hcount, hchildren⟩ := @decodeTuple_encode _ _ _
          (budget - zeroSizeElemsHere elem values.length) (fun t ht => by rw [List.eq_of_mem_replicate ht]; exact helem)
          (fun t ht => by rw [List.eq_of_mem_replicate ht]; exact ih helem) (forall₂_replicate hvalues) he hlen (by omega)
        rw [List.length_replicate] at hcount
        rw [decodeInner]
        refine Run.state_bind_eq_ok.2 ⟨(), _, checkRepeatedMinLen_ok helem hroom hlen (by omega),
          Run.state_bind_eq_ok.2 ⟨segments, _, by rw [hsegments]; exact lift_ok _ _, ?_⟩⟩
        rw [mapM_decodeInner, hcount, ← Nat.sub_sub]
        exact Run.state_bind_eq_ok.2 ⟨values, _, hchildren, rfl⟩
  | arrayDynamic elem ih =>
    intro v e budget hv he hlen hbudget
    cases hv with
    | @arrayDynamic _ values hvalues =>
      cases hwf with
      | arrayDynamic helem =>
        rw [encode] at he
        rw [zeroSizeElems] at hbudget ⊢
        split at he
        · cases he
        · rename_i hle
          obtain ⟨body, hbody, hret⟩ := Run.bind_eq_ok.1 he
          obtain rfl := Except.ok.inj hret
          have hwidth := Msgpack.length_beBytes 2 values.length
          rw [List.length_append, hwidth] at hlen
          have htake : beNat ((beBytes 2 values.length ++ body).take 2) = values.length := by
            rw [List.take_left' hwidth, Network.beNat_beBytes (show values.length < 256 ^ 2 by omega)]
          obtain ⟨hroom, segments, hsegments, hcount, hchildren⟩ := @decodeTuple_encode _ _ _
            (budget - zeroSizeElemsHere elem values.length) (fun t ht => by rw [List.eq_of_mem_replicate ht]; exact helem)
            (fun t ht => by rw [List.eq_of_mem_replicate ht]; exact ih helem) (forall₂_replicate hvalues) hbody (by omega)
            (by omega)
          rw [List.length_replicate] at hcount
          rw [decodeInner, if_neg (by rw [List.length_append, hwidth]; omega), htake, List.drop_left' hwidth,
            List.length_append, hwidth, Nat.add_sub_cancel_left]
          refine Run.state_bind_eq_ok.2 ⟨(), _, checkRepeatedMinLen_ok helem hroom (by omega) (by omega),
            Run.state_bind_eq_ok.2 ⟨segments, _, by rw [hsegments]; exact lift_ok _ _, ?_⟩⟩
          rw [mapM_decodeInner, hcount, ← Nat.sub_sub]
          exact Run.state_bind_eq_ok.2 ⟨values, _, hchildren, rfl⟩
  | tuple types ih =>
    intro v e budget hv he hlen hbudget
    cases hv with
    | @tuple _ values hvalues =>
      cases hwf with
      | tuple hchildren _ =>
        rw [encode, inferTypes_eq (fun t _ => inferType_eq t) hvalues] at he
        rw [zeroSizeElems] at hbudget ⊢
        obtain ⟨-, segments, hsegments, -, hrun⟩ := decodeTuple_encode hchildren
          (fun t ht => ih t ht (hchildren t ht)) hvalues
          he hlen hbudget
        rw [decodeInner]
        exact Run.state_bind_eq_ok.2 ⟨segments, _, by rw [hsegments]; exact lift_ok _ _,
          Run.state_bind_eq_ok.2 ⟨values, _, hrun, rfl⟩⟩

/-- **Round trip**: of a type that has a name, every value that can be encoded is decoded from its encoding.  The decoder
expands at most 2^20 elements that take no bytes; an encoding is in memory, so that its length is one of 64 bits. -/
theorem decode_encode {s : String} {t : AbiType} {v : AbiValue} {b : Bytes} (ht : typeOf s = .ok t) (hv : HasType t v)
    (hzero : zeroSizeElems v ≤ 2 ^ 20) (hlen : b.length < 2 ^ 64) (h : encode v = .ok b) : decode t b = .ok v := by
  unfold decode
  rw [decodeInner_encode t (typeOf_wellFormed ht) v b maxZeroSizeElems hv h hlen hzero]

/-- Two bools in one byte, an array of strings behind its offset, another bool, and two elements without bytes. -/
theorem decode_encode_sample : decode (.tuple [.bool, .bool, .arrayDynamic .string, .bool, .arrayStatic (.tuple []) 2])
    [0xc0, 0x00, 0x04, 0x00, 0x00, 0x01, 0x00, 0x02, 0x00, 0x01, 0x61] =
      .ok (.tuple [.bool true, .bool true, .arrayDynamic [.string [0x61]] .string, .bool false,
        .arrayStatic [.tuple [], .tuple []] (.tuple [])]) := by
  have ht : typeOf "(bool,bool,string[],bool,()[2])" =
      .ok (.tuple [.bool, .bool, .arrayDynamic .string, .bool, .arrayStatic (.tuple []) 2]) := by rfl
  refine decode_encode ht ?_ (by decide) (by decide) (by rfl)
  refine .tuple (.cons (.bool true) (.cons (.bool true) (.cons ?_ (.cons (.bool false) (.cons ?_ .nil)))))
  · exact .arrayDynamic (fun v hv => by rw [List.eq_of_mem_singleton hv]; exact .string _)
  · refine @HasType.arrayStatic (.tuple []) [.tuple [], .tuple []] (fun v hv => ?_)
    have hv' : v = .tuple [] := by simpa using hv
    rw [hv']
    exact .tuple .nil

end Abi
end Algod
