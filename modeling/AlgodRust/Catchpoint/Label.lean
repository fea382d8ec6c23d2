import AlgodRust.Codec.Canonical
import AlgodRust.Lib.Numeral
/-!
# Label — what a catchpoint label binds

`catchpoint/verify.rs`: a label is a round and the hash of a buffer that has no tag and no lengths: two hashes, the
account totals as a MessagePack map in which zero fields are left out, and one or three further hashes from version 7
and 8 on.  Since no encoding of totals continues into another one, the buffer determines its parts and its version.

The hash function and the base 32 encoding are parameters.
-/
namespace Algod
namespace Catchpoint

open Msgpack (Bytes Value beBytes)
open Codec (utf8 Field addU64 addMap presentFields canonicalMap)
open Numeral (Str)

/-! ## Account totals -/

structure AlgoCount where
  money : UInt64
  rewardUnits : UInt64
deriving DecidableEq, Repr

structure AccountTotals where
  online : AlgoCount
  offline : AlgoCount
  notParticipating : AlgoCount
  rewardsLevel : UInt64
deriving DecidableEq, Repr

def encodeMsgpackUint (v : UInt64) : Bytes :=
  let n := v.toNat
  if n ≤ 0x7f then [UInt8.ofNat n]
  else if n ≤ 0xff then 0xcc :: beBytes 1 n
  else if n ≤ 0xffff then 0xcd :: beBytes 2 n
  else if n ≤ 0xffffffff then 0xce :: beBytes 4 n
  else 0xcf :: beBytes 8 n

def mapHeader (len : Nat) : Bytes :=
  if len ≤ 15 then [UInt8.ofNat (0x80 ||| len)]
  else if len ≤ 0xffff then 0xde :: beBytes 2 len
  else 0xdf :: beBytes 4 len

def keyHeader (klen : Nat) : Bytes :=
  if klen ≤ 31 then [UInt8.ofNat (0xa0 ||| klen)]
  else if klen ≤ 0xff then 0xd9 :: beBytes 1 klen
  else 0xda :: beBytes 2 klen

/-- A map from names to values that are encoded already. -/
def encodeMixedMap (entries : List (String × Bytes)) : Bytes :=
  mapHeader entries.length ++ entries.flatMap fun kv => keyHeader (utf8 kv.1).length ++ utf8 kv.1 ++ kv.2

def encodeStringUintMap (entries : List (String × UInt64)) : Bytes :=
  encodeMixedMap (entries.map fun (k, v) => (k, encodeMsgpackUint v))

def encodeAlgoCount (ac : AlgoCount) : Bytes :=
  encodeStringUintMap
    ((if ac.money ≠ 0 then [("mon", ac.money)] else []) ++
      (if ac.rewardUnits ≠ 0 then [("rwd", ac.rewardUnits)] else []))

/-- A class of accounts is left out where it is all zero. -/
def countEntry (key : String) (ac : AlgoCount) : List (String × Bytes) :=
  if ¬(ac.money = 0 ∧ ac.rewardUnits = 0) then [(key, encodeAlgoCount ac)] else []

def encodeAccountTotals (totals : AccountTotals) : Bytes :=
  encodeMixedMap
    (countEntry "notpart" totals.notParticipating ++ countEntry "offline" totals.offline ++
      countEntry "online" totals.online ++
      (if totals.rewardsLevel ≠ 0 then [("rwdlvl", encodeMsgpackUint totals.rewardsLevel)] else []))

/-! ## Labels -/

/-- The hash function and the two directions of the base 32 encoding without padding. -/
structure Libs where
  sha512_256 : Bytes → Bytes32
  base32Encode : Bytes → Str
  base32Decode : Str → Except String Bytes

def bytes32 (h : Bytes32) : Bytes := beBytes 32 h.toNat

def v6Buffer (blockHash balancesRoot : Bytes32) (totals : AccountTotals) : Bytes :=
  bytes32 blockHash ++ bytes32 balancesRoot ++ encodeAccountTotals totals

section Make

variable (libs : Libs)

/-- The decimal digits of the round, and the hash of a buffer. -/
def formatLabel (round : UInt64) (buf : Bytes) : Str :=
  Nat.toDigits 10 round.toNat ++ '#' :: libs.base32Encode (bytes32 (libs.sha512_256 buf))

def makeCatchpointLabelV6 (round : UInt64) (blockHash balancesRoot : Bytes32) (totals : AccountTotals) : Str :=
  formatLabel libs round (v6Buffer blockHash balancesRoot totals)

def makeCatchpointLabelV7 (round : UInt64) (blockHash balancesRoot : Bytes32) (totals : AccountTotals)
    (spHash : Bytes32) : Str :=
  formatLabel libs round (v6Buffer blockHash balancesRoot totals ++ bytes32 spHash)

def makeCatchpointLabelV8 (round : UInt64) (blockHash balancesRoot : Bytes32) (totals : AccountTotals)
    (spHash onlineAcctsHash onlineRoundParamsHash : Bytes32) : Str :=
  formatLabel libs round (v6Buffer blockHash balancesRoot totals ++ bytes32 spHash ++ bytes32 onlineAcctsHash ++
    bytes32 onlineRoundParamsHash)

structure CatchpointLabel where
  round : UInt64
  hash : Bytes
deriving DecidableEq, Repr

/-- The digits of a `u64`, read from the left, with the texts of its errors. -/
def parseDigits : Nat → Str → Except String Nat
  | value, [] => .ok value
  | value, c :: s =>
    match Numeral.digitOf 10 c with
    | none => .error "invalid digit found in string"
    | some d =>
      if value * 10 + d ≤ Numeral.u64Max then parseDigits (value * 10 + d) s
      else .error "number too large to fit in target type"

def parseU64 : Str → Except String UInt64
  | [] => .error "cannot parse integer from empty string"
  | ['+'] => .error "invalid digit found in string"
  | '+' :: digits => (parseDigits 0 digits).map UInt64.ofNat
  | digits => (parseDigits 0 digits).map UInt64.ofNat

/-- The texts of `LabelParsingFailed`. -/
def parseCatchpointLabel (label : Str) : Except String CatchpointLabel :=
  match label.splitOn '#' with
  | [roundPart, hashPart] => do
    let round ← (parseU64 roundPart).mapError fun e =>
      "invalid round number '" ++ String.ofList roundPart ++ "': " ++ e
    let hashBytes ← (libs.base32Decode hashPart).mapError fun e =>
      "invalid base32 hash '" ++ String.ofList hashPart ++ "': " ++ e
    if hashBytes.length > 32 then
      .error ("hash too long: " ++ toString hashBytes.length ++ " bytes (max 32)")
    else .ok ⟨round, hashBytes ++ List.replicate (32 - hashBytes.length) 0⟩
  | parts => .error ("expected exactly one '#' separator, got " ++ toString parts.length ++ " parts")

end Make

/-! ## The encoding of the totals -/

theorem encodeMsgpackUint_eq (v : UInt64) : encodeMsgpackUint v = (Value.uint v.toNat).encode := by
  have hform (n : Nat) : (⟨.uint, n⟩ : Msgpack.Header).form =
      if n ≤ 127 then (n, 0) else if n ≤ 0xff then (0xcc, 1) else if n ≤ 0xffff then (0xcd, 2)
      else if n ≤ 0xffffffff then (0xce, 4) else (0xcf, 8) := rfl
  change encodeMsgpackUint v = (⟨.uint, v.toNat⟩ : Msgpack.Header).bytes
  unfold encodeMsgpackUint Msgpack.Header.bytes
  rw [hform]
  dsimp only
  generalize v.toNat = n
  split_ifs <;> rfl

theorem mapHeader_eq {n : Nat} (h : n ≤ 15) : mapHeader n = (⟨.map, n⟩ : Msgpack.Header).bytes := by
  have hcases : ∀ n ≤ 15, mapHeader n = (⟨.map, n⟩ : Msgpack.Header).bytes := by decide
  exact hcases n h

theorem keyHeader_eq {n : Nat} (h : n ≤ 31) : keyHeader n = (⟨.str, n⟩ : Msgpack.Header).bytes := by
  have hcases : ∀ n ≤ 31, keyHeader n = (⟨.str, n⟩ : Msgpack.Header).bytes := by decide
  exact hcases n h

/-- The value of a map with names for keys. -/
def mapValue (fields : List (String × Value)) : Value := .map (fields.flatMap fun kv => [.str (utf8 kv.1), kv.2])

/-- A short map of short names is written as MessagePack writes it. -/
theorem encodeMixedMap_eq {fields : List (String × Value)} (hlen : fields.length ≤ 15)
    (hkeys : ∀ kv ∈ fields, (utf8 kv.1).length ≤ 31) :
    encodeMixedMap (fields.map fun kv => (kv.1, kv.2.encode)) = (mapValue fields).encode := by
  have hbody : ∀ l : List (String × Value), (∀ kv ∈ l, (utf8 kv.1).length ≤ 31) →
      ((l.map fun kv => (kv.1, kv.2.encode)).flatMap fun kv =>
        keyHeader (utf8 kv.1).length ++ utf8 kv.1 ++ kv.2) =
      Value.encodeAll (l.flatMap fun kv => [.str (utf8 kv.1), kv.2]) ∧
      (l.flatMap fun kv => [Value.str (utf8 kv.1), kv.2]).length = 2 * l.length := by
    intro l
    induction l with
    | nil => exact fun _ => ⟨rfl, rfl⟩
    | cons kv l ih =>
      intro hl
      obtain ⟨ih1, ih2⟩ := ih fun kv' h => hl kv' (List.mem_cons_of_mem _ h)
      have hkey := hl kv List.mem_cons_self
      have hmod : (utf8 kv.1).length % 2 ^ 32 = (utf8 kv.1).length := Nat.mod_eq_of_lt (by omega)
      constructor
      · rw [List.map_cons, List.flatMap_cons, ih1]
        simp only [List.flatMap_cons, List.cons_append, List.nil_append, Value.encodeAll, Value.encode, Value.header,
          hmod, keyHeader_eq hkey, List.append_assoc]
      · simp only [List.flatMap_cons, List.length_append, List.length_cons, List.length_nil, ih2]
        omega
  obtain ⟨h1, h2⟩ := hbody fields hkeys
  unfold encodeMixedMap mapValue
  rw [h1, List.length_map, mapHeader_eq hlen]
  simp only [Value.encode, Value.header, h2]
  have hmod : 2 * fields.length / 2 % 2 ^ 32 = fields.length := by omega
  rw [hmod]

variable {fields : List Field}

/-- Fields in the order of their names are a map as it stands. -/
theorem canonicalMap_eq (h : (fields.map Prod.fst).Pairwise (fun a b => (compare (utf8 a) (utf8 b)).isLE = true)) :
    canonicalMap fields = mapValue (presentFields fields) := by
  apply Codec.canonicalMap_of_sorted
  rw [List.pairwise_map] at h
  unfold presentFields
  rw [List.pairwise_filterMap]
  refine h.imp fun {a b} hab x hx y hy => ?_
  obtain ⟨v, -, rfl⟩ := Option.map_eq_some_iff.1 hx
  obtain ⟨w, -, rfl⟩ := Option.map_eq_some_iff.1 hy
  exact hab

def countFields (ac : AlgoCount) : List Field :=
  [("mon", addU64 ac.money.toNat), ("rwd", addU64 ac.rewardUnits.toNat)]

def countValue (ac : AlgoCount) : Value := canonicalMap (countFields ac)

def totalsFields (t : AccountTotals) : List Field :=
  [("notpart", addMap (countValue t.notParticipating)), ("offline", addMap (countValue t.offline)),
   ("online", addMap (countValue t.online)), ("rwdlvl", addU64 t.rewardsLevel.toNat)]

def totalsValue (t : AccountTotals) : Value := canonicalMap (totalsFields t)

theorem present_keys (h : ∀ k ∈ fields.map Prod.fst, (utf8 k).length ≤ 31) :
    ∀ kv ∈ presentFields fields, (utf8 kv.1).length ≤ 31 := by
  intro kv hkv
  obtain ⟨f, hf, hv⟩ := List.mem_filterMap.1 hkv
  obtain ⟨v, -, rfl⟩ := Option.map_eq_some_iff.1 hv
  exact h f.1 (List.mem_map_of_mem hf)

/-- Names that are short, distinct and in order. -/
def Names (names : List String) : Prop :=
  (∀ k ∈ names, (utf8 k).length ≤ 31) ∧ names.Nodup ∧
    names.Pairwise (fun a b => (compare (utf8 a) (utf8 b)).isLE = true) ∧ names.length ≤ 15

instance (names : List String) : Decidable (Names names) := inferInstanceAs (Decidable (_ ∧ _))

theorem countNames (ac : AlgoCount) : Names ((countFields ac).map Prod.fst) := by
  have hnames : Names ["mon", "rwd"] := by decide
  exact hnames

theorem totalsNames (t : AccountTotals) : Names ((totalsFields t).map Prod.fst) := by
  have hnames : Names ["notpart", "offline", "online", "rwdlvl"] := by decide
  exact hnames

/-- What is in a map is written as MessagePack writes it. -/
theorem encode_canonicalMap (h : Names (fields.map Prod.fst)) :
    (canonicalMap fields).encode = encodeMixedMap ((presentFields fields).map fun kv => (kv.1, kv.2.encode)) := by
  obtain ⟨hkeys, -, hsorted, hlen⟩ := h
  rw [List.length_map] at hlen
  have hpresent : (presentFields fields).length ≤ fields.length := List.length_filterMap_le _ _
  rw [canonicalMap_eq hsorted, encodeMixedMap_eq (by omega) (present_keys hkeys)]

theorem toNat_ne_zero {v : UInt64} : v ≠ 0 ↔ v.toNat ≠ 0 := not_congr UInt64.toNat_inj.symm

theorem encodeAlgoCount_eq (ac : AlgoCount) : encodeAlgoCount ac = (countValue ac).encode := by
  unfold countValue
  rw [encode_canonicalMap (countNames ac)]
  unfold encodeAlgoCount encodeStringUintMap presentFields countFields addU64
  simp only [toNat_ne_zero]
  by_cases h1 : ac.money.toNat = 0 <;> by_cases h2 : ac.rewardUnits.toNat = 0 <;>
    simp [h1, h2, encodeMsgpackUint_eq]

theorem addMap_countValue (ac : AlgoCount) :
    addMap (countValue ac) = if ¬(ac.money = 0 ∧ ac.rewardUnits = 0) then some (countValue ac) else none := by
  have hz : ∀ v : UInt64, v = 0 ↔ v.toNat = 0 := fun v => UInt64.toNat_inj.symm
  unfold countValue
  rw [canonicalMap_eq (countNames ac).2.2.1]
  unfold mapValue presentFields countFields addU64
  simp only [hz]
  by_cases h1 : ac.money.toNat = 0 <;> by_cases h2 : ac.rewardUnits.toNat = 0 <;> simp [h1, h2, addMap]

/-- **The totals are written as MessagePack writes their value.** -/
theorem encodeAccountTotals_eq (t : AccountTotals) : encodeAccountTotals t = (totalsValue t).encode := by
  unfold totalsValue
  rw [encode_canonicalMap (totalsNames t)]
  unfold encodeAccountTotals
  congr 1
  have hcount (key : String) (ac : AlgoCount) :
      countEntry key ac = (presentFields [(key, addMap (countValue ac))]).map fun kv => (kv.1, kv.2.encode) := by
    unfold countEntry presentFields
    rw [addMap_countValue, encodeAlgoCount_eq]
    split <;> rfl
  have hlevel : (if t.rewardsLevel ≠ 0 then [("rwdlvl", encodeMsgpackUint t.rewardsLevel)] else []) =
      (presentFields [("rwdlvl", addU64 t.rewardsLevel.toNat)]).map fun kv => (kv.1, kv.2.encode) := by
    unfold presentFields addU64
    simp only [toNat_ne_zero, encodeMsgpackUint_eq]
    split <;> rfl
  rw [hcount, hcount, hcount, hlevel, ← List.map_append, ← List.map_append, ← List.map_append]
  unfold presentFields totalsFields
  rw [← List.filterMap_append, ← List.filterMap_append, ← List.filterMap_append]
  rfl

theorem uint_valid (v : UInt64) : (Value.uint v.toNat).valid = true := decide_eq_true v.toNat_lt

/-- A short map of short names and valid values. -/
theorem canonicalMap_valid (h : Names (fields.map Prod.fst))
    (hvalues : ∀ f ∈ fields, ∀ v, f.2 = some v → v.valid = true) : (canonicalMap fields).valid = true := by
  obtain ⟨hkeys, -, -, hlen⟩ := h
  rw [List.length_map] at hlen
  have hpresent : (presentFields fields).length ≤ fields.length := List.length_filterMap_le _ _
  refine Codec.canonicalMap_valid (by omega) (List.all_eq_true.2 fun kv hkv => ?_)
  have hkey := present_keys hkeys kv hkv
  obtain ⟨f, hf, hv⟩ := List.mem_filterMap.1 hkv
  obtain ⟨v, hfv, rfl⟩ := Option.map_eq_some_iff.1 hv
  rw [Bool.and_eq_true, decide_eq_true_eq]
  exact ⟨by omega, hvalues f hf v hfv⟩

theorem addU64_valid {u : UInt64} {v : Value} (h : addU64 u.toNat = some v) : v.valid = true := by
  unfold addU64 at h
  split at h
  · cases h
    exact uint_valid u
  · cases h

theorem countValue_valid (ac : AlgoCount) : (countValue ac).valid = true := by
  refine canonicalMap_valid (countNames ac) fun f hf v hv => ?_
  simp only [countFields, List.mem_cons, List.not_mem_nil, or_false] at hf
  rcases hf with rfl | rfl
  · exact addU64_valid hv
  · exact addU64_valid hv

theorem totalsValue_valid (t : AccountTotals) : (totalsValue t).valid = true := by
  have hcount {ac : AlgoCount} {v : Value} (h : addMap (countValue ac) = some v) : v.valid = true := by
    rw [addMap_countValue] at h
    split at h
    · cases h
      exact countValue_valid ac
    · cases h
  refine canonicalMap_valid (totalsNames t) fun f hf v hv => ?_
  simp only [totalsFields, List.mem_cons, List.not_mem_nil, or_false] at hf
  rcases hf with rfl | rfl | rfl | rfl
  · exact hcount hv
  · exact hcount hv
  · exact hcount hv
  · exact addU64_valid hv

theorem countValue_inj {ac ac' : AlgoCount} (h : countValue ac = countValue ac') : ac = ac' := by
  have hfields : countFields ac = countFields ac' := Codec.canonicalMap_inj rfl (countNames ac).2.1 h
  simp only [countFields, List.cons.injEq, Prod.mk.injEq, true_and, and_true] at hfields
  have hmoney : ac.money = ac'.money := UInt64.toNat_inj.1 (Codec.addU64_inj hfields.1)
  have hunits : ac.rewardUnits = ac'.rewardUnits := UInt64.toNat_inj.1 (Codec.addU64_inj hfields.2)
  cases ac
  cases ac'
  exact (AlgoCount.mk.injEq ..).mpr ⟨hmoney, hunits⟩

theorem totalsValue_inj {t t' : AccountTotals} (h : totalsValue t = totalsValue t') : t = t' := by
  have hfields : totalsFields t = totalsFields t' := Codec.canonicalMap_inj rfl (totalsNames t).2.1 h
  simp only [totalsFields, List.cons.injEq, Prod.mk.injEq, true_and, and_true] at hfields
  obtain ⟨hnotpart, hoffline, honline, hlevel⟩ := hfields
  have hnotpart := countValue_inj (Codec.addMap_inj hnotpart)
  have hoffline := countValue_inj (Codec.addMap_inj hoffline)
  have honline := countValue_inj (Codec.addMap_inj honline)
  have hlevel := UInt64.toNat_inj.1 (Codec.addU64_inj hlevel)
  cases t
  cases t'
  exact (AccountTotals.mk.injEq ..).mpr ⟨honline, hoffline, hnotpart, hlevel⟩

/-- **No encoding of totals continues into another one.** -/
theorem encodeAccountTotals_append_inj {t t' : AccountTotals} {x y : Bytes}
    (h : encodeAccountTotals t ++ x = encodeAccountTotals t' ++ y) : t = t' ∧ x = y := by
  rw [encodeAccountTotals_eq, encodeAccountTotals_eq] at h
  obtain ⟨hvalue, hrest⟩ := Value.encode_append_inj (totalsValue_valid t) (totalsValue_valid t') h
  exact ⟨totalsValue_inj hvalue, hrest⟩

/-! ## What a label binds -/

/-- The functions that make labels, with their arguments. -/
inductive LabelMaker
  | v6 (round : UInt64) (blockHash balancesRoot : Bytes32) (totals : AccountTotals)
  | v7 (round : UInt64) (blockHash balancesRoot : Bytes32) (totals : AccountTotals) (spHash : Bytes32)
  | v8 (round : UInt64) (blockHash balancesRoot : Bytes32) (totals : AccountTotals)
      (spHash onlineAcctsHash onlineRoundParamsHash : Bytes32)
deriving DecidableEq, Repr

namespace LabelMaker

def make (libs : Libs) : LabelMaker → Str
  | v6 round blockHash balancesRoot totals => makeCatchpointLabelV6 libs round blockHash balancesRoot totals
  | v7 round blockHash balancesRoot totals spHash =>
    makeCatchpointLabelV7 libs round blockHash balancesRoot totals spHash
  | v8 round blockHash balancesRoot totals spHash onlineAcctsHash onlineRoundParamsHash =>
    makeCatchpointLabelV8 libs round blockHash balancesRoot totals spHash onlineAcctsHash onlineRoundParamsHash

def round : LabelMaker → UInt64
  | v6 round .. => round
  | v7 round .. => round
  | v8 round .. => round

def head : LabelMaker → Bytes32 × Bytes32 × AccountTotals
  | v6 _ blockHash balancesRoot totals => (blockHash, balancesRoot, totals)
  | v7 _ blockHash balancesRoot totals _ => (blockHash, balancesRoot, totals)
  | v8 _ blockHash balancesRoot totals .. => (blockHash, balancesRoot, totals)

/-- The component hashes that follow the totals. -/
def components : LabelMaker → List Bytes32
  | v6 .. => []
  | v7 _ _ _ _ spHash => [spHash]
  | v8 _ _ _ _ spHash onlineAcctsHash onlineRoundParamsHash => [spHash, onlineAcctsHash, onlineRoundParamsHash]

/-- The buffer that is hashed. -/
def buffer (m : LabelMaker) : Bytes :=
  v6Buffer m.head.1 m.head.2.1 m.head.2.2 ++ m.components.flatMap bytes32

theorem make_eq (libs : Libs) (m : LabelMaker) : m.make libs = formatLabel libs m.round m.buffer := by
  cases m with
  | v6 round blockHash balancesRoot totals => simp [make, buffer, head, components, LabelMaker.round, makeCatchpointLabelV6]
  | v7 round blockHash balancesRoot totals spHash =>
    simp [make, buffer, head, components, LabelMaker.round, makeCatchpointLabelV7]
  | v8 round blockHash balancesRoot totals spHash onlineAcctsHash onlineRoundParamsHash =>
    simp [make, buffer, head, components, LabelMaker.round, makeCatchpointLabelV8]

end LabelMaker

theorem bytes32_inj {a b : Bytes32} (h : bytes32 a = bytes32 b) : a = b :=
  BitVec.eq_of_toNat_eq (Msgpack.beBytes_inj a.isLt b.isLt h)

theorem length_bytes32 (h : Bytes32) : (bytes32 h).length = 32 := Msgpack.length_beBytes 32 _

theorem bytes32_ne_nil (h : Bytes32) : bytes32 h ≠ [] := by
  rw [← List.length_pos_iff, length_bytes32]
  decide

theorem flatMap_bytes32_inj {hs hs' : List Bytes32} (heq : hs.flatMap bytes32 = hs'.flatMap bytes32) : hs = hs' := by
  induction hs generalizing hs' with
  | nil =>
    cases hs' with
    | nil => rfl
    | cons h hs' =>
      rw [List.flatMap_cons] at heq
      exact absurd (List.append_eq_nil_iff.1 heq.symm).1 (bytes32_ne_nil h)
  | cons h hs ih =>
    cases hs' with
    | nil =>
      rw [List.flatMap_cons] at heq
      exact absurd (List.append_eq_nil_iff.1 heq).1 (bytes32_ne_nil h)
    | cons h' hs' =>
      rw [List.flatMap_cons, List.flatMap_cons] at heq
      obtain ⟨h1, h2⟩ := List.append_inj heq (by rw [length_bytes32, length_bytes32])
      rw [bytes32_inj h1, ih h2]

/-- **The buffer determines its parts and its version.** -/
theorem LabelMaker.buffer_inj {a b : LabelMaker} (h : a.buffer = b.buffer) :
    a.head = b.head ∧ a.components = b.components := by
  unfold buffer v6Buffer at h
  simp only [List.append_assoc] at h
  obtain ⟨hblock, h⟩ := List.append_inj h (by rw [length_bytes32, length_bytes32])
  obtain ⟨hroot, h⟩ := List.append_inj h (by rw [length_bytes32, length_bytes32])
  obtain ⟨htotals, hcomponents⟩ := encodeAccountTotals_append_inj h
  exact ⟨Prod.ext (bytes32_inj hblock) (Prod.ext (bytes32_inj hroot) htotals), flatMap_bytes32_inj hcomponents⟩

theorem LabelMaker.ext_parts {a b : LabelMaker} (hround : a.round = b.round) (hhead : a.head = b.head)
    (hcomponents : a.components = b.components) : a = b := by
  cases a <;> cases b <;> simp_all [LabelMaker.round, head, components]

/-! ## Reading a label -/

theorem digitOf_digitChar {d : Nat} (h : d < 10) : Numeral.digitOf 10 d.digitChar = some d := by
  have hall : ∀ d < 10, Numeral.digitOf 10 d.digitChar = some d := by decide
  exact hall d h

/-- The digits of a number are read as that number. -/
theorem parseDigits_toDigits : ∀ {n : Nat}, n ≤ Numeral.u64Max → ∀ s : Str,
    parseDigits 0 (Nat.toDigits 10 n ++ s) = parseDigits n s := by
  intro n
  induction n using Nat.strongRecOn with
  | ind n ih =>
    intro hn s
    by_cases hlt : n < 10
    · rw [Nat.toDigits_of_lt_base hlt, List.singleton_append, parseDigits, digitOf_digitChar hlt]
      dsimp only
      rw [Nat.zero_mul, Nat.zero_add, if_pos hn]
    · rw [Nat.toDigits_of_base_le (by omega) (by omega), List.append_assoc, List.singleton_append,
        ih (n / 10) (by omega) (by omega), parseDigits, digitOf_digitChar (Nat.mod_lt n (by omega))]
      dsimp only
      have hsum : n / 10 * 10 + n % 10 = n := by omega
      rw [hsum, if_pos hn]

theorem parseU64_toDigits (round : UInt64) : parseU64 (Nat.toDigits 10 round.toNat) = .ok round := by
  have hdigits : parseDigits 0 (Nat.toDigits 10 round.toNat) = .ok round.toNat := by
    have hmax : round.toNat ≤ Numeral.u64Max := Nat.le_pred_of_lt round.toNat_lt
    have := parseDigits_toDigits hmax []
    rw [List.append_nil] at this
    exact this
  have hplus : '+' ∉ Nat.toDigits 10 round.toNat := fun h =>
    absurd (Nat.isDigit_of_mem_toDigits (by decide) (by decide) h) (by decide)
  have hround : UInt64.ofNat round.toNat = round := UInt64.ofNat_toNat
  unfold parseU64
  split
  · rename_i h
    exact absurd h Nat.toDigits_ne_nil
  · rename_i h
    exact absurd (by rw [h]; exact List.mem_cons_self) hplus
  · rename_i h
    exact absurd (by rw [h]; exact List.mem_cons_self) hplus
  · rw [hdigits, Except.map, hround]

/-- What the label relies on, for the buffers in use: their hashes do not collide, and the text of a hash is read back as
the hash and has no separator in it. -/
structure Lawful (libs : Libs) (inputs : Set Bytes) : Prop where
  collision_free : ∀ x ∈ inputs, ∀ y ∈ inputs, libs.sha512_256 x = libs.sha512_256 y → x = y
  decode_encode : ∀ x ∈ inputs,
    libs.base32Decode (libs.base32Encode (bytes32 (libs.sha512_256 x))) = .ok (bytes32 (libs.sha512_256 x))
  no_separator : ∀ x ∈ inputs, '#' ∉ libs.base32Encode (bytes32 (libs.sha512_256 x))

variable {libs : Libs} {inputs : Set Bytes}

/-- **A label is read back** as its round and its digest. -/
theorem parse_make (h : Lawful libs inputs) {m : LabelMaker} (hm : m.buffer ∈ inputs) :
    parseCatchpointLabel libs (m.make libs) = .ok ⟨m.round, bytes32 (libs.sha512_256 m.buffer)⟩ := by
  have hround : '#' ∉ Nat.toDigits 10 m.round.toNat := fun h =>
    absurd (Nat.isDigit_of_mem_toDigits (by decide) (by decide) h) (by decide)
  have hsplit : (m.make libs).splitOn '#' =
      [Nat.toDigits 10 m.round.toNat, libs.base32Encode (bytes32 (libs.sha512_256 m.buffer))] := by
    rw [m.make_eq, formatLabel, List.splitOn, List.splitOnP_append_cons _ _ (by decide), List.splitOnP_eq_singleton,
      List.splitOnP_eq_singleton]
    · rfl
    · intro c hc
      exact beq_false_of_ne fun heq => h.no_separator _ hm (heq ▸ hc)
    · intro c hc
      exact beq_false_of_ne fun heq => hround (heq ▸ hc)
  unfold parseCatchpointLabel
  rw [hsplit]
  dsimp only
  rw [parseU64_toDigits, h.decode_encode _ hm]
  simp only [Except.mapError, bind, Except.bind]
  rw [length_bytes32, if_neg (by decide), Nat.sub_self, List.replicate_zero, List.append_nil]

/-- **Catchpoint labels bind their content.**  Equal labels were made by the same function from the same arguments, and
a label is read back as its round and the digest of its buffer. -/
theorem labels_bind (libs : Libs) (inputs : Set Bytes) (h : Lawful libs inputs) :
    (∀ a b : LabelMaker, a.buffer ∈ inputs → b.buffer ∈ inputs → a.make libs = b.make libs → a = b) ∧
      ∀ m : LabelMaker, m.buffer ∈ inputs →
        parseCatchpointLabel libs (m.make libs) = .ok ⟨m.round, bytes32 (libs.sha512_256 m.buffer)⟩ := by
  refine ⟨fun a b ha hb heq => ?_, fun m hm => parse_make h hm⟩
  have hparse := parse_make h ha
  rw [heq, parse_make h hb] at hparse
  have hlabel := Except.ok.inj hparse
  simp only [CatchpointLabel.mk.injEq] at hlabel
  have hbuffer := h.collision_free _ hb _ ha (bytes32_inj hlabel.2)
  obtain ⟨hhead, hcomponents⟩ := LabelMaker.buffer_inj hbuffer
  exact (LabelMaker.ext_parts hlabel.1 hhead hcomponents).symm

/-! ## Two labels of one ledger -/

def sampleTotals : AccountTotals := ⟨⟨5000000, 5⟩, ⟨1000, 0⟩, ⟨0, 0⟩, 10⟩

def sampleV6 : LabelMaker := .v6 30000 7 8 sampleTotals

def sampleV7 : LabelMaker := .v7 30000 7 8 sampleTotals 9

/-- The digests of the two buffers, with their texts. -/
def digestV6 : Bytes32 := 0x0a59ed496e1bdec6a8c78c2f4634755ad1c89b3035a9b9bfed95c4789a0d8d00

def digestV7 : Bytes32 := 0xbe04bf1bbe94e51108e1cdceb1c57473f5f774e51a7782b1b34d0586cf5fd63e

def textV6 : Str := "BJM62SLODPPMNKGHRQXUMNDVLLI4RGZQGWU3TP7NSXCHRGQNRUAA".toList

def textV7 : Str := "XYCL6G56STSRCCHBZXHLDRLUOP27O5HFDJ3YFMNTJUCYNT272Y7A".toList

def sampleLibs : Libs where
  sha512_256 := fun buf => if buf = sampleV6.buffer then digestV6 else digestV7
  base32Encode := fun digest => if digest = bytes32 digestV6 then textV6 else textV7
  base32Decode := fun text => .ok (if text = textV6 then bytes32 digestV6 else bytes32 digestV7)

set_option maxRecDepth 20000 in
theorem sampleLibs_lawful : Lawful sampleLibs {sampleV6.buffer, sampleV7.buffer} where
  collision_free := by
    rintro x (rfl | rfl) y (rfl | rfl) hxy
    · rfl
    · exact absurd hxy (by decide)
    · exact absurd hxy (by decide)
    · rfl
  decode_encode := by
    rintro x (rfl | rfl)
    · decide
    · decide
  no_separator := by
    rintro x (rfl | rfl)
    · decide
    · decide

set_option maxRecDepth 20000 in
theorem labels_bind_sample :
    sampleV6.make sampleLibs ≠ sampleV7.make sampleLibs ∧
      parseCatchpointLabel sampleLibs (sampleV7.make sampleLibs) = .ok ⟨30000, bytes32 digestV7⟩ := by
  obtain ⟨hbind, hparse⟩ := labels_bind sampleLibs _ sampleLibs_lawful
  refine ⟨fun heq => absurd (hbind _ _ (.inl rfl) (.inr rfl) heq) (by decide), ?_⟩
  rw [hparse sampleV7 (.inr rfl)]
  decide

end Catchpoint
end Algod
