import Mathlib.Data.List.Basic
import Mathlib.Algebra.Group.Nat.Defs
import Mathlib.Tactic.SplitIfs
/-!
# Msgpack — the MessagePack format, and that it is uniquely readable

A value is written as a header, which says what it is and how large, followed by its contents.  Lengths are written as
32-bit numbers, so a longer list or string is written with the wrong length; `valid` excludes that.  No encoding of a
valid value continues into another one: from a sequence that starts with an encoding the value and the rest can be read
off (`encode_append_inj`), hence the encoding is injective.
-/
namespace Msgpack

abbrev Bytes := List UInt8

/-! ## Numbers -/

/-- The `k` low bytes of a number, the most significant one first. -/
def beBytes : Nat → Nat → Bytes
  | 0, _ => []
  | k + 1, n => beBytes k (n / 256) ++ [UInt8.ofNat (n % 256)]

@[simp] theorem length_beBytes : ∀ (k n : Nat), (beBytes k n).length = k
  | 0, _ => rfl
  | k + 1, n => by
    unfold beBytes
    rw [List.length_append, length_beBytes k]
    rfl

theorem ofNat_inj_of_lt {a b : Nat} (ha : a < 256) (hb : b < 256) (h : UInt8.ofNat a = UInt8.ofNat b) : a = b := by
  have h' := congrArg UInt8.toNat h
  rwa [UInt8.toNat_ofNat_of_lt' ha, UInt8.toNat_ofNat_of_lt' hb] at h'

theorem beBytes_inj : ∀ {k a b : Nat}, a < 256 ^ k → b < 256 ^ k → beBytes k a = beBytes k b → a = b
  | 0, a, b, ha, hb, _ => by
    rw [Nat.pow_zero] at ha hb
    omega
  | k + 1, a, b, ha, hb, h => by
    unfold beBytes at h
    obtain ⟨hhigh, hlow⟩ := List.append_inj h (by simp)
    have hhigh := beBytes_inj (Nat.div_lt_of_lt_mul (by rw [Nat.pow_succ'] at ha; exact ha))
      (Nat.div_lt_of_lt_mul (by rw [Nat.pow_succ'] at hb; exact hb)) hhigh
    have hlow := ofNat_inj_of_lt (Nat.mod_lt _ (by decide)) (Nat.mod_lt _ (by decide)) (List.cons.inj hlow).1
    omega

/-! ## Headers -/

inductive Kind
  | nil
  | bool
  | uint
  | str
  | bin
  | array
  | map
deriving DecidableEq, Repr

/-- What a value is, with its number, its length or, for a truth value, zero or one. -/
structure Header where
  kind : Kind
  count : Nat
deriving DecidableEq, Repr

namespace Header

/-- The first byte of a header, with the number of bytes in which the count follows it. -/
def form (h : Header) : Nat × Nat :=
  let n := h.count
  match h.kind with
  | .nil => (0xc0, 0)
  | .bool => (0xc2 + n, 0)
  | .uint =>
    if n ≤ 127 then (n, 0) else if n ≤ 0xff then (0xcc, 1) else if n ≤ 0xffff then (0xcd, 2)
    else if n ≤ 0xffffffff then (0xce, 4) else (0xcf, 8)
  | .str =>
    if n < 32 then (0xa0 + n, 0) else if n ≤ 0xff then (0xd9, 1) else if n ≤ 0xffff then (0xda, 2) else (0xdb, 4)
  | .bin => if n ≤ 0xff then (0xc4, 1) else if n ≤ 0xffff then (0xc5, 2) else (0xc6, 4)
  | .array => if n < 16 then (0x90 + n, 0) else if n ≤ 0xffff then (0xdc, 2) else (0xdd, 4)
  | .map => if n < 16 then (0x80 + n, 0) else if n ≤ 0xffff then (0xde, 2) else (0xdf, 4)

def bytes (h : Header) : Bytes := UInt8.ofNat h.form.1 :: beBytes h.form.2 h.count

/-- The count fits the kind. -/
def valid (h : Header) : Bool :=
  match h.kind with
  | .nil => h.count == 0
  | .bool => decide (h.count ≤ 1)
  | .uint => decide (h.count < 2 ^ 64)
  | _ => decide (h.count < 2 ^ 32)

/-- What a first byte says: the kind, the number of bytes that follow, and the count if none do. -/
def classify (tag : Nat) : Kind × Nat × Nat :=
  if tag ≤ 0x7f then (.uint, 0, tag)
  else if tag ≤ 0x8f then (.map, 0, tag - 0x80)
  else if tag ≤ 0x9f then (.array, 0, tag - 0x90)
  else if tag ≤ 0xbf then (.str, 0, tag - 0xa0)
  else if tag = 0xc0 then (.nil, 0, 0)
  else if tag ≤ 0xc3 then (.bool, 0, tag - 0xc2)
  else if tag ≤ 0xc6 then (.bin, 2 ^ (tag - 0xc4), 0)
  else if tag ≤ 0xcf then (.uint, 2 ^ (tag - 0xcc), 0)
  else if tag ≤ 0xdb then (.str, 2 ^ (tag - 0xd9), 0)
  else if tag ≤ 0xdd then (.array, 2 ^ (tag - 0xdb), 0)
  else (.map, 2 ^ (tag - 0xdd), 0)

theorem classify_form {h : Header} (hv : h.valid = true) :
    classify h.form.1 = (h.kind, h.form.2, if h.form.2 = 0 then h.count else 0) ∧ h.form.1 < 256 ∧
      (h.form.2 ≠ 0 → h.count < 256 ^ h.form.2) := by
  obtain ⟨kind, n⟩ := h
  cases kind
  all_goals
    simp only [valid, beq_iff_eq, decide_eq_true_eq] at hv
    simp only [form]
    try split_ifs
  all_goals
    try dsimp only
    refine ⟨?_, by omega, fun _ => by omega⟩
    simp (disch := omega) only [classify, if_pos, if_neg]
  all_goals simp_all

theorem bytes_append_inj {h h' : Header} (hv : h.valid = true) (hv' : h'.valid = true) {x y : Bytes}
    (heq : h.bytes ++ x = h'.bytes ++ y) : h = h' ∧ x = y := by
  obtain ⟨hc, ht, hw⟩ := classify_form hv
  obtain ⟨hc', ht', hw'⟩ := classify_form hv'
  unfold bytes at heq
  rw [List.cons_append, List.cons_append] at heq
  obtain ⟨htag, hrest⟩ := List.cons.inj heq
  rw [ofNat_inj_of_lt ht ht' htag, hc'] at hc
  simp only [Prod.mk.injEq] at hc
  obtain ⟨hkind, hwidth, hcount⟩ := hc
  obtain ⟨hbytes, hxy⟩ := List.append_inj hrest (by simp [hwidth])
  have hn : h.count = h'.count := by
    by_cases hz : h.form.2 = 0
    · simp only [hwidth, hz, if_true] at hcount
      exact hcount.symm
    · rw [hwidth] at hbytes hw'
      exact beBytes_inj (hw hz) (hw' hz) hbytes
  obtain ⟨kind, n⟩ := h
  obtain ⟨kind', n'⟩ := h'
  simp only at hkind hn
  rw [hkind, hn]
  exact ⟨rfl, hxy⟩

end Header

/-! ## Values -/

/-- A MessagePack value.  A map lists its keys and values in turn. -/
inductive Value
  | nil
  | bool (b : Bool)
  | uint (n : Nat)
  | str (bs : Bytes)
  | bin (bs : Bytes)
  | array (vs : List Value)
  | map (kvs : List Value)

namespace Value

mutual

/-- Whether two values are the same. -/
def same : Value → Value → Bool
  | .nil, .nil => true
  | .bool a, .bool b => a == b
  | .uint n, .uint m => n == m
  | .str a, .str b => a == b
  | .bin a, .bin b => a == b
  | .array vs, .array ws => sameAll vs ws
  | .map vs, .map ws => sameAll vs ws
  | _, _ => false

def sameAll : List Value → List Value → Bool
  | [], [] => true
  | v :: vs, w :: ws => same v w && sameAll vs ws
  | _, _ => false

end

mutual

theorem same_iff : ∀ v w : Value, same v w = true ↔ v = w
  | .array vs, w => by cases w <;> simp [same, sameAll_iff vs]
  | .map vs, w => by cases w <;> simp [same, sameAll_iff vs]
  | .nil, w => by cases w <;> simp [same]
  | .bool _, w => by cases w <;> simp [same]
  | .uint _, w => by cases w <;> simp [same]
  | .str _, w => by cases w <;> simp [same]
  | .bin _, w => by cases w <;> simp [same]

theorem sameAll_iff : ∀ vs ws : List Value, sameAll vs ws = true ↔ vs = ws
  | [], ws => by cases ws <;> simp [sameAll]
  | v :: vs, ws => by cases ws <;> simp [sameAll, same_iff v, sameAll_iff vs]

end

instance : DecidableEq Value := fun v w => decidable_of_iff (same v w = true) (same_iff v w)

/-- The header of a value: a length is cut to 32 bits. -/
def header : Value → Header
  | .nil => ⟨.nil, 0⟩
  | .bool b => ⟨.bool, if b then 1 else 0⟩
  | .uint n => ⟨.uint, n⟩
  | .str bs => ⟨.str, bs.length % 2 ^ 32⟩
  | .bin bs => ⟨.bin, bs.length % 2 ^ 32⟩
  | .array vs => ⟨.array, vs.length % 2 ^ 32⟩
  | .map kvs => ⟨.map, (kvs.length / 2) % 2 ^ 32⟩

mutual

def encode : Value → Bytes
  | .nil => (header .nil).bytes
  | .bool b => (header (.bool b)).bytes
  | .uint n => (header (.uint n)).bytes
  | .str bs => (header (.str bs)).bytes ++ bs
  | .bin bs => (header (.bin bs)).bytes ++ bs
  | .array vs => (header (.array vs)).bytes ++ encodeAll vs
  | .map kvs => (header (.map kvs)).bytes ++ encodeAll kvs

def encodeAll : List Value → Bytes
  | [] => []
  | v :: vs => encode v ++ encodeAll vs

end

mutual

/-- Numbers fit 64 bits and lengths 32, and a map has a value for each key. -/
def valid : Value → Bool
  | .nil => true
  | .bool _ => true
  | .uint n => decide (n < 2 ^ 64)
  | .str bs => decide (bs.length < 2 ^ 32)
  | .bin bs => decide (bs.length < 2 ^ 32)
  | .array vs => decide (vs.length < 2 ^ 32) && allValid vs
  | .map kvs => decide (kvs.length / 2 < 2 ^ 32) && decide (kvs.length % 2 = 0) && allValid kvs

def allValid : List Value → Bool
  | [] => true
  | v :: vs => valid v && allValid vs

end

theorem allValid_iff : ∀ {vs : List Value}, allValid vs = true ↔ ∀ v ∈ vs, valid v = true
  | [] => by simp [allValid]
  | v :: vs => by simp [allValid, allValid_iff]

theorem header_valid {v : Value} (h : valid v = true) : v.header.valid = true := by
  have hlt : ∀ n, n % 2 ^ 32 < 2 ^ 32 := fun n => Nat.mod_lt n (by decide)
  cases v with
  | nil => rfl
  | bool b => cases b <;> rfl
  | uint n => exact h
  | str bs => exact decide_eq_true (hlt _)
  | bin bs => exact decide_eq_true (hlt _)
  | array vs => exact decide_eq_true (hlt _)
  | map kvs => exact decide_eq_true (hlt _)

/-- What follows the header. -/
def body : Value → Bytes
  | .str bs => bs
  | .bin bs => bs
  | .array vs => encodeAll vs
  | .map kvs => encodeAll kvs
  | _ => []

theorem encode_eq (v : Value) : encode v = v.header.bytes ++ v.body := by
  cases v <;> simp [encode, body]

theorem header_body_inj {v w : Value} {x y : Bytes} (hv : valid v = true) (hw : valid w = true)
    (h : encode v ++ x = encode w ++ y) : v.header = w.header ∧ v.body ++ x = w.body ++ y := by
  rw [encode_eq, encode_eq, List.append_assoc, List.append_assoc] at h
  exact Header.bytes_append_inj (header_valid hv) (header_valid hw) h

theorem length_eq_of_mod {a b : Nat} (ha : a < 2 ^ 32) (hb : b < 2 ^ 32) (h : a % 2 ^ 32 = b % 2 ^ 32) : a = b := by
  rwa [Nat.mod_eq_of_lt ha, Nat.mod_eq_of_lt hb] at h

mutual

/-- **No encoding continues into another one.** -/
theorem encode_append_inj : ∀ {v w : Value} {x y : Bytes}, valid v = true → valid w = true →
    encode v ++ x = encode w ++ y → v = w ∧ x = y
  | .nil, w, x, y, hv, hw, h => by
    obtain ⟨hhead, hbody⟩ := header_body_inj hv hw h
    cases w with
    | nil => exact ⟨rfl, hbody⟩
    | _ => simp [header] at hhead
  | .bool b, w, x, y, hv, hw, h => by
    obtain ⟨hhead, hbody⟩ := header_body_inj hv hw h
    cases w with
    | bool b' =>
      cases b <;> cases b' <;> simp [header] at hhead
      · exact ⟨rfl, hbody⟩
      · exact ⟨rfl, hbody⟩
    | _ => simp [header] at hhead
  | .uint n, w, x, y, hv, hw, h => by
    obtain ⟨hhead, hbody⟩ := header_body_inj hv hw h
    cases w with
    | uint n' =>
      simp only [header, Header.mk.injEq, true_and] at hhead
      rw [hhead]
      exact ⟨rfl, hbody⟩
    | _ => simp [header] at hhead
  | .str bs, w, x, y, hv, hw, h => by
    obtain ⟨hhead, hbody⟩ := header_body_inj hv hw h
    cases w with
    | str bs' =>
      simp only [valid, decide_eq_true_eq] at hv hw
      simp only [header, Header.mk.injEq, true_and] at hhead
      obtain ⟨hbs, hxy⟩ := List.append_inj hbody (length_eq_of_mod hv hw hhead)
      exact ⟨congrArg Value.str hbs, hxy⟩
    | _ => simp [header] at hhead
  | .bin bs, w, x, y, hv, hw, h => by
    obtain ⟨hhead, hbody⟩ := header_body_inj hv hw h
    cases w with
    | bin bs' =>
      simp only [valid, decide_eq_true_eq] at hv hw
      simp only [header, Header.mk.injEq, true_and] at hhead
      obtain ⟨hbs, hxy⟩ := List.append_inj hbody (length_eq_of_mod hv hw hhead)
      exact ⟨congrArg Value.bin hbs, hxy⟩
    | _ => simp [header] at hhead
  | .array vs, w, x, y, hv, hw, h => by
    obtain ⟨hhead, hbody⟩ := header_body_inj hv hw h
    cases w with
    | array ws =>
      simp only [valid, Bool.and_eq_true, decide_eq_true_eq] at hv hw
      simp only [header, Header.mk.injEq, true_and] at hhead
      obtain ⟨hvs, hxy⟩ := encodeAll_append_inj (length_eq_of_mod hv.1 hw.1 hhead) hv.2 hw.2 hbody
      exact ⟨congrArg Value.array hvs, hxy⟩
    | _ => simp [header] at hhead
  | .map kvs, w, x, y, hv, hw, h => by
    obtain ⟨hhead, hbody⟩ := header_body_inj hv hw h
    cases w with
    | map kvs' =>
      simp only [valid, Bool.and_eq_true, decide_eq_true_eq] at hv hw
      simp only [header, Header.mk.injEq, true_and] at hhead
      have hhalf := length_eq_of_mod hv.1.1 hw.1.1 hhead
      have hlen : kvs.length = kvs'.length := by omega
      obtain ⟨hvs, hxy⟩ := encodeAll_append_inj hlen hv.2 hw.2 hbody
      exact ⟨congrArg Value.map hvs, hxy⟩
    | _ => simp [header] at hhead

theorem encodeAll_append_inj : ∀ {vs ws : List Value} {x y : Bytes}, vs.length = ws.length → allValid vs = true →
    allValid ws = true → encodeAll vs ++ x = encodeAll ws ++ y → vs = ws ∧ x = y
  | [], [], x, y, _, _, _, h => ⟨rfl, h⟩
  | v :: vs, w :: ws, x, y, hl, hv, hw, h => by
    simp only [allValid, Bool.and_eq_true] at hv hw
    simp only [encodeAll, List.append_assoc] at h
    obtain ⟨hvw, htail⟩ := encode_append_inj hv.1 hw.1 h
    obtain ⟨hvs, hxy⟩ := encodeAll_append_inj (Nat.succ.inj hl) hv.2 hw.2 htail
    rw [hvw, hvs]
    exact ⟨rfl, hxy⟩

end

theorem encode_inj {v w : Value} (hv : valid v = true) (hw : valid w = true) (h : encode v = encode w) : v = w := by
  have h' : encode v ++ [] = encode w ++ [] := by rw [h]
  exact (encode_append_inj hv hw h').1

end Value

end Msgpack
