import Mathlib.Data.List.GetD
import AlgodRust.Abi.Codec
/-!
# Layout — tuples as records of a head and tails

Both loops of the codec cut a list of types in the same places (`Cut`): at every child that is no bool, and after every
eighth bool of a run, counted from its start.  So the number of bools to the left of a place where a loop stops is a
multiple of eight, and the checks for that never fail.  With one slot for each child, where the first bool of a byte takes
the byte and the others nothing, the loops write and read records (`encodeTupleWithTypes_eq_ok`, `tupleSegments_eq`): what
a record has in place of the bools of one byte is that byte, and `expand` and `collapse` go from the one to the other.
-/
namespace Algod
namespace Abi

open Msgpack (Bytes beBytes)
open Network (beNat)
open HeadTail

/-! ## Runs of bools -/

/-- The number of bools that a list starts with. -/
def boolRun (types : List AbiType) : Nat := (types.takeWhile AbiType.isBool).length

variable {t : AbiType}

theorem boolRun_cons_bool (h : t.isBool = true) (ts : List AbiType) : boolRun (t :: ts) = boolRun ts + 1 := by
  unfold boolRun
  rw [List.takeWhile_cons_of_pos h, List.length_cons]

theorem boolRun_cons_other (h : t.isBool = false) (ts : List AbiType) : boolRun (t :: ts) = 0 := by
  unfold boolRun
  rw [List.takeWhile_cons_of_neg (by rw [h]; exact Bool.false_ne_true), List.length_nil]

theorem boolRun_replicate (k : Nat) (ts : List AbiType) :
    boolRun (List.replicate k AbiType.bool ++ ts) = k + boolRun ts := by
  induction k with
  | zero => simp
  | succ k ih =>
    rw [List.replicate_succ, List.cons_append, boolRun_cons_bool rfl, ih]
    omega

theorem findBoolLrFrom_right (types : List AbiType) (i : Nat) : ∀ (fuel count : Nat), i + count < types.length →
    types.length < i + count + fuel + 1 → findBoolLrFrom types i 1 fuel count = count + boolRun (types.drop (i + count)) - 1
  | 0, count, hlt, hfuel => by omega
  | fuel + 1, count, hlt, hfuel => by
    have hdrop : types.drop (i + count) = types[i + count] :: types.drop (i + count + 1) := List.drop_eq_getElem_cons hlt
    have hcurr : (i : Int) + 1 * (count : Int) = ((i + count : Nat) : Int) := by omega
    unfold findBoolLrFrom
    simp only [hcurr, Int.toNat_natCast]
    rw [if_neg (by omega), List.getD_eq_getElem _ _ hlt, hdrop]
    by_cases hbool : types[i + count].isBool = true
    · rw [if_pos hbool, boolRun_cons_bool hbool]
      by_cases hlast : i + count = types.length - 1
      · rw [if_neg (by omega), hlast, List.drop_eq_nil_of_le (by omega)]
        show count = count + (0 + 1) - 1
        omega
      · rw [if_pos (by omega), findBoolLrFrom_right types i fuel (count + 1) (by omega) (by omega)]
        rw [show i + (count + 1) = i + count + 1 by omega]
        omega
    · rw [if_neg hbool, boolRun_cons_other (Bool.eq_false_iff.2 hbool), Nat.add_zero]

theorem findBoolLrFrom_left (types : List AbiType) {i : Nat} (hi : i < types.length) : ∀ (fuel count : Nat), count ≤ i →
    i < count + fuel → findBoolLrFrom types i (-1) fuel count = count + boolRun (types.take (i - count + 1)).reverse - 1
  | 0, count, hle, hfuel => by omega
  | fuel + 1, count, hle, hfuel => by
    have hlt : i - count < types.length := by omega
    have htake : (types.take (i - count + 1)).reverse = types[i - count] :: (types.take (i - count)).reverse := by
      rw [List.take_succ_eq_append_getElem hlt, List.reverse_append]
      rfl
    have hcurr : (i : Int) + -1 * (count : Int) = ((i - count : Nat) : Int) := by omega
    unfold findBoolLrFrom
    simp only [hcurr, Int.toNat_natCast]
    rw [if_neg (by omega), List.getD_eq_getElem _ _ hlt, htake]
    by_cases hbool : types[i - count].isBool = true
    · rw [if_pos hbool, boolRun_cons_bool hbool]
      by_cases hfirst : i - count = 0
      · rw [if_neg (by omega), hfirst]
        show count = count + (0 + 1) - 1
        omega
      · rw [if_pos (by omega), findBoolLrFrom_left types hi fuel (count + 1) (by omega) (by omega)]
        rw [show i - (count + 1) + 1 = i - count by omega]
        omega
    · rw [if_neg hbool, boolRun_cons_other (Bool.eq_false_iff.2 hbool), Nat.add_zero]

/-- The bools behind a bool. -/
theorem findBoolLr_right {pre ts : List AbiType} (ht : t.isBool = true) :
    findBoolLr (pre ++ t :: ts) pre.length 1 = boolRun ts := by
  have hlen : (pre ++ t :: ts).length = pre.length + (ts.length + 1) := by rw [List.length_append, List.length_cons]
  unfold findBoolLr
  rw [findBoolLrFrom_right _ _ _ 0 (by omega) (by omega), Nat.add_zero, List.drop_left, boolRun_cons_bool ht]
  omega

/-- The bools before a bool. -/
theorem findBoolLr_left {pre ts : List AbiType} (ht : t.isBool = true) :
    findBoolLr (pre ++ t :: ts) pre.length (-1) = boolRun pre.reverse := by
  have hlen : (pre ++ t :: ts).length = pre.length + (ts.length + 1) := by rw [List.length_append, List.length_cons]
  have htake : (pre ++ t :: ts).take (pre.length + 1) = pre ++ [t] := by
    rw [List.take_append, List.take_of_length_le (by omega), Nat.add_sub_cancel_left]
    rfl
  unfold findBoolLr
  rw [findBoolLrFrom_left _ (by omega) _ 0 (by omega) (by omega), Nat.sub_zero, htake, List.reverse_append]
  show 0 + boolRun (t :: pre.reverse) - 1 = _
  rw [boolRun_cons_bool ht]
  omega

/-! ## Where the loops stop -/

/-- No bool follows. -/
def Closed (ts : List AbiType) : Prop := ∀ t ∈ ts.head?, t.isBool = false

/-- A list of types as the loops take it. -/
inductive Cut : List AbiType → Prop
  | nil : Cut []
  | child {t : AbiType} {ts : List AbiType} : t.isBool = false → Cut ts → Cut (t :: ts)
  | bools {k : Nat} {ts : List AbiType} : k < 8 → k = 7 ∨ Closed ts → Cut ts → Cut (List.replicate (k + 1) .bool ++ ts)

theorem eq_bool_of_isBool (h : t.isBool = true) : t = .bool := by
  cases t <;> first | rfl | cases h

/-- A run of bools and what follows it. -/
theorem eq_replicate_append : ∀ (ts : List AbiType), ∃ rest, ts = List.replicate (boolRun ts) .bool ++ rest ∧ Closed rest
  | [] => ⟨[], rfl, fun _ h => (by cases h)⟩
  | t :: ts => by
    by_cases ht : t.isBool = true
    · obtain ⟨rest, heq, hclosed⟩ := eq_replicate_append ts
      refine ⟨rest, ?_, hclosed⟩
      rw [boolRun_cons_bool ht, List.replicate_succ, List.cons_append, ← heq, eq_bool_of_isBool ht]
    · rw [Bool.not_eq_true] at ht
      refine ⟨t :: ts, ?_, ?_⟩
      · rw [boolRun_cons_other ht]
        rfl
      · intro t' ht'
        cases ht'
        exact ht

/-- Every list of types is taken so. -/
theorem cut_of_length : ∀ (n : Nat) {ts : List AbiType}, ts.length ≤ n → Cut ts
  | _, [], _ => .nil
  | 0, t :: ts, h => by
    rw [List.length_cons] at h
    omega
  | n + 1, t :: ts, h => by
    rw [List.length_cons] at h
    by_cases ht : t.isBool = true
    · obtain ⟨rest, heq, hclosed⟩ := eq_replicate_append ts
      have hlen := congrArg List.length heq
      rw [List.length_append, List.length_replicate] at hlen
      by_cases hrun : boolRun ts < 8
      · have hts : t :: ts = List.replicate (boolRun ts + 1) .bool ++ rest := by
          rw [List.replicate_succ, List.cons_append, ← heq, eq_bool_of_isBool ht]
        rw [hts]
        exact .bools hrun (.inr hclosed) (cut_of_length n (by omega))
      · -- the first eight of a long run
        have hts : t :: ts = List.replicate (7 + 1) .bool ++ (List.replicate (boolRun ts - 7) .bool ++ rest) := by
          rw [← List.append_assoc, List.replicate_append_replicate, show 7 + 1 + (boolRun ts - 7) = boolRun ts + 1 by omega,
            List.replicate_succ, List.cons_append, ← heq, eq_bool_of_isBool ht]
        rw [hts]
        refine .bools (by omega) (.inl rfl) (cut_of_length n ?_)
        rw [List.length_append, List.length_replicate]
        omega
    · exact .child (Bool.eq_false_iff.2 ht) (cut_of_length n (by omega))

theorem cut (ts : List AbiType) : Cut ts := cut_of_length ts.length (Nat.le_refl _)

/-- Where a loop stops, whole bytes of bools are behind it or no bool is ahead. -/
def Aligned (pre suf : List AbiType) : Prop := boolRun pre.reverse % 8 = 0 ∨ Closed suf

theorem Aligned.child {pre : List AbiType} (ht : t.isBool = false) (suf : List AbiType) :
    Aligned (pre ++ [t]) suf := by
  refine .inl ?_
  rw [List.reverse_append]
  show boolRun (t :: pre.reverse) % 8 = 0
  rw [boolRun_cons_other ht]

variable {pre suf : List AbiType} {k : Nat}

theorem Aligned.before (h : Aligned pre (List.replicate (k + 1) .bool ++ suf)) :
    boolRun pre.reverse % 8 = 0 := by
  rcases h with h | h
  · exact h
  · exact absurd (h .bool rfl) (by decide)

theorem Aligned.bools (hend : k = 7 ∨ Closed suf)
    (h : Aligned pre (List.replicate (k + 1) .bool ++ suf)) : Aligned (pre ++ List.replicate (k + 1) .bool) suf := by
  rcases hend with rfl | hclosed
  · refine .inl ?_
    have hbefore := h.before
    rw [List.reverse_append, List.reverse_replicate, boolRun_replicate]
    omega
  · exact .inr hclosed

/-- How many bools a loop takes at a time. -/
theorem min_findBoolLr (hk : k < 8) (hend : k = 7 ∨ Closed suf) :
    min (findBoolLr (pre ++ (List.replicate (k + 1) .bool ++ suf)) pre.length 1) 7 = k := by
  rw [List.replicate_succ, List.cons_append, findBoolLr_right rfl, boolRun_replicate]
  rcases hend with rfl | hclosed
  · omega
  · have hzero : boolRun suf = 0 := by
      cases suf with
      | nil => rfl
      | cons t ts => exact boolRun_cons_other (hclosed t rfl) ts
    omega

/-! ## Fields -/

/-- What takes a place of its own in a head. -/
inductive Field
  | bools (count : Nat)
  | child (t : AbiType)

/-- The fields of a list of types, behind some bools that wait for their byte to fill up. -/
def fieldsFrom : Nat → List AbiType → List Field
  | 0, [] => []
  | k + 1, [] => [.bools (k + 1)]
  | k, t :: ts =>
    if t.isBool then if k = 7 then .bools 8 :: fieldsFrom 0 ts else fieldsFrom (k + 1) ts
    else if k = 0 then .child t :: fieldsFrom 0 ts
    else .bools k :: .child t :: fieldsFrom 0 ts

def fields (types : List AbiType) : List Field := fieldsFrom 0 types

theorem fields_child (ht : t.isBool = false) (ts : List AbiType) : fields (t :: ts) = .child t :: fields ts := by
  unfold fields
  rw [fieldsFrom, if_neg (by rw [ht]; exact Bool.false_ne_true), if_pos rfl]

variable {ts : List AbiType}

theorem fieldsFrom_closed (h : Closed ts) (k : Nat) :
    fieldsFrom (k + 1) ts = .bools (k + 1) :: fieldsFrom 0 ts := by
  cases ts with
  | nil => rfl
  | cons t ts =>
    have ht : ¬ t.isBool = true := by rw [h t rfl]; exact Bool.false_ne_true
    rw [fieldsFrom, if_neg ht, if_neg (Nat.succ_ne_zero k), fieldsFrom, if_neg ht, if_pos rfl]

theorem fieldsFrom_run : ∀ (m k : Nat), k + m < 8 → k + m = 7 ∨ Closed ts →
    fieldsFrom k (List.replicate (m + 1) .bool ++ ts) = .bools (k + m + 1) :: fieldsFrom 0 ts
  | 0, k, hlt, hend => by
    show fieldsFrom k (AbiType.bool :: ts) = _
    rw [fieldsFrom, if_pos (show AbiType.bool.isBool = true from rfl)]
    by_cases hk : k = 7
    · rw [if_pos hk, hk]
    · rw [if_neg hk]
      exact fieldsFrom_closed (hend.resolve_left hk) k
  | m + 1, k, hlt, hend => by
    rw [List.replicate_succ, List.cons_append, fieldsFrom, if_pos (show AbiType.bool.isBool = true from rfl),
      if_neg (by omega), fieldsFrom_run m (k + 1) (by omega) (hend.imp_left (by omega)),
      show k + 1 + m + 1 = k + (m + 1) + 1 by omega]

theorem fields_bools (hk : k < 8) (hend : k = 7 ∨ Closed ts) :
    fields (List.replicate (k + 1) .bool ++ ts) = .bools (k + 1) :: fields ts := by
  unfold fields
  rw [fieldsFrom_run k 0 (by omega) (hend.imp_left (by omega)), Nat.zero_add]

theorem beBytes_beNat : ∀ {k : Nat} {bs : Bytes}, bs.length = k → beBytes k (beNat bs) = bs
  | 0, bs, h => by
    rw [List.length_eq_zero_iff.1 h]
    rfl
  | k + 1, bs, h => by
    obtain ⟨init, b, rfl⟩ : ∃ init b, bs = init ++ [b] :=
      ⟨bs.dropLast, bs.getLast (List.ne_nil_of_length_pos (by omega)), (List.dropLast_append_getLast _).symm⟩
    rw [List.length_append] at h
    have hb := b.toNat_lt
    rw [Network.beNat_append, beBytes, show (256 * beNat init + b.toNat) / 256 = beNat init by omega,
      show (256 * beNat init + b.toNat) % 256 = b.toNat by omega, beBytes_beNat (Nat.succ.inj h), UInt8.ofNat_toNat]

theorem beNat_lt (bs : Bytes) : beNat bs < 256 ^ bs.length := by
  induction bs using List.reverseRecOn with
  | nil => decide
  | append_singleton init b ih =>
    have hb := b.toNat_lt
    rw [Network.beNat_append, List.length_append, List.length_singleton, Nat.pow_succ]
    omega

/-- Offsets of two bytes. -/
def u16 : Offsets UInt8 where
  width := 2
  bound := 65536
  put := beBytes 2
  get := beNat
  length_put := Msgpack.length_beBytes 2
  get_put := fun _ hn => Network.beNat_beBytes hn
  put_get := fun _ h => beBytes_beNat h
  get_lt := fun bs h => by
    have hlt := beNat_lt bs
    rwa [h] at hlt

def slotOf (t : AbiType) : Slot := if t.isDynamic then .pointed else .inline (t.byteLen.getD 0)

def Field.slot : Field → Slot
  | .bools _ => .inline 1
  | .child t => slotOf t

def slots (types : List AbiType) : List Slot := (fields types).map Field.slot

/-! ## Bools and their bytes -/

/-- The encoding of a bool. -/
def boolByte (b : Bool) : UInt8 := if b then 0x80 else 0x00

def bitAt (b : UInt8) (i : Nat) : Bool := decide (b &&& (0x80 >>> UInt8.ofNat i) ≠ 0)

/-- The byte of some bools. -/
def packed (bits : List Bool) : UInt8 :=
  (List.range bits.length).foldl (fun byte j => if bits.getD j false then byte ||| (1 <<< UInt8.ofNat (7 - j)) else byte) 0

/-- The lowest bits of a byte that some bools leave free. -/
def lowBits (b : UInt8) (count : Nat) : Nat := b.toNat % 2 ^ (8 - count)

theorem bitAt_packed : ∀ (bits : List Bool), bits.length ≤ 8 →
    (List.range bits.length).map (bitAt (packed bits)) = bits
  | [], _ => rfl
  | [a], _ => by revert a; decide
  | [a, b], _ => by revert a b; decide
  | [a, b, c], _ => by revert a b c; decide
  | [a, b, c, d], _ => by revert a b c d; decide
  | [a, b, c, d, e], _ => by revert a b c d e; decide +kernel
  | [a, b, c, d, e, f], _ => by revert a b c d e f; decide +kernel
  | [a, b, c, d, e, f, g], _ => by revert a b c d e f g; decide +kernel
  | [a, b, c, d, e, f, g, h], _ => by revert a b c d e f g h; decide +kernel
  | _ :: _ :: _ :: _ :: _ :: _ :: _ :: _ :: _ :: _, hlen => by
    simp only [List.length_cons] at hlen
    omega

theorem packed_bitAt_fin : ∀ (k : Fin 9) (b : Fin 256),
    packed ((List.range k.val).map (bitAt (UInt8.ofNat b.val))) = UInt8.ofNat b.val ↔
      lowBits (UInt8.ofNat b.val) k.val = 0 := by
  decide +kernel

theorem packed_bitAt (hk : k ≤ 8) (b : UInt8) : packed ((List.range k).map (bitAt b)) = b ↔ lowBits b k = 0 := by
  have h := packed_bitAt_fin ⟨k, by omega⟩ ⟨b.toNat, b.toNat_lt⟩
  rwa [UInt8.ofNat_toNat] at h

section Pieces

variable {β : Type}

/-- A piece for every child, from pieces for the fields. -/
def expand : List Field → List (Piece UInt8 β) → List (Piece UInt8 β)
  | .bools count :: fs, .inline bs :: ps =>
    (List.range count).map (fun i => .inline [boolByte (bitAt (bs.headD 0) i)]) ++ expand fs ps
  | _ :: fs, p :: ps => p :: expand fs ps
  | _, ps => ps

theorem expand_child (t : AbiType) (fs : List Field) (p : Piece UInt8 β) (ps : List (Piece UInt8 β)) :
    expand (.child t :: fs) (p :: ps) = p :: expand fs ps := by
  cases p <;> rfl

theorem expand_pointed (f : Field) (fs : List Field) (b : β) (ps : List (Piece UInt8 β)) :
    expand (f :: fs) (.pointed b :: ps) = .pointed b :: expand fs ps := by
  cases f <;> rfl

def isSet : Piece UInt8 β → Bool
  | .inline bs => bs.headD 0 = 0x80
  | .pointed _ => false

/-- The pieces of the fields, from a piece for every child. -/
def collapse : List Field → List (Piece UInt8 β) → List (Piece UInt8 β)
  | .bools count :: fs, ps => .inline [packed ((ps.take count).map isSet)] :: collapse fs (ps.drop count)
  | .child _ :: fs, p :: ps => p :: collapse fs ps
  | _, _ => []

/-- No byte of bools has a bit that belongs to no bool. -/
def PaddedPieces : List Field → List (Piece UInt8 β) → Prop
  | .bools count :: fs, .inline bs :: ps => lowBits (bs.headD 0) count = 0 ∧ PaddedPieces fs ps
  | _ :: fs, _ :: ps => PaddedPieces fs ps
  | _, _ => True

end Pieces

/-! ## The decoder reads records -/

theorem toOption_bind_pure {γ δ : Type} (x : Except String γ) (f : γ → δ) :
    (x >>= fun a => pure (f a)).toOption = x.toOption.map f := by
  cases x <;> rfl

/-- Every static type of a list has a size. -/
def HaveSizes (types : List AbiType) : Prop := ∀ t ∈ types, t.isDynamic = false → t.byteLen.isSome

theorem unpacked_eq (b : UInt8) (after : Nat) :
    unpacked b after = (List.range (after + 1)).map (fun i => .inline [boolByte (bitAt b i)]) := by
  unfold unpacked boolByte bitAt
  simp only [decide_eq_true_eq]

theorem slots_child {t : AbiType} (ht : t.isBool = false) (ts : List AbiType) : slots (t :: ts) = slotOf t :: slots ts := by
  unfold slots
  rw [fields_child ht]
  rfl

variable {ts : List AbiType}

theorem slots_bools {k : Nat} (hk : k < 8) (hend : k = 7 ∨ Closed ts) :
    slots (List.replicate (k + 1) .bool ++ ts) = .inline 1 :: slots ts := by
  unfold slots
  rw [fields_bools hk hend]
  rfl

/-- **The loop of the decoder reads the head of a record.** -/
theorem entriesFrom_eq {data : Bytes} (hlen : data.length < u64Bound) {suf : List AbiType} (h : Cut suf) :
    ∀ {pre : List AbiType} {fuel pos : Nat}, Aligned pre suf → suf.length ≤ fuel → pos ≤ data.length → HaveSizes suf →
      (entriesFrom (pre ++ suf) data fuel pre.length pos).toOption =
        (scan u16 (slots suf) (data.drop pos)).map (fun p => expand (fields suf) p.1) := by
  induction h with
  | nil =>
    intro pre fuel pos _ _ _ _
    rw [List.append_nil]
    cases fuel with
    | zero => rfl
    | succ fuel =>
      rw [entriesFrom, List.getElem?_eq_none (Nat.le_refl _)]
      rfl
  | @child t ts ht h ih =>
    intro pre fuel pos _ hfuel hpos hsizes
    cases fuel with
    | zero =>
      rw [List.length_cons] at hfuel
      omega
    | succ fuel =>
      rw [List.length_cons] at hfuel
      have hlist : pre ++ t :: ts = (pre ++ [t]) ++ ts := by rw [List.append_assoc]; rfl
      have hnext : (pre ++ [t]).length = pre.length + 1 := by rw [List.length_append, List.length_singleton]
      have hdata : (data.drop pos).length = data.length - pos := List.length_drop
      have hsizes' : HaveSizes ts := fun t' ht' => hsizes t' (List.mem_cons_of_mem _ ht')
      rw [entriesFrom, List.getElem?_append_right (Nat.le_refl _), Nat.sub_self, List.getElem?_cons_zero]
      simp only [ht, Bool.false_eq_true, if_false]
      rw [slots_child ht, fields_child ht]
      unfold slotOf
      by_cases hdyn : t.isDynamic = true
      · rw [if_pos hdyn, if_pos hdyn, scan, hdata]
        by_cases hfit : pos + 2 > data.length
        · rw [if_pos hfit, if_neg (by show ¬ 2 ≤ _; omega)]
          rfl
        · rw [if_neg hfit, if_pos (by show 2 ≤ _; omega), toOption_bind_pure, hlist, ← hnext,
            ih (.child ht ts) (by omega) (by omega) hsizes', List.drop_drop, Option.map_map, Option.map_map]
          rfl
      · rw [if_neg hdyn, if_neg hdyn]
        obtain ⟨len, hbyte⟩ := Option.isSome_iff_exists.1 (hsizes t List.mem_cons_self (Bool.eq_false_iff.2 hdyn))
        simp only [hbyte, Option.getD_some]
        rw [scan, hdata]
        by_cases hfit : len ≤ data.length - pos
        · have hgood : (checkedAdd pos len).all (fun stop => decide (stop > data.length)) = false := by
            unfold checkedAdd
            rw [if_pos (by omega)]
            exact decide_eq_false (by omega)
          rw [hgood, if_pos hfit, if_neg Bool.false_ne_true, toOption_bind_pure, hlist, ← hnext,
            ih (.child ht ts) (by omega) (by omega) hsizes', List.drop_drop, Option.map_map, Option.map_map]
          rfl
        · have hbad : (checkedAdd pos len).all (fun stop => decide (stop > data.length)) = true := by
            unfold checkedAdd
            split
            · exact decide_eq_true (by omega)
            · rfl
          rw [hbad, if_neg hfit, if_pos rfl]
          rfl
  | @bools k ts hk hend h ih =>
    intro pre fuel pos haligned hfuel hpos hsizes
    rw [List.length_append, List.length_replicate] at hfuel
    cases fuel with
    | zero => omega
    | succ fuel =>
      have hlist : pre ++ (List.replicate (k + 1) AbiType.bool ++ ts) = (pre ++ List.replicate (k + 1) .bool) ++ ts := by
        rw [List.append_assoc]
      have hnext : (pre ++ List.replicate (k + 1) AbiType.bool).length = pre.length + k + 1 := by
        rw [List.length_append, List.length_replicate, Nat.add_assoc]
      have hsizes' : HaveSizes ts := fun t' ht' => hsizes t' (List.mem_append_right _ ht')
      have hbefore : findBoolLr (pre ++ (List.replicate (k + 1) AbiType.bool ++ ts)) pre.length (-1) % 8 = 0 := by
        rw [List.replicate_succ, List.cons_append, findBoolLr_left rfl]
        exact haligned.before
      rw [entriesFrom, List.getElem?_append_right (Nat.le_refl _), Nat.sub_self, min_findBoolLr hk hend]
      simp only [List.replicate_succ, List.cons_append, List.getElem?_cons_zero]
      rw [← List.cons_append, ← List.replicate_succ, if_pos (show AbiType.bool.isBool = true from rfl),
        if_neg (by omega), slots_bools hk hend, fields_bools hk hend, scan, List.length_drop]
      by_cases hfit : pos < data.length
      · have hhead : data.drop pos = data[pos] :: data.drop (pos + 1) := List.drop_eq_getElem_cons hfit
        rw [List.getElem?_eq_getElem hfit, if_pos (by omega)]
        simp only
        rw [toOption_bind_pure, hlist, ← hnext, ih (haligned.bools hend) (by omega) (by omega) hsizes', List.drop_drop,
          Option.map_map, Option.map_map, hhead]
        refine congrArg (fun f => Option.map f _) ?_
        funext p
        simp only [Function.comp_apply, unpacked_eq]
        rfl
      · rw [List.getElem?_eq_none (by omega), if_neg (by omega)]
        rfl

theorem nextOffset_inlines (total : Nat) (f : Nat → Bytes) (es : List (Entry UInt8)) : ∀ (l : List Nat),
    nextOffset total (l.map (fun i => .inline (f i)) ++ es) = nextOffset total es
  | [] => rfl
  | _ :: l => nextOffset_inlines total f es l

theorem resolve_inlines (data : Bytes) (f : Nat → Bytes) (es : List (Entry UInt8)) : ∀ (l : List Nat),
    resolve data (l.map (fun i => .inline (f i)) ++ es) =
      (resolve data es).map (fun ps => l.map (fun i => .inline (f i)) ++ ps)
  | [] => by simp
  | i :: l => by
    rw [List.map_cons, List.cons_append, resolve, resolve_inlines data f es l, Option.map_map]
    rfl

theorem nextOffset_expand (total : Nat) : ∀ (fs : List Field) (es : List (Entry UInt8)),
    nextOffset total (expand fs es) = nextOffset total es
  | [], _ => rfl
  | .bools _ :: _, [] => rfl
  | .child _ :: _, [] => rfl
  | .bools _ :: fs, .inline bs :: es => by
    rw [expand, nextOffset_inlines total (fun i => [boolByte (bitAt (bs.headD 0) i)])]
    exact nextOffset_expand total fs es
  | .bools _ :: _, .pointed _ :: _ => rfl
  | .child _ :: fs, .inline _ :: es => nextOffset_expand total fs es
  | .child _ :: _, .pointed _ :: _ => rfl

theorem resolve_expand (data : Bytes) : ∀ (fs : List Field) (es : List (Entry UInt8)),
    resolve data (expand fs es) = (resolve data es).map (expand fs)
  | [], es => by
    show resolve data es = (resolve data es).map (fun ps => ps)
    exact Option.map_id'.symm
  | .bools _ :: _, [] => rfl
  | .child _ :: _, [] => rfl
  | .bools _ :: fs, .inline bs :: es => by
    rw [expand, resolve_inlines data (fun i => [boolByte (bitAt (bs.headD 0) i)]), resolve_expand data fs es, resolve,
      Option.map_map, Option.map_map]
    rfl
  | .child t :: fs, .inline bs :: es => by
    rw [expand_child, resolve, resolve, resolve_expand data fs es, Option.map_map, Option.map_map]
    rfl
  | .bools k :: fs, .pointed start :: es => by
    rw [expand_pointed, resolve, resolve, resolve_expand data fs es, nextOffset_expand]
    split
    · rfl
    · rw [Option.map_map, Option.map_map]
      rfl
  | .child t :: fs, .pointed start :: es => by
    rw [expand_pointed, resolve, resolve, resolve_expand data fs es, nextOffset_expand]
    split
    · rfl
    · rw [Option.map_map, Option.map_map]
      rfl

theorem segmentsOf_eq (data : Bytes) : ∀ (es : List (Entry UInt8)),
    (segmentsOf data es).toOption = (resolve data es).map (List.map Part.content)
  | [] => rfl
  | .inline bs :: es => by
    rw [segmentsOf, toOption_bind_pure, segmentsOf_eq data es, resolve, Option.map_map, Option.map_map]
    rfl
  | .pointed start :: es => by
    rw [segmentsOf, resolve]
    split
    · rfl
    · rw [toOption_bind_pure, segmentsOf_eq data es, Option.map_map, Option.map_map]
      rfl

/-- **The decoder reads a record.** -/
theorem tupleSegments_eq {types : List AbiType} {data : Bytes} (hlen : data.length < u64Bound) (hsizes : HaveSizes types) :
    (tupleSegments types data).toOption =
      (HeadTail.read u16 (slots types) data).map (fun ps => (expand (fields types) ps).map Part.content) := by
  have hentries := @entriesFrom_eq data hlen types (cut types) [] types.length 0 (.inl rfl) (Nat.le_refl _) (Nat.zero_le _)
    hsizes
  rw [List.nil_append, List.length_nil, List.drop_zero] at hentries
  unfold tupleSegments HeadTail.read
  cases hscan : scan u16 (slots types) data with
  | none =>
    rw [hscan] at hentries
    cases hrun : entriesFrom types data types.length 0 0 with
    | ok entries =>
      rw [hrun] at hentries
      cases hentries
    | error e => rfl
  | some p =>
    rw [hscan] at hentries
    cases hrun : entriesFrom types data types.length 0 0 with
    | error e =>
      rw [hrun] at hentries
      cases hentries
    | ok entries =>
      rw [hrun] at hentries
      obtain rfl := Option.some.inj hentries
      show (segmentsOf data (expand (fields types) p.1)).toOption = _
      rw [segmentsOf_eq, resolve_expand, Option.map_map, Option.bind_some]
      rfl

/-! ## The encoder writes records -/

/-- The encodings of the children as the parts of a record. -/
def pieceOf (t : AbiType) (e : Bytes) : HeadTail.Part UInt8 := if t.isDynamic then .pointed e else .inline e

def pieces (types : List AbiType) (es : List Bytes) : List (HeadTail.Part UInt8) := List.zipWith pieceOf types es

/-- The parts of the record of a tuple. -/
def partsOf (types : List AbiType) (es : List Bytes) : List (HeadTail.Part UInt8) := collapse (fields types) (pieces types es)

/-- The cells that the loop leaves for the parts. -/
def cellsOf : List Field → List (HeadTail.Part UInt8) → List Cell
  | _, [] => []
  | .bools count :: fs, .inline bs :: ps => ⟨bs, [], false⟩ :: (List.replicate (count - 1) .empty ++ cellsOf fs ps)
  | fs, .inline bs :: ps => ⟨bs, [], false⟩ :: cellsOf fs.tail ps
  | fs, .pointed bs :: ps => ⟨[0, 0], bs, true⟩ :: cellsOf fs.tail ps

/-- Where a type is bool, so is the value. -/
def BoolValue (t : AbiType) (v : AbiValue × Except String Bytes) : Prop :=
  t.isBool = true → ∃ b, v = (.bool b, .ok [boolByte b])

def encodedBool (b : Bool) : AbiValue × Except String Bytes := (.bool b, .ok [boolByte b])

theorem boolValues_split : ∀ {k : Nat} {values : List (AbiValue × Except String Bytes)},
    List.Forall₂ BoolValue (List.replicate k .bool ++ ts) values →
      ∃ (bits : List Bool) (rest : List (AbiValue × Except String Bytes)), bits.length = k ∧
        values = bits.map encodedBool ++ rest ∧ List.Forall₂ BoolValue ts rest
  | 0, values, h => ⟨[], values, rfl, rfl, h⟩
  | k + 1, values, h => by
    rw [List.replicate_succ, List.cons_append] at h
    cases h with
    | cons hv hvs =>
      obtain ⟨bits, rest, hlen, rfl, hrest⟩ := boolValues_split hvs
      obtain ⟨b, rfl⟩ := hv rfl
      exact ⟨b :: bits, rest, congrArg (· + 1) hlen, rfl, hrest⟩

theorem compressed_eq {preV rest : List (AbiValue × Except String Bytes)} {bits : List Bool} {i k : Nat}
    (hi : preV.length = i) (hbits : bits.length = k + 1) :
    compressed ((preV ++ (bits.map encodedBool ++ rest)).map Prod.fst) i k = packed bits := by
  unfold compressed packed
  rw [hbits]
  refine List.foldl_ext _ _ _ (fun byte j hj => ?_)
  have hj' : j < bits.length := by rw [hbits]; exact List.mem_range.1 hj
  have hat : ((preV ++ (bits.map encodedBool ++ rest)).map Prod.fst).getD (i + j) (.bool false) =
    .bool (bits.getD j false) := by
    rw [List.map_append, List.getD_append_right _ _ _ _ (by rw [List.length_map]; omega), List.length_map, hi,
      Nat.add_sub_cancel_left, List.map_append, List.getD_append _ _ _ _ (by simpa using hj'), List.map_map,
      List.getD_eq_getElem _ _ (by simpa using hj'), List.getElem_map, List.getD_eq_getElem _ _ hj']
    rfl
  rw [hat]
  rfl

theorem forall₂_encodedBool {rest : List (AbiValue × Except String Bytes)} {es : List Bytes} : ∀ {bits : List Bool},
    List.Forall₂ (fun v e => v.2 = .ok e) (bits.map encodedBool ++ rest) es ↔
      ∃ es', es = bits.map (fun b => [boolByte b]) ++ es' ∧ List.Forall₂ (fun v e => v.2 = .ok e) rest es'
  | [] => by
    constructor
    · exact fun h => ⟨es, rfl, h⟩
    · rintro ⟨es', rfl, h⟩
      exact h
  | b :: bits => by
    rw [List.map_cons, List.cons_append, List.forall₂_cons_left_iff]
    constructor
    · rintro ⟨e, es', he, h, rfl⟩
      obtain ⟨es'', rfl, hrest⟩ := forall₂_encodedBool.1 h
      exact ⟨es'', by rw [← Except.ok.inj he]; rfl, hrest⟩
    · rintro ⟨es', rfl, h⟩
      exact ⟨_, _, rfl, forall₂_encodedBool.2 ⟨es', rfl, h⟩, rfl⟩

theorem pieces_bools (bits : List Bool) (ts : List AbiType) (es : List Bytes) :
    pieces (List.replicate bits.length .bool ++ ts) (bits.map (fun b => [boolByte b]) ++ es) =
      bits.map (fun b => .inline [boolByte b]) ++ pieces ts es := by
  induction bits with
  | nil => rfl
  | cons b bits ih =>
    rw [List.length_cons, List.replicate_succ, List.map_cons, List.map_cons, List.cons_append, List.cons_append,
      List.cons_append, ← ih]
    rfl

theorem isSet_boolByte (bits : List Bool) :
    (bits.map (fun b => (.inline [boolByte b] : HeadTail.Part UInt8))).map isSet = bits := by
  rw [List.map_map]
  refine (List.map_congr_left (fun b _ => ?_)).trans (List.map_id bits)
  cases b <;> rfl

theorem partsOf_bools {k : Nat} (hk : k < 8) (hend : k = 7 ∨ Closed ts) {bits : List Bool}
    (hbits : bits.length = k + 1) (es : List Bytes) :
    partsOf (List.replicate (k + 1) .bool ++ ts) (bits.map (fun b => [boolByte b]) ++ es) =
      .inline [packed bits] :: partsOf ts es := by
  unfold partsOf
  rw [fields_bools hk hend, ← hbits, pieces_bools, collapse, List.take_left' (by rw [List.length_map]),
    List.drop_left' (by rw [List.length_map]), isSet_boolByte]

theorem partsOf_child {t : AbiType} (ht : t.isBool = false) (ts : List AbiType) (e : Bytes) (es : List Bytes) :
    partsOf (t :: ts) (e :: es) = pieceOf t e :: partsOf ts es := by
  unfold partsOf
  rw [fields_child ht]
  rfl

/-- **The loop of the encoder succeeds where every child does, and leaves the parts of the record.** -/
theorem cellsFrom_eq_ok {suf : List AbiType} (h : Cut suf) : ∀ {pre : List AbiType}
    {preV sufV : List (AbiValue × Except String Bytes)} {fuel : Nat} {cells : List Cell}, preV.length = pre.length →
      Aligned pre suf → suf.length ≤ fuel → List.Forall₂ BoolValue suf sufV →
      (cellsFrom (preV ++ sufV) (pre ++ suf) fuel pre.length = .ok cells ↔
        ∃ es, List.Forall₂ (fun v e => v.2 = .ok e) sufV es ∧ cells = cellsOf (fields suf) (partsOf suf es)) := by
  induction h with
  | nil =>
    intro pre preV sufV fuel cells hpre _ _ hbools
    cases hbools
    have hrun : cellsFrom (preV ++ []) (pre ++ []) fuel pre.length = .ok [] := by
      rw [List.append_nil, List.append_nil]
      cases fuel with
      | zero => rfl
      | succ fuel => rw [cellsFrom, List.getElem?_eq_none (Nat.le_refl _)]
    rw [hrun]
    constructor
    · intro heq
      cases heq
      exact ⟨[], .nil, rfl⟩
    · rintro ⟨es, -, rfl⟩
      rfl
  | @child t ts ht h ih =>
    intro pre preV sufV fuel cells hpre _ hfuel hbools
    cases hbools with
    | @cons _ v _ vs _ hbools =>
      cases fuel with
      | zero =>
        rw [List.length_cons] at hfuel
        omega
      | succ fuel =>
        rw [List.length_cons] at hfuel
        have hlist : pre ++ t :: ts = (pre ++ [t]) ++ ts := by rw [List.append_assoc]; rfl
        have hvalues : preV ++ v :: vs = (preV ++ [v]) ++ vs := by rw [List.append_assoc]; rfl
        have hnext : (pre ++ [t]).length = pre.length + 1 := by rw [List.length_append, List.length_singleton]
        have hnextV : (preV ++ [v]).length = (pre ++ [t]).length := by
          rw [List.length_append, List.length_append, hpre]
          rfl
        have ih := fun cells => @ih (pre ++ [t]) (preV ++ [v]) vs fuel cells hnextV (.child ht ts) (by omega) hbools
        rw [← hlist, ← hvalues, hnext] at ih
        rw [cellsFrom, List.getElem?_append_right (Nat.le_refl _), Nat.sub_self, List.getElem?_cons_zero, ← hpre,
          List.getElem?_append_right (Nat.le_refl _), Nat.sub_self, List.getElem?_cons_zero, hpre]
        simp only [ht, Bool.false_eq_true, if_false]
        -- the same for a child in the head and for one in the tail
        have hstep : ∀ cell : Bytes → Cell,
            (∀ e es, cellsOf (fields (t :: ts)) (partsOf (t :: ts) (e :: es)) =
              cell e :: cellsOf (fields ts) (partsOf ts es)) →
            ((do
              let e ← v.2
              let cells ← cellsFrom (preV ++ v :: vs) (pre ++ t :: ts) fuel (pre.length + 1)
              return cell e :: cells) = Except.ok cells ↔
            ∃ es, List.Forall₂ (fun v e => v.2 = Except.ok e) (v :: vs) es ∧
              cells = cellsOf (fields (t :: ts)) (partsOf (t :: ts) es)) := by
          intro cell hcell
          constructor
          · intro hrun
            obtain ⟨e, he, hrun⟩ := Run.bind_eq_ok.1 hrun
            obtain ⟨cells', hcells, hret⟩ := Run.bind_eq_ok.1 hrun
            obtain ⟨es, hes, rfl⟩ := (ih cells').1 hcells
            refine ⟨e :: es, .cons he hes, ?_⟩
            rw [hcell]
            exact (Except.ok.inj hret).symm
          · rintro ⟨es, hes, rfl⟩
            cases hes with
            | cons he hes =>
              refine Run.bind_eq_ok.2 ⟨_, he, Run.bind_eq_ok.2 ⟨_, (ih _).2 ⟨_, hes, rfl⟩, ?_⟩⟩
              rw [hcell]
              rfl
        by_cases hdyn : t.isDynamic = true
        · rw [if_pos hdyn]
          refine hstep (fun e => ⟨[0, 0], e, true⟩) (fun e es => ?_)
          rw [fields_child ht, partsOf_child ht, pieceOf, if_pos hdyn]
          rfl
        · rw [if_neg hdyn]
          refine hstep (fun e => ⟨e, [], false⟩) (fun e es => ?_)
          rw [fields_child ht, partsOf_child ht, pieceOf, if_neg hdyn]
          rfl
  | @bools k ts hk hend h ih =>
    intro pre preV sufV fuel cells hpre haligned hfuel hbools
    rw [List.length_append, List.length_replicate] at hfuel
    obtain ⟨bits, rest, hbits, rfl, hrest⟩ := boolValues_split hbools
    cases fuel with
    | zero => omega
    | succ fuel =>
      have hlist : pre ++ (List.replicate (k + 1) AbiType.bool ++ ts) = (pre ++ List.replicate (k + 1) .bool) ++ ts := by
        rw [List.append_assoc]
      have hvalues : preV ++ (bits.map encodedBool ++ rest) = (preV ++ bits.map encodedBool) ++ rest := by
        rw [List.append_assoc]
      have hnext : (pre ++ List.replicate (k + 1) AbiType.bool).length = pre.length + k + 1 := by
        rw [List.length_append, List.length_replicate, Nat.add_assoc]
      have hnextV : (preV ++ bits.map encodedBool).length = (pre ++ List.replicate (k + 1) AbiType.bool).length := by
        rw [List.length_append, List.length_map, List.length_append, List.length_replicate, hpre, hbits]
      have ih := fun cells => @ih _ _ rest fuel cells hnextV (haligned.bools hend) (by omega) hrest
      rw [← hlist, ← hvalues, hnext] at ih
      have hbefore : findBoolLr (pre ++ (List.replicate (k + 1) AbiType.bool ++ ts)) pre.length (-1) % 8 = 0 := by
        rw [List.replicate_succ, List.cons_append, findBoolLr_left rfl]
        exact haligned.before
      obtain ⟨b, bits', rfl⟩ : ∃ b bits', bits = b :: bits' := List.exists_cons_of_length_eq_add_one hbits
      have htype : (pre ++ (List.replicate (k + 1) AbiType.bool ++ ts))[pre.length]? = some .bool := by
        rw [List.getElem?_append_right (Nat.le_refl _), Nat.sub_self, List.replicate_succ, List.cons_append,
          List.getElem?_cons_zero]
      have hvalue : (preV ++ ((b :: bits').map encodedBool ++ rest))[pre.length]? = some (encodedBool b) := by
        rw [List.getElem?_append_right (Nat.le_of_eq hpre), hpre, Nat.sub_self, List.map_cons, List.cons_append,
          List.getElem?_cons_zero]
      rw [cellsFrom, min_findBoolLr hk hend, htype, hvalue]
      dsimp only
      rw [if_neg (show ¬ AbiType.bool.isDynamic = true from Bool.false_ne_true),
        if_pos (show AbiType.bool.isBool = true from rfl), if_neg (by omega), compressed_eq hpre hbits]
      constructor
      · intro hrun
        obtain ⟨cells', hcells, hret⟩ := Run.bind_eq_ok.1 hrun
        obtain ⟨es, hes, rfl⟩ := (ih cells').1 hcells
        refine ⟨(b :: bits').map (fun b => [boolByte b]) ++ es, forall₂_encodedBool.2 ⟨es, rfl, hes⟩, ?_⟩
        rw [partsOf_bools hk hend hbits, fields_bools hk hend]
        exact (Except.ok.inj hret).symm
      · rintro ⟨es, hes, rfl⟩
        obtain ⟨es', rfl, hes'⟩ := forall₂_encodedBool.1 hes
        rw [partsOf_bools hk hend hbits, fields_bools hk hend]
        exact Run.bind_eq_ok.2 ⟨_, (ih _).2 ⟨es', hes', rfl⟩, rfl⟩

theorem cellsOf_pointed (fs : List Field) (bs : Bytes) (ps : List (HeadTail.Part UInt8)) :
    cellsOf fs (.pointed bs :: ps) = ⟨[0, 0], bs, true⟩ :: cellsOf fs.tail ps := by
  cases fs with
  | nil => rfl
  | cons f fs => cases f <;> rfl

/-- A cell without a tail keeps its head. -/
theorem fillOffsets_inline (headLength cur : Nat) (bs : Bytes) (cells : List Cell) :
    fillOffsets headLength cur (⟨bs, [], false⟩ :: cells) =
      (fillOffsets headLength cur cells).map (⟨bs, [], false⟩ :: ·) := by
  rw [fillOffsets, if_neg Bool.false_ne_true]
  show (fillOffsets headLength (cur + 0) cells >>= _) = _
  rw [Nat.add_zero]
  cases fillOffsets headLength cur cells <;> rfl

theorem fillOffsets_empty (headLength cur : Nat) (cells : List Cell) : ∀ (n : Nat),
    fillOffsets headLength cur (List.replicate n .empty ++ cells) =
      (fillOffsets headLength cur cells).map (List.replicate n .empty ++ ·)
  | 0 => by
    show fillOffsets headLength cur cells = (fillOffsets headLength cur cells).map (fun cs => cs)
    cases fillOffsets headLength cur cells <;> rfl
  | n + 1 => by
    rw [List.replicate_succ, List.cons_append]
    refine (fillOffsets_inline headLength cur [] _).trans ?_
    rw [fillOffsets_empty headLength cur cells n]
    cases fillOffsets headLength cur cells <;> rfl

/-- What the cells hold once the offsets are filled in. -/
structure Filled (headLength cur : Nat) (ps : List (HeadTail.Part UInt8)) (cells cells' : List Cell) : Prop where
  run : fillOffsets headLength cur cells = .ok cells'
  head_eq : (cells'.map Cell.head).flatten = heads u16 (headLength + cur) ps
  tail_eq : (cells'.map Cell.tail).flatten = tails ps

variable {ps : List (HeadTail.Part UInt8)} {cells cells' : List Cell} {headLength cur : Nat}

theorem Filled.inline (h : Filled headLength cur ps cells cells') (bs : Bytes) :
    Filled headLength cur (.inline bs :: ps) (⟨bs, [], false⟩ :: cells) (⟨bs, [], false⟩ :: cells') where
  run := by
    rw [fillOffsets_inline, h.run]
    rfl
  head_eq := by
    rw [List.map_cons, List.flatten_cons, h.head_eq]
    rfl
  tail_eq := by
    rw [List.map_cons, List.flatten_cons, h.tail_eq]
    rfl

theorem Filled.empty (h : Filled headLength cur ps cells cells') (n : Nat) :
    Filled headLength cur ps (List.replicate n .empty ++ cells) (List.replicate n .empty ++ cells') where
  run := by
    rw [fillOffsets_empty, h.run]
    rfl
  head_eq := by
    rw [List.map_append, List.map_replicate, List.flatten_append, h.head_eq]
    show (List.replicate n []).flatten ++ _ = _
    rw [List.flatten_replicate_nil, List.nil_append]
  tail_eq := by
    rw [List.map_append, List.map_replicate, List.flatten_append, h.tail_eq]
    show (List.replicate n []).flatten ++ _ = _
    rw [List.flatten_replicate_nil, List.nil_append]

theorem Filled.pointed {bs : Bytes}
    (h : Filled headLength (cur + bs.length) ps cells cells') (hfits : headLength + cur < 65536) :
    Filled headLength cur (.pointed bs :: ps) (⟨[0, 0], bs, true⟩ :: cells)
      (⟨beBytes 2 (headLength + cur), bs, true⟩ :: cells') where
  run := by
    rw [fillOffsets, if_pos rfl, if_neg (by omega), h.run]
    rfl
  head_eq := by
    rw [List.map_cons, List.flatten_cons, h.head_eq, heads, Nat.add_assoc]
    rfl
  tail_eq := by
    rw [List.map_cons, List.flatten_cons, h.tail_eq]
    rfl

/-- **The offsets are those of the record.** -/
theorem fillOffsets_cellsOf (headLength : Nat) : ∀ (fs : List Field) (ps : List (HeadTail.Part UInt8)) (cur : Nat),
    (∃ cells', Filled headLength cur ps (cellsOf fs ps) cells') ∧ Fits u16 (headLength + cur) ps ∨
      (∃ e, fillOffsets headLength cur (cellsOf fs ps) = .error e) ∧ ¬ Fits u16 (headLength + cur) ps
  | _, [], _ => by
    refine .inl ⟨⟨[], ?_, rfl, rfl⟩, trivial⟩
    unfold cellsOf
    rfl
  | .bools count :: fs, .inline bs :: ps, cur => by
    rcases fillOffsets_cellsOf headLength fs ps cur with ⟨⟨cells', h⟩, hfits⟩ | ⟨⟨e, h⟩, hfits⟩
    · exact .inl ⟨⟨_, (h.empty (count - 1)).inline bs⟩, hfits⟩
    · refine .inr ⟨⟨e, ?_⟩, hfits⟩
      rw [cellsOf, fillOffsets_inline, fillOffsets_empty, h]
      rfl
  | [], .inline bs :: ps, cur => by
    rcases fillOffsets_cellsOf headLength [] ps cur with ⟨⟨cells', h⟩, hfits⟩ | ⟨⟨e, h⟩, hfits⟩
    · exact .inl ⟨⟨_, h.inline bs⟩, hfits⟩
    · refine .inr ⟨⟨e, ?_⟩, hfits⟩
      show fillOffsets headLength cur (⟨bs, [], false⟩ :: cellsOf [] ps) = _
      rw [fillOffsets_inline, h]
      rfl
  | .child t :: fs, .inline bs :: ps, cur => by
    rcases fillOffsets_cellsOf headLength fs ps cur with ⟨⟨cells', h⟩, hfits⟩ | ⟨⟨e, h⟩, hfits⟩
    · exact .inl ⟨⟨_, h.inline bs⟩, hfits⟩
    · refine .inr ⟨⟨e, ?_⟩, hfits⟩
      show fillOffsets headLength cur (⟨bs, [], false⟩ :: cellsOf fs ps) = _
      rw [fillOffsets_inline, h]
      rfl
  | fs, .pointed bs :: ps, cur => by
    rw [cellsOf_pointed]
    by_cases hoff : headLength + cur < 65536
    · rcases fillOffsets_cellsOf headLength fs.tail ps (cur + bs.length) with ⟨⟨cells', h⟩, hfits⟩ | ⟨⟨e, h⟩, hfits⟩
      · rw [← Nat.add_assoc] at hfits
        exact .inl ⟨⟨_, h.pointed hoff⟩, hoff, hfits⟩
      · rw [← Nat.add_assoc] at hfits
        refine .inr ⟨⟨e, ?_⟩, fun hall => hfits hall.2⟩
        rw [fillOffsets, if_pos rfl, if_neg (by omega), h]
        rfl
    · refine .inr ⟨⟨"cannot encode abi tuple: encode length exceeds uint16 maximum", ?_⟩, fun hall => hoff hall.1⟩
      rw [fillOffsets, if_pos rfl, if_pos (by omega)]

theorem sum_head_cellsOf : ∀ (fs : List Field) (ps : List (HeadTail.Part UInt8)),
    ((cellsOf fs ps).map (fun cell => cell.head.length)).sum = headLen u16 (ps.map Piece.slot)
  | _, [] => by
    unfold cellsOf
    rfl
  | .bools count :: fs, .inline bs :: ps => by
    rw [cellsOf, List.map_cons, List.map_append, List.map_replicate, List.sum_cons, List.sum_append, List.map_cons,
      headLen_cons, ← sum_head_cellsOf fs ps]
    show bs.length + ((List.replicate (count - 1) 0).sum + _) = bs.length + _
    rw [List.sum_replicate_nat, Nat.mul_zero, Nat.zero_add]
  | [], .inline bs :: ps => by
    rw [List.map_cons, headLen_cons, ← sum_head_cellsOf [] ps]
    rfl
  | .child t :: fs, .inline bs :: ps => by
    rw [List.map_cons, headLen_cons, ← sum_head_cellsOf fs ps]
    rfl
  | fs, .pointed bs :: ps => by
    rw [cellsOf_pointed, List.map_cons, List.map_cons, headLen_cons, ← sum_head_cellsOf fs.tail ps]
    rfl

/-- **The encoder writes a record**, where every child can be encoded and every offset fits. -/
theorem encodeTupleWithTypes_eq_ok {types : List AbiType} {values : List (AbiValue × Except String Bytes)} {bs : Bytes}
    (hbools : List.Forall₂ BoolValue types values) :
    encodeTupleWithTypes values types = .ok bs ↔ ∃ es, List.Forall₂ (fun v e => v.2 = .ok e) values es ∧
      Fits u16 (headLen u16 ((partsOf types es).map Piece.slot)) (partsOf types es) ∧ write u16 (partsOf types es) = bs := by
  have hlen := hbools.length_eq
  have hcells := fun cells => @cellsFrom_eq_ok types (cut types) [] [] values values.length cells rfl (.inl rfl)
    (Nat.le_of_eq hlen) hbools
  rw [List.nil_append, List.nil_append, List.length_nil] at hcells
  -- what the second pass makes of the cells of some encodings
  have hfill : ∀ es, (do
      let cells ← fillOffsets ((cellsOf (fields types) (partsOf types es)).map (fun cell => cell.head.length)).sum 0
        (cellsOf (fields types) (partsOf types es))
      return (cells.map Cell.head).flatten ++ (cells.map Cell.tail).flatten) = Except.ok bs ↔
      Fits u16 (headLen u16 ((partsOf types es).map Piece.slot)) (partsOf types es) ∧ write u16 (partsOf types es) = bs := by
    intro es
    rw [sum_head_cellsOf]
    unfold write
    rcases fillOffsets_cellsOf (headLen u16 ((partsOf types es).map Piece.slot)) (fields types) (partsOf types es) 0 with
      ⟨⟨cells', h⟩, hfits⟩ | ⟨⟨e, h⟩, hfits⟩
    · rw [h.run, Run.ok_bind, h.head_eq, h.tail_eq]
      rw [Nat.add_zero] at hfits ⊢
      constructor
      · exact fun heq => ⟨hfits, Except.ok.inj heq⟩
      · exact fun heq => congrArg Except.ok heq.2
    · rw [h]
      rw [Nat.add_zero] at hfits
      exact iff_of_false (fun heq => by cases heq) (fun heq => hfits heq.1)
  unfold encodeTupleWithTypes
  rw [if_neg (fun hne => hne hlen.symm)]
  constructor
  · intro hrun
    obtain ⟨cells, hrunCells, hrun⟩ := Run.bind_eq_ok.1 hrun
    obtain ⟨es, hes, rfl⟩ := (hcells cells).1 hrunCells
    exact ⟨es, hes, (hfill es).1 hrun⟩
  · rintro ⟨es, hes, hwrite⟩
    exact Run.bind_eq_ok.2 ⟨_, (hcells _).2 ⟨es, hes, rfl⟩, (hfill es).2 hwrite⟩

end Abi
end Algod
