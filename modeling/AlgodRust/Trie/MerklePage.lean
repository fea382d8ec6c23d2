import AlgodRust.Lib.BitGroups
import AlgodRust.Lib.Keyed
import AlgodRust.Lib.Msgpack
import Mathlib.Order.Basic
/-!
# MerklePage — pages of trie nodes on disk

A page is a version, the number of its nodes and the nodes by their ids.  The children of a node have no count: after
the last one its index comes again, and an index that does not ascend ends the list.  What was written is read back
(`deserialize_serialize`), and whatever is read has nodes that can be written (`deserialize_written`).
-/
namespace Algod
namespace MerklePage

open Msgpack (Bytes)

structure ChildEntry where
  hashIndex : UInt8
  childId : UInt64
deriving DecidableEq, Repr

structure PageNode where
  hash : Bytes
  children : List ChildEntry
  isLeaf : Bool
deriving DecidableEq, Repr

/-- The nodes in the order of their ids. -/
structure Page where
  nodes : List (UInt64 × PageNode)
  ascending : Keyed.Ascending (fun x => x.1.toNat) nodes

def nodePageVersion : Nat := 0x1000000010000000

/-! ## Writing -/

def writeUvarint (x : Nat) : Bytes :=
  if x ≥ 0x80 then (UInt8.ofNat x ||| 0x80) :: writeUvarint (x >>> 7) else [UInt8.ofNat x]
termination_by x
decreasing_by rw [Nat.shiftRight_eq_div_pow]; omega

/-- Zigzag: the numbers that are not negative are the even ones. -/
def writeVarint (x : Int) : Bytes := writeUvarint (if 0 ≤ x then 2 * x.toNat else 2 * (-x - 1).toNat + 1)

def writeChildren (children : List ChildEntry) : Bytes :=
  children.flatMap (fun c => c.hashIndex :: writeUvarint c.childId.toNat)

/-- The assertions that a node passes to be written. -/
def PageNode.writable (node : PageNode) : Bool :=
  if node.isLeaf then node.children.isEmpty
  else !node.children.isEmpty && decide ((node.children.map ChildEntry.hashIndex).Pairwise (· < ·))

/-- There is no result where an assertion fails. -/
def serializeNode (node : PageNode) : Option Bytes :=
  if !node.writable then none
  else if node.isLeaf then some (writeUvarint node.hash.length ++ node.hash ++ [0])
  else some (writeUvarint node.hash.length ++ node.hash ++ [1] ++ writeChildren node.children ++
    [(node.children.getLast?.map ChildEntry.hashIndex).getD 0])

def serializeNodes : List (UInt64 × PageNode) → Option Bytes
  | [] => some []
  | (nid, node) :: nodes => do
    let bytes ← serializeNode node
    let rest ← serializeNodes nodes
    some (writeUvarint nid.toNat ++ bytes ++ rest)

def Page.serialize (page : Page) : Option Bytes :=
  (serializeNodes page.nodes).map fun bytes =>
    writeUvarint nodePageVersion ++ writeVarint page.nodes.length ++ bytes

/-! ## Reading -/

/-- A number in hexadecimal digits, with zeros in front. -/
def hex (width n : Nat) : String :=
  String.ofList (List.replicate (width - (Nat.toDigits 16 n).length) '0' ++ Nat.toDigits 16 n)

/-- The value and what comes after it; `i` bytes were read before. -/
def uvarintLoop : Nat → Nat → Bytes → Option (Nat × Bytes)
  | _, _, [] => none
  | i, value, b :: rest =>
    if b < 0x80 then if i + 1 = 10 ∧ b > 1 then none else some (value ||| b.toNat <<< (7 * i), rest)
    else if i + 1 = 10 then none
    else uvarintLoop (i + 1) (value ||| (b &&& 0x7f).toNat <<< (7 * i)) rest

def readUvarint (buf : Bytes) : Option (Nat × Bytes) := uvarintLoop 0 0 buf

def readVarint (buf : Bytes) : Option (Int × Bytes) :=
  (readUvarint buf).map fun r => (if r.1 % 2 = 0 then (r.1 / 2 : Nat) else -(r.1 / 2 : Nat) - 1, r.2)

/-- As many rounds as there are bytes are enough, for each round reads one. -/
def readChildren : Nat → Option UInt8 → Bytes → Except String (List ChildEntry × Bytes)
  | 0, _, _ => .error "truncated children list (no sentinel terminator)"
  | _ + 1, _, [] => .error "truncated children list (no sentinel terminator)"
  | fuel + 1, prev, hashIndex :: rest =>
    if prev.any (fun p => decide (hashIndex ≤ p)) then .ok ([], rest)
    else
      match readUvarint rest with
      | none => .error "truncated childID varint"
      | some (childId, rest) =>
        (readChildren fuel (some hashIndex) rest).map fun r => (⟨hashIndex, UInt64.ofNat childId⟩ :: r.1, r.2)

/-- The node at the end of the first `size - buf.length` bytes. -/
def deserializeNode (size : Nat) (buf : Bytes) : Except String (PageNode × Bytes) :=
  match readUvarint buf with
  | none => .error "truncated hash-length varint"
  | some (hashLen, rest) =>
    let cursor := size - rest.length
    if cursor + hashLen ≥ 2 ^ 64 then .error s!"node body length overflow (hash_len={hashLen}, cursor={cursor})"
    else
      match rest.drop hashLen with
      | [] => .error s!"truncated node body (need hash {hashLen} + flag byte; have {rest.length} bytes left)"
      | leafFlag :: tail =>
        if leafFlag = 0 then .ok (⟨rest.take hashLen, [], true⟩, tail)
        else if leafFlag ≠ 1 then .error s!"unknown node leaf-flag byte 0x{hex 2 leafFlag.toNat}"
        else (readChildren tail.length none tail).map fun r => (⟨rest.take hashLen, r.1, false⟩, r.2)

/-- A new node takes the place of one with its id. -/
def insertNode (x : UInt64 × PageNode) : List (UInt64 × PageNode) → List (UInt64 × PageNode)
  | [] => [x]
  | y :: ys => if x.1 < y.1 then x :: y :: ys else if x.1 = y.1 then x :: ys else y :: insertNode x ys

def readNodes (size : Nat) : Nat → Nat → List (UInt64 × PageNode) → Bytes → Except String (List (UInt64 × PageNode))
  | 0, _, nodes, _ => .ok nodes
  | left + 1, i, nodes, buf =>
    match readUvarint buf with
    | none => .error s!"merkle page: truncated nodeID varint at entry {i}"
    | some (nodeId, rest) =>
      match deserializeNode size rest with
      | .error e => .error s!"merkle page: bad node at entry {i} (id {nodeId}): {e}"
      | .ok (node, rest) => readNodes size left (i + 1) (insertNode (UInt64.ofNat nodeId, node) nodes) rest

def deserialize (buf : Bytes) : Except String (List (UInt64 × PageNode)) :=
  match readUvarint buf with
  | none => .error "merkle page: truncated version varint"
  | some (version, rest) =>
    if version ≠ nodePageVersion then
      .error s!"merkle page: unsupported version 0x{hex 16 version} (expected 0x{hex 16 nodePageVersion})"
    else
      match readVarint rest with
      | none => .error "merkle page: truncated node-count varint"
      | some (count, rest) =>
        if count < 0 then .error s!"merkle page: negative node count {count}"
        else readNodes buf.length count.toNat 0 [] rest

/-! ## What was written is read -/

theorem continued_toNat (x : Nat) : (UInt8.ofNat x ||| 0x80).toNat = x % 128 + 128 := by
  have hor := Nat.two_pow_add_eq_or_of_lt (i := 7) (Nat.mod_lt x (by decide : 0 < 2 ^ 7))
  have hsplit : x % 256 = 2 ^ 7 * (x / 128 % 2) ||| x % 2 ^ 7 := by rw [← hor]; omega
  rw [UInt8.toNat_or, UInt8.toNat_ofNat']
  show x % 256 ||| 128 = _
  rw [hsplit, Nat.or_assoc, Nat.or_comm (x % 2 ^ 7), ← Nat.or_assoc, show 2 ^ 7 * (x / 128 % 2) ||| 128 = 2 ^ 7 * 1 by
    rcases Nat.mod_two_eq_zero_or_one (x / 128) with h | h <;> rw [h] <;> rfl, ← hor]
  omega

/-- A group of seven bits above those that were read. -/
theorem uvarintLoop_write (x i value : Nat) (rest : Bytes) (hvalue : value < 2 ^ (7 * i)) (hi : i ≤ 9)
    (hx : x < 2 ^ (64 - 7 * i)) :
    uvarintLoop i value (writeUvarint x ++ rest) = some (value + 2 ^ (7 * i) * x, rest) := by
  induction x using Nat.strong_induction_on generalizing i value with
  | _ x ih =>
    unfold writeUvarint
    by_cases hlarge : x ≥ 0x80
    · have hbyte := continued_toNat x
      have hnot : ¬ (UInt8.ofNat x ||| 0x80) < 0x80 := by
        rw [UInt8.lt_iff_toNat_lt, hbyte]
        show ¬ x % 128 + 128 < 128
        omega
      have hgroup : ((UInt8.ofNat x ||| 0x80) &&& 0x7f).toNat = x % 128 := by
        rw [UInt8.toNat_and, hbyte]
        show (x % 128 + 128) &&& (2 ^ 7 - 1) = _
        rw [Nat.and_two_pow_sub_one_eq_mod]
        omega
      -- a tenth byte only ever has one bit
      have hnine : i ≠ 9 := by
        rintro rfl
        simp at hx
        omega
      rw [if_pos hlarge, List.cons_append]
      unfold uvarintLoop
      rw [if_neg hnot, if_neg (by omega), hgroup, BitGroups.or_shiftLeft_eq hvalue, Nat.shiftRight_eq_div_pow]
      have hpow : (2 : Nat) ^ (7 * (i + 1)) = 2 ^ (7 * i) * 128 := by rw [Nat.mul_add, Nat.pow_add]
      have hsmall : value + 2 ^ (7 * i) * (x % 128) < 2 ^ (7 * (i + 1)) := by
        have hstep : 2 ^ (7 * i) * (x % 128 + 1) ≤ 2 ^ (7 * i) * 128 := Nat.mul_le_mul_left _ (by omega)
        rw [Nat.mul_add, Nat.mul_one] at hstep
        omega
      have hrest : x / 2 ^ 7 < 2 ^ (64 - 7 * (i + 1)) := by
        apply Nat.div_lt_of_lt_mul
        rw [← Nat.pow_add, show 7 + (64 - 7 * (i + 1)) = 64 - 7 * i by omega]
        exact hx
      rw [ih (x / 2 ^ 7) (by omega) _ _ hsmall (by omega) hrest, hpow, Nat.add_assoc, Nat.mul_assoc, ← Nat.mul_add]
      show some (value + 2 ^ (7 * i) * (x % 128 + 128 * (x / 128)), rest) = _
      rw [Nat.mod_add_div]
    · have hbyte : (UInt8.ofNat x).toNat = x := by rw [UInt8.toNat_ofNat']; exact Nat.mod_eq_of_lt (by omega)
      have hless : UInt8.ofNat x < 0x80 := by rw [UInt8.lt_iff_toNat_lt, hbyte]; show x < 128; omega
      have hlast : ¬ (i + 1 = 10 ∧ UInt8.ofNat x > 1) := by
        rintro ⟨hten, hone⟩
        obtain rfl : i = 9 := by omega
        rw [gt_iff_lt, UInt8.lt_iff_toNat_lt, hbyte] at hone
        have hone' : 1 < x := hone
        simp at hx
        omega
      rw [if_neg hlarge, List.singleton_append]
      unfold uvarintLoop
      rw [if_pos hless, if_neg hlast, hbyte, BitGroups.or_shiftLeft_eq hvalue]

theorem readUvarint_write {x : Nat} (hx : x < 2 ^ 64) (rest : Bytes) :
    readUvarint (writeUvarint x ++ rest) = some (x, rest) := by
  have h := uvarintLoop_write x 0 0 rest (by decide) (by decide) hx
  rwa [Nat.zero_add, Nat.mul_zero, Nat.pow_zero, Nat.one_mul] at h

theorem readVarint_write {n : Nat} (hn : n < 2 ^ 63) (rest : Bytes) :
    readVarint (writeVarint n ++ rest) = some ((n : Int), rest) := by
  unfold readVarint writeVarint
  rw [if_pos (by omega), readUvarint_write (by omega)]
  simp

theorem readChildren_write {children : List ChildEntry} {fuel : Nat} (prev : Option UInt8) {last : UInt8} (rest : Bytes)
    (hfuel : children.length < fuel) (hascending : (children.map ChildEntry.hashIndex).Pairwise (· < ·))
    (hprev : ∀ c ∈ children, ∀ p ∈ prev, p < c.hashIndex)
    (hlast : (children.getLast?.map ChildEntry.hashIndex).or prev = some last) :
    readChildren fuel prev (writeChildren children ++ last :: rest) = .ok (children, rest) := by
  induction children generalizing fuel prev with
  | nil =>
    obtain ⟨fuel, rfl⟩ : ∃ k, fuel = k + 1 := ⟨fuel - 1, by simp at hfuel; omega⟩
    obtain rfl : prev = some last := by simpa using hlast
    simp [writeChildren, readChildren]
  | cons c children ih =>
    obtain ⟨fuel, rfl⟩ : ∃ k, fuel = k + 1 := ⟨fuel - 1, by simp at hfuel; omega⟩
    rw [List.map_cons, List.pairwise_cons] at hascending
    have hfirst : prev.any (fun p => decide (c.hashIndex ≤ p)) = false := by
      cases prev with
      | none => rfl
      | some p => simpa using hprev c List.mem_cons_self p rfl
    have hrest : readChildren fuel (some c.hashIndex) (writeChildren children ++ last :: rest) = .ok (children, rest) := by
      refine ih _ (by simp at hfuel; omega) hascending.2 (fun c' hc' p hp => ?_) ?_
      · obtain rfl := Option.some.inj hp
        exact hascending.1 _ (List.mem_map.2 ⟨c', hc', rfl⟩)
      · cases children with
        | nil => simpa using hlast
        | cons c' cs =>
          obtain ⟨x, hx⟩ : ∃ x, (c' :: cs).getLast? = some x := ⟨_, List.getLast?_eq_some_getLast (by simp)⟩
          rw [List.getLast?_cons_cons, hx] at hlast
          rw [hx]
          exact hlast
    simp only [writeChildren, List.flatMap_cons, List.cons_append, List.append_assoc, readChildren, hfirst,
      readUvarint_write c.childId.toNat_lt] at hrest ⊢
    simp [hrest, Except.map]

theorem length_writeUvarint_pos (x : Nat) : 0 < (writeUvarint x).length := by
  unfold writeUvarint
  split <;> simp

theorem length_le_writeChildren (children : List ChildEntry) : children.length ≤ (writeChildren children).length := by
  induction children with
  | nil => simp
  | cons c children ih =>
    simp only [writeChildren, List.flatMap_cons, List.length_append, List.length_cons] at ih ⊢
    omega

theorem deserializeNode_write {node : PageNode} {bytes rest : Bytes} {size : Nat} (h : serializeNode node = some bytes)
    (hsize : size < 2 ^ 64) (hfits : (bytes ++ rest).length ≤ size) :
    deserializeNode size (bytes ++ rest) = .ok (node, rest) := by
  obtain ⟨hash, children, isLeaf⟩ := node
  unfold serializeNode at h
  by_cases hwritable : PageNode.writable ⟨hash, children, isLeaf⟩ = true
  · rw [if_neg (by simp [hwritable])] at h
    have hpos := length_writeUvarint_pos hash.length
    unfold PageNode.writable at hwritable
    cases isLeaf with
    | true =>
      obtain rfl : children = [] := by simpa using hwritable
      obtain rfl := (Option.some.inj h).symm
      simp only [List.append_assoc, List.length_append, List.length_cons, List.singleton_append] at hfits ⊢
      unfold deserializeNode
      rw [readUvarint_write (by omega)]
      simp only
      rw [if_neg (by simp only [List.length_append, List.length_cons]; omega)]
      simp
    | false =>
      simp only [Bool.false_eq_true, if_false, Bool.and_eq_true, decide_eq_true_eq] at hwritable h
      obtain rfl := (Option.some.inj h).symm
      obtain ⟨last, hlast⟩ : ∃ last, children.getLast? = some last :=
        ⟨_, List.getLast?_eq_some_getLast (by simpa using hwritable.1)⟩
      simp only [hlast, Option.map_some, Option.getD_some, List.append_assoc, List.length_append, List.length_cons,
        List.singleton_append] at hfits ⊢
      unfold deserializeNode
      rw [readUvarint_write (by omega)]
      simp only
      rw [if_neg (by simp only [List.length_append, List.length_cons]; omega)]
      have hcount := length_le_writeChildren children
      have hfuel : children.length < (writeChildren children ++ last.hashIndex :: rest).length := by
        rw [List.length_append, List.length_cons]
        omega
      have hread : readChildren _ none (writeChildren children ++ last.hashIndex :: rest) = .ok (children, rest) :=
        readChildren_write none rest hfuel hwritable.2 (fun _ _ _ h => by cases h) (by simp [hlast])
      rw [List.drop_left, List.take_left]
      simp only [List.cons_append]
      rw [if_neg (by decide), if_neg (by decide), hread]
      rfl
  · rw [if_pos (by simp [hwritable])] at h
    cases h

variable {nodes : List (UInt64 × PageNode)}

theorem insertNode_last {x : UInt64 × PageNode}
    (h : ∀ y ∈ nodes, y.1.toNat < x.1.toNat) : insertNode x nodes = nodes ++ [x] := by
  induction nodes with
  | nil => rfl
  | cons y ys ih =>
    have hy := h y List.mem_cons_self
    have hlt : ¬ x.1 < y.1 := by rw [UInt64.lt_iff_toNat_lt]; omega
    have hne : x.1 ≠ y.1 := by intro heq; rw [heq] at hy; omega
    unfold insertNode
    rw [if_neg hlt, if_neg hne, ih fun z hz => h z (List.mem_cons_of_mem _ hz), List.cons_append]

theorem readNodes_write {size i : Nat} {nodes done : List (UInt64 × PageNode)} {bytes : Bytes}
    (h : serializeNodes nodes = some bytes) (hsize : size < 2 ^ 64) (hfits : bytes.length ≤ size)
    (hascending : Keyed.Ascending (fun x : UInt64 × PageNode => x.1.toNat) (done ++ nodes)) :
    readNodes size nodes.length i done bytes = .ok (done ++ nodes) := by
  induction nodes generalizing i done bytes with
  | nil => rw [List.append_nil]; rfl
  | cons x nodes ih =>
    obtain ⟨nid, node⟩ := x
    unfold serializeNodes at h
    simp only [Option.bind_eq_bind, Option.bind_eq_some_iff, Option.some.injEq] at h
    obtain ⟨first, hfirst, more, hmore, rfl⟩ := h
    simp only [List.length_append] at hfits
    have hnew : ∀ y ∈ done, y.1.toNat < nid.toNat := by
      intro y hy
      unfold Keyed.Ascending at hascending
      rw [List.map_append, List.pairwise_append] at hascending
      exact hascending.2.2 _ (List.mem_map.2 ⟨y, hy, rfl⟩) _ (by simp)
    rw [List.length_cons, List.append_assoc]
    unfold readNodes
    rw [readUvarint_write nid.toNat_lt]
    simp only
    rw [deserializeNode_write hfirst hsize (by rw [List.length_append]; omega)]
    simp only [UInt64.ofNat_toNat]
    rw [insertNode_last hnew]
    have hsplit : done ++ (nid, node) :: nodes = (done ++ [(nid, node)]) ++ nodes := by simp
    rw [hsplit] at hascending ⊢
    exact ih hmore (by omega) hascending

/-- **What was written is read**, if it fits into memory. -/
theorem deserialize_serialize (page : Page) {bytes : Bytes} (h : page.serialize = some bytes)
    (hsize : bytes.length < 2 ^ 64) (hcount : page.nodes.length < 2 ^ 63) : deserialize bytes = .ok page.nodes := by
  unfold Page.serialize at h
  obtain ⟨body, hbody, rfl⟩ := Option.map_eq_some_iff.1 h
  unfold deserialize
  rw [List.append_assoc, readUvarint_write (by decide)]
  simp only
  rw [if_neg (by simp), readVarint_write hcount]
  simp only
  rw [if_neg (by omega), Int.toNat_natCast]
  rw [List.append_assoc] at hsize
  exact readNodes_write (i := 0) hbody hsize (by simp only [List.length_append]; omega) page.ascending

/-! ## What is read can be written -/

theorem readChildren_ascending {fuel : Nat} {prev : Option UInt8} {buf rest : Bytes} {children : List ChildEntry}
    (h : readChildren fuel prev buf = .ok (children, rest)) :
    (children.map ChildEntry.hashIndex).Pairwise (· < ·) ∧ (∀ c ∈ children, ∀ p ∈ prev, p < c.hashIndex) ∧
      (prev = none → children ≠ []) := by
  induction fuel generalizing prev buf rest children with
  | zero => cases h
  | succ fuel ih =>
    cases buf with
    | nil => cases h
    | cons hashIndex buf =>
      unfold readChildren at h
      split at h
      · rename_i hsentinel
        cases h
        refine ⟨List.Pairwise.nil, by simp, ?_⟩
        rintro rfl
        simp at hsentinel
      · rename_i hnext
        split at h
        · cases h
        · rename_i childId tail hread
          cases hrest : readChildren fuel (some hashIndex) tail with
          | error e => rw [hrest] at h; cases h
          | ok r =>
            rw [hrest] at h
            cases h
            obtain ⟨hascending, habove, -⟩ := ih hrest
            refine ⟨?_, ?_, by simp⟩
            · rw [List.map_cons, List.pairwise_cons]
              refine ⟨fun d hd => ?_, hascending⟩
              obtain ⟨c, hc, rfl⟩ := List.mem_map.1 hd
              exact habove c hc hashIndex rfl
            · intro c hc p hp
              obtain rfl := Option.mem_def.1 hp
              have hp' : p < hashIndex := by simpa using hnext
              rcases List.mem_cons.1 hc with rfl | hc
              · exact hp'
              · exact UInt8.lt_trans hp' (habove c hc hashIndex rfl)

theorem deserializeNode_writable {size : Nat} {buf rest : Bytes} {node : PageNode}
    (h : deserializeNode size buf = .ok (node, rest)) : node.writable = true := by
  unfold deserializeNode at h
  split at h
  · cases h
  · simp only at h
    split at h
    · cases h
    · split at h
      · cases h
      · split at h
        · cases h
          rfl
        · split at h
          · cases h
          · rename_i tail _ _ _
            cases hread : readChildren tail.length none tail with
            | error e => rw [hread] at h; cases h
            | ok r =>
              rw [hread] at h
              cases h
              obtain ⟨hascending, -, hne⟩ := readChildren_ascending hread
              simp [PageNode.writable, hne rfl, hascending]

theorem mem_insertNode {x y : UInt64 × PageNode} (h : y ∈ insertNode x nodes) :
    y = x ∨ y ∈ nodes := by
  induction nodes with
  | nil => exact .inl (List.mem_singleton.1 h)
  | cons z zs ih =>
    unfold insertNode at h
    split at h
    · simpa using h
    · split at h
      · rcases List.mem_cons.1 h with rfl | h
        · exact .inl rfl
        · exact .inr (List.mem_cons_of_mem _ h)
      · rcases List.mem_cons.1 h with rfl | h
        · exact .inr List.mem_cons_self
        · exact (ih h).imp_right (List.mem_cons_of_mem _)

theorem ascending_insertNode {x : UInt64 × PageNode}
    (h : Keyed.Ascending (fun y : UInt64 × PageNode => y.1.toNat) nodes) :
    Keyed.Ascending (fun y : UInt64 × PageNode => y.1.toNat) (insertNode x nodes) := by
  induction nodes with
  | nil => exact Keyed.ascending_cons.2 ⟨by simp, h⟩
  | cons z zs ih =>
    obtain ⟨hz, hzs⟩ := Keyed.ascending_cons.1 h
    unfold insertNode
    split
    · rename_i hlt
      rw [UInt64.lt_iff_toNat_lt] at hlt
      refine Keyed.ascending_cons.2 ⟨fun y hy => ?_, h⟩
      rcases List.mem_cons.1 hy with rfl | hy
      · exact hlt
      · exact hlt.trans (hz y hy)
    · rename_i hlt
      split
      · rename_i heq
        exact Keyed.ascending_cons.2 ⟨fun y hy => heq ▸ hz y hy, hzs⟩
      · rename_i hne
        refine Keyed.ascending_cons.2 ⟨fun y hy => ?_, ih hzs⟩
        rcases mem_insertNode hy with rfl | hy
        · have hne' : y.1.toNat ≠ z.1.toNat := fun heq => hne (UInt64.toNat_inj.1 heq)
          rw [UInt64.lt_iff_toNat_lt] at hlt
          omega
        · exact hz y hy

theorem readNodes_sound {size left i : Nat} {done nodes : List (UInt64 × PageNode)} {buf : Bytes}
    (h : readNodes size left i done buf = .ok nodes)
    (hdone : Keyed.Ascending (fun y : UInt64 × PageNode => y.1.toNat) done) (hok : ∀ y ∈ done, y.2.writable = true) :
    Keyed.Ascending (fun y : UInt64 × PageNode => y.1.toNat) nodes ∧ ∀ y ∈ nodes, y.2.writable = true := by
  induction left generalizing i done buf with
  | zero => cases h; exact ⟨hdone, hok⟩
  | succ left ih =>
    unfold readNodes at h
    split at h
    · cases h
    · split at h
      · cases h
      · rename_i node rest hnode
        refine ih h (ascending_insertNode hdone) fun y hy => ?_
        rcases mem_insertNode hy with rfl | hy
        · exact deserializeNode_writable hnode
        · exact hok y hy

theorem serializeNodes_isSome :
    (serializeNodes nodes).isSome = true ↔ ∀ x ∈ nodes, x.2.writable = true := by
  induction nodes with
  | nil => simp [serializeNodes]
  | cons x nodes ih =>
    obtain ⟨nid, node⟩ := x
    have hnode : (serializeNode node).isSome = true ↔ node.writable = true := by
      unfold serializeNode
      cases node.writable <;> cases node.isLeaf <;> simp
    have hcons : serializeNodes ((nid, node) :: nodes) = (serializeNode node).bind fun bytes =>
        (serializeNodes nodes).bind fun rest => some (writeUvarint nid.toNat ++ bytes ++ rest) := rfl
    rw [List.forall_mem_cons, ← ih, ← hnode, hcons]
    cases serializeNode node <;> cases serializeNodes nodes <;> simp

/-- **Pages**: those are written whose leaves have no children and whose other nodes have children, in strictly ascending
order; what was written is read back; and whatever bytes are read as a page, the page can be written. -/
theorem page_codec :
    (∀ page : Page, page.serialize.isSome = true ↔ ∀ x ∈ page.nodes, x.2.writable = true) ∧
      (∀ (page : Page) (bytes : Bytes), page.serialize = some bytes → bytes.length < 2 ^ 64 → page.nodes.length < 2 ^ 63 →
        deserialize bytes = .ok page.nodes) ∧
      ∀ buf nodes, deserialize buf = .ok nodes →
        ∃ page : Page, page.nodes = nodes ∧ page.serialize.isSome = true := by
  have hwritten : ∀ page : Page, page.serialize.isSome = true ↔ ∀ x ∈ page.nodes, x.2.writable = true := by
    intro page
    rw [← serializeNodes_isSome, Page.serialize, Option.isSome_map]
  refine ⟨hwritten, fun page bytes => deserialize_serialize page, fun buf nodes h => ?_⟩
  unfold deserialize at h
  split at h
  · cases h
  · split at h
    · cases h
    · split at h
      · cases h
      · split at h
        · cases h
        · obtain ⟨hascending, hok⟩ := readNodes_sound h List.Pairwise.nil (by simp)
          exact ⟨⟨nodes, hascending⟩, rfl, (hwritten ⟨nodes, hascending⟩).2 hok⟩

/-- A node with two children, then a leaf. -/
example : deserialize [128, 128, 128, 128, 129, 128, 128, 128, 16, 4, 1, 1, 9, 1, 3, 2, 7, 200, 1, 7, 2, 1, 5, 0] =
    .ok [(1, ⟨[9], [⟨3, 2⟩, ⟨7, 200⟩], false⟩), (2, ⟨[5], [], true⟩)] := by decide

end MerklePage
end Algod
