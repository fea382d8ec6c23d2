import AlgodRust.Basics
import AlgodRust.Lib.Numeral
import AlgodRust.Lib.Run
/-!
# Types — ABI types and their names

A type is dynamic when its encoding has no fixed size.  The head of a tuple holds the static children and a two-byte offset
for every dynamic one; bools next to each other share bytes, eight to a byte.  Sizes are counted in 64 bits with checks, and
`typeOf` refuses a type whose head has no size, at any depth (`typeOf_wellFormed`).
-/
namespace Algod
namespace Abi

open Numeral (Str)

inductive AbiType
  | uint (bits : Nat)
  | ufixed (bits precision : Nat)
  | bool
  | byte
  | address
  | string
  | arrayStatic (elem : AbiType) (len : Nat)
  | arrayDynamic (elem : AbiType)
  | tuple (children : List AbiType)
deriving Repr

namespace AbiType

/-- Induction over a type and all of its parts. -/
@[induction_eliminator]
theorem induct {P : AbiType → Prop} (uint : ∀ bits, P (.uint bits)) (ufixed : ∀ bits precision, P (.ufixed bits precision))
    (bool : P .bool) (byte : P .byte) (address : P .address) (string : P .string)
    (arrayStatic : ∀ elem len, P elem → P (.arrayStatic elem len)) (arrayDynamic : ∀ elem, P elem → P (.arrayDynamic elem))
    (tuple : ∀ children, (∀ c ∈ children, P c) → P (.tuple children)) (t : AbiType) : P t := by
  refine @AbiType.rec P (fun children => ∀ c ∈ children, P c) uint ufixed bool byte address string
    arrayStatic arrayDynamic tuple ?_ ?_ t
  · intro c hc
    cases hc
  · intro c children hc hchildren d hd
    rcases List.mem_cons.1 hd with rfl | hd
    · exact hc
    · exact hchildren d hd

def isBool : AbiType → Bool
  | .bool => true
  | _ => false

mutual
def isDynamic : AbiType → Bool
  | .arrayDynamic _ | .string => true
  | .arrayStatic elem _ => elem.isDynamic
  | .tuple children => anyDynamic children
  | .uint _ | .ufixed _ _ | .bool | .byte | .address => false

def anyDynamic : List AbiType → Bool
  | [] => false
  | c :: cs => c.isDynamic || anyDynamic cs
end

end AbiType

/-! ## Sizes -/

def checkedAdd (a b : Nat) : Option Nat := if a + b < u64Bound then some (a + b) else none

def checkedMul (a b : Nat) : Option Nat := if a * b < u64Bound then some (a * b) else none

def divCeil (a b : Nat) : Nat := (a + b - 1) / b

/-- The head of a tuple, child after child; each child comes with the size it has in the head. -/
def headLenFrom : Nat → Nat → List (AbiType × Option Nat) → Option Nat
  | 0, size, _ => some size
  | _ + 1, size, [] => some size
  | fuel + 1, size, (child, len) :: rest =>
    if child.isBool then do
      let boolCount := (((child, len) :: rest).takeWhile (fun c => c.1.isBool)).length
      let size ← checkedAdd size (divCeil boolCount 8)
      headLenFrom fuel size (((child, len) :: rest).drop boolCount)
    else do
      let len ← len
      let size ← checkedAdd size len
      headLenFrom fuel size rest

namespace AbiType

mutual
def headLen : AbiType → Option Nat
  | .uint bits | .ufixed bits _ => some (bits / 8)
  | .bool | .byte => some 1
  | .address => some 32
  | .string | .arrayDynamic _ => some 2
  | .arrayStatic elem len =>
    if elem.isBool then some (divCeil len 8)
    else (if elem.isDynamic then some 2 else elem.headLen).bind fun size => checkedMul size len
  | .tuple children => headLenFrom children.length 0 (childHeadLens children)

/-- Every child with what it takes in the head of its tuple. -/
def childHeadLens : List AbiType → List (AbiType × Option Nat)
  | [] => []
  | c :: cs => (c, if c.isDynamic then some 2 else c.headLen) :: childHeadLens cs
end

def childHeadLen (t : AbiType) : Option Nat := if t.isDynamic then some 2 else t.headLen

def byteLen (t : AbiType) : Option Nat := if t.isDynamic then none else t.headLen

theorem childHeadLens_eq (children : List AbiType) :
    childHeadLens children = children.map (fun c => (c, c.childHeadLen)) := by
  induction children with
  | nil => rfl
  | cons c cs ih =>
    rw [childHeadLens, ih]
    rfl

theorem anyDynamic_eq (children : List AbiType) : anyDynamic children = children.any isDynamic := by
  induction children with
  | nil => rfl
  | cons c cs ih =>
    rw [anyDynamic, ih, List.any_cons]

end AbiType

/-! ## Names of types -/

def maxAbiDepth : Nat := 64

/-- `parse` of an unsigned number. -/
def parseUpTo (largest : Nat) (s : Str) : Option Nat := Numeral.fromStrRadix 10 largest s

def leadingZero (s : Str) : Bool := decide (s.length > 1) && s.head? == some '0'

def checkStaticSize (t : AbiType) : Except String AbiType :=
  if t.headLen.isNone then .error "ABI type is too large to encode: head size overflows" else .ok t

def parseUint (rest : Str) (original : String) : Except String AbiType :=
  match parseUpTo 65535 rest with
  | none => .error s!"ill formed uint type: \"{original}\""
  | some bits =>
    if ¬ (8 ≤ bits ∧ bits ≤ 512) ∨ bits % 8 ≠ 0 then .error s!"unsupported uint type bitSize: {bits}" else .ok (.uint bits)

/-- The two numbers of a `ufixed` type around its first `x`. -/
def parseUfixed (rest : Str) (original : String) : Except String AbiType :=
  let ill : Except String AbiType := .error s!"ill formed ufixed type: \"{original}\""
  let first := rest.takeWhile (· ≠ 'x')
  let second := (rest.drop first.length).tail
  -- without an `x` there is one part only
  if first.length = rest.length ∨ first = [] ∨ second = [] then ill
  else if leadingZero first || leadingZero second then ill
  else
    match parseUpTo 65535 first, parseUpTo 255 second with
    | some bits, some precision =>
      if ¬ (8 ≤ bits ∧ bits ≤ 512) ∨ bits % 8 ≠ 0 then .error s!"unsupported ufixed type bitSize: {bits}"
      else if ¬ (1 ≤ precision ∧ precision ≤ 160) then .error s!"unsupported ufixed type precision: {precision}"
      else .ok (.ufixed bits precision)
    | _, _ => ill

/-- Cut a text at the commas that stand outside of parentheses; `none` when a parenthesis has no partner. -/
def splitTopLevel : Nat → Str → Str → Option (List Str)
  | 0, part, [] => some [part.reverse]
  | _ + 1, _, [] => none
  | depth, part, '(' :: s => splitTopLevel (depth + 1) ('(' :: part) s
  | 0, _, ')' :: _ => none
  | depth + 1, part, ')' :: s => splitTopLevel depth (')' :: part) s
  | 0, part, ',' :: s => (splitTopLevel 0 [] s).map (part.reverse :: ·)
  | depth, part, c :: s => splitTopLevel depth (c :: part) s

def parseTupleContent (s : Str) : Except String (List Str) :=
  let text := String.ofList s
  if s = [] then .ok []
  else if s.head? = some ',' ∨ s.getLast? = some ',' then
    .error "parsing error: tuple content should not start or end with comma"
  else if (',', ',') ∈ s.zip s.tail then .error "no consecutive commas"
  else
    match splitTopLevel 0 [] s with
    | some parts => .ok parts
    | none => .error s!"unpaired parentheses: {text}"

/-- The element type's name and the length of a static array, from its last opening bracket on. -/
def parseStaticArray (s : Str) : Except String (Str × Nat) :=
  let text := String.ofList s
  let ill : Except String (Str × Nat) := .error s!"static array ill formated: \"{text}\""
  let back := s.reverse.tail
  let lenStr := (back.takeWhile (· ≠ '[')).reverse
  if lenStr.length = back.length then ill
  else if lenStr = [] then ill
  else if leadingZero lenStr then ill
  else
    match parseUpTo 65535 lenStr with
    | none => ill
    | some arrayLen => .ok ((back.drop (lenStr.length + 1)).reverse, arrayLen)

/-- The type of a name; the number counts down the nesting that is still allowed. -/
def typeOfInner : Nat → Str → Except String AbiType
  | 0, _ => .error "ABI type nesting depth exceeds maximum of 64"
  | depth + 1, s =>
    let text := String.ofList s
    if ['[', ']'].isSuffixOf s then do
      let elem ← typeOfInner depth (s.take (s.length - 2))
      return .arrayDynamic elem
    else if s.getLast? = some ']' then do
      let (elemStr, arrayLen) ← parseStaticArray s
      let elem ← typeOfInner depth elemStr
      checkStaticSize (.arrayStatic elem arrayLen)
    else if "uint".toList.isPrefixOf s then
      parseUint (s.drop 4) text
    else if s = "byte".toList then .ok .byte
    else if "ufixed".toList.isPrefixOf s then parseUfixed (s.drop 6) text
    else if s = "bool".toList then .ok .bool
    else if s = "address".toList then .ok .address
    else if s = "string".toList then .ok .string
    else if s.length ≥ 2 ∧ s.head? = some '(' ∧ s.getLast? = some ')' then do
      let parts ← parseTupleContent s.tail.dropLast
      let types ← parts.mapM (typeOfInner depth)
      if types.length ≥ 65535 then .error "tuple type child type number larger than maximum uint16 error"
      else checkStaticSize (.tuple types)
    else .error s!"cannot convert the string \"{text}\" to an ABI type"

def typeOf (s : String) : Except String AbiType := typeOfInner (maxAbiDepth + 1) s.toList

/-! ## What the parser accepts -/

/-- The types that have a name: integers of whole bytes, and heads that have a size. -/
inductive WellFormed : AbiType → Prop
  | uint {bits : Nat} : 8 ≤ bits → bits % 8 = 0 → WellFormed (.uint bits)
  | ufixed {bits precision : Nat} : 8 ≤ bits → bits % 8 = 0 → WellFormed (.ufixed bits precision)
  | bool : WellFormed .bool
  | byte : WellFormed .byte
  | address : WellFormed .address
  | string : WellFormed .string
  | arrayStatic {elem : AbiType} {len : Nat} : WellFormed elem → (AbiType.arrayStatic elem len).headLen.isSome →
    WellFormed (.arrayStatic elem len)
  | arrayDynamic {elem : AbiType} : WellFormed elem → WellFormed (.arrayDynamic elem)
  | tuple {children : List AbiType} : (∀ c ∈ children, WellFormed c) → (AbiType.tuple children).headLen.isSome →
    WellFormed (.tuple children)

theorem checkStaticSize_eq_ok {t t' : AbiType} (h : checkStaticSize t = .ok t') : t = t' ∧ t.headLen.isSome := by
  unfold checkStaticSize at h
  split at h
  · cases h
  · rename_i hsome
    refine ⟨Except.ok.inj h, ?_⟩
    cases hlen : t.headLen with
    | none => exact absurd (by rw [hlen]; rfl) hsome
    | some n => rfl

theorem parseUint_wellFormed {rest : Str} {original : String} {t : AbiType} (h : parseUint rest original = .ok t) :
    WellFormed t := by
  unfold parseUint at h
  split at h
  · cases h
  · split at h
    · cases h
    · rename_i hbits
      cases h
      exact .uint (by omega) (by omega)

theorem parseUfixed_wellFormed {rest : Str} {original : String} {t : AbiType} (h : parseUfixed rest original = .ok t) :
    WellFormed t := by
  unfold parseUfixed at h
  simp only at h
  split at h
  · cases h
  · split at h
    · cases h
    · split at h
      · split at h
        · cases h
        · rename_i hbits
          split at h
          · cases h
          · cases h
            exact .ufixed (by omega) (by omega)
      · cases h

/-- **Every type that has a name is well formed.** -/
theorem typeOfInner_wellFormed : ∀ (depth : Nat) {s : Str} {t : AbiType}, typeOfInner depth s = .ok t → WellFormed t
  | 0, s, t, h => by cases h
  | depth + 1, s, t, h => by
    unfold typeOfInner at h
    simp only at h
    split at h
    · obtain ⟨elem, helem, hret⟩ := Run.bind_eq_ok.1 h
      cases hret
      exact .arrayDynamic (typeOfInner_wellFormed depth helem)
    split at h
    · obtain ⟨⟨elemStr, arrayLen⟩, -, h⟩ := Run.bind_eq_ok.1 h
      obtain ⟨elem, helem, h⟩ := Run.bind_eq_ok.1 h
      obtain ⟨rfl, hsize⟩ := checkStaticSize_eq_ok h
      exact .arrayStatic (typeOfInner_wellFormed depth helem) hsize
    split at h
    · exact parseUint_wellFormed h
    split at h
    · cases h
      exact .byte
    split at h
    · exact parseUfixed_wellFormed h
    split at h
    · cases h
      exact .bool
    split at h
    · cases h
      exact .address
    split at h
    · cases h
      exact .string
    split at h
    · obtain ⟨parts, -, h⟩ := Run.bind_eq_ok.1 h
      obtain ⟨types, htypes, h⟩ := Run.bind_eq_ok.1 h
      split at h
      · cases h
      obtain ⟨rfl, hsize⟩ := checkStaticSize_eq_ok h
      refine .tuple (fun c hc => ?_) hsize
      obtain ⟨n, hn, rfl⟩ := List.getElem_of_mem hc
      have hall := Run.mapM_eq_ok.1 htypes
      exact typeOfInner_wellFormed depth (hall.get (by rw [hall.length_eq]; exact hn) hn)
    · cases h

theorem typeOf_wellFormed {s : String} {t : AbiType} (h : typeOf s = .ok t) : WellFormed t := typeOfInner_wellFormed _ h

end Abi
end Algod
