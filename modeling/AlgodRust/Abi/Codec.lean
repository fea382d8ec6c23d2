import AlgodRust.Abi.Types
import AlgodRust.Lib.HeadTail
import AlgodRust.Network.VoteEncoding
/-!
# Codec — encoding and decoding of ABI values

A tuple is a head and tails.  Encoder and decoder walk over the children by index; at a bool they look left and right for
the run it belongs to and take up to eight of the run together.  An array is encoded as the tuple of its elements.  A type
whose elements take no bytes would expand from nothing, so the decoder counts these elements against a budget.
-/
namespace Algod
namespace Abi

open Msgpack (Bytes beBytes)
open Network (beNat)
open HeadTail (Entry nextOffset)

inductive AbiValue
  | uint (num bits : Nat)
  | ufixed (num bits precision : Nat)
  | bool (b : Bool)
  | byte (b : UInt8)
  | address (bytes : Bytes32)
  | string (bytes : Bytes)
  | arrayStatic (values : List AbiValue) (elemType : AbiType)
  | arrayDynamic (values : List AbiValue) (elemType : AbiType)
  | tuple (values : List AbiValue)
deriving Repr

/-! ## Integers -/

/-- The number of bits of a number. -/
def bitLen (num : Nat) : Nat := if num = 0 then 0 else num.log2 + 1

/-- The shortest big-endian form; zero has one byte. -/
def toBytesBe (num : Nat) : Bytes := beBytes (max 1 (divCeil (bitLen num) 8)) num

def encodeUint (num bits : Nat) : Except String Bytes :=
  let byteLen := bits / 8
  let raw := toBytesBe num
  let size := bitLen num
  if raw.length > byteLen then .error s!"input value bit size {size} > abi type bit size {bits}"
  else .ok (List.replicate (byteLen - raw.length) 0 ++ raw)

/-! ## Runs of bools -/

/-- Count bools from an index on, to the left or to the right. -/
def findBoolLrFrom (typeList : List AbiType) (index : Nat) (delta : Int) : Nat → Nat → Nat
  | 0, count => count
  | fuel + 1, count =>
    let curr := (index : Int) + delta * count
    if curr < 0 ∨ curr ≥ typeList.length then count
    else if (typeList.getD curr.toNat .byte).isBool then
      if (delta > 0 ∧ curr ≠ typeList.length - 1) ∨ (delta < 0 ∧ curr > 0) then
        findBoolLrFrom typeList index delta fuel (count + 1)
      else count
    else count - 1

def findBoolLr (typeList : List AbiType) (index : Nat) (delta : Int) : Nat :=
  findBoolLrFrom typeList index delta (typeList.length + 1) 0

/-! ## Encoding -/

/-- What one child leaves in the head and in the tail. -/
structure Cell where
  head : Bytes
  tail : Bytes
  isDynamic : Bool
deriving DecidableEq, Repr

def Cell.empty : Cell := ⟨[], [], false⟩

def isTrue : AbiValue → Bool
  | .bool b => b
  | _ => false

/-- The byte of the bools from an index on. -/
def compressed (values : List AbiValue) (i after : Nat) : UInt8 :=
  (List.range (after + 1)).foldl
    (fun byte j => if isTrue (values.getD (i + j) (.bool false)) then byte ||| (1 <<< UInt8.ofNat (7 - j)) else byte) 0

/-- The loop over the children; each value comes with its own encoding. -/
def cellsFrom (values : List (AbiValue × Except String Bytes)) (childTypes : List AbiType) :
    Nat → Nat → Except String (List Cell)
  | 0, _ => .ok []
  | fuel + 1, i =>
    match childTypes[i]?, values[i]? with
    | some childType, some value =>
      if childType.isDynamic then do
        -- the offset is filled in later
        let tail ← value.2
        let cells ← cellsFrom values childTypes fuel (i + 1)
        return ⟨[0, 0], tail, true⟩ :: cells
      else if childType.isBool then
        if findBoolLr childTypes i (-1) % 8 ≠ 0 then
          .error "cannot encode abi tuple: expected before has number of bool mod 8 == 0"
        else do
          let after := min (findBoolLr childTypes i 1) 7
          let cells ← cellsFrom values childTypes fuel (i + after + 1)
          return ⟨[compressed (values.map Prod.fst) i after], [], false⟩ :: (List.replicate after .empty ++ cells)
      else do
        let head ← value.2
        let cells ← cellsFrom values childTypes fuel (i + 1)
        return ⟨head, [], false⟩ :: cells
    | _, _ => .ok []

def fillOffsets (headLength : Nat) : Nat → List Cell → Except String (List Cell)
  | _, [] => .ok []
  | tailCurrLength, cell :: cells =>
    if cell.isDynamic then
      if headLength + tailCurrLength ≥ 65536 then .error "cannot encode abi tuple: encode length exceeds uint16 maximum"
      else do
        let cells ← fillOffsets headLength (tailCurrLength + cell.tail.length) cells
        return { cell with head := beBytes 2 (headLength + tailCurrLength) } :: cells
    else do
      let cells ← fillOffsets headLength (tailCurrLength + cell.tail.length) cells
      return cell :: cells

def encodeTupleWithTypes (values : List (AbiValue × Except String Bytes)) (childTypes : List AbiType) :
    Except String Bytes :=
  if values.length ≠ childTypes.length then
    .error "cannot encode abi tuple: value slice length != child type number"
  else do
    let cells ← cellsFrom values childTypes values.length 0
    let cells ← fillOffsets (cells.map (fun cell => cell.head.length)).sum 0 cells
    return (cells.map Cell.head).flatten ++ (cells.map Cell.tail).flatten

mutual
def inferType : AbiValue → AbiType
  | .uint _ bits => .uint bits
  | .ufixed _ bits precision => .ufixed bits precision
  | .bool _ => .bool
  | .byte _ => .byte
  | .address _ => .address
  | .string _ => .string
  | .arrayStatic values elemType => .arrayStatic elemType values.length
  | .arrayDynamic _ elemType => .arrayDynamic elemType
  | .tuple values => .tuple (inferTypes values)

def inferTypes : List AbiValue → List AbiType
  | [] => []
  | v :: vs => inferType v :: inferTypes vs
end

mutual
def encode : AbiValue → Except String Bytes
  | .uint num bits => encodeUint num bits
  | .ufixed num bits _ => encodeUint num bits
  | .bool b => .ok [if b then 0x80 else 0x00]
  | .byte b => .ok [b]
  | .address bytes => .ok (beBytes 32 bytes.toNat)
  | .string bytes =>
    if bytes.length > 65535 then .error "string length exceeds ABI uint16 maximum"
    else .ok (beBytes 2 bytes.length ++ bytes)
  | .arrayStatic values elemType => encodeTupleWithTypes (encodeEach values) (List.replicate values.length elemType)
  | .arrayDynamic values elemType =>
    if values.length > 65535 then .error "dynamic array length exceeds ABI uint16 maximum"
    else do
      let tupleBytes ← encodeTupleWithTypes (encodeEach values) (List.replicate values.length elemType)
      return beBytes 2 values.length ++ tupleBytes
  | .tuple values => encodeTupleWithTypes (encodeEach values) (inferTypes values)

/-- Every value with its encoding. -/
def encodeEach : List AbiValue → List (AbiValue × Except String Bytes)
  | [] => []
  | v :: vs => (v, encode v) :: encodeEach vs
end

/-! ## Decoding -/

def maxZeroSizeElems : Nat := 2 ^ 20

/-- The smallest encoding of some copies of a type. -/
def repeatedMinLen (elem : AbiType) (len : Nat) : Option Nat :=
  if elem.isBool then some (divCeil len 8)
  else if elem.isDynamic then checkedMul len 2
  else elem.byteLen.bind fun size => checkedMul size len

def checkRepeatedMinLen (elem : AbiType) (len available : Nat) : EStateM String Nat Unit :=
  match repeatedMinLen elem len with
  | some 0 => do
    let budget ← get
    if len ≤ budget then set (budget - len) else throw "cannot decode abi array: too many zero-size elements"
  | some min =>
    if min ≤ available then pure ()
    else throw s!"cannot decode abi array: need at least {min} bytes for {len} elements, got {available}"
  | none => throw "cannot decode abi array: encoded size overflows"

/-- The encodings of the bools of one byte. -/
def unpacked (b : UInt8) (after : Nat) : List (Entry UInt8) :=
  (List.range (after + 1)).map fun bIndex =>
    .inline [if b &&& (0x80 >>> UInt8.ofNat bIndex) ≠ 0 then 0x80 else 0x00]

/-- The loop over the children: the bytes of each static one, the offset of each dynamic one. -/
def entriesFrom (children : List AbiType) (data : Bytes) : Nat → Nat → Nat → Except String (List (Entry UInt8))
  | 0, _, _ => .ok []
  | fuel + 1, i, pos =>
    match children[i]? with
    | none => .ok []
    | some child =>
      if child.isBool then
        if findBoolLr children i (-1) % 8 ≠ 0 then
          .error "cannot decode abi tuple: expected before has number of bool mod 8 == 0"
        else
          match data[pos]? with
          | none => .error "cannot decode abi tuple: bool byte index out of bounds"
          | some b => do
            let after := min (findBoolLr children i 1) 7
            let entries ← entriesFrom children data fuel (i + after + 1) (pos + 1)
            return unpacked b after ++ entries
      else if child.isDynamic then
        if pos + 2 > data.length then .error "cannot decode abi tuple: dynamic offset out of bounds"
        else do
          let entries ← entriesFrom children data fuel (i + 1) (pos + 2)
          return .pointed (beNat ((data.drop pos).take 2)) :: entries
      else
        match child.byteLen with
        | none => .error "cannot decode abi tuple: static type size overflows"
        | some len =>
          if (checkedAdd pos len).all (fun stop => stop > data.length) then
            .error "cannot decode abi tuple: static field out of bounds"
          else do
            let entries ← entriesFrom children data fuel (i + 1) (pos + len)
            return .inline ((data.drop pos).take len) :: entries

/-- The bytes of the children: a dynamic child ends where the next one starts, and the last one with the data. -/
def segmentsOf (data : Bytes) : List (Entry UInt8) → Except String (List Bytes)
  | [] => .ok []
  | .inline bytes :: entries => do
    let segments ← segmentsOf data entries
    return bytes :: segments
  | .pointed start :: entries =>
    let stop := nextOffset data.length entries
    if start > stop ∨ stop > data.length then .error "cannot decode abi tuple: dynamic segment out of bounds"
    else do
      let segments ← segmentsOf data entries
      return (data.drop start).take (stop - start) :: segments

def tupleSegments (children : List AbiType) (data : Bytes) : Except String (List Bytes) := do
  let entries ← entriesFrom children data children.length 0 0
  segmentsOf data entries

/-- A pure step of the decoder. -/
def lift {β : Type} (x : Except String β) : EStateM String Nat β := fun budget =>
  match x with
  | .ok b => .ok b budget
  | .error e => .error e budget

def decodeFixed (what : String) (byteLen : Nat) (data : Bytes) (value : AbiValue) : EStateM String Nat AbiValue :=
  let got := data.length
  if got ≠ byteLen then throw s!"decode {what}: expected {byteLen} bytes, got {got}" else pure value

mutual
def decodeInner : AbiType → Bytes → EStateM String Nat AbiValue
  | .uint bits, data => decodeFixed s!"uint{bits}" (bits / 8) data (.uint (beNat data) bits)
  | .ufixed bits precision, data =>
    decodeFixed s!"ufixed{bits}x{precision}" (bits / 8) data (.ufixed (beNat data) bits precision)
  | .bool, data =>
    let got := data.length
    if got ≠ 1 then throw s!"decode bool: expected 1 byte, got {got}" else pure (.bool (data.headD 0 &&& 0x80 ≠ 0))
  | .byte, data =>
    let got := data.length
    if got ≠ 1 then throw s!"decode byte: expected 1 byte, got {got}" else pure (.byte (data.headD 0))
  | .address, data => decodeFixed "address" 32 data (.address (BitVec.ofNat 256 (beNat data)))
  | .string, data =>
    let len := beNat (data.take 2)
    let remaining := data.length - 2
    if data.length < 2 then throw "decode string: missing 2-byte length prefix"
    else if data.length ≠ 2 + len then
      throw s!"decode string: length prefix {len} does not match remaining {remaining} bytes"
    else pure (.string (data.drop 2))
  | .arrayStatic elem len, data => do
    checkRepeatedMinLen elem len data.length
    let segments ← lift (tupleSegments (List.replicate len elem) data)
    let values ← segments.mapM (decodeInner elem)
    return .arrayStatic values elem
  | .arrayDynamic elem, data =>
    if data.length < 2 then throw "decode dynamic array: missing 2-byte length prefix"
    else do
      let len := beNat (data.take 2)
      checkRepeatedMinLen elem len (data.length - 2)
      let segments ← lift (tupleSegments (List.replicate len elem) (data.drop 2))
      let values ← segments.mapM (decodeInner elem)
      return .arrayDynamic values elem
  | .tuple children, data => do
    let segments ← lift (tupleSegments children data)
    let values ← decodeChildren children segments
    return .tuple values

/-- Every child from its own bytes. -/
def decodeChildren : List AbiType → List Bytes → EStateM String Nat (List AbiValue)
  | [], _ => return []
  | _ :: _, [] => return []
  | child :: children, segment :: segments => do
    let value ← decodeInner child segment
    let values ← decodeChildren children segments
    return value :: values
end

def decode (t : AbiType) (data : Bytes) : Except String AbiValue :=
  match decodeInner t data maxZeroSizeElems with
  | .ok value _ => .ok value
  | .error e _ => .error e

end Abi
end Algod
