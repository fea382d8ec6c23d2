import AlgodRust.Avm.Machine
import Mathlib.Data.Nat.Sqrt
/-!
# Operations — the opcodes that work on the machine alone

Constants, the stack and the scratch space, arithmetic, bits and byte strings.  Each of these opcodes takes its
arguments from the stack, the last one first, computes, and pushes its results; a family of them differs only in what
it computes.  Numbers are those of 64 bits: an operation that could leave that range says so.
-/
namespace Algod
namespace Avm

open Msgpack (Bytes beBytes)

def popBytes (name : String) : OnData Bytes := do
  match ← pop name with
  | .bytes bs => return bs
  | .uint _ => throw (.wrongType .bytes .uint)

/-- Push values, the first one deepest. -/
def pushAll : List AvmValue → OnData Unit
  | [] => return ()
  | v :: vs => do
    push v
    pushAll vs

/-- The result of a computation that fails with a text. -/
def ofText {α : Type} (x : Except String α) : OnData α :=
  match x with
  | .ok a => return a
  | .error text => throw (.other text)

def getUint8 (instr : Instruction) : Except AvmError UInt8 :=
  match instr.immediates with
  | .uint8 a => .ok a
  | _ => .error (.wrongImmediate instr.name)

def getUint8Pair (instr : Instruction) : Except AvmError (UInt8 × UInt8) :=
  match instr.immediates with
  | .uint8Pair a b => .ok (a, b)
  | _ => .error (.wrongImmediate instr.name)

def getUint8Triple (instr : Instruction) : Except AvmError (UInt8 × UInt8 × UInt8) :=
  match instr.immediates with
  | .uint8Triple a b c => .ok (a, b, c)
  | _ => .error (.wrongImmediate instr.name)

/-- An immediate argument of an instruction. -/
def immediate {α : Type} (x : Except AvmError α) : OnData α :=
  match x with
  | .ok a => return a
  | .error e => throw e

def truth (b : Bool) : Nat := if b then 1 else 0

/-! ## Constants

What an instruction pushes of the constants of its program is read here and pushed afterwards. -/

section Constants

variable (instr : Instruction)

def opIntcblock : OnData Unit := do
  match instr.immediates with
  | .intBlock values => modify (fun d => { d with intConstants := values })
  | _ => throw (.wrongImmediate "intcblock")

def opBytecblock : OnData Unit := do
  match instr.immediates with
  | .byteBlock entries => modify (fun d => { d with byteConstants := entries })
  | _ => throw (.wrongImmediate "bytecblock")

def getIntConstant (idx : Nat) : OnData (List AvmValue) := do
  let d ← get
  match d.intConstants[idx]? with
  | some n => return [.uint n]
  | none => throw (.other s!"intc: index {idx} out of range (pool has {d.intConstants.length} entries)")

def getByteConstant (idx : Nat) : OnData (List AvmValue) := do
  let d ← get
  match d.byteConstants[idx]? with
  | some bs => return [.bytes bs]
  | none => throw (.other s!"bytec: index {idx} out of range (pool has {d.byteConstants.length} entries)")

def opIntc : OnData (List AvmValue) := do
  let idx ← immediate (getUint8 instr)
  getIntConstant idx.toNat

def opIntcN : OnData (List AvmValue) := getIntConstant (instr.opcode.toNat - 0x22)

def opBytec : OnData (List AvmValue) := do
  let idx ← immediate (getUint8 instr)
  getByteConstant idx.toNat

def opBytecN : OnData (List AvmValue) := getByteConstant (instr.opcode.toNat - 0x28)

def opPushint : OnData (List AvmValue) :=
  match instr.immediates with
  | .varuint n => return [.uint n]
  | _ => throw (.wrongImmediate "pushint")

def opPushbytes : OnData (List AvmValue) :=
  match instr.immediates with
  | .bytes bs => return [.bytes bs]
  | _ => throw (.wrongImmediate "pushbytes")

def opPushints : OnData (List AvmValue) :=
  match instr.immediates with
  | .pushInts values => return values.map .uint
  | _ => throw (.wrongImmediate "pushints")

def opPushbytess : OnData (List AvmValue) :=
  match instr.immediates with
  | .pushBytess entries => return entries.map .bytes
  | _ => throw (.wrongImmediate "pushbytess")

end Constants

/-! ## The stack and the scratch space -/

section Stack

variable (instr : Instruction)

def opPop : OnData Unit := do
  let _ ← pop instr.name

def opDup : OnData Unit := do
  let val ← pop instr.name
  pushAll [val, val]

def opDup2 : OnData Unit := do
  let b ← pop instr.name
  let a ← pop instr.name
  pushAll [a, b, a, b]

/-- Move a value between the top of the stack and a depth, which has to be there. -/
def moveAt (f : List AvmValue → Nat → List AvmValue) : OnData Unit := do
  let n ← immediate (getUint8 instr)
  let d ← get
  if n.toNat ≥ d.stack.length then
    throw (.other s!"{instr.name} {n.toNat}: stack underflow (stack depth {d.stack.length})")
  else set { d with stack := f d.stack (d.stack.length - 1 - n.toNat) }

def opDig : OnData Unit := do
  let n ← immediate (getUint8 instr)
  let d ← get
  if n.toNat ≥ d.stack.length then
    throw (.other s!"dig {n.toNat}: stack underflow (stack depth {d.stack.length})")
  else pushAll (d.stack[d.stack.length - 1 - n.toNat]?).toList

def opSwap : OnData Unit := do
  let d ← get
  match d.stack.drop (d.stack.length - 2) with
  | [a, b] => set { d with stack := d.stack.take (d.stack.length - 2) ++ [b, a] }
  | _ => throw (.other s!"swap: stack underflow (stack depth {d.stack.length})")

def opSelect : OnData Unit := do
  let c ← popUint instr.name
  let b ← pop instr.name
  let a ← pop instr.name
  push (if c ≠ 0 then b else a)

/-- Take the value on top and put it under the values above the depth. -/
def opCover : OnData Unit :=
  moveAt instr fun stack pos => stack.take pos ++ stack.getLast?.toList ++ (stack.drop pos).dropLast

/-- Take the value at the depth and put it on top. -/
def opUncover : OnData Unit :=
  moveAt instr fun stack pos => stack.take pos ++ stack.drop (pos + 1) ++ stack[pos]?.toList

def opBury : OnData Unit := do
  let n ← immediate (getUint8 instr)
  let val ← pop instr.name
  let d ← get
  if n.toNat = 0 ∨ n.toNat > d.stack.length then
    throw (.other s!"bury {n.toNat}: invalid depth (remaining stack depth {d.stack.length})")
  else set { d with stack := d.stack.set (d.stack.length - n.toNat) val }

def opPopn : OnData Unit := do
  let n ← immediate (getUint8 instr)
  let d ← get
  if n.toNat > d.stack.length then
    throw (.other s!"popn {n.toNat}: stack underflow (stack depth {d.stack.length})")
  else set { d with stack := d.stack.take (d.stack.length - n.toNat) }

def opDupn : OnData Unit := do
  let n ← immediate (getUint8 instr)
  let d ← get
  match d.stack.getLast? with
  | none => throw (.other "dupn: stack underflow")
  | some val => pushAll (List.replicate n.toNat val)

def opStore : OnData Unit := do
  let i ← immediate (getUint8 instr)
  let val ← pop instr.name
  modify (fun d => { d with scratch := d.scratch.set i.toNat val })

def opLoad : OnData Unit := do
  let i ← immediate (getUint8 instr)
  let d ← get
  push (d.scratch.getD i.toNat (.uint 0))

def opStores : OnData Unit := do
  let val ← pop instr.name
  let idx ← popUint instr.name
  let d ← get
  if idx ≥ d.scratch.length then
    throw (.other s!"stores: index {idx} out of range (scratch has {d.scratch.length} slots)")
  else set { d with scratch := d.scratch.set idx val }

def opLoads : OnData Unit := do
  let idx ← popUint instr.name
  let d ← get
  match d.scratch[idx]? with
  | none => throw (.other s!"loads: index {idx} out of range (scratch has {d.scratch.length} slots)")
  | some val => push val

end Stack

/-! ## Arithmetic -/

section Arithmetic

/-- One number in, numbers out. -/
def uintOp1 (f : Nat → Except String (List Nat)) (instr : Instruction) : OnData Unit := do
  let a ← popUint instr.name
  let results ← ofText (f a)
  pushAll (results.map .uint)

/-- Two numbers in, numbers out. -/
def uintOp2 (f : Nat → Nat → Except String (List Nat)) (instr : Instruction) : OnData Unit := do
  let b ← popUint instr.name
  let a ← popUint instr.name
  let results ← ofText (f a b)
  pushAll (results.map .uint)

def opAdd := uintOp2 fun a b => if a + b < u64Bound then .ok [a + b] else .error "+ overflowed"
def opSub := uintOp2 fun a b => if a < b then .error "- would result negative" else .ok [a - b]
def opMul := uintOp2 fun a b => if a * b < u64Bound then .ok [a * b] else .error "* overflowed"
def opDiv := uintOp2 fun a b => if b = 0 then .error "/ 0" else .ok [a / b]
def opModulo := uintOp2 fun a b => if b = 0 then .error "% 0" else .ok [a % b]
def opLt := uintOp2 fun a b => .ok [truth (decide (a < b))]
def opGt := uintOp2 fun a b => .ok [truth (decide (a > b))]
def opLe := uintOp2 fun a b => .ok [truth (decide (a ≤ b))]
def opGe := uintOp2 fun a b => .ok [truth (decide (a ≥ b))]
def opNot := uintOp1 fun a => .ok [truth (decide (a = 0))]
def opAddw := uintOp2 fun a b => .ok [(a + b) / u64Bound, (a + b) % u64Bound]
def opMulw := uintOp2 fun a b => .ok [a * b / u64Bound, a * b % u64Bound]

/-- Compare the two values on top, which have to be of one type.  They are looked at where they are, so a single value
is popped and compared with nothing. -/
def compareOp (text : String) (result : Bool → Nat) (instr : Instruction) : OnData Unit := do
  let d ← get
  let below := d.stack.take (d.stack.length - 2)
  match d.stack.drop (d.stack.length - 2) with
  | [.uint a, .uint b] => set { d with stack := below ++ [AvmValue.uint (result (a == b))] }
  | [.bytes a, .bytes b] => set { d with stack := below ++ [AvmValue.uint (result (a == b))] }
  | [_, _] => throw (.other text)
  | _ => do
    let _ ← pop instr.name

def opEq := compareOp "== type mismatch: both operands must be the same type" truth
def opNeq := compareOp "!= type mismatch: both operands must be the same type" fun same => truth (!same)

def opDivmodw (instr : Instruction) : OnData Unit := do
  let bLow ← popUint instr.name
  let bHigh ← popUint instr.name
  let aLow ← popUint instr.name
  let aHigh ← popUint instr.name
  let a := aHigh * u64Bound + aLow
  let b := bHigh * u64Bound + bLow
  if b = 0 then throw (.other "/ 0")
  else pushAll [.uint (a / b / u64Bound), .uint (a / b % u64Bound), .uint (a % b / u64Bound), .uint (a % b % u64Bound)]

/-- Multiply by the base a number of times, unless the product leaves its range. -/
def checkedPow (bound base : Nat) : Nat → Nat → Option Nat
  | 0, answer => some answer
  | times + 1, answer => if answer * base < bound then checkedPow bound base times (answer * base) else none

def expImpl (bound maxExp base exp : Nat) : Except String Nat :=
  if exp = 0 ∧ base = 0 then .error "0^0 is undefined"
  else if base = 0 then .ok 0
  else if exp = 0 ∨ base = 1 then .ok 1
  else if exp ≥ maxExp then .error s!"{base}^{exp} overflow"
  else
    match checkedPow bound base (exp - 1) base with
    | some answer => .ok answer
    | none => .error s!"{base}^{exp} overflow"

def opExp := uintOp2 fun base exp => (expImpl u64Bound 64 base exp).map fun value => [value]

def opExpw := uintOp2 fun base exp =>
  (expImpl (u64Bound * u64Bound) 128 base exp).map fun value => [value / u64Bound, value % u64Bound]

def opShl := uintOp2 fun a b => if b > 63 then .error s!"shl arg too big, ({b})" else .ok [a * 2 ^ b % u64Bound]
def opShr := uintOp2 fun a b => if b > 63 then .error s!"shr arg too big, ({b})" else .ok [a / 2 ^ b]

/-- The iteration of the square root: as long as the next estimate is smaller, take it. -/
def sqrtLoop (a x y : Nat) : Nat := if y < x then sqrtLoop a y ((y + a / y) / 2) else x
termination_by x

def opSqrt := uintOp1 fun a => .ok [if a ≤ 1 then a else sqrtLoop a a (a / 2 + 1)]

/-- The number of bits of a number. -/
def bitCount (n : Nat) : Nat := if n = 0 then 0 else Nat.log2 n + 1

def bytesBitlen : Bytes → Nat
  | [] => 0
  | byte :: rest => if byte ≠ 0 then rest.length * 8 + bitCount byte.toNat else bytesBitlen rest

def opBitlen (instr : Instruction) : OnData Unit := do
  match ← pop instr.name with
  | .uint v => push (.uint (bitCount v))
  | .bytes bs => push (.uint (bytesBitlen bs))

def opDivw (instr : Instruction) : OnData Unit := do
  let b ← popUint instr.name
  let aLow ← popUint instr.name
  let aHigh ← popUint instr.name
  if b = 0 then throw (.other "divw 0")
  else if b ≤ aHigh then throw (.other s!"divw overflow: {b} <= {aHigh}")
  else push (.uint ((aHigh * u64Bound + aLow) / b))

end Arithmetic

/-! ## Logic and bits -/

section Logic

def opAnd := uintOp2 fun a b => .ok [truth (decide (a ≠ 0 ∧ b ≠ 0))]
def opOr := uintOp2 fun a b => .ok [truth (decide (a ≠ 0 ∨ b ≠ 0))]
def opBitwiseOr := uintOp2 fun a b => .ok [a ||| b]
def opBitwiseAnd := uintOp2 fun a b => .ok [a &&& b]
def opBitwiseXor := uintOp2 fun a b => .ok [a ^^^ b]
def opBitwiseNot := uintOp1 fun a => .ok [a ^^^ (u64Bound - 1)]

/-- The mask of a bit of a byte, counted from the highest one. -/
def bitMask (n : Nat) : UInt8 := UInt8.ofNat (2 ^ (7 - n % 8))

/-- A bit of a number, counted from the lowest one, or of bytes, counted from the highest one of the first byte. -/
def getbit (target : AvmValue) (n : Nat) : Except String Nat :=
  match target with
  | .uint v => if n ≥ 64 then .error s!"getbit: bit index {n} >= 64 for uint64" else .ok (v / 2 ^ n % 2)
  | .bytes bs =>
    if n ≥ bs.length * 8 then .error s!"getbit: bit index {n} >= {bs.length * 8} for bytes of length {bs.length}"
    else .ok ((bs.getD (n / 8) 0).toNat / 2 ^ (7 - n % 8) % 2)

def opGetbit (instr : Instruction) : OnData Unit := do
  let n ← popUint instr.name
  let target ← pop instr.name
  let bit ← ofText (getbit target n)
  push (.uint bit)

def setbit (target : AvmValue) (n v : Nat) : Except String AvmValue :=
  if v > 1 then .error s!"setbit: value {v} is not 0 or 1"
  else
    match target with
    | .uint val =>
      if n ≥ 64 then .error s!"setbit: bit index {n} >= 64 for uint64"
      else .ok (.uint (if v = 1 then val ||| 2 ^ n else val &&& (u64Bound - 1 - 2 ^ n)))
    | .bytes bs =>
      if n ≥ bs.length * 8 then .error s!"setbit: bit index {n} >= {bs.length * 8} for bytes of length {bs.length}"
      else
        let byte := bs.getD (n / 8) 0
        .ok (.bytes (bs.set (n / 8) (if v = 1 then byte ||| bitMask n else byte &&& ~~~bitMask n)))

def opSetbit (instr : Instruction) : OnData Unit := do
  let v ← popUint instr.name
  let n ← popUint instr.name
  let target ← pop instr.name
  let result ← ofText (setbit target n v)
  push result

def opGetbyte (instr : Instruction) : OnData Unit := do
  let n ← popUint instr.name
  let bs ← popBytes instr.name
  match bs[n]? with
  | some byte => push (.uint byte.toNat)
  | none => throw (.other "getbyte index beyond array length")

def opSetbyte (instr : Instruction) : OnData Unit := do
  let v ← popUint instr.name
  let n ← popUint instr.name
  let bs ← popBytes instr.name
  if v > 255 then throw (.other s!"setbyte: value {v} > 255")
  else if n ≥ bs.length then throw (.other s!"setbyte: index {n} >= length {bs.length} of bytes")
  else push (.bytes (bs.set n (UInt8.ofNat v)))

end Logic

/-! ## Byte strings -/

section ByteStrings

def maxBytesLen : Nat := 4096
def maxBigintLen : Nat := 64

/-- The number that bytes stand for, the highest byte first. -/
def biguintFromBytes (bs : Bytes) : Nat := bs.foldl (fun n byte => 256 * n + byte.toNat) 0

/-- The bytes of a number, the highest byte first; none for zero. -/
def biguintToBytes (n : Nat) : Bytes := beBytes ((bitCount n + 7) / 8) n

def opLen (instr : Instruction) : OnData Unit := do
  let a ← popBytes instr.name
  push (.uint a.length)

def opItob (instr : Instruction) : OnData Unit := do
  let a ← popUint instr.name
  push (.bytes (beBytes 8 a))

def opBtoi (instr : Instruction) : OnData Unit := do
  let a ← popBytes instr.name
  if a.length > 8 then throw (.other s!"btoi arg too long, got {a.length} bytes")
  else push (.uint (biguintFromBytes a))

def opConcat (instr : Instruction) : OnData Unit := do
  let b ← popBytes instr.name
  let a ← popBytes instr.name
  if a.length + b.length > maxBytesLen then
    throw (.other s!"concat: result length {a.length + b.length} exceeds maximum {maxBytesLen}")
  else push (.bytes (a ++ b))

/-- The bytes from one position up to another one. -/
def slice (a : Bytes) (s e : Nat) : Bytes := (a.drop s).take (e - s)

def substring (a : Bytes) (s e : Nat) : Except String Bytes :=
  if e < s then .error "substring end before start"
  else if s > a.length ∨ e > a.length then .error "substring range beyond length of string"
  else .ok (slice a s e)

def opSubstring (instr : Instruction) : OnData Unit := do
  let (s, e) ← immediate (getUint8Pair instr)
  let a ← popBytes instr.name
  let result ← ofText (substring a s.toNat e.toNat)
  push (.bytes result)

def opSubstring3 (instr : Instruction) : OnData Unit := do
  let e ← popUint instr.name
  let s ← popUint instr.name
  let a ← popBytes instr.name
  -- a position beyond the positive numbers of 32 bits is out of range before anything else
  if s ≥ 2 ^ 31 ∨ e ≥ 2 ^ 31 then throw (.other "substring range beyond length of string")
  else do
    let result ← ofText (substring a s e)
    push (.bytes result)

def opExtract (instr : Instruction) : OnData Unit := do
  let (s, l) ← immediate (getUint8Pair instr)
  let a ← popBytes instr.name
  if s.toNat > a.length then throw (.other s!"extract: start {s.toNat} > length {a.length}")
  else if l.toNat = 0 then push (.bytes (a.drop s.toNat))
  else if s.toNat + l.toNat > a.length then
    throw (.other s!"extract: start {s.toNat} + length {l.toNat} > byte length {a.length}")
  else push (.bytes (slice a s.toNat (s.toNat + l.toNat)))

def opExtract3 (instr : Instruction) : OnData Unit := do
  let l ← popUint instr.name
  let s ← popUint instr.name
  let a ← popBytes instr.name
  if s + l ≥ u64Bound then throw (.other s!"extract3: start {s} + length {l} overflows")
  else if s + l > a.length then throw (.other s!"extract3: start {s} + length {l} > byte length {a.length}")
  else push (.bytes (slice a s (s + l)))

/-- Read a number of some bytes at an offset. -/
def extractUint (size : Nat) (instr : Instruction) : OnData Unit := do
  let s ← popUint instr.name
  let a ← popBytes instr.name
  if s + size > a.length then throw (.other s!"{instr.name}: offset {s} + {size} > length {a.length}")
  else push (.uint (biguintFromBytes (slice a s (s + size))))

def opExtractUint16 := extractUint 2
def opExtractUint32 := extractUint 4
def opExtractUint64 := extractUint 8

/-- Write bytes over some of others. -/
def replaceBytes (name : String) (a : Bytes) (s : Nat) (b : Bytes) : Except String Bytes :=
  if s + b.length ≥ u64Bound then .error s!"{name}: start {s} + replacement length {b.length} overflows"
  else if s + b.length > a.length then
    .error s!"{name}: start {s} + replacement length {b.length} > byte length {a.length}"
  else .ok (a.take s ++ b ++ a.drop (s + b.length))

def opReplace2 (instr : Instruction) : OnData Unit := do
  let s ← immediate (getUint8 instr)
  let b ← popBytes instr.name
  let a ← popBytes instr.name
  let result ← ofText (replaceBytes "replace2" a s.toNat b)
  push (.bytes result)

def opReplace3 (instr : Instruction) : OnData Unit := do
  let b ← popBytes instr.name
  let s ← popUint instr.name
  let a ← popBytes instr.name
  let result ← ofText (replaceBytes "replace3" a s b)
  push (.bytes result)

def opBzero (instr : Instruction) : OnData Unit := do
  let n ← popUint instr.name
  if n > maxBytesLen then throw (.other "bzero attempted to create a too large string")
  else push (.bytes (List.replicate n 0))

end ByteStrings

/-! ## Byte arithmetic -/

section ByteMath

def checkBigintInput (bs : Bytes) : Except String Nat :=
  if bs.length > maxBigintLen then .error "math attempted on large byte-array" else .ok (biguintFromBytes bs)

/-- Two numbers given as bytes, and a value of theirs. -/
def bigintOp2 (f : Nat → Nat → Except String AvmValue) (instr : Instruction) : OnData Unit := do
  let b ← popBytes instr.name
  let a ← popBytes instr.name
  let a ← ofText (checkBigintInput a)
  let b ← ofText (checkBigintInput b)
  let result ← ofText (f a b)
  push result

def bigint (n : Nat) : AvmValue := .bytes (biguintToBytes n)

def opBadd := bigintOp2 fun a b => .ok (bigint (a + b))
def opBsub := bigintOp2 fun a b => if a < b then .error "byte math would have negative result" else .ok (bigint (a - b))
def opBdiv := bigintOp2 fun a b => if b = 0 then .error "division by zero" else .ok (bigint (a / b))
def opBmul := bigintOp2 fun a b => .ok (bigint (a * b))
def opBmod := bigintOp2 fun a b => if b = 0 then .error "modulo by zero" else .ok (bigint (a % b))
def opBlt := bigintOp2 fun a b => .ok (.uint (truth (decide (a < b))))
def opBgt := bigintOp2 fun a b => .ok (.uint (truth (decide (a > b))))
def opBle := bigintOp2 fun a b => .ok (.uint (truth (decide (a ≤ b))))
def opBge := bigintOp2 fun a b => .ok (.uint (truth (decide (a ≥ b))))
def opBeq := bigintOp2 fun a b => .ok (.uint (truth (decide (a = b))))
def opBne := bigintOp2 fun a b => .ok (.uint (truth (decide (a ≠ b))))

/-- Bytes with zeros before them, up to a length. -/
def padTo (len : Nat) (a : Bytes) : Bytes := List.replicate (len - a.length) 0 ++ a

/-- Combine two byte strings byte by byte, the shorter one padded. -/
def bitwiseOp2 (f : UInt8 → UInt8 → UInt8) (instr : Instruction) : OnData Unit := do
  let b ← popBytes instr.name
  let a ← popBytes instr.name
  let len := max a.length b.length
  push (.bytes (List.zipWith f (padTo len a) (padTo len b)))

def opBbitwiseOr := bitwiseOp2 fun x y => x ||| y
def opBbitwiseAnd := bitwiseOp2 fun x y => x &&& y
def opBbitwiseXor := bitwiseOp2 fun x y => x ^^^ y

def opBbitwiseNot (instr : Instruction) : OnData Unit := do
  let a ← popBytes instr.name
  push (.bytes (a.map fun x => ~~~x))

def opBsqrt (instr : Instruction) : OnData Unit := do
  let bs ← popBytes instr.name
  let a ← ofText (checkBigintInput bs)
  push (bigint (Nat.sqrt a))

end ByteMath

end Avm
end Algod
