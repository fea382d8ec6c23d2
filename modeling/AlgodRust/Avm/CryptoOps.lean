import AlgodRust.Avm.Fields
import AlgodRust.Avm.Json
import AlgodRust.Avm.Operations
/-!
# CryptoOps — hashes, signatures, curves and encodings

The libraries these opcodes call are `Primitives`: the hash functions with the lengths of their results, signatures, the
arithmetic of the curves, and the decoders.  What is around them (the sizes of the arguments, the costs that depend on
them, the encodings of points, the hashes over field elements) is computed here.
-/
namespace Algod
namespace Avm

open Msgpack (Bytes beBytes)

/-! ## Points -/

/-- The bytes of an element of the field a group is over. -/
def EcGroup.fpSize : EcGroup → Nat
  | .bn254g1 | .bn254g2 => 32
  | .bls12381g1 | .bls12381g2 => 48

/-- The field elements of a point: two, or two pairs. -/
def EcGroup.coordinates : EcGroup → Nat
  | .bn254g1 | .bls12381g1 => 2
  | .bn254g2 | .bls12381g2 => 4

def EcGroup.pointSize (g : EcGroup) : Nat := g.coordinates * g.fpSize

def EcGroup.modulus : EcGroup → Nat
  | .bn254g1 | .bn254g2 => 21888242871839275222246405745257275088696311157297823662689037894645226208583
  | .bls12381g1 | .bls12381g2 =>
    4002409555221667393417789825735904156556882819939007885332058136124031650490837864442687629129015664037894272559787

/-- A point of a group: the one at infinity, or one with coordinates. -/
abbrev EcPoint (g : EcGroup) := Option (Vector Nat g.coordinates)

/-! ## The libraries -/

structure Primitives where
  sha256 : Bytes → Vector UInt8 32
  keccak256 : Bytes → Vector UInt8 32
  sha512t256 : Bytes → Vector UInt8 32
  sha3t256 : Bytes → Vector UInt8 32
  sha512 : Bytes → Vector UInt8 64
  sumhash512 : Bytes → Vector UInt8 64
  ed25519Verify : Bytes → Bytes → Bytes → Bool
  /-- The data and the two numbers of the signature and of the key, each of 32 bytes. -/
  ecdsaVerify : EcdsaCurve → Bytes → Bytes → Bytes → Bytes → Bytes → Bool
  ecdsaDecompress : EcdsaCurve → Bytes → Option (Vector UInt8 32 × Vector UInt8 32)
  ecdsaRecover : Bytes → Bytes → Bytes → Nat → Except String (Vector UInt8 32 × Vector UInt8 32)
  vrfVerify : Bytes → Bytes → Bytes → Option (Vector UInt8 64)
  falconVerify : Bytes → Bytes → Bytes → Bool
  onCurve : (g : EcGroup) → Vector Nat g.coordinates → Bool
  inSubgroup : (g : EcGroup) → EcPoint g → Bool
  ecAdd : (g : EcGroup) → EcPoint g → EcPoint g → EcPoint g
  ecMul : (g : EcGroup) → EcPoint g → Nat → EcPoint g
  /-- Whether the product of the pairings of points of a first group with points of its second one is one. -/
  pairingIsOne : (g₁ g₂ : EcGroup) → List (EcPoint g₁) → List (EcPoint g₂) → Bool
  /-- The point of the group for one field element, or two of them. -/
  ecMap : (g : EcGroup) → List Nat → Except String (EcPoint g)
  base64Decode : Base64Encoding → Bool → Bytes → Except String Bytes
  /-- Four characters stand for three bytes. -/
  base64Decode_length : ∀ encoding padded bs out, base64Decode encoding padded bs = .ok out → out.length ≤ bs.length
  /-- Whether a text is a JSON value, and then whether that is an object. -/
  jsonIsObject : Bytes → Except String Bool
  jsonUint64 : Bytes → Except String Nat
  jsonMap : Bytes → Except String Unit

/-- No libraries, for programs that call none. -/
def noPrimitives : Primitives where
  sha256 _ := Vector.replicate 32 0
  keccak256 _ := Vector.replicate 32 0
  sha512t256 _ := Vector.replicate 32 0
  sha3t256 _ := Vector.replicate 32 0
  sha512 _ := Vector.replicate 64 0
  sumhash512 _ := Vector.replicate 64 0
  ed25519Verify _ _ _ := false
  ecdsaVerify _ _ _ _ _ _ := false
  ecdsaDecompress _ _ := none
  ecdsaRecover _ _ _ _ := .error ""
  vrfVerify _ _ _ := none
  falconVerify _ _ _ := false
  onCurve _ _ := false
  inSubgroup _ _ := false
  ecAdd _ _ _ := none
  ecMul _ _ _ := none
  pairingIsOne _ _ _ _ := false
  ecMap _ _ := .error ""
  base64Decode _ _ _ := .error ""
  base64Decode_length _ _ _ _ h := by cases h
  jsonIsObject _ := .error ""
  jsonUint64 _ := .error ""
  jsonMap _ := .error ""

variable (prims : Primitives)

/-! ## Hashes -/

section Hashes

/-- Push the hash of the value on top. -/
def hashOp {n : Nat} (hash : Bytes → Vector UInt8 n) (instr : Instruction) : OnData Unit := do
  let data ← popBytes instr.name
  push (.bytes (hash data).toList)

def opSha256 := hashOp prims.sha256
def opKeccak256 := hashOp prims.keccak256
def opSha512t256 := hashOp prims.sha512t256
def opSha3t256 := hashOp prims.sha3t256

/-- Push the hash of the value on top, at a cost for each part of its bytes. -/
def costlyHashOp {n : Nat} (hash : Bytes → Vector UInt8 n) (base chunkCost chunkSize : Nat) (instr : Instruction) :
    OnData Unit := do
  let data ← popBytes instr.name
  chargeCost instr.name (base + chunkCost * ((data.length + chunkSize - 1) / chunkSize))
  push (.bytes (hash data).toList)

def opSumhash512 := costlyHashOp prims.sumhash512 150 4 7
def opSha512 := costlyHashOp prims.sha512 15 2 32

end Hashes

/-! ## Encodings -/

section Encodings

/-- Whether a base64 text ends in padding, line ends apart. -/
def base64Padded (encoded : Bytes) : Bool :=
  (encoded.reverse.dropWhile fun b => b == 0x0a || b == 0x0d).head? == some 0x3d

def opBase64Decode (instr : Instruction) : OnData Unit := do
  let byte ← immediate (getUint8 instr)
  let encoding ← ofText (Base64Encoding.fromU8 byte)
  let rawEncoded ← popBytes instr.name
  chargeCost instr.name (1 + (rawEncoded.length + 15) / 16)
  let encoded := rawEncoded.filter fun b => b != 0x0a && b != 0x0d
  let decoded ← ofText ((prims.base64Decode encoding (base64Padded encoded) encoded).mapError ("base64 decode error: " ++ ·))
  push (.bytes decoded)

/-- The value of a member of an object, as the wanted type. -/
def jsonValue (type : JsonRefType) (raw : Bytes) : Except String AvmValue :=
  match type with
  | .string => ((Json.decodeJsonStringLenient raw).mapError ("json_ref JSONString: " ++ ·)).map .bytes
  | .uint64 => ((prims.jsonUint64 raw).mapError ("json_ref JSONUint64: " ++ ·)).map .uint
  | .object => ((prims.jsonMap raw).mapError ("json_ref JSONObject: " ++ ·)).map fun _ => .bytes raw

/-- The value under a key of the object in a text. -/
def jsonMember (type : JsonRefType) (text key : Bytes) : Except String AvmValue := do
  let parsed ← Json.parseJsonObject prims.jsonIsObject text
  let name := (String.fromUTF8? ⟨key.toArray⟩).getD ""
  match parsed.find? (fun e => e.1 == key) with
  | some entry => jsonValue prims type entry.2
  | none => .error s!"key {name} not found in JSON text"

def opJsonRef (instr : Instruction) : OnData Unit := do
  let byte ← immediate (getUint8 instr)
  let type ← ofText (JsonRefType.fromU8 byte)
  let key ← popBytes instr.name
  if !Json.isUtf8 key then throw (.other "json_ref: key is not valid UTF-8")
  else do
    let text ← popBytes instr.name
    chargeCost instr.name (25 + 2 * ((text.length + 6) / 7))
    let value ← ofText (jsonMember prims type text key)
    push value

end Encodings

/-! ## Signatures -/

section Signatures

/-- The arguments of a check of an edwards signature: the data, the signature and the key. -/
def popEd25519 (instr : Instruction) : OnData (Bytes × Bytes × Bytes) := do
  let pubkey ← popBytes instr.name
  let sig ← popBytes instr.name
  let data ← popBytes instr.name
  if pubkey.length ≠ 32 then throw (.other "invalid public key")
  else if sig.length ≠ 64 then throw (.other "invalid signature")
  else return (data, sig, pubkey)

def progData : Bytes := "ProgData".toUTF8.toList

/-- Check a signature over the hash of the program and the data. -/
def opEd25519verify (programHash : Bytes) (instr : Instruction) : OnData (List AvmValue) := do
  let (data, sig, pubkey) ← popEd25519 instr
  return [.uint (truth (prims.ed25519Verify pubkey sig (progData ++ programHash ++ data)))]

def opEd25519verifyBare (instr : Instruction) : OnData Unit := do
  let (data, sig, pubkey) ← popEd25519 instr
  push (.uint (truth (prims.ed25519Verify pubkey sig data)))

/-- A number of at most 32 bytes, without the zeros before it, in 32 bytes. -/
def padTo32 (input : Bytes) : Option Bytes :=
  if input.length ≤ 32 then some (padTo 32 input)
  else if (input.take (input.length - 32)).all (· == 0) then some (input.drop (input.length - 32))
  else none

/-- The curve an instruction names, which its version has to know. -/
def ecdsaCurve (version : Nat) (instr : Instruction) : OnData EcdsaCurve := do
  let byte ← immediate (getUint8 instr)
  let curve ← ofText (EcdsaCurve.fromU8 byte)
  if curve = .secp256r1 ∧ version < 7 then throw (.other s!"invalid curve {byte.toNat}") else return curve

def ecdsaVerify (curve : EcdsaCurve) (data sigR sigS pkX pkY : Bytes) : Bool :=
  match padTo32 pkX, padTo32 pkY, padTo32 sigR, padTo32 sigS with
  | some x, some y, some r, some s => prims.ecdsaVerify curve data r s x y
  | _, _, _, _ => false

def opEcdsaVerify (version : Nat) (instr : Instruction) : OnData Unit := do
  let curve ← ecdsaCurve version instr
  chargeCost instr.name (match curve with | .secp256k1 => 1700 | .secp256r1 => 2500)
  let pkY ← popBytes instr.name
  let pkX ← popBytes instr.name
  let sigS ← popBytes instr.name
  let sigR ← popBytes instr.name
  let data ← popBytes instr.name
  if data.length ≠ 32 then throw (.other s!"the signed data must be 32 bytes long, not {data.length}")
  else push (.uint (truth (ecdsaVerify prims curve data sigR sigS pkX pkY)))

def opEcdsaPkDecompress (version : Nat) (instr : Instruction) : OnData Unit := do
  let curve ← ecdsaCurve version instr
  chargeCost instr.name (match curve with | .secp256k1 => 650 | .secp256r1 => 2400)
  let compressed ← popBytes instr.name
  match prims.ecdsaDecompress curve compressed with
  | some (x, y) => pushAll [.bytes x.toList, .bytes y.toList]
  | none => throw (.other (match curve with | .secp256k1 => "invalid pubkey" | .secp256r1 => "invalid compressed pubkey"))

def ecdsaRecover (data sigR sigS : Bytes) (recid : Nat) : Except String (Vector UInt8 32 × Vector UInt8 32) :=
  match padTo32 sigR, padTo32 sigS with
  | none, _ => .error "pubkey recover failed: r too long"
  | _, none => .error "pubkey recover failed: s too long"
  | some r, some s => prims.ecdsaRecover data r s recid

def opEcdsaPkRecover (instr : Instruction) : OnData Unit := do
  let byte ← immediate (getUint8 instr)
  let curve ← ofText (EcdsaCurve.fromU8 byte)
  if curve ≠ .secp256k1 then throw (.other s!"unsupported curve {byte.toNat}")
  else do
    let recid ← popUint instr.name
    let sigS ← popBytes instr.name
    let sigR ← popBytes instr.name
    let data ← popBytes instr.name
    if recid > 3 then throw (.other s!"invalid recovery id: {recid}")
    else if data.length ≠ 32 then throw (.other s!"the signed data must be 32 bytes long, not {data.length}")
    else do
      let (x, y) ← ofText (ecdsaRecover prims data sigR sigS recid)
      pushAll [.bytes x.toList, .bytes y.toList]

def opVrfVerify (instr : Instruction) : OnData Unit := do
  let byte ← immediate (getUint8 instr)
  ofText (vrfStandardFromU8 byte)
  let pubkey ← popBytes instr.name
  let proof ← popBytes instr.name
  let data ← popBytes instr.name
  if proof.length ≠ 80 then throw (.other s!"vrf proof wrong size {proof.length} != 80")
  else if pubkey.length ≠ 32 then throw (.other s!"vrf pubkey wrong size {pubkey.length} != 32")
  else
    match prims.vrfVerify pubkey proof data with
    | some output => pushAll [.bytes output.toList, .uint 1]
    | none => pushAll [.bytes (List.replicate 64 0), .uint 0]

def falconPubkeySize : Nat := 1793

def opFalconVerify (instr : Instruction) : OnData Unit := do
  let pubkey ← popBytes instr.name
  let sig ← popBytes instr.name
  let data ← popBytes instr.name
  if pubkey.length ≠ falconPubkeySize then
    throw (.other s!"invalid falcon pubkey size {pubkey.length} != {falconPubkeySize}")
  else push (.uint (truth (prims.falconVerify pubkey sig data)))

end Signatures

/-! ## Hashes over field elements -/

section FieldHashes

/-- The moduli of the scalar fields of the two curves. -/
def bn254Scalar : Nat := 21888242871839275222246405745257275088548364400416034343698204186575808495617
def bls12381Scalar : Nat := 52435875175126190479447740508185965837690552500527637822603658699938581184513

/-- The parts of some bytes, each of a size. -/
def parts (size : Nat) (bs : Bytes) : List Bytes :=
  (List.range (bs.length / size)).map fun i => (bs.drop (i * size)).take size

/-- The numbers in parts of 32 bytes, which have to be below the modulus. -/
def parseFieldElements (p : Nat) (data : Bytes) : Except String (List Nat) :=
  (parts 32 data).mapM fun part =>
    if biguintFromBytes part < p then .ok (biguintFromBytes part)
    else .error "invalid mimc input: element exceeds modulus"

/-- The hash of a value, its hash, and so on. -/
def hashChain (hash : Bytes → Vector UInt8 32) : Nat → Bytes → List Nat
  | 0, _ => []
  | n + 1, rnd => biguintFromBytes (hash rnd).toList :: hashChain hash n (hash rnd).toList

/-- Constants from a seed, below the modulus. -/
def derived (p count : Nat) (seed : String) : List Nat :=
  (hashChain prims.keccak256 count (prims.keccak256 seed.toUTF8.toList).toList).map (· % p)

def mimcEncrypt (p : Nat) (constants : List Nat) (m k : Nat) : Nat :=
  (constants.foldl (fun m c => (m + k + c) ^ 5 % p) m + k) % p

def mimc (p rounds : Nat) (data : Bytes) : Except String Bytes := do
  let elements ← parseFieldElements p data
  let constants := derived prims p rounds "seed"
  return beBytes 32 (elements.foldl (fun h d => (mimcEncrypt p constants d h + h + d) % p) 0)

/-- The two linear layers of the permutation, and its full and partial rounds. -/
def matMulExternal (p : Nat) (s : Nat × Nat) : Nat × Nat := ((s.1 + s.2 + s.1) % p, (s.1 + s.2 + s.2) % p)
def matMulInternal (p : Nat) (s : Nat × Nat) : Nat × Nat := ((s.1 + (s.1 + s.2)) % p, (s.2 + s.2 + (s.1 + s.2)) % p)

def fullRound (p : Nat) (s : Nat × Nat) (keys : Nat × Nat) : Nat × Nat :=
  matMulExternal p ((s.1 + keys.1) ^ 5 % p, (s.2 + keys.2) ^ 5 % p)

def partialRound (p : Nat) (s : Nat × Nat) (key : Nat) : Nat × Nat := matMulInternal p ((s.1 + key) ^ 5 % p, s.2)

/-- Numbers two by two. -/
def twoByTwo : List Nat → List (Nat × Nat)
  | a :: b :: rest => (a, b) :: twoByTwo rest
  | _ => []

/-- Three full rounds, fifty partial ones, three full ones. -/
def poseidon2Permutation (p : Nat) (keys : List Nat) (s : Nat × Nat) : Nat × Nat :=
  let s := (twoByTwo (keys.take 6)).foldl (fullRound p) (matMulExternal p s)
  let s := ((keys.drop 6).take 50).foldl (partialRound p) s
  (twoByTwo (keys.drop 56)).foldl (fullRound p) s

def poseidon2 (p : Nat) (seed : String) (data : Bytes) : Except String Bytes := do
  let elements ← parseFieldElements p data
  let keys := derived prims p 62 seed
  return beBytes 32 (elements.foldl (fun state right => (right + (poseidon2Permutation p keys (state, right)).2) % p) 0)

/-- A hash over field elements: the arguments are whole elements, and each one costs. -/
def fieldHashOp (base chunkCost : Nat) (invalid : Nat → String) (hashes : List (Bytes → Except String Bytes))
    (instr : Instruction) : OnData Unit := do
  let config ← immediate (getUint8 instr)
  let data ← popBytes instr.name
  if data.length = 0 then throw (.other "the input data cannot be empty")
  else if data.length % 32 ≠ 0 then throw (.other "the input data must be a multiple of 32 bytes")
  else do
    chargeCost instr.name (base + chunkCost * (data.length / 32))
    match hashes[config.toNat]? with
    | some hash => do
      let result ← ofText (hash data)
      push (.bytes result)
    | none => throw (.other (invalid config.toNat))

def opMimc := fieldHashOp 10 550 (fun config => s!"invalid mimc config {config}")
  [mimc prims bn254Scalar 110, mimc prims bls12381Scalar 111]

def opPoseidon2 := fieldHashOp 7 350 (fun config => s!"invalid poseidon2 config {config}")
  [poseidon2 prims bn254Scalar "Poseidon2-BN254[t=2,rF=6,rP=50,d=5]",
    poseidon2 prims bls12381Scalar "Poseidon2-BLS12_381[t=2,rF=6,rP=50,d=5]"]

end FieldHashes

/-! ## Curves -/

section Curves

def bytesToField (g : EcGroup) (bs : Bytes) : Except String Nat :=
  let n := biguintFromBytes bs
  if n < g.modulus then .ok n else .error s!"field element {n} larger than modulus {g.modulus}"

/-- The field elements in some bytes, one after the other. -/
def bytesToFields (g : EcGroup) (bs : Bytes) : (n : Nat) → Except String (Vector Nat n)
  | 0 => .ok #v[]
  | n + 1 => do
    let below ← bytesToFields g bs n
    let last ← bytesToField g ((bs.drop (n * g.fpSize)).take g.fpSize)
    return below.push last

/-- A point from its bytes; zeros are the point at infinity. -/
def bytesToPoint (g : EcGroup) (bs : Bytes) : Except String (EcPoint g) :=
  if bs.length ≠ g.pointSize then .error s!"bad length {bs.length}. Expected {g.pointSize}"
  else do
    let coordinates ← bytesToFields g bs g.coordinates
    if coordinates.all (· == 0) then return none
    else if prims.onCurve g coordinates then return some coordinates
    else .error "point not on curve"

def bytesToPoints (g : EcGroup) (checkSubgroup : Bool) (bs : Bytes) : Except String (List (EcPoint g)) :=
  if bs.length % g.pointSize ≠ 0 then .error s!"bad length {bs.length}. Expected {g.pointSize} multiple"
  else if bs.length = 0 then .error "empty input"
  else
    (parts g.pointSize bs).mapM fun part => do
      let point ← bytesToPoint prims g part
      if checkSubgroup && !prims.inSubgroup g point then .error "wrong subgroup" else return point

/-- The bytes of a point: its coordinates, each one in the bytes of a field element. -/
def pointToBytes (g : EcGroup) : EcPoint g → Bytes
  | none => List.replicate g.pointSize 0
  | some coordinates => coordinates.toList.flatMap (beBytes g.fpSize)

def getEcGroup (instr : Instruction) : OnData EcGroup := do
  let byte ← immediate (getUint8 instr)
  match EcGroup.fromU8 byte with
  | .ok g => return g
  | .error _ => throw (.other s!"invalid ec group {byte.toNat}")

/-- One of four numbers, by the group. -/
def EcGroup.among (g : EcGroup) (a b c d : Nat) : Nat :=
  match g with
  | .bn254g1 => a
  | .bn254g2 => b
  | .bls12381g1 => c
  | .bls12381g2 => d

/-- The length of the byte string on top of the stack. -/
def topLen : OnData Nat := do
  let d ← get
  match d.stack.getLast? with
  | some (.bytes bs) => return bs.length
  | _ => return 0

def ecAdd (g : EcGroup) (a b : Bytes) : Except String Bytes := do
  let a ← bytesToPoint prims g a
  let b ← bytesToPoint prims g b
  return pointToBytes g (prims.ecAdd g a b)

def opEcAdd (instr : Instruction) : OnData Unit := do
  let g ← getEcGroup instr
  chargeCost instr.name (g.among 125 170 205 290)
  let b ← popBytes instr.name
  let a ← popBytes instr.name
  let result ← ofText (ecAdd prims g a b)
  push (.bytes result)

def scalarSize : Nat := 32

def ecScalarMul (g : EcGroup) (a k : Bytes) : Except String Bytes :=
  if k.length > scalarSize then .error s!"ec_scalar_mul scalar len is {k.length}, exceeds {scalarSize}"
  else do
    let a ← bytesToPoint prims g a
    return pointToBytes g (prims.ecMul g a (biguintFromBytes k))

def opEcScalarMul (instr : Instruction) : OnData Unit := do
  let g ← getEcGroup instr
  chargeCost instr.name (g.among 1810 3430 2950 6530)
  let k ← popBytes instr.name
  let a ← popBytes instr.name
  let result ← ofText (ecScalarMul prims g a k)
  push (.bytes result)

/-- Whether the pairings of points of the two groups of a curve multiply to one. -/
def pairingCheck (g₁ g₂ : EcGroup) (g₁Bytes g₂Bytes : Bytes) : Except String Bool := do
  let points₁ ← bytesToPoints prims g₁ true g₁Bytes
  let points₂ ← bytesToPoints prims g₂ true g₂Bytes
  if points₁.length ≠ points₂.length then
    .error s!"pairing: mismatched point counts: {points₁.length} g1 vs {points₂.length} g2"
  else return prims.pairingIsOne g₁ g₂ points₁ points₂

def ecPairingCheck (g : EcGroup) (prev last : Bytes) : Except String Bool :=
  match g with
  | .bn254g1 => pairingCheck prims .bn254g1 .bn254g2 prev last
  | .bn254g2 => pairingCheck prims .bn254g1 .bn254g2 last prev
  | .bls12381g1 => pairingCheck prims .bls12381g1 .bls12381g2 prev last
  | .bls12381g2 => pairingCheck prims .bls12381g1 .bls12381g2 last prev

def opEcPairingCheck (instr : Instruction) : OnData Unit := do
  let g ← getEcGroup instr
  let len ← topLen
  chargeCost instr.name
    (g.among 8000 8000 13000 13000 + g.among 7400 7400 10000 10000 * ((len + g.pointSize - 1) / g.pointSize))
  let last ← popBytes instr.name
  let prev ← popBytes instr.name
  let ok ← ofText (ecPairingCheck prims g prev last)
  push (.uint (truth ok))

def ecMultiScalarMul (g : EcGroup) (pointBytes scalarBytes : Bytes) : Except String Bytes := do
  let points ← bytesToPoints prims g false pointBytes
  if scalarBytes.length ≠ scalarSize * points.length then
    .error s!"bad scalars length {scalarBytes.length}. Expected {scalarSize * points.length}"
  else
    let products := (points.zip (parts scalarSize scalarBytes)).map fun e => prims.ecMul g e.1 (biguintFromBytes e.2)
    return pointToBytes g (products.foldl (prims.ecAdd g) none)

def opEcMultiScalarMul (instr : Instruction) : OnData Unit := do
  let g ← getEcGroup instr
  let len ← topLen
  chargeCost instr.name (g.among 3600 7200 6500 14850 + g.among 90 270 95 485 * ((len + scalarSize - 1) / scalarSize))
  let scalars ← popBytes instr.name
  let points ← popBytes instr.name
  let result ← ofText (ecMultiScalarMul prims g points scalars)
  push (.bytes result)

def opEcSubgroupCheck (instr : Instruction) : OnData Unit := do
  let g ← getEcGroup instr
  chargeCost instr.name (g.among 20 3100 1850 2340)
  let bs ← popBytes instr.name
  let point ← ofText (bytesToPoint prims g bs)
  push (.uint (truth (prims.inSubgroup g point)))

/-- Map a field element, or a pair of them for a second group, to a point. -/
def ecMapTo (g : EcGroup) (bs : Bytes) : Except String Bytes :=
  if g.coordinates = 2 then do
    let fp ← bytesToField g bs
    let point ← prims.ecMap g [fp]
    return pointToBytes g point
  else if bs.length ≠ 2 * g.fpSize then .error s!"bad encoded element length: {bs.length}"
  else do
    let fp₁ ← bytesToField g (bs.take g.fpSize)
    let fp₂ ← bytesToField g (bs.drop g.fpSize)
    let point ← prims.ecMap g [fp₁, fp₂]
    return pointToBytes g point

def opEcMapTo (instr : Instruction) : OnData Unit := do
  let g ← getEcGroup instr
  chargeCost instr.name (g.among 630 3300 1950 8150)
  let bs ← popBytes instr.name
  let result ← ofText (ecMapTo prims g bs)
  push (.bytes result)

end Curves

end Avm
end Algod
