import AlgodRust.Basics
import AlgodRust.Lib.Msgpack
/-!
# Opcode — the opcode table of the virtual machine

For each opcode byte its name, the version that introduced it, its cost, the programs it may occur in and how its
immediate arguments are encoded.  The byte `0xd4` is a prefix: the byte after it selects the opcode.
-/
namespace Algod
namespace Avm

open Msgpack (Bytes)

def maxAvmVersion : Nat := 13
def maxStringSize : Nat := 4096
def varintBranchVersion : Nat := 13
def foreignBoxVersion : Nat := 13

/-- The programs an opcode may occur in. -/
inductive Mode
  | logicSig
  | application
  | any
deriving DecidableEq, Repr

inductive CostKind
  | static (cost : Nat)
  | dynamic
deriving DecidableEq, Repr

inductive ImmKind
  | none
  | uint8
  | uint8Uint8
  | uint8Uint8Uint8
  | int16
  | varuint
  | varuintBytes
  | intcBlock
  | bytecBlock
  | pushInts
  | pushBytess
  | labels
  | branchVarint
deriving DecidableEq, Repr

structure OpSpec where
  opcode : UInt8
  name : String
  version : Nat
  cost : CostKind
  mode : Mode
  imm : ImmKind
  hasSubOps : Bool
deriving DecidableEq, Repr

def op (opcode : UInt8) (name : String) (version : Nat) (cost : CostKind) (mode : Mode) (imm : ImmKind) : OpSpec :=
  ⟨opcode, name, version, cost, mode, imm, false⟩

def opcodeTable : List OpSpec :=
  [ op 0x00 "err" 1 (.static 1) .any .none, op 0x01 "sha256" 1 (.static 35) .any .none,
    op 0x02 "keccak256" 1 (.static 130) .any .none, op 0x03 "sha512_256" 1 (.static 45) .any .none,
    op 0x04 "ed25519verify" 1 (.static 1900) .any .none, op 0x05 "ecdsa_verify" 5 .dynamic .any .uint8,
    op 0x06 "ecdsa_pk_decompress" 5 .dynamic .any .uint8, op 0x07 "ecdsa_pk_recover" 5 (.static 2000) .any .uint8,
    op 0x08 "+" 1 (.static 1) .any .none, op 0x09 "-" 1 (.static 1) .any .none, op 0x0a "/" 1 (.static 1) .any .none,
    op 0x0b "*" 1 (.static 1) .any .none, op 0x0c "<" 1 (.static 1) .any .none, op 0x0d ">" 1 (.static 1) .any .none,
    op 0x0e "<=" 1 (.static 1) .any .none, op 0x0f ">=" 1 (.static 1) .any .none,
    op 0x10 "&&" 1 (.static 1) .any .none, op 0x11 "||" 1 (.static 1) .any .none,
    op 0x12 "==" 1 (.static 1) .any .none, op 0x13 "!=" 1 (.static 1) .any .none,
    op 0x14 "!" 1 (.static 1) .any .none, op 0x15 "len" 1 (.static 1) .any .none,
    op 0x16 "itob" 1 (.static 1) .any .none, op 0x17 "btoi" 1 (.static 1) .any .none,
    op 0x18 "%" 1 (.static 1) .any .none, op 0x19 "|" 1 (.static 1) .any .none, op 0x1a "&" 1 (.static 1) .any .none,
    op 0x1b "^" 1 (.static 1) .any .none, op 0x1c "~" 1 (.static 1) .any .none,
    op 0x1d "mulw" 1 (.static 1) .any .none, op 0x1e "addw" 2 (.static 1) .any .none,
    op 0x1f "divmodw" 4 (.static 20) .any .none, op 0x20 "intcblock" 1 (.static 1) .any .intcBlock,
    op 0x21 "intc" 1 (.static 1) .any .uint8, op 0x22 "intc_0" 1 (.static 1) .any .none,
    op 0x23 "intc_1" 1 (.static 1) .any .none, op 0x24 "intc_2" 1 (.static 1) .any .none,
    op 0x25 "intc_3" 1 (.static 1) .any .none, op 0x26 "bytecblock" 1 (.static 1) .any .bytecBlock,
    op 0x27 "bytec" 1 (.static 1) .any .uint8, op 0x28 "bytec_0" 1 (.static 1) .any .none,
    op 0x29 "bytec_1" 1 (.static 1) .any .none, op 0x2a "bytec_2" 1 (.static 1) .any .none,
    op 0x2b "bytec_3" 1 (.static 1) .any .none, op 0x2c "arg" 1 (.static 1) .logicSig .uint8,
    op 0x2d "arg_0" 1 (.static 1) .logicSig .none, op 0x2e "arg_1" 1 (.static 1) .logicSig .none,
    op 0x2f "arg_2" 1 (.static 1) .logicSig .none, op 0x30 "arg_3" 1 (.static 1) .logicSig .none,
    op 0x31 "txn" 1 (.static 1) .any .uint8, op 0x32 "global" 1 (.static 1) .any .uint8,
    op 0x33 "gtxn" 1 (.static 1) .any .uint8Uint8, op 0x34 "load" 1 (.static 1) .any .uint8,
    op 0x35 "store" 1 (.static 1) .any .uint8, op 0x36 "txna" 2 (.static 1) .any .uint8Uint8,
    op 0x37 "gtxna" 2 (.static 1) .any .uint8Uint8Uint8, op 0x38 "gtxns" 3 (.static 1) .any .uint8,
    op 0x39 "gtxnsa" 3 (.static 1) .any .uint8Uint8, op 0x3a "gload" 4 (.static 1) .application .uint8Uint8,
    op 0x3b "gloads" 4 (.static 1) .application .uint8, op 0x3c "gaid" 4 (.static 1) .application .uint8,
    op 0x3d "gaids" 4 (.static 1) .application .none, op 0x3e "loads" 5 (.static 1) .any .none,
    op 0x3f "stores" 5 (.static 1) .any .none, op 0x40 "bnz" 1 (.static 1) .any .int16,
    op 0x41 "bz" 2 (.static 1) .any .int16, op 0x42 "b" 2 (.static 1) .any .int16,
    op 0x43 "return" 2 (.static 1) .any .none, op 0x44 "assert" 3 (.static 1) .any .none,
    op 0x45 "bury" 8 (.static 1) .any .uint8, op 0x46 "popn" 8 (.static 1) .any .uint8,
    op 0x47 "dupn" 8 (.static 1) .any .uint8, op 0x48 "pop" 1 (.static 1) .any .none,
    op 0x49 "dup" 1 (.static 1) .any .none, op 0x4a "dup2" 2 (.static 1) .any .none,
    op 0x4b "dig" 3 (.static 1) .any .uint8, op 0x4c "swap" 3 (.static 1) .any .none,
    op 0x4d "select" 3 (.static 1) .any .none, op 0x4e "cover" 5 (.static 1) .any .uint8,
    op 0x4f "uncover" 5 (.static 1) .any .uint8, op 0x50 "concat" 2 (.static 1) .any .none,
    op 0x51 "substring" 2 (.static 1) .any .uint8Uint8, op 0x52 "substring3" 2 (.static 1) .any .none,
    op 0x53 "getbit" 3 (.static 1) .any .none, op 0x54 "setbit" 3 (.static 1) .any .none,
    op 0x55 "getbyte" 3 (.static 1) .any .none, op 0x56 "setbyte" 3 (.static 1) .any .none,
    op 0x57 "extract" 5 (.static 1) .any .uint8Uint8, op 0x58 "extract3" 5 (.static 1) .any .none,
    op 0x59 "extract_uint16" 5 (.static 1) .any .none, op 0x5a "extract_uint32" 5 (.static 1) .any .none,
    op 0x5b "extract_uint64" 5 (.static 1) .any .none, op 0x5c "replace2" 7 (.static 1) .any .uint8,
    op 0x5d "replace3" 7 (.static 1) .any .none, op 0x5e "base64_decode" 7 .dynamic .any .uint8,
    op 0x5f "json_ref" 7 .dynamic .any .uint8, op 0x60 "balance" 2 (.static 1) .application .none,
    op 0x61 "app_opted_in" 2 (.static 1) .application .none,
    op 0x62 "app_local_get" 2 (.static 1) .application .none,
    op 0x63 "app_local_get_ex" 2 (.static 1) .application .none,
    op 0x64 "app_global_get" 2 (.static 1) .application .none,
    op 0x65 "app_global_get_ex" 2 (.static 1) .application .none,
    op 0x66 "app_local_put" 2 (.static 1) .application .none,
    op 0x67 "app_global_put" 2 (.static 1) .application .none,
    op 0x68 "app_local_del" 2 (.static 1) .application .none,
    op 0x69 "app_global_del" 2 (.static 1) .application .none,
    op 0x70 "asset_holding_get" 2 (.static 1) .application .uint8,
    op 0x71 "asset_params_get" 2 (.static 1) .application .uint8,
    op 0x72 "app_params_get" 5 (.static 1) .application .uint8,
    op 0x73 "acct_params_get" 6 (.static 1) .application .uint8,
    op 0x74 "voter_params_get" 11 (.static 1) .application .uint8,
    op 0x75 "online_stake" 11 (.static 1) .application .none,
    op 0x76 "app_params_set" foreignBoxVersion (.static 1) .application .uint8,
    op 0x78 "min_balance" 3 (.static 1) .application .none, op 0x80 "pushbytes" 3 (.static 1) .any .varuintBytes,
    op 0x81 "pushint" 3 (.static 1) .any .varuint, op 0x82 "pushbytess" 8 (.static 1) .any .pushBytess,
    op 0x83 "pushints" 8 (.static 1) .any .pushInts, op 0x84 "ed25519verify_bare" 7 (.static 1900) .any .none,
    op 0x85 "falcon_verify" 12 (.static 1700) .any .none, op 0x86 "sumhash512" 13 .dynamic .any .none,
    op 0x87 "sha512" 13 .dynamic .any .none, op 0x88 "callsub" 4 (.static 1) .any .int16,
    op 0x89 "retsub" 4 (.static 1) .any .none, op 0x8a "proto" 8 (.static 1) .any .uint8Uint8,
    op 0x8b "frame_dig" 8 (.static 1) .any .uint8, op 0x8c "frame_bury" 8 (.static 1) .any .uint8,
    op 0x8d "switch" 8 (.static 1) .any .labels, op 0x8e "match" 8 (.static 1) .any .labels,
    op 0x90 "shl" 4 (.static 1) .any .none, op 0x91 "shr" 4 (.static 1) .any .none,
    op 0x92 "sqrt" 4 (.static 4) .any .none, op 0x93 "bitlen" 4 (.static 1) .any .none,
    op 0x94 "exp" 4 (.static 1) .any .none, op 0x95 "expw" 4 (.static 10) .any .none,
    op 0x96 "bsqrt" 6 (.static 40) .any .none, op 0x97 "divw" 6 (.static 1) .any .none,
    op 0x98 "sha3_256" 7 (.static 130) .any .none, op 0xa0 "b+" 4 (.static 10) .any .none,
    op 0xa1 "b-" 4 (.static 10) .any .none, op 0xa2 "b/" 4 (.static 20) .any .none,
    op 0xa3 "b*" 4 (.static 20) .any .none, op 0xa4 "b<" 4 (.static 1) .any .none,
    op 0xa5 "b>" 4 (.static 1) .any .none, op 0xa6 "b<=" 4 (.static 1) .any .none,
    op 0xa7 "b>=" 4 (.static 1) .any .none, op 0xa8 "b==" 4 (.static 1) .any .none,
    op 0xa9 "b!=" 4 (.static 1) .any .none, op 0xaa "b%" 4 (.static 20) .any .none,
    op 0xab "b|" 4 (.static 6) .any .none, op 0xac "b&" 4 (.static 6) .any .none,
    op 0xad "b^" 4 (.static 6) .any .none, op 0xae "b~" 4 (.static 4) .any .none,
    op 0xaf "bzero" 4 (.static 1) .any .none, op 0xb0 "log" 5 (.static 1) .application .none,
    op 0xb1 "itxn_begin" 5 (.static 1) .application .none, op 0xb2 "itxn_field" 5 (.static 1) .application .uint8,
    op 0xb3 "itxn_submit" 5 (.static 1) .application .none, op 0xb4 "itxn" 5 (.static 1) .application .uint8,
    op 0xb5 "itxna" 5 (.static 1) .application .uint8Uint8, op 0xb6 "itxn_next" 6 (.static 1) .application .none,
    op 0xb7 "gitxn" 6 (.static 1) .application .uint8Uint8,
    op 0xb8 "gitxna" 6 (.static 1) .application .uint8Uint8Uint8,
    op 0xb9 "box_create" 8 (.static 1) .application .none, op 0xba "box_extract" 8 (.static 1) .application .none,
    op 0xbb "box_replace" 8 (.static 1) .application .none, op 0xbc "box_del" 8 (.static 1) .application .none,
    op 0xbd "box_len" 8 (.static 1) .application .none, op 0xbe "box_get" 8 (.static 1) .application .none,
    op 0xbf "box_put" 8 (.static 1) .application .none, op 0xc0 "txnas" 5 (.static 1) .any .uint8,
    op 0xc1 "gtxnas" 5 (.static 1) .any .uint8Uint8, op 0xc2 "gtxnsas" 5 (.static 1) .any .uint8,
    op 0xc3 "args" 5 (.static 1) .logicSig .none, op 0xc4 "gloadss" 6 (.static 1) .application .none,
    op 0xc5 "itxnas" 6 (.static 1) .application .uint8, op 0xc6 "gitxnas" 6 (.static 1) .application .uint8Uint8,
    op 0xd0 "vrf_verify" 7 (.static 5700) .any .uint8, op 0xd1 "block" 7 (.static 1) .any .uint8,
    op 0xd2 "box_splice" 10 (.static 1) .application .none, op 0xd3 "box_resize" 10 (.static 1) .application .none,
    op 0xe0 "ec_add" 10 .dynamic .any .uint8, op 0xe1 "ec_scalar_mul" 10 .dynamic .any .uint8,
    op 0xe2 "ec_pairing_check" 10 .dynamic .any .uint8, op 0xe3 "ec_multi_scalar_mul" 10 .dynamic .any .uint8,
    op 0xe4 "ec_subgroup_check" 10 .dynamic .any .uint8, op 0xe5 "ec_map_to" 10 .dynamic .any .uint8,
    op 0xe6 "mimc" 11 .dynamic .any .uint8, op 0xe7 "poseidon2" 13 .dynamic .any .uint8 ]
    ++ [⟨0xd4, "app_box", foreignBoxVersion, .static 1, .application, .none, true⟩]

/-- The opcodes behind the prefix `0xd4`, with their second byte. -/
def appBoxSubOps : List (UInt8 × OpSpec) :=
  [(0x01, "app_box_create"), (0x02, "app_box_extract"), (0x03, "app_box_replace"), (0x04, "app_box_del"),
    (0x05, "app_box_len"), (0x06, "app_box_get"), (0x07, "app_box_put"), (0x08, "app_box_splice"),
    (0x09, "app_box_resize")].map fun s => (s.1, op 0xd4 s.2 foreignBoxVersion (.static 1) .application .none)

def lookup (byte : UInt8) : Option OpSpec := opcodeTable.find? (fun s => s.opcode == byte)

def lookupSub (sub : UInt8) : Option OpSpec := (appBoxSubOps.find? (fun s => s.1 == sub)).map Prod.snd

/-- The three hash functions of version one were cheaper before version two. -/
def effectiveCost (spec : OpSpec) (version : Nat) : CostKind :=
  if version ≤ 1 then
    if spec.opcode = 0x01 then .static 7
    else if spec.opcode = 0x02 then .static 26
    else if spec.opcode = 0x03 then .static 9
    else spec.cost
  else spec.cost

/-- The entry of an instruction that has been parsed. -/
def resolveSpec (opcode : UInt8) (subOpcode : Option UInt8) : Option OpSpec := do
  let top ← lookup opcode
  match top.hasSubOps, subOpcode with
  | true, some sub => lookupSub sub
  | _, _ => some top

def opName (opcode : UInt8) (subOpcode : Option UInt8) : String := ((resolveSpec opcode subOpcode).map OpSpec.name).getD ""

inductive OpcodeFault
  | illegal (byte : UInt8)
  | missingSub (byte : UInt8)
  | improperSub (byte sub : UInt8)
deriving DecidableEq, Repr

/-- The entry of the opcode that starts with a byte, which the given bytes follow, and the number of its bytes. -/
def resolve (byte : UInt8) (rest : Bytes) : Except OpcodeFault (OpSpec × Nat) :=
  match lookup byte with
  | none => .error (.illegal byte)
  | some spec =>
    if spec.hasSubOps then
      match rest with
      | [] => .error (.missingSub byte)
      | sub :: _ =>
        match lookupSub sub with
        | some subSpec => .ok (subSpec, 2)
        | none => .error (.improperSub byte sub)
    else .ok (spec, 1)

def isVarintBranchOpcode (byte : UInt8) : Bool := byte == 0x40 || byte == 0x41 || byte == 0x42 || byte == 0x88

/-! ## Argument types -/

inductive ArgType
  | uint
  | bytes
  | any
deriving DecidableEq, Repr

/-- The arguments of the opcodes whose arguments are checked before they run, the deepest one first. -/
def argTypes (byte : UInt8) : Option (List ArgType) :=
  let b := byte.toNat
  if 0x01 ≤ b ∧ b ≤ 0x03 then some [.bytes]
  else if b = 0x04 then some [.bytes, .bytes, .bytes]
  else if 0x08 ≤ b ∧ b ≤ 0x11 then some [.uint, .uint]
  else if b = 0x14 then some [.uint]
  else if b = 0x15 then some [.bytes]
  else if b = 0x16 then some [.uint]
  else if b = 0x17 then some [.bytes]
  else if 0x18 ≤ b ∧ b ≤ 0x1b then some [.uint, .uint]
  else if b = 0x1c then some [.uint]
  else if b = 0x1d ∨ b = 0x1e then some [.uint, .uint]
  else if b = 0x1f then some [.uint, .uint, .uint, .uint]
  else if b = 0x40 ∨ b = 0x41 ∨ b = 0x43 ∨ b = 0x44 then some [.uint]
  else if b = 0x48 then some [.any]
  else if b = 0x50 then some [.bytes, .bytes]
  else if b = 0x51 then some [.bytes]
  else if b = 0x52 then some [.bytes, .uint, .uint]
  else if b = 0x55 then some [.bytes, .uint]
  else if b = 0x58 then some [.bytes, .uint, .uint]
  else if b = 0x90 ∨ b = 0x91 then some [.uint, .uint]
  else if b = 0x92 then some [.uint]
  else if b = 0x93 then some [.any]
  else if b = 0x94 ∨ b = 0x95 then some [.uint, .uint]
  else if b = 0x96 then some [.bytes]
  else if b = 0x97 then some [.uint, .uint, .uint]
  else if 0xa0 ≤ b ∧ b ≤ 0xaa then some [.bytes, .bytes]
  else if b = 0xaf then some [.uint]
  else none

end Avm
end Algod
