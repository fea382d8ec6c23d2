import AlgodRust.Avm.StateOps
/-!
# Dispatch — the opcodes by their bytes

The opcodes that are not flow control are of three kinds: those that work on the machine at a cost known in advance
(`plainOps`), those that work on the machine and charge what they cost themselves (`costlyOps`), and those that fetch
values from the constants of the program or from the context, which are then pushed (`fetchOps`).
-/
namespace Algod
namespace Avm

variable {σ : Type} (prims : Primitives) (ctx : Context σ) (mode : ExecMode) (version : Nat) (instr : Instruction)

def plainOps : List (Nat × OnData Unit) :=
  [ (0x01, opSha256 prims instr), (0x02, opKeccak256 prims instr), (0x03, opSha512t256 prims instr),
    (0x07, opEcdsaPkRecover prims instr), (0x84, opEd25519verifyBare prims instr), (0x85, opFalconVerify prims instr),
    (0x98, opSha3t256 prims instr), (0xd0, opVrfVerify prims instr),
    -- constants
    (0x20, opIntcblock instr), (0x26, opBytecblock instr),
    -- arithmetic
    (0x08, opAdd instr), (0x09, opSub instr), (0x0a, opDiv instr), (0x0b, opMul instr), (0x0c, opLt instr),
    (0x0d, opGt instr), (0x0e, opLe instr), (0x0f, opGe instr), (0x12, opEq instr), (0x13, opNeq instr),
    (0x14, opNot instr), (0x18, opModulo instr), (0x1d, opMulw instr), (0x1e, opAddw instr), (0x1f, opDivmodw instr),
    (0x90, opShl instr), (0x91, opShr instr), (0x92, opSqrt instr), (0x93, opBitlen instr), (0x94, opExp instr),
    (0x95, opExpw instr), (0x97, opDivw instr),
    -- logic and bits
    (0x10, opAnd instr), (0x11, opOr instr), (0x19, opBitwiseOr instr), (0x1a, opBitwiseAnd instr),
    (0x1b, opBitwiseXor instr), (0x1c, opBitwiseNot instr), (0x53, opGetbit instr), (0x54, opSetbit instr),
    (0x55, opGetbyte instr), (0x56, opSetbyte instr),
    -- the stack and the scratch space
    (0x34, opLoad instr), (0x35, opStore instr), (0x3e, opLoads instr), (0x3f, opStores instr), (0x45, opBury instr),
    (0x46, opPopn instr), (0x47, opDupn instr), (0x48, opPop instr), (0x49, opDup instr), (0x4a, opDup2 instr),
    (0x4b, opDig instr), (0x4c, opSwap), (0x4d, opSelect instr), (0x4e, opCover instr), (0x4f, opUncover instr),
    -- byte strings
    (0x15, opLen instr), (0x16, opItob instr), (0x17, opBtoi instr), (0x50, opConcat instr), (0x51, opSubstring instr),
    (0x52, opSubstring3 instr), (0x57, opExtract instr), (0x58, opExtract3 instr), (0x59, opExtractUint16 instr),
    (0x5a, opExtractUint32 instr), (0x5b, opExtractUint64 instr), (0x5c, opReplace2 instr), (0x5d, opReplace3 instr),
    (0xaf, opBzero instr),
    -- byte arithmetic
    (0x96, opBsqrt instr), (0xa0, opBadd instr), (0xa1, opBsub instr), (0xa2, opBdiv instr), (0xa3, opBmul instr),
    (0xa4, opBlt instr), (0xa5, opBgt instr), (0xa6, opBle instr), (0xa7, opBge instr), (0xa8, opBeq instr),
    (0xa9, opBne instr), (0xaa, opBmod instr), (0xab, opBbitwiseOr instr), (0xac, opBbitwiseAnd instr),
    (0xad, opBbitwiseXor instr), (0xae, opBbitwiseNot instr) ]

def costlyOps : List (Nat × OnData Unit) :=
  [ (0x05, opEcdsaVerify prims version instr), (0x06, opEcdsaPkDecompress prims version instr),
    (0x5e, opBase64Decode prims instr), (0x5f, opJsonRef prims instr), (0x86, opSumhash512 prims instr),
    (0x87, opSha512 prims instr), (0xe0, opEcAdd prims instr), (0xe1, opEcScalarMul prims instr),
    (0xe2, opEcPairingCheck prims instr), (0xe3, opEcMultiScalarMul prims instr), (0xe4, opEcSubgroupCheck prims instr),
    (0xe5, opEcMapTo prims instr), (0xe6, opMimc prims instr), (0xe7, opPoseidon2 prims instr) ]

/-- The opcodes on boxes of other applications, by their second byte. -/
def opAppBox : Op σ (List AvmValue) :=
  match instr.subOpcode.map UInt8.toNat with
  | some 0x01 => opAppBoxCreate ctx instr
  | some 0x02 => opAppBoxExtract ctx instr
  | some 0x03 => opAppBoxReplace ctx instr
  | some 0x04 => opAppBoxDel ctx instr
  | some 0x05 => opAppBoxLen ctx instr
  | some 0x06 => opAppBoxGet ctx instr
  | some 0x07 => opAppBoxPut ctx instr
  | some 0x08 => opAppBoxSplice ctx instr
  | some 0x09 => opAppBoxResize ctx instr
  | some sub => throw (.other s!"app_box_* opcode with invalid sub-opcode Some({sub})")
  | none => throw (.other "app_box_* opcode with invalid sub-opcode None")

/-- Check a signature over the program, whose hash the context knows. -/
def opEd25519verifyProgram : Op σ (List AvmValue) := do
  let hash ← asks fun s => .ok (ctx.programHash s)
  onStack (opEd25519verify prims hash instr)

/-- The opcodes that read the constants of the program, or the context of a run. -/
def readOps : List (Nat × Op σ (List AvmValue)) :=
  [ (0x04, opEd25519verifyProgram prims ctx instr), (0x21, onStack (opIntc instr)), (0x22, onStack (opIntcN instr)),
    (0x23, onStack (opIntcN instr)), (0x24, onStack (opIntcN instr)), (0x25, onStack (opIntcN instr)),
    (0x27, onStack (opBytec instr)), (0x28, onStack (opBytecN instr)), (0x29, onStack (opBytecN instr)),
    (0x2a, onStack (opBytecN instr)), (0x2b, onStack (opBytecN instr)), (0x80, onStack (opPushbytes instr)),
    (0x81, onStack (opPushint instr)), (0x82, onStack (opPushbytess instr)), (0x83, onStack (opPushints instr)),
    (0x2c, opArg ctx instr), (0x2d, opArgN ctx instr), (0x2e, opArgN ctx instr), (0x2f, opArgN ctx instr),
    (0x30, opArgN ctx instr), (0x31, opTxn ctx version instr), (0x32, opGlobal ctx version instr mode),
    (0x33, opGtxn ctx version instr), (0x36, opTxna ctx version instr), (0x37, opGtxna ctx version instr),
    (0x38, opGtxns ctx version instr), (0x39, opGtxnsa ctx version instr), (0xc0, opTxnas ctx version instr),
    (0xc1, opGtxnas ctx version instr), (0xc2, opGtxnsas ctx version instr), (0xc3, opArgs ctx instr),
    (0xd1, opBlock ctx version instr) ]

/-- The opcodes of applications. -/
def appOps : List (Nat × Op σ (List AvmValue)) :=
  [ (0x3a, opGload ctx instr), (0x3b, opGloads ctx instr), (0x3c, opGaid ctx instr), (0x3d, opGaids ctx instr),
    (0xc4, opGloadss ctx instr), (0x60, opBalance ctx instr), (0x61, opAppOptedIn ctx version instr),
    (0x62, opAppLocalGet ctx version instr), (0x63, opAppLocalGetEx ctx version instr), (0x64, opAppGlobalGet ctx instr),
    (0x65, opAppGlobalGetEx ctx instr), (0x66, opAppLocalPut ctx version instr), (0x67, opAppGlobalPut ctx instr),
    (0x68, opAppLocalDel ctx version instr), (0x69, opAppGlobalDel ctx instr),
    (0x70, opAssetHoldingGet ctx version instr), (0x71, opAssetParamsGet ctx version instr),
    (0x72, opAppParamsGet ctx version instr), (0x73, opAcctParamsGet ctx version instr),
    (0x74, opVoterParamsGet ctx instr), (0x75, opOnlineStake ctx), (0x76, opAppParamsSet ctx version instr),
    (0x78, opMinBalance ctx instr), (0xb0, opLog ctx instr), (0xb1, opItxnBegin ctx),
    (0xb2, opItxnField ctx version instr), (0xb3, opItxnSubmit ctx), (0xb4, opItxn ctx instr), (0xb5, opItxna ctx instr),
    (0xb6, opItxnNext ctx), (0xb7, opGitxn ctx instr), (0xb8, opGitxna ctx instr), (0xb9, opBoxCreate ctx instr),
    (0xba, opBoxExtract ctx instr), (0xbb, opBoxReplace ctx instr), (0xbc, opBoxDel ctx instr),
    (0xbd, opBoxLen ctx instr), (0xbe, opBoxGet ctx instr), (0xbf, opBoxPut ctx instr), (0xc5, opItxnas ctx instr),
    (0xc6, opGitxnas ctx instr), (0xd2, opBoxSplice ctx instr), (0xd3, opBoxResize ctx instr), (0xd4, opAppBox ctx instr) ]

/-- What an opcode does: it works on the machine, or it fetches values that are then pushed. -/
inductive Handler (σ : Type)
  | compute (x : OnData Unit)
  | fetch (x : Op σ (List AvmValue))

def Handler.run : Handler σ → Op σ Unit
  | .compute x => onStack x
  | .fetch x => do
    let values ← x
    onStack (pushAll values)

/-- The two digits of a byte. -/
def hexByte (b : UInt8) : String := String.ofList [(b.toNat / 16).digitChar, (b.toNat % 16).digitChar]

def notImplemented : AvmError :=
  let name := if instr.name = "" then "unknown" else instr.name
  .other s!"opcode {name} (0x{hexByte instr.opcode}) not yet implemented"

/-- The function of an opcode. -/
def handlerOf : Handler σ :=
  match (plainOps prims instr ++ costlyOps prims version instr).lookup instr.opcode.toNat with
  | some x => .compute x
  | none =>
    match (readOps prims ctx mode version instr ++ appOps ctx version instr).lookup instr.opcode.toNat with
    | some x => .fetch x
    | none => .compute (throw (notImplemented instr))

/-- **The opcodes that are not flow control.** -/
def operations : Handlers σ where
  handle mode version instr := (handlerOf prims ctx mode version instr).run

end Avm
end Algod
