import AlgodRust.Avm.Opcode
import AlgodRust.Lib.Run
/-!
# Bytecode — parsing programs

`parse` reads the version and then one instruction after another to the end of the bytes.  A length that a program
declares may be any 64-bit number; where it is added to a position the sum wraps around, as it does in the release
build, and a slice whose end is before its start stops the program that parses (`Stop.panic`).
-/
namespace Algod
namespace Avm

open Msgpack (Bytes)

/-- Everything that stops a program from being parsed or executed, one constructor for each message. -/
inductive AvmError
  | programEmpty
  | invalidVersion
  | unsupportedVersion (version : Nat)
  | opcode (fault : OpcodeFault) (offset : Nat)
  | opcodeRequires (name : String) (byte : UInt8) (needed version : Nat)
  | varuintEnd (offset : Nat)
  | varuintOverflow (offset : Nat)
  | branchTargetMissing
  | branchVarintOverflow
  | tooManyConstants (name : String) (count remaining : Nat)
  | trailingEmptyConstant (name : String)
  | constantTooBig (name : String) (index length : Nat)
  | int16End (offset : Nat)
  | immediateEnd (immediate name : String)
  | programEnd (offset : Nat)
  | bytesEnd (name : String) (length offset remaining : Nat)
  | labelCountEnd (name : String)
  | labelsEnd (name : String)
  | versionAboveCeiling (version ceiling : Nat)
  | preSharedResourcesAccess
  | belowMinAvmVersion (min version : Nat)
  | staticCostExceeded (offset : Nat) (max : Int)
  | poolExhausted (cost remaining : Int)
  | alreadyFinished
  | stackUnderflow (name : String)
  | wrongArgument (name : String) (index : Nat) (wanted : ArgType) (got : ArgType)
  | wrongType (wanted got : ArgType)
  | stackOverflow
  | budgetExceeded (name : String) (cost : Nat)
  | notAllowedInMode (name : String) (mode : Mode)
  | noSuchBranchTarget (offset : Nat)
  | branchOutside (target : Int)
  | noSuchLabelTarget (offset : Nat)
  | callStackOverflow
  | emptyCallStack
  | errExecuted
  | assertFailed (bytePc : Nat)
  | belowFrame
  | noReturnValues (declared : Nat)
  | tooFewReturnValues (found declared : Nat)
  | protoWithoutCallsub
  | protoNoFrame
  | protoMissingArgs (wanted framePointer : Nat)
  | noCallFrame (name : String)
  | frameIndexOutOfRange (name : String) (index depth : Nat)
  | frameIndexOverflow (framePointer : Nat) (offset : Int)
  | wrongImmediate (name : String)
  | stackLength (length : Nat)
  | finishedWithBytes
  | other (message : String)
deriving DecidableEq, Repr

/-- An error that is returned, or a panic. -/
inductive Stop
  | error (e : AvmError)
  | panic
deriving DecidableEq, Repr

inductive Immediates
  | none
  | uint8 (a : UInt8)
  | uint8Pair (a b : UInt8)
  | uint8Triple (a b c : UInt8)
  | int16 (offset : Int)
  | varuint (n : Nat)
  | bytes (bs : Bytes)
  | intBlock (ns : List Nat)
  | byteBlock (bss : List Bytes)
  | pushInts (ns : List Nat)
  | pushBytess (bss : List Bytes)
  | labels (offsets : List Int)
  | branchVarint (offset : Int) (length : Nat)
deriving DecidableEq, Repr

structure Instruction where
  opcode : UInt8
  subOpcode : Option UInt8
  offset : Nat
  immediates : Immediates
deriving DecidableEq, Repr

structure Program where
  version : Nat
  instructions : List Instruction
deriving DecidableEq, Repr

/-! ## Numbers -/

inductive VarintFault
  | ends (offset : Nat)
  | overflows (offset : Nat)
deriving DecidableEq, Repr

/-- A number in groups of seven bits, the lowest group first, read from the bytes at an offset.  It returns the number
and the offset after it. -/
def readVarint : Bytes → Nat → Nat → Nat → Except VarintFault (Nat × Nat)
  | [], i, _, _ => .error (.ends i)
  | b :: bs, i, shift, result =>
    if 63 ≤ shift ∧ 1 < b then .error (.overflows i)
    else
      let result := result ||| ((b.toNat &&& 0x7f) <<< shift)
      if b &&& 0x80 = 0 then .ok (result, i + 1) else readVarint bs (i + 1) (shift + 7) result

/-- The number at a position and its length. -/
def readVaruint (data : Bytes) (pos : Nat) : Except AvmError (Nat × Nat) :=
  match readVarint (data.drop pos) pos 0 0 with
  | .ok (value, i) => .ok (value, i - pos)
  | .error (.ends i) => .error (.varuintEnd i)
  | .error (.overflows i) => .error (.varuintOverflow i)

/-- A signed number at a position, its sign in the lowest bit, and its length. -/
def readBranchVarint (data : Bytes) (pos : Nat) : Except AvmError (Int × Nat) :=
  match readVarint (data.drop pos) pos 0 0 with
  | .ok (result, i) =>
    let value : Int := result / 2
    .ok (if result % 2 = 1 then -value - 1 else value, i - pos)
  | .error (.ends _) => .error .branchTargetMissing
  | .error (.overflows _) => .error .branchVarintOverflow

def readInt16 (data : Bytes) (pos : Nat) : Except AvmError Int :=
  match data[pos]?, data[pos + 1]? with
  | some hi, some lo =>
    let n := hi.toNat * 256 + lo.toNat
    .ok (if n < 32768 then n else (n : Int) - 65536)
  | _, _ => .error (.int16End pos)

/-! ## Immediate arguments -/

/-- The names of the one-byte immediates, for the message that one is missing. -/
def uint8ImmediateNames (name : String) : List String :=
  if name ∈ ["ecdsa_verify", "ecdsa_pk_decompress", "ecdsa_pk_recover"] then ["v"]
  else if name ∈ ["intc", "bytec"] then ["i"]
  else if name = "arg" then ["n"]
  else if name ∈ ["txn", "global", "gtxns", "itxn", "itxn_field", "txnas", "gtxnsas", "itxnas", "block",
    "asset_holding_get", "asset_params_get", "app_params_get", "acct_params_get", "voter_params_get"] then ["f"]
  else if name ∈ ["load", "store", "gloads"] then ["i"]
  else if name = "gaid" then ["t"]
  else if name ∈ ["bury", "popn", "dupn", "dig", "cover", "uncover"] then ["n"]
  else if name = "replace2" then ["s"]
  else if name = "base64_decode" then ["e"]
  else if name = "json_ref" then ["r"]
  else if name ∈ ["frame_dig", "frame_bury"] then ["i"]
  else if name = "vrf_verify" then ["s"]
  else if name ∈ ["ec_add", "ec_scalar_mul", "ec_pairing_check", "ec_multi_scalar_mul", "ec_subgroup_check",
    "ec_map_to"] then ["g"]
  else if name ∈ ["mimc", "poseidon2"] then ["c"]
  else if name = "gtxn" then ["t", "f"]
  else if name ∈ ["txna", "gtxnsa", "itxna"] then ["f", "i"]
  else if name = "gload" then ["t", "i"]
  else if name = "proto" then ["a", "r"]
  else if name ∈ ["gitxn", "gtxnas", "gitxnas"] then ["t", "f"]
  else if name = "extract" then ["s", "l"]
  else if name = "substring" then ["s", "e"]
  else if name ∈ ["gtxna", "gitxna"] then ["t", "f", "i"]
  else []

def readImmediateByte (code : Bytes) (pos : Nat) (name : String) (index : Nat) : Except AvmError UInt8 :=
  match code[pos]? with
  | some b => .ok b
  | none =>
    match (uint8ImmediateNames name)[index]? with
    | some immediate => .error (.immediateEnd immediate name)
    | none => .error (.programEnd pos)

/-- An error of a function that cannot panic. -/
def liftError {α : Type} (x : Except AvmError α) : Except Stop α := x.mapError Stop.error

/-- The bytes of a declared length at a position.  The end of the slice is computed modulo the machine word. -/
def readSlice (code : Bytes) (start length : Nat) (name : String) : Except Stop Bytes :=
  let stop := (start + length) % u64Bound
  if stop > code.length then .error (.error (.bytesEnd name length start (code.length - start)))
  else if stop < start then .error .panic
  else .ok ((code.drop start).take (stop - start))

def checkConstListCount (code : Bytes) (pos headerLen count : Nat) (name : String) : Except AvmError Unit :=
  let remaining := code.length - (pos + headerLen)
  if count > remaining then .error (.tooManyConstants name count remaining) else .ok ()

/-- Before version 13 a list whose last constant is empty may not end the program. -/
def checkTrailingEmptyByteImm (version pos consumed : Nat) (code : Bytes) (entries : List Bytes) (name : String) :
    Except AvmError Unit :=
  if version ≥ 13 then .ok ()
  else if pos + consumed = code.length ∧ entries.getLast? = some [] then .error (.trailingEmptyConstant name)
  else .ok ()

def readInts (code : Bytes) (pos : Nat) : Nat → Nat → List Nat → Except AvmError (List Nat × Nat)
  | 0, consumed, values => .ok (values, consumed)
  | count + 1, consumed, values => do
    let r ← readVaruint code (pos + consumed)
    readInts code pos count (consumed + r.2) (values ++ [r.1])

def readByteStrings (code : Bytes) (pos : Nat) (name : String) :
    Nat → Nat → List Bytes → Except Stop (List Bytes × Nat)
  | 0, consumed, entries => .ok (entries, consumed)
  | count + 1, consumed, entries => do
    let r ← liftError (readVaruint code (pos + consumed))
    let consumed := consumed + r.2
    let entry ← readSlice code (pos + consumed) r.1 name
    readByteStrings code pos name count (consumed + r.1) (entries ++ [entry])

/-- A list of integer constants. -/
def readIntList (code : Bytes) (pos : Nat) (name : String) : Except Stop (List Nat × Nat) := do
  let r ← liftError (readVaruint code pos)
  liftError (checkConstListCount code pos r.2 r.1 name)
  liftError (readInts code pos r.1 r.2 [])

/-- A list of byte constants. -/
def readBytesList (code : Bytes) (pos : Nat) (name : String) (version : Nat) : Except Stop (List Bytes × Nat) := do
  let r ← liftError (readVaruint code pos)
  liftError (checkConstListCount code pos r.2 r.1 name)
  let entries ← readByteStrings code pos name r.1 r.2 []
  liftError (checkTrailingEmptyByteImm version pos entries.2 code entries.1 name)
  return entries

def readLabels (code : Bytes) (pos : Nat) (name : String) : Except AvmError (List Int × Nat) :=
  match code[pos]? with
  | none => .error (.labelCountEnd name)
  | some count =>
    if pos + 1 + 2 * count.toNat > code.length then .error (.labelsEnd name)
    else do
      let offsets ← (List.range count.toNat).mapM (fun i => readInt16 code (pos + 1 + i * 2))
      return (offsets, 1 + count.toNat * 2)

/-- The immediate arguments at a position, with the number of bytes they take. -/
def parseImmediates (code : Bytes) (pos : Nat) (kind : ImmKind) (name : String) (version : Nat) :
    Except Stop (Immediates × Nat) :=
  match kind with
  | .none => .ok (.none, 0)
  | .uint8 => do
    let a ← liftError (readImmediateByte code pos name 0)
    return (.uint8 a, 1)
  | .uint8Uint8 => do
    let a ← liftError (readImmediateByte code pos name 0)
    let b ← liftError (readImmediateByte code (pos + 1) name 1)
    return (.uint8Pair a b, 2)
  | .uint8Uint8Uint8 => do
    let a ← liftError (readImmediateByte code pos name 0)
    let b ← liftError (readImmediateByte code (pos + 1) name 1)
    let c ← liftError (readImmediateByte code (pos + 2) name 2)
    return (.uint8Triple a b c, 3)
  | .int16 => do
    let v ← liftError (readInt16 code pos)
    return (.int16 v, 2)
  | .varuint => do
    let r ← liftError (readVaruint code pos)
    return (.varuint r.1, r.2)
  | .varuintBytes => do
    let r ← liftError (readVaruint code pos)
    let bs ← readSlice code (pos + r.2) r.1 "pushbytes"
    return (.bytes bs, r.2 + r.1)
  | .intcBlock => do
    let r ← readIntList code pos "intcblock"
    return (.intBlock r.1, r.2)
  | .bytecBlock => do
    let r ← readBytesList code pos "bytecblock" version
    return (.byteBlock r.1, r.2)
  | .pushInts => do
    let r ← readIntList code pos "pushints"
    return (.pushInts r.1, r.2)
  | .pushBytess => do
    let r ← readBytesList code pos "pushbytess" version
    return (.pushBytess r.1, r.2)
  | .labels => do
    let r ← liftError (readLabels code pos name)
    return (.labels r.1, r.2)
  | .branchVarint => do
    let r ← liftError (readBranchVarint code pos)
    return (.branchVarint r.1 r.2, r.2)

/-! ## Programs -/

def parseVersionPrefix (raw : Bytes) : Except AvmError (Nat × Nat) :=
  if raw.isEmpty then .error .programEmpty
  else
    match readVaruint raw 0 with
    | .error _ => .error .invalidVersion
    | .ok (version, length) =>
      if version > maxAvmVersion then .error (.unsupportedVersion version) else .ok (version, length)

def peekVersion (raw : Bytes) : Option Nat := (parseVersionPrefix raw).toOption.map Prod.fst

/-- From version 13 on no constant of a list is longer than a byte string of the machine may be. -/
def checkConstantSizes (version : Nat) (name : String) (immediates : Immediates) : Except AvmError Unit :=
  if version ≥ 13 then
    match immediates with
    | .byteBlock entries | .pushBytess entries =>
      match entries.findIdx? (fun b => decide (b.length > maxStringSize)) with
      | none => .ok ()
      | some i => .error (.constantTooBig name i (entries.getD i []).length)
    | _ => .ok ()
  else .ok ()

/-- The instruction at a position, with the position after it. -/
def parseInstruction (version : Nat) (code : Bytes) (pc : Nat) (byte : UInt8) : Except Stop (Instruction × Nat) := do
  let (spec, headerLen) ← liftError ((resolve byte (code.drop (pc + 1))).mapError (fun fault => .opcode fault pc))
  let subOpcode := if headerLen > 1 then code[pc + 1]? else none
  if spec.version > max version 1 then .error (.error (.opcodeRequires spec.name byte spec.version version))
  else
    let kind := if version ≥ varintBranchVersion && isVarintBranchOpcode byte then .branchVarint else spec.imm
    let (immediates, consumed) ← parseImmediates code (pc + headerLen) kind spec.name version
    liftError (checkConstantSizes version spec.name immediates)
    return (⟨byte, subOpcode, pc, immediates⟩, pc + headerLen + consumed)

/-- The instructions from a position to the end of the code.  Each has at least one byte, so as many steps as there are
bytes are enough. -/
def parseInstructions (version : Nat) (code : Bytes) : Nat → Nat → List Instruction → Except Stop (List Instruction)
  | 0, _, instructions => .ok instructions
  | steps + 1, pc, instructions =>
    match code[pc]? with
    | none => .ok instructions
    | some byte => do
      let (instruction, next) ← parseInstruction version code pc byte
      parseInstructions version code steps next (instructions ++ [instruction])

/-- **Parse a program.** -/
def parse (raw : Bytes) : Except Stop Program := do
  let (version, length) ← liftError (parseVersionPrefix raw)
  let code := raw.drop length
  let instructions ← parseInstructions version code code.length 0 []
  return ⟨version, instructions⟩

/-! ## The errors of the parser -/

/-- Not an error of the checks an entry point makes: that a program may not be called with an access list. -/
def NotAccess (e : AvmError) : Prop := e ≠ .preSharedResourcesAccess

/-- A panic, or an error that is not one of an access list. -/
def StopNotAccess : Stop → Prop
  | .error e => NotAccess e
  | .panic => True

section Errors

variable {α : Type}

theorem liftError_raises {x : Except AvmError α} (hx : Run.Raises NotAccess x) : Run.Raises StopNotAccess (liftError x) :=
  Run.Raises.mapError hx

theorem readVaruint_raises (data : Bytes) (pos : Nat) : Run.Raises NotAccess (readVaruint data pos) := by
  unfold readVaruint
  split
  · exact .ok _
  · exact .error nofun
  · exact .error nofun

theorem readBranchVarint_raises (data : Bytes) (pos : Nat) : Run.Raises NotAccess (readBranchVarint data pos) := by
  unfold readBranchVarint
  split
  · exact .ok _
  · exact .error nofun
  · exact .error nofun

theorem readInt16_raises (data : Bytes) (pos : Nat) : Run.Raises NotAccess (readInt16 data pos) := by
  unfold readInt16
  split
  · exact .ok _
  · exact .error nofun

theorem readImmediateByte_raises (code : Bytes) (pos : Nat) (name : String) (index : Nat) :
    Run.Raises NotAccess (readImmediateByte code pos name index) := by
  unfold readImmediateByte
  split
  · exact .ok _
  · split
    · exact .error nofun
    · exact .error nofun

theorem readSlice_raises (code : Bytes) (start length : Nat) (name : String) :
    Run.Raises StopNotAccess (readSlice code start length name) := by
  unfold readSlice
  simp only
  split
  · apply Run.Raises.error
    show NotAccess _
    exact nofun
  · split
    · exact .error trivial
    · exact .ok _

theorem checkConstListCount_raises (code : Bytes) (pos headerLen count : Nat) (name : String) :
    Run.Raises NotAccess (checkConstListCount code pos headerLen count name) := by
  unfold checkConstListCount
  simp only
  split
  · exact .error nofun
  · exact .ok _

theorem checkTrailingEmptyByteImm_raises (version pos consumed : Nat) (code : Bytes) (entries : List Bytes)
    (name : String) : Run.Raises NotAccess (checkTrailingEmptyByteImm version pos consumed code entries name) := by
  unfold checkTrailingEmptyByteImm
  split
  · exact .ok _
  · split
    · exact .error nofun
    · exact .ok _

theorem readInts_raises (code : Bytes) (pos : Nat) :
    ∀ (count consumed : Nat) (values : List Nat), Run.Raises NotAccess (readInts code pos count consumed values)
  | 0, _, _ => .ok _
  | count + 1, _, _ => (readVaruint_raises code _).bind fun _ => readInts_raises code pos count _ _

theorem readByteStrings_raises (code : Bytes) (pos : Nat) (name : String) :
    ∀ (count consumed : Nat) (entries : List Bytes),
      Run.Raises StopNotAccess (readByteStrings code pos name count consumed entries)
  | 0, _, _ => .ok _
  | count + 1, _, _ =>
    (liftError_raises (readVaruint_raises code _)).bind fun _ =>
      (readSlice_raises code _ _ name).bind fun _ => readByteStrings_raises code pos name count _ _

theorem readIntList_raises (code : Bytes) (pos : Nat) (name : String) :
    Run.Raises StopNotAccess (readIntList code pos name) := by
  unfold readIntList
  apply (liftError_raises (readVaruint_raises code pos)).bind
  intro r
  apply (liftError_raises (checkConstListCount_raises code pos r.2 r.1 name)).bind
  intro _
  exact liftError_raises (readInts_raises code pos r.1 r.2 [])

theorem readBytesList_raises (code : Bytes) (pos : Nat) (name : String) (version : Nat) :
    Run.Raises StopNotAccess (readBytesList code pos name version) := by
  unfold readBytesList
  apply (liftError_raises (readVaruint_raises code pos)).bind
  intro r
  apply (liftError_raises (checkConstListCount_raises code pos r.2 r.1 name)).bind
  intro _
  apply (readByteStrings_raises code pos name r.1 r.2 []).bind
  intro entries
  apply (liftError_raises (checkTrailingEmptyByteImm_raises version pos entries.2 code entries.1 name)).bind
  intro _
  exact .ok _

theorem mapM_raises {β γ : Type} {P : AvmError → Prop} {f : β → Except AvmError γ} (hf : ∀ b, Run.Raises P (f b)) :
    ∀ bs : List β, Run.Raises P (bs.mapM f)
  | [] => by
    rw [List.mapM_nil]
    exact .ok _
  | b :: bs => by
    rw [List.mapM_cons]
    exact (hf b).bind fun _ => (mapM_raises hf bs).bind fun _ => .ok _

theorem readLabels_raises (code : Bytes) (pos : Nat) (name : String) :
    Run.Raises NotAccess (readLabels code pos name) := by
  unfold readLabels
  split
  · exact .error nofun
  · split
    · exact .error nofun
    · exact (mapM_raises (fun _ => readInt16_raises code _) _).bind fun _ => .ok _

theorem parseImmediates_raises (code : Bytes) (pos : Nat) (kind : ImmKind) (name : String) (version : Nat) :
    Run.Raises StopNotAccess (parseImmediates code pos kind name version) := by
  have hbyte : ∀ pos index, Run.Raises StopNotAccess (liftError (readImmediateByte code pos name index)) :=
    fun pos index => liftError_raises (readImmediateByte_raises code pos name index)
  cases kind with
  | none => exact .ok _
  | uint8 => exact (hbyte _ _).bind fun _ => .ok _
  | uint8Uint8 => exact (hbyte _ _).bind fun _ => (hbyte _ _).bind fun _ => .ok _
  | uint8Uint8Uint8 =>
    exact (hbyte _ _).bind fun _ => (hbyte _ _).bind fun _ => (hbyte _ _).bind fun _ => .ok _
  | int16 => exact (liftError_raises (readInt16_raises code pos)).bind fun _ => .ok _
  | varuint => exact (liftError_raises (readVaruint_raises code pos)).bind fun _ => .ok _
  | varuintBytes =>
    exact (liftError_raises (readVaruint_raises code pos)).bind fun _ =>
      (readSlice_raises code _ _ _).bind fun _ => .ok _
  | intcBlock => exact (readIntList_raises code pos _).bind fun _ => .ok _
  | bytecBlock => exact (readBytesList_raises code pos _ version).bind fun _ => .ok _
  | pushInts => exact (readIntList_raises code pos _).bind fun _ => .ok _
  | pushBytess => exact (readBytesList_raises code pos _ version).bind fun _ => .ok _
  | labels => exact (liftError_raises (readLabels_raises code pos name)).bind fun _ => .ok _
  | branchVarint => exact (liftError_raises (readBranchVarint_raises code pos)).bind fun _ => .ok _

theorem parseInstruction_raises (version : Nat) (code : Bytes) (pc : Nat) (byte : UInt8) :
    Run.Raises StopNotAccess (parseInstruction version code pc byte) := by
  have hsizes : ∀ name immediates, Run.Raises NotAccess (checkConstantSizes version name immediates) := by
    intro name immediates
    unfold checkConstantSizes
    split
    · split
      · split
        · exact .ok _
        · exact .error nofun
      · split
        · exact .ok _
        · exact .error nofun
      · exact .ok _
    · exact .ok _
  unfold parseInstruction
  apply Run.Raises.bind
  · apply liftError_raises
    apply Run.Raises.mapError
    exact fun _ _ => nofun
  · rintro ⟨spec, headerLen⟩
    simp only
    split
    · apply Run.Raises.error
      show NotAccess _
      exact nofun
    · apply (parseImmediates_raises code _ _ _ version).bind
      rintro ⟨immediates, consumed⟩
      exact (liftError_raises (hsizes _ _)).bind fun _ => .ok _

theorem parseInstructions_raises (version : Nat) (code : Bytes) :
    ∀ (steps pc : Nat) (instructions : List Instruction),
      Run.Raises StopNotAccess (parseInstructions version code steps pc instructions)
  | 0, _, _ => .ok _
  | steps + 1, pc, instructions => by
    unfold parseInstructions
    split
    · exact .ok _
    · exact (parseInstruction_raises version code pc _).bind fun _ => parseInstructions_raises version code steps _ _

/-- The parser fails with errors of its own. -/
theorem parse_ne_access (raw : Bytes) : parse raw ≠ .error (.error .preSharedResourcesAccess) := by
  have hversion : Run.Raises NotAccess (parseVersionPrefix raw) := by
    unfold parseVersionPrefix
    split
    · exact .error nofun
    · split
      · exact .error nofun
      · split
        · exact .error nofun
        · exact .ok _
  have hraises : Run.Raises StopNotAccess (parse raw) := by
    unfold parse
    apply (liftError_raises hversion).bind
    rintro ⟨version, length⟩
    exact (parseInstructions_raises version _ _ 0 []).bind fun _ => .ok _
  intro h
  exact hraises _ h rfl

end Errors

/-! ## The layout of a program -/

/-- The number of groups of seven bits of a number. -/
def varuintLen (v : Nat) : Nat := Nat.log2 v / 7 + 1

def immediateByteLen : Immediates → Nat
  | .none => 0
  | .uint8 _ => 1
  | .uint8Pair _ _ => 2
  | .uint8Triple _ _ _ => 3
  | .int16 _ => 2
  | .varuint v => varuintLen v
  | .bytes b => varuintLen b.length + b.length
  | .intBlock vals | .pushInts vals => varuintLen vals.length + (vals.map varuintLen).sum
  | .byteBlock entries | .pushBytess entries =>
    varuintLen entries.length + (entries.map (fun e => varuintLen e.length + e.length)).sum
  | .labels offsets => 1 + offsets.length * 2
  | .branchVarint _ len => len

/-- The instruction that starts at a byte offset.  Where several do, the last one is found. -/
def Program.offsetToIndex (p : Program) (offset : Nat) : Option Nat :=
  (List.range p.instructions.length).reverse.find? (fun i => (p.instructions[i]?).any (fun ins => ins.offset == offset))

/-- The byte offset just past the last instruction. -/
def Program.endOffset (p : Program) : Nat :=
  match p.instructions.getLast? with
  | none => 0
  | some last => last.offset + 1 + immediateByteLen last.immediates

/-- A branch back counts from the start of the instruction, a branch forward from its end. -/
def varintBranchTarget (instrOffset varintLen : Nat) (offset : Int) : Int :=
  (if offset < 0 then (instrOffset : Int) else (instrOffset : Int) + 1 + varintLen) + offset

end Avm
end Algod
