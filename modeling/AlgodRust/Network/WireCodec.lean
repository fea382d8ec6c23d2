import AlgodRust.Network.VoteEncoding
/-!
# WireCodec — votes and bundles on the wire

The encoders write maps whose keys are in order and leave out what is zero, except where a field is always there: the
six fields of a signature, and the credential, the proposals and the sender of an authenticator.  The decoders start
from the zero value and take the fields in whatever order they come, skipping those they do not know; byte arrays are
read as go-algorand's decoders read them.
-/
namespace Algod
namespace Network

open Msgpack (Bytes Header beBytes)
open Codec (utf8)
open Reading (Reader takeN times)
open Agreement (EquivocationVoteAuthenticator OneTimeSignature ProposalValue RawVote UnauthenticatedBundle
  UnauthenticatedCredential UnauthenticatedVote VoteAuthenticator)

/-! ## Encoding -/

/-- The length is cut to 32 bits. -/
def writeArrayLen (n : Nat) : Bytes := Header.bytes ⟨.array, n % 2 ^ 32⟩

def encodeVoteAuthenticator (auth : VoteAuthenticator) : Bytes :=
  writeMap (field "cred" true (encodeUnauthenticatedCredential auth.cred.proof) ++
    field "sig" (!otsIsZero auth.sig) (encodeOneTimeSignature auth.sig) ++
    field "snd" true (writeBin (arrayBytes auth.sender.bytes)))

def encodeEquivocationVoteAuthenticator (auth : EquivocationVoteAuthenticator) : Bytes :=
  writeMap (field "cred" true (encodeUnauthenticatedCredential auth.cred.proof) ++
    field "props" true (writeArrayLen 2 ++ (encodeProposalValue auth.proposals.1 ++ encodeProposalValue auth.proposals.2)) ++
    field "sig" (!(otsIsZero auth.sigs.1 && otsIsZero auth.sigs.2))
      (writeArrayLen 2 ++ (encodeOneTimeSignature auth.sigs.1 ++ encodeOneTimeSignature auth.sigs.2)) ++
    field "snd" true (writeBin (arrayBytes auth.sender.bytes)))

def encodeBundle (bundle : UnauthenticatedBundle) : Bytes :=
  writeMap (field "eqv" (!bundle.equivocationVotes.isEmpty)
      (writeArrayLen bundle.equivocationVotes.length ++
        bundle.equivocationVotes.flatMap encodeEquivocationVoteAuthenticator) ++
    field "per" (bundle.period != 0) (writeUint bundle.period) ++
    field "prop" (bundle.proposal != Agreement.bottom) (encodeProposalValue bundle.proposal) ++
    field "rnd" (bundle.round != 0) (writeUint bundle.round) ++
    field "step" (bundle.step != 0) (writeUint bundle.step) ++
    field "vote" (!bundle.votes.isEmpty)
      (writeArrayLen bundle.votes.length ++ bundle.votes.flatMap encodeVoteAuthenticator))

/-! ## Values -/

/-- The context of an error; the text of the reader below it is left out. -/
inductive CodecError
  | decode (context : String)
  | format (context : String)
deriving DecidableEq, Repr

abbrev Cursor (α : Type) := Reader UInt8 CodecError α

/-- A value as `rmpv` reads it.  A map lists its keys and values in turn, a float is its bits. -/
inductive RmpValue
  | nil
  | boolean (b : Bool)
  | integer (i : Int)
  | f32 (bits : Nat)
  | f64 (bits : Nat)
  | string (bs : Bytes)
  | binary (bs : Bytes)
  | array (vs : List RmpValue)
  | map (kvs : List RmpValue)
  | ext (type : Int) (bs : Bytes)

def nextByte (e : CodecError) : Cursor UInt8 := fun s =>
  match s with
  | [] => .error e
  | b :: s => .ok (b, s)

/-- A number of `k` bytes. -/
def readNumber (e : CodecError) (k : Nat) : Cursor Nat := do
  let bs ← takeN k e
  pure (beNat bs)

/-- The number that `k` bytes stand for in two's complement. -/
def signed (k n : Nat) : Int := if n < 2 ^ (8 * k - 1) then n else (n : Int) - 2 ^ (8 * k)

/-- A number of `k` bytes and as many bytes as it says. -/
def readSized (e : CodecError) (k : Nat) : Cursor Bytes := do
  let n ← readNumber e k
  takeN n e

def readExt (e : CodecError) (n : Nat) : Cursor RmpValue := do
  let type ← readNumber e 1
  let bs ← takeN n e
  pure (.ext (signed 1 type) bs)

/-- A list of values, read one after another. -/
def readList {α : Type} (r : Cursor α) (n : Nat) : Cursor (List α) :=
  times (fun vs => do
    let v ← r
    pure (vs ++ [v])) n []

/-- `rmpv::decode::read_value`, with the depth that is left. -/
def readValue (e : CodecError) : Nat → Cursor RmpValue
  | 0 => throw e
  | depth + 1 => do
    let marker ← nextByte e
    let m := marker.toNat
    if m ≤ 0x7f then pure (.integer m)
    else if m ≤ 0x8f then do
      let kvs ← readList (readValue e depth) (2 * (m - 0x80))
      pure (.map kvs)
    else if m ≤ 0x9f then do
      let vs ← readList (readValue e depth) (m - 0x90)
      pure (.array vs)
    else if m ≤ 0xbf then do
      let bs ← takeN (m - 0xa0) e
      pure (.string bs)
    else if m ≤ 0xc1 then pure .nil
    else if m ≤ 0xc3 then pure (.boolean (m == 0xc3))
    else if m ≤ 0xc6 then do
      let bs ← readSized e (2 ^ (m - 0xc4))
      pure (.binary bs)
    else if m ≤ 0xc9 then do
      let n ← readNumber e (2 ^ (m - 0xc7))
      readExt e n
    else if m = 0xca then do
      let bits ← readNumber e 4
      pure (.f32 bits)
    else if m = 0xcb then do
      let bits ← readNumber e 8
      pure (.f64 bits)
    else if m ≤ 0xcf then do
      let n ← readNumber e (2 ^ (m - 0xcc))
      pure (.integer n)
    else if m ≤ 0xd3 then do
      let n ← readNumber e (2 ^ (m - 0xd0))
      pure (.integer (signed (2 ^ (m - 0xd0)) n))
    else if m ≤ 0xd8 then readExt e (2 ^ (m - 0xd4))
    else if m ≤ 0xdb then do
      let bs ← readSized e (2 ^ (m - 0xd9))
      pure (.string bs)
    else if m ≤ 0xdd then do
      let n ← readNumber e (2 ^ (m - 0xdb))
      let vs ← readList (readValue e depth) n
      pure (.array vs)
    else if m ≤ 0xdf then do
      let n ← readNumber e (2 ^ (m - 0xdd))
      let kvs ← readList (readValue e depth) (2 * n)
      pure (.map kvs)
    else pure (.integer (signed 1 m))

/-- How deep `rmpv` lets values nest. -/
def maxDepth : Nat := 1024

def readMapLen (e : CodecError) : Cursor Nat := do
  let marker ← nextByte e
  let m := marker.toNat
  if 0x80 ≤ m ∧ m ≤ 0x8f then pure (m - 0x80)
  else if m = 0xde then readNumber e 2
  else if m = 0xdf then readNumber e 4
  else throw e

def readArrayLen (e : CodecError) : Cursor Nat := do
  let marker ← nextByte e
  let m := marker.toNat
  if 0x90 ≤ m ∧ m ≤ 0x9f then pure (m - 0x90)
  else if m = 0xdc then readNumber e 2
  else if m = 0xdd then readNumber e 4
  else throw e

/-! ## Fields -/

def readStrKey : Cursor String := do
  let val ← readValue (.decode "key") maxDepth
  match val with
  | .string bs =>
    match String.fromUTF8? ⟨bs.toArray⟩ with
    | some s => pure s
    | none => throw (.format "key is not valid UTF-8")
  | _ => throw (.format "expected string key")

def readUint64 : Cursor Nat := do
  let val ← readValue (.decode "uint") maxDepth
  match val with
  | .integer i => if 0 ≤ i then pure i.toNat else throw (.format "integer is not u64")
  | _ => throw (.format "expected uint")

/-- An integer of any form that is not negative; nil is zero. -/
def readU64 (e : CodecError) : Cursor Nat := do
  let marker ← nextByte e
  let m := marker.toNat
  if m ≤ 0x7f then pure m
  else if m = 0xc0 then pure 0
  else if 0xcc ≤ m ∧ m ≤ 0xcf then readNumber e (2 ^ (m - 0xcc))
  else if 0xd0 ≤ m ∧ m ≤ 0xd3 then do
    let n ← readNumber e (2 ^ (m - 0xd0))
    if 0 ≤ signed (2 ^ (m - 0xd0)) n then pure n else throw e
  else throw e

def readElement (e : CodecError) : Cursor UInt8 := do
  let n ← readU64 e
  if n ≤ 255 then pure (UInt8.ofNat n) else throw e

/-- The bytes written as an array, whose elements are numbers. -/
def readElements (e : CodecError) (n : Nat) : Cursor (Bytes × Bool) := fun s =>
  if s.length < n then .error e
  else (do
    let bs ← readList (readElement e) n
    pure (bs, true) : Cursor (Bytes × Bool)) s

/-- The bytes that follow the marker of a string, of bytes or of nil. -/
def readRaw (e : CodecError) (m : Nat) : Cursor Bytes :=
  if m = 0xc0 then pure []
  else if 0xa0 ≤ m ∧ m ≤ 0xbf then takeN (m - 0xa0) e
  else if m = 0xd9 ∨ m = 0xc4 then readSized e 1
  else if m = 0xda ∨ m = 0xc5 then readSized e 2
  else if m = 0xdb ∨ m = 0xc6 then readSized e 4
  else throw e

/-- Bytes in any of the forms go-algorand reads, and whether they were written as an array.  A map is an array of its
keys and values. -/
def readGoByteContainer (e : CodecError) : Cursor (Bytes × Bool) := fun s =>
  match s with
  | [] => .error e
  | marker :: rest =>
    let m := marker.toNat
    if (0x90 ≤ m ∧ m ≤ 0x9f) ∨ m = 0xdc ∨ m = 0xdd then (readArrayLen e >>= readElements e) s
    else if (0x80 ≤ m ∧ m ≤ 0x8f) ∨ m = 0xde ∨ m = 0xdf then
      (readMapLen e >>= fun n => readElements e (2 * n)) s
    else
      (do
        let bs ← readRaw e m
        pure (bs, false) : Cursor (Bytes × Bool)) rest

/-- An array of bytes from the front of some, the rest of it zero. -/
def fixedBytes (w : Nat) (bs : Bytes) : BitVec w :=
  BitVec.ofNat w (beNat (bs.take (w / 8) ++ List.replicate (w / 8 - bs.length) 0))

def readBinFixed (w : Nat) : Cursor (BitVec w) := do
  let g ← readGoByteContainer (.decode "bin")
  if g.2 ∧ w / 8 < g.1.length then throw (.decode "bin") else pure (fixedBytes w g.1)

def skipField {α : Type} (a : α) : Cursor α := do
  let _ ← readValue (.decode "skip field") maxDepth
  pure a

/-! ## Decoding -/

/-- One field of a map after another, from the value of a map without fields. -/
def decodeMap {α : Type} (context : String) (zero : α) (decodeField : String → α → Cursor α) : Cursor α := do
  let mapLen ← readMapLen (.decode context)
  times (fun a => do
    let key ← readStrKey
    decodeField key a) mapLen zero

def decodeProposalField (key : String) (pv : ProposalValue) : Cursor ProposalValue :=
  if key = "dig" then do
    let d ← readBinFixed 256
    pure { pv with blockDigest := ⟨d⟩ }
  else if key = "encdig" then do
    let d ← readBinFixed 256
    pure { pv with encodingDigest := ⟨d⟩ }
  else if key = "oper" then do
    let n ← readUint64
    pure { pv with originalPeriod := n }
  else if key = "oprop" then do
    let a ← readBinFixed 256
    pure { pv with originalProposer := ⟨a⟩ }
  else skipField pv

def decodeProposalValue : Cursor ProposalValue := decodeMap "proposal value map" Agreement.bottom decodeProposalField

def decodeRawField (key : String) (rv : RawVote) : Cursor RawVote :=
  if key = "per" then do
    let n ← readUint64
    pure { rv with period := n }
  else if key = "prop" then do
    let pv ← decodeProposalValue
    pure { rv with proposal := pv }
  else if key = "rnd" then do
    let n ← readUint64
    pure { rv with round := n }
  else if key = "snd" then do
    let a ← readBinFixed 256
    pure { rv with sender := ⟨a⟩ }
  else if key = "step" then do
    let n ← readUint64
    pure { rv with step := n }
  else skipField rv

def decodeRawVote : Cursor RawVote := decodeMap "raw vote map" ⟨⟨0⟩, 0, 0, 0, Agreement.bottom⟩ decodeRawField

def decodeCredentialField (key : String) (cred : UnauthenticatedCredential) : Cursor UnauthenticatedCredential :=
  if key = "pf" then do
    let proof ← readBinFixed 640
    pure { cred with proof := proof }
  else skipField cred

def decodeUnauthenticatedCredential : Cursor UnauthenticatedCredential :=
  decodeMap "credential map" ⟨0⟩ decodeCredentialField

def zeroSignature : OneTimeSignature := ⟨0, 0, 0, 0, 0, 0⟩

def decodeSignatureField (key : String) (sig : OneTimeSignature) : Cursor OneTimeSignature :=
  if key = "p" then do
    let x ← readBinFixed 256
    pure { sig with pk := x }
  else if key = "p1s" then do
    let x ← readBinFixed 512
    pure { sig with pk1Sig := x }
  else if key = "p2" then do
    let x ← readBinFixed 256
    pure { sig with pk2 := x }
  else if key = "p2s" then do
    let x ← readBinFixed 512
    pure { sig with pk2Sig := x }
  else if key = "ps" then do
    let x ← readBinFixed 512
    pure { sig with pkSigOld := x }
  else if key = "s" then do
    let x ← readBinFixed 512
    pure { sig with sig := x }
  else skipField sig

def decodeOneTimeSignature : Cursor OneTimeSignature := decodeMap "OTS map" zeroSignature decodeSignatureField

def decodeVoteField (key : String) (vote : UnauthenticatedVote) : Cursor UnauthenticatedVote :=
  if key = "cred" then do
    let cred ← decodeUnauthenticatedCredential
    pure { vote with cred := cred }
  else if key = "r" then do
    let rv ← decodeRawVote
    pure { vote with rawVote := rv }
  else if key = "sig" then do
    let sig ← decodeOneTimeSignature
    pure { vote with sig := sig }
  else skipField vote

def decodeVoteFromCursor : Cursor UnauthenticatedVote :=
  decodeMap "vote map" ⟨⟨⟨0⟩, 0, 0, 0, Agreement.bottom⟩, ⟨0⟩, zeroSignature⟩ decodeVoteField

/-- What follows the vote is not looked at. -/
def decodeVote (bytes : Bytes) : Except CodecError UnauthenticatedVote := (decodeVoteFromCursor bytes).map Prod.fst

def decodeAuthenticatorField (key : String) (auth : VoteAuthenticator) : Cursor VoteAuthenticator :=
  if key = "cred" then do
    let cred ← decodeUnauthenticatedCredential
    pure { auth with cred := cred }
  else if key = "sig" then do
    let sig ← decodeOneTimeSignature
    pure { auth with sig := sig }
  else if key = "snd" then do
    let a ← readBinFixed 256
    pure { auth with sender := ⟨a⟩ }
  else skipField auth

def decodeVoteAuthenticator : Cursor VoteAuthenticator :=
  decodeMap "vote auth map" ⟨⟨0⟩, ⟨0⟩, zeroSignature⟩ decodeAuthenticatorField

/-- An array of two. -/
def decodePair {α : Type} (context expected : String) (r : Cursor α) : Cursor (α × α) := do
  let arrLen ← readArrayLen (.decode context)
  if arrLen ≠ 2 then throw (.format expected)
  else do
    let first ← r
    let second ← r
    pure (first, second)

def decodePairField (key : String) (auth : EquivocationVoteAuthenticator) : Cursor EquivocationVoteAuthenticator :=
  if key = "cred" then do
    let cred ← decodeUnauthenticatedCredential
    pure { auth with cred := cred }
  else if key = "props" then do
    let ps ← decodePair "props array" "expected 2 proposals" decodeProposalValue
    pure { auth with proposals := ps }
  else if key = "sig" then do
    let sigs ← decodePair "sig array" "expected 2 signatures" decodeOneTimeSignature
    pure { auth with sigs := sigs }
  else if key = "snd" then do
    let a ← readBinFixed 256
    pure { auth with sender := ⟨a⟩ }
  else skipField auth

def decodeEquivocationVoteAuthenticator : Cursor EquivocationVoteAuthenticator :=
  decodeMap "equivocation auth map" ⟨⟨0⟩, ⟨0⟩, (zeroSignature, zeroSignature), (Agreement.bottom, Agreement.bottom)⟩
    decodePairField

def maxBundleArrayLen : Nat := 10000

/-- The votes of a bundle. -/
def decodeVotes {α : Type} (context tooLong : String) (r : Cursor α) : Cursor (List α) := do
  let arrLen ← readArrayLen (.decode context)
  if maxBundleArrayLen < arrLen then throw (.format tooLong) else readList r arrLen

def decodeBundleField (key : String) (bundle : UnauthenticatedBundle) : Cursor UnauthenticatedBundle :=
  if key = "eqv" then do
    let evs ← decodeVotes "eqv array" "eqv array length exceeds maximum" decodeEquivocationVoteAuthenticator
    pure { bundle with equivocationVotes := evs }
  else if key = "per" then do
    let n ← readUint64
    pure { bundle with period := n }
  else if key = "prop" then do
    let pv ← decodeProposalValue
    pure { bundle with proposal := pv }
  else if key = "rnd" then do
    let n ← readUint64
    pure { bundle with round := n }
  else if key = "step" then do
    let n ← readUint64
    pure { bundle with step := n }
  else if key = "vote" then do
    let vs ← decodeVotes "vote array" "vote array length exceeds maximum" decodeVoteAuthenticator
    pure { bundle with votes := vs }
  else skipField bundle

def decodeBundle (bytes : Bytes) : Except CodecError UnauthenticatedBundle :=
  (decodeMap "bundle map" ⟨0, 0, 0, Agreement.bottom, [], []⟩ decodeBundleField bytes).map Prod.fst

end Network
end Algod
