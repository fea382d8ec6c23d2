import AlgodRust.Agreement.Types
import AlgodRust.Codec.Canonical
import AlgodRust.Lib.Reader
/-!
# VoteEncoding — votes as MessagePack

A vote is a map of its credential, its body and its signature.  A field with the value that stands for none is left out,
and a signature is written with all of its fields.
-/
namespace Algod
namespace Network

open Msgpack (Bytes Header beBytes length_beBytes)
open Codec (utf8)
open Agreement (OneTimeSignature ProposalValue RawVote UnauthenticatedVote)

/-! ## The encoding of a vote -/

/-- The bytes of an array, the first one first. -/
def arrayBytes {w : Nat} (x : BitVec w) : Bytes := beBytes (w / 8) x.toNat

def writeStrKey (key : String) : Bytes := Header.bytes ⟨.str, (utf8 key).length⟩ ++ utf8 key
def writeBin (bs : Bytes) : Bytes := Header.bytes ⟨.bin, bs.length⟩ ++ bs
def writeUint (n : Nat) : Bytes := Header.bytes ⟨.uint, n⟩
def writeMapLen (n : Nat) : Bytes := Header.bytes ⟨.map, n⟩

/-- A field of a map that is left out where it is empty. -/
def field (key : String) (present : Bool) (value : Bytes) : List (Bytes × Bytes) :=
  if present then [(writeStrKey key, value)] else []

/-- A map of the fields that are there. -/
def writeMap (fields : List (Bytes × Bytes)) : Bytes :=
  writeMapLen fields.length ++ fields.flatMap (fun f => f.1 ++ f.2)

def encodeProposalValue (pv : ProposalValue) : Bytes :=
  writeMap (field "dig" (pv.blockDigest.bytes != 0) (writeBin (arrayBytes pv.blockDigest.bytes)) ++
    field "encdig" (pv.encodingDigest.bytes != 0) (writeBin (arrayBytes pv.encodingDigest.bytes)) ++
    field "oper" (pv.originalPeriod != 0) (writeUint pv.originalPeriod) ++
    field "oprop" (pv.originalProposer.bytes != 0) (writeBin (arrayBytes pv.originalProposer.bytes)))

def encodeRawVote (rv : RawVote) : Bytes :=
  writeMap (field "per" (rv.period != 0) (writeUint rv.period) ++
    field "prop" (rv.proposal != Agreement.bottom) (encodeProposalValue rv.proposal) ++
    field "rnd" (rv.round != 0) (writeUint rv.round) ++
    field "snd" (rv.sender.bytes != 0) (writeBin (arrayBytes rv.sender.bytes)) ++
    field "step" (rv.step != 0) (writeUint rv.step))

def encodeUnauthenticatedCredential (proof : BitVec 640) : Bytes :=
  if proof == 0 then [0x80] else 0x81 :: (writeStrKey "pf" ++ writeBin (arrayBytes proof))

def otsIsZero (sig : OneTimeSignature) : Bool :=
  sig.sig == 0 && sig.pk == 0 && sig.pkSigOld == 0 && sig.pk2 == 0 && sig.pk1Sig == 0 && sig.pk2Sig == 0

/-- A signature is written with all of its fields. -/
def encodeOneTimeSignature (sig : OneTimeSignature) : Bytes :=
  0x86 :: (writeStrKey "p" ++ writeBin (arrayBytes sig.pk) ++ (writeStrKey "p1s" ++ writeBin (arrayBytes sig.pk1Sig)) ++
    (writeStrKey "p2" ++ writeBin (arrayBytes sig.pk2)) ++ (writeStrKey "p2s" ++ writeBin (arrayBytes sig.pk2Sig)) ++
    (writeStrKey "ps" ++ writeBin (arrayBytes sig.pkSigOld)) ++ (writeStrKey "s" ++ writeBin (arrayBytes sig.sig)))

def encodeVote (vote : UnauthenticatedVote) : Bytes :=
  let r := encodeRawVote vote.rawVote
  let cred := encodeUnauthenticatedCredential vote.cred.proof
  writeMap (field "cred" (cred != [0x80]) cred ++ field "r" (r != [0x80]) r ++
    field "sig" (!otsIsZero vote.sig) (encodeOneTimeSignature vote.sig))

/-! ## Headers -/

theorem length_arrayBytes {w : Nat} (x : BitVec w) : (arrayBytes x).length = w / 8 := length_beBytes _ _

theorem writeMapLen_eq {n : Nat} (h : n < 16) : writeMapLen n = [UInt8.ofNat (0x80 + n)] := by
  unfold writeMapLen Header.bytes Header.form
  simp only [h, if_true]
  rfl

theorem writeStrKey_eq {key : String} (h : (utf8 key).length < 32) :
    writeStrKey key = UInt8.ofNat (0xa0 + (utf8 key).length) :: utf8 key := by
  unfold writeStrKey Header.bytes Header.form
  simp only [h, if_true]
  rfl

theorem writeBin_eq {bs : Bytes} (h : bs.length ≤ 0xff) : writeBin bs = 0xc4 :: UInt8.ofNat bs.length :: bs := by
  unfold writeBin Header.bytes Header.form
  simp only [h, if_true]
  have hbyte : beBytes 1 bs.length = [UInt8.ofNat bs.length] := by
    simp only [beBytes, List.nil_append]
    rw [Nat.mod_eq_of_lt (by omega)]
  rw [hbyte]
  rfl

theorem writeUint_eq (n : Nat) : writeUint n =
    UInt8.ofNat (Header.form ⟨.uint, n⟩).1 :: beBytes (Header.form ⟨.uint, n⟩).2 n := rfl

/-! ## Maps -/

/-- A part that is there or not. -/
def opt (present : Bool) (bytes : Bytes) : Bytes := if present then bytes else []

/-- The fields of a map one after the other. -/
def fieldsBytes (fields : List (Bytes × Bytes)) : Bytes := fields.flatMap (fun f => f.1 ++ f.2)

theorem fieldsBytes_append (fs gs : List (Bytes × Bytes)) : fieldsBytes (fs ++ gs) = fieldsBytes fs ++ fieldsBytes gs :=
  List.flatMap_append

theorem fieldsBytes_field (key : String) (b : Bool) (value : Bytes) :
    fieldsBytes (field key b value) = opt b (writeStrKey key ++ value) := by
  cases b with
  | true => simp [fieldsBytes, field, opt]
  | false => rfl

/-! ## Numbers -/

/-- The number of some bytes, the highest one first. -/
def beNat (bs : Bytes) : Nat := bs.foldl (fun n b => 256 * n + b.toNat) 0

theorem beNat_append (bs : Bytes) (b : UInt8) : beNat (bs ++ [b]) = 256 * beNat bs + b.toNat := by
  unfold beNat
  rw [List.foldl_append]
  rfl

theorem beNat_beBytes : ∀ {k n : Nat}, n < 256 ^ k → beNat (beBytes k n) = n
  | 0, n, h => by
    rw [Nat.pow_zero] at h
    have hzero : n = 0 := by omega
    rw [hzero]
    rfl
  | k + 1, n, h => by
    have hhigh : n / 256 < 256 ^ k := Nat.div_lt_of_lt_mul (by rw [Nat.pow_succ'] at h; exact h)
    have hlow : (UInt8.ofNat (n % 256)).toNat = n % 256 := UInt8.toNat_ofNat_of_lt' (Nat.mod_lt _ (by decide))
    rw [beBytes, beNat_append, beNat_beBytes hhigh, hlow]
    omega

theorem beBytes_zero : ∀ k : Nat, beBytes k 0 = List.replicate k 0
  | 0 => rfl
  | k + 1 => by
    rw [beBytes, Nat.zero_div, beBytes_zero k, List.replicate_succ']
    rfl

theorem beBytes_eq_zero {k : Nat} {x : BitVec (8 * k)} : beBytes k x.toNat = List.replicate k 0 ↔ x = 0 := by
  rw [← beBytes_zero]
  constructor
  · intro h
    have hlt : x.toNat < 256 ^ k := by
      have hpow : (256 : Nat) ^ k = 2 ^ (8 * k) := by rw [Nat.pow_mul]
      rw [hpow]
      exact x.isLt
    have hzero : x.toNat = 0 := Msgpack.beBytes_inj hlt (Nat.pow_pos (by decide)) h
    exact BitVec.eq_of_toNat_eq (by rw [hzero]; simp)
  · rintro rfl
    simp

end Network
end Algod
