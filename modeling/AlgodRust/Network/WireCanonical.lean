import AlgodRust.Network.WireRoundTrip
/-!
# WireCanonical — what the encoders write is canonical

An encoding is canonical if it is that of a value whose maps have their keys in strictly increasing order and hold no
field that is left out where it is zero (`CanonicalMap`).  The rules of a record list its fields in order, with the zero
of each that may be left out.
-/
namespace Algod
namespace Network

open Msgpack (Bytes Header Value beBytes length_beBytes)
open Msgpack.Value (encode encodeAll valid allValid)
open Codec (utf8)
open Reading
open Agreement (EquivocationVoteAuthenticator OneTimeSignature ProposalValue RawVote UnauthenticatedBundle
  UnauthenticatedCredential UnauthenticatedVote VoteAuthenticator)

/-! ## Canonical values -/

/-- A field of a record: its key, whether a value is the zero that is left out, and what a value of it is. -/
structure FieldRule where
  key : String
  omitted : Value → Bool
  value : Value → Prop

/-- A value of a record with the fields of `rules`, all of which are there or left out as they have to be. -/
def CanonicalMap (rules : List FieldRule) (v : Value) : Prop :=
  ∃ entries : List (Bytes × Value),
    v = .map (entries.flatMap (fun e => [.str e.1, e.2])) ∧
    (entries.map (·.1)).Pairwise (· < ·) ∧
    ∀ e ∈ entries, ∃ rule ∈ rules, e.1 = utf8 rule.key ∧ rule.value e.2 ∧ rule.omitted e.2 = false

def IsUint : Value → Prop
  | .uint _ => True
  | _ => False

def IsBin (n : Nat) : Value → Prop
  | .bin bs => bs.length = n
  | _ => False

/-- An array whose elements all are something. -/
def IsArray (P : Value → Prop) : Value → Prop
  | .array vs => ∀ v ∈ vs, P v
  | _ => False

/-- A field that is always there. -/
def never (_ : Value) : Bool := false

def isZeroUint (v : Value) : Bool := v == .uint 0

def isZeroBin : Value → Bool
  | .bin bs => bs.all (· == 0)
  | _ => false

def isEmptyMap (v : Value) : Bool := v == .map []

def isEmptyArray (v : Value) : Bool := v == .array []

/-- A map all of whose bytes are zero. -/
def isZeroMap : Value → Bool
  | .map kvs => kvs.all (fun v => match v with | .bin bs => bs.all (· == 0) | _ => true)
  | _ => false

def isZeroPair : Value → Bool
  | .array vs => vs.all isZeroMap
  | _ => false

def proposalRules : List FieldRule :=
  [⟨"dig", isZeroBin, IsBin 32⟩, ⟨"encdig", isZeroBin, IsBin 32⟩, ⟨"oper", isZeroUint, IsUint⟩,
    ⟨"oprop", isZeroBin, IsBin 32⟩]

def rawVoteRules : List FieldRule :=
  [⟨"per", isZeroUint, IsUint⟩, ⟨"prop", isEmptyMap, CanonicalMap proposalRules⟩, ⟨"rnd", isZeroUint, IsUint⟩,
    ⟨"snd", isZeroBin, IsBin 32⟩, ⟨"step", isZeroUint, IsUint⟩]

def credentialRules : List FieldRule := [⟨"pf", isZeroBin, IsBin 80⟩]

def signatureRules : List FieldRule :=
  [⟨"p", never, IsBin 32⟩, ⟨"p1s", never, IsBin 64⟩, ⟨"p2", never, IsBin 32⟩, ⟨"p2s", never, IsBin 64⟩,
    ⟨"ps", never, IsBin 64⟩, ⟨"s", never, IsBin 64⟩]

def voteRules : List FieldRule :=
  [⟨"cred", isEmptyMap, CanonicalMap credentialRules⟩, ⟨"r", isEmptyMap, CanonicalMap rawVoteRules⟩,
    ⟨"sig", isZeroMap, CanonicalMap signatureRules⟩]

def authenticatorRules : List FieldRule :=
  [⟨"cred", never, CanonicalMap credentialRules⟩, ⟨"sig", isZeroMap, CanonicalMap signatureRules⟩,
    ⟨"snd", never, IsBin 32⟩]

def pairRules : List FieldRule :=
  [⟨"cred", never, CanonicalMap credentialRules⟩, ⟨"props", never, IsArray (CanonicalMap proposalRules)⟩,
    ⟨"sig", isZeroPair, IsArray (CanonicalMap signatureRules)⟩, ⟨"snd", never, IsBin 32⟩]

def bundleRules : List FieldRule :=
  [⟨"eqv", isEmptyArray, IsArray (CanonicalMap pairRules)⟩, ⟨"per", isZeroUint, IsUint⟩,
    ⟨"prop", isEmptyMap, CanonicalMap proposalRules⟩, ⟨"rnd", isZeroUint, IsUint⟩, ⟨"step", isZeroUint, IsUint⟩,
    ⟨"vote", isEmptyArray, IsArray (CanonicalMap authenticatorRules)⟩]

/-- The bytes are the encoding of one value, and of a kind. -/
def Encodes (bs : Bytes) (P : Value → Prop) : Prop := ∃ v, valid v = true ∧ bs = encode v ∧ P v

/-! ## Maps -/

/-- The fields of a map are those of some rules, in their order. -/
def WritesFields (rules : List FieldRule) (fields : List (Bytes × Bytes)) : Prop :=
  ∃ entries : List (Bytes × Value),
    fieldsBytes fields = encodeAll (entries.flatMap (fun e => [.str e.1, e.2])) ∧
    entries.length = fields.length ∧
    allValid (entries.flatMap (fun e => [.str e.1, e.2])) = true ∧
    (entries.map (·.1)).Sublist (rules.map (fun r => utf8 r.key)) ∧
    ∀ e ∈ entries, ∃ rule ∈ rules, e.1 = utf8 rule.key ∧ rule.value e.2 ∧ rule.omitted e.2 = false

theorem encodeAll_append (vs ws : List Value) : encodeAll (vs ++ ws) = encodeAll vs ++ encodeAll ws := by
  induction vs with
  | nil => simp [encodeAll]
  | cons v vs ih =>
    rw [List.cons_append]
    simp only [encodeAll]
    rw [ih, List.append_assoc]

section Fields

variable {rules rules' : List FieldRule} {fields fields' : List (Bytes × Bytes)}

theorem WritesFields.append (h : WritesFields rules fields) (h' : WritesFields rules' fields') :
    WritesFields (rules ++ rules') (fields ++ fields') := by
  obtain ⟨entries, hbytes, hlen, hvalid, hsub, hrule⟩ := h
  obtain ⟨entries', hbytes', hlen', hvalid', hsub', hrule'⟩ := h'
  refine ⟨entries ++ entries', ?_, ?_, ?_, ?_, ?_⟩
  · rw [fieldsBytes_append, hbytes, hbytes', List.flatMap_append, encodeAll_append]
  · rw [List.length_append, List.length_append, hlen, hlen']
  · rw [Value.allValid_iff] at hvalid hvalid' ⊢
    intro v hv
    rw [List.flatMap_append, List.mem_append] at hv
    exact hv.elim (hvalid v) (hvalid' v)
  · rw [List.map_append, List.map_append]
    exact hsub.append hsub'
  · intro e he
    rcases List.mem_append.1 he with he | he
    · obtain ⟨rule, hmem, h⟩ := hrule e he
      exact ⟨rule, List.mem_append_left _ hmem, h⟩
    · obtain ⟨rule, hmem, h⟩ := hrule' e he
      exact ⟨rule, List.mem_append_right _ hmem, h⟩

theorem writeStrKey_encode {key : String} (h : (utf8 key).length < 32) :
    writeStrKey key = encode (.str (utf8 key)) := by
  have hmod : (utf8 key).length % 2 ^ 32 = (utf8 key).length := Nat.mod_eq_of_lt (by omega)
  simp only [encode, Value.header, hmod]
  rfl

/-- A field that is written has a value that is not left out. -/
theorem WritesFields.field {rule : FieldRule} {present : Bool} {bs : Bytes} (hkey : (utf8 rule.key).length < 32)
    (h : present = true → Encodes bs (fun v => rule.value v ∧ rule.omitted v = false)) :
    WritesFields [rule] (field rule.key present bs) := by
  cases present with
  | false =>
    exact ⟨[], rfl, rfl, rfl, List.nil_sublist _, fun e he => nomatch he⟩
  | true =>
    obtain ⟨v, hvalid, hbytes, hvalue, homitted⟩ := h rfl
    refine ⟨[(utf8 rule.key, v)], ?_, rfl, ?_, List.Sublist.refl _, ?_⟩
    · rw [fieldsBytes_field]
      simp only [opt, if_true, List.flatMap_singleton, encodeAll, List.append_nil]
      rw [writeStrKey_encode hkey, hbytes]
    · have hstr : valid (.str (utf8 rule.key)) = true := decide_eq_true (by omega)
      simp only [List.flatMap_singleton, allValid, hstr, hvalid, Bool.and_self]
    · intro e he
      rw [List.mem_singleton.1 he]
      exact ⟨rule, List.mem_cons_self, rfl, hvalue, homitted⟩

theorem length_flatMap_entries (entries : List (Bytes × Value)) :
    (entries.flatMap (fun e => [Value.str e.1, e.2])).length = 2 * entries.length := by
  induction entries with
  | nil => rfl
  | cons e es ih =>
    rw [List.flatMap_cons, List.length_append, ih, List.length_cons]
    simp only [List.length_cons, List.length_nil]
    omega

/-- **A map whose rules are in order is canonical.** -/
theorem WritesFields.encodes (hsorted : (rules.map (fun r => utf8 r.key)).Pairwise (· < ·)) (hlen : rules.length < 2 ^ 32)
    (h : WritesFields rules fields) : Encodes (writeMap fields) (CanonicalMap rules) := by
  obtain ⟨entries, hbytes, hcount, hvalid, hsub, hrule⟩ := h
  have hle := hsub.length_le
  rw [List.length_map, List.length_map] at hle
  have hflat := length_flatMap_entries entries
  refine ⟨.map (entries.flatMap (fun e => [.str e.1, e.2])), ?_, ?_, entries, rfl, hsorted.sublist hsub, hrule⟩
  · simp only [valid, hvalid, Bool.and_true, Bool.and_eq_true, decide_eq_true_eq]
    omega
  · have hhalf : (entries.flatMap (fun e => [Value.str e.1, e.2])).length / 2 % 2 ^ 32 = fields.length := by
      rw [hflat, ← hcount]
      omega
    simp only [encode, Value.header, hhalf]
    unfold writeMap
    rw [← hbytes]
    rfl

end Fields

/-! ## Values -/

theorem Encodes.mono {bs : Bytes} {P Q : Value → Prop} (h : Encodes bs P)
    (hPQ : ∀ v, valid v = true → bs = encode v → P v → Q v) :
    Encodes bs Q := by
  obtain ⟨v, hvalid, hbytes, hP⟩ := h
  exact ⟨v, hvalid, hbytes, hPQ v hvalid hbytes hP⟩

variable {P : Value → Prop}

/-- A field that is always there holds any value of its kind. -/
theorem Encodes.never {bs : Bytes} (h : Encodes bs P) :
    Encodes bs (fun v => P v ∧ never v = false) := h.mono (fun _ _ _ hP => ⟨hP, rfl⟩)

theorem writeUint_encodes {n : Nat} (h : n < u64Bound) (hn : (n != 0) = true) :
    Encodes (writeUint n) (fun v => IsUint v ∧ isZeroUint v = false) := by
  refine ⟨.uint n, decide_eq_true h, by simp only [encode]; rfl, trivial, ?_⟩
  have hne : n ≠ 0 := by simpa using hn
  simp [isZeroUint, hne]

theorem writeBin_encodes {bs : Bytes} {n : Nat} (h : bs.length = n) (hn : n < 2 ^ 32) :
    Encodes (writeBin bs) (· = .bin bs) := by
  refine ⟨.bin bs, decide_eq_true (by omega), ?_, rfl⟩
  simp only [encode, Value.header]
  rw [Nat.mod_eq_of_lt (by omega)]
  rfl

theorem all_zero_iff {w : Nat} (hw : 8 * (w / 8) = w) {x : BitVec w} : (arrayBytes x).all (· == 0) = true ↔ x = 0 := by
  have hzero : (arrayBytes x).all (· == 0) = true ↔ arrayBytes x = List.replicate (w / 8) 0 := by
    rw [List.eq_replicate_iff, List.all_eq_true]
    simp only [beq_iff_eq, length_arrayBytes, true_and]
  rw [hzero]
  obtain ⟨k, rfl⟩ : ∃ k, w = 8 * k := ⟨w / 8, hw.symm⟩
  unfold arrayBytes
  rw [Nat.mul_div_cancel_left k (by decide)]
  exact beBytes_eq_zero

/-- Bytes that are not zero. -/
theorem bytes_encodes {w n : Nat} (hw : 8 * (w / 8) = w) (hn : w / 8 = n) (hlt : n < 256) {x : BitVec w}
    (hx : (x != 0) = true) : Encodes (writeBin (arrayBytes x)) (fun v => IsBin n v ∧ isZeroBin v = false) := by
  have hlen : (arrayBytes x).length = n := by rw [length_arrayBytes, hn]
  refine (writeBin_encodes hlen (by omega)).mono ?_
  rintro v - - rfl
  refine ⟨hlen, ?_⟩
  have hne : x ≠ 0 := by simpa using hx
  exact Bool.eq_false_iff.2 (fun h => hne ((all_zero_iff hw).1 h))

theorem bytes_always {w n : Nat} (hn : w / 8 = n) (hlt : n < 256) (x : BitVec w) :
    Encodes (writeBin (arrayBytes x)) (fun v => IsBin n v ∧ never v = false) := by
  have hlen : (arrayBytes x).length = n := by rw [length_arrayBytes, hn]
  refine (writeBin_encodes hlen (by omega)).mono ?_
  rintro v - - rfl
  exact ⟨hlen, rfl⟩

theorem encodeAll_encodes {α : Type} {write : α → Bytes} : ∀ {as : List α}, (∀ a ∈ as, Encodes (write a) P) →
    ∃ vs, vs.length = as.length ∧ allValid vs = true ∧ as.flatMap write = encodeAll vs ∧ ∀ v ∈ vs, P v
  | [], _ => ⟨[], rfl, rfl, rfl, fun v hv => nomatch hv⟩
  | a :: as, h => by
    obtain ⟨v, hvalid, hbytes, hP⟩ := h a List.mem_cons_self
    obtain ⟨vs, hlen, hvalids, hall, hPs⟩ := encodeAll_encodes (fun a' ha' => h a' (List.mem_cons_of_mem _ ha'))
    refine ⟨v :: vs, by rw [List.length_cons, List.length_cons, hlen], ?_, ?_, ?_⟩
    · simp only [allValid, hvalid, hvalids, Bool.and_self]
    · rw [List.flatMap_cons, hbytes, hall]
      simp only [encodeAll]
    · intro u hu
      rcases List.mem_cons.1 hu with rfl | hu
      · exact hP
      · exact hPs u hu

theorem array_encodes {α : Type} {write : α → Bytes} {as : List α} (hlen : as.length < 2 ^ 32)
    (h : ∀ a ∈ as, Encodes (write a) P) :
    Encodes (writeArrayLen as.length ++ as.flatMap write) (fun v => IsArray P v ∧ ∃ vs, v = .array vs ∧
      vs.length = as.length) := by
  obtain ⟨vs, hcount, hvalid, hbytes, hP⟩ := encodeAll_encodes h
  refine ⟨.array vs, ?_, ?_, hP, vs, rfl, hcount⟩
  · simp only [valid, hvalid, Bool.and_true, decide_eq_true_eq]
    omega
  · simp only [encode, Value.header, hcount, hbytes]
    rfl

/-- An array that is not empty. -/
theorem votes_encodes {α : Type} {write : α → Bytes} {as : List α} (hlen : as.length < 2 ^ 32)
    (h : ∀ a ∈ as, Encodes (write a) P) (hne : (!as.isEmpty) = true) :
    Encodes (writeArrayLen as.length ++ as.flatMap write) (fun v => IsArray P v ∧ isEmptyArray v = false) := by
  refine (array_encodes hlen h).mono ?_
  rintro v - - ⟨hP, vs, rfl, hcount⟩
  refine ⟨hP, ?_⟩
  cases vs with
  | nil =>
    have : as = [] := List.length_eq_zero_iff.1 hcount.symm
    rw [this] at hne
    cases hne
  | cons w ws => rfl

/-- A map that is not written as an empty one. -/
theorem Encodes.nonempty {bs : Bytes} (h : Encodes bs P) (hne : (bs != [0x80]) = true) :
    Encodes bs (fun v => P v ∧ isEmptyMap v = false) := by
  refine h.mono ?_
  intro v _ hbytes hP
  refine ⟨hP, Bool.eq_false_iff.2 ?_⟩
  intro hempty
  have hv : v = .map [] := beq_iff_eq.1 hempty
  rw [hv] at hbytes
  rw [hbytes] at hne
  exact absurd hne (by decide)

/-! ## Records -/

theorem encodeProposalValue_encodes {pv : ProposalValue} (h : pv.originalPeriod < u64Bound) :
    Encodes (encodeProposalValue pv) (CanonicalMap proposalRules) := by
  refine WritesFields.encodes (by decide) (by decide) (.append
    (.append (.append (.field ?_ ?_) (.field ?_ ?_)) (.field ?_ ?_))
    (.field ?_ ?_))
  · decide
  · exact bytes_encodes rfl rfl (by decide)
  · decide
  · exact bytes_encodes rfl rfl (by decide)
  · decide
  · exact writeUint_encodes h
  · decide
  · exact bytes_encodes rfl rfl (by decide)

/-- Only the value that stands for none is written as an empty map. -/
theorem encodeProposalValue_nonempty {pv : ProposalValue} (h : pv.originalPeriod < u64Bound)
    (hne : (pv != Agreement.bottom) = true) : (encodeProposalValue pv != [0x80]) = true := by
  rw [bne_iff_ne] at hne ⊢
  intro hempty
  have hread := decodeProposalValue_reads h
  rw [hempty] at hread
  exact hne (hread.inj (@decodeProposalValue_reads Agreement.bottom (by decide)))

theorem encodeRawVote_encodes {rv : RawVote} (h : RawVote64 rv) : Encodes (encodeRawVote rv) (CanonicalMap rawVoteRules) := by
  refine WritesFields.encodes (by decide) (by decide) (.append (.append (.append (.append (.field ?_ ?_) (.field ?_ ?_))
    (.field ?_ ?_)) (.field ?_ ?_)) (.field ?_ ?_))
  · decide
  · exact writeUint_encodes h.period
  · decide
  · intro hne
    exact (encodeProposalValue_encodes h.original).nonempty (encodeProposalValue_nonempty h.original hne)
  · decide
  · exact writeUint_encodes h.round
  · decide
  · exact bytes_encodes rfl rfl (by decide)
  · decide
  · exact writeUint_encodes h.step

theorem encodeUnauthenticatedCredential_encodes (proof : BitVec 640) :
    Encodes (encodeUnauthenticatedCredential proof) (CanonicalMap credentialRules) := by
  rw [encodeUnauthenticatedCredential_eq]
  exact WritesFields.encodes (by decide) (by decide) (.field (by decide) (bytes_encodes rfl rfl (by decide)))

theorem encodeOneTimeSignature_encodes (sig : OneTimeSignature) :
    Encodes (encodeOneTimeSignature sig) (CanonicalMap signatureRules) := by
  rw [encodeOneTimeSignature_eq]
  refine WritesFields.encodes (by decide) (by decide) (.append (.append (.append (.append (.append (.field ?_ ?_)
    (.field ?_ ?_)) (.field ?_ ?_)) (.field ?_ ?_)) (.field ?_ ?_)) (.field ?_ ?_))
  · decide
  · exact fun _ => bytes_always rfl (by decide) _
  · decide
  · exact fun _ => bytes_always rfl (by decide) _
  · decide
  · exact fun _ => bytes_always rfl (by decide) _
  · decide
  · exact fun _ => bytes_always rfl (by decide) _
  · decide
  · exact fun _ => bytes_always rfl (by decide) _
  · decide
  · exact fun _ => bytes_always rfl (by decide) _

/-- A signature as a value. -/
def signatureValue (sig : OneTimeSignature) : Value :=
  .map [.str (utf8 "p"), .bin (arrayBytes sig.pk), .str (utf8 "p1s"), .bin (arrayBytes sig.pk1Sig), .str (utf8 "p2"),
    .bin (arrayBytes sig.pk2), .str (utf8 "p2s"), .bin (arrayBytes sig.pk2Sig), .str (utf8 "ps"),
    .bin (arrayBytes sig.pkSigOld), .str (utf8 "s"), .bin (arrayBytes sig.sig)]

theorem signatureValue_valid (sig : OneTimeSignature) : valid (signatureValue sig) = true := by
  have hstr : ∀ key ∈ ["p", "p1s", "p2", "p2s", "ps", "s"], valid (.str (utf8 key)) = true := by decide
  have hbin : ∀ {w : Nat} (x : BitVec w), w < 1024 → valid (.bin (arrayBytes x)) = true := by
    intro w x hw
    simp only [valid, length_arrayBytes, decide_eq_true_eq]
    omega
  have hall : allValid [.str (utf8 "p"), .bin (arrayBytes sig.pk), .str (utf8 "p1s"), .bin (arrayBytes sig.pk1Sig),
      .str (utf8 "p2"), .bin (arrayBytes sig.pk2), .str (utf8 "p2s"), .bin (arrayBytes sig.pk2Sig), .str (utf8 "ps"),
      .bin (arrayBytes sig.pkSigOld), .str (utf8 "s"), .bin (arrayBytes sig.sig)] = true := by
    simp only [allValid, hbin sig.pk (by decide), hbin sig.pk1Sig (by decide), hbin sig.pk2 (by decide),
      hbin sig.pk2Sig (by decide), hbin sig.pkSigOld (by decide), hbin sig.sig (by decide), hstr "p" (by decide),
      hstr "p1s" (by decide), hstr "p2" (by decide), hstr "p2s" (by decide), hstr "ps" (by decide), hstr "s" (by decide),
      Bool.and_self]
  simp only [signatureValue, valid, hall, Bool.and_true, Bool.and_eq_true, decide_eq_true_eq, List.length_cons,
    List.length_nil]
  exact ⟨by decide, by decide⟩

theorem encodeOneTimeSignature_value (sig : OneTimeSignature) : encodeOneTimeSignature sig = encode (signatureValue sig) := by
  have hbin : ∀ {w : Nat} (x : BitVec w), w / 8 < 256 → encode (.bin (arrayBytes x)) = writeBin (arrayBytes x) := by
    intro w x hw
    have hlen := length_arrayBytes x
    simp only [encode, Value.header]
    rw [Nat.mod_eq_of_lt (by omega)]
    rfl
  have hmap : (Value.header (signatureValue sig)).bytes = [0x86] := by
    simp only [signatureValue, Value.header, List.length_cons, List.length_nil]
    decide
  unfold encodeOneTimeSignature
  rw [writeStrKey_encode (by decide), writeStrKey_encode (by decide), writeStrKey_encode (by decide),
    writeStrKey_encode (by decide), writeStrKey_encode (by decide), writeStrKey_encode (by decide),
    ← hbin sig.pk (by decide), ← hbin sig.pk1Sig (by decide), ← hbin sig.pk2 (by decide), ← hbin sig.pk2Sig (by decide),
    ← hbin sig.pkSigOld (by decide), ← hbin sig.sig (by decide), Value.encode_eq (signatureValue sig), hmap]
  simp only [signatureValue, Value.body, encodeAll, List.append_assoc, List.append_nil, List.cons_append, List.nil_append]

theorem isZeroMap_signatureValue {sig : OneTimeSignature} (h : isZeroMap (signatureValue sig) = true) :
    otsIsZero sig = true := by
  simp only [isZeroMap, signatureValue, List.all_cons, List.all_nil, Bool.true_and, Bool.and_true, Bool.and_eq_true] at h
  obtain ⟨hpk, hpk1Sig, hpk2, hpk2Sig, hold, hsig⟩ := h
  rw [all_zero_iff rfl] at hpk hpk1Sig hpk2 hpk2Sig hold hsig
  simp only [otsIsZero, hpk, hpk1Sig, hpk2, hpk2Sig, hold, hsig, beq_self_eq_true, Bool.and_self]

/-- The value of a signature that is not zero is not. -/
theorem signature_encodes {sig : OneTimeSignature} (h : (!otsIsZero sig) = true) :
    Encodes (encodeOneTimeSignature sig) (fun v => CanonicalMap signatureRules v ∧ isZeroMap v = false) := by
  refine (encodeOneTimeSignature_encodes sig).mono ?_
  intro v hvalid hbytes hcanonical
  have hv : v = signatureValue sig := by
    rw [encodeOneTimeSignature_value] at hbytes
    exact Value.encode_inj hvalid (signatureValue_valid sig) hbytes.symm
  refine ⟨hcanonical, Bool.eq_false_iff.2 ?_⟩
  intro hzero
  rw [hv] at hzero
  rw [isZeroMap_signatureValue hzero] at h
  cases h

theorem encodeVote_encodes {vote : UnauthenticatedVote} (h : RawVote64 vote.rawVote) :
    Encodes (encodeVote vote) (CanonicalMap voteRules) := by
  refine WritesFields.encodes (by decide) (by decide) (.append (.append (.field ?_ ?_) (.field ?_ ?_)) (.field ?_ ?_))
  · decide
  · exact (encodeUnauthenticatedCredential_encodes _).nonempty
  · decide
  · exact (encodeRawVote_encodes h).nonempty
  · decide
  · exact signature_encodes

theorem encodeVoteAuthenticator_encodes (auth : VoteAuthenticator) :
    Encodes (encodeVoteAuthenticator auth) (CanonicalMap authenticatorRules) := by
  refine WritesFields.encodes (by decide) (by decide) (.append (.append (.field ?_ ?_) (.field ?_ ?_)) (.field ?_ ?_))
  · decide
  · exact fun _ => (encodeUnauthenticatedCredential_encodes _).never
  · decide
  · exact signature_encodes
  · decide
  · exact fun _ => bytes_always rfl (by decide) _

theorem pair_encodes {bs bs' : Bytes} (h : Encodes bs P) (h' : Encodes bs' P) :
    Encodes (writeArrayLen 2 ++ (bs ++ bs')) (fun v => ∃ w w', v = .array [w, w'] ∧ P w ∧ P w' ∧ valid w = true ∧
      valid w' = true ∧ bs = encode w ∧ bs' = encode w') := by
  obtain ⟨w, hvalid, hbytes, hP⟩ := h
  obtain ⟨w', hvalid', hbytes', hP'⟩ := h'
  refine ⟨.array [w, w'], ?_, ?_, w, w', rfl, hP, hP', hvalid, hvalid', hbytes, hbytes'⟩
  · simp only [valid, allValid, hvalid, hvalid', Bool.and_true, List.length_cons, List.length_nil]
    rfl
  · rw [Value.encode_eq, hbytes, hbytes']
    simp only [Value.body, encodeAll, List.append_nil]
    rfl

theorem isArray_pair {w w' : Value} (h : P w) (h' : P w') : IsArray P (.array [w, w']) := by
  intro v hv
  rcases List.mem_cons.1 hv with rfl | hv
  · exact h
  · rw [List.mem_singleton.1 hv]
    exact h'

theorem proposals_encodes {proposals : ProposalValue × ProposalValue} (h : proposals.1.originalPeriod < u64Bound)
    (h' : proposals.2.originalPeriod < u64Bound) :
    Encodes (writeArrayLen 2 ++ (encodeProposalValue proposals.1 ++ encodeProposalValue proposals.2))
      (IsArray (CanonicalMap proposalRules)) := by
  refine (pair_encodes (encodeProposalValue_encodes h) (encodeProposalValue_encodes h')).mono ?_
  rintro v - - ⟨w, w', rfl, hP, hP', -⟩
  exact isArray_pair hP hP'

theorem signatures_encodes {sigs : OneTimeSignature × OneTimeSignature}
    (h : (!(otsIsZero sigs.1 && otsIsZero sigs.2)) = true) :
    Encodes (writeArrayLen 2 ++ (encodeOneTimeSignature sigs.1 ++ encodeOneTimeSignature sigs.2))
      (fun v => IsArray (CanonicalMap signatureRules) v ∧ isZeroPair v = false) := by
  refine (pair_encodes (encodeOneTimeSignature_encodes sigs.1) (encodeOneTimeSignature_encodes sigs.2)).mono ?_
  rintro v - - ⟨w, w', rfl, hP, hP', hvalid, hvalid', hbytes, hbytes'⟩
  refine ⟨isArray_pair hP hP', Bool.eq_false_iff.2 ?_⟩
  intro hzero
  rw [encodeOneTimeSignature_value] at hbytes hbytes'
  rw [← Value.encode_inj (signatureValue_valid _) hvalid hbytes,
    ← Value.encode_inj (signatureValue_valid _) hvalid' hbytes'] at hzero
  simp only [isZeroPair, List.all_cons, List.all_nil, Bool.and_true, Bool.and_eq_true] at hzero
  rw [isZeroMap_signatureValue hzero.1, isZeroMap_signatureValue hzero.2] at h
  cases h

theorem encodeEquivocationVoteAuthenticator_encodes {auth : EquivocationVoteAuthenticator} (h : Pair64 auth) :
    Encodes (encodeEquivocationVoteAuthenticator auth) (CanonicalMap pairRules) := by
  refine WritesFields.encodes (by decide) (by decide) (.append (.append (.append (.field ?_ ?_) (.field ?_ ?_))
    (.field ?_ ?_)) (.field ?_ ?_))
  · decide
  · exact fun _ => (encodeUnauthenticatedCredential_encodes _).never
  · decide
  · exact fun _ => (proposals_encodes h.1 h.2).never
  · decide
  · exact signatures_encodes
  · decide
  · exact fun _ => bytes_always rfl (by decide) _

theorem encodeBundle_encodes {bundle : UnauthenticatedBundle} (h : Bundle64 bundle)
    (hvotes : bundle.votes.length ≤ maxBundleArrayLen) (hpairs : bundle.equivocationVotes.length ≤ maxBundleArrayLen) :
    Encodes (encodeBundle bundle) (CanonicalMap bundleRules) := by
  have hbound : maxBundleArrayLen < 2 ^ 32 := by decide
  refine WritesFields.encodes (by decide) (by decide) (.append (.append (.append (.append (.append (.field ?_ ?_)
    (.field ?_ ?_)) (.field ?_ ?_)) (.field ?_ ?_)) (.field ?_ ?_)) (.field ?_ ?_))
  · decide
  · exact votes_encodes (Nat.lt_of_le_of_lt hpairs hbound)
      (fun auth hauth => encodeEquivocationVoteAuthenticator_encodes (h.pairs auth hauth))
  · decide
  · exact writeUint_encodes h.period
  · decide
  · intro hne
    exact (encodeProposalValue_encodes h.original).nonempty (encodeProposalValue_nonempty h.original hne)
  · decide
  · exact writeUint_encodes h.round
  · decide
  · exact writeUint_encodes h.step
  · decide
  · exact votes_encodes (Nat.lt_of_le_of_lt hvotes hbound) (fun auth _ => encodeVoteAuthenticator_encodes auth)

/-! ## The codec -/

/-- What decodes to different values is different. -/
theorem eq_of_decoded {α : Type} {decode : Bytes → Except CodecError α} {x y : Bytes} {a b : α} (ha : decode x = .ok a)
    (hb : decode y = .ok b) (h : x = y) : a = b := by
  rw [h, hb] at ha
  exact (Except.ok.inj ha).symm

/-- **Votes and bundles are read back as they were written, and are written canonically.**  A bundle holds as many votes
and pairs of either kind as the decoder takes; the numbers of the source are of 64 bits. -/
theorem wireCodec_roundTrip :
    (∀ vote, RawVote64 vote.rawVote →
      decodeVote (encodeVote vote) = .ok vote ∧ Encodes (encodeVote vote) (CanonicalMap voteRules) ∧
      ∀ vote', RawVote64 vote'.rawVote → encodeVote vote = encodeVote vote' → vote = vote') ∧
    (∀ bundle, Bundle64 bundle → bundle.votes.length ≤ 10000 → bundle.equivocationVotes.length ≤ 10000 →
      decodeBundle (encodeBundle bundle) = .ok bundle ∧ Encodes (encodeBundle bundle) (CanonicalMap bundleRules) ∧
      ∀ bundle', Bundle64 bundle' → bundle'.votes.length ≤ 10000 → bundle'.equivocationVotes.length ≤ 10000 →
        encodeBundle bundle = encodeBundle bundle' → bundle = bundle') := by
  constructor
  · intro vote h
    refine ⟨decodeVote_encodeVote h, encodeVote_encodes h, ?_⟩
    intro vote' h' heq
    exact eq_of_decoded (decodeVote_encodeVote h) (decodeVote_encodeVote h') heq
  · intro bundle h hvotes hpairs
    refine ⟨decodeBundle_encodeBundle h hvotes hpairs, encodeBundle_encodes h hvotes hpairs, ?_⟩
    intro bundle' h' hvotes' hpairs' heq
    exact eq_of_decoded (decodeBundle_encodeBundle h hvotes hpairs) (decodeBundle_encodeBundle h' hvotes' hpairs') heq

/-- A bundle with a vote without a signature and a pair with one of two. -/
def sampleBundle : UnauthenticatedBundle :=
  ⟨300, 0, 2, Agreement.bottom, [⟨⟨7⟩, ⟨0⟩, zeroSignature⟩],
    [⟨.zero, ⟨9⟩, (zeroSignature, { zeroSignature with pk := 5 }),
      (Agreement.bottom, { Agreement.bottom with originalPeriod := 1 })⟩]⟩

theorem wireCodec_roundTrip_sampleBundle : decodeBundle (encodeBundle sampleBundle) = .ok sampleBundle :=
  (wireCodec_roundTrip.2 sampleBundle ⟨by decide, by decide, by decide, by decide, fun auth hauth => by
    rw [List.mem_singleton.1 hauth]; exact ⟨by decide, by decide⟩⟩ (by decide) (by decide)).1

end Network
end Algod
