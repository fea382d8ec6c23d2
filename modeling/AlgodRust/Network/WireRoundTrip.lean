import AlgodRust.Network.WireCodec
/-!
# WireRoundTrip — what is decoded is what was encoded

A map is read field by field (`ReadsFields`): a field that is written sets its part of the value, and one that is left
out is zero in it, so that the value goes from zero to what was encoded.
-/
namespace Algod
namespace Network

open Msgpack (Bytes Header Value beBytes length_beBytes)
open Codec (utf8)
open Reading
open Agreement (EquivocationVoteAuthenticator OneTimeSignature ProposalValue RawVote UnauthenticatedBundle
  UnauthenticatedCredential UnauthenticatedVote VoteAuthenticator)

/-! ## Headers and leaves -/

theorem nextByte_reads (e : CodecError) (b : UInt8) : Reads (nextByte e) [b] b := fun _ => rfl

theorem marker_toNat {m : Nat} (h : m < 256) : (UInt8.ofNat m).toNat = m := UInt8.toNat_ofNat_of_lt' h

theorem readNumber_reads (e : CodecError) {k n : Nat} (h : n < 256 ^ k) : Reads (readNumber e k) (beBytes k n) n :=
  (takeN_reads e (length_beBytes k n)).bind_pure (.pure_of_eq (beNat_beBytes h))

variable {n : Nat}

theorem readMapLen_reads (e : CodecError) (h : n < 16) : Reads (readMapLen e) (writeMapLen n) n := by
  rw [writeMapLen_eq h]
  refine (nextByte_reads e _).bind_pure ?_
  simp only [marker_toNat (show 0x80 + n < 256 by omega)]
  rw [if_pos (by omega)]
  exact .pure_of_eq (by omega)

theorem writeArrayLen_eq (h : n < 2 ^ 16) :
    writeArrayLen n = if n < 16 then [UInt8.ofNat (0x90 + n)] else 0xdc :: beBytes 2 n := by
  unfold writeArrayLen Header.bytes Header.form
  rw [Nat.mod_eq_of_lt (Nat.lt_trans h (by decide))]
  simp only
  by_cases hn : n < 16
  · simp only [hn, if_true]
    rfl
  · rw [if_neg hn, if_neg hn, if_pos (by omega)]
    rfl

theorem readArrayLen_reads (e : CodecError) (h : n < 2 ^ 16) : Reads (readArrayLen e) (writeArrayLen n) n := by
  rw [writeArrayLen_eq h]
  by_cases hn : n < 16
  · rw [if_pos hn]
    refine (nextByte_reads e _).bind_pure ?_
    simp only [marker_toNat (show 0x90 + n < 256 by omega)]
    rw [if_pos (by omega)]
    exact .pure_of_eq (by omega)
  · rw [if_neg hn]
    exact (nextByte_reads e 0xdc).bind (readNumber_reads e h)

theorem fromUTF8_utf8 (s : String) : String.fromUTF8? ⟨(utf8 s).toArray⟩ = some s := by
  have hbytes : (⟨(utf8 s).toArray⟩ : ByteArray) = s.toByteArray := by
    unfold utf8
    rw [Array.toArray_toList]
    rfl
  unfold String.fromUTF8?
  rw [hbytes, dif_pos s.isValidUTF8]
  rfl

theorem readStrKey_reads {key : String} (h : (utf8 key).length < 32) : Reads readStrKey (writeStrKey key) key := by
  have hvalue : Reads (readValue (.decode "key") maxDepth) (writeStrKey key) (.string (utf8 key)) := by
    rw [writeStrKey_eq h]
    refine (nextByte_reads _ _).bind (x := [_]) (y := utf8 key) ?_
    simp only [marker_toNat (show 0xa0 + (utf8 key).length < 256 by omega)]
    rw [if_neg (by omega), if_neg (by omega), if_neg (by omega), if_pos (by omega)]
    refine Reads.bind_pure (takeN_reads _ (by omega)) (.pure _)
  refine hvalue.bind_pure ?_
  simp only [fromUTF8_utf8]
  exact .pure key

/-- The value of a number that is not its own marker. -/
theorem readValue_number (e : CodecError) {k n : Nat} (hk : k < 4) (h : n < 256 ^ 2 ^ k) :
    Reads (readValue e maxDepth) (UInt8.ofNat (0xcc + k) :: beBytes (2 ^ k) n) (.integer n) := by
  refine (nextByte_reads _ _).bind (x := [_]) (y := beBytes (2 ^ k) n) ?_
  simp only [marker_toNat (show 0xcc + k < 256 by omega)]
  rw [if_neg (by omega), if_neg (by omega), if_neg (by omega), if_neg (by omega), if_neg (by omega), if_neg (by omega),
    if_neg (by omega), if_neg (by omega), if_neg (by omega), if_neg (by omega), if_pos (by omega), Nat.add_sub_cancel_left]
  exact (readNumber_reads e h).bind_pure (.pure _)

theorem readValue_uint (e : CodecError) (h : n < u64Bound) :
    Reads (readValue e maxDepth) (writeUint n) (.integer n) := by
  unfold u64Bound at h
  have heq := writeUint_eq n
  unfold Header.form at heq
  simp only at heq
  split_ifs at heq with h₁ h₂ h₃ h₄
  · rw [heq]
    refine (nextByte_reads _ _).bind_pure (x := [_]) ?_
    simp only [marker_toNat (show n < 256 by omega)]
    rw [if_pos h₁]
    exact .pure _
  · rw [heq]
    exact @readValue_number e 0 n (by decide) (by omega)
  · rw [heq]
    exact @readValue_number e 1 n (by decide) (by omega)
  · rw [heq]
    exact @readValue_number e 2 n (by decide) (by omega)
  · rw [heq]
    exact @readValue_number e 3 n (by decide) (by omega)

theorem readUint64_reads (h : n < u64Bound) : Reads readUint64 (writeUint n) n := by
  refine (readValue_uint _ h).bind_pure ?_
  simp only [Int.natCast_nonneg, if_true, Int.toNat_natCast]
  exact .pure n

theorem readSized_reads (e : CodecError) {bs : Bytes} (h : bs.length < 256) :
    Reads (readSized e 1) (UInt8.ofNat bs.length :: bs) bs := by
  have hbyte : beBytes 1 bs.length = [UInt8.ofNat bs.length] := by
    simp only [beBytes, List.nil_append]
    rw [Nat.mod_eq_of_lt h]
  have hnumber := readNumber_reads e (show bs.length < 256 ^ 1 by omega)
  rw [hbyte] at hnumber
  exact hnumber.bind (takeN_reads e rfl)

theorem fixedBytes_arrayBytes {w : Nat} (hw : 8 * (w / 8) = w) (x : BitVec w) : fixedBytes w (arrayBytes x) = x := by
  unfold fixedBytes
  have hlen := length_arrayBytes x
  rw [List.take_of_length_le (by omega), hlen, Nat.sub_self, List.replicate_zero, List.append_nil]
  unfold arrayBytes
  rw [beNat_beBytes (Codec.toNat_lt_pow hw x), BitVec.ofNat_toNat, BitVec.setWidth_eq]

/-- Bytes are written as such, and read back whole. -/
theorem readBinFixed_reads {w : Nat} (hw : 8 * (w / 8) = w) (hlt : w / 8 < 256) (x : BitVec w) :
    Reads (readBinFixed w) (writeBin (arrayBytes x)) x := by
  have hlen := length_arrayBytes x
  have hcontainer : Reads (readGoByteContainer (.decode "bin")) (writeBin (arrayBytes x)) (arrayBytes x, false) := by
    intro rest
    rw [writeBin_eq (by omega)]
    have hread := (@readSized_reads (.decode "bin") (arrayBytes x) (by omega)).bind_pure
      (f := fun bs => pure (bs, false)) (.pure _)
    exact hread rest
  refine hcontainer.bind_pure ?_
  simp only [Bool.false_eq_true, false_and, if_false]
  exact .pure_of_eq (fixedBytes_arrayBytes hw x)

/-! ## Maps -/

/-- At most `n` fields of a map, read one after another, from one value to the next. -/
def ReadsFields {α : Type} (decodeField : String → α → Cursor α) (n : Nat) (fields : List (Bytes × Bytes)) (a b : α) :
    Prop :=
  fields.length ≤ n ∧ Reads (times (fun a => do
    let key ← readStrKey
    decodeField key a) fields.length a) (fieldsBytes fields) b

section Fields

variable {α : Type} {decodeField : String → α → Cursor α} {m n : Nat} {fields fields' : List (Bytes × Bytes)} {a b c : α}

theorem ReadsFields.append (h : ReadsFields decodeField m fields a b) (h' : ReadsFields decodeField n fields' b c) :
    ReadsFields decodeField (m + n) (fields ++ fields') a c := by
  unfold ReadsFields
  rw [List.length_append, fieldsBytes_append]
  exact ⟨Nat.add_le_add h.1 h'.1, Reads.times_add h.2 h'.2⟩

/-- A field that is left out changes nothing. -/
theorem ReadsFields.field {key : String} {present : Bool} {value : Bytes} (hkey : (utf8 key).length < 32)
    (hread : present = true → Reads (decodeField key a) value b) (habsent : present = false → a = b) :
    ReadsFields decodeField 1 (field key present value) a b := by
  unfold ReadsFields
  cases present with
  | false =>
    rw [habsent rfl]
    exact ⟨Nat.zero_le 1, .pure b⟩
  | true =>
    rw [fieldsBytes_field]
    have hone : Reads (do
        let key ← readStrKey
        decodeField key a) (writeStrKey key ++ value) b := (readStrKey_reads hkey).bind (hread rfl)
    exact ⟨Nat.le_refl 1, hone.bind_pure (.pure b)⟩

theorem ReadsFields.always {key : String} {value : Bytes} (hkey : (utf8 key).length < 32)
    (hread : Reads (decodeField key a) value b) : ReadsFields decodeField 1 (Network.field key true value) a b :=
  .field hkey (fun _ => hread) (fun h => nomatch h)

theorem decodeMap_reads {context : String} (hcount : n < 16) (h : ReadsFields decodeField n fields a b) :
    Reads (decodeMap context a decodeField) (writeMap fields) b :=
  (readMapLen_reads _ (Nat.lt_of_le_of_lt h.1 hcount)).bind h.2

end Fields

/-- What reads a value and sets it. -/
theorem Reads.set {α β : Type} {r : Cursor β} {x : Bytes} {v : β} {set : β → α} (h : Reads r x v) :
    Reads (do
      let v ← r
      pure (set v)) x (set v) := h.bind_pure (.pure _)

/-! ## Votes -/

theorem readBytes32_reads (x : BitVec 256) : Reads (readBinFixed 256) (writeBin (arrayBytes x)) x :=
  readBinFixed_reads rfl (by decide) x

theorem readBytes64_reads (x : BitVec 512) : Reads (readBinFixed 512) (writeBin (arrayBytes x)) x :=
  readBinFixed_reads rfl (by decide) x

theorem readBytes80_reads (x : BitVec 640) : Reads (readBinFixed 640) (writeBin (arrayBytes x)) x :=
  readBinFixed_reads rfl (by decide) x

theorem eq_of_absent {β : Type} [BEq β] [LawfulBEq β] {x zero : β} (h : (x != zero) = false) : x = zero := by
  simpa using h

theorem digest_of_absent {d : Digest} (h : (d.bytes != 0) = false) : d = Digest.zero :=
  congrArg Digest.mk (eq_of_absent h)

theorem address_of_absent {a : Address} (h : (a.bytes != 0) = false) : a = Address.zero :=
  congrArg Address.mk (eq_of_absent h)

theorem decodeProposalValue_reads {pv : ProposalValue} (h : pv.originalPeriod < u64Bound) :
    Reads decodeProposalValue (encodeProposalValue pv) pv := by
  refine decodeMap_reads (by decide) (ReadsFields.append (ReadsFields.append (ReadsFields.append
    (.field (b := ⟨0, .zero, pv.blockDigest, .zero⟩) (by decide) ?_ ?_)
    (.field (b := ⟨0, .zero, pv.blockDigest, pv.encodingDigest⟩) (by decide) ?_ ?_))
    (.field (b := ⟨pv.originalPeriod, .zero, pv.blockDigest, pv.encodingDigest⟩) (by decide) ?_ ?_))
    (.field (b := pv) (by decide) ?_ ?_))
  · intro _
    unfold decodeProposalField
    rw [if_pos rfl]
    exact Reads.set (readBytes32_reads _)
  · intro habsent
    rw [digest_of_absent habsent]
    rfl
  · intro _
    unfold decodeProposalField
    rw [if_neg (by decide), if_pos rfl]
    exact Reads.set (readBytes32_reads _)
  · intro habsent
    rw [digest_of_absent habsent]
  · intro _
    unfold decodeProposalField
    rw [if_neg (by decide), if_neg (by decide), if_pos rfl]
    exact Reads.set (readUint64_reads h)
  · intro habsent
    rw [eq_of_absent habsent]
  · intro _
    unfold decodeProposalField
    rw [if_neg (by decide), if_neg (by decide), if_neg (by decide), if_pos rfl]
    exact Reads.set (readBytes32_reads _)
  · intro habsent
    rw [← address_of_absent habsent]

/-- The numbers of a vote are 64-bit numbers. -/
structure RawVote64 (rv : RawVote) : Prop where
  period : rv.period < u64Bound
  round : rv.round < u64Bound
  step : rv.step < u64Bound
  original : rv.proposal.originalPeriod < u64Bound

theorem decodeRawVote_reads {rv : RawVote} (h : RawVote64 rv) : Reads decodeRawVote (encodeRawVote rv) rv := by
  refine decodeMap_reads (by decide) (ReadsFields.append (ReadsFields.append (ReadsFields.append (ReadsFields.append
    (.field (b := ⟨.zero, 0, rv.period, 0, Agreement.bottom⟩) (by decide) ?_ ?_)
    (.field (b := ⟨.zero, 0, rv.period, 0, rv.proposal⟩) (by decide) ?_ ?_))
    (.field (b := ⟨.zero, rv.round, rv.period, 0, rv.proposal⟩) (by decide) ?_ ?_))
    (.field (b := ⟨rv.sender, rv.round, rv.period, 0, rv.proposal⟩) (by decide) ?_ ?_))
    (.field (b := rv) (by decide) ?_ ?_))
  · intro _
    unfold decodeRawField
    rw [if_pos rfl]
    exact Reads.set (readUint64_reads h.period)
  · intro habsent
    rw [eq_of_absent habsent]
    rfl
  · intro _
    unfold decodeRawField
    rw [if_neg (by decide), if_pos rfl]
    exact Reads.set (decodeProposalValue_reads h.original)
  · intro habsent
    rw [eq_of_absent habsent]
  · intro _
    unfold decodeRawField
    rw [if_neg (by decide), if_neg (by decide), if_pos rfl]
    exact Reads.set (readUint64_reads h.round)
  · intro habsent
    rw [eq_of_absent habsent]
  · intro _
    unfold decodeRawField
    rw [if_neg (by decide), if_neg (by decide), if_neg (by decide), if_pos rfl]
    exact Reads.set (readBytes32_reads _)
  · intro habsent
    rw [address_of_absent habsent]
  · intro _
    unfold decodeRawField
    rw [if_neg (by decide), if_neg (by decide), if_neg (by decide), if_neg (by decide), if_pos rfl]
    exact Reads.set (readUint64_reads h.step)
  · intro habsent
    rw [← eq_of_absent habsent]

theorem encodeUnauthenticatedCredential_eq (proof : BitVec 640) :
    encodeUnauthenticatedCredential proof = writeMap (field "pf" (proof != 0) (writeBin (arrayBytes proof))) := by
  unfold encodeUnauthenticatedCredential
  by_cases h : proof = 0
  · have hzero : (proof != 0) = false := by simpa using h
    rw [hzero, if_pos (by simpa using h)]
    rfl
  · have hone : (proof != 0) = true := by simpa using h
    rw [hone, if_neg (by simpa using h)]
    simp only [field, if_true, writeMap, List.length_singleton, List.flatMap_singleton]
    rfl

theorem decodeUnauthenticatedCredential_reads (cred : UnauthenticatedCredential) :
    Reads decodeUnauthenticatedCredential (encodeUnauthenticatedCredential cred.proof) cred := by
  rw [encodeUnauthenticatedCredential_eq]
  refine decodeMap_reads (by decide) (.field (by decide) ?_ ?_)
  · intro _
    unfold decodeCredentialField
    rw [if_pos rfl]
    exact Reads.set (readBytes80_reads _)
  · intro habsent
    exact congrArg UnauthenticatedCredential.mk (eq_of_absent habsent).symm

theorem encodeOneTimeSignature_eq (sig : OneTimeSignature) : encodeOneTimeSignature sig =
    writeMap (field "p" true (writeBin (arrayBytes sig.pk)) ++ field "p1s" true (writeBin (arrayBytes sig.pk1Sig)) ++
      field "p2" true (writeBin (arrayBytes sig.pk2)) ++ field "p2s" true (writeBin (arrayBytes sig.pk2Sig)) ++
      field "ps" true (writeBin (arrayBytes sig.pkSigOld)) ++ field "s" true (writeBin (arrayBytes sig.sig))) := by
  have hlen : writeMapLen 6 = [0x86] := by decide
  unfold encodeOneTimeSignature writeMap
  simp only [field, if_true, List.cons_append, List.length_cons, List.length_nil, List.flatMap_cons,
    List.flatMap_nil, List.append_assoc, List.append_nil, Nat.zero_add, Nat.reduceAdd, hlen, List.nil_append]

theorem decodeOneTimeSignature_reads (sig : OneTimeSignature) :
    Reads decodeOneTimeSignature (encodeOneTimeSignature sig) sig := by
  rw [encodeOneTimeSignature_eq]
  refine decodeMap_reads (by decide) (ReadsFields.append (ReadsFields.append (ReadsFields.append (ReadsFields.append
    (ReadsFields.append
    (.always (b := { zeroSignature with pk := sig.pk }) (by decide) ?_)
    (.always (b := { zeroSignature with pk := sig.pk, pk1Sig := sig.pk1Sig }) (by decide) ?_))
    (.always (b := { zeroSignature with pk := sig.pk, pk1Sig := sig.pk1Sig, pk2 := sig.pk2 }) (by decide) ?_))
    (.always (b := ⟨0, sig.pk, 0, sig.pk2, sig.pk1Sig, sig.pk2Sig⟩) (by decide) ?_))
    (.always (b := ⟨0, sig.pk, sig.pkSigOld, sig.pk2, sig.pk1Sig, sig.pk2Sig⟩) (by decide) ?_))
    (.always (by decide) ?_))
  · unfold decodeSignatureField
    rw [if_pos rfl]
    exact Reads.set (readBytes32_reads _)
  · unfold decodeSignatureField
    rw [if_neg (by decide), if_pos rfl]
    exact Reads.set (readBytes64_reads _)
  · unfold decodeSignatureField
    rw [if_neg (by decide), if_neg (by decide), if_pos rfl]
    exact Reads.set (readBytes32_reads _)
  · unfold decodeSignatureField
    rw [if_neg (by decide), if_neg (by decide), if_neg (by decide), if_pos rfl]
    exact Reads.set (readBytes64_reads _)
  · unfold decodeSignatureField
    rw [if_neg (by decide), if_neg (by decide), if_neg (by decide), if_neg (by decide), if_pos rfl]
    exact Reads.set (readBytes64_reads _)
  · unfold decodeSignatureField
    rw [if_neg (by decide), if_neg (by decide), if_neg (by decide), if_neg (by decide), if_neg (by decide), if_pos rfl]
    exact Reads.set (readBytes64_reads _)

theorem otsIsZero_iff {sig : OneTimeSignature} : otsIsZero sig = true ↔ sig = zeroSignature := by
  obtain ⟨s, p, ps, p2, p1s, p2s⟩ := sig
  simp only [otsIsZero, zeroSignature, Bool.and_eq_true, beq_iff_eq, OneTimeSignature.mk.injEq, and_assoc]

theorem signature_of_absent {sig : OneTimeSignature} (h : (!otsIsZero sig) = false) : sig = zeroSignature :=
  otsIsZero_iff.1 (by simpa using h)

/-- Only the zero credential and the zero vote are written as an empty map. -/
theorem credential_of_absent {cred : UnauthenticatedCredential}
    (h : (encodeUnauthenticatedCredential cred.proof != [0x80]) = false) : cred = ⟨0⟩ := by
  have hread := decodeUnauthenticatedCredential_reads cred
  have hzero := decodeUnauthenticatedCredential_reads ⟨0⟩
  have hempty : encodeUnauthenticatedCredential 0 = [0x80] := by
    unfold encodeUnauthenticatedCredential
    rw [if_pos (beq_self_eq_true _)]
  rw [eq_of_absent h] at hread
  rw [hempty] at hzero
  exact hread.inj hzero

def zeroRawVote : RawVote := ⟨.zero, 0, 0, 0, Agreement.bottom⟩

theorem rawVote_of_absent {rv : RawVote} (h64 : RawVote64 rv) (h : (encodeRawVote rv != [0x80]) = false) :
    rv = zeroRawVote := by
  have hread := decodeRawVote_reads h64
  rw [eq_of_absent h] at hread
  exact hread.inj (@decodeRawVote_reads zeroRawVote ⟨by decide, by decide, by decide, by decide⟩)

theorem decodeVoteFromCursor_reads {vote : UnauthenticatedVote} (h : RawVote64 vote.rawVote) :
    Reads decodeVoteFromCursor (encodeVote vote) vote := by
  refine decodeMap_reads (by decide) (ReadsFields.append (ReadsFields.append
    (.field (b := ⟨zeroRawVote, vote.cred, zeroSignature⟩) (by decide) ?_ ?_)
    (.field (b := ⟨vote.rawVote, vote.cred, zeroSignature⟩) (by decide) ?_ ?_))
    (.field (b := vote) (by decide) ?_ ?_))
  · intro _
    unfold decodeVoteField
    rw [if_pos rfl]
    exact Reads.set (decodeUnauthenticatedCredential_reads _)
  · intro habsent
    rw [credential_of_absent habsent]
    rfl
  · intro _
    unfold decodeVoteField
    rw [if_neg (by decide), if_pos rfl]
    exact Reads.set (decodeRawVote_reads h)
  · intro habsent
    rw [rawVote_of_absent h habsent]
  · intro _
    unfold decodeVoteField
    rw [if_neg (by decide), if_neg (by decide), if_pos rfl]
    exact Reads.set (decodeOneTimeSignature_reads _)
  · intro habsent
    rw [← signature_of_absent habsent]

theorem decodeVote_encodeVote {vote : UnauthenticatedVote} (h : RawVote64 vote.rawVote) :
    decodeVote (encodeVote vote) = .ok vote := by
  unfold decodeVote
  rw [(decodeVoteFromCursor_reads h).whole]
  rfl

/-! ## Bundles -/

theorem decodeVoteAuthenticator_reads (auth : VoteAuthenticator) :
    Reads decodeVoteAuthenticator (encodeVoteAuthenticator auth) auth := by
  refine decodeMap_reads (by decide) (ReadsFields.append (ReadsFields.append
    (.always (b := ⟨.zero, auth.cred, zeroSignature⟩) (by decide) ?_)
    (.field (b := ⟨.zero, auth.cred, auth.sig⟩) (by decide) ?_ ?_))
    (.always (by decide) ?_))
  · unfold decodeAuthenticatorField
    rw [if_pos rfl]
    exact Reads.set (decodeUnauthenticatedCredential_reads _)
  · intro _
    unfold decodeAuthenticatorField
    rw [if_neg (by decide), if_pos rfl]
    exact Reads.set (decodeOneTimeSignature_reads _)
  · intro habsent
    rw [signature_of_absent habsent]
  · unfold decodeAuthenticatorField
    rw [if_neg (by decide), if_neg (by decide), if_pos rfl]
    exact Reads.set (readBytes32_reads _)

theorem decodePair_reads {α : Type} {context expected : String} {r : Cursor α} {x y : Bytes} {a b : α} (h : Reads r x a)
    (h' : Reads r y b) : Reads (decodePair context expected r) (writeArrayLen 2 ++ (x ++ y)) (a, b) :=
  (readArrayLen_reads _ (by decide)).bind (h.bind (h'.bind_pure (.pure _)))

/-- The periods of the proposals of a pair are 64-bit numbers. -/
def Pair64 (auth : EquivocationVoteAuthenticator) : Prop :=
  auth.proposals.1.originalPeriod < u64Bound ∧ auth.proposals.2.originalPeriod < u64Bound

theorem decodeEquivocationVoteAuthenticator_reads {auth : EquivocationVoteAuthenticator} (h : Pair64 auth) :
    Reads decodeEquivocationVoteAuthenticator (encodeEquivocationVoteAuthenticator auth) auth := by
  refine decodeMap_reads (by decide) (ReadsFields.append (ReadsFields.append (ReadsFields.append
    (.always (b := ⟨.zero, auth.cred, (zeroSignature, zeroSignature), (Agreement.bottom, Agreement.bottom)⟩) (by decide) ?_)
    (.always (b := ⟨.zero, auth.cred, (zeroSignature, zeroSignature), auth.proposals⟩) (by decide) ?_))
    (.field (b := ⟨.zero, auth.cred, auth.sigs, auth.proposals⟩) (by decide) ?_ ?_))
    (.always (by decide) ?_))
  · unfold decodePairField
    rw [if_pos rfl]
    exact Reads.set (decodeUnauthenticatedCredential_reads _)
  · unfold decodePairField
    rw [if_neg (by decide), if_pos rfl]
    exact Reads.set (decodePair_reads (decodeProposalValue_reads h.1) (decodeProposalValue_reads h.2))
  · intro _
    unfold decodePairField
    rw [if_neg (by decide), if_neg (by decide), if_pos rfl]
    exact Reads.set (decodePair_reads (decodeOneTimeSignature_reads _) (decodeOneTimeSignature_reads _))
  · intro habsent
    have hzero : otsIsZero auth.sigs.1 = true ∧ otsIsZero auth.sigs.2 = true := by simpa using habsent
    have hsigs : auth.sigs = (zeroSignature, zeroSignature) :=
      Prod.ext (otsIsZero_iff.1 hzero.1) (otsIsZero_iff.1 hzero.2)
    rw [hsigs]
  · unfold decodePairField
    rw [if_neg (by decide), if_neg (by decide), if_neg (by decide), if_pos rfl]
    exact Reads.set (readBytes32_reads _)

theorem readList_reads {α : Type} {r : Cursor α} {write : α → Bytes} {as : List α} (h : ∀ a ∈ as, Reads r (write a) a) :
    Reads (readList r as.length) (as.flatMap write) as := by
  have hread := @times_reads _ _ _ _ (fun (vs : List α) => do
    let v ← r
    pure (vs ++ [v])) write (fun vs a => vs ++ [a]) as [] (fun a ha vs => Reads.set (h a ha))
  have hfold : ∀ (l : List α) (vs : List α), l.foldl (fun vs a => vs ++ [a]) vs = vs ++ l := by
    intro l
    induction l with
    | nil => simp
    | cons a l ih =>
      intro vs
      rw [List.foldl_cons, ih]
      simp
  rw [hfold, List.nil_append] at hread
  exact hread

theorem decodeVotes_reads {α : Type} {context tooLong : String} {r : Cursor α} {write : α → Bytes} {as : List α}
    (hlen : as.length ≤ maxBundleArrayLen) (h : ∀ a ∈ as, Reads r (write a) a) :
    Reads (decodeVotes context tooLong r) (writeArrayLen as.length ++ as.flatMap write) as := by
  have hbound : maxBundleArrayLen < 2 ^ 16 := by decide
  refine (readArrayLen_reads _ (Nat.lt_of_le_of_lt hlen hbound)).bind ?_
  rw [if_neg (Nat.not_lt.2 hlen)]
  exact readList_reads h

/-- The numbers of a bundle are 64-bit numbers. -/
structure Bundle64 (bundle : UnauthenticatedBundle) : Prop where
  period : bundle.period < u64Bound
  round : bundle.round < u64Bound
  step : bundle.step < u64Bound
  original : bundle.proposal.originalPeriod < u64Bound
  pairs : ∀ auth ∈ bundle.equivocationVotes, Pair64 auth

theorem list_of_absent {α : Type} {as : List α} (h : (!as.isEmpty) = false) : as = [] := by
  simpa using h

theorem decodeBundle_reads {bundle : UnauthenticatedBundle} (h : Bundle64 bundle)
    (hvotes : bundle.votes.length ≤ maxBundleArrayLen) (hpairs : bundle.equivocationVotes.length ≤ maxBundleArrayLen) :
    Reads (decodeMap "bundle map" ⟨0, 0, 0, Agreement.bottom, [], []⟩ decodeBundleField) (encodeBundle bundle) bundle := by
  refine decodeMap_reads (by decide) (ReadsFields.append (ReadsFields.append (ReadsFields.append (ReadsFields.append
    (ReadsFields.append
    (.field (b := ⟨0, 0, 0, Agreement.bottom, [], bundle.equivocationVotes⟩) (by decide) ?_ ?_)
    (.field (b := ⟨0, bundle.period, 0, Agreement.bottom, [], bundle.equivocationVotes⟩) (by decide) ?_ ?_))
    (.field (b := ⟨0, bundle.period, 0, bundle.proposal, [], bundle.equivocationVotes⟩) (by decide) ?_ ?_))
    (.field (b := ⟨bundle.round, bundle.period, 0, bundle.proposal, [], bundle.equivocationVotes⟩) (by decide) ?_ ?_))
    (.field (b := ⟨bundle.round, bundle.period, bundle.step, bundle.proposal, [], bundle.equivocationVotes⟩) (by decide)
      ?_ ?_))
    (.field (b := bundle) (by decide) ?_ ?_))
  · intro _
    unfold decodeBundleField
    rw [if_pos rfl]
    exact Reads.set (decodeVotes_reads hpairs (fun auth hauth =>
      decodeEquivocationVoteAuthenticator_reads (h.pairs auth hauth)))
  · intro habsent
    rw [list_of_absent habsent]
  · intro _
    unfold decodeBundleField
    rw [if_neg (by decide), if_pos rfl]
    exact Reads.set (readUint64_reads h.period)
  · intro habsent
    rw [eq_of_absent habsent]
  · intro _
    unfold decodeBundleField
    rw [if_neg (by decide), if_neg (by decide), if_pos rfl]
    exact Reads.set (decodeProposalValue_reads h.original)
  · intro habsent
    rw [eq_of_absent habsent]
  · intro _
    unfold decodeBundleField
    rw [if_neg (by decide), if_neg (by decide), if_neg (by decide), if_pos rfl]
    exact Reads.set (readUint64_reads h.round)
  · intro habsent
    rw [eq_of_absent habsent]
  · intro _
    unfold decodeBundleField
    rw [if_neg (by decide), if_neg (by decide), if_neg (by decide), if_neg (by decide), if_pos rfl]
    exact Reads.set (readUint64_reads h.step)
  · intro habsent
    rw [eq_of_absent habsent]
  · intro _
    unfold decodeBundleField
    rw [if_neg (by decide), if_neg (by decide), if_neg (by decide), if_neg (by decide), if_neg (by decide), if_pos rfl]
    exact Reads.set (decodeVotes_reads hvotes (fun auth _ => decodeVoteAuthenticator_reads auth))
  · intro habsent
    rw [← list_of_absent habsent]

theorem decodeBundle_encodeBundle {bundle : UnauthenticatedBundle} (h : Bundle64 bundle)
    (hvotes : bundle.votes.length ≤ maxBundleArrayLen) (hpairs : bundle.equivocationVotes.length ≤ maxBundleArrayLen) :
    decodeBundle (encodeBundle bundle) = .ok bundle := by
  unfold decodeBundle
  rw [(decodeBundle_reads h hvotes hpairs).whole]
  rfl

end Network
end Algod
