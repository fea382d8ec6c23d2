import AlgodRust.Basics
import AlgodRust.Lib.BitGroups
import AlgodRust.Lib.Msgpack
import AlgodRust.Lib.Numeral
/-!
# Passphrase — keys as twenty-five words

The bytes of a key are regrouped into words of eleven bits, the last of which has eight bits to spare, and a word of a
checksum is added.  The way back regroups the words into one byte more than a key has, and that byte has to be zero.
Both ways keep the number that the groups spell (`toUint11Array_regrouped`, `toByteArray_regrouped`), so a key has one
sequence of words and no other is accepted for it.
-/
namespace Algod
namespace Crypto

open Msgpack (Bytes)
open Numeral (Str)
open BitGroups (Regroup Regrouped)

inductive PassphraseError
  | wrongKeyLen
  | wrongMnemonicLen
  | wordNotInList (word : Str)
  | wrongChecksum
deriving DecidableEq, Repr

/-- The list of words, one for every number of eleven bits. -/
structure Wordlist where
  words : List Str
  length_words : words.length = 2048
  nodup : words.Nodup
  plain : ∀ w ∈ words, w ≠ [] ∧ ' ' ∉ w

/-! ## Regrouping -/

def uint11Loop : List UInt8 → Nat → Nat → List Nat → List Nat
  | [], buffer, bits, out => if bits ≠ 0 then out ++ [buffer &&& 0x7ff] else out
  | byte :: rest, buffer, bits, out =>
    let buffer := buffer ||| byte.toNat <<< bits
    let bits := bits + 8
    if bits ≥ 11 then uint11Loop rest (buffer >>> 11) (bits - 11) (out ++ [buffer &&& 0x7ff])
    else uint11Loop rest buffer bits out

def toUint11Array (arr : Bytes) : List Nat := uint11Loop arr 0 0 []

/-- The bytes that are complete leave the buffer. -/
def drainBytes (buffer bits : Nat) (out : Bytes) : Nat × Nat × Bytes :=
  if 8 ≤ bits then drainBytes (buffer >>> 8) (bits - 8) (out ++ [UInt8.ofNat (buffer &&& 0xff)]) else (buffer, bits, out)
termination_by bits

def byteLoop : List Nat → Nat → Nat → Bytes → Bytes
  | [], buffer, bits, out => if bits ≠ 0 then out ++ [UInt8.ofNat buffer] else out
  | v :: rest, buffer, bits, out =>
    let drained := drainBytes (buffer ||| v <<< bits) (bits + 11) out
    byteLoop rest drained.1 drained.2.1 drained.2.2

def toByteArray (arr : List Nat) : Bytes := byteLoop arr 0 0 []

variable {buffer bits : Nat}

theorem uint11Loop_regrouped {rest : Bytes} {read : List Nat} {out : List Nat} (hbits : bits < 11)
    (h : Regroup 8 11 read buffer bits out) :
    Regrouped 8 11 (read ++ rest.map UInt8.toNat) (uint11Loop rest buffer bits out) := by
  induction rest generalizing read buffer bits out with
  | nil =>
    rw [List.map_nil, List.append_nil]
    unfold uint11Loop
    by_cases hpos : bits = 0
    · subst hpos
      rw [if_neg (by simp)]
      exact h.done (by decide)
    · have hmask : buffer &&& 0x7ff = buffer := by
        have hlt : buffer < 2 ^ 11 := h.fits.trans (Nat.pow_lt_pow_right (by decide) hbits)
        rw [show (0x7ff : Nat) = 2 ^ 11 - 1 by rfl, Nat.and_two_pow_sub_one_eq_mod, Nat.mod_eq_of_lt hlt]
      rw [if_pos hpos, hmask]
      exact h.flush hpos hbits
  | cons byte rest ih =>
    have habsorb := h.absorb (d := byte.toNat) byte.toNat_lt
    rw [List.map_cons, ← List.singleton_append, ← List.append_assoc]
    unfold uint11Loop
    simp only
    by_cases hfull : bits + 8 ≥ 11
    · rw [if_pos hfull]
      exact ih (by omega) (habsorb.emit hfull)
    · rw [if_neg hfull]
      exact ih (by omega) habsorb

theorem toUint11Array_regrouped (arr : Bytes) : Regrouped 8 11 (arr.map UInt8.toNat) (toUint11Array arr) := by
  have hnil : Regroup 8 11 [] 0 0 [] := Regroup.nil
  exact uint11Loop_regrouped (by decide) hnil

theorem drainBytes_regroup {read : List Nat} {out : Bytes} (h : Regroup 11 8 read buffer bits (out.map UInt8.toNat)) :
    Regroup 11 8 read (drainBytes buffer bits out).1 (drainBytes buffer bits out).2.1
      ((drainBytes buffer bits out).2.2.map UInt8.toNat) ∧ (drainBytes buffer bits out).2.1 < 8 := by
  induction bits using Nat.strong_induction_on generalizing buffer out with
  | _ bits ih =>
    unfold drainBytes
    by_cases hfull : 8 ≤ bits
    · rw [if_pos hfull]
      refine ih (bits - 8) (by omega) ?_
      have hemit := h.emit hfull
      have hbyte : (UInt8.ofNat (buffer &&& 0xff)).toNat = buffer &&& (2 ^ 8 - 1) := by
        rw [Nat.and_two_pow_sub_one_eq_mod, UInt8.toNat_ofNat', show (0xff : Nat) = 2 ^ 8 - 1 by rfl,
          Nat.and_two_pow_sub_one_eq_mod, Nat.mod_mod]
      rwa [List.map_append, List.map_singleton, hbyte]
    · rw [if_neg hfull]
      exact ⟨h, Nat.lt_of_not_le hfull⟩

theorem byteLoop_regrouped {rest read : List Nat} {out : Bytes} (hbits : bits < 8)
    (hrest : ∀ v ∈ rest, v < 2 ^ 11) (h : Regroup 11 8 read buffer bits (out.map UInt8.toNat)) :
    Regrouped 11 8 (read ++ rest) ((byteLoop rest buffer bits out).map UInt8.toNat) := by
  induction rest generalizing read buffer bits out with
  | nil =>
    rw [List.append_nil]
    unfold byteLoop
    by_cases hpos : bits = 0
    · subst hpos
      rw [if_neg (by simp)]
      exact h.done (by decide)
    · have hbyte : (UInt8.ofNat buffer).toNat = buffer := by
        have hlt : buffer < 2 ^ 8 := h.fits.trans (Nat.pow_lt_pow_right (by decide) hbits)
        rw [UInt8.toNat_ofNat', Nat.mod_eq_of_lt hlt]
      rw [if_pos hpos, List.map_append, List.map_singleton, hbyte]
      exact h.flush hpos hbits
  | cons v rest ih =>
    rw [← List.singleton_append, ← List.append_assoc]
    unfold byteLoop
    obtain ⟨hdrained, hfew⟩ := drainBytes_regroup (h.absorb (hrest v List.mem_cons_self))
    exact ih hfew (fun x hx => hrest x (List.mem_cons_of_mem _ hx)) hdrained

theorem toByteArray_regrouped {arr : List Nat} (harr : ∀ v ∈ arr, v < 2 ^ 11) :
    Regrouped 11 8 arr ((toByteArray arr).map UInt8.toNat) := by
  have hnil : Regroup 11 8 [] 0 0 (([] : Bytes).map UInt8.toNat) := Regroup.nil
  exact byteLoop_regrouped (by decide) harr hnil

theorem length_toUint11Array {key : Bytes} (hkey : key.length = 32) : (toUint11Array key).length = 24 := by
  have henough := (toUint11Array_regrouped key).enough
  have htight := (toUint11Array_regrouped key).tight
  rw [List.length_map, hkey] at henough htight
  omega

theorem length_toByteArray {arr : List Nat} (harr : ∀ v ∈ arr, v < 2 ^ 11) (hlength : arr.length = 24) :
    (toByteArray arr).length = 33 := by
  have henough := (toByteArray_regrouped harr).enough
  have htight := (toByteArray_regrouped harr).tight
  rw [List.length_map, hlength] at henough htight
  omega

/-- A key and a zero byte are the bytes of its groups, and of no others. -/
theorem toByteArray_eq_iff {arr : List Nat} {key : Bytes} (harr : ∀ v ∈ arr, v < 2 ^ 11) (hlength : arr.length = 24)
    (hkey : key.length = 32) : toByteArray arr = key ++ [0] ↔ arr = toUint11Array key := by
  have hbytes := toByteArray_regrouped harr
  have hgroups := toUint11Array_regrouped key
  have hcount := length_toUint11Array hkey
  have hsize := length_toByteArray harr hlength
  have hpad : Nat.ofDigits (2 ^ 8) ((key ++ [0]).map UInt8.toNat) = Nat.ofDigits (2 ^ 8) (key.map UInt8.toNat) := by
    rw [List.map_append, List.map_singleton]
    exact Nat.ofDigits_append_zero _
  have hvalue : Nat.ofDigits (2 ^ 11) (toUint11Array key) = Nat.ofDigits (2 ^ 8) (key.map UInt8.toNat) := hgroups.value
  constructor
  · intro h
    have hsame := hbytes.value
    rw [h, hpad, ← hvalue] at hsame
    exact Nat.ofDigits_inj_of_len_eq (by decide) (by omega) harr hgroups.small hsame.symm
  · intro h
    have hsame := hbytes.value
    rw [h, hvalue, ← hpad] at hsame
    have hmap := Nat.ofDigits_inj_of_len_eq (by decide) (by simp [hsize, hkey, ← h]) (h ▸ hbytes.small)
      (fun x hx => by obtain ⟨b, -, rfl⟩ := List.mem_map.1 hx; exact b.toNat_lt) hsame
    rw [h]
    exact List.map_injective_iff.2 (fun _ _ h => UInt8.toNat_inj.1 h) hmap

/-! ## Words -/

section Words

variable (L : Wordlist) (sha512t256 : Bytes → Digest) {key : Bytes}

/-- The word of a number. -/
def Wordlist.word (idx : Nat) : Str := L.words.getD idx []

/-- The first eleven bits of the hash. -/
def checksumWord (data : Bytes) : Str :=
  L.word ((toUint11Array ((Msgpack.beBytes 32 (sha512t256 data).bytes.toNat).take 2)).headD 0)

/-- The words behind what is there, each but the first after a space. -/
def pushWords : Bool → List Str → Str
  | _, [] => []
  | first, w :: ws => (if first then [] else [' ']) ++ w ++ pushWords false ws

def keyToMnemonic (key : Bytes) : Except PassphraseError Str :=
  if key.length ≠ 32 then .error .wrongKeyLen
  else
    let chk := checksumWord L sha512t256 key
    let uint11 := toUint11Array key
    .ok (pushWords true (uint11.map L.word) ++ [' '] ++ chk)

/-- The words of a text: what stands between spaces, without what is empty. -/
def wordsOf (mnemonic : Str) : List Str := (mnemonic.splitOn ' ').filter (fun w => !w.isEmpty)

def mnemonicToKey (mnemonic : Str) : Except PassphraseError Bytes :=
  let words := wordsOf mnemonic
  if words.length ≠ 25 then .error .wrongMnemonicLen
  else
    match words.find? (fun w => !L.words.contains w) with
    | some w => .error (.wordNotInList w)
    | none =>
      let byteArr := toByteArray ((words.take 24).map (fun w => L.words.idxOf w))
      if byteArr.length ≠ 33 then .error .wrongKeyLen
      else if byteArr.getD 32 0 ≠ 0 then .error .wrongChecksum
      else
        let key := byteArr.take 32
        if checksumWord L sha512t256 key ≠ words.getD 24 [] then .error .wrongChecksum else .ok key

/-- The twenty-five words of a key. -/
def keyWords (key : Bytes) : List Str := (toUint11Array key).map L.word ++ [checksumWord L sha512t256 key]

variable {L sha512t256}

theorem Wordlist.word_mem {idx : Nat} (h : idx < 2 ^ 11) : L.word idx ∈ L.words := by
  have hlt : idx < L.words.length := by rw [L.length_words]; exact h
  unfold Wordlist.word
  rw [List.getD_eq_getElem?_getD, List.getElem?_eq_getElem hlt]
  exact List.getElem_mem hlt

theorem Wordlist.word_idxOf {w : Str} (h : w ∈ L.words) : L.word (L.words.idxOf w) = w := by
  unfold Wordlist.word
  rw [List.getD_eq_getElem?_getD, List.getElem?_eq_getElem (List.idxOf_lt_length_of_mem h)]
  simp

theorem Wordlist.idxOf_word {idx : Nat} (h : idx < 2 ^ 11) : L.words.idxOf (L.word idx) = idx := by
  have hlt : idx < L.words.length := by rw [L.length_words]; exact h
  unfold Wordlist.word
  rw [List.getD_eq_getElem?_getD, List.getElem?_eq_getElem hlt]
  exact L.nodup.idxOf_getElem idx hlt

theorem checksumWord_mem (data : Bytes) : checksumWord L sha512t256 data ∈ L.words := by
  have hgroups := toUint11Array_regrouped ((Msgpack.beBytes 32 (sha512t256 data).bytes.toNat).take 2)
  unfold checksumWord
  apply Wordlist.word_mem
  cases hcase : toUint11Array ((Msgpack.beBytes 32 (sha512t256 data).bytes.toNat).take 2) with
  | nil => exact Nat.two_pow_pos 11
  | cons d ds => exact hgroups.small d (by rw [hcase]; exact List.mem_cons_self)

theorem keyWords_mem {w : Str} (h : w ∈ keyWords L sha512t256 key) : w ∈ L.words := by
  rcases List.mem_append.1 h with h | h
  · obtain ⟨idx, hidx, rfl⟩ := List.mem_map.1 h
    exact Wordlist.word_mem ((toUint11Array_regrouped key).small idx hidx)
  · rw [List.mem_singleton.1 h]
    exact checksumWord_mem key

theorem pushWords_false (ws : List Str) : pushWords false ws = ws.flatMap (fun w => ' ' :: w) := by
  induction ws with
  | nil => rfl
  | cons w ws ih => simp [pushWords, ih]

/-- The words of the text that was written are those that were put into it. -/
theorem wordsOf_pushWords {ws : List Str} (hne : ws ≠ []) (hplain : ∀ w ∈ ws, w ≠ [] ∧ ' ' ∉ w) :
    wordsOf (pushWords true ws) = ws := by
  have hjoin : pushWords true ws = [' '].intercalate ws := by
    cases ws with
    | nil => exact absurd rfl hne
    | cons w ws =>
      have htail : ∀ (w : Str), w ++ ws.flatMap (fun w => ' ' :: w) = [' '].intercalate (w :: ws) := by
        induction ws with
        | nil => simp
        | cons w' ws ih =>
          intro w
          rw [List.flatMap_cons, List.intercalate_cons_cons, ← ih (by simp) (fun x hx => hplain x (by
            rcases List.mem_cons.1 hx with rfl | hx
            · exact List.mem_cons_self
            · exact List.mem_cons_of_mem _ (List.mem_cons_of_mem _ hx))) w']
          simp
      simp only [pushWords, pushWords_false, if_true, List.nil_append]
      exact htail w
  unfold wordsOf
  rw [hjoin, List.splitOn_intercalate ' ' (fun w hw => (hplain w hw).2) hne, List.filter_eq_self]
  intro w hw
  simpa using (hplain w hw).1

theorem eq_take_concat {α : Type} {l : List α} {n : Nat} (d : α) (hlength : l.length = n + 1) :
    l = l.take n ++ [l.getD n d] := by
  rw [List.getD_eq_getElem?_getD, List.getElem?_eq_getElem (by omega), Option.getD_some, ← List.take_succ_eq_append_getElem,
    List.take_of_length_le (by omega)]

theorem eq_of_accepted {α : Type} [DecidableEq α] {a b : α} {e : PassphraseError} {x : Except PassphraseError Bytes}
    (h : (if a ≠ b then .error e else x) = .ok key) : a = b ∧ x = .ok key := by
  split at h
  · cases h
  · exact ⟨not_not.1 ‹_›, h⟩

theorem wordsOf_accepted {mnemonic : Str} (h : mnemonicToKey L sha512t256 mnemonic = .ok key) :
    key.length = 32 ∧ wordsOf mnemonic = keyWords L sha512t256 key := by
  unfold mnemonicToKey at h
  simp only at h
  generalize wordsOf mnemonic = words at h ⊢
  obtain ⟨hcount, h⟩ := eq_of_accepted h
  cases hfind : words.find? (fun w => !L.words.contains w) with
  | some w => simp only [hfind] at h; cases h
  | none =>
    simp only [hfind] at h
    have hlisted : ∀ w ∈ words, w ∈ L.words := by
      intro w hw
      simpa using List.find?_eq_none.1 hfind w hw
    obtain ⟨arr, harr⟩ : ∃ arr, arr = (words.take 24).map (fun w => L.words.idxOf w) := ⟨_, rfl⟩
    have hsmall : ∀ v ∈ arr, v < 2 ^ 11 := by
      intro v hv
      rw [harr] at hv
      obtain ⟨w, hw, rfl⟩ := List.mem_map.1 hv
      have hlt := List.idxOf_lt_length_of_mem (hlisted w (List.mem_of_mem_take hw))
      rwa [L.length_words] at hlt
    have hlength : arr.length = 24 := by rw [harr, List.length_map, List.length_take]; omega
    have hsize := length_toByteArray hsmall hlength
    rw [← harr, if_neg (by omega)] at h
    obtain ⟨hpad, h⟩ := eq_of_accepted h
    obtain ⟨hchk, h⟩ := eq_of_accepted h
    cases h
    have hlen : ((toByteArray arr).take 32).length = 32 := by rw [List.length_take]; omega
    have hsplit : toByteArray arr = (toByteArray arr).take 32 ++ [0] := by
      have hlast := eq_take_concat (l := toByteArray arr) 0 hsize
      rwa [hpad] at hlast
    have hwords : (words.take 24).map (L.word ∘ fun w => L.words.idxOf w) = words.take 24 := by
      refine (List.map_congr_left fun w hw => ?_).trans (List.map_id _)
      exact Wordlist.word_idxOf (hlisted w (List.mem_of_mem_take hw))
    refine ⟨hlen, ?_⟩
    unfold keyWords
    rw [← (toByteArray_eq_iff hsmall hlength hlen).1 hsplit, hchk, harr, List.map_map, hwords]
    exact eq_take_concat [] hcount

/-- **A text is accepted for a key if and only if its words are those of the key.** -/
theorem mnemonicToKey_eq_ok {mnemonic : Str} :
    mnemonicToKey L sha512t256 mnemonic = .ok key ↔
      key.length = 32 ∧ wordsOf mnemonic = keyWords L sha512t256 key := by
  refine ⟨wordsOf_accepted, ?_⟩
  rintro ⟨hkey, hwords⟩
  have hcount := length_toUint11Array hkey
  have hsmall := (toUint11Array_regrouped key).small
  have hlength : (keyWords L sha512t256 key).length = 25 := by simp [keyWords, hcount]
  have htake : (keyWords L sha512t256 key).take 24 = (toUint11Array key).map L.word := by
    unfold keyWords
    rw [List.take_append_of_le_length (by simp [hcount]), List.take_of_length_le (by simp [hcount])]
  have hchk : (keyWords L sha512t256 key).getD 24 [] = checksumWord L sha512t256 key := by
    simp [keyWords, List.getD_eq_getElem?_getD, hcount]
  have hlisted : (keyWords L sha512t256 key).find? (fun w => !L.words.contains w) = none := by
    rw [List.find?_eq_none]
    intro w hw
    simpa using keyWords_mem hw
  have hindices : (((toUint11Array key).map L.word).map (fun w => L.words.idxOf w)) = toUint11Array key := by
    rw [List.map_map]
    refine (List.map_congr_left fun idx hidx => ?_).trans (List.map_id _)
    exact Wordlist.idxOf_word (hsmall idx hidx)
  have hbytes := (toByteArray_eq_iff hsmall hcount hkey).2 rfl
  have hpad : (key ++ [0]).getD 32 0 = 0 := by
    simp [List.getD_eq_getElem?_getD, hkey]
  have hback : (key ++ [0]).take 32 = key := by
    rw [List.take_append_of_le_length (by omega), List.take_of_length_le (by omega)]
  unfold mnemonicToKey
  simp only [hwords, hlength, hlisted, htake, hindices, hbytes, hchk, hpad, hback]
  simp [hkey]

/-- **Keys and sequences of words are in bijection**: a key has a mnemonic, which is read back as the key, and the texts
that are read as the key are those with the words of its mnemonic; what is read is always a key. -/
theorem mnemonic_bijection (L : Wordlist) (sha512t256 : Bytes → Digest) :
    (∀ key : Bytes, key.length = 32 → ∃ mnemonic, keyToMnemonic L sha512t256 key = .ok mnemonic ∧
      mnemonicToKey L sha512t256 mnemonic = .ok key ∧
      ∀ s, mnemonicToKey L sha512t256 s = .ok key ↔ wordsOf s = wordsOf mnemonic) ∧
    ∀ s key, mnemonicToKey L sha512t256 s = .ok key → key.length = 32 := by
  refine ⟨fun key hkey => ?_, fun s key h => (mnemonicToKey_eq_ok.1 h).1⟩
  have hcount := length_toUint11Array hkey
  have hne : (toUint11Array key).map L.word ≠ [] := by
    intro h
    have hlen := congrArg List.length h
    simp [hcount] at hlen
  have hpushed : pushWords true ((toUint11Array key).map L.word) ++ [' '] ++ checksumWord L sha512t256 key =
      pushWords true (keyWords L sha512t256 key) := by
    unfold keyWords
    cases hwords : (toUint11Array key).map L.word with
    | nil => exact absurd hwords hne
    | cons w ws => simp [pushWords, pushWords_false]
  have hread : wordsOf (pushWords true (keyWords L sha512t256 key)) = keyWords L sha512t256 key :=
    wordsOf_pushWords (by simp [keyWords]) fun w hw => L.plain w (keyWords_mem hw)
  refine ⟨pushWords true (keyWords L sha512t256 key), ?_, mnemonicToKey_eq_ok.2 ⟨hkey, hread⟩, fun s => ?_⟩
  · unfold keyToMnemonic
    rw [if_neg (by simpa using hkey)]
    simp only [hpushed]
  · rw [hread, mnemonicToKey_eq_ok]
    exact and_iff_right hkey

/-- A list of words: one letter, two, and so on. -/
def tallyWords : Wordlist where
  words := (List.range 2048).map (fun i => List.replicate (i + 1) 'a')
  length_words := by simp
  nodup := List.nodup_range.map fun i j h => by have := congrArg List.length h; simpa using this
  plain w hw := by
    obtain ⟨i, -, rfl⟩ := List.mem_map.1 hw
    exact ⟨by simp, by simp [List.mem_replicate]⟩

/-- The bytes as a number, for a hash. -/
def numeral (data : Bytes) : Digest := ⟨data.foldl (fun n b => n * 256 + BitVec.ofNat 256 b.toNat) 0⟩

theorem mnemonic_bijection_counting :
    let key := (List.range 32).map UInt8.ofNat
    ∃ mnemonic, keyToMnemonic tallyWords numeral key = .ok mnemonic ∧
      mnemonicToKey tallyWords numeral mnemonic = .ok key := by
  intro key
  obtain ⟨mnemonic, hto, hfrom, -⟩ := (mnemonic_bijection tallyWords numeral).1 key rfl
  exact ⟨mnemonic, hto, hfrom⟩

end Words

end Crypto
end Algod
