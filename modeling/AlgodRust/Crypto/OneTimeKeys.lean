import AlgodRust.Lib.Msgpack
import AlgodRust.Lib.Run
import Mathlib.Tactic.Ring
/-!
# OneTimeKeys — one-time signatures that forget their past

A master key certifies one key for each batch of rounds, and the key of a batch certifies one key for each offset in it.
Keys are kept whole by batches, except for the batch before `firstBatch`, of which only the keys of its last offsets are
left.  Deleting the keys before a round trims those offsets, or drops batches and expands the next one.  Whatever the
order of deletions, the keys that are left are those of the rounds from the latest of them on (`Kept`).  The signature
scheme and the keys that are drawn are arbitrary.
-/
namespace Algod
namespace Crypto

open Msgpack (Bytes Value)

/-- The signature scheme.  `verify` also fails for bytes that are no key. -/
structure Ed25519 where
  Seed : Type
  publicKey : Seed → Bytes
  length_publicKey : ∀ key, (publicKey key).length = 32
  sign : Seed → Bytes → Bytes
  verify : Bytes → Bytes → Bytes → Bool

/-- It verifies what it signs. -/
def Ed25519.Correct (ed : Ed25519) : Prop := ∀ key msg, ed.verify (ed.publicKey key) msg (ed.sign key msg) = true

def ascii (s : String) : Bytes := s.toUTF8.data.toList

def encodeBatchId (pk : Bytes) (batch : Nat) : Bytes :=
  Value.encode (.map [.str (ascii "batch"), .uint batch, .str (ascii "pk"), .bin pk])

def encodeOffsetId (pk : Bytes) (batch offset : Nat) : Bytes :=
  Value.encode (.map [.str (ascii "batch"), .uint batch, .str (ascii "off"), .uint offset, .str (ascii "pk"), .bin pk])

def batchIdMessage (pk : Bytes) (batch : Nat) : Bytes := ascii "OT1" ++ encodeBatchId pk batch

def offsetIdMessage (pk : Bytes) (batch offset : Nat) : Bytes := ascii "OT2" ++ encodeOffsetId pk batch offset

/-- What a certificate of a key is a signature of. -/
def Certified (msg : Bytes) : Prop :=
  ∃ pk : Bytes, pk.length = 32 ∧ ∃ batch < 2 ^ 64,
    msg = batchIdMessage pk batch ∨ ∃ offset < 2 ^ 64, msg = offsetIdMessage pk batch offset

/-- A signature that certifies one key certifies no other. -/
def Ed25519.Binding (ed : Ed25519) : Prop :=
  ∀ key msg msg', Certified msg → Certified msg' → ed.verify (ed.publicKey key) msg (ed.sign key msg') = true → msg = msg'

structure OneTimeSignature where
  sig : Bytes
  pk : Bytes
  pkSigOld : Bytes
  pk2 : Bytes
  pk1Sig : Bytes
  pk2Sig : Bytes
deriving DecidableEq, Repr

section Scheme

variable (ed : Ed25519)

/-- A key with its certificate.  The second half of the stored private key repeats the public one. -/
structure EphemeralSubkey where
  pk : Bytes
  sk : ed.Seed
  pkSigOld : Bytes
  pkSigNew : Bytes

def zeros (n : Nat) : Bytes := List.replicate n 0

def EphemeralSubkey.fromSigningKey (key : ed.Seed) (cert : Bytes) : EphemeralSubkey ed :=
  ⟨ed.publicKey key, key, zeros 64, cert⟩

structure OneTimeSignatureSecrets where
  master : ed.Seed
  batches : List (EphemeralSubkey ed)
  firstBatch : Nat
  offsets : List (EphemeralSubkey ed)
  firstOffset : Nat
  offsetsPk2 : Bytes
  offsetsPk2Sig : Bytes
  restoredVerifier : Option Bytes

/-- The keys of consecutive batches, certified by the master key. -/
def batchKeys (master : ed.Seed) : Nat → List ed.Seed → List (EphemeralSubkey ed)
  | _, [] => []
  | batch, key :: keys =>
    .fromSigningKey ed key (ed.sign master (batchIdMessage (ed.publicKey key) batch)) :: batchKeys master (batch + 1) keys

/-- The keys that are drawn are given: one for each batch. -/
def generateWithMaster (master : ed.Seed) (startBatch : Nat) (keys : List ed.Seed) : OneTimeSignatureSecrets ed where
  master := master
  batches := batchKeys ed master startBatch keys
  firstBatch := startBatch
  offsets := []
  firstOffset := 0
  offsetsPk2 := zeros 32
  offsetsPk2Sig := zeros 64
  restoredVerifier := none

variable {ed}

def OneTimeSignatureSecrets.verifier (st : OneTimeSignatureSecrets ed) : Bytes :=
  st.restoredVerifier.getD (ed.publicKey st.master)

/-- The signature of a message for a round, or nothing where the source panics.  `fresh` is the key that is drawn. -/
def OneTimeSignatureSecrets.sign (st : OneTimeSignatureSecrets ed) (fresh : ed.Seed) (msg : Bytes)
    (round keyDilution : Nat) : Option OneTimeSignature :=
  if keyDilution = 0 then none
  else
    let batch := round / keyDilution
    let offset := round % keyDilution
    if st.offsets ≠ [] ∧ batch + 1 = st.firstBatch ∧ offset ≥ st.firstOffset ∧
        offset - st.firstOffset < st.offsets.length then
      (st.offsets[offset - st.firstOffset]?).map fun key =>
        ⟨ed.sign key.sk msg, key.pk, zeros 64, st.offsetsPk2, key.pkSigNew, st.offsetsPk2Sig⟩
    else if batch ≥ st.firstBatch ∧ batch - st.firstBatch < st.batches.length then
      (st.batches[batch - st.firstBatch]?).map fun key =>
        ⟨ed.sign fresh msg, ed.publicKey fresh, zeros 64, key.pk,
          ed.sign key.sk (offsetIdMessage (ed.publicKey fresh) batch offset), key.pkSigNew⟩
    else none

/-- The keys of the offsets from one on, certified by the key of their batch. -/
def offsetKeys (batchKey : ed.Seed) (batch : Nat) (fresh : Nat → ed.Seed) : Nat → Nat → List (EphemeralSubkey ed)
  | _, 0 => []
  | offset, count + 1 =>
    .fromSigningKey ed (fresh offset)
        (ed.sign batchKey (offsetIdMessage (ed.publicKey (fresh offset)) batch offset)) ::
      offsetKeys batchKey batch fresh (offset + 1) count

/-- The keys without those before a round.  `fresh` are the keys that are drawn for the offsets of a batch. -/
def OneTimeSignatureSecrets.trimmed (st : OneTimeSignatureSecrets ed) (fresh : Nat → ed.Seed)
    (round keyDilution : Nat) : OneTimeSignatureSecrets ed :=
  let currentBatch := round / keyDilution
  let currentOffset := round % keyDilution
  if currentBatch + 1 = st.firstBatch then
    if currentOffset > st.firstOffset then
      let jump := min (currentOffset - st.firstOffset) st.offsets.length
      { st with firstOffset := st.firstOffset + jump, offsets := st.offsets.drop jump }
    else st
  else if currentBatch + 1 < st.firstBatch then st
  else
    let jump := currentBatch - st.firstBatch
    if jump > st.batches.length then
      if st.batches = [] then { st with offsets := [] }
      else { st with offsets := [], firstBatch := currentBatch, batches := [] }
    else
      match st.batches.drop jump with
      | [] => { st with offsets := [], firstBatch := st.firstBatch + jump, batches := [] }
      | batchKey :: batches =>
        { st with
          offsets := offsetKeys batchKey.sk currentBatch fresh currentOffset (keyDilution - currentOffset)
          firstOffset := currentOffset
          offsetsPk2 := batchKey.pk
          offsetsPk2Sig := batchKey.pkSigNew
          firstBatch := st.firstBatch + jump + 1
          batches := batches }

/-- Delete the keys before a round, which panics for a dilution of zero. -/
def OneTimeSignatureSecrets.deleteBefore (keyDilution : Nat) (st : OneTimeSignatureSecrets ed)
    (call : Nat × (Nat → ed.Seed)) : Option (OneTimeSignatureSecrets ed) :=
  if keyDilution = 0 then none else some (st.trimmed call.2 call.1 keyDilution)

end Scheme

def verifyOneTimeSignature (ed : Ed25519) (sig : OneTimeSignature) (verifier : Bytes) (batch offset : Nat) (msg : Bytes) :
    Bool :=
  ed.verify verifier (batchIdMessage sig.pk2 batch) sig.pk2Sig &&
    ed.verify sig.pk2 (offsetIdMessage sig.pk batch offset) sig.pk1Sig && ed.verify sig.pk msg sig.sig

/-! ## Messages -/

theorem batchIdMessage_inj {pk pk' : Bytes} {batch batch' : Nat} (hpk : pk.length = 32) (hpk' : pk'.length = 32)
    (hb : batch < 2 ^ 64) (hb' : batch' < 2 ^ 64) (h : batchIdMessage pk batch = batchIdMessage pk' batch') :
    batch = batch' := by
  have hvalid : ∀ (pk : Bytes) (batch : Nat), pk.length = 32 → batch < 2 ^ 64 →
      Value.valid (.map [.str (ascii "batch"), .uint batch, .str (ascii "pk"), .bin pk]) = true := by
    intro pk batch hpk hb
    simp only [Value.valid, Value.allValid, hpk, Bool.and_eq_true, decide_eq_true_eq]
    exact ⟨by simp, by decide, hb, by decide, by decide, trivial⟩
  have henc := Value.encode_inj (hvalid pk batch hpk hb) (hvalid pk' batch' hpk' hb') (List.append_cancel_left h)
  simp only [Value.map.injEq, List.cons.injEq, Value.uint.injEq] at henc
  exact henc.2.1

theorem offsetIdMessage_inj {pk pk' : Bytes} {batch batch' offset offset' : Nat} (hpk : pk.length = 32)
    (hpk' : pk'.length = 32) (hb : batch < 2 ^ 64) (hb' : batch' < 2 ^ 64) (ho : offset < 2 ^ 64) (ho' : offset' < 2 ^ 64)
    (h : offsetIdMessage pk batch offset = offsetIdMessage pk' batch' offset') : offset = offset' := by
  have hvalid : ∀ (pk : Bytes) (batch offset : Nat), pk.length = 32 → batch < 2 ^ 64 → offset < 2 ^ 64 →
      Value.valid (.map [.str (ascii "batch"), .uint batch, .str (ascii "off"), .uint offset, .str (ascii "pk"), .bin pk]) =
        true := by
    intro pk batch offset hpk hb ho
    simp only [Value.valid, Value.allValid, hpk, Bool.and_eq_true, decide_eq_true_eq]
    exact ⟨by simp, by decide, hb, by decide, ho, by decide, by decide, trivial⟩
  have henc := Value.encode_inj (hvalid pk batch offset hpk hb ho) (hvalid pk' batch' offset' hpk' hb' ho')
    (List.append_cancel_left h)
  simp only [Value.map.injEq, List.cons.injEq, Value.uint.injEq] at henc
  exact henc.2.2.2.1

/-! ## Certificates -/

section Certificates

variable {ed : Ed25519}

/-- A key whose certificate a signer made for a message about it. -/
def Certifies (signer : ed.Seed) (message : Bytes → Bytes) (key : EphemeralSubkey ed) : Prop :=
  key.pk = ed.publicKey key.sk ∧ key.pkSigNew = ed.sign signer (message key.pk)

/-- Keys certified one after the other, from a number on. -/
def CertifiedFrom (signer : ed.Seed) (message : Nat → Bytes → Bytes) (first : Nat) (keys : List (EphemeralSubkey ed)) :
    Prop :=
  ∀ i key, keys[i]? = some key → Certifies signer (message (first + i)) key

theorem CertifiedFrom.nil (signer : ed.Seed) (message : Nat → Bytes → Bytes) (first : Nat) :
    CertifiedFrom signer message first [] := by
  intro i key h
  cases h

theorem CertifiedFrom.cons {signer : ed.Seed} {message : Nat → Bytes → Bytes} {first : Nat} {key : EphemeralSubkey ed}
    {keys : List (EphemeralSubkey ed)} (hkey : Certifies signer (message first) key)
    (hkeys : CertifiedFrom signer message (first + 1) keys) : CertifiedFrom signer message first (key :: keys) := by
  intro i key' h
  cases i with
  | zero =>
    cases h
    exact hkey
  | succ i =>
    rw [show first + (i + 1) = first + 1 + i by omega]
    exact hkeys i key' h

theorem CertifiedFrom.drop {signer : ed.Seed} {message : Nat → Bytes → Bytes} {first : Nat}
    {keys : List (EphemeralSubkey ed)} (h : CertifiedFrom signer message first keys) (n : Nat) :
    CertifiedFrom signer message (first + n) (keys.drop n) := by
  intro i key hi
  rw [List.getElem?_drop] at hi
  rw [Nat.add_assoc]
  exact h (n + i) key hi

theorem batchKeys_certified (master : ed.Seed) : ∀ (keys : List ed.Seed) (batch : Nat),
    CertifiedFrom master (fun batch pk => batchIdMessage pk batch) batch (batchKeys ed master batch keys)
  | [], _ => CertifiedFrom.nil _ _ _
  | _ :: keys, batch => CertifiedFrom.cons ⟨rfl, rfl⟩ (batchKeys_certified master keys (batch + 1))

theorem offsetKeys_certified (batchKey : ed.Seed) (batch : Nat) (fresh : Nat → ed.Seed) : ∀ count offset,
    CertifiedFrom batchKey (fun offset pk => offsetIdMessage pk batch offset) offset
      (offsetKeys batchKey batch fresh offset count)
  | 0, _ => CertifiedFrom.nil _ _ _
  | count + 1, offset => CertifiedFrom.cons ⟨rfl, rfl⟩ (offsetKeys_certified batchKey batch fresh count (offset + 1))

@[simp] theorem length_batchKeys (master : ed.Seed) : ∀ (keys : List ed.Seed) (batch : Nat),
    (batchKeys ed master batch keys).length = keys.length
  | [], _ => rfl
  | _ :: keys, batch => by simp [batchKeys, length_batchKeys master keys]

@[simp] theorem length_offsetKeys (batchKey : ed.Seed) (batch : Nat) (fresh : Nat → ed.Seed) : ∀ count offset,
    (offsetKeys batchKey batch fresh offset count).length = count
  | 0, _ => rfl
  | count + 1, offset => by simp [offsetKeys, length_offsetKeys batchKey batch fresh count]

end Certificates

/-! ## Deletions in any order -/

/-- Rounds are ordered by batch, and within a batch by offset. -/
theorem round_le_iff {d : Nat} (hd : 0 < d) (a b : Nat) : a ≤ b ↔ a / d < b / d ∨ a / d = b / d ∧ a % d ≤ b % d := by
  have ha := Nat.div_add_mod a d
  have hb := Nat.div_add_mod b d
  have hma := Nat.mod_lt a hd
  have hmb := Nat.mod_lt b hd
  constructor
  · intro hle
    rcases Nat.lt_or_eq_of_le (Nat.div_le_div_right (c := d) hle) with hlt | heq
    · exact .inl hlt
    · rw [heq] at ha
      exact .inr ⟨heq, by omega⟩
  · rintro (hlt | ⟨heq, hle⟩)
    · have hstep : d * (a / d) + d ≤ d * (b / d) := by
        rw [← Nat.mul_succ]
        exact Nat.mul_le_mul_left d hlt
      omega
    · rw [heq] at ha
      omega

section Runs

variable {ed : Ed25519} (master : ed.Seed) (s n d : Nat) {st : OneTimeSignatureSecrets ed} {latest : Nat}
  {sig : OneTimeSignature} {round : Nat} {latest round : Nat}

/-- The keys that are left when `latest` is the latest round of the deletions: all of them, those of a batch from an
offset on and of the batches after it, or none. -/
inductive Available (st : OneTimeSignatureSecrets ed) (latest : Nat) : Prop
  | whole (hfirst : st.firstBatch = s) (hlen : st.batches.length = n) (hoff : st.offsets = []) (hlatest : latest ≤ s * d)
  | expanded (hfirst : st.firstBatch = latest / d + 1) (hstart : s ≤ latest / d)
      (hlen : st.firstBatch + st.batches.length = s + n) (hoff : st.firstOffset = latest % d)
      (hcount : st.firstOffset + st.offsets.length = d)
  | none (hbatches : st.batches = []) (hoff : st.offsets = []) (hlatest : s + n ≤ latest / d)

/-- What holds after any deletions: the keys that are left are certified for where they stand, and they are the keys of
the rounds from the latest one on. -/
structure Kept (st : OneTimeSignatureSecrets ed) (latest : Nat) : Prop where
  master_eq : st.master = master
  verifier_eq : st.restoredVerifier = none
  batches : CertifiedFrom master (fun batch pk => batchIdMessage pk batch) st.firstBatch st.batches
  offsets : st.offsets ≠ [] → ∃ batchKey, st.offsetsPk2 = ed.publicKey batchKey ∧
    st.offsetsPk2Sig = ed.sign master (batchIdMessage st.offsetsPk2 (st.firstBatch - 1)) ∧
    CertifiedFrom batchKey (fun offset pk => offsetIdMessage pk (st.firstBatch - 1) offset) st.firstOffset st.offsets
  available : Available s n d st latest

theorem Kept.generate (keys : List ed.Seed) : Kept master s keys.length d (generateWithMaster ed master s keys) 0 where
  master_eq := rfl
  verifier_eq := rfl
  batches := batchKeys_certified master keys s
  offsets := fun h => absurd rfl h
  available := .whole rfl (length_batchKeys master keys s) rfl (Nat.zero_le _)

variable {master s n d}

theorem Available.none_of_le (hbatches : st.batches = [])
    (hoff : st.offsets = []) (hlatest : s + n ≤ latest / d) : Available s n d st (max latest round) :=
  .none hbatches hoff (Nat.le_trans hlatest (Nat.div_le_div_right (Nat.le_max_left _ _)))

/-- A round of a batch before one is before all of its rounds. -/
theorem round_le_mul (hd : 0 < d) {round batch : Nat} (h : round / d < batch) : round ≤ batch * d :=
  Nat.le_of_lt ((Nat.div_lt_iff_lt_mul hd).1 h)

/-- A deletion up to a round of the expanded batch. -/
theorem Available.trim_offsets (hd : 0 < d)
    (h : Available s n d st latest) (hbatch : round / d + 1 = st.firstBatch) (hlater : round % d > st.firstOffset) :
    Available s n d { st with
      firstOffset := st.firstOffset + min (round % d - st.firstOffset) st.offsets.length
      offsets := st.offsets.drop (min (round % d - st.firstOffset) st.offsets.length) } (max latest round) := by
  have hmod := Nat.mod_lt round hd
  cases h with
  | whole hfirst hlen hoff hlatest =>
    refine .whole hfirst hlen ?_ (Nat.max_le.2 ⟨hlatest, round_le_mul hd (by omega)⟩)
    simp only [hoff, List.drop_nil]
  | expanded hfirst hstart hlen hoff hcount =>
    have hle : latest ≤ round := (round_le_iff hd latest round).2 (.inr ⟨by omega, by omega⟩)
    have hjump : min (round % d - st.firstOffset) st.offsets.length = round % d - st.firstOffset := by omega
    rw [Nat.max_eq_right hle, hjump]
    refine .expanded hbatch.symm (by omega) hlen ?_ ?_
    · show st.firstOffset + (round % d - st.firstOffset) = round % d
      omega
    · simp only [List.length_drop]
      omega
  | none hbatches hoff hlatest =>
    refine Available.none_of_le hbatches ?_ hlatest
    simp only [hoff, List.drop_nil]

/-- A deletion up to a round that is behind already. -/
theorem Available.stay (hd : 0 < d) (h : Available s n d st latest)
    (hbehind : round / d + 1 < st.firstBatch ∨ round / d + 1 = st.firstBatch ∧ round % d ≤ st.firstOffset) :
    Available s n d st (max latest round) := by
  cases h with
  | whole hfirst hlen hoff hlatest =>
    exact .whole hfirst hlen hoff (Nat.max_le.2 ⟨hlatest, round_le_mul hd (by omega)⟩)
  | expanded hfirst hstart hlen hoff hcount =>
    have hle : round ≤ latest := (round_le_iff hd round latest).2 (by omega)
    rw [Nat.max_eq_left hle]
    exact .expanded hfirst hstart hlen hoff hcount
  | none hbatches hoff hlatest => exact Available.none_of_le hbatches hoff hlatest

/-- Where there are batches, they end where they did, and a round of them is after the deletions. -/
theorem Available.cases_forward (hd : 0 < d) (h : Available s n d st latest) (hforward : st.firstBatch ≤ round / d) :
    (st.firstBatch + st.batches.length = s + n ∧ s ≤ st.firstBatch ∧ latest ≤ round) ∨
      (st.batches = [] ∧ s + n ≤ latest / d) := by
  cases h with
  | whole hfirst hlen hoff hlatest =>
    refine .inl ⟨by omega, by omega, Nat.le_trans hlatest ?_⟩
    rw [hfirst] at hforward
    exact (Nat.le_div_iff_mul_le hd).1 hforward
  | expanded hfirst hstart hlen hoff hcount =>
    exact .inl ⟨hlen, by omega, (round_le_iff hd latest round).2 (.inl (by omega))⟩
  | none hbatches hoff hlatest => exact .inr ⟨hbatches, hlatest⟩

/-- **A deletion keeps the keys from the latest round on.** -/
theorem Kept.trimmed (hd : 0 < d) (h : Kept master s n d st latest)
    (fresh : Nat → ed.Seed) (round : Nat) : Kept master s n d (st.trimmed fresh round d) (max latest round) := by
  have hmod := Nat.mod_lt round hd
  unfold OneTimeSignatureSecrets.trimmed
  simp only
  by_cases hbatch : round / d + 1 = st.firstBatch
  · rw [if_pos hbatch]
    by_cases hlater : round % d > st.firstOffset
    · rw [if_pos hlater]
      refine ⟨h.master_eq, h.verifier_eq, h.batches, fun hne => ?_, h.available.trim_offsets hd hbatch hlater⟩
      obtain ⟨batchKey, hpk, hcert, hoffsets⟩ := h.offsets (fun hnil => hne (by simp only [hnil, List.drop_nil]))
      exact ⟨batchKey, hpk, hcert, hoffsets.drop _⟩
    · rw [if_neg hlater]
      exact ⟨h.master_eq, h.verifier_eq, h.batches, h.offsets, h.available.stay hd (.inr ⟨hbatch, by omega⟩)⟩
  rw [if_neg hbatch]
  by_cases hbehind : round / d + 1 < st.firstBatch
  · rw [if_pos hbehind]
    exact ⟨h.master_eq, h.verifier_eq, h.batches, h.offsets, h.available.stay hd (.inl hbehind)⟩
  rw [if_neg hbehind]
  have hforward := h.available.cases_forward hd (show st.firstBatch ≤ round / d by omega)
  -- nothing is left once the batches have run out
  have hout : st.firstBatch + st.batches.length ≤ round / d → s + n ≤ max latest round / d := by
    intro hle
    rcases hforward with ⟨hsum, -, -⟩ | ⟨-, hlatest⟩
    · exact Nat.le_trans (by omega) (Nat.div_le_div_right (Nat.le_max_right latest round))
    · exact Nat.le_trans hlatest (Nat.div_le_div_right (Nat.le_max_left latest round))
  by_cases hjump : round / d - st.firstBatch > st.batches.length
  · rw [if_pos hjump]
    by_cases hnil : st.batches = []
    · rw [if_pos hnil]
      exact ⟨h.master_eq, h.verifier_eq, h.batches, fun hne => absurd rfl hne, .none hnil rfl (hout (by omega))⟩
    · rw [if_neg hnil]
      exact ⟨h.master_eq, h.verifier_eq, CertifiedFrom.nil _ _ _, fun hne => absurd rfl hne,
        .none rfl rfl (hout (by omega))⟩
  rw [if_neg hjump]
  have hdrop := h.batches.drop (round / d - st.firstBatch)
  have hnumber : st.firstBatch + (round / d - st.firstBatch) = round / d := by omega
  have hlength := List.length_drop (i := round / d - st.firstBatch) (l := st.batches)
  cases hkeys : st.batches.drop (round / d - st.firstBatch) with
  | nil =>
    rw [hkeys, List.length_nil] at hlength
    exact ⟨h.master_eq, h.verifier_eq, CertifiedFrom.nil _ _ _, fun hne => absurd rfl hne,
      .none rfl rfl (hout (by omega))⟩
  | cons batchKey batches =>
    rw [hkeys, hnumber] at hdrop
    rw [hkeys, List.length_cons] at hlength
    obtain ⟨hpk, hcert⟩ := hdrop 0 batchKey rfl
    have hrest : CertifiedFrom master (fun batch pk => batchIdMessage pk batch) (round / d + 1) batches :=
      CertifiedFrom.drop hdrop 1
    refine ⟨h.master_eq, h.verifier_eq, ?_, fun _ => ⟨batchKey.sk, hpk, ?_, ?_⟩, ?_⟩
    · simp only [hnumber]
      exact hrest
    · simp only [hnumber, Nat.add_sub_cancel]
      exact hcert
    · simp only [hnumber, Nat.add_sub_cancel]
      exact offsetKeys_certified batchKey.sk (round / d) fresh (d - round % d) (round % d)
    · rcases hforward with ⟨hsum, hstart, hle⟩ | ⟨hnil, -⟩
      · rw [Nat.max_eq_right hle]
        refine .expanded ?_ (by omega) ?_ rfl ?_
        · show st.firstBatch + (round / d - st.firstBatch) + 1 = round / d + 1
          omega
        · show st.firstBatch + (round / d - st.firstBatch) + 1 + batches.length = s + n
          omega
        · show round % d + (offsetKeys batchKey.sk (round / d) fresh (round % d) (d - round % d)).length = d
          rw [length_offsetKeys]
          omega
      · rw [hnil, List.drop_nil] at hkeys
        cases hkeys

/-- The latest round of some deletions. -/
def latestRound (calls : List (Nat × (Nat → ed.Seed))) : Nat := (calls.map Prod.fst).foldl max 0

theorem Kept.run (hd : 0 < d) : ∀ (calls : List (Nat × (Nat → ed.Seed))) {st : OneTimeSignatureSecrets ed} {latest : Nat},
    Kept master s n d st latest → ∃ st', calls.foldlM (OneTimeSignatureSecrets.deleteBefore d) st = some st' ∧
      Kept master s n d st' ((calls.map Prod.fst).foldl max latest)
  | [], st, _, h => ⟨st, rfl, h⟩
  | call :: calls, st, latest, h => by
    obtain ⟨st', hrun, hkept⟩ := Kept.run hd calls (h.trimmed hd call.2 call.1)
    refine ⟨st', ?_, hkept⟩
    rw [List.foldlM_cons, OneTimeSignatureSecrets.deleteBefore, if_neg (by omega)]
    exact hrun

/-! ## Signatures -/

/-- The keys of the offsets sign for a round. -/
def ByOffset (st : OneTimeSignatureSecrets ed) (d round : Nat) : Prop :=
  st.offsets ≠ [] ∧ round / d + 1 = st.firstBatch ∧ round % d ≥ st.firstOffset ∧
    round % d - st.firstOffset < st.offsets.length

/-- The key of a batch signs for a round. -/
def ByBatch (st : OneTimeSignatureSecrets ed) (d round : Nat) : Prop :=
  round / d ≥ st.firstBatch ∧ round / d - st.firstBatch < st.batches.length

/-- The rounds that keys are left for. -/
theorem Available.iff (hd : 0 < d) (h : Available s n d st latest)
    (round : Nat) : ByOffset st d round ∨ ByBatch st d round ↔ latest ≤ round ∧ s ≤ round / d ∧ round / d < s + n := by
  have hmod := Nat.mod_lt round hd
  unfold ByOffset ByBatch
  cases h with
  | whole hfirst hlen hoff hlatest =>
    constructor
    · rintro (⟨hne, -⟩ | ⟨hge, hlt⟩)
      · exact absurd hoff hne
      · refine ⟨Nat.le_trans hlatest ?_, by omega, by omega⟩
        exact (Nat.le_div_iff_mul_le hd).1 (by omega)
    · rintro ⟨-, hge, hlt⟩
      exact .inr ⟨by omega, by omega⟩
  | expanded hfirst hstart hlen hoff hcount =>
    rw [round_le_iff hd latest round]
    constructor
    · rintro (⟨-, hbatch, hge, -⟩ | ⟨hge, hlt⟩)
      · exact ⟨.inr ⟨by omega, by omega⟩, by omega, by omega⟩
      · exact ⟨.inl (by omega), by omega, by omega⟩
    · rintro ⟨hlt | ⟨heq, hle⟩, hge, hend⟩
      · exact .inr ⟨by omega, by omega⟩
      · refine .inl ⟨?_, by omega, by omega, by omega⟩
        intro hnil
        rw [hnil, List.length_nil] at hcount
        have := Nat.mod_lt latest hd
        omega
  | none hbatches hoff hlatest =>
    rw [hbatches, hoff, round_le_iff hd latest round]
    constructor
    · rintro (⟨hne, -⟩ | ⟨-, hlt⟩)
      · exact absurd rfl hne
      · exact absurd hlt (Nat.not_lt_zero _)
    · omega

/-- A signature with the key of an offset, or with the key of a batch and a fresh key. -/
theorem sign_eq_some (hd : 0 < d) {fresh : ed.Seed} {msg : Bytes} (h : st.sign fresh msg round d = some sig) :
    (ByOffset st d round ∧ ∃ key, st.offsets[round % d - st.firstOffset]? = some key ∧
      sig = ⟨ed.sign key.sk msg, key.pk, zeros 64, st.offsetsPk2, key.pkSigNew, st.offsetsPk2Sig⟩) ∨
    (ByBatch st d round ∧ ∃ key, st.batches[round / d - st.firstBatch]? = some key ∧
      sig = ⟨ed.sign fresh msg, ed.publicKey fresh, zeros 64, key.pk,
        ed.sign key.sk (offsetIdMessage (ed.publicKey fresh) (round / d) (round % d)), key.pkSigNew⟩) := by
  unfold OneTimeSignatureSecrets.sign at h
  rw [if_neg (by omega)] at h
  simp only at h
  split at h
  · rename_i hoffset
    obtain ⟨key, hkey, hsig⟩ := Option.map_eq_some_iff.1 h
    exact .inl ⟨hoffset, key, hkey, hsig.symm⟩
  · split at h
    · rename_i hbatch
      obtain ⟨key, hkey, hsig⟩ := Option.map_eq_some_iff.1 h
      exact .inr ⟨hbatch, key, hkey, hsig.symm⟩
    · cases h

theorem sign_isSome_iff (hd : 0 < d) (st : OneTimeSignatureSecrets ed) (fresh : ed.Seed) (msg : Bytes) (round : Nat) :
    (∃ sig, st.sign fresh msg round d = some sig) ↔ ByOffset st d round ∨ ByBatch st d round := by
  constructor
  · rintro ⟨sig, h⟩
    rcases sign_eq_some hd h with ⟨hoffset, -⟩ | ⟨hbatch, -⟩
    · exact .inl hoffset
    · exact .inr hbatch
  · intro h
    unfold ByOffset ByBatch at h
    unfold OneTimeSignatureSecrets.sign
    rw [if_neg (by omega)]
    simp only
    by_cases hoffset : st.offsets ≠ [] ∧ round / d + 1 = st.firstBatch ∧ round % d ≥ st.firstOffset ∧
        round % d - st.firstOffset < st.offsets.length
    · rw [if_pos hoffset, List.getElem?_eq_getElem hoffset.2.2.2]
      exact ⟨_, rfl⟩
    · have hbatch := h.resolve_left hoffset
      rw [if_neg hoffset, if_pos hbatch, List.getElem?_eq_getElem hbatch.2]
      exact ⟨_, rfl⟩

/-- **Signatures that are returned verify.** -/
theorem Kept.sign_verifies (hed : ed.Correct) (hd : 0 < d)
    (h : Kept master s n d st latest) {fresh : ed.Seed} {msg : Bytes}
    (hsign : st.sign fresh msg round d = some sig) :
    verifyOneTimeSignature ed sig st.verifier (round / d) (round % d) msg = true := by
  unfold verifyOneTimeSignature OneTimeSignatureSecrets.verifier
  rw [h.verifier_eq, h.master_eq, Option.getD_none]
  rcases sign_eq_some hd hsign with ⟨⟨hne, hbatch, hge, -⟩, key, hkey, rfl⟩ | ⟨⟨hge, -⟩, key, hkey, rfl⟩
  · obtain ⟨batchKey, hpk2, hcert, hoffsets⟩ := h.offsets hne
    obtain ⟨hpk, hcert1⟩ := hoffsets _ _ hkey
    have hnumber : st.firstBatch - 1 = round / d := by rw [← hbatch, Nat.add_sub_cancel]
    have hoffset : st.firstOffset + (round % d - st.firstOffset) = round % d := by omega
    simp only [hnumber] at hcert
    simp only [hnumber, hoffset] at hcert1
    simp only [hcert, hcert1, Bool.and_eq_true]
    refine ⟨⟨hed _ _, ?_⟩, ?_⟩
    · rw [hpk2]
      exact hed _ _
    · rw [hpk]
      exact hed _ _
  · obtain ⟨hpk, hcert⟩ := h.batches _ _ hkey
    have hnumber : st.firstBatch + (round / d - st.firstBatch) = round / d := by omega
    simp only [hnumber] at hcert
    simp only [hcert, Bool.and_eq_true]
    refine ⟨⟨hed _ _, ?_⟩, hed _ _⟩
    rw [hpk]
    exact hed _ _

/-- A signature that is made with a key that is left, under the certificates that are kept with it: the key of a batch
signs for any key of an offset, and the key of an offset signs any message. -/
def MadeByKept (st : OneTimeSignatureSecrets ed) (sig : OneTimeSignature) : Prop :=
  (∃ key ∈ st.batches, sig.pk2 = key.pk ∧ sig.pk2Sig = key.pkSigNew ∧ ∃ msg, sig.pk1Sig = ed.sign key.sk msg) ∨
  (∃ key ∈ st.offsets, sig.pk2 = st.offsetsPk2 ∧ sig.pk2Sig = st.offsetsPk2Sig ∧ sig.pk = key.pk ∧
    sig.pk1Sig = key.pkSigNew ∧ ∃ msg, sig.sig = ed.sign key.sk msg)

/-- Keys are left for numbers of 64 bits only. -/
theorem Available.firstBatch_le (h : Available s n d st latest)
    (hne : st.batches ≠ [] ∨ st.offsets ≠ []) : st.firstBatch + st.batches.length ≤ s + n := by
  cases h with
  | whole hfirst hlen hoff hlatest => omega
  | expanded hfirst hstart hlen hoff hcount => omega
  | none hbatches hoff hlatest => exact absurd hne (by simp [hbatches, hoff])

/-- **No key that is left signs for the past**: a signature that verifies is for a round from the latest deletion on. -/
theorem Kept.no_past (hed : ed.Binding) (hd : 0 < d) (hd' : d < 2 ^ 64) (hfit : s + n ≤ 2 ^ 64)
    (h : Kept master s n d st latest)
    (hmade : MadeByKept st sig) (hround : round < 2 ^ 63) {msg : Bytes}
    (hverify : verifyOneTimeSignature ed sig st.verifier (round / d) (round % d) msg = true) : latest ≤ round := by
  have hbatch64 : round / d < 2 ^ 64 := Nat.lt_of_le_of_lt (Nat.div_le_self _ _) (by omega)
  have hoffset64 : round % d < 2 ^ 64 := Nat.lt_trans (Nat.mod_lt _ hd) hd'
  unfold verifyOneTimeSignature OneTimeSignatureSecrets.verifier at hverify
  rw [h.verifier_eq, h.master_eq, Option.getD_none] at hverify
  simp only [Bool.and_eq_true] at hverify
  obtain ⟨⟨hmaster, hsub⟩, -⟩ := hverify
  have hiff := h.available.iff hd round
  rcases hmade with ⟨key, hmem, hpk2, hpk2Sig, -⟩ | ⟨key, hmem, hpk2, hpk2Sig, hpk, hpk1Sig, -⟩
  · obtain ⟨i, hi⟩ := List.getElem?_of_mem hmem
    obtain ⟨hkeypk, hcert⟩ := h.batches i key hi
    have hlt : i < st.batches.length := (List.getElem?_eq_some_iff.1 hi).1
    have hle := h.available.firstBatch_le (.inl (List.ne_nil_of_mem hmem))
    have hlen : key.pk.length = 32 := by rw [hkeypk, ed.length_publicKey]
    rw [hpk2, hpk2Sig, hcert] at hmaster
    have hlt64 : st.firstBatch + i < 2 ^ 64 := by omega
    have hsame := hed _ _ _ ⟨_, hlen, _, hbatch64, .inl rfl⟩ ⟨_, hlen, _, hlt64, .inl rfl⟩ hmaster
    have hnumber := batchIdMessage_inj hlen hlen hbatch64 hlt64 hsame
    exact (hiff.1 (.inr ⟨by omega, by omega⟩)).1
  · have hne := List.ne_nil_of_mem hmem
    obtain ⟨batchKey, hoffpk, hcert, hoffsets⟩ := h.offsets hne
    obtain ⟨i, hi⟩ := List.getElem?_of_mem hmem
    obtain ⟨hkeypk, hcert1⟩ := hoffsets i key hi
    have hlt : i < st.offsets.length := (List.getElem?_eq_some_iff.1 hi).1
    have hle := h.available.firstBatch_le (.inr hne)
    have hlen2 : st.offsetsPk2.length = 32 := by rw [hoffpk, ed.length_publicKey]
    have hlen1 : key.pk.length = 32 := by rw [hkeypk, ed.length_publicKey]
    have hexpanded : 1 ≤ st.firstBatch ∧ st.firstOffset + st.offsets.length = d := by
      cases h.available with
      | whole hfirst hlen hoff hlatest => exact absurd hoff hne
      | expanded hfirst hstart hlen hoff hcount => exact ⟨by omega, hcount⟩
      | none hbatches hoff hlatest => exact absurd hoff hne
    rw [hpk2, hpk2Sig, hcert] at hmaster
    have hlt64 : st.firstBatch - 1 < 2 ^ 64 := by omega
    have hsame2 := hed _ _ _ ⟨_, hlen2, _, hbatch64, .inl rfl⟩ ⟨_, hlen2, _, hlt64, .inl rfl⟩ hmaster
    have hnumber := batchIdMessage_inj hlen2 hlen2 hbatch64 hlt64 hsame2
    rw [hpk2, hoffpk, hpk, hpk1Sig, hcert1] at hsub
    have hoff64 : st.firstOffset + i < 2 ^ 64 := by omega
    have hsame1 := hed _ _ _ ⟨_, hlen1, _, hbatch64, .inr ⟨_, hoffset64, rfl⟩⟩
      ⟨_, hlen1, _, hlt64, .inr ⟨_, hoff64, rfl⟩⟩ hsub
    have hoffset := offsetIdMessage_inj hlen1 hlen1 hbatch64 hlt64 hoffset64 hoff64 hsame1
    exact (hiff.1 (.inl ⟨hne, by omega, by omega, by omega⟩)).1

end Runs

/-- **One-time keys are forward secure and otherwise available.**  After any deletions a signature is returned exactly
for the rounds of the generated batches from the latest deletion on, it verifies, and no key that is left makes one that
verifies for an earlier round. -/
theorem oneTimeKeys_forward_secure (ed : Ed25519) (hcorrect : ed.Correct) (hbinding : ed.Binding) (d : Nat) (hd : 0 < d)
    (hd' : d < 2 ^ 64) (master : ed.Seed) (s : Nat) (keys : List ed.Seed) (hfit : s + keys.length ≤ 2 ^ 64)
    (calls : List (Nat × (Nat → ed.Seed))) :
    ∃ st, calls.foldlM (OneTimeSignatureSecrets.deleteBefore d) (generateWithMaster ed master s keys) = some st ∧
      ∀ round, round < 2 ^ 63 →
        (∀ fresh msg, (∃ sig, st.sign fresh msg round d = some sig) ↔
          latestRound calls ≤ round ∧ s ≤ round / d ∧ round / d < s + keys.length) ∧
        (∀ fresh msg sig, st.sign fresh msg round d = some sig →
          verifyOneTimeSignature ed sig st.verifier (round / d) (round % d) msg = true) ∧
        (∀ sig msg, MadeByKept st sig → round < latestRound calls →
          verifyOneTimeSignature ed sig st.verifier (round / d) (round % d) msg = false) := by
  obtain ⟨st, hrun, hkept⟩ := Kept.run hd calls (Kept.generate master s d keys)
  refine ⟨st, hrun, fun round hround => ⟨fun fresh msg => ?_, fun fresh msg sig hsign => ?_, fun sig msg hmade hpast => ?_⟩⟩
  · rw [sign_isSome_iff hd]
    exact hkept.available.iff hd round
  · exact hkept.sign_verifies hcorrect hd hsign
  · cases hverify : verifyOneTimeSignature ed sig st.verifier (round / d) (round % d) msg with
    | false => rfl
    | true =>
      have hle : latestRound calls ≤ round := hkept.no_past hbinding hd hd' hfit hmade hround hverify
      exact absurd hpast (by omega)

/-- A scheme whose signatures show the key and the message. -/
def openEd25519 : Ed25519 where
  Seed := UInt8
  publicKey key := key :: zeros 31
  length_publicKey _ := by simp [zeros]
  sign key msg := key :: msg
  verify pk msg sig := pk.take 1 ++ msg == sig

theorem openEd25519_correct : openEd25519.Correct := by
  intro key msg
  exact beq_iff_eq.2 rfl

theorem openEd25519_binding : openEd25519.Binding := by
  intro key msg msg' _ _ h
  exact (List.cons.inj (beq_iff_eq.1 h)).2

/-- Two batches of ten rounds from round ten on, and deletions up to round fifteen and then to twelve. -/
theorem oneTimeKeys_forward_secure_two :
    ∃ st, List.foldlM (OneTimeSignatureSecrets.deleteBefore 10)
        (generateWithMaster openEd25519 (7 : UInt8) 1 [(1 : UInt8), (2 : UInt8)])
        [(15, fun _ => (3 : UInt8)), (12, fun _ => (4 : UInt8))] = some st ∧
      (∃ sig, st.sign (5 : UInt8) [1, 2] 17 10 = some sig ∧
        verifyOneTimeSignature openEd25519 sig st.verifier 1 7 [1, 2] = true) ∧
      ¬ ∃ sig, st.sign (5 : UInt8) [1, 2] 14 10 = some sig := by
  obtain ⟨st, hrun, h⟩ := oneTimeKeys_forward_secure openEd25519 openEd25519_correct openEd25519_binding 10 (by decide)
    (by decide) (7 : UInt8) 1 [(1 : UInt8), (2 : UInt8)] (by decide)
    [(15, fun _ => (3 : UInt8)), (12, fun _ => (4 : UInt8))]
  obtain ⟨sig, hsig⟩ := ((h 17 (by decide)).1 (5 : UInt8) [1, 2]).2 (by decide)
  refine ⟨st, hrun, ⟨sig, hsig, (h 17 (by decide)).2.1 (5 : UInt8) [1, 2] sig hsig⟩, ?_⟩
  rw [(h 14 (by decide)).1 (5 : UInt8) [1, 2]]
  decide

end Crypto
end Algod
