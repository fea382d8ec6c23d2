import AlgodRust.Avm.Machine
/-!
# Layout — where the instructions of a program and its constants lie

`Reads` is the parser without its accumulator: the instructions it accepts one after another from a position to another.
`numbersAt` are the positions of the numbers it reads in the immediate arguments of an instruction, `lengthsAt` those of
the numbers that are lengths of byte constants.
-/
namespace Algod
namespace Avm

open Msgpack (Bytes)

/-! ## Numbers -/

section Numbers

set_option maxRecDepth 20000 in
theorem and_eighty_eq_zero (b : UInt8) : b &&& 0x80 = 0 ↔ b.toNat < 128 := by
  have hall : ∀ n : Fin 256, UInt8.ofNat n &&& 0x80 = 0 ↔ (n : Nat) < 128 := by decide
  have := hall ⟨b.toNat, b.toNat_lt⟩
  rwa [UInt8.ofNat_toNat] at this

theorem low_toNat {b : UInt8} (h : b.toNat < 128) : b.toNat &&& 0x7f = b.toNat := by
  have hmask := Nat.and_two_pow_sub_one_eq_mod b.toNat 7
  rw [show (0x7f : Nat) = 2 ^ 7 - 1 from rfl, hmask]
  omega

theorem low_lt (n : Nat) : n &&& 0x7f < 128 := by
  rw [show (0x7f : Nat) = 2 ^ 7 - 1 from rfl, Nat.and_two_pow_sub_one_eq_mod]
  omega

/-- A group of bits above a number is added to it. -/
theorem or_group {result shift : Nat} (h : result < 2 ^ shift) (group : Nat) :
    result ||| (group <<< shift) = result + group * 2 ^ shift := by
  rw [Nat.or_comm, Nat.shiftLeft_eq, Nat.mul_comm, ← Nat.two_pow_add_eq_or_of_lt h]
  omega

/-- What the reader of a number has found: the number of its bytes, and how its last one bounds it. -/
structure Group (bs : Bytes) (i shift result value stop : Nat) : Prop where
  longer : i < stop
  fits : stop ≤ i + bs.length
  word : value < u64Bound
  zero : bs[stop - i - 1]? = some 0 → value < 2 ^ (shift + 7 * (stop - i - 1)) ∧ (stop = i + 1 → value = result)
  nonzero : bs[stop - i - 1]? ≠ some 0 →
    2 ^ (shift + 7 * (stop - i - 1)) ≤ value ∧ value < 2 ^ (shift + 7 * (stop - i))

theorem readVarint_group : ∀ (bs : Bytes) {i m result value stop : Nat}, m ≤ 9 → result < 2 ^ (7 * m) →
    readVarint bs i (7 * m) result = .ok (value, stop) → Group bs i (7 * m) result value stop
  | [], _, _, _, _, _, _, _, h => nomatch h
  | b :: bs, i, m, result, value, stop, hm, hresult, h => by
    unfold readVarint at h
    have hor := or_group hresult (b.toNat &&& 0x7f)
    have hpow : (2 : Nat) ^ (7 * m + 7) = 2 ^ (7 * m) * 128 := by rw [Nat.pow_add]
    have hpos : 0 < 2 ^ (7 * m) := Nat.two_pow_pos _
    have hlow := low_lt b.toNat
    split at h
    · cases h
    · next hshift =>
      simp only [and_eighty_eq_zero, hor] at h
      have hsum : result + (b.toNat &&& 0x7f) * 2 ^ (7 * m) < 2 ^ (7 * m) * 128 := by
        have : (b.toNat &&& 0x7f) * 2 ^ (7 * m) ≤ 127 * 2 ^ (7 * m) := Nat.mul_le_mul_right _ (by omega)
        omega
      split at h
      · next hlast =>
        rw [low_toNat hlast] at h hsum
        cases h
        have hword : result + b.toNat * 2 ^ (7 * m) < u64Bound := by
          by_cases h9 : m = 9
          · subst h9
            have hb : b.toNat ≤ 1 := by
              by_contra hb
              exact hshift ⟨by omega, UInt8.lt_iff_toNat_lt.mpr (by simpa using hb)⟩
            have : b.toNat * 2 ^ (7 * 9) ≤ 1 * 2 ^ (7 * 9) := Nat.mul_le_mul_right _ hb
            show _ < 2 ^ 64
            omega
          · have hle : (2 : Nat) ^ (7 * m + 7) ≤ 2 ^ 63 := Nat.pow_le_pow_right (by decide) (by omega)
            show _ < 2 ^ 64
            omega
        refine ⟨by omega, by simp, hword, ?_, ?_⟩
        · intro hz
          simp only [Nat.add_sub_cancel_left, Nat.sub_self, List.getElem?_cons_zero, Option.some.injEq] at hz
          subst hz
          simpa using hresult
        · intro hnz
          simp only [Nat.add_sub_cancel_left, Nat.sub_self, List.getElem?_cons_zero, ne_eq, Option.some.injEq] at hnz
          have hb : 0 < b.toNat := by
            rw [Nat.pos_iff_ne_zero]
            intro hb
            exact hnz (UInt8.toNat_inj.mp hb)
          simp only [Nat.add_sub_cancel_left, Nat.sub_self, Nat.mul_zero, Nat.add_zero, Nat.mul_one, hpow]
          have : 1 * 2 ^ (7 * m) ≤ b.toNat * 2 ^ (7 * m) := Nat.mul_le_mul_right _ hb
          exact ⟨by omega, hsum⟩
      · next hmore =>
        have hm' : m + 1 ≤ 9 := by
          by_contra h9
          have h9 : m = 9 := by omega
          subst h9
          apply hshift
          exact ⟨by omega, UInt8.lt_iff_toNat_lt.mpr (by show 1 < _; omega)⟩
        rw [show 7 * m + 7 = 7 * (m + 1) by omega] at h hpow
        have ih := readVarint_group bs hm' (by omega) h
        have hstop := ih.longer
        have hindex : stop - i - 1 = (stop - (i + 1) - 1) + 1 := by omega
        refine ⟨by omega, ?_, ih.word, ?_, ?_⟩
        · have := ih.fits
          simp only [List.length_cons]
          omega
        · intro hz
          rw [hindex, List.getElem?_cons_succ] at hz
          refine ⟨?_, fun h => by omega⟩
          have := (ih.zero hz).1
          rwa [show 7 * (m + 1) + 7 * (stop - (i + 1) - 1) = 7 * m + 7 * (stop - i - 1) by omega] at this
        · intro hnz
          rw [hindex, List.getElem?_cons_succ] at hnz
          have := ih.nonzero hnz
          rwa [show 7 * (m + 1) + 7 * (stop - (i + 1) - 1) = 7 * m + 7 * (stop - i - 1) by omega,
            show 7 * (m + 1) + 7 * (stop - (i + 1)) = 7 * m + 7 * (stop - i) by omega] at this

/-- The number at a position is written with more groups than it needs: its last group is zero. -/
def Padded (code : Bytes) (pos : Nat) : Prop :=
  ∃ value n, readVaruint code pos = .ok (value, n) ∧ 1 < n ∧ code[pos + n - 1]? = some 0

variable {code : Bytes} {pos value n : Nat}

theorem readVaruint_group (h : readVaruint code pos = .ok (value, n)) :
    Group (code.drop pos) pos 0 0 value (pos + n) := by
  unfold readVaruint at h
  split at h
  · next value' stop hread =>
    cases h
    have hgroup := readVarint_group (code.drop pos) (Nat.zero_le 9) (by decide) hread
    rwa [show pos + (stop - pos) = stop by have := hgroup.longer; omega]
  · cases h
  · cases h

theorem readVaruint_fits (h : readVaruint code pos = .ok (value, n)) :
    0 < n ∧ pos + n ≤ code.length ∧ value < u64Bound := by
  have hgroup := readVaruint_group h
  have hlonger := hgroup.longer
  have hfits := hgroup.fits
  rw [List.length_drop] at hfits
  exact ⟨by omega, by omega, hgroup.word⟩

/-- Past the end there is no number. -/
theorem readVaruint_past {pos : Nat} (hpos : code.length ≤ pos) :
    readVaruint code pos = .error (.varuintEnd pos) := by
  unfold readVaruint
  rw [List.drop_eq_nil_of_le hpos]
  rfl

/-- The length computed from a number is the length it was read from, unless it is padded. -/
theorem varuintLen_le (h : readVaruint code pos = .ok (value, n)) :
    varuintLen value ≤ n ∧ (varuintLen value = n ↔ ¬ Padded code pos) := by
  have hgroup := readVaruint_group h
  have hn : 0 < n := (readVaruint_fits h).1
  have hpadded : Padded code pos ↔ 1 < n ∧ code[pos + n - 1]? = some 0 := by
    constructor
    · rintro ⟨value', n', h', hlong, hlast⟩
      rw [h] at h'
      cases h'
      exact ⟨hlong, hlast⟩
    · rintro ⟨hlong, hlast⟩
      exact ⟨value, n, h, hlong, hlast⟩
  have hlast : (code.drop pos)[pos + n - pos - 1]? = code[pos + n - 1]? := by
    rw [List.getElem?_drop]
    congr 1
    omega
  have hzero := hgroup.zero
  have hnonzero := hgroup.nonzero
  rw [hlast, Nat.zero_add] at hzero hnonzero
  rw [show pos + n - pos - 1 = n - 1 by omega] at hzero hnonzero
  rw [show 0 + 7 * (pos + n - pos) = 7 * n by omega] at hnonzero
  rw [hpadded]
  unfold varuintLen
  by_cases hz : code[pos + n - 1]? = some 0
  · obtain ⟨hlt, hone⟩ := hzero hz
    by_cases hv : value = 0
    · subst hv
      simp only [Nat.log2_zero, hz, and_true]
      omega
    · have hlog := (Nat.log2_lt hv).mpr hlt
      have hlong : n ≠ 1 := fun hn => hv (hone (by omega))
      simp only [hz, and_true]
      omega
  · obtain ⟨hle, hlt⟩ := hnonzero hz
    have hv : value ≠ 0 := by
      have := Nat.two_pow_pos (7 * (n - 1))
      omega
    have hlog := (Nat.log2_lt hv).mpr hlt
    have hlog' := (Nat.le_log2 hv).mpr hle
    simp only [hz, and_false, not_false_eq_true, iff_true]
    omega

end Numbers

/-! ## What the parser reads -/

/-- The positions of a list of numbers. -/
def intPositions (code : Bytes) : Nat → Nat → List Nat
  | 0, _ => []
  | count + 1, pos =>
    pos :: match readVaruint code pos with
      | .ok (_, n) => intPositions code count (pos + n)
      | .error _ => []

/-- The positions of the lengths in a list of byte strings.  The sums are those of numbers without a bound. -/
def entryPositions (code : Bytes) : Nat → Nat → List Nat
  | 0, _ => []
  | count + 1, pos =>
    pos :: match readVaruint code pos with
      | .ok (length, n) => entryPositions code count (pos + n + length)
      | .error _ => []

/-- The positions in a list that starts with its count, if the count passes its check. -/
def listPositions (positions : Nat → Nat → List Nat) (code : Bytes) (pos : Nat) : List Nat :=
  match readVaruint code pos with
  | .ok (count, n) => if count ≤ code.length - (pos + n) then positions count (pos + n) else []
  | .error _ => []

/-- Where the parser reads the length of a byte constant in the immediate arguments at a position. -/
def lengthsAt (code : Bytes) (pos : Nat) : ImmKind → List Nat
  | .varuintBytes => [pos]
  | .bytecBlock | .pushBytess => listPositions (entryPositions code) code pos
  | _ => []

/-- Where the parser reads a number whose length it does not remember. -/
def numbersAt (code : Bytes) (pos : Nat) : ImmKind → List Nat
  | .varuint | .varuintBytes => [pos]
  | .intcBlock | .pushInts => pos :: listPositions (intPositions code) code pos
  | .bytecBlock | .pushBytess => pos :: listPositions (entryPositions code) code pos
  | _ => []

/-- Byte constants lie one after another from a position: each is a piece of the program, right after the number that
declares its length. -/
def Laid (code : Bytes) : Nat → List Bytes → Prop
  | _, [] => True
  | pos, b :: bs => ∃ n, readVaruint code pos = .ok (b.length, n) ∧ pos + n + b.length ≤ code.length ∧
      (code.drop (pos + n)).take b.length = b ∧ Laid code (pos + n + b.length) bs

/-- The byte constants of immediate arguments at a position. -/
def ConstantsLaid (code : Bytes) (pos : Nat) : Immediates → Prop
  | .bytes b => Laid code pos [b]
  | .byteBlock bs | .pushBytess bs => ∃ n, readVaruint code pos = .ok (bs.length, n) ∧ Laid code (pos + n) bs
  | _ => True

section Measured

/-- A computed size against the number of bytes that were read: they are the same if and only if no number among the
given ones is padded. -/
structure Measured (code : Bytes) (numbers : List Nat) (size consumed : Nat) : Prop where
  le : size ≤ consumed
  eq_iff : size = consumed ↔ ∀ q ∈ numbers, ¬ Padded code q

variable {code : Bytes}

theorem Measured.plain (n : Nat) : Measured code [] n n := ⟨le_refl n, by simp⟩

theorem Measured.number {pos value n : Nat} (h : readVaruint code pos = .ok (value, n)) :
    Measured code [pos] (varuintLen value) n :=
  ⟨(varuintLen_le h).1, by simpa using (varuintLen_le h).2⟩

theorem Measured.append {ns ns' : List Nat} {size size' consumed consumed' : Nat} (h : Measured code ns size consumed)
    (h' : Measured code ns' size' consumed') : Measured code (ns ++ ns') (size + size') (consumed + consumed') := by
  have hle := h.le
  have hle' := h'.le
  refine ⟨by omega, ?_⟩
  have hsum : size + size' = consumed + consumed' ↔ size = consumed ∧ size' = consumed' := by omega
  rw [hsum, h.eq_iff, h'.eq_iff]
  simp only [List.mem_append, or_imp, forall_and]

end Measured

/-! ## The readers of immediate arguments -/

section Readers

variable {code : Bytes} {pos : Nat} {name : String} {consumed : Nat} {version : Nat} {start length : Nat}

theorem liftError_eq_ok {α : Type} {x : Except AvmError α} {a : α} : liftError x = .ok a ↔ x = .ok a := Run.mapError_eq_ok

theorem liftError_ne_panic {α : Type} (x : Except AvmError α) : liftError x ≠ .error .panic := by
  cases x with
  | ok a => exact nofun
  | error e => exact nofun

/-- Where the sum of position and length is a machine word, the slice is the one that was asked for. -/
theorem readSlice_eq_ok {bs : Bytes} (hlength : length < u64Bound) (h : readSlice code start length name = .ok bs) :
    start + length ≤ code.length ∧ (code.drop start).take length = bs ∧ bs.length = length := by
  unfold readSlice at h
  simp only at h
  split at h
  · cases h
  · next hend =>
    split at h
    · cases h
    · next hstart =>
      have hsum : start + length < u64Bound := by
        by_contra hsum
        have hmod := Nat.mod_add_div (start + length) u64Bound
        have hdiv : 1 ≤ (start + length) / u64Bound := (Nat.one_le_div_iff (by decide)).mpr (by omega)
        have : u64Bound * 1 ≤ u64Bound * ((start + length) / u64Bound) := Nat.mul_le_mul_left _ hdiv
        omega
      rw [Nat.mod_eq_of_lt hsum] at h hend
      have hlen : start + length - start = length := by omega
      rw [hlen] at h
      cases h
      refine ⟨by omega, rfl, ?_⟩
      rw [List.length_take, List.length_drop]
      omega

/-- The slice panics when the sum of position and length is not a machine word. -/
theorem readSlice_eq_panic (hstart : start ≤ code.length)
    (hlength : length < u64Bound) : readSlice code start length name = .error .panic ↔ u64Bound ≤ start + length := by
  unfold readSlice
  simp only
  by_cases hsum : start + length < u64Bound
  · rw [Nat.mod_eq_of_lt hsum]
    constructor
    · intro h
      split at h
      · cases h
      · split at h
        · omega
        · cases h
    · omega
  · have hmod := Nat.mod_add_div (start + length) u64Bound
    have hdiv : 1 ≤ (start + length) / u64Bound := (Nat.one_le_div_iff (by decide)).mpr (by omega)
    have : u64Bound * 1 ≤ u64Bound * ((start + length) / u64Bound) := Nat.mul_le_mul_left _ hdiv
    have hwrapped : (start + length) % u64Bound < start := by omega
    rw [if_neg (by omega), if_pos hwrapped]
    simp only [true_iff]
    omega

theorem readSlice_of_fits (name : String) (hsum : start + length < u64Bound)
    (hfits : start + length ≤ code.length) : readSlice code start length name = .ok ((code.drop start).take length) := by
  unfold readSlice
  simp only [Nat.mod_eq_of_lt hsum]
  rw [if_neg (by omega), if_neg (by omega), Nat.add_sub_cancel_left]

theorem entryPositions_past : ∀ {count p q length n : Nat}, code.length ≤ p → q ∈ entryPositions code count p →
    readVaruint code q ≠ .ok (length, n)
  | 0, _, _, _, _, _, hq => nomatch hq
  | count + 1, p, q, length, n, hp, hq => by
    unfold entryPositions at hq
    rw [readVaruint_past hp] at hq
    simp only [List.mem_singleton] at hq
    rw [hq, readVaruint_past hp]
    exact nofun

theorem readInts_eq_ok : ∀ {count consumed consumed' : Nat} {values values' : List Nat},
    readInts code pos count consumed values = .ok (values', consumed') → pos + consumed ≤ code.length →
      ∃ new taken, values' = values ++ new ∧ new.length = count ∧ consumed' = consumed + taken ∧
        pos + consumed' ≤ code.length ∧
        Measured code (intPositions code count (pos + consumed)) (new.map varuintLen).sum taken
  | 0, _, _, _, _, h, hpos => by
    cases h
    exact ⟨[], 0, by simp, rfl, rfl, hpos, .plain 0⟩
  | count + 1, consumed, consumed', values, values', h, hpos => by
    unfold readInts at h
    obtain ⟨⟨v, n⟩, hread, h⟩ := Run.bind_eq_ok.mp h
    have hfits := (readVaruint_fits hread).2.1
    obtain ⟨new, taken, rfl, rfl, rfl, hend, hmeasured⟩ := readInts_eq_ok h (by simp only; omega)
    refine ⟨v :: new, n + taken, by simp, rfl, by simp only; omega, hend, ?_⟩
    have hsum := (Measured.number hread).append hmeasured
    unfold intPositions
    rw [hread]
    simpa [Nat.add_assoc] using hsum

theorem readByteStrings_eq_ok : ∀ {count consumed consumed' : Nat} {entries entries' : List Bytes},
    readByteStrings code pos name count consumed entries = .ok (entries', consumed') → pos + consumed ≤ code.length →
      ∃ new taken, entries' = entries ++ new ∧ new.length = count ∧ consumed' = consumed + taken ∧
        pos + consumed' ≤ code.length ∧ Laid code (pos + consumed) new ∧
        Measured code (entryPositions code count (pos + consumed))
          (new.map (fun e => varuintLen e.length + e.length)).sum taken
  | 0, _, _, _, _, h, hpos => by
    cases h
    exact ⟨[], 0, by simp, rfl, rfl, hpos, trivial, .plain 0⟩
  | count + 1, consumed, consumed', entries, entries', h, hpos => by
    unfold readByteStrings at h
    obtain ⟨⟨length, n⟩, hread, h⟩ := Run.bind_eq_ok.mp h
    obtain ⟨entry, hslice, h⟩ := Run.bind_eq_ok.mp h
    have hread := liftError_eq_ok.mp hread
    simp only at hslice h
    have hword := (readVaruint_fits hread).2.2
    obtain ⟨hfits, htake, rfl⟩ := readSlice_eq_ok hword hslice
    have hnext : pos + (consumed + n + entry.length) = pos + consumed + n + entry.length := by omega
    obtain ⟨new, taken, rfl, rfl, rfl, hend, hlaid, hmeasured⟩ := readByteStrings_eq_ok h (by rw [hnext]; omega)
    rw [hnext] at hlaid hmeasured
    have hafter : pos + (consumed + n) = pos + consumed + n := by omega
    rw [hafter] at hfits htake
    refine ⟨entry :: new, n + entry.length + taken, by simp, rfl, by omega, hend, ⟨n, hread, hfits, htake, hlaid⟩, ?_⟩
    have hsum := ((Measured.number hread).append (.plain entry.length)).append hmeasured
    unfold entryPositions
    rw [hread]
    simpa [Nat.add_assoc] using hsum

/-- Reading a list of byte strings panics at a length that reaches past the machine word. -/
theorem readByteStrings_eq_panic : ∀ {count consumed : Nat} {entries : List Bytes},
    readByteStrings code pos name count consumed entries = .error .panic ↔
      ∃ q ∈ entryPositions code count (pos + consumed), ∃ length n,
        readVaruint code q = .ok (length, n) ∧ u64Bound ≤ q + n + length
  | 0, _, _ => by
    unfold readByteStrings entryPositions
    simp
  | count + 1, consumed, entries => by
    unfold readByteStrings entryPositions
    cases hread : readVaruint code (pos + consumed) with
    | error e =>
      simp only [List.mem_singleton, exists_eq_left, hread]
      constructor
      · exact nofun
      · rintro ⟨_, _, h, _⟩
        cases h
    | ok r =>
      obtain ⟨length, n⟩ := r
      obtain ⟨-, hfits, hword⟩ := readVaruint_fits hread
      have hpanic : readSlice code (pos + (consumed + n)) length name = .error .panic ↔ _ :=
        readSlice_eq_panic (by omega) hword
      have hafter : pos + (consumed + n) = pos + consumed + n := by omega
      simp only [List.mem_cons, exists_eq_or_imp, hread, liftError, Except.mapError, Run.ok_bind]
      rw [show (∃ length' n', (.ok (length, n) : Except AvmError (Nat × Nat)) = .ok (length', n') ∧
          u64Bound ≤ pos + consumed + n' + length') ↔ u64Bound ≤ pos + (consumed + n) + length by
        constructor
        · rintro ⟨_, _, h, hle⟩
          cases h
          omega
        · intro hle
          exact ⟨length, n, rfl, by omega⟩]
      cases hslice : readSlice code (pos + (consumed + n)) length name with
      | ok entry =>
        rw [hslice] at hpanic
        have hle : ¬ u64Bound ≤ pos + (consumed + n) + length := fun hle => nomatch hpanic.mpr hle
        have ih : readByteStrings code pos name count (consumed + n + length) (entries ++ [entry]) = .error .panic ↔ _ :=
          readByteStrings_eq_panic
        rw [show pos + (consumed + n + length) = pos + consumed + n + length by omega] at ih
        simp only [Run.ok_bind, ih, hle, false_or]
      | error e =>
        rw [hslice, Except.error.injEq] at hpanic
        simp only [Run.error_bind]
        rw [Except.error.injEq, hpanic]
        constructor
        · exact .inl
        · rintro (hle | ⟨q, hq, length', n', hq', hle⟩)
          · exact hle
          · -- the string ends past the program, and there is no number there
            by_contra hsum
            have hpast : code.length ≤ pos + consumed + n + length := by
              by_contra hpast
              rw [readSlice_of_fits name (by omega) (by omega)] at hslice
              cases hslice
            exact entryPositions_past hpast hq hq'

/-- The bytes of immediate arguments: they end in the program, their length is measured and their constants lie in
it. -/
structure Taken (code : Bytes) (pos : Nat) (kind : ImmKind) (immediates : Immediates) (consumed : Nat) : Prop where
  fits : pos + consumed ≤ code.length
  measured : Measured code (numbersAt code pos kind) (immediateByteLen immediates) consumed
  constants : ConstantsLaid code pos immediates

theorem readImmediateByte_eq_ok {index : Nat} {b : UInt8}
    (h : readImmediateByte code pos name index = .ok b) : pos + 1 ≤ code.length := by
  unfold readImmediateByte at h
  split at h
  · next hb => exact (List.getElem?_eq_some_iff.mp hb).1
  · split at h
    · cases h
    · cases h

/-- A list's count is a number, and passes its check. -/
theorem listPositions_of_ok {positions : Nat → Nat → List Nat} {count n : Nat}
    (hread : readVaruint code pos = .ok (count, n)) (hcheck : checkConstListCount code pos n count name = .ok ()) :
    listPositions positions code pos = positions count (pos + n) := by
  unfold checkConstListCount at hcheck
  simp only at hcheck
  unfold listPositions
  rw [hread]
  simp only
  split at hcheck
  · cases hcheck
  · rw [if_pos (by omega)]

theorem readIntList_eq_ok {values : List Nat} (h : readIntList code pos name = .ok (values, consumed)) :
    pos + consumed ≤ code.length ∧ Measured code (pos :: listPositions (intPositions code) code pos)
      (varuintLen values.length + (values.map varuintLen).sum) consumed := by
  unfold readIntList at h
  obtain ⟨⟨count, n⟩, hread, h⟩ := Run.bind_eq_ok.mp h
  obtain ⟨⟨⟩, hcheck, h⟩ := Run.bind_eq_ok.mp h
  have hread := liftError_eq_ok.mp hread
  rw [listPositions_of_ok hread (liftError_eq_ok.mp hcheck)]
  obtain ⟨new, taken, rfl, rfl, rfl, hend, hmeasured⟩ :=
    readInts_eq_ok (liftError_eq_ok.mp h) (readVaruint_fits hread).2.1
  exact ⟨hend, (Measured.number hread).append hmeasured⟩

theorem readBytesList_eq_ok {entries : List Bytes}
    (h : readBytesList code pos name version = .ok (entries, consumed)) :
    pos + consumed ≤ code.length ∧ (∃ n, readVaruint code pos = .ok (entries.length, n) ∧ Laid code (pos + n) entries) ∧
      Measured code (pos :: listPositions (entryPositions code) code pos)
        (varuintLen entries.length + (entries.map (fun e => varuintLen e.length + e.length)).sum) consumed := by
  unfold readBytesList at h
  obtain ⟨⟨count, n⟩, hread, h⟩ := Run.bind_eq_ok.mp h
  obtain ⟨⟨⟩, hcheck, h⟩ := Run.bind_eq_ok.mp h
  obtain ⟨⟨entries', consumed'⟩, hentries, h⟩ := Run.bind_eq_ok.mp h
  obtain ⟨-, -, h⟩ := Run.bind_eq_ok.mp h
  cases h
  have hread := liftError_eq_ok.mp hread
  rw [listPositions_of_ok hread (liftError_eq_ok.mp hcheck)]
  obtain ⟨new, taken, rfl, rfl, rfl, hend, hlaid, hmeasured⟩ :=
    readByteStrings_eq_ok hentries (readVaruint_fits hread).2.1
  exact ⟨hend, ⟨n, hread, hlaid⟩, (Measured.number hread).append hmeasured⟩

theorem readBytesList_eq_panic :
    readBytesList code pos name version = .error .panic ↔
      ∃ q ∈ listPositions (entryPositions code) code pos, ∃ length n,
        readVaruint code q = .ok (length, n) ∧ u64Bound ≤ q + n + length := by
  unfold readBytesList listPositions
  cases hread : readVaruint code pos with
  | error e => simp [liftError, Except.mapError]
  | ok r =>
    obtain ⟨count, n⟩ := r
    simp only [liftError, Except.mapError, Run.ok_bind, checkConstListCount]
    by_cases hcount : count > code.length - (pos + n)
    · rw [if_pos hcount, if_neg (by omega)]
      simp
    · rw [if_neg hcount, if_pos (by omega)]
      simp only [Run.ok_bind]
      have hentries : readByteStrings code pos name count n [] = .error .panic ↔ _ := readByteStrings_eq_panic
      rw [← hentries]
      cases readByteStrings code pos name count n [] with
      | error e => simp
      | ok entries =>
        simp only [Run.ok_bind, reduceCtorEq, iff_false]
        cases checkTrailingEmptyByteImm version pos entries.2 code entries.1 name with
        | error e => simp
        | ok _ => simp [pure, Except.pure]

theorem readInt16_eq_ok {v : Int} (h : readInt16 code pos = .ok v) :
    pos + 2 ≤ code.length ∧ -32768 ≤ v ∧ v < 32768 := by
  unfold readInt16 at h
  split at h
  · next hi lo _ hlo =>
    have hfits := (List.getElem?_eq_some_iff.mp hlo).1
    have hhi := hi.toNat_lt
    have hlo := lo.toNat_lt
    refine ⟨by omega, ?_⟩
    simp only at h
    split at h
    · cases h
      omega
    · cases h
      omega
  · cases h

theorem readLabels_eq_ok {offsets : List Int} (h : readLabels code pos name = .ok (offsets, consumed)) :
    pos + consumed ≤ code.length ∧ consumed = 1 + offsets.length * 2 ∧ ∀ v ∈ offsets, -32768 ≤ v ∧ v < 32768 := by
  unfold readLabels at h
  split at h
  · cases h
  · next count hcount =>
    split at h
    · cases h
    · obtain ⟨offsets', hoffsets, h⟩ := Run.bind_eq_ok.mp h
      cases h
      obtain ⟨hlength, hget⟩ := List.forall₂_iff_get.mp (Run.mapM_eq_ok.mp hoffsets)
      rw [List.length_range] at hlength
      refine ⟨by omega, by omega, ?_⟩
      intro v hv
      obtain ⟨i, rfl⟩ := List.mem_iff_get.mp hv
      exact (readInt16_eq_ok (hget i (by rw [List.length_range, hlength]; exact i.2) i.2)).2

theorem readBranchVarint_eq_ok {v : Int} {n : Nat} (h : readBranchVarint code pos = .ok (v, n)) :
    pos + n ≤ code.length := by
  unfold readBranchVarint at h
  split at h
  · next result stop hread =>
    cases h
    have hgroup := readVarint_group (code.drop pos) (Nat.zero_le 9) (by decide) hread
    have hlonger := hgroup.longer
    have hfits := hgroup.fits
    rw [List.length_drop] at hfits
    omega
  · cases h
  · cases h

theorem parseImmediates_eq_ok {kind : ImmKind} {immediates : Immediates}
    (hpos : pos ≤ code.length) (h : parseImmediates code pos kind name version = .ok (immediates, consumed)) :
    Taken code pos kind immediates consumed := by
  cases kind with
  | none =>
    cases h
    exact ⟨hpos, .plain 0, trivial⟩
  | uint8 =>
    obtain ⟨a, ha, h⟩ := Run.bind_eq_ok.mp h
    cases h
    exact ⟨readImmediateByte_eq_ok (liftError_eq_ok.mp ha), .plain 1, trivial⟩
  | uint8Uint8 =>
    obtain ⟨a, -, h⟩ := Run.bind_eq_ok.mp h
    obtain ⟨b, hb, h⟩ := Run.bind_eq_ok.mp h
    cases h
    exact ⟨readImmediateByte_eq_ok (liftError_eq_ok.mp hb), .plain 2, trivial⟩
  | uint8Uint8Uint8 =>
    obtain ⟨a, -, h⟩ := Run.bind_eq_ok.mp h
    obtain ⟨b, -, h⟩ := Run.bind_eq_ok.mp h
    obtain ⟨c, hc, h⟩ := Run.bind_eq_ok.mp h
    cases h
    exact ⟨readImmediateByte_eq_ok (liftError_eq_ok.mp hc), .plain 3, trivial⟩
  | int16 =>
    obtain ⟨v, hv, h⟩ := Run.bind_eq_ok.mp h
    cases h
    exact ⟨(readInt16_eq_ok (liftError_eq_ok.mp hv)).1, .plain 2, trivial⟩
  | varuint =>
    obtain ⟨⟨v, n⟩, hv, h⟩ := Run.bind_eq_ok.mp h
    cases h
    have hread := liftError_eq_ok.mp hv
    exact ⟨(readVaruint_fits hread).2.1, .number hread, trivial⟩
  | varuintBytes =>
    obtain ⟨⟨length, n⟩, hv, h⟩ := Run.bind_eq_ok.mp h
    obtain ⟨bs, hslice, h⟩ := Run.bind_eq_ok.mp h
    cases h
    have hread := liftError_eq_ok.mp hv
    simp only at hslice ⊢
    obtain ⟨hfits, htake, rfl⟩ := readSlice_eq_ok (readVaruint_fits hread).2.2 hslice
    exact ⟨by omega, (Measured.number hread).append (.plain bs.length), n, hread, hfits, htake, trivial⟩
  | intcBlock =>
    obtain ⟨r, hr, h⟩ := Run.bind_eq_ok.mp h
    cases h
    exact ⟨(readIntList_eq_ok hr).1, (readIntList_eq_ok hr).2, trivial⟩
  | bytecBlock =>
    obtain ⟨r, hr, h⟩ := Run.bind_eq_ok.mp h
    cases h
    obtain ⟨hfits, hlaid, hmeasured⟩ := readBytesList_eq_ok hr
    exact ⟨hfits, hmeasured, hlaid⟩
  | pushInts =>
    obtain ⟨r, hr, h⟩ := Run.bind_eq_ok.mp h
    cases h
    exact ⟨(readIntList_eq_ok hr).1, (readIntList_eq_ok hr).2, trivial⟩
  | pushBytess =>
    obtain ⟨r, hr, h⟩ := Run.bind_eq_ok.mp h
    cases h
    obtain ⟨hfits, hlaid, hmeasured⟩ := readBytesList_eq_ok hr
    exact ⟨hfits, hmeasured, hlaid⟩
  | labels =>
    obtain ⟨⟨offsets, n⟩, hr, h⟩ := Run.bind_eq_ok.mp h
    cases h
    obtain ⟨hfits, rfl, -⟩ := readLabels_eq_ok (liftError_eq_ok.mp hr)
    exact ⟨hfits, .plain _, trivial⟩
  | branchVarint =>
    obtain ⟨⟨v, n⟩, hr, h⟩ := Run.bind_eq_ok.mp h
    cases h
    exact ⟨readBranchVarint_eq_ok (liftError_eq_ok.mp hr), .plain _, trivial⟩

/-- Reading after something that does not panic. -/
theorem liftError_bind_panic {α β : Type} {x : Except AvmError α} {f : α → Except Stop β} :
    (liftError x >>= f) = .error .panic ↔ ∃ a, x = .ok a ∧ f a = .error .panic := by
  cases x with
  | ok a => simp [liftError, Except.mapError]
  | error e => simp [liftError, Except.mapError]

theorem bind_pure_panic {α β : Type} {x : Except Stop α} {f : α → β} :
    (x >>= fun a => pure (f a)) = .error .panic ↔ x = .error .panic := by
  cases x with
  | ok a => simp [pure, Except.pure]
  | error e => simp

theorem readIntList_ne_panic (name : String) : readIntList code pos name ≠ .error .panic := by
  unfold readIntList
  intro h
  obtain ⟨r, -, h⟩ := liftError_bind_panic.mp h
  obtain ⟨_, -, h⟩ := liftError_bind_panic.mp h
  exact liftError_ne_panic _ h

/-- **Immediate arguments make the parser panic** at the length of a byte constant, when it reaches past the machine
word. -/
theorem parseImmediates_eq_panic {kind : ImmKind} :
    parseImmediates code pos kind name version = .error .panic ↔
      ∃ q ∈ lengthsAt code pos kind, ∃ length n, readVaruint code q = .ok (length, n) ∧ u64Bound ≤ q + n + length := by
  have hnever : ∀ {α β : Type} (x : Except AvmError α) (f : α → β), (liftError x >>= fun a => pure (f a)) ≠ .error .panic :=
    fun x f h => liftError_ne_panic x (bind_pure_panic.mp h)
  unfold lengthsAt
  cases kind with
  | none => simp [parseImmediates]
  | uint8 => simpa [parseImmediates] using hnever _ _
  | uint8Uint8 =>
    simp only [parseImmediates, liftError_bind_panic, List.not_mem_nil, false_and, exists_false, iff_false]
    rintro ⟨a, -, b, -, h⟩
    cases h
  | uint8Uint8Uint8 =>
    simp only [parseImmediates, liftError_bind_panic, List.not_mem_nil, false_and, exists_false, iff_false]
    rintro ⟨a, -, b, -, c, -, h⟩
    cases h
  | int16 => simpa [parseImmediates] using hnever _ _
  | varuint => simpa [parseImmediates] using hnever _ _
  | varuintBytes =>
    simp only [parseImmediates, liftError_bind_panic, bind_pure_panic, List.mem_singleton, exists_eq_left, Prod.exists]
    apply exists_congr
    intro length
    apply exists_congr
    intro n
    apply and_congr_right
    intro hread
    exact readSlice_eq_panic (readVaruint_fits hread).2.1 (readVaruint_fits hread).2.2
  | intcBlock =>
    simp only [parseImmediates, bind_pure_panic, List.not_mem_nil, false_and, exists_false, iff_false]
    exact readIntList_ne_panic _
  | bytecBlock => simp only [parseImmediates, bind_pure_panic, readBytesList_eq_panic]
  | pushInts =>
    simp only [parseImmediates, bind_pure_panic, List.not_mem_nil, false_and, exists_false, iff_false]
    exact readIntList_ne_panic _
  | pushBytess => simp only [parseImmediates, bind_pure_panic, readBytesList_eq_panic]
  | labels => simpa [parseImmediates] using hnever _ _
  | branchVarint => simpa [parseImmediates] using hnever _ _

end Readers

/-! ## Instructions -/

section Instructions

/-- How the immediate arguments of an opcode are encoded in a program of a version. -/
def immKind (version : Nat) (byte : UInt8) (spec : OpSpec) : ImmKind :=
  if version ≥ varintBranchVersion && isVarintBranchOpcode byte then .branchVarint else spec.imm

/-- An opcode of the table that a program of this version may use starts at a position. -/
structure Opens (version : Nat) (code : Bytes) (pc : Nat) (byte : UInt8) (spec : OpSpec) (headerLen : Nat) : Prop where
  first : code[pc]? = some byte
  resolved : resolve byte (code.drop (pc + 1)) = .ok (spec, headerLen)
  allowed : spec.version ≤ max version 1

theorem sub_opcode_plain {sub : UInt8} {spec : OpSpec} (h : lookupSub sub = some spec) : spec.imm = .none := by
  have hall : ∀ s ∈ appBoxSubOps, s.2.imm = ImmKind.none := by decide
  unfold lookupSub at h
  obtain ⟨s, hs, rfl⟩ := Option.map_eq_some_iff.mp h
  exact hall s (List.mem_of_find?_eq_some hs)

set_option maxRecDepth 20000 in
theorem lookup_sub_byte {byte : UInt8} {spec : OpSpec} (h : lookup byte = some spec) (hsub : spec.hasSubOps = true) :
    byte = 0xd4 := by
  have hall : ∀ s ∈ opcodeTable, s.hasSubOps = true → s.opcode = 0xd4 := by decide
  unfold lookup at h
  have hopcode := List.find?_some h
  rw [beq_iff_eq] at hopcode
  rw [← hopcode]
  exact hall spec (List.mem_of_find?_eq_some h) hsub

/-- An opcode has one byte, or it is a prefix with a second byte and no immediate arguments. -/
theorem resolve_cases {byte : UInt8} {rest : Bytes} {spec : OpSpec} {headerLen : Nat}
    (h : resolve byte rest = .ok (spec, headerLen)) :
    headerLen = 1 ∧ byte ≠ 0xd4 ∨ headerLen = 2 ∧ byte = 0xd4 ∧ rest ≠ [] ∧ spec.imm = .none := by
  unfold resolve at h
  split at h
  · cases h
  · next top hlookup =>
    by_cases hsub : top.hasSubOps = true
    · rw [if_pos hsub] at h
      split at h
      · cases h
      · next sub rest' =>
        split at h
        · next subSpec hspec =>
          cases h
          exact .inr ⟨rfl, lookup_sub_byte hlookup hsub, nofun, sub_opcode_plain hspec⟩
        · cases h
    · rw [if_neg hsub] at h
      cases h
      refine .inl ⟨rfl, ?_⟩
      rintro rfl
      have hprefix : (lookup 0xd4).any OpSpec.hasSubOps = true := by decide
      rw [hlookup] at hprefix
      exact hsub hprefix

variable {version : Nat} {code : Bytes} {pc headerLen : Nat} {byte : UInt8} {spec : OpSpec}

theorem Opens.header (h : Opens version code pc byte spec headerLen) :
    headerLen = 1 ∧ byte ≠ 0xd4 ∨
      headerLen = 2 ∧ byte = 0xd4 ∧ immKind version byte spec = .none ∧ ∃ sub, code[pc + 1]? = some sub := by
  obtain ⟨hone, hbyte⟩ | ⟨htwo, hbyte, hrest, himm⟩ := resolve_cases h.resolved
  · exact .inl ⟨hone, hbyte⟩
  · refine .inr ⟨htwo, hbyte, ?_, ?_⟩
    · subst hbyte
      unfold immKind
      rw [himm]
      simp [isVarintBranchOpcode]
    · have hlt : pc + 1 < code.length := by
        by_contra hle
        exact hrest (List.drop_eq_nil_of_le (by omega))
      exact ⟨_, List.getElem?_eq_getElem hlt⟩

theorem Opens.fits (h : Opens version code pc byte spec headerLen) : 0 < headerLen ∧ pc + headerLen ≤ code.length := by
  have hpc := (List.getElem?_eq_some_iff.mp h.first).1
  obtain ⟨hone, -⟩ | ⟨htwo, -, -, sub, hsub⟩ := h.header
  · omega
  · have := (List.getElem?_eq_some_iff.mp hsub).1
    omega

variable {instruction : Instruction}

/-- What the parser does with an instruction it accepts. -/
theorem parseInstruction_eq_ok {next : Nat} (hbyte : code[pc]? = some byte)
    (h : parseInstruction version code pc byte = .ok (instruction, next)) :
    ∃ spec headerLen consumed, Opens version code pc byte spec headerLen ∧
      parseImmediates code (pc + headerLen) (immKind version byte spec) spec.name version =
        .ok (instruction.immediates, consumed) ∧
      Taken code (pc + headerLen) (immKind version byte spec) instruction.immediates consumed ∧
      instruction.opcode = byte ∧ instruction.offset = pc ∧
      instruction.subOpcode = (if headerLen > 1 then code[pc + 1]? else none) ∧ next = pc + headerLen + consumed := by
  unfold parseInstruction at h
  obtain ⟨⟨spec, headerLen⟩, hresolve, h⟩ := Run.bind_eq_ok.mp h
  have hresolve := Run.mapError_eq_ok.mp (liftError_eq_ok.mp hresolve)
  simp only at h
  split at h
  · cases h
  · next hversion =>
    obtain ⟨⟨immediates, consumed⟩, himm, h⟩ := Run.bind_eq_ok.mp h
    obtain ⟨_, -, h⟩ := Run.bind_eq_ok.mp h
    cases h
    have hopens : Opens version code pc byte spec headerLen := ⟨hbyte, hresolve, by omega⟩
    exact ⟨spec, headerLen, consumed, hopens, himm, parseImmediates_eq_ok hopens.fits.2 himm, rfl, rfl, rfl, rfl⟩

/-- An instruction makes the parser panic when its immediate arguments do. -/
theorem parseInstruction_eq_panic (hbyte : code[pc]? = some byte) :
    parseInstruction version code pc byte = .error .panic ↔
      ∃ spec headerLen, Opens version code pc byte spec headerLen ∧
        parseImmediates code (pc + headerLen) (immKind version byte spec) spec.name version = .error .panic := by
  unfold parseInstruction
  rw [liftError_bind_panic]
  constructor
  · rintro ⟨⟨spec, headerLen⟩, hresolve, h⟩
    have hresolve := Run.mapError_eq_ok.mp hresolve
    simp only at h
    split at h
    · cases h
    · next hversion =>
      refine ⟨spec, headerLen, ⟨hbyte, hresolve, by omega⟩, ?_⟩
      cases himm : parseImmediates code (pc + headerLen) (immKind version byte spec) spec.name version with
      | error e =>
        unfold immKind at himm
        rw [himm, Run.error_bind, Except.error.injEq] at h
        rw [h]
      | ok r =>
        unfold immKind at himm
        rw [himm, Run.ok_bind] at h
        obtain ⟨_, -, h⟩ := liftError_bind_panic.mp h
        cases h
  · rintro ⟨spec, headerLen, hopens, himm⟩
    refine ⟨(spec, headerLen), Run.mapError_eq_ok.mpr hopens.resolved, ?_⟩
    have hversion : ¬ spec.version > max version 1 := by
      have := hopens.allowed
      omega
    simp only
    rw [if_neg hversion]
    unfold immKind at himm
    rw [himm, Run.error_bind]

/-- The parser accepts some instructions one after another from a position to another. -/
inductive Reads (version : Nat) (code : Bytes) : Nat → List Instruction → Nat → Prop
  | nil (pc : Nat) : Reads version code pc [] pc
  | cons {pc next stop : Nat} {byte : UInt8} {instruction : Instruction} {rest : List Instruction}
      (first : code[pc]? = some byte) (parsed : parseInstruction version code pc byte = .ok (instruction, next))
      (after : Reads version code next rest stop) : Reads version code pc (instruction :: rest) stop

theorem parseInstruction_next {next : Nat} (hbyte : code[pc]? = some byte)
    (h : parseInstruction version code pc byte = .ok (instruction, next)) : pc < next ∧ next ≤ code.length := by
  obtain ⟨spec, headerLen, consumed, hopens, -, htaken, -, -, -, rfl⟩ := parseInstruction_eq_ok hbyte h
  have hheader := hopens.fits
  have hfits := htaken.fits
  omega

theorem parseInstructions_eq_ok : ∀ {steps pc : Nat} {before instructions : List Instruction},
    parseInstructions version code steps pc before = .ok instructions → pc ≤ code.length → code.length ≤ pc + steps →
      ∃ rest, instructions = before ++ rest ∧ Reads version code pc rest code.length
  | 0, pc, before, instructions, h, hpc, hsteps => by
    cases h
    have hend : pc = code.length := by omega
    refine ⟨[], by simp, ?_⟩
    rw [hend]
    exact .nil _
  | steps + 1, pc, before, instructions, h, hpc, hsteps => by
    unfold parseInstructions at h
    split at h
    · next hnone =>
      cases h
      have hend : pc = code.length := by
        have := List.getElem?_eq_none_iff.mp hnone
        omega
      refine ⟨[], by simp, ?_⟩
      rw [hend]
      exact .nil _
    · next byte hbyte =>
      obtain ⟨⟨instruction, next⟩, hparse, h⟩ := Run.bind_eq_ok.mp h
      obtain ⟨hlt, hle⟩ := parseInstruction_next hbyte hparse
      obtain ⟨rest, rfl, hreads⟩ := parseInstructions_eq_ok h hle (by omega)
      exact ⟨instruction :: rest, by simp, .cons hbyte hparse hreads⟩

/-- **Parsing panics at the first instruction that does**, after all the instructions before it have been accepted. -/
theorem parseInstructions_eq_panic : ∀ {steps pc : Nat} {before : List Instruction}, pc ≤ code.length →
    code.length ≤ pc + steps →
    (parseInstructions version code steps pc before = .error .panic ↔
      ∃ rest stop byte, Reads version code pc rest stop ∧ code[stop]? = some byte ∧
        parseInstruction version code stop byte = .error .panic)
  | 0, pc, before, hpc, hsteps => by
    constructor
    · exact nofun
    · rintro ⟨rest, stop, byte, hreads, hbyte, hpanic⟩
      have hstop := (List.getElem?_eq_some_iff.mp hbyte).1
      cases hreads with
      | nil => omega
      | cons hfirst hparse hafter =>
        have := (List.getElem?_eq_some_iff.mp hfirst).1
        omega
  | steps + 1, pc, before, hpc, hsteps => by
    unfold parseInstructions
    cases hfirst : code[pc]? with
    | none =>
      simp only [reduceCtorEq, false_iff]
      rintro ⟨rest, stop, byte, hreads, hbyte, hpanic⟩
      cases hreads with
      | nil =>
        rw [hfirst] at hbyte
        cases hbyte
      | cons hfirst' _ _ =>
        rw [hfirst] at hfirst'
        cases hfirst'
    | some byte =>
      simp only
      cases hparse : parseInstruction version code pc byte with
      | error e =>
        rw [Run.error_bind, Except.error.injEq]
        constructor
        · rintro rfl
          exact ⟨[], pc, byte, .nil _, hfirst, hparse⟩
        · rintro ⟨rest, stop, byte', hreads, hbyte, hpanic⟩
          cases hreads with
          | nil =>
            rw [hfirst] at hbyte
            cases hbyte
            rw [hparse] at hpanic
            cases hpanic
            rfl
          | cons hfirst' hparse' _ =>
            rw [hfirst] at hfirst'
            cases hfirst'
            rw [hparse] at hparse'
            cases hparse'
      | ok r =>
        obtain ⟨instruction, next⟩ := r
        obtain ⟨hlt, hle⟩ := parseInstruction_next hfirst hparse
        rw [Run.ok_bind, parseInstructions_eq_panic hle (by omega)]
        constructor
        · rintro ⟨rest, stop, byte', hreads, hbyte, hpanic⟩
          exact ⟨instruction :: rest, stop, byte', .cons hfirst hparse hreads, hbyte, hpanic⟩
        · rintro ⟨rest, stop, byte', hreads, hbyte, hpanic⟩
          cases hreads with
          | nil =>
            rw [hfirst] at hbyte
            cases hbyte
            rw [hparse] at hpanic
            cases hpanic
          | cons hfirst' hparse' hafter =>
            rw [hfirst] at hfirst'
            cases hfirst'
            rw [hparse] at hparse'
            cases hparse'
            exact ⟨_, stop, byte', hafter, hbyte, hpanic⟩

theorem Reads.mem {stop : Nat} {instructions : List Instruction}
    (h : Reads version code pc instructions stop) (hmem : instruction ∈ instructions) :
    ∃ byte next, code[instruction.offset]? = some byte ∧
      parseInstruction version code instruction.offset byte = .ok (instruction, next) := by
  induction h with
  | nil => cases hmem
  | @cons pc next stop byte first rest hfirst hparse hafter ih =>
    obtain rfl | hmem := List.mem_cons.mp hmem
    · obtain ⟨_, _, _, _, _, _, _, hoffset, _, _⟩ := parseInstruction_eq_ok hfirst hparse
      rw [hoffset]
      exact ⟨byte, next, hfirst, hparse⟩
    · exact ih hmem

end Instructions

/-! ## Programs -/

section Programs

variable {raw : Bytes}

theorem parseVersionPrefix_fits {version vlen : Nat} (h : parseVersionPrefix raw = .ok (version, vlen)) :
    vlen ≤ raw.length := by
  unfold parseVersionPrefix at h
  split at h
  · cases h
  · split at h
    · cases h
    · next hread =>
      split at h
      · cases h
      · cases h
        have := (readVaruint_fits hread).2.1
        omega

theorem parse_eq_ok {p : Program} (h : parse raw = .ok p) :
    ∃ vlen, parseVersionPrefix raw = .ok (p.version, vlen) ∧
      Reads p.version (raw.drop vlen) 0 p.instructions (raw.drop vlen).length := by
  unfold parse at h
  obtain ⟨⟨version, vlen⟩, hversion, h⟩ := Run.bind_eq_ok.mp h
  obtain ⟨instructions, hparse, h⟩ := Run.bind_eq_ok.mp h
  cases h
  obtain ⟨rest, rfl, hreads⟩ := parseInstructions_eq_ok hparse (Nat.zero_le _) (by omega)
  exact ⟨vlen, liftError_eq_ok.mp hversion, hreads⟩

/-- What an instruction was read from lies in the program: its opcode, the second byte of a prefix, and each byte
constant, which is the piece of the program that its declared length says. -/
structure InProgram (code : Bytes) (i : Instruction) : Prop where
  opcode : code[i.offset]? = some i.opcode
  second : i.opcode = 0xd4 → ∃ sub, code[i.offset + 1]? = some sub ∧ i.subOpcode = some sub
  constants : ConstantsLaid code (i.offset + 1) i.immediates

theorem Reads.inProgram {version pc stop : Nat} {code : Bytes} {instructions : List Instruction} {i : Instruction}
    (h : Reads version code pc instructions stop) (hi : i ∈ instructions) : InProgram code i := by
  obtain ⟨byte, next, hbyte, hparse⟩ := h.mem hi
  obtain ⟨spec, headerLen, consumed, hopens, himm, htaken, hopcode, -, hsub, -⟩ := parseInstruction_eq_ok hbyte hparse
  obtain ⟨rfl, hplain⟩ | ⟨rfl, hbyte', hkind, sub, hsecond⟩ := hopens.header
  · refine ⟨by rw [hopcode, hbyte], ?_, htaken.constants⟩
    intro h
    exact absurd (hopcode.symm.trans h) hplain
  · refine ⟨by rw [hopcode, hbyte], ?_, ?_⟩
    · intro _
      refine ⟨sub, hsecond, ?_⟩
      rw [hsub, if_pos (by decide), hsecond]
    · -- a prefix has no immediate arguments
      rw [hkind] at himm
      have hnone : i.immediates = .none := (Prod.ext_iff.mp (Except.ok.inj himm)).1.symm
      rw [hnone]
      trivial

/-- Parsing some bytes ends with a program or an error, and reads inside the bytes only. -/
structure ParsesSafely (raw : Bytes) : Prop where
  returns : parse raw ≠ .error .panic
  version : ∀ version vlen, parseVersionPrefix raw = .ok (version, vlen) → vlen ≤ raw.length
  inside : ∀ p version vlen, parse raw = .ok p → parseVersionPrefix raw = .ok (version, vlen) →
    ∀ i ∈ p.instructions, InProgram (raw.drop vlen) i

/-- After instructions it accepts, the parser comes to a byte constant whose declared length leads past the machine
word. -/
def DeclaresOverlong (raw : Bytes) : Prop :=
  ∃ version vlen instructions pc byte spec headerLen,
    parseVersionPrefix raw = .ok (version, vlen) ∧ Reads version (raw.drop vlen) 0 instructions pc ∧
    Opens version (raw.drop vlen) pc byte spec headerLen ∧
    ∃ q ∈ lengthsAt (raw.drop vlen) (pc + headerLen) (immKind version byte spec), ∃ length n,
      readVaruint (raw.drop vlen) q = .ok (length, n) ∧ u64Bound ≤ q + n + length

theorem parse_eq_panic : parse raw = .error .panic ↔ DeclaresOverlong raw := by
  unfold parse
  rw [liftError_bind_panic]
  simp only [bind_pure_panic]
  constructor
  · rintro ⟨⟨version, vlen⟩, hversion, h⟩
    obtain ⟨instructions, pc, byte, hreads, hbyte, hpanic⟩ :=
      (parseInstructions_eq_panic (Nat.zero_le _) (by omega)).mp h
    obtain ⟨spec, headerLen, hopens, himm⟩ := (parseInstruction_eq_panic hbyte).mp hpanic
    exact ⟨version, vlen, instructions, pc, byte, spec, headerLen, hversion, hreads, hopens,
      parseImmediates_eq_panic.mp himm⟩
  · rintro ⟨version, vlen, instructions, pc, byte, spec, headerLen, hversion, hreads, hopens, hlong⟩
    have hpanic := (parseInstruction_eq_panic hopens.first).mpr
      ⟨spec, headerLen, hopens, parseImmediates_eq_panic.mpr hlong⟩
    exact ⟨(version, vlen), hversion, (parseInstructions_eq_panic (Nat.zero_le _) (by omega)).mpr
      ⟨instructions, pc, byte, hreads, hopens.first, hpanic⟩⟩

/-- **Parsing is safe** for exactly the bytes in which the parser comes to no byte constant whose declared length, added
to its position, passes the machine word. -/
theorem parsesSafely_iff (raw : Bytes) : ParsesSafely raw ↔ ¬ DeclaresOverlong raw := by
  constructor
  · intro h hlong
    exact h.returns (parse_eq_panic.mpr hlong)
  · intro hlong
    refine ⟨fun h => hlong (parse_eq_panic.mp h), fun _ _ => parseVersionPrefix_fits, ?_⟩
    intro p version vlen hparse hversion i hi
    obtain ⟨vlen', hversion', hreads⟩ := parse_eq_ok hparse
    rw [hversion] at hversion'
    cases hversion'
    exact hreads.inProgram hi

/-- One instruction that pushes a constant of 2 ^ 64 - 1 bytes. -/
theorem not_parsesSafely_overlong : ¬ ParsesSafely [3, 0x80, 255, 255, 255, 255, 255, 255, 255, 255, 255, 1] := by
  intro h
  exact h.returns (by decide)

end Programs

end Avm
end Algod
