import AlgodRust.Basics
import AlgodRust.Lib.Msgpack
import AlgodRust.Lib.Run
/-!
# Json — the members of a JSON object, as `json_ref` reads them

The text of an object is checked by the library that parses JSON and then walked byte by byte: the value of a key is a
piece of the text as it stands, and a string loses its quotes and escapes.  So what is read is never longer than the
text it is read from (`parseJsonObject_length`, `decodeJsonStringLenient_length`).
-/
namespace Algod
namespace Avm

open Msgpack (Bytes)

namespace Json

def isAsciiWhitespace (b : UInt8) : Bool := b == 0x20 || b == 0x09 || b == 0x0a || b == 0x0c || b == 0x0d

def skipWhitespace (bs : Bytes) : Bytes := bs.dropWhile isAsciiWhitespace

def onlyObject : String := "error while parsing JSON text, invalid json text, only json object is allowed"

/-! ## Escapes -/

/-- The value of a hexadecimal digit. -/
def hexDigit (b : UInt8) : Option Nat :=
  let n := b.toNat
  if 0x30 ≤ n ∧ n ≤ 0x39 then some (n - 0x30)
  else if 0x61 ≤ n ∧ n ≤ 0x66 then some (n - 0x61 + 10)
  else if 0x41 ≤ n ∧ n ≤ 0x46 then some (n - 0x41 + 10)
  else none

/-- Exactly four hexadecimal digits. -/
def readHex4 : Bytes → Option Nat
  | a :: b :: c :: d :: _ => do
    let a ← hexDigit a
    let b ← hexDigit b
    let c ← hexDigit c
    let d ← hexDigit d
    return ((a * 16 + b) * 16 + c) * 16 + d
  | _ => none

def isHighSurrogate (cp : Nat) : Bool := decide (0xd800 ≤ cp ∧ cp ≤ 0xdbff)
def isLowSurrogate (cp : Nat) : Bool := decide (0xdc00 ≤ cp ∧ cp ≤ 0xdfff)

/-- The low surrogate that an escape right here stands for. -/
def lowEscape : Bytes → Option Nat
  | 0x5c :: 0x75 :: rest => (readHex4 rest).filter isLowSurrogate
  | _ => none

/-- The escape of the replacement character. -/
def replacementEscape : Bytes := [0x5c, 0x75, 0x46, 0x46, 0x46, 0x44]

/-- Replace the escapes of unpaired surrogates inside the strings of a text; each one is replaced by as many bytes. -/
def sanitizeUnpairedSurrogates : Nat → Bool → Bytes → Bytes
  | 0, _, _ => []
  | _ + 1, _, [] => []
  | fuel + 1, false, b :: rest => b :: sanitizeUnpairedSurrogates fuel (b == 0x22) rest
  | fuel + 1, true, [b] => b :: sanitizeUnpairedSurrogates fuel (b != 0x22) []
  | fuel + 1, true, b :: next :: rest =>
    if b = 0x22 then b :: sanitizeUnpairedSurrogates fuel false (next :: rest)
    else if b = 0x5c then
      match if next = 0x75 then readHex4 rest else none with
      | some hi =>
        if isHighSurrogate hi ∧ (lowEscape (rest.drop 4)).isSome then
          (b :: next :: rest.take 10) ++ sanitizeUnpairedSurrogates fuel true (rest.drop 10)
        else if isHighSurrogate hi ∨ isLowSurrogate hi then
          replacementEscape ++ sanitizeUnpairedSurrogates fuel true (rest.drop 4)
        else (b :: next :: rest.take 4) ++ sanitizeUnpairedSurrogates fuel true (rest.drop 4)
      | none => b :: next :: sanitizeUnpairedSurrogates fuel true rest
    else b :: sanitizeUnpairedSurrogates fuel true (next :: rest)

/-- The bytes of a code point, or of the replacement character where there is none. -/
def encodeChar (cp : Nat) : Bytes := String.utf8EncodeChar (if cp.isValidChar then Char.ofNat cp else Char.ofNat 0xfffd)

/-- The byte a simple escape stands for. -/
def simpleEscape (c : UInt8) : Option UInt8 :=
  if c = 0x22 ∨ c = 0x5c ∨ c = 0x2f then some c
  else if c = 0x62 then some 0x08
  else if c = 0x66 then some 0x0c
  else if c = 0x6e then some 0x0a
  else if c = 0x72 then some 0x0d
  else if c = 0x74 then some 0x09
  else none

/-- Decode the inside of a string.  The bytes of a character other than the backslash are copied. -/
def decodeChars : Nat → Bytes → Except String Bytes
  | 0, _ => .ok []
  | _ + 1, [] => .ok []
  | _ + 1, [0x5c] => .error "invalid json text, unterminated escape"
  | fuel + 1, 0x5c :: 0x75 :: rest =>
    match readHex4 rest with
    | none => .error "invalid json text, invalid unicode escape"
    | some hi =>
      let rest := rest.drop 4
      match if isHighSurrogate hi then lowEscape rest else none with
      | some lo => (decodeChars fuel (rest.drop 6)).map (encodeChar (0x10000 + (hi - 0xd800) * 0x400 + (lo - 0xdc00)) ++ ·)
      | none => (decodeChars fuel rest).map (encodeChar hi ++ ·)
  | fuel + 1, 0x5c :: c :: rest =>
    match simpleEscape c with
    | some b => (decodeChars fuel rest).map (b :: ·)
    | none => .error s!"invalid json text, invalid escape character: {Char.ofNat c.toNat}"
  | fuel + 1, b :: rest => (decodeChars fuel rest).map (b :: ·)

def isUtf8 (bs : Bytes) : Bool := ByteArray.validateUTF8 ⟨bs.toArray⟩

/-- The content of a string with its quotes. -/
def decodeJsonStringLenient (quoted : Bytes) : Except String Bytes :=
  if quoted.length < 2 ∨ quoted.head? ≠ some 0x22 ∨ quoted.getLast? ≠ some 0x22 then
    .error "invalid json text, expected a string value"
  else
    let inner := (quoted.drop 1).dropLast
    if isUtf8 inner then decodeChars inner.length inner else .error "invalid json text, string is not valid UTF-8"

/-! ## Values -/

/-- The number of bytes up to and with the quote that ends a string, after the quote that starts it. -/
def stringEnd : Bytes → Except String Nat
  | [] => .error "invalid json text, unterminated string"
  | [0x5c] => .error "invalid json text, unterminated string"
  | 0x5c :: _ :: rest => (stringEnd rest).map (· + 2)
  | b :: rest => if b = 0x22 then .ok 1 else (stringEnd rest).map (· + 1)

/-- The length of the string that starts here. -/
def skipJsonString (bs : Bytes) : Except String Nat := (stringEnd (bs.drop 1)).map (· + 1)

/-- The number of bytes up to and with the bracket that ends a container; strings are skipped whole. -/
def containerEnd (opening closing : UInt8) : Nat → Nat → Bytes → Except String Nat
  | 0, _, _ => .error "invalid json text, unterminated container"
  | _ + 1, _, [] => .error "invalid json text, unterminated container"
  | fuel + 1, depth, b :: rest =>
    if b = 0x22 then do
      let n ← skipJsonString (b :: rest)
      let m ← containerEnd opening closing fuel depth ((b :: rest).drop n)
      return n + m
    else if b = opening then (containerEnd opening closing fuel (depth + 1) rest).map (· + 1)
    else if b = closing then
      if depth ≤ 1 then .ok 1 else (containerEnd opening closing fuel (depth - 1) rest).map (· + 1)
    else (containerEnd opening closing fuel depth rest).map (· + 1)

def skipLiteral (bs literal : Bytes) : Except String Nat :=
  if bs.take literal.length = literal then .ok literal.length else .error "invalid json text, unexpected token"

def isNumberByte (b : UInt8) : Bool :=
  decide (0x30 ≤ b.toNat ∧ b.toNat ≤ 0x39) || b == 0x2d || b == 0x2b || b == 0x2e || b == 0x65 || b == 0x45

/-- The length of the value that starts here. -/
def skipJsonValue (bs : Bytes) : Except String Nat :=
  match bs with
  | [] => .error "invalid json text, unexpected end of input"
  | b :: rest =>
    if b = 0x22 then skipJsonString bs
    else if b = 0x7b then (containerEnd 0x7b 0x7d bs.length 1 rest).map (· + 1)
    else if b = 0x5b then (containerEnd 0x5b 0x5d bs.length 1 rest).map (· + 1)
    else if b = 0x74 then skipLiteral bs [0x74, 0x72, 0x75, 0x65]
    else if b = 0x66 then skipLiteral bs [0x66, 0x61, 0x6c, 0x73, 0x65]
    else if b = 0x6e then skipLiteral bs [0x6e, 0x75, 0x6c, 0x6c]
    else if b = 0x2d ∨ (0x30 ≤ b.toNat ∧ b.toNat ≤ 0x39) then .ok (bs.takeWhile isNumberByte).length
    else .error s!"invalid json text, unexpected character: {Char.ofNat b.toNat}"

/-! ## Objects -/

/-- A member of an object: its key and its value as it stands in the text, with what comes after it. -/
def nextEntry (seen : List Bytes) (bs : Bytes) : Except String ((Bytes × Bytes) × Bytes) :=
  if bs.head? ≠ some 0x22 then .error "invalid json text, expected key string"
  else do
    let keyEnd ← skipJsonString bs
    let key ← decodeJsonStringLenient (bs.take keyEnd)
    let rest := skipWhitespace (bs.drop keyEnd)
    if key ∈ seen then .error "error while parsing JSON text, invalid json text, duplicate keys not allowed"
    else if rest.head? ≠ some 0x3a then .error "invalid json text, expected ':'"
    else do
      let rest := skipWhitespace (rest.drop 1)
      let valueEnd ← skipJsonValue rest
      return ((key, rest.take valueEnd), skipWhitespace (rest.drop valueEnd))

/-- The members of an object, from inside it, with the keys that have been seen. -/
def entries : Nat → List Bytes → Bytes → Except String (List (Bytes × Bytes))
  | 0, _, _ => .error "invalid json text, unexpected end of input"
  | fuel + 1, seen, bs =>
    match skipWhitespace bs with
    | [] => .error "invalid json text, unexpected end of input"
    | b :: rest =>
      if b = 0x7d then .ok []
      else do
        let (entry, rest) ← nextEntry seen (b :: rest)
        match rest with
        | [] => .error "invalid json text, unexpected end of input"
        | c :: rest =>
          if c = 0x2c then (entries fuel (entry.1 :: seen) rest).map (entry :: ·)
          else if c = 0x7d then .ok [entry]
          else .error "invalid json text, expected ',' or '\x7d'"

def extractTopLevelEntries (text : Bytes) : Except String (List (Bytes × Bytes)) :=
  match skipWhitespace text with
  | 0x7b :: rest => entries (rest.length + 1) [] rest
  | _ => .error onlyObject

/-- The members of the object in a text.  The library says whether the text is one value and whether that is an
object. -/
def parseJsonObject (isObject : Bytes → Except String Bool) (text : Bytes) : Except String (List (Bytes × Bytes)) :=
  if (skipWhitespace text).head? ≠ some 0x7b then .error onlyObject
  else do
    let object ← (isObject (sanitizeUnpairedSurrogates text.length false text)).mapError ("invalid json text, " ++ ·)
    if object then extractTopLevelEntries text else .error onlyObject

/-! ## Lengths -/

theorem length_encodeChar (cp : Nat) : (encodeChar cp).length ≤ 4 := by
  unfold encodeChar
  rw [String.length_utf8EncodeChar]
  exact Char.utf8Size_le_four _

theorem length_of_readHex4 {bs : Bytes} {cp : Nat} (h : readHex4 bs = some cp) : 4 ≤ bs.length := by
  unfold readHex4 at h
  split at h
  · simp
  · cases h

theorem length_of_lowEscape {bs : Bytes} {cp : Nat} (h : lowEscape bs = some cp) : 6 ≤ bs.length := by
  unfold lowEscape at h
  split at h
  · rename_i rest
    obtain ⟨hhex, -⟩ := Option.filter_eq_some_iff.1 h
    have := length_of_readHex4 hhex
    simp only [List.length_cons]
    omega
  · cases h

/-- Every escape is longer than what it stands for. -/
theorem decodeChars_length : ∀ (fuel : Nat) (bs out : Bytes), decodeChars fuel bs = .ok out → out.length ≤ bs.length := by
  intro fuel
  induction fuel with
  | zero =>
    intro bs out h
    cases h
    exact Nat.zero_le _
  | succ fuel ih =>
    intro bs out h
    unfold decodeChars at h
    split at h
    · cases ‹_ + 1 = 0›
    · cases h
      exact Nat.zero_le _
    · cases h
    · rename_i fuel' rest heq
      cases heq
      cases hhex : readHex4 rest with
      | none => rw [hhex] at h; cases h
      | some hi =>
        have hfour := length_of_readHex4 hhex
        simp only [hhex] at h
        simp only [List.length_cons]
        split at h
        · rename_i lo hlow
          obtain ⟨tail, htail, rfl⟩ := Run.map_eq_ok.1 h
          have hshort := ih _ _ htail
          have hchar := length_encodeChar (0x10000 + (hi - 0xd800) * 0x400 + (lo - 0xdc00))
          have hsix : 6 ≤ (rest.drop 4).length := by
            by_cases hhigh : isHighSurrogate hi = true
            · rw [if_pos hhigh] at hlow; exact length_of_lowEscape hlow
            · rw [if_neg hhigh] at hlow; cases hlow
          simp only [List.length_append, List.length_drop] at hshort hsix ⊢
          omega
        · obtain ⟨tail, htail, rfl⟩ := Run.map_eq_ok.1 h
          have hshort := ih _ _ htail
          have hchar := length_encodeChar hi
          simp only [List.length_append, List.length_drop] at hshort ⊢
          omega
    · rename_i fuel' c rest hu heq
      cases heq
      cases hsimple : simpleEscape c with
      | none => rw [hsimple] at h; cases h
      | some b =>
        simp only [hsimple] at h
        obtain ⟨tail, htail, rfl⟩ := Run.map_eq_ok.1 h
        have hshort := ih _ _ htail
        simp only [List.length_cons]
        omega
    · rename_i fuel' b rest _ _ _ heq
      cases heq
      obtain ⟨tail, htail, rfl⟩ := Run.map_eq_ok.1 h
      have hshort := ih _ _ htail
      simp only [List.length_cons]
      omega

/-- **A string is not longer than its text.** -/
theorem decodeJsonStringLenient_length {quoted out : Bytes} (h : decodeJsonStringLenient quoted = .ok out) :
    out.length ≤ quoted.length := by
  unfold decodeJsonStringLenient at h
  split at h
  · cases h
  · simp only at h
    split at h
    · have hshort := decodeChars_length _ _ _ h
      simp only [List.length_dropLast, List.length_drop] at hshort
      omega
    · cases h

theorem length_skipWhitespace (bs : Bytes) : (skipWhitespace bs).length ≤ bs.length :=
  (List.dropWhile_suffix _).length_le

/-- The value of a member is a piece of the text, and so is what comes after it. -/
theorem nextEntry_length {seen : List Bytes} {bs rest : Bytes} {entry : Bytes × Bytes}
    (h : nextEntry seen bs = .ok (entry, rest)) : entry.2.length ≤ bs.length ∧ rest.length ≤ bs.length := by
  unfold nextEntry at h
  split at h
  · cases h
  · obtain ⟨keyEnd, -, h⟩ := Run.bind_eq_ok.1 h
    obtain ⟨key, -, h⟩ := Run.bind_eq_ok.1 h
    simp only at h
    split at h
    · cases h
    · split at h
      · cases h
      · obtain ⟨valueEnd, -, h⟩ := Run.bind_eq_ok.1 h
        have hafter := length_skipWhitespace (bs.drop keyEnd)
        have hvalue := length_skipWhitespace ((skipWhitespace (bs.drop keyEnd)).drop 1)
        have hrest := length_skipWhitespace
          ((skipWhitespace ((skipWhitespace (bs.drop keyEnd)).drop 1)).drop valueEnd)
        cases h
        simp only [List.length_drop, List.length_take] at hafter hvalue hrest ⊢
        omega

theorem entries_length : ∀ (fuel : Nat) (seen : List Bytes) (bs : Bytes) (found : List (Bytes × Bytes)),
    entries fuel seen bs = .ok found → ∀ e ∈ found, e.2.length ≤ bs.length := by
  intro fuel
  induction fuel with
  | zero =>
    intro seen bs found h
    cases h
  | succ fuel ih =>
    intro seen bs found h
    unfold entries at h
    have hspace := length_skipWhitespace bs
    cases hbs : skipWhitespace bs with
    | nil => rw [hbs] at h; cases h
    | cons b rest =>
      rw [hbs] at hspace
      simp only [hbs] at h
      split at h
      · cases h
        intro e he
        cases he
      · obtain ⟨⟨entry, after⟩, hentry, h⟩ := Run.bind_eq_ok.1 h
        obtain ⟨hvalue, hafter⟩ := nextEntry_length hentry
        cases after with
        | nil => cases h
        | cons c tail =>
          simp only [List.length_cons] at h hvalue hafter hspace
          split at h
          · obtain ⟨more, hmore, rfl⟩ := Run.map_eq_ok.1 h
            intro e he
            rcases List.mem_cons.1 he with rfl | he
            · omega
            · have := ih _ _ _ hmore e he
              omega
          · split at h
            · cases h
              intro e he
              rcases List.mem_singleton.1 he with rfl
              omega
            · cases h

/-- **The value of a member is not longer than the text of the object.** -/
theorem parseJsonObject_length {isObject : Bytes → Except String Bool} {text : Bytes} {found : List (Bytes × Bytes)}
    (h : parseJsonObject isObject text = .ok found) : ∀ e ∈ found, e.2.length ≤ text.length := by
  unfold parseJsonObject at h
  split at h
  · cases h
  · obtain ⟨object, -, h⟩ := Run.bind_eq_ok.1 h
    split at h
    · unfold extractTopLevelEntries at h
      have hspace := length_skipWhitespace text
      split at h
      · rename_i rest hrest
        rw [hrest, List.length_cons] at hspace
        intro e he
        have := entries_length _ _ _ _ h e he
        omega
      · cases h
    · cases h

end Json
end Avm
end Algod
