import Mathlib.Data.List.Basic

/-!
# UTF-8

The bytes of a text, as numbers, and the decoder of the Encoding Standard, which
replaces what is malformed and drops a byte order mark.
-/

namespace Foundations

/-- The bytes of a character. -/
def utf8Char (c : Char) : List ℕ := (String.utf8EncodeChar c).map UInt8.toNat

/-- The bytes of a text. -/
def utf8Bytes (chars : List Char) : List ℕ := chars.flatMap utf8Char

theorem toList_byteArray_loop (bytes : ByteArray) (i : ℕ) (r : List UInt8) :
    ByteArray.toList.loop bytes i r = r.reverse ++ bytes.data.toList.drop i := by
  fun_induction ByteArray.toList.loop bytes i r with
  | case1 i r hlt ih =>
      have hlength : i < bytes.data.toList.length := hlt
      have hget : bytes.get! i = bytes.data.toList[i] := by
        rw [Array.getElem_toList]
        exact getElem!_pos bytes.data i hlt
      rw [ih, hget, List.drop_eq_getElem_cons hlength, List.reverse_cons, List.append_assoc,
        List.singleton_append]
  | case2 i r hle =>
      have hlength : bytes.data.toList.length ≤ i := Nat.le_of_not_lt hle
      rw [List.drop_eq_nil_of_le hlength, List.append_nil]

theorem toList_toUTF8 (text : String) :
    text.toUTF8.toList = text.toList.flatMap String.utf8EncodeChar := by
  have hdata (bytes : ByteArray) : bytes.toList = bytes.data.toList := by
    unfold ByteArray.toList
    rw [toList_byteArray_loop, List.reverse_nil, List.nil_append, List.drop_zero]
  rw [hdata, String.toUTF8_eq_toByteArray, ← String.utf8Encode_toList]
  unfold List.utf8Encode
  rw [List.data_toByteArray]

theorem map_toUTF8 (text : String) :
    text.toUTF8.toList.map UInt8.toNat = utf8Bytes text.toList := by
  rw [toList_toUTF8, List.map_flatMap]
  rfl

/-- A character of which bytes are missing, and the range of the next one. -/
structure PartialChar where
  needed : ℕ
  lower : ℕ
  upper : ℕ
  codePoint : ℕ

def replacementChar : Char := Char.ofNat 0xFFFD

/-- The first byte of a character: what it decodes to, and what it leaves open. -/
def startChar (byte : ℕ) : List Char × Option PartialChar :=
  if byte ≤ 0x7F then ([Char.ofNat byte], none)
  else if 0xC2 ≤ byte ∧ byte ≤ 0xDF then ([], some ⟨1, 0x80, 0xBF, byte % 0x20⟩)
  else if 0xE0 ≤ byte ∧ byte ≤ 0xEF then
    ([], some ⟨2, if byte = 0xE0 then 0xA0 else 0x80, if byte = 0xED then 0x9F else 0xBF,
      byte % 0x10⟩)
  else if 0xF0 ≤ byte ∧ byte ≤ 0xF4 then
    ([], some ⟨3, if byte = 0xF0 then 0x90 else 0x80, if byte = 0xF4 then 0x8F else 0xBF,
      byte % 0x08⟩)
  else ([replacementChar], none)

/-- A byte after the first; one out of range is read again as a first byte. -/
def continueChar (p : PartialChar) (byte : ℕ) : List Char × Option PartialChar :=
  if byte < p.lower ∨ p.upper < byte then
    let next := startChar byte
    (replacementChar :: next.1, next.2)
  else
    let codePoint := p.codePoint * 0x40 + byte % 0x40
    if p.needed = 1 then ([Char.ofNat codePoint], none)
    else ([], some ⟨p.needed - 1, 0x80, 0xBF, codePoint⟩)

def utf8Decode : Option PartialChar → List ℕ → List Char
  | none, [] => []
  | some _, [] => [replacementChar]
  | none, byte :: bytes =>
      let next := startChar byte
      next.1 ++ utf8Decode next.2 bytes
  | some p, byte :: bytes =>
      let next := continueChar p byte
      next.1 ++ utf8Decode next.2 bytes

def byteOrderMark : Char := Char.ofNat 0xFEFF

/-- A text without its byte order mark. -/
def withoutMark (chars : List Char) : List Char :=
  if chars.head? = some byteOrderMark then chars.tail else chars

/-- `new TextDecoder().decode(bytes)`. -/
def decodeUtf8 (bytes : List ℕ) : String := String.ofList (withoutMark (utf8Decode none bytes))

/-- The bytes of a character by its number. -/
theorem utf8Char_eq (c : Char) :
    utf8Char c =
      if c.toNat ≤ 0x7F then [c.toNat]
      else if c.toNat ≤ 0x7FF then [c.toNat / 64 % 0x20 + 0xC0, c.toNat % 0x40 + 0x80]
      else if c.toNat ≤ 0xFFFF then
        [c.toNat / 4096 % 0x10 + 0xE0, c.toNat / 64 % 0x40 + 0x80, c.toNat % 0x40 + 0x80]
      else
        [c.toNat / 262144 % 0x08 + 0xF0, c.toNat / 4096 % 0x40 + 0x80,
          c.toNat / 64 % 0x40 + 0x80, c.toNat % 0x40 + 0x80] := by
  have hbyte (n : ℕ) (hn : n < 256) : (UInt8.ofNat n).toNat = n := UInt8.toNat_ofNat_of_lt' hn
  change ((if c.toNat ≤ 0x7F then _ else if c.toNat ≤ 0x7FF then _
    else if c.toNat ≤ 0xFFFF then _ else _ : List UInt8)).map UInt8.toNat = _
  have hvalue : c.val.toNat = c.toNat := rfl
  rw [hvalue]
  split
  · simp only [List.map_cons, List.map_nil]
    rw [hbyte _ (by omega)]
  · split
    · simp only [List.map_cons, List.map_nil]
      rw [hbyte _ (by omega), hbyte _ (by omega)]
    · split
      · simp only [List.map_cons, List.map_nil]
        rw [hbyte _ (by omega), hbyte _ (by omega), hbyte _ (by omega)]
      · simp only [List.map_cons, List.map_nil]
        rw [hbyte _ (by omega), hbyte _ (by omega), hbyte _ (by omega), hbyte _ (by omega)]

/-- The last byte of a character. -/
theorem utf8Decode_last {p : PartialChar} {byte : ℕ} {c : Char} (rest : List ℕ)
    (hneeded : p.needed = 1) (hlower : p.lower ≤ byte) (hupper : byte ≤ p.upper)
    (hvalue : p.codePoint * 0x40 + byte % 0x40 = c.toNat) :
    utf8Decode (some p) (byte :: rest) = c :: utf8Decode none rest := by
  have hnext : continueChar p byte = ([c], none) := by
    unfold continueChar
    rw [if_neg (by omega)]
    dsimp only
    rw [if_pos hneeded, hvalue, Char.ofNat_toNat]
  rw [utf8Decode, hnext]
  rfl

/-- A byte in the middle of a character. -/
theorem utf8Decode_more {p : PartialChar} {byte : ℕ} (rest : List ℕ)
    (hneeded : p.needed ≠ 1) (hlower : p.lower ≤ byte) (hupper : byte ≤ p.upper) :
    utf8Decode (some p) (byte :: rest) =
      utf8Decode (some ⟨p.needed - 1, 0x80, 0xBF, p.codePoint * 0x40 + byte % 0x40⟩) rest := by
  have hnext : continueChar p byte =
      ([], some ⟨p.needed - 1, 0x80, 0xBF, p.codePoint * 0x40 + byte % 0x40⟩) := by
    unfold continueChar
    rw [if_neg (by omega)]
    dsimp only
    rw [if_neg hneeded]
  rw [utf8Decode, hnext]
  rfl

/-- The first of several bytes. -/
theorem utf8Decode_start {byte : ℕ} {p : PartialChar} (rest : List ℕ)
    (hstart : startChar byte = ([], some p)) :
    utf8Decode none (byte :: rest) = utf8Decode (some p) rest := by
  rw [utf8Decode, hstart]
  rfl

/-- Surrogates are no characters. -/
theorem toNat_range (c : Char) : c.toNat < 0xD800 ∨ 0xDFFF < c.toNat ∧ c.toNat < 0x110000 :=
  c.valid

theorem utf8Decode_char (c : Char) (rest : List ℕ) :
    utf8Decode none (utf8Char c ++ rest) = c :: utf8Decode none rest := by
  have hrange := toNat_range c
  rw [utf8Char_eq]
  split
  · next hone =>
      have hstart : startChar c.toNat = ([c], none) := by
        unfold startChar
        rw [if_pos hone, Char.ofNat_toNat]
      rw [List.singleton_append, utf8Decode, hstart]
      rfl
  · split
    · next hone htwo =>
        have hstart : startChar (c.toNat / 64 % 0x20 + 0xC0) =
            ([], some ⟨1, 0x80, 0xBF, (c.toNat / 64 % 0x20 + 0xC0) % 0x20⟩) := by
          unfold startChar
          rw [if_neg (by omega), if_pos (by omega)]
        rw [List.cons_append, List.cons_append, List.nil_append, utf8Decode_start _ hstart]
        exact utf8Decode_last rest rfl (by dsimp only; omega) (by dsimp only; omega)
          (by dsimp only; omega)
    · split
      · next hone htwo hthree =>
          have hstart : startChar (c.toNat / 4096 % 0x10 + 0xE0) =
              ([], some ⟨2, if c.toNat / 4096 % 0x10 + 0xE0 = 0xE0 then 0xA0 else 0x80,
                if c.toNat / 4096 % 0x10 + 0xE0 = 0xED then 0x9F else 0xBF,
                (c.toNat / 4096 % 0x10 + 0xE0) % 0x10⟩) := by
            unfold startChar
            rw [if_neg (by omega), if_neg (by omega), if_pos (by omega)]
          rw [List.cons_append, List.cons_append, List.cons_append, List.nil_append,
            utf8Decode_start _ hstart,
            utf8Decode_more _ (by dsimp only; omega) (by dsimp only; split <;> omega)
              (by dsimp only; split <;> omega)]
          exact utf8Decode_last rest rfl (by dsimp only; omega) (by dsimp only; omega)
            (by dsimp only; omega)
      · next hone htwo hthree =>
          have hstart : startChar (c.toNat / 262144 % 0x08 + 0xF0) =
              ([], some ⟨3, if c.toNat / 262144 % 0x08 + 0xF0 = 0xF0 then 0x90 else 0x80,
                if c.toNat / 262144 % 0x08 + 0xF0 = 0xF4 then 0x8F else 0xBF,
                (c.toNat / 262144 % 0x08 + 0xF0) % 0x08⟩) := by
            unfold startChar
            rw [if_neg (by omega), if_neg (by omega), if_neg (by omega), if_pos (by omega)]
          rw [List.cons_append, List.cons_append, List.cons_append, List.cons_append,
            List.nil_append, utf8Decode_start _ hstart,
            utf8Decode_more _ (by dsimp only; omega) (by dsimp only; split <;> omega)
              (by dsimp only; split <;> omega),
            utf8Decode_more _ (by dsimp only; omega) (by dsimp only; omega)
              (by dsimp only; omega)]
          exact utf8Decode_last rest rfl (by dsimp only; omega) (by dsimp only; omega)
            (by dsimp only; omega)

theorem utf8Decode_bytes (chars : List Char) : utf8Decode none (utf8Bytes chars) = chars := by
  induction chars with
  | nil => rfl
  | cons c chars ih =>
      unfold utf8Bytes at ih ⊢
      rw [List.flatMap_cons, utf8Decode_char, ih]

theorem decodeUtf8_bytes (text : String) :
    decodeUtf8 (utf8Bytes text.toList) = String.ofList (withoutMark text.toList) := by
  unfold decodeUtf8
  rw [utf8Decode_bytes]

end Foundations
