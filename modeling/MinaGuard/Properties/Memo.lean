import MinaGuard.Indexer.MemoSpec
import MinaGuard.Instance.Keys

/-!
# Memos there and back

The text of a memo is the text it was made from, unless that starts with a byte
order mark.  Nothing but memos is accepted, and no two of one content.
-/

namespace MinaGuard

open Foundations

variable {E : Env} {lib : Backend E}

theorem utf8Bytes_lt (chars : List Char) : ∀ b ∈ utf8Bytes chars, b < 256 := by
  intro b hb
  obtain ⟨c, -, hb⟩ := List.mem_flatMap.mp hb
  obtain ⟨byte, -, rfl⟩ := List.mem_map.mp hb
  exact byte.toNat_lt

theorem isContent_utf8Bytes {chars : List Char} (h : (utf8Bytes chars).length ≤ 32) :
    IsContent (utf8Bytes chars) := ⟨h, utf8Bytes_lt chars⟩

/-- Texts of the same bytes are the same. -/
theorem utf8Bytes_injective {chars chars' : List Char} (h : utf8Bytes chars = utf8Bytes chars') :
    chars = chars' := by
  rw [← utf8Decode_bytes chars, h, utf8Decode_bytes]

theorem utf8Bytes_tail_length (chars : List Char) :
    (utf8Bytes chars.tail).length ≤ (utf8Bytes chars).length := by
  cases chars with
  | nil => exact le_refl _
  | cons c chars =>
      unfold utf8Bytes
      rw [List.flatMap_cons, List.length_append]
      exact Nat.le_add_left _ _

theorem withoutMark_eq {chars : List Char} :
    withoutMark chars = chars ↔ chars.head? ≠ some byteOrderMark := by
  unfold withoutMark
  split
  · next hmark =>
      refine iff_of_false ?_ (not_not.mpr hmark)
      intro heq
      have hlength := congrArg List.length heq
      cases chars with
      | nil => cases hmark
      | cons c chars =>
          rw [List.tail_cons, List.length_cons] at hlength
          omega
  · next hmark => exact iff_of_true rfl hmark

theorem withoutMark_length {chars : List Char} :
    (utf8Bytes (withoutMark chars)).length ≤ (utf8Bytes chars).length := by
  unfold withoutMark
  split
  · exact utf8Bytes_tail_length chars
  · exact le_refl _

/-- A memo decodes, and what it decodes to has its hash and its bytes exactly if
the text does not start with a byte order mark.  What decodes is the memo of one
content, and different memos have different contents. -/
theorem decodeTxMemo_roundTrip (hsha : HashesToBytes lib.sha256)
    (hdecode : lib.decodeText = decodeUtf8) :
    (∀ text : String, (utf8Bytes text.toList).length ≤ 32 →
      ∃ decoded,
        decodeTxMemo lib (encodeTxMemo lib.sha256 (utf8Bytes text.toList)) = .ok decoded ∧
        (memoToField E decoded = memoToField E text ∧
            encodeTxMemo lib.sha256 (utf8Bytes decoded.toList) =
              encodeTxMemo lib.sha256 (utf8Bytes text.toList) ↔
          text.toList.head? ≠ some byteOrderMark)) ∧
      (∀ memo decoded, decodeTxMemo lib memo = .ok decoded →
        ∃! content, IsContent content ∧ memo = encodeTxMemo lib.sha256 content) ∧
      ∀ memo memo' decoded decoded' content content',
        decodeTxMemo lib memo = .ok decoded → decodeTxMemo lib memo' = .ok decoded' →
        IsContent content → memo = encodeTxMemo lib.sha256 content →
        IsContent content' → memo' = encodeTxMemo lib.sha256 content' →
        memo ≠ memo' → content ≠ content' := by
  refine ⟨?_, ?_, ?_⟩
  · intro text hlength
    have hcontent := isContent_utf8Bytes hlength
    refine ⟨_, (decodeTxMemo_ok hsha).mpr ⟨_, hcontent, rfl, rfl⟩, ?_⟩
    rw [hdecode, decodeUtf8_bytes, ← withoutMark_eq]
    constructor
    · rintro ⟨-, hbytes⟩
      rw [String.toList_ofList] at hbytes
      have hshort := isContent_utf8Bytes (withoutMark_length.trans hlength)
      exact utf8Bytes_injective (encodeTxMemo_injective hsha hshort hcontent hbytes)
    · intro heq
      rw [heq, String.ofList_toList]
      exact ⟨rfl, rfl⟩
  · intro memo decoded h
    obtain ⟨content, hcontent, rfl, -⟩ := (decodeTxMemo_ok hsha).mp h
    refine ⟨content, ⟨hcontent, rfl⟩, ?_⟩
    rintro content' ⟨hcontent', heq⟩
    exact encodeTxMemo_injective hsha hcontent' hcontent heq.symm
  · rintro memo memo' decoded decoded' content content' - - - rfl - rfl hne rfl
    exact hne rfl

namespace Walkthrough

/-- The memo `a` behind a byte order mark, and alone. -/
def markedText : String := String.ofList [byteOrderMark, 'a']

def memoInput (memo : String) : HashInput :=
  let bytes := utf8Bytes memo.toList
  (memoHashPrefix, (bytes.length : Fp) :: bytes.map fun b ↦ (b : Fp))

def memoTables : Tables :=
  { blank with
    inputs := [("owner-chain", []), memoInput markedText, memoInput "a"]
    few_inputs := by decide
    start_mem := List.mem_cons_self }

/-- The digests of the data of the two memos, and their digests. -/
def sha256 (bytes : List ℕ) : List ℕ :=
  if bytes = memoData (utf8Bytes markedText.toList) then
    [209, 16, 99, 255, 197, 55, 28, 127, 127, 63, 224, 126, 19, 24, 88, 17, 150, 80, 69, 69,
      218, 208, 150, 45, 88, 170, 196, 23, 159, 127, 135, 121]
  else if bytes = [209, 16, 99, 255, 197, 55, 28, 127, 127, 63, 224, 126, 19, 24, 88, 17, 150,
      80, 69, 69, 218, 208, 150, 45, 88, 170, 196, 23, 159, 127, 135, 121] then
    [135, 133, 165, 1, 240, 50, 245, 226, 253, 90, 6, 123, 248, 245, 31, 121, 149, 43, 9, 247,
      70, 170, 50, 97, 219, 75, 167, 165, 215, 6, 139, 7]
  else if bytes = memoData (utf8Bytes ['a']) then
    [55, 208, 85, 152, 234, 172, 251, 38, 3, 107, 133, 247, 8, 169, 74, 115, 78, 152, 168, 39,
      216, 116, 138, 63, 243, 191, 124, 2, 203, 144, 146, 190]
  else if bytes = [55, 208, 85, 152, 234, 172, 251, 38, 3, 107, 133, 247, 8, 169, 74, 115, 78,
      152, 168, 39, 216, 116, 138, 63, 243, 191, 124, 2, 203, 144, 146, 190] then
    [112, 89, 129, 241, 70, 127, 148, 232, 55, 233, 38, 87, 62, 167, 52, 116, 35, 248, 18, 125,
      41, 115, 80, 92, 249, 100, 73, 239, 33, 18, 165, 174]
  else List.replicate 32 0

theorem hashesToBytes_sha256 : HashesToBytes sha256 where
  length := by
    intro bytes
    unfold sha256
    split_ifs <;> rfl
  lt := by
    intro bytes
    unfold sha256
    split_ifs <;> decide

def memoBackend : Backend memoTables.env where
  base58 := memoTables.base58 (by decide +kernel)
  sha256 := sha256
  decodeText := decodeUtf8
  checkError := fun _ ↦ ""

theorem memo_markedText :
    encodeTxMemo sha256 (utf8Bytes markedText.toList) =
      "E4YWdUpwX3AXMdfM3UN49Trh72SCD1HaUVJrxa1JUJogf8NZdaP8k" := by
  decide +kernel

theorem memo_a :
    encodeTxMemo sha256 (utf8Bytes ['a']) =
      "E4YPiPN94DkzUvkiy9YfDy1zax1wBaiHNQ5WRg5zspB7Tyxngw5MS" := by
  decide +kernel

theorem memoToField_marked :
    memoToField memoTables.env "a" ≠ memoToField memoTables.env markedText := by
  unfold memoToField
  dsimp only
  rw [map_toUTF8, map_toUTF8]
  decide +kernel

/-- The memo of a text with a mark decodes to the text without it. -/
theorem marked_memo_loses_mark :
    (utf8Bytes markedText.toList).length ≤ 32 ∧
      encodeTxMemo memoBackend.sha256 (utf8Bytes markedText.toList) =
        "E4YWdUpwX3AXMdfM3UN49Trh72SCD1HaUVJrxa1JUJogf8NZdaP8k" ∧
      decodeTxMemo memoBackend "E4YWdUpwX3AXMdfM3UN49Trh72SCD1HaUVJrxa1JUJogf8NZdaP8k" =
        .ok "a" ∧
      encodeTxMemo memoBackend.sha256 (utf8Bytes "a".toList) =
        "E4YPiPN94DkzUvkiy9YfDy1zax1wBaiHNQ5WRg5zspB7Tyxngw5MS" ∧
      memoToField memoTables.env "a" ≠ memoToField memoTables.env markedText := by
  have hcontent : IsContent (utf8Bytes markedText.toList) := isContent_utf8Bytes (by decide)
  refine ⟨hcontent.length, memo_markedText, ?_, memo_a, memoToField_marked⟩
  refine (decodeTxMemo_ok hashesToBytes_sha256).mpr ⟨_, hcontent, memo_markedText.symm, ?_⟩
  change _ = decodeUtf8 _
  rw [decodeUtf8_bytes]
  rfl

/-- The round trip of the memo `a`. -/
theorem memo_a_roundTrip :
    ∃ decoded, decodeTxMemo memoBackend
        (encodeTxMemo memoBackend.sha256 (utf8Bytes "a".toList)) = .ok decoded ∧
      memoToField memoTables.env decoded = memoToField memoTables.env "a" ∧
      encodeTxMemo memoBackend.sha256 (utf8Bytes decoded.toList) =
        encodeTxMemo memoBackend.sha256 (utf8Bytes "a".toList) := by
  have hrules := @decodeTxMemo_roundTrip _ memoBackend hashesToBytes_sha256 rfl
  obtain ⟨decoded, hdecoded, hsame⟩ := hrules.1 "a" (by decide)
  exact ⟨decoded, hdecoded, hsame.mpr (by decide)⟩

end Walkthrough

end MinaGuard
