import Mathlib.Data.Nat.Digits.Defs
import MinaGuard.Indexer.Payload

/-!
# Memos

`memo.ts`: the hash of a memo's text, and the text in a transaction's memo.
-/

namespace MinaGuard

/-- What the backend takes from other packages: the text form of keys,
`sha256`, `TextDecoder` and what o1js says of a value that fails its check. -/
structure Backend (E : Env) where
  base58 : Base58 E
  sha256 : List ℕ → List ℕ
  /-- `new TextDecoder().decode`. -/
  decodeText : List ℕ → String
  /-- The message of a failed `check` on an event of a type. -/
  checkError : String → String

/-- `MEMO_HASH_PREFIX`. -/
def memoHashPrefix : String := "mina-guard-memo"

def memoToField (E : Env) (memo : String) : Fp :=
  let bytes := memo.toUTF8.toList.map UInt8.toNat
  E.hash (memoHashPrefix, (bytes.length : Fp) :: bytes.map fun b ↦ (b : Fp))

def base58Alphabet : List Char :=
  "123456789ABCDEFGHJKLMNPQRSTUVWXYZabcdefghijkmnopqrstuvwxyz".toList

/-- Multiply a little-endian number by the base and add a digit. -/
def addDigit : List ℕ → ℕ → List ℕ
  | [], carry => Nat.digits 256 carry
  | byte :: bytes, carry =>
      let carry := carry + byte * base58Alphabet.length
      carry % 256 :: addDigit bytes (carry / 256)

def base58Decode (input : String) : Except String (List ℕ) := do
  let bytes ← input.toList.foldlM
    (fun bytes char ↦
      match base58Alphabet.idxOf? char with
      | some idx => .ok (addDigit bytes idx)
      | none => .error ("Invalid base58 character: " ++ String.singleton char))
    [0]
  let ones := input.toList.takeWhile fun char ↦ char = '1'
  pure (bytes ++ List.replicate ones.length 0).reverse

/-- The text of a user memo: version, tag, length, content, checksum. -/
def decodeTxMemo {E : Env} (lib : Backend E) (base58Memo : String) :
    Except String String := do
  let raw ← base58Decode base58Memo
  if raw.length ≠ 39 then
    throw ("decodeTxMemo: expected 39 bytes, got " ++ decimal raw.length)
  if raw[0]? ≠ some 0x14 then throw "decodeTxMemo: invalid memo version"
  let expectedChecksum := (lib.sha256 (lib.sha256 (raw.take 35))).take 4
  if raw.drop 35 ≠ expectedChecksum then throw "decodeTxMemo: invalid checksum"
  let payload := (raw.take 35).drop 1
  if payload[0]? ≠ some 0x01 then throw "decodeTxMemo: invalid memo tag"
  let contentLength := payload.getD 1 0
  if 32 < contentLength then
    throw ("decodeTxMemo: invalid content length " ++ decimal contentLength)
  if (payload.drop (2 + contentLength)).any fun byte ↦ byte ≠ 0 then
    throw "decodeTxMemo: nonzero bytes after declared content length"
  pure (lib.decodeText ((payload.drop 2).take contentLength))

end MinaGuard
