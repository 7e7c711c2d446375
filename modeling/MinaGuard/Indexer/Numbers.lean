import Mathlib.Data.List.TakeWhile
import MinaGuard.Contract.Circuit
import MinaGuard.Foundations.Doubles

/-!
# Numbers as text

How JavaScript writes numbers and field elements in decimal, and what its
conversions read from a text.
-/

namespace MinaGuard

open Foundations

/-- `toString()` of a number. -/
def decimal (n : ℕ) : String := Nat.repr n

/-- The number that decimal digits stand for. -/
def ofDecimal (text : String) : Option ℕ :=
  if text.toList ≠ [] ∧ text.toList.all Char.isDigit then
    some (Nat.ofDigitChars 10 text.toList 0)
  else none

theorem decimal_ne_empty (n : ℕ) : decimal n ≠ "" := Nat.repr_ne_empty

theorem isDigit_of_mem_decimal {n : ℕ} {c : Char} (hc : c ∈ (decimal n).toList) :
    c.isDigit = true := by
  have hdigits : (decimal n).toList = Nat.toDigits 10 n := Nat.toList_repr
  rw [hdigits] at hc
  exact Nat.isDigit_of_mem_toDigits (by decide) (by decide) hc

theorem ofDecimal_decimal (n : ℕ) : ofDecimal (decimal n) = some n := by
  have hne : (decimal n).toList ≠ [] := fun h ↦
    decimal_ne_empty n (String.toList_eq_nil_iff.mp h)
  have hall : (decimal n).toList.all Char.isDigit = true :=
    List.all_eq_true.mpr fun _ hc ↦ isDigit_of_mem_decimal hc
  have hdigits : (decimal n).toList = Nat.toDigits 10 n := Nat.toList_repr
  unfold ofDecimal
  rw [if_pos ⟨hne, hall⟩, hdigits, Nat.ofDigitChars_ten_toDigits]

theorem decimal_injective : Function.Injective decimal := by
  intro m n h
  have hsome := congrArg ofDecimal h
  rwa [ofDecimal_decimal, ofDecimal_decimal, Option.some.injEq] at hsome

/-- The double closest to a natural number, the even one of two. -/
def nearestDouble (n : ℕ) : ℕ :=
  if n < 2 ^ 53 then n
  else
    let ulp := 2 ^ (n.log2 - 52)
    let quotient := n / ulp
    let rest := n % ulp
    let up := ulp < 2 * rest ∨ 2 * rest = ulp ∧ quotient % 2 = 1
    (if up then quotient + 1 else quotient) * ulp

theorem nearestDouble_of_le {n : ℕ} (h : n ≤ 2 ^ 53) : nearestDouble n = n := by
  unfold nearestDouble
  split
  · rfl
  · obtain rfl : n = 2 ^ 53 := by omega
    decide

theorem le_nearestDouble {n : ℕ} (h : 2 ^ 53 ≤ n) : 2 ^ 53 ≤ nearestDouble n := by
  have hlog : 53 ≤ n.log2 := (Nat.le_log2 (by omega)).mpr h
  have hlow : 2 ^ n.log2 ≤ n := Nat.log2_self_le (by omega)
  have hulp : 2 ^ 52 * 2 ^ (n.log2 - 52) = 2 ^ n.log2 := by
    rw [← Nat.pow_add]
    congr 1
    omega
  have hquotient : 2 ^ 52 ≤ n / 2 ^ (n.log2 - 52) := by
    rw [Nat.le_div_iff_mul_le (Nat.two_pow_pos _), hulp]
    exact hlow
  have hpow : 2 ^ 53 ≤ 2 ^ n.log2 := Nat.pow_le_pow_right (by decide) hlog
  unfold nearestDouble
  rw [if_neg (not_lt.mpr h)]
  calc 2 ^ 53 ≤ 2 ^ 52 * 2 ^ (n.log2 - 52) := hulp ▸ hpow
    _ ≤ n / 2 ^ (n.log2 - 52) * 2 ^ (n.log2 - 52) := Nat.mul_le_mul_right _ hquotient
    _ ≤ _ := Nat.mul_le_mul_right _ (by split <;> omega)

/-- `Number.MAX_SAFE_INTEGER`. -/
def maxSafeInteger : ℕ := 2 ^ 53 - 1

/-- `Field.toString()`. -/
def fieldText (x : Fp) : String := decimal x.val

/-- White space and line ends, which conversions to a number skip around it. -/
def isWhiteSpace (c : Char) : Bool :=
  c.toNat ∈ [9, 10, 11, 12, 13, 32, 160, 5760, 8232, 8233, 8239, 8287, 12288, 65279] ∨
    8192 ≤ c.toNat ∧ c.toNat ≤ 8202

/-- `trim()`. -/
def trimmed (chars : List Char) : List Char :=
  ((chars.dropWhile isWhiteSpace).reverse.dropWhile isWhiteSpace).reverse

/-- The value of a digit of either case in a radix up to 16; the radix itself for
anything else. -/
def digitValue (radix : ℕ) (c : Char) : ℕ :=
  if c.isDigit then c.toNat - 48
  else if 'a' ≤ c ∧ c ≤ 'f' then c.toNat - 87
  else if 'A' ≤ c ∧ c ≤ 'F' then c.toNat - 55
  else radix

/-- The number that digits stand for. -/
def ofDigits (radix : ℕ) (digits : List Char) : Option ℕ :=
  if digits ≠ [] ∧ digits.all (fun c ↦ digitValue radix c < radix) then
    some (digits.foldl (fun n c ↦ radix * n + digitValue radix c) 0)
  else none

/-- `BigInt(text)`, `none` where it throws: decimal digits, also with a sign, or
digits after the mark of another radix. -/
def parseBigInt (text : String) : Option ℤ :=
  let chars := trimmed text.toList
  if chars = [] then some 0
  else if chars.all Char.isDigit then some (Nat.ofDigitChars 10 chars 0)
  else
    match chars with
    | '-' :: digits => (ofDigits 10 digits).map fun n ↦ -(n : ℤ)
    | '+' :: digits => (ofDigits 10 digits).map Nat.cast
    | '0' :: mark :: digits =>
        if mark = 'x' ∨ mark = 'X' then (ofDigits 16 digits).map Nat.cast
        else if mark = 'o' ∨ mark = 'O' then (ofDigits 8 digits).map Nat.cast
        else if mark = 'b' ∨ mark = 'B' then (ofDigits 2 digits).map Nat.cast
        else none
    | _ => none

/-- `Field(text)`, which throws unless the text is a number. -/
def parseField (text : String) : Except String Fp :=
  match parseBigInt text with
  | some n => .ok (n : Fp)
  | none => .error "Cannot convert text to a BigInt"

theorem isWhiteSpace_of_isDigit {c : Char} (h : c.isDigit = true) : isWhiteSpace c = false := by
  obtain ⟨hlow, hhigh⟩ : 48 ≤ c.toNat ∧ c.toNat ≤ 57 := by
    simpa [Char.isDigit, UInt32.le_iff_toNat_le] using h
  unfold isWhiteSpace
  rw [decide_eq_false_iff_not]
  simp only [List.mem_cons, List.not_mem_nil, or_false]
  omega

theorem trimmed_of_not_isWhiteSpace {chars : List Char}
    (h : ∀ c ∈ chars, isWhiteSpace c = false) : trimmed chars = chars := by
  have hkeep {l : List Char} (hl : ∀ c ∈ l, isWhiteSpace c = false) :
      l.dropWhile isWhiteSpace = l := by
    cases l with
    | nil => rfl
    | cons c l =>
        rw [List.dropWhile_cons_of_neg]
        simp [hl c List.mem_cons_self]
  unfold trimmed
  rw [hkeep h, hkeep fun c hc ↦ h c (List.mem_reverse.mp hc), List.reverse_reverse]

theorem trimmed_of_isDigit {chars : List Char} (h : ∀ c ∈ chars, c.isDigit = true) :
    trimmed chars = chars :=
  trimmed_of_not_isWhiteSpace fun c hc ↦ isWhiteSpace_of_isDigit (h c hc)

theorem parseBigInt_decimal (n : ℕ) : parseBigInt (decimal n) = some (n : ℤ) := by
  have hdigit : ∀ c ∈ (decimal n).toList, c.isDigit = true := fun _ ↦ isDigit_of_mem_decimal
  have hne : (decimal n).toList ≠ [] := fun h ↦
    decimal_ne_empty n (String.toList_eq_nil_iff.mp h)
  have hdigits : (decimal n).toList = Nat.toDigits 10 n := Nat.toList_repr
  unfold parseBigInt
  rw [trimmed_of_isDigit hdigit]
  dsimp only
  rw [if_neg hne, if_pos (List.all_eq_true.mpr hdigit), hdigits, Nat.ofDigitChars_ten_toDigits]

theorem fieldText_ne_empty (x : Fp) : fieldText x ≠ "" := decimal_ne_empty _

theorem parseField_fieldText (x : Fp) : parseField (fieldText x) = .ok x := by
  unfold parseField fieldText
  rw [parseBigInt_decimal]
  refine congrArg Except.ok ?_
  rw [Int.cast_natCast]
  exact ZMod.natCast_zmod_val x

theorem fieldText_injective : Function.Injective fieldText :=
  fun _ _ h ↦ ZMod.val_injective fieldOrder (decimal_injective h)

/-- Infinity, as the bound that no double reaches. -/
def infinity : ℚ := 2 ^ 1024

/-- Digits with at most one point among them. -/
def decimalFraction (chars : List Char) : Option ℚ :=
  let whole := chars.takeWhile (· ≠ '.')
  let fraction := (chars.dropWhile (· ≠ '.')).drop 1
  (ofDecimal (String.ofList (whole ++ fraction))).map fun n ↦ n / 10 ^ fraction.length

/-- What may follow the digits: nothing, or a mark and an integer. -/
def exponentPart : List Char → Option ℤ
  | [] => some 0
  | _ :: '-' :: digits => (ofDecimal (String.ofList digits)).map fun n ↦ -(n : ℤ)
  | _ :: '+' :: digits => (ofDecimal (String.ofList digits)).map Nat.cast
  | _ :: digits => (ofDecimal (String.ofList digits)).map Nat.cast

/-- A decimal number without a sign. -/
def unsignedNumber (chars : List Char) : Option ℚ :=
  if chars = "Infinity".toList then some infinity
  else do
    let fraction ← decimalFraction (chars.takeWhile fun c ↦ c ≠ 'e' ∧ c ≠ 'E')
    let exponent ← exponentPart (chars.dropWhile fun c ↦ c ≠ 'e' ∧ c ≠ 'E')
    some (min (roundToDouble (fraction * 10 ^ exponent)) infinity)

def radixNumber (radix : ℕ) (digits : List Char) : Option ℚ :=
  (ofDigits radix digits).map fun n ↦ min (roundToDouble n) infinity

/-- `Number(text)`, `none` for what is not a number. -/
def toNumber (text : String) : Option ℚ :=
  match trimmed text.toList with
  | [] => some 0
  | '-' :: chars => (unsignedNumber chars).map Neg.neg
  | '+' :: chars => unsignedNumber chars
  | '0' :: mark :: chars =>
      if mark = 'x' ∨ mark = 'X' then radixNumber 16 chars
      else if mark = 'o' ∨ mark = 'O' then radixNumber 8 chars
      else if mark = 'b' ∨ mark = 'B' then radixNumber 2 chars
      else unsignedNumber ('0' :: mark :: chars)
  | chars => unsignedNumber chars

/-- `Number(text)` where it is finite. -/
def finiteNumber (text : String) : Option ℚ := (toNumber text).filter fun q ↦ |q| < infinity

/-- The natural number that a number is. -/
def toNatural (q : ℚ) : Option ℕ :=
  if q.den = 1 ∧ 0 ≤ q ∧ q < infinity then some q.num.toNat else none

/-- `Number(text)` for an integer column.  The columns hold counters, which are
natural numbers. -/
def columnNumber (text : String) : Option ℕ := (toNumber text).bind toNatural

theorem roundToDouble_natCast (n : ℕ) : roundToDouble (n : ℚ) = nearestDouble n := by
  rcases lt_or_ge n (2 ^ 53) with hlt | hge
  · rw [roundToDouble_natCast_of_le hlt.le, nearestDouble_of_le hlt.le]
  · have hlog : 52 ≤ n.log2 := by
      have hlog' := (Nat.le_log2 (by omega)).mpr hge
      omega
    have hulp : ulp (n : ℚ) = ((2 ^ (n.log2 - 52) : ℕ) : ℚ) := by
      rw [ulp_natCast, Nat.cast_pow, ← zpow_natCast, ← Nat.log2_eq_log_two]
      congr 1
      omega
    unfold roundToDouble nearestDouble
    rw [hulp, roundHalfEven_div (Nat.two_pow_pos _), if_neg (not_lt.mpr hge), Int.cast_natCast,
      ← Nat.cast_mul]

theorem unsignedNumber_decimal (n : ℕ) :
    unsignedNumber (decimal n).toList = some (min (nearestDouble n : ℚ) infinity) := by
  have hdigit : ∀ c ∈ (decimal n).toList, c.isDigit = true := fun _ ↦ isDigit_of_mem_decimal
  have hkeep {p : Char → Bool} (hp : ∀ c : Char, c.isDigit = true → p c = true) :
      (decimal n).toList.takeWhile p = (decimal n).toList ∧
        (decimal n).toList.dropWhile p = [] :=
    ⟨List.takeWhile_eq_self_iff.mpr fun c hc ↦ hp c (hdigit c hc),
      List.dropWhile_eq_nil_iff.mpr fun c hc ↦ hp c (hdigit c hc)⟩
  have hmantissa := hkeep (p := fun c ↦ c ≠ 'e' ∧ c ≠ 'E') fun c hc ↦ by
    rw [decide_eq_true_eq]
    constructor <;> rintro rfl <;> exact absurd hc (by decide)
  have hwhole := hkeep (p := fun c ↦ c ≠ '.') fun c hc ↦ by
    rw [decide_eq_true_eq]
    rintro rfl
    exact absurd hc (by decide)
  have hinfinity : (decimal n).toList ≠ "Infinity".toList := by
    intro h
    rw [h] at hdigit
    exact absurd (hdigit 'I' (by decide)) (by decide)
  unfold unsignedNumber
  rw [if_neg hinfinity, hmantissa.1, hmantissa.2]
  unfold decimalFraction
  rw [hwhole.1, hwhole.2]
  dsimp only
  rw [List.drop_nil, List.append_nil, String.ofList_toList, ofDecimal_decimal]
  change some (min (roundToDouble ((n : ℚ) / 10 ^ 0 * 10 ^ (0 : ℤ))) infinity) = _
  rw [pow_zero, div_one, zpow_zero, mul_one, roundToDouble_natCast]

theorem toNumber_decimal (n : ℕ) :
    toNumber (decimal n) = some (min (nearestDouble n : ℚ) infinity) := by
  have hdigit : ∀ c ∈ (decimal n).toList, c.isDigit = true := fun _ ↦ isDigit_of_mem_decimal
  unfold toNumber
  rw [trimmed_of_isDigit hdigit, ← unsignedNumber_decimal]
  split
  · next h => exact absurd (String.toList_eq_nil_iff.mp h) (decimal_ne_empty n)
  · next h => exact absurd (hdigit '-' (h ▸ List.mem_cons_self)) (by decide)
  · next h => exact absurd (hdigit '+' (h ▸ List.mem_cons_self)) (by decide)
  · next mark _ h =>
      have hmark := hdigit mark (h ▸ List.mem_cons_of_mem _ List.mem_cons_self)
      have hne {c : Char} (hc : c.isDigit = false) : mark ≠ c := by
        rintro rfl
        rw [hmark] at hc
        cases hc
      rw [if_neg (not_or.mpr ⟨hne rfl, hne rfl⟩), if_neg (not_or.mpr ⟨hne rfl, hne rfl⟩),
        if_neg (not_or.mpr ⟨hne rfl, hne rfl⟩)]
      rw [h]
  · rfl

theorem two_pow_53_lt_infinity : (2 ^ 53 : ℚ) < infinity := pow_lt_pow_right₀ one_lt_two (by decide)

theorem toNumber_decimal_of_le {n : ℕ} (h : n ≤ 2 ^ 53) : toNumber (decimal n) = some (n : ℚ) := by
  have hle : (n : ℚ) ≤ 2 ^ 53 := by exact_mod_cast h
  have hfinite : (n : ℚ) ≤ infinity := hle.trans two_pow_53_lt_infinity.le
  rw [toNumber_decimal, nearestDouble_of_le h, min_eq_left hfinite]

theorem finiteNumber_decimal {n : ℕ} (h : n ≤ 2 ^ 53) :
    finiteNumber (decimal n) = some (n : ℚ) := by
  have hle : (n : ℚ) ≤ 2 ^ 53 := by exact_mod_cast h
  have hfinite : |(n : ℚ)| < infinity := by
    rw [Nat.abs_cast]
    exact hle.trans_lt two_pow_53_lt_infinity
  unfold finiteNumber
  rw [toNumber_decimal_of_le h]
  exact Option.filter_some_pos (decide_eq_true hfinite)

theorem toNatural_natCast {n : ℕ} (h : n ≤ 2 ^ 53) : toNatural (n : ℚ) = some n := by
  have hle : (n : ℚ) ≤ 2 ^ 53 := by exact_mod_cast h
  unfold toNatural
  rw [if_pos ⟨Rat.den_natCast n, Nat.cast_nonneg n, hle.trans_lt two_pow_53_lt_infinity⟩,
    Rat.num_natCast, Int.toNat_natCast]

theorem columnNumber_decimal {n : ℕ} (h : n ≤ 2 ^ 53) : columnNumber (decimal n) = some n := by
  unfold columnNumber
  rw [toNumber_decimal_of_le h, Option.bind_some, toNatural_natCast h]

/-- Small doubles are exact. -/
theorem eq_of_finiteNumber_decimal {n : ℕ} {q : ℚ} (h : finiteNumber (decimal n) = some q)
    (hq : q < 2 ^ 53) : q = n := by
  rcases le_or_gt n (2 ^ 53) with hle | hgt
  · rw [finiteNumber_decimal hle] at h
    exact (Option.some.inj h).symm
  · unfold finiteNumber at h
    rw [toNumber_decimal, Option.filter_eq_some_iff] at h
    obtain rfl := Option.some.inj h.1
    have hlow : (2 ^ 53 : ℚ) ≤ nearestDouble n := by
      exact_mod_cast le_nearestDouble hgt.le
    exact absurd hq (not_lt.mpr (le_min hlow two_pow_53_lt_infinity.le))

end MinaGuard
