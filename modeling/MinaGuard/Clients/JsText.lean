import Mathlib.Data.List.DropRight
import MinaGuard.Clients.JsValue

/-!
# Values as text

What `String(value)` makes of a JavaScript value.  A number is written with as few
digits as tell its double from the others, which need not be all of its digits.
-/

namespace MinaGuard

open Foundations

/-- The decimals of `k` digits on both sides of a positive number, the closer one
first, as integers with an exponent. -/
def decimalsNear (q : ℚ) (k : ℕ) : List (ℕ × ℤ) :=
  let exponent := Int.log 10 q + 1 - k
  let quotient := q / 10 ^ exponent
  let s := ⌊quotient⌋₊
  if quotient - s < 1 / 2 ∨ quotient - s = 1 / 2 ∧ s % 2 = 0 then [(s, exponent), (s + 1, exponent)]
  else [(s + 1, exponent), (s, exponent)]

def decimalValue (d : ℕ × ℤ) : ℚ := d.1 * 10 ^ d.2

/-- The shortest decimal that stands for a positive double.  Of a double 17 digits
are enough; no other number occurs. -/
def shortestDecimal (q : ℚ) : ℕ × ℤ :=
  (((List.range' 1 17).flatMap (decimalsNear q)).find? fun d ↦
    roundToDouble (decimalValue d) = q).getD (⌊q⌋₊, 0)

/-- A number that is not written as an integer: digits with a point, or with an
exponent. -/
def fractionalText (d : ℕ × ℤ) : List Char :=
  let digits := (Nat.toDigits 10 d.1).rdropWhile (· = '0')
  let n : ℤ := (Nat.toDigits 10 d.1).length + d.2
  if 0 < n ∧ n ≤ 21 then digits.take n.toNat ++ '.' :: digits.drop n.toNat
  else if -6 < n ∧ n ≤ 0 then '0' :: '.' :: List.replicate (-n).toNat '0' ++ digits
  else
    let exponent := (if 0 < n - 1 then '+' else '-') :: Nat.toDigits 10 (n - 1).natAbs
    match digits with
    | [] => 'e' :: exponent
    | [d] => d :: 'e' :: exponent
    | d :: rest => d :: '.' :: rest ++ 'e' :: exponent

/-- `toString()` of a positive number. -/
def positiveText (q : ℚ) : String :=
  let d := shortestDecimal q
  if (decimalValue d).den = 1 ∧ decimalValue d < 10 ^ 21 then decimal (decimalValue d).num.toNat
  else String.ofList (fractionalText d)

/-- `toString()` of a number. -/
def numberText (q : ℚ) : String :=
  if q < 0 then "-" ++ positiveText (-q) else if q = 0 then "0" else positiveText q

example : numberText (2 ^ 64) = "18446744073709552000" := by decide +kernel

section Numbers

variable {q : ℚ} {d : ℕ × ℤ}

theorem mem_decimalsNear {k : ℕ} : d ∈ decimalsNear q k ↔
    d.2 = Int.log 10 q + 1 - k ∧ (d.1 = ⌊q / 10 ^ d.2⌋₊ ∨ d.1 = ⌊q / 10 ^ d.2⌋₊ + 1) := by
  obtain ⟨s, e⟩ := d
  have hor {P Q R : Prop} (h : R → (P ↔ Q)) : P ∧ R ↔ R ∧ Q := by
    rw [and_comm]
    exact and_congr_right h
  unfold decimalsNear
  dsimp only
  split
  · simp only [List.mem_cons, Prod.mk.injEq, List.not_mem_nil, or_false, ← or_and_right]
    exact hor fun he ↦ by rw [he]
  · simp only [List.mem_cons, Prod.mk.injEq, List.not_mem_nil, or_false, ← or_and_right]
    exact hor fun he ↦ by rw [he, or_comm]

/-- What is written is more than half of the number. -/
theorem lt_two_mul_of_mem {k : ℕ} (hk : 1 ≤ k) (hq : 0 < q) (hd : d ∈ decimalsNear q k) :
    q < 2 * decimalValue d := by
  obtain ⟨hexponent, hdigits⟩ := mem_decimalsNear.mp hd
  have hunit : (0 : ℚ) < 10 ^ d.2 := zpow_pos (by norm_num) _
  have hlog : (10 : ℚ) ^ Int.log 10 q ≤ q := Int.zpow_log_le_self (by norm_num) hq
  have hle : (10 : ℚ) ^ d.2 ≤ q := by
    refine (zpow_le_zpow_right₀ (by norm_num) ?_).trans hlog
    omega
  have hone : 1 ≤ ⌊q / 10 ^ d.2⌋₊ := Nat.one_le_floor_iff _ |>.mpr ((one_le_div hunit).mpr hle)
  have hfloor : q / 10 ^ d.2 < ⌊q / 10 ^ d.2⌋₊ + 1 := Nat.lt_floor_add_one _
  have htwo : (⌊q / 10 ^ d.2⌋₊ + 1 : ℚ) ≤ 2 * d.1 := by
    exact_mod_cast (by omega : ⌊q / 10 ^ d.2⌋₊ + 1 ≤ 2 * d.1)
  unfold decimalValue
  rw [← mul_assoc]
  exact (div_lt_iff₀ hunit).mp (hfloor.trans_le htwo)

theorem lt_two_mul_shortestDecimal (hq : 1 ≤ q) : q < 2 * decimalValue (shortestDecimal q) := by
  unfold shortestDecimal
  cases hfind : ((List.range' 1 17).flatMap (decimalsNear q)).find? fun d ↦
      roundToDouble (decimalValue d) = q with
  | some d =>
      obtain ⟨k, hk, hd⟩ := List.mem_flatMap.mp (List.mem_of_find?_eq_some hfind)
      exact lt_two_mul_of_mem (List.mem_range'_1.mp hk).1 (zero_lt_one.trans_le hq) hd
  | none =>
      have hone : 1 ≤ ⌊q⌋₊ := Nat.one_le_floor_iff _ |>.mpr hq
      have hfloor : q < ⌊q⌋₊ + 1 := Nat.lt_floor_add_one _
      have htwo : (⌊q⌋₊ + 1 : ℚ) ≤ 2 * ⌊q⌋₊ := by
        exact_mod_cast (by omega : ⌊q⌋₊ + 1 ≤ 2 * ⌊q⌋₊)
      unfold decimalValue
      rw [Option.getD_none, zpow_zero, mul_one]
      exact hfloor.trans_le htwo

/-- The candidates for a small integer are integers as long as they have no more
digits than it. -/
theorem eq_of_roundToDouble {n k : ℕ} (h : n < 2 ^ 53) (hk : (k : ℤ) ≤ Int.log 10 (n : ℚ) + 1)
    (hd : d ∈ decimalsNear n k) (hround : roundToDouble (decimalValue d) = n) :
    decimalValue d = n := by
  obtain ⟨hexponent, -⟩ := mem_decimalsNear.mp hd
  obtain ⟨e, he⟩ : ∃ e : ℕ, d.2 = e := ⟨d.2.toNat, by omega⟩
  have hvalue : decimalValue d = (d.1 * 10 ^ e : ℕ) := by
    unfold decimalValue
    rw [he]
    push_cast
    rw [zpow_natCast]
  rw [hvalue, roundToDouble_natCast, Nat.cast_inj] at hround
  rw [hvalue, Nat.cast_inj]
  rcases lt_or_ge (d.1 * 10 ^ e) (2 ^ 53) with hlt | hge
  · rwa [nearestDouble_of_le hlt.le] at hround
  · exact absurd (hround ▸ le_nearestDouble hge) (not_le.mpr h)

/-- Integers below `2 ^ 53` are written with all of their digits. -/
theorem numberText_of_lt {n : ℕ} (h : n < 2 ^ 53) : numberText (n : ℚ) = decimal n := by
  rcases Nat.eq_zero_or_pos n with rfl | hpos
  · rfl
  have hlog : Int.log 10 (n : ℚ) = (Nat.log 10 n : ℤ) := Int.log_natCast 10 n
  have hdigits : Nat.log 10 n + 1 ≤ 17 := by
    have hle := Nat.log_mono_right (b := 10) (h.le.trans (by norm_num : 2 ^ 53 ≤ 10 ^ 16))
    rw [Nat.log_pow (by norm_num)] at hle
    omega
  have hsplit : List.range' 1 17 =
      List.range' 1 (Nat.log 10 n + 1) ++ List.range' (1 + (Nat.log 10 n + 1))
        (17 - (Nat.log 10 n + 1)) := by
    rw [List.range'_append_1]
    congr 1
    omega
  -- the number itself is a candidate with its own number of digits
  have hown : ((n, 0) : ℕ × ℤ) ∈ decimalsNear (n : ℚ) (Nat.log 10 n + 1) := by
    refine mem_decimalsNear.mpr ⟨?_, .inl ?_⟩
    · rw [hlog]
      push_cast
      ring
    · rw [zpow_zero, div_one, Nat.floor_natCast]
  have hownValue : decimalValue (n, 0) = n := by
    unfold decimalValue
    rw [zpow_zero, mul_one]
  have hvalue : decimalValue (shortestDecimal (n : ℚ)) = n := by
    unfold shortestDecimal
    rw [hsplit, List.flatMap_append, List.find?_append]
    cases hfind : ((List.range' 1 (Nat.log 10 n + 1)).flatMap (decimalsNear n)).find? fun d ↦
        roundToDouble (decimalValue d) = n with
    | some d =>
        obtain ⟨k, hk, hd⟩ := List.mem_flatMap.mp (List.mem_of_find?_eq_some hfind)
        have hle := (List.mem_range'_1.mp hk).2
        have hround : roundToDouble (decimalValue d) = n := by
          simpa using List.find?_some hfind
        exact eq_of_roundToDouble h (by omega) hd hround
    | none =>
        refine absurd ?_ (List.find?_eq_none.mp hfind (n, 0) (List.mem_flatMap.mpr
          ⟨Nat.log 10 n + 1, List.mem_range'_1.mpr ⟨by omega, by omega⟩, hown⟩))
        rw [hownValue, roundToDouble_natCast_of_le h.le]
        exact decide_eq_true rfl
  have hsmall : (n : ℚ) < 10 ^ 21 := by exact_mod_cast h.trans (by norm_num)
  unfold numberText positiveText
  rw [if_neg (not_lt.mpr (Nat.cast_nonneg n)), if_neg (Nat.cast_ne_zero.mpr hpos.ne')]
  dsimp only
  rw [hvalue, if_pos ⟨Rat.den_natCast n, hsmall⟩, Rat.num_natCast, Int.toNat_natCast]

end Numbers

theorem ofDigits_eq_none {radix : ℕ} {chars : List Char}
    (h : ∃ c ∈ chars, radix ≤ digitValue radix c) : ofDigits radix chars = none := by
  obtain ⟨c, hc, hvalue⟩ := h
  refine if_neg ?_
  rintro ⟨-, hall⟩
  exact not_le.mpr (of_decide_eq_true (List.all_eq_true.mp hall c hc)) hvalue

theorem le_digitValue {c : Char} (h : c.isDigit = false) : 10 ≤ digitValue 10 c := by
  unfold digitValue
  rw [h, if_neg Bool.false_ne_true]
  split
  · next hletter =>
      have hlow : 97 ≤ c.toNat := hletter.1
      omega
  · split
    · next hletter =>
        have hlow : 65 ≤ c.toNat := hletter.1
        omega
    · exact le_rfl

/-- Digits, a point or an `e`, and more of these or signs. -/
def IsFraction (chars : List Char) : Prop :=
  ∃ front mark rest, chars = front ++ mark :: rest ∧ (∀ c ∈ front, c.isDigit = true) ∧
    (mark = '.' ∨ mark = 'e') ∧ ∀ c ∈ rest, c.isDigit = true ∨ c ∈ ['.', 'e', '+', '-']

namespace IsFraction

variable {chars : List Char} {c : Char}

theorem isDigit_or (h : IsFraction chars) (hc : c ∈ chars) :
    c.isDigit = true ∨ c ∈ ['.', 'e', '+', '-'] := by
  obtain ⟨front, mark, rest, rfl, hfront, hmark, hrest⟩ := h
  rcases List.mem_append.mp hc with hc | hc
  · exact .inl (hfront c hc)
  · rcases List.mem_cons.mp hc with rfl | hc
    · rcases hmark with rfl | rfl <;> exact .inr (by decide)
    · exact hrest c hc

theorem exists_not_isDigit (h : IsFraction chars) : ∃ c ∈ chars, c.isDigit = false := by
  obtain ⟨front, mark, rest, rfl, -, hmark, -⟩ := h
  refine ⟨mark, by simp, ?_⟩
  rcases hmark with rfl | rfl <;> rfl

theorem exists_le_digitValue (h : IsFraction chars) : ∃ c ∈ chars, 10 ≤ digitValue 10 c := by
  obtain ⟨c, hc, hdigit⟩ := h.exists_not_isDigit
  exact ⟨c, hc, le_digitValue hdigit⟩

theorem head_ne (h : IsFraction (c :: chars)) : c ≠ '+' ∧ c ≠ '-' := by
  obtain ⟨front, mark, rest, heq, hfront, hmark, -⟩ := h
  cases front with
  | nil =>
      obtain ⟨rfl, -⟩ := List.cons.inj heq
      rcases hmark with rfl | rfl <;> decide
  | cons d front =>
      obtain ⟨rfl, -⟩ := List.cons.inj heq
      have hdigit := hfront c List.mem_cons_self
      constructor <;> rintro rfl <;> exact absurd hdigit (by decide)

theorem not_isWhiteSpace (h : IsFraction chars) (hc : c ∈ chars) : isWhiteSpace c = false := by
  rcases h.isDigit_or hc with hdigit | hmark
  · exact isWhiteSpace_of_isDigit hdigit
  · simp only [List.mem_cons, List.not_mem_nil, or_false] at hmark
    rcases hmark with rfl | rfl | rfl | rfl <;> decide

/-- A text with a point or an exponent is no integer. -/
theorem parseBigInt_eq_none (h : IsFraction chars) : parseBigInt (String.ofList chars) = none := by
  obtain ⟨c, hc, hdigit⟩ := h.exists_not_isDigit
  unfold parseBigInt
  rw [String.toList_ofList, trimmed_of_not_isWhiteSpace fun c ↦ h.not_isWhiteSpace]
  dsimp only
  rw [if_neg (List.ne_nil_of_mem hc), if_neg (fun hall ↦ by
    rw [List.all_eq_true.mp hall c hc] at hdigit
    cases hdigit)]
  split
  · exact absurd rfl h.head_ne.2
  · exact absurd rfl h.head_ne.1
  · next mark digits =>
      -- the mark of a radix is no such character
      have hne : ∀ d ∈ ['x', 'X', 'o', 'O', 'b', 'B'], mark ≠ d := by
        rintro d hd rfl
        have hchar := h.isDigit_or (List.mem_cons_of_mem _ List.mem_cons_self)
        simp only [List.mem_cons, List.not_mem_nil, or_false] at hd
        rcases hd with rfl | rfl | rfl | rfl | rfl | rfl <;> exact absurd hchar (by decide)
      rw [if_neg, if_neg, if_neg] <;> rintro (rfl | rfl) <;> exact hne _ (by simp) rfl
  · rfl

end IsFraction

theorem isFraction_fractionalText (d : ℕ × ℤ) : IsFraction (fractionalText d) := by
  have hdigit {n : ℕ} : ∀ c ∈ Nat.toDigits 10 n, c.isDigit = true :=
    fun c hc ↦ Nat.isDigit_of_mem_toDigits (by decide) (by decide) hc
  have hdigits : ∀ c ∈ (Nat.toDigits 10 d.1).rdropWhile (· = '0'), c.isDigit = true :=
    fun c hc ↦ hdigit c ((List.rdropWhile_prefix _ _).subset hc)
  unfold fractionalText
  dsimp only
  generalize (Nat.toDigits 10 d.1).rdropWhile (· = '0') = digits at hdigits ⊢
  generalize ((Nat.toDigits 10 d.1).length + d.2 : ℤ) = n
  split
  · exact ⟨_, _, _, rfl, fun c hc ↦ hdigits c (List.mem_of_mem_take hc), .inl rfl,
      fun c hc ↦ .inl (hdigits c (List.mem_of_mem_drop hc))⟩
  split
  · refine ⟨['0'], '.', _, rfl, by simp, .inl rfl, fun c hc ↦ ?_⟩
    rcases List.mem_append.mp hc with hc | hc
    · rw [List.eq_of_mem_replicate hc]
      exact .inl rfl
    · exact .inl (hdigits c hc)
  · have hexponent : ∀ c ∈ (if 0 < n - 1 then '+' else '-') :: Nat.toDigits 10 (n - 1).natAbs,
        c.isDigit = true ∨ c ∈ ['.', 'e', '+', '-'] := by
      intro c hc
      rcases List.mem_cons.mp hc with rfl | hc
      · exact .inr (by split <;> decide)
      · exact .inl (hdigit c hc)
    cases digits with
    | nil => exact ⟨[], 'e', _, rfl, by simp, .inr rfl, hexponent⟩
    | cons d rest =>
        cases rest with
        | nil => exact ⟨[d], 'e', _, rfl, hdigits, .inr rfl, hexponent⟩
        | cons d' rest =>
            refine ⟨[d], '.', _, rfl, by simpa using hdigits d List.mem_cons_self, .inl rfl,
              fun c hc ↦ ?_⟩
            rcases List.mem_append.mp hc with hc | hc
            · exact .inl (hdigits c (List.mem_cons_of_mem _ hc))
            · rcases List.mem_cons.mp hc with rfl | hc
              · exact .inr (by decide)
              · exact hexponent c hc

/-- A number from one on is written as an integer of its size or as a fraction. -/
theorem positiveText_cases (hq : 1 ≤ q) :
    (∃ m : ℕ, positiveText q = decimal m ∧ q < 2 * m ∧ m < 10 ^ 21) ∨
      ∃ chars, positiveText q = String.ofList chars ∧ IsFraction chars := by
  have hlow := lt_two_mul_shortestDecimal hq
  unfold positiveText
  dsimp only
  split
  · next hinteger =>
      refine .inl ⟨_, rfl, ?_⟩
      generalize decimalValue (shortestDecimal q) = v at hlow hinteger
      obtain ⟨n, rfl⟩ : ∃ n : ℤ, v = n := ⟨v.num, (Rat.coe_int_num_of_den_eq_one hinteger.1).symm⟩
      obtain ⟨m, rfl⟩ : ∃ m : ℕ, n = m := by
        refine Int.eq_ofNat_of_zero_le ?_
        have hpos : (0 : ℚ) < n := by linarith
        exact_mod_cast hpos.le
      rw [Rat.num_intCast, Int.toNat_natCast]
      exact ⟨by exact_mod_cast hlow, by exact_mod_cast hinteger.2⟩
  · exact .inr ⟨_, rfl, isFraction_fractionalText _⟩

theorem ofDigits_decimal (n : ℕ) : ofDigits 10 (decimal n).toList = some n := by
  have hdigit : ∀ c ∈ (decimal n).toList, c.isDigit = true := fun _ ↦ isDigit_of_mem_decimal
  have hne : (decimal n).toList ≠ [] := fun h ↦
    decimal_ne_empty n (String.toList_eq_nil_iff.mp h)
  have hdigits : (decimal n).toList = Nat.toDigits 10 n := Nat.toList_repr
  have hall : ∀ c ∈ (decimal n).toList, digitValue 10 c = c.toNat - 48 :=
    fun c hc ↦ if_pos (hdigit c hc)
  have hsmall : ∀ c ∈ (decimal n).toList, c.toNat - 48 < 10 :=
    fun c hc ↦ (digitChar_of_isDigit (hdigit c hc)).1
  have hvalue : (decimal n).toList.foldl (fun k c ↦ 10 * k + (c.toNat - 48)) 0 = n := by
    rw [hdigits]
    exact Nat.ofDigitChars_ten_toDigits
  refine (if_pos ⟨hne, List.all_eq_true.mpr fun c hc ↦
    decide_eq_true ((hall c hc).trans_lt (hsmall c hc))⟩).trans (congrArg some ?_)
  refine Eq.trans (List.foldl_ext _ _ 0 fun k c hc ↦ ?_) hvalue
  exact congrArg (10 * k + ·) (hall c hc)

/-- What `BigInt` reads after a sign. -/
theorem parseBigInt_neg {chars : List Char} (h : ∀ c ∈ chars, isWhiteSpace c = false) :
    parseBigInt ("-" ++ String.ofList chars) = (ofDigits 10 chars).map fun n ↦ -(n : ℤ) := by
  have hspace : ∀ c ∈ '-' :: chars, isWhiteSpace c = false := by
    intro c hc
    rcases List.mem_cons.mp hc with rfl | hc
    · decide
    · exact h c hc
  have hchars : ("-" ++ String.ofList chars).toList = '-' :: chars := by
    simp
  unfold parseBigInt
  rw [hchars, trimmed_of_not_isWhiteSpace hspace]
  rfl

/-- A number that reads as a natural number is written with the digits of that one,
which is not much smaller. -/
theorem parseBigInt_numberText {n : ℤ} {m : ℕ} (h : parseBigInt (numberText n) = some (m : ℤ)) :
    numberText n = decimal m ∧ 0 ≤ n ∧ n ≤ 2 * m ∧ m < 10 ^ 21 := by
  rcases lt_trichotomy n 0 with hneg | rfl | hpos
  · have htext : numberText n = "-" ++ positiveText (-(n : ℚ)) := by
      unfold numberText
      rw [if_pos (Int.cast_lt_zero.mpr hneg)]
    rw [htext] at h
    rcases positiveText_cases (q := -(n : ℚ)) (by exact_mod_cast (by omega : 1 ≤ -n)) with
      ⟨k, hk, hlow, -⟩ | ⟨chars, hchars, hfraction⟩
    · have hkpos : 0 < k := by
        have : (0 : ℚ) < k := by
          have hn : (n : ℚ) < 0 := Int.cast_lt_zero.mpr hneg
          linarith
        exact_mod_cast this
      rw [hk, ← String.ofList_toList (s := decimal k), parseBigInt_neg fun c hc ↦
        isWhiteSpace_of_isDigit (isDigit_of_mem_decimal hc), ofDigits_decimal] at h
      have hvalue : -(k : ℤ) = m := Option.some.inj h
      omega
    · rw [hchars, parseBigInt_neg fun c ↦ hfraction.not_isWhiteSpace,
        ofDigits_eq_none hfraction.exists_le_digitValue] at h
      cases h
  · have htext : numberText ((0 : ℤ) : ℚ) = decimal 0 := rfl
    rw [htext, parseBigInt_decimal] at h
    obtain rfl : 0 = m := by exact_mod_cast Option.some.inj h
    exact ⟨htext, le_rfl, by norm_num, by norm_num⟩
  · have htext : numberText n = positiveText n := by
      unfold numberText
      rw [if_neg (by exact_mod_cast hpos.le.not_gt), if_neg (by exact_mod_cast hpos.ne')]
    rw [htext] at h ⊢
    rcases positiveText_cases (q := n) (by exact_mod_cast hpos) with
      ⟨k, hk, hlow, hhigh⟩ | ⟨chars, hchars, hfraction⟩
    · rw [hk, parseBigInt_decimal] at h
      obtain rfl : k = m := by exact_mod_cast Option.some.inj h
      exact ⟨hk, hpos.le, by exact_mod_cast hlow.le, hhigh⟩
    · rw [hchars, hfraction.parseBigInt_eq_none] at h
      cases h

namespace JsValue

mutual

/-- `String(value)`, `none` where it throws because a member hides `toString`. -/
def toText : JsValue → Option String
  | undefined => some "undefined"
  | null => some "null"
  | boolean b => some (if b then "true" else "false")
  | number q => some (numberText q)
  | string text => some text
  | array values => (elementTexts values).map (String.intercalate ",")
  | object members =>
      if (members.lookup "toString").isSome then none else some "[object Object]"

/-- The elements of an array, of which missing ones count as empty. -/
def elementTexts : List JsValue → Option (List String)
  | [] => some []
  | undefined :: values | null :: values => (elementTexts values).map ("" :: ·)
  | value :: values => do
      let text ← toText value
      let texts ← elementTexts values
      pure (text :: texts)

end

end JsValue

end MinaGuard
