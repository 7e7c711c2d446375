import Mathlib.Algebra.Order.Ring.Rat
import Mathlib.Tactic.IntervalCases
import MinaGuard.Foundations.InsertionMap
import MinaGuard.Indexer.Payload

/-!
# JavaScript values

What untrusted JSON may hold, and the few operations the clients use on it.
-/

namespace MinaGuard

open Foundations

/-- A value that `JSON.parse` may give, or `undefined`.  The members of an
object come in the order of `Object.entries`. -/
inductive JsValue where
  | undefined
  | null
  | boolean (b : Bool)
  | number (q : ℚ)
  | string (text : String)
  | array (values : List JsValue)
  | object (members : List (String × JsValue))

/-- What should be a JSON text. -/
inductive Serialized where
  /-- A string, and what `JSON.parse` makes of it, `none` where it throws. -/
  | text (parsed : Option JsValue)
  | other (value : JsValue)

namespace Serialized

/-- `JSON.stringify`. -/
def stringify (value : JsValue) : Serialized := .text (some value)

end Serialized

/-- The number of a key that is an array index. -/
def arrayIndex (key : String) : Option ℕ :=
  (ofDecimal key).filter fun n ↦ decimal n = key ∧ n < 2 ^ 32 - 1

/-- The members of an object in the order of `Object.entries`: array indices
first, by number, then the other keys as they were set. -/
def ownEntries {V : Type} (members : InsertionMap String V) : List (String × V) :=
  members.mergeSort fun a b ↦ (arrayIndex a.1).getD (2 ^ 32) ≤ (arrayIndex b.1).getD (2 ^ 32)

namespace JsValue

def isArray? : JsValue → Option (List JsValue)
  | array values => some values
  | _ => none

def isString? : JsValue → Option String
  | string text => some text
  | _ => none

def isNumber? : JsValue → Option ℚ
  | number q => some q
  | _ => none

/-- `value[key]` for the keys of this development.  The arrays of JavaScript
have methods `entries` and `keys`, which have no members themselves. -/
def property (value : JsValue) (key : String) : Except String JsValue :=
  match value with
  | undefined | null => .error "Cannot read properties"
  | object members => .ok ((members.lookup key).getD undefined)
  | array _ => .ok (if key = "entries" ∨ key = "keys" then object [] else undefined)
  | _ => .ok undefined

/-- `value?.[key]`. -/
def get (value : JsValue) (key : String) : JsValue :=
  match value.property key with
  | .ok member => member
  | .error _ => undefined

/-- `value ?? other`. -/
def orElse (value other : JsValue) : JsValue :=
  match value with
  | undefined | null => other
  | _ => value

def truthy : JsValue → Bool
  | undefined | null => false
  | boolean b => b
  | number q => q ≠ 0
  | string text => text ≠ ""
  | _ => true

/-- `===` on values of which one at least is neither an array nor an object. -/
def strictEq : JsValue → JsValue → Bool
  | undefined, undefined => true
  | null, null => true
  | boolean a, boolean b => a = b
  | number a, number b => a = b
  | string a, string b => a = b
  | _, _ => false

/-- `Object.entries`. -/
def entries : JsValue → Except String (List (String × JsValue))
  | undefined | null => .error "Cannot convert undefined or null to object"
  | object members => .ok members
  | array values => .ok (values.zipIdx.map fun x ↦ (decimal x.2, x.1))
  | string text =>
      .ok (text.toList.zipIdx.map fun x ↦ (decimal x.2, string (String.singleton x.1)))
  | _ => .ok []

/-- `Field(value)`. -/
def toFp : JsValue → Except String Fp
  | string text => parseField text
  | number q => if q.den = 1 then .ok (q.num : Fp) else .error "not an integer"
  | boolean b => .ok (toField b)
  | _ => .error "Cannot convert to a BigInt"

theorem toFp_natCast (n : ℕ) : (number (n : ℚ)).toFp = .ok (n : Fp) := by
  change (if (n : ℚ).den = 1 then Except.ok ((n : ℚ).num : Fp)
    else Except.error "not an integer") = _
  rw [if_pos (Rat.den_natCast n), Rat.num_natCast, Int.cast_natCast]

/-- `Number.isSafeInteger`. -/
def isSafeInteger : JsValue → Bool
  | number q => q.den = 1 ∧ q.num.natAbs ≤ maxSafeInteger
  | _ => false

end JsValue

/-- `/^(0|[1-9][0-9]*)$/`. -/
def isCanonicalNumber (text : String) : Bool :=
  match text.toList with
  | [] => false
  | c :: rest => if c = '0' then rest = [] else c.isDigit ∧ rest.all Char.isDigit

theorem toDigits_head {n : ℕ} (hn : 0 < n) :
    ∃ c rest, Nat.toDigits 10 n = c :: rest ∧ c ≠ '0' := by
  induction n using Nat.strong_induction_on with
  | _ n ih =>
      by_cases hsmall : n < 10
      · refine ⟨n.digitChar, [], Nat.toDigits_of_lt_base hsmall, ?_⟩
        interval_cases n <;> decide
      · obtain ⟨c, rest, hdigits, hc⟩ := ih (n / 10) (by omega) (by omega)
        rw [Nat.toDigits_of_base_le (by decide) (not_lt.mp hsmall), hdigits]
        exact ⟨c, _, List.cons_append, hc⟩

theorem isCanonicalNumber_decimal (n : ℕ) : isCanonicalNumber (decimal n) = true := by
  have hdigit : ∀ c ∈ (decimal n).toList, c.isDigit = true := fun _ ↦ isDigit_of_mem_decimal
  have hdigits : (decimal n).toList = Nat.toDigits 10 n := Nat.toList_repr
  rcases Nat.eq_zero_or_pos n with rfl | hn
  · decide
  · obtain ⟨c, rest, htext, hc⟩ := toDigits_head hn
    rw [hdigits, htext] at hdigit
    unfold isCanonicalNumber
    rw [hdigits, htext]
    dsimp only
    rw [if_neg hc, decide_eq_true_eq]
    exact ⟨hdigit c List.mem_cons_self,
      List.all_eq_true.mpr fun d hd ↦ hdigit d (List.mem_cons_of_mem _ hd)⟩

theorem digitChar_of_isDigit {c : Char} (hc : c.isDigit = true) :
    c.toNat - 48 < 10 ∧ (c.toNat - 48).digitChar = c := by
  obtain ⟨hlow, hhigh⟩ : 48 ≤ c.toNat ∧ c.toNat ≤ 57 := by
    simpa [Char.isDigit, UInt32.le_iff_toNat_le] using hc
  refine ⟨by omega, ?_⟩
  rw [← Char.ofNat_toNat c]
  generalize c.toNat = n at hlow hhigh
  interval_cases n <;> rfl

/-- Digits without a leading zero are those of their value. -/
theorem toDigits_ofDigitChars {c : Char} {rest : List Char} (hc : c ≠ '0')
    (hdigits : ∀ d ∈ c :: rest, d.isDigit = true) :
    Nat.toDigits 10 (Nat.ofDigitChars 10 (c :: rest) 0) = c :: rest := by
  induction rest using List.reverseRecOn with
  | nil =>
      obtain ⟨hlt, hchar⟩ := digitChar_of_isDigit (hdigits c List.mem_cons_self)
      rw [Nat.ofDigitChars_cons, Nat.ofDigitChars_nil, Nat.mul_zero, Nat.zero_add]
      change Nat.toDigits 10 (c.toNat - 48) = [c]
      rw [Nat.toDigits_of_lt_base hlt, hchar]
  | append_singleton rest d ih =>
      have hprefix : ∀ e ∈ c :: rest, e.isDigit = true := by
        intro e he
        refine hdigits e ?_
        rw [← List.cons_append]
        exact List.mem_append_left _ he
      obtain ⟨hlt, hchar⟩ := digitChar_of_isDigit (hdigits d (by simp))
      have hvalue := ih hprefix
      have hpos : 0 < Nat.ofDigitChars 10 (c :: rest) 0 := by
        rw [Nat.pos_iff_ne_zero]
        intro hzero
        rw [hzero, Nat.toDigits_zero] at hvalue
        exact hc (List.cons.inj hvalue).1.symm
      rw [← List.cons_append, Nat.ofDigitChars_append, Nat.ofDigitChars_cons,
        Nat.ofDigitChars_nil]
      change Nat.toDigits 10 (10 * Nat.ofDigitChars 10 (c :: rest) 0 + (d.toNat - 48)) = _
      rw [← Nat.toDigits_append_toDigits (by decide) hpos hlt, hvalue,
        Nat.toDigits_of_lt_base hlt, hchar]

theorem exists_decimal_of_isCanonicalNumber {text : String}
    (h : isCanonicalNumber text = true) : ∃ n, text = decimal n := by
  unfold isCanonicalNumber at h
  split at h
  · cases h
  · next c rest htext =>
      by_cases hc : c = '0'
      · rw [if_pos hc, decide_eq_true_eq] at h
        refine ⟨0, String.toList_inj.mp ?_⟩
        rw [htext, hc, h]
        rfl
      · rw [if_neg hc, decide_eq_true_eq] at h
        have hdigits : ∀ d ∈ c :: rest, d.isDigit = true := by
          intro d hd
          rcases List.mem_cons.mp hd with rfl | hd
          · exact h.1
          · exact List.all_eq_true.mp h.2 d hd
        refine ⟨Nat.ofDigitChars 10 (c :: rest) 0, String.toList_inj.mp ?_⟩
        have hrepr : (decimal (Nat.ofDigitChars 10 (c :: rest) 0)).toList =
            Nat.toDigits 10 (Nat.ofDigitChars 10 (c :: rest) 0) := Nat.toList_repr
        rw [htext, hrepr, toDigits_ofDigitChars hc hdigits]

/-- `JSON.parse` of a text. -/
def parseJson : Serialized → Except String JsValue
  | .text (some value) => .ok value
  | .text none => .error "SyntaxError"
  | .other _ => .error "SyntaxError"

end MinaGuard
