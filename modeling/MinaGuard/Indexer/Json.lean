import Mathlib.Tactic.IntervalCases
import MinaGuard.Indexer.Payload

/-!
# JSON texts

`JSON.stringify` on payloads.  A quoted string can be told from what follows
it, so two payloads with the same keys and string values have the same text
only if they are the same.
-/

namespace MinaGuard

namespace Json

def quote : Char := Char.ofNat 34

def backslash : Char := Char.ofNat 92

/-- A character inside quotes.  Control characters without a short form are
written by their code. -/
def escape (c : Char) : List Char :=
  if c = quote ∨ c = backslash then [backslash, c]
  else if c.toNat = 8 then [backslash, 'b']
  else if c.toNat = 9 then [backslash, 't']
  else if c.toNat = 10 then [backslash, 'n']
  else if c.toNat = 12 then [backslash, 'f']
  else if c.toNat = 13 then [backslash, 'r']
  else if c.toNat < 32 then
    [backslash, 'u', '0', '0', Nat.digitChar (c.toNat / 16), Nat.digitChar (c.toNat % 16)]
  else [c]

/-- A quoted string. -/
def quoted (text : List Char) : List Char := quote :: text.flatMap escape ++ [quote]

/-- The value of a lower-case hexadecimal digit. -/
def hexValue (c : Char) : ℕ := if c.isDigit then c.toNat - 48 else c.toNat - 87

/-- The character a backslash and `c` stand for. -/
def shortEscape (c : Char) : Char :=
  if c = 'b' then Char.ofNat 8
  else if c = 't' then Char.ofNat 9
  else if c = 'n' then Char.ofNat 10
  else if c = 'f' then Char.ofNat 12
  else if c = 'r' then Char.ofNat 13
  else c

/-- The first character a text inside quotes stands for, and the rest. -/
def unescape : List Char → Option (Char × List Char)
  | [] => none
  | c :: rest =>
      if c ≠ backslash then some (c, rest)
      else
        match rest with
        | 'u' :: '0' :: '0' :: a :: b :: rest =>
            some (Char.ofNat (16 * hexValue a + hexValue b), rest)
        | d :: rest => some (shortEscape d, rest)
        | [] => none

theorem unescape_control (n : ℕ) (hn : n < 32) (rest : List Char) :
    unescape (escape (Char.ofNat n) ++ rest) = some (Char.ofNat n, rest) := by
  interval_cases n <;> rfl

theorem unescape_escape (c : Char) (rest : List Char) :
    unescape (escape c ++ rest) = some (c, rest) := by
  by_cases hc : c.toNat < 32
  · rw [← Char.ofNat_toNat c]
    exact unescape_control _ hc rest
  · by_cases hspecial : c = quote ∨ c = backslash
    · rcases hspecial with rfl | rfl <;> rfl
    · have hescape : escape c = [c] := by
        unfold escape
        rw [if_neg hspecial, if_neg (by omega), if_neg (by omega), if_neg (by omega),
          if_neg (by omega), if_neg (by omega), if_neg hc]
      rw [hescape, List.singleton_append]
      exact if_pos (not_or.mp hspecial).2

theorem escape_append_inj {c c' : Char} {rest rest' : List Char}
    (h : escape c ++ rest = escape c' ++ rest') : c = c' ∧ rest = rest' := by
  have heq := congrArg unescape h
  rw [unescape_escape, unescape_escape] at heq
  simpa using heq

/-- No escaped character starts like the closing quote. -/
theorem escape_append_ne_quote {c : Char} {rest rest' : List Char} :
    escape c ++ rest ≠ quote :: rest' := by
  intro h
  have heq := congrArg unescape h
  have hquote : unescape (quote :: rest') = some (quote, rest') := rfl
  rw [unescape_escape, hquote, Option.some.injEq, Prod.mk.injEq] at heq
  obtain ⟨rfl, rfl⟩ := heq
  have hlength := congrArg List.length h
  rw [List.length_append] at hlength
  exact absurd hlength (by simp [escape]; omega)

theorem escaped_append_inj {text text' rest rest' : List Char}
    (h : text.flatMap escape ++ quote :: rest = text'.flatMap escape ++ quote :: rest') :
    text = text' ∧ rest = rest' := by
  induction text generalizing text' with
  | nil =>
      cases text' with
      | nil => exact ⟨rfl, (List.cons.inj h).2⟩
      | cons c' text' =>
          rw [List.flatMap_cons, List.append_assoc] at h
          exact absurd h.symm escape_append_ne_quote
  | cons c text ih =>
      cases text' with
      | nil =>
          rw [List.flatMap_cons, List.append_assoc] at h
          exact absurd h escape_append_ne_quote
      | cons c' text' =>
          simp only [List.flatMap_cons, List.append_assoc] at h
          obtain ⟨rfl, htail⟩ := escape_append_inj h
          obtain ⟨rfl, hrest⟩ := ih htail
          exact ⟨rfl, hrest⟩

theorem quoted_append_inj {text text' rest rest' : List Char}
    (h : quoted text ++ rest = quoted text' ++ rest') : text = text' ∧ rest = rest' := by
  unfold quoted at h
  simp only [List.cons_append, List.append_assoc, List.nil_append, List.cons.injEq,
    true_and] at h
  exact escaped_append_inj h

end Json

open Json

def JsonValue.chars : JsonValue → List Char
  | .null => "null".toList
  | .boolean b => (if b then "true" else "false").toList
  | .number n => (decimal n).toList
  | .string text => quoted text.toList

/-- The members of an object, and what follows the last. -/
def Payload.members : Payload → List Char
  | [] => ['}']
  | [x] => quoted x.1.toList ++ ':' :: x.2.chars ++ ['}']
  | x :: y :: rest =>
      quoted x.1.toList ++ ':' :: x.2.chars ++ ',' :: Payload.members (y :: rest)

/-- `JSON.stringify(payload)`. -/
def Payload.stringify (payload : Payload) : String :=
  String.ofList ('{' :: payload.members)

theorem members_inj {values values' : List String} (keys : List String)
    (hlength : values.length = keys.length) (hlength' : values'.length = keys.length)
    (h : Payload.members (keys.zip (values.map JsonValue.string)) =
      Payload.members (keys.zip (values'.map JsonValue.string))) :
    values = values' := by
  induction keys generalizing values values' with
  | nil =>
      rw [List.length_eq_zero_iff.mp hlength, List.length_eq_zero_iff.mp hlength']
  | cons key keys ih =>
      obtain ⟨value, values, rfl⟩ := List.exists_cons_of_length_eq_add_one hlength
      obtain ⟨value', values', rfl⟩ := List.exists_cons_of_length_eq_add_one hlength'
      have hlen : values.length = keys.length := Nat.succ_injective hlength
      have hlen' : values'.length = keys.length := Nat.succ_injective hlength'
      cases keys with
      | nil =>
          simp only [List.map_cons, List.zip_cons_cons, List.zip_nil_left, Payload.members,
            JsonValue.chars, List.append_assoc, List.cons_append, List.append_cancel_left_eq,
            List.cons.injEq, true_and] at h
          obtain ⟨hvalue, -⟩ := quoted_append_inj h
          rw [List.length_eq_zero_iff.mp hlen, List.length_eq_zero_iff.mp hlen',
            String.toList_inj.mp hvalue]
      | cons key' keys =>
          obtain ⟨v, vs, rfl⟩ := List.exists_cons_of_length_eq_add_one hlen
          obtain ⟨v', vs', rfl⟩ := List.exists_cons_of_length_eq_add_one hlen'
          simp only [List.map_cons, List.zip_cons_cons, Payload.members, JsonValue.chars,
            List.append_assoc, List.cons_append, List.append_cancel_left_eq,
            List.cons.injEq, true_and] at h
          obtain ⟨hvalue, hrest⟩ := quoted_append_inj h
          have htail := ih hlen hlen' (List.cons.inj hrest).2
          rw [String.toList_inj.mp hvalue, htail]

end MinaGuard
