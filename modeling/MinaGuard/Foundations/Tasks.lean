import Mathlib.Data.List.Basic

/-!
# Tasks in the order of their start

A list that only grows at its end and whose elements change in place.  An element is
known by its position.
-/

namespace Foundations

universe u

variable {A : Type u} {l : List A} {a b c : A} {i n : ℕ} {p : A → Bool}

theorem getElem?_concat_iff :
    (l ++ [a])[n]? = some b ↔ l[n]? = some b ∨ n = l.length ∧ b = a := by
  rcases Nat.lt_trichotomy n l.length with hn | rfl | hn
  · simp [List.getElem?_append_left hn, Nat.ne_of_lt hn]
  · simp [eq_comm]
  · rw [List.getElem?_eq_none_iff.mpr (Nat.le_of_lt hn), List.getElem?_eq_none_iff.mpr]
    · simp [Nat.ne_of_gt hn]
    · rw [List.length_append]
      exact hn

theorem getElem?_set_iff (hn : l[n]? = some a) :
    (l.set n b)[i]? = some c ↔ i = n ∧ c = b ∨ i ≠ n ∧ l[i]? = some c := by
  by_cases hi : i = n
  · subst hi
    rw [List.getElem?_set_self (List.getElem?_eq_some_iff.mp hn).1]
    simp [eq_comm]
  · rw [List.getElem?_set_ne (Ne.symm hi)]
    simp [hi]

/-- The change of one task in a count. -/
theorem countP_set_add (hn : l[n]? = some a) :
    (l.set n b).countP p + (if p a then 1 else 0) = l.countP p + if p b then 1 else 0 := by
  obtain ⟨hlt, rfl⟩ := List.getElem?_eq_some_iff.mp hn
  have hle : (if p l[n] then 1 else 0) ≤ l.countP p := List.boole_getElem_le_countP hlt
  rw [List.countP_set hlt]
  omega

end Foundations
