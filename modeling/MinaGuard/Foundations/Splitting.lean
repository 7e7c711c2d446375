import Mathlib.Data.List.Basic

/-!
# Text with separators

Lists cut at a separating element.
-/

namespace Foundations

universe u

variable {A : Type u} {l l' r r' : List A} {a : A}

/-- The first separator is where the front ends. -/
theorem append_cons_inj (h : a ∉ l) (h' : a ∉ l') (heq : l ++ a :: r = l' ++ a :: r') :
    l = l' ∧ r = r' := by
  induction l generalizing l' with
  | nil =>
      cases l' with
      | nil => exact ⟨rfl, (List.cons.inj heq).2⟩
      | cons b l' => exact absurd (List.mem_cons.mpr (.inl (List.cons.inj heq).1)) h'
  | cons b l ih =>
      obtain ⟨hb, hl⟩ := not_or.mp (mt List.mem_cons.mpr h)
      cases l' with
      | nil => exact absurd (List.cons.inj heq).1.symm hb
      | cons b' l' =>
          obtain ⟨-, hl'⟩ := not_or.mp (mt List.mem_cons.mpr h')
          obtain ⟨rfl, htail⟩ := List.cons.inj heq
          obtain ⟨rfl, rfl⟩ := ih hl hl' htail
          exact ⟨rfl, rfl⟩

end Foundations
