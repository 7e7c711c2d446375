import Mathlib.Data.List.GetD
import Mathlib.Order.Nat

/-!
# Heaps of mutable cells

Cells are allocated one after the other and never freed, so the address of a
cell is its place.  What existed before an allocation is not affected by writes
to what was allocated, and where each cell has one holder, what one of them
writes does not reach the others.
-/

namespace Foundations

universe u v

/-- The cells by address. -/
abbrev Heap (α : Type u) := List α

namespace Heap

variable {α : Type u} [Inhabited α] {h h₁ h₂ : Heap α} {i j : ℕ} {a : α}

def read (h : Heap α) (i : ℕ) : α := h.getD i default

theorem read_set_of_ne (hne : i ≠ j) : read (h.set i a) j = read h j := by
  unfold read
  rw [List.getD_eq_getElem?_getD, List.getD_eq_getElem?_getD, List.getElem?_set_ne hne]

theorem read_append_of_lt (cells : List α) (hi : i < h.length) : read (h ++ cells) i = read h i :=
  List.getD_append _ _ _ _ hi

theorem read_append_add (cells : List α) (i : ℕ) : read (h ++ cells) (h.length + i) =
    read cells i := by
  unfold read
  rw [List.getD_append_right _ _ _ _ (Nat.le_add_right _ _), Nat.add_sub_cancel_left]

/-- Cells were added; the others are as they were. -/
structure Extends (h h' : Heap α) : Prop where
  length_le : h.length ≤ h'.length
  read_eq : ∀ i < h.length, read h' i = read h i

theorem Extends.refl (h : Heap α) : Extends h h := ⟨le_rfl, fun _ _ ↦ rfl⟩

theorem Extends.trans (h₁₂ : Extends h h₁) (h₂₃ : Extends h₁ h₂) : Extends h h₂ where
  length_le := h₁₂.length_le.trans h₂₃.length_le
  read_eq i hi := (h₂₃.read_eq i (hi.trans_le h₁₂.length_le)).trans (h₁₂.read_eq i hi)

theorem Extends.append (h : Heap α) (cells : List α) : Extends h (h ++ cells) where
  length_le := by
    rw [List.length_append]
    exact Nat.le_add_right _ _
  read_eq _ hi := read_append_of_lt cells hi

/-- Writes to new cells go unnoticed. -/
theorem Extends.set (hext : Extends h h₁) (hi : h.length ≤ i) (a : α) :
    Extends h (h₁.set i a) where
  length_le := by
    rw [List.length_set]
    exact hext.length_le
  read_eq j hj := (read_set_of_ne (hj.trans_le hi).ne').trans (hext.read_eq j hj)

/-- Each cell has at most one holder. -/
structure Separated {ι : Type v} (h : Heap α) (holds : ι → ℕ → Prop) : Prop where
  lt : ∀ x i, holds x i → i < h.length
  apart : ∀ x y i, holds x i → holds y i → x = y

namespace Separated

variable {ι : Type v} {holds holds' : ι → ℕ → Prop} {x y : ι}

/-- New cells go to one holder. -/
theorem extend (hsep : Separated h holds) (hext : Extends h h₁) (x : ι)
    (hholds : ∀ y i, holds' y i → holds y i ∨ y = x ∧ h.length ≤ i ∧ i < h₁.length) :
    Separated h₁ holds' where
  lt y i hy := by
    rcases hholds y i hy with hold | ⟨-, -, hlt⟩
    · exact (hsep.lt y i hold).trans_le hext.length_le
    · exact hlt
  apart y z i hy hz := by
    rcases hholds y i hy with hold | ⟨rfl, hge, -⟩
    · rcases hholds z i hz with hold' | ⟨-, hge, -⟩
      · exact hsep.apart y z i hold hold'
      · exact absurd (hsep.lt y i hold) (not_lt.mpr hge)
    · rcases hholds z i hz with hold' | ⟨rfl, -, -⟩
      · exact absurd (hsep.lt z i hold') (not_lt.mpr hge)
      · rfl

omit [Inhabited α] in
theorem set (hsep : Separated h holds) (i : ℕ) (a : α) : Separated (h.set i a) holds where
  lt x j hx := by
    rw [List.length_set]
    exact hsep.lt x j hx
  apart := hsep.apart

theorem read_set (hsep : Separated h holds) (hx : holds x i) (hy : holds y j) (hne : x ≠ y)
    (a : α) : read (h.set i a) j = read h j := by
  apply read_set_of_ne
  rintro rfl
  exact hne (hsep.apart x y i hx hy)

end Separated

end Heap

end Foundations
