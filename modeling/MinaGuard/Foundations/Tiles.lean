import Mathlib.Order.CompletePartialOrder
import Mathlib.Order.Interval.Set.Basic
import Mathlib.Order.Interval.Set.Disjoint
import Mathlib.Data.List.Count

/-!
# Ranges that tile

A list of half-open ranges over a linear order tiles from `lo` to `hi` when
the ranges follow one another and none is empty.  Then every point between
the ends lies in exactly one of them, and no other point in any.
-/

namespace Foundations

universe u

variable {α : Type u} [LinearOrder α]

/-- The ranges lead from `lo` to `hi` without a gap, and none is empty. -/
inductive Tiles : α → α → List (α × α) → Prop where
  | nil (lo : α) : Tiles lo lo []
  | cons {lo mid hi : α} {ranges : List (α × α)} (lt : lo < mid) (rest : Tiles mid hi ranges) :
      Tiles lo hi ((lo, mid) :: ranges)

namespace Tiles

variable {lo mid hi x : α} {r : α × α} {ranges more : List (α × α)}

theorem le (h : Tiles lo hi ranges) : lo ≤ hi := by
  induction h with
  | nil => exact le_rfl
  | cons hlt _ ih => exact hlt.le.trans ih

theorem append (h : Tiles lo mid ranges) (h' : Tiles mid hi more) :
    Tiles lo hi (ranges ++ more) := by
  induction h with
  | nil => exact h'
  | cons hlt _ ih => exact .cons hlt (ih h')

theorem bounds (h : Tiles lo hi ranges) (hr : r ∈ ranges) : lo ≤ r.1 ∧ r.1 < r.2 ∧ r.2 ≤ hi := by
  induction h with
  | nil => cases hr
  | cons hlt hrest ih =>
      rcases List.mem_cons.mp hr with rfl | hr
      · exact ⟨le_rfl, hlt, hrest.le⟩
      · obtain ⟨hlo, hne, hhi⟩ := ih hr
        exact ⟨hlt.le.trans hlo, hne, hhi⟩

/-- Each range begins where the one before it ends. -/
theorem isChain (h : Tiles lo hi ranges) : ranges.IsChain fun a b ↦ a.2 = b.1 := by
  induction h with
  | nil => exact .nil
  | cons _ hrest ih =>
      cases hrest with
      | nil => exact .singleton _
      | cons => exact .cons_cons rfl ih

theorem pairwise_disjoint (h : Tiles lo hi ranges) :
    ranges.Pairwise fun a b ↦ Disjoint (Set.Ico a.1 a.2) (Set.Ico b.1 b.2) := by
  induction h with
  | nil => exact .nil
  | cons _ hrest ih =>
      refine .cons (fun r hr ↦ ?_) ih
      rw [Set.Ico_disjoint_Ico]
      exact (min_le_left _ _).trans ((hrest.bounds hr).1.trans (le_max_right _ _))

/-- A point between the ends lies in one range, any other point in none. -/
theorem countP_mem (h : Tiles lo hi ranges) :
    ranges.countP (fun r ↦ r.1 ≤ x ∧ x < r.2) = if lo ≤ x ∧ x < hi then 1 else 0 := by
  induction h with
  | nil lo => rw [List.countP_nil, if_neg fun h ↦ h.1.not_gt h.2]
  | @cons lo mid hi ranges hlt hrest ih =>
      rw [List.countP_cons, ih]
      have hle := hrest.le
      by_cases hmid : x < mid
      · have hhi : x < hi := hmid.trans_le hle
        by_cases hlo : lo ≤ x <;> simp [hmid, hhi, hlo]
      · have hmid' : mid ≤ x := not_lt.mp hmid
        have hlo : lo ≤ x := hlt.le.trans hmid'
        simp [hmid, hmid', hlo]

end Tiles

end Foundations
