import Mathlib.Data.List.Perm.Basic
import MinaGuard.Foundations.InsertionMap

/-!
# Pages of a sorted list

Pages of one size, one after the other, are a list again.  Sorting by a total
order has one result, and the first hit in a list that is sorted stably, latest
first, is what a scan for the latest hit ends with.
-/

namespace Foundations

universe u v

variable {A : Type u}

/-- The elements from `offset` on, `limit` of them. -/
def page (l : List A) (limit offset : ℕ) : List A := (l.drop offset).take limit

theorem flatMap_page (l : List A) (limit n : ℕ) :
    ((List.range n).flatMap fun i ↦ page l limit (i * limit)) = l.take (n * limit) := by
  induction n with
  | zero =>
      rw [Nat.zero_mul, List.take_zero]
      rfl
  | succ n ih =>
      rw [List.range_succ, List.flatMap_append, List.flatMap_singleton, ih, Nat.succ_mul,
        List.take_add]
      rfl

/-- Every element is on one of the pages. -/
theorem exists_mem_page {l : List A} {limit : ℕ} (hlimit : 0 < limit) {x : A} :
    (∃ i, x ∈ page l limit (i * limit)) ↔ x ∈ l := by
  constructor
  · rintro ⟨i, hi⟩
    exact List.mem_of_mem_drop (List.mem_of_mem_take hi)
  · intro hx
    have hall : l.take (l.length * limit) = l :=
      List.take_of_length_le (Nat.le_mul_of_pos_right _ hlimit)
    rw [← hall, ← flatMap_page] at hx
    obtain ⟨i, -, hi⟩ := List.mem_flatMap.mp hx
    exact ⟨i, hi⟩

theorem map_page {B : Type v} (f : A → B) (l : List A) (limit offset : ℕ) :
    (page l limit offset).map f = page (l.map f) limit offset := by
  unfold page
  rw [List.map_take, List.map_drop]

theorem page_sublist (l : List A) (limit offset : ℕ) : (page l limit offset).Sublist l :=
  (List.take_sublist _ _).trans (List.drop_sublist _ _)

section Sorted

variable {le : A → A → Bool} (trans : ∀ a b c, le a b = true → le b c = true → le a c = true)
  (total : ∀ a b, (le a b || le b a) = true)

include trans total in
/-- Elements in order are the result of sorting them. -/
theorem mergeSort_eq_of_perm {l target : List A}
    (antisymm : ∀ a ∈ target, ∀ b ∈ target, le a b = true → le b a = true → a = b)
    (hperm : l.Perm target) (hsorted : target.Pairwise fun a b ↦ le a b = true) :
    l.mergeSort le = target := by
  have hresult : (l.mergeSort le).Perm target := (List.mergeSort_perm l le).trans hperm
  refine hresult.eq_of_pairwise ?_ (List.pairwise_mergeSort trans total l) hsorted
  intro a b ha hb
  exact antisymm a (hresult.subset ha) b hb

include trans total in
/-- Sorting a part of a list, and a part of the sorted list. -/
theorem filter_mergeSort (p : A → Bool) (l : List A) :
    (l.mergeSort le).filter p = (l.filter p).mergeSort le := by
  induction l with
  | nil => simp
  | cons x l ih =>
      obtain ⟨front, back, hwith, hwithout, hfront⟩ := List.mergeSort_cons trans total x l
      rw [hwithout, List.filter_append] at ih
      rw [hwith, List.filter_append]
      by_cases hx : p x = true
      · obtain ⟨front', back', hwith', hwithout', hfront'⟩ :=
          List.mergeSort_cons trans total x (l.filter p)
        -- `x` goes where the elements before it end, in both lists
        have hcut {front back : List A} (hfront : ∀ b ∈ front, (!le x b) = true)
            (hback : ∀ b ∈ back, le x b = true) :
            (front ++ back).filter (fun b ↦ !le x b) = front ∧
              (front ++ back).filter (le x) = back := by
          have hfront' : ∀ b ∈ front, ¬le x b = true := fun b hb ↦ by simpa using hfront b hb
          have hback' : ∀ b ∈ back, ¬(!le x b) = true := fun b hb ↦ by simpa using hback b hb
          rw [List.filter_append, List.filter_append, List.filter_eq_self.mpr hfront,
            List.filter_eq_nil_iff.mpr hback', List.filter_eq_nil_iff.mpr hfront',
            List.filter_eq_self.mpr hback]
          exact ⟨List.append_nil _, List.nil_append _⟩
        have hafter {front back : List A} {l : List A}
            (h : (x :: l).mergeSort le = front ++ x :: back) : ∀ b ∈ back, le x b = true := by
          have hsorted := List.pairwise_mergeSort trans total (x :: l)
          rw [h] at hsorted
          exact (List.pairwise_cons.mp (List.pairwise_append.mp hsorted).2.1).1
        obtain ⟨hleft, hright⟩ := hcut hfront' (hafter hwith')
        obtain ⟨hleft', hright'⟩ := @hcut (front.filter p) (back.filter p)
          (fun b hb ↦ hfront b (List.mem_of_mem_filter hb))
          (fun b hb ↦ hafter hwith b (List.mem_of_mem_filter hb))
        rw [ih, hwithout'] at hleft' hright'
        rw [List.filter_cons_of_pos hx, List.filter_cons_of_pos hx, hwith', ← hleft', ← hright',
          hleft, hright]
      · rw [List.filter_cons_of_neg hx, List.filter_cons_of_neg hx]
        exact ih

/-- Of two elements, the one a stable sort puts first if the second came later. -/
def latest (le : A → A → Bool) : Option A → A → Option A
  | none, x => some x
  | some best, x => if le x best then some x else some best

include trans total in
/-- The first hit, latest first, is the last that a scan keeps. -/
theorem find?_mergeSort_reverse (p : A → Bool) (l : List A) :
    (l.reverse.mergeSort le).find? p = (l.filter p).foldl (latest le) none := by
  induction l using List.reverseRecOn with
  | nil => simp
  | append_singleton l x ih =>
      rw [List.reverse_append, List.reverse_singleton, List.singleton_append]
      obtain ⟨front, back, hwith, hwithout, hfront⟩ :=
        List.mergeSort_cons trans total x l.reverse
      rw [hwithout, List.find?_append] at ih
      rw [hwith, List.find?_append, List.filter_append]
      by_cases hx : p x = true
      · have hsingle : [x].filter p = [x] := List.filter_cons_of_pos hx
        rw [List.find?_cons_of_pos hx, hsingle, List.foldl_append, ← ih]
        cases hfind : front.find? p with
        | some best =>
            have hless := hfront best (List.mem_of_find?_eq_some hfind)
            simp only [Bool.not_eq_true'] at hless
            change some best = if le x best then some x else some best
            rw [hless]
            rfl
        | none =>
            rw [Option.none_or, Option.none_or]
            cases hback : back.find? p with
            | none => rfl
            | some best =>
                have hsorted := List.pairwise_mergeSort trans total (x :: l.reverse)
                rw [hwith] at hsorted
                have hle := (List.pairwise_cons.mp (List.pairwise_append.mp hsorted).2.1).1 best
                  (List.mem_of_find?_eq_some hback)
                change some x = if le x best then some x else some best
                rw [if_pos hle]
      · have hsingle : [x].filter p = [] := List.filter_cons_of_neg hx
        rw [List.find?_cons_of_neg hx, hsingle, List.append_nil]
        exact ih

end Sorted

end Foundations
