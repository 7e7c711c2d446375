import Mathlib.Order.Lattice
import Mathlib.Data.List.Nodup

/-!
# Keyset pages

A page of the elements with the largest keys, latest first.  What is not on it has a
smaller key than its last element, so that key is where the next page starts.
-/

namespace Foundations

universe u v

variable {A : Type u} {κ : Type v} [LinearOrder κ] (key : A → κ) {l : List A} {n : ℕ} {x : A}

/-- The `n` elements with the largest keys. -/
def keysetPage (l : List A) (n : ℕ) : List A :=
  (l.mergeSort fun a b ↦ key b ≤ key a).take n

theorem pairwise_mergeSort_key (l : List A) :
    (l.mergeSort fun a b ↦ key b ≤ key a).Pairwise fun a b ↦ key b ≤ key a := by
  refine List.Pairwise.imp of_decide_eq_true ?_
  apply List.pairwise_mergeSort
  · intro a b c hab hbc
    exact decide_eq_true (le_trans (of_decide_eq_true hbc) (of_decide_eq_true hab))
  · intro a b
    simpa using le_total (key b) (key a)

theorem mem_of_mem_keysetPage (h : x ∈ keysetPage key l n) : x ∈ l :=
  (List.mergeSort_perm l _).subset (List.mem_of_mem_take h)

theorem length_keysetPage_le (l : List A) (n : ℕ) : (keysetPage key l n).length ≤ n :=
  List.length_take_le _ _

/-- A short page has everything. -/
theorem mem_keysetPage_of_length_lt (hshort : (keysetPage key l n).length < n) (hx : x ∈ l) :
    x ∈ keysetPage key l n := by
  unfold keysetPage at hshort ⊢
  rw [List.length_take] at hshort
  rw [List.take_of_length_le (by omega)]
  exact (List.mergeSort_perm l _).mem_iff.mpr hx

theorem nodup_map_keysetPage {B : Type*} (f : A → B) (hnodup : (l.map f).Nodup) :
    ((keysetPage key l n).map f).Nodup := by
  have hsorted : ((l.mergeSort fun a b ↦ key b ≤ key a).map f).Nodup :=
    ((List.mergeSort_perm l _).map f).nodup_iff.mpr hnodup
  exact hsorted.sublist ((List.take_sublist _ _).map f)

variable {last : A}

theorem le_of_mem_keysetPage (hlast : (keysetPage key l n).getLast? = some last)
    (hx : x ∈ keysetPage key l n) : key last ≤ key x := by
  obtain ⟨front, hfront⟩ := List.getLast?_eq_some_iff.mp hlast
  have hsorted := (pairwise_mergeSort_key key l).sublist (List.take_sublist n _)
  change (keysetPage key l n).Pairwise _ at hsorted
  rw [hfront] at hsorted hx
  rcases List.mem_append.mp hx with hx | hx
  · exact (List.pairwise_append.mp hsorted).2.2 x hx last (List.mem_singleton_self _)
  · rw [List.mem_singleton.mp hx]

/-- What is not on the page comes after its last element. -/
theorem lt_of_notMem_keysetPage (hnodup : (l.map key).Nodup)
    (hlast : (keysetPage key l n).getLast? = some last) (hx : x ∈ l)
    (hnot : x ∉ keysetPage key l n) : key x < key last := by
  have hmem : last ∈ keysetPage key l n := List.mem_of_getLast? hlast
  have hsorted := pairwise_mergeSort_key key l
  rw [← List.take_append_drop n (l.mergeSort _)] at hsorted
  have hback : x ∈ (l.mergeSort fun a b ↦ key b ≤ key a).drop n := by
    have hall : x ∈ l.mergeSort fun a b ↦ key b ≤ key a :=
      (List.mergeSort_perm l _).mem_iff.mpr hx
    rw [← List.take_append_drop n (l.mergeSort _)] at hall
    exact (List.mem_append.mp hall).resolve_left hnot
  refine lt_of_le_of_ne ((List.pairwise_append.mp hsorted).2.2 last hmem x hback) fun heq ↦ ?_
  have hsame := List.inj_on_of_nodup_map hnodup hx (mem_of_mem_keysetPage key hmem) heq
  exact hnot (hsame ▸ hmem)

end Foundations
