import Mathlib.Data.List.Perm.Basic
import MinaGuard.Foundations.InsertionMap

/-!
# Stable sorting by a number

A stable sort concatenates buckets, one for each value of the key, each in the
order of the input.  So it is determined by the buckets, leaves alone every
part of the list that is sorted already, and sorts the parts of a list one by
one where the parts are in order.
-/

namespace Foundations

universe u

section Buckets

variable {A : Type u} (key : A → ℕ) {l l' : List A} {n : ℕ}

/-- The elements with key below `n`, bucket by bucket. -/
def buckets (n : ℕ) (l : List A) : List A :=
  (List.range n).flatMap fun k ↦ l.filter fun x ↦ key x = k

theorem buckets_succ (n : ℕ) (l : List A) :
    buckets key (n + 1) l = buckets key n l ++ l.filter fun x ↦ key x = n := by
  unfold buckets
  rw [List.range_succ, List.flatMap_append, List.flatMap_singleton]

theorem buckets_congr (h : ∀ k, (l.filter fun x ↦ key x = k) = l'.filter fun x ↦ key x = k) :
    buckets key n l = buckets key n l' := by
  unfold buckets
  simp only [h]

theorem filter_buckets (p : A → Bool) :
    (buckets key n l).filter p = buckets key n (l.filter p) := by
  unfold buckets
  rw [List.filter_flatMap]
  congr 1
  funext k
  rw [List.filter_filter, List.filter_filter]
  simp only [Bool.and_comm]

/-- Larger keys do not matter. -/
theorem buckets_filter_lt : buckets key n (l.filter fun x ↦ key x < n) = buckets key n l := by
  unfold buckets
  rw [List.flatMap_def, List.flatMap_def]
  congr 1
  apply List.map_congr_left
  intro k hk
  have hlt := List.mem_range.mp hk
  rw [List.filter_filter]
  apply List.filter_congr
  intro x _
  rw [← Bool.decide_and, decide_eq_decide]
  constructor
  · exact And.left
  · rintro rfl
    exact ⟨rfl, hlt⟩

theorem filter_eq_of_lt (h : ∀ x ∈ l, key x < n + 1) :
    (l.filter fun x ↦ key x = n) = l.filter fun x ↦ !decide (key x < n) := by
  apply List.filter_congr
  intro x hx
  have hlt := h x hx
  rw [← decide_not, decide_eq_decide]
  omega

theorem buckets_perm (h : ∀ x ∈ l, key x < n) : (buckets key n l).Perm l := by
  induction n generalizing l with
  | zero =>
      obtain rfl := List.eq_nil_iff_forall_not_mem.mpr fun x hx ↦ absurd (h x hx) (by omega)
      exact List.Perm.refl _
  | succ n ih =>
      rw [buckets_succ, filter_eq_of_lt key h, ← buckets_filter_lt]
      have hbelow := ih (l := l.filter fun x ↦ key x < n) fun x hx ↦
        of_decide_eq_true (List.mem_filter.mp hx).2
      exact (hbelow.append_right _).trans (List.filter_append_perm _ l)

theorem buckets_eq_self (hsorted : l.Pairwise fun a b ↦ key a ≤ key b)
    (h : ∀ x ∈ l, key x < n) : buckets key n l = l := by
  induction n generalizing l with
  | zero =>
      obtain rfl := List.eq_nil_iff_forall_not_mem.mpr fun x hx ↦ absurd (h x hx) (by omega)
      rfl
  | succ n ih =>
      have hbelow := ih (l := l.filter fun x ↦ key x < n) (hsorted.filter _) fun x hx ↦
        of_decide_eq_true (List.mem_filter.mp hx).2
      rw [buckets_succ, filter_eq_of_lt key h, ← buckets_filter_lt, hbelow]
      apply filter_append_filter_not
      refine hsorted.imp fun hle hb ↦ ?_
      exact decide_eq_true (Nat.lt_of_le_of_lt hle (of_decide_eq_true hb))

theorem pairwise_buckets {R : A → A → Prop} (hbelow : ∀ a b, key a < key b → R a b)
    (hstable : ∀ k, (l.filter fun x ↦ key x = k).Pairwise R) :
    (buckets key n l).Pairwise R := by
  induction n with
  | zero => exact List.Pairwise.nil
  | succ n ih =>
      rw [buckets_succ]
      refine List.pairwise_append.mpr ⟨ih, hstable n, fun a ha b hb ↦ hbelow a b ?_⟩
      obtain ⟨k, hk, hak⟩ := List.mem_flatMap.mp ha
      have hka := of_decide_eq_true (List.mem_filter.mp hak).2
      have hkb := of_decide_eq_true (List.mem_filter.mp hb).2
      rw [hka, hkb]
      exact List.mem_range.mp hk

/-- The part of the list that satisfies `p` keeps its order if it is sorted. -/
theorem filter_buckets_of_sorted {p : A → Bool}
    (hsorted : (l.filter p).Pairwise fun a b ↦ key a ≤ key b) (h : ∀ x ∈ l, key x < n) :
    (buckets key n l).filter p = l.filter p := by
  rw [filter_buckets]
  exact buckets_eq_self key hsorted fun x hx ↦ h x (List.mem_filter.mp hx).1

/-- A sorted list with the same buckets is the result. -/
theorem buckets_eq_of_sorted (hsorted : l'.Pairwise fun a b ↦ key a ≤ key b)
    (hbuckets : ∀ k, (l.filter fun x ↦ key x = k) = l'.filter fun x ↦ key x = k)
    (h : ∀ x ∈ l', key x < n) : buckets key n l = l' := by
  rw [buckets_congr key hbuckets]
  exact buckets_eq_self key hsorted h

/-- A bucket of a bucket is the whole one or empty. -/
theorem filter_filter_key (k k' : ℕ) :
    ((l.filter fun x ↦ key x = k').filter fun x ↦ key x = k) =
      if k' = k then l.filter fun x ↦ key x = k else [] := by
  rw [List.filter_filter]
  split
  next heq => simp [heq]
  next hne =>
    refine List.filter_eq_nil_iff.mpr fun x _ hboth ↦ ?_
    simp only [Bool.and_eq_true, decide_eq_true_eq] at hboth
    exact hne (hboth.2.symm.trans hboth.1)

/-- Only the keys that occur need a bucket. -/
theorem buckets_eq_flatMap {keys : List ℕ} (hkeys : keys.Pairwise fun k k' ↦ k < k')
    (h : ∀ x ∈ l, key x ∈ keys) (hn : ∀ k ∈ keys, k < n) :
    buckets key n l = keys.flatMap fun k ↦ l.filter fun x ↦ key x = k := by
  have hkey {k : ℕ} {x : A} (hx : x ∈ l.filter fun x ↦ key x = k) : key x = k :=
    of_decide_eq_true (List.mem_filter.mp hx).2
  refine buckets_eq_of_sorted key ?_ (fun k ↦ ?_) fun x hx ↦ ?_
  · refine List.pairwise_flatMap.mpr ⟨fun k _ ↦ ?_, hkeys.imp fun {k k'} hlt x hx y hy ↦ ?_⟩
    · exact List.pairwise_of_forall_mem_list fun x hx y hy ↦
        Nat.le_of_eq ((hkey hx).trans (hkey hy).symm)
    · rw [hkey hx, hkey hy]
      exact Nat.le_of_lt hlt
  · rw [List.filter_flatMap]
    simp only [filter_filter_key]
    by_cases hk : k ∈ keys
    · obtain ⟨front, back, rfl⟩ := List.append_of_mem hk
      have hparts := List.pairwise_append.mp hkeys
      have hfront : ∀ k' ∈ front, k' ≠ k := fun k' hk' ↦
        Nat.ne_of_lt (hparts.2.2 k' hk' k List.mem_cons_self)
      have hback : ∀ k' ∈ back, k' ≠ k := fun k' hk' ↦
        Nat.ne_of_gt ((List.pairwise_cons.mp hparts.2.1).1 k' hk')
      rw [List.flatMap_append, List.flatMap_cons, if_pos rfl,
        List.flatMap_eq_nil_iff.mpr fun k' hk' ↦ if_neg (hfront k' hk'),
        List.flatMap_eq_nil_iff.mpr fun k' hk' ↦ if_neg (hback k' hk'),
        List.nil_append, List.append_nil]
    · have hnone : ∀ k' ∈ keys, k' ≠ k := fun k' hk' heq ↦ hk (heq ▸ hk')
      rw [List.flatMap_eq_nil_iff.mpr fun k' hk' ↦ if_neg (hnone k' hk')]
      exact List.filter_eq_nil_iff.mpr fun x hx heq ↦ hk (of_decide_eq_true heq ▸ h x hx)
  · obtain ⟨k, hk, hx⟩ := List.mem_flatMap.mp hx
    rw [hkey hx]
    exact hn k hk

theorem pairwise_le_buckets : (buckets key n l).Pairwise fun a b ↦ key a ≤ key b := by
  refine pairwise_buckets key (fun _ _ ↦ Nat.le_of_lt) fun k ↦ ?_
  refine List.pairwise_of_forall_mem_list fun a ha b hb ↦ ?_
  have hka := of_decide_eq_true (List.mem_filter.mp ha).2
  have hkb := of_decide_eq_true (List.mem_filter.mp hb).2
  exact Nat.le_of_eq (hka.trans hkb.symm)

end Buckets

section StableSort

variable {A : Type u} (key : A → ℕ) {le : A × ℕ → A × ℕ → Bool} {l l' : List A}

/-- A sort that compares keys, and then places in the list, concatenates buckets. -/
theorem mergeSort_zipIdx_eq_buckets
    (hle : ∀ a b, le a b = true ↔ key a.1 < key b.1 ∨ key a.1 = key b.1 ∧ a.2 ≤ b.2) {n : ℕ}
    (h : ∀ x ∈ l, key x < n) : (l.zipIdx.mergeSort le).map Prod.fst = buckets key n l := by
  have hplaces : l.zipIdx.Pairwise fun a b ↦ a.2 < b.2 := by
    have hsnd : (l.zipIdx.map Prod.snd).Pairwise (· < ·) := by
      rw [List.zipIdx_map_snd]
      exact List.pairwise_lt_range'
    exact List.pairwise_map.mp hsnd
  have hkeys : ∀ x ∈ l.zipIdx, key x.1 < n := fun x hx ↦ h x.1 (List.fst_mem_of_mem_zipIdx hx)
  have htarget : (l.zipIdx.mergeSort le) = buckets (fun x : A × ℕ ↦ key x.1) n l.zipIdx := by
    have hperm := (List.mergeSort_perm l.zipIdx le).trans
      (buckets_perm (fun x : A × ℕ ↦ key x.1) hkeys).symm
    refine @List.Perm.eq_of_pairwise _ (fun a b ↦ le a b = true) _ _ ?_ ?_ ?_ hperm
    · intro a b ha hb hab hba
      have hpa := (List.mergeSort_perm l.zipIdx le).subset ha
      have hpb := (buckets_perm (fun x : A × ℕ ↦ key x.1) hkeys).subset hb
      apply eq_of_key_eq Prod.snd hplaces hpa hpb
      have hab := (hle a b).mp hab
      have hba := (hle b a).mp hba
      omega
    · apply List.pairwise_mergeSort
      · intro a b c hab hbc
        have hab := (hle a b).mp hab
        have hbc := (hle b c).mp hbc
        refine (hle a c).mpr ?_
        omega
      · intro a b
        rw [Bool.or_eq_true, hle, hle]
        omega
    · apply pairwise_buckets
      · exact fun a b hab ↦ (hle a b).mpr (Or.inl hab)
      · intro k
        have hbucket := hplaces.filter fun x ↦ decide (key x.1 = k)
        refine List.Pairwise.imp_of_mem ?_ hbucket
        intro a b ha hb hlt
        have hka := of_decide_eq_true (List.mem_filter.mp ha).2
        have hkb := of_decide_eq_true (List.mem_filter.mp hb).2
        exact (hle a b).mpr (Or.inr ⟨hka.trans hkb.symm, Nat.le_of_lt hlt⟩)
  rw [htarget]
  unfold buckets
  rw [List.map_flatMap]
  congr 1
  funext k
  conv_rhs => rw [← List.zipIdx_map_fst 0 l, List.filter_map]
  rfl

end StableSort

end Foundations
