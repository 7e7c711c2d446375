import Mathlib.Order.Lattice
import MinaGuard.Foundations.Keyset
import MinaGuard.Foundations.Pages

/-!
# Pages of orders that differ in ties

Every page is cut from an order of its own.  The orders agree on the keys, so a place has the
same key in all of them, and what is in front of a place can only differ in elements with the
key of that place.
-/

namespace Foundations

universe u v w

section Orders

variable {A : Type u} {B : Type v} {κ : Type w} [LinearOrder κ] (key : A → κ) (f : A → B)

/-- An order of the rows by key, the largest first. -/
structure SortedBy (rows order : List A) : Prop where
  perm : order.Perm rows
  sorted : order.Pairwise fun a b ↦ key b ≤ key a

theorem sortedBy_mergeSort (rows : List A) :
    SortedBy key rows (rows.mergeSort fun a b ↦ key b ≤ key a) :=
  ⟨List.mergeSort_perm rows _, pairwise_mergeSort_key key rows⟩

/-- The first place of the rows with key `k`. -/
def firstPlace (rows : List A) (k : κ) : ℕ := rows.countP fun x ↦ k < key x

/-- The place after all rows with key `k`. -/
def endPlace (rows : List A) (k : κ) : ℕ := rows.countP fun x ↦ k ≤ key x

/-- Tied rows are on one page, or `f` does not tell them apart. -/
def TiesTogether (rows : List A) (limit : ℕ) : Prop :=
  ∀ x ∈ rows, endPlace key rows (key x) ≤ (firstPlace key rows (key x) / limit + 1) * limit ∨
    ∀ y ∈ rows, key y = key x → f y = f x

/-- The first `n` pages, the page number `i` of the order `orders i`. -/
def readPages (orders : ℕ → List A) (limit n : ℕ) : List A :=
  (List.range n).flatMap fun i ↦ page (orders i) limit (i * limit)

variable {key f} {rows order order' : List A} {limit n p : ℕ}

theorem SortedBy.map_key (h : SortedBy key rows order) (h' : SortedBy key rows order') :
    order.map key = order'.map key := by
  have hkeys : (order.map key).Pairwise fun a b ↦ b ≤ a := List.pairwise_map.mpr h.sorted
  have hkeys' : (order'.map key).Pairwise fun a b ↦ b ≤ a := List.pairwise_map.mpr h'.sorted
  refine ((h.perm.trans h'.perm.symm).map key).eq_of_pairwise ?_ hkeys hkeys'
  intro a b _ _ hab hba
  exact le_antisymm hba hab

section Front

variable {front back : List A} {x : A}

theorem firstPlace_perm (h : order.Perm rows) (k : κ) :
    firstPlace key order k = firstPlace key rows k := h.countP_eq _

theorem endPlace_perm (h : order.Perm rows) (k : κ) :
    endPlace key order k = endPlace key rows k := h.countP_eq _

theorem filter_lt_eq (hsorted : (front ++ x :: back).Pairwise fun a b ↦ key b ≤ key a) :
    (front ++ x :: back).filter (fun y ↦ key x < key y) =
      front.filter fun y ↦ key x < key y := by
  have hrest : (x :: back).filter (fun y ↦ key x < key y) = [] := by
    refine List.filter_eq_nil_iff.mpr fun y hy ↦ ?_
    rw [decide_eq_true_eq, not_lt]
    rcases List.mem_cons.mp hy with rfl | hy
    · exact le_refl _
    · exact (List.pairwise_cons.mp (List.pairwise_append.mp hsorted).2.1).1 y hy
  rw [List.filter_append, hrest, List.append_nil]

theorem firstPlace_eq (hsorted : (front ++ x :: back).Pairwise fun a b ↦ key b ≤ key a) :
    firstPlace key (front ++ x :: back) (key x) =
      (front.filter fun y ↦ key x < key y).length := by
  unfold firstPlace
  rw [List.countP_eq_length_filter, filter_lt_eq hsorted]

theorem length_lt_endPlace (hsorted : (front ++ x :: back).Pairwise fun a b ↦ key b ≤ key a) :
    front.length < endPlace key (front ++ x :: back) (key x) := by
  have hfront : front.countP (fun y ↦ key x ≤ key y) = front.length := by
    refine List.countP_eq_length.mpr fun y hy ↦ decide_eq_true ?_
    exact (List.pairwise_append.mp hsorted).2.2 y hy x List.mem_cons_self
  have hplace : (x :: back).countP (fun y ↦ key x ≤ key y) =
      back.countP (fun y ↦ key x ≤ key y) + 1 :=
    List.countP_cons_of_pos (decide_eq_true (le_refl _))
  unfold endPlace
  rw [List.countP_append, hplace, hfront]
  omega

/-- What is in front of `x`: all with larger keys, the rest has the key of `x`. -/
theorem map_front_perm (hsorted : (front ++ x :: back).Pairwise fun a b ↦ key b ≤ key a)
    (halike : ∀ y ∈ front, key y = key x → f y = f x) :
    (front.map f).Perm (((front ++ x :: back).filter fun y ↦ key x < key y).map f ++
      List.replicate (front.length - firstPlace key (front ++ x :: back) (key x)) (f x)) := by
  have hsame : (front.filter fun y ↦ !decide (key x < key y)).map f =
      List.replicate (front.length - (front.filter fun y ↦ key x < key y).length) (f x) := by
    have hlength := (List.filter_append_perm (fun y ↦ decide (key x < key y)) front).length_eq
    rw [List.length_append] at hlength
    refine List.eq_replicate_iff.mpr ⟨?_, ?_⟩
    · rw [List.length_map]
      omega
    · intro b hb
      obtain ⟨y, hy, rfl⟩ := List.mem_map.mp hb
      obtain ⟨hy, hle⟩ := List.mem_filter.mp hy
      rw [Bool.not_eq_true', decide_eq_false_iff_not, not_lt] at hle
      exact halike y hy
        (le_antisymm hle ((List.pairwise_append.mp hsorted).2.2 y hy x List.mem_cons_self))
  rw [filter_lt_eq hsorted, firstPlace_eq hsorted, ← hsame, ← List.map_append]
  exact ((List.filter_append_perm _ front).map f).symm

/-- If nothing in front of `x` is tied with it, the place of `x` is the first of its key. -/
theorem eq_of_mem_front (h : SortedBy key rows (front ++ x :: back))
    (halike : firstPlace key rows (key x) < front.length →
      front.length < endPlace key rows (key x) → ∀ y ∈ rows, key y = key x → f y = f x)
    {y : A} (hy : y ∈ front) (hkey : key y = key x) : f y = f x := by
  rw [← firstPlace_perm h.perm, ← endPlace_perm h.perm] at halike
  refine halike ?_ (length_lt_endPlace h.sorted) y ?_ hkey
  · rw [firstPlace_eq h.sorted]
    refine Nat.lt_of_le_of_ne (List.length_filter_le _ _) fun hall ↦ ?_
    have hlt := List.length_filter_eq_length_iff.mp hall y hy
    rw [decide_eq_true_eq, hkey] at hlt
    exact lt_irrefl _ hlt
  · exact h.perm.subset (List.mem_append_left _ hy)

end Front

/-- Where no two tied rows are torn apart, two orders have the same in front. -/
theorem SortedBy.map_take_perm (h : SortedBy key rows order) (h' : SortedBy key rows order')
    (halike : ∀ x ∈ rows, firstPlace key rows (key x) < p → p < endPlace key rows (key x) →
      ∀ y ∈ rows, key y = key x → f y = f x) :
    ((order.take p).map f).Perm ((order'.take p).map f) := by
  have hlength : order.length = order'.length := (h.perm.trans h'.perm.symm).length_eq
  rcases Nat.lt_or_ge p order.length with hp | hp
  · have hp' : p < order'.length := hlength ▸ hp
    have hsplit : order.take p ++ order[p] :: order.drop (p + 1) = order := by
      rw [List.getElem_cons_drop, List.take_append_drop]
    have hsplit' : order'.take p ++ order'[p] :: order'.drop (p + 1) = order' := by
      rw [List.getElem_cons_drop, List.take_append_drop]
    have hs : SortedBy key rows (order.take p ++ order[p] :: order.drop (p + 1)) := by
      rw [hsplit]
      exact h
    have hs' : SortedBy key rows (order'.take p ++ order'[p] :: order'.drop (p + 1)) := by
      rw [hsplit']
      exact h'
    have hkey : key order'[p] = key order[p] := by
      have hplace : p < (order'.map key).length := by
        rw [List.length_map]
        exact hp'
      have hsame := List.getElem_of_eq (h'.map_key h) hplace
      rw [List.getElem_map, List.getElem_map] at hsame
      exact hsame
    have htake : (order.take p).length = p := List.length_take_of_le (Nat.le_of_lt hp)
    have htake' : (order'.take p).length = p := List.length_take_of_le (Nat.le_of_lt hp')
    have hmem : order[p] ∈ rows := h.perm.subset (List.getElem_mem hp)
    have hmem' : order'[p] ∈ rows := h'.perm.subset (List.getElem_mem hp')
    have hfront := map_front_perm hs.sorted fun y hy hy' ↦
      eq_of_mem_front hs (by rw [htake]; exact halike _ hmem) hy hy'
    have hfront' := map_front_perm hs'.sorted fun y hy hy' ↦
      eq_of_mem_front hs' (by rw [htake']; exact halike _ hmem') hy hy'
    rw [hsplit, htake, firstPlace_perm h.perm] at hfront
    rw [hsplit', htake', firstPlace_perm h'.perm, hkey] at hfront'
    refine hfront.trans (List.Perm.trans (List.Perm.append ?_ ?_) hfront'.symm)
    · exact ((h.perm.trans h'.perm.symm).filter _).map f
    · rcases Nat.lt_or_ge (firstPlace key rows (key order[p])) p with hlt | hge
      · have hend := length_lt_endPlace hs.sorted
        rw [hsplit, htake, endPlace_perm h.perm] at hend
        rw [halike _ hmem hlt hend _ hmem' hkey]
      · rw [Nat.sub_eq_zero_of_le hge]
        exact List.Perm.refl _
  · rw [List.take_of_length_le hp, List.take_of_length_le (hlength ▸ hp)]
    exact (h.perm.trans h'.perm.symm).map f

/-- Whatever the orders, the pages have every row once, as far as `f` tells. -/
theorem map_readPages_perm (hlimit : 0 < limit) (htogether : TiesTogether key f rows limit)
    {orders : ℕ → List A} (h : ∀ i, SortedBy key rows (orders i)) (n : ℕ) :
    ((readPages orders limit n).map f).Perm (((orders n).take (n * limit)).map f) := by
  -- no page ends between two rows that are tied and told apart
  have hpage (n : ℕ) : ∀ x ∈ rows, firstPlace key rows (key x) < n * limit →
      n * limit < endPlace key rows (key x) → ∀ y ∈ rows, key y = key x → f y = f x := by
    intro x hx hfirst hend
    refine (htogether x hx).resolve_left fun hle ↦ ?_
    have hdiv : firstPlace key rows (key x) / limit < n := (Nat.div_lt_iff_lt_mul hlimit).mpr hfirst
    have hmul : (firstPlace key rows (key x) / limit + 1) * limit ≤ n * limit :=
      Nat.mul_le_mul_right limit hdiv
    omega
  induction n with
  | zero =>
      rw [Nat.zero_mul, List.take_zero]
      exact List.Perm.refl _
  | succ n ih =>
      have hnext : (orders n).take ((n + 1) * limit) =
          (orders n).take (n * limit) ++ page (orders n) limit (n * limit) := by
        rw [Nat.succ_mul, List.take_add]
        rfl
      have hread : readPages orders limit (n + 1) =
          readPages orders limit n ++ page (orders n) limit (n * limit) := by
        unfold readPages
        rw [List.range_succ, List.flatMap_append, List.flatMap_singleton]
      rw [hread, List.map_append]
      refine (ih.append_right _).trans ?_
      rw [← List.map_append, ← hnext]
      exact (h n).map_take_perm (h (n + 1)) (hpage (n + 1))

/-- Rows with a larger key, tied rows and rows with a smaller key make an order. -/
theorem pairwise_of_parts {hi tied lo : List A} {k : κ}
    (hhi : hi.Pairwise fun a b ↦ key b ≤ key a) (hlo : lo.Pairwise fun a b ↦ key b ≤ key a)
    (hlarger : ∀ a ∈ hi, k < key a) (htied : ∀ a ∈ tied, key a = k)
    (hsmaller : ∀ a ∈ lo, key a < k) :
    (hi ++ (tied ++ lo)).Pairwise fun a b ↦ key b ≤ key a := by
  refine List.pairwise_append.mpr ⟨hhi, List.pairwise_append.mpr ⟨?_, hlo, ?_⟩, ?_⟩
  · refine List.pairwise_of_forall_mem_list fun a ha b hb ↦ ?_
    rw [htied a ha, htied b hb]
  · intro a ha b hb
    exact (htied a ha).symm ▸ (hsmaller b hb).le
  · intro a ha b hb
    rcases List.mem_append.mp hb with hb | hb
    · exact (htied b hb).symm ▸ (hlarger a ha).le
    · exact ((hsmaller b hb).trans (hlarger a ha)).le

/-- Pages of one order up to a place where a page ends, of another order from there on. -/
theorem readPages_two {m : ℕ} (hm : m ≤ n) (hall : order'.length ≤ n * limit) :
    readPages (fun i ↦ if i < m then order else order') limit n =
      order.take (m * limit) ++ order'.drop (m * limit) := by
  obtain ⟨d, rfl⟩ := Nat.exists_eq_add_of_le hm
  have hwhole : ((List.range (m + d)).flatMap fun i ↦ page order' limit (i * limit)) = order' := by
    rw [flatMap_page, List.take_of_length_le hall]
  have hfront : ((List.range m).flatMap fun i ↦
      page (if i < m then order else order') limit (i * limit)) = order.take (m * limit) := by
    rw [← flatMap_page]
    refine List.flatMap_congr fun i hi ↦ ?_
    rw [if_pos (List.mem_range.mp hi)]
  rw [List.range_add, List.flatMap_append, flatMap_page] at hwhole
  unfold readPages
  rw [List.range_add, List.flatMap_append, hfront]
  congr 1
  have hback : order'.drop (m * limit) =
      ((List.range d).map (m + ·)).flatMap fun i ↦ page order' limit (i * limit) := by
    refine (List.append_right_inj (order'.take (m * limit))).mp ?_
    rw [List.take_append_drop, hwhole]
  rw [hback]
  refine List.flatMap_congr fun i hi ↦ ?_
  obtain ⟨j, -, rfl⟩ := List.mem_map.mp hi
  dsimp only
  rw [if_neg (by omega)]

/-- The rows by their key against `k`. -/
theorem perm_parts (rows : List A) (k : κ) :
    ((rows.filter fun a ↦ k < key a) ++ ((rows.filter fun a ↦ key a = k) ++
      rows.filter fun a ↦ key a < k)).Perm rows := by
  have hsmaller : ((rows.filter fun a ↦ key a = k) ++ rows.filter fun a ↦ key a < k).Perm
      (rows.filter fun a ↦ !decide (k < key a)) := by
    have htied : (rows.filter fun a ↦ !decide (k < key a)).filter (fun a ↦ key a = k) =
        rows.filter fun a ↦ key a = k := by
      rw [List.filter_filter]
      refine List.filter_congr fun a _ ↦ ?_
      by_cases ha : key a = k
      · simp [ha]
      · simp [ha]
    have hrest : (rows.filter fun a ↦ !decide (k < key a)).filter (fun a ↦ !decide (key a = k)) =
        rows.filter fun a ↦ key a < k := by
      rw [List.filter_filter]
      refine List.filter_congr fun a _ ↦ ?_
      rcases lt_trichotomy (key a) k with ha | ha | ha
      · simp [ha, ha.ne, ha.not_gt]
      · simp [ha]
      · simp [ha, ha.ne', ha.not_gt]
    rw [← htied, ← hrest]
    exact List.filter_append_perm _ _
  exact (hsmaller.append_left _).trans (List.filter_append_perm _ rows)

/-- The rows with key `k` in any order, the others in order around them. -/
def around (key : A → κ) (rows : List A) (k : κ) (tied : List A) : List A :=
  (rows.filter fun a ↦ k < key a).mergeSort (fun a b ↦ key b ≤ key a) ++
    (tied ++ (rows.filter fun a ↦ key a < k).mergeSort fun a b ↦ key b ≤ key a)

theorem sortedBy_around {k : κ} {tied : List A}
    (h : tied.Perm (rows.filter fun a ↦ key a = k)) :
    SortedBy key rows (around key rows k tied) := by
  have hhi := sortedBy_mergeSort key (rows.filter fun a ↦ k < key a)
  have hlo := sortedBy_mergeSort key (rows.filter fun a ↦ key a < k)
  constructor
  · exact (hhi.perm.append (h.append hlo.perm)).trans (perm_parts rows k)
  · refine pairwise_of_parts (k := k) hhi.sorted hlo.sorted ?_ ?_ ?_
    · intro a ha
      exact of_decide_eq_true (List.mem_filter.mp (hhi.perm.subset ha)).2
    · intro a ha
      exact of_decide_eq_true (List.mem_filter.mp (h.subset ha)).2
    · intro a ha
      exact of_decide_eq_true (List.mem_filter.mp (hlo.perm.subset ha)).2

theorem endPlace_eq (rows : List A) (k : κ) :
    endPlace key rows k = firstPlace key rows k + (rows.filter fun a ↦ key a = k).length := by
  unfold endPlace firstPlace
  rw [← List.countP_eq_length_filter]
  induction rows with
  | nil => rfl
  | cons a rows ih =>
      rw [List.countP_cons, List.countP_cons, List.countP_cons, ih]
      rcases lt_trichotomy (key a) k with ha | ha | ha
      · simp [ha.not_ge, ha.not_gt, ha.ne]
      · simp [ha]
        omega
      · simp [ha.le, ha, ha.ne']
        omega

/-- Two tied rows that a page end tears apart: one order has the first of them last on its
page, the other order has it first on the next page. -/
theorem exists_orders_lose (hlimit : 0 < limit) (htorn : ¬ TiesTogether key f rows limit) :
    ∃ m order order', SortedBy key rows order ∧ SortedBy key rows order' ∧
      ∀ n, rows.length ≤ n * limit →
        ¬ ((readPages (fun i ↦ if i < m then order else order') limit n).map f).Perm
          (rows.map f) := by
  unfold TiesTogether at htorn
  push Not at htorn
  obtain ⟨x, hx, hend, y, hy, hkey, hne⟩ := htorn
  obtain ⟨rest, hrest⟩ : ∃ rest, (x :: y :: rest).Perm (rows.filter fun a ↦ key a = key x) := by
    have hxtied : x ∈ rows.filter fun a ↦ key a = key x :=
      List.mem_filter.mpr ⟨hx, decide_eq_true rfl⟩
    obtain ⟨s, t, hst⟩ := List.append_of_mem hxtied
    have hy' : y ∈ s ++ t := by
      have htied : y ∈ rows.filter fun a ↦ key a = key x :=
        List.mem_filter.mpr ⟨hy, decide_eq_true hkey⟩
      rw [hst, List.perm_middle.mem_iff] at htied
      exact (List.mem_cons.mp htied).resolve_left fun heq ↦ hne (heq ▸ rfl)
    obtain ⟨s', t', hst'⟩ := List.append_of_mem hy'
    refine ⟨s' ++ t', ?_⟩
    rw [hst]
    refine List.Perm.trans (List.Perm.cons x ?_) List.perm_middle.symm
    rw [hst']
    exact List.perm_middle.symm
  have hlength := hrest.length_eq
  rw [List.length_cons, List.length_cons] at hlength
  rw [endPlace_eq, ← hlength] at hend
  have hfirst : firstPlace key rows (key x) <
      (firstPlace key rows (key x) / limit + 1) * limit := by
    rw [Nat.mul_comm]
    exact Nat.lt_mul_div_succ _ hlimit
  obtain ⟨m, hm⟩ := Nat.exists_eq_add_of_lt hfirst
  obtain ⟨front, back, hfront, haround⟩ : ∃ front back,
      front.length = firstPlace key rows (key x) + m ∧ ∀ u v,
        around key rows (key x) (rest.take m ++ u :: v :: rest.drop m) =
          front ++ u :: v :: back := by
    refine ⟨(rows.filter fun a ↦ key x < key a).mergeSort (fun a b ↦ key b ≤ key a) ++ rest.take m,
      rest.drop m ++ (rows.filter fun a ↦ key a < key x).mergeSort (fun a b ↦ key b ≤ key a),
      ?_, ?_⟩
    · rw [List.length_append, List.length_mergeSort, ← List.countP_eq_length_filter,
        List.length_take_of_le (by omega)]
      rfl
    · intro u v
      unfold around
      simp only [List.append_assoc, List.cons_append]
  have hpair (u v : A) : (rest.take m ++ u :: v :: rest.drop m).Perm (u :: v :: rest) := by
    refine List.perm_middle.trans (List.Perm.cons u (List.perm_middle.trans ?_))
    rw [List.take_append_drop]
  have hxy : SortedBy key rows (front ++ x :: y :: back) := by
    rw [← haround]
    exact sortedBy_around ((hpair x y).trans hrest)
  have hyx : SortedBy key rows (front ++ y :: x :: back) := by
    rw [← haround]
    exact sortedBy_around ((hpair y x).trans ((List.Perm.swap x y rest).trans hrest))
  refine ⟨firstPlace key rows (key x) / limit + 1, _, _, hxy, hyx, fun n hn hperm ↦ hne ?_⟩
  have hpages : firstPlace key rows (key x) / limit + 1 ≤ n := by
    have hle := hxy.perm.length_eq
    rw [List.length_append, List.length_cons, List.length_cons] at hle
    refine Nat.le_of_mul_le_mul_right ?_ hlimit
    omega
  rw [readPages_two hpages (hyx.perm.length_eq ▸ hn), hm] at hperm
  have htake : (front ++ x :: y :: back).take (firstPlace key rows (key x) + m + 1) =
      front ++ [x] := by
    rw [← hfront, List.take_length_add_append]
    rfl
  have hdrop : (front ++ y :: x :: back).drop (firstPlace key rows (key x) + m + 1) =
      x :: back := by
    rw [← hfront, List.drop_length_add_append]
    rfl
  rw [htake, hdrop] at hperm
  -- the first row stands for both
  have hboth := hperm.trans (hxy.perm.map f).symm
  rw [List.map_append, List.map_append, List.map_append, List.append_assoc,
    List.perm_append_left_iff] at hboth
  have hsame : [f x].Perm [f y] :=
    (List.perm_append_right_iff (back.map f)).mp ((List.perm_cons (f x)).mp hboth)
  exact (List.singleton_perm_singleton.mp hsame).symm

end Orders

end Foundations
