import Mathlib.Algebra.BigOperators.Group.List.Basic
import Mathlib.Data.List.Nodup
import Mathlib.Data.List.Induction
import Mathlib.Data.Nat.Basic
import Mathlib.Order.Lattice

/-!
# Maps in insertion order

A map that lists its entries in the order in which their keys were first set,
as a JavaScript `Map` does.  Two loops over a list are common: keep the first
element for each key, and group the elements by key.  Their results do not
depend on anything but which elements there are, except for order.  Sorting by
a number then fixes the order as well.
-/

namespace Foundations

universe u v w

/-- Entries, oldest key first. -/
abbrev InsertionMap (K : Type u) (V : Type v) := List (K × V)

namespace InsertionMap

variable {K : Type u} {V : Type v} {A : Type w} [DecidableEq K]

def has (m : InsertionMap K V) (k : K) : Bool := m.any fun x ↦ x.1 = k

def get? (m : InsertionMap K V) (k : K) : Option V :=
  (m.find? fun x ↦ x.1 = k).map Prod.snd

/-- A new key goes to the end, an old key keeps its place. -/
def set : InsertionMap K V → K → V → InsertionMap K V
  | [], k, v => [(k, v)]
  | x :: m, k, v => if x.1 = k then (k, v) :: m else x :: set m k v

def erase (m : InsertionMap K V) (k : K) : InsertionMap K V := m.filter fun x ↦ x.1 ≠ k

def keys (m : InsertionMap K V) : List K := m.map Prod.fst

def values (m : InsertionMap K V) : List V := m.map Prod.snd

variable {m : InsertionMap K V} {k k' : K} {v : V}

theorem has_iff : m.has k = true ↔ k ∈ m.keys := by
  simp [has, keys]

theorem keys_set_of_mem (h : k ∈ m.keys) : (m.set k v).keys = m.keys := by
  induction m with
  | nil => exact absurd h List.not_mem_nil
  | cons x m ih =>
      unfold set
      split
      · next hx => simp [keys, hx]
      · next hx =>
          have hm : k ∈ keys m := (List.mem_cons.mp h).resolve_left (Ne.symm hx)
          exact congrArg (x.1 :: ·) (ih hm)

theorem mem_of_mem_erase {x : K × V} (h : x ∈ m.erase k) : x ∈ m := List.mem_of_mem_filter h

theorem get?_erase_self : (m.erase k).get? k = none := by
  simp [get?, erase, List.find?_eq_none]

/-- Dropping other keys. -/
theorem get?_filter {p : K → Bool} (hk : p k = true) :
    get? (m.filter fun x ↦ p x.1) k = m.get? k := by
  unfold get?
  rw [List.find?_filter]
  congr 2
  funext x
  by_cases hx : x.1 = k
  · simp [hx, hk]
  · simp [hx]

theorem mem_of_get? (h : m.get? k = some v) : (k, v) ∈ m := by
  obtain ⟨x, hfind, rfl⟩ := Option.map_eq_some_iff.mp h
  obtain rfl : x.1 = k := by simpa using List.find?_some hfind
  exact List.mem_of_find?_eq_some hfind

theorem mem_of_mem_set {x : K × V} (h : x ∈ m.set k v) : x = (k, v) ∨ x ∈ m := by
  induction m with
  | nil => exact Or.inl (List.mem_singleton.mp h)
  | cons y m ih =>
      unfold set at h
      split at h
      · exact (List.mem_cons.mp h).imp_right (List.mem_cons_of_mem y)
      · rcases List.mem_cons.mp h with rfl | h
        · exact Or.inr List.mem_cons_self
        · exact (ih h).imp_right (List.mem_cons_of_mem y)

/-- Setting a key to the value it has changes nothing. -/
theorem set_eq_self (hk : k ∈ m.keys) (hv : ∀ x ∈ m, x.1 = k → x.2 = v) : m.set k v = m := by
  induction m with
  | nil => exact absurd hk List.not_mem_nil
  | cons x m ih =>
      unfold set
      split
      · next hx => rw [← hx, ← hv x List.mem_cons_self hx]
      · next hx =>
          have hm : k ∈ keys m := (List.mem_cons.mp hk).resolve_left (Ne.symm hx)
          rw [ih hm fun y hy ↦ hv y (List.mem_cons_of_mem _ hy)]

theorem set_of_not_mem (h : k ∉ m.keys) : m.set k v = m ++ [(k, v)] := by
  induction m with
  | nil => rfl
  | cons x m ih =>
      obtain ⟨hx, hm⟩ := not_or.mp (mt List.mem_cons.mpr h)
      unfold set
      rw [if_neg (Ne.symm hx), ih hm, List.cons_append]

theorem set_append_of_not_mem {v' : V} (h : k ∉ m.keys) :
    set (m ++ [(k, v')]) k v = m ++ [(k, v)] := by
  induction m with
  | nil => simp [set]
  | cons x m ih =>
      obtain ⟨hx, hm⟩ := not_or.mp (mt List.mem_cons.mpr h)
      rw [List.cons_append, set, if_neg (Ne.symm hx), ih hm]
      rfl

theorem keys_set_of_not_mem (h : k ∉ m.keys) : (m.set k v).keys = m.keys ++ [k] := by
  rw [set_of_not_mem h]
  simp [keys]

theorem mem_keys_set : k' ∈ (m.set k v).keys ↔ k' = k ∨ k' ∈ m.keys := by
  by_cases h : k ∈ m.keys
  · rw [keys_set_of_mem h]
    constructor
    · exact Or.inr
    · rintro (rfl | h')
      · exact h
      · exact h'
  · rw [keys_set_of_not_mem h, List.mem_append, List.mem_singleton, or_comm]

theorem nodup_keys_set (h : m.keys.Nodup) : (m.set k v).keys.Nodup := by
  by_cases hk : k ∈ m.keys
  · rwa [keys_set_of_mem hk]
  · rw [keys_set_of_not_mem hk]
    exact List.nodup_append'.mpr ⟨h, List.nodup_singleton k,
      List.disjoint_singleton.mpr hk⟩

@[simp] theorem get?_set_self : (m.set k v).get? k = some v := by
  induction m with
  | nil => simp [set, get?]
  | cons x m ih =>
      unfold set
      split
      · simp [get?]
      · next hx =>
          unfold get? at ih ⊢
          rwa [List.find?_cons_of_neg (by simpa using hx)]

theorem get?_set_of_ne (h : k' ≠ k) : (m.set k v).get? k' = m.get? k' := by
  induction m with
  | nil => simp [set, get?, Ne.symm h]
  | cons x m ih =>
      unfold set
      split
      · next hx =>
          unfold get?
          rw [List.find?_cons_of_neg (by simpa using Ne.symm h),
            List.find?_cons_of_neg (by simpa [hx] using Ne.symm h)]
      · unfold get? at ih ⊢
        rw [List.find?_cons, List.find?_cons]
        cases decide (x.1 = k') with
        | true => rfl
        | false => exact ih

theorem get?_eq_none (h : k ∉ m.keys) : m.get? k = none := by
  unfold get?
  rw [Option.map_eq_none_iff, List.find?_eq_none]
  intro x hx hk
  exact h (List.mem_map.mpr ⟨x, hx, by simpa using hk⟩)

theorem get?_cons (x : K × V) : get? (x :: m) k = if x.1 = k then some x.2 else m.get? k := by
  unfold get?
  by_cases hx : x.1 = k <;> simp [hx]

theorem get?_of_mem (hnodup : m.keys.Nodup) (h : (k, v) ∈ m) : m.get? k = some v := by
  induction m with
  | nil => cases h
  | cons x m ih =>
      obtain ⟨hx, hm⟩ := List.nodup_cons.mp hnodup
      rw [get?_cons]
      rcases List.mem_cons.mp h with rfl | h
      · exact if_pos rfl
      · have hne : x.1 ≠ k := fun heq ↦ hx (heq ▸ List.mem_map_of_mem h)
        rw [if_neg hne]
        exact ih hm h

theorem mem_keys_iff_get? : k ∈ m.keys ↔ ∃ v, m.get? k = some v := by
  constructor
  · intro h
    by_contra hnone
    rw [← Option.isSome_iff_exists, Option.not_isSome_iff_eq_none, get?, Option.map_eq_none_iff,
      List.find?_eq_none] at hnone
    obtain ⟨x, hx, rfl⟩ := List.mem_map.mp h
    exact hnone x hx (decide_eq_true rfl)
  · rintro ⟨v, hv⟩
    exact List.mem_map_of_mem (mem_of_get? hv)

theorem get?_erase_of_ne (h : k' ≠ k) : (m.erase k).get? k' = m.get? k' :=
  get?_filter (p := fun key ↦ key ≠ k) (by simpa using h)

theorem keys_erase : (m.erase k).keys = m.keys.filter fun key ↦ key ≠ k := by
  unfold erase keys
  rw [List.filter_map]
  rfl

theorem nodup_keys_erase (h : m.keys.Nodup) : (m.erase k).keys.Nodup := by
  rw [keys_erase]
  exact h.filter _

theorem erase_of_not_mem (h : k ∉ m.keys) : m.erase k = m :=
  List.filter_eq_self.mpr fun _ hx ↦ decide_eq_true fun heq ↦ h (heq ▸ List.mem_map_of_mem hx)

theorem erase_cons_self (hx : k ∉ m.keys) : erase ((k, v) :: m) k = m := by
  rw [erase, List.filter_cons_of_neg (by simp)]
  exact erase_of_not_mem hx

theorem erase_cons_of_ne {x : K × V} (hx : x.1 ≠ k) : erase (x :: m) k = x :: m.erase k :=
  List.filter_cons_of_pos (by simpa using hx)

theorem length_erase (hnodup : m.keys.Nodup) (h : k ∈ m.keys) :
    (m.erase k).length + 1 = m.length := by
  induction m with
  | nil => cases h
  | cons x m ih =>
      obtain ⟨hx, hm⟩ := List.nodup_cons.mp hnodup
      by_cases heq : x.1 = k
      · subst heq
        rw [erase_cons_self hx, List.length_cons]
      · have hmem : k ∈ keys m := (List.mem_cons.mp h).resolve_left (Ne.symm heq)
        rw [erase_cons_of_ne heq, List.length_cons, List.length_cons, ih hm hmem]

/-! Sums over the values, where a missing key counts as zero. -/

theorem sum_values_set [AddCommMonoid V] :
    (m.set k v).values.sum + (m.get? k).getD 0 = m.values.sum + v := by
  induction m with
  | nil => simp [set, values, get?]
  | cons x m ih =>
      unfold values at ih ⊢
      rw [get?_cons, set]
      split
      · rw [List.map_cons, List.map_cons, List.sum_cons, List.sum_cons, Option.getD_some,
          add_right_comm, add_comm v]
        exact add_right_comm _ _ _
      · rw [List.map_cons, List.map_cons, List.sum_cons, List.sum_cons, add_assoc, ih, add_assoc]

theorem sum_values_erase [AddCommMonoid V] (hnodup : m.keys.Nodup) :
    (m.erase k).values.sum + (m.get? k).getD 0 = m.values.sum := by
  induction m with
  | nil => simp [erase, values, get?]
  | cons x m ih =>
      obtain ⟨hx, hm⟩ := List.nodup_cons.mp hnodup
      rw [get?_cons]
      by_cases heq : x.1 = k
      · subst heq
        rw [erase_cons_self hx, if_pos rfl, Option.getD_some, add_comm]
        rfl
      · have hrest := ih hm
        unfold values at hrest ⊢
        rw [erase_cons_of_ne heq, if_neg heq, List.map_cons, List.map_cons, List.sum_cons,
          List.sum_cons, add_assoc, hrest]

/-! ## The first element for each key -/

variable (key : A → K)

/-- `if (!map.has(key)) map.set(key, x)` over a list. -/
def firstOf (l : List A) : InsertionMap K A :=
  l.foldl (fun m x ↦ if m.has (key x) then m else m.set (key x) x) []

theorem firstOf_concat (l : List A) (x : A) :
    firstOf key (l ++ [x]) =
      if (firstOf key l).has (key x) then firstOf key l
      else (firstOf key l).set (key x) x := by
  rw [firstOf, List.foldl_concat]
  rfl

theorem mem_firstOf {l : List A} {e : K × A} (h : e ∈ firstOf key l) :
    e.2 ∈ l ∧ key e.2 = e.1 := by
  induction l using List.reverseRecOn with
  | nil => exact absurd h List.not_mem_nil
  | append_singleton l x ih =>
      rw [firstOf_concat] at h
      split at h
      · obtain ⟨hmem, hkey⟩ := ih h
        exact ⟨List.mem_append_left _ hmem, hkey⟩
      · next hnew =>
          rw [set_of_not_mem (mt has_iff.mpr hnew)] at h
          rcases List.mem_append.mp h with h | h
          · obtain ⟨hmem, hkey⟩ := ih h
            exact ⟨List.mem_append_left _ hmem, hkey⟩
          · obtain rfl := List.mem_singleton.mp h
            exact ⟨List.mem_append_right _ (List.mem_singleton_self x), rfl⟩

theorem mem_keys_firstOf {l : List A} : k ∈ (firstOf key l).keys ↔ ∃ x ∈ l, key x = k := by
  induction l using List.reverseRecOn with
  | nil => simp [firstOf, keys]
  | append_singleton l x ih =>
      rw [firstOf_concat]
      split
      · next hold =>
          rw [ih]
          constructor
          · rintro ⟨y, hy, hk⟩
            exact ⟨y, List.mem_append_left _ hy, hk⟩
          · rintro ⟨y, hy, rfl⟩
            rcases List.mem_append.mp hy with hy | hy
            · exact ⟨y, hy, rfl⟩
            · obtain rfl := List.mem_singleton.mp hy
              exact ih.mp (has_iff.mp hold)
      · rw [mem_keys_set, ih]
        constructor
        · rintro (rfl | ⟨y, hy, hk⟩)
          · exact ⟨x, List.mem_append_right _ (List.mem_singleton_self x), rfl⟩
          · exact ⟨y, List.mem_append_left _ hy, hk⟩
        · rintro ⟨y, hy, rfl⟩
          rcases List.mem_append.mp hy with hy | hy
          · exact Or.inr ⟨y, hy, rfl⟩
          · obtain rfl := List.mem_singleton.mp hy
            exact Or.inl rfl

theorem nodup_keys_firstOf (l : List A) : (firstOf key l).keys.Nodup := by
  induction l using List.reverseRecOn with
  | nil => exact List.nodup_nil
  | append_singleton l x ih =>
      rw [firstOf_concat]
      split
      · exact ih
      · exact nodup_keys_set ih

/-- The map holds the first element with a key. -/
theorem get?_firstOf (l : List A) (k : K) :
    (firstOf key l).get? k = l.find? fun x ↦ key x = k := by
  induction l using List.reverseRecOn with
  | nil => rfl
  | append_singleton l x ih =>
      rw [firstOf_concat, List.find?_append, ← ih]
      split
      · next hold =>
          by_cases hx : key x = k
          · obtain ⟨y, hy⟩ : ∃ y, (firstOf key l).get? k = some y := by
              rw [← Option.isSome_iff_exists]
              unfold get?
              rw [Option.isSome_map, List.find?_isSome]
              obtain ⟨e, he, hek⟩ := List.mem_map.mp (has_iff.mp hold)
              exact ⟨e, he, decide_eq_true (hek.trans hx)⟩
            rw [hy]
            rfl
          · rw [List.find?_cons_of_neg (by simpa using hx), List.find?_nil, Option.or_none]
      · next hnew =>
          by_cases hx : key x = k
          · subst hx
            rw [get?_set_self, get?_eq_none (mt has_iff.mpr hnew), Option.none_or,
              List.find?_cons_of_pos (by simp)]
          · rw [get?_set_of_ne (Ne.symm hx), List.find?_cons_of_neg (by simpa using hx),
              List.find?_nil, Option.or_none]

/-- `map.set(key, value)` over a list, where there is a value. -/
def setEach (f : A → Option V) (l : List A) : InsertionMap K V :=
  l.foldl (fun m x ↦ ((f x).map (m.set (key x))).getD m) []

theorem setEach_concat (f : A → Option V) (l : List A) (x : A) :
    setEach key f (l ++ [x]) = ((f x).map ((setEach key f l).set (key x))).getD
      (setEach key f l) := by
  rw [setEach, List.foldl_concat]
  rfl

/-- Where the elements have keys of their own, an entry is that of its element. -/
theorem get?_setEach (f : A → Option V) (l : List A) (hnodup : (l.map key).Nodup) (k : K) :
    (setEach key f l).get? k = (l.find? fun x ↦ key x = k).bind f := by
  induction l using List.reverseRecOn with
  | nil => rfl
  | append_singleton l x ih =>
      rw [List.map_append, List.map_singleton, List.nodup_append] at hnodup
      have ih := ih hnodup.1
      rw [setEach_concat, List.find?_append]
      by_cases hx : key x = k
      · have hnone : (l.find? fun y ↦ key y = k) = none := by
          rw [List.find?_eq_none]
          intro y hy hyk
          exact hnodup.2.2 _ (List.mem_map_of_mem hy) _ (List.mem_singleton_self _)
            ((of_decide_eq_true hyk).trans hx.symm)
        rw [hnone] at ih ⊢
        rw [List.find?_cons_of_pos (by simpa using hx), Option.none_or, Option.bind_some]
        cases f x with
        | none => exact ih
        | some v => rw [← hx, Option.map_some, Option.getD_some, get?_set_self]
      · rw [List.find?_cons_of_neg (by simpa using hx), List.find?_nil, Option.or_none]
        cases f x with
        | none => exact ih
        | some v => rw [Option.map_some, Option.getD_some, get?_set_of_ne (Ne.symm hx), ih]

/-- If no two elements share a key, every element is kept. -/
theorem mem_values_firstOf {l : List A}
    (hinj : ∀ x ∈ l, ∀ y ∈ l, key x = key y → x = y) {x : A} :
    x ∈ (firstOf key l).values ↔ x ∈ l := by
  constructor
  · intro h
    obtain ⟨e, he, rfl⟩ := List.mem_map.mp h
    exact (mem_firstOf key he).1
  · intro hx
    obtain ⟨e, he, hk⟩ := List.mem_map.mp ((mem_keys_firstOf key).mpr ⟨x, hx, rfl⟩)
    obtain ⟨hmem, hkey⟩ := mem_firstOf key he
    obtain rfl := hinj _ hmem x hx (hkey.trans hk)
    exact List.mem_map_of_mem he

theorem keys_firstOf (l : List A) : (firstOf key l).keys = (firstOf key l).values.map key := by
  unfold keys values
  rw [List.map_map]
  exact List.map_congr_left fun e he ↦ (mem_firstOf key he).2.symm

theorem nodup_values_firstOf (l : List A) : (firstOf key l).values.Nodup :=
  List.Nodup.of_map key (keys_firstOf key l ▸ nodup_keys_firstOf key l)

/-- Entries set in turn, each unless its key is there: a map again. -/
theorem values_firstOf_concat (l : List (K × V)) (x : K × V) :
    (firstOf Prod.fst (l ++ [x])).values =
      if has (firstOf Prod.fst l).values x.1 then (firstOf Prod.fst l).values
      else set (firstOf Prod.fst l).values x.1 x.2 := by
  have hkeys : keys (firstOf Prod.fst l).values = (firstOf Prod.fst l).keys :=
    (keys_firstOf Prod.fst l).symm
  rw [firstOf_concat]
  by_cases h : x.1 ∈ (firstOf Prod.fst l).keys
  · rw [if_pos (has_iff.mpr h), if_pos (has_iff.mpr (hkeys ▸ h))]
  · have h' : x.1 ∉ keys (firstOf Prod.fst l).values := hkeys ▸ h
    rw [if_neg (mt has_iff.mp h), if_neg (mt has_iff.mp h'), set_of_not_mem h,
      set_of_not_mem h']
    exact List.map_append

/-- `map.set(key, [...(map.get(key) ?? []), x])` over a list. -/
def groupBy (l : List A) : InsertionMap K (List A) :=
  l.foldl (fun m x ↦ m.set (key x) ((m.get? (key x)).getD [] ++ [x])) []

theorem groupBy_concat (l : List A) (x : A) :
    groupBy key (l ++ [x]) =
      (groupBy key l).set (key x) (((groupBy key l).get? (key x)).getD [] ++ [x]) := by
  rw [groupBy, List.foldl_concat]
  rfl

theorem nodup_keys_groupBy (l : List A) : (groupBy key l).keys.Nodup := by
  induction l using List.reverseRecOn with
  | nil => exact List.nodup_nil
  | append_singleton l x ih =>
      rw [groupBy_concat]
      exact nodup_keys_set ih

theorem mem_keys_groupBy {l : List A} : k ∈ (groupBy key l).keys ↔ ∃ x ∈ l, key x = k := by
  induction l using List.reverseRecOn with
  | nil => simp [groupBy, keys]
  | append_singleton l x ih =>
      rw [groupBy_concat, mem_keys_set, ih]
      constructor
      · rintro (rfl | ⟨y, hy, hk⟩)
        · exact ⟨x, List.mem_append_right _ (List.mem_singleton_self x), rfl⟩
        · exact ⟨y, List.mem_append_left _ hy, hk⟩
      · rintro ⟨y, hy, rfl⟩
        rcases List.mem_append.mp hy with hy | hy
        · exact Or.inr ⟨y, hy, rfl⟩
        · obtain rfl := List.mem_singleton.mp hy
          exact Or.inl rfl

/-- A group lists the elements with its key, in order. -/
theorem getD_groupBy (l : List A) (k : K) :
    ((groupBy key l).get? k).getD [] = l.filter fun x ↦ key x = k := by
  induction l using List.reverseRecOn with
  | nil => rfl
  | append_singleton l x ih =>
      rw [groupBy_concat, List.filter_append]
      by_cases hk : key x = k
      · subst hk
        rw [get?_set_self, ih]
        simp
      · rw [get?_set_of_ne (Ne.symm hk), ih]
        simp [hk]

theorem groupBy_append {l group : List A} {k : K} (hgroup : ∀ x ∈ group, key x = k)
    (hne : group ≠ []) (hk : k ∉ (groupBy key l).keys) :
    groupBy key (l ++ group) = groupBy key l ++ [(k, group)] := by
  induction group using List.reverseRecOn with
  | nil => exact absurd rfl hne
  | append_singleton group x ih =>
      have hx : key x = k := hgroup x (List.mem_append_right _ (List.mem_singleton_self x))
      rw [← List.append_assoc, groupBy_concat, hx]
      by_cases hempty : group = []
      · subst hempty
        rw [List.append_nil, get?_eq_none hk, set_of_not_mem hk]
        rfl
      · rw [ih (fun y hy ↦ hgroup y (List.mem_append_left _ hy)) hempty]
        have hnone : get? (groupBy key l) k = none := get?_eq_none hk
        have hget : get? (groupBy key l ++ [(k, group)]) k = some group := by
          unfold get? at hnone ⊢
          rw [List.find?_append, Option.map_eq_none_iff.mp hnone]
          simp
        rw [hget, Option.getD_some, set_append_of_not_mem hk]

/-- Groups that come one after the other are found again. -/
theorem values_groupBy_flatMap {gs : List (K × List A)} (hkeys : (gs.map Prod.fst).Nodup)
    (hgroups : ∀ g ∈ gs, ∀ x ∈ g.2, key x = g.1) :
    (groupBy key (gs.flatMap Prod.snd)).values = (gs.map Prod.snd).filter (· ≠ []) := by
  induction gs using List.reverseRecOn with
  | nil => rfl
  | append_singleton gs g ih =>
      rw [List.map_append, List.nodup_append] at hkeys
      have hfront := ih hkeys.1 fun g' hg' ↦ hgroups g' (List.mem_append_left _ hg')
      rw [List.flatMap_append, List.flatMap_singleton, List.map_append, List.filter_append]
      by_cases hempty : g.2 = []
      · rw [hempty, List.append_nil, hfront]
        simp [hempty]
      · have hk : g.1 ∉ (groupBy key (gs.flatMap Prod.snd)).keys := by
          intro hmem
          obtain ⟨x, hx, hxk⟩ := (mem_keys_groupBy key).mp hmem
          obtain ⟨g', hg', hxg'⟩ := List.mem_flatMap.mp hx
          have hkey := hgroups g' (List.mem_append_left _ hg') x hxg'
          exact hkeys.2.2 g'.1 (List.mem_map_of_mem hg') g.1 (by simp) (hkey.symm.trans hxk)
        rw [groupBy_append key (hgroups g (by simp)) hempty hk, values, List.map_append]
        change values (groupBy key (gs.flatMap Prod.snd)) ++ _ = _
        rw [hfront]
        simp [hempty]

/-- Adding to a group adds to the elements of all groups. -/
theorem flatten_values_set_perm (m : InsertionMap K (List A)) (k : K) (x : A) :
    ((m.set k ((m.get? k).getD [] ++ [x])).values.flatten).Perm (m.values.flatten ++ [x]) := by
  induction m with
  | nil => exact List.Perm.refl _
  | cons entry m ih =>
      by_cases hk : entry.1 = k
      · have hget : get? (entry :: m) k = some entry.2 := by simp [get?, hk]
        rw [hget, set, if_pos hk]
        simp only [values, List.map_cons, List.flatten_cons, Option.getD_some,
          List.append_assoc]
        exact List.perm_append_comm.append_left entry.2
      · have hget : get? (entry :: m) k = get? m k := by simp [get?, hk]
        rw [hget, set, if_neg hk]
        simp only [values, List.map_cons, List.flatten_cons, List.append_assoc]
        exact ih.append_left entry.2

end InsertionMap

section Sorting

variable {A : Type u} {K : Type v} [LinearOrder K] (key : A → K)

/-- In a strictly sorted list the key determines the element. -/
theorem eq_of_key_eq {l : List A} (hsorted : l.Pairwise fun a b ↦ key a < key b) {a b : A}
    (ha : a ∈ l) (hb : b ∈ l) (heq : key a = key b) : a = b := by
  have hkeys : (l.map key).Nodup := List.pairwise_map.mpr (hsorted.imp ne_of_lt)
  exact List.inj_on_of_nodup_map hkeys ha hb heq

theorem pairwise_mergeSort_le (l : List A) :
    (l.mergeSort fun a b ↦ decide (key a ≤ key b)).Pairwise fun a b ↦ key a ≤ key b := by
  refine List.Pairwise.imp of_decide_eq_true ?_
  apply List.pairwise_mergeSort
  · intro a b c hab hbc
    exact decide_eq_true (le_trans (of_decide_eq_true hab) (of_decide_eq_true hbc))
  · intro a b
    simpa using le_total (key a) (key b)

theorem pairwise_mergeSort_lt {l : List K} (hnodup : l.Nodup) :
    (l.mergeSort fun a b ↦ decide (a ≤ b)).Pairwise fun a b ↦ a < b := by
  have hne := (List.mergeSort_perm l fun a b ↦ decide (a ≤ b)).nodup_iff.mpr hnodup
  exact ((pairwise_mergeSort_le id l).and hne).imp fun h ↦ lt_of_le_of_ne h.1 h.2

/-- Elements with distinct keys have one order. -/
theorem mergeSort_eq {l target : List A} (hnodup : l.Nodup)
    (hmem : ∀ x, x ∈ l ↔ x ∈ target) (hsorted : target.Pairwise fun a b ↦ key a < key b) :
    (l.mergeSort fun a b ↦ decide (key a ≤ key b)) = target := by
  have htarget : target.Nodup := List.Pairwise.of_map key
    (fun a b hne heq ↦ hne (congrArg key heq))
    (List.pairwise_map.mpr (hsorted.imp ne_of_lt))
  have hperm : (l.mergeSort fun a b ↦ decide (key a ≤ key b)).Perm target :=
    (List.mergeSort_perm _ _).trans ((List.perm_ext_iff_of_nodup hnodup htarget).mpr hmem)
  refine hperm.eq_of_pairwise ?_ (pairwise_mergeSort_le key l) (hsorted.imp le_of_lt)
  intro a b ha hb hab hba
  exact eq_of_key_eq key hsorted (hperm.subset ha) hb (le_antisymm hab hba)

end Sorting

/-- Cutting a list where a predicate stops to hold. -/
theorem filter_append_filter_not {A : Type u} {p : A → Bool} {l : List A}
    (hp : l.Pairwise fun a b ↦ p b = true → p a = true) :
    l.filter p ++ (l.filter fun x ↦ !p x) = l := by
  induction l with
  | nil => rfl
  | cons x l ih =>
      obtain ⟨hx, hl⟩ := List.pairwise_cons.mp hp
      cases hpx : p x with
      | true =>
          rw [List.filter_cons_of_pos hpx, List.filter_cons_of_neg (by simp [hpx]),
            List.cons_append, ih hl]
      | false =>
          have hnone : l.filter p = [] := List.filter_eq_nil_iff.mpr fun y hy hpy ↦ by
            rw [hx y hy hpy] at hpx
            cases hpx
          have hall := ih hl
          rw [hnone, List.nil_append] at hall
          rw [List.filter_cons_of_neg (by simp [hpx]), hnone,
            List.filter_cons_of_pos (by simp [hpx]), List.nil_append, hall]

end Foundations
