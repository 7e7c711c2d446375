import Mathlib.Data.List.Nodup

/-!
# Rows with keys

A table is a list of rows, and a unique key tells its rows apart.  Then a lookup does not
depend on the order of the rows, and a write changes it for the key of the written row only.
-/

namespace Foundations

universe u v

variable {K : Type u} {R : Type v} [DecidableEq K]

/-- The row of a key. -/
def rowAt (key : R → K) (rows : List R) (k : K) : Option R := rows.find? fun r ↦ key r = k

/-- The row takes the place of the row of its key, or comes last. -/
def upsert (key : R → K) (rows : List R) (r : R) : List R :=
  if rows.any fun r' ↦ key r' = key r then rows.map fun r' ↦ if key r' = key r then r else r'
  else rows ++ [r]

variable {key : R → K} {rows : List R} {r : R} {k : K}

theorem rowAt_mem (h : rowAt key rows k = some r) : r ∈ rows ∧ key r = k :=
  ⟨List.mem_of_find?_eq_some h, by simpa using List.find?_some h⟩

theorem rowAt_eq_none : rowAt key rows k = none ↔ k ∉ rows.map key := by
  simp [rowAt]

/-- A key has one row at most. -/
theorem rowAt_eq_some (hnodup : (rows.map key).Nodup) :
    rowAt key rows k = some r ↔ r ∈ rows ∧ key r = k := by
  refine ⟨rowAt_mem, ?_⟩
  rintro ⟨hr, rfl⟩
  cases hfind : rowAt key rows (key r) with
  | none => exact absurd (List.mem_map_of_mem hr) (rowAt_eq_none.mp hfind)
  | some r' =>
      obtain ⟨hr', hkey⟩ := rowAt_mem hfind
      rw [List.inj_on_of_nodup_map hnodup hr' hr hkey]

@[simp] theorem rowAt_nil : rowAt key [] k = none := rfl

theorem rowAt_concat :
    rowAt key (rows ++ [r]) k = (rowAt key rows k).or (if key r = k then some r else none) := by
  unfold rowAt
  rw [List.find?_append]
  by_cases hk : key r = k
  · simp [hk]
  · simp [hk]

/-- A row with a new key. -/
theorem rowAt_concat_of_fresh (hfresh : key r ∉ rows.map key) :
    rowAt key (rows ++ [r]) k = if key r = k then some r else rowAt key rows k := by
  rw [rowAt_concat]
  by_cases hk : key r = k
  · rw [if_pos hk, if_pos hk, ← hk, rowAt_eq_none.mpr hfresh, Option.none_or]
  · rw [if_neg hk, if_neg hk, Option.or_none]

/-- Writing to rows in place. -/
theorem rowAt_map {f : R → R} (hf : ∀ r ∈ rows, key (f r) = key r) :
    rowAt key (rows.map f) k = (rowAt key rows k).map f := by
  induction rows with
  | nil => rfl
  | cons r rows ih =>
      have hrest := ih fun r' hr' ↦ hf r' (List.mem_cons_of_mem r hr')
      unfold rowAt at hrest ⊢
      rw [List.map_cons, List.find?_cons, List.find?_cons, hf r List.mem_cons_self]
      cases decide (key r = k) with
      | true => rfl
      | false => exact hrest

/-- What determines the key can be looked up. -/
theorem map_rowAt {S : Type*} (f : R → S) (keyOf : S → K) (rows : List R) (k : K) :
    (rowAt (keyOf ∘ f) rows k).map f = rowAt keyOf (rows.map f) k := by
  unfold rowAt
  rw [List.find?_map]
  rfl

omit [DecidableEq K] in
theorem map_key_map {f : R → R} (hf : ∀ r ∈ rows, key (f r) = key r) :
    (rows.map f).map key = rows.map key := by
  rw [List.map_map]
  exact List.map_congr_left hf

/-- Deleting rows. -/
theorem rowAt_filter (hnodup : (rows.map key).Nodup) (p : R → Bool) :
    rowAt key (rows.filter p) k = (rowAt key rows k).filter p := by
  have hsub : ((rows.filter p).map key).Nodup := hnodup.sublist (List.filter_sublist.map _)
  refine Option.ext fun r ↦ ?_
  rw [rowAt_eq_some hsub, Option.filter_eq_some_iff, rowAt_eq_some hnodup, List.mem_filter]
  tauto

omit [DecidableEq K] in
theorem nodup_concat (hnodup : (rows.map key).Nodup) (hfresh : key r ∉ rows.map key) :
    ((rows ++ [r]).map key).Nodup := by
  rw [List.map_append, List.map_singleton, ← List.concat_eq_append]
  exact hnodup.concat hfresh

theorem upsert_of_fresh (hfresh : key r ∉ rows.map key) : upsert key rows r = rows ++ [r] := by
  unfold upsert
  rw [if_neg]
  intro hany
  obtain ⟨r', hr', hkey⟩ := List.any_eq_true.mp hany
  exact hfresh (List.mem_map.mpr ⟨r', hr', of_decide_eq_true hkey⟩)

theorem upsert_of_mem (hmem : key r ∈ rows.map key) :
    upsert key rows r = rows.map fun r' ↦ if key r' = key r then r else r' := by
  obtain ⟨r', hr', hkey⟩ := List.mem_map.mp hmem
  exact if_pos (List.any_eq_true.mpr ⟨r', hr', decide_eq_true hkey⟩)

theorem key_replace (r' : R) : key (if key r' = key r then r else r') = key r' := by
  split
  next hkey => exact hkey.symm
  next => rfl

/-- Only the row of the written key changes. -/
theorem rowAt_upsert :
    rowAt key (upsert key rows r) k = if key r = k then some r else rowAt key rows k := by
  by_cases hmem : key r ∈ rows.map key
  · rw [upsert_of_mem hmem, rowAt_map fun r' _ ↦ key_replace r']
    cases hrow : rowAt key rows k with
    | none =>
        have hk : key r ≠ k := fun hk ↦ rowAt_eq_none.mp hrow (hk ▸ hmem)
        rw [if_neg hk]
        rfl
    | some r' =>
        obtain ⟨-, rfl⟩ := rowAt_mem hrow
        rw [Option.map_some]
        by_cases hk : key r = key r'
        · rw [if_pos hk, if_pos hk.symm]
        · rw [if_neg hk, if_neg fun h ↦ hk h.symm]
  · rw [upsert_of_fresh hmem, rowAt_concat_of_fresh hmem]

theorem nodup_upsert (hnodup : (rows.map key).Nodup) :
    ((upsert key rows r).map key).Nodup := by
  by_cases hmem : key r ∈ rows.map key
  · rw [upsert_of_mem hmem, map_key_map fun r' _ ↦ key_replace r']
    exact hnodup
  · rw [upsert_of_fresh hmem]
    exact nodup_concat hnodup hmem

theorem mem_upsert {r' : R} (h : r' ∈ upsert key rows r) : r' = r ∨ r' ∈ rows := by
  by_cases hmem : key r ∈ rows.map key
  · rw [upsert_of_mem hmem] at h
    obtain ⟨r'', hr'', rfl⟩ := List.mem_map.mp h
    split
    · exact .inl rfl
    · exact .inr hr''
  · rw [upsert_of_fresh hmem] at h
    exact (List.mem_append.mp h).symm.imp_left List.mem_singleton.mp

/-- The rows of a group; a row of another group is not among them. -/
theorem filter_concat_group (key : R → K) (rows : List R) (r : R) (k : K) :
    (rows ++ [r]).filter (fun r ↦ key r = k) =
      rows.filter (fun r ↦ key r = k) ++ if key r = k then [r] else [] := by
  rw [List.filter_append]
  by_cases hk : key r = k
  · simp [hk]
  · simp [hk]

theorem filter_eq_nil_of_fresh (hfresh : k ∉ rows.map key) :
    rows.filter (fun r ↦ key r = k) = [] := by
  refine List.filter_eq_nil_iff.mpr fun r hr hkey ↦ hfresh ?_
  exact List.mem_map.mpr ⟨r, hr, of_decide_eq_true hkey⟩

end Foundations
