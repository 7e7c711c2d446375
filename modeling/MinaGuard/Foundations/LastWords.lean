import Mathlib.Data.List.Induction

/-!
# The last word

A log of pairs says a value about each key again and again; what counts is the last.
-/

namespace Foundations

universe u v

variable {K : Type u} {V : Type v} [DecidableEq K]

/-- What the log says last about the key. -/
def lastWord (log : List (K × V)) (k : K) : Option V :=
  log.foldl (fun word x ↦ if x.1 = k then some x.2 else word) none

variable {log more : List (K × V)} {k : K}

@[simp] theorem lastWord_nil : lastWord ([] : List (K × V)) k = none := rfl

theorem lastWord_concat (x : K × V) :
    lastWord (log ++ [x]) k = if x.1 = k then some x.2 else lastWord log k := by
  unfold lastWord
  rw [List.foldl_append]
  rfl

/-- If the log says the same value of everything, it says it of what it mentions. -/
theorem lastWord_eq_some_iff_of_forall {b : V} (h : ∀ x ∈ log, x.2 = b) :
    lastWord log k = some b ↔ k ∈ log.map Prod.fst := by
  induction log using List.reverseRecOn with
  | nil => simp
  | append_singleton log x ih =>
      have hlog := ih fun y hy ↦ h y (List.mem_append_left _ hy)
      rw [lastWord_concat, List.map_append, List.mem_append, List.map_singleton,
        List.mem_singleton]
      by_cases hk : x.1 = k
      · rw [if_pos hk, h x (List.mem_append_right _ (List.mem_singleton_self _))]
        exact ⟨fun _ ↦ .inr hk.symm, fun _ ↦ rfl⟩
      · rw [if_neg hk, hlog]
        exact ⟨.inl, fun hmem ↦ hmem.resolve_right fun heq ↦ hk heq.symm⟩

/-- Renaming the keys apart does not change what is said. -/
theorem lastWord_map {K' : Type*} [DecidableEq K'] {f : K → K'} (hf : Function.Injective f) :
    lastWord (log.map fun x ↦ (f x.1, x.2)) (f k) = lastWord log k := by
  induction log using List.reverseRecOn with
  | nil => rfl
  | append_singleton log x ih =>
      rw [List.map_append, List.map_singleton, lastWord_concat, lastWord_concat, ih]
      exact if_congr hf.eq_iff rfl rfl

/-- Only keys that the log mentions have a word. -/
theorem mem_of_lastWord_eq_some {b : V} (h : lastWord log k = some b) : (k, b) ∈ log := by
  induction log using List.reverseRecOn with
  | nil => cases h
  | append_singleton log x ih =>
      rw [lastWord_concat] at h
      split at h
      · next hk =>
          obtain rfl := Option.some.inj h
          rw [← hk]
          exact List.mem_append_right _ (List.mem_singleton_self _)
      · exact List.mem_append_left _ (ih h)

theorem lastWord_map_eq_some_iff {K' : Type*} [DecidableEq K'] {f : K → K'}
    (hf : Function.Injective f) {k' : K'} {b : V} :
    lastWord (log.map fun x ↦ (f x.1, x.2)) k' = some b ↔
      ∃ k, lastWord log k = some b ∧ f k = k' := by
  constructor
  · intro h
    obtain ⟨x, -, hx⟩ := List.mem_map.mp (mem_of_lastWord_eq_some h)
    obtain rfl := (Prod.mk.inj hx).1
    exact ⟨x.1, by rwa [lastWord_map hf] at h, rfl⟩
  · rintro ⟨k, h, rfl⟩
    rwa [lastWord_map hf]

end Foundations
