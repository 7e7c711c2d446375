import Mathlib.Logic.Relation
import Mathlib.Data.List.Induction

/-!
# Labelled transition systems and their runs

Runs are lists of labels, oldest first.  The rules at the end are the only
inductions over runs that a development needs: an invariant that may look at
the run so far, a predicate that every step preserves, and a view of the state
that every step computes.
-/

namespace Foundations

universe u v

/-- Initial states and labelled steps. -/
structure TransitionSystem (σ : Type u) (α : Type v) where
  init : σ → Prop
  step : σ → α → σ → Prop

namespace TransitionSystem

variable {σ : Type u} {α : Type v} (S : TransitionSystem σ α)

/-- The labels `as`, taken in order, lead from `s` to `t`. -/
def Path : σ → List α → σ → Prop
  | s, [], t => s = t
  | s, a :: as, t => ∃ m, S.step s a m ∧ Path m as t

/-- A path from some initial state. -/
def Run (as : List α) (t : σ) : Prop :=
  ∃ s, S.init s ∧ S.Path s as t

/-- The system of a function that says where a label leads, if anywhere. -/
def ofFunction (init : σ → Prop) (f : σ → α → Option σ) : TransitionSystem σ α where
  init := init
  step s a t := f s a = some t

/-- The steps that meet a condition on the state and the label. -/
def restrict (C : σ → α → Prop) : TransitionSystem σ α where
  init := S.init
  step s a t := C s a ∧ S.step s a t

variable {S}

@[simp] theorem path_nil {s t : σ} : S.Path s [] t ↔ s = t := Iff.rfl

@[simp] theorem path_cons {s t : σ} {a : α} {as : List α} :
    S.Path s (a :: as) t ↔ ∃ m, S.step s a m ∧ S.Path m as t := Iff.rfl

theorem path_append {s t : σ} {as bs : List α} :
    S.Path s (as ++ bs) t ↔ ∃ m, S.Path s as m ∧ S.Path m bs t := by
  induction as generalizing s with
  | nil => simp
  | cons a as ih =>
      simp only [List.cons_append, path_cons, ih]
      constructor
      · rintro ⟨m, hm, k, hk, ht⟩
        exact ⟨k, ⟨m, hm, hk⟩, ht⟩
      · rintro ⟨k, ⟨m, hm, hk⟩, ht⟩
        exact ⟨m, hm, k, hk, ht⟩

theorem Path.trans {s t u : σ} {as bs : List α}
    (h : S.Path s as t) (h' : S.Path t bs u) : S.Path s (as ++ bs) u :=
  path_append.mpr ⟨t, h, h'⟩

theorem path_singleton {s t : σ} {a : α} : S.Path s [a] t ↔ S.step s a t := by
  simp

theorem Run.extend {s t : σ} {as bs : List α}
    (h : S.Run as s) (h' : S.Path s bs t) : S.Run (as ++ bs) t := by
  obtain ⟨s₀, hinit, hpath⟩ := h
  exact ⟨s₀, hinit, hpath.trans h'⟩

theorem Run.step {s t : σ} {as : List α} {a : α}
    (h : S.Run as s) (h' : S.step s a t) : S.Run (as ++ [a]) t :=
  h.extend (path_singleton.mpr h')

/-- A run through a marked label passes through the states around it. -/
theorem Run.split {t : σ} {as bs : List α} {a : α}
    (h : S.Run (as ++ a :: bs) t) :
    ∃ s s', S.Run as s ∧ S.step s a s' ∧ S.Path s' bs t := by
  obtain ⟨s₀, hinit, hpath⟩ := h
  obtain ⟨s, hs, hrest⟩ := path_append.mp hpath
  obtain ⟨s', hstep, htail⟩ := path_cons.mp hrest
  exact ⟨s, s', ⟨s₀, hinit, hs⟩, hstep, htail⟩

/-- Every label of a run was taken between two states of it. -/
theorem Run.exists_step {t : σ} {as : List α} {a : α} (h : S.Run as t) (ha : a ∈ as) :
    ∃ front back s s', as = front ++ a :: back ∧ S.Run front s ∧ S.step s a s' ∧
      S.Path s' back t := by
  obtain ⟨front, back, rfl⟩ := List.append_of_mem ha
  obtain ⟨s, s', hrun, hstep, hpath⟩ := h.split
  exact ⟨front, back, s, s', rfl, hrun, hstep, hpath⟩

theorem path_ofFunction {init : σ → Prop} {f : σ → α → Option σ} {s t : σ} {as : List α} :
    (ofFunction init f).Path s as t ↔ as.foldlM f s = some t := by
  induction as generalizing s with
  | nil => exact Option.some_inj.symm
  | cons a as ih =>
      rw [List.foldlM_cons, path_cons]
      refine Iff.trans ?_ Option.bind_eq_some_iff.symm
      exact exists_congr fun m ↦ and_congr_right fun _ ↦ ih

/-- An invariant of a state together with the run that led to it. -/
theorem Run.invariant (I : List α → σ → Prop)
    (hinit : ∀ s, S.init s → I [] s)
    (hstep : ∀ as s a t, S.Run as s → I as s → S.step s a t → I (as ++ [a]) t) :
    ∀ {as t}, S.Run as t → I as t := by
  intro as
  induction as using List.reverseRecOn with
  | nil =>
      rintro t ⟨s, hs, rfl⟩
      exact hinit s hs
  | append_singleton as a ih =>
      intro t h
      obtain ⟨s, s', hrun, hs, hnil⟩ := h.split
      obtain rfl : s' = t := hnil
      exact hstep as s a s' hrun (ih hrun) hs

/-- A predicate kept by every step is kept along every path. -/
theorem Path.preserves (I : σ → Prop)
    (hstep : ∀ s a t, I s → S.step s a t → I t) :
    ∀ {as s t}, S.Path s as t → I s → I t := by
  intro as
  induction as with
  | nil =>
      rintro s t rfl hs
      exact hs
  | cons a as ih =>
      rintro s t ⟨m, hm, hpath⟩ hs
      exact ih hpath (hstep s a m hs hm)

/-- If every step acts on what is seen of the state, a path is a fold of its labels. -/
theorem Path.foldl {τ : Type*} (I : σ → Prop) (view : σ → τ) (next : τ → α → τ)
    (hstep : ∀ s a t, I s → S.step s a t → I t ∧ view t = next (view s) a) :
    ∀ {as s t}, S.Path s as t → I s → I t ∧ view t = as.foldl next (view s) := by
  intro as
  induction as with
  | nil =>
      rintro s t rfl hs
      exact ⟨hs, rfl⟩
  | cons a as ih =>
      rintro s t ⟨m, hm, hpath⟩ hs
      obtain ⟨hI, hview⟩ := hstep s a m hs hm
      rw [List.foldl_cons, ← hview]
      exact ih hpath hI

end TransitionSystem

end Foundations
