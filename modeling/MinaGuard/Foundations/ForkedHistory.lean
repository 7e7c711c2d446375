import Mathlib.Data.List.Basic
import Mathlib.Data.List.Induction
import Mathlib.Data.Setoid.Basic

/-!
# Histories that fork

A machine acts on a history of which the end is sometimes replaced: a rollback forgets the
actions above a fork.  If a rollback commutes with the actions below the fork and absorbs
those above it, the machine is in the end where the actions that remain lead.
-/

namespace Foundations

universe u v w

/-- A machine with rollbacks.  Some differences between states do not matter. -/
structure ForkedMachine (σ : Type u) (α : Type v) (F : Type w) where
  init : σ
  next : σ → α → σ
  /-- The fork, if the action is a rollback. -/
  fork : α → Option F
  rollback : F → σ → σ
  isAbove : F → α → Bool
  same : Setoid σ
  /-- What can happen on one chain. -/
  admits : σ → α → Prop
  /-- Where differences that do not matter do not come to matter. -/
  safe : σ → α → Prop
  next_fork : ∀ {s a f}, fork a = some f → next s a = rollback f s
  keep : ∀ {s a f}, admits s a → isAbove f a = false →
    same (rollback f (next s a)) (next (rollback f s) a)
  drop : ∀ {s a f}, admits s a → isAbove f a = true → same (rollback f (next s a)) (rollback f s)
  safe_of_admits : ∀ {s a}, admits s a → safe s a
  safe_rollback : ∀ {s a f}, admits s a → isAbove f a = false → safe (rollback f s) a
  next_congr : ∀ {s t a}, same s t → safe s a → same (next s a) (next t a)
  rollback_congr : ∀ {s t f}, same s t → same (rollback f s) (rollback f t)
  rollback_init : ∀ {f}, same (rollback f init) init

namespace ForkedMachine

variable {σ : Type u} {α : Type v} {F : Type w} (M : ForkedMachine σ α F)

/-- Where the actions lead. -/
def run (as : List α) : σ := as.foldl M.next M.init

/-- The actions that no rollback took back. -/
def remaining (as : List α) : List α :=
  as.foldl (fun rest a ↦
    match M.fork a with
    | some f => rest.filter fun b ↦ !M.isAbove f b
    | none => rest ++ [a]) []

/-- The history of one chain. -/
def Genuine (as : List α) : Prop :=
  ∀ front a, front ++ [a] <+: as → M.admits (M.run front) a

variable {M} {as : List α} {a : α} {f : F}

theorem run_concat : M.run (as ++ [a]) = M.next (M.run as) a := List.foldl_concat ..

theorem remaining_concat : M.remaining (as ++ [a]) =
    match M.fork a with
    | some f => (M.remaining as).filter fun b ↦ !M.isAbove f b
    | none => M.remaining as ++ [a] := List.foldl_concat ..

theorem Genuine.of_concat (h : M.Genuine (as ++ [a])) :
    M.Genuine as ∧ M.admits (M.run as) a :=
  ⟨fun front b hb ↦ h front b (hb.trans (List.prefix_append _ _)), h as a (List.prefix_refl _)⟩

/-- A rollback of one chain leads where its actions below the fork lead. -/
theorem Genuine.rollback (h : M.Genuine as) (f : F) :
    M.same (M.rollback f (M.run as)) (M.run (as.filter fun a ↦ !M.isAbove f a)) := by
  induction as using List.reverseRecOn with
  | nil => exact M.rollback_init
  | append_singleton as a ih =>
      obtain ⟨hgenuine, hadmits⟩ := h.of_concat
      have hbelow := ih hgenuine
      rw [run_concat, List.filter_append]
      cases habove : M.isAbove f a with
      | true =>
          rw [List.filter_cons_of_neg (by simp [habove]), List.filter_nil, List.append_nil]
          exact M.same.trans (M.drop hadmits habove) hbelow
      | false =>
          rw [List.filter_cons_of_pos (by simp [habove]), List.filter_nil, run_concat]
          exact M.same.trans (M.keep hadmits habove)
            (M.next_congr hbelow (M.safe_rollback hadmits habove))

/-- However often the history forked, the machine is where the actions that remain lead. -/
theorem run_same (h : ∀ front, front <+: as → M.Genuine (M.remaining front)) :
    M.same (M.run as) (M.run (M.remaining as)) := by
  induction as using List.reverseRecOn with
  | nil => exact M.same.refl _
  | append_singleton as a ih =>
      have hsame := ih fun front hfront ↦ h front (hfront.trans (List.prefix_append _ _))
      have hgenuine := h (as ++ [a]) (List.prefix_refl _)
      rw [remaining_concat] at hgenuine ⊢
      rw [run_concat]
      cases hfork : M.fork a with
      | some f =>
          rw [M.next_fork hfork]
          exact M.same.trans (M.rollback_congr hsame)
            ((h as (List.prefix_append _ _)).rollback f)
      | none =>
          rw [hfork] at hgenuine
          rw [run_concat]
          exact M.same.symm (M.next_congr (M.same.symm hsame)
            (M.safe_of_admits hgenuine.of_concat.2))

end ForkedMachine

end Foundations
