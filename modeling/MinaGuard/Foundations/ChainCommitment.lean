import Mathlib.Data.Set.Function
import Mathlib.Data.List.Induction

/-!
# Hash chains as list commitments

A chain folds a link function over a list, starting from a fixed seed.  If the
link function has no collision among the inputs it has been asked for, and
never returns the seed on them, then the chain determines the list.  Nothing
is assumed about inputs that were never hashed.
-/

namespace Foundations

universe u v

namespace Chain

variable {D : Type u} {A : Type v} (link : D → A → D)

/-- The digest of `l`, continuing a chain whose digest so far is `d`. -/
def digest (d : D) (l : List A) : D := l.foldl link d

/-- The link inputs that computing `digest d l` asks for, in order. -/
def inputs : D → List A → List (D × A)
  | _, [] => []
  | d, a :: l => (d, a) :: inputs (link d a) l

@[simp] theorem digest_nil (d : D) : digest link d [] = d := rfl

@[simp] theorem digest_cons (d : D) (a : A) (l : List A) :
    digest link d (a :: l) = digest link (link d a) l := rfl

@[simp] theorem digest_append (d : D) (l l' : List A) :
    digest link d (l ++ l') = digest link (digest link d l) l' :=
  List.foldl_append ..

@[simp] theorem inputs_nil (d : D) : inputs link d ([] : List A) = [] := rfl

@[simp] theorem inputs_cons (d : D) (a : A) (l : List A) :
    inputs link d (a :: l) = (d, a) :: inputs link (link d a) l := rfl

theorem inputs_append (d : D) (l l' : List A) :
    inputs link d (l ++ l') =
      inputs link d l ++ inputs link (digest link d l) l' := by
  induction l generalizing d with
  | nil => rfl
  | cons a l ih => simp [ih]

theorem mem_inputs_concat (d : D) (l : List A) (a : A) :
    (digest link d l, a) ∈ inputs link d (l ++ [a]) := by
  simp [inputs_append]

theorem inputs_subset_concat (d : D) (l : List A) (a : A) :
    inputs link d l ⊆ inputs link d (l ++ [a]) := by
  rw [inputs_append]
  exact List.subset_append_left _ _

/-- The digest of a nonempty list is the value of one of its links. -/
theorem digest_mem_image (d : D) {l : List A} (hl : l ≠ []) :
    ∃ q ∈ inputs link d l, digest link d l = link q.1 q.2 := by
  induction l using List.reverseRecOn with
  | nil => exact absurd rfl hl
  | append_singleton l a _ =>
      exact ⟨(digest link d l, a), mem_inputs_concat link d l a, by simp⟩

variable {link}

/-- Two lists whose links lie in a collision-free set, and whose digests from
the same seed agree, are equal. -/
theorem digest_inj {S : Set (D × A)} {d : D}
    (hinj : Set.InjOn (fun q : D × A ↦ link q.1 q.2) S)
    (hseed : ∀ q ∈ S, link q.1 q.2 ≠ d) :
    ∀ {l l' : List A}, (∀ q ∈ inputs link d l, q ∈ S) →
      (∀ q ∈ inputs link d l', q ∈ S) →
      digest link d l = digest link d l' → l = l' := by
  intro l
  induction l using List.reverseRecOn with
  | nil =>
      intro l' _ hl' heq
      by_contra hne
      obtain ⟨q, hq, hval⟩ := digest_mem_image link d (Ne.symm hne)
      exact hseed q (hl' q hq) (hval ▸ heq.symm)
  | append_singleton l a ih =>
      intro l' hl hl' heq
      induction l' using List.reverseRecOn with
      | nil =>
          exact absurd (by simpa using heq)
            (hseed _ (hl _ (mem_inputs_concat link d l a)))
      | append_singleton l' a' _ =>
          have hlast : (digest link d l, a) = (digest link d l', a') :=
            hinj (hl _ (mem_inputs_concat link d l a))
              (hl' _ (mem_inputs_concat link d l' a')) (by simpa using heq)
          have hfront : l = l' :=
            ih (fun q hq ↦ hl q (inputs_subset_concat link d l a hq))
              (fun q hq ↦ hl' q (inputs_subset_concat link d l' a' hq))
              (congrArg Prod.fst hlast)
          rw [hfront, show a = a' from congrArg Prod.snd hlast]

end Chain

end Foundations
