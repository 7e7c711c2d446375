import Mathlib.Data.Set.Function
import Mathlib.Logic.Function.Basic

/-!
# Authenticated maps

A map commitment gives every total map a root and lets a witness open the
root at one key.  Replacing the opened value by another one along the same
witness gives a new root.  `Binding` is what such a commitment promises on the
maps and witnesses that have actually been used.
-/

namespace Foundations

universe u v w x

/-- Roots of maps from `K` to `V`, and the root and key a witness computes for
a claimed value. -/
structure MapCommitment (K : Type u) (V : Type v) (R : Type w) (W : Type x) where
  getRoot : (K → V) → R
  computeRootAndKey : W → V → R × K

namespace MapCommitment

variable {K : Type u} {V : Type v} {R : Type w} {W : Type x} [DecidableEq K]

/-- On the maps `maps` and the witnesses `used`: a root determines its map, a
witness that reaches the root of a map shows the value the map has at its key,
and recomputing along the same witness writes that key and nothing else. -/
structure Binding (c : MapCommitment K V R W) (maps : Set (K → V))
    (used : Set W) : Prop where
  getRoot_injOn : Set.InjOn c.getRoot maps
  opens : ∀ w ∈ used, ∀ m ∈ maps, ∀ v,
    (c.computeRootAndKey w v).1 = c.getRoot m →
      m (c.computeRootAndKey w v).2 = v
  writes : ∀ w ∈ used, ∀ m ∈ maps, ∀ v v',
    (c.computeRootAndKey w v).1 = c.getRoot m →
      c.computeRootAndKey w v' =
        (c.getRoot (Function.update m (c.computeRootAndKey w v).2 v'),
          (c.computeRootAndKey w v).2)

/-- Whoever has the whole map: the witness for a key shows its value in the map. -/
def Opens (c : MapCommitment K V R W) (getWitness : (K → V) → K → W) : Prop :=
  ∀ m k, c.computeRootAndKey (getWitness m k) (m k) = (c.getRoot m, k)

variable {c : MapCommitment K V R W} {maps : Set (K → V)} {used : Set W}

/-- The value shown by a witness is the committed one. -/
theorem Binding.read (h : c.Binding maps used) {w : W} (hw : w ∈ used)
    {m : K → V} (hm : m ∈ maps) {k : K} {v : V}
    (hroot : (c.computeRootAndKey w v).1 = c.getRoot m)
    (hkey : (c.computeRootAndKey w v).2 = k) : m k = v := by
  subst hkey
  exact h.opens w hw m hm v hroot

/-- The root a witness computes for a new value commits to the updated map. -/
theorem Binding.write (h : c.Binding maps used) {w : W} (hw : w ∈ used)
    {m : K → V} (hm : m ∈ maps) {k : K} {v : V}
    (hroot : (c.computeRootAndKey w v).1 = c.getRoot m)
    (hkey : (c.computeRootAndKey w v).2 = k) (v' : V) :
    (c.computeRootAndKey w v').1 = c.getRoot (Function.update m k v') := by
  subst hkey
  rw [h.writes w hw m hm v v' hroot]

/-- Committed maps that differ somewhere have different roots. -/
theorem Binding.getRoot_ne (h : c.Binding maps used) {m m' : K → V}
    (hm : m ∈ maps) (hm' : m' ∈ maps) {k : K} (hne : m k ≠ m' k) :
    c.getRoot m ≠ c.getRoot m' := by
  intro heq
  exact hne (congrFun (h.getRoot_injOn hm hm' heq) k)

end MapCommitment

end Foundations
