import MinaGuard.Contract.Data
import MinaGuard.Foundations.ChainCommitment
import MinaGuard.Foundations.Check

/-!
# The owner-list circuits

`list-commitment.ts`: the owner chain, the setup checks, membership, and the
two circuits that compute the chain after an owner is added or removed.  The
second half reads each circuit as a statement about the list of present keys.
-/

namespace MinaGuard

open Foundations

variable (E : Env)

def computeOwnerChain (owners : List PublicKey) : Fp :=
  Chain.digest E.ownerChainLink E.initialOwnerChain owners

/-- Folds in only the first `numOwners` slots. -/
def computeSetupOwnersChain (owners : SetupOwnersInput) (numOwners : Fp) : Fp :=
  owners.toList.zipIdx.foldl
    (fun currentChain slot ↦
      let next := E.ownerChainLink currentChain slot.1
      if lessThan (slot.2 : Fp) numOwners then next else currentChain)
    E.initialOwnerChain

/-- `toGroup()` on `pk` when `check` holds, on a curve point otherwise. -/
def assertOnCurveIf (check : Prop) [Decidable check] (pk : PublicKey) : Check :=
  assertTrue (E.onCurve (if check then pk else E.generator) = true)
    "x is not the abscissa of a curve point"

/-- The body of `assertCoherentSetupOwners`, slot by slot against all later
slots. -/
def assertCoherentSlots (numOwners : Fp) : List (PublicKey × ℕ) → Check
  | [] => pure ()
  | slot :: rest => do
      let active := lessThan (slot.2 : Fp) numOwners
      let isEmpty := slot.1 = PublicKey.empty
      assertTrue (active ∨ isEmpty) "Padding slot must be empty"
      assertFalse (active ∧ isEmpty) "Active owner must be non-empty"
      assertOnCurveIf E active slot.1
      forM rest fun later ↦
        assertFalse
          (slot.1.x = later.1.x ∧ active ∧ lessThan (later.2 : Fp) numOwners)
          "Duplicate owner in setup list"
      assertCoherentSlots numOwners rest

def assertCoherentSetupOwners (owners : SetupOwnersInput) (numOwners : Fp) : Check :=
  assertCoherentSlots E numOwners owners.toList.zipIdx

def assertOwnerMembership (ownerCommitment : Fp) (claimedOwner : PublicKey)
    (ownersWitness : OwnerWitness) : Check := do
  let (found, currentChain) := ownersWitness.toList.foldl
    (fun (found, currentChain) o ↦
      let newChain := E.ownerChainLink currentChain o.value
      (if claimedOwner = o.value ∧ o.isSome then true else found,
        if o.isSome then newChain else currentChain))
    (false, E.initialOwnerChain)
  assertTrue (found = true) "Claimed owner not a member of owners."
  assertTrue (currentChain = ownerCommitment) "Owner list mismatch"

/-- Loop state of `addOwnerToCommitment`. -/
structure AddState where
  currentChain : Fp
  newChain : Fp
  foundOwner : Bool
  foundPosition : Bool

def addOwnerStep (ownerToAdd : PublicKey) (insertAfter : PublicKeyOption)
    (s : AddState) (o : PublicKeyOption) : AddState :=
  let currentChain :=
    if o.isSome then E.ownerChainLink s.currentChain o.value else s.currentChain
  let newChain :=
    if o.isSome then E.ownerChainLink s.newChain o.value else s.newChain
  let toAdd := E.ownerChainLink newChain ownerToAdd
  let isPosition := o.value = insertAfter.value ∧ o.isSome ∧ insertAfter.isSome
  { currentChain
    newChain := if isPosition then toAdd else newChain
    foundOwner :=
      if o.value.x = ownerToAdd.x ∧ o.isSome then true else s.foundOwner
    foundPosition := if isPosition then true else s.foundPosition }

/-- The chain after the insertion, and whether the operation is valid. -/
def addOwnerToCommitment (ownerCommitment : Fp) (ownerToAdd : PublicKey)
    (ownersWitness : OwnerWitness) (insertAfter : PublicKeyOption) : Fp × Bool :=
  let prepend := !insertAfter.isSome
  let prependHash := E.ownerChainLink E.initialOwnerChain ownerToAdd
  let s := ownersWitness.toList.foldl (addOwnerStep E ownerToAdd insertAfter)
    { currentChain := E.initialOwnerChain
      newChain := if prepend then prependHash else E.initialOwnerChain
      foundOwner := false
      foundPosition := prepend }
  (s.newChain,
    !s.foundOwner && s.foundPosition && decide (s.currentChain = ownerCommitment))

/-- Loop state of `removeOwnerFromCommitment`. -/
structure RemoveState where
  currentChain : Fp
  newChain : Fp
  foundOwner : Bool
  remaining : Fp

def removeOwnerStep (ownerToRemove : PublicKey) (s : RemoveState)
    (o : PublicKeyOption) : RemoveState :=
  let isPosition := o.value = ownerToRemove ∧ o.isSome
  { currentChain :=
      if o.isSome then E.ownerChainLink s.currentChain o.value else s.currentChain
    remaining := s.remaining + toField (o.isSome && !decide isPosition)
    newChain :=
      if o.isSome ∧ ¬isPosition then E.ownerChainLink s.newChain o.value
      else s.newChain
    foundOwner := if isPosition then true else s.foundOwner }

/-- The chain after the removal, and whether the operation is valid. -/
def removeOwnerFromCommitment (ownerCommitment : Fp) (ownerToRemove : PublicKey)
    (ownersWitness : OwnerWitness) : Fp × Bool :=
  let s := ownersWitness.toList.foldl (removeOwnerStep E ownerToRemove)
    { currentChain := E.initialOwnerChain
      newChain := E.initialOwnerChain
      foundOwner := false
      remaining := 0 }
  (s.newChain,
    s.foundOwner && decide (s.currentChain = ownerCommitment) &&
      decide (greaterThan s.remaining 0))

/-- The keys of the occupied slots, gaps skipped. -/
def presentKeys (slots : List PublicKeyOption) : List PublicKey :=
  slots.filterMap fun o ↦ if o.isSome then some o.value else none

@[simp] theorem presentKeys_nil : presentKeys [] = [] := rfl

theorem presentKeys_cons_some {o : PublicKeyOption} (h : o.isSome = true)
    (slots : List PublicKeyOption) :
    presentKeys (o :: slots) = o.value :: presentKeys slots := by
  simp [presentKeys, h]

theorem presentKeys_cons_none {o : PublicKeyOption} (h : o.isSome = false)
    (slots : List PublicKeyOption) :
    presentKeys (o :: slots) = presentKeys slots := by
  simp [presentKeys, h]

theorem toList_padded {α : Type} {n : ℕ} {l : List α} (h : l.length ≤ n) (x : α) :
    (padded n l x).toList = l ++ List.replicate (n - l.length) x := by
  change (l ++ List.replicate n x).take n = _
  rw [List.take_append, List.take_of_length_le h, List.take_replicate,
    Nat.min_eq_left (Nat.sub_le _ _)]

/-- A list that fits is what its witness carries. -/
theorem presentKeys_ownerWitness {owners : List PublicKey} (h : owners.length ≤ maxOwners) :
    presentKeys (ownerWitness owners).toList = owners := by
  unfold ownerWitness presentKeys
  rw [toList_padded (by simpa using h)]
  simp [List.filterMap_append]

variable {E}

theorem membership_foldl (claimed : PublicKey) (slots : List PublicKeyOption)
    (found : Bool) (chain : Fp) :
    slots.foldl
      (fun (acc : Bool × Fp) o ↦
        (if claimed = o.value ∧ o.isSome then true else acc.1,
          if o.isSome then E.ownerChainLink acc.2 o.value else acc.2))
      (found, chain) =
    (found || decide (claimed ∈ presentKeys slots),
      Chain.digest E.ownerChainLink chain (presentKeys slots)) := by
  induction slots generalizing found chain with
  | nil => simp
  | cons o slots ih =>
      rw [List.foldl_cons, ih]
      cases hsome : o.isSome with
      | false => simp [presentKeys_cons_none hsome]
      | true =>
          by_cases heq : claimed = o.value <;>
            simp [presentKeys_cons_some hsome, heq]

/-- Membership is checked in the list whose chain is the commitment. -/
theorem assertOwnerMembership_ok {commitment : Fp} {claimed : PublicKey}
    {witness : OwnerWitness} :
    assertOwnerMembership E commitment claimed witness = .ok () ↔
      claimed ∈ presentKeys witness.toList ∧
        computeOwnerChain E (presentKeys witness.toList) = commitment := by
  have hfold := membership_foldl (E := E) claimed witness.toList false
    E.initialOwnerChain
  simp only [assertOwnerMembership, hfold, Check.bind_ok, Check.assertTrue_ok]
  simp [computeOwnerChain]

end MinaGuard
