import MinaGuard.Clients.RebuildOwners
import MinaGuard.Instance.Book
import MinaGuard.Instance.Keys
import MinaGuard.Properties.Quorum

/-!
# Rebuilding from events is faithful

Whatever the order in which the events of a guard are delivered, and however
often each of them, a client rebuilds the owner list in its committed order,
the committed maps, and no divergent block.
-/

namespace MinaGuard

open Foundations

variable {E : Env} {T : Transcript E} {guards : Set PublicKey}

/-- The clients rebuild an initialized guard from its events, given in any order
and with repetitions. -/
theorem rebuild_faithful (B : Base58 E) {H : BlockHistory E} {L : Ledger} {g : PublicKey}
    (run : (ledgerSystem T guards).Run H.actions L) (hg : g ∈ guards)
    (hinit : (L.state g).ownersCommitment ≠ 0) (hrebuild : RebuildRecorded T g H.actions)
    {delivered : List (ℕ × Event)} (hdelivered : ∀ x, x ∈ delivered ↔ x ∈ H.published g) :
    ∃ stores map,
      rebuildStores B (delivered.map (indexed B)) none = .ok stores ∧
      CommitsOwners T (L.state g).ownersCommitment stores.ownerStore.owners ∧
      stores.ownerStore.getCommitment E = (L.state g).ownersCommitment ∧
      E.merkleMap.getRoot stores.approvalStore.map = (L.state g).approvalRoot ∧
      E.merkleMap.getRoot stores.nullifierStore.map = (L.state g).voteNullifierRoot ∧
      stores.firstDivergentBlock = ⟨none, none⟩ ∧
      rebuildChildExecutionMap (delivered.map (indexed B)) = .ok map ∧
      E.merkleMap.getRoot map = (L.state g).childExecutionRoot := by
  obtain ⟨v, hv, hstate, hinvariant⟩ := Run.active run hg hinit
  have htold := Run.ownersTold run hg hrebuild
  rw [hv] at htold
  obtain ⟨o, n, htold⟩ := htold
  have hsmall : v.configNonce ≤ 2 ^ 53 :=
    (configNonce_le_length hv).trans BlockHistory.length_actions_le
  obtain ⟨stores, hstores, howners, happrovals, hnullifiers, hdivergent⟩ :=
    rebuildStores_maps B run hg hdelivered
  rw [rebuildOwners_eq B htold hsmall hdelivered] at howners
  rw [hv] at happrovals hnullifiers
  refine ⟨stores, v.childExecutionMap E, hstores, ?_, ?_, ?_, ?_, hdivergent, ?_, ?_⟩
  · rw [hstate, howners]
    exact ⟨rfl, hinvariant.chained⟩
  · rw [hstate, howners]
    rfl
  · rw [hstate, happrovals]
    rfl
  · rw [hstate, hnullifiers]
    rfl
  · have hmap := rebuildChildExecutionMap_eq B run hg hdelivered
    rwa [hv] at hmap
  · rw [hstate]
    rfl

namespace Walkthrough

/-- The blocks that include the calls up to the addition of an owner. -/
def heights : List ℕ := [3, 3, 4, 4, 4, 7, 7, 9]

def history : BlockHistory tables.env where
  placed := heights.zip (actionsBeforeAdd ++ [add])
  ordered := by
    have hheights : (heights.zip (actionsBeforeAdd ++ [add])).map Prod.fst = heights := rfl
    have hordered : heights.Pairwise (· ≤ ·) := by decide
    rw [← hheights, List.pairwise_map] at hordered
    exact hordered
  height_lt := by
    have hlt : ∀ h ∈ heights, h < 2 ^ 32 := by decide
    exact fun x hx ↦ hlt x.1 (List.of_mem_zip hx).1
  block_le := by
    intro h
    have hlength : (heights.zip (actionsBeforeAdd ++ [add])).length = 8 := rfl
    have hle := List.length_filter_le (fun x ↦ decide (x.1 = h))
      (heights.zip (actionsBeforeAdd ++ [add]))
    omega

theorem history_actions : history.actions = actionsBeforeAdd ++ [add] := rfl

/-- The owners when the third one is added. -/
theorem owners_beforeAdd {v : Vault} (h : replay root actionsBeforeAdd = .active v) :
    v.owners = [ownerA, ownerB] := by
  have howners : (replay root actionsBeforeAdd).vault.owners = [ownerA, ownerB] := by
    decide +kernel
  rwa [h] at howners

/-- The transcript has every order in which the third owner might be added. -/
theorem rebuild_recorded : RebuildRecorded tables.transcript root history.actions := by
  intro front m F back v heq hv
  rw [history_actions] at heq
  rcases List.eq_nil_or_concat back with rfl | ⟨back, act, rfl⟩
  · obtain ⟨rfl, hlast⟩ := List.append_inj' heq rfl
    obtain ⟨-, rfl, -⟩ := Action.call.inj (List.cons.inj hlast).1
    intro _ i hi
    have hall : ∀ i ≤ 2, ∀ q ∈ ownerChainInputs tables.env ([ownerA, ownerB].insertIdx i ownerC),
        q ∈ tables.inputs := by decide +kernel
    rw [owners_beforeAdd hv] at hi ⊢
    exact hall i hi
  · -- no owner is added before
    have hcalls : ∀ m ∈ callsOn root actionsBeforeAdd, ∀ v : Vault,
        v.TriesHashed tables.transcript m := by
      have hlist : callsOn root actionsBeforeAdd =
        [setupRoot, proposeCreate, approveCreate, proposeAdd, approveAdd] := rfl
      rw [hlist]
      intro m hm v
      simp only [List.mem_cons, List.not_mem_nil, or_false] at hm
      rcases hm with rfl | rfl | rfl | rfl | rfl <;> trivial
    have hmem : Action.call root m F ∈ actionsBeforeAdd := by
      rw [List.concat_eq_append, ← List.cons_append, ← List.append_assoc] at heq
      rw [(List.append_inj' heq rfl).1]
      exact List.mem_append_right _ List.mem_cons_self
    exact hcalls m (mem_callsOn.mpr ⟨F, hmem⟩) v

/-- Delivered newest first, and then all again in order. -/
theorem root_rebuilt :
    ∃ stores map,
      rebuildStores base58 (((history.published root).reverse ++ history.published root).map
        (indexed base58)) none = .ok stores ∧
      CommitsOwners tables.transcript 4 stores.ownerStore.owners ∧
      stores.ownerStore.getCommitment tables.env = 4 ∧
      tables.env.merkleMap.getRoot stores.approvalStore.map =
        rootOf [(6, 3), (11, executedMarker)] ∧
      tables.env.merkleMap.getRoot stores.nullifierStore.map =
        rootOf [(7, 1), (8, 1), (12, 1), (13, 1)] ∧
      stores.firstDivergentBlock = ⟨none, none⟩ ∧
      rebuildChildExecutionMap (((history.published root).reverse ++
        history.published root).map (indexed base58)) = .ok map ∧
      tables.env.merkleMap.getRoot map = rootOf [] :=
  rebuild_faithful base58 (H := history) (L := added.ledger) (g := root) run_added
    List.mem_cons_self (by decide +kernel) rebuild_recorded (by simp)

end Walkthrough

end MinaGuard
