import MinaGuard.Properties.StoreCache

/-!
# Checkpoints are lossless and can be trusted

Stores rebuilt from the events of a guard survive a checkpoint.  A checkpoint
from anywhere is accepted for an offline request only with the owners and the
leaves that the account commits to, whatever texts it is made of.
-/

namespace MinaGuard

open Foundations

variable {E : Env} {T : Transcript E} {guards : Set PublicKey} (B : Base58 E)

/-- Stores that a client rebuilds from the history of `g`: from all events, from
later ones on stores it has, or by way of a checkpoint. -/
inductive RebuiltFrom (g : PublicKey) : BlockHistory E → RebuiltStores → Prop where
  | full {H : BlockHistory E} {delivered : List (ℕ × Event)} {stores : RebuiltStores}
      (delivers : ∀ x, x ∈ delivered ↔ x ∈ H.published g)
      (rebuilt : rebuildStores B (delivered.map (indexed B)) none = .ok stores) :
      RebuiltFrom g H stores
  | since {H : BlockHistory E} {floor : ℕ} {v : Vault} {delivered : List (ℕ × Event)}
      {before stores : RebuiltStores} (start : RebuiltFrom g (H.below floor) before)
      (active : replay g (H.below floor).actions = .active v)
      (delivers : ∀ x, x ∈ delivered ↔ x ∈ H.published g ∧ floor ≤ x.1)
      (rebuilt : rebuildStores B (delivered.map (indexed B)) (some before) = .ok stores) :
      RebuiltFrom g H stores
  | restored {H : BlockHistory E} {scope : StoreScope} {throughBlock : Option ℕ}
      {before stores : RebuiltStores} (start : RebuiltFrom g H before)
      (through : ∀ height ∈ throughBlock, height ≤ maxSafeInteger)
      (restored : restoreStoreCheckpoint B (checkpointStores B before scope throughBlock) scope =
        .ok stores) :
      RebuiltFrom g H stores

section

variable {H : BlockHistory E} {L : Ledger} {g : PublicKey} {delivered : List (ℕ × Event)}
  {stores : RebuiltStores}

/-- Before its setup a guard has told nothing about owners. -/
theorem rebuildOwners_untold (hslots : setupSlotsOf (published g H.actions) = [])
    (hchanges : ownerChangesOf (published g H.actions) = [])
    (hdelivered : ∀ x, x ∈ delivered ↔ x ∈ H.published g) :
    rebuildOwners B (delivered.map (indexed B)) none = ⟨[]⟩ := by
  have hpublished {x : ℕ × Event} (hx : x ∈ delivered) : x.2 ∈ published g H.actions :=
    BlockHistory.mem_published_actions.mpr ⟨x.1, (hdelivered x).mp hx⟩
  have hnoChange : (delivered.map (indexed B)).filter isOwnerChange = [] := by
    rw [List.filter_eq_nil_iff]
    intro e he
    obtain ⟨x, hx, rfl⟩ := List.mem_map.mp he
    rw [isOwnerChange_indexed]
    exact List.filter_eq_nil_iff.mp hchanges x.2 (hpublished hx)
  have hnoSlot : delivered.filterMap (slotEntry E) = [] := by
    rw [List.filterMap_eq_nil_iff]
    intro x hx
    unfold slotEntry
    rw [List.filterMap_eq_nil_iff.mp hslots x.2 (hpublished hx)]
  have hsorted : orderedChanges (delivered.map (indexed B)) = [] := by
    unfold orderedChanges
    rw [hnoChange]
    exact List.mergeSort_nil
  unfold rebuildOwners setupOwnerStore
  rw [hsorted, setupSlots_indexed, hnoSlot]
  rfl

/-- Rebuilt stores fit a checkpoint; those of an active guard hold what it told. -/
theorem RebuiltFrom.reproduces (h : RebuiltFrom B g H stores)
    (run : (ledgerSystem T guards).Run H.actions L) (hg : g ∈ guards)
    (hrecorded : RebuildRecorded T g H.actions) :
    stores.Storable E ∧ ∀ v, replay g H.actions = .active v → Reproduces E g H.actions stores := by
  induction h generalizing L with
  | @full H delivered stores hdelivered hrebuilt =>
      have hactive (v : Vault) (hv : replay g H.actions = .active v) :
          Reproduces E g H.actions stores := by
        obtain ⟨stores', hstores, hreproduces⟩ :=
          rebuildStores_reproduces B run hg hrecorded hv hdelivered
        obtain rfl := Except.ok.inj (hrebuilt.symm.trans hstores)
        exact hreproduces
      refine ⟨?_, hactive⟩
      by_cases hphase : ∃ v, replay g H.actions = .active v
      · obtain ⟨v, hv⟩ := hphase
        exact (hactive v hv).storable
      · have htold := Run.ownersTold run hg hrecorded
        obtain ⟨hslots, hchanges⟩ : setupSlotsOf (published g H.actions) = [] ∧
            ownerChangesOf (published g H.actions) = [] := by
          cases hcase : replay g H.actions with
          | active v => exact absurd ⟨v, hcase⟩ hphase
          | vacant => rwa [hcase] at htold
          | reserved => rwa [hcase] at htold
        have hkeyed := rebuildStores_keyed B (by simp) hrebuilt
        obtain ⟨stores', hstores, howners, -⟩ := rebuildStores_maps B run hg hdelivered
        obtain rfl := Except.ok.inj (hrebuilt.symm.trans hstores)
        rw [rebuildOwners_untold B hslots hchanges hdelivered] at howners
        refine ⟨?_, ?_, hkeyed⟩
        · simp [howners]
        · simp [howners]
  | @since H floor v delivered before stores _ hv hdelivered hrebuilt ih =>
      obtain ⟨M, hbelow, -⟩ := BlockHistory.run_below run floor
      have hfront : RebuildRecorded T g (H.below floor).actions := by
        rw [← H.below_append_since floor] at hrecorded
        exact hrecorded.front
      obtain ⟨stores', hstores, hreproduces⟩ := rebuildStores_since B run hg hrecorded
        ((ih hbelow hfront).2 v hv) hdelivered
      obtain rfl := Except.ok.inj (hrebuilt.symm.trans hstores)
      exact ⟨hreproduces.storable, fun _ _ ↦ hreproduces⟩
  | @restored H scope throughBlock before stores _ hthrough hrestored ih =>
      obtain ⟨hstorable, hactive⟩ := ih run hrecorded
      refine ⟨?_, fun v hv ↦ ?_⟩
      · obtain ⟨stores', hstores, -, -, -, -, hstorable'⟩ :=
          restoreStoreCheckpoint_checkpointStores B hstorable scope hthrough
        obtain rfl := Except.ok.inj (hrestored.symm.trans hstores)
        exact hstorable'
      · obtain ⟨stores', hstores, hreproduces⟩ :=
          (hactive v hv).passCheckpoint B (c := (scope, throughBlock)) hthrough
        obtain rfl := Except.ok.inj (hrestored.symm.trans hstores)
        exact hreproduces

end

/-- The witnesses of the stores pass the checks of the circuits: for the owners, for
every leaf of the approval map, and for the nullifier of every vote. -/
structure RebuiltStores.Proves (mapWitness : MerkleMap → Fp → E.MerkleMapWitness)
    (stores : RebuiltStores) (account : GuardState) (owners : List PublicKey)
    (approvals nullifiers : MerkleMap) : Prop where
  member : ∀ k, assertOwnerMembership E account.ownersCommitment k stores.ownerStore.getWitness =
    .ok () ↔ k ∈ owners
  approval : ∀ h, E.merkleMap.computeRootAndKey (stores.approvalStore.getWitness mapWitness h)
    (approvals h) = (account.approvalRoot, h)
  nullifier : ∀ h k, E.merkleMap.computeRootAndKey
    (stores.nullifierStore.getWitness mapWitness h k) (nullifiers (E.voteNullifierKey h k)) =
      (account.voteNullifierRoot, E.voteNullifierKey h k)

theorem RebuiltStores.proves {mapWitness : MerkleMap → Fp → E.MerkleMapWitness}
    (hopens : E.merkleMap.Opens mapWitness) {stores : RebuiltStores}
    (hlength : stores.ownerStore.owners.length ≤ maxOwners) {account : GuardState}
    (howners : account.ownersCommitment = stores.ownerStore.getCommitment E)
    (happrovals : account.approvalRoot = E.merkleMap.getRoot stores.approvalStore.map)
    (hnullifiers : account.voteNullifierRoot = E.merkleMap.getRoot stores.nullifierStore.map) :
    stores.Proves mapWitness account stores.ownerStore.owners stores.approvalStore.map
      stores.nullifierStore.map where
  member := by
    intro k
    have hpresent : presentKeys stores.ownerStore.getWitness.toList = stores.ownerStore.owners :=
      presentKeys_ownerWitness hlength
    rw [assertOwnerMembership_ok, hpresent, howners]
    exact and_iff_left rfl
  approval := by
    intro h
    rw [happrovals]
    exact hopens stores.approvalStore.map h
  nullifier := by
    intro h k
    rw [hnullifiers]
    exact hopens stores.nullifierStore.map (E.voteNullifierKey h k)

/-- Rebuilt stores come back from their checkpoint with the same roots, owners, leaves
and witnesses.  Stores accepted from any request have the owners and the leaves of the
account, so that their witnesses pass its checks. -/
theorem checkpoint_lossless_and_sound {mapWitness : MerkleMap → Fp → E.MerkleMapWitness}
    (hopens : E.merkleMap.Opens mapWitness) :
    (∀ {H : BlockHistory E} {L : Ledger} {g : PublicKey} {stores : RebuiltStores},
      (ledgerSystem T guards).Run H.actions L → g ∈ guards → RebuildRecorded T g H.actions →
      RebuiltFrom B g H stores → ∀ (scope : StoreScope) (throughBlock : Option ℕ),
        (∀ height ∈ throughBlock, height ≤ maxSafeInteger) →
          ∃ restored, restoreStoreCheckpoint B (checkpointStores B stores scope throughBlock)
              scope = .ok restored ∧
            restored.ownerStore.owners = stores.ownerStore.owners ∧
            (∀ h, restored.approvalStore.getCount h = stores.approvalStore.getCount h) ∧
            (∀ κ, restored.nullifierStore.map κ = stores.nullifierStore.map κ) ∧
            restored.nullifierStore.keys = stores.nullifierStore.keys ∧
            restored.ownerStore.getCommitment E = stores.ownerStore.getCommitment E ∧
            E.merkleMap.getRoot restored.approvalStore.map =
              E.merkleMap.getRoot stores.approvalStore.map ∧
            E.merkleMap.getRoot restored.nullifierStore.map =
              E.merkleMap.getRoot stores.nullifierStore.map ∧
            ∀ account : GuardState,
              account.ownersCommitment = stores.ownerStore.getCommitment E →
              account.approvalRoot = E.merkleMap.getRoot stores.approvalStore.map →
              account.voteNullifierRoot = E.merkleMap.getRoot stores.nullifierStore.map →
                restored.Proves mapWitness account stores.ownerStore.owners
                  stores.approvalStore.map stores.nullifierStore.map) ∧
    ∀ {as : List (Action E)} {L : Ledger} {g : PublicKey} {request : OfflineRequest}
      {stores : RebuiltStores}, (ledgerSystem T guards).Run as L → g ∈ guards →
      storesFromOfflineRequest B request (L.state g).chainState = .ok stores →
      stores.Recorded T →
        ∃ v, replay g as = .active v ∧ stores.ownerStore.owners = v.owners ∧
          (∀ h, stores.approvalStore.getCount h = v.approvalMap E h) ∧
          (∀ κ, stores.nullifierStore.map κ = v.nullifierMap E κ) ∧
          stores.Proves mapWitness (L.state g) v.owners (v.approvalMap E) (v.nullifierMap E) := by
  refine ⟨?_, ?_⟩
  · intro H L g stores run hg hrecorded hrebuilt scope throughBlock hthrough
    obtain ⟨hstorable, -⟩ := hrebuilt.reproduces B run hg hrecorded
    obtain ⟨restored, hrestored, howners, hmap, hvotes, -, hstorable'⟩ :=
      restoreStoreCheckpoint_checkpointStores B hstorable scope hthrough
    refine ⟨restored, hrestored, congrArg _ howners, congrFun hmap, fun κ ↦ by rw [hvotes],
      congrArg _ hvotes, congrArg _ howners, congrArg _ hmap, by rw [hvotes], ?_⟩
    intro account hcommitment happroval hnullifier
    rw [← howners] at hcommitment ⊢
    rw [← hmap] at happroval ⊢
    rw [← hvotes] at hnullifier ⊢
    exact restored.proves hopens hstorable'.length_le hcommitment happroval hnullifier
  · intro as L g request stores run hg haccepted hrecorded
    have hverified := storesFromOfflineRequest_verified haccepted
    obtain ⟨howners, happrovals, hnullifiers⟩ := hverified
    have hcommitment := fieldText_injective (Option.some.inj howners)
    have happroval := fieldText_injective (Option.some.inj happrovals)
    have hnullifier := fieldText_injective (Option.some.inj hnullifiers)
    have hinit : (L.state g).ownersCommitment ≠ 0 := by
      rw [hcommitment]
      exact T.computeOwnerChain_ne_zero hrecorded.owners
    obtain ⟨v, hv, hsame, hmap, hvotes⟩ := RebuiltStores.Verified.eq_of_guard run hg hinit hrecorded
      ⟨howners, happrovals, hnullifiers⟩
    refine ⟨v, hv, hsame, hmap, hvotes, ?_⟩
    obtain ⟨-, hinvariant⟩ := Run.invariant run hg hv
    rw [← hsame, ← funext hmap, ← funext hvotes]
    refine stores.proves hopens ?_ hcommitment happroval hnullifier
    rw [hsame]
    exact hinvariant.governed.length_le

namespace Walkthrough

def vaultScope : StoreScope := ⟨.testnet, base58.toBase58 root⟩

/-- The request with a checkpoint of stores up to block 9. -/
def vaultRequest (stores : RebuiltStores) : OfflineRequest :=
  ⟨.number offlineRequestVersion, vaultScope.network, vaultScope.address, .array [],
    some (checkpointStores base58 stores vaultScope (some 9))⟩

/-- The root's stores go to the offline machine, where their witnesses pass its checks. -/
theorem root_exported :
    ∃ stores restored v,
      rebuildStores base58 ((history.published root).map (indexed base58)) none = .ok stores ∧
      storesFromOfflineRequest base58 (vaultRequest stores) vaultChain = .ok restored ∧
      restored.ownerStore.owners = stores.ownerStore.owners ∧
      replay root history.actions = .active v ∧
      restored.Proves tables.mapWitness (added.ledger.state root) v.owners
        (v.approvalMap tables.env) (v.nullifierMap tables.env) := by
  have hinit : (added.ledger.state root).ownersCommitment ≠ 0 := by decide +kernel
  obtain ⟨w, hw, hstate, hinvariant⟩ := Run.active run_added List.mem_cons_self hinit
  obtain ⟨stores, hrebuild, ⟨w', hw', howners⟩, ⟨events, hshows, hevents⟩, -⟩ :=
    rebuildStores_reproduces base58 (H := history) run_added List.mem_cons_self rebuild_recorded
      hw fun _ ↦ Iff.rfl
  obtain rfl := Phase.active.inj (hw'.symm.trans hw)
  obtain ⟨hmap, hvotes⟩ := hshows.maps_eq (Run.mirrored run_added List.mem_cons_self) hevents
  rw [hw] at hmap hvotes
  obtain ⟨hlossless, hsound⟩ := @checkpoint_lossless_and_sound tables.env tables.transcript
    {a | a ∈ guards} base58 _ tables.opens_mapWitness
  obtain ⟨restored, hrestored, howners', hmap', hvotes', -⟩ := hlossless (H := history) run_added
    List.mem_cons_self rebuild_recorded (.full (fun _ ↦ Iff.rfl) hrebuild) vaultScope (some 9)
    (by decide)
  have hmaps : restored.approvalStore.map = w'.approvalMap tables.env := (funext hmap').trans hmap
  have hnullifiers : restored.nullifierStore.map = w'.nullifierMap tables.env :=
    (funext hvotes').trans hvotes
  have hlist : restored.ownerStore.owners = w'.owners :=
    howners'.trans (congrArg OwnerStore.owners howners)
  have hverified : restored.Verified tables.env vaultChain := by
    unfold vaultChain RebuiltStores.Verified OwnerStore.getCommitment
    rw [hstate, hlist, hmaps, hnullifiers]
    exact ⟨rfl, rfl, rfl⟩
  have hrecorded : restored.Recorded tables.transcript := by
    refine ⟨?_, ?_, ?_⟩
    · rw [hlist]
      exact hinvariant.chained
    · rw [hmaps]
      exact hinvariant.approvals_mem
    · rw [hnullifiers]
      exact hinvariant.nullifiers_mem
  have haccepted : storesFromOfflineRequest base58 (vaultRequest stores) vaultChain =
      .ok restored := storesFromOfflineRequest_restored hrestored hverified
  obtain ⟨v, hv, -, -, -, hproves⟩ := hsound run_added List.mem_cons_self haccepted hrecorded
  exact ⟨stores, restored, v, hrebuild, haccepted, howners', hv, hproves⟩

end Walkthrough

end MinaGuard
