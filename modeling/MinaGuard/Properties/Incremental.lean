import MinaGuard.Clients.CheckpointSpec
import MinaGuard.Properties.Rebuild

/-!
# Incremental rebuilds

A client may take in the events of a guard range by range, and store what it
has in between.  It ends with the stores that a rebuild from all events gives.
-/

namespace MinaGuard

open Foundations

variable {E : Env} {T : Transcript E} {guards : Set PublicKey} (B : Base58 E)

/-- A range of blocks below `ceil`: the events delivered, and the checkpoints that
the stores pass through afterwards. -/
structure BlockRange where
  ceil : ℕ
  delivered : List (ℕ × Event)
  checkpoints : List (StoreScope × Option ℕ)
  throughBlock_le : ∀ c ∈ checkpoints, ∀ height ∈ c.2, height ≤ maxSafeInteger

namespace BlockRange

/-- The range has the events of `g` from block `floor` on, in any order and with
repetitions. -/
structure Delivers (r : BlockRange) (H : BlockHistory E) (g : PublicKey) (floor : ℕ) : Prop where
  floor_le : floor ≤ r.ceil
  delivered : ∀ x, x ∈ r.delivered ↔ x ∈ H.published g ∧ floor ≤ x.1 ∧ x.1 < r.ceil

def passCheckpoint (stores : RebuiltStores) (c : StoreScope × Option ℕ) :
    Except String RebuiltStores :=
  restoreStoreCheckpoint B (checkpointStores B stores c.1 c.2) c.1

def rebuild (r : BlockRange) (initial : Option RebuiltStores) : Except String RebuiltStores := do
  let stores ← rebuildStores B (r.delivered.map (indexed B)) initial
  r.checkpoints.foldlM (passCheckpoint B) stores

end BlockRange

/-- The ranges follow one another from block `floor` on, and leave nothing out. -/
def Consecutive (H : BlockHistory E) (g : PublicKey) : ℕ → List BlockRange → Prop
  | floor, [] => ∀ x ∈ H.placed, x.1 < floor
  | floor, r :: ranges => r.Delivers H g floor ∧ Consecutive H g r.ceil ranges

/-- `rebuildStores(e2, rebuildStores(e1))` and so on. -/
def rebuildRanges (first : BlockRange) (ranges : List BlockRange) :
    Except String RebuiltStores := do
  let stores ← first.rebuild B none
  ranges.foldlM (fun stores r ↦ r.rebuild B (some stores)) stores

/-- The stores hold what the actions tell about an active guard. -/
structure Reproduces (E : Env) (g : PublicKey) (as : List (Action E)) (stores : RebuiltStores) :
    Prop where
  owners : ∃ v, replay g as = .active v ∧ stores.ownerStore = ⟨v.owners⟩
  shows : ∃ events, Shows E events (stores.approvalStore, stores.nullifierStore) ∧
    ∀ e, e ∈ events ↔ e ∈ published g as
  storable : stores.Storable E
  divergent : stores.firstDivergentBlock = ⟨none, none⟩

section

variable {H : BlockHistory E} {L : Ledger} {g : PublicKey} {delivered : List (ℕ × Event)}
  {stores : RebuiltStores}

theorem configNonce_le_two_pow {v : Vault} (hv : replay g H.actions = .active v) :
    v.configNonce ≤ 2 ^ 53 :=
  (configNonce_le_length hv).trans BlockHistory.length_actions_le

/-- The owners of an active guard can be stored. -/
theorem Run.storable (run : (ledgerSystem T guards).Run H.actions L) (hg : g ∈ guards) {v : Vault}
    (hv : replay g H.actions = .active v) (howners : stores.ownerStore = ⟨v.owners⟩)
    (hkeyed : Keyed (stores.approvalStore, stores.nullifierStore)) : stores.Storable E := by
  obtain ⟨-, hinvariant⟩ := Run.invariant run hg hv
  refine ⟨?_, ?_, hkeyed⟩
  · rw [howners]
    exact hinvariant.governed.coherent.onCurve
  · rw [howners]
    exact hinvariant.governed.length_le

/-- A rebuild from all events. -/
theorem rebuildStores_reproduces (run : (ledgerSystem T guards).Run H.actions L) (hg : g ∈ guards)
    (hrebuild : RebuildRecorded T g H.actions) {v : Vault} (hv : replay g H.actions = .active v)
    (hdelivered : ∀ x, x ∈ delivered ↔ x ∈ H.published g) :
    ∃ stores, rebuildStores B (delivered.map (indexed B)) none = .ok stores ∧
      Reproduces E g H.actions stores := by
  have htold := Run.ownersTold run hg hrebuild
  rw [hv] at htold
  obtain ⟨o, n, htold⟩ := htold
  have hall (x : ℕ × Event) : x ∈ delivered ↔ x ∈ H.published g ∧ 0 ≤ x.1 := by
    rw [hdelivered, and_iff_left (Nat.zero_le _)]
  have hstart : Shows E [] ((Option.map RebuiltStores.approvalStore none).getD .empty,
      (Option.map RebuiltStores.nullifierStore none).getD .empty) := .start
  obtain ⟨stores, events, hstores, howners, hshows, hevents, hnone⟩ :=
    rebuildStores_shows B run hg hall hstart (by simp)
  have hkeyed := rebuildStores_keyed B (by simp) hstores
  rw [Option.map_none, rebuildOwners_eq B htold (configNonce_le_two_pow hv) hdelivered] at howners
  exact ⟨stores, hstores, ⟨v, hv, howners⟩, ⟨events, hshows, hevents⟩,
    Run.storable run hg hv howners hkeyed, hnone⟩

/-- Later owner changes, replayed on the owners so far. -/
theorem rebuildOwners_since (run : (ledgerSystem T guards).Run H.actions L) (hg : g ∈ guards)
    (hrebuild : RebuildRecorded T g H.actions) {floor : ℕ} {v w : Vault}
    (hv : replay g (H.below floor).actions = .active v) (hw : replay g H.actions = .active w)
    (hdelivered : ∀ x, x ∈ delivered ↔ x ∈ H.published g ∧ floor ≤ x.1) :
    rebuildOwners B (delivered.map (indexed B)) (some ⟨v.owners⟩) = ⟨w.owners⟩ := by
  have htold := Run.ownersTold run hg hrebuild
  rw [hw] at htold
  obtain ⟨o, n, htold⟩ := htold
  obtain ⟨M, hrun, hpath⟩ := BlockHistory.run_below run floor
  obtain ⟨w', hw', hreplay⟩ := Run.ownersReplay hrun hg hv hpath
    (by rwa [H.below_append_since floor])
  rw [H.below_append_since floor, hw] at hw'
  obtain rfl := Phase.active.inj hw'
  have hsub : ((H.since floor).ownerChanges g).Sublist (H.ownerChanges g) := by
    unfold BlockHistory.ownerChanges BlockHistory.since
    rw [BlockHistory.published_restrict]
    exact List.filter_sublist.filter _
  have hordered : orderedChanges (delivered.map (indexed B)) =
      ((H.since floor).ownerChanges g).map (indexed B) := by
    refine orderedChanges_indexed B ((ownerChanges_nonces htold).sublist hsub) ?_ ?_
    · exact fun x hx ↦ changeNonce_le htold (configNonce_le_two_pow hw) x (hsub.subset hx)
    · intro x
      rw [BlockHistory.ownerChanges, List.mem_filter, BlockHistory.mem_published_since, hdelivered]
  unfold rebuildOwners
  rw [hordered, Option.getD_some]
  exact foldl_applyOwnerChange B hreplay BlockHistory.map_ownerChanges

/-- A rebuild from later events only, on stores that reproduce the earlier ones. -/
theorem rebuildStores_since (run : (ledgerSystem T guards).Run H.actions L) (hg : g ∈ guards)
    (hrebuild : RebuildRecorded T g H.actions) {floor : ℕ}
    (hinitial : Reproduces E g (H.below floor).actions stores)
    (hdelivered : ∀ x, x ∈ delivered ↔ x ∈ H.published g ∧ floor ≤ x.1) :
    ∃ stores', rebuildStores B (delivered.map (indexed B)) (some stores) = .ok stores' ∧
      Reproduces E g H.actions stores' := by
  obtain ⟨⟨v, hv, howners⟩, ⟨told, hshows, htold⟩, hstorable, -⟩ := hinitial
  obtain ⟨M, hrun, hpath⟩ := BlockHistory.run_below run floor
  obtain ⟨w, hw, -⟩ := Run.later hrun hg hpath hv
  rw [H.below_append_since floor] at hw
  have hbelow (e : Event) : e ∈ told ↔ ∃ x ∈ H.published g, x.1 < floor ∧ x.2 = e := by
    rw [htold, BlockHistory.mem_published_actions]
    simp only [BlockHistory.mem_published_below]
    constructor
    · rintro ⟨k, hk, hlt⟩
      exact ⟨(k, e), hk, hlt, rfl⟩
    · rintro ⟨x, hx, hlt, rfl⟩
      exact ⟨x.1, hx, hlt⟩
  have hinitial : Shows E told (((some stores).map RebuiltStores.approvalStore).getD .empty,
      ((some stores).map RebuiltStores.nullifierStore).getD .empty) := hshows
  obtain ⟨stores', events, hstores', howners', hshows', hevents, hnone⟩ :=
    rebuildStores_shows B run hg hdelivered hinitial hbelow
  have hkeyed := rebuildStores_keyed B (by simpa using hstorable.keyed) hstores'
  rw [Option.map_some, howners, rebuildOwners_since B run hg hrebuild hv hw hdelivered] at howners'
  exact ⟨stores', hstores', ⟨w, hw, howners'⟩, ⟨events, hshows', hevents⟩,
    Run.storable run hg hw howners' hkeyed, hnone⟩

/-- A checkpoint in between changes nothing. -/
theorem Reproduces.passCheckpoint {as : List (Action E)} (h : Reproduces E g as stores)
    {c : StoreScope × Option ℕ} (hthrough : ∀ height ∈ c.2, height ≤ maxSafeInteger) :
    ∃ stores', BlockRange.passCheckpoint B stores c = .ok stores' ∧
      Reproduces E g as stores' := by
  obtain ⟨⟨v, hv, howners⟩, ⟨events, hshows, hevents⟩, hstorable, -⟩ := h
  obtain ⟨stores', hrestored, howners', hmap, hvotes, hnone, hstorable'⟩ :=
    restoreStoreCheckpoint_checkpointStores B hstorable c.1 hthrough
  refine ⟨stores', hrestored, ⟨v, hv, howners'.trans howners⟩, ⟨events, ?_, hevents⟩, hstorable',
    hnone⟩
  refine ⟨?_, ?_, ?_⟩
  · dsimp only
    rw [hmap]
    exact hshows.leaf_le
  · dsimp only
    rw [hmap]
    exact hshows.leaf_mem
  · dsimp only
    rw [hvotes]
    exact hshows.votes

theorem Reproduces.passCheckpoints {as : List (Action E)} (h : Reproduces E g as stores)
    {checkpoints : List (StoreScope × Option ℕ)}
    (hthrough : ∀ c ∈ checkpoints, ∀ height ∈ c.2, height ≤ maxSafeInteger) :
    ∃ stores', checkpoints.foldlM (BlockRange.passCheckpoint B) stores = .ok stores' ∧
      Reproduces E g as stores' := by
  induction checkpoints generalizing stores with
  | nil => exact ⟨stores, rfl, h⟩
  | cons c checkpoints ih =>
      obtain ⟨stores', hpass, h'⟩ := h.passCheckpoint B (hthrough c List.mem_cons_self)
      rw [List.foldlM_cons, hpass]
      exact ih h' fun c' hc' ↦ hthrough c' (List.mem_cons_of_mem _ hc')

/-- One range more. -/
theorem BlockRange.rebuild_since (run : (ledgerSystem T guards).Run H.actions L) (hg : g ∈ guards)
    (hrebuild : RebuildRecorded T g H.actions) {floor : ℕ} {r : BlockRange}
    (hinitial : Reproduces E g (H.below floor).actions stores) (hr : r.Delivers H g floor) :
    ∃ stores', r.rebuild B (some stores) = .ok stores' ∧
      Reproduces E g (H.below r.ceil).actions stores' := by
  obtain ⟨M, hrun, -⟩ := BlockHistory.run_below run r.ceil
  rw [← H.below_append_since r.ceil] at hrebuild
  rw [← H.below_below hr.floor_le] at hinitial
  have hdelivered : ∀ x, x ∈ r.delivered ↔ x ∈ (H.below r.ceil).published g ∧ floor ≤ x.1 :=
    fun x ↦ by
      rw [hr.delivered, BlockHistory.mem_published_below, and_assoc, and_comm (a := floor ≤ x.1)]
  obtain ⟨stores', hstores', h'⟩ := rebuildStores_since B hrun hg hrebuild.front hinitial hdelivered
  unfold BlockRange.rebuild
  rw [hstores']
  exact h'.passCheckpoints B r.throughBlock_le

theorem rebuildRanges_since (run : (ledgerSystem T guards).Run H.actions L) (hg : g ∈ guards)
    (hrebuild : RebuildRecorded T g H.actions) {floor : ℕ} {ranges : List BlockRange}
    (hinitial : Reproduces E g (H.below floor).actions stores)
    (hranges : Consecutive H g floor ranges) :
    ∃ stores', ranges.foldlM (fun stores r ↦ r.rebuild B (some stores)) stores = .ok stores' ∧
      Reproduces E g H.actions stores' := by
  induction ranges generalizing floor stores with
  | nil =>
      have hall : (H.below floor).actions = H.actions :=
        congrArg (List.map Prod.snd) (List.filter_eq_self.mpr fun x hx ↦
          decide_eq_true (hranges x hx))
      exact ⟨stores, rfl, hall ▸ hinitial⟩
  | cons r ranges ih =>
      obtain ⟨hr, hrest⟩ := hranges
      obtain ⟨stores', hstores', h'⟩ := r.rebuild_since B run hg hrebuild hinitial hr
      rw [List.foldlM_cons, hstores']
      exact ih h' hrest

end

/-- A client that takes the events of a guard in range by range, from a first one
that includes the setup, ends with the owners in order, the maps and the roots of
a rebuild from all events. -/
theorem incremental_rebuild {H : BlockHistory E} {L M : Ledger} {g : PublicKey}
    (run : (ledgerSystem T guards).Run H.actions L) (hg : g ∈ guards)
    (hrebuild : RebuildRecorded T g H.actions) {first : BlockRange} {ranges : List BlockRange}
    (hranges : Consecutive H g 0 (first :: ranges))
    (hfirst : (ledgerSystem T guards).Run (H.below first.ceil).actions M)
    (hsetup : (M.state g).ownersCommitment ≠ 0)
    {delivered : List (ℕ × Event)} (hdelivered : ∀ x, x ∈ delivered ↔ x ∈ H.published g) :
    ∃ stores full,
      rebuildRanges B first ranges = .ok stores ∧
      rebuildStores B (delivered.map (indexed B)) none = .ok full ∧
      stores.ownerStore.owners = full.ownerStore.owners ∧
      (∀ h, stores.approvalStore.map h = full.approvalStore.map h) ∧
      (∀ κ, stores.nullifierStore.map κ = full.nullifierStore.map κ) ∧
      stores.ownerStore.getCommitment E = full.ownerStore.getCommitment E ∧
      E.merkleMap.getRoot stores.approvalStore.map =
        E.merkleMap.getRoot full.approvalStore.map ∧
      E.merkleMap.getRoot stores.nullifierStore.map =
        E.merkleMap.getRoot full.nullifierStore.map ∧
      stores.firstDivergentBlock = ⟨none, none⟩ := by
  obtain ⟨hr, hrest⟩ := hranges
  obtain ⟨v, hv, -⟩ := Run.active hfirst hg hsetup
  have hfront : RebuildRecorded T g (H.below first.ceil).actions := by
    rw [← H.below_append_since first.ceil] at hrebuild
    exact hrebuild.front
  have hdelivered' : ∀ x, x ∈ first.delivered ↔ x ∈ (H.below first.ceil).published g :=
    fun x ↦ by
      rw [hr.delivered, BlockHistory.mem_published_below, and_iff_right (Nat.zero_le x.1)]
  obtain ⟨begun, hbegun, hstart⟩ := rebuildStores_reproduces B hfirst hg hfront hv hdelivered'
  obtain ⟨passed, hpassed, hpass⟩ := hstart.passCheckpoints B first.throughBlock_le
  obtain ⟨stores, hstores, hend⟩ := rebuildRanges_since B run hg hrebuild hpass hrest
  obtain ⟨⟨w, hw, howners⟩, ⟨events, hshows, hevents⟩, -, hnone⟩ := hend
  obtain ⟨full, hfull, ⟨w', hw', howners'⟩, ⟨events', hshows', hevents'⟩, -⟩ :=
    rebuildStores_reproduces B run hg hrebuild hw hdelivered
  obtain rfl := Phase.active.inj (hw.symm.trans hw')
  obtain ⟨hmap, hvotes⟩ := hshows.maps_eq (Run.mirrored run hg) hevents
  obtain ⟨hmap', hvotes'⟩ := hshows'.maps_eq (Run.mirrored run hg) hevents'
  have hsame : stores.ownerStore = full.ownerStore := howners.trans howners'.symm
  have hmaps : stores.approvalStore.map = full.approvalStore.map := hmap.trans hmap'.symm
  have hnullifiers : stores.nullifierStore.map = full.nullifierStore.map :=
    hvotes.trans hvotes'.symm
  refine ⟨stores, full, ?_, hfull, congrArg OwnerStore.owners hsame, congrFun hmaps,
    congrFun hnullifiers, congrArg (OwnerStore.getCommitment E) hsame,
    congrArg E.merkleMap.getRoot hmaps, congrArg E.merkleMap.getRoot hnullifiers, hnone⟩
  unfold rebuildRanges BlockRange.rebuild
  rw [hbegun]
  change (do
    let passed ← first.checkpoints.foldlM (BlockRange.passCheckpoint B) begun
    ranges.foldlM (fun stores (r : BlockRange) ↦ r.rebuild B (some stores)) passed) = _
  rw [hpassed]
  exact hstores

namespace Walkthrough

/-- The events of the root in some blocks, newest first and then again in order. -/
def delivery (floor ceil : ℕ) : List (ℕ × Event) :=
  let events := (history.published root).filter fun x ↦ floor ≤ x.1 ∧ x.1 < ceil
  events.reverse ++ events

/-- Such a delivery, and a checkpoint afterwards. -/
def storedRange (floor ceil : ℕ) (hceil : ceil ≤ maxSafeInteger) : BlockRange where
  ceil := ceil
  delivered := delivery floor ceil
  checkpoints := [(⟨.testnet, base58.toBase58 root⟩, some ceil)]
  throughBlock_le := by
    intro c hc height hheight
    obtain rfl := List.mem_singleton.mp hc
    obtain rfl := Option.some.inj hheight
    exact hceil

theorem storedRange_delivers {floor ceil : ℕ} (hceil : ceil ≤ maxSafeInteger)
    (hle : floor ≤ ceil) : (storedRange floor ceil hceil).Delivers history root floor where
  floor_le := hle
  delivered := fun x ↦ by simp [storedRange, delivery]

/-- Three ranges: the setup, the votes, and the addition of an owner. -/
def laterRanges : List BlockRange := [storedRange 4 9 (by decide), storedRange 9 10 (by decide)]

theorem ranges_consecutive :
    Consecutive history root 0 (storedRange 0 4 (by decide) :: laterRanges) := by
  refine ⟨storedRange_delivers _ (by decide), storedRange_delivers _ (by decide),
    storedRange_delivers _ (by decide), ?_⟩
  have hbelow : ∀ h ∈ heights, h < 10 := by decide
  exact fun x hx ↦ hbelow x.1 (List.of_mem_zip hx).1

theorem run_setup :
    system.Run (history.below 4).actions (Book.last emptyBook (beforeAdd.take 2)).ledger := by
  have hplays : Book.Plays guards emptyBook (beforeAdd.take 2) := by decide +kernel
  exact Book.run_of_plays hplays

theorem root_rebuilt_incrementally :
    ∃ stores full,
      rebuildRanges base58 (storedRange 0 4 (by decide)) laterRanges = .ok stores ∧
      rebuildStores base58 ((history.published root).map (indexed base58)) none = .ok full ∧
      stores.ownerStore.owners = full.ownerStore.owners ∧
      (∀ h, stores.approvalStore.map h = full.approvalStore.map h) ∧
      (∀ κ, stores.nullifierStore.map κ = full.nullifierStore.map κ) ∧
      stores.ownerStore.getCommitment tables.env = full.ownerStore.getCommitment tables.env ∧
      tables.env.merkleMap.getRoot stores.approvalStore.map =
        tables.env.merkleMap.getRoot full.approvalStore.map ∧
      tables.env.merkleMap.getRoot stores.nullifierStore.map =
        tables.env.merkleMap.getRoot full.nullifierStore.map ∧
      stores.firstDivergentBlock = ⟨none, none⟩ :=
  incremental_rebuild base58 (H := history) (L := added.ledger) (g := root) run_added
    List.mem_cons_self rebuild_recorded ranges_consecutive run_setup (by decide +kernel)
    fun _ ↦ Iff.rfl

end Walkthrough

end MinaGuard
