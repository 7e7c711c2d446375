import Mathlib.Data.Set.List
import MinaGuard.Clients.Checkpoint
import MinaGuard.Clients.RebuildOwners

/-!
# Checkpoints give the stores back

The keys of a store cover the leaves it has set, so the stores can be rebuilt
from the serialized keys and values.  This holds whatever events the stores come
from.
-/

namespace MinaGuard

open Foundations

variable {E : Env} (B : Base58 E)

theorem OwnerStore.deserialize_serialize {store : OwnerStore}
    (h : ∀ k ∈ store.owners, E.onCurve k = true) :
    OwnerStore.deserialize B (store.serialize B) = .ok store := by
  unfold OwnerStore.deserialize OwnerStore.serialize
  change (do
    let owners ← (store.owners.map fun k ↦ JsValue.string (B.toBase58 k)).mapM (publicKeyOf B)
    pure (⟨owners⟩ : OwnerStore)) = _
  rw [Check.mapM_map_ok fun k hk ↦ publicKeyOf_toBase58 B (h k hk)]
  rfl

/-- The keys cover the leaves that are set. -/
def ApprovalStore.Covered (store : ApprovalStore) : Prop :=
  ∀ h, store.map h ≠ 0 → h ∈ store.keys

/-- The member for one key. -/
def mapEntry (map : MerkleMap) (h : Fp) : String × JsValue :=
  (fieldText h, .string (fieldText (map h)))

theorem mapEntries_eq (map : MerkleMap) (keys : List Fp) :
    ∃ hs : List Fp, (∀ h, h ∈ hs ↔ h ∈ keys) ∧
      keys.foldl (fun entries key ↦
        InsertionMap.set entries (fieldText key) (.string (fieldText (map key)))) [] =
          hs.map (mapEntry map) := by
  induction keys using List.reverseRecOn with
  | nil => exact ⟨[], fun h ↦ Iff.rfl, rfl⟩
  | append_singleton keys key ih =>
      obtain ⟨hs, hmem, hentries⟩ := ih
      have hkeys : fieldText key ∈ InsertionMap.keys (hs.map (mapEntry map)) ↔ key ∈ hs := by
        simp [InsertionMap.keys, mapEntry, fieldText_injective.eq_iff]
      rw [List.foldl_concat, hentries]
      by_cases hold : key ∈ hs
      · refine ⟨hs, fun h ↦ ?_, ?_⟩
        · rw [List.mem_append, List.mem_singleton, ← hmem]
          refine ⟨Or.inl, Or.rec id ?_⟩
          rintro rfl
          exact hold
        · apply InsertionMap.set_eq_self (hkeys.mpr hold)
          intro x hx hkey
          obtain ⟨h, -, rfl⟩ := List.mem_map.mp hx
          obtain rfl : h = key := fieldText_injective hkey
          rfl
      · refine ⟨hs ++ [key], fun h ↦ ?_, ?_⟩
        · rw [List.mem_append, List.mem_append, hmem]
        · rw [InsertionMap.set_of_not_mem (mt hkeys.mp hold), List.map_append]
          rfl

theorem foldlM_mapEntries (map : MerkleMap) (hs : List Fp) (store : ApprovalStore) :
    (hs.map (mapEntry map)).foldlM
        (fun store x ↦ do
          let key ← parseField x.1
          let value ← x.2.toFp
          pure ⟨Function.update store.map key value, store.keys ++ [key]⟩) store =
      (.ok ⟨fun h ↦ if h ∈ hs then map h else store.map h, store.keys ++ hs⟩ :
        Except String ApprovalStore) := by
  induction hs generalizing store with
  | nil => simp; rfl
  | cons h hs ih =>
      have hvalue : (JsValue.string (fieldText (map h))).toFp = .ok (map h) :=
        parseField_fieldText (map h)
      rw [List.map_cons, List.foldlM_cons]
      simp only [mapEntry, parseField_fieldText, hvalue]
      refine (ih ⟨Function.update store.map h (map h), store.keys ++ [h]⟩).trans ?_
      congr 2
      · funext h'
        by_cases hmem : h' ∈ hs
        · simp [hmem]
        · by_cases heq : h' = h
          · subst heq
            simp
          · simp [hmem, heq]
      · simp

theorem ApprovalStore.deserialize_serialize {store : ApprovalStore} (h : store.Covered) :
    ∃ restored, ApprovalStore.deserialize store.serialize = .ok restored ∧
      restored.map = store.map ∧ restored.Covered := by
  obtain ⟨hs, hmem, hentries⟩ := mapEntries_eq store.map store.keys
  -- the order of the members is some order of the keys
  have hsorted : ownEntries (hs.map (mapEntry store.map)) =
      (hs.mergeSort fun a b ↦ (arrayIndex (fieldText a)).getD (2 ^ 32) ≤
        (arrayIndex (fieldText b)).getD (2 ^ 32)).map (mapEntry store.map) := by
    unfold ownEntries
    rw [List.map_mergeSort]
    exact fun _ _ _ _ ↦ rfl
  generalize hsort : (hs.mergeSort fun a b ↦ (arrayIndex (fieldText a)).getD (2 ^ 32) ≤
    (arrayIndex (fieldText b)).getD (2 ^ 32)) = sorted at hsorted
  have hkeys (h' : Fp) : h' ∈ sorted ↔ h' ∈ store.keys := by
    rw [← hsort, List.mem_mergeSort, hmem]
  refine ⟨⟨fun h' ↦ if h' ∈ sorted then store.map h' else 0, sorted⟩, ?_, ?_, ?_⟩
  · unfold ApprovalStore.deserialize ApprovalStore.serialize serializeMerkleMap
    dsimp only
    rw [hentries, hsorted]
    exact foldlM_mapEntries store.map sorted .empty
  · funext h'
    by_cases hin : h' ∈ sorted
    · exact if_pos hin
    · refine (if_neg hin).trans ?_
      by_contra hne
      exact hin ((hkeys h').mpr (h h' (Ne.symm hne)))
  · intro h' hne
    by_contra hin
    exact hne (if_neg hin)

/-- The keys are those of the marked leaves, each once. -/
structure VoteNullifierStore.Listed (store : VoteNullifierStore) : Prop where
  nodup : store.keys.Nodup
  marked : ∀ key ∈ store.keys, ∃ κ, key = fieldText κ ∧ store.map κ = 1
  unmarked : ∀ κ, store.map κ ≠ 0 → fieldText κ ∈ store.keys

theorem foldlM_restoreNullifier {keys : List Fp} (hnodup : keys.Nodup)
    (store : VoteNullifierStore) (hnew : ∀ κ ∈ keys, fieldText κ ∉ store.keys) :
    (keys.map fun κ ↦ JsValue.string (fieldText κ)).foldlM restoreNullifier store =
      .ok ⟨fun κ ↦ if κ ∈ keys then 1 else store.map κ, store.keys ++ keys.map fieldText⟩ := by
  induction keys generalizing store with
  | nil => simp; rfl
  | cons κ keys ih =>
      obtain ⟨hhead, htail⟩ := List.nodup_cons.mp hnodup
      have hone : restoreNullifier store (.string (fieldText κ)) =
          .ok ⟨Function.update store.map κ 1, store.keys ++ [fieldText κ]⟩ := by
        have hcanonical : isCanonicalNumber (fieldText κ) = true := isCanonicalNumber_decimal _
        unfold restoreNullifier JsValue.isString?
        dsimp only
        rw [if_pos hcanonical, parseField_fieldText]
        refine (if_neg (not_not.mpr rfl)).trans ?_
        exact if_neg (hnew κ List.mem_cons_self)
      rw [List.map_cons, List.foldlM_cons, hone]
      refine (ih htail _ ?_).trans ?_
      · intro κ' hκ' hin
        rcases List.mem_append.mp hin with hold | hsame
        · exact hnew κ' (List.mem_cons_of_mem _ hκ') hold
        · obtain rfl : κ' = κ := fieldText_injective (List.mem_singleton.mp hsame)
          exact hhead hκ'
      · congr 2
        · funext κ'
          by_cases hmem : κ' ∈ keys
          · simp [hmem]
          · by_cases heq : κ' = κ
            · subst heq
              simp
            · simp [hmem, heq]
        · simp

theorem VoteNullifierStore.deserialize_serialize {store : VoteNullifierStore}
    (h : store.Listed) : VoteNullifierStore.deserialize store.serialize = .ok store := by
  obtain ⟨map, texts⟩ := store
  obtain ⟨keys, rfl⟩ : texts ∈ Set.range (List.map fieldText) := by
    rw [Set.range_list_map]
    intro key hkey
    obtain ⟨κ, hκ, -⟩ := h.marked key hkey
    exact ⟨κ, hκ.symm⟩
  have hmap : (fun κ ↦ if κ ∈ keys then 1 else (0 : Fp)) = map := by
    funext κ
    by_cases hκ : κ ∈ keys
    · obtain ⟨κ', hsame, hone⟩ := h.marked _ (List.mem_map_of_mem hκ)
      obtain rfl := fieldText_injective hsame
      exact (if_pos hκ).trans hone.symm
    · refine (if_neg hκ).trans ?_
      by_contra hne
      obtain ⟨κ', hκ', hsame⟩ := List.mem_map.mp (h.unmarked κ (Ne.symm hne))
      exact hκ (fieldText_injective hsame ▸ hκ')
  have hrestore := foldlM_restoreNullifier (List.Nodup.of_map _ h.nodup) .empty
    fun κ _ ↦ List.not_mem_nil
  unfold VoteNullifierStore.deserialize VoteNullifierStore.serialize
  change ((keys.map fieldText).map JsValue.string).foldlM restoreNullifier .empty = _
  rw [List.map_map]
  refine hrestore.trans ?_
  change Except.ok (VoteNullifierStore.mk (fun κ ↦ if κ ∈ keys then 1 else (0 : Fp)) _) = _
  rw [hmap]
  rfl

/-- The keys of both maps are in order. -/
structure Keyed (stores : ApprovalStore × VoteNullifierStore) : Prop where
  covered : stores.1.Covered
  listed : stores.2.Listed

theorem Keyed.empty : Keyed (.empty, .empty) where
  covered := fun _ hne ↦ absurd rfl hne
  listed :=
    { nodup := List.nodup_nil
      marked := fun _ hkey ↦ absurd hkey List.not_mem_nil
      unmarked := fun _ hne ↦ absurd rfl hne }

theorem ApprovalStore.Covered.raiseTo {store : ApprovalStore} (h : store.Covered)
    (proposalHash value : Fp) : (store.raiseTo proposalHash value).Covered := by
  unfold ApprovalStore.raiseTo
  split
  · intro h' hne
    rw [ApprovalStore.map_setCount] at hne
    have hkeys : ∀ k, k ∈ (store.setCount proposalHash value).keys ↔
        k ∈ store.keys ∨ k = proposalHash := by
      intro k
      unfold ApprovalStore.setCount
      dsimp only
      split
      · next hold =>
          refine ⟨Or.inl, Or.rec id ?_⟩
          rintro rfl
          exact hold
      · rw [List.mem_append, List.mem_singleton]
    rw [hkeys]
    by_cases heq : h' = proposalHash
    · exact Or.inr heq
    · rw [Function.update_of_ne heq] at hne
      exact Or.inl (h h' hne)
  · exact h

theorem VoteNullifierStore.Listed.nullify {store : VoteNullifierStore} (h : store.Listed)
    (proposalHash : Fp) (approver : PublicKey) :
    (store.nullify E proposalHash approver).Listed := by
  unfold VoteNullifierStore.nullify
  dsimp only
  split
  · exact h
  · next hnew =>
      refine ⟨?_, ?_, ?_⟩
      · refine List.nodup_append.mpr ⟨h.nodup, List.nodup_singleton _, ?_⟩
        rintro key hkey _ hsame rfl
        exact hnew (List.mem_singleton.mp hsame ▸ hkey)
      · intro key hkey
        rcases List.mem_append.mp hkey with hold | hsame
        · obtain ⟨κ, rfl, hone⟩ := h.marked key hold
          refine ⟨κ, rfl, ?_⟩
          by_cases heq : κ = E.voteNullifierKey proposalHash approver
          · subst heq
            exact Function.update_self ..
          · exact (Function.update_of_ne heq ..).trans hone
        · exact ⟨_, List.mem_singleton.mp hsame, Function.update_self ..⟩
      · intro κ hne
        by_cases heq : κ = E.voteNullifierKey proposalHash approver
        · subst heq
          exact List.mem_append_right _ (List.mem_singleton_self _)
        · have hold : store.map κ ≠ 0 := by
            rwa [← Function.update_of_ne heq (1 : Fp) store.map]
          exact List.mem_append_left _ (h.unmarked κ hold)

/-- An event of any kind leaves the keys in order. -/
theorem Keyed.applyMapEvent {stores stores' : ApprovalStore × VoteNullifierStore}
    {e : IndexedEvent} (h : Keyed stores)
    (happly : MinaGuard.applyMapEvent B stores e = .ok stores') : Keyed stores' := by
  unfold MinaGuard.applyMapEvent at happly
  split at happly
  · exact Check.pure_ok.mp happly ▸ h
  · obtain ⟨hash, -, happly⟩ := Check.bind_ok.mp happly
    have hraised (count : Fp) : Keyed (stores.1.raiseTo hash count, stores.2) :=
      ⟨h.covered.raiseTo _ _, h.listed⟩
    have hvoted (count : Fp) (key : PublicKey) :
        Keyed (stores.1.raiseTo hash count, stores.2.nullify E hash key) :=
      ⟨h.covered.raiseTo _ _, h.listed.nullify _ _⟩
    split at happly
    · dsimp only at happly
      split at happly
      · obtain ⟨count, -, hvote⟩ := Check.bind_ok.mp happly
        split at hvote
        · exact Check.pure_ok.mp hvote ▸ hraised count
        · exact Check.pure_ok.mp hvote ▸ hvoted count _
      · obtain ⟨count, -, hvote⟩ := Check.bind_ok.mp happly
        split at hvote
        · exact Check.pure_ok.mp hvote ▸ hraised count
        · exact Check.pure_ok.mp hvote ▸ hvoted count _
    · split at happly
      · exact Check.pure_ok.mp happly ▸ hraised executedMarker
      · exact Check.pure_ok.mp happly ▸ h

theorem Keyed.rebuildBlock {usable : Bool} {blocks : InsertionMap ℕ (List IndexedEvent)}
    {s s' : MapProgress} {height : ℕ} (h : Keyed s.stores)
    (hblock : MinaGuard.rebuildBlock B usable blocks s height = .ok s') : Keyed s'.stores := by
  unfold MinaGuard.rebuildBlock at hblock
  dsimp only at hblock
  obtain ⟨stores, hstores, hblock⟩ := Check.bind_ok.mp hblock
  have hkeyed : Keyed stores :=
    Check.foldlM_invariant (fun _ _ _ hkeyed happly ↦ hkeyed.applyMapEvent B happly) h hstores
  split at hblock
  · exact Check.pure_ok.mp hblock ▸ hkeyed
  · exact Check.pure_ok.mp hblock ▸ hkeyed

/-- A rebuild leaves the keys in order, whatever the events. -/
theorem rebuildStores_keyed {events : List IndexedEvent} {initial : Option RebuiltStores}
    {stores : RebuiltStores}
    (hinitial : ∀ s ∈ initial, Keyed (s.approvalStore, s.nullifierStore))
    (h : rebuildStores B events initial = .ok stores) :
    Keyed (stores.approvalStore, stores.nullifierStore) := by
  have hstart : Keyed ((initial.map RebuiltStores.approvalStore).getD .empty,
      (initial.map RebuiltStores.nullifierStore).getD .empty) := by
    cases initial with
    | none => exact .empty
    | some s => exact hinitial s rfl
  unfold rebuildStores at h
  dsimp only at h
  obtain ⟨unplaced, hunplaced, h⟩ := Check.bind_ok.mp h
  obtain ⟨rebuilt, hrebuilt, h⟩ := Check.bind_ok.mp h
  have hfirst : Keyed unplaced :=
    Check.foldlM_invariant (fun _ _ _ hkeyed happly ↦ hkeyed.applyMapEvent B happly) hstart
      hunplaced
  have hlast : Keyed rebuilt.stores :=
    Check.foldlM_invariant (I := fun s : MapProgress ↦ Keyed s.stores)
      (fun _ _ _ hkeyed hblock ↦ hkeyed.rebuildBlock B hblock) hfirst hrebuilt
  exact Check.pure_ok.mp h ▸ hlast

/-! ## Stores that match the account -/

variable (E) in
/-- The three roots of the stores are the values of the account. -/
def RebuiltStores.Verified (stores : RebuiltStores) (chain : ChainState) : Prop :=
  chain.ownersCommitment = some (fieldText (stores.ownerStore.getCommitment E)) ∧
    chain.approvalRoot = some (fieldText (E.merkleMap.getRoot stores.approvalStore.map)) ∧
    chain.voteNullifierRoot = some (fieldText (E.merkleMap.getRoot stores.nullifierStore.map))

theorem assertSame_ok {chain : Option String} {rebuilt : Fp} {message : String} :
    assertSame chain rebuilt message = .ok () ↔
      chain = none ∨ chain = some (fieldText rebuilt) := by
  unfold assertSame
  cases chain with
  | none => simp [pure, Except.pure]
  | some text =>
      by_cases h : text = fieldText rebuilt
      · simp [h, pure, Except.pure]
      · simp [h]

/-- A complete account state passes exactly for stores with its roots. -/
theorem assertStoresMatchChain_ok {stores : RebuiltStores} {chain : ChainState} :
    requireRoots chain = .ok () ∧ assertStoresMatchChain E stores chain = .ok () ↔
      stores.Verified E chain := by
  constructor
  · rintro ⟨hrequired, hmatch⟩
    obtain ⟨⟨⟩, howners, hmatch⟩ := Check.bind_ok.mp hmatch
    obtain ⟨⟨⟩, happrovals, hvotes⟩ := Check.bind_ok.mp hmatch
    unfold requireRoots at hrequired
    split at hrequired
    · cases hrequired
    · next hnone =>
        rw [not_or, not_or] at hnone
        exact ⟨(assertSame_ok.mp howners).resolve_left hnone.1,
          (assertSame_ok.mp happrovals).resolve_left hnone.2.1,
          (assertSame_ok.mp hvotes).resolve_left hnone.2.2⟩
  · rintro ⟨howners, happrovals, hvotes⟩
    have hrequired : requireRoots chain = .ok () := by
      unfold requireRoots
      rw [howners, happrovals, hvotes]
      rfl
    exact ⟨hrequired, Check.bind_ok.mpr ⟨(), assertSame_ok.mpr (.inr howners),
      Check.bind_ok.mpr ⟨(), assertSame_ok.mpr (.inr happrovals),
        assertSame_ok.mpr (.inr hvotes)⟩⟩⟩

/-- Stores that a checkpoint can hold. -/
structure RebuiltStores.Storable (E : Env) (stores : RebuiltStores) : Prop where
  onCurve : ∀ k ∈ stores.ownerStore.owners, E.onCurve k = true
  length_le : stores.ownerStore.owners.length ≤ maxOwners
  keyed : Keyed (stores.approvalStore, stores.nullifierStore)

/-- A checkpoint gives back the owners in order and both maps. -/
theorem restoreStoreCheckpoint_checkpointStores {stores : RebuiltStores}
    (h : stores.Storable E) (scope : StoreScope) {throughBlock : Option ℕ}
    (hthrough : ∀ height ∈ throughBlock, height ≤ maxSafeInteger) :
    ∃ restored, restoreStoreCheckpoint B (checkpointStores B stores scope throughBlock) scope =
        .ok restored ∧
      restored.ownerStore = stores.ownerStore ∧
      restored.approvalStore.map = stores.approvalStore.map ∧
      restored.nullifierStore = stores.nullifierStore ∧
      restored.firstDivergentBlock = ⟨none, none⟩ ∧ restored.Storable E := by
  obtain ⟨approvals, happrovals, hmap, hcovered⟩ :=
    ApprovalStore.deserialize_serialize h.keyed.covered
  have howners := OwnerStore.deserialize_serialize B h.onCurve
  have hnullifiers := VoteNullifierStore.deserialize_serialize h.keyed.listed
  have hheight : isThroughBlock (heightValue throughBlock) = true := by
    cases throughBlock with
    | none => rfl
    | some height =>
        have hle := hthrough height rfl
        simp [heightValue, isThroughBlock, JsValue.isSafeInteger, hle]
  have hfits : (checkpointStores B stores scope throughBlock).fits scope = true := by
    refine decide_eq_true ⟨rfl, rfl, rfl, hheight, rfl, rfl, rfl⟩
  have hlength : ¬maxOwners <
      (stores.ownerStore.owners.map fun k ↦ JsValue.string (B.toBase58 k)).length := by
    rw [List.length_map]
    exact not_lt.mpr h.length_le
  refine ⟨⟨stores.ownerStore, approvals, stores.nullifierStore, ⟨none, none⟩⟩, ?_, rfl, hmap,
    rfl, rfl, ⟨h.onCurve, h.length_le, ⟨hcovered, h.keyed.listed⟩⟩⟩
  unfold restoreStoreCheckpoint
  rw [if_pos hfits]
  change (if _ then _ else _) = _
  rw [if_neg hlength]
  change (do
    let ownerStore ← OwnerStore.deserialize B (stores.ownerStore.serialize B)
    let approvalStore ← ApprovalStore.deserialize stores.approvalStore.serialize
    let nullifierStore ← VoteNullifierStore.deserialize stores.nullifierStore.serialize
    let stores' : RebuiltStores := ⟨ownerStore, approvalStore, nullifierStore, ⟨none, none⟩⟩
    assertStoresMatchChain E stores' (checkpointStores B stores scope throughBlock).roots
    pure stores') = _
  rw [howners, happrovals, hnullifiers]
  change (do
    assertStoresMatchChain E _ (checkpointStores B stores scope throughBlock).roots
    pure _) = _
  have hmatch : assertStoresMatchChain E
      ⟨stores.ownerStore, approvals, stores.nullifierStore, ⟨none, none⟩⟩
      (checkpointStores B stores scope throughBlock).roots = .ok () := by
    refine (assertStoresMatchChain_ok.mpr ⟨rfl, ?_, rfl⟩).2
    rw [hmap]
    rfl
  rw [hmatch]
  rfl

section Requests

variable {B} {request : OfflineRequest} {chain : ChainState} {stores : RebuiltStores}

/-- Whatever the request, its stores have the roots of the account. -/
theorem storesFromOfflineRequest_verified
    (h : storesFromOfflineRequest B request chain = .ok stores) : stores.Verified E chain := by
  unfold storesFromOfflineRequest at h
  split at h
  · obtain ⟨⟨⟩, hrequired, h⟩ := Check.bind_ok.mp h
    split at h
    · obtain ⟨restored, -, h⟩ := Check.bind_ok.mp h
      obtain ⟨⟨⟩, hmatch, h⟩ := Check.bind_ok.mp h
      obtain rfl := Check.pure_ok.mp h
      exact assertStoresMatchChain_ok.mp ⟨hrequired, hmatch⟩
    · cases h
  · cases h

/-- A checkpoint that restores stores with the roots of the account is accepted. -/
theorem storesFromOfflineRequest_restored {checkpoint : StoreCheckpoint} {scope : StoreScope}
    (hrestored : restoreStoreCheckpoint B checkpoint scope = .ok stores)
    (hverified : stores.Verified E chain) :
    storesFromOfflineRequest B ⟨.number offlineRequestVersion, scope.network, scope.address,
      .array [], some checkpoint⟩ chain = .ok stores := by
  obtain ⟨hrequired, hmatch⟩ := assertStoresMatchChain_ok.mpr hverified
  unfold storesFromOfflineRequest
  refine (if_pos rfl).trans ?_
  rw [hrequired]
  change (do
    let restored ← restoreStoreCheckpoint B checkpoint scope
    assertStoresMatchChain E restored chain
    pure restored) = _
  rw [hrestored]
  change (do
    assertStoresMatchChain E stores chain
    pure stores) = _
  rw [hmatch]
  rfl

end Requests

end MinaGuard
