import MinaGuard.Indexer.Ingest
import MinaGuard.Indexer.OwnerRows

/-!
# Syncs of a vault

The blocks of a vault are synced window by window.  Wherever they are cut, the membership
rows say in the end what all events say, and every event is in the event log.
-/

namespace MinaGuard

open Foundations

/-- The next event of a batch, and its place in it. -/
theorem concat_prefix_zipIdx {A : Type} {l : List A} {front : List (A × ℕ)} {x : A × ℕ}
    (h : front ++ [x] <+: l.zipIdx) :
    x.2 = front.length ∧ front.map Prod.fst ++ [x.1] <+: l := by
  have hfst := h.map Prod.fst
  rw [List.zipIdx_map_fst, List.map_append, List.map_singleton] at hfst
  obtain ⟨back, hback⟩ := h
  have hget : l.zipIdx[front.length]? = some (x.1, x.2) := by
    rw [← hback]
    simp
  rw [List.getElem?_zipIdx, Option.map_eq_some_iff] at hget
  obtain ⟨y, -, hy⟩ := hget
  have hplace := (Prod.mk.inj hy).2
  exact ⟨by omega, hfst⟩

section Batch

variable {E : Env} {lib : Backend E} {config : BackendConfig} {contractId : ℕ} {address : String}
  {all done events : List ChainEvent} {db db' : Database} {floor ceil : ℕ}

/-- One event more. -/
theorem OwnersMirrored.ingest {e : ChainEvent} {event : Event} {order : ℕ}
    (h : OwnersMirrored lib contractId address all db done e.blockHeight order)
    (setupFallback : Option OnChainState) (hall : OwnerEvents lib address all)
    (hemitted : e.Emitted lib event)
    (hinit : done ++ [e].filter ChainEvent.isOwnerType <+: all) :
    OwnersMirrored lib contractId address all
      (ingest lib config contractId address setupFallback db (e, order))
      (done ++ [e].filter ChainEvent.isOwnerType) e.blockHeight (order + 1) := by
  have htype := hemitted.isOwnerType
  cases howner : event.isOwnerEvent with
  | true =>
      rw [List.filter_cons_of_pos (htype.trans howner)] at hinit ⊢
      exact h.ingest_owner hall hemitted hinit
  | false =>
      rw [List.filter_cons_of_neg (by rw [htype, howner]; exact Bool.false_ne_true)] at hinit ⊢
      rw [List.filter_nil, List.append_nil]
      exact h.ingest_plain hall hemitted howner

/-- A batch of events, between two heights. -/
theorem OwnersMirrored.ingests
    (h : OwnersMirrored lib contractId address all db done floor 0)
    (hall : OwnerEvents lib address all)
    (hingests : Ingests lib config contractId address events.zipIdx db db')
    (hemitted : ∀ e ∈ events, ∃ event, e.Emitted lib event)
    (hheights : ∀ e ∈ events, floor ≤ e.blockHeight ∧ e.blockHeight < ceil)
    (hsorted : events.Pairwise fun a b ↦ a.blockHeight ≤ b.blockHeight)
    (hinit : done ++ events.filter ChainEvent.isOwnerType <+: all) (hle : floor ≤ ceil) :
    OwnersMirrored lib contractId address all db'
      (done ++ events.filter ChainEvent.isOwnerType) ceil 0 := by
  -- the rows are for places before the next one at every height that is reached
  have hreached : ∀ height, floor ≤ height → (∀ x ∈ events.zipIdx, x.1.blockHeight ≤ height) →
      OwnersMirrored lib contractId address all db'
        (done ++ (events.zipIdx.map Prod.fst).filter ChainEvent.isOwnerType) height
        events.zipIdx.length := by
    refine hingests.keeps (P := fun front db₁ ↦ ∀ height, floor ≤ height →
      (∀ x ∈ front, x.1.blockHeight ≤ height) → OwnersMirrored lib contractId address all db₁
        (done ++ (front.map Prod.fst).filter ChainEvent.isOwnerType) height front.length) ?_ ?_
    · intro height hheight _
      rw [List.map_nil, List.filter_nil, List.append_nil]
      exact h.mono (by rw [List.length_nil]; omega)
    · rintro front ⟨e, order⟩ db₁ setupFallback hbatch ih height - hreached
      obtain ⟨rfl, hevents⟩ := concat_prefix_zipIdx hbatch
      have he : e ∈ events := hevents.subset (List.mem_append_right _ (List.mem_singleton_self e))
      obtain ⟨event, hevent⟩ := hemitted e he
      have hbefore : ∀ x ∈ front, x.1.blockHeight ≤ e.blockHeight := fun x hx ↦
        (List.pairwise_append.mp (hsorted.sublist hevents.sublist)).2.2 _
          (List.mem_map_of_mem hx) e (List.mem_singleton_self e)
      have hwords : done ++ (front.map Prod.fst).filter ChainEvent.isOwnerType ++
          [e].filter ChainEvent.isOwnerType <+: all := by
        rw [List.append_assoc, ← List.filter_append]
        exact ((List.prefix_append_right_inj done).mpr (hevents.filter _)).trans hinit
      have hlast : e.blockHeight ≤ height :=
        hreached _ (List.mem_append_right _ (List.mem_singleton_self _))
      have hplace := ih e.blockHeight (hheights e he).1 hbefore
      rw [List.map_append, List.filter_append, ← List.append_assoc, List.length_append,
        List.length_singleton]
      exact (hplace.ingest setupFallback hall hevent hwords).mono (by omega)
  have hmem {x : ChainEvent × ℕ} (hx : x ∈ events.zipIdx) : x.1 ∈ events :=
    List.fst_mem_of_mem_zipIdx hx
  rw [List.zipIdx_map_fst, List.length_zipIdx] at hreached
  by_cases hlt : floor < ceil
  · have hlast : ∀ x ∈ events.zipIdx, x.1.blockHeight ≤ ceil - 1 := fun x hx ↦ by
      have hbelow := (hheights _ (hmem hx)).2
      omega
    exact (hreached (ceil - 1) (by omega) hlast).mono (by omega)
  · have hnone : events = [] := List.eq_nil_iff_forall_not_mem.mpr fun e he ↦ by
      have hheight := hheights e he
      omega
    subst hnone
    exact hreached ceil hle fun x hx ↦ absurd hx List.not_mem_nil

/-- The whole batch is in the event log afterwards, with what was there before. -/
theorem Ingests.isRecorded {xs : List (ChainEvent × ℕ)}
    (h : Ingests lib config contractId address xs db db')
    (hdecode : ∀ x ∈ xs, x.1.decodeError = none) :
    (∀ f, db.isRecorded f = true → db'.isRecorded f = true) ∧
      ∀ x ∈ xs, db'.isRecorded (fingerprintEvent address x.1) = true := by
  refine h.keeps (P := fun front db₁ ↦
    (∀ f, db.isRecorded f = true → db₁.isRecorded f = true) ∧
      ∀ x ∈ front, db₁.isRecorded (fingerprintEvent address x.1) = true)
    ⟨fun _ hf ↦ hf, fun x hx ↦ absurd hx List.not_mem_nil⟩ ?_
  rintro front ⟨e, order⟩ db₁ setupFallback hbatch ⟨hkept, hfront⟩
  have he : (e, order) ∈ xs := hbatch.subset (List.mem_append_right _ (List.mem_singleton_self _))
  obtain ⟨hnew, hold, -⟩ := ingest_logs lib config contractId address setupFallback db₁ order
    (hdecode _ he)
  refine ⟨fun f hf ↦ hold f (hkept f hf), List.forall_mem_append.mpr
    ⟨fun x hx ↦ hold _ (hfront x hx), List.forall_mem_singleton.mpr hnew⟩⟩

end Batch

/-- Other programs leave the rows of the vault alone. -/
structure Database.Spares (contractId : ℕ) (address : String) (db db' : Database) : Prop where
  contract : contractId ∈ db.contracts.map Db.Contract.id →
    contractId ∈ db'.contracts.map Db.Contract.id
  memberships : db'.membershipsOf contractId = db.membershipsOf contractId
  configs : (db'.contractConfigs.filter fun c ↦ c.contractId = contractId) =
    db.contractConfigs.filter fun c ↦ c.contractId = contractId
  recorded : ∀ e, db'.isRecorded (fingerprintEvent address e) =
    db.isRecorded (fingerprintEvent address e)

theorem Database.Reflagged.spares {contractId : ℕ} {address : String} {db db' : Database}
    (h : db.Reflagged db') : db.Spares contractId address db' where
  contract := fun hcontract ↦ by
    have hids := congrArg (List.map Prod.fst) h.links
    rw [List.map_map, List.map_map] at hids
    change db'.contracts.map Db.Contract.id = db.contracts.map Db.Contract.id at hids
    rwa [hids]
  memberships := by rw [h.tables]; rfl
  configs := by rw [h.tables]
  recorded := fun e ↦ by rw [h.tables]; rfl

namespace Database.Spares

variable {contractId : ℕ} {address : String} {db db' : Database}

theorem getLatestConfig (h : db.Spares contractId address db') :
    db'.getLatestConfig contractId = db.getLatestConfig contractId := by
  unfold Database.getLatestConfig
  rw [h.configs]

theorem snapshotsBefore (h : db.Spares contractId address db') {height order : ℕ}
    (hbefore : db.SnapshotsBefore contractId height order) :
    db'.SnapshotsBefore contractId height order := by
  have hmem {row : Db.ContractConfig} (hrow : row ∈ db'.contractConfigs)
      (hcontract : row.contractId = contractId) : row ∈ db.contractConfigs := by
    have hfilter : row ∈ db'.contractConfigs.filter fun c ↦ c.contractId = contractId :=
      List.mem_filter.mpr ⟨hrow, decide_eq_true hcontract⟩
    rw [h.configs] at hfilter
    exact List.mem_of_mem_filter hfilter
  exact ⟨fun row hrow hcontract ↦ hbefore.fits row (hmem hrow hcontract) hcontract,
    fun row hrow hcontract ↦ hbefore.before row (hmem hrow hcontract) hcontract⟩

end Database.Spares

section Windows

variable {E : Env} {lib : Backend E} {config : BackendConfig} {contractId : ℕ} {address : String}
  {all done : List ChainEvent} {db db' : Database}

theorem OwnersMirrored.spared {height order : ℕ}
    (h : OwnersMirrored lib contractId address all db done height order)
    (hspared : db.Spares contractId address db') :
    OwnersMirrored lib contractId address all db' done height order where
  contract := hspared.contract h.contract
  words := by rw [hspared.memberships, h.words]
  ordered := hspared.memberships ▸ h.ordered
  before := hspared.memberships ▸ h.before
  snapshots := hspared.snapshotsBefore h.snapshots
  threshold := fun hne ↦ by
    unfold Database.HasThreshold
    rw [hspared.getLatestConfig]
    exact h.threshold hne
  recorded := fun e he hrec ↦ h.recorded e he ((hspared.recorded e).symm.trans hrec)

/-- What an undisturbed sync of a window ingests. -/
theorem ingests_window {window : List ArchivedBlock} {s s' : IndexerState}
    {ls : List (Option Mark)} {fromHeight toHeight : ℕ}
    {finish readyFromStoredEvents ingested : Bool}
    (alone : (syncSingleContract lib config (.live lib config) contractId address fromHeight
      toHeight finish readyFromStoredEvents).Alone s ls s' (.ok (some ingested)))
    (fetched : ∀ events, some (.fetched contractId address events) ∈ ls →
      decodeContractEvents lib address (window.map ArchivedBlock.eventBlock) = .ok events)
    (hproved : ∀ b ∈ window, ∀ t ∈ b.transactions, t.Proved) (hhashes : DistinctHashes window) :
    ∃ db₁ db₂, s.db.Spares contractId address db₁ ∧
      Ingests lib config contractId address
        (orderEventsForApply (window.flatMap fun b ↦ b.chainEvents lib.base58)).zipIdx db₁ db₂ ∧
      db₂.Spares contractId address s'.db := by
  obtain ⟨events, db₁, db₂, hfetched, hbefore, hingests, hafter⟩ := alone_syncSingleContract alone
  have hevents := (decodeContractEvents_eventBlock lib hproved).symm.trans
    (fetched events hfetched)
  rw [← Except.ok.inj hevents, reverseEventsWithinEachTx_returned lib.base58 hhashes] at hingests
  exact ⟨db₁, db₂, hbefore.spares, hingests, hafter.spares⟩

end Windows

/-- The syncs of a vault, window by window, and what other programs do in between. -/
inductive Syncs {E : Env} (lib : Backend E) (config : BackendConfig) (contractId : ℕ)
    (address : String) : List (List ArchivedBlock) → Database → Database → Prop where
  | nil {db : Database} : Syncs lib config contractId address [] db db
  | others {windows : List (List ArchivedBlock)} {db db₁ db₂ : Database}
      (front : Syncs lib config contractId address windows db db₁)
      (spared : db₁.Spares contractId address db₂) :
      Syncs lib config contractId address windows db db₂
  | sync {windows : List (List ArchivedBlock)} {window : List ArchivedBlock} {db : Database}
      {s s' : IndexerState} {ls : List (Option Mark)} {fromHeight toHeight : ℕ}
      {finish readyFromStoredEvents ingested : Bool}
      (front : Syncs lib config contractId address windows db s.db)
      (alone : (syncSingleContract lib config (.live lib config) contractId address fromHeight
        toHeight finish readyFromStoredEvents).Alone s ls s' (.ok (some ingested)))
      (fetched : ∀ events, some (.fetched contractId address events) ∈ ls →
        decodeContractEvents lib address (window.map ArchivedBlock.eventBlock) = .ok events) :
      Syncs lib config contractId address (windows ++ [window]) db s'.db

/-- The event blocks of a vault as an archive has them. -/
structure Archived (blocks : List ArchivedBlock) : Prop where
  ordered : blocks.Pairwise fun b b' ↦ b.height < b'.height
  proved : ∀ b ∈ blocks, ∀ t ∈ b.transactions, t.Proved
  hashes : DistinctHashes blocks
  plain : ∀ b ∈ blocks, ∀ t ∈ b.transactions, t.info.PlainHash

section Syncs

variable {E : Env} {lib : Backend E} {config : BackendConfig} {contractId : ℕ} {address : String}
  {blocks : List ArchivedBlock} {windows : List (List ArchivedBlock)} {db db' : Database}

theorem Archived.window {window : List ArchivedBlock} (h : Archived blocks)
    (hsub : window.Sublist blocks) : Archived window where
  ordered := h.ordered.sublist hsub
  proved := fun b hb ↦ h.proved b (hsub.subset hb)
  hashes := h.hashes.window hsub
  plain := fun b hb ↦ h.plain b (hsub.subset hb)

theorem Archived.emitted (h : Archived blocks) (lib : Backend E) {b : ArchivedBlock}
    (hb : b ∈ blocks) {e : ChainEvent} (he : e ∈ b.chainEvents lib.base58) :
    ∃ event, e.Emitted lib event := by
  obtain ⟨t, ht, he⟩ := List.mem_flatMap.mp he
  obtain ⟨event, -, rfl⟩ := List.mem_map.mp he
  exact ⟨event, b, t.info, h.plain b hb t ht, rfl⟩

theorem blockHeight_of_mem_chainEvents {b : ArchivedBlock} {B : Base58 E} {e : ChainEvent}
    (he : e ∈ b.chainEvents B) : e.blockHeight = b.height := by
  obtain ⟨t, -, he⟩ := List.mem_flatMap.mp he
  obtain ⟨event, -, rfl⟩ := List.mem_map.mp he
  rfl

/-- Everything that was synced is in the event log. -/
theorem Syncs.isRecorded (h : Syncs lib config contractId address windows db db')
    (harchived : Archived windows.flatten) :
    ∀ b ∈ windows.flatten, ∀ e ∈ b.chainEvents lib.base58,
      db'.isRecorded (fingerprintEvent address e) = true := by
  induction h with
  | nil => exact fun b hb ↦ absurd hb List.not_mem_nil
  | others front spared ih =>
      intro b hb e he
      rw [spared.recorded]
      exact ih harchived b hb e he
  | @sync windows window db s s' ls fromHeight toHeight finish stored ingested front alone
      fetched ih =>
      rw [List.flatten_concat] at harchived ⊢
      have hwindow := harchived.window (List.sublist_append_right _ _)
      obtain ⟨db₁, db₂, hbefore, hingests, hafter⟩ :=
        ingests_window alone fetched hwindow.proved hwindow.hashes
      have hemitted : ∀ e ∈ window.flatMap fun b ↦ b.chainEvents lib.base58,
          e.decodeError = none := by
        intro e he
        obtain ⟨b, hb, he⟩ := List.mem_flatMap.mp he
        obtain ⟨event, hevent⟩ := hwindow.emitted lib hb he
        exact hevent.decodeError
      obtain ⟨hkept, hnew⟩ := hingests.isRecorded fun x hx ↦
        hemitted x.1 (mem_orderEventsForApply.mp (List.fst_mem_of_mem_zipIdx hx))
      intro b hb e he
      rw [hafter.recorded]
      rcases List.mem_append.mp hb with hb | hb
      · refine hkept _ ?_
        rw [hbefore.recorded]
        exact ih (harchived.window (List.sublist_append_left _ _)) b hb e he
      · have hmem : e ∈ orderEventsForApply (window.flatMap fun b ↦ b.chainEvents lib.base58) :=
          mem_orderEventsForApply.mpr (List.mem_flatMap.mpr ⟨b, hb, he⟩)
        obtain ⟨i, hi⟩ := List.mem_iff_getElem?.mp hmem
        exact hnew (e, i) (List.mk_mem_zipIdx_iff_getElem?.mpr hi)

/-- A height between the windows before and the next one. -/
theorem Archived.exists_floor {front window : List ArchivedBlock} {ceil : ℕ}
    (h : Archived (front ++ window)) (hceil : ∀ b ∈ front ++ window, b.height < ceil) :
    ∃ floor ≤ ceil, (∀ b ∈ front, b.height < floor) ∧ ∀ b ∈ window, floor ≤ b.height := by
  obtain ⟨-, hwindow, hparts⟩ := List.pairwise_append.mp h.ordered
  cases window with
  | nil =>
      exact ⟨ceil, le_rfl, fun b hb ↦ hceil b (List.mem_append_left _ hb),
        fun b hb ↦ absurd hb List.not_mem_nil⟩
  | cons first window =>
      refine ⟨first.height, (hceil first (List.mem_append_right _ List.mem_cons_self)).le,
        fun b hb ↦ hparts b hb first List.mem_cons_self, List.forall_mem_cons.mpr ⟨le_rfl, ?_⟩⟩
      exact fun b hb ↦ ((List.pairwise_cons.mp hwindow).1 b hb).le

theorem blockHeight_le_of_applyKey_le {a b : ChainEvent} (h : applyKey a ≤ applyKey b) :
    a.blockHeight ≤ b.blockHeight := by
  have hrank := typeRank_lt b.type
  unfold applyKey at h
  omega

/-- The events of the blocks about owners. -/
def ownerChainEvents (lib : Backend E) (blocks : List ArchivedBlock) : List ChainEvent :=
  (blocks.flatMap fun b ↦ b.chainEvents lib.base58).filter ChainEvent.isOwnerType

theorem ownerChainEvents_append (front back : List ArchivedBlock) :
    ownerChainEvents lib (front ++ back) =
      ownerChainEvents lib front ++ ownerChainEvents lib back := by
  unfold ownerChainEvents
  rw [List.flatMap_append, List.filter_append]

/-- Wherever the blocks are cut, the rows say in the end what the events say. -/
theorem Syncs.mirrored {all : List ChainEvent} {ceil : ℕ}
    (h : Syncs lib config contractId address windows db db')
    (harchived : Archived windows.flatten) (hall : OwnerEvents lib address all)
    (hinit : ownerChainEvents lib windows.flatten <+: all)
    (hfresh : ∀ floor, OwnersMirrored lib contractId address all db [] floor 0)
    (hceil : ∀ b ∈ windows.flatten, b.height < ceil) :
    OwnersMirrored lib contractId address all db' (ownerChainEvents lib windows.flatten)
      ceil 0 := by
  induction h generalizing ceil with
  | nil => exact hfresh ceil
  | others front spared ih => exact (ih harchived hinit hfresh hceil).spared spared
  | @sync windows window db s s' ls fromHeight toHeight finish stored ingested front alone
      fetched ih =>
      rw [List.flatten_concat] at harchived hinit hceil ⊢
      have hwindow := harchived.window (List.sublist_append_right _ _)
      obtain ⟨db₁, db₂, hbefore, hingests, hafter⟩ :=
        ingests_window alone fetched hwindow.proved hwindow.hashes
      obtain ⟨floor, hle, hfront, hfloor⟩ := harchived.exists_floor hceil
      rw [ownerChainEvents_append] at hinit ⊢
      have hdone := ih (harchived.window (List.sublist_append_left _ _))
        ((List.prefix_append _ _).trans hinit) hfresh hfront
      have hmem {e : ChainEvent} (he : e ∈ orderEventsForApply
          (window.flatMap fun b ↦ b.chainEvents lib.base58)) :
          ∃ b ∈ window, e ∈ b.chainEvents lib.base58 :=
        List.mem_flatMap.mp (mem_orderEventsForApply.mp he)
      -- the events about owners are in order already
      have howners : (orderEventsForApply (window.flatMap fun b ↦
          b.chainEvents lib.base58)).filter ChainEvent.isOwnerType =
            ownerChainEvents lib window :=
        filter_orderEventsForApply
          (hall.ordered.sublist ((List.sublist_append_right _ _).trans hinit.sublist))
      rw [← howners] at hinit ⊢
      refine ((hdone.spared hbefore).ingests hall hingests ?_ ?_ ?_ hinit hle).spared hafter
      · intro e he
        obtain ⟨b, hb, he⟩ := hmem he
        exact hwindow.emitted lib hb he
      · intro e he
        obtain ⟨b, hb, he⟩ := hmem he
        rw [blockHeight_of_mem_chainEvents he]
        exact ⟨hfloor b hb, hceil b (List.mem_append_right _ hb)⟩
      · exact (pairwise_orderEventsForApply _).imp blockHeight_le_of_applyKey_le

end Syncs

end MinaGuard
