import MinaGuard.Foundations.TransitionSystem
import MinaGuard.Indexer.RowFootprints
import MinaGuard.Indexer.Deletions
import MinaGuard.Indexer.Ingest

/-!
# The tables follow the machine

Tracking, forgetting, ingesting and rolling back act on what the tables say as the
machine does.  So what the tables say after any number of such steps is computed from the
steps alone.
-/

namespace MinaGuard

open Foundations

namespace Database

variable {db db' : Database} {c : Db.Contract} {T : ℕ → Prop}

/-- The events are of contracts that there were. -/
structure Indexed (db : Database) : Prop extends Sound db where
  eventsBelow : ∀ r ∈ db.eventRaws, ∀ id, r.contractId = some id → id < db.nextContractId

/-- Contracts keep their addresses. -/
theorem addressOf_keeps (hkeeps : db.Keeps T db') {id : Option ℕ}
    (hid : ∀ k, id = some k → k < db.nextContractId) : db'.addressOf id = db.addressOf id := by
  cases id with
  | none => rfl
  | some k =>
      obtain ⟨f, new, hrows, hevolves, -, hfresh, -, -⟩ := hkeeps
      have hnew : rowAt Db.Contract.id new k = none := by
        refine rowAt_eq_none.mpr fun hmem ↦ ?_
        obtain ⟨c, hc, hck⟩ := List.mem_map.mp hmem
        have hle := (hfresh c hc).1
        have hlt := hid k rfl
        omega
      have hfind : db'.findContract k = (db.findContract k).map f := by
        rw [findContract_eq, findContract_eq, hrows]
        unfold rowAt at hnew ⊢
        rw [List.find?_append, hnew, Option.or_none]
        exact rowAt_map fun c hc ↦ (hevolves c hc).id
      unfold addressOf
      rw [Option.bind_some, Option.bind_some, hfind, Option.map_map]
      cases hrow : db.findContract k with
      | none => rfl
      | some c =>
          rw [findContract_eq] at hrow
          exact congrArg some (hevolves c (rowAt_mem hrow).1).address

theorem Indexed.log_keeps (h : db.Indexed) (hkeeps : db.Keeps T db') :
    db.eventRaws.map db'.logEntry = db.eventRaws.map db.logEntry := by
  refine List.map_congr_left fun r hr ↦ ?_
  unfold logEntry
  rw [addressOf_keeps hkeeps (h.eventsBelow r hr)]

theorem Indexed.eventsBelow_keeps (h : db.Indexed) (hkeeps : db.Keeps T db') :
    ∀ r ∈ db.eventRaws, ∀ id, r.contractId = some id → id < db'.nextContractId :=
  fun r hr id hid ↦ (h.eventsBelow r hr id hid).trans_le hkeeps.nextContractId

theorem isRecorded_index (db : Database) (fingerprint : String) :
    db.index.isRecorded fingerprint = db.isRecorded fingerprint := by
  rw [Bool.eq_iff_iff, isRecorded_iff]
  unfold Index.isRecorded index
  simp only [List.any_map, List.any_eq_true, List.mem_map, Function.comp_apply, decide_eq_true_eq]
  rfl

theorem WellKeyed.addressOf (h : db.WellKeyed) (hc : c ∈ db.contracts) :
    db.addressOf (some c.id) = some c.address := by
  unfold Database.addressOf
  rw [Option.bind_some, h.findContract hc, Option.map_some]

section Events

variable {E : Env} {lib : Backend E} {config : BackendConfig} {e : ChainEvent} {order : ℕ}
  {fingerprint : String} {applyError : Option String} {id : ℕ}

theorem index_recordEvent (h : db.Indexed) (hc : c ∈ db.contracts)
    (hdb : recordEvent db c.id e fingerprint applyError = .ok (id, db')) :
    db'.index = db.index.record c.address e fingerprint applyError ∧ db'.Indexed ∧
      db'.contractConfigs = db.contractConfigs ∧ db'.contracts = db.contracts := by
  unfold recordEvent at hdb
  dsimp only at hdb
  split at hdb
  · cases hdb
  cases hdb
  refine ⟨?_, ⟨⟨h.toWellKeyed.recorded _ _ _, h.chronological⟩, ?_⟩, rfl, rfl⟩
  · have hentry (r : Db.EventRaw) (hr : r.contractId = some c.id) : db.logEntry r =
        ⟨some c.address, r.blockHeight, r.txHash, r.eventType, r.payload, r.fingerprint,
          r.applyError⟩ := by
      unfold logEntry
      rw [hr, h.addressOf hc]
    unfold index Index.record
    dsimp only
    rw [List.map_append, List.map_singleton]
    exact congrArg (fun entry ↦ Index.mk _ _ (db.eventRaws.map db.logEntry ++ [entry]))
      (hentry _ rfl)
  · refine List.forall_mem_append.mpr ⟨h.eventsBelow, List.forall_mem_singleton.mpr ?_⟩
    rintro _ hid
    exact Option.some.inj hid ▸ h.contractsBelow c hc

/-- The event is recorded, and its snapshots come after the others if it is applied. -/
theorem index_applyOrFail (h : db.Indexed) (hc : c ∈ db.contracts)
    (hfree : db.isRecorded fingerprint = false)
    (hbefore : db.ConfigsBefore c.id e.blockHeight order) (setupFallback : Option OnChainState) :
    (applyOrFail lib config c.id db e order fingerprint setupFallback).index =
        (match db.index.vaults.apply lib config.indexerMode c.address e setupFallback with
          | some vaults => { db.index.record c.address e fingerprint none with vaults }
          | none => db.index.record c.address e fingerprint (some outOfRange.reason)) ∧
      (applyOrFail lib config c.id db e order fingerprint setupFallback).Indexed := by
  have hrecord (applyError : Option String) : ∃ id db₁,
      recordEvent db c.id e fingerprint applyError = .ok (id, db₁) := by
    cases hresult : recordEvent db c.id e fingerprint applyError with
    | ok r => exact ⟨r.1, r.2, rfl⟩
    | error error =>
        rw [recordEvent_error hresult] at hfree
        cases hfree
  obtain ⟨id, db₁, hok⟩ := hrecord none
  obtain ⟨hindex, hindexed, hconfigs, hcontracts⟩ := index_recordEvent h hc hok
  have hviews : db₁.indexView = db.indexView := congrArg Index.vaults hindex
  have hmeans : Means (applyEvent lib config.indexerMode db₁ c.id e order id setupFallback) _ :=
    means_applyEvent hindexed.toSound (hcontracts ▸ hc) (hbefore.congr hconfigs)
      config.indexerMode setupFallback
  rw [hviews] at hmeans
  have happlied : recordAndApply lib config db c.id e order fingerprint setupFallback =
      applyEvent lib config.indexerMode db₁ c.id e order id setupFallback := by
    unfold recordAndApply
    rw [hok]
    rfl
  unfold applyOrFail
  rw [happlied]
  cases hresult : applyEvent lib config.indexerMode db₁ c.id e order id setupFallback with
  | ok db₂ =>
      rw [hresult] at hmeans
      obtain ⟨hmeaning, hsound⟩ : db.index.vaults.apply lib config.indexerMode c.address e
        setupFallback = some db₂.indexView ∧ db₂.Sound := hmeans
      have hsame := applyEvent_sameRecord hresult
      have hkeeps : db₁.Keeps (fun _ ↦ False) db₂ := applyEvent_keeps hresult
      refine ⟨?_, hsound, hsame.eventRaws ▸ hindexed.eventsBelow_keeps hkeeps⟩
      rw [hmeaning, ← hindex]
      unfold index
      dsimp only
      rw [hsame.blockHeaders, hsame.eventRaws, hindexed.log_keeps hkeeps]
  | error error =>
      rw [hresult] at hmeans
      obtain ⟨hmeaning, rfl⟩ : db.index.vaults.apply lib config.indexerMode c.address e
        setupFallback = none ∧ error = outOfRange := hmeans
      obtain ⟨id, db₂, hfailed⟩ := hrecord (some outOfRange.reason)
      obtain ⟨hindex, hindexed, -, -⟩ := index_recordEvent h hc hfailed
      dsimp only
      rw [hmeaning, recordFailure, hfailed]
      exact ⟨hindex, hindexed⟩

/-- Snapshots are written for one place only. -/
def WritesConfigs (contractId height order : ℕ) (db db' : Database) : Prop :=
  ∀ row ∈ db'.contractConfigs, row ∈ db.contractConfigs ∨
    row.contractId = contractId ∧ row.validFromBlock = height ∧ row.eventOrder = order

section Configs

variable {contractId height : ℕ}

theorem WritesConfigs.of_eq (h : db'.contractConfigs = db.contractConfigs) :
    WritesConfigs contractId height order db db' := fun _ hrow ↦ .inl (h ▸ hrow)

theorem WritesConfigs.of_concat {r : Db.ContractConfig}
    (hr : r.contractId = contractId ∧ r.validFromBlock = height ∧ r.eventOrder = order)
    (h : db'.contractConfigs = db.contractConfigs ++ [r]) :
    WritesConfigs contractId height order db db' := by
  intro row hrow
  rw [h] at hrow
  refine (List.mem_append.mp hrow).imp_right fun hmem ↦ ?_
  rwa [List.mem_singleton.mp hmem]

theorem appendContractConfigSnapshot_writesConfigs {db₁ : Database}
    {sourceEventId : Option ℕ} {changes : ContractConfigChanges}
    (h : appendContractConfigSnapshot db₁ contractId height order sourceEventId changes =
      .ok db') (hconfigs : db₁.contractConfigs = db.contractConfigs) :
    WritesConfigs contractId height order db db' := by
  refine .of_concat (r := changes.overlay (db₁.getLatestConfig contractId) contractId height
    order sourceEventId) ⟨rfl, rfl, rfl⟩ ?_
  rw [appendContractConfigSnapshot_ok h, ← hconfigs]

theorem applySetupOwnerEvent_writesConfigs {sourceEventId : ℕ}
    {setupFallback : Option OnChainState}
    (h : applySetupOwnerEvent lib db contractId e order sourceEventId setupFallback =
      .ok db') : WritesConfigs contractId e.blockHeight order db db' := by
  unfold applySetupOwnerEvent at h
  dsimp only at h
  split at h
  · cases h
    exact .of_eq rfl
  split at h
  · cases h
    exact .of_eq rfl
  obtain ⟨index, -, h⟩ := except_bind_ok h
  split at h
  · cases h
    exact .of_eq rfl
  split at h
  · cases h
    exact .of_eq rfl
  · exact appendContractConfigSnapshot_writesConfigs h rfl

theorem applyOwnerChangeEvent_writesConfigs {sourceEventId : ℕ}
    (h : applyOwnerChangeEvent db contractId e order sourceEventId = .ok db') :
    WritesConfigs contractId e.blockHeight order db db' := by
  unfold applyOwnerChangeEvent at h
  dsimp only at h
  split at h
  · cases h
    exact .of_eq rfl
  split at h
  · cases h
    exact .of_eq rfl
  · exact appendContractConfigSnapshot_writesConfigs h rfl

theorem applyEvent_writesConfigs {mode : IndexerMode} {sourceEventId : ℕ}
    {setupFallback : Option OnChainState}
    (h : applyEvent lib mode db contractId e order sourceEventId setupFallback = .ok db') :
    WritesConfigs contractId e.blockHeight order db db' := by
  by_cases hslot : e.type = "setupOwner"
  · unfold applyEvent at h
    rw [hslot] at h
    exact applySetupOwnerEvent_writesConfigs h
  by_cases hchange : e.type = "ownerChange"
  · unfold applyEvent at h
    rw [hchange] at h
    exact applyOwnerChangeEvent_writesConfigs h
  rcases (applyEvent_addsSnapshot hslot hchange h).contractConfigs with
    heq | ⟨changes, sourceEventId, row, rfl, -, hrows⟩
  · exact .of_eq heq
  · exact .of_concat ⟨rfl, rfl, rfl⟩ hrows

end Configs

/-! ## Contracts -/

/-- What a contract row is, apart from its flags. -/
def originOf (c : Db.Contract) : ℕ × String × Option String × Option ℕ :=
  (c.id, c.address, c.parent, c.discoveredAtBlock)

/-- Flags and cursors say nothing. -/
theorem index_relabel {rows : List Db.Contract}
    (hrows : rows.map originOf = db.contracts.map originOf) (indexed discovered : Option ℕ) :
    index { db with
      contracts := rows
      indexedHeight := indexed
      archiveDiscoveredHeight := discovered } = db.index := by
  have hlookup {K : Type} [DecidableEq K] (keyOf : ℕ × String × Option String × Option ℕ → K)
      (k : K) : (rowAt (keyOf ∘ originOf) rows k).map originOf =
        (rowAt (keyOf ∘ originOf) db.contracts k).map originOf := by
    rw [map_rowAt, map_rowAt, hrows]
  have hvault (o : Option Db.Contract) : o.map db.vaultView = (o.map originOf).map fun x ↦
      db.vaultView ⟨x.1, x.2.1, x.2.2.1, false, false, x.2.2.2, false⟩ := by
    rw [Option.map_map]
    rfl
  have haddress (o : Option Db.Contract) :
      o.map Db.Contract.address = (o.map originOf).map fun x ↦ x.2.1 := by
    rw [Option.map_map]
    rfl
  unfold index
  dsimp only
  congr 1
  · funext address
    change (rowAt ((fun x ↦ x.2.1) ∘ originOf) rows address).map db.vaultView =
      (rowAt ((fun x ↦ x.2.1) ∘ originOf) db.contracts address).map db.vaultView
    rw [hvault, hlookup, ← hvault]
  · refine List.map_congr_left fun r _ ↦ ?_
    refine congrArg (LogEntry.mk · _ _ _ _ _ _) ?_
    cases r.contractId with
    | none => rfl
    | some k =>
        change (rowAt (Prod.fst ∘ originOf) rows k).map Db.Contract.address =
          (rowAt (Prod.fst ∘ originOf) db.contracts k).map Db.Contract.address
        rw [haddress, hlookup, ← haddress]

theorem Indexed.relabel (h : db.Indexed) {rows : List Db.Contract}
    (hrows : rows.map originOf = db.contracts.map originOf) (indexed discovered : Option ℕ) :
    Indexed { db with
      contracts := rows
      indexedHeight := indexed
      archiveDiscoveredHeight := discovered } := by
  have hids : rows.map Db.Contract.id = db.contracts.map Db.Contract.id := by
    have hmap := congrArg (List.map Prod.fst) hrows
    rwa [List.map_map, List.map_map] at hmap
  have haddresses : rows.map Db.Contract.address = db.contracts.map Db.Contract.address := by
    have hmap := congrArg (List.map fun x ↦ x.2.1) hrows
    rwa [List.map_map, List.map_map] at hmap
  refine
    { h with
      contractIds := hids ▸ h.contractIds
      addresses := haddresses ▸ h.addresses
      contractsBelow := fun c hc ↦ ?_ }
  obtain ⟨c', hc', heq⟩ := List.mem_map.mp (hids ▸ List.mem_map_of_mem hc)
  exact heq ▸ h.contractsBelow c' hc'

/-- A new contract. -/
theorem index_createContract (h : db.Indexed) {address : String} {verified : Bool}
    {discoveredAtBlock : Option ℕ}
    (hdb : db.createContract address none verified discoveredAtBlock = .ok (id, db')) :
    db'.index = db.index.track address discoveredAtBlock ∧ db'.Indexed := by
  have hkeeps : db.Keeps (fun _ ↦ False) db' := keeps_createContract hdb
  have hkeyed := h.createContract hdb
  have hview := indexView_createContract h.toWellKeyed hdb
  have hlog := h.log_keeps hkeeps
  have hbelow := h.eventsBelow_keeps hkeeps
  obtain ⟨hfresh, -, rfl⟩ := createContract_ok hdb
  have hunknown : db.index.vaults address = none := by
    unfold index indexView
    dsimp only
    rw [hfresh, Option.map_none]
  refine ⟨?_, ⟨hkeyed, h.chronological⟩, hbelow⟩
  unfold Index.track
  rw [hunknown]
  unfold index
  rw [hview, hlog]

theorem addressOf_deleteContracts (h : db.WellKeyed) (doomed : Db.Contract → Bool)
    (contractId : Option ℕ) :
    (db.deleteContracts doomed).addressOf
        (contractId.filter fun id ↦ id ∉ (db.contracts.filter doomed).map Db.Contract.id) =
      (db.addressOf contractId).filter fun address ↦
        (db.findContractAt address).any fun c ↦ !doomed c := by
  cases contractId with
  | none => rfl
  | some k =>
  have hfind : (db.deleteContracts doomed).findContract k =
      (db.findContract k).filter fun c ↦ !doomed c := rowAt_filter h.contractIds _
  unfold addressOf
  rw [Option.bind_some]
  cases hrow : db.findContract k with
  | none =>
      rw [hrow] at hfind
      rw [Option.filter_some]
      split
      · rw [Option.bind_some, hfind]
        rfl
      · rfl
  | some c =>
      rw [findContract_eq] at hrow
      obtain ⟨hc, rfl⟩ := rowAt_mem hrow
      rw [h.findContract hc] at hfind
      rw [Option.map_some, Option.filter_some, Option.filter_some, h.findContractAt hc]
      cases hdoomed : doomed c with
      | true =>
          have hmem : c.id ∈ (db.contracts.filter doomed).map Db.Contract.id :=
            List.mem_map_of_mem (List.mem_filter.mpr ⟨hc, hdoomed⟩)
          simp [hmem, hdoomed]
      | false =>
          have hmem : c.id ∉ (db.contracts.filter doomed).map Db.Contract.id := by
            intro hmem
            obtain ⟨c', hc', heq⟩ := List.mem_map.mp hmem
            obtain ⟨hc', hdoomed'⟩ := List.mem_filter.mp hc'
            rw [h.eq_of_contractId hc' hc heq, hdoomed] at hdoomed'
            cases hdoomed'
          rw [if_pos (decide_eq_true hmem), Option.bind_some, hfind, Option.filter_some, hdoomed]
          simp [hdoomed]

theorem index_deleteContracts (h : db.WellKeyed) (doomed : Db.Contract → Bool) :
    (db.deleteContracts doomed).index =
      { headers := db.index.headers
        vaults := fun address ↦
          ((db.findContractAt address).filter fun c ↦ !doomed c).map db.vaultView
        log := db.index.log.map fun x ↦ { x with
          vault := x.vault.filter fun address ↦ (db.findContractAt address).any fun c ↦
            !doomed c } } := by
  have hlog : (db.deleteContracts doomed).eventRaws.map (db.deleteContracts doomed).logEntry =
      db.index.log.map fun x ↦ { x with
        vault := x.vault.filter fun address ↦ (db.findContractAt address).any fun c ↦
          !doomed c } := by
    unfold index
    dsimp only
    rw [List.map_map]
    refine (List.map_map (l := db.eventRaws)).trans (List.map_congr_left fun r _ ↦ ?_)
    exact congrArg (LogEntry.mk · _ _ _ _ _ _) (addressOf_deleteContracts h doomed r.contractId)
  unfold index at hlog ⊢
  dsimp only at hlog ⊢
  rw [hlog]
  congr 1
  exact funext (indexView_deleteContracts h doomed)

theorem Indexed.deleteContracts (h : db.Indexed) (doomed : Db.Contract → Bool) :
    (db.deleteContracts doomed).Indexed := by
  refine ⟨(deletes_contracts db doomed).sound h.toSound, fun r hr id hid ↦ ?_⟩
  obtain ⟨r', hr', rfl⟩ := List.mem_map.mp hr
  exact h.eventsBelow r' hr' id (Option.filter_eq_some_iff.mp hid).1

theorem addressOf_eq_some (h : db.WellKeyed) {contractId : Option ℕ} {address : String} :
    db.addressOf contractId = some address ↔
      ∃ c ∈ db.contracts, contractId = some c.id ∧ c.address = address := by
  unfold addressOf
  constructor
  · intro haddress
    obtain ⟨c, hc, rfl⟩ := Option.map_eq_some_iff.mp haddress
    obtain ⟨id, rfl, hfind⟩ := Option.bind_eq_some_iff.mp hc
    rw [findContract_eq] at hfind
    obtain ⟨hmem, rfl⟩ := rowAt_mem hfind
    exact ⟨c, hmem, rfl, rfl⟩
  · rintro ⟨c, hc, rfl, rfl⟩
    exact h.addressOf hc

/-- A contract is forgotten with its events. -/
theorem index_deleteContract (h : db.Indexed) (hc : c ∈ db.contracts)
    (hdb : db.deleteContract c.id = .ok db') :
    db'.index = db.index.untrack c.address ∧ db'.Indexed := by
  unfold deleteContract at hdb
  rw [h.findContract hc] at hdb
  obtain rfl := Except.ok.inj hdb
  have hindexed : Indexed { db with
      eventRaws := db.eventRaws.filter fun r ↦ r.contractId ≠ some c.id } :=
    ⟨⟨h.toWellKeyed.recorded _ _ _, h.chronological⟩,
      fun r hr ↦ h.eventsBelow r (List.mem_of_mem_filter hr)⟩
  have hother {c' : Db.Contract} (hc' : c' ∈ db.contracts) :
      (!decide (c'.id = c.id)) = !decide (c'.address = c.address) := by
    rw [Bool.not_inj_iff, decide_eq_decide]
    refine ⟨fun hid ↦ by rw [h.eq_of_contractId hc' hc hid], fun haddress ↦ ?_⟩
    rw [List.inj_on_of_nodup_map h.addresses hc' hc haddress]
  refine ⟨?_, hindexed.deleteContracts _⟩
  rw [index_deleteContracts hindexed.toWellKeyed]
  unfold Index.untrack index
  dsimp only
  congr 1
  · funext address
    rw [Function.update_apply]
    change ((db.findContractAt address).filter _).map db.vaultView = _
    unfold indexView
    cases hfind : db.findContractAt address with
    | none => simp
    | some c' =>
        obtain ⟨hc', rfl⟩ := findContractAt_mem hfind
        rw [Option.filter_some, hother hc']
        by_cases haddress : c'.address = c.address
        · simp [haddress]
        · simp [haddress]
  · rw [List.filter_map, List.map_map]
    have hfilter : (db.eventRaws.filter fun r ↦ r.contractId ≠ some c.id) =
        db.eventRaws.filter ((fun x ↦ decide (x.vault ≠ some c.address)) ∘ db.logEntry) := by
      refine List.filter_congr fun r _ ↦ ?_
      rw [Function.comp_apply, decide_eq_decide, not_iff_not]
      refine Iff.trans ?_ (addressOf_eq_some h.toWellKeyed).symm
      refine ⟨fun hid ↦ ⟨c, hc, hid, rfl⟩, ?_⟩
      rintro ⟨c', hc', hid, haddress⟩
      rw [hid, List.inj_on_of_nodup_map h.addresses hc' hc haddress]
    rw [hfilter]
    refine List.map_congr_left fun r hr ↦ ?_
    have hvault := of_decide_eq_true (List.mem_filter.mp hr).2
    refine congrArg (LogEntry.mk · _ _ _ _ _ _) ?_
    change (db.addressOf r.contractId).filter _ = db.addressOf r.contractId
    cases haddress : db.addressOf r.contractId with
    | none => rfl
    | some address =>
        obtain ⟨c', hc', -, rfl⟩ := (addressOf_eq_some h.toWellKeyed).mp haddress
        have hne : c'.address ≠ c.address := by
          intro heq
          refine hvault ?_
          change db.addressOf r.contractId = _
          rw [haddress, heq]
        rw [Option.filter_some, if_pos]
        change (db.findContractAt c'.address).any _ = true
        rw [h.findContractAt hc']
        simp only [Option.any_some]
        rw [hother hc', decide_eq_false hne]
        rfl

/-! ## Rolling back -/

/-- The rows above the fork and the proposals made above it are deleted. -/
theorem index_deleteAbove (h : db.Indexed) (forkHeight : ℤ) :
    ((db.deleteRows (isAbove forkHeight)).deleteProposals fun p ↦
        isAbove forkHeight p.createdAtBlock).index =
      { headers := db.index.headers.filter fun h ↦ !isAbove forkHeight h.height
        vaults := fun address ↦ (db.index.vaults address).map (VaultView.rollback forkHeight)
        log := db.index.log.filter fun x ↦ !isAbove forkHeight x.blockHeight } := by
  unfold index
  dsimp only
  congr 1
  · funext address
    have hviews : ((db.deleteRows (isAbove forkHeight)).deleteProposals fun p ↦
        isAbove forkHeight p.createdAtBlock).vaultView =
        VaultView.rollback forkHeight ∘ db.vaultView :=
      funext (vaultView_deleteAbove h.toWellKeyed forkHeight)
    unfold indexView
    rw [hviews, Option.map_map]
    rfl
  · rw [List.filter_map]
    rfl

theorem Indexed.deleteAbove (h : db.Indexed) (forkHeight : ℤ) :
    ((db.deleteRows (isAbove forkHeight)).deleteProposals fun p ↦
      isAbove forkHeight p.createdAtBlock).Indexed :=
  ⟨(deletes_proposals _ _).sound ((deletes_rows _ _).sound h.toSound),
    fun r hr ↦ h.eventsBelow r (List.mem_of_mem_filter hr)⟩

theorem hideContracts_origins (db : Database) :
    db.hideContracts.contracts.map originOf = db.contracts.map originOf := by
  unfold hideContracts
  dsimp only
  rw [List.map_map]
  refine List.map_congr_left fun c _ ↦ ?_
  rw [Function.comp_apply]
  split <;> rfl

/-- In full mode the vaults that were discovered above the fork are forgotten. -/
theorem index_deleteDiscovered (h : db.WellKeyed) (forkHeight : ℤ) :
    (db.deleteContracts fun c ↦ c.discoveredAtBlock.any (isAbove forkHeight)).index =
      { headers := db.index.headers
        vaults := fun address ↦ (db.index.vaults address).filter fun v ↦
          !v.isOrphaned forkHeight .full
        log := db.index.log.map fun x ↦ { x with
          vault := x.vault.filter (db.index.isKept .full forkHeight) } } := by
  have horphaned (c : Db.Contract) : (db.vaultView c).isOrphaned forkHeight .full =
      c.discoveredAtBlock.any (isAbove forkHeight) := by
    unfold VaultView.isOrphaned
    simp only [true_and, Bool.decide_eq_true]
    rfl
  have hvaults (address : String) : db.index.vaults address =
      (db.findContractAt address).map db.vaultView := rfl
  rw [index_deleteContracts h]
  congr 1
  · funext address
    rw [hvaults, Option.filter_map]
    congr 2
    funext c
    rw [Function.comp_apply, horphaned]
  · refine List.map_congr_left fun x _ ↦ ?_
    congr 2
    funext address
    unfold Index.isKept
    rw [hvaults, Option.any_map]
    congr 1
    funext c
    exact congrArg Bool.not (horphaned c).symm

/-- In lite mode no vault is forgotten. -/
theorem isKept_lite (h : db.WellKeyed) (forkHeight : ℤ) {x : LogEntry} (hx : x ∈ db.index.log) :
    x.vault.filter (db.index.isKept .lite forkHeight) = x.vault := by
  obtain ⟨r, -, rfl⟩ := List.mem_map.mp hx
  cases hvault : (db.logEntry r).vault with
  | none => rfl
  | some address =>
      obtain ⟨c, hc, -, rfl⟩ := (addressOf_eq_some h).mp hvault
      rw [Option.filter_some, if_pos]
      unfold Index.isKept VaultView.isOrphaned
      rw [show db.index.vaults c.address = some (db.vaultView c) from h.indexView hc]
      simp

/-- A rollback forgets the blocks above the fork. -/
theorem index_rollback (h : db.Indexed) (mode : IndexerMode) (forkHeight : ℤ) :
    (rollbackAboveFork mode forkHeight db).index = db.index.rollback mode forkHeight ∧
      (rollbackAboveFork mode forkHeight db).Indexed := by
  have habove := index_deleteAbove h forkHeight
  have hindexed := h.deleteAbove forkHeight
  unfold rollbackAboveFork
  dsimp only
  generalize (db.deleteRows (isAbove forkHeight)).deleteProposals (fun p ↦
    isAbove forkHeight p.createdAtBlock) = db₁ at habove hindexed ⊢
  have hrelabel {db₂ : Database} (h₂ : db₂.Indexed) :
      index { db₂.hideContracts with indexedHeight := some forkHeight.toNat } = db₂.index ∧
        Indexed { db₂.hideContracts with indexedHeight := some forkHeight.toNat } :=
    ⟨index_relabel (hideContracts_origins db₂) _ _, h₂.relabel (hideContracts_origins db₂) _ _⟩
  have hkept (address : String) : db₁.index.vaults address =
      (db.index.vaults address).map (VaultView.rollback forkHeight) := by
    rw [habove]
  have hisKept : db₁.index.isKept mode forkHeight = db.index.isKept mode forkHeight := by
    funext address
    unfold Index.isKept
    rw [hkept, Option.any_map]
    rfl
  cases mode with
  | lite =>
      obtain ⟨hsame, hkeyed⟩ := hrelabel hindexed
      refine ⟨hsame.trans (habove.trans ?_), hkeyed⟩
      unfold Index.rollback
      congr 1
      · funext address
        have hall : (db.index.vaults address).filter
            (fun v ↦ !v.isOrphaned forkHeight .lite) = db.index.vaults address := by
          cases db.index.vaults address with
          | none => rfl
          | some v => exact Option.filter_some_pos (by simp [VaultView.isOrphaned])
        unfold IndexView.rollback
        rw [hall]
      · refine (List.map_id _).symm.trans (List.map_congr_left fun x hx ↦ ?_)
        rw [isKept_lite h.toWellKeyed forkHeight (List.mem_of_mem_filter hx)]
        rfl
  | full =>
      obtain ⟨hsame, hkeyed⟩ := hrelabel (hindexed.deleteContracts fun c ↦
        c.discoveredAtBlock.any (isAbove forkHeight))
      refine ⟨hsame.trans ((index_deleteDiscovered hindexed.toWellKeyed forkHeight).trans ?_),
        hkeyed⟩
      rw [hisKept, habove]
      unfold Index.rollback
      congr 1
      funext address
      rw [Option.filter_map]
      rfl

end Events

end Database

end MinaGuard
