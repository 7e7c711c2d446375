import MinaGuard.Indexer.Ingest

/-!
# Snapshots in the order of the events

While the events of a vault are applied in order, its latest configuration is the
snapshot that was written last.  Apart from the events that name an owner, an event
adds at most one snapshot and no membership.
-/

namespace MinaGuard

/-- The first place, a height and an order, is before the second. -/
def Precedes (height order height' order' : ℕ) : Prop :=
  height < height' ∨ height = height' ∧ order < order'

/-- The number columns hold 32-bit numbers. -/
structure Db.ContractConfig.Fits (row : Db.ContractConfig) : Prop where
  threshold : ∀ n, row.threshold = some n → n < 2 ^ 31
  numOwners : ∀ n, row.numOwners = some n → n < 2 ^ 31
  nonce : ∀ n, row.nonce = some n → n < 2 ^ 31
  parentNonce : ∀ n, row.parentNonce = some n → n < 2 ^ 31
  configNonce : ∀ n, row.configNonce = some n → n < 2 ^ 31

theorem intColumn_eq_ok {n : Option ℕ} (h : ∀ k, n = some k → k < 2 ^ 31) :
    intColumn n = .ok n := by
  cases n with
  | none => rfl
  | some k => exact if_pos (h k rfl)

section Append

variable {db db' : Database} {contractId validFromBlock eventOrder : ℕ}
  {sourceEventId : Option ℕ} {changes : ContractConfigChanges}

theorem appendContractConfigSnapshot_fits
    (h : appendContractConfigSnapshot db contractId validFromBlock eventOrder sourceEventId
      changes = .ok db') :
    (changes.overlay (db.getLatestConfig contractId) contractId validFromBlock eventOrder
      sourceEventId).Fits := by
  unfold appendContractConfigSnapshot at h
  obtain ⟨_, hthreshold, h⟩ := except_bind_ok h
  obtain ⟨_, hnumOwners, h⟩ := except_bind_ok h
  obtain ⟨_, hnonce, h⟩ := except_bind_ok h
  obtain ⟨_, hparentNonce, h⟩ := except_bind_ok h
  obtain ⟨_, hconfigNonce, h⟩ := except_bind_ok h
  exact ⟨(intColumn_ok hthreshold).2, (intColumn_ok hnumOwners).2, (intColumn_ok hnonce).2,
    (intColumn_ok hparentNonce).2, (intColumn_ok hconfigNonce).2⟩

/-- A snapshot that fits is written. -/
theorem appendContractConfigSnapshot_of_fits
    (h : (changes.overlay (db.getLatestConfig contractId) contractId validFromBlock eventOrder
      sourceEventId).Fits) :
    appendContractConfigSnapshot db contractId validFromBlock eventOrder sourceEventId changes =
      .ok { db with contractConfigs := db.contractConfigs ++
        [changes.overlay (db.getLatestConfig contractId) contractId validFromBlock eventOrder
          sourceEventId] } := by
  unfold appendContractConfigSnapshot
  dsimp only
  rw [intColumn_eq_ok h.threshold, intColumn_eq_ok h.numOwners, intColumn_eq_ok h.nonce,
    intColumn_eq_ok h.parentNonce, intColumn_eq_ok h.configNonce]
  rfl

end Append

namespace Database

variable {db : Database} {contractId height order : ℕ}

theorem foldl_laterConfig_mem {rows : List Db.ContractConfig} {row : Db.ContractConfig}
    (h : rows.foldl laterConfig none = some row) : row ∈ rows := by
  induction rows using List.reverseRecOn with
  | nil => cases h
  | append_singleton rows last ih =>
      rw [List.foldl_concat] at h
      have hlast : last ∈ rows ++ [last] := List.mem_append_right _ (List.mem_singleton_self _)
      cases hbest : rows.foldl laterConfig none with
      | none =>
          rw [hbest] at h
          rwa [← Option.some.inj h]
      | some best =>
          rw [hbest] at h
          simp only [laterConfig] at h
          split at h
          · rwa [← Option.some.inj h]
          · obtain rfl := Option.some.inj h
            exact List.mem_append_left _ (ih hbest)

theorem getLatestConfig_mem {row : Db.ContractConfig}
    (h : db.getLatestConfig contractId = some row) :
    row ∈ db.contractConfigs ∧ row.contractId = contractId := by
  have hmem := foldl_laterConfig_mem h
  exact ⟨List.mem_of_mem_filter hmem, of_decide_eq_true (List.mem_filter.mp hmem).2⟩

/-- All snapshots of the contract fit and were written for earlier places. -/
structure SnapshotsBefore (db : Database) (contractId height order : ℕ) : Prop where
  fits : ∀ row ∈ db.contractConfigs, row.contractId = contractId → row.Fits
  before : ∀ row ∈ db.contractConfigs, row.contractId = contractId →
    Precedes row.validFromBlock row.eventOrder height order

/-- A snapshot for a later place is the latest. -/
theorem SnapshotsBefore.getLatestConfig_concat (h : db.SnapshotsBefore contractId height order)
    {row : Db.ContractConfig} (hcontract : row.contractId = contractId)
    (hheight : row.validFromBlock = height) (horder : row.eventOrder = order)
    {db' : Database} (hrows : db'.contractConfigs = db.contractConfigs ++ [row]) :
    db'.getLatestConfig contractId = some row := by
  have hsingle : [row].filter (fun c ↦ c.contractId = contractId) = [row] :=
    List.filter_cons_of_pos (decide_eq_true hcontract)
  unfold getLatestConfig
  rw [hrows, List.filter_append, hsingle, List.foldl_concat]
  cases hlatest : (db.contractConfigs.filter fun c ↦ c.contractId = contractId).foldl laterConfig
      none with
  | none => rfl
  | some best =>
      obtain ⟨hbest, hcontract⟩ := getLatestConfig_mem hlatest
      have hbefore := h.before best hbest hcontract
      unfold Precedes at hbefore
      exact if_pos (by omega)

theorem SnapshotsBefore.mono (h : db.SnapshotsBefore contractId height order)
    {height' order' : ℕ} (hle : height < height' ∨ height = height' ∧ order ≤ order') :
    db.SnapshotsBefore contractId height' order' where
  fits := h.fits
  before := fun row hrow hcontract ↦ by
    have hbefore := h.before row hrow hcontract
    unfold Precedes at *
    omega

end Database

/-- At most one snapshot is written, for this place, and no membership. -/
structure Database.AddsSnapshot (contractId height order : ℕ) (db db' : Database) : Prop where
  ownerMemberships : db'.ownerMemberships = db.ownerMemberships
  contracts : ∀ c ∈ db.contracts.map Db.Contract.id, c ∈ db'.contracts.map Db.Contract.id
  contractConfigs : db'.contractConfigs = db.contractConfigs ∨
    ∃ changes sourceEventId row,
      row = ContractConfigChanges.overlay changes (db.getLatestConfig contractId) contractId height
        order sourceEventId ∧
      row.Fits ∧ db'.contractConfigs = db.contractConfigs ++ [row]

namespace Database.AddsSnapshot

variable {db db₁ db₂ : Database} {contractId height order : ℕ}

/-- Neither snapshots nor memberships are written. -/
theorem of_same (howners : db₁.ownerMemberships = db.ownerMemberships)
    (hconfigs : db₁.contractConfigs = db.contractConfigs)
    (hcontracts : ∀ c ∈ db.contracts.map Db.Contract.id, c ∈ db₁.contracts.map Db.Contract.id) :
    AddsSnapshot contractId height order db db₁ := ⟨howners, hcontracts, .inl hconfigs⟩

theorem of_append {sourceEventId : Option ℕ} {changes : ContractConfigChanges}
    (h : appendContractConfigSnapshot db contractId height order sourceEventId changes =
      .ok db₁) : AddsSnapshot contractId height order db db₁ := by
  have hfits := appendContractConfigSnapshot_fits h
  rw [appendContractConfigSnapshot_ok h]
  exact ⟨rfl, fun _ hc ↦ hc, .inr ⟨_, _, _, rfl, hfits, rfl⟩⟩

/-- A step before that leaves the snapshots alone. -/
theorem after (h : AddsSnapshot contractId height order db₁ db₂)
    (howners : db₁.ownerMemberships = db.ownerMemberships)
    (hconfigs : db₁.contractConfigs = db.contractConfigs)
    (hcontracts : ∀ c ∈ db.contracts.map Db.Contract.id, c ∈ db₁.contracts.map Db.Contract.id) :
    AddsSnapshot contractId height order db db₂ where
  ownerMemberships := h.ownerMemberships.trans howners
  contracts := fun c hc ↦ h.contracts c (hcontracts c hc)
  contractConfigs := by
    have hlatest : db₁.getLatestConfig contractId = db.getLatestConfig contractId := by
      unfold getLatestConfig
      rw [hconfigs]
    rw [← hconfigs, ← hlatest]
    exact h.contractConfigs

/-- The place after it. -/
theorem snapshotsBefore (h : AddsSnapshot contractId height order db db₁)
    (hbefore : db.SnapshotsBefore contractId height order) :
    db₁.SnapshotsBefore contractId height (order + 1) := by
  have hlater : db.SnapshotsBefore contractId height (order + 1) :=
    hbefore.mono (.inr ⟨rfl, Nat.le_succ order⟩)
  rcases h.contractConfigs with hsame | ⟨changes, sourceEventId, row, rfl, hfits, hrows⟩
  · exact ⟨hsame ▸ hlater.fits, hsame ▸ hlater.before⟩
  · have hcases {row : Db.ContractConfig} (hrow : row ∈ db₁.contractConfigs) :
        row ∈ db.contractConfigs ∨ row = changes.overlay (db.getLatestConfig contractId)
          contractId height order sourceEventId := by
      rw [hrows] at hrow
      exact (List.mem_append.mp hrow).imp_right List.mem_singleton.mp
    refine ⟨fun row hrow hcontract ↦ ?_, fun row hrow hcontract ↦ ?_⟩
    · rcases hcases hrow with hrow | rfl
      · exact hbefore.fits row hrow hcontract
      · exact hfits
    · rcases hcases hrow with hrow | rfl
      · exact hlater.before row hrow hcontract
      · exact .inr ⟨rfl, Nat.lt_succ_self order⟩

/-- A threshold that was known is known afterwards. -/
theorem threshold_isSome (h : AddsSnapshot contractId height order db db₁)
    (hbefore : db.SnapshotsBefore contractId height order)
    (hknown : ((db.getLatestConfig contractId).bind Db.ContractConfig.threshold).isSome) :
    ((db₁.getLatestConfig contractId).bind Db.ContractConfig.threshold).isSome := by
  rcases h.contractConfigs with hsame | ⟨changes, sourceEventId, row, rfl, -, hrows⟩
  · unfold getLatestConfig at hknown ⊢
    rwa [hsame]
  · rw [hbefore.getLatestConfig_concat rfl rfl rfl hrows]
    change (changes.threshold <|> (db.getLatestConfig contractId).bind
      Db.ContractConfig.threshold).isSome = true
    cases changes.threshold with
    | some n => rfl
    | none => exact hknown

end Database.AddsSnapshot

section Apply

variable {E : Env} {lib : Backend E} {mode : IndexerMode} {db db' : Database}
  {contractId eventOrder sourceEventId : ℕ} {chainEvent : ChainEvent}
  {setupFallback : Option OnChainState}

open Database

theorem updateContract_ids {f : Db.Contract → Db.Contract} (hf : ∀ c, (f c).id = c.id)
    (h : db.updateContract contractId f = .ok db') :
    db'.contracts.map Db.Contract.id = db.contracts.map Db.Contract.id := by
  rw [updateContract_ok h, List.map_map]
  refine List.map_congr_left fun c _ ↦ ?_
  rw [Function.comp_apply]
  split
  · exact hf c
  · rfl

theorem applySetupEvent_addsSnapshot
    (h : applySetupEvent lib db contractId chainEvent eventOrder sourceEventId = .ok db') :
    AddsSnapshot contractId chainEvent.blockHeight eventOrder db db' := by
  unfold applySetupEvent at h
  obtain ⟨db₁, hupdate, h⟩ := except_bind_ok h
  have hids := updateContract_ids (f := fun c ↦ { c with
    parent := if asString (chainEvent.event.get "parent") = none ∨
      asString (chainEvent.event.get "parent") = some (emptyPublicKey lib) then none
      else asString (chainEvent.event.get "parent") }) (fun _ ↦ rfl) hupdate
  refine (AddsSnapshot.of_append h).after ?_ ?_ fun c hc ↦ hids ▸ hc
  · rw [updateContract_ok hupdate]
  · rw [updateContract_ok hupdate]

theorem subscribeChild_addsSnapshot {height order : ℕ}
    (h : subscribeChild lib mode db contractId chainEvent = .ok db') :
    AddsSnapshot contractId height order db db' := by
  have hsame {db : Database} : AddsSnapshot contractId height order db db :=
    .of_same rfl rfl fun _ hc ↦ hc
  unfold subscribeChild at h
  dsimp only at h
  split at h
  · split at h
    · cases h
      exact hsame
    · split at h
      · cases h
        exact hsame
      · split at h
        · cases h
          exact hsame
        · cases hcreate : db.createContract _ _ _ _ with
          | error e =>
              rw [hcreate] at h
              cases h
          | ok r =>
              rw [hcreate] at h
              cases h
              have hcreated : db.createContract _ _ _ _ = .ok (r.1, r.2) := hcreate
              obtain ⟨-, -, hdb⟩ := createContract_ok hcreated
              rw [hdb]
              refine .of_same rfl rfl fun c hc ↦ ?_
              rw [List.map_append]
              exact List.mem_append_left _ hc
  · cases h
    exact hsame

theorem applyExecutionEvent_addsSnapshot
    (h : applyExecutionEvent lib db contractId chainEvent eventOrder = .ok db') :
    AddsSnapshot contractId chainEvent.blockHeight eventOrder db db' := by
  have hmark {row : Db.Proposal} {db' : Database} (h : AddsSnapshot contractId
      chainEvent.blockHeight eventOrder (markExecutedRow lib db row chainEvent eventOrder) db') :
      AddsSnapshot contractId chainEvent.blockHeight eventOrder db db' :=
    h.after rfl rfl fun _ hc ↦ hc
  have hsame {db : Database} :
      AddsSnapshot contractId chainEvent.blockHeight eventOrder db db :=
    .of_same rfl rfl fun _ hc ↦ hc
  unfold applyExecutionEvent at h
  split at h
  · cases h
    exact hsame
  · split at h
    · split at h
      · exact hmark (.of_append h)
      · cases h
        exact hmark hsame
    · split at h
      · cases h
        exact hsame
      · split at h
        · exact hmark (.of_append h)
        · cases h
          exact hmark hsame

theorem applyProposalEvent_addsSnapshot {height order : ℕ}
    (h : applyProposalEvent lib mode db contractId chainEvent = .ok db') :
    AddsSnapshot contractId height order db db' := by
  unfold applyProposalEvent at h
  split at h
  · cases h
    exact .of_same rfl rfl fun _ hc ↦ hc
  · refine (subscribeChild_addsSnapshot h).after ?_ ?_ fun _ hc ↦ ?_
    · unfold upsertProposal
      split <;> rfl
    · unfold upsertProposal
      split <;> rfl
    · unfold upsertProposal
      split <;> exact hc

theorem applyReceiverEvent_addsSnapshot {event : EventBody} {height order : ℕ}
    (h : applyReceiverEvent lib db contractId event = .ok db') :
    AddsSnapshot contractId height order db db' := by
  unfold applyReceiverEvent at h
  dsimp only at h
  split at h
  · split at h
    · cases h
      exact .of_same rfl rfl fun _ hc ↦ hc
    · split at h
      · cases h
        exact .of_same rfl rfl fun _ hc ↦ hc
      · obtain ⟨db₁, hcreate, h⟩ := except_bind_ok h
        rw [← Except.ok.inj h, createReceiver_ok hcreate]
        split <;> exact .of_same rfl rfl fun _ hc ↦ hc
  · cases h
    exact .of_same rfl rfl fun _ hc ↦ hc

theorem applyApprovalEvent_addsSnapshot {height order : ℕ}
    (h : applyApprovalEvent db contractId chainEvent eventOrder = .ok db') :
    AddsSnapshot contractId height order db db' := by
  unfold applyApprovalEvent at h
  dsimp only at h
  split at h
  · split at h
    · cases h
      exact .of_same rfl rfl fun _ hc ↦ hc
    · rw [← Except.ok.inj h]
      split <;> exact .of_same rfl rfl fun _ hc ↦ hc
  · cases h
    exact .of_same rfl rfl fun _ hc ↦ hc

/-- Only two types of events write memberships. -/
theorem applyEvent_addsSnapshot (hslot : chainEvent.type ≠ "setupOwner")
    (hchange : chainEvent.type ≠ "ownerChange")
    (h : applyEvent lib mode db contractId chainEvent eventOrder sourceEventId setupFallback =
      .ok db') : AddsSnapshot contractId chainEvent.blockHeight eventOrder db db' := by
  unfold applyEvent at h
  split at h
  · exact applySetupEvent_addsSnapshot h
  · next htype => exact absurd htype hslot
  · exact applyProposalEvent_addsSnapshot h
  · exact applyApprovalEvent_addsSnapshot h
  · exact applyExecutionEvent_addsSnapshot h
  · unfold applyEnableChildMultiSigEvent at h
    dsimp only at h
    split at h
    · cases h
      exact .of_same rfl rfl fun _ hc ↦ hc
    · exact .of_append h
  · exact applyReceiverEvent_addsSnapshot h
  · next htype => exact absurd htype hchange
  · unfold applyThresholdChangeEvent at h
    dsimp only at h
    split at h
    · cases h
      exact .of_same rfl rfl fun _ hc ↦ hc
    · exact .of_append h
  · unfold applyDelegateEvent at h
    split at h
    · cases h
      exact .of_same rfl rfl fun _ hc ↦ hc
    · exact .of_append h
  · cases h
    exact .of_same rfl rfl fun _ hc ↦ hc

end Apply

end MinaGuard
