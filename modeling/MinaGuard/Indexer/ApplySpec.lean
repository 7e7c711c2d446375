import MinaGuard.Indexer.Apply

/-!
# What applying an event leaves alone

The state changes of an event are confined to the derived tables: they never
touch the record of events, the block headers or the cursors.
-/

namespace MinaGuard

/-- The tables that are not derived from events are the same. -/
structure Database.SameRecord (db db' : Database) : Prop where
  eventRaws : db'.eventRaws = db.eventRaws
  blockHeaders : db'.blockHeaders = db.blockHeaders
  indexedHeight : db'.indexedHeight = db.indexedHeight
  archiveDiscoveredHeight : db'.archiveDiscoveredHeight = db.archiveDiscoveredHeight

namespace Database.SameRecord

variable {db db₁ db₂ : Database}

theorem refl (db : Database) : SameRecord db db := ⟨rfl, rfl, rfl, rfl⟩

theorem trans (h : SameRecord db db₁) (h' : SameRecord db₁ db₂) : SameRecord db db₂ where
  eventRaws := h'.eventRaws.trans h.eventRaws
  blockHeaders := h'.blockHeaders.trans h.blockHeaders
  indexedHeight := h'.indexedHeight.trans h.indexedHeight
  archiveDiscoveredHeight := h'.archiveDiscoveredHeight.trans h.archiveDiscoveredHeight

end Database.SameRecord

/-- Beyond that, the contract rows are the same. -/
structure Database.SameVaults (db db' : Database) : Prop extends Database.SameRecord db db' where
  contracts : db'.contracts = db.contracts
  nextContractId : db'.nextContractId = db.nextContractId

namespace Database.SameVaults

variable {db db₁ db₂ : Database}

theorem refl (db : Database) : SameVaults db db := ⟨.refl db, rfl, rfl⟩

theorem trans (h : SameVaults db db₁) (h' : SameVaults db₁ db₂) : SameVaults db db₂ where
  toSameRecord := h.toSameRecord.trans h'.toSameRecord
  contracts := h'.contracts.trans h.contracts
  nextContractId := h'.nextContractId.trans h.nextContractId

end Database.SameVaults

open Database

/-- From a successful bind, its two parts. -/
theorem except_bind_ok {α β : Type} {x : Except Thrown α} {f : α → Except Thrown β} {b : β}
    (h : (x >>= f) = .ok b) : ∃ a, x = .ok a ∧ f a = .ok b := by
  cases x with
  | error e => cases h
  | ok a => exact ⟨a, rfl, h⟩

theorem intColumn_ok {n m : Option ℕ} (h : intColumn n = .ok m) :
    m = n ∧ ∀ k, n = some k → k < 2 ^ 31 := by
  cases n with
  | none =>
      cases h
      exact ⟨rfl, fun _ hk ↦ by cases hk⟩
  | some k =>
      simp only [intColumn] at h
      split at h
      next hlt =>
        cases h
        exact ⟨rfl, fun _ hk ↦ by cases hk; exact hlt⟩
      next => cases h

section Operations

variable {db db' : Database} {contractId validFromBlock eventOrder id : ℕ}
  {sourceEventId : Option ℕ} {changes : ContractConfigChanges}

/-- A snapshot that is written is the latest row overlaid with the changes. -/
theorem appendContractConfigSnapshot_ok
    (h : appendContractConfigSnapshot db contractId validFromBlock eventOrder sourceEventId
      changes = .ok db') :
    db' = { db with contractConfigs := db.contractConfigs ++
      [changes.overlay (db.getLatestConfig contractId) contractId validFromBlock eventOrder
        sourceEventId] } := by
  unfold appendContractConfigSnapshot at h
  obtain ⟨_, -, h⟩ := except_bind_ok h
  obtain ⟨_, -, h⟩ := except_bind_ok h
  obtain ⟨_, -, h⟩ := except_bind_ok h
  obtain ⟨_, -, h⟩ := except_bind_ok h
  obtain ⟨_, -, h⟩ := except_bind_ok h
  exact (Except.ok.inj h).symm

theorem appendContractConfigSnapshot_sameVaults
    (h : appendContractConfigSnapshot db contractId validFromBlock eventOrder sourceEventId
      changes = .ok db') : db.SameVaults db' := by
  rw [appendContractConfigSnapshot_ok h]
  exact ⟨⟨rfl, rfl, rfl, rfl⟩, rfl, rfl⟩

theorem updateContract_ok {f : Db.Contract → Db.Contract}
    (h : db.updateContract id f = .ok db') :
    db' = { db with contracts := db.contracts.map fun c ↦ if c.id = id then f c else c } := by
  unfold updateContract at h
  split at h
  · cases h
  · exact (Except.ok.inj h).symm

theorem createContract_ok {address : String} {parent : Option String} {verified : Bool}
    {discoveredAtBlock : Option ℕ}
    (h : db.createContract address parent verified discoveredAtBlock = .ok (id, db')) :
    db.findContractAt address = none ∧ id = db.nextContractId ∧
      db' = { db with
        nextContractId := db.nextContractId + 1
        contracts := db.contracts ++
          [⟨db.nextContractId, address, parent, false, verified, discoveredAtBlock,
            false⟩] } := by
  unfold createContract at h
  split at h
  · cases h
  next hnone =>
    cases h
    exact ⟨hnone, rfl, rfl⟩

theorem createReceiver_ok {row : Db.ProposalReceiver} (h : db.createReceiver row = .ok db') :
    db' = { db with proposalReceivers := db.proposalReceivers ++ [row] } := by
  unfold createReceiver at h
  split at h
  · cases h
  · exact (Except.ok.inj h).symm

end Operations

section Apply

variable {E : Env} {lib : Backend E} {mode : IndexerMode} {db db' : Database}
  {contractId eventOrder sourceEventId : ℕ} {chainEvent : ChainEvent}
  {setupFallback : Option OnChainState}

theorem applySetupEvent_sameRecord
    (h : applySetupEvent lib db contractId chainEvent eventOrder sourceEventId = .ok db') :
    db.SameRecord db' := by
  unfold applySetupEvent at h
  obtain ⟨db₁, hupdate, h⟩ := except_bind_ok h
  have hfirst : db.SameRecord db₁ := by
    rw [updateContract_ok hupdate]
    exact ⟨rfl, rfl, rfl, rfl⟩
  exact hfirst.trans ((appendContractConfigSnapshot_sameVaults h).toSameRecord)

theorem applySetupOwnerEvent_sameVaults
    (h : applySetupOwnerEvent lib db contractId chainEvent eventOrder sourceEventId
      setupFallback = .ok db') : db.SameVaults db' := by
  unfold applySetupOwnerEvent at h
  dsimp only at h
  split at h
  · cases h
    exact .refl db
  · split at h
    · cases h
      exact .refl db
    · obtain ⟨index, -, h⟩ := except_bind_ok h
      split at h
      · cases h
        exact ⟨⟨rfl, rfl, rfl, rfl⟩, rfl, rfl⟩
      · split at h
        · cases h
          exact ⟨⟨rfl, rfl, rfl, rfl⟩, rfl, rfl⟩
        · have hsnapshot := appendContractConfigSnapshot_sameVaults h
          exact ⟨⟨hsnapshot.1.1, hsnapshot.1.2, hsnapshot.1.3, hsnapshot.1.4⟩, hsnapshot.2,
            hsnapshot.3⟩

theorem upsertProposal_sameVaults {proposalHash : String} :
    db.SameVaults (upsertProposal lib db contractId proposalHash chainEvent) := by
  unfold upsertProposal
  split <;> exact ⟨⟨rfl, rfl, rfl, rfl⟩, rfl, rfl⟩

theorem subscribeChild_sameRecord
    (h : subscribeChild lib mode db contractId chainEvent = .ok db') : db.SameRecord db' := by
  unfold subscribeChild at h
  dsimp only at h
  split at h
  · split at h
    · cases h
      exact .refl db
    · split at h
      · cases h
        exact .refl db
      · split at h
        · cases h
          exact .refl db
        · cases hcreate : db.createContract _ _ _ _ with
          | error e =>
              rw [hcreate] at h
              cases h
          | ok r =>
              rw [hcreate] at h
              cases h
              have hcreated : db.createContract _ _ _ _ = .ok (r.1, r.2) := hcreate
              obtain ⟨-, -, hdb⟩ := createContract_ok hcreated
              rw [hdb]
              exact ⟨rfl, rfl, rfl, rfl⟩
  · cases h
    exact .refl db

theorem applyProposalEvent_sameRecord
    (h : applyProposalEvent lib mode db contractId chainEvent = .ok db') :
    db.SameRecord db' := by
  unfold applyProposalEvent at h
  split at h
  · cases h
    exact .refl db
  · exact upsertProposal_sameVaults.toSameRecord.trans (subscribeChild_sameRecord h)

theorem applyReceiverEvent_sameVaults {event : EventBody}
    (h : applyReceiverEvent lib db contractId event = .ok db') : db.SameVaults db' := by
  unfold applyReceiverEvent at h
  dsimp only at h
  split at h
  · split at h
    · cases h
      exact .refl db
    · split at h
      · cases h
        exact .refl db
      · obtain ⟨db₁, hcreate, h⟩ := except_bind_ok h
        have hfirst : db.SameVaults db₁ := by
          rw [createReceiver_ok hcreate]
          exact ⟨⟨rfl, rfl, rfl, rfl⟩, rfl, rfl⟩
        rw [← Except.ok.inj h]
        refine hfirst.trans ?_
        split <;> exact ⟨⟨rfl, rfl, rfl, rfl⟩, rfl, rfl⟩
  · cases h
    exact .refl db

theorem applyApprovalEvent_sameVaults
    (h : applyApprovalEvent db contractId chainEvent eventOrder = .ok db') :
    db.SameVaults db' := by
  unfold applyApprovalEvent at h
  dsimp only at h
  split at h
  · split at h
    · cases h
      exact .refl db
    · rw [← Except.ok.inj h]
      split <;> exact ⟨⟨rfl, rfl, rfl, rfl⟩, rfl, rfl⟩
  · cases h
    exact .refl db

theorem applyExecutionEvent_sameVaults
    (h : applyExecutionEvent lib db contractId chainEvent eventOrder = .ok db') :
    db.SameVaults db' := by
  have hmark (row : Db.Proposal) :
      db.SameVaults (markExecutedRow lib db row chainEvent eventOrder) :=
    ⟨⟨rfl, rfl, rfl, rfl⟩, rfl, rfl⟩
  unfold applyExecutionEvent at h
  split at h
  · cases h
    exact .refl db
  · split at h
    · split at h
      · exact (hmark _).trans (appendContractConfigSnapshot_sameVaults h)
      · cases h
        exact hmark _
    · split at h
      · cases h
        exact .refl db
      · split at h
        · exact (hmark _).trans (appendContractConfigSnapshot_sameVaults h)
        · cases h
          exact hmark _

theorem applyOwnerChangeEvent_sameVaults
    (h : applyOwnerChangeEvent db contractId chainEvent eventOrder sourceEventId = .ok db') :
    db.SameVaults db' := by
  unfold applyOwnerChangeEvent at h
  dsimp only at h
  split at h
  · cases h
    exact .refl db
  · split at h
    · cases h
      exact ⟨⟨rfl, rfl, rfl, rfl⟩, rfl, rfl⟩
    · have hsnapshot := appendContractConfigSnapshot_sameVaults h
      exact ⟨⟨hsnapshot.1.1, hsnapshot.1.2, hsnapshot.1.3, hsnapshot.1.4⟩, hsnapshot.2, hsnapshot.3⟩

theorem applyThresholdChangeEvent_sameVaults
    (h : applyThresholdChangeEvent db contractId chainEvent eventOrder sourceEventId =
      .ok db') : db.SameVaults db' := by
  unfold applyThresholdChangeEvent at h
  dsimp only at h
  split at h
  · cases h
    exact .refl db
  · exact appendContractConfigSnapshot_sameVaults h

theorem applyDelegateEvent_sameVaults
    (h : applyDelegateEvent db contractId chainEvent eventOrder sourceEventId = .ok db') :
    db.SameVaults db' := by
  unfold applyDelegateEvent at h
  split at h
  · cases h
    exact .refl db
  · exact appendContractConfigSnapshot_sameVaults h

theorem applyEnableChildMultiSigEvent_sameVaults
    (h : applyEnableChildMultiSigEvent db contractId chainEvent eventOrder sourceEventId =
      .ok db') : db.SameVaults db' := by
  unfold applyEnableChildMultiSigEvent at h
  dsimp only at h
  split at h
  · cases h
    exact .refl db
  · exact appendContractConfigSnapshot_sameVaults h

/-- The state changes of an event are in the derived tables. -/
theorem applyEvent_sameRecord
    (h : applyEvent lib mode db contractId chainEvent eventOrder sourceEventId setupFallback =
      .ok db') : db.SameRecord db' := by
  unfold applyEvent at h
  split at h
  · exact applySetupEvent_sameRecord h
  · exact (applySetupOwnerEvent_sameVaults h).toSameRecord
  · exact applyProposalEvent_sameRecord h
  · exact (applyApprovalEvent_sameVaults h).toSameRecord
  · exact (applyExecutionEvent_sameVaults h).toSameRecord
  · exact (applyEnableChildMultiSigEvent_sameVaults h).toSameRecord
  · exact (applyReceiverEvent_sameVaults h).toSameRecord
  · exact (applyOwnerChangeEvent_sameVaults h).toSameRecord
  · exact (applyThresholdChangeEvent_sameVaults h).toSameRecord
  · exact (applyDelegateEvent_sameVaults h).toSameRecord
  · cases h
    exact .refl db

end Apply

end MinaGuard
