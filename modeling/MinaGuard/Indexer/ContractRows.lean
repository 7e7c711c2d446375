import MinaGuard.Indexer.ApplySpec
import MinaGuard.Indexer.Sync

/-!
# The rows of contracts

A contract row is added once, and keeps its id and address whatever is applied.
-/

namespace MinaGuard

open Foundations

/-- How a row may change; its flags only if it is touched. -/
structure Db.Contract.Evolves (touched : Prop) (c c' : Db.Contract) : Prop where
  id : c'.id = c.id
  address : c'.address = c.address
  discoveredAtBlock : c'.discoveredAtBlock = c.discoveredAtBlock
  synced : c.synced = true → c'.synced = true
  ready : (c.ready = true → c.synced = true) → c'.ready = true → c'.synced = true
  flags : ¬touched → c'.ready = c.ready ∧ c'.permissionsVerified = c.permissionsVerified ∧
    c'.synced = c.synced

/-- Rows are kept in their order and new ones come after them. -/
structure Database.KeepsWith (touched : ℕ → Prop) (f : Db.Contract → Db.Contract)
    (new : List Db.Contract) (db db' : Database) : Prop where
  rows : db'.contracts = db.contracts.map f ++ new
  evolves : ∀ c ∈ db.contracts, c.Evolves (touched c.id) (f c)
  nextContractId : db.nextContractId ≤ db'.nextContractId
  fresh : ∀ c ∈ new, db.nextContractId ≤ c.id ∧ c.id < db'.nextContractId
  distinct : (new.map Db.Contract.id).Nodup
  unready : ∀ c ∈ new, c.ready = true → c.synced = true

def Database.Keeps (touched : ℕ → Prop) (db db' : Database) : Prop :=
  ∃ f new, db.KeepsWith touched f new db'

/-- Ids are unique and below the counter, and readiness comes with the stamp. -/
structure Database.Keyed (db : Database) : Prop where
  distinct : (db.contracts.map Db.Contract.id).Nodup
  below : ∀ c ∈ db.contracts, c.id < db.nextContractId
  ready : ∀ c ∈ db.contracts, c.ready = true → c.synced = true

theorem Db.Contract.Evolves.refl {T : Prop} (c : Db.Contract) : c.Evolves T c :=
  ⟨rfl, rfl, rfl, fun h ↦ h, fun h ↦ h, fun _ ↦ ⟨rfl, rfl, rfl⟩⟩

theorem Db.Contract.Evolves.trans {touched touched' touched'' : Prop} {c c₁ c₂ : Db.Contract}
    (h : c.Evolves touched c₁) (h' : c₁.Evolves touched' c₂)
    (hor : touched ∨ touched' → touched'') :
    c.Evolves touched'' c₂ where
  id := h'.id.trans h.id
  address := h'.address.trans h.address
  discoveredAtBlock := h'.discoveredAtBlock.trans h.discoveredAtBlock
  synced := fun hc ↦ h'.synced (h.synced hc)
  ready := fun hc ↦ h'.ready (h.ready hc)
  flags := by
    intro hfree
    obtain ⟨hready, hverified, hsynced⟩ := h.flags fun ht ↦ hfree (hor (Or.inl ht))
    obtain ⟨hready', hverified', hsynced'⟩ := h'.flags fun ht ↦ hfree (hor (Or.inr ht))
    exact ⟨hready'.trans hready, hverified'.trans hverified, hsynced'.trans hsynced⟩

namespace Database

variable {touched touched' : ℕ → Prop} {db db₁ db₂ : Database} {c : Db.Contract}

theorem Keyed.unique (h : Keyed db) {c' : Db.Contract} (hc : c ∈ db.contracts)
    (hc' : c' ∈ db.contracts) (hid : c'.id = c.id) : c' = c :=
  List.inj_on_of_nodup_map h.distinct hc' hc hid

theorem Keyed.findContract (h : Keyed db) (hc : c ∈ db.contracts) :
    db.findContract c.id = some c := by
  unfold Database.findContract
  cases hfind : db.contracts.find? fun d ↦ decide (d.id = c.id) with
  | none =>
      have hnone := List.find?_eq_none.mp hfind c hc
      simp at hnone
  | some d =>
      have hid : d.id = c.id := by simpa using List.find?_some hfind
      rw [h.unique hc (List.mem_of_find?_eq_some hfind) hid]

theorem KeepsWith.keyed {f : Db.Contract → Db.Contract} {new : List Db.Contract}
    (h : KeepsWith touched f new db db₁) (hdb : Keyed db) : Keyed db₁ := by
  have hids : (db.contracts.map f).map Db.Contract.id = db.contracts.map Db.Contract.id := by
    rw [List.map_map]
    exact List.map_congr_left fun c hc ↦ (h.evolves c hc).id
  have hmem {P : Db.Contract → Prop} (hold : ∀ c ∈ db.contracts, P (f c))
      (hnew : ∀ c ∈ new, P c) : ∀ c ∈ db₁.contracts, P c := by
    intro c hc
    rw [h.rows, List.mem_append] at hc
    rcases hc with hc | hc
    · obtain ⟨d, hd, rfl⟩ := List.mem_map.mp hc
      exact hold d hd
    · exact hnew c hc
  refine ⟨?_, hmem (fun c hc ↦ ?_) fun c hc ↦ (h.fresh c hc).2,
    hmem (fun c hc ↦ (h.evolves c hc).ready (hdb.ready c hc)) h.unready⟩
  · rw [h.rows, List.map_append, hids, List.nodup_append]
    refine ⟨hdb.distinct, h.distinct, ?_⟩
    rintro _ hold _ hnew rfl
    obtain ⟨c, hc, hid⟩ := List.mem_map.mp hold
    obtain ⟨d, hd, hid'⟩ := List.mem_map.mp hnew
    have := hdb.below c hc
    have := (h.fresh d hd).1
    omega
  · rw [(h.evolves c hc).id]
    exact (hdb.below c hc).trans_le h.nextContractId

theorem Keeps.keyed (h : Keeps touched db db₁) (hdb : Keyed db) : Keyed db₁ := by
  obtain ⟨f, new, h⟩ := h
  exact h.keyed hdb

theorem Keeps.nextContractId (h : Keeps touched db db₁) :
    db.nextContractId ≤ db₁.nextContractId := by
  obtain ⟨f, new, h⟩ := h
  exact h.nextContractId

/-- A row is still there. -/
theorem Keeps.row (h : Keeps touched db db₁) (hc : c ∈ db.contracts) :
    ∃ c' ∈ db₁.contracts, c.Evolves (touched c.id) c' := by
  obtain ⟨f, new, h⟩ := h
  refine ⟨f c, ?_, h.evolves c hc⟩
  rw [h.rows]
  exact List.mem_append_left _ (List.mem_map_of_mem hc)

theorem Keeps.trans (h : Keeps touched db db₁) (h' : Keeps touched db₁ db₂) :
    Keeps touched db db₂ := by
  obtain ⟨f, new, h⟩ := h
  obtain ⟨f', new', h'⟩ := h'
  have hmem : ∀ c ∈ new, c ∈ db₁.contracts := fun c hc ↦ by
    rw [h.rows]
    exact List.mem_append_right _ hc
  have hids : (new.map f').map Db.Contract.id = new.map Db.Contract.id := by
    rw [List.map_map]
    exact List.map_congr_left fun c hc ↦ (h'.evolves c (hmem c hc)).id
  refine ⟨f' ∘ f, new.map f' ++ new', ?_, fun c hc ↦ ?_,
    h.nextContractId.trans h'.nextContractId, fun c hc ↦ ?_, ?_, fun c hc ↦ ?_⟩
  · rw [h'.rows, h.rows, List.map_append, List.map_map, List.append_assoc]
  · have hfirst := h.evolves c hc
    have hsecond := h'.evolves (f c) (by
      rw [h.rows]
      exact List.mem_append_left _ (List.mem_map_of_mem hc))
    rw [hfirst.id] at hsecond
    exact hfirst.trans hsecond fun ht ↦ ht.elim id id
  · rcases List.mem_append.mp hc with hc | hc
    · obtain ⟨d, hd, rfl⟩ := List.mem_map.mp hc
      rw [(h'.evolves d (hmem d hd)).id]
      exact ⟨(h.fresh d hd).1, (h.fresh d hd).2.trans_le h'.nextContractId⟩
    · exact ⟨h.nextContractId.trans (h'.fresh c hc).1, (h'.fresh c hc).2⟩
  · rw [List.map_append, hids, List.nodup_append]
    refine ⟨h.distinct, h'.distinct, ?_⟩
    rintro _ hold _ hnew rfl
    obtain ⟨c, hc, hid⟩ := List.mem_map.mp hold
    obtain ⟨d, hd, hid'⟩ := List.mem_map.mp hnew
    have := (h.fresh c hc).2
    have := (h'.fresh d hd).1
    omega
  · rcases List.mem_append.mp hc with hc | hc
    · obtain ⟨d, hd, rfl⟩ := List.mem_map.mp hc
      exact (h'.evolves d (hmem d hd)).ready (h.unready d hd)
    · exact h'.unready c hc

theorem Keeps.mono (hmono : ∀ id, touched id → touched' id) (h : Keeps touched db db₁) :
    Keeps touched' db db₁ := by
  obtain ⟨f, new, h⟩ := h
  refine ⟨f, new, h.rows, fun c hc ↦ ?_, h.nextContractId, h.fresh, h.distinct, h.unready⟩
  exact (h.evolves c hc).trans (.refl (T := False) _) fun ht ↦
    ht.elim (hmono _) False.elim

/-- A write to rows that adds none. -/
theorem Keeps.of_map {f : Db.Contract → Db.Contract} (hrows : db₁.contracts = db.contracts.map f)
    (hnext : db₁.nextContractId = db.nextContractId)
    (hf : ∀ c ∈ db.contracts, c.Evolves (touched c.id) (f c)) : Keeps touched db db₁ :=
  ⟨f, [], by rw [hrows, List.append_nil], hf, hnext.ge, nofun, List.nodup_nil, nofun⟩

theorem Keeps.of_eq (hrows : db₁.contracts = db.contracts)
    (hnext : db₁.nextContractId = db.nextContractId) : Keeps touched db db₁ :=
  .of_map (f := id) (by rw [hrows, List.map_id]) hnext fun _ _ ↦ .refl _

theorem Keeps.refl (db : Database) : Keeps touched db db := .of_eq rfl rfl

theorem SameVaults.keeps (h : SameVaults db db₁) : Keeps touched db db₁ :=
  .of_eq h.contracts h.nextContractId

theorem keeps_updateContract {id : ℕ} {f : Db.Contract → Db.Contract}
    (hf : ∀ c ∈ db.contracts, c.id = id → c.Evolves (touched id) (f c))
    (h : db.updateContract id f = .ok db₁) : Keeps touched db db₁ := by
  rw [updateContract_ok h]
  refine .of_map rfl rfl fun c hc ↦ ?_
  split
  next hid =>
    have := hf c hc hid
    rwa [← hid] at this
  next => exact .refl c

theorem keeps_createContract {address : String} {parent : Option String} {verified : Bool}
    {discoveredAtBlock : Option ℕ} {id : ℕ}
    (h : db.createContract address parent verified discoveredAtBlock = .ok (id, db₁)) :
    Keeps touched db db₁ := by
  obtain ⟨-, -, rfl⟩ := createContract_ok h
  refine ⟨fun c ↦ c, [_], by rw [List.map_id'], fun _ _ ↦ .refl _, Nat.le_succ _, ?_,
    List.nodup_singleton _, ?_⟩
  · intro c hc
    rw [List.mem_singleton.mp hc]
    exact ⟨le_rfl, Nat.lt_succ_self _⟩
  · intro c hc
    rw [List.mem_singleton.mp hc]
    exact nofun

end Database

section Apply

variable {E : Env} {lib : Backend E} {config : BackendConfig} {touched : ℕ → Prop}
  {db db' : Database} {contractId eventOrder : ℕ} {chainEvent : ChainEvent}
  {setupFallback : Option OnChainState}

open Database

theorem applySetupEvent_keeps {sourceEventId : ℕ}
    (h : applySetupEvent lib db contractId chainEvent eventOrder sourceEventId = .ok db') :
    Keeps touched db db' := by
  unfold applySetupEvent at h
  obtain ⟨db₁, hupdate, h⟩ := except_bind_ok h
  refine (keeps_updateContract (fun c _ _ ↦ ?_) hupdate).trans
    (appendContractConfigSnapshot_sameVaults h).keeps
  exact ⟨rfl, rfl, rfl, fun h ↦ h, fun h ↦ h, fun _ ↦ ⟨rfl, rfl, rfl⟩⟩

theorem subscribeChild_keeps {mode : IndexerMode}
    (h : subscribeChild lib mode db contractId chainEvent = .ok db') : Keeps touched db db' := by
  unfold subscribeChild at h
  dsimp only at h
  split at h
  · split at h
    · cases h
      exact .refl db
    · split at h
      · cases h
        exact .refl db
      · split at h
        · cases h
          exact .refl db
        · cases hcreate : db.createContract _ _ _ _ with
          | error e =>
              rw [hcreate] at h
              cases h
          | ok r =>
              rw [hcreate] at h
              cases h
              have hcreated : db.createContract _ _ _ _ = .ok (r.1, r.2) := hcreate
              exact keeps_createContract hcreated
  · cases h
    exact .refl db

theorem applyProposalEvent_keeps {mode : IndexerMode}
    (h : applyProposalEvent lib mode db contractId chainEvent = .ok db') :
    Keeps touched db db' := by
  unfold applyProposalEvent at h
  split at h
  · cases h
    exact .refl db
  · exact upsertProposal_sameVaults.keeps.trans (subscribeChild_keeps h)

/-- Applying an event flags no row. -/
theorem applyEvent_keeps {mode : IndexerMode} {sourceEventId : ℕ}
    (h : applyEvent lib mode db contractId chainEvent eventOrder sourceEventId setupFallback =
      .ok db') : Keeps touched db db' := by
  unfold applyEvent at h
  split at h
  · exact applySetupEvent_keeps h
  · exact (applySetupOwnerEvent_sameVaults h).keeps
  · exact applyProposalEvent_keeps h
  · exact (applyApprovalEvent_sameVaults h).keeps
  · exact (applyExecutionEvent_sameVaults h).keeps
  · exact (applyEnableChildMultiSigEvent_sameVaults h).keeps
  · exact (applyReceiverEvent_sameVaults h).keeps
  · exact (applyOwnerChangeEvent_sameVaults h).keeps
  · exact (applyThresholdChangeEvent_sameVaults h).keeps
  · exact (applyDelegateEvent_sameVaults h).keeps
  · cases h
    exact .refl db

theorem recordEvent_keeps {fingerprint : String} {applyError : Option String} {id : ℕ}
    (h : recordEvent db contractId chainEvent fingerprint applyError = .ok (id, db')) :
    Keeps touched db db' := by
  unfold recordEvent at h
  dsimp only at h
  split at h
  · cases h
  · cases h
    exact .of_eq rfl rfl

theorem recordAndApply_keeps {fingerprint : String}
    (h : recordAndApply lib config db contractId chainEvent eventOrder fingerprint
      setupFallback = .ok db') : Keeps touched db db' := by
  unfold recordAndApply at h
  obtain ⟨⟨id, db₁⟩, hrecord, happly⟩ := except_bind_ok h
  exact (recordEvent_keeps hrecord).trans (applyEvent_keeps happly)

end Apply

end MinaGuard
