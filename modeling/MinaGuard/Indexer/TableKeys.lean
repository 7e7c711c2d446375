import MinaGuard.Indexer.ApplySpec
import MinaGuard.Indexer.Snapshots
import MinaGuard.Indexer.Views

/-!
# Keys of the tables

Ids, addresses and the other keys of the tables are unique, and ids are below their
counters.  Every write keeps this, and then a lookup is a lookup by key.
-/

namespace MinaGuard

open Foundations

/-- The keys of the tables are unique, and ids are below the counters. -/
structure Database.WellKeyed (db : Database) : Prop where
  contractIds : (db.contracts.map Db.Contract.id).Nodup
  addresses : (db.contracts.map Db.Contract.address).Nodup
  contractsBelow : ∀ c ∈ db.contracts, c.id < db.nextContractId
  configsBelow : ∀ row ∈ db.contractConfigs, row.contractId < db.nextContractId
  membershipsBelow : ∀ m ∈ db.ownerMemberships, m.contractId < db.nextContractId
  proposalIds : (db.proposals.map Db.Proposal.id).Nodup
  proposalKeys : (db.proposals.map Db.Proposal.key).Nodup
  proposalsBelow : ∀ p ∈ db.proposals, p.id < db.nextProposalId
  proposalContracts : ∀ p ∈ db.proposals, p.contractId < db.nextContractId
  receiversBelow : ∀ r ∈ db.proposalReceivers, r.proposalId < db.nextProposalId
  receiverIdx : ∀ id, ∃ n, (db.proposalReceivers.filter fun r ↦ r.proposalId = id).map
    Db.ProposalReceiver.idx = List.range n
  approvalKeys : (db.approvals.map Db.Approval.key).Nodup
  approvalsBelow : ∀ a ∈ db.approvals, a.proposalId < db.nextProposalId
  executionKeys : (db.proposalExecutions.map Db.ProposalExecution.proposalId).Nodup
  executionsBelow : ∀ x ∈ db.proposalExecutions, x.proposalId < db.nextProposalId

namespace Database

variable {db db' : Database} {c : Db.Contract} {p : Db.Proposal} {contractId : ℕ}
  {address proposalHash : String}

theorem findProposal_eq :
    db.findProposal contractId proposalHash =
      rowAt Db.Proposal.key db.proposals (contractId, proposalHash) := by
  unfold findProposal rowAt Db.Proposal.key
  simp only [Prod.mk.injEq]

theorem findProposal_mem (h : db.findProposal contractId proposalHash = some p) :
    p ∈ db.proposals ∧ p.contractId = contractId ∧ p.proposalHash = proposalHash := by
  rw [findProposal_eq] at h
  obtain ⟨hp, hkey⟩ := rowAt_mem h
  exact ⟨hp, (Prod.mk.inj hkey).1, (Prod.mk.inj hkey).2⟩

theorem findContract_eq :
    db.findContract contractId = rowAt Db.Contract.id db.contracts contractId := rfl

theorem findContractAt_mem (h : db.findContractAt address = some c) :
    c ∈ db.contracts ∧ c.address = address := rowAt_mem h

theorem approvals_upsertApproval (row : Db.Approval) :
    (db.upsertApproval row).approvals = upsert Db.Approval.key db.approvals row := by
  unfold upsertApproval upsert Db.Approval.key
  simp only [Prod.mk.injEq]

theorem executions_upsertProposalExecution (row : Db.ProposalExecution) :
    (db.upsertProposalExecution row).proposalExecutions =
      upsert Db.ProposalExecution.proposalId db.proposalExecutions row := rfl

namespace WellKeyed

theorem findProposal (h : db.WellKeyed) (hp : p ∈ db.proposals) :
    db.findProposal p.contractId p.proposalHash = some p := by
  rw [findProposal_eq]
  exact (rowAt_eq_some h.proposalKeys).mpr ⟨hp, rfl⟩

theorem findContractAt (h : db.WellKeyed) (hc : c ∈ db.contracts) :
    db.findContractAt c.address = some c := (rowAt_eq_some h.addresses).mpr ⟨hc, rfl⟩

theorem findContract (h : db.WellKeyed) (hc : c ∈ db.contracts) :
    db.findContract c.id = some c := (rowAt_eq_some h.contractIds).mpr ⟨hc, rfl⟩

theorem eq_of_contractId (h : db.WellKeyed) {c' : Db.Contract} (hc : c ∈ db.contracts)
    (hc' : c' ∈ db.contracts) (hid : c.id = c'.id) : c = c' :=
  List.inj_on_of_nodup_map h.contractIds hc hc' hid

end WellKeyed

namespace WellKeyed

/-- Tables without keys, and the counter of events, do not matter. -/
theorem recorded (h : db.WellKeyed) (blockHeaders : List Db.BlockHeader)
    (eventRaws : List Db.EventRaw) (nextEventId : ℕ) :
    WellKeyed { db with blockHeaders, eventRaws, nextEventId } := { h with }

theorem updateProposal (h : db.WellKeyed) (id : ℕ) {f : Db.Proposal → Db.Proposal}
    (hf : ∀ q, (f q).id = q.id ∧ (f q).key = q.key) : (db.updateProposal id f).WellKeyed := by
  have hkeep : ∀ q ∈ db.proposals, (if q.id = id then f q else q).id = q.id ∧
      (if q.id = id then f q else q).key = q.key := by
    intro q _
    split
    · exact hf q
    · exact ⟨rfl, rfl⟩
  have hids : (db.updateProposal id f).proposals.map Db.Proposal.id =
      db.proposals.map Db.Proposal.id := map_key_map fun q hq ↦ (hkeep q hq).1
  have hkeys : (db.updateProposal id f).proposals.map Db.Proposal.key =
      db.proposals.map Db.Proposal.key := map_key_map fun q hq ↦ (hkeep q hq).2
  refine
    { h with
      proposalIds := hids ▸ h.proposalIds
      proposalKeys := hkeys ▸ h.proposalKeys
      proposalsBelow := ?_
      proposalContracts := ?_ }
  · intro p hp
    obtain ⟨q, hq, rfl⟩ := List.mem_map.mp hp
    rw [(hkeep q hq).1]
    exact h.proposalsBelow q hq
  · intro p hp
    obtain ⟨q, hq, rfl⟩ := List.mem_map.mp hp
    have hcontract := congrArg Prod.fst (hkeep q hq).2
    dsimp only [Db.Proposal.key] at hcontract
    rw [hcontract]
    exact h.proposalContracts q hq

theorem addProposal (h : db.WellKeyed) (hid : p.id = db.nextProposalId)
    (hcontract : p.contractId < db.nextContractId)
    (hfresh : db.findProposal p.contractId p.proposalHash = none) :
    WellKeyed { db with
      nextProposalId := db.nextProposalId + 1
      proposals := db.proposals ++ [p] } := by
  have hnew : p.id ∉ db.proposals.map Db.Proposal.id := by
    intro hmem
    obtain ⟨q, hq, heq⟩ := List.mem_map.mp hmem
    have hlt := h.proposalsBelow q hq
    omega
  rw [findProposal_eq] at hfresh
  exact
    { h with
      proposalIds := nodup_concat h.proposalIds hnew
      proposalKeys := nodup_concat h.proposalKeys (rowAt_eq_none.mp hfresh)
      proposalsBelow := List.forall_mem_append.mpr
        ⟨fun q hq ↦ Nat.lt_succ_of_lt (h.proposalsBelow q hq),
          List.forall_mem_singleton.mpr (hid ▸ Nat.lt_succ_self _)⟩
      proposalContracts := List.forall_mem_append.mpr
        ⟨h.proposalContracts, List.forall_mem_singleton.mpr hcontract⟩
      receiversBelow := fun r hr ↦ Nat.lt_succ_of_lt (h.receiversBelow r hr)
      approvalsBelow := fun a ha ↦ Nat.lt_succ_of_lt (h.approvalsBelow a ha)
      executionsBelow := fun x hx ↦ Nat.lt_succ_of_lt (h.executionsBelow x hx) }

/-- The next index of a proposal is free. -/
theorem createReceiver_eq (h : db.WellKeyed) (hp : p ∈ db.proposals)
    (row : Db.ProposalReceiver) (hid : row.proposalId = p.id)
    (hidx : row.idx = (db.proposalReceivers.filter fun r ↦ r.proposalId = p.id).length) :
    db.createReceiver row = .ok { db with proposalReceivers := db.proposalReceivers ++ [row] } ∧
      WellKeyed { db with proposalReceivers := db.proposalReceivers ++ [row] } := by
  obtain ⟨n, hn⟩ := h.receiverIdx p.id
  have hlength : row.idx = n := by
    have hlength := congrArg List.length hn
    rw [List.length_map, List.length_range] at hlength
    exact hidx.trans hlength
  refine ⟨if_neg ?_, { h with receiversBelow := ?_, receiverIdx := ?_ }⟩
  · intro hany
    obtain ⟨r, hr, hboth⟩ := List.any_eq_true.mp hany
    obtain ⟨hsame, hplace⟩ := of_decide_eq_true hboth
    have hmem : r.idx ∈ (db.proposalReceivers.filter fun r ↦ r.proposalId = p.id).map
        Db.ProposalReceiver.idx :=
      List.mem_map_of_mem (List.mem_filter.mpr ⟨hr, decide_eq_true (hsame.trans hid)⟩)
    rw [hn, List.mem_range] at hmem
    omega
  · refine List.forall_mem_append.mpr ⟨h.receiversBelow, List.forall_mem_singleton.mpr ?_⟩
    rw [hid]
    exact h.proposalsBelow p hp
  · intro id
    dsimp only
    rw [filter_concat_group, List.map_append]
    by_cases hsame : row.proposalId = id
    · refine ⟨n + 1, ?_⟩
      rw [if_pos hsame, ← hsame, hid, hn, List.range_succ, List.map_singleton, hlength]
    · rw [if_neg hsame, List.map_nil, List.append_nil]
      exact h.receiverIdx id

theorem upsertApproval (h : db.WellKeyed) {row : Db.Approval}
    (hid : row.proposalId < db.nextProposalId) : (db.upsertApproval row).WellKeyed := by
  refine { h with approvalKeys := ?_, approvalsBelow := ?_ }
  · rw [approvals_upsertApproval]
    exact nodup_upsert h.approvalKeys
  · intro a ha
    rw [approvals_upsertApproval] at ha
    rcases mem_upsert ha with rfl | ha
    · exact hid
    · exact h.approvalsBelow a ha

theorem upsertProposalExecution (h : db.WellKeyed) {row : Db.ProposalExecution}
    (hid : row.proposalId < db.nextProposalId) : (db.upsertProposalExecution row).WellKeyed := by
  refine { h with executionKeys := nodup_upsert h.executionKeys, executionsBelow := ?_ }
  intro x hx
  rw [executions_upsertProposalExecution] at hx
  rcases mem_upsert hx with rfl | hx
  · exact hid
  · exact h.executionsBelow x hx

theorem addConfig (h : db.WellKeyed) {row : Db.ContractConfig}
    (hcontract : row.contractId < db.nextContractId) :
    WellKeyed { db with contractConfigs := db.contractConfigs ++ [row] } :=
  { h with
    configsBelow := List.forall_mem_append.mpr
      ⟨h.configsBelow, List.forall_mem_singleton.mpr hcontract⟩ }

theorem addMembership (h : db.WellKeyed) {m : Db.OwnerMembership}
    (hcontract : m.contractId < db.nextContractId) :
    WellKeyed { db with ownerMemberships := db.ownerMemberships ++ [m] } :=
  { h with
    membershipsBelow := List.forall_mem_append.mpr
      ⟨h.membershipsBelow, List.forall_mem_singleton.mpr hcontract⟩ }

/-- Contracts keep their ids and addresses. -/
theorem mapContracts (h : db.WellKeyed) {f : Db.Contract → Db.Contract}
    (hf : ∀ c ∈ db.contracts, (f c).id = c.id ∧ (f c).address = c.address) :
    WellKeyed { db with contracts := db.contracts.map f } := by
  have hids : (db.contracts.map f).map Db.Contract.id = db.contracts.map Db.Contract.id :=
    map_key_map fun c hc ↦ (hf c hc).1
  have haddresses : (db.contracts.map f).map Db.Contract.address =
      db.contracts.map Db.Contract.address := map_key_map fun c hc ↦ (hf c hc).2
  refine
    { h with
      contractIds := hids ▸ h.contractIds
      addresses := haddresses ▸ h.addresses
      contractsBelow := ?_ }
  intro c' hc'
  obtain ⟨c, hc, rfl⟩ := List.mem_map.mp hc'
  rw [(hf c hc).1]
  exact h.contractsBelow c hc

theorem updateContract (h : db.WellKeyed) {id : ℕ} {f : Db.Contract → Db.Contract}
    (hf : ∀ c, (f c).id = c.id ∧ (f c).address = c.address)
    (hdb : db.updateContract id f = .ok db') : db'.WellKeyed := by
  rw [updateContract_ok hdb]
  refine h.mapContracts fun c _ ↦ ?_
  split
  · exact hf c
  · exact ⟨rfl, rfl⟩

theorem createContract (h : db.WellKeyed) {parent : Option String} {verified : Bool}
    {discoveredAtBlock : Option ℕ} {id : ℕ}
    (hdb : db.createContract address parent verified discoveredAtBlock = .ok (id, db')) :
    db'.WellKeyed := by
  obtain ⟨hfresh, -, rfl⟩ := createContract_ok hdb
  have hnew : db.nextContractId ∉ db.contracts.map Db.Contract.id := by
    intro hmem
    obtain ⟨c, hc, heq⟩ := List.mem_map.mp hmem
    have hlt := h.contractsBelow c hc
    omega
  exact
    { h with
      contractIds := nodup_concat h.contractIds hnew
      addresses := nodup_concat h.addresses (rowAt_eq_none.mp hfresh)
      contractsBelow := List.forall_mem_append.mpr
        ⟨fun c hc ↦ Nat.lt_succ_of_lt (h.contractsBelow c hc),
          List.forall_mem_singleton.mpr (Nat.lt_succ_self _)⟩
      configsBelow := fun row hrow ↦ Nat.lt_succ_of_lt (h.configsBelow row hrow)
      membershipsBelow := fun m hm ↦ Nat.lt_succ_of_lt (h.membershipsBelow m hm)
      proposalContracts := fun p hp ↦ Nat.lt_succ_of_lt (h.proposalContracts p hp) }

end WellKeyed

end Database

end MinaGuard
