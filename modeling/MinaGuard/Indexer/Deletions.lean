import MinaGuard.Indexer.EventIndex

/-!
# Deletions, seen without ids

A rollback deletes table by table, and rows that belong to deleted rows go with them.
What is left says what the index says after the rollback.
-/

namespace MinaGuard

open Foundations

theorem map_filter_congr {α β : Type} {o : Option α} {p : α → Bool} {f g : α → β}
    (h : ∀ a, o = some a → p a = true → f a = g a) : (o.filter p).map f = (o.filter p).map g := by
  cases o with
  | none => rfl
  | some a =>
      by_cases hp : p a = true
      · rw [Option.filter_some_pos hp, Option.map_some, Option.map_some, h a rfl hp]
      · rw [Option.filter_some_neg (Bool.eq_false_iff.mpr hp)]
        rfl

namespace Database

variable {db db' : Database} {c : Db.Contract} {p : Db.Proposal}

/-- Rows are deleted only; of the receivers all of a proposal or none. -/
structure Deletes (db db' : Database) : Prop where
  contracts : db'.contracts.Sublist db.contracts
  configs : db'.contractConfigs.Sublist db.contractConfigs
  memberships : db'.ownerMemberships.Sublist db.ownerMemberships
  proposals : db'.proposals.Sublist db.proposals
  receivers : ∃ kept : ℕ → Bool,
    db'.proposalReceivers = db.proposalReceivers.filter fun r ↦ kept r.proposalId
  approvals : db'.approvals.Sublist db.approvals
  executions : db'.proposalExecutions.Sublist db.proposalExecutions
  nextContractId : db'.nextContractId = db.nextContractId
  nextProposalId : db'.nextProposalId = db.nextProposalId

theorem filter_group_filter {R : Type} (key : R → ℕ) (kept : ℕ → Bool) (rows : List R) (id : ℕ) :
    (rows.filter fun r ↦ kept (key r)).filter (fun r ↦ key r = id) =
      if kept id then rows.filter (fun r ↦ key r = id) else [] := by
  rw [List.filter_filter]
  cases hkept : kept id with
  | true =>
      rw [if_pos rfl]
      refine List.filter_congr fun r _ ↦ ?_
      by_cases hid : key r = id
      · simp [hid, hkept]
      · simp [hid]
  | false =>
      rw [if_neg Bool.false_ne_true]
      refine List.filter_eq_nil_iff.mpr fun r _ hr ↦ ?_
      rw [Bool.and_eq_true, decide_eq_true_eq] at hr
      rw [hr.1, hkept] at hr
      exact Bool.false_ne_true hr.2

theorem Deletes.wellKeyed (hdeletes : Deletes db db') (h : db.WellKeyed) : db'.WellKeyed where
  contractIds := h.contractIds.sublist (hdeletes.contracts.map _)
  addresses := h.addresses.sublist (hdeletes.contracts.map _)
  contractsBelow := fun c hc ↦
    hdeletes.nextContractId ▸ h.contractsBelow c (hdeletes.contracts.subset hc)
  configsBelow := fun row hrow ↦
    hdeletes.nextContractId ▸ h.configsBelow row (hdeletes.configs.subset hrow)
  membershipsBelow := fun m hm ↦
    hdeletes.nextContractId ▸ h.membershipsBelow m (hdeletes.memberships.subset hm)
  proposalIds := h.proposalIds.sublist (hdeletes.proposals.map _)
  proposalKeys := h.proposalKeys.sublist (hdeletes.proposals.map _)
  proposalsBelow := fun p hp ↦
    hdeletes.nextProposalId ▸ h.proposalsBelow p (hdeletes.proposals.subset hp)
  proposalContracts := fun p hp ↦
    hdeletes.nextContractId ▸ h.proposalContracts p (hdeletes.proposals.subset hp)
  receiversBelow := by
    obtain ⟨kept, hkept⟩ := hdeletes.receivers
    intro r hr
    rw [hkept] at hr
    exact hdeletes.nextProposalId ▸ h.receiversBelow r (List.mem_of_mem_filter hr)
  receiverIdx := by
    obtain ⟨kept, hkept⟩ := hdeletes.receivers
    intro id
    rw [hkept, filter_group_filter Db.ProposalReceiver.proposalId]
    split
    · exact h.receiverIdx id
    · exact ⟨0, rfl⟩
  approvalKeys := h.approvalKeys.sublist (hdeletes.approvals.map _)
  approvalsBelow := fun a ha ↦
    hdeletes.nextProposalId ▸ h.approvalsBelow a (hdeletes.approvals.subset ha)
  executionKeys := h.executionKeys.sublist (hdeletes.executions.map _)
  executionsBelow := fun x hx ↦
    hdeletes.nextProposalId ▸ h.executionsBelow x (hdeletes.executions.subset hx)

theorem Deletes.sound (hdeletes : Deletes db db') (h : db.Sound) : db'.Sound where
  toWellKeyed := hdeletes.wellKeyed h.toWellKeyed
  chronological := fun contractId ↦
    (h.chronological contractId).sublist (hdeletes.configs.filter _)

theorem deletes_rows (db : Database) (above : ℕ → Bool) : Deletes db (db.deleteRows above) where
  contracts := .refl _
  configs := List.filter_sublist
  memberships := List.filter_sublist
  proposals := .refl _
  receivers := ⟨fun _ ↦ true, (List.filter_true _).symm⟩
  approvals := List.filter_sublist
  executions := List.filter_sublist
  nextContractId := rfl
  nextProposalId := rfl

theorem deletes_proposals (db : Database) (doomed : Db.Proposal → Bool) :
    Deletes db (db.deleteProposals doomed) where
  contracts := .refl _
  configs := .refl _
  memberships := .refl _
  proposals := List.filter_sublist
  receivers := ⟨fun id ↦ id ∉ (db.proposals.filter doomed).map Db.Proposal.id, rfl⟩
  approvals := List.filter_sublist
  executions := List.filter_sublist
  nextContractId := rfl
  nextProposalId := rfl

theorem deletes_contracts (db : Database) (doomed : Db.Contract → Bool) :
    Deletes db (db.deleteContracts doomed) where
  contracts := List.filter_sublist
  configs := List.filter_sublist
  memberships := List.filter_sublist
  proposals := List.filter_sublist
  receivers := ⟨fun id ↦ id ∉ (db.proposals.filter fun p ↦
    p.contractId ∈ (db.contracts.filter doomed).map Db.Contract.id).map Db.Proposal.id, rfl⟩
  approvals := List.filter_sublist
  executions := List.filter_sublist
  nextContractId := rfl
  nextProposalId := rfl

theorem proposalView_deleteRows (h : db.WellKeyed) (forkHeight : ℤ) (p : Db.Proposal) :
    (db.deleteRows (isAbove forkHeight)).proposalView p =
      (db.proposalView p).rollback forkHeight := by
  have happroval (approver : String) :
      (rowAt Db.Approval.key (db.approvals.filter fun a ↦ !isAbove forkHeight a.blockHeight)
          (p.id, approver)).map (fun a ↦ (a.approvalRaw, a.blockHeight)) =
        ((rowAt Db.Approval.key db.approvals (p.id, approver)).map fun a ↦
          (a.approvalRaw, a.blockHeight)).filter fun a ↦ !isAbove forkHeight a.2 := by
    rw [rowAt_filter h.approvalKeys, Option.filter_map]
    rfl
  have hexecution : (rowAt Db.ProposalExecution.proposalId
      (db.proposalExecutions.filter fun x ↦ !isAbove forkHeight x.blockHeight) p.id).map
        (fun x ↦ (x.blockHeight, x.txHash)) =
        ((rowAt Db.ProposalExecution.proposalId db.proposalExecutions p.id).map fun x ↦
          (x.blockHeight, x.txHash)).filter fun x ↦ !isAbove forkHeight x.1 := by
    rw [rowAt_filter h.executionKeys, Option.filter_map]
    rfl
  unfold proposalView ProposalView.rollback deleteRows
  dsimp only
  rw [hexecution]
  simp only [happroval]

/-- What belongs to other proposals stays. -/
theorem proposalView_deleteProposals (h : db.WellKeyed) (hp : p ∈ db.proposals)
    {doomed : Db.Proposal → Bool} (hkept : doomed p = false) :
    (db.deleteProposals doomed).proposalView p = db.proposalView p := by
  have hid : p.id ∉ (db.proposals.filter doomed).map Db.Proposal.id := by
    intro hmem
    obtain ⟨q, hq, heq⟩ := List.mem_map.mp hmem
    obtain ⟨hq, hdoomed⟩ := List.mem_filter.mp hq
    rw [List.inj_on_of_nodup_map h.proposalIds hq hp heq, hkept] at hdoomed
    cases hdoomed
  have hreceivers := filter_group_filter Db.ProposalReceiver.proposalId
    (fun id ↦ id ∉ (db.proposals.filter doomed).map Db.Proposal.id) db.proposalReceivers p.id
  rw [if_pos (decide_eq_true hid)] at hreceivers
  have hfilter {R : Type} (o : Option R) (key : R → ℕ) (ho : ∀ r, o = some r → key r = p.id) :
      o.filter (fun r ↦ key r ∉ (db.proposals.filter doomed).map Db.Proposal.id) = o := by
    cases o with
    | none => rfl
    | some r =>
        rw [Option.filter_some, if_pos]
        rw [ho r rfl]
        exact decide_eq_true hid
  unfold proposalView deleteProposals
  dsimp only
  rw [hreceivers, rowAt_filter h.executionKeys,
    hfilter _ Db.ProposalExecution.proposalId fun r hr ↦ (rowAt_mem hr).2]
  congr 1
  funext approver
  have happroval : ∀ a, rowAt Db.Approval.key db.approvals (p.id, approver) = some a →
      a.proposalId = p.id := fun a ha ↦ (Prod.mk.inj (rowAt_mem ha).2).1
  rw [rowAt_filter h.approvalKeys, hfilter _ Db.Approval.proposalId happroval]

theorem proposalAt_deleteProposals (h : db.WellKeyed) (doomed : Db.Proposal → Bool)
    (contractId : ℕ) (proposalHash : String) :
    (db.deleteProposals doomed).proposalAt contractId proposalHash =
      ((db.findProposal contractId proposalHash).filter fun p ↦ !doomed p).map
        db.proposalView := by
  have hfind : (db.deleteProposals doomed).findProposal contractId proposalHash =
      (db.findProposal contractId proposalHash).filter fun p ↦ !doomed p := by
    rw [findProposal_eq, findProposal_eq]
    exact rowAt_filter h.proposalKeys _
  unfold proposalAt
  rw [hfind]
  refine map_filter_congr fun p hp hkept ↦ ?_
  exact proposalView_deleteProposals h (findProposal_mem hp).1 (Bool.not_eq_true' _ ▸ hkept)

/-- Rows above the fork, and the proposals made above it. -/
theorem vaultView_deleteAbove (h : db.WellKeyed) (forkHeight : ℤ) (c : Db.Contract) :
    ((db.deleteRows (isAbove forkHeight)).deleteProposals fun p ↦
      isAbove forkHeight p.createdAtBlock).vaultView c = (db.vaultView c).rollback forkHeight := by
  have hrows {R : Type} (rows : List R) (key height : R → ℕ) :
      (rows.filter fun r ↦ !isAbove forkHeight (height r)).filter (fun r ↦ key r = c.id) =
        (rows.filter fun r ↦ key r = c.id).filter fun r ↦ !isAbove forkHeight (height r) := by
    rw [List.filter_filter, List.filter_filter]
    simp only [Bool.and_comm]
  have hproposals : ((db.deleteRows (isAbove forkHeight)).deleteProposals fun p ↦
      isAbove forkHeight p.createdAtBlock).proposalAt c.id =
      ((db.vaultView c).rollback forkHeight).proposals := by
    funext proposalHash
    rw [proposalAt_deleteProposals ((deletes_rows _ _).wellKeyed h)]
    have hview : (db.deleteRows (isAbove forkHeight)).proposalView =
        ProposalView.rollback forkHeight ∘ db.proposalView :=
      funext (proposalView_deleteRows h forkHeight)
    change ((db.findProposal c.id proposalHash).filter fun p ↦
      !isAbove forkHeight p.createdAtBlock).map _ =
      (((db.findProposal c.id proposalHash).map db.proposalView).filter fun p ↦
        !isAbove forkHeight p.row.createdAtBlock).map (ProposalView.rollback forkHeight)
    rw [hview, Option.filter_map, Option.map_map]
    rfl
  unfold vaultView VaultView.rollback at hproposals ⊢
  dsimp only at hproposals ⊢
  rw [hproposals]
  unfold deleteProposals deleteRows
  dsimp only
  rw [hrows _ Db.ContractConfig.contractId, hrows _ Db.OwnerMembership.contractId,
    List.filter_map, List.filter_map]
  rfl

/-- What belongs to other contracts stays. -/
theorem vaultView_deleteContracts (h : db.WellKeyed) (hc : c ∈ db.contracts)
    {doomed : Db.Contract → Bool} (hkept : doomed c = false) :
    (db.deleteContracts doomed).vaultView c = db.vaultView c := by
  have hid : c.id ∉ (db.contracts.filter doomed).map Db.Contract.id := by
    intro hmem
    obtain ⟨c', hc', heq⟩ := List.mem_map.mp hmem
    obtain ⟨hc', hdoomed⟩ := List.mem_filter.mp hc'
    rw [h.eq_of_contractId hc' hc heq, hkept] at hdoomed
    cases hdoomed
  have hrows {R : Type} (rows : List R) (key : R → ℕ) :
      (rows.filter fun r ↦ key r ∉ (db.contracts.filter doomed).map Db.Contract.id).filter
        (fun r ↦ key r = c.id) = rows.filter fun r ↦ key r = c.id := by
    refine (filter_group_filter key (fun id ↦ id ∉ (db.contracts.filter doomed).map Db.Contract.id)
      rows c.id).trans (if_pos (decide_eq_true hid))
  have hproposals : (db.deleteContracts doomed).proposalAt c.id = db.proposalAt c.id := by
    funext proposalHash
    refine (proposalAt_deleteProposals h _ c.id proposalHash).trans ?_
    unfold proposalAt
    cases hfind : db.findProposal c.id proposalHash with
    | none => rfl
    | some p =>
        obtain ⟨-, hcontract, -⟩ := findProposal_mem hfind
        rw [Option.filter_some, if_pos]
        rw [hcontract, decide_eq_false hid]
        rfl
  unfold vaultView
  rw [hproposals]
  unfold deleteContracts deleteProposals
  dsimp only
  rw [hrows _ Db.ContractConfig.contractId, hrows _ Db.OwnerMembership.contractId]

theorem findContractAt_deleteContracts (h : db.WellKeyed) (doomed : Db.Contract → Bool)
    (address : String) :
    (db.deleteContracts doomed).findContractAt address =
      (db.findContractAt address).filter fun c ↦ !doomed c :=
  rowAt_filter h.addresses _

theorem indexView_deleteContracts (h : db.WellKeyed) (doomed : Db.Contract → Bool)
    (address : String) :
    (db.deleteContracts doomed).indexView address =
      ((db.findContractAt address).filter fun c ↦ !doomed c).map db.vaultView := by
  unfold indexView
  rw [findContractAt_deleteContracts h]
  refine map_filter_congr fun c hc hkept ↦ ?_
  exact vaultView_deleteContracts h (findContractAt_mem hc).1 (Bool.not_eq_true' _ ▸ hkept)

end Database

end MinaGuard
