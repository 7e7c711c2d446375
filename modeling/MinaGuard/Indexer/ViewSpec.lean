import MinaGuard.Indexer.TableKeys

/-!
# Writes to the tables, seen without ids

Each write to a table changes what is known of one proposal or of one vault, and of
nothing else.
-/

namespace MinaGuard

open Foundations

namespace Database

variable {db db' : Database} {c : Db.Contract} {p : Db.Proposal} {contractId : ℕ}
  {address proposalHash : String}

theorem WellKeyed.indexView (h : db.WellKeyed) (hc : c ∈ db.contracts) :
    db.indexView c.address = some (db.vaultView c) := by
  unfold Database.indexView
  rw [h.findContractAt hc, Option.map_some]

/-- What is known of one vault changes. -/
theorem indexView_update (h : db.WellKeyed) (hc : c ∈ db.contracts)
    (hcontracts : db'.contracts = db.contracts)
    (hothers : ∀ c' ∈ db.contracts, c'.id ≠ c.id → db'.vaultView c' = db.vaultView c') :
    db'.indexView = Function.update db.indexView c.address (some (db'.vaultView c)) := by
  funext address
  unfold indexView findContractAt
  rw [hcontracts]
  by_cases haddress : address = c.address
  · subst haddress
    rw [Function.update_self]
    exact congrArg (Option.map db'.vaultView) (h.findContractAt hc)
  · rw [Function.update_of_ne haddress]
    cases hfind : db.findContractAt address with
    | none =>
        unfold findContractAt at hfind
        rw [hfind]
        rfl
    | some c' =>
        obtain ⟨hc', haddress'⟩ := findContractAt_mem hfind
        unfold findContractAt at hfind
        have hne : c'.id ≠ c.id := by
          intro hid
          rw [h.eq_of_contractId hc' hc hid] at haddress'
          exact haddress haddress'.symm
        rw [hfind, Option.map_some, Option.map_some, hothers c' hc' hne]

/-- What is known of proposals is all that changes. -/
structure SameButProposals (db db' : Database) : Prop where
  contracts : db'.contracts = db.contracts
  configs : db'.contractConfigs = db.contractConfigs
  memberships : db'.ownerMemberships = db.ownerMemberships

theorem SameButProposals.vaultView (hsame : db.SameButProposals db')
    (c : Db.Contract) :
    db'.vaultView c = { db.vaultView c with proposals := db'.proposalAt c.id } := by
  unfold Database.vaultView
  rw [hsame.configs, hsame.memberships]

/-- What is known of one proposal changes. -/
theorem indexView_setProposal (h : db.WellKeyed) (hc : c ∈ db.contracts)
    (hsame : db.SameButProposals db') (new : Option ProposalView)
    (hproposals : ∀ contractId hash, db'.proposalAt contractId hash =
      if contractId = c.id ∧ hash = proposalHash then new
      else db.proposalAt contractId hash) :
    db'.indexView = db.indexView.modify c.address fun v ↦ v.setProposal proposalHash new := by
  have hhere : db'.proposalAt c.id = Function.update (db.proposalAt c.id) proposalHash new := by
    funext hash
    rw [hproposals, Function.update_apply]
    exact if_congr (and_iff_right rfl) rfl rfl
  have hothers : ∀ c' ∈ db.contracts, c'.id ≠ c.id → db'.vaultView c' = db.vaultView c' := by
    intro c' _ hne
    have hsome : db'.proposalAt c'.id = db.proposalAt c'.id := by
      funext hash
      rw [hproposals, if_neg fun hboth ↦ hne hboth.1]
    rw [hsame.vaultView, hsome]
    rfl
  rw [indexView_update h hc hsame.contracts hothers, IndexView.modify, h.indexView hc,
    Option.map_some, hsame.vaultView, hhere]
  rfl

/-- What is known of the proposal of an id changes, and nothing else. -/
structure ChangesProposal (id : ℕ) (g : ProposalView → ProposalView) (db db' : Database) :
    Prop where
  same : db.SameButProposals db'
  proposals : ∃ f : Db.Proposal → Db.Proposal,
    (∀ q, (f q).id = q.id ∧ (f q).key = q.key) ∧ db'.proposals = db.proposals.map f ∧
    ∀ q ∈ db.proposals, db'.proposalView (f q) =
      if q.id = id then g (db.proposalView q) else db.proposalView q

namespace ChangesProposal

variable {id : ℕ} {g g' : ProposalView → ProposalView} {db₁ : Database}

theorem trans (h : ChangesProposal id g db db₁) (h' : ChangesProposal id g' db₁ db') :
    ChangesProposal id (fun p ↦ g' (g p)) db db' where
  same := ⟨h'.same.contracts.trans h.same.contracts, h'.same.configs.trans h.same.configs,
    h'.same.memberships.trans h.same.memberships⟩
  proposals := by
    obtain ⟨f, hkeep, hproposals, hviews⟩ := h.proposals
    obtain ⟨f', hkeep', hproposals', hviews'⟩ := h'.proposals
    refine ⟨f' ∘ f, fun q ↦ ⟨(hkeep' _).1.trans (hkeep q).1, (hkeep' _).2.trans (hkeep q).2⟩,
      by rw [hproposals', hproposals, List.map_map], fun q hq ↦ ?_⟩
    have hmem : f q ∈ db₁.proposals := by
      rw [hproposals]
      exact List.mem_map_of_mem hq
    rw [Function.comp_apply, hviews' _ hmem, (hkeep q).1, hviews q hq]
    split <;> rfl

/-- The rows of proposals stay, what belongs to one of them changes. -/
theorem of_rows (hsame : db.SameButProposals db') (hproposals : db'.proposals = db.proposals)
    (hviews : ∀ q ∈ db.proposals, db'.proposalView q =
      if q.id = id then g (db.proposalView q) else db.proposalView q) :
    ChangesProposal id g db db' :=
  ⟨hsame, fun q ↦ q, fun _ ↦ ⟨rfl, rfl⟩, by rw [hproposals, List.map_id'], hviews⟩

theorem updateProposal {f : Db.Proposal → Db.Proposal} {r : Db.Proposal → Db.Proposal}
    (hkeep : ∀ q, (f q).id = q.id ∧ (f q).key = q.key)
    (hcontent : ∀ q, (f q).content = r q.content) :
    ChangesProposal id (fun v ↦ { v with row := r v.row }) db (db.updateProposal id f) := by
  refine ⟨⟨rfl, rfl, rfl⟩, fun q ↦ if q.id = id then f q else q, fun q ↦ ?_, rfl, fun q _ ↦ ?_⟩
  · dsimp only
    split
    · exact hkeep q
    · exact ⟨rfl, rfl⟩
  · dsimp only
    by_cases hid : q.id = id
    · rw [if_pos hid, if_pos hid]
      unfold proposalView
      rw [hcontent, (hkeep q).1]
      rfl
    · rw [if_neg hid, if_neg hid]
      rfl

theorem createReceiver (row : Db.ProposalReceiver) (hid : row.proposalId = id) :
    ChangesProposal id
      (fun v ↦ { v with receivers := v.receivers ++ [(row.address, row.amount)] }) db
      { db with proposalReceivers := db.proposalReceivers ++ [row] } := by
  refine .of_rows ⟨rfl, rfl, rfl⟩ rfl fun q _ ↦ ?_
  unfold proposalView
  dsimp only
  rw [filter_concat_group, List.map_append, hid]
  by_cases hq : q.id = id
  · rw [if_pos hq.symm, if_pos hq]
    rfl
  · rw [if_neg fun h ↦ hq h.symm, if_neg hq, List.map_nil, List.append_nil]

theorem upsertApproval (row : Db.Approval) (hid : row.proposalId = id) :
    ChangesProposal id (fun v ↦ v.approve row.approver row.approvalRaw row.blockHeight) db
      (db.upsertApproval row) := by
  refine .of_rows ⟨rfl, rfl, rfl⟩ rfl fun q _ ↦ ?_
  unfold proposalView
  rw [approvals_upsertApproval]
  simp only [rowAt_upsert, Db.Approval.key, Prod.mk.injEq, hid]
  by_cases hq : q.id = id
  · rw [if_pos hq]
    unfold ProposalView.approve
    congr 1
    funext approver
    rw [Function.update_apply]
    by_cases happrover : approver = row.approver
    · rw [if_pos ⟨hq.symm, happrover.symm⟩, if_pos happrover, Option.map_some]
    · rw [if_neg fun h ↦ happrover h.2.symm, if_neg happrover]
  · rw [if_neg hq]
    congr 1
    funext approver
    rw [if_neg fun h ↦ hq h.1.symm]

theorem upsertProposalExecution (row : Db.ProposalExecution) (hid : row.proposalId = id) :
    ChangesProposal id (fun v ↦ { v with execution := some (row.blockHeight, row.txHash) }) db
      (db.upsertProposalExecution row) := by
  refine .of_rows ⟨rfl, rfl, rfl⟩ rfl fun q _ ↦ ?_
  unfold proposalView
  rw [executions_upsertProposalExecution, rowAt_upsert, hid]
  by_cases hq : q.id = id
  · rw [if_pos hq.symm, if_pos hq]
    rfl
  · rw [if_neg fun h ↦ hq h.symm, if_neg hq]
    rfl

/-- Only the proposal is known differently. -/
theorem proposalAt (h : db.WellKeyed) (hp : p ∈ db.proposals)
    (hchanges : ChangesProposal p.id g db db') (contractId : ℕ) (hash : String) :
    db'.proposalAt contractId hash =
      if contractId = p.contractId ∧ hash = p.proposalHash then
        (db.proposalAt p.contractId p.proposalHash).map g
      else db.proposalAt contractId hash := by
  obtain ⟨f, hkeep, hproposals, hviews⟩ := hchanges.proposals
  have hfind : db'.findProposal contractId hash = (db.findProposal contractId hash).map f := by
    rw [findProposal_eq, findProposal_eq, hproposals, rowAt_map fun q _ ↦ (hkeep q).2]
  unfold Database.proposalAt
  rw [hfind, Option.map_map]
  by_cases hkey : contractId = p.contractId ∧ hash = p.proposalHash
  · rw [if_pos hkey, hkey.1, hkey.2, h.findProposal hp]
    exact congrArg some ((hviews p hp).trans (if_pos rfl))
  · rw [if_neg hkey]
    cases hfound : db.findProposal contractId hash with
    | none => rfl
    | some q =>
        obtain ⟨hq, rfl, rfl⟩ := findProposal_mem hfound
        refine congrArg some ((hviews q hq).trans (if_neg fun hid ↦ hkey ?_))
        rw [List.inj_on_of_nodup_map h.proposalIds hq hp hid]
        exact ⟨rfl, rfl⟩

theorem indexView (h : db.WellKeyed) (hc : c ∈ db.contracts) (hp : p ∈ db.proposals)
    (hcontract : p.contractId = c.id) (hchanges : ChangesProposal p.id g db db') :
    db'.indexView = db.indexView.modify c.address fun v ↦ v.amend p.proposalHash g := by
  rw [indexView_setProposal h hc hchanges.same ((db.proposalAt c.id p.proposalHash).map g)
    fun contractId hash ↦ by rw [hchanges.proposalAt h hp, hcontract]]
  unfold IndexView.modify
  rw [h.indexView hc]
  rfl

end ChangesProposal

/-- A proposal that was not known. -/
theorem indexView_addProposal (h : db.WellKeyed) (hc : c ∈ db.contracts)
    (hcontract : p.contractId = c.id) (hid : p.id = db.nextProposalId)
    (hfresh : db.findProposal c.id p.proposalHash = none)
    (hdb : db' = { db with
      nextProposalId := db.nextProposalId + 1
      proposals := db.proposals ++ [p] }) :
    db'.indexView = db.indexView.modify c.address fun v ↦ v.setProposal p.proposalHash
      (some ⟨p.content, [], fun _ ↦ none, none⟩) := by
  have hsame : db.SameButProposals db' := by
    rw [hdb]
    exact ⟨rfl, rfl, rfl⟩
  have hkey : p.key ∉ db.proposals.map Db.Proposal.key := by
    rw [findProposal_eq, ← hcontract] at hfresh
    exact rowAt_eq_none.mp hfresh
  have hreceivers : p.id ∉ db.proposalReceivers.map Db.ProposalReceiver.proposalId := by
    intro hmem
    obtain ⟨r, hr, heq⟩ := List.mem_map.mp hmem
    exact absurd (h.receiversBelow r hr) (by omega)
  have happrovals : ∀ approver, (p.id, approver) ∉ db.approvals.map Db.Approval.key := by
    intro approver hmem
    obtain ⟨a, ha, heq⟩ := List.mem_map.mp hmem
    exact absurd (h.approvalsBelow a ha) (by rw [(Prod.mk.inj heq).1]; omega)
  have hexecution : p.id ∉ db.proposalExecutions.map Db.ProposalExecution.proposalId := by
    intro hmem
    obtain ⟨x, hx, heq⟩ := List.mem_map.mp hmem
    exact absurd (h.executionsBelow x hx) (by omega)
  have hnew : db'.proposalView p = ⟨p.content, [], fun _ ↦ none, none⟩ := by
    rw [hdb]
    unfold proposalView
    rw [filter_eq_nil_of_fresh hreceivers, rowAt_eq_none.mpr hexecution]
    simp only [rowAt_eq_none.mpr (happrovals _), Option.map_none, List.map_nil]
  have hold : ∀ q, db'.proposalView q = db.proposalView q := by
    rw [hdb]
    exact fun _ ↦ rfl
  have hproposals : db'.proposals = db.proposals ++ [p] := by rw [hdb]
  refine indexView_setProposal h hc hsame _ fun contractId hash ↦ ?_
  unfold proposalAt
  rw [findProposal_eq, findProposal_eq, hproposals, rowAt_concat_of_fresh hkey]
  have hcond : p.key = (contractId, hash) ↔ contractId = c.id ∧ hash = p.proposalHash := by
    rw [Db.Proposal.key, hcontract, Prod.mk.injEq]
    exact and_congr eq_comm eq_comm
  by_cases hhere : contractId = c.id ∧ hash = p.proposalHash
  · rw [if_pos (hcond.mpr hhere), if_pos hhere, ← hnew]
    rfl
  · rw [if_neg (mt hcond.mp hhere), if_neg hhere, funext hold]

theorem indexView_addConfig (h : db.WellKeyed) (hc : c ∈ db.contracts) {row : Db.ContractConfig}
    (hcontract : row.contractId = c.id)
    (hdb : db' = { db with contractConfigs := db.contractConfigs ++ [row] }) :
    db'.indexView = db.indexView.modify c.address fun v ↦
      { v with configs := v.configs ++ [(row.validFromBlock, row.columns)] } := by
  have hviews (c' : Db.Contract) : db'.vaultView c' =
      { db.vaultView c' with configs := (db.vaultView c').configs ++
        if c.id = c'.id then [(row.validFromBlock, row.columns)] else [] } := by
    rw [hdb]
    unfold vaultView
    dsimp only
    rw [filter_concat_group, List.map_append, hcontract]
    by_cases hid : c.id = c'.id
    · rw [if_pos hid, if_pos hid]
      rfl
    · rw [if_neg hid, if_neg hid]
      rfl
  have hcontracts : db'.contracts = db.contracts := by rw [hdb]
  rw [indexView_update h hc hcontracts fun c' _ hne ↦ by
      rw [hviews, if_neg fun hid ↦ hne hid.symm, List.append_nil],
    IndexView.modify, h.indexView hc, Option.map_some, hviews, if_pos rfl]

theorem indexView_addMembership (h : db.WellKeyed) (hc : c ∈ db.contracts)
    {m : Db.OwnerMembership} (hcontract : m.contractId = c.id)
    (hdb : db' = { db with ownerMemberships := db.ownerMemberships ++ [m] }) :
    db'.indexView = db.indexView.modify c.address fun v ↦
      v.record ⟨m.validFromBlock, m.address, m.action, m.index⟩ := by
  have hviews (c' : Db.Contract) : db'.vaultView c' =
      { db.vaultView c' with memberships := (db.vaultView c').memberships ++
        if c.id = c'.id then [⟨m.validFromBlock, m.address, m.action, m.index⟩] else [] } := by
    rw [hdb]
    unfold vaultView
    dsimp only
    rw [filter_concat_group, List.map_append, hcontract]
    by_cases hid : c.id = c'.id
    · rw [if_pos hid, if_pos hid]
      rfl
    · rw [if_neg hid, if_neg hid]
      rfl
  have hcontracts : db'.contracts = db.contracts := by rw [hdb]
  rw [indexView_update h hc hcontracts fun c' _ hne ↦ by
      rw [hviews, if_neg fun hid ↦ hne hid.symm, List.append_nil],
    IndexView.modify, h.indexView hc, Option.map_some, hviews, if_pos rfl]
  rfl

theorem indexView_updateContract (h : db.WellKeyed) (hc : c ∈ db.contracts)
    {f : Db.Contract → Db.Contract} (hf : ∀ c, (f c).id = c.id ∧ (f c).address = c.address)
    (hdiscovered : (f c).discoveredAtBlock = c.discoveredAtBlock)
    (hdb : db.updateContract c.id f = .ok db') :
    db'.indexView = db.indexView.modify c.address fun v ↦ { v with parent := (f c).parent } := by
  rw [updateContract_ok hdb]
  funext address
  have hrow : rowAt Db.Contract.address
      (db.contracts.map fun c' ↦ if c'.id = c.id then f c' else c') address =
      (db.findContractAt address).map fun c' ↦ if c'.id = c.id then f c' else c' := by
    refine rowAt_map fun c' _ ↦ ?_
    split
    · exact (hf c').2
    · rfl
  change Option.map db.vaultView (rowAt Db.Contract.address _ address) = _
  rw [hrow, Option.map_map, IndexView.modify]
  by_cases haddress : address = c.address
  · subst haddress
    rw [Function.update_self, h.indexView hc, h.findContractAt hc, Option.map_some,
      Option.map_some, Function.comp_apply, if_pos rfl]
    unfold vaultView
    rw [(hf c).1, hdiscovered]
  · rw [Function.update_of_ne haddress, Database.indexView]
    cases hfind : db.findContractAt address with
    | none => rfl
    | some c' =>
        obtain ⟨hc', rfl⟩ := findContractAt_mem hfind
        rw [Option.map_some, Option.map_some, Function.comp_apply,
          if_neg fun hid ↦ haddress (congrArg _ (h.eq_of_contractId hc' hc hid))]

/-- Nothing is known of a vault with a new id. -/
theorem WellKeyed.vaultView_new (h : db.WellKeyed) (hid : c.id = db.nextContractId) :
    db.vaultView c = .new c.parent c.discoveredAtBlock := by
  have hconfigs : c.id ∉ db.contractConfigs.map Db.ContractConfig.contractId := by
    intro hmem
    obtain ⟨row, hrow, heq⟩ := List.mem_map.mp hmem
    have hlt := h.configsBelow row hrow
    omega
  have hmemberships : c.id ∉ db.ownerMemberships.map Db.OwnerMembership.contractId := by
    intro hmem
    obtain ⟨m, hm, heq⟩ := List.mem_map.mp hmem
    have hlt := h.membershipsBelow m hm
    omega
  have hproposals : db.proposalAt c.id = fun _ ↦ none := by
    funext hash
    unfold proposalAt
    cases hfind : db.findProposal c.id hash with
    | none => rfl
    | some p =>
        obtain ⟨hp, hcontract, -⟩ := findProposal_mem hfind
        have hlt := h.proposalContracts p hp
        omega
  unfold vaultView
  rw [filter_eq_nil_of_fresh hconfigs, filter_eq_nil_of_fresh hmemberships, hproposals]
  rfl

theorem indexView_createContract (h : db.WellKeyed) {parent : Option String} {verified : Bool}
    {discoveredAtBlock : Option ℕ} {id : ℕ}
    (hdb : db.createContract address parent verified discoveredAtBlock = .ok (id, db')) :
    db'.indexView =
      Function.update db.indexView address (some (.new parent discoveredAtBlock)) := by
  obtain ⟨hfresh, -, rfl⟩ := createContract_ok hdb
  have hunknown : address ∉ db.contracts.map Db.Contract.address := rowAt_eq_none.mp hfresh
  funext a
  change Option.map db.vaultView (rowAt Db.Contract.address (db.contracts ++ [_]) a) = _
  rw [rowAt_concat_of_fresh hunknown, Function.update_apply]
  by_cases ha : address = a
  · rw [if_pos ha, if_pos ha.symm, Option.map_some, h.vaultView_new rfl]
  · rw [if_neg ha, if_neg fun heq ↦ ha heq.symm]
    rfl

end Database

end MinaGuard
