import MinaGuard.Foundations.Pages
import MinaGuard.Indexer.ProposalRoutes

/-!
# What the proposal routes find

The states of targets agree whether they are looked up one by one or for many
proposals, and the page of a derived status is a page of the list of all
proposals with that status.
-/

namespace MinaGuard

open Foundations

/-- The unique columns of the tables. -/
structure Database.Keys (db : Database) : Prop where
  contracts : (db.contracts.map Db.Contract.address).Nodup
  proposals : (db.proposals.map Db.Proposal.id).Nodup
  hashes : (db.proposals.map fun p ↦ (p.contractId, p.proposalHash)).Nodup

variable {db : Database}

theorem get?_latestContractConfigs (contractIds : List ℕ) (contractId : ℕ) :
    (latestContractConfigs db contractIds).get? contractId =
      if contractId ∈ contractIds then db.getLatestConfig contractId else none := by
  unfold latestContractConfigs latestConfigFirst
  rw [InsertionMap.get?_firstOf, find?_mergeSort_reverse, List.filter_filter]
  · split
    · next hmem =>
        have hlater : latest (fun a b : Db.ContractConfig ↦ decide
            (b.validFromBlock < a.validFromBlock ∨
              b.validFromBlock = a.validFromBlock ∧ b.eventOrder ≤ a.eventOrder)) =
            Database.laterConfig := by
          funext best row
          cases best with
          | none => rfl
          | some best =>
              unfold latest Database.laterConfig
              simp only [decide_eq_true_eq]
        rw [hlater]
        unfold Database.getLatestConfig
        congr 1
        apply List.filter_congr
        intro row _
        rw [← Bool.decide_and, decide_eq_decide]
        exact ⟨And.left, fun h ↦ ⟨h, h ▸ hmem⟩⟩
    · next hmem =>
        have hnone : (db.contractConfigs.filter fun row ↦
            decide (row.contractId = contractId) && decide (row.contractId ∈ contractIds)) =
            [] := by
          rw [List.filter_eq_nil_iff]
          rintro row - hrow
          rw [Bool.and_eq_true, decide_eq_true_iff, decide_eq_true_iff] at hrow
          exact hmem (hrow.1 ▸ hrow.2)
        rw [hnone]
        rfl
  · intro a b c hab hbc
    simp only [decide_eq_true_eq] at hab hbc ⊢
    omega
  · intro a b
    rw [← Bool.decide_or, decide_eq_true_iff]
    omega

theorem targetsChild_iff {proposal : Db.Proposal} :
    targetsChild proposal = true ↔
      proposal.destination = some "remote" ∧ proposal.txType ≠ some "5" :=
  decide_eq_true_iff

/-- The map has the states of the targets, as a lookup of each has them. -/
theorem get?_buildChildStateMap (hkeys : db.Keys) {proposals : List Db.Proposal}
    {proposal : Db.Proposal} (hmem : proposal ∈ proposals)
    (htargets : targetsChild proposal = true) {address : String}
    (haddress : truthy proposal.childAccount = some address) :
    (buildChildStateMap db proposals).get? address = resolveChildState db address := by
  have hwanted : address ∈ ((proposals.filter targetsChild).filterMap fun p ↦
      truthy p.childAccount).eraseDups := by
    rw [List.mem_eraseDups]
    exact List.mem_filterMap.mpr ⟨proposal, List.mem_filter.mpr ⟨hmem, htargets⟩, haddress⟩
  unfold buildChildStateMap
  dsimp only
  set addresses := ((proposals.filter targetsChild).filterMap fun p ↦
    truthy p.childAccount).eraseDups
  rw [InsertionMap.get?_setEach Db.Contract.address _ _
    (hkeys.contracts.sublist (List.filter_sublist.map _))]
  unfold resolveChildState
  cases hfind : db.findContractAt address with
  | none =>
      have hnone : ((db.contracts.filter fun c ↦ c.address ∈ addresses ∧ c.ready ∧
          c.permissionsVerified).find? fun c ↦ c.address = address) = none := by
        rw [List.find?_eq_none]
        intro c hc
        exact List.find?_eq_none.mp hfind c (List.mem_of_mem_filter hc)
      rw [hnone]
      rfl
  | some child =>
      have hchild : child ∈ db.contracts := List.mem_of_find?_eq_some hfind
      have hat : child.address = address := by simpa using List.find?_some hfind
      have hunique {c : Db.Contract} (hc : c ∈ db.contracts) (hca : c.address = address) :
          c = child := List.inj_on_of_nodup_map hkeys.contracts hc hchild (hca.trans hat.symm)
      dsimp only
      split
      · next hready =>
          have hnone : ((db.contracts.filter fun c ↦ c.address ∈ addresses ∧ c.ready ∧
              c.permissionsVerified).find? fun c ↦ c.address = address) = none := by
            rw [List.find?_eq_none]
            intro c hc hca
            obtain ⟨hc, hflags⟩ := List.mem_filter.mp hc
            obtain rfl := hunique hc (of_decide_eq_true hca)
            obtain ⟨-, hr, hv⟩ := of_decide_eq_true hflags
            rw [hr, hv] at hready
            exact hready.elim (fun h ↦ h rfl) fun h ↦ h rfl
          rw [hnone]
          rfl
      · next hready =>
          rw [not_or, not_not, not_not] at hready
          have hin : child ∈ db.contracts.filter fun c ↦ c.address ∈ addresses ∧ c.ready ∧
              c.permissionsVerified :=
            List.mem_filter.mpr ⟨hchild, decide_eq_true ⟨hat ▸ hwanted, hready.1, hready.2⟩⟩
          obtain ⟨found, hfound⟩ : ∃ found, ((db.contracts.filter fun c ↦
              c.address ∈ addresses ∧ c.ready ∧ c.permissionsVerified).find? fun c ↦
                c.address = address) = some found := by
            rw [← Option.isSome_iff_exists, List.find?_isSome]
            exact ⟨child, hin, decide_eq_true hat⟩
          obtain rfl := hunique (List.mem_of_mem_filter (List.mem_of_find?_eq_some hfound))
            (by simpa using List.find?_some hfound)
          rw [hfound, Option.bind_some, get?_latestContractConfigs,
            if_pos (List.mem_map_of_mem hin)]

theorem childStateOf_buildChildStateMap (hkeys : db.Keys) {proposals : List Db.Proposal}
    {proposal : Db.Proposal} (hmem : proposal ∈ proposals)
    (htargets : targetsChild proposal = true) :
    childStateOf (buildChildStateMap db proposals) proposal = proposalChildState db proposal := by
  unfold childStateOf proposalChildState
  rw [if_pos (targetsChild_iff.mp htargets)]
  cases haddress : truthy proposal.childAccount with
  | none => rfl
  | some address => exact get?_buildChildStateMap hkeys hmem htargets haddress

/-- The state of a child matters only to proposals that act on one. -/
theorem deriveInvalidReason_congr {proposal : Db.Proposal}
    {parent child child' : Option ContractState}
    (h : targetsChild proposal = true → child = child') :
    deriveInvalidReason proposal parent child = deriveInvalidReason proposal parent child' := by
  by_cases htargets : targetsChild proposal = true
  · rw [h htargets]
  · unfold deriveInvalidReason
    by_cases htype : proposal.txType = some "5"
    · rw [if_pos htype, if_pos htype]
    · have hremote : proposal.destination ≠ some "remote" := fun hremote ↦
        htargets (targetsChild_iff.mpr ⟨hremote, htype⟩)
      dsimp only
      rw [if_neg hremote, if_neg hremote]

theorem serializeProposalRecord_congr {E : Env} {proposal : ProposalWithDerived}
    {latestSlot : ℕ} {parent child child' : Option ContractState}
    (h : targetsChild proposal.toProposal = true → child = child') :
    serializeProposalRecord E proposal latestSlot parent child =
      serializeProposalRecord E proposal latestSlot parent child' := by
  unfold serializeProposalRecord
  by_cases htargets : targetsChild proposal.toProposal = true
  · rw [h htargets]
  · rw [deriveInvalidReason_congr h]
    simp only [htargets, Bool.false_eq_true, false_and, if_false]

section Order

variable {createdAt : ℕ → ℕ} {a b c : Db.Proposal}

theorem proposalsNewestFirst_iff :
    proposalsNewestFirst createdAt a b = true ↔
      b.createdAtBlock < a.createdAtBlock ∨
        b.createdAtBlock = a.createdAtBlock ∧
          (createdAt b.id < createdAt a.id ∨ createdAt b.id = createdAt a.id ∧ b.id ≤ a.id) :=
  decide_eq_true_iff

theorem proposalsNewestFirst_trans (a b c : Db.Proposal)
    (hab : proposalsNewestFirst createdAt a b = true)
    (hbc : proposalsNewestFirst createdAt b c = true) :
    proposalsNewestFirst createdAt a c = true := by
  rw [proposalsNewestFirst_iff] at hab hbc ⊢
  omega

theorem proposalsNewestFirst_total (a b : Db.Proposal) :
    (proposalsNewestFirst createdAt a b || proposalsNewestFirst createdAt b a) = true := by
  rw [Bool.or_eq_true, proposalsNewestFirst_iff, proposalsNewestFirst_iff]
  omega

theorem id_eq_of_proposalsNewestFirst (hab : proposalsNewestFirst createdAt a b = true)
    (hba : proposalsNewestFirst createdAt b a = true) : a.id = b.id := by
  rw [proposalsNewestFirst_iff] at hab hba
  omega

variable {filter : Db.Proposal → Bool}

theorem mem_findProposals {p : Db.Proposal} :
    p ∈ findProposals db createdAt filter ↔ p ∈ db.proposals ∧ filter p = true :=
  List.mem_mergeSort.trans List.mem_filter

theorem pairwise_findProposals :
    (findProposals db createdAt filter).Pairwise fun a b ↦
      proposalsNewestFirst createdAt a b = true :=
  List.pairwise_mergeSort proposalsNewestFirst_trans
    proposalsNewestFirst_total _

theorem findProposals_perm :
    (findProposals db createdAt filter).Perm (db.proposals.filter filter) :=
  List.mergeSort_perm _ _

theorem Database.Keys.row_eq (hkeys : db.Keys) (ha : a ∈ db.proposals) (hb : b ∈ db.proposals)
    (h : a.id = b.id) : a = b := List.inj_on_of_nodup_map hkeys.proposals ha hb h

theorem nodup_findProposals (hkeys : db.Keys) : (findProposals db createdAt filter).Nodup :=
  findProposals_perm.nodup_iff.mpr (hkeys.proposals.of_map.filter _)

/-- A filter does not change the order. -/
theorem findProposals_and (hkeys : db.Keys) (isMatch : Db.Proposal → Bool) :
    findProposals db createdAt (fun p ↦ filter p && isMatch p) =
      (findProposals db createdAt filter).filter isMatch := by
  refine mergeSort_eq_of_perm proposalsNewestFirst_trans
    proposalsNewestFirst_total ?_ ?_ (pairwise_findProposals.filter isMatch)
  · intro a ha b hb hab hba
    have hmem {p : Db.Proposal} (hp : p ∈ (findProposals db createdAt filter).filter isMatch) :
        p ∈ db.proposals := (mem_findProposals.mp (List.mem_of_mem_filter hp)).1
    exact hkeys.row_eq (hmem ha) (hmem hb) (id_eq_of_proposalsNewestFirst hab hba)
  · have hperm := (@findProposals_perm db createdAt filter).symm.filter isMatch
    rw [List.filter_filter] at hperm
    simp only [Bool.and_comm] at hperm ⊢
    exact hperm

/-- Rows in order are found again by their ids. -/
theorem findProposals_ids (hkeys : db.Keys) {rows : List Db.Proposal}
    (hrows : rows.Sublist (findProposals db createdAt filter)) :
    findProposals db createdAt (fun p ↦ decide (p.id ∈ rows.map Db.Proposal.id)) = rows := by
  have hmem {p : Db.Proposal} (hp : p ∈ rows) : p ∈ db.proposals :=
    (mem_findProposals.mp (hrows.subset hp)).1
  refine mergeSort_eq_of_perm proposalsNewestFirst_trans
    proposalsNewestFirst_total ?_ ?_ (pairwise_findProposals.sublist hrows)
  · intro a ha b hb hab hba
    exact hkeys.row_eq (hmem ha) (hmem hb) (id_eq_of_proposalsNewestFirst hab hba)
  · refine (List.perm_ext_iff_of_nodup (hkeys.proposals.of_map.filter _)
      ((nodup_findProposals hkeys).sublist hrows)).mpr ?_
    intro p
    rw [List.mem_filter, decide_eq_true_iff]
    constructor
    · rintro ⟨hp, hid⟩
      obtain ⟨q, hq, hpq⟩ := List.mem_map.mp hid
      rwa [hkeys.row_eq hp (hmem hq) hpq.symm]
    · exact fun hp ↦ ⟨hmem hp, List.mem_map_of_mem hp⟩

end Order

/-! ## Pages -/

/-- The loop ends with the first `stop` matches. -/
theorem selectMatching_eq {isMatch : Db.Proposal → Bool} {stop : ℕ} {matching : List ℕ}
    (candidates : List Db.Proposal) (h : matching.length < stop) :
    selectMatching isMatch stop matching candidates =
      (matching ++ (candidates.filter isMatch).map Db.Proposal.id).take stop := by
  induction candidates generalizing matching with
  | nil =>
      rw [List.filter_nil, List.map_nil, List.append_nil, List.take_of_length_le h.le]
      rfl
  | cons candidate candidates ih =>
      unfold selectMatching
      dsimp only
      by_cases hmatch : isMatch candidate = true
      · rw [if_pos hmatch, List.filter_cons_of_pos hmatch, List.map_cons]
        have hsplit : matching ++ candidate.id ::
            (candidates.filter isMatch).map Db.Proposal.id =
            (matching ++ [candidate.id]) ++ (candidates.filter isMatch).map Db.Proposal.id := by
          rw [List.append_assoc, List.singleton_append]
        rw [hsplit]
        split
        · next hfull => rw [List.take_left' hfull]
        · next hmore =>
            refine ih ?_
            rw [List.length_append, List.length_singleton] at hmore ⊢
            omega
      · rw [if_neg hmatch, List.filter_cons_of_neg hmatch, if_neg h.ne]
        exact ih h

section Lists

variable (db) (createdAt : ℕ → ℕ) (latestSlot contractId : ℕ)

/-- The proposals of a contract, newest first. -/
def proposalsOf : List Db.Proposal :=
  findProposals db createdAt fun p ↦ p.contractId = contractId

/-- The proposals a derived status is looked for in. -/
def newestProposals : List Db.Proposal :=
  (proposalsOf db createdAt contractId).take derivedStatusScanLimit

/-- What the pages of a status list: the newest proposals with it, but every executed one. -/
def statusList (status : ProposalStatus) : List Db.Proposal :=
  (if status = .executed then proposalsOf db createdAt contractId
    else newestProposals db createdAt contractId).filter fun p ↦
      proposalStatus db p latestSlot = status

variable {db createdAt latestSlot contractId}

theorem mem_proposalsOf {p : Db.Proposal} :
    p ∈ proposalsOf db createdAt contractId ↔ p ∈ db.proposals ∧ p.contractId = contractId := by
  unfold proposalsOf
  rw [mem_findProposals, decide_eq_true_iff]

theorem newestProposals_sublist :
    (newestProposals db createdAt contractId).Sublist (proposalsOf db createdAt contractId) :=
  List.take_sublist _ _

theorem statusList_sublist (status : ProposalStatus) :
    (statusList db createdAt latestSlot contractId status).Sublist
      (proposalsOf db createdAt contractId) := by
  refine List.filter_sublist.trans ?_
  split
  · exact List.Sublist.refl _
  · exact newestProposals_sublist

/-- The flag of an execution, in each of the three places. -/
theorem deriveStatus_executionsOf {proposal : Db.Proposal} {invalidReason : Option InvalidReason} :
    deriveStatus proposal (executionsOf db proposal).head?.isSome latestSlot invalidReason =
      deriveStatus proposal (db.proposalExecutions.any fun x ↦ x.proposalId = proposal.id)
        latestSlot invalidReason := by
  have hsame : (executionsOf db proposal).head?.isSome =
      db.proposalExecutions.any fun x ↦ decide (x.proposalId = proposal.id) := by
    unfold executionsOf
    rw [Bool.eq_iff_iff, List.head?_filter, List.find?_isSome, List.any_eq_true]
  rw [hsame]

theorem executionsOf_ne_nil {proposal : Db.Proposal} :
    executionsOf db proposal ≠ [] ↔
      (db.proposalExecutions.any fun x ↦ decide (x.proposalId = proposal.id)) = true := by
  unfold executionsOf
  rw [ne_eq, List.filter_eq_nil_iff, List.any_eq_true]
  push Not
  rfl

theorem proposalStatus_executed {proposal : Db.Proposal} :
    proposalStatus db proposal latestSlot = .executed ↔ executionsOf db proposal ≠ [] := by
  rw [executionsOf_ne_nil]
  unfold proposalStatus deriveStatus
  split
  · next h => exact iff_of_true rfl h
  · next h =>
      refine iff_of_false ?_ h
      split_ifs <;> exact nofun

/-- What the scan derives is the status. -/
theorem deriveStatus_candidate (hkeys : db.Keys) {candidates : List Db.Proposal}
    {candidate : Db.Proposal} (hmem : candidate ∈ candidates)
    (hcontract : candidate.contractId = contractId) :
    deriveStatus candidate (0 < ((executionsOf db candidate).take 1).length) latestSlot
        (deriveInvalidReason candidate (toContractState (db.getLatestConfig contractId))
          (childStateOf (buildChildStateMap db candidates) candidate)) =
      proposalStatus db candidate latestSlot := by
  have hflag : decide (0 < ((executionsOf db candidate).take 1).length) =
      db.proposalExecutions.any fun x ↦ decide (x.proposalId = candidate.id) := by
    rw [Bool.eq_iff_iff, ← executionsOf_ne_nil, decide_eq_true_iff, List.length_take,
      ← List.length_pos_iff]
    omega
  rw [hflag, deriveInvalidReason_congr (childStateOf_buildChildStateMap hkeys hmem), ← hcontract]
  rfl

/-- A page of ids is a page of the list of the status. -/
theorem selectProposalIdsByDerivedStatus_eq (hkeys : db.Keys) {status : ProposalStatus}
    (hstatus : status ≠ .executed) {limit : ℕ} (hlimit : 0 < limit) (offset : ℕ) :
    selectProposalIdsByDerivedStatus db createdAt latestSlot contractId status
        (toContractState (db.getLatestConfig contractId)) limit offset =
      (page (statusList db createdAt latestSlot contractId status) limit offset).map
        Db.Proposal.id := by
  unfold selectProposalIdsByDerivedStatus
  dsimp only
  rw [selectMatching_eq _ (by rw [List.length_nil]; omega), List.nil_append, List.drop_take,
    Nat.add_sub_cancel_left, map_page]
  unfold page statusList
  rw [if_neg hstatus]
  congr 3
  apply List.filter_congr
  intro p hp
  have hcontract := (mem_proposalsOf.mp (newestProposals_sublist.subset hp)).2
  exact congrArg (fun s ↦ decide (s = status)) (deriveStatus_candidate hkeys hp hcontract)

theorem needsInMemoryStatusFilter_text {status : ProposalStatus} (hstatus : status ≠ .executed) :
    needsInMemoryStatusFilter (some status.text) = some status := by
  cases status with
  | executed => exact absurd rfl hstatus
  | expired => decide
  | invalidated => decide
  | pending => decide

/-- The rows of a page of the list of a status. -/
theorem proposalPage_eq (hkeys : db.Keys) (status : ProposalStatus) {limit : ℕ}
    (hlimit : 0 < limit) (offset : ℕ) :
    proposalPage db createdAt latestSlot contractId
        (toContractState (db.getLatestConfig contractId)) (some status.text) limit offset =
      page (statusList db createdAt latestSlot contractId status) limit offset := by
  unfold proposalPage
  by_cases hstatus : status = .executed
  · subst hstatus
    have hnone : needsInMemoryStatusFilter (some ProposalStatus.executed.text) = none := by decide
    rw [hnone]
    dsimp only
    unfold page statusList
    rw [if_pos rfl]
    have hfilter : (fun p : Db.Proposal ↦ decide (p.contractId = contractId ∧
        buildProposalStatusWhere db (some ProposalStatus.executed.text) p = true)) =
        fun p ↦ decide (p.contractId = contractId) &&
          decide (proposalStatus db p latestSlot = .executed) := by
      funext p
      rw [Bool.decide_and]
      congr 1
      rw [decide_eq_decide, proposalStatus_executed]
      unfold buildProposalStatusWhere
      rw [decide_eq_true_iff]
      exact ⟨fun h ↦ h rfl, fun h _ ↦ h⟩
    rw [hfilter, findProposals_and hkeys]
    rfl
  · rw [needsInMemoryStatusFilter_text hstatus]
    dsimp only
    rw [selectProposalIdsByDerivedStatus_eq hkeys hstatus hlimit]
    exact findProposals_ids hkeys ((page_sublist _ _ _).trans (statusList_sublist status))

theorem mem_proposalPage (hkeys : db.Keys) {status : Option String} {limit offset : ℕ}
    (hlimit : 0 < limit) {p : Db.Proposal}
    (h : p ∈ proposalPage db createdAt latestSlot contractId
      (toContractState (db.getLatestConfig contractId)) status limit offset) :
    p ∈ db.proposals ∧ p.contractId = contractId := by
  cases hderived : needsInMemoryStatusFilter status with
  | some derived =>
      have hstatus : status = some derived.text := by
        unfold needsInMemoryStatusFilter at hderived
        split_ifs at hderived with hpending hexpired hinvalidated
        · rw [hpending, ← Option.some.inj hderived]
          rfl
        · rw [hexpired, ← Option.some.inj hderived]
          rfl
        · rw [hinvalidated, ← Option.some.inj hderived]
          rfl
      rw [hstatus, proposalPage_eq hkeys derived hlimit] at h
      exact mem_proposalsOf.mp ((statusList_sublist derived).subset ((page_sublist _ _ _).subset h))
  | none =>
      unfold proposalPage at h
      rw [hderived] at h
      obtain ⟨hmem, hfilter⟩ :=
        mem_findProposals.mp (List.mem_of_mem_drop (List.mem_of_mem_take h))
      exact ⟨hmem, (of_decide_eq_true hfilter).1⟩

theorem findProposal_eq (hkeys : db.Keys) {p : Db.Proposal} (hp : p ∈ db.proposals) :
    db.findProposal p.contractId p.proposalHash = some p := by
  have hself : (db.proposals.find? fun q ↦ decide (q.contractId = p.contractId ∧
      q.proposalHash = p.proposalHash)).isSome = true :=
    List.find?_isSome.mpr ⟨p, hp, decide_eq_true ⟨rfl, rfl⟩⟩
  obtain ⟨q, hq⟩ := Option.isSome_iff_exists.mp hself
  obtain ⟨howner, hhash⟩ : q.contractId = p.contractId ∧ q.proposalHash = p.proposalHash := by
    simpa using List.find?_some hq
  obtain rfl : q = p := List.inj_on_of_nodup_map hkeys.hashes (List.mem_of_find?_eq_some hq) hp
    (Prod.ext howner hhash)
  exact hq

theorem serializeProposalRecord_ok {E : Env} {proposal : ProposalWithDerived}
    {parent child : Option ContractState} {record : SerializedProposalRecord}
    (h : serializeProposalRecord E proposal latestSlot parent child = .ok record) :
    record.proposalHash = proposal.proposalHash ∧
      record.status = deriveStatus proposal.toProposal proposal.executions.head?.isSome latestSlot
        (deriveInvalidReason proposal.toProposal parent child) := by
  obtain ⟨amount, -, h⟩ := Check.bind_ok.mp h
  obtain rfl := Except.ok.inj h
  exact ⟨rfl, rfl⟩

/-- How the list serializes a row of its page. -/
theorem listed (hkeys : db.Keys) {E : Env} {proposals : List Db.Proposal} {p : Db.Proposal}
    (hp : p ∈ proposals) (hcontract : p.contractId = contractId)
    {record : SerializedProposalRecord}
    (h : serializeProposalRecord E (includeDerived db p) latestSlot
      (toContractState (db.getLatestConfig contractId))
      (childStateOf (buildChildStateMap db proposals) p) = .ok record) :
    serializeProposalRecord E (includeDerived db p) latestSlot
        (toContractState (db.getLatestConfig contractId)) (proposalChildState db p) = .ok record ∧
      record.proposalHash = p.proposalHash ∧ record.status = proposalStatus db p latestSlot := by
  have hchild : targetsChild (includeDerived db p).toProposal = true →
      childStateOf (buildChildStateMap db proposals) p = proposalChildState db p :=
    childStateOf_buildChildStateMap hkeys hp
  rw [serializeProposalRecord_congr hchild] at h
  obtain ⟨hhash, hstatus⟩ := serializeProposalRecord_ok h
  refine ⟨h, hhash, hstatus.trans ?_⟩
  subst hcontract
  exact deriveStatus_executionsOf

end Lists

/-- A record of the list is the answer for its proposal, and has its status. -/
theorem getProposal_of_listProposals (hkeys : db.Keys) {E : Env} {createdAt : ℕ → ℕ}
    {latestSlot : ℕ} {address : String} {status : Option String} {limit offset : ℕ}
    (hlimit : 0 < limit) {records : List SerializedProposalRecord}
    (h : listProposals db createdAt latestSlot E address status limit offset =
      .ok (.json records)) {record : SerializedProposalRecord} (hrecord : record ∈ records) :
    getProposal db latestSlot E address record.proposalHash = .ok (.json record) := by
  unfold listProposals at h
  unfold getProposal
  cases hcontract : findReadyContract db address with
  | none =>
      rw [hcontract] at h
      cases h
  | some contract =>
      rw [hcontract] at h
      dsimp only at h ⊢
      obtain ⟨serialized, hserialized, h⟩ := Check.bind_ok.mp h
      obtain rfl : serialized.filter _ = records := RouteAnswer.json.inj (Except.ok.inj h)
      obtain ⟨p, hp, hrow⟩ := Check.exists_of_mapM hserialized
        (List.mem_of_mem_filter hrecord)
      obtain ⟨hmem, howner⟩ := mem_proposalPage hkeys hlimit hp
      obtain ⟨hsingle, hhash, -⟩ := listed hkeys hp howner hrow
      have hfound := findProposal_eq hkeys hmem
      rw [howner, ← hhash] at hfound
      rw [hfound]
      dsimp only
      rw [hsingle]
      rfl

/-- The list of a status leaves out none of the rows of its page. -/
theorem listProposals_hashes (hkeys : db.Keys) {E : Env} {createdAt : ℕ → ℕ}
    {latestSlot : ℕ} {address : String} {contract : Db.Contract}
    (hcontract : findReadyContract db address = some contract) (status : ProposalStatus)
    {limit offset : ℕ} (hlimit : 0 < limit) {records : List SerializedProposalRecord}
    (h : listProposals db createdAt latestSlot E address (some status.text) limit offset =
      .ok (.json records)) :
    records.map SerializedProposalRecord.proposalHash =
      (proposalPage db createdAt latestSlot contract.id
        (toContractState (db.getLatestConfig contract.id)) (some status.text) limit offset).map
          Db.Proposal.proposalHash := by
  rw [proposalPage_eq hkeys status hlimit]
  unfold listProposals at h
  rw [hcontract] at h
  dsimp only at h
  obtain ⟨serialized, hserialized, h⟩ := Check.bind_ok.mp h
  obtain rfl : serialized.filter _ = records := RouteAnswer.json.inj (Except.ok.inj h)
  rw [proposalPage_eq hkeys status hlimit] at hserialized
  have hrow {p : Db.Proposal} {record : SerializedProposalRecord}
      (hp : p ∈ page (statusList db createdAt latestSlot contract.id status) limit offset)
      (hok : serializeProposalRecord E (includeDerived db p) latestSlot
        (toContractState (db.getLatestConfig contract.id)) (childStateOf (buildChildStateMap db
          (page (statusList db createdAt latestSlot contract.id status) limit offset)) p) =
        .ok record) : record.proposalHash = p.proposalHash ∧ record.status = status := by
    have hlist := (page_sublist _ _ _).subset hp
    have howner := (mem_proposalsOf.mp ((statusList_sublist status).subset hlist)).2
    obtain ⟨-, hhash, hstatus⟩ := listed hkeys hp howner hok
    exact ⟨hhash, hstatus.trans (of_decide_eq_true (List.mem_filter.mp hlist).2)⟩
  have hall : serialized.filter (fun s ↦ (some status.text).all fun text ↦
      decide (s.status.text = text)) = serialized := by
    rw [List.filter_eq_self]
    intro record hrecord
    obtain ⟨p, hp, hok⟩ := Check.exists_of_mapM hserialized hrecord
    rw [(hrow hp hok).2]
    exact decide_eq_true rfl
  rw [hall]
  exact Check.map_eq_of_mapM hserialized fun p hp record hok ↦ (hrow hp hok).1

end MinaGuard
