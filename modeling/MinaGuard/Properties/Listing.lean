import MinaGuard.Indexer.ProposalRoutesSpec
import MinaGuard.Instance.Keys

/-!
# Lists by status

The pages of a derived status are the proposals of the window with that status.
Every proposal of the window is in exactly one of the four lists, and a list
serializes it as the route for a single proposal does.
-/

namespace MinaGuard

open Foundations

variable {db : Database} {createdAt : ℕ → ℕ} {latestSlot contractId limit : ℕ}

/-- The newest proposals of a contract: sorted, each once, none older than one left out. -/
structure AreNewest (db : Database) (createdAt : ℕ → ℕ) (contractId : ℕ)
    (newest : List Db.Proposal) : Prop where
  nodup : newest.Nodup
  newestFirst : newest.Pairwise fun a b ↦ proposalsNewestFirst createdAt a b = true
  mem : ∀ p ∈ newest, p ∈ db.proposals ∧ p.contractId = contractId
  short : newest.length ≤ derivedStatusScanLimit
  leftOut : ∀ p ∈ db.proposals, p.contractId = contractId → p ∉ newest →
    newest.length = derivedStatusScanLimit ∧
      ∀ q ∈ newest, proposalsNewestFirst createdAt q p = true

theorem newestProposals_areNewest (hkeys : db.Keys) :
    AreNewest db createdAt contractId (newestProposals db createdAt contractId) where
  nodup := (nodup_findProposals hkeys).sublist newestProposals_sublist
  newestFirst := pairwise_findProposals.sublist newestProposals_sublist
  mem := fun _ hp ↦ mem_proposalsOf.mp (newestProposals_sublist.subset hp)
  short := List.length_take_le _ _
  leftOut := by
    intro p hp hcontract hnot
    have hall : p ∈ proposalsOf db createdAt contractId := mem_proposalsOf.mpr ⟨hp, hcontract⟩
    have hsorted : (proposalsOf db createdAt contractId).Pairwise fun a b ↦
        proposalsNewestFirst createdAt a b = true := pairwise_findProposals
    rw [← List.take_append_drop derivedStatusScanLimit (proposalsOf db createdAt contractId)]
      at hall hsorted
    have hlater := (List.mem_append.mp hall).resolve_left hnot
    refine ⟨?_, fun q hq ↦ (List.pairwise_append.mp hsorted).2.2 q hq p hlater⟩
    have hlength := List.length_pos_of_mem hlater
    unfold newestProposals
    rw [List.length_drop] at hlength
    rw [List.length_take]
    omega

/-- What the pages of the four statuses list. -/
structure ListsByStatus (db : Database) (createdAt : ℕ → ℕ) (latestSlot contractId limit : ℕ)
    (newest : List Db.Proposal) : Prop where
  /-- Pages of ids, one after the other. -/
  pages : ∀ status : ProposalStatus, status ≠ .executed → ∀ n,
    ((List.range n).flatMap fun i ↦
      selectProposalIdsByDerivedStatus db createdAt latestSlot contractId status
        (toContractState (db.getLatestConfig contractId)) limit (i * limit)) =
      ((newest.filter fun p ↦ proposalStatus db p latestSlot = status).map Db.Proposal.id).take
        (n * limit)
  /-- A proposal of the window is on the pages of one status. -/
  unique : ∀ p ∈ newest, ∃! status : ProposalStatus, ∃ i,
    p ∈ proposalPage db createdAt latestSlot contractId
      (toContractState (db.getLatestConfig contractId)) (some status.text) limit (i * limit)
  /-- The pages list the window, and with it the older executed proposals. -/
  mem : ∀ (status : ProposalStatus) (p : Db.Proposal),
    (∃ i, p ∈ proposalPage db createdAt latestSlot contractId
      (toContractState (db.getLatestConfig contractId)) (some status.text) limit (i * limit)) ↔
      proposalStatus db p latestSlot = status ∧
        (p ∈ newest ∨ status = .executed ∧ p ∈ db.proposals ∧ p.contractId = contractId)

theorem mem_pages (hkeys : db.Keys) (hlimit : 0 < limit) (status : ProposalStatus)
    (p : Db.Proposal) :
    (∃ i, p ∈ proposalPage db createdAt latestSlot contractId
      (toContractState (db.getLatestConfig contractId)) (some status.text) limit (i * limit)) ↔
      proposalStatus db p latestSlot = status ∧
        (p ∈ newestProposals db createdAt contractId ∨
          status = .executed ∧ p ∈ db.proposals ∧ p.contractId = contractId) := by
  have hpage (i : ℕ) := @proposalPage_eq db createdAt latestSlot contractId hkeys status limit
    hlimit (i * limit)
  simp only [hpage]
  rw [exists_mem_page hlimit]
  unfold statusList
  rw [List.mem_filter, decide_eq_true_iff, and_comm]
  refine and_congr_right fun _ ↦ ?_
  by_cases hstatus : status = .executed
  · rw [if_pos hstatus, mem_proposalsOf]
    constructor
    · exact fun h ↦ Or.inr ⟨hstatus, h⟩
    · rintro (h | ⟨-, h⟩)
      · exact mem_proposalsOf.mp (newestProposals_sublist.subset h)
      · exact h
  · rw [if_neg hstatus]
    exact ⟨Or.inl, fun h ↦ h.resolve_right fun hexecuted ↦ hstatus hexecuted.1⟩

theorem listsByStatus (hkeys : db.Keys) (hlimit : 0 < limit) :
    ListsByStatus db createdAt latestSlot contractId limit
      (newestProposals db createdAt contractId) where
  pages := by
    intro status hstatus n
    have hpage (i : ℕ) := @selectProposalIdsByDerivedStatus_eq db createdAt latestSlot contractId
      hkeys status hstatus limit hlimit (i * limit)
    simp only [hpage, map_page]
    rw [flatMap_page]
    unfold statusList
    rw [if_neg hstatus]
  unique := by
    intro p hp
    refine ⟨proposalStatus db p latestSlot, (mem_pages hkeys hlimit _ p).mpr ⟨rfl, Or.inl hp⟩, ?_⟩
    intro status hstatus
    exact ((mem_pages hkeys hlimit status p).mp hstatus).1.symm
  mem := mem_pages hkeys hlimit

/-- The pages of a derived status are the proposals of the window with that status,
newest first.  A proposal of the window is in one of the four lists, in which every
executed proposal is.  The list and the route for one proposal give the same record, and the
answer for a status has all of its page. -/
theorem derived_status_listing (hkeys : db.Keys) (createdAt : ℕ → ℕ) (latestSlot : ℕ) {limit : ℕ}
    (hlimit : 0 < limit) :
    (∀ contractId, ∃ newest, AreNewest db createdAt contractId newest ∧
      ListsByStatus db createdAt latestSlot contractId limit newest) ∧
    ∀ (E : Env) (address : String) (status : Option String) (offset : ℕ)
      (records : List SerializedProposalRecord),
      listProposals db createdAt latestSlot E address status limit offset = .ok (.json records) →
      (∀ record ∈ records,
        getProposal db latestSlot E address record.proposalHash = .ok (.json record)) ∧
      ∀ (derived : ProposalStatus) (contract : Db.Contract), status = some derived.text →
        findReadyContract db address = some contract →
        records.map SerializedProposalRecord.proposalHash =
          (proposalPage db createdAt latestSlot contract.id
            (toContractState (db.getLatestConfig contract.id)) status limit offset).map
              Db.Proposal.proposalHash := by
  refine ⟨fun contractId ↦ ?_, ?_⟩
  · exact ⟨_, newestProposals_areNewest hkeys, listsByStatus hkeys hlimit⟩
  · intro E address status offset records h
    refine ⟨fun record hrecord ↦ getProposal_of_listProposals hkeys hlimit h hrecord, ?_⟩
    rintro derived contract rfl hcontract
    exact listProposals_hashes hkeys hcontract derived hlimit h

namespace Walkthrough

def executedProposal (n : ℕ) : Db.Proposal where
  id := n + 1
  contractId := 1
  proposalHash := decimal n
  proposer := some (keyText ownerA)
  toAddress := none
  tokenId := some "0"
  txType := some "3"
  data := some "0"
  memoHash := none
  memo := none
  nonce := some (decimal (n + 1))
  configNonce := some "0"
  expirySlot := some "0"
  guardAddress := some (keyText root)
  destination := some "local"
  childAccount := none
  executionMemoHash := none
  lastApproveTxHash := none
  lastApproveError := none
  lastExecuteTxHash := none
  lastExecuteError := none
  createdAtBlock := n

/-- A guard with one executed proposal in each of the first blocks. -/
def crowded (blocks : ℕ) : Database where
  contracts := [⟨1, keyText root, none, true, true, some 0, true⟩]
  proposals := (List.range blocks).map executedProposal
  proposalExecutions := (List.range blocks).map fun n ↦ ⟨n + 1, n, none, 0⟩
  nextContractId := 2
  nextProposalId := blocks + 1

section

variable {blocks : ℕ}

theorem crowded_keys : (crowded blocks).Keys where
  contracts := List.nodup_singleton _
  proposals := by
    unfold crowded
    rw [List.map_map]
    exact List.nodup_range.map fun a b h ↦ Nat.succ_injective h
  hashes := by
    unfold crowded
    rw [List.map_map]
    exact List.nodup_range.map fun a b h ↦ decimal_injective (Prod.mk.inj h).2

theorem mem_crowded {p : Db.Proposal} :
    p ∈ (crowded blocks).proposals ↔ ∃ n < blocks, executedProposal n = p := by
  unfold crowded
  simp only [List.mem_map, List.mem_range]

theorem executed_of_mem_crowded {p : Db.Proposal} (hp : p ∈ (crowded blocks).proposals)
    (latestSlot : ℕ) : proposalStatus (crowded blocks) p latestSlot = .executed := by
  obtain ⟨n, hn, rfl⟩ := mem_crowded.mp hp
  have hexecution : (⟨n + 1, n, none, 0⟩ : Db.ProposalExecution) ∈
      executionsOf (crowded blocks) (executedProposal n) :=
    List.mem_filter.mpr
      ⟨List.mem_map.mpr ⟨n, List.mem_range.mpr hn, rfl⟩, decide_eq_true rfl⟩
  exact proposalStatus_executed.mpr (List.ne_nil_of_mem hexecution)

theorem oldest_not_newest (hmany : derivedStatusScanLimit < blocks) {newest : List Db.Proposal}
    (hnewest : AreNewest (crowded blocks) (fun _ ↦ 0) 1 newest) :
    executedProposal 0 ∉ newest := by
  intro holdest
  obtain ⟨p, hp, hnot⟩ : ∃ p ∈ (crowded blocks).proposals, p ∉ newest := by
    by_contra hall
    push Not at hall
    have hlength := (crowded_keys.proposals.of_map.subperm hall).length_le
    unfold crowded at hlength
    rw [List.length_map, List.length_range] at hlength
    exact absurd (hlength.trans hnewest.short) (not_le.mpr hmany)
  obtain ⟨n, -, rfl⟩ := mem_crowded.mp hp
  have horder := (hnewest.leftOut _ hp rfl hnot).2 _ holdest
  have hzero : n = 0 := by
    rw [proposalsNewestFirst_iff] at horder
    change n < 0 ∨ n = 0 ∧ _ at horder
    omega
  exact hnot (hzero ▸ holdest)

end

/-- The oldest of 1001 executed proposals is listed, although the window does not hold it. -/
theorem old_executed_is_listed :
    (∃ i, executedProposal 0 ∈ proposalPage (crowded 1001) (fun _ ↦ 0) 0 1
      (toContractState ((crowded 1001).getLatestConfig 1)) (some "executed") 200 (i * 200)) ∧
    ∀ newest, AreNewest (crowded 1001) (fun _ ↦ 0) 1 newest → executedProposal 0 ∉ newest := by
  have hzero : executedProposal 0 ∈ (crowded 1001).proposals :=
    mem_crowded.mpr ⟨0, by decide, rfl⟩
  refine ⟨?_, fun newest hnewest ↦ oldest_not_newest (by decide) hnewest⟩
  exact (mem_pages crowded_keys (by decide) .executed _).mpr
    ⟨executed_of_mem_crowded hzero 0, Or.inr ⟨rfl, hzero, rfl⟩⟩

/-- The lists of a guard with three executed proposals, in pages of two. -/
theorem crowded_listing :
    (∃ newest, AreNewest (crowded 3) (fun _ ↦ 0) 1 newest ∧
      ListsByStatus (crowded 3) (fun _ ↦ 0) 0 1 2 newest) ∧
    ∀ records, listProposals (crowded 3) (fun _ ↦ 0) 0 tables.env (keyText root)
        (some "executed") 2 0 = .ok (.json records) →
      (∀ record ∈ records,
        getProposal (crowded 3) 0 tables.env (keyText root) record.proposalHash =
          .ok (.json record)) ∧
      records.map SerializedProposalRecord.proposalHash =
        (proposalPage (crowded 3) (fun _ ↦ 0) 0 1
          (toContractState ((crowded 3).getLatestConfig 1)) (some "executed") 2 0).map
            Db.Proposal.proposalHash := by
  have hlisting := derived_status_listing (@crowded_keys 3) (fun _ ↦ 0) 0 (by decide : 0 < 2)
  refine ⟨hlisting.1 1, fun records h ↦ ?_⟩
  obtain ⟨hsingle, hall⟩ := hlisting.2 tables.env (keyText root) (some "executed") 0 records h
  exact ⟨hsingle, hall .executed _ rfl rfl⟩

end Walkthrough

end MinaGuard
