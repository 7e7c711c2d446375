import MinaGuard.Foundations.LastWords
import MinaGuard.Foundations.Pages
import MinaGuard.Indexer.Database

/-!
# The owner routes

`listOwners` and `listOwnersByContract` of `routes.ts`.  The membership rows of a
vault are a log, and each address counts with its latest row.  The hash column of a
row is always null and left out.
-/

namespace MinaGuard

open Foundations

/-- An owner as `collapseOwners` shapes it. -/
structure OwnerRecord where
  contractId : ℕ
  address : String
  index : Option ℕ
  active : Bool
  createdAt : ℕ
deriving DecidableEq

/-- The order of `LATEST_MEMBERSHIP_FIRST`, up to ids. -/
def membershipLe (a b : Db.OwnerMembership) : Bool :=
  b.validFromBlock < a.validFromBlock ∨
    b.validFromBlock = a.validFromBlock ∧ b.eventOrder ≤ a.eventOrder

/-- `LATEST_MEMBERSHIP_FIRST`, over rows in the order of their ids. -/
def latestMembershipFirst (rows : List Db.OwnerMembership) : List Db.OwnerMembership :=
  rows.reverse.mergeSort membershipLe

/-- The comparison of `collapseOwners`: index, then age. -/
def ownerLe (a b : OwnerRecord) : Bool :=
  let ai := a.index.getD maxSafeInteger
  let bi := b.index.getD maxSafeInteger
  if ai ≠ bi then ai ≤ bi else a.createdAt ≤ b.createdAt

section Routes

variable (createdAt : Db.OwnerMembership → ℕ)

def shapeOwner (m : Db.OwnerMembership) : OwnerRecord where
  contractId := m.contractId
  address := m.address
  index := m.index
  active := m.action = "added"
  createdAt := createdAt m

/-- The latest row per address of memberships sorted newest first. -/
def collapseOwners (memberships : List Db.OwnerMembership) (active : Option Bool) :
    List OwnerRecord :=
  let latestByAddress := InsertionMap.firstOf Db.OwnerMembership.address memberships
  let shaped := (latestByAddress.values.map (shapeOwner createdAt)).mergeSort ownerLe
  match active with
  | none => shaped
  | some active => shaped.filter fun o ↦ o.active = active

def listOwners (db : Database) (contractId : ℕ) (active : Option Bool) : List OwnerRecord :=
  collapseOwners createdAt
    (latestMembershipFirst (db.ownerMemberships.filter fun m ↦ m.contractId = contractId)) active

/-- `listOwners` for many contracts in one query. -/
def listOwnersByContract (db : Database) (contractIds : List ℕ) (active : Option Bool) :
    InsertionMap ℕ (List OwnerRecord) :=
  if contractIds = [] then []
  else
    let memberships := latestMembershipFirst
      (db.ownerMemberships.filter fun m ↦ m.contractId ∈ contractIds)
    (InsertionMap.groupBy Db.OwnerMembership.contractId memberships).map fun group ↦
      (group.1, collapseOwners createdAt group.2 active)

variable {createdAt} {rows : List Db.OwnerMembership} {db : Database} {contractId : ℕ}
  {contractIds : List ℕ}

theorem nodup_collapseOwners (active : Option Bool) :
    ((collapseOwners createdAt rows active).map OwnerRecord.address).Nodup := by
  have hshaped : ((((InsertionMap.firstOf Db.OwnerMembership.address rows).values.map
      (shapeOwner createdAt)).mergeSort ownerLe).map OwnerRecord.address).Nodup := by
    refine ((List.mergeSort_perm _ _).map _).nodup_iff.mpr ?_
    rw [List.map_map]
    change ((InsertionMap.firstOf Db.OwnerMembership.address rows).values.map
      Db.OwnerMembership.address).Nodup
    rw [← InsertionMap.keys_firstOf]
    exact InsertionMap.nodup_keys_firstOf _ rows
  unfold collapseOwners
  cases active with
  | none => exact hshaped
  | some active => exact hshaped.sublist (List.filter_sublist.map _)

theorem collapseOwners_nil {active : Option Bool} : collapseOwners createdAt [] active = [] := by
  have hsort : ([] : List OwnerRecord).mergeSort ownerLe = [] := List.mergeSort_nil
  cases active with
  | none => exact hsort
  | some active => exact congrArg (List.filter fun o ↦ o.active = active) hsort

/-- An address is listed if its newest row says so. -/
theorem mem_collapseOwners {active : Bool} {address : String} :
    address ∈ (collapseOwners createdAt rows (some active)).map OwnerRecord.address ↔
      ∃ m, rows.find? (fun m ↦ m.address = address) = some m ∧
        decide (m.action = "added") = active := by
  rw [← InsertionMap.get?_firstOf]
  simp only [collapseOwners, List.mem_map, List.mem_filter, List.mem_mergeSort,
    decide_eq_true_eq]
  constructor
  · rintro ⟨_, ⟨⟨m, hm, rfl⟩, rfl⟩, rfl⟩
    obtain ⟨entry, hentry, rfl⟩ := List.mem_map.mp hm
    have hkey := (InsertionMap.mem_firstOf _ hentry).2
    refine ⟨entry.2, InsertionMap.get?_of_mem (InsertionMap.nodup_keys_firstOf _ rows) ?_, rfl⟩
    change (entry.2.address, entry.2) ∈ _
    rwa [hkey]
  · rintro ⟨m, hm, rfl⟩
    have hentry := InsertionMap.mem_of_get? hm
    exact ⟨shapeOwner createdAt m, ⟨⟨m, List.mem_map.mpr ⟨_, hentry, rfl⟩, rfl⟩, rfl⟩,
      (InsertionMap.mem_firstOf _ hentry).2⟩

theorem membershipLe_trans (a b c : Db.OwnerMembership) (hab : membershipLe a b = true)
    (hbc : membershipLe b c = true) : membershipLe a c = true := by
  unfold membershipLe at *
  rw [decide_eq_true_iff] at *
  omega

theorem membershipLe_total (a b : Db.OwnerMembership) :
    (membershipLe a b || membershipLe b a) = true := by
  unfold membershipLe
  rw [Bool.or_eq_true, decide_eq_true_iff, decide_eq_true_iff]
  omega

/-- Rows that were written in order are in order already, newest last. -/
theorem latestMembershipFirst_of_pairwise
    (h : rows.Pairwise fun a b ↦ membershipLe b a = true) :
    latestMembershipFirst rows = rows.reverse :=
  List.mergeSort_of_pairwise (List.pairwise_reverse.mpr h)

/-- What a row says about its address. -/
def Db.OwnerMembership.word (m : Db.OwnerMembership) : String × Bool :=
  (m.address, decide (m.action = "added"))

theorem find?_reverse_eq_lastWord (rows : List Db.OwnerMembership) (address : String) :
    (rows.reverse.find? fun m ↦ m.address = address).map (fun m ↦ decide (m.action = "added")) =
      lastWord (rows.map Db.OwnerMembership.word) address := by
  induction rows using List.reverseRecOn with
  | nil => rfl
  | append_singleton rows m ih =>
      rw [List.reverse_append, List.reverse_singleton, List.singleton_append, List.map_append,
        List.map_singleton, lastWord_concat]
      by_cases hm : m.address = address
      · rw [List.find?_cons_of_pos (by simpa using hm)]
        exact (if_pos hm).symm
      · rw [List.find?_cons_of_neg (by simpa using hm), ih]
        exact (if_neg hm).symm

/-- The active owners are those of which the rows said last that they were added. -/
theorem mem_listOwners {address : String}
    (h : (db.ownerMemberships.filter fun m ↦ m.contractId = contractId).Pairwise
      fun a b ↦ membershipLe b a = true) :
    address ∈ (listOwners createdAt db contractId (some true)).map OwnerRecord.address ↔
      lastWord ((db.ownerMemberships.filter fun m ↦ m.contractId = contractId).map
        Db.OwnerMembership.word) address = some true := by
  unfold listOwners
  rw [mem_collapseOwners, latestMembershipFirst_of_pairwise h, ← find?_reverse_eq_lastWord,
    Option.map_eq_some_iff]

/-- The query for many contracts has the answer of the query for one. -/
theorem get?_listOwnersByContract (active : Option Bool) (hc : contractId ∈ contractIds) :
    ((listOwnersByContract createdAt db contractIds active).get? contractId).getD [] =
      listOwners createdAt db contractId active := by
  have hne : contractIds ≠ [] := List.ne_nil_of_mem hc
  have hget {groups : InsertionMap ℕ (List Db.OwnerMembership)} :
      (InsertionMap.get? (groups.map fun group ↦
        (group.1, collapseOwners createdAt group.2 active)) contractId).getD [] =
      collapseOwners createdAt ((groups.get? contractId).getD []) active := by
    induction groups with
    | nil => exact collapseOwners_nil.symm
    | cons group groups ih =>
        rw [List.map_cons, InsertionMap.get?_cons, InsertionMap.get?_cons]
        by_cases hk : group.1 = contractId
        · rw [if_pos hk, if_pos hk]
          rfl
        · rw [if_neg hk, if_neg hk]
          exact ih
  unfold listOwnersByContract listOwners latestMembershipFirst
  rw [if_neg hne, hget, InsertionMap.getD_groupBy,
    filter_mergeSort membershipLe_trans membershipLe_total, List.filter_reverse,
    List.filter_filter]
  congr 4
  funext m
  rw [← Bool.decide_and, decide_eq_decide]
  exact and_iff_left_of_imp fun hm ↦ hm ▸ hc

theorem listOwnersByContract_of_notMem (active : Option Bool) (hc : contractId ∉ contractIds) :
    (listOwnersByContract createdAt db contractIds active).get? contractId = none := by
  refine InsertionMap.get?_eq_none fun hmem ↦ hc ?_
  unfold listOwnersByContract at hmem
  split at hmem
  · exact absurd hmem List.not_mem_nil
  · rw [InsertionMap.keys, List.map_map] at hmem
    obtain ⟨m, hm, rfl⟩ := (InsertionMap.mem_keys_groupBy _).mp hmem
    exact of_decide_eq_true (List.mem_filter.mp
      (List.mem_reverse.mp ((List.mergeSort_perm _ _).subset hm))).2

end Routes

end MinaGuard
