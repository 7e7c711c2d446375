import MinaGuard.Properties.Governance
import Mathlib.Data.Set.Card

/-!
# The approval map and the nullifier map

Two maps with prover-chosen witnesses move in lockstep: a pending leaf is one
more than the number of keys whose nullifier is set, and it stays far below
the marker of an executed proposal.
-/

namespace MinaGuard

open Foundations

variable {E : Env} {T : Transcript E} {guards : Set PublicKey}
  {as bs : List (Action E)} {L L' : Ledger} {a : PublicKey}

/-- `map` is the map behind a root.  Within a transcript there is at most one. -/
structure CommitsMap (T : Transcript E) (root : Fp) (map : Fp → Fp) : Prop where
  mem : map ∈ T.maps
  root : E.merkleMap.getRoot map = root

theorem CommitsMap.unique {root : Fp} {map map' : Fp → Fp} (h : CommitsMap T root map)
    (h' : CommitsMap T root map') : map = map' :=
  T.binding.getRoot_injOn h.mem h'.mem (h.root.trans h'.root.symm)

/-- The keys whose nullifier for the hash is set. -/
def nullifiedKeys (T : Transcript E) (nullifiers : Fp → Fp) (h : Fp) : Set PublicKey :=
  {k | Env.voteNullifierInput h k ∈ T.hashed ∧ nullifiers (E.voteNullifierKey h k) = 1}

namespace Vault.Invariant

variable {v : Vault} {this : PublicKey}

theorem nullifierMap_eq_one {κ : Fp} :
    v.nullifierMap E κ = 1 ↔
      ∃ x ∈ v.votes, E.voteNullifierKey (E.proposalHash x.1) x.2 = κ := by
  unfold nullifierMap
  split
  · exact iff_of_true rfl ‹_›
  · exact iff_of_false zero_ne_one ‹_›

/-- The nullifiers of a hash are those of its voters. -/
theorem nullifiedKeys_eq (h : v.Invariant T this) (hash : Fp) :
    nullifiedKeys T (v.nullifierMap E) hash = {k | k ∈ v.voters E hash} := by
  ext k
  simp only [nullifiedKeys, Set.mem_ofPred_eq, nullifierMap_eq_one]
  constructor
  · rintro ⟨hk, ⟨p, k'⟩, hmem, hkey⟩
    obtain ⟨hhash, rfl⟩ := T.voteNullifierKey_inj (h.votes _ hmem).nullifier hk hkey
    exact mem_voters.mpr ⟨p, hmem, hhash⟩
  · intro hk
    obtain ⟨p, hmem, rfl⟩ := mem_voters.mp hk
    exact ⟨(h.votes _ hmem).nullifier, (p, k), hmem, rfl⟩

theorem ncard_nullifiedKeys (h : v.Invariant T this) (hash : Fp) :
    (nullifiedKeys T (v.nullifierMap E) hash).ncard = (v.voters E hash).length := by
  have hset : {k | k ∈ v.voters E hash} = ((v.voters E hash).toFinset : Set PublicKey) := by
    ext k
    simp
  rw [h.nullifiedKeys_eq, hset, Set.ncard_coe_finset,
    List.toFinset_card_of_nodup (h.voters_nodup hash)]

/-- An executed proposal had voters. -/
theorem voters_ne_nil_of_executed (h : v.Invariant T this) {hash : Fp}
    (hmem : hash ∈ v.executed.map E.proposalHash) : v.voters E hash ≠ [] := by
  obtain ⟨p, hp, rfl⟩ := List.mem_map.mp hmem
  obtain ⟨k, hk⟩ := h.executed_voted p hp
  exact List.ne_nil_of_mem (mem_voters.mpr ⟨p, hk, rfl⟩)

theorem approvalMap_eq_zero_iff (h : v.Invariant T this) (hash : Fp) :
    v.approvalMap E hash = 0 ↔ v.voters E hash = [] := by
  constructor
  · intro hzero
    exact (approvalMap_eq_zero (h.voters_le hash) hzero).2
  · intro hnil
    have hpending : hash ∉ v.executed.map E.proposalHash := fun hmem ↦
      h.voters_ne_nil_of_executed hmem hnil
    unfold approvalMap
    rw [if_neg hpending, if_pos hnil]

/-- A pending leaf counts the nullifiers. -/
theorem approvalMap_eq_count_iff (h : v.Invariant T this) {hash : Fp}
    (hpending : hash ∉ v.executed.map E.proposalHash) (hvoters : v.voters E hash ≠ []) :
    v.approvalMap E hash = proposedMarker +
      ((nullifiedKeys T (v.nullifierMap E) hash).ncard : Fp) := by
  rw [h.ncard_nullifiedKeys]
  unfold approvalMap
  rw [if_neg hpending, if_neg hvoters]

end Vault.Invariant

namespace Run

/-- A guard whose approval root commits to a map is active, and the map is the
approval map of its vault. -/
theorem approvals_eq (run : (ledgerSystem T guards).Run as L) (ha : a ∈ guards)
    {approvals : Fp → Fp} (h : CommitsMap T (L.state a).approvalRoot approvals) :
    ∃ v, replay a as = .active v ∧ L.state a = v.encode E ∧ v.Invariant T a ∧
      approvals = v.approvalMap E := by
  obtain ⟨hstate, hsound⟩ := refines run ha
  generalize replay a as = ph at hstate hsound
  rw [hstate] at h
  cases hsound with
  | vacant => exact absurd h.root (T.getRoot_ne_zero _ h.mem)
  | reserved => exact absurd h.root (T.getRoot_ne_zero _ h.mem)
  | active hv => exact ⟨_, rfl, hstate, hv, h.unique ⟨hv.approvals_mem, rfl⟩⟩

end Run

/-- The coupling of the two maps in one state. -/
structure Coupled (T : Transcript E) (approvals nullifiers : Fp → Fp) : Prop where
  leaf : ∀ h, approvals h = 0 ∨ approvals h = executedMarker ∨
    approvals h = proposedMarker + ((nullifiedKeys T nullifiers h).ncard : Fp)
  leaf_eq_zero : ∀ h, approvals h = 0 ↔ nullifiedKeys T nullifiers h = ∅
  nullifier : ∀ κ, nullifiers κ = 0 ∨ nullifiers κ = 1
  few : ∀ h, (nullifiedKeys T nullifiers h).ncard ≤ maxOwners
  count_ne : ∀ h,
    proposedMarker + ((nullifiedKeys T nullifiers h).ncard : Fp) ≠ executedMarker

theorem Vault.Invariant.coupled {v : Vault} {this : PublicKey} (h : v.Invariant T this) :
    Coupled T (v.approvalMap E) (v.nullifierMap E) := by
  have hfew : ∀ hash, (nullifiedKeys T (v.nullifierMap E) hash).ncard ≤ maxOwners := by
    intro hash
    rw [h.ncard_nullifiedKeys]
    exact h.voters_le hash
  refine
    { leaf := ?_
      leaf_eq_zero := ?_
      nullifier := ?_
      few := hfew
      count_ne := ?_ }
  · intro hash
    by_cases hexecuted : hash ∈ v.executed.map E.proposalHash
    · exact Or.inr (Or.inl ((approvalMap_eq_executedMarker (h.voters_le hash)).mpr hexecuted))
    · by_cases hvoters : v.voters E hash = []
      · exact Or.inl ((h.approvalMap_eq_zero_iff hash).mpr hvoters)
      · exact Or.inr (Or.inr (h.approvalMap_eq_count_iff hexecuted hvoters))
  · intro hash
    rw [h.approvalMap_eq_zero_iff, h.nullifiedKeys_eq]
    constructor
    · intro hnil
      rw [hnil]
      ext k
      simp
    · intro hempty
      apply List.eq_nil_iff_forall_not_mem.mpr
      intro k hk
      have hmem : k ∈ {k | k ∈ v.voters E hash} := hk
      rw [hempty] at hmem
      exact hmem
  · intro κ
    unfold Vault.nullifierMap
    split
    · exact Or.inr rfl
    · exact Or.inl rfl
  · intro hash
    have hlt := small_lt_fieldOrder (hfew hash)
    rw [proposedMarker_add]
    exact (executedMarker_ne_natCast (by omega)).symm

/-- A call marks a leaf as executed only by executing that proposal. -/
theorem Vault.executed_next_of_mem (v : Vault) {m : MethodCall E} {h : Fp}
    (hold : h ∉ v.executed.map E.proposalHash)
    (hnew : h ∈ (v.next m).executed.map E.proposalHash) :
    ∃ p, m.localExecution? = some p ∧ E.proposalHash p = h := by
  have hlog := @Phase.executed_next E m (.active v) fun _ ↦ ⟨v, rfl⟩
  change (v.next m).executed = v.executed ++ m.localExecution?.toList at hlog
  rw [hlog, List.map_append, List.mem_append] at hnew
  obtain ⟨p, hp, rfl⟩ := List.mem_map.mp (hnew.resolve_left hold)
  exact ⟨p, Option.mem_toList.mp hp, rfl⟩

namespace Run

variable {approvals nullifiers approvals' nullifiers' : Fp → Fp} {h : Fp}

/-- Set nullifiers stay set. -/
theorem nullifier_stays (run : (ledgerSystem T guards).Run as L) (ha : a ∈ guards)
    (path : (ledgerSystem T guards).Path L bs L') {v : Vault} (hv : replay a as = .active v)
    (hroot : CommitsMap T (L'.state a).voteNullifierRoot nullifiers') {κ : Fp}
    (hκ : v.nullifierMap E κ = 1) : nullifiers' κ = 1 := by
  obtain ⟨w, -, hlater, hstate, hinvariant⟩ := later run ha path hv
  rw [hstate] at hroot
  obtain rfl := hroot.unique ⟨hinvariant.nullifiers_mem, rfl⟩
  obtain ⟨x, hx, hkey⟩ := Vault.Invariant.nullifierMap_eq_one.mp hκ
  apply Vault.Invariant.nullifierMap_eq_one.mpr
  exact ⟨x, hlater.votes.subset hx, hkey⟩

/-- The marked leaves of a guard are the proposals its vault has executed. -/
theorem marked_iff (run : (ledgerSystem T guards).Run as L) (ha : a ∈ guards) {v : Vault}
    (hv : replay a as = .active v) (hroot : CommitsMap T (L.state a).approvalRoot approvals) :
    approvals h = executedMarker ↔ h ∈ v.executed.map E.proposalHash := by
  obtain ⟨hstate, hinvariant⟩ := invariant run ha hv
  rw [hstate] at hroot
  obtain rfl := hroot.unique ⟨hinvariant.approvals_mem, rfl⟩
  exact Vault.approvalMap_eq_executedMarker (hinvariant.voters_le h)

theorem marked_stays (run : (ledgerSystem T guards).Run as L) (ha : a ∈ guards)
    (path : (ledgerSystem T guards).Path L bs L') {v : Vault} (hv : replay a as = .active v)
    (hroot : CommitsMap T (L'.state a).approvalRoot approvals')
    (hmarked : h ∈ v.executed.map E.proposalHash) : approvals' h = executedMarker := by
  obtain ⟨w, hw, hlater, -, -⟩ := later run ha path hv
  apply (marked_iff (run.extend path) ha hw hroot).mpr
  exact (hlater.executed.map E.proposalHash).subset hmarked

/-- A leaf that a step marks is that of a proposal the step executes. -/
theorem marked_by_execution (run : (ledgerSystem T guards).Run as L) (ha : a ∈ guards)
    {act : Action E} (step : (ledgerSystem T guards).step L act L') {v : Vault}
    (hv : replay a as = .active v)
    (hroot : CommitsMap T (L'.state a).approvalRoot approvals')
    (hbefore : h ∉ v.executed.map E.proposalHash) (hmarked : approvals' h = executedMarker) :
    ∃ m F p, act = .call a m F ∧ m.localExecution? = some p ∧ E.proposalHash p = h := by
  have path := TransitionSystem.path_singleton.mpr step
  obtain ⟨w, hw, -, -, -⟩ := later run ha path hv
  have hafter := (marked_iff (run.extend path) ha hw hroot).mp hmarked
  rcases replay_step a as act with hsame | ⟨m, F, rfl, hnext⟩
  · rw [hsame, hv] at hw
    cases hw
    exact absurd hafter hbefore
  · rw [hnext, hv] at hw
    cases hw
    obtain ⟨p, hm, hp⟩ := v.executed_next_of_mem hbefore hafter
    exact ⟨m, F, p, rfl, hm, hp⟩

end Run

/-- The approval leaves count the nullifiers, in every state.  Set nullifiers
and executed leaves stay; a leaf becomes executed only when the proposal is
executed. -/
theorem approval_nullifier_coupling (run : (ledgerSystem T guards).Run as L)
    (ha : a ∈ guards) :
    ((L.state a).ownersCommitment ≠ 0 → ∃ approvals nullifiers,
      CommitsMap T (L.state a).approvalRoot approvals ∧
        CommitsMap T (L.state a).voteNullifierRoot nullifiers) ∧
    ∀ approvals nullifiers, CommitsMap T (L.state a).approvalRoot approvals →
      CommitsMap T (L.state a).voteNullifierRoot nullifiers →
        Coupled T approvals nullifiers ∧
        (∀ bs L' approvals' nullifiers', (ledgerSystem T guards).Path L bs L' →
          CommitsMap T (L'.state a).approvalRoot approvals' →
          CommitsMap T (L'.state a).voteNullifierRoot nullifiers' →
            (∀ κ, nullifiers κ = 1 → nullifiers' κ = 1) ∧
            ∀ h, approvals h = executedMarker → approvals' h = executedMarker) ∧
        ∀ act L' approvals' h, (ledgerSystem T guards).step L act L' →
          CommitsMap T (L'.state a).approvalRoot approvals' →
          approvals h ≠ executedMarker → approvals' h = executedMarker →
            ∃ m F p, act = .call a m F ∧ m.localExecution? = some p ∧
              E.proposalHash p = h := by
  refine ⟨?_, ?_⟩
  · intro hinit
    obtain ⟨v, -, hstate, hv⟩ := Run.active run ha hinit
    rw [hstate]
    exact ⟨_, _, ⟨hv.approvals_mem, rfl⟩, ⟨hv.nullifiers_mem, rfl⟩⟩
  · intro approvals nullifiers happrovals hnullifiers
    obtain ⟨v, hv, hstate, hinvariant, hmap⟩ := Run.approvals_eq run ha happrovals
    have hmarked (h : Fp) := Run.marked_iff (h := h) run ha hv happrovals
    rw [hstate] at hnullifiers
    obtain rfl := hnullifiers.unique ⟨hinvariant.nullifiers_mem, rfl⟩
    refine ⟨?_, ?_, ?_⟩
    · rw [hmap]
      exact hinvariant.coupled
    · intro bs L' approvals' nullifiers' path happrovals' hnullifiers'
      refine ⟨?_, ?_⟩
      · intro κ hκ
        exact Run.nullifier_stays run ha path hv hnullifiers' hκ
      · intro h hexecuted
        exact Run.marked_stays run ha path hv happrovals' ((hmarked h).mp hexecuted)
    · intro act L' approvals' h step happrovals' hold hnew
      apply Run.marked_by_execution run ha step hv happrovals' _ hnew
      exact fun hmem ↦ hold ((hmarked h).mpr hmem)

theorem Walkthrough.child_coupled :
    ∃ approvals nullifiers,
      CommitsMap tables.transcript (rootOf [(16, 2)]) approvals ∧
        CommitsMap tables.transcript (rootOf [(17, 1)]) nullifiers ∧
          Coupled tables.transcript approvals nullifiers := by
  obtain ⟨hmaps, hcoupled⟩ :=
    approval_nullifier_coupling (a := child) run_disabled (by decide)
  obtain ⟨approvals, nullifiers, happrovals, hnullifiers⟩ := hmaps (by decide +kernel)
  exact ⟨approvals, nullifiers, happrovals, hnullifiers,
    (hcoupled approvals nullifiers happrovals hnullifiers).1⟩

end MinaGuard
