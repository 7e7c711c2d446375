import MinaGuard.Contract.MethodSpec

/-!
# Provers who tell the truth

The converse of `MethodSpec`, for the calls an owner needs to keep a guard
going.  A prover who claims what the ledger says obtains a forest as soon as the
checks of the method hold, and the ledger includes it.
-/

namespace MinaGuard

open Foundations Circuit

/-- The prover for `a` who claims what the ledger says. -/
def Ledger.prover (L : Ledger) (a : PublicKey) : Prover where
  address := a
  state := L.state
  balance := UInt64.ofNat (L.account a).balance

namespace Forest

/-- What the guard's own update requires holds on the ledger. -/
structure Feasible (F : Forest) (L : Ledger) : Prop where
  own : ∀ v ∈ F.self.preconditions, v.Holds (L.state F.self.publicKey)
  slot_le : ∀ slot ∈ F.self.slotAtMost, L.slot ≤ slot
  balance_le : F.self.balanceAtLeast ≤ (L.account F.self.publicKey).balance
  debit_le : F.self.debit ≤ (L.account F.self.publicKey).balance
  unlocked : F.self.locksPermissions = false

/-- The ledger after the guard's own update. -/
def afterSelf (F : Forest) (L : Ledger) : Ledger :=
  L.setAccount F.self.publicKey (F.self.updated (L.account F.self.publicKey))

theorem exists_children {children : List ChildUpdate} {L : Ledger}
    (h : ∀ c ∈ children, ∀ v ∈ c.preconditions, v.Holds (L.state c.publicKey)) :
    ∃ L', children.foldlM ChildUpdate.apply L = some L' := by
  induction children generalizing L with
  | nil => exact ⟨L, rfl⟩
  | cons c children ih =>
      obtain ⟨hhead, htail⟩ := List.forall_mem_cons.mp h
      rw [← L.state_credit c.publicKey c.credit] at htail
      obtain ⟨L', hL'⟩ := ih htail
      refine ⟨L', ?_⟩
      rw [List.foldlM_cons]
      exact Option.bind_eq_some_iff.mpr ⟨_, if_pos hhead, hL'⟩

theorem exists_apply_of_satisfied {F : Forest} {L : Ledger} (hsat : F.self.Satisfied L)
    (hforeign : ∀ c ∈ F.children, ∀ v ∈ c.preconditions,
      v.Holds ((F.afterSelf L).state c.publicKey)) : ∃ L', F.apply L = some L' := by
  obtain ⟨L', hL'⟩ := exists_children hforeign
  exact ⟨L', Option.bind_eq_some_iff.mpr ⟨F.afterSelf L, if_pos hsat, hL'⟩⟩

/-- A feasible forest is included when the attached updates hold after the guard's
own writes. -/
theorem exists_apply {F : Forest} {L : Ledger} (h : F.Feasible L)
    (hforeign : ∀ c ∈ F.children, ∀ v ∈ c.preconditions,
      v.Holds ((F.afterSelf L).state c.publicKey)) : ∃ L', F.apply L = some L' := by
  refine exists_apply_of_satisfied ⟨h.own, h.slot_le, h.balance_le, h.debit_le, ?_⟩ hforeign
  intro hlock
  rw [h.unlocked] at hlock
  cases hlock

theorem state_afterSelf_of_ne (F : Forest) (L : Ledger) {a : PublicKey}
    (hne : a ≠ F.self.publicKey) : (F.afterSelf L).state a = L.state a :=
  L.state_setAccount_of_ne _ hne

theorem state_afterSelf_self (F : Forest) (L : Ledger) :
    (F.afterSelf L).state F.self.publicKey =
      F.self.appState.foldl StateValue.write (L.state F.self.publicKey) :=
  L.state_setAccount_self _ _

end Forest

/-- An honest prover obtains a forest for the call, and the ledger includes it. -/
def MethodCall.Succeeds {E : Env} (m : MethodCall E) (L : Ledger) (a : PublicKey) : Prop :=
  ∃ F L', m.prove (L.prover a) = .ok F ∧ F.apply L = some L'

variable {E : Env} {L : Ledger} {a : PublicKey} {p : TransactionProposal}

/-- A bare deployment: nothing set, and the permissions still open. -/
structure Ledger.Deployed (L : Ledger) (a : PublicKey) : Prop where
  state : L.state a = GuardState.zero
  unlocked : (L.account a).permissionsLocked = false

/-- A deployed account can be reserved for any initialized root. -/
theorem reserveForParent_succeeds (hdeployed : L.Deployed a) {parent : PublicKey}
    (hne : parent ≠ PublicKey.empty) (hcurve : E.onCurve parent = true)
    (hinit : (L.state parent).ownersCommitment ≠ 0)
    (hroot : (L.state parent).parent = PublicKey.empty) (hash : Fp) {t n : Fp}
    {o : SetupOwnersInput} (hvalid : assertValidInitialGovernance t n = .ok ())
    (hcoherent : assertCoherentSetupOwners E o n = .ok ()) :
    (MethodCall.reserveForParent parent hash t n o : MethodCall E).Succeeds L a := by
  have hself : parent ≠ a := by
    rintro rfl
    rw [hdeployed.state] at hinit
    exact hinit rfl
  unfold MethodCall.Succeeds
  simp only [MethodCall.prove_ok, MethodCall.circuit, reserveForParent, bind_ok, check_ok,
    lockPermissions_ok, requireEquals_ok, Check.assertTrue_ok, Check.assertFalse_ok,
    assertOnCurveIf_ok, thisAddress_ok, readGuard_ok, set_ok, StateField.ownersCommitment,
    StateField.parent, StateField.reservedConfigHash, emitEvent_ok, emitEvents_ok,
    exists_and_left, exists_eq_left', exists_const, and_assoc]
  refine ⟨hne, fun _ ↦ hcurve, hself, hinit, hroot, hvalid, hcoherent, ?_⟩
  refine Forest.exists_apply_of_satisfied ⟨?_, ?_, Nat.zero_le _, Nat.zero_le _, fun _ ↦
    hdeployed.unlocked⟩ ?_
  · have hstate := hdeployed.state
    simp [Forest.require, Forest.write, Forest.emit, Forest.attach, Forest.start, Ledger.prover,
      hstate, StateValue.Holds, GuardState.zero]
  · rintro slot ⟨⟩
  · intro c hc
    obtain rfl := List.mem_singleton.mp hc
    intro v hv
    change v.Holds ((Forest.afterSelf _ L).state parent)
    rw [Forest.state_afterSelf_of_ne _ L hself]
    change v ∈ reservingParentFields (L.state parent) at hv
    simp only [reservingParentFields, List.mem_cons, List.not_mem_nil, or_false] at hv
    rcases hv with rfl | rfl <;> rfl

/-- The rules of `propose` pass on every proposal that obeys them. -/
theorem assertProposalRules_of_rules {P : Prover} {F : Forest} (h : ProposalRules E p)
    (hthreshold : p.txType = TxType.changeThreshold →
      p.data.val ≤ (P.state P.address).numOwners.val) :
    assertProposalRules E p P F =
      .ok ((), (F.require (.threshold (P.state P.address).threshold)).require
        (.numOwners (P.state P.address).numOwners)) := by
  simp only [assertProposalRules, bind_ok, check_ok, Check.assertTrue_ok,
    Check.assertFalse_ok, Check.forM_ok, getGovernanceState_ok, assertReceiverRules_ok,
    exists_and_left, exists_eq_left', exists_const, and_assoc]
  have htarget := h.target
  have hone {b c : Prop} (hbc : b → c) : ¬b ∨ c := not_or_of_imp hbc
  have hlift {b c : Prop} (hbc : ¬b → c) : b ∨ c := or_iff_not_imp_left.mpr hbc
  refine ⟨htarget.imp (·.1) (·.1), htarget.imp (fun h ↦ ⟨h.1, h.2.1⟩) fun h ↦ ⟨h.1, h.2.1⟩,
    fun hempty ↦ h.slot0_owner hempty.1 hempty.2,
    fun hfull ↦ hfull.2 (h.slot0_empty (.inl hfull.1)),
    fun hfull ↦ hfull.2 (h.slot0_empty (.inr hfull.1)), hlift h.single, ?_,
    hlift h.data_unused, fun hzero ↦ h.data_addOwner hzero.1 hzero.2, ?_, hone hthreshold,
    hone h.data_enabled, h.tokenId, fun r hr ↦ ⟨h.onCurve r hr, h.padding r hr⟩, trivial⟩
  · intro r hr
    exact hlift fun htype ↦ amountValue_eq_zero.mpr (h.amounts htype r hr)
  · apply hone
    intro htype
    simpa [greaterThan] using h.data_threshold htype

/-- The update a vote attaches reads fields that a vote does not write. -/
theorem exists_apply_vote {F : Forest} (h : F.Feasible L) (hself : F.self.publicKey = a)
    {vote approval : Fp}
    (hwrites : F.self.appState = [.voteNullifierRoot vote, .approvalRoot approval])
    (hchildren : F.children =
      [{ publicKey := nonceAuthority p a
         preconditions := nonceAuthorityFields (L.state (nonceAuthority p a)) }]) :
    ∃ L', F.apply L = some L' := by
  apply Forest.exists_apply h
  rw [hchildren]
  intro c hc
  rw [List.mem_singleton.mp hc]
  have hread : (F.afterSelf L).state (nonceAuthority p a) =
      if nonceAuthority p a = a then
        { L.state a with voteNullifierRoot := vote, approvalRoot := approval }
      else L.state (nonceAuthority p a) := by
    by_cases ha : nonceAuthority p a = a
    · rw [if_pos ha, ha, ← hself, F.state_afterSelf_self L, hwrites]
      rfl
    · rw [if_neg ha, F.state_afterSelf_of_ne L (hself.symm ▸ ha)]
  intro v hv
  change v.Holds ((F.afterSelf L).state (nonceAuthority p a))
  rw [hread]
  simp only [nonceAuthorityFields, List.mem_cons, List.not_mem_nil, or_false] at hv
  by_cases ha : nonceAuthority p a = a
  · rw [if_pos ha]
    rw [ha] at hv
    rcases hv with rfl | rfl | rfl <;> rfl
  · rw [if_neg ha]
    rcases hv with rfl | rfl | rfl <;> rfl

section Votes

variable {k : PublicKey} {ow : OwnerWitness} {sig : E.Signature}
  {vw aw : E.MerkleMapWitness} {count : Fp}

theorem propose_succeeds
    (hchecks : VoteChecks E a (L.state a) (L.state (nonceAuthority p a)) L.slot p k ow vw
      aw 0)
    (hrules : ProposalRules E p)
    (hthreshold : p.txType = TxType.changeThreshold →
      p.data.val ≤ (L.state a).numOwners.val)
    (hexpiry : p.expirySlot.val < 2 ^ 32)
    (hsig : E.verify sig k [E.proposalSigningMessage (E.proposalHash p) .propose] = true) :
    (MethodCall.propose p ow k sig vw aw).Succeeds L a := by
  have hpassed (F : Forest) := assertProposalRules_of_rules (P := L.prover a) (F := F) hrules
    hthreshold
  unfold MethodCall.Succeeds
  simp only [MethodCall.prove_ok, MethodCall.circuit, propose, bind_ok, check_ok,
    assertChildMultiSigEnabledIfChild_ok,
    getInitializedOwnersCommitment_ok, assertOwnerMembership_ok,
    assertProposalConfigNetworkAndGuard_ok, assertProposalDestinationAndChildAccount_ok,
    assertProposalNotExpired_ok, assertFreshProposalNonce_ok, hpassed, Except.ok.injEq,
    Prod.mk.injEq, Check.assertTrue_ok,
    nullifyVote_ok, assertApprovalWitnessValue_ok, set_ok, StateField.approvalRoot,
    emitEvent_ok, emitReceiversEvent_ok, exists_and_left, exists_eq_left', exists_const,
    and_assoc, true_and]
  refine ⟨hchecks.enabled, hchecks.initialized, hchecks.member, hchecks.owners,
    hchecks.configNonce, hchecks.guard, hchecks.destination, hexpiry, hchecks.fresh, hsig,
    hchecks.voteRoot, hchecks.voteKey, hchecks.root, hchecks.key, ?_⟩
  refine exists_apply_vote ⟨?_, ?_, Nat.zero_le _, Nat.zero_le _, rfl⟩ rfl rfl rfl
  · simp [Forest.require, Forest.write, Forest.emit, Forest.bySlot, Forest.attach,
      Forest.start, Ledger.prover, or_imp, forall_and, StateValue.Holds]
  · rintro slot ⟨⟩
    exact hchecks.inTime

theorem approveProposal_succeeds
    (hchecks : VoteChecks E a (L.state a) (L.state (nonceAuthority p a)) L.slot p k ow vw
      aw count)
    (hexecuted : count ≠ executedMarker) (hproposed : proposedMarker.val ≤ count.val)
    (hexpiry : p.expirySlot.val < 2 ^ 32)
    (hsig : E.verify sig k [E.proposalSigningMessage (E.proposalHash p) .approve] = true) :
    (MethodCall.approveProposal p sig k ow aw count vw).Succeeds L a := by
  unfold MethodCall.Succeeds
  simp only [MethodCall.prove_ok, MethodCall.circuit, approveProposal, bind_ok, check_ok,
    assertChildMultiSigEnabledIfChild_ok, getInitializedOwnersCommitment_ok,
    assertOwnerMembership_ok, assertProposalConfigNetworkAndGuard_ok,
    assertProposalDestinationAndChildAccount_ok, assertProposalNotExpired_ok,
    assertFreshProposalNonce_ok, assertNotExecuted, assertProposalExists,
    Check.assertTrue_ok, Check.assertFalse_ok, nullifyVote_ok, assertApprovalWitnessValue_ok,
    set_ok, StateField.approvalRoot, emitEvent_ok, exists_and_left, exists_eq_left',
    exists_const, and_assoc]
  refine ⟨hchecks.enabled, hchecks.initialized, hchecks.member, hchecks.owners,
    hchecks.configNonce, hchecks.guard, hchecks.destination, hexpiry, hchecks.fresh, hsig,
    hexecuted, hproposed, hchecks.voteRoot, hchecks.voteKey, hchecks.root, hchecks.key, ?_⟩
  refine exists_apply_vote ⟨?_, ?_, Nat.zero_le _, Nat.zero_le _, rfl⟩ rfl rfl rfl
  · simp [Forest.require, Forest.write, Forest.emit, Forest.bySlot, Forest.attach,
      Forest.start, Ledger.prover, or_imp, forall_and, StateValue.Holds]
  · rintro slot ⟨⟩
    exact hchecks.inTime

end Votes

section Executions

variable {w pw cw : E.MerkleMapWitness} {count : Fp}

theorem executeThresholdChange_succeeds {newThreshold : Fp}
    (hchecks : LocalChecks E a (L.state a) L.slot p w count)
    (htype : p.txType = TxType.changeThreshold) (hdata : p.data = newThreshold)
    (hpos : 0 < newThreshold.val) (hle : newThreshold.val ≤ (L.state a).numOwners.val)
    (hexpiry : p.expirySlot.val < 2 ^ 32) :
    (MethodCall.executeThresholdChange p w count newThreshold).Succeeds L a := by
  have happroved := hchecks.approved
  unfold MethodCall.Succeeds
  simp only [MethodCall.prove_ok, MethodCall.circuit, executeThresholdChange,
    beginLocalExecution, bind_ok, check_ok, Circuit.pure_ok,
    assertChildMultiSigEnabledIfChild_ok, getInitializedOwnersCommitment_ok,
    assertLocalProposal, assertProposalConfigNetworkAndGuard_ok,
    assertProposalNotExpired_ok, assertNotExecuted, assertProposalExists,
    getGovernanceState_ok, assertThresholdSatisfied, assertApprovalWitnessValue_ok,
    assertAndIncrementLocalNonce_ok, Check.assertTrue_ok, Check.assertFalse_ok,
    setGovernanceState_ok, markExecuted_ok, bumpConfigNonce_ok, emitEvent_ok,
    exists_and_left, exists_eq_left', exists_const, and_assoc]
  refine ⟨hchecks.enabled, happroved.initialized, htype, hchecks.destination,
    happroved.configNonce, happroved.guard, hexpiry, happroved.notExecuted,
    happroved.proposed, happroved.threshold, happroved.root, happroved.key, hchecks.nonce,
    hdata, ?_, hle, ?_⟩
  · simpa [greaterThan] using hpos
  · refine Forest.exists_apply ⟨?_, ?_, Nat.zero_le _, Nat.zero_le _, rfl⟩ ?_
    · simp [Forest.require, Forest.write, Forest.emit, Forest.bySlot, Forest.start,
        Ledger.prover, or_imp, forall_and, StateValue.Holds]
    · rintro slot ⟨⟩
      exact hchecks.inTime
    · exact fun c hc ↦ absurd hc List.not_mem_nil

/-- Adding an owner. -/
theorem executeOwnerChange_succeeds {ow : OwnerWitness} {pos : PublicKeyOption}
    (hchecks : LocalChecks E a (L.state a) L.slot p w count)
    (htype : p.txType = TxType.addOwner)
    (hadd : addOwnerToCommitment E (L.state a).ownersCommitment p.slot0.address ow pos =
      (p.data, true))
    (hge : (L.state a).threshold.val ≤ ((L.state a).numOwners + 1).val)
    (hle : ((L.state a).numOwners + 1).val ≤ maxOwners)
    (hexpiry : p.expirySlot.val < 2 ^ 32) :
    (MethodCall.executeOwnerChange p w count ow pos).Succeeds L a := by
  have happroved := hchecks.approved
  have hne : TxType.addOwner ≠ TxType.removeOwner := by decide
  have hmax : (maxOwners : Fp).val = maxOwners := val_natCast_of_lt (by decide)
  have haddL : addOwnerToCommitment E ((L.prover a).state (L.prover a).address).ownersCommitment
      p.slot0.address ow pos = (p.data, true) := hadd
  unfold MethodCall.Succeeds
  simp only [MethodCall.prove_ok, MethodCall.circuit, executeOwnerChange,
    beginLocalExecution, bind_ok, check_ok, Circuit.pure_ok,
    assertChildMultiSigEnabledIfChild_ok, getInitializedOwnersCommitment_ok,
    assertLocalProposal, assertProposalConfigNetworkAndGuard_ok,
    assertProposalNotExpired_ok, assertNotExecuted, assertProposalExists,
    getGovernanceState_ok, assertThresholdSatisfied, assertApprovalWitnessValue_ok,
    assertAndIncrementLocalNonce_ok, Check.assertTrue_ok, Check.assertFalse_ok, set_ok,
    setGovernanceState_ok, markExecuted_ok, bumpConfigNonce_ok, emitEvent_ok,
    StateField.ownersCommitment, haddL, htype, hne, if_true, if_false, decide_true,
    decide_false, toField, Bool.false_eq_true, sub_zero, exists_and_left, exists_eq_left',
    exists_const, true_or, and_assoc]
  refine ⟨hchecks.enabled, happroved.initialized, trivial, hchecks.destination,
    happroved.configNonce, happroved.guard, hexpiry, happroved.notExecuted,
    happroved.proposed, happroved.threshold, happroved.root, happroved.key, hchecks.nonce,
    hge, ?_, trivial, trivial, ?_⟩
  · unfold lessThanOrEqual
    rw [hmax]
    exact hle
  · refine Forest.exists_apply ⟨?_, ?_, Nat.zero_le _, Nat.zero_le _, rfl⟩ ?_
    · simp [Forest.require, Forest.write, Forest.emit, Forest.bySlot, Forest.start,
        Ledger.prover, or_imp, forall_and, StateValue.Holds]
    · rintro slot ⟨⟩
      exact hchecks.inTime
    · exact fun c hc ↦ absurd hc List.not_mem_nil

/-- Reclaiming an amount the child has. -/
theorem executeReclaimToParent_succeeds {amount : UInt64}
    (hchecks : RemoteChecks E a (L.state a) (L.state (L.state a).parent) L.slot p pw count cw)
    (hne : (L.state a).parent ≠ a) (htype : p.txType = TxType.reclaimChild)
    (hdata : p.data = amountValue amount) (hbalance : amount.toNat ≤ (L.account a).balance)
    (hexpiry : p.expirySlot.val < 2 ^ 32) :
    (MethodCall.executeReclaimToParent p pw count cw amount).Succeeds L a := by
  unfold MethodCall.Succeeds
  simp only [MethodCall.prove_ok, MethodCall.circuit, executeReclaimToParent,
    beginRemoteExecution, bind_ok, check_ok, Circuit.pure_ok,
    getInitializedOwnersCommitment_ok, assertValidRemoteProposal_ok,
    verifyParentApproval_ok, assertParentApprovalState_ok,
    assertChildExecutionWitnessValue_ok, assertAndIncrementParentNonce_ok,
    Check.assertTrue_ok, getAndRequireEquals_ok, StateField.parent, send_ok,
    markChildExecuted_ok, emitEvent_ok, exists_and_left, exists_eq_left', exists_const,
    and_assoc]
  refine ⟨hchecks.initialized, htype, hchecks.destination, hchecks.child, hchecks.isChild,
    hchecks.approved, hexpiry, hchecks.root, hchecks.key, hchecks.nonce, hdata, ?_⟩
  refine Forest.exists_apply ⟨?_, ?_, Nat.zero_le _, ?_, rfl⟩ ?_
  · simp [Forest.require, Forest.write, Forest.emit, Forest.bySlot, Forest.attach, Forest.pay,
      Forest.start, Ledger.prover, or_imp, forall_and, StateValue.Holds]
  · rintro slot ⟨⟩
    exact hchecks.inTime
  · simpa [Forest.require, Forest.write, Forest.emit, Forest.bySlot, Forest.attach,
      Forest.pay, Forest.start, Ledger.prover] using hbalance
  · -- the child writes its own state only, and the parent is another account
    have hread := fun F : Forest ↦ F.state_afterSelf_of_ne L (a := (L.state a).parent)
    intro c hc
    rcases List.mem_cons.mp hc with rfl | hc
    · intro v hv
      change v.Holds ((Forest.afterSelf _ L).state (L.state a).parent)
      rw [hread _ hne]
      change v ∈ parentApprovalFields (L.state (L.state a).parent) at hv
      simp only [parentApprovalFields, List.mem_cons, List.not_mem_nil, or_false] at hv
      rcases hv with rfl | rfl | rfl | rfl <;> rfl
    · rw [List.mem_singleton.mp hc]
      exact fun v hv ↦ absurd hv List.not_mem_nil

end Executions

end MinaGuard
