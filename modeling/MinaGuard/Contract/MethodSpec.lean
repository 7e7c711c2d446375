import MinaGuard.Contract.Inclusion

/-!
# What an included call says

Each method is read once here.  If a prover obtained a forest from it and the
ledger included that forest, then the checks of the method hold of the states
on the ledger, and the guard's state changes exactly as listed.  What a prover
claimed about any account no longer matters.

The opening checks that several methods share are one structure each:
`VoteChecks`, `LocalChecks` and `RemoteChecks`.
-/

namespace MinaGuard

open Foundations Circuit

variable {E : Env} {P : Prover} {F F₁ : Forest} {L L' : Ledger}

/-- The update is for the guard at `a` and requires `v` of its state.  Each
method pins one value that it also makes obsolete. -/
structure Forest.Pins (F : Forest) (a : PublicKey) (v : StateValue) : Prop where
  publicKey : F.self.publicKey = a
  mem : v ∈ F.self.preconditions

/-- The opening of a LOCAL execution on the guard `this` in state `s`: the guard
approves the proposal itself. -/
structure LocalChecks (E : Env) (this : PublicKey) (s : GuardState) (slot : ℕ)
    (p : TransactionProposal) (w : E.MerkleMapWitness) (count : Fp) : Prop where
  enabled : s.parent = PublicKey.empty ∨ s.childMultiSigEnabled = 1
  destination : p.destination = destinationLocal
  approved : ApprovedBy E p this s w count
  inTime : slot ≤ lastSlot p
  nonce : p.nonce = s.nonce + 1

/-- The forest after the opening of a LOCAL execution. -/
structure LocalOpening (F F₁ : Forest) (s : GuardState) : Prop where
  pins : F₁.Pins F.self.publicKey (.nonce s.nonce)
  appState : F₁.self.appState = F.self.appState ++ [.nonce (s.nonce + 1)]

theorem beginLocalExecution_spec {typeCheck : Check} {p : TransactionProposal}
    {w : E.MerkleMapWitness} {count : Fp} {c : LocalContext} {s : GuardState} {slot : ℕ}
    (h : beginLocalExecution E typeCheck p w count P F = .ok (c, F₁))
    (hown : ∀ v ∈ F₁.self.preconditions, v.Holds s)
    (hslot : ∀ n ∈ F₁.self.slotAtMost, slot ≤ n) :
    typeCheck = .ok () ∧ LocalChecks E P.address s slot p w count ∧
      c = ⟨E.proposalHash p, s.ownersCommitment, s.threshold, s.numOwners⟩ ∧
      LocalOpening F F₁ s := by
  simp only [beginLocalExecution, bind_ok, check_ok, Circuit.pure_ok,
    assertChildMultiSigEnabledIfChild_ok, getInitializedOwnersCommitment_ok,
    assertLocalProposal, assertProposalConfigNetworkAndGuard_ok,
    assertProposalNotExpired_ok, assertNotExecuted, assertProposalExists,
    getGovernanceState_ok, assertThresholdSatisfied, assertApprovalWitnessValue_ok,
    assertAndIncrementLocalNonce_ok, Check.assertTrue_ok, Check.assertFalse_ok,
    exists_and_left, exists_eq_left', exists_const, and_assoc] at h
  obtain ⟨henabled, hinit, htype, hdest, hconfig, hguard, -, hexecuted, hproposed,
    hthreshold, hroot, hkey, hnonce, rfl, rfl⟩ := h
  simp only [Forest.require, Forest.write, Forest.bySlot, List.forall_mem_append,
    List.forall_mem_singleton, StateValue.Holds, and_assoc] at hown
  obtain ⟨-, eparent, eenabled, eowners, econfig, ethreshold, enumOwners, eapproval,
    enonce⟩ := hown
  rw [eparent, eenabled] at henabled
  rw [eowners] at hinit
  rw [econfig] at hconfig
  rw [ethreshold] at hthreshold
  rw [eapproval] at hroot
  rw [enonce] at hnonce
  refine ⟨htype, ?_, ?_, ?_⟩
  · have happroved : ApprovedBy E p P.address s w count :=
      { initialized := hinit
        configNonce := hconfig
        guard := hguard
        root := hroot
        key := hkey
        notExecuted := hexecuted
        proposed := hproposed
        threshold := hthreshold }
    exact
      { enabled := henabled
        destination := hdest
        approved := happroved
        inTime := hslot _ rfl
        nonce := hnonce }
  · rw [eowners, ethreshold, enumOwners]
  · refine ⟨⟨rfl, ?_⟩, ?_⟩
    · rw [← enonce]
      exact List.mem_append_right _ (List.mem_singleton_self _)
    · rw [← enonce]
      rfl

/-- What a method adds to the forest after its opening, payments aside. -/
structure Forest.Completes (F₁ F : Forest) (reads writes : List StateValue) : Prop where
  publicKey : F.self.publicKey = F₁.self.publicKey
  preconditions : F.self.preconditions = F₁.self.preconditions ++ reads
  slotAtMost : F.self.slotAtMost = F₁.self.slotAtMost
  appState : F.self.appState = F₁.self.appState ++ writes

theorem Forest.Completes.pins {reads writes : List StateValue} {a : PublicKey}
    {v : StateValue} (h : F₁.Completes F reads writes) (hpins : F₁.Pins a v) :
    F.Pins a v := by
  refine ⟨h.publicKey.trans hpins.publicKey, ?_⟩
  rw [h.preconditions]
  exact List.mem_append_left _ hpins.mem

/-- A LOCAL execution: the opening, then `writes`. -/
theorem localExecution_spec {typeCheck : Check} {p : TransactionProposal}
    {w : E.MerkleMapWitness} {count : Fp} {c : LocalContext} {reads writes : List StateValue}
    (hopen : beginLocalExecution E typeCheck p w count P (Forest.start P.address) =
      .ok (c, F₁))
    (hrest : F₁.Completes F reads writes) (hF : F.Included L L') :
    typeCheck = .ok () ∧ LocalChecks E P.address (L.state P.address) L.slot p w count ∧
      c = ⟨E.proposalHash p, (L.state P.address).ownersCommitment,
        (L.state P.address).threshold, (L.state P.address).numOwners⟩ ∧
      F.Pins P.address (.nonce (L.state P.address).nonce) ∧
      (∀ v ∈ reads, v.Holds (L.state P.address)) ∧
      L'.state P.address = writes.foldl StateValue.write
        { L.state P.address with nonce := (L.state P.address).nonce + 1 } := by
  have hown := hF.own
  have hslot := hF.slot_le
  have hstate := hF.state_self
  rw [hrest.preconditions, List.forall_mem_append] at hown
  rw [hrest.slotAtMost] at hslot
  obtain ⟨htype, hchecks, hc, hopening⟩ := beginLocalExecution_spec hopen hown.1 hslot
  have hpins := hrest.pins hopening.pins
  have hpk : F.self.publicKey = P.address := hpins.publicKey
  rw [hrest.appState, hopening.appState, List.foldl_append] at hstate
  rw [hpk] at hchecks hc hown hstate hpins
  exact ⟨htype, hchecks, hc, hpins, hown.2, hstate⟩

theorem executeTransfer_spec {p : TransactionProposal} {w : E.MerkleMapWitness}
    {count : Fp}
    (h : executeTransfer E p w count P (Forest.start P.address) = .ok ((), F))
    (hF : F.Included L L') :
    p.txType = TxType.transfer ∧
      LocalChecks E P.address (L.state P.address) L.slot p w count ∧
      F.Pins P.address (.nonce (L.state P.address).nonce) ∧
      L'.state P.address =
        { L.state P.address with
          nonce := (L.state P.address).nonce + 1
          approvalRoot := (E.merkleMap.computeRootAndKey w executedMarker).1 } := by
  simp only [executeTransfer, bind_ok, executeTransfers_ok, markExecuted_ok,
    emitEvent_ok, exists_and_left, exists_eq_left', exists_const, and_assoc] at h
  obtain ⟨c, F₁, hopen, hrest⟩ := h
  have hcompletes : F₁.Completes F []
      [.approvalRoot (E.merkleMap.computeRootAndKey w executedMarker).1] := by
    subst hrest
    exact ⟨rfl, (List.append_nil _).symm, rfl, rfl⟩
  obtain ⟨htype, hchecks, -, hpins, -, hstate⟩ := localExecution_spec hopen hcompletes hF
  exact ⟨Check.assertTrue_ok.mp htype, hchecks, hpins, hstate⟩

theorem allocateToChild_ok {address : PublicKey} {r : Receiver} {F F' : Forest} :
    allocateToChild address r P F = .ok ((), F') ↔
      (r.address = PublicKey.empty ∨
        (P.state r.address).ownersCommitment ≠ 0 ∧ (P.state r.address).parent = address) ∧
      F.pay
        { publicKey := if r.address = PublicKey.empty then address else r.address
          preconditions := allocationFields
            (P.state (if r.address = PublicKey.empty then address else r.address))
          credit := (effectiveAmount r).toNat } = F' := by
  simp only [allocateToChild, bind_ok, check_ok, readAndPayGuard_ok, Check.assertTrue_ok,
    exists_and_left, exists_eq_left', exists_const, and_assoc]
  by_cases hempty : r.address = PublicKey.empty
  · simp [hempty]
  · simp [hempty, and_assoc]

theorem executeAllocateToChildren_spec {p : TransactionProposal} {w : E.MerkleMapWitness}
    {count : Fp}
    (h : executeAllocateToChildren E p w count P (Forest.start P.address) = .ok ((), F))
    (hF : F.Included L L') :
    p.txType = TxType.allocateChild ∧
      LocalChecks E P.address (L.state P.address) L.slot p w count ∧
      F.Pins P.address (.nonce (L.state P.address).nonce) ∧
      L'.state P.address =
        { L.state P.address with
          nonce := (L.state P.address).nonce + 1
          approvalRoot := (E.merkleMap.computeRootAndKey w executedMarker).1 } := by
  have hloop : ∀ i F F', allocateToChild P.address i P F = .ok ((), F') ↔ _ :=
    fun i F F' ↦ allocateToChild_ok
  simp only [executeAllocateToChildren, bind_ok, thisAddress_ok, forM_pay_ok hloop,
    markExecuted_ok, emitEvent_ok, exists_and_left, exists_eq_left', exists_const,
    and_assoc] at h
  obtain ⟨c, F₁, hopen, hloop, hrest⟩ := h
  have hcompletes : F₁.Completes F []
      [.approvalRoot (E.merkleMap.computeRootAndKey w executedMarker).1] := by
    subst hrest
    exact ⟨rfl, (List.append_nil _).symm, rfl, rfl⟩
  obtain ⟨htype, hchecks, -, hpins, -, hstate⟩ := localExecution_spec hopen hcompletes hF
  exact ⟨Check.assertTrue_ok.mp htype, hchecks, hpins, hstate⟩

theorem executeDelegate_spec {p : TransactionProposal} {w : E.MerkleMapWitness}
    {count : Fp}
    (h : executeDelegate E p w count P (Forest.start P.address) = .ok ((), F))
    (hF : F.Included L L') :
    p.txType = TxType.setDelegate ∧
      LocalChecks E P.address (L.state P.address) L.slot p w count ∧
      F.Pins P.address (.nonce (L.state P.address).nonce) ∧
      L'.state P.address =
        { L.state P.address with
          nonce := (L.state P.address).nonce + 1
          approvalRoot := (E.merkleMap.computeRootAndKey w executedMarker).1 } := by
  simp only [executeDelegate, bind_ok, thisAddress_ok, setDelegate_ok, markExecuted_ok,
    emitEvent_ok, exists_and_left, exists_eq_left', exists_const, and_assoc] at h
  obtain ⟨c, F₁, hopen, hrest⟩ := h
  have hcompletes : F₁.Completes F []
      [.approvalRoot (E.merkleMap.computeRootAndKey w executedMarker).1] := by
    subst hrest
    exact ⟨rfl, (List.append_nil _).symm, rfl, rfl⟩
  obtain ⟨htype, hchecks, -, hpins, -, hstate⟩ := localExecution_spec hopen hcompletes hF
  exact ⟨Check.assertTrue_ok.mp htype, hchecks, hpins, hstate⟩

theorem executeThresholdChange_spec {p : TransactionProposal} {w : E.MerkleMapWitness}
    {count newThreshold : Fp}
    (h : executeThresholdChange E p w count newThreshold P (Forest.start P.address) =
      .ok ((), F))
    (hF : F.Included L L') :
    p.txType = TxType.changeThreshold ∧ p.data = newThreshold ∧
      0 < newThreshold.val ∧
      newThreshold.val ≤ (L.state P.address).numOwners.val ∧
      LocalChecks E P.address (L.state P.address) L.slot p w count ∧
      F.Pins P.address (.nonce (L.state P.address).nonce) ∧
      L'.state P.address =
        { L.state P.address with
          threshold := newThreshold
          nonce := (L.state P.address).nonce + 1
          approvalRoot := (E.merkleMap.computeRootAndKey w executedMarker).1
          configNonce := (L.state P.address).configNonce + 1 } := by
  simp only [executeThresholdChange, bind_ok, check_ok, Check.assertTrue_ok,
    setGovernanceState_ok, markExecuted_ok, bumpConfigNonce_ok, emitEvent_ok,
    exists_and_left, exists_eq_left', exists_const, and_assoc] at h
  obtain ⟨c, F₁, hopen, hdata, hpos, hle, hrest⟩ := h
  have hcompletes : F₁.Completes F [.configNonce (P.state P.address).configNonce]
      [.threshold newThreshold, .numOwners c.numOwners,
        .approvalRoot (E.merkleMap.computeRootAndKey w executedMarker).1,
        .configNonce ((P.state P.address).configNonce + 1)] := by
    subst hrest
    exact ⟨rfl, rfl, rfl, by simp [Forest.write, Forest.emit, Forest.require]⟩
  obtain ⟨htype, hchecks, rfl, hpins, hreads, hstate⟩ :=
    localExecution_spec hopen hcompletes hF
  have hconfig : (P.state P.address).configNonce = (L.state P.address).configNonce :=
    hreads _ List.mem_cons_self
  rw [hconfig] at hstate
  have hpos : 0 < newThreshold.val := by simpa [greaterThan] using hpos
  exact ⟨Check.assertTrue_ok.mp htype, hdata, hpos, hle, hchecks, hpins, hstate⟩

theorem executeOwnerChange_spec {p : TransactionProposal} {w : E.MerkleMapWitness}
    {count : Fp} {ow : OwnerWitness} {pos : PublicKeyOption}
    (h : executeOwnerChange E p w count ow pos P (Forest.start P.address) = .ok ((), F))
    (hF : F.Included L L') :
    ∃ newNumOwners newOwnersCommitment : Fp,
      ((p.txType = TxType.addOwner ∧
          newNumOwners = (L.state P.address).numOwners + 1 ∧
          (addOwnerToCommitment E (L.state P.address).ownersCommitment
            p.slot0.address ow pos) = (newOwnersCommitment, true)) ∨
        (p.txType = TxType.removeOwner ∧
          newNumOwners = (L.state P.address).numOwners - 1 ∧
          (removeOwnerFromCommitment E (L.state P.address).ownersCommitment
            p.slot0.address ow) = (newOwnersCommitment, true))) ∧
      (L.state P.address).threshold.val ≤ newNumOwners.val ∧
      newNumOwners.val ≤ maxOwners ∧
      LocalChecks E P.address (L.state P.address) L.slot p w count ∧
      F.Pins P.address (.nonce (L.state P.address).nonce) ∧
      L'.state P.address =
        { L.state P.address with
          ownersCommitment := newOwnersCommitment
          numOwners := newNumOwners
          nonce := (L.state P.address).nonce + 1
          approvalRoot := (E.merkleMap.computeRootAndKey w executedMarker).1
          configNonce := (L.state P.address).configNonce + 1 } := by
  simp only [executeOwnerChange, bind_ok, check_ok, Check.assertTrue_ok, set_ok,
    setGovernanceState_ok, markExecuted_ok, bumpConfigNonce_ok, emitEvent_ok,
    StateField.ownersCommitment, exists_and_left, exists_eq_left', exists_const,
    and_assoc] at h
  obtain ⟨c, F₁, hopen, hge, hle, hvalid, -, hrest⟩ := h
  generalize hcommitment : (if p.txType = TxType.removeOwner then _ else _) =
    newOwnersCommitment at hrest
  generalize hnum : c.numOwners + toField (decide (p.txType = TxType.addOwner)) -
    toField (decide (p.txType = TxType.removeOwner)) = newNumOwners at hge hle hrest
  have hcompletes : F₁.Completes F [.configNonce (P.state P.address).configNonce]
      [.ownersCommitment newOwnersCommitment, .threshold c.threshold,
        .numOwners newNumOwners,
        .approvalRoot (E.merkleMap.computeRootAndKey w executedMarker).1,
        .configNonce ((P.state P.address).configNonce + 1)] := by
    subst hrest
    exact ⟨rfl, rfl, rfl, by simp [Forest.write, Forest.emit, Forest.require]⟩
  obtain ⟨htype, hchecks, rfl, hpins, hreads, hstate⟩ :=
    localExecution_spec hopen hcompletes hF
  have hconfig : (P.state P.address).configNonce = (L.state P.address).configNonce :=
    hreads _ List.mem_cons_self
  rw [hconfig] at hstate
  have hmax : (maxOwners : Fp).val = maxOwners := val_natCast_of_lt (by decide)
  unfold lessThanOrEqual at hle
  rw [hmax] at hle
  refine ⟨newNumOwners, newOwnersCommitment, ?_, hge, hle, hchecks, hpins, hstate⟩
  have hne : TxType.addOwner ≠ TxType.removeOwner := by decide
  rcases Check.assertTrue_ok.mp htype with hadd | hremove
  · left
    have hnot : ¬p.txType = TxType.removeOwner := by
      rw [hadd]
      exact hne
    rw [if_neg hnot] at hvalid hcommitment
    refine ⟨hadd, ?_, Prod.ext hcommitment hvalid⟩
    rw [← hnum]
    simp [hadd, hne, toField]
  · right
    have hnot : ¬p.txType = TxType.addOwner := by
      rw [hremove]
      exact hne.symm
    rw [if_pos hremove] at hvalid hcommitment
    refine ⟨hremove, ?_, Prod.ext hcommitment hvalid⟩
    rw [← hnum]
    simp [hremove, hne.symm, toField]

/-! ## REMOTE executions -/

theorem ApprovedBy.congr {p : TransactionProposal} {a : PublicKey} {s t : GuardState}
    {w : E.MerkleMapWitness} {count : Fp} (h : ApprovedBy E p a s w count)
    (hread : ∀ v ∈ parentApprovalFields s, v.Holds t) : ApprovedBy E p a t w count := by
  simp only [parentApprovalFields, List.forall_mem_cons, StateValue.Holds] at hread
  obtain ⟨howners, hconfig, hroot, hthreshold, -⟩ := hread
  exact
    { initialized := howners ▸ h.initialized
      configNonce := hconfig ▸ h.configNonce
      guard := h.guard
      root := hroot ▸ h.root
      key := h.key
      notExecuted := h.notExecuted
      proposed := h.proposed
      threshold := hthreshold ▸ h.threshold }

/-- The opening of a REMOTE execution on the child `this` in state `s`, whose
parent is in state `parentState`. -/
structure RemoteChecks (E : Env) (this : PublicKey) (s parentState : GuardState)
    (slot : ℕ) (p : TransactionProposal) (pw : E.MerkleMapWitness) (count : Fp)
    (cw : E.MerkleMapWitness) : Prop where
  initialized : s.ownersCommitment ≠ 0
  destination : p.destination = destinationRemote
  child : p.childAccount = this
  isChild : s.parent ≠ PublicKey.empty
  approved : ApprovedBy E p s.parent parentState pw count
  inTime : slot ≤ lastSlot p
  root : (E.merkleMap.computeRootAndKey cw 0).1 = s.childExecutionRoot
  key : (E.merkleMap.computeRootAndKey cw 0).2 = E.proposalHash p
  nonce : p.nonce = s.parentNonce + 1

/-- The forest after the opening of a REMOTE execution. -/
structure RemoteOpening (F F₁ : Forest) (s : GuardState) : Prop where
  pins : F₁.Pins F.self.publicKey (.parentNonce s.parentNonce)
  appState : F₁.self.appState = F.self.appState ++ [.parentNonce (s.parentNonce + 1)]

theorem beginRemoteExecution_spec {typeCheck : Check} {p : TransactionProposal}
    {pw cw : E.MerkleMapWitness} {count h : Fp} {s : GuardState} {slot : ℕ}
    {read : PublicKey → GuardState}
    (hopen : beginRemoteExecution E typeCheck p pw count cw P F = .ok (h, F₁))
    (hown : ∀ v ∈ F₁.self.preconditions, v.Holds s)
    (hslot : ∀ n ∈ F₁.self.slotAtMost, slot ≤ n)
    (hforeign : ∀ c ∈ F₁.children, ∀ v ∈ c.preconditions, v.Holds (read c.publicKey)) :
    typeCheck = .ok () ∧
      RemoteChecks E P.address s (read s.parent) slot p pw count cw ∧
      E.proposalHash p = h ∧ RemoteOpening F F₁ s := by
  simp only [beginRemoteExecution, bind_ok, check_ok, Circuit.pure_ok,
    getInitializedOwnersCommitment_ok, assertValidRemoteProposal_ok,
    verifyParentApproval_ok, assertParentApprovalState_ok,
    assertChildExecutionWitnessValue_ok, assertAndIncrementParentNonce_ok,
    exists_and_left, exists_eq_left', exists_const, and_assoc] at hopen
  obtain ⟨hinit, htype, hdest, hchild, hisChild, happroved, -, hroot, hkey, hnonce, rfl,
    rfl⟩ := hopen
  simp only [Forest.require, Forest.write, Forest.bySlot, Forest.attach,
    List.forall_mem_append, List.forall_mem_singleton, StateValue.Holds, and_assoc]
    at hown hforeign
  obtain ⟨-, eowners, eparent, eroot, enonce⟩ := hown
  have happroved := happroved.congr hforeign.2
  rw [eowners] at hinit
  rw [eparent] at hisChild happroved
  rw [eroot] at hroot
  rw [enonce] at hnonce
  refine ⟨htype, ?_, rfl, ?_⟩
  · exact
      { initialized := hinit
        destination := hdest
        child := hchild
        isChild := hisChild
        approved := happroved
        inTime := hslot _ rfl
        root := hroot
        key := hkey
        nonce := hnonce }
  · refine ⟨⟨rfl, ?_⟩, ?_⟩
    · rw [← enonce]
      exact List.mem_append_right _ (List.mem_singleton_self _)
    · rw [← enonce]
      rfl

/-- A REMOTE execution: the opening, then `writes`. -/
theorem remoteExecution_spec {typeCheck : Check} {p : TransactionProposal}
    {pw cw : E.MerkleMapWitness} {count h : Fp} {reads writes : List StateValue}
    (hopen : beginRemoteExecution E typeCheck p pw count cw P (Forest.start P.address) =
      .ok (h, F₁))
    (hrest : F₁.Completes F reads writes) (hchildren : F₁.children ⊆ F.children)
    (hF : F.Included L L') :
    typeCheck = .ok () ∧
      RemoteChecks E P.address (L.state P.address) (L'.state (L.state P.address).parent)
        L.slot p pw count cw ∧
      F.Pins P.address (.parentNonce (L.state P.address).parentNonce) ∧
      (∀ v ∈ reads, v.Holds (L.state P.address)) ∧
      L'.state P.address = writes.foldl StateValue.write
        { L.state P.address with parentNonce := (L.state P.address).parentNonce + 1 } := by
  have hown := hF.own
  have hslot := hF.slot_le
  have hstate := hF.state_self
  rw [hrest.preconditions, List.forall_mem_append] at hown
  rw [hrest.slotAtMost] at hslot
  obtain ⟨htype, hchecks, -, hopening⟩ := beginRemoteExecution_spec hopen hown.1 hslot
    fun c hc ↦ hF.foreign c (hchildren hc)
  have hpins := hrest.pins hopening.pins
  have hpk : F.self.publicKey = P.address := hpins.publicKey
  rw [hrest.appState, hopening.appState, List.foldl_append] at hstate
  rw [hpk] at hchecks hown hstate hpins
  exact ⟨htype, hchecks, hpins, hown.2, hstate⟩

theorem executeReclaimToParent_spec {p : TransactionProposal}
    {pw cw : E.MerkleMapWitness} {count : Fp} {amount : UInt64}
    (h : executeReclaimToParent E p pw count cw amount P (Forest.start P.address) =
      .ok ((), F))
    (hF : F.Included L L') :
    p.txType = TxType.reclaimChild ∧ p.data = amountValue amount ∧
      RemoteChecks E P.address (L.state P.address) (L'.state (L.state P.address).parent)
        L.slot p pw count cw ∧
      F.Pins P.address (.parentNonce (L.state P.address).parentNonce) ∧
      L'.state P.address =
        { L.state P.address with
          parentNonce := (L.state P.address).parentNonce + 1
          childExecutionRoot := (E.merkleMap.computeRootAndKey cw executedMarker).1 } := by
  simp only [executeReclaimToParent, bind_ok, check_ok, Check.assertTrue_ok,
    getAndRequireEquals_ok, StateField.parent, send_ok, markChildExecuted_ok,
    emitEvent_ok, exists_and_left, exists_eq_left', exists_const, and_assoc] at h
  obtain ⟨hash, F₁, hopen, hdata, hrest⟩ := h
  have hcompletes : F₁.Completes F [.parent (P.state P.address).parent]
      [.childExecutionRoot (E.merkleMap.computeRootAndKey cw executedMarker).1] := by
    subst hrest
    exact ⟨rfl, rfl, rfl, rfl⟩
  have hchildren : F₁.children ⊆ F.children := by
    subst hrest
    exact List.subset_append_left _ _
  obtain ⟨htype, hchecks, hpins, -, hstate⟩ :=
    remoteExecution_spec hopen hcompletes hchildren hF
  exact ⟨Check.assertTrue_ok.mp htype, hdata, hchecks, hpins, hstate⟩

theorem executeDestroy_spec {p : TransactionProposal} {pw cw : E.MerkleMapWitness}
    {count : Fp}
    (h : executeDestroy E p pw count cw P (Forest.start P.address) = .ok ((), F))
    (hF : F.Included L L') :
    p.txType = TxType.destroyChild ∧
      RemoteChecks E P.address (L.state P.address) (L'.state (L.state P.address).parent)
        L.slot p pw count cw ∧
      F.Pins P.address (.parentNonce (L.state P.address).parentNonce) ∧
      L'.state P.address =
        { L.state P.address with
          configNonce := (L.state P.address).configNonce + 1
          parentNonce := (L.state P.address).parentNonce + 1
          childExecutionRoot := (E.merkleMap.computeRootAndKey cw executedMarker).1
          childMultiSigEnabled := 0 } := by
  simp only [executeDestroy, bind_ok, getBalanceLowerBound_ok, getAndRequireEquals_ok,
    StateField.parent, StateField.childMultiSigEnabled, send_ok, set_ok,
    markChildExecuted_ok, bumpConfigNonce_ok, emitEvent_ok, exists_and_left,
    exists_eq_left', exists_const, and_assoc] at h
  obtain ⟨hash, F₁, hopen, hrest⟩ := h
  have hcompletes : F₁.Completes F
      [.parent (P.state P.address).parent,
        .configNonce (P.state P.address).configNonce]
      [.childExecutionRoot (E.merkleMap.computeRootAndKey cw executedMarker).1,
        .childMultiSigEnabled 0,
        .configNonce ((P.state P.address).configNonce + 1)] := by
    subst hrest
    refine ⟨rfl, ?_, rfl, ?_⟩ <;>
      simp [Forest.write, Forest.emit, Forest.require, Forest.pay, Forest.attach]
  have hchildren : F₁.children ⊆ F.children := by
    subst hrest
    exact List.subset_append_left _ _
  obtain ⟨htype, hchecks, hpins, hreads, hstate⟩ :=
    remoteExecution_spec hopen hcompletes hchildren hF
  have hconfig : (P.state P.address).configNonce = (L.state P.address).configNonce :=
    hreads (.configNonce _) (by simp)
  rw [hconfig] at hstate
  exact ⟨Check.assertTrue_ok.mp htype, hchecks, hpins, hstate⟩

theorem executeEnableChildMultiSig_spec {p : TransactionProposal}
    {pw cw : E.MerkleMapWitness} {count enabled : Fp}
    (h : executeEnableChildMultiSig E p pw count cw enabled P (Forest.start P.address) =
      .ok ((), F))
    (hF : F.Included L L') :
    p.txType = TxType.enableChildMultiSig ∧ p.data = enabled ∧
      (enabled = 0 ∨ enabled = 1) ∧
      RemoteChecks E P.address (L.state P.address) (L'.state (L.state P.address).parent)
        L.slot p pw count cw ∧
      F.Pins P.address (.parentNonce (L.state P.address).parentNonce) ∧
      L'.state P.address =
        { L.state P.address with
          configNonce :=
            (L.state P.address).configNonce + toField (decide (enabled = 0))
          parentNonce := (L.state P.address).parentNonce + 1
          childExecutionRoot := (E.merkleMap.computeRootAndKey cw executedMarker).1
          childMultiSigEnabled := enabled } := by
  simp only [executeEnableChildMultiSig, bind_ok, check_ok, Check.assertTrue_ok,
    getAndRequireEquals_ok, StateField.parent, StateField.childMultiSigEnabled,
    StateField.configNonce, set_ok, markChildExecuted_ok, emitEvent_ok,
    exists_and_left, exists_eq_left', exists_const, and_assoc] at h
  obtain ⟨hash, F₁, hopen, hdata, henabled, hrest⟩ := h
  have hcompletes : F₁.Completes F
      [.configNonce (P.state P.address).configNonce,
        .parent (P.state P.address).parent]
      [.childMultiSigEnabled enabled,
        .configNonce
          ((P.state P.address).configNonce + toField (decide (enabled = 0))),
        .childExecutionRoot (E.merkleMap.computeRootAndKey cw executedMarker).1] := by
    subst hrest
    refine ⟨rfl, ?_, rfl, ?_⟩ <;> simp [Forest.write, Forest.emit, Forest.require]
  have hchildren : F₁.children ⊆ F.children := by
    subst hrest
    exact List.Subset.refl _
  obtain ⟨htype, hchecks, hpins, hreads, hstate⟩ :=
    remoteExecution_spec hopen hcompletes hchildren hF
  have hconfig : (P.state P.address).configNonce = (L.state P.address).configNonce :=
    hreads (.configNonce _) List.mem_cons_self
  rw [hconfig] at hstate
  exact ⟨Check.assertTrue_ok.mp htype, hdata, henabled, hchecks, hpins, hstate⟩

/-- The governance a guard may start with. -/
structure InitialGovernance (E : Env) (threshold numOwners : Fp)
    (owners : SetupOwnersInput) : Prop where
  threshold_pos : 0 < threshold.val
  threshold_le : threshold.val ≤ numOwners.val
  numOwners_le : numOwners.val ≤ maxOwners
  coherent : OwnersCoherent E (setupOwners owners numOwners)

/-- A state after `initializeState`. -/
def GuardState.initialized (E : Env) (s : GuardState) (threshold numOwners : Fp)
    (parent : PublicKey) (owners : SetupOwnersInput) : GuardState :=
  { s with
    ownersCommitment := computeSetupOwnersChain E owners numOwners
    threshold := threshold
    numOwners := numOwners
    nonce := 0
    approvalRoot := E.emptyMerkleMapRoot
    voteNullifierRoot := E.emptyMerkleMapRoot
    parent := parent
    parentNonce := 0
    childExecutionRoot := E.emptyMerkleMapRoot
    childMultiSigEnabled := 1 }

theorem initializeState_ok {threshold numOwners nonce parentNonce : Fp}
    {parent : PublicKey} {owners : SetupOwnersInput} {u : Unit} {F' : Forest} :
    initializeState E threshold numOwners parent nonce parentNonce owners P F =
        .ok (u, F') ↔
      assertValidInitialGovernance threshold numOwners = .ok () ∧
        assertCoherentSetupOwners E owners numOwners = .ok () ∧
        (((((((((((((F.require (.ownersCommitment 0)).write
          (.ownersCommitment (computeSetupOwnersChain E owners numOwners))).write
          (.threshold threshold)).write (.numOwners numOwners)).write
          (.nonce nonce)).write (.approvalRoot E.emptyMerkleMapRoot)).write
          (.voteNullifierRoot E.emptyMerkleMapRoot)).write (.parent parent)).write
          (.parentNonce parentNonce)).write
          (.childExecutionRoot E.emptyMerkleMapRoot)).write
          (.childMultiSigEnabled 1)).emit
          [.setup (computeSetupOwnersChain E owners numOwners) threshold numOwners
            parent]).emit
          ((publishedOwners owners numOwners).map fun slot ↦
            .setupOwner slot.1 slot.2)) = F' := by
  simp only [initializeState, bind_ok, check_ok, requireEquals_ok, set_ok,
    setGovernanceState_ok, emitEvent_ok, emitEvents_ok, StateField.ownersCommitment,
    StateField.nonce, StateField.approvalRoot, StateField.voteNullifierRoot,
    StateField.parent, StateField.parentNonce, StateField.childExecutionRoot,
    StateField.childMultiSigEnabled, exists_and_left, exists_eq_left', exists_const,
    and_assoc]

theorem initialGovernance_of_ok {threshold numOwners : Fp} {owners : SetupOwnersInput}
    (h : assertValidInitialGovernance threshold numOwners = .ok ())
    (h' : assertCoherentSetupOwners E owners numOwners = .ok ()) :
    InitialGovernance E threshold numOwners owners := by
  obtain ⟨hpos, hle, hmax⟩ := assertValidInitialGovernance_ok.mp h
  exact ⟨hpos, hle, hmax, assertCoherentSetupOwners_ok h'⟩

theorem setup_spec {threshold numOwners : Fp} {owners : SetupOwnersInput}
    (h : setup E threshold numOwners owners P (Forest.start P.address) = .ok ((), F))
    (hF : F.Included L L') :
    (L.state P.address).ownersCommitment = 0 ∧
      (L.state P.address).parent = PublicKey.empty ∧
      InitialGovernance E threshold numOwners owners ∧
      F.Pins P.address (.ownersCommitment 0) ∧
      L'.state P.address =
        (L.state P.address).initialized E threshold numOwners PublicKey.empty owners := by
  simp only [setup, bind_ok, lockPermissions_ok, requireEquals_ok, StateField.parent,
    initializeState_ok, exists_and_left, exists_eq_left', exists_const] at h
  obtain ⟨hvalid, hcoherent, rfl⟩ := h
  have hown := hF.own
  simp only [Forest.require, Forest.write, Forest.emit, Forest.start,
    List.forall_mem_append, List.forall_mem_singleton, StateValue.Holds] at hown
  exact ⟨hown.2.symm, hown.1.2.symm, initialGovernance_of_ok hvalid hcoherent,
    ⟨rfl, List.mem_append_right _ (List.mem_singleton_self _)⟩, hF.state_self⟩

theorem reserveForParent_spec {parentAddress : PublicKey}
    {hash threshold numOwners : Fp} {owners : SetupOwnersInput}
    (h : reserveForParent E parentAddress hash threshold numOwners owners P
      (Forest.start P.address) = .ok ((), F))
    (hF : F.Included L L') :
    (L.state P.address).ownersCommitment = 0 ∧
      (L.state P.address).parent = PublicKey.empty ∧
      parentAddress ≠ PublicKey.empty ∧ parentAddress ≠ P.address ∧
      (L'.state parentAddress).ownersCommitment ≠ 0 ∧
      (L'.state parentAddress).parent = PublicKey.empty ∧
      InitialGovernance E threshold numOwners owners ∧
      F.Pins P.address (.parent PublicKey.empty) ∧
      L'.state P.address =
        { L.state P.address with
          parent := parentAddress
          reservedConfigHash := E.childConfigHash
            (computeSetupOwnersChain E owners numOwners) threshold numOwners } := by
  simp only [reserveForParent, bind_ok, check_ok, lockPermissions_ok, requireEquals_ok,
    Check.assertTrue_ok, Check.assertFalse_ok, thisAddress_ok, readGuard_ok, set_ok,
    StateField.ownersCommitment, StateField.parent, StateField.reservedConfigHash,
    emitEvent_ok, emitEvents_ok, exists_and_left, exists_eq_left', exists_const,
    and_assoc] at h
  obtain ⟨hne, -, hself, hinit, hroot, hvalid, hcoherent, rfl⟩ := h
  have hown := hF.own
  have hforeign := hF.foreign
  simp only [Forest.require, Forest.write, Forest.emit, Forest.attach, Forest.start,
    List.forall_mem_append, List.forall_mem_singleton, StateValue.Holds,
    reservingParentFields, List.forall_mem_cons] at hown hforeign
  obtain ⟨-, eowners, eparent⟩ := hforeign
  rw [eowners] at hinit
  rw [eparent] at hroot
  exact ⟨hown.1.2.symm, hown.2.symm, hne, hself, hinit, hroot,
    initialGovernance_of_ok hvalid hcoherent,
    ⟨rfl, List.mem_append_right _ (List.mem_singleton_self _)⟩, hF.state_self⟩

theorem executeSetupChild_spec {threshold numOwners : Fp} {owners : SetupOwnersInput}
    {p : TransactionProposal} {w : E.MerkleMapWitness} {count : Fp}
    (h : executeSetupChild E threshold numOwners owners p w count P
      (Forest.start P.address) = .ok ((), F))
    (hF : F.Included L L') :
    (L.state P.address).ownersCommitment = 0 ∧
      (L.state P.address).parent ≠ PublicKey.empty ∧
      p.txType = TxType.createChild ∧ p.destination = destinationRemote ∧
      p.childAccount = P.address ∧ p.nonce = 0 ∧
      p.data = E.childConfigHash (computeSetupOwnersChain E owners numOwners)
        threshold numOwners ∧
      (L.state P.address).reservedConfigHash = p.data ∧
      ApprovedBy E p (L.state P.address).parent
        (L'.state (L.state P.address).parent) w count ∧
      L.slot ≤ lastSlot p ∧
      InitialGovernance E threshold numOwners owners ∧
      F.Pins P.address (.ownersCommitment 0) ∧
      L'.state P.address =
        { (L.state P.address).initialized E threshold numOwners
            (L.state P.address).parent owners with
          reservedConfigHash := 0 } := by
  simp only [executeSetupChild, bind_ok, check_ok, getAndRequireEquals_ok,
    Check.assertTrue_ok, Check.assertFalse_ok, thisAddress_ok,
    assertParentApprovalState_ok, initializeState_ok, set_ok, StateField.parent,
    StateField.reservedConfigHash, emitEvent_ok, exists_and_left, exists_eq_left',
    exists_const, and_assoc] at h
  obtain ⟨hne, hparent, htype, hdest, hchild, hnonce, hcoherent, hdata, hreserved,
    happroved, -, hvalid, -, rfl⟩ := h
  have hown := hF.own
  have hslot := hF.slot_le
  have hforeign := hF.foreign
  have hstate := hF.state_self
  simp only [Forest.require, Forest.write, Forest.emit, Forest.bySlot, Forest.attach,
    Forest.start, List.forall_mem_append, List.forall_mem_singleton, StateValue.Holds]
    at hown hforeign
  obtain ⟨⟨⟨-, eparent⟩, ereserved⟩, hzero⟩ := hown
  have happroved := happroved.congr hforeign.2
  rw [eparent] at hparent
  rw [ereserved] at hreserved
  rw [← hparent] at happroved hne hstate
  exact ⟨hzero.symm, hne, htype, hdest, hchild, hnonce, hdata, hreserved.trans hdata.symm,
    happroved, hslot _ rfl, initialGovernance_of_ok hvalid hcoherent,
    ⟨rfl, List.mem_append_right _ (List.mem_singleton_self _)⟩, hstate⟩

/-! ## Proposing and approving -/

/-- The rules only `propose` enforces. -/
structure ProposalRules (E : Env) (p : TransactionProposal) : Prop where
  tokenId : p.tokenId = nativeTokenId
  target : (isLocalType p.txType ∧ p.destination = destinationLocal ∧
      p.childAccount = PublicKey.empty) ∨
    (isRemoteType p.txType ∧ p.destination = destinationRemote ∧
      p.childAccount ≠ PublicKey.empty)
  onCurve : ∀ r ∈ p.receivers.toList,
    r.address ≠ PublicKey.empty → E.onCurve r.address = true
  padding : ∀ r ∈ p.receivers.toList, r.address = PublicKey.empty → r.amount = 0
  amounts : ¬isTransferLike p.txType → ∀ r ∈ p.receivers.toList, r.amount = 0
  single : ¬isTransferLike p.txType →
    ∀ r ∈ p.receivers.toList.drop 1, r.address = PublicKey.empty
  slot0_empty : p.txType = TxType.changeThreshold ∨ isRemoteType p.txType →
    p.slot0.address = PublicKey.empty
  slot0_owner : p.txType = TxType.addOwner ∨ p.txType = TxType.removeOwner →
    p.slot0.address ≠ PublicKey.empty
  data_unused : ¬allowsData p.txType → p.data = 0
  data_addOwner : p.txType = TxType.addOwner → p.data ≠ 0
  data_threshold : p.txType = TxType.changeThreshold → 0 < p.data.val
  data_enabled : p.txType = TxType.enableChildMultiSig → p.data = 0 ∨ p.data = 1

theorem assertReceiverRules_ok {r : Receiver} {u : Unit} :
    assertReceiverRules E r = .ok u ↔
      (r.address ≠ PublicKey.empty → E.onCurve r.address = true) ∧
        (r.address = PublicKey.empty → r.amount = 0) := by
  simp only [assertReceiverRules, Check.bind_ok, assertOnCurveIf_ok,
    Check.assertFalse_ok, exists_and_left, exists_const, not_and, not_not, Ne]

theorem amountValue_eq_zero {amount : UInt64} : amountValue amount = 0 ↔ amount = 0 := by
  constructor
  · intro h
    apply amountValue_injective
    rw [h]
    simp [amountValue]
  · rintro rfl
    simp [amountValue]

theorem assertProposalRules_spec {p : TransactionProposal} {parent : PublicKey}
    {u : Unit} {F' : Forest} (hdest : DestinationRules p parent)
    (h : assertProposalRules E p P F = .ok (u, F')) :
    ProposalRules E p ∧
      (p.txType = TxType.changeThreshold →
        p.data.val ≤ (P.state P.address).numOwners.val) ∧
      (F.require (.threshold (P.state P.address).threshold)).require
        (.numOwners (P.state P.address).numOwners) = F' := by
  simp only [assertProposalRules, bind_ok, check_ok, Check.assertTrue_ok,
    Check.assertFalse_ok, Check.forM_ok, getGovernanceState_ok, assertReceiverRules_ok,
    exists_and_left, exists_eq_left', exists_const, and_assoc] at h
  obtain ⟨-, htarget, howner, hchange, hremote, hsingle, hamounts, hdata, hadd, hpos, hle,
    henabled, htoken, hreceivers, hF⟩ := h
  have hor {a b : Prop} (hab : a ∨ b) (ha : ¬a) : b := hab.resolve_left ha
  refine ⟨?_, fun htype ↦ hor hle (not_not.mpr htype), hF⟩
  refine
    { tokenId := htoken
      target := ?_
      onCurve := fun r hr ↦ (hreceivers r hr).1
      padding := fun r hr ↦ (hreceivers r hr).2
      amounts := fun htype r hr ↦ amountValue_eq_zero.mp (hor (hamounts r hr) htype)
      single := fun htype ↦ hor hsingle htype
      slot0_empty := ?_
      slot0_owner := fun htype hempty ↦ howner ⟨htype, hempty⟩
      data_unused := fun htype ↦ hor hdata htype
      data_addOwner := fun htype hzero ↦ hadd ⟨htype, hzero⟩
      data_threshold := fun htype ↦ by simpa [greaterThan] using hor hpos (not_not.mpr htype)
      data_enabled := fun htype ↦ hor henabled (not_not.mpr htype) }
  · rcases htarget with ⟨htype, hlocal⟩ | ⟨htype, hremote⟩
    · left
      rcases hdest with ⟨-, hchild⟩ | ⟨hremote, -⟩
      · exact ⟨htype, hlocal, hchild⟩
      · exact absurd (hlocal.symm.trans hremote) destinationLocal_ne_remote
    · right
      rcases hdest with ⟨hlocal, -⟩ | ⟨-, hchild, -⟩
      · exact absurd (hlocal.symm.trans hremote) destinationLocal_ne_remote
      · exact ⟨htype, hremote, hchild⟩
  · rintro (htype | htype)
    · exact not_not.mp fun hne ↦ hchange ⟨htype, hne⟩
    · exact not_not.mp fun hne ↦ hremote ⟨htype, hne⟩

/-- What `propose` and `approveProposal` check on the guard `this` in state
`s`, with the nonce authority of the proposal in state `authority`. -/
structure VoteChecks (E : Env) (this : PublicKey) (s authority : GuardState) (slot : ℕ)
    (p : TransactionProposal) (k : PublicKey) (ow : OwnerWitness)
    (vw aw : E.MerkleMapWitness) (count : Fp) : Prop where
  enabled : s.parent = PublicKey.empty ∨ s.childMultiSigEnabled = 1
  initialized : s.ownersCommitment ≠ 0
  member : k ∈ presentKeys ow.toList
  owners : computeOwnerChain E (presentKeys ow.toList) = s.ownersCommitment
  configNonce : p.configNonce = s.configNonce
  guard : p.guardAddress = this
  destination : DestinationRules p s.parent
  inTime : slot ≤ lastSlot p
  fresh : FreshNonce p this s.nonce authority
  voteRoot : (E.merkleMap.computeRootAndKey vw 0).1 = s.voteNullifierRoot
  voteKey : (E.merkleMap.computeRootAndKey vw 0).2 =
    E.voteNullifierKey (E.proposalHash p) k
  root : (E.merkleMap.computeRootAndKey aw count).1 = s.approvalRoot
  key : (E.merkleMap.computeRootAndKey aw count).2 = E.proposalHash p

theorem FreshNonce.congr {p : TransactionProposal} {a : PublicKey} {nonce : Fp}
    {s t : GuardState} (h : FreshNonce p a nonce s)
    (hread : ∀ v ∈ nonceAuthorityFields s, v.Holds t) : FreshNonce p a nonce t := by
  simp only [nonceAuthorityFields, List.forall_mem_cons, StateValue.Holds] at hread
  obtain ⟨howners, hparent, hnonce, -⟩ := hread
  unfold FreshNonce at h ⊢
  rwa [howners, hparent, hnonce] at h

/-- The state fields of the guard that a vote depends on. -/
def voteFields (s : GuardState) : List StateValue :=
  [.parent s.parent, .childMultiSigEnabled s.childMultiSigEnabled,
    .ownersCommitment s.ownersCommitment, .configNonce s.configNonce, .nonce s.nonce,
    .voteNullifierRoot s.voteNullifierRoot, .approvalRoot s.approvalRoot]

theorem VoteChecks.congr {a : PublicKey} {s t s' t' : GuardState} {slot : ℕ}
    {p : TransactionProposal} {k : PublicKey} {ow : OwnerWitness}
    {vw aw : E.MerkleMapWitness} {count : Fp}
    (h : VoteChecks E a s t slot p k ow vw aw count)
    (hown : ∀ v ∈ voteFields s, v.Holds s')
    (hread : ∀ v ∈ nonceAuthorityFields t, v.Holds t') :
    VoteChecks E a s' t' slot p k ow vw aw count := by
  simp only [voteFields, List.forall_mem_cons, StateValue.Holds] at hown
  obtain ⟨hparent, henabled, howners, hconfig, hnonce, hvote, happroval, -⟩ := hown
  exact
    { enabled := hparent ▸ henabled ▸ h.enabled
      initialized := howners ▸ h.initialized
      member := h.member
      owners := howners ▸ h.owners
      configNonce := hconfig ▸ h.configNonce
      guard := h.guard
      destination := hparent ▸ h.destination
      inTime := h.inTime
      fresh := hnonce ▸ h.fresh.congr hread
      voteRoot := hvote ▸ h.voteRoot
      voteKey := h.voteKey
      root := happroval ▸ h.root
      key := h.key }

theorem propose_spec {p : TransactionProposal} {ow : OwnerWitness} {k : PublicKey}
    {sig : E.Signature} {vw aw : E.MerkleMapWitness}
    (h : propose E p ow k sig vw aw P (Forest.start P.address) = .ok ((), F))
    (hF : F.Included L L') :
    VoteChecks E P.address (L.state P.address) (L'.state (nonceAuthority p P.address))
        L.slot p k ow vw aw 0 ∧
      ProposalRules E p ∧
      E.verify sig k [E.proposalSigningMessage (E.proposalHash p) .propose] = true ∧
      F.Pins P.address (.voteNullifierRoot (L.state P.address).voteNullifierRoot) ∧
      L'.state P.address =
        { L.state P.address with
          voteNullifierRoot := (E.merkleMap.computeRootAndKey vw 1).1
          approvalRoot :=
            (E.merkleMap.computeRootAndKey aw (proposedMarker + 1)).1 } := by
  simp only [propose, bind_ok, check_ok, assertChildMultiSigEnabledIfChild_ok,
    getInitializedOwnersCommitment_ok, assertOwnerMembership_ok,
    assertProposalConfigNetworkAndGuard_ok, assertProposalDestinationAndChildAccount_ok,
    assertProposalNotExpired_ok, assertFreshProposalNonce_ok, Check.assertTrue_ok,
    nullifyVote_ok, assertApprovalWitnessValue_ok, set_ok, StateField.approvalRoot,
    emitEvent_ok, emitReceiversEvent_ok, exists_and_left, exists_eq_left', exists_const,
    and_assoc] at h
  obtain ⟨henabled, hinit, hmember, howners, hconfig, hguard, hdest, -, hfresh, _, F₁,
    hpassed, hsig, hvoteRoot, hvoteKey, hroot, hkey, rfl⟩ := h
  obtain ⟨hrules, -, rfl⟩ := assertProposalRules_spec hdest hpassed
  have hclaimed : VoteChecks E P.address (P.state P.address)
      (P.state (nonceAuthority p P.address)) L.slot p k ow vw aw 0 :=
    { enabled := henabled
      initialized := hinit
      member := hmember
      owners := howners
      configNonce := hconfig
      guard := hguard
      destination := hdest
      inTime := hF.slot_le _ rfl
      fresh := hfresh
      voteRoot := hvoteRoot
      voteKey := hvoteKey
      root := hroot
      key := hkey }
  have hown : ∀ v ∈ voteFields (P.state P.address), v.Holds (L.state P.address) := by
    intro v hv
    apply hF.own v
    simp only [voteFields, List.mem_cons, List.not_mem_nil, or_false] at hv
    rcases hv with rfl | rfl | rfl | rfl | rfl | rfl | rfl <;>
      simp [Forest.require, Forest.write, Forest.emit, Forest.bySlot, Forest.attach]
  have hvote : (P.state P.address).voteNullifierRoot =
      (L.state P.address).voteNullifierRoot :=
    hown (.voteNullifierRoot _) (by simp [voteFields])
  refine ⟨hclaimed.congr hown (hF.foreign _ List.mem_cons_self), hrules, hsig,
    ⟨rfl, ?_⟩, hF.state_self⟩
  rw [← hvote]
  exact List.mem_append_left _ (List.mem_append_right _ (List.mem_singleton_self _))

theorem approveProposal_spec {p : TransactionProposal} {ow : OwnerWitness}
    {k : PublicKey} {sig : E.Signature} {vw aw : E.MerkleMapWitness} {count : Fp}
    (h : approveProposal E p sig k ow aw count vw P (Forest.start P.address) =
      .ok ((), F))
    (hF : F.Included L L') :
    VoteChecks E P.address (L.state P.address) (L'.state (nonceAuthority p P.address))
        L.slot p k ow vw aw count ∧
      count ≠ executedMarker ∧ proposedMarker.val ≤ count.val ∧
      E.verify sig k [E.proposalSigningMessage (E.proposalHash p) .approve] = true ∧
      F.Pins P.address (.voteNullifierRoot (L.state P.address).voteNullifierRoot) ∧
      L'.state P.address =
        { L.state P.address with
          voteNullifierRoot := (E.merkleMap.computeRootAndKey vw 1).1
          approvalRoot := (E.merkleMap.computeRootAndKey aw (count + 1)).1 } := by
  simp only [approveProposal, bind_ok, check_ok, assertChildMultiSigEnabledIfChild_ok,
    getInitializedOwnersCommitment_ok, assertOwnerMembership_ok,
    assertProposalConfigNetworkAndGuard_ok, assertProposalDestinationAndChildAccount_ok,
    assertProposalNotExpired_ok, assertFreshProposalNonce_ok, assertNotExecuted,
    assertProposalExists, Check.assertTrue_ok, Check.assertFalse_ok, nullifyVote_ok,
    assertApprovalWitnessValue_ok, set_ok, StateField.approvalRoot, emitEvent_ok,
    exists_and_left, exists_eq_left', exists_const, and_assoc] at h
  obtain ⟨henabled, hinit, hmember, howners, hconfig, hguard, hdest, -, hfresh, hsig,
    hexecuted, hproposed, hvoteRoot, hvoteKey, hroot, hkey, rfl⟩ := h
  have hclaimed : VoteChecks E P.address (P.state P.address)
      (P.state (nonceAuthority p P.address)) L.slot p k ow vw aw count :=
    { enabled := henabled
      initialized := hinit
      member := hmember
      owners := howners
      configNonce := hconfig
      guard := hguard
      destination := hdest
      inTime := hF.slot_le _ rfl
      fresh := hfresh
      voteRoot := hvoteRoot
      voteKey := hvoteKey
      root := hroot
      key := hkey }
  have hown : ∀ v ∈ voteFields (P.state P.address), v.Holds (L.state P.address) := by
    intro v hv
    apply hF.own v
    simp only [voteFields, List.mem_cons, List.not_mem_nil, or_false] at hv
    rcases hv with rfl | rfl | rfl | rfl | rfl | rfl | rfl <;>
      simp [Forest.require, Forest.write, Forest.emit, Forest.bySlot, Forest.attach]
  have hvote : (P.state P.address).voteNullifierRoot =
      (L.state P.address).voteNullifierRoot :=
    hown (.voteNullifierRoot _) (by simp [voteFields])
  refine ⟨hclaimed.congr hown (hF.foreign _ List.mem_cons_self), hexecuted, hproposed,
    hsig, ⟨rfl, ?_⟩, hF.state_self⟩
  rw [← hvote]
  exact List.mem_append_left _ (List.mem_append_right _ (List.mem_singleton_self _))

end MinaGuard
