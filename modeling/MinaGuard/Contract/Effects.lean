import MinaGuard.Contract.MethodSpec

/-!
# Events and payments

Besides the state it writes, an included call publishes events and moves MINA.
Both are determined by the call, the state it is included on and, for
`executeDestroy`, the balance its prover claims.
-/

namespace MinaGuard

open Foundations Circuit

namespace Forest

/-- What the attached updates credit to an account. -/
def credited (F : Forest) (a : PublicKey) : ℕ :=
  ((F.children.filter fun c ↦ c.publicKey = a).map ChildUpdate.credit).sum

/-- Balances across the inclusion of a forest. -/
structure Settled (F : Forest) (L L' : Ledger) : Prop where
  debit_le : F.self.debit ≤ (L.account F.self.publicKey).balance
  self : (L'.account F.self.publicKey).balance + F.self.debit =
    (L.account F.self.publicKey).balance + F.credited F.self.publicKey
  other : ∀ a, a ≠ F.self.publicKey →
    (L'.account a).balance = (L.account a).balance + F.credited a

theorem balance_children {children : List ChildUpdate} {L L' : Ledger}
    (h : children.foldlM ChildUpdate.apply L = some L') (a : PublicKey) :
    (L'.account a).balance = (L.account a).balance +
      ((children.filter fun c ↦ c.publicKey = a).map ChildUpdate.credit).sum := by
  induction children generalizing L with
  | nil =>
      obtain rfl : L = L' := by simpa using h
      simp
  | cons c children ih =>
      rw [List.foldlM_cons] at h
      obtain ⟨L₁, hhead, htail⟩ := Option.bind_eq_some_iff.mp h
      obtain ⟨-, hcredit⟩ := Option.ite_none_right_eq_some.mp hhead
      cases hcredit
      rw [ih htail, Ledger.balance_credit]
      by_cases ha : c.publicKey = a
      · simp [ha, add_assoc]
      · simp [ha, Ne.symm ha]

theorem settled_of_apply {F : Forest} {L L' : Ledger} (h : F.apply L = some L') :
    F.Settled L L' := by
  obtain ⟨L₁, hself, hchildren⟩ := Option.bind_eq_some_iff.mp h
  obtain ⟨hsat, hupdate⟩ := Option.ite_none_right_eq_some.mp hself
  cases hupdate
  obtain ⟨-, -, -, hdebit, -⟩ := hsat
  refine ⟨hdebit, ?_, ?_⟩
  · rw [balance_children hchildren, Ledger.account_setAccount_self]
    change (L.account F.self.publicKey).balance - F.self.debit + F.credited _ +
      F.self.debit = _
    omega
  · intro a ha
    rw [balance_children hchildren, Ledger.account_setAccount_of_ne L _ ha]
    rfl

end Forest

/-- What a list of payments amounts to for one recipient. -/
def paidTo (a : PublicKey) (payments : List (PublicKey × ℕ)) : ℕ :=
  ((payments.filter fun x ↦ x.1 = a).map Prod.snd).sum

/-- The forest emits these events and makes these payments, nothing else. -/
structure Forest.Effects (F : Forest) (events : List Event)
    (payments : List (PublicKey × ℕ)) : Prop where
  events : F.self.events = events
  debit : F.self.debit = (payments.map Prod.snd).sum
  credited : ∀ a, F.credited a = paidTo a payments

namespace Forest.Effects

variable {F : Forest} {events : List Event} {payments : List (PublicKey × ℕ)}

/-- A forest whose attached updates only read pays nothing. -/
theorem of_reads (hevents : F.self.events = events) (hdebit : F.self.debit = 0)
    (hreads : ∀ c ∈ F.children, c.credit = 0) : F.Effects events [] := by
  refine ⟨hevents, hdebit, ?_⟩
  intro a
  apply List.sum_eq_zero
  intro credit hcredit
  obtain ⟨c, hc, rfl⟩ := List.mem_map.mp hcredit
  exact hreads c (List.mem_of_mem_filter hc)

theorem require (h : F.Effects events payments) (v : StateValue) :
    (F.require v).Effects events payments := ⟨h.events, h.debit, h.credited⟩

theorem write (h : F.Effects events payments) (v : StateValue) :
    (F.write v).Effects events payments := ⟨h.events, h.debit, h.credited⟩

theorem emit (h : F.Effects events payments) (es : List Event) :
    (F.emit es).Effects (events ++ es) payments := by
  refine ⟨?_, h.debit, h.credited⟩
  rw [← h.events]
  rfl

theorem payAll (h : F.Effects events payments) (children : List ChildUpdate) :
    (F.payAll children).Effects events
      (payments ++ children.map fun c ↦ (c.publicKey, c.credit)) := by
  refine ⟨h.events, ?_, ?_⟩
  · simp [Forest.payAll, h.debit, Function.comp_def]
  · intro a
    have hcredited := h.credited a
    unfold Forest.credited at hcredited
    simp [Forest.credited, Forest.payAll, paidTo, hcredited, List.filter_map,
      Function.comp_def]

theorem pay (h : F.Effects events payments) (c : ChildUpdate) :
    (F.pay c).Effects events (payments ++ [(c.publicKey, c.credit)]) := by
  have hall := h.payAll [c]
  rwa [Forest.payAll_cons, Forest.payAll_nil] at hall

end Forest.Effects

/-- One payment for each slot, of nothing to the guard itself for an empty one. -/
def slotPayments (p : TransactionProposal) (this : PublicKey) : List (PublicKey × ℕ) :=
  p.receivers.toList.map fun r ↦
    (if r.address = PublicKey.empty then this else r.address, (effectiveAmount r).toNat)

namespace MethodCall

variable {E : Env}

/-- What a call on `this` in state `s` pays; `balance` is the balance its prover
claims. -/
def payments (m : MethodCall E) (this : PublicKey) (s : GuardState) (balance : UInt64) :
    List (PublicKey × ℕ) :=
  match m with
  | .executeTransfer p _ _ => slotPayments p this
  | .executeAllocateToChildren p _ _ => slotPayments p this
  | .executeReclaimToParent _ _ _ _ amount => [(s.parent, amount.toNat)]
  | .executeDestroy .. => [(s.parent, balance.toNat)]
  | _ => []

end MethodCall

/-- The events of `initializeState`. -/
def setupEvents (E : Env) (threshold numOwners : Fp) (parent : PublicKey)
    (owners : SetupOwnersInput) : List Event :=
  .setup (computeSetupOwnersChain E owners numOwners) threshold numOwners parent ::
    (publishedOwners owners numOwners).map fun slot ↦ .setupOwner slot.1 slot.2

/-- The receiver events of `propose`. -/
def receiverEvents (E : Env) (p : TransactionProposal) : List Event :=
  p.receivers.toList.map fun r ↦
    .receiver (E.proposalHash p) r.address (effectiveAmount r)

/-- The proposal event of `propose`. -/
def proposalEvent (E : Env) (p : TransactionProposal) (proposer : PublicKey) : Event :=
  .proposal (E.proposalHash p) proposer p.tokenId p.txType p.data p.memoHash p.nonce
    p.configNonce p.expirySlot p.guardAddress p.destination p.childAccount

/-- The root a witness computes for a value. -/
def Env.root (E : Env) (w : E.MerkleMapWitness) (value : Fp) : Fp :=
  (E.merkleMap.computeRootAndKey w value).1

/-- The owner commitment an owner change leads to. -/
def changedOwnersCommitment (E : Env) (ownersCommitment : Fp) (p : TransactionProposal)
    (ow : OwnerWitness) (pos : PublicKeyOption) : Fp :=
  if p.txType = TxType.removeOwner then
    (removeOwnerFromCommitment E ownersCommitment p.slot0.address ow).1
  else (addOwnerToCommitment E ownersCommitment p.slot0.address ow pos).1

namespace MethodCall

variable {E : Env}

/-- What a call on `this` in state `s` publishes; `balance` is the balance its
prover claims. -/
def emits (m : MethodCall E) (this : PublicKey) (s : GuardState) (balance : UInt64) :
    List Event :=
  match m with
  | .setup t n o => setupEvents E t n PublicKey.empty o
  | .reserveForParent _ hash t n o =>
      .createChildConfig hash this (computeSetupOwnersChain E o n) t n ::
        (publishedOwners o n).map fun slot ↦ .createChildOwner hash slot.1 slot.2
  | .executeSetupChild t n o p _ _ =>
      setupEvents E t n p.guardAddress o ++
        [.execution (E.proposalHash p) p.txType E.emptyMerkleMapRoot,
          .createChild (E.proposalHash p) p.guardAddress]
  | .propose p _ k _ vw aw =>
      proposalEvent E p k :: receiverEvents E p ++
        [.approval (E.proposalHash p) k (proposedMarker + 1)
          (E.root aw (proposedMarker + 1)) (E.root vw 1)]
  | .approveProposal p _ k _ aw c vw =>
      [.approval (E.proposalHash p) k (c + 1) (E.root aw (c + 1)) (E.root vw 1)]
  | .executeTransfer p w _ =>
      [.execution (E.proposalHash p) p.txType (E.root w executedMarker)]
  | .executeAllocateToChildren p w _ =>
      [.execution (E.proposalHash p) p.txType (E.root w executedMarker)]
  | .executeOwnerChange p w _ ow pos =>
      [.execution (E.proposalHash p) p.txType (E.root w executedMarker),
        .ownerChange (E.proposalHash p) p.slot0.address
          (toField (decide (p.txType = TxType.addOwner)))
          (s.numOwners + toField (decide (p.txType = TxType.addOwner)) -
            toField (decide (p.txType = TxType.removeOwner)))
          (changedOwnersCommitment E s.ownersCommitment p ow pos) (s.configNonce + 1)]
  | .executeThresholdChange p w _ newThreshold =>
      [.execution (E.proposalHash p) p.txType (E.root w executedMarker),
        .thresholdChange (E.proposalHash p) s.threshold newThreshold (s.configNonce + 1)]
  | .executeDelegate p w _ =>
      [.execution (E.proposalHash p) p.txType (E.root w executedMarker),
        .delegate (E.proposalHash p)
          (if p.slot0.address = PublicKey.empty then this else p.slot0.address)]
  | .executeReclaimToParent p _ _ cw amount =>
      [.execution (E.proposalHash p) p.txType (E.root cw executedMarker),
        .reclaimChild (E.proposalHash p) s.parent amount]
  | .executeDestroy p _ _ cw =>
      [.execution (E.proposalHash p) p.txType (E.root cw executedMarker),
        .reclaimChild (E.proposalHash p) s.parent balance,
        .enableChildMultiSig (E.proposalHash p) s.parent 0 (s.configNonce + 1)]
  | .executeEnableChildMultiSig p _ _ cw enabled =>
      [.execution (E.proposalHash p) p.txType (E.root cw executedMarker),
        .enableChildMultiSig (E.proposalHash p) s.parent enabled
          (s.configNonce + toField (decide (enabled = 0)))]

end MethodCall

/-! ## What the methods do -/

section Methods

variable {E : Env} {P : Prover} {F F₁ : Forest} {L L' : Ledger}

/-- The opening of a LOCAL execution has no effects. -/
theorem beginLocalExecution_effects {typeCheck : Check} {p : TransactionProposal}
    {w : E.MerkleMapWitness} {count : Fp} {c : LocalContext}
    (h : beginLocalExecution E typeCheck p w count P (Forest.start P.address) =
      .ok (c, F₁)) : F₁.Effects [] [] := by
  simp only [beginLocalExecution, bind_ok, check_ok, Circuit.pure_ok,
    assertChildMultiSigEnabledIfChild_ok, getInitializedOwnersCommitment_ok,
    assertLocalProposal, assertProposalConfigNetworkAndGuard_ok,
    assertProposalNotExpired_ok, assertNotExecuted, assertProposalExists,
    getGovernanceState_ok, assertThresholdSatisfied, assertApprovalWitnessValue_ok,
    assertAndIncrementLocalNonce_ok, exists_and_left, exists_eq_left', exists_const,
    and_assoc] at h
  obtain ⟨-, -, -, -, -, -, -, -, -, -, -, -, -, -, rfl⟩ := h
  exact ⟨rfl, rfl, fun _ ↦ rfl⟩

theorem beginRemoteExecution_hash {typeCheck : Check} {p : TransactionProposal}
    {pw cw : E.MerkleMapWitness} {count hash : Fp} {F : Forest}
    (h : beginRemoteExecution E typeCheck p pw count cw P F = .ok (hash, F₁)) :
    E.proposalHash p = hash := by
  simp only [beginRemoteExecution, bind_ok, check_ok, Circuit.pure_ok,
    verifyParentApproval_ok, assertParentApprovalState_ok] at h
  obtain ⟨_, _, -, _, _, -, _, _, -, _, _, ⟨-, -, -, rfl, -⟩, _, _, -, _, _, -, rfl, -⟩ := h
  rfl

/-- The opening of a REMOTE execution reads the parent and has no effects. -/
theorem beginRemoteExecution_effects {typeCheck : Check} {p : TransactionProposal}
    {pw cw : E.MerkleMapWitness} {count hash : Fp}
    (h : beginRemoteExecution E typeCheck p pw count cw P (Forest.start P.address) =
      .ok (hash, F₁)) : F₁.Effects [] [] := by
  simp only [beginRemoteExecution, bind_ok, check_ok, Circuit.pure_ok,
    getInitializedOwnersCommitment_ok, assertValidRemoteProposal_ok,
    verifyParentApproval_ok, assertParentApprovalState_ok,
    assertChildExecutionWitnessValue_ok, assertAndIncrementParentNonce_ok,
    exists_and_left, exists_eq_left', exists_const, and_assoc] at h
  obtain ⟨-, -, -, -, -, -, -, -, -, -, -, rfl⟩ := h
  exact .of_reads rfl rfl (List.forall_mem_singleton.mpr rfl)

theorem setup_effects {threshold numOwners : Fp} {owners : SetupOwnersInput}
    (h : setup E threshold numOwners owners P (Forest.start P.address) = .ok ((), F)) :
    F.Effects (setupEvents E threshold numOwners PublicKey.empty owners) [] := by
  simp only [setup, bind_ok, lockPermissions_ok, requireEquals_ok, StateField.parent,
    initializeState_ok, exists_and_left, exists_eq_left', exists_const] at h
  obtain ⟨-, -, rfl⟩ := h
  exact ⟨rfl, rfl, fun _ ↦ rfl⟩

theorem reserveForParent_effects {parentAddress : PublicKey}
    {hash threshold numOwners : Fp} {owners : SetupOwnersInput}
    (h : reserveForParent E parentAddress hash threshold numOwners owners P
      (Forest.start P.address) = .ok ((), F)) :
    F.Effects
      (.createChildConfig hash P.address (computeSetupOwnersChain E owners numOwners)
          threshold numOwners ::
        (publishedOwners owners numOwners).map fun slot ↦
          .createChildOwner hash slot.1 slot.2) [] := by
  simp only [reserveForParent, bind_ok, check_ok, lockPermissions_ok, requireEquals_ok,
    thisAddress_ok, readGuard_ok, set_ok, StateField.ownersCommitment, StateField.parent,
    StateField.reservedConfigHash, emitEvent_ok, emitEvents_ok, exists_and_left,
    exists_eq_left', exists_const, and_assoc] at h
  obtain ⟨-, -, -, -, -, -, -, rfl⟩ := h
  exact .of_reads rfl rfl (List.forall_mem_singleton.mpr rfl)

theorem executeSetupChild_effects {threshold numOwners : Fp} {owners : SetupOwnersInput}
    {p : TransactionProposal} {w : E.MerkleMapWitness} {count : Fp}
    (h : executeSetupChild E threshold numOwners owners p w count P
      (Forest.start P.address) = .ok ((), F)) :
    F.Effects (setupEvents E threshold numOwners p.guardAddress owners ++
      [.execution (E.proposalHash p) p.txType E.emptyMerkleMapRoot,
        .createChild (E.proposalHash p) p.guardAddress]) [] := by
  simp only [executeSetupChild, bind_ok, check_ok, getAndRequireEquals_ok, thisAddress_ok,
    assertParentApprovalState_ok, initializeState_ok, set_ok, StateField.parent,
    StateField.reservedConfigHash, emitEvent_ok, exists_and_left, exists_eq_left',
    exists_const, and_assoc] at h
  obtain ⟨-, -, -, -, -, -, -, -, -, -, -, -, -, rfl⟩ := h
  refine .of_reads ?_ rfl (List.forall_mem_singleton.mpr rfl)
  simp [Forest.emit, Forest.require, Forest.write, Forest.bySlot, Forest.attach,
    Forest.start, setupEvents]

theorem propose_effects {p : TransactionProposal} {ow : OwnerWitness} {k : PublicKey}
    {sig : E.Signature} {vw aw : E.MerkleMapWitness}
    (h : propose E p ow k sig vw aw P (Forest.start P.address) = .ok ((), F)) :
    F.Effects (proposalEvent E p k :: receiverEvents E p ++
      [.approval (E.proposalHash p) k (proposedMarker + 1)
        (E.root aw (proposedMarker + 1)) (E.root vw 1)]) [] := by
  simp only [propose, bind_ok, check_ok, assertChildMultiSigEnabledIfChild_ok,
    getInitializedOwnersCommitment_ok, assertOwnerMembership_ok,
    assertProposalConfigNetworkAndGuard_ok, assertProposalDestinationAndChildAccount_ok,
    assertProposalNotExpired_ok, assertFreshProposalNonce_ok, Check.assertTrue_ok,
    nullifyVote_ok, assertApprovalWitnessValue_ok, set_ok, StateField.approvalRoot,
    emitEvent_ok, emitReceiversEvent_ok, exists_and_left, exists_eq_left', exists_const,
    and_assoc] at h
  obtain ⟨-, -, -, -, -, -, hdest, -, -, _, F₁, hpassed, -, -, -, -, -, rfl⟩ := h
  obtain ⟨-, -, rfl⟩ := assertProposalRules_spec hdest hpassed
  exact .of_reads rfl rfl (List.forall_mem_singleton.mpr rfl)

theorem approveProposal_effects {p : TransactionProposal} {ow : OwnerWitness}
    {k : PublicKey} {sig : E.Signature} {vw aw : E.MerkleMapWitness} {count : Fp}
    (h : approveProposal E p sig k ow aw count vw P (Forest.start P.address) =
      .ok ((), F)) :
    F.Effects [.approval (E.proposalHash p) k (count + 1) (E.root aw (count + 1))
      (E.root vw 1)] [] := by
  simp only [approveProposal, bind_ok, check_ok, assertChildMultiSigEnabledIfChild_ok,
    getInitializedOwnersCommitment_ok, assertOwnerMembership_ok,
    assertProposalConfigNetworkAndGuard_ok, assertProposalDestinationAndChildAccount_ok,
    assertProposalNotExpired_ok, assertFreshProposalNonce_ok, assertNotExecuted,
    assertProposalExists, Check.assertTrue_ok, Check.assertFalse_ok, nullifyVote_ok,
    assertApprovalWitnessValue_ok, set_ok, StateField.approvalRoot, emitEvent_ok,
    exists_and_left, exists_eq_left', exists_const, and_assoc] at h
  obtain ⟨-, -, -, -, -, -, -, -, -, -, -, -, -, -, -, -, rfl⟩ := h
  exact .of_reads rfl rfl (List.forall_mem_singleton.mpr rfl)

/-! The executions: the opening, then the payments and the events. -/

theorem executeTransfer_effects {p : TransactionProposal} {w : E.MerkleMapWitness}
    {count : Fp}
    (h : executeTransfer E p w count P (Forest.start P.address) = .ok ((), F))
    (hF : F.Included L L') :
    F.Effects [.execution (E.proposalHash p) p.txType (E.root w executedMarker)]
      (slotPayments p P.address) := by
  simp only [executeTransfer, bind_ok, executeTransfers_ok, markExecuted_ok,
    emitEvent_ok, exists_and_left, exists_eq_left', exists_const, and_assoc] at h
  obtain ⟨c, F₁, hopen, hrest⟩ := h
  have hcompletes : F₁.Completes F []
      [.approvalRoot (E.merkleMap.computeRootAndKey w executedMarker).1] := by
    subst hrest
    exact ⟨rfl, (List.append_nil _).symm, rfl, rfl⟩
  obtain ⟨-, -, rfl, -⟩ := localExecution_spec hopen hcompletes hF
  subst hrest
  have hpaid := (beginLocalExecution_effects hopen).payAll (transferCredits p P.address)
  have hslots : (transferCredits p P.address).map (fun c ↦ (c.publicKey, c.credit)) =
      slotPayments p P.address := by
    simp [transferCredits, slotPayments]
  rw [hslots] at hpaid
  exact (hpaid.write _).emit _

theorem executeAllocateToChildren_effects {p : TransactionProposal}
    {w : E.MerkleMapWitness} {count : Fp}
    (h : executeAllocateToChildren E p w count P (Forest.start P.address) = .ok ((), F))
    (hF : F.Included L L') :
    F.Effects [.execution (E.proposalHash p) p.txType (E.root w executedMarker)]
        (slotPayments p P.address) ∧
      ∀ r ∈ p.receivers.toList, r.address ≠ PublicKey.empty →
        (L'.state r.address).ownersCommitment ≠ 0 ∧
          (L'.state r.address).parent = P.address := by
  have hloop : ∀ i F F', allocateToChild P.address i P F = .ok ((), F') ↔ _ :=
    fun i F F' ↦ allocateToChild_ok
  simp only [executeAllocateToChildren, bind_ok, thisAddress_ok, forM_pay_ok hloop,
    markExecuted_ok, emitEvent_ok, exists_and_left, exists_eq_left', exists_const,
    and_assoc] at h
  obtain ⟨c, F₁, hopen, hslots, hrest⟩ := h
  have hcompletes : F₁.Completes F []
      [.approvalRoot (E.merkleMap.computeRootAndKey w executedMarker).1] := by
    subst hrest
    exact ⟨rfl, (List.append_nil _).symm, rfl, rfl⟩
  obtain ⟨-, -, rfl, -⟩ := localExecution_spec hopen hcompletes hF
  subst hrest
  refine ⟨?_, ?_⟩
  · have hpaid := (beginLocalExecution_effects hopen).payAll (p.receivers.toList.map
      fun r ↦
        { publicKey := if r.address = PublicKey.empty then P.address else r.address
          preconditions := allocationFields
            (P.state (if r.address = PublicKey.empty then P.address else r.address))
          credit := (effectiveAmount r).toNat })
    rw [List.map_map] at hpaid
    exact (hpaid.write _).emit _
  · intro r hr hne
    obtain ⟨hinit, hparent⟩ := (hslots r hr).resolve_left hne
    have hread := hF.foreign _ (List.mem_append_right _ (List.mem_map_of_mem hr))
    simp only [if_neg hne, allocationFields, List.forall_mem_cons, StateValue.Holds]
      at hread
    rw [← hread.1, ← hread.2.1]
    exact ⟨hinit, hparent⟩

theorem executeOwnerChange_effects {p : TransactionProposal} {w : E.MerkleMapWitness}
    {count : Fp} {ow : OwnerWitness} {pos : PublicKeyOption}
    (h : executeOwnerChange E p w count ow pos P (Forest.start P.address) = .ok ((), F))
    (hF : F.Included L L') :
    F.Effects ((MethodCall.executeOwnerChange p w count ow pos).emits P.address
      (L.state P.address) P.balance) [] := by
  simp only [executeOwnerChange, bind_ok, check_ok, set_ok, setGovernanceState_ok,
    markExecuted_ok, bumpConfigNonce_ok, emitEvent_ok, StateField.ownersCommitment,
    exists_and_left, exists_eq_left', exists_const, and_assoc] at h
  obtain ⟨c, F₁, hopen, -, -, -, -, hrest⟩ := h
  have hcompletes : F₁.Completes F [.configNonce (P.state P.address).configNonce]
      [.ownersCommitment (changedOwnersCommitment E c.ownersCommitment p ow pos),
        .threshold c.threshold,
        .numOwners (c.numOwners + toField (decide (p.txType = TxType.addOwner)) -
          toField (decide (p.txType = TxType.removeOwner))),
        .approvalRoot (E.merkleMap.computeRootAndKey w executedMarker).1,
        .configNonce ((P.state P.address).configNonce + 1)] := by
    subst hrest
    exact ⟨rfl, rfl, rfl, by
      simp [Forest.write, Forest.emit, Forest.require, changedOwnersCommitment]⟩
  obtain ⟨-, -, rfl, -, hreads, -⟩ := localExecution_spec hopen hcompletes hF
  have hconfig : (P.state P.address).configNonce = (L.state P.address).configNonce :=
    hreads _ List.mem_cons_self
  rw [hconfig] at hrest
  subst hrest
  exact ((((((((beginLocalExecution_effects hopen).write _).write _).write _).write
    _).require _).write _).emit _).emit _

theorem executeThresholdChange_effects {p : TransactionProposal} {w : E.MerkleMapWitness}
    {count newThreshold : Fp}
    (h : executeThresholdChange E p w count newThreshold P (Forest.start P.address) =
      .ok ((), F))
    (hF : F.Included L L') :
    F.Effects [.execution (E.proposalHash p) p.txType (E.root w executedMarker),
      .thresholdChange (E.proposalHash p) (L.state P.address).threshold newThreshold
        ((L.state P.address).configNonce + 1)] [] := by
  simp only [executeThresholdChange, bind_ok, check_ok, setGovernanceState_ok,
    markExecuted_ok, bumpConfigNonce_ok, emitEvent_ok, exists_and_left, exists_eq_left',
    exists_const, and_assoc] at h
  obtain ⟨c, F₁, hopen, -, -, -, hrest⟩ := h
  have hcompletes : F₁.Completes F [.configNonce (P.state P.address).configNonce]
      [.threshold newThreshold, .numOwners c.numOwners,
        .approvalRoot (E.merkleMap.computeRootAndKey w executedMarker).1,
        .configNonce ((P.state P.address).configNonce + 1)] := by
    subst hrest
    exact ⟨rfl, rfl, rfl, by simp [Forest.write, Forest.emit, Forest.require]⟩
  obtain ⟨-, -, rfl, -, hreads, -⟩ := localExecution_spec hopen hcompletes hF
  have hconfig : (P.state P.address).configNonce = (L.state P.address).configNonce :=
    hreads _ List.mem_cons_self
  rw [hconfig] at hrest
  subst hrest
  exact (((((((beginLocalExecution_effects hopen).write _).write _).write _).require
    _).write _).emit _).emit _

theorem executeDelegate_effects {p : TransactionProposal} {w : E.MerkleMapWitness}
    {count : Fp}
    (h : executeDelegate E p w count P (Forest.start P.address) = .ok ((), F))
    (hF : F.Included L L') :
    F.Effects [.execution (E.proposalHash p) p.txType (E.root w executedMarker),
      .delegate (E.proposalHash p)
        (if p.slot0.address = PublicKey.empty then P.address else p.slot0.address)] [] := by
  simp only [executeDelegate, bind_ok, thisAddress_ok, setDelegate_ok, markExecuted_ok,
    emitEvent_ok, exists_and_left, exists_eq_left', exists_const, and_assoc] at h
  obtain ⟨c, F₁, hopen, hrest⟩ := h
  have hcompletes : F₁.Completes F []
      [.approvalRoot (E.merkleMap.computeRootAndKey w executedMarker).1] := by
    subst hrest
    exact ⟨rfl, (List.append_nil _).symm, rfl, rfl⟩
  obtain ⟨-, -, rfl, -⟩ := localExecution_spec hopen hcompletes hF
  have hopening := beginLocalExecution_effects hopen
  subst hrest
  refine ⟨?_, hopening.debit, hopening.credited⟩
  simp [Forest.emit, Forest.write, hopening.events, Env.root]

theorem executeReclaimToParent_effects {p : TransactionProposal}
    {pw cw : E.MerkleMapWitness} {count : Fp} {amount : UInt64}
    (h : executeReclaimToParent E p pw count cw amount P (Forest.start P.address) =
      .ok ((), F))
    (hF : F.Included L L') :
    F.Effects [.execution (E.proposalHash p) p.txType (E.root cw executedMarker),
        .reclaimChild (E.proposalHash p) (L.state P.address).parent amount]
      [((L.state P.address).parent, amount.toNat)] := by
  simp only [executeReclaimToParent, bind_ok, check_ok, getAndRequireEquals_ok,
    StateField.parent, send_ok, markChildExecuted_ok, emitEvent_ok, exists_and_left,
    exists_eq_left', exists_const, and_assoc] at h
  obtain ⟨hash, F₁, hopen, -, hrest⟩ := h
  have hcompletes : F₁.Completes F [.parent (P.state P.address).parent]
      [.childExecutionRoot (E.merkleMap.computeRootAndKey cw executedMarker).1] := by
    subst hrest
    exact ⟨rfl, rfl, rfl, rfl⟩
  have hchildren : F₁.children ⊆ F.children := by
    subst hrest
    exact List.subset_append_left _ _
  obtain ⟨-, -, -, hreads, -⟩ := remoteExecution_spec hopen hcompletes hchildren hF
  have hparent : (P.state P.address).parent = (L.state P.address).parent :=
    hreads _ List.mem_cons_self
  obtain rfl := beginRemoteExecution_hash hopen
  rw [hparent] at hrest
  subst hrest
  exact (((((beginRemoteExecution_effects hopen).require _).pay _).write _).emit _).emit _

theorem executeDestroy_effects {p : TransactionProposal} {pw cw : E.MerkleMapWitness}
    {count : Fp}
    (h : executeDestroy E p pw count cw P (Forest.start P.address) = .ok ((), F))
    (hF : F.Included L L') :
    F.Effects ((MethodCall.executeDestroy p pw count cw).emits P.address
      (L.state P.address) P.balance) [((L.state P.address).parent, P.balance.toNat)] := by
  simp only [executeDestroy, bind_ok, getBalanceLowerBound_ok, getAndRequireEquals_ok,
    StateField.parent, StateField.childMultiSigEnabled, send_ok, markChildExecuted_ok,
    set_ok, bumpConfigNonce_ok, emitEvent_ok, exists_and_left,
    exists_eq_left', exists_const, and_assoc] at h
  obtain ⟨hash, F₁, hopen, hrest⟩ := h
  have hcompletes : F₁.Completes F
      [.parent (P.state P.address).parent, .configNonce (P.state P.address).configNonce]
      [.childExecutionRoot (E.merkleMap.computeRootAndKey cw executedMarker).1,
        .childMultiSigEnabled 0,
        .configNonce ((P.state P.address).configNonce + 1)] := by
    subst hrest
    exact ⟨rfl, by simp [Forest.write, Forest.emit, Forest.require, Forest.pay,
      Forest.attach], rfl, by simp [Forest.write, Forest.emit, Forest.require, Forest.pay,
      Forest.attach]⟩
  have hchildren : F₁.children ⊆ F.children := by
    subst hrest
    exact List.subset_append_left _ _
  obtain ⟨-, -, -, hreads, -⟩ := remoteExecution_spec hopen hcompletes hchildren hF
  have hparent : (P.state P.address).parent = (L.state P.address).parent :=
    hreads _ List.mem_cons_self
  have hconfig : (P.state P.address).configNonce = (L.state P.address).configNonce :=
    hreads _ (List.mem_cons_of_mem _ List.mem_cons_self)
  obtain rfl := beginRemoteExecution_hash hopen
  rw [hparent, hconfig] at hrest
  have hopening := beginRemoteExecution_effects hopen
  have hbalance : Forest.Effects { F₁ with self.balanceAtLeast := P.balance.toNat }
      [] [] := ⟨hopening.events, hopening.debit, hopening.credited⟩
  subst hrest
  exact ((((((((((hbalance.require _).pay _).write _).write _).require _).write _).emit
    _).emit _).emit _))

theorem executeEnableChildMultiSig_effects {p : TransactionProposal}
    {pw cw : E.MerkleMapWitness} {count enabled : Fp}
    (h : executeEnableChildMultiSig E p pw count cw enabled P (Forest.start P.address) =
      .ok ((), F))
    (hF : F.Included L L') :
    F.Effects ((MethodCall.executeEnableChildMultiSig p pw count cw enabled).emits
      P.address (L.state P.address) P.balance) [] := by
  simp only [executeEnableChildMultiSig, bind_ok, check_ok, getAndRequireEquals_ok,
    StateField.parent, StateField.configNonce, StateField.childMultiSigEnabled,
    markChildExecuted_ok, set_ok, emitEvent_ok, exists_and_left, exists_eq_left',
    exists_const, and_assoc] at h
  obtain ⟨hash, F₁, hopen, -, -, hrest⟩ := h
  have hcompletes : F₁.Completes F
      [.configNonce (P.state P.address).configNonce, .parent (P.state P.address).parent]
      [.childMultiSigEnabled enabled,
        .configNonce ((P.state P.address).configNonce +
          toField (decide (enabled = 0))),
        .childExecutionRoot (E.merkleMap.computeRootAndKey cw executedMarker).1] := by
    subst hrest
    exact ⟨rfl, by simp [Forest.write, Forest.emit, Forest.require], rfl,
      by simp [Forest.write, Forest.emit, Forest.require]⟩
  have hchildren : F₁.children ⊆ F.children := by
    subst hrest
    exact List.Subset.refl _
  obtain ⟨-, -, -, hreads, -⟩ := remoteExecution_spec hopen hcompletes hchildren hF
  have hconfig : (P.state P.address).configNonce = (L.state P.address).configNonce :=
    hreads _ List.mem_cons_self
  have hparent : (P.state P.address).parent = (L.state P.address).parent :=
    hreads _ (List.mem_cons_of_mem _ List.mem_cons_self)
  obtain rfl := beginRemoteExecution_hash hopen
  rw [hparent, hconfig] at hrest
  subst hrest
  exact (((((((beginRemoteExecution_effects hopen).write _).require _).write _).write
    _).require _).emit _).emit _

/-- An included call publishes and pays what `emits` and `payments` say. -/
theorem MethodCall.effects {m : MethodCall E} (h : m.prove P = .ok F)
    (hF : F.Included L L') :
    F.Effects (m.emits P.address (L.state P.address) P.balance)
      (m.payments P.address (L.state P.address) P.balance) := by
  rw [prove_ok] at h
  cases m with
  | setup => exact setup_effects h
  | reserveForParent => exact reserveForParent_effects h
  | executeSetupChild => exact executeSetupChild_effects h
  | propose => exact propose_effects h
  | approveProposal => exact approveProposal_effects h
  | executeTransfer => exact executeTransfer_effects h hF
  | executeAllocateToChildren => exact (executeAllocateToChildren_effects h hF).1
  | executeOwnerChange => exact executeOwnerChange_effects h hF
  | executeThresholdChange => exact executeThresholdChange_effects h hF
  | executeDelegate => exact executeDelegate_effects h hF
  | executeReclaimToParent => exact executeReclaimToParent_effects h hF
  | executeDestroy => exact executeDestroy_effects h hF
  | executeEnableChildMultiSig => exact executeEnableChildMultiSig_effects h hF

end Methods

end MinaGuard
