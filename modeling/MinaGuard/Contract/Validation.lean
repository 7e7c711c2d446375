import MinaGuard.Contract.Circuit

/-!
# Shared validation

The private helpers of `MinaGuard.ts`, in the order of the source.  The second
half says, for each of them, what its success asserts about the states the
prover claims and what it adds to the forest; the methods are read through
these lemmas.
-/

namespace MinaGuard

open Foundations Circuit

def assertMerkleWitnessValue (E : Env) (expectedRoot expectedKey : Fp)
    (witness : E.MerkleMapWitness) (expectedValue : Fp)
    (rootErrorMessage keyErrorMessage : String) : Check := do
  let computed := E.merkleMap.computeRootAndKey witness expectedValue
  assertTrue (computed.1 = expectedRoot) rootErrorMessage
  assertTrue (computed.2 = expectedKey) keyErrorMessage

def assertLocalProposal (proposal : TransactionProposal) : Check :=
  assertTrue (proposal.destination = destinationLocal)
    "Not a local destination proposal"

def assertCurrAccountIsChild (parent : PublicKey) : Check :=
  assertFalse (parent = PublicKey.empty) "Not a child account"

def assertValidProposalConfigNetworkAndGuard (proposal : TransactionProposal)
    (configNonce : Fp) (guardAddress : PublicKey) : Check := do
  assertTrue (proposal.configNonce = configNonce)
    "Config nonce mismatch - governance changed since proposal"
  assertTrue (proposal.guardAddress = guardAddress) "Guard address mismatch"

def assertNotExecuted (approvalCount : Fp) : Check :=
  assertFalse (approvalCount = executedMarker) "Proposal already executed"

def assertProposalExists (approvalCount : Fp) : Check :=
  assertTrue (greaterThanOrEqual approvalCount proposedMarker) "Proposal not found"

def assertThresholdSatisfied (approvalCount threshold : Fp) : Check :=
  assertTrue (greaterThanOrEqual approvalCount (threshold + proposedMarker))
    "Insufficient approvals"

/-- Slots `1..N-1` are empty. -/
def atMostOneReceiver (proposal : TransactionProposal) : Prop :=
  ∀ r ∈ proposal.receivers.toList.drop 1, r.address = PublicKey.empty

instance (proposal : TransactionProposal) : Decidable (atMostOneReceiver proposal) :=
  inferInstanceAs (Decidable (∀ r ∈ proposal.receivers.toList.drop 1,
    r.address = PublicKey.empty))

def assertValidInitialGovernance (threshold numOwners : Fp) : Check := do
  assertTrue (greaterThan threshold 0) "Threshold must be > 0"
  assertTrue (greaterThanOrEqual numOwners threshold) "Owners must be >= threshold"
  assertTrue (lessThanOrEqual numOwners (maxOwners : Fp)) "Too many owners"

def getInitializedOwnersCommitment : Circuit Fp := do
  let ownersCommitment ← getAndRequireEquals StateField.ownersCommitment
  assertFalse (ownersCommitment = 0) "Wallet not initialized"
  pure ownersCommitment

/-- The pair `{ threshold, numOwners }`. -/
def getGovernanceState : Circuit (Fp × Fp) := do
  let threshold ← getAndRequireEquals StateField.threshold
  let numOwners ← getAndRequireEquals StateField.numOwners
  pure (threshold, numOwners)

def setGovernanceState (threshold numOwners : Fp) : Circuit Unit := do
  set StateField.threshold threshold
  set StateField.numOwners numOwners

def bumpConfigNonce : Circuit Fp := do
  let configNonce ← getAndRequireEquals StateField.configNonce
  let next := configNonce + 1
  set StateField.configNonce next
  pure next

def assertChildMultiSigEnabledIfChild : Circuit Unit := do
  let parent ← getAndRequireEquals StateField.parent
  let isChild := ¬parent = PublicKey.empty
  let enabled ← getAndRequireEquals StateField.childMultiSigEnabled
  assertTrue (¬isChild ∨ enabled = 1) "Child multi-sig disabled"

def assertValidRemoteProposal (proposal : TransactionProposal) : Circuit Unit := do
  assertTrue (proposal.destination = destinationRemote)
    "Not a remote destination proposal"
  let address ← thisAddress
  assertTrue (proposal.childAccount = address) "Proposal not for this child"

def assertProposalConfigNetworkAndGuard (proposal : TransactionProposal) :
    Circuit Unit := do
  let currentConfigNonce ← getAndRequireEquals StateField.configNonce
  let address ← thisAddress
  assertValidProposalConfigNetworkAndGuard proposal currentConfigNonce address

def assertProposalDestinationAndChildAccount (proposal : TransactionProposal) :
    Circuit Unit := do
  let isDestinationLocal := proposal.destination = destinationLocal
  let isDestinationRemote := proposal.destination = destinationRemote
  assertTrue (isDestinationLocal ∨ isDestinationRemote) "Invalid destination value"
  let childAccountEmpty := proposal.childAccount = PublicKey.empty
  assertTrue (isDestinationRemote ∨ childAccountEmpty)
    "Local destination proposals cannot target child accounts"
  assertTrue (isDestinationLocal ∨ ¬childAccountEmpty)
    "Remote destination proposals must target a specific child account"
  let parent ← getAndRequireEquals StateField.parent
  let isRoot := parent = PublicKey.empty
  assertTrue (isDestinationLocal ∨ isRoot)
    "Remote destination proposals must be proposed on a root guard"

/-- The last slot at which the proposal may still be included; zero means no
expiry. -/
def lastSlot (proposal : TransactionProposal) : ℕ :=
  if proposal.expirySlot = 0 then 2 ^ 32 - 1 else proposal.expirySlot.val

def assertProposalNotExpired (proposal : TransactionProposal) : Circuit Unit := do
  assertTrue (proposal.expirySlot.val < 2 ^ 32) "UInt32 out of range"
  requireSlotAtMost (lastSlot proposal)

/-- The state fields `assertFreshProposalNonce` reads on the nonce authority. -/
def nonceAuthorityFields (s : GuardState) : List StateValue :=
  [.ownersCommitment s.ownersCommitment, .parent s.parent,
    .parentNonce s.parentNonce]

/-- REMOTE proposals other than CREATE_CHILD take their nonce from the child. -/
def isRemoteNonCreate (proposal : TransactionProposal) : Prop :=
  proposal.destination = destinationRemote ∧ ¬proposal.txType = TxType.createChild

instance (proposal : TransactionProposal) : Decidable (isRemoteNonCreate proposal) :=
  inferInstanceAs (Decidable (_ ∧ _))

def assertFreshProposalNonce (proposal : TransactionProposal) : Circuit Unit := do
  let isLocal := proposal.destination = destinationLocal
  let isCreateChild := proposal.txType = TxType.createChild
  let isRemoteCreate := proposal.destination = destinationRemote ∧ isCreateChild
  let localNonce ← getAndRequireEquals StateField.nonce
  let address ← thisAddress
  let nonceAuthority :=
    if isRemoteNonCreate proposal then proposal.childAccount else address
  let childGuard ← readGuard nonceAuthority nonceAuthorityFields
  assertTrue (¬isRemoteNonCreate proposal ∨ ¬childGuard.ownersCommitment = 0)
    "Target child not initialized"
  assertTrue (¬isRemoteNonCreate proposal ∨ childGuard.parent = address)
    "Target child not bound to this parent"
  assertTrue
    ((isLocal ∧ greaterThan proposal.nonce localNonce) ∨
      (isRemoteNonCreate proposal ∧
        greaterThan proposal.nonce childGuard.parentNonce) ∨
      (isRemoteCreate ∧ proposal.nonce = 0))
    "Proposal nonce stale"

def assertAndIncrementLocalNonce (proposal : TransactionProposal) : Circuit Unit := do
  let currentNonce ← getAndRequireEquals StateField.nonce
  let nextNonce := currentNonce + 1
  assertTrue (proposal.nonce = nextNonce) "Invalid proposal nonce"
  set StateField.nonce nextNonce

def assertAndIncrementParentNonce (proposal : TransactionProposal) : Circuit Unit := do
  let currentParentNonce ← getAndRequireEquals StateField.parentNonce
  let nextParentNonce := currentParentNonce + 1
  assertTrue (proposal.nonce = nextParentNonce) "Invalid parent proposal nonce"
  set StateField.parentNonce nextParentNonce

section Witnesses

variable (E : Env)

def assertApprovalWitnessValue (proposalHash : Fp)
    (approvalWitness : E.MerkleMapWitness) (expectedValue : Fp) : Circuit Unit := do
  let approvalRoot ← getAndRequireEquals StateField.approvalRoot
  assertMerkleWitnessValue E approvalRoot proposalHash approvalWitness expectedValue
    "Approval root mismatch" "Approval key mismatch"

def markExecuted (approvalWitness : E.MerkleMapWitness) : Circuit Fp := do
  let newApprovalRoot := (E.merkleMap.computeRootAndKey approvalWitness executedMarker).1
  set StateField.approvalRoot newApprovalRoot
  pure newApprovalRoot

def assertChildExecutionWitnessValue (proposalHash : Fp)
    (childExecutionWitness : E.MerkleMapWitness) (expectedValue : Fp) :
    Circuit Unit := do
  let root ← getAndRequireEquals StateField.childExecutionRoot
  assertMerkleWitnessValue E root proposalHash childExecutionWitness expectedValue
    "Child execution root mismatch" "Child execution key mismatch"

def markChildExecuted (childExecutionWitness : E.MerkleMapWitness) : Circuit Fp := do
  let newRoot := (E.merkleMap.computeRootAndKey childExecutionWitness executedMarker).1
  set StateField.childExecutionRoot newRoot
  pure newRoot

/-- The vote step `propose` and `approveProposal` share: the key's nullifier is
unset, and is set. -/
def nullifyVote (proposalHash : Fp) (owner : PublicKey)
    (voteNullifierWitness : E.MerkleMapWitness) : Circuit Fp := do
  let voteNullifierKey := E.voteNullifierKey proposalHash owner
  let voteNullifierRoot ← getAndRequireEquals StateField.voteNullifierRoot
  assertMerkleWitnessValue E voteNullifierRoot voteNullifierKey voteNullifierWitness 0
    "Vote nullifier root mismatch" "Vote nullifier key mismatch"
  let newVoteRoot := (E.merkleMap.computeRootAndKey voteNullifierWitness 1).1
  set StateField.voteNullifierRoot newVoteRoot
  pure newVoteRoot

/-- The state fields a child reads on the guard that approved its proposal. -/
def parentApprovalFields (s : GuardState) : List StateValue :=
  [.ownersCommitment s.ownersCommitment, .configNonce s.configNonce,
    .approvalRoot s.approvalRoot, .threshold s.threshold]

def assertParentApprovalState (proposal : TransactionProposal)
    (parentAddress : PublicKey) (parentApprovalWitness : E.MerkleMapWitness)
    (parentApprovalCount : Fp) : Circuit Fp := do
  let parentGuard ← readGuard parentAddress parentApprovalFields
  assertFalse (parentGuard.ownersCommitment = 0) "Parent not initialized"
  assertValidProposalConfigNetworkAndGuard proposal parentGuard.configNonce parentAddress
  assertProposalNotExpired proposal
  let proposalHash := E.proposalHash proposal
  assertMerkleWitnessValue E parentGuard.approvalRoot proposalHash
    parentApprovalWitness parentApprovalCount
    "Parent approval root mismatch" "Parent approval key mismatch"
  assertNotExecuted parentApprovalCount
  assertProposalExists parentApprovalCount
  assertThresholdSatisfied parentApprovalCount parentGuard.threshold
  pure proposalHash

def verifyParentApproval (proposal : TransactionProposal)
    (parentApprovalWitness : E.MerkleMapWitness) (parentApprovalCount : Fp) :
    Circuit Fp := do
  let parentAddress ← getAndRequireEquals StateField.parent
  assertCurrAccountIsChild parentAddress
  assertParentApprovalState E proposal parentAddress parentApprovalWitness
    parentApprovalCount

end Witnesses

/-- What a slot pays: nothing when it is empty. -/
def effectiveAmount (r : Receiver) : UInt64 :=
  if r.address = PublicKey.empty then 0 else r.amount

def emitReceiversEvent (proposal : TransactionProposal) (proposalHash : Fp) :
    Circuit Unit :=
  emitEvents (proposal.receivers.toList.map fun r ↦
    .receiver proposalHash r.address (effectiveAmount r))

/-- Empty slots become sends of nothing to the guard itself. -/
def executeTransfers (proposal : TransactionProposal) : Circuit Unit := do
  let address ← thisAddress
  forM proposal.receivers.toList fun r ↦
    send (if r.address = PublicKey.empty then address else r.address)
      (effectiveAmount r)

/-! ## What the checks assert -/

theorem assertMerkleWitnessValue_ok {E : Env} {root key value : Fp}
    {w : E.MerkleMapWitness} {rootError keyError : String} {u : Unit} :
    assertMerkleWitnessValue E root key w value rootError keyError = .ok u ↔
      (E.merkleMap.computeRootAndKey w value).1 = root ∧
        (E.merkleMap.computeRootAndKey w value).2 = key := by
  simp [assertMerkleWitnessValue, Check.bind_ok]

theorem assertValidProposalConfigNetworkAndGuard_ok {p : TransactionProposal}
    {configNonce : Fp} {guardAddress : PublicKey} {u : Unit} :
    assertValidProposalConfigNetworkAndGuard p configNonce guardAddress = .ok u ↔
      p.configNonce = configNonce ∧ p.guardAddress = guardAddress := by
  simp [assertValidProposalConfigNetworkAndGuard, Check.bind_ok]

theorem assertValidInitialGovernance_ok {threshold numOwners : Fp} {u : Unit} :
    assertValidInitialGovernance threshold numOwners = .ok u ↔
      0 < threshold.val ∧ threshold.val ≤ numOwners.val ∧ numOwners.val ≤ maxOwners := by
  have hmax : (maxOwners : Fp).val = maxOwners := val_natCast_of_lt (by decide)
  simp only [assertValidInitialGovernance, Check.bind_ok, Check.assertTrue_ok,
    exists_and_left, exists_const]
  simp only [greaterThan, greaterThanOrEqual, lessThanOrEqual, hmax, val_zero]

section Helpers

variable {P : Prover} {F F' : Forest} {u : Unit} {p : TransactionProposal}

theorem getInitializedOwnersCommitment_ok {c : Fp} :
    getInitializedOwnersCommitment P F = .ok (c, F') ↔
      ¬(P.state P.address).ownersCommitment = 0 ∧
        (P.state P.address).ownersCommitment = c ∧
        F.require (.ownersCommitment (P.state P.address).ownersCommitment) = F' := by
  simp only [getInitializedOwnersCommitment, bind_ok, check_ok, Circuit.pure_ok,
    Check.assertFalse_ok, getAndRequireEquals_ok, StateField.ownersCommitment,
    exists_and_left, exists_eq_left', exists_const, and_assoc]

theorem getGovernanceState_ok {g : Fp × Fp} :
    getGovernanceState P F = .ok (g, F') ↔
      ((P.state P.address).threshold, (P.state P.address).numOwners) = g ∧
        (F.require (.threshold (P.state P.address).threshold)).require
          (.numOwners (P.state P.address).numOwners) = F' := by
  simp only [getGovernanceState, bind_ok, Circuit.pure_ok, getAndRequireEquals_ok,
    StateField.threshold, StateField.numOwners, exists_and_left, exists_eq_left',
    and_assoc]

theorem setGovernanceState_ok {threshold numOwners : Fp} :
    setGovernanceState threshold numOwners P F = .ok (u, F') ↔
      (F.write (.threshold threshold)).write (.numOwners numOwners) = F' := by
  simp only [setGovernanceState, bind_ok, set_ok, StateField.threshold,
    StateField.numOwners, exists_eq_left', exists_const]

theorem bumpConfigNonce_ok {next : Fp} :
    bumpConfigNonce P F = .ok (next, F') ↔
      (P.state P.address).configNonce + 1 = next ∧
        (F.require (.configNonce (P.state P.address).configNonce)).write
          (.configNonce ((P.state P.address).configNonce + 1)) = F' := by
  simp only [bumpConfigNonce, bind_ok, Circuit.pure_ok, getAndRequireEquals_ok, set_ok,
    StateField.configNonce, exists_and_left, exists_eq_left', exists_const, and_assoc]

theorem assertChildMultiSigEnabledIfChild_ok :
    assertChildMultiSigEnabledIfChild P F = .ok (u, F') ↔
      ((P.state P.address).parent = PublicKey.empty ∨
          (P.state P.address).childMultiSigEnabled = 1) ∧
        (F.require (.parent (P.state P.address).parent)).require
          (.childMultiSigEnabled (P.state P.address).childMultiSigEnabled) = F' := by
  simp only [assertChildMultiSigEnabledIfChild, bind_ok, check_ok, Check.assertTrue_ok,
    getAndRequireEquals_ok, StateField.parent, StateField.childMultiSigEnabled,
    exists_and_left, exists_eq_left', not_not, and_assoc]

theorem assertValidRemoteProposal_ok :
    assertValidRemoteProposal p P F = .ok (u, F') ↔
      p.destination = destinationRemote ∧ p.childAccount = P.address ∧ F = F' := by
  simp only [assertValidRemoteProposal, bind_ok, check_ok, Check.assertTrue_ok,
    thisAddress_ok, exists_and_left, exists_eq_left', exists_const, and_assoc]

theorem assertProposalConfigNetworkAndGuard_ok :
    assertProposalConfigNetworkAndGuard p P F = .ok (u, F') ↔
      p.configNonce = (P.state P.address).configNonce ∧ p.guardAddress = P.address ∧
        F.require (.configNonce (P.state P.address).configNonce) = F' := by
  simp only [assertProposalConfigNetworkAndGuard, bind_ok, check_ok,
    assertValidProposalConfigNetworkAndGuard_ok, getAndRequireEquals_ok, thisAddress_ok,
    StateField.configNonce, exists_and_left, exists_eq_left', and_assoc]

/-- Where a proposal may be recorded: LOCAL ones anywhere and without a child,
REMOTE ones on a root guard and for a child. -/
def DestinationRules (p : TransactionProposal) (parent : PublicKey) : Prop :=
  (p.destination = destinationLocal ∧ p.childAccount = PublicKey.empty) ∨
    (p.destination = destinationRemote ∧ p.childAccount ≠ PublicKey.empty ∧
      parent = PublicKey.empty)

theorem destinationLocal_ne_remote : destinationLocal ≠ destinationRemote := by
  decide

theorem assertProposalDestinationAndChildAccount_ok :
    assertProposalDestinationAndChildAccount p P F = .ok (u, F') ↔
      DestinationRules p (P.state P.address).parent ∧
        F.require (.parent (P.state P.address).parent) = F' := by
  simp only [assertProposalDestinationAndChildAccount, bind_ok, check_ok,
    Check.assertTrue_ok, getAndRequireEquals_ok, StateField.parent, exists_and_left,
    exists_eq_left', exists_const, and_assoc]
  have hne := destinationLocal_ne_remote
  unfold DestinationRules
  constructor
  · rintro ⟨hdest, hlocal, hremote, hroot, hF⟩
    refine ⟨?_, hF⟩
    rcases hdest with hdest | hdest
    · left
      exact ⟨hdest, hlocal.resolve_left (by rw [hdest]; exact hne)⟩
    · have hnot : ¬p.destination = destinationLocal := by
        rw [hdest]
        exact hne.symm
      right
      exact ⟨hdest, hremote.resolve_left hnot, hroot.resolve_left hnot⟩
  · rintro ⟨⟨hdest, hchild⟩ | ⟨hdest, hchild, hroot⟩, hF⟩
    · exact ⟨.inl hdest, .inr hchild, .inl hdest, .inl hdest, hF⟩
    · exact ⟨.inr hdest, .inl hdest, .inr hchild, .inr hroot, hF⟩

theorem assertProposalNotExpired_ok :
    assertProposalNotExpired p P F = .ok (u, F') ↔
      p.expirySlot.val < 2 ^ 32 ∧ F.bySlot (lastSlot p) = F' := by
  simp only [assertProposalNotExpired, bind_ok, check_ok, Check.assertTrue_ok,
    requireSlotAtMost_ok, exists_and_left, exists_const, exists_eq_left', and_assoc]

/-- The account whose nonce a vote on the proposal is checked against. -/
def nonceAuthority (p : TransactionProposal) (address : PublicKey) : PublicKey :=
  if isRemoteNonCreate p then p.childAccount else address

/-- What `assertFreshProposalNonce` asserts of the guard's own nonce and of
the state of the nonce authority. -/
def FreshNonce (p : TransactionProposal) (address : PublicKey) (nonce : Fp)
    (authority : GuardState) : Prop :=
  (¬isRemoteNonCreate p ∨ ¬authority.ownersCommitment = 0) ∧
    (¬isRemoteNonCreate p ∨ authority.parent = address) ∧
    ((p.destination = destinationLocal ∧ greaterThan p.nonce nonce) ∨
      (isRemoteNonCreate p ∧ greaterThan p.nonce authority.parentNonce) ∨
      ((p.destination = destinationRemote ∧ p.txType = TxType.createChild) ∧
        p.nonce = 0))

theorem assertFreshProposalNonce_ok :
    assertFreshProposalNonce p P F = .ok (u, F') ↔
      FreshNonce p P.address (P.state P.address).nonce
          (P.state (nonceAuthority p P.address)) ∧
        (F.require (.nonce (P.state P.address).nonce)).attach
          { publicKey := nonceAuthority p P.address
            preconditions :=
              nonceAuthorityFields (P.state (nonceAuthority p P.address)) } = F' := by
  simp only [assertFreshProposalNonce, bind_ok, check_ok, Check.assertTrue_ok,
    getAndRequireEquals_ok, thisAddress_ok, readGuard_ok, StateField.nonce,
    exists_and_left, exists_eq_left', exists_const, and_assoc]
  unfold FreshNonce nonceAuthority
  simp only [and_assoc]

theorem assertAndIncrementLocalNonce_ok :
    assertAndIncrementLocalNonce p P F = .ok (u, F') ↔
      p.nonce = (P.state P.address).nonce + 1 ∧
        (F.require (.nonce (P.state P.address).nonce)).write
          (.nonce ((P.state P.address).nonce + 1)) = F' := by
  simp only [assertAndIncrementLocalNonce, bind_ok, check_ok, Check.assertTrue_ok,
    getAndRequireEquals_ok, set_ok, StateField.nonce, exists_and_left, exists_eq_left',
    exists_const, and_assoc]

theorem assertAndIncrementParentNonce_ok :
    assertAndIncrementParentNonce p P F = .ok (u, F') ↔
      p.nonce = (P.state P.address).parentNonce + 1 ∧
        (F.require (.parentNonce (P.state P.address).parentNonce)).write
          (.parentNonce ((P.state P.address).parentNonce + 1)) = F' := by
  simp only [assertAndIncrementParentNonce, bind_ok, check_ok, Check.assertTrue_ok,
    getAndRequireEquals_ok, set_ok, StateField.parentNonce, exists_and_left,
    exists_eq_left', exists_const, and_assoc]

variable {E : Env} {w : E.MerkleMapWitness} {h value : Fp}

theorem assertApprovalWitnessValue_ok :
    assertApprovalWitnessValue E h w value P F = .ok (u, F') ↔
      (E.merkleMap.computeRootAndKey w value).1 = (P.state P.address).approvalRoot ∧
        (E.merkleMap.computeRootAndKey w value).2 = h ∧
        F.require (.approvalRoot (P.state P.address).approvalRoot) = F' := by
  simp only [assertApprovalWitnessValue, bind_ok, check_ok, assertMerkleWitnessValue_ok,
    getAndRequireEquals_ok, StateField.approvalRoot, exists_and_left, exists_eq_left',
    and_assoc]

theorem markExecuted_ok {root : Fp} :
    markExecuted E w P F = .ok (root, F') ↔
      (E.merkleMap.computeRootAndKey w executedMarker).1 = root ∧
        F.write (.approvalRoot (E.merkleMap.computeRootAndKey w executedMarker).1) =
          F' := by
  simp only [markExecuted, bind_ok, Circuit.pure_ok, set_ok, StateField.approvalRoot,
    exists_and_left, exists_eq_left', exists_const]

theorem assertChildExecutionWitnessValue_ok :
    assertChildExecutionWitnessValue E h w value P F = .ok (u, F') ↔
      (E.merkleMap.computeRootAndKey w value).1 =
          (P.state P.address).childExecutionRoot ∧
        (E.merkleMap.computeRootAndKey w value).2 = h ∧
        F.require (.childExecutionRoot (P.state P.address).childExecutionRoot) = F' := by
  simp only [assertChildExecutionWitnessValue, bind_ok, check_ok,
    assertMerkleWitnessValue_ok, getAndRequireEquals_ok, StateField.childExecutionRoot,
    exists_and_left, exists_eq_left', and_assoc]

theorem markChildExecuted_ok {root : Fp} :
    markChildExecuted E w P F = .ok (root, F') ↔
      (E.merkleMap.computeRootAndKey w executedMarker).1 = root ∧
        F.write
          (.childExecutionRoot (E.merkleMap.computeRootAndKey w executedMarker).1) =
            F' := by
  simp only [markChildExecuted, bind_ok, Circuit.pure_ok, set_ok,
    StateField.childExecutionRoot, exists_and_left, exists_eq_left', exists_const]

theorem nullifyVote_ok {owner : PublicKey} {root : Fp} :
    nullifyVote E h owner w P F = .ok (root, F') ↔
      (E.merkleMap.computeRootAndKey w 0).1 =
          (P.state P.address).voteNullifierRoot ∧
        (E.merkleMap.computeRootAndKey w 0).2 = E.voteNullifierKey h owner ∧
        (E.merkleMap.computeRootAndKey w 1).1 = root ∧
        (F.require (.voteNullifierRoot (P.state P.address).voteNullifierRoot)).write
          (.voteNullifierRoot (E.merkleMap.computeRootAndKey w 1).1) = F' := by
  simp only [nullifyVote, bind_ok, check_ok, assertMerkleWitnessValue_ok,
    Circuit.pure_ok, getAndRequireEquals_ok, set_ok, StateField.voteNullifierRoot,
    exists_and_left, exists_eq_left', exists_const, and_assoc]

/-- What a guard's approval of a proposal amounts to when a child reads it. -/
structure ApprovedBy (E : Env) (p : TransactionProposal) (guardAddress : PublicKey)
    (s : GuardState) (w : E.MerkleMapWitness) (approvalCount : Fp) : Prop where
  initialized : s.ownersCommitment ≠ 0
  configNonce : p.configNonce = s.configNonce
  guard : p.guardAddress = guardAddress
  root : (E.merkleMap.computeRootAndKey w approvalCount).1 = s.approvalRoot
  key : (E.merkleMap.computeRootAndKey w approvalCount).2 = E.proposalHash p
  notExecuted : approvalCount ≠ executedMarker
  proposed : proposedMarker.val ≤ approvalCount.val
  threshold : (s.threshold + proposedMarker).val ≤ approvalCount.val

theorem assertParentApprovalState_ok {parent : PublicKey} {count : Fp} :
    assertParentApprovalState E p parent w count P F = .ok (h, F') ↔
      ApprovedBy E p parent (P.state parent) w count ∧ p.expirySlot.val < 2 ^ 32 ∧
        E.proposalHash p = h ∧
        (F.attach { publicKey := parent
                    preconditions := parentApprovalFields (P.state parent) }).bySlot
          (lastSlot p) = F' := by
  simp only [assertParentApprovalState, bind_ok, check_ok, Circuit.pure_ok,
    readGuard_ok, assertProposalNotExpired_ok, assertMerkleWitnessValue_ok,
    assertValidProposalConfigNetworkAndGuard_ok, assertNotExecuted, assertProposalExists,
    assertThresholdSatisfied, Check.assertTrue_ok, Check.assertFalse_ok,
    exists_and_left, exists_eq_left', exists_const, and_assoc]
  constructor
  · rintro ⟨hinit, hconfig, hguard, hexpiry, hroot, hkey, hexecuted, hproposed,
      hthreshold, hh, hF⟩
    exact ⟨⟨hinit, hconfig, hguard, hroot, hkey, hexecuted, hproposed, hthreshold⟩,
      hexpiry, hh, hF⟩
  · rintro ⟨⟨hinit, hconfig, hguard, hroot, hkey, hexecuted, hproposed, hthreshold⟩,
      hexpiry, hh, hF⟩
    exact ⟨hinit, hconfig, hguard, hexpiry, hroot, hkey, hexecuted, hproposed,
      hthreshold, hh, hF⟩

theorem verifyParentApproval_ok {count : Fp} :
    verifyParentApproval E p w count P F = .ok (h, F') ↔
      ¬(P.state P.address).parent = PublicKey.empty ∧
        assertParentApprovalState E p (P.state P.address).parent w count P
          (F.require (.parent (P.state P.address).parent)) = .ok (h, F') := by
  simp only [verifyParentApproval, bind_ok, check_ok, assertCurrAccountIsChild,
    Check.assertFalse_ok, getAndRequireEquals_ok, StateField.parent, exists_and_left,
    exists_eq_left', exists_const, and_assoc]

theorem emitReceiversEvent_ok :
    emitReceiversEvent p h P F = .ok (u, F') ↔
      F.emit (p.receivers.toList.map fun r ↦
        .receiver h r.address (effectiveAmount r)) = F' :=
  emitEvents_ok

/-- The credits of a transfer, one for each slot. -/
def transferCredits (p : TransactionProposal) (address : PublicKey) : List ChildUpdate :=
  p.receivers.toList.map fun r ↦
    { publicKey := if r.address = PublicKey.empty then address else r.address
      credit := (effectiveAmount r).toNat }

theorem executeTransfers_ok :
    executeTransfers p P F = .ok (u, F') ↔
      F.payAll (transferCredits p P.address) = F' := by
  simp only [executeTransfers, bind_ok, thisAddress_ok, exists_and_left, exists_eq_left',
    and_assoc]
  have hslot : ∀ r F F', send (if r.address = PublicKey.empty then P.address
        else r.address) (effectiveAmount r) P F = .ok ((), F') ↔
      True ∧ F.pay { publicKey := if r.address = PublicKey.empty then P.address
        else r.address, credit := (effectiveAmount r).toNat } = F' := by
    intro r F F'
    rw [send_ok, true_and]
  rw [forM_pay_ok hslot]
  simp [transferCredits]

end Helpers

end MinaGuard
