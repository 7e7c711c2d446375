import MinaGuard.Contract.OwnerList
import MinaGuard.Contract.Validation

/-!
# The methods of the contract

The `@method`s of `MinaGuard.ts`, statement by statement.  The five LOCAL
executions and the three REMOTE ones open with the same checks; those openings
are `beginLocalExecution` and `beginRemoteExecution`.
-/

namespace MinaGuard

open Foundations Circuit

variable (E : Env)

/-- The owner of each fixed-size slot as published: empty beyond `numOwners`. -/
def publishedOwners (initialOwners : SetupOwnersInput) (numOwners : Fp) :
    List (PublicKey × Fp) :=
  initialOwners.toList.zipIdx.map fun slot ↦
    (if lessThan (slot.2 : Fp) numOwners then slot.1 else PublicKey.empty,
      (slot.2 : Fp))

def initializeState (threshold numOwners : Fp) (parent : PublicKey)
    (nonce parentNonce : Fp) (initialOwners : SetupOwnersInput) : Circuit Unit := do
  requireEquals StateField.ownersCommitment 0
  assertValidInitialGovernance threshold numOwners
  assertCoherentSetupOwners E initialOwners numOwners
  let ownersCommitment := computeSetupOwnersChain E initialOwners numOwners
  set StateField.ownersCommitment ownersCommitment
  setGovernanceState threshold numOwners
  set StateField.nonce nonce
  set StateField.approvalRoot E.emptyMerkleMapRoot
  set StateField.voteNullifierRoot E.emptyMerkleMapRoot
  set StateField.parent parent
  set StateField.parentNonce parentNonce
  set StateField.childExecutionRoot E.emptyMerkleMapRoot
  set StateField.childMultiSigEnabled 1
  emitEvent (.setup ownersCommitment threshold numOwners parent)
  emitEvents ((publishedOwners initialOwners numOwners).map fun slot ↦
    .setupOwner slot.1 slot.2)

def setup (threshold numOwners : Fp) (initialOwners : SetupOwnersInput) :
    Circuit Unit := do
  lockPermissions
  requireEquals StateField.parent PublicKey.empty
  initializeState E threshold numOwners PublicKey.empty 0 0 initialOwners

/-- The state fields `reserveForParent` reads on the parent. -/
def reservingParentFields (s : GuardState) : List StateValue :=
  [.ownersCommitment s.ownersCommitment, .parent s.parent]

def reserveForParent (parentAddress : PublicKey) (proposalHash threshold numOwners : Fp)
    (initialOwners : SetupOwnersInput) : Circuit Unit := do
  lockPermissions
  requireEquals StateField.ownersCommitment 0
  requireEquals StateField.parent PublicKey.empty
  assertFalse (parentAddress = PublicKey.empty) "Parent address must not be empty"
  assertOnCurveIf E True parentAddress
  let address ← thisAddress
  assertFalse (parentAddress = address) "Parent must not be this account"
  let parentGuard ← readGuard parentAddress reservingParentFields
  assertFalse (parentGuard.ownersCommitment = 0) "Parent must be initialized"
  assertTrue (parentGuard.parent = PublicKey.empty) "Parent must be a root guard"
  assertValidInitialGovernance threshold numOwners
  set StateField.parent parentAddress
  assertCoherentSetupOwners E initialOwners numOwners
  let ownersCommitment := computeSetupOwnersChain E initialOwners numOwners
  set StateField.reservedConfigHash
    (E.childConfigHash ownersCommitment threshold numOwners)
  emitEvent (.createChildConfig proposalHash address ownersCommitment threshold numOwners)
  emitEvents ((publishedOwners initialOwners numOwners).map fun slot ↦
    .createChildOwner proposalHash slot.1 slot.2)

def executeSetupChild (threshold numOwners : Fp) (initialOwners : SetupOwnersInput)
    (proposal : TransactionProposal) (parentApprovalWitness : E.MerkleMapWitness)
    (parentApprovalCount : Fp) : Circuit Unit := do
  let parentAddress := proposal.guardAddress
  assertFalse (parentAddress = PublicKey.empty) "Parent address required"
  let parent ← getAndRequireEquals StateField.parent
  assertTrue (parent = parentAddress) "Parent address mismatch"
  assertTrue (proposal.txType = TxType.createChild) "Not a create child tx"
  assertTrue (proposal.destination = destinationRemote) "Not a remote execution proposal"
  let address ← thisAddress
  assertTrue (proposal.childAccount = address) "Proposal not for this child"
  assertTrue (proposal.nonce = 0) "Create child proposal nonce must be 0"
  assertCoherentSetupOwners E initialOwners numOwners
  let ownersCommitment := computeSetupOwnersChain E initialOwners numOwners
  let configHash := E.childConfigHash ownersCommitment threshold numOwners
  assertTrue (proposal.data = configHash) "Child config mismatch"
  let reserved ← getAndRequireEquals StateField.reservedConfigHash
  assertTrue (reserved = configHash) "Executed config must match reserved child config"
  let proposalHash ← assertParentApprovalState E proposal parentAddress
    parentApprovalWitness parentApprovalCount
  initializeState E threshold numOwners parentAddress 0 0 initialOwners
  set StateField.reservedConfigHash 0
  emitEvent (.execution proposalHash proposal.txType E.emptyMerkleMapRoot)
  emitEvent (.createChild proposalHash parentAddress)

/-- Types whose proposals execute on the guard that stores them. -/
def isLocalType (txType : Fp) : Prop :=
  txType = TxType.transfer ∨ txType = TxType.changeThreshold ∨
    txType = TxType.addOwner ∨ txType = TxType.removeOwner ∨
      txType = TxType.setDelegate ∨ txType = TxType.allocateChild

/-- The child-lifecycle types, approved on a parent. -/
def isRemoteType (txType : Fp) : Prop :=
  txType = TxType.createChild ∨ txType = TxType.reclaimChild ∨
    txType = TxType.destroyChild ∨ txType = TxType.enableChildMultiSig

def isTransferLike (txType : Fp) : Prop :=
  txType = TxType.transfer ∨ txType = TxType.allocateChild

/-- The types with a payload in `data`. -/
def allowsData (txType : Fp) : Prop :=
  txType = TxType.changeThreshold ∨ txType = TxType.createChild ∨
    txType = TxType.reclaimChild ∨ txType = TxType.enableChildMultiSig ∨
      txType = TxType.addOwner

instance (txType : Fp) : Decidable (isLocalType txType) := by
  unfold isLocalType; infer_instance

instance (txType : Fp) : Decidable (isRemoteType txType) := by
  unfold isRemoteType; infer_instance

instance (txType : Fp) : Decidable (isTransferLike txType) := by
  unfold isTransferLike; infer_instance

instance (txType : Fp) : Decidable (allowsData txType) := by
  unfold allowsData; infer_instance

/-- The receiver rules of `propose`, for one slot. -/
def assertReceiverRules (r : Receiver) : Check := do
  let isEmpty := r.address = PublicKey.empty
  assertOnCurveIf E (¬isEmpty) r.address
  assertFalse (isEmpty ∧ ¬r.amount = 0) "Empty receiver must have zero amount"

/-- Rules 1 to 7 of `propose`. -/
def assertProposalRules (proposal : TransactionProposal) : Circuit Unit := do
  let txType := proposal.txType
  assertTrue (isLocalType txType ∨ isRemoteType txType) "Unknown txType"
  assertTrue
    ((isLocalType txType ∧ proposal.destination = destinationLocal) ∨
      (isRemoteType txType ∧ proposal.destination = destinationRemote))
    "txType and destination mismatch"
  let slot0Empty := proposal.slot0.address = PublicKey.empty
  assertFalse ((txType = TxType.addOwner ∨ txType = TxType.removeOwner) ∧ slot0Empty)
    "addOwner/removeOwner requires target pubkey in receivers[0]"
  assertFalse (txType = TxType.changeThreshold ∧ ¬slot0Empty)
    "changeThreshold must have empty receivers[0]"
  assertFalse (isRemoteType txType ∧ ¬slot0Empty)
    "Child lifecycle proposal must have empty receivers[0]"
  assertTrue (isTransferLike txType ∨ atMostOneReceiver proposal)
    "Non-transfer proposal has extra receivers"
  (forM proposal.receivers.toList fun receiver ↦
    assertTrue (isTransferLike txType ∨ amountValue receiver.amount = 0)
      "Non-transfer proposal must have zero receiver amounts" : Check)
  assertTrue (allowsData txType ∨ proposal.data = 0) "data must be zero for this txType"
  assertFalse (txType = TxType.addOwner ∧ proposal.data = 0)
    "addOwner requires expected owners commitment in data"
  let (_, numOwners) ← getGovernanceState
  assertTrue (¬txType = TxType.changeThreshold ∨ greaterThan proposal.data 0)
    "Threshold must be > 0"
  assertTrue (¬txType = TxType.changeThreshold ∨ lessThanOrEqual proposal.data numOwners)
    "Threshold cannot exceed owner count"
  assertTrue (¬txType = TxType.enableChildMultiSig ∨ proposal.data = 0 ∨ proposal.data = 1)
    "Enabled must be 0 or 1"
  assertTrue (proposal.tokenId = nativeTokenId)
    "Only the native MINA token (tokenId 1) is supported"
  (forM proposal.receivers.toList (assertReceiverRules E) : Check)

def propose (proposal : TransactionProposal) (ownerWitness : OwnerWitness)
    (proposer : PublicKey) (signature : E.Signature)
    (voteNullifierWitness approvalWitness : E.MerkleMapWitness) : Circuit Unit := do
  assertChildMultiSigEnabledIfChild
  let ownersCommitment ← getInitializedOwnersCommitment
  assertOwnerMembership E ownersCommitment proposer ownerWitness
  assertProposalConfigNetworkAndGuard proposal
  assertProposalDestinationAndChildAccount proposal
  assertProposalNotExpired proposal
  assertFreshProposalNonce proposal
  assertProposalRules E proposal
  let proposalHash := E.proposalHash proposal
  assertTrue
    (E.verify signature proposer [E.proposalSigningMessage proposalHash .propose] = true)
    "Invalid signature"
  let newVoteRoot ← nullifyVote E proposalHash proposer voteNullifierWitness
  assertApprovalWitnessValue E proposalHash approvalWitness 0
  let newApprovalRoot :=
    (E.merkleMap.computeRootAndKey approvalWitness (proposedMarker + 1)).1
  set StateField.approvalRoot newApprovalRoot
  emitEvent (.proposal proposalHash proposer proposal.tokenId proposal.txType
    proposal.data proposal.memoHash proposal.nonce proposal.configNonce
    proposal.expirySlot proposal.guardAddress proposal.destination
    proposal.childAccount)
  emitReceiversEvent proposal proposalHash
  emitEvent (.approval proposalHash proposer (proposedMarker + 1) newApprovalRoot
    newVoteRoot)

def approveProposal (proposal : TransactionProposal) (signature : E.Signature)
    (approver : PublicKey) (ownerWitness : OwnerWitness)
    (approvalWitness : E.MerkleMapWitness) (currentApprovalCount : Fp)
    (voteNullifierWitness : E.MerkleMapWitness) : Circuit Unit := do
  assertChildMultiSigEnabledIfChild
  let ownersCommitment ← getInitializedOwnersCommitment
  assertOwnerMembership E ownersCommitment approver ownerWitness
  assertProposalConfigNetworkAndGuard proposal
  assertProposalDestinationAndChildAccount proposal
  assertProposalNotExpired proposal
  assertFreshProposalNonce proposal
  let proposalHash := E.proposalHash proposal
  assertTrue
    (E.verify signature approver [E.proposalSigningMessage proposalHash .approve] = true)
    "Invalid signature"
  assertNotExecuted currentApprovalCount
  assertProposalExists currentApprovalCount
  let newVoteRoot ← nullifyVote E proposalHash approver voteNullifierWitness
  assertApprovalWitnessValue E proposalHash approvalWitness currentApprovalCount
  let newApprovalCount := currentApprovalCount + 1
  let newApprovalRoot :=
    (E.merkleMap.computeRootAndKey approvalWitness newApprovalCount).1
  set StateField.approvalRoot newApprovalRoot
  emitEvent (.approval proposalHash approver newApprovalCount newApprovalRoot newVoteRoot)

/-- What the opening of a LOCAL execution has read. -/
structure LocalContext where
  proposalHash : Fp
  ownersCommitment : Fp
  threshold : Fp
  numOwners : Fp

/-- The checks every LOCAL execution starts with; `typeCheck` is the method's
own check of the proposal type. -/
def beginLocalExecution (typeCheck : Check) (proposal : TransactionProposal)
    (approvalWitness : E.MerkleMapWitness) (approvalCount : Fp) :
    Circuit LocalContext := do
  assertChildMultiSigEnabledIfChild
  let ownersCommitment ← getInitializedOwnersCommitment
  typeCheck
  assertLocalProposal proposal
  let proposalHash := E.proposalHash proposal
  assertProposalConfigNetworkAndGuard proposal
  assertProposalNotExpired proposal
  assertNotExecuted approvalCount
  assertProposalExists approvalCount
  let (threshold, numOwners) ← getGovernanceState
  assertThresholdSatisfied approvalCount threshold
  assertApprovalWitnessValue E proposalHash approvalWitness approvalCount
  assertAndIncrementLocalNonce proposal
  pure { proposalHash, ownersCommitment, threshold, numOwners }

def executeTransfer (proposal : TransactionProposal)
    (approvalWitness : E.MerkleMapWitness) (approvalCount : Fp) : Circuit Unit := do
  let c ← beginLocalExecution E
    (assertTrue (proposal.txType = TxType.transfer) "Not a transfer tx")
    proposal approvalWitness approvalCount
  executeTransfers proposal
  let writtenRoot ← markExecuted E approvalWitness
  emitEvent (.execution c.proposalHash proposal.txType writtenRoot)

/-- The state fields an allocation reads on each recipient. -/
def allocationFields (s : GuardState) : List StateValue :=
  [.ownersCommitment s.ownersCommitment, .parent s.parent]

/-- One slot of `executeAllocateToChildren`; padding reads this guard. -/
def allocateToChild (address : PublicKey) (r : Receiver) : Circuit Unit := do
  let isEmpty := r.address = PublicKey.empty
  let recipient := if isEmpty then address else r.address
  let child ← readAndPayGuard recipient allocationFields (effectiveAmount r)
  assertTrue (isEmpty ∨ ¬child.ownersCommitment = 0) "Allocation recipient not initialized"
  assertTrue (isEmpty ∨ child.parent = address)
    "Allocation recipient not bound to this parent"

def executeAllocateToChildren (proposal : TransactionProposal)
    (approvalWitness : E.MerkleMapWitness) (approvalCount : Fp) : Circuit Unit := do
  let c ← beginLocalExecution E
    (assertTrue (proposal.txType = TxType.allocateChild) "Not an allocate child tx")
    proposal approvalWitness approvalCount
  let address ← thisAddress
  forM proposal.receivers.toList (allocateToChild address)
  let writtenRoot ← markExecuted E approvalWitness
  emitEvent (.execution c.proposalHash proposal.txType writtenRoot)

def executeOwnerChange (proposal : TransactionProposal)
    (approvalWitness : E.MerkleMapWitness) (approvalCount : Fp)
    (ownerWitness : OwnerWitness) (insertAfter : PublicKeyOption) : Circuit Unit := do
  let isAdd := proposal.txType = TxType.addOwner
  let isRemove := proposal.txType = TxType.removeOwner
  let c ← beginLocalExecution E
    (assertTrue (isAdd ∨ isRemove) "Not an owner change tx")
    proposal approvalWitness approvalCount
  let ownerPubKey := proposal.slot0.address
  let (afterAddComm, addIsValid) :=
    addOwnerToCommitment E c.ownersCommitment ownerPubKey ownerWitness insertAfter
  let (afterRemoveComm, remIsValid) :=
    removeOwnerFromCommitment E c.ownersCommitment ownerPubKey ownerWitness
  let newNumOwners := c.numOwners + toField (decide isAdd) - toField (decide isRemove)
  assertTrue (greaterThanOrEqual newNumOwners c.threshold)
    "Cannot remove: would go below threshold"
  assertTrue (lessThanOrEqual newNumOwners (maxOwners : Fp))
    "Cannot have more than 20 owners."
  assertTrue ((if isRemove then remIsValid else addIsValid) = true) "Owner change not valid"
  assertTrue (if isAdd then afterAddComm = proposal.data else True)
    "Owner commitment does not match approved proposal.data"
  let newOwnersCommitment := if isRemove then afterRemoveComm else afterAddComm
  set StateField.ownersCommitment newOwnersCommitment
  setGovernanceState c.threshold newNumOwners
  let writtenRoot ← markExecuted E approvalWitness
  let newConfigNonce ← bumpConfigNonce
  emitEvent (.execution c.proposalHash proposal.txType writtenRoot)
  emitEvent (.ownerChange c.proposalHash ownerPubKey (toField (decide isAdd))
    newNumOwners newOwnersCommitment newConfigNonce)

def executeThresholdChange (proposal : TransactionProposal)
    (approvalWitness : E.MerkleMapWitness) (approvalCount newThreshold : Fp) :
    Circuit Unit := do
  let c ← beginLocalExecution E
    (assertTrue (proposal.txType = TxType.changeThreshold) "Not a threshold change tx")
    proposal approvalWitness approvalCount
  assertTrue (proposal.data = newThreshold) "Data does not match new threshold"
  assertTrue (greaterThan newThreshold 0) "Threshold must be > 0"
  assertTrue (greaterThanOrEqual c.numOwners newThreshold)
    "Threshold cannot exceed owner count"
  setGovernanceState newThreshold c.numOwners
  let writtenRoot ← markExecuted E approvalWitness
  let newConfigNonce ← bumpConfigNonce
  emitEvent (.execution c.proposalHash proposal.txType writtenRoot)
  emitEvent (.thresholdChange c.proposalHash c.threshold newThreshold newConfigNonce)

def executeDelegate (proposal : TransactionProposal)
    (approvalWitness : E.MerkleMapWitness) (approvalCount : Fp) : Circuit Unit := do
  let c ← beginLocalExecution E
    (assertTrue (proposal.txType = TxType.setDelegate) "Not a delegate tx")
    proposal approvalWitness approvalCount
  let address ← thisAddress
  let isUndelegate := proposal.slot0.address = PublicKey.empty
  let targetDelegate := if isUndelegate then address else proposal.slot0.address
  setDelegate targetDelegate
  let writtenRoot ← markExecuted E approvalWitness
  emitEvent (.execution c.proposalHash proposal.txType writtenRoot)
  emitEvent (.delegate c.proposalHash targetDelegate)

/-- The checks every REMOTE execution on an initialized child starts with. -/
def beginRemoteExecution (typeCheck : Check) (proposal : TransactionProposal)
    (parentApprovalWitness : E.MerkleMapWitness) (parentApprovalCount : Fp)
    (childExecutionWitness : E.MerkleMapWitness) : Circuit Fp := do
  let _ ← getInitializedOwnersCommitment
  typeCheck
  assertValidRemoteProposal proposal
  let proposalHash ← verifyParentApproval E proposal parentApprovalWitness
    parentApprovalCount
  assertChildExecutionWitnessValue E proposalHash childExecutionWitness 0
  assertAndIncrementParentNonce proposal
  pure proposalHash

def executeReclaimToParent (proposal : TransactionProposal)
    (parentApprovalWitness : E.MerkleMapWitness) (parentApprovalCount : Fp)
    (childExecutionWitness : E.MerkleMapWitness) (amount : UInt64) : Circuit Unit := do
  let proposalHash ← beginRemoteExecution E
    (assertTrue (proposal.txType = TxType.reclaimChild) "Not a reclaim child tx")
    proposal parentApprovalWitness parentApprovalCount childExecutionWitness
  assertTrue (proposal.data = amountValue amount) "Data does not match reclaim amount"
  let parentAddress ← getAndRequireEquals StateField.parent
  send parentAddress amount
  let writtenRoot ← markChildExecuted E childExecutionWitness
  emitEvent (.execution proposalHash proposal.txType writtenRoot)
  emitEvent (.reclaimChild proposalHash parentAddress amount)

def executeDestroy (proposal : TransactionProposal)
    (parentApprovalWitness : E.MerkleMapWitness) (parentApprovalCount : Fp)
    (childExecutionWitness : E.MerkleMapWitness) : Circuit Unit := do
  let proposalHash ← beginRemoteExecution E
    (assertTrue (proposal.txType = TxType.destroyChild) "Not a destroy child tx")
    proposal parentApprovalWitness parentApprovalCount childExecutionWitness
  let balance ← getBalanceLowerBound
  let parentAddress ← getAndRequireEquals StateField.parent
  send parentAddress balance
  let writtenRoot ← markChildExecuted E childExecutionWitness
  set StateField.childMultiSigEnabled 0
  let configNonce ← bumpConfigNonce
  emitEvent (.execution proposalHash proposal.txType writtenRoot)
  emitEvent (.reclaimChild proposalHash parentAddress balance)
  emitEvent (.enableChildMultiSig proposalHash parentAddress 0 configNonce)

def executeEnableChildMultiSig (proposal : TransactionProposal)
    (parentApprovalWitness : E.MerkleMapWitness) (parentApprovalCount : Fp)
    (childExecutionWitness : E.MerkleMapWitness) (enabled : Fp) : Circuit Unit := do
  let proposalHash ← beginRemoteExecution E
    (assertTrue (proposal.txType = TxType.enableChildMultiSig)
      "Not an enable-child-multi-sig tx")
    proposal parentApprovalWitness parentApprovalCount childExecutionWitness
  assertTrue (proposal.data = enabled) "Data does not match enabled flag"
  assertTrue (enabled = 0 ∨ enabled = 1) "Enabled must be 0 or 1"
  set StateField.childMultiSigEnabled enabled
  let current ← getAndRequireEquals StateField.configNonce
  -- disabling kills pending LOCAL proposals; enabling changes nothing
  let configNonce := current + toField (decide (enabled = 0))
  set StateField.configNonce configNonce
  let writtenRoot ← markChildExecuted E childExecutionWitness
  let parentAddress ← getAndRequireEquals StateField.parent
  emitEvent (.execution proposalHash proposal.txType writtenRoot)
  emitEvent (.enableChildMultiSig proposalHash parentAddress enabled configNonce)

end MinaGuard
