import MinaGuard.Contract.Methods
import MinaGuard.Contract.OwnerListSpec
import MinaGuard.Foundations.TransitionSystem

/-!
# The ledger and its runs

A proved forest changes the ledger only if every precondition holds when it is
included: the guard's own update first, then the attached updates in order,
all of them or none.  A run interleaves such calls on any number of guards
with deposits, the passing of slots, and whatever happens to accounts that are
not guards.

A `Transcript` is a record of the hash inputs, Merkle maps and witnesses of a
run in which no collision occurs.  Runs are relative to a transcript: nothing
is assumed about inputs that nobody ever hashed.
-/

namespace MinaGuard

open Foundations

/-- A method with its arguments. -/
inductive MethodCall (E : Env) where
  | setup (threshold numOwners : Fp) (initialOwners : SetupOwnersInput)
  | reserveForParent (parentAddress : PublicKey)
      (proposalHash threshold numOwners : Fp) (initialOwners : SetupOwnersInput)
  | executeSetupChild (threshold numOwners : Fp) (initialOwners : SetupOwnersInput)
      (proposal : TransactionProposal) (parentApprovalWitness : E.MerkleMapWitness)
      (parentApprovalCount : Fp)
  | propose (proposal : TransactionProposal) (ownerWitness : OwnerWitness)
      (proposer : PublicKey) (signature : E.Signature)
      (voteNullifierWitness approvalWitness : E.MerkleMapWitness)
  | approveProposal (proposal : TransactionProposal) (signature : E.Signature)
      (approver : PublicKey) (ownerWitness : OwnerWitness)
      (approvalWitness : E.MerkleMapWitness) (currentApprovalCount : Fp)
      (voteNullifierWitness : E.MerkleMapWitness)
  | executeTransfer (proposal : TransactionProposal)
      (approvalWitness : E.MerkleMapWitness) (approvalCount : Fp)
  | executeAllocateToChildren (proposal : TransactionProposal)
      (approvalWitness : E.MerkleMapWitness) (approvalCount : Fp)
  | executeOwnerChange (proposal : TransactionProposal)
      (approvalWitness : E.MerkleMapWitness) (approvalCount : Fp)
      (ownerWitness : OwnerWitness) (insertAfter : PublicKeyOption)
  | executeThresholdChange (proposal : TransactionProposal)
      (approvalWitness : E.MerkleMapWitness) (approvalCount newThreshold : Fp)
  | executeDelegate (proposal : TransactionProposal)
      (approvalWitness : E.MerkleMapWitness) (approvalCount : Fp)
  | executeReclaimToParent (proposal : TransactionProposal)
      (parentApprovalWitness : E.MerkleMapWitness) (parentApprovalCount : Fp)
      (childExecutionWitness : E.MerkleMapWitness) (amount : UInt64)
  | executeDestroy (proposal : TransactionProposal)
      (parentApprovalWitness : E.MerkleMapWitness) (parentApprovalCount : Fp)
      (childExecutionWitness : E.MerkleMapWitness)
  | executeEnableChildMultiSig (proposal : TransactionProposal)
      (parentApprovalWitness : E.MerkleMapWitness) (parentApprovalCount : Fp)
      (childExecutionWitness : E.MerkleMapWitness) (enabled : Fp)

namespace MethodCall

variable {E : Env}

def circuit : MethodCall E → Circuit Unit
  | .setup t n o => MinaGuard.setup E t n o
  | .reserveForParent a h t n o => MinaGuard.reserveForParent E a h t n o
  | .executeSetupChild t n o p w c => MinaGuard.executeSetupChild E t n o p w c
  | .propose p ow k sig vw aw => MinaGuard.propose E p ow k sig vw aw
  | .approveProposal p sig k ow aw c vw => MinaGuard.approveProposal E p sig k ow aw c vw
  | .executeTransfer p w c => MinaGuard.executeTransfer E p w c
  | .executeAllocateToChildren p w c => MinaGuard.executeAllocateToChildren E p w c
  | .executeOwnerChange p w c ow pos => MinaGuard.executeOwnerChange E p w c ow pos
  | .executeThresholdChange p w c t => MinaGuard.executeThresholdChange E p w c t
  | .executeDelegate p w c => MinaGuard.executeDelegate E p w c
  | .executeReclaimToParent p w c cw a => MinaGuard.executeReclaimToParent E p w c cw a
  | .executeDestroy p w c cw => MinaGuard.executeDestroy E p w c cw
  | .executeEnableChildMultiSig p w c cw e =>
      MinaGuard.executeEnableChildMultiSig E p w c cw e

/-- The forest of updates a prover obtains from the call. -/
def prove (m : MethodCall E) (P : Prover) : Except String Forest :=
  match m.circuit P (Forest.start P.address) with
  | .error e => .error e
  | .ok r => .ok r.2

theorem prove_ok {m : MethodCall E} {P : Prover} {F : Forest} :
    m.prove P = .ok F ↔ m.circuit P (Forest.start P.address) = .ok ((), F) := by
  unfold prove
  cases m.circuit P (Forest.start P.address) with
  | error e => simp
  | ok r => simp [Prod.ext_iff]

/-- The proposal a call acts on. -/
def proposal? : MethodCall E → Option TransactionProposal
  | .setup .. => none
  | .reserveForParent .. => none
  | .executeSetupChild _ _ _ p .. => some p
  | .propose p .. => some p
  | .approveProposal p .. => some p
  | .executeTransfer p .. => some p
  | .executeAllocateToChildren p .. => some p
  | .executeOwnerChange p .. => some p
  | .executeThresholdChange p .. => some p
  | .executeDelegate p .. => some p
  | .executeReclaimToParent p .. => some p
  | .executeDestroy p .. => some p
  | .executeEnableChildMultiSig p .. => some p

end MethodCall

structure Account where
  appState : GuardState
  permissionsLocked : Bool
  balance : ℕ
  delegate : PublicKey
deriving DecidableEq

structure Ledger where
  account : PublicKey → Account
  slot : ℕ

namespace Ledger

variable (L : Ledger)

/-- The app state at an address. -/
def state (a : PublicKey) : GuardState := (L.account a).appState

def setAccount (a : PublicKey) (acc : Account) : Ledger :=
  { L with account := Function.update L.account a acc }

def credit (a : PublicKey) (amount : ℕ) : Ledger :=
  L.setAccount a { L.account a with balance := (L.account a).balance + amount }

end Ledger

/-- Everything the guard's update requires of the ledger. -/
def AccountUpdate.Satisfied (u : AccountUpdate) (L : Ledger) : Prop :=
  (∀ v ∈ u.preconditions, v.Holds (L.state u.publicKey)) ∧
    (∀ slot ∈ u.slotAtMost, L.slot ≤ slot) ∧
    u.balanceAtLeast ≤ (L.account u.publicKey).balance ∧
    u.debit ≤ (L.account u.publicKey).balance ∧
    (u.locksPermissions = true → (L.account u.publicKey).permissionsLocked = false)

instance (u : AccountUpdate) (L : Ledger) : Decidable (u.Satisfied L) := by
  unfold AccountUpdate.Satisfied; infer_instance

/-- The account the update leaves. -/
def AccountUpdate.updated (u : AccountUpdate) (acc : Account) : Account where
  appState := u.appState.foldl StateValue.write acc.appState
  permissionsLocked := acc.permissionsLocked || u.locksPermissions
  balance := acc.balance - u.debit
  delegate := u.delegate.getD acc.delegate

def AccountUpdate.apply (u : AccountUpdate) (L : Ledger) : Option Ledger :=
  if u.Satisfied L then
    some (L.setAccount u.publicKey (u.updated (L.account u.publicKey)))
  else none

def ChildUpdate.apply (L : Ledger) (c : ChildUpdate) : Option Ledger :=
  if ∀ v ∈ c.preconditions, v.Holds (L.state c.publicKey) then
    some (L.credit c.publicKey c.credit)
  else none

/-- The guard's own update, then the attached ones; all or nothing. -/
def Forest.apply (F : Forest) (L : Ledger) : Option Ledger :=
  (F.self.apply L).bind fun L₁ ↦ F.children.foldlM ChildUpdate.apply L₁

/-- The link inputs of an owner chain. -/
def ownerChainInputs (E : Env) (owners : List PublicKey) : List HashInput :=
  (Chain.inputs E.ownerChainLink E.initialOwnerChain owners).map fun q ↦
    Env.ownerLinkInput q.1 q.2

/-- A leaf rewritten along one witness. -/
structure MapWrite (E : Env) where
  witness : E.MerkleMapWitness
  oldValue : Fp
  newValue : Fp

/-- A collision-free record of hash inputs, maps and witnesses. -/
structure Transcript (E : Env) where
  hashed : Set HashInput
  maps : Set (Fp → Fp)
  witnesses : Set E.MerkleMapWitness
  hash_injOn : Set.InjOn E.hash hashed
  hash_ne_zero : ∀ q ∈ hashed, E.hash q ≠ 0
  binding : E.merkleMap.Binding maps witnesses
  getRoot_ne_zero : ∀ m ∈ maps, E.merkleMap.getRoot m ≠ 0
  initialOwnerChain_mem : ("owner-chain", []) ∈ hashed
  emptyMap_mem : (fun _ ↦ 0) ∈ maps

namespace MethodCall

variable {E : Env}

/-- The hash inputs a call relies on. -/
def hashInputs : MethodCall E → List HashInput
  | .setup _ n o => ownerChainInputs E (setupOwners o n)
  | .reserveForParent _ _ t n o =>
      Env.childConfigInput (computeSetupOwnersChain E o n) t n ::
        ownerChainInputs E (setupOwners o n)
  | .executeSetupChild t n o p _ _ =>
      E.proposalInput p :: Env.childConfigInput (computeSetupOwnersChain E o n) t n ::
        ownerChainInputs E (setupOwners o n)
  | .propose p ow k _ _ _ =>
      E.proposalInput p :: Env.voteNullifierInput (E.proposalHash p) k ::
        ownerChainInputs E (presentKeys ow.toList)
  | .approveProposal p _ k ow _ _ _ =>
      E.proposalInput p :: Env.voteNullifierInput (E.proposalHash p) k ::
        ownerChainInputs E (presentKeys ow.toList)
  | .executeTransfer p .. => [E.proposalInput p]
  | .executeAllocateToChildren p .. => [E.proposalInput p]
  | .executeOwnerChange p _ _ ow pos =>
      E.proposalInput p :: ownerChainInputs E (presentKeys ow.toList) ++
        ownerChainInputs E
          (insertOwner pos p.slot0.address (presentKeys ow.toList)) ++
        ownerChainInputs E
          (removeOwner p.slot0.address (presentKeys ow.toList))
  | .executeThresholdChange p .. => [E.proposalInput p]
  | .executeDelegate p .. => [E.proposalInput p]
  | .executeReclaimToParent p .. => [E.proposalInput p]
  | .executeDestroy p .. => [E.proposalInput p]
  | .executeEnableChildMultiSig p .. => [E.proposalInput p]

/-- The witnesses a call presents. -/
def witnesses : MethodCall E → List E.MerkleMapWitness
  | .setup .. => []
  | .reserveForParent .. => []
  | .executeSetupChild _ _ _ _ w _ => [w]
  | .propose _ _ _ _ vw aw => [vw, aw]
  | .approveProposal _ _ _ _ aw _ vw => [vw, aw]
  | .executeTransfer _ w _ => [w]
  | .executeAllocateToChildren _ w _ => [w]
  | .executeOwnerChange _ w .. => [w]
  | .executeThresholdChange _ w .. => [w]
  | .executeDelegate _ w _ => [w]
  | .executeReclaimToParent _ w _ cw _ => [w, cw]
  | .executeDestroy _ w _ cw => [w, cw]
  | .executeEnableChildMultiSig _ w _ cw _ => [w, cw]

/-- The leaves a call rewrites. -/
def mapWrites : MethodCall E → List (MapWrite E)
  | .setup .. => []
  | .reserveForParent .. => []
  | .executeSetupChild .. => []
  | .propose _ _ _ _ vw aw => [⟨vw, 0, 1⟩, ⟨aw, 0, proposedMarker + 1⟩]
  | .approveProposal _ _ _ _ aw c vw => [⟨vw, 0, 1⟩, ⟨aw, c, c + 1⟩]
  | .executeTransfer _ w c => [⟨w, c, executedMarker⟩]
  | .executeAllocateToChildren _ w c => [⟨w, c, executedMarker⟩]
  | .executeOwnerChange _ w c .. => [⟨w, c, executedMarker⟩]
  | .executeThresholdChange _ w c _ => [⟨w, c, executedMarker⟩]
  | .executeDelegate _ w c => [⟨w, c, executedMarker⟩]
  | .executeReclaimToParent _ _ _ cw _ => [⟨cw, 0, executedMarker⟩]
  | .executeDestroy _ _ _ cw => [⟨cw, 0, executedMarker⟩]
  | .executeEnableChildMultiSig _ _ _ cw _ => [⟨cw, 0, executedMarker⟩]

/-- The transcript covers the call: it lists what the call hashes, the
witnesses it presents, and the maps it moves committed maps to. -/
structure Recorded (m : MethodCall E) (T : Transcript E) : Prop where
  hashed : ∀ q ∈ m.hashInputs, q ∈ T.hashed
  witnessed : ∀ w ∈ m.witnesses, w ∈ T.witnesses
  written : ∀ x ∈ m.mapWrites, ∀ map ∈ T.maps,
    (E.merkleMap.computeRootAndKey x.witness x.oldValue).1 = E.merkleMap.getRoot map →
      Function.update map (E.merkleMap.computeRootAndKey x.witness x.oldValue).2
        x.newValue ∈ T.maps

end MethodCall

/-- What can happen on the ledger. -/
inductive Action (E : Env) where
  | call (address : PublicKey) (method : MethodCall E) (update : Forest)
  | deposit (recipient : PublicKey) (amount : ℕ)
  | advance (slot : ℕ)
  | foreign (address : PublicKey) (account : Account)

/-- One step of a ledger whose `guards` are MinaGuard accounts.  The prover is
arbitrary: whatever states it claims, inclusion checks them. -/
inductive LedgerStep {E : Env} (T : Transcript E) (guards : Set PublicKey) :
    Ledger → Action E → Ledger → Prop where
  | call {L L' : Ledger} {P : Prover} {m : MethodCall E} {F : Forest}
      (guard : P.address ∈ guards) (recorded : m.Recorded T)
      (proved : m.prove P = .ok F) (included : F.apply L = some L') :
      LedgerStep T guards L (.call P.address m F) L'
  | deposit {L : Ledger} {a : PublicKey} {amount : ℕ} :
      LedgerStep T guards L (.deposit a amount) (L.credit a amount)
  | advance {L : Ledger} {slot : ℕ} (later : L.slot ≤ slot) :
      LedgerStep T guards L (.advance slot) { L with slot := slot }
  | foreign {L : Ledger} {a : PublicKey} {acc : Account} (other : a ∉ guards) :
      LedgerStep T guards L (.foreign a acc) (L.setAccount a acc)

/-- Guards start with a zeroed app state. -/
def ledgerSystem {E : Env} (T : Transcript E) (guards : Set PublicKey) :
    TransitionSystem Ledger (Action E) where
  init := fun L ↦ ∀ a ∈ guards, L.state a = GuardState.zero
  step := LedgerStep T guards

end MinaGuard
