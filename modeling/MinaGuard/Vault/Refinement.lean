import MinaGuard.Vault.Invariant

/-!
# Guards refine vaults

If the app state of a guard encodes a phase, then an included call leaves a
state that encodes the next phase.  The proof is one lemma for each kind of
call: what the checks of the circuits say about the vault, and which leaves
the new roots commit to.
-/

namespace MinaGuard

open Foundations

variable {E : Env} {T : Transcript E} {this : PublicKey}

/-- The phases a guard at `this` can be in. -/
inductive Phase.Sound (T : Transcript E) (this : PublicKey) : Phase → Prop where
  | vacant : Sound T this .vacant
  | reserved {a : PublicKey} {c : Fp} (ne_empty : a ≠ PublicKey.empty) (ne_this : a ≠ this) :
      Sound T this (.reserved a c)
  | active {v : Vault} (invariant : v.Invariant T this) : Sound T this (.active v)

/-- The app state `s` of the guard at `this` is that of the phase. -/
structure Refines (T : Transcript E) (this : PublicKey) (s : GuardState) (ph : Phase) :
    Prop where
  state : s = ph.encode E
  sound : ph.Sound T this

namespace Refines

variable {s : GuardState} {ph : Phase}

theorem active (h : Refines T this s ph) (hinit : s.ownersCommitment ≠ 0) :
    ∃ v, ph = .active v ∧ s = v.encode E ∧ v.Invariant T this := by
  obtain ⟨hstate, hsound⟩ := h
  subst hstate
  cases hsound with
  | vacant => exact absurd rfl hinit
  | reserved => exact absurd rfl hinit
  | active hinvariant => exact ⟨_, rfl, rfl, hinvariant⟩

theorem inactive (h : Refines T this s ph) (hzero : s.ownersCommitment = 0) :
    ph = .vacant ∨ ∃ a c, ph = .reserved a c ∧ a ≠ PublicKey.empty ∧ a ≠ this := by
  obtain ⟨hstate, hsound⟩ := h
  subst hstate
  cases hsound with
  | vacant => exact Or.inl rfl
  | reserved ne_empty ne_this => exact Or.inr ⟨_, _, rfl, ne_empty, ne_this⟩
  | active hinvariant =>
      exact absurd hzero (T.computeOwnerChain_ne_zero hinvariant.chained)

end Refines

theorem initialized_eq_encode {threshold numOwners : Fp} {owners : SetupOwnersInput}
    (hnum : numOwners.val ≤ maxOwners) (s : GuardState) (parent : PublicKey)
    (hconfig : s.configNonce = 0) :
    { s.initialized E threshold numOwners parent owners with reservedConfigHash := 0 } =
      (Vault.fresh parent (setupOwners owners numOwners) threshold.val).encode E := by
  have hthreshold : ((threshold.val : ℕ) : Fp) = threshold := ZMod.natCast_zmod_val _
  have hlength : (((setupOwners owners numOwners).length : ℕ) : Fp) = numOwners := by
    rw [length_setupOwners owners hnum, ZMod.natCast_zmod_val]
  have hnullifiers : (Vault.fresh parent (setupOwners owners numOwners)
      threshold.val).nullifierMap E = fun _ ↦ 0 := by
    funext κ
    simp [Vault.nullifierMap, Vault.fresh]
  unfold Vault.encode
  rw [hnullifiers]
  simp only [GuardState.initialized, Vault.fresh, hthreshold, hlength, hconfig,
    computeSetupOwnersChain_eq, List.length_nil, Nat.cast_zero]
  rfl

theorem governed_of_initialGovernance {threshold numOwners : Fp}
    {owners : SetupOwnersInput} (h : InitialGovernance E threshold numOwners owners) :
    Governed E (setupOwners owners numOwners) threshold.val where
  coherent := h.coherent
  threshold_pos := h.threshold_pos
  threshold_le := by
    rw [length_setupOwners owners h.numOwners_le]
    exact h.threshold_le
  length_le := by
    rw [length_setupOwners owners h.numOwners_le]
    exact h.numOwners_le

namespace Vault

/-- The guard at `this` approves `p`: a quorum of its present owners voted for
it, and it has not been executed there. -/
structure Approves (E : Env) (this : PublicKey) (v : Vault) (p : TransactionProposal) :
    Prop where
  guard : p.guardAddress = this
  current : p.configNonce = (v.configNonce : Fp)
  pending : E.proposalHash p ∉ v.executed.map E.proposalHash
  voted : ∃ k, (p, k) ∈ v.votes
  distinct : (v.voters E (E.proposalHash p)).Nodup
  enough : v.threshold ≤ (v.voters E (E.proposalHash p)).length
  owners : ∀ k ∈ v.voters E (E.proposalHash p), k ∈ v.owners

variable {v : Vault} {p : TransactionProposal}

namespace Invariant

theorem voted_of_voters (h : v.Invariant T this) (hp : E.proposalInput p ∈ T.hashed)
    (hvoters : v.voters E (E.proposalHash p) ≠ []) : ∃ k, (p, k) ∈ v.votes := by
  obtain ⟨k, hk⟩ := List.exists_mem_of_ne_nil _ hvoters
  obtain ⟨q, hq, heq⟩ := mem_voters.mp hk
  exact ⟨k, h.voted_eq hp hq heq⟩

/-- A count that passes the circuit's checks is backed by a quorum. -/
theorem approves (h : v.Invariant T this) {w : E.MerkleMapWitness} {count : Fp}
    (hw : w ∈ T.witnesses) (hp : E.proposalInput p ∈ T.hashed)
    (happroved : ApprovedBy E p this (v.encode E) w count) : v.Approves E this p := by
  have hleaf : v.approvalMap E (E.proposalHash p) = count :=
    T.binding.read hw h.approvals_mem happroved.root happroved.key
  obtain ⟨hpending, hvoters, hcount⟩ :=
    approvalMap_eq_count hleaf happroved.notExecuted happroved.proposed
  have hthreshold : v.threshold ≤ maxOwners :=
    h.governed.threshold_le.trans h.governed.length_le
  exact
    { guard := happroved.guard
      current := happroved.configNonce
      pending := hpending
      voted := h.voted_of_voters hp hvoters
      distinct := h.voters_nodup _
      enough := threshold_le_voters (h.voters_le _) hthreshold hcount happroved.threshold
      owners := fun _ hk ↦ h.voters_owners hp happroved.configNonce hk }

end Invariant

/-- What a LOCAL execution of `p` needs. -/
structure Executable (E : Env) (this : PublicKey) (v : Vault) (p : TransactionProposal) :
    Prop extends Approves E this v p where
  enabled : v.parent = PublicKey.empty ∨ v.enabled = true
  destination : p.destination = destinationLocal
  nonce : p.nonce = ((v.executed.length + 1 : ℕ) : Fp)

theorem toField_eq_one {b : Bool} : toField b = 1 ↔ b = true := by
  cases b <;> simp [toField]

namespace Invariant

variable {w : E.MerkleMapWitness} {count : Fp} {slot : ℕ}

theorem executable (h : v.Invariant T this) (hw : w ∈ T.witnesses)
    (hp : E.proposalInput p ∈ T.hashed)
    (hchecks : LocalChecks E this (v.encode E) slot p w count) : v.Executable E this p :=
  { h.approves hw hp hchecks.approved with
    enabled := hchecks.enabled.imp_right toField_eq_one.mp
    destination := hchecks.destination
    nonce := by
      rw [hchecks.nonce, Nat.cast_add, Nat.cast_one]
      rfl }

/-- Marking the leaf of `p` commits to the vault that has executed `p`. -/
theorem executed (h : v.Invariant T this) (hw : w ∈ T.witnesses)
    (hp : E.proposalInput p ∈ T.hashed)
    (hchecks : LocalChecks E this (v.encode E) slot p w count)
    (hwritten : ∀ map ∈ T.maps,
      (E.merkleMap.computeRootAndKey w count).1 = E.merkleMap.getRoot map →
        Function.update map (E.merkleMap.computeRootAndKey w count).2 executedMarker ∈
          T.maps) :
    (v.execute p).Invariant T this ∧
      (E.merkleMap.computeRootAndKey w executedMarker).1 =
        E.merkleMap.getRoot ((v.execute p).approvalMap E) := by
  have hexecutable := h.executable hw hp hchecks
  have hroot := hchecks.approved.root
  have hkey := hchecks.approved.key
  have hmem := hwritten _ h.approvals_mem hroot
  rw [hkey, ← approvalMap_execute] at hmem
  have hnew : p ∉ v.executed := fun hmem ↦
    hexecutable.pending (List.mem_map_of_mem hmem)
  refine ⟨h.execute hexecutable.destination hexecutable.voted hexecutable.nonce hnew hmem, ?_⟩
  rw [approvalMap_execute]
  exact T.binding.write hw h.approvals_mem hroot hkey executedMarker

end Invariant

/-- What a vote of `k` on `p` needs. -/
structure Votable (T : Transcript E) (this : PublicKey) (v : Vault)
    (p : TransactionProposal) (k : PublicKey) : Prop where
  record : OnRecord T this v.parent v.owners v.configNonce p k
  current : p.configNonce = (v.configNonce : Fp)
  enabled : v.parent = PublicKey.empty ∨ v.enabled = true
  pending : E.proposalHash p ∉ v.executed.map E.proposalHash
  fresh : (p, k) ∉ v.votes

namespace Invariant

variable {k : PublicKey} {ow : OwnerWitness} {vw aw : E.MerkleMapWitness} {count : Fp}
  {slot : ℕ} {authority : GuardState}

/-- The list behind a membership witness is the owner list. -/
theorem witnessedOwners (h : v.Invariant T this) {owners : List PublicKey}
    (hchained : ∀ q ∈ ownerChainInputs E owners, q ∈ T.hashed)
    (hcommitted : computeOwnerChain E owners = (v.encode E).ownersCommitment) :
    owners = v.owners :=
  T.computeOwnerChain_inj hchained h.chained hcommitted

theorem votable (h : v.Invariant T this) (hvw : vw ∈ T.witnesses)
    (hp : E.proposalInput p ∈ T.hashed)
    (hk : Env.voteNullifierInput (E.proposalHash p) k ∈ T.hashed)
    (hchained : ∀ q ∈ ownerChainInputs E (presentKeys ow.toList), q ∈ T.hashed)
    (hchecks : VoteChecks E this (v.encode E) authority slot p k ow vw aw count)
    (hpending : E.proposalHash p ∉ v.executed.map E.proposalHash)
    (hrules : ProposalRules E p) : v.Votable T this p k := by
  have hroot : p.destination = destinationRemote → v.parent = PublicKey.empty := by
    intro hremote
    rcases hchecks.destination with ⟨hlocal, -⟩ | ⟨-, -, hparent⟩
    · exact absurd (hlocal.symm.trans hremote) destinationLocal_ne_remote
    · exact hparent
  have hepoch : p.configNonce.val ≤ v.configNonce := by
    rw [hchecks.configNonce]
    exact val_natCast_le _
  have howner : k ∈ v.owners := by
    rw [← h.witnessedOwners hchained hchecks.owners]
    exact hchecks.member
  have hvote : v.nullifierMap E (E.voteNullifierKey (E.proposalHash p) k) = 0 :=
    T.binding.read hvw h.nullifiers_mem hchecks.voteRoot hchecks.voteKey
  exact
    { record :=
        { hashed := hp
          nullifier := hk
          rules := hrules
          guard := hchecks.guard
          root := hroot
          epoch := hepoch
          owner := fun _ ↦ howner }
      current := hchecks.configNonce
      enabled := hchecks.enabled.imp_right toField_eq_one.mp
      pending := hpending
      fresh := nullifierMap_eq_zero hvote rfl }

/-- A first vote finds an empty leaf. -/
theorem proposed_leaf (h : v.Invariant T this) (haw : aw ∈ T.witnesses)
    (hchecks : VoteChecks E this (v.encode E) authority slot p k ow vw aw 0) :
    E.proposalHash p ∉ v.executed.map E.proposalHash ∧
      v.voters E (E.proposalHash p) = [] :=
  approvalMap_eq_zero (h.voters_le _)
    (T.binding.read haw h.approvals_mem hchecks.root hchecks.key)

/-- A further vote finds the number of earlier voters. -/
theorem approved_leaf (h : v.Invariant T this) (haw : aw ∈ T.witnesses)
    (hchecks : VoteChecks E this (v.encode E) authority slot p k ow vw aw count)
    (hexecuted : count ≠ executedMarker) (hproposed : proposedMarker.val ≤ count.val) :
    E.proposalHash p ∉ v.executed.map E.proposalHash ∧
      v.voters E (E.proposalHash p) ≠ [] ∧
      count = proposedMarker + ((v.voters E (E.proposalHash p)).length : Fp) :=
  approvalMap_eq_count (T.binding.read haw h.approvals_mem hchecks.root hchecks.key)
    hexecuted hproposed

/-- Both roots written by a vote commit to the vault with that vote. -/
theorem voted (h : v.Invariant T this) (hvw : vw ∈ T.witnesses) (haw : aw ∈ T.witnesses)
    (hvotable : v.Votable T this p k)
    (hchecks : VoteChecks E this (v.encode E) authority slot p k ow vw aw count)
    {count' : Fp}
    (hcount : count' =
      proposedMarker + (((v.voters E (E.proposalHash p)).length + 1 : ℕ) : Fp))
    (hvotes : ∀ map ∈ T.maps,
      (E.merkleMap.computeRootAndKey vw 0).1 = E.merkleMap.getRoot map →
        Function.update map (E.merkleMap.computeRootAndKey vw 0).2 1 ∈ T.maps)
    (happrovals : ∀ map ∈ T.maps,
      (E.merkleMap.computeRootAndKey aw count).1 = E.merkleMap.getRoot map →
        Function.update map (E.merkleMap.computeRootAndKey aw count).2 count' ∈ T.maps) :
    (v.vote p k).Invariant T this ∧
      (E.merkleMap.computeRootAndKey vw 1).1 =
        E.merkleMap.getRoot ((v.vote p k).nullifierMap E) ∧
      (E.merkleMap.computeRootAndKey aw count').1 =
        E.merkleMap.getRoot ((v.vote p k).approvalMap E) := by
  have hvotesMem := hvotes _ h.nullifiers_mem hchecks.voteRoot
  have happrovalsMem := happrovals _ h.approvals_mem hchecks.root
  rw [hchecks.voteKey, ← nullifierMap_vote] at hvotesMem
  rw [hchecks.key, hcount, ← approvalMap_vote hvotable.pending] at happrovalsMem
  refine ⟨h.vote hvotable.record hvotable.current hvotable.fresh happrovalsMem hvotesMem,
    ?_, ?_⟩
  · rw [nullifierMap_vote]
    exact T.binding.write hvw h.nullifiers_mem hchecks.voteRoot hchecks.voteKey 1
  · rw [approvalMap_vote hvotable.pending, ← hcount]
    exact T.binding.write haw h.approvals_mem hchecks.root hchecks.key count'

end Invariant

/-- What an execution of `p` on an initialized child needs of the child. -/
structure ChildExecutable (T : Transcript E) (this : PublicKey) (v : Vault)
    (p : TransactionProposal) : Prop extends ForChild T this v.parent p where
  isChild : v.parent ≠ PublicKey.empty
  pending : E.proposalHash p ∉ v.childExecuted.map E.proposalHash
  nonce : p.nonce = ((v.childExecuted.length + 1 : ℕ) : Fp)

namespace Invariant

variable {pw cw : E.MerkleMapWitness} {count : Fp} {slot : ℕ} {parentState : GuardState}

theorem childExecutable (h : v.Invariant T this) (hcw : cw ∈ T.witnesses)
    (hp : E.proposalInput p ∈ T.hashed) (htype : p.txType ≠ TxType.createChild)
    (hchecks : RemoteChecks E this (v.encode E) parentState slot p pw count cw) :
    v.ChildExecutable T this p where
  hashed := hp
  remote := hchecks.destination
  lifecycle := htype
  child := hchecks.child
  guard := hchecks.approved.guard
  isChild := hchecks.isChild
  pending := childExecutionMap_eq_zero
    (T.binding.read hcw h.childExecutions_mem hchecks.root hchecks.key)
  nonce := by
    rw [hchecks.nonce, Nat.cast_add, Nat.cast_one]
    rfl

theorem childExecuted_root (h : v.Invariant T this) (hcw : cw ∈ T.witnesses)
    (hp : E.proposalInput p ∈ T.hashed) (htype : p.txType ≠ TxType.createChild)
    (hchecks : RemoteChecks E this (v.encode E) parentState slot p pw count cw)
    (hwritten : ∀ map ∈ T.maps,
      (E.merkleMap.computeRootAndKey cw 0).1 = E.merkleMap.getRoot map →
        Function.update map (E.merkleMap.computeRootAndKey cw 0).2 executedMarker ∈
          T.maps) :
    (v.executeChild p).Invariant T this ∧
      (E.merkleMap.computeRootAndKey cw executedMarker).1 =
        E.merkleMap.getRoot ((v.executeChild p).childExecutionMap E) := by
  have hexecutable := h.childExecutable hcw hp htype hchecks
  have hmem := hwritten _ h.childExecutions_mem hchecks.root
  rw [hchecks.key, ← childExecutionMap_executeChild] at hmem
  have hnew : p ∉ v.childExecuted := fun hmem ↦
    hexecutable.pending (List.mem_map_of_mem hmem)
  refine ⟨h.executeChild hexecutable.toForChild hnew hmem, ?_⟩
  rw [childExecutionMap_executeChild]
  exact T.binding.write hcw h.childExecutions_mem hchecks.root hchecks.key executedMarker

end Invariant

end Vault

end MinaGuard
