import MinaGuard.Vault.Refinement

/-!
# Included calls, kind by kind

The thirteen methods fall into kinds: setting up, reserving, creating a child,
voting, executing LOCAL proposals, executing REMOTE ones.  For each kind, an
included call finds the vault in a state that permits it; for every method, the
state it leaves encodes the next phase.
-/

namespace MinaGuard

open Foundations

variable {E : Env} {T : Transcript E}

namespace MethodCall

/-- The vote a call casts. -/
def vote? : MethodCall E → Option (TransactionProposal × PublicKey)
  | .propose p _ k .. => some (p, k)
  | .approveProposal p _ k .. => some (p, k)
  | _ => none

/-- The LOCAL proposal a call executes. -/
def localExecution? : MethodCall E → Option TransactionProposal
  | .executeTransfer p .. => some p
  | .executeAllocateToChildren p .. => some p
  | .executeOwnerChange p .. => some p
  | .executeThresholdChange p .. => some p
  | .executeDelegate p .. => some p
  | _ => none

/-- The REMOTE proposal a call executes on an initialized child. -/
def childExecution? : MethodCall E → Option TransactionProposal
  | .executeReclaimToParent p .. => some p
  | .executeDestroy p .. => some p
  | .executeEnableChildMultiSig p .. => some p
  | _ => none

/-- The CREATE_CHILD proposal a call executes. -/
def childCreation? : MethodCall E → Option TransactionProposal
  | .executeSetupChild _ _ _ p .. => some p
  | _ => none

/-- The call carries the signature of `k` for its operation on the hash. -/
def Signs (E : Env) (h : Fp) (k : PublicKey) : MethodCall E → Prop
  | .propose p _ proposer signature .. =>
      E.proposalHash p = h ∧ proposer = k ∧
        E.verify signature k [E.proposalSigningMessage h .propose] = true
  | .approveProposal p signature approver .. =>
      E.proposalHash p = h ∧ approver = k ∧
        E.verify signature k [E.proposalSigningMessage h .approve] = true
  | _ => False

variable {m : MethodCall E} {P : Prover} {F : Forest} {L L' : Ledger}
  {p : TransactionProposal} {k : PublicKey}

theorem localChecks (hm : m.localExecution? = some p) (hprove : m.prove P = .ok F)
    (hF : F.Included L L') :
    ∃ w count, LocalChecks E P.address (L.state P.address) L.slot p w count ∧
      m.witnesses = [w] ∧ m.mapWrites = [⟨w, count, executedMarker⟩] ∧
      E.proposalInput p ∈ m.hashInputs := by
  rw [prove_ok] at hprove
  cases m with
  | executeTransfer q w count =>
      cases hm
      exact ⟨w, count, (executeTransfer_spec hprove hF).2.1, rfl, rfl, List.mem_cons_self⟩
  | executeAllocateToChildren q w count =>
      cases hm
      exact ⟨w, count, (executeAllocateToChildren_spec hprove hF).2.1, rfl, rfl,
        List.mem_cons_self⟩
  | executeOwnerChange q w count ow pos =>
      cases hm
      obtain ⟨_, _, -, -, -, hchecks, -⟩ := executeOwnerChange_spec hprove hF
      exact ⟨w, count, hchecks, rfl, rfl, List.mem_cons_self⟩
  | executeThresholdChange q w count t =>
      cases hm
      obtain ⟨-, -, -, -, hchecks, -⟩ := executeThresholdChange_spec hprove hF
      exact ⟨w, count, hchecks, rfl, rfl, List.mem_cons_self⟩
  | executeDelegate q w count =>
      cases hm
      exact ⟨w, count, (executeDelegate_spec hprove hF).2.1, rfl, rfl, List.mem_cons_self⟩
  | _ => cases hm

theorem remoteChecks (hm : m.childExecution? = some p) (hprove : m.prove P = .ok F)
    (hF : F.Included L L') :
    ∃ pw cw count, RemoteChecks E P.address (L.state P.address)
        (L'.state (L.state P.address).parent) L.slot p pw count cw ∧
      (p.txType = TxType.reclaimChild ∨ p.txType = TxType.destroyChild ∨
        p.txType = TxType.enableChildMultiSig) ∧
      m.witnesses = [pw, cw] ∧ m.mapWrites = [⟨cw, 0, executedMarker⟩] ∧
      E.proposalInput p ∈ m.hashInputs := by
  rw [prove_ok] at hprove
  cases m with
  | executeReclaimToParent q pw count cw amount =>
      cases hm
      obtain ⟨htype, -, hchecks, -⟩ := executeReclaimToParent_spec hprove hF
      exact ⟨pw, cw, count, hchecks, Or.inl htype, rfl, rfl, List.mem_cons_self⟩
  | executeDestroy q pw count cw =>
      cases hm
      obtain ⟨htype, hchecks, -⟩ := executeDestroy_spec hprove hF
      exact ⟨pw, cw, count, hchecks, Or.inr (Or.inl htype), rfl, rfl, List.mem_cons_self⟩
  | executeEnableChildMultiSig q pw count cw enabled =>
      cases hm
      obtain ⟨htype, -, -, hchecks, -⟩ := executeEnableChildMultiSig_spec hprove hF
      exact ⟨pw, cw, count, hchecks, Or.inr (Or.inr htype), rfl, rfl, List.mem_cons_self⟩
  | _ => cases hm

/-- The leaf a vote writes over the leaf it found. -/
def votedLeaf (count : Fp) : Fp :=
  if count = 0 then proposedMarker + 1 else count + 1

/-- A vote passes the shared checks; besides, it is either a first vote on a
proposal that follows the rules, or a further one. -/
theorem voteChecks (hm : m.vote? = some (p, k)) (hprove : m.prove P = .ok F)
    (hF : F.Included L L') :
    ∃ ow vw aw count, VoteChecks E P.address (L.state P.address)
        (L'.state (nonceAuthority p P.address)) L.slot p k ow vw aw count ∧
      ((count = 0 ∧ ProposalRules E p) ∨
        (count ≠ executedMarker ∧ proposedMarker.val ≤ count.val)) ∧
      m.Signs E (E.proposalHash p) k ∧
      m.witnesses = [vw, aw] ∧
      m.hashInputs = E.proposalInput p ::
        Env.voteNullifierInput (E.proposalHash p) k ::
          ownerChainInputs E (presentKeys ow.toList) ∧
      m.mapWrites = [⟨vw, 0, 1⟩, ⟨aw, count, votedLeaf count⟩] ∧
      L'.state P.address =
        { L.state P.address with
          voteNullifierRoot := (E.merkleMap.computeRootAndKey vw 1).1
          approvalRoot := (E.merkleMap.computeRootAndKey aw (votedLeaf count)).1 } := by
  rw [prove_ok] at hprove
  cases m with
  | propose q ow proposer sig vw aw =>
      cases hm
      obtain ⟨hchecks, hrules, hsig, -, hstate⟩ := propose_spec hprove hF
      have hleaf : votedLeaf 0 = proposedMarker + 1 := if_pos rfl
      refine ⟨ow, vw, aw, 0, hchecks, Or.inl ⟨rfl, hrules⟩, ⟨rfl, rfl, hsig⟩, rfl, rfl,
        ?_, ?_⟩
      · rw [hleaf]
        rfl
      · rw [hleaf]
        exact hstate
  | approveProposal q sig approver ow aw count vw =>
      cases hm
      obtain ⟨hchecks, hexecuted, hproposed, hsig, -, hstate⟩ :=
        approveProposal_spec hprove hF
      have hne : count ≠ 0 := by
        rintro rfl
        rw [val_proposedMarker, val_zero] at hproposed
        omega
      have hleaf : votedLeaf count = count + 1 := if_neg hne
      refine ⟨ow, vw, aw, count, hchecks, Or.inr ⟨hexecuted, hproposed⟩,
        ⟨rfl, rfl, hsig⟩, rfl, rfl, ?_, ?_⟩
      · rw [hleaf]
        rfl
      · rw [hleaf]
        exact hstate
  | _ => cases hm

section Finds

variable {ph : Phase}

/-- A LOCAL execution finds a vault whose owners approved the proposal. -/
theorem executable (href : Refines T P.address (L.state P.address) ph)
    (hrec : m.Recorded T) (hm : m.localExecution? = some p) (hprove : m.prove P = .ok F)
    (hF : F.Included L L') :
    ∃ v, ph = .active v ∧ v.Invariant T P.address ∧ v.Executable E P.address p := by
  obtain ⟨w, count, hchecks, hw, -, hp⟩ := localChecks hm hprove hF
  obtain ⟨v, rfl, hstate, hv⟩ := href.active hchecks.approved.initialized
  rw [hstate] at hchecks
  exact ⟨v, rfl, hv, hv.executable (hrec.witnessed w (by simp [hw])) (hrec.hashed _ hp)
    hchecks⟩

/-- A REMOTE execution finds a child that has not executed the proposal. -/
theorem childExecutable (href : Refines T P.address (L.state P.address) ph)
    (hrec : m.Recorded T) (hm : m.childExecution? = some p) (hprove : m.prove P = .ok F)
    (hF : F.Included L L') :
    ∃ v, ph = .active v ∧ v.Invariant T P.address ∧ v.ChildExecutable T P.address p := by
  obtain ⟨pw, cw, count, hchecks, htype, hws, -, hp⟩ := remoteChecks hm hprove hF
  obtain ⟨v, rfl, hstate, hv⟩ := href.active hchecks.initialized
  rw [hstate] at hchecks
  have hne : p.txType ≠ TxType.createChild := by
    rcases htype with htype | htype | htype <;> rw [htype] <;> decide
  exact ⟨v, rfl, hv,
    hv.childExecutable (hrec.witnessed cw (by simp [hws])) (hrec.hashed _ hp) hne hchecks⟩

/-- A vote finds a vault in which it is new, and adds it. -/
theorem votable (href : Refines T P.address (L.state P.address) ph)
    (hrec : m.Recorded T) (hm : m.vote? = some (p, k)) (hprove : m.prove P = .ok F)
    (hF : F.Included L L') :
    ∃ v, ph = .active v ∧ v.Votable T P.address p k ∧
      Refines T P.address (L'.state P.address) (.active (v.vote p k)) := by
  obtain ⟨ow, vw, aw, count, hchecks, hkind, -, hwitnesses, hinputs, hwrites, hafter⟩ :=
    voteChecks hm hprove hF
  obtain ⟨v, rfl, hstate, hv⟩ := href.active hchecks.initialized
  rw [hstate] at hchecks hafter
  have hvw : vw ∈ T.witnesses := hrec.witnessed vw (by simp [hwitnesses])
  have haw : aw ∈ T.witnesses := hrec.witnessed aw (by simp [hwitnesses])
  have hp : E.proposalInput p ∈ T.hashed := hrec.hashed _ (by simp [hinputs])
  have hk : Env.voteNullifierInput (E.proposalHash p) k ∈ T.hashed :=
    hrec.hashed _ (by simp [hinputs])
  have hchained : ∀ q ∈ ownerChainInputs E (presentKeys ow.toList), q ∈ T.hashed := by
    intro q hq
    exact hrec.hashed q (by simp [hinputs, hq])
  -- a first vote brings the rules along, a further one finds them on record
  have hleaf : E.proposalHash p ∉ v.executed.map E.proposalHash ∧ ProposalRules E p ∧
      votedLeaf count = proposedMarker +
        (((v.voters E (E.proposalHash p)).length + 1 : ℕ) : Fp) := by
    rcases hkind with ⟨rfl, hrules⟩ | ⟨hexecuted, hproposed⟩
    · obtain ⟨hpending, hnone⟩ := hv.proposed_leaf haw hchecks
      refine ⟨hpending, hrules, ?_⟩
      rw [hnone]
      simp [votedLeaf]
    · obtain ⟨hpending, hsome, hcount⟩ := hv.approved_leaf haw hchecks hexecuted hproposed
      obtain ⟨k', hk'⟩ := hv.voted_of_voters hp hsome
      have hne : count ≠ 0 := by
        rintro rfl
        rw [val_proposedMarker, val_zero] at hproposed
        omega
      refine ⟨hpending, (hv.votes _ hk').rules, ?_⟩
      rw [votedLeaf, if_neg hne, Nat.cast_add, Nat.cast_one, ← add_assoc, ← hcount]
  obtain ⟨hpending, hrules, hcount⟩ := hleaf
  have hvotable := hv.votable hvw hp hk hchained hchecks hpending hrules
  obtain ⟨hv', hvotes, hroot⟩ := hv.voted hvw haw hvotable hchecks hcount
    (hrec.written ⟨vw, 0, 1⟩ (by simp [hwrites]))
    (hrec.written ⟨aw, count, votedLeaf count⟩ (by simp [hwrites]))
  refine ⟨v, rfl, hvotable, ?_, .active hv'⟩
  rw [hafter]
  exact v.encode_vote hvotes hroot

end Finds

end MethodCall

/-! ## Owner changes -/

namespace Vault.Invariant

variable {v : Vault} {this : PublicKey} {p : TransactionProposal} {ow : OwnerWitness}
  {pos : PublicKeyOption} {commitment : Fp}

/-- An accepted addition inserts the key proposed, at one place. -/
theorem ownersAfter_add (h : v.Invariant T this) (hrules : ProposalRules E p)
    (htype : p.txType = TxType.addOwner)
    (hchained : ∀ q ∈ ownerChainInputs E (presentKeys ow.toList), q ∈ T.hashed)
    (hadd : addOwnerToCommitment E (v.encode E).ownersCommitment p.slot0.address
      ow pos = (commitment, true)) :
    presentKeys ow.toList = v.owners ∧
      commitment = computeOwnerChain E (v.ownersAfter p pos) ∧
      (v.ownersAfter p pos).length = v.owners.length + 1 ∧
      OwnersCoherent E (v.ownersAfter p pos) ∧
      ∃ front back, v.owners = front ++ back ∧
        v.ownersAfter p pos = front ++ p.slot0.address :: back := by
  obtain ⟨hchain, hvalid⟩ := addOwnerToCommitment_spec (E := E)
    (v.encode E).ownersCommitment p.slot0.address ow pos
  rw [hadd] at hchain hvalid
  obtain ⟨hnew, hpos, hcommitted⟩ := hvalid.mp rfl
  have howners := h.witnessedOwners hchained hcommitted
  rw [howners] at hchain hnew hpos
  have hne := hrules.slot0_owner (Or.inl htype)
  have hcurve := hrules.onCurve _ p.slot0_mem hne
  have hcoherent := h.governed.coherent
  unfold Vault.ownersAfter
  rw [if_pos htype]
  exact ⟨howners, hchain, length_insertOwner hcoherent.nodup hpos _,
    hcoherent.insertOwner hpos hne hcurve hnew, insertOwner_eq hcoherent.nodup hpos _⟩

/-- An accepted removal drops the key proposed. -/
theorem ownersAfter_remove (h : v.Invariant T this) (pos : PublicKeyOption)
    (htype : p.txType = TxType.removeOwner)
    (hchained : ∀ q ∈ ownerChainInputs E (presentKeys ow.toList), q ∈ T.hashed)
    (hremove : removeOwnerFromCommitment E (v.encode E).ownersCommitment
      p.slot0.address ow = (commitment, true)) :
    presentKeys ow.toList = v.owners ∧ p.slot0.address ∈ v.owners ∧
      commitment = computeOwnerChain E (v.ownersAfter p pos) ∧
      (v.ownersAfter p pos).length + 1 = v.owners.length ∧
      OwnersCoherent E (v.ownersAfter p pos) := by
  obtain ⟨hchain, hvalid⟩ := removeOwnerFromCommitment_spec (E := E)
    (v.encode E).ownersCommitment p.slot0.address ow
  rw [hremove] at hchain hvalid
  obtain ⟨hmem, hcommitted, -⟩ := hvalid rfl
  have howners := h.witnessedOwners hchained hcommitted
  rw [howners] at hchain hmem
  have hcoherent := h.governed.coherent
  have hne : ¬p.txType = TxType.addOwner := by
    rw [htype]
    decide
  unfold Vault.ownersAfter
  rw [if_neg hne]
  exact ⟨howners, hmem, hchain, length_removeOwner hcoherent.nodup hmem,
    hcoherent.removeOwner _⟩

end Vault.Invariant

section Simulation

variable {P : Prover} {F : Forest} {L L' : Ledger} {ph : Phase}

theorem refines_setup {t n : Fp} {o : SetupOwnersInput}
    (href : Refines T P.address (L.state P.address) ph)
    (hrec : (MethodCall.setup (E := E) t n o).Recorded T)
    (hprove : (MethodCall.setup (E := E) t n o).prove P = .ok F) (hF : F.Included L L') :
    Refines T P.address (L'.state P.address)
      (ph.next (MethodCall.setup (E := E) t n o)) := by
  obtain ⟨hzero, hparent, hgov, -, hstate⟩ := setup_spec (MethodCall.prove_ok.mp hprove) hF
  rcases href.inactive hzero with rfl | ⟨a, c, rfl, hne, -⟩
  · rw [href.state] at hstate
    refine ⟨?_, .active (.fresh (governed_of_initialGovernance hgov) hrec.hashed
      fun hne ↦ absurd rfl hne)⟩
    rw [hstate]
    exact initialized_eq_encode hgov.numOwners_le GuardState.zero PublicKey.empty rfl
  · rw [href.state] at hparent
    exact absurd hparent hne

theorem refines_reserveForParent {a : PublicKey} {hash t n : Fp} {o : SetupOwnersInput}
    (href : Refines T P.address (L.state P.address) ph)
    (hprove : (MethodCall.reserveForParent (E := E) a hash t n o).prove P = .ok F)
    (hF : F.Included L L') :
    Refines T P.address (L'.state P.address)
      (ph.next (MethodCall.reserveForParent (E := E) a hash t n o)) := by
  obtain ⟨hzero, hparent, hne, hother, -, -, -, -, hstate⟩ :=
    reserveForParent_spec (MethodCall.prove_ok.mp hprove) hF
  rcases href.inactive hzero with rfl | ⟨b, c, rfl, hbne, -⟩
  · rw [href.state] at hstate
    exact ⟨hstate, .reserved hne hother⟩
  · rw [href.state] at hparent
    exact absurd hparent hbne

theorem refines_executeSetupChild {t n : Fp} {o : SetupOwnersInput}
    {p : TransactionProposal} {w : E.MerkleMapWitness} {count : Fp}
    (href : Refines T P.address (L.state P.address) ph)
    (hrec : (MethodCall.executeSetupChild t n o p w count).Recorded T)
    (hprove : (MethodCall.executeSetupChild t n o p w count).prove P = .ok F)
    (hF : F.Included L L') :
    Refines T P.address (L'.state P.address)
      (ph.next (MethodCall.executeSetupChild t n o p w count)) := by
  obtain ⟨hzero, hparent, -, -, -, -, -, -, -, -, hgov, -, hstate⟩ :=
    executeSetupChild_spec (MethodCall.prove_ok.mp hprove) hF
  rcases href.inactive hzero with rfl | ⟨a, c, rfl, -, hne⟩
  · rw [href.state] at hparent
    exact absurd rfl hparent
  · have hchained : ∀ q ∈ ownerChainInputs E (setupOwners o n), q ∈ T.hashed :=
      fun q hq ↦ hrec.hashed q (List.mem_cons_of_mem _ (List.mem_cons_of_mem _ hq))
    rw [href.state] at hstate
    refine ⟨?_, .active (.fresh (governed_of_initialGovernance hgov) hchained
      fun _ ↦ hne)⟩
    rw [hstate]
    exact initialized_eq_encode hgov.numOwners_le _ a rfl

/-- The LOCAL executions that only move funds or the delegate. -/
theorem refines_execute {p : TransactionProposal} {w : E.MerkleMapWitness} {count : Fp}
    {m : MethodCall E} (href : Refines T P.address (L.state P.address) ph)
    (hrec : m.Recorded T) (hwitness : w ∈ m.witnesses)
    (hinput : E.proposalInput p ∈ m.hashInputs)
    (hwrite : ⟨w, count, executedMarker⟩ ∈ m.mapWrites)
    (hchecks : LocalChecks E P.address (L.state P.address) L.slot p w count) :
    ∃ v, ph = .active v ∧ L.state P.address = v.encode E ∧
      v.Invariant T P.address ∧ (v.execute p).Invariant T P.address ∧
      (E.merkleMap.computeRootAndKey w executedMarker).1 =
        E.merkleMap.getRoot ((v.execute p).approvalMap E) := by
  obtain ⟨v, rfl, hstate, hv⟩ := href.active hchecks.approved.initialized
  rw [hstate] at hchecks
  obtain ⟨hv', hroot⟩ := hv.executed (hrec.witnessed w hwitness) (hrec.hashed _ hinput)
    hchecks (hrec.written _ hwrite)
  exact ⟨v, rfl, hstate, hv, hv', hroot⟩

/-- Executing raises the bound on the configuration number. -/
theorem configNonce_lt_execute {v : Vault} {this : PublicKey} {p : TransactionProposal}
    (h : v.Invariant T this) :
    (v.execute p).configNonce <
      (v.execute p).executed.length + (v.execute p).childExecuted.length := by
  have hle := h.configNonce_le
  have hlen : (v.execute p).executed.length = v.executed.length + 1 := by
    simp [Vault.execute]
  rw [hlen]
  change v.configNonce < v.executed.length + 1 + v.childExecuted.length
  omega

theorem refines_executeThresholdChange {p : TransactionProposal}
    {w : E.MerkleMapWitness} {count newThreshold : Fp}
    (href : Refines T P.address (L.state P.address) ph)
    (hrec : (MethodCall.executeThresholdChange p w count newThreshold).Recorded T)
    (hprove : (MethodCall.executeThresholdChange p w count newThreshold).prove P = .ok F)
    (hF : F.Included L L') :
    Refines T P.address (L'.state P.address)
      (ph.next (MethodCall.executeThresholdChange p w count newThreshold)) := by
  obtain ⟨-, -, hpos, hle, hchecks, -, hafter⟩ :=
    executeThresholdChange_spec (MethodCall.prove_ok.mp hprove) hF
  obtain ⟨v, rfl, hstate, hv, hv', hroot⟩ := refines_execute href hrec
    List.mem_cons_self List.mem_cons_self List.mem_cons_self hchecks
  have hbound : newThreshold.val ≤ v.owners.length := by
    rw [hstate] at hle
    exact hle.trans hv.val_numOwners.le
  have hgoverned : Governed E v.owners newThreshold.val :=
    { hv.governed with threshold_pos := hpos, threshold_le := hbound }
  have hcast : ((newThreshold.val : ℕ) : Fp) = newThreshold := ZMod.natCast_zmod_val _
  refine ⟨?_, .active (hv'.govern (configNonce_lt_execute hv) hgoverned hv.chained)⟩
  rw [hafter, hstate]
  change _ = ((v.execute p).govern v.owners newThreshold.val).encode E
  rw [← Vault.encode_govern, ← Vault.encode_execute hroot, hcast]
  rfl

theorem refines_executeOwnerChange {p : TransactionProposal}
    {w : E.MerkleMapWitness} {count : Fp} {ow : OwnerWitness} {pos : PublicKeyOption}
    (href : Refines T P.address (L.state P.address) ph)
    (hrec : (MethodCall.executeOwnerChange p w count ow pos).Recorded T)
    (hprove : (MethodCall.executeOwnerChange p w count ow pos).prove P = .ok F)
    (hF : F.Included L L') :
    Refines T P.address (L'.state P.address)
      (ph.next (MethodCall.executeOwnerChange p w count ow pos)) := by
  obtain ⟨newNumOwners, newCommitment, hchange, hge, hle, hchecks, -, hafter⟩ :=
    executeOwnerChange_spec (MethodCall.prove_ok.mp hprove) hF
  have hinput : E.proposalInput p ∈
      (MethodCall.executeOwnerChange p w count ow pos).hashInputs := List.mem_cons_self
  obtain ⟨v, rfl, hstate, hv, hv', hroot⟩ := refines_execute href hrec
    List.mem_cons_self hinput List.mem_cons_self hchecks
  have hhashed := hrec.hashed
  simp only [MethodCall.hashInputs, List.cons_append, List.forall_mem_cons,
    List.forall_mem_append] at hhashed
  obtain ⟨hp, ⟨hpresent, hinsert⟩, hremove⟩ := hhashed
  rw [hstate] at hchange hge hchecks
  obtain ⟨k, hk⟩ := (hv.executable (hrec.witnessed w List.mem_cons_self) hp hchecks).voted
  have hrules := (hv.votes _ hk).rules
  -- both circuits return the chain of the new list, of the length they claim
  have hnew : newCommitment = computeOwnerChain E (v.ownersAfter p pos) ∧
      newNumOwners = (((v.ownersAfter p pos).length : ℕ) : Fp) ∧
      (v.ownersAfter p pos).length ≤ v.owners.length + 1 ∧
      OwnersCoherent E (v.ownersAfter p pos) ∧
      ∀ q ∈ ownerChainInputs E (v.ownersAfter p pos), q ∈ T.hashed := by
    rcases hchange with ⟨htype, hnum, hadd⟩ | ⟨htype, hnum, hrem⟩
    · obtain ⟨howners, hchain, hlen, hcoherent, -⟩ :=
        hv.ownersAfter_add hrules htype hpresent hadd
      refine ⟨hchain, ?_, hlen.le, hcoherent, ?_⟩
      · rw [hnum, hlen, Nat.cast_add, Nat.cast_one]
        rfl
      · rw [howners] at hinsert
        unfold Vault.ownersAfter
        rwa [if_pos htype]
    · obtain ⟨howners, -, hchain, hlen, hcoherent⟩ :=
        hv.ownersAfter_remove pos htype hpresent hrem
      have hne : ¬p.txType = TxType.addOwner := by
        rw [htype]
        decide
      refine ⟨hchain, ?_, by omega, hcoherent, ?_⟩
      · rw [hnum]
        change (v.owners.length : Fp) - 1 = _
        rw [← hlen, Nat.cast_add, Nat.cast_one, add_sub_cancel_right]
      · rw [howners] at hremove
        unfold Vault.ownersAfter
        rwa [if_neg hne]
  obtain ⟨hchain, hnum, hlen, hcoherent, hchained⟩ := hnew
  have hsmall := small_lt_fieldOrder hv.governed.length_le
  have hval : newNumOwners.val = (v.ownersAfter p pos).length := by
    rw [hnum, val_natCast_of_lt (by omega)]
  rw [hval] at hge hle
  have hgoverned : Governed E (v.ownersAfter p pos) v.threshold :=
    { coherent := hcoherent
      threshold_pos := hv.governed.threshold_pos
      threshold_le := hv.val_threshold.symm.le.trans hge
      length_le := hle }
  refine ⟨?_, .active (hv'.govern (configNonce_lt_execute hv) hgoverned hchained)⟩
  rw [hafter, hstate, hchain, hnum]
  change _ = ((v.execute p).govern (v.ownersAfter p pos) v.threshold).encode E
  rw [← Vault.encode_govern, ← Vault.encode_execute hroot]
  rfl

/-- What the three REMOTE executions on a child have in common. -/
theorem refines_executeChild {p : TransactionProposal} {pw cw : E.MerkleMapWitness}
    {count : Fp} {m : MethodCall E} (href : Refines T P.address (L.state P.address) ph)
    (hrec : m.Recorded T) (hwitness : cw ∈ m.witnesses)
    (hinput : E.proposalInput p ∈ m.hashInputs)
    (hwrite : ⟨cw, 0, executedMarker⟩ ∈ m.mapWrites) (htype : p.txType ≠ TxType.createChild)
    (hchecks : RemoteChecks E P.address (L.state P.address)
      (L'.state (L.state P.address).parent) L.slot p pw count cw) :
    ∃ v, ph = .active v ∧ L.state P.address = v.encode E ∧
      v.Invariant T P.address ∧ (v.executeChild p).Invariant T P.address ∧
      (E.merkleMap.computeRootAndKey cw executedMarker).1 =
        E.merkleMap.getRoot ((v.executeChild p).childExecutionMap E) := by
  obtain ⟨v, rfl, hstate, hv⟩ := href.active hchecks.initialized
  rw [hstate] at hchecks
  obtain ⟨hv', hroot⟩ := hv.childExecuted_root (hrec.witnessed cw hwitness)
    (hrec.hashed _ hinput) htype hchecks (hrec.written _ hwrite)
  exact ⟨v, rfl, hstate, hv, hv', hroot⟩

theorem configNonce_lt_executeChild {v : Vault} {this : PublicKey}
    {p : TransactionProposal} (h : v.Invariant T this) :
    (v.executeChild p).configNonce <
      (v.executeChild p).executed.length + (v.executeChild p).childExecuted.length := by
  have hle := h.configNonce_le
  have hlen : (v.executeChild p).childExecuted.length = v.childExecuted.length + 1 := by
    simp [Vault.executeChild]
  rw [hlen]
  change v.configNonce < v.executed.length + (v.childExecuted.length + 1)
  omega

theorem refines_executeReclaimToParent {p : TransactionProposal}
    {pw cw : E.MerkleMapWitness} {count : Fp} {amount : UInt64}
    (href : Refines T P.address (L.state P.address) ph)
    (hrec : (MethodCall.executeReclaimToParent p pw count cw amount).Recorded T)
    (hprove : (MethodCall.executeReclaimToParent p pw count cw amount).prove P = .ok F)
    (hF : F.Included L L') :
    Refines T P.address (L'.state P.address)
      (ph.next (MethodCall.executeReclaimToParent p pw count cw amount)) := by
  obtain ⟨htype, -, hchecks, -, hafter⟩ :=
    executeReclaimToParent_spec (MethodCall.prove_ok.mp hprove) hF
  have hne : p.txType ≠ TxType.createChild := by
    rw [htype]
    decide
  obtain ⟨v, rfl, hstate, hv, hv', hroot⟩ := refines_executeChild href hrec
    (List.mem_cons_of_mem _ List.mem_cons_self) List.mem_cons_self List.mem_cons_self
    hne hchecks
  refine ⟨?_, .active hv'⟩
  rw [hafter, hstate]
  exact v.encode_executeChild hroot

theorem refines_executeDestroy {p : TransactionProposal} {pw cw : E.MerkleMapWitness}
    {count : Fp} (href : Refines T P.address (L.state P.address) ph)
    (hrec : (MethodCall.executeDestroy p pw count cw).Recorded T)
    (hprove : (MethodCall.executeDestroy p pw count cw).prove P = .ok F)
    (hF : F.Included L L') :
    Refines T P.address (L'.state P.address)
      (ph.next (MethodCall.executeDestroy p pw count cw)) := by
  obtain ⟨htype, hchecks, -, hafter⟩ :=
    executeDestroy_spec (MethodCall.prove_ok.mp hprove) hF
  have hne : p.txType ≠ TxType.createChild := by
    rw [htype]
    decide
  obtain ⟨v, rfl, hstate, hv, hv', hroot⟩ := refines_executeChild href hrec
    (List.mem_cons_of_mem _ List.mem_cons_self) List.mem_cons_self List.mem_cons_self
    hne hchecks
  refine ⟨?_, .active (hv'.disable (configNonce_lt_executeChild hv))⟩
  rw [hafter, hstate]
  change _ = ((v.executeChild p).setEnabled false).encode E
  rw [← Vault.encode_disable, ← Vault.encode_executeChild hroot]

theorem refines_executeEnableChildMultiSig {p : TransactionProposal}
    {pw cw : E.MerkleMapWitness} {count enabled : Fp}
    (href : Refines T P.address (L.state P.address) ph)
    (hrec : (MethodCall.executeEnableChildMultiSig p pw count cw enabled).Recorded T)
    (hprove : (MethodCall.executeEnableChildMultiSig p pw count cw enabled).prove P =
      .ok F)
    (hF : F.Included L L') :
    Refines T P.address (L'.state P.address)
      (ph.next (MethodCall.executeEnableChildMultiSig p pw count cw enabled)) := by
  obtain ⟨htype, -, henabled, hchecks, -, hafter⟩ :=
    executeEnableChildMultiSig_spec (MethodCall.prove_ok.mp hprove) hF
  have hne : p.txType ≠ TxType.createChild := by
    rw [htype]
    decide
  obtain ⟨v, rfl, hstate, hv, hv', hroot⟩ := refines_executeChild href hrec
    (List.mem_cons_of_mem _ List.mem_cons_self) List.mem_cons_self List.mem_cons_self
    hne hchecks
  rcases henabled with rfl | rfl
  · have hdisabled : decide ((0 : Fp) = 1) = false := by decide
    refine ⟨?_, ?_⟩
    · rw [hafter, hstate]
      change _ = ((v.executeChild p).setEnabled (decide ((0 : Fp) = 1))).encode E
      rw [hdisabled, ← Vault.encode_disable, ← Vault.encode_executeChild hroot]
      simp [toField]
    · change Phase.Sound T P.address
        (.active ((v.executeChild p).setEnabled (decide ((0 : Fp) = 1))))
      rw [hdisabled]
      exact .active (hv'.disable (configNonce_lt_executeChild hv))
  · have hdisabled : decide ((1 : Fp) = 1) = true := by decide
    refine ⟨?_, ?_⟩
    · rw [hafter, hstate]
      change _ = ((v.executeChild p).setEnabled (decide ((1 : Fp) = 1))).encode E
      rw [hdisabled, ← Vault.encode_enable, ← Vault.encode_executeChild hroot]
      simp [toField]
    · change Phase.Sound T P.address
        (.active ((v.executeChild p).setEnabled (decide ((1 : Fp) = 1))))
      rw [hdisabled]
      exact .active hv'.enable

/-- One included call: the next state encodes the next phase. -/
theorem refines_next {m : MethodCall E} (href : Refines T P.address (L.state P.address) ph)
    (hrec : m.Recorded T) (hprove : m.prove P = .ok F) (hF : F.Included L L') :
    Refines T P.address (L'.state P.address) (ph.next m) := by
  cases m with
  | setup => exact refines_setup href hrec hprove hF
  | reserveForParent => exact refines_reserveForParent href hprove hF
  | executeSetupChild => exact refines_executeSetupChild href hrec hprove hF
  | propose =>
      obtain ⟨v, rfl, -, hafter⟩ := MethodCall.votable href hrec rfl hprove hF
      exact hafter
  | approveProposal =>
      obtain ⟨v, rfl, -, hafter⟩ := MethodCall.votable href hrec rfl hprove hF
      exact hafter
  | executeTransfer p w count =>
      obtain ⟨-, hchecks, -, hafter⟩ :=
        executeTransfer_spec (MethodCall.prove_ok.mp hprove) hF
      obtain ⟨v, rfl, hstate, -, hv', hroot⟩ := refines_execute href hrec
        List.mem_cons_self List.mem_cons_self List.mem_cons_self hchecks
      rw [hstate] at hafter
      exact ⟨hafter.trans (v.encode_execute hroot), .active hv'⟩
  | executeAllocateToChildren p w count =>
      obtain ⟨-, hchecks, -, hafter⟩ :=
        executeAllocateToChildren_spec (MethodCall.prove_ok.mp hprove) hF
      obtain ⟨v, rfl, hstate, -, hv', hroot⟩ := refines_execute href hrec
        List.mem_cons_self List.mem_cons_self List.mem_cons_self hchecks
      rw [hstate] at hafter
      exact ⟨hafter.trans (v.encode_execute hroot), .active hv'⟩
  | executeOwnerChange => exact refines_executeOwnerChange href hrec hprove hF
  | executeThresholdChange => exact refines_executeThresholdChange href hrec hprove hF
  | executeDelegate p w count =>
      obtain ⟨-, hchecks, -, hafter⟩ :=
        executeDelegate_spec (MethodCall.prove_ok.mp hprove) hF
      obtain ⟨v, rfl, hstate, -, hv', hroot⟩ := refines_execute href hrec
        List.mem_cons_self List.mem_cons_self List.mem_cons_self hchecks
      rw [hstate] at hafter
      exact ⟨hafter.trans (v.encode_execute hroot), .active hv'⟩
  | executeReclaimToParent => exact refines_executeReclaimToParent href hrec hprove hF
  | executeDestroy => exact refines_executeDestroy href hrec hprove hF
  | executeEnableChildMultiSig =>
      exact refines_executeEnableChildMultiSig href hrec hprove hF

end Simulation

end MinaGuard
