import MinaGuard.Properties.Approvals

/-!
# A proved update applies once

Every update pins a value of its guard that the call itself makes obsolete for
good: the initial values of an account that is set up or reserved, the
nullifier root of a vote, the nonce of an execution.  Owner lists and flags may
return to an earlier value, the pinned ones never do.
-/

namespace MinaGuard

open Foundations

variable {E : Env} {T : Transcript E} {guards : Set PublicKey}
  {as bs : List (Action E)} {L L' L'' : Ledger} {a : PublicKey} {m : MethodCall E}
  {F : Forest}

section Pins

variable {p : TransactionProposal} {k : PublicKey}

theorem nonce_expires (run : (ledgerSystem T guards).Run as L)
    (step : LedgerStep T guards L (.call a m F) L')
    (path : (ledgerSystem T guards).Path L' bs L'') (hm : m.localExecution? = some p) :
    (L.state a).nonce ≠ (L''.state a).nonce := by
  intro heq
  have hcall := step.call_inv
  obtain ⟨-, hval⟩ := hcall.local_nonce (Run.refines run hcall.guard) hm
  have hrun' := run.step (S := ledgerSystem T guards) step
  have hle := (Run.counters_le hrun' hcall.guard path).2.1
  rw [← heq, hval] at hle
  exact Nat.not_succ_le_self _ hle

theorem parentNonce_expires (run : (ledgerSystem T guards).Run as L)
    (step : LedgerStep T guards L (.call a m F) L')
    (path : (ledgerSystem T guards).Path L' bs L'') (hm : m.childExecution? = some p) :
    (L.state a).parentNonce ≠ (L''.state a).parentNonce := by
  intro heq
  have hcall := step.call_inv
  obtain ⟨-, hval⟩ := hcall.child_nonce (Run.refines run hcall.guard) hm
  have hrun' := run.step (S := ledgerSystem T guards) step
  have hle := (Run.counters_le hrun' hcall.guard path).2.2
  rw [← heq, hval] at hle
  exact Nat.not_succ_le_self _ hle

theorem voteNullifierRoot_expires (run : (ledgerSystem T guards).Run as L)
    (step : LedgerStep T guards L (.call a m F) L')
    (path : (ledgerSystem T guards).Path L' bs L'') (hm : m.vote? = some (p, k)) :
    (L.state a).voteNullifierRoot ≠ (L''.state a).voteNullifierRoot := by
  have hcall := step.call_inv
  obtain ⟨v, hv, hvotable⟩ := hcall.votable (Run.refines run hcall.guard) hm
  obtain ⟨hstate, hinvariant⟩ := Run.invariant run hcall.guard hv
  obtain ⟨w, -, hlater, hstate', hinvariant'⟩ := Run.later_call run step path hv
  have hlog : (v.next m).votes = v.votes ++ m.vote?.toList :=
    @Phase.votes_next E m (.active v) fun _ ↦ ⟨v, rfl⟩
  have hcast : (p, k) ∈ w.votes := by
    apply hlater.votes.subset
    rw [hlog, hm]
    exact List.mem_append_right _ (List.mem_singleton_self _)
  -- the nullifier of this vote tells the two maps apart
  have hbefore : v.nullifierMap E (E.voteNullifierKey (E.proposalHash p) k) ≠ 1 := by
    intro hone
    obtain ⟨⟨q, k'⟩, hq, hkey⟩ := Vault.Invariant.nullifierMap_eq_one.mp hone
    obtain ⟨hhash, rfl⟩ := T.voteNullifierKey_inj (hinvariant.votes _ hq).nullifier
      hvotable.record.nullifier hkey
    exact hvotable.fresh (hinvariant.voted_eq hvotable.record.hashed hq hhash)
  have hafter : w.nullifierMap E (E.voteNullifierKey (E.proposalHash p) k) = 1 :=
    Vault.Invariant.nullifierMap_eq_one.mpr ⟨(p, k), hcast, rfl⟩
  rw [hstate, hstate']
  exact T.binding.getRoot_ne hinvariant.nullifiers_mem hinvariant'.nullifiers_mem
    fun heq ↦ hbefore (heq.trans hafter)

theorem initialization_expires (run : (ledgerSystem T guards).Run as L)
    (step : LedgerStep T guards L (.call a m F) L')
    (path : (ledgerSystem T guards).Path L' bs L'')
    (hinit : (L'.state a).ownersCommitment ≠ 0) : (L''.state a).ownersCommitment ≠ 0 :=
  Run.stays_initialized (run.step (S := ledgerSystem T guards) step) step.call_inv.guard
    hinit path

end Pins

/-- The value a call pins never holds again once the call was included. -/
theorem not_holds_pin (run : (ledgerSystem T guards).Run as L)
    (step : LedgerStep T guards L (.call a m F) L')
    (path : (ledgerSystem T guards).Path L' bs L'') :
    ¬(m.pin (L.state a)).Holds (L''.state a) := by
  have hcall := step.call_inv
  obtain ⟨P, rfl, hprove⟩ := hcall.proved
  cases m with
  | setup t n o =>
      obtain ⟨-, -, -, -, hstate⟩ := setup_spec (MethodCall.prove_ok.mp hprove) hcall.included
      have hinit : (L'.state P.address).ownersCommitment ≠ 0 := by
        rw [hstate]
        change computeSetupOwnersChain E o n ≠ 0
        rw [computeSetupOwnersChain_eq]
        exact T.computeOwnerChain_ne_zero hcall.recorded.hashed
      exact fun hzero ↦ initialization_expires run step path hinit hzero.symm
  | reserveForParent b hash t n o =>
      obtain ⟨-, -, hne, -, -, -, -, -, hstate⟩ :=
        reserveForParent_spec (MethodCall.prove_ok.mp hprove) hcall.included
      have hparent : (L'.state P.address).parent = b := by
        rw [hstate]
      have hstays := Run.stays_child (run.step (S := ledgerSystem T guards) step)
        hcall.guard (by rwa [hparent]) path
      intro hempty
      rw [hparent] at hstays
      exact hne (hstays.symm.trans (Eq.symm hempty))
  | executeSetupChild =>
      obtain ⟨-, -, hinit⟩ := hcall.childCreation rfl
      exact fun hzero ↦ initialization_expires run step path hinit hzero.symm
  | propose => exact voteNullifierRoot_expires run step path rfl
  | approveProposal => exact voteNullifierRoot_expires run step path rfl
  | executeTransfer => exact nonce_expires run step path rfl
  | executeAllocateToChildren => exact nonce_expires run step path rfl
  | executeOwnerChange => exact nonce_expires run step path rfl
  | executeThresholdChange => exact nonce_expires run step path rfl
  | executeDelegate => exact nonce_expires run step path rfl
  | executeReclaimToParent => exact parentNonce_expires run step path rfl
  | executeDestroy => exact parentNonce_expires run step path rfl
  | executeEnableChildMultiSig => exact parentNonce_expires run step path rfl

/-- An included update is never included again: in every later state one of the
app-state preconditions it places on its guard fails. -/
theorem no_update_replay (run : (ledgerSystem T guards).Run as L)
    (step : LedgerStep T guards L (.call a m F) L')
    (path : (ledgerSystem T guards).Path L' bs L'') :
    F.self.publicKey = a ∧ (∃ v ∈ F.self.preconditions, ¬v.Holds (L''.state a)) ∧
      F.apply L'' = none := by
  have hpins := step.call_inv.pins
  have hexpired := not_holds_pin run step path
  refine ⟨hpins.publicKey, ⟨_, hpins.mem, hexpired⟩, ?_⟩
  by_contra hsome
  obtain ⟨M, hM⟩ := Option.ne_none_iff_exists'.mp hsome
  have hown := (Forest.included_of_apply hM).own _ hpins.mem
  rw [hpins.publicKey] at hown
  exact hexpired hown

theorem Walkthrough.add_not_replayed :
    (addApproved.forest root executeAdd).self.publicKey = root ∧
      (∃ v ∈ (addApproved.forest root executeAdd).self.preconditions,
        ¬v.Holds (disableApproved.ledger.state root)) ∧
      (addApproved.forest root executeAdd).apply disableApproved.ledger = none :=
  no_update_replay run_beforeAdd add_step path_beforeDisable

end MinaGuard
