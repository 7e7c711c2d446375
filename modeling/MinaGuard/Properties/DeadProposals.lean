import MinaGuard.Properties.Execution

/-!
# Dead proposals stay dead

A proposal dies when the configuration it was made for is over, when its nonce
is used up, or when its last slot has passed.  None of the counters involved
ever decreases, and every method that accepts a proposal checks all of them,
on whichever account they live.
-/

namespace MinaGuard

open Foundations

variable {E : Env} {T : Transcript E} {guards : Set PublicKey}
  {as bs : List (Action E)} {L L' L'' : Ledger} {a : PublicKey} {m : MethodCall E}
  {F : Forest} {p : TransactionProposal} {k : PublicKey}

/-- No method will accept the proposal again. -/
inductive Dead (guards : Set PublicKey) (L : Ledger) (p : TransactionProposal) : Prop where
  | configuration (ended : p.configNonce.val < (L.state p.guardAddress).configNonce.val)
  | localNonce (toGuard : p.destination = destinationLocal)
      (used : p.nonce.val ≤ (L.state p.guardAddress).nonce.val)
  | childNonce (toChild : isRemoteNonCreate p) (child : p.childAccount ∈ guards)
      (used : p.nonce.val ≤ (L.state p.childAccount).parentNonce.val)
  | expired (expires : p.expirySlot ≠ 0) (past : p.expirySlot.val < L.slot)

/-- Death is for good. -/
theorem Dead.later (h : Dead guards L p) (run : (ledgerSystem T guards).Run as L)
    (hguard : p.guardAddress ∈ guards) (path : (ledgerSystem T guards).Path L bs L') :
    Dead guards L' p := by
  cases h with
  | configuration ended =>
      exact .configuration (ended.trans_le (Run.counters_le run hguard path).1)
  | localNonce toGuard used =>
      exact .localNonce toGuard (used.trans (Run.counters_le run hguard path).2.1)
  | childNonce toChild child used =>
      exact .childNonce toChild child (used.trans (Run.counters_le run child path).2.2)
  | expired expires past => exact .expired expires (past.trans_le (slot_le_of_path path))

/-- What a method that accepts a proposal has checked. -/
structure Live (guards : Set PublicKey) (L : Ledger) (p : TransactionProposal) : Prop where
  current : p.configNonce = (L.state p.guardAddress).configNonce
  localNonce : p.destination = destinationLocal →
    (L.state p.guardAddress).nonce.val < p.nonce.val
  childNonce : isRemoteNonCreate p → p.childAccount ∈ guards →
    (L.state p.childAccount).parentNonce.val < p.nonce.val
  inTime : L.slot ≤ lastSlot p

theorem Live.not_dead (h : Live guards L p) : ¬Dead guards L p := by
  intro hdead
  cases hdead with
  | configuration ended =>
      rw [h.current] at ended
      exact lt_irrefl _ ended
  | localNonce toGuard used => exact absurd (h.localNonce toGuard) (not_lt_of_ge used)
  | childNonce toChild child used =>
      exact absurd (h.childNonce toChild child) (not_lt_of_ge used)
  | expired expires past =>
      have htime := h.inTime
      rw [lastSlot, if_neg expires] at htime
      exact absurd past (not_lt_of_ge htime)

theorem live_of_vote (run : (ledgerSystem T guards).Run as L)
    (step : LedgerStep T guards L (.call a m F) L') (hm : m.vote? = some (p, k)) :
    Live guards L p := by
  have hcall := step.call_inv
  obtain ⟨P, rfl, hprove⟩ := hcall.proved
  obtain ⟨_, _, _, _, hchecks, -⟩ := MethodCall.voteChecks hm hprove hcall.included
  obtain ⟨-, -, hfresh⟩ := hchecks.fresh
  have hguard := hchecks.guard
  refine
    { current := ?_
      localNonce := ?_
      childNonce := ?_
      inTime := hchecks.inTime }
  · rw [hguard]
    exact hchecks.configNonce
  · intro hlocal
    rw [hguard]
    rcases hfresh with ⟨-, hgreater⟩ | ⟨⟨hremote, -⟩, -⟩ | ⟨⟨hremote, -⟩, -⟩
    · exact hgreater
    · exact absurd (hlocal.symm.trans hremote) destinationLocal_ne_remote
    · exact absurd (hlocal.symm.trans hremote) destinationLocal_ne_remote
  · intro htoChild hchild
    -- the nonce is read on the child, when the vote is included
    rcases hfresh with ⟨hlocal, -⟩ | ⟨-, hgreater⟩ | ⟨⟨-, htype⟩, -⟩
    · exact absurd (hlocal.symm.trans htoChild.1) destinationLocal_ne_remote
    · rw [nonceAuthority, if_pos htoChild] at hgreater
      have hle := (Run.counters_le run hchild (TransitionSystem.path_singleton.mpr step)).2.2
      exact hle.trans_lt hgreater
    · exact absurd htype htoChild.2

theorem live_of_localExecution (run : (ledgerSystem T guards).Run as L)
    (step : LedgerStep T guards L (.call a m F) L') (hm : m.localExecution? = some p) :
    Live guards L p := by
  have hcall := step.call_inv
  have hnonce := hcall.local_nonce (Run.refines run hcall.guard) hm
  obtain ⟨P, rfl, hprove⟩ := hcall.proved
  obtain ⟨_, _, hchecks, -⟩ := MethodCall.localChecks hm hprove hcall.included
  have hguard := hchecks.approved.guard
  refine
    { current := ?_
      localNonce := ?_
      childNonce := ?_
      inTime := hchecks.inTime }
  · rw [hguard]
    exact hchecks.approved.configNonce
  · intro _
    rw [hguard, hnonce.1, hnonce.2]
    exact Nat.lt_succ_self _
  · intro htoChild _
    exact absurd (hchecks.destination.symm.trans htoChild.1) destinationLocal_ne_remote

theorem live_of_remoteExecution (run : (ledgerSystem T guards).Run as L)
    (step : LedgerStep T guards L (.call a m F) L') (hm : m.remoteExecution? = some p) :
    Live guards L p := by
  have hcall := step.call_inv
  have href := Run.refines run hcall.guard
  have hremote := hcall.remoteExecution href hm
  obtain ⟨_, _, _, happroved⟩ := hremote.approved
  refine
    { current := ?_
      localNonce := ?_
      childNonce := ?_
      inTime := hremote.inTime }
  · rw [hremote.guard]
    exact happroved.configNonce
  · intro hlocal
    exact absurd (hlocal.symm.trans hremote.remote) destinationLocal_ne_remote
  · intro htoChild _
    rcases MethodCall.remoteExecution?_eq_some.mp hm with hm | hm
    · obtain ⟨hnonce, hval⟩ := hcall.child_nonce href hm
      rw [hremote.child, hnonce, hval]
      exact Nat.lt_succ_self _
    · exact absurd (hcall.childCreation hm).1 htoChild.2

/-- A call acts on a proposal by a vote or by an execution. -/
theorem MethodCall.proposal?_eq_some (hm : m.proposal? = some p) :
    (∃ k, m.vote? = some (p, k)) ∨ m.localExecution? = some p ∨
      m.remoteExecution? = some p := by
  cases m with
  | setup => cases hm
  | reserveForParent => cases hm
  | propose _ _ k => exact Or.inl ⟨k, congrArg (Option.map (·, k)) hm⟩
  | approveProposal _ _ k => exact Or.inl ⟨k, congrArg (Option.map (·, k)) hm⟩
  | executeTransfer => exact Or.inr (Or.inl hm)
  | executeAllocateToChildren => exact Or.inr (Or.inl hm)
  | executeOwnerChange => exact Or.inr (Or.inl hm)
  | executeThresholdChange => exact Or.inr (Or.inl hm)
  | executeDelegate => exact Or.inr (Or.inl hm)
  | executeSetupChild => exact Or.inr (Or.inr hm)
  | executeReclaimToParent => exact Or.inr (Or.inr hm)
  | executeDestroy => exact Or.inr (Or.inr hm)
  | executeEnableChildMultiSig => exact Or.inr (Or.inr hm)

theorem live_of_call (run : (ledgerSystem T guards).Run as L)
    (step : LedgerStep T guards L (.call a m F) L') (hm : m.proposal? = some p) :
    Live guards L p := by
  rcases MethodCall.proposal?_eq_some hm with ⟨k, hm⟩ | hm | hm
  · exact live_of_vote run step hm
  · exact live_of_localExecution run step hm
  · exact live_of_remoteExecution run step hm

/-- No method ever accepts a dead proposal again, on any account.  A child that
is initialized is never created again. -/
theorem dead_proposals_stay_dead (run : (ledgerSystem T guards).Run as L)
    (hguard : p.guardAddress ∈ guards) :
    (Dead guards L p → ∀ bs L' a m F L'', (ledgerSystem T guards).Path L bs L' →
      LedgerStep T guards L' (.call a m F) L'' → m.proposal? ≠ some p) ∧
    (p.txType = TxType.createChild → p.childAccount ∈ guards →
      (L.state p.childAccount).ownersCommitment ≠ 0 →
        ∀ bs L' a m F L'', (ledgerSystem T guards).Path L bs L' →
          LedgerStep T guards L' (.call a m F) L'' → m.childCreation? ≠ some p) := by
  refine ⟨?_, ?_⟩
  · intro hdead bs L' a m F L'' path step hm
    have hlive := live_of_call (run.extend path) step hm
    apply hlive.not_dead
    exact hdead.later run hguard path
  · intro _ hchild hinit bs L' a m F L'' path step hm
    have hcall := step.call_inv
    have href := Run.refines (run.extend path) hcall.guard
    have hremote := hcall.remoteExecution href
      (MethodCall.remoteExecution?_eq_some.mpr (Or.inr hm))
    have hzero := (hcall.childCreation hm).2.1
    rw [← hremote.child] at hzero
    exact Run.stays_initialized run hchild hinit path hzero

theorem Walkthrough.createChild_dead :
    Dead {a | a ∈ Walkthrough.guards} added.ledger createChild ∧
      ∀ bs L' a m F L'', system.Path added.ledger bs L' →
        system.step L' (.call a m F) L'' → m.proposal? ≠ some createChild := by
  have hdead : Dead {a | a ∈ Walkthrough.guards} added.ledger createChild :=
    .configuration (by decide +kernel)
  exact ⟨hdead, (dead_proposals_stay_dead run_added List.mem_cons_self).1 hdead⟩

end MinaGuard
