import MinaGuard.Properties.Replay

/-!
# Executions happen once, and in order

A LOCAL proposal leaves its mark in the approval map of its guard.  A REMOTE
proposal leaves none on the parent that approved it; what stops a second
execution is the state of the child named in the proposal, which is reset at
most once.
-/

namespace MinaGuard

open Foundations

variable {E : Env} {T : Transcript E} {guards : Set PublicKey}
  {as bs : List (Action E)} {L L' L'' : Ledger} {a : PublicKey} {m : MethodCall E}
  {F : Forest} {p q : TransactionProposal}

/-- The LOCAL proposals executed on `a`, oldest first. -/
def localExecutions (a : PublicKey) (as : List (Action E)) : List TransactionProposal :=
  (callsOn a as).filterMap MethodCall.localExecution?

namespace Vault.Invariant

variable {v : Vault} {this : PublicKey}

theorem executed_hash_nodup (h : v.Invariant T this) :
    (v.executed.map E.proposalHash).Nodup := by
  have hall := h.executedHashes_nodup
  rw [List.map_append] at hall
  exact hall.of_append_left

theorem val_executed_nonce (h : v.Invariant T this) {i : ℕ} (hi : i < v.executed.length) :
    v.executed[i].nonce.val = i + 1 := by
  have hlt := h.executions_lt
  rw [h.executed_nonce i hi]
  exact val_natCast_of_lt (by omega)

/-- A REMOTE proposal is not among the LOCAL executions. -/
theorem not_executed_of_remote (h : v.Invariant T this)
    (hp : E.proposalInput p ∈ T.hashed) (hremote : p.destination = destinationRemote) :
    E.proposalHash p ∉ v.executed.map E.proposalHash := by
  intro hmem
  obtain ⟨q, hq, heq⟩ := List.mem_map.mp hmem
  obtain rfl := T.proposalHash_inj (h.executed_hashed hq) hp heq
  exact destinationLocal_ne_remote ((h.executed_local q hq).symm.trans hremote)

end Vault.Invariant

/-- The nonce counts the LOCAL executions, the `i`-th of them has nonce `i`, no
hash is executed twice, and the marked leaves are exactly the executed hashes. -/
theorem local_executions_once (run : (ledgerSystem T guards).Run as L) (ha : a ∈ guards)
    (hinit : (L.state a).ownersCommitment ≠ 0) :
    (L.state a).nonce.val = (localExecutions a as).length ∧
      (∀ i (hi : i < (localExecutions a as).length),
        (localExecutions a as)[i].nonce.val = i + 1) ∧
      ((localExecutions a as).map E.proposalHash).Nodup ∧
      ∃ approvals, CommitsMap T (L.state a).approvalRoot approvals ∧
        (∀ h, approvals h = executedMarker ↔
          h ∈ (localExecutions a as).map E.proposalHash) ∧
        ∀ p, E.proposalInput p ∈ T.hashed → p.destination = destinationRemote →
          approvals (E.proposalHash p) ≠ executedMarker := by
  obtain ⟨v, hv, hstate, hinvariant⟩ := Run.active run ha hinit
  have hlog : v.executed = localExecutions a as := by
    have heq := Run.executed_eq run ha
    rw [hv] at heq
    exact heq
  have hroot : CommitsMap T (L.state a).approvalRoot (v.approvalMap E) := by
    rw [hstate]
    exact ⟨hinvariant.approvals_mem, rfl⟩
  have hnonce : (L.state a).nonce.val = v.executed.length := by
    rw [hstate]
    exact hinvariant.val_nonce
  rw [← hlog]
  refine ⟨hnonce, ?_, hinvariant.executed_hash_nodup, v.approvalMap E, hroot, ?_, ?_⟩
  · intro i hi
    exact hinvariant.val_executed_nonce hi
  · intro h
    exact Run.marked_iff run ha hv hroot
  · intro p hp hremote hmarked
    apply hinvariant.not_executed_of_remote hp hremote
    exact (Run.marked_iff run ha hv hroot).mp hmarked

theorem Walkthrough.add_once :
    (disabled.ledger.state root).nonce.val =
        (localExecutions root
          (actionsBeforeAdd ++ [add] ++ actionsBeforeDisable ++ [disable])).length ∧
      ∃ approvals, CommitsMap tables.transcript (disabled.ledger.state root).approvalRoot
          approvals ∧
        approvals (tables.env.proposalHash disableChild) ≠ executedMarker := by
  obtain ⟨hnonce, -, -, approvals, hroot, -, hremote⟩ :=
    local_executions_once run_disabled List.mem_cons_self (by decide +kernel)
  have hlisted : tables.env.proposalInput disableChild ∈ tables.inputs := by decide +kernel
  exact ⟨hnonce, approvals, hroot, hremote disableChild hlisted rfl⟩

/-- The REMOTE proposals executed on the initialized child `a`, oldest first. -/
def childExecutions (a : PublicKey) (as : List (Action E)) : List TransactionProposal :=
  (callsOn a as).filterMap MethodCall.childExecution?

/-- The REMOTE executions on the whole ledger, creations included, each with the
account it ran on. -/
def remoteExecutions (as : List (Action E)) : List (PublicKey × TransactionProposal) :=
  as.filterMap fun
    | .call a m _ => m.remoteExecution?.map fun p ↦ (a, p)
    | _ => none

theorem mem_remoteExecutions {x : PublicKey × TransactionProposal} :
    x ∈ remoteExecutions as ↔
      ∃ m F, .call x.1 m F ∈ as ∧ m.remoteExecution? = some x.2 := by
  unfold remoteExecutions
  rw [List.mem_filterMap]
  constructor
  · rintro ⟨act, hmem, hsome⟩
    cases act with
    | call b m F =>
        obtain ⟨p, hm, rfl⟩ := Option.map_eq_some_iff.mp hsome
        exact ⟨m, F, hmem, hm⟩
    | deposit => cases hsome
    | advance => cases hsome
    | foreign => cases hsome
  · rintro ⟨m, F, hmem, hm⟩
    exact ⟨_, hmem, Option.map_eq_some_iff.mpr ⟨x.2, hm, rfl⟩⟩

theorem remoteExecutions_append (as bs : List (Action E)) :
    remoteExecutions (as ++ bs) = remoteExecutions as ++ remoteExecutions bs :=
  List.filterMap_append

namespace Vault.Invariant

variable {v : Vault} {this : PublicKey}

theorem childExecuted_hash_nodup (h : v.Invariant T this) :
    (v.childExecuted.map E.proposalHash).Nodup := by
  have hall := h.executedHashes_nodup
  rw [List.map_append] at hall
  exact hall.of_append_right

theorem childExecutionMap_eq_executedMarker {h : Fp} :
    v.childExecutionMap E h = executedMarker ↔ h ∈ v.childExecuted.map E.proposalHash := by
  unfold childExecutionMap
  split
  · exact iff_of_true rfl ‹_›
  · exact iff_of_false executedMarker_ne_zero.symm ‹_›

/-- The marked leaves of the child execution map, counted. -/
theorem ncard_childExecuted (h : v.Invariant T this) :
    {x | v.childExecutionMap E x = executedMarker}.ncard = v.childExecuted.length := by
  have hset : {x | v.childExecutionMap E x = executedMarker} =
      ((v.childExecuted.map E.proposalHash).toFinset : Set Fp) := by
    ext x
    rw [Set.mem_ofPred_eq, childExecutionMap_eq_executedMarker, Finset.mem_coe,
      List.mem_toFinset]
  rw [hset, Set.ncard_coe_finset, List.toFinset_card_of_nodup h.childExecuted_hash_nodup,
    List.length_map]

end Vault.Invariant

/-- Executed once, a REMOTE proposal is not executed again on the same account:
a child execution is on record, and a child is not created twice. -/
theorem remote_execution_fresh (run : (ledgerSystem T guards).Run as L)
    (step : LedgerStep T guards L (.call a m F) L') (hm : m.remoteExecution? = some p)
    {m₀ : MethodCall E} {F₀ : Forest} (hmem : .call a m₀ F₀ ∈ as)
    (hm₀ : m₀.remoteExecution? = some p) : False := by
  have hcall := step.call_inv
  have ha := hcall.guard
  have href := Run.refines run ha
  obtain ⟨front, back, s, s', rfl, run₀, step₀, path₀⟩ := run.exists_step hmem
  have hcall₀ := LedgerStep.call_inv step₀
  have href₀ := Run.refines run₀ ha
  rcases MethodCall.remoteExecution?_eq_some.mp hm with hm | hm
  · obtain ⟨v, hv, -, hexecutable⟩ := hcall.childExecutable href hm
    rcases MethodCall.remoteExecution?_eq_some.mp hm₀ with hm₀ | hm₀
    · have hlog := Run.childExecuted_eq run ha
      rw [hv] at hlog
      apply hexecutable.pending
      change E.proposalHash p ∈ (Phase.active v).childExecuted.map E.proposalHash
      rw [hlog]
      apply List.mem_map_of_mem
      apply List.mem_filterMap.mpr
      exact ⟨m₀, mem_callsOn.mpr ⟨F₀, hmem⟩, hm₀⟩
    · exact hexecutable.lifecycle (hcall₀.childCreation hm₀).1
  · obtain ⟨htype, hzero, -⟩ := hcall.childCreation hm
    rcases MethodCall.remoteExecution?_eq_some.mp hm₀ with hm₀ | hm₀
    · obtain ⟨v, -, -, hexecutable⟩ := hcall₀.childExecutable href₀ hm₀
      exact hexecutable.lifecycle htype
    · have hinit := (hcall₀.childCreation hm₀).2.2
      exact Run.stays_initialized (run₀.step step₀) ha hinit path₀ hzero

/-- No REMOTE proposal hash is executed twice, wherever on the ledger. -/
theorem remoteExecutions_nodup (run : (ledgerSystem T guards).Run as L) :
    ((remoteExecutions as).map fun x ↦ E.proposalHash x.2).Nodup := by
  have hrule := TransitionSystem.Run.invariant (S := ledgerSystem T guards)
    fun as _ ↦ ((remoteExecutions as).map fun x ↦ E.proposalHash x.2).Nodup
  apply hrule _ _ run
  · intro L _
    exact List.nodup_nil
  · intro as L act L' run ih step
    rw [remoteExecutions_append, List.map_append]
    apply List.Nodup.append ih
    · cases act with
      | call b m F => cases hm : m.remoteExecution? <;> simp [remoteExecutions, hm]
      | deposit => exact List.nodup_nil
      | advance => exact List.nodup_nil
      | foreign => exact List.nodup_nil
    · intro hash hold hnew
      obtain ⟨⟨b, q⟩, hq, hqh⟩ := List.mem_map.mp hold
      obtain ⟨⟨a, p⟩, hp, hph⟩ := List.mem_map.mp hnew
      obtain ⟨m₀, F₀, hmem₀, hm₀⟩ := mem_remoteExecutions.mp hq
      obtain ⟨m, F, hact, hm⟩ := mem_remoteExecutions.mp hp
      obtain rfl := List.mem_singleton.mp hact
      -- the same hash is the same proposal, which names the account it is for
      obtain ⟨_, _, s, s', -, run₀, step₀, -⟩ := run.exists_step hmem₀
      have hcall := LedgerStep.call_inv step
      have hcall₀ := LedgerStep.call_inv step₀
      have hremote := hcall.remoteExecution (Run.refines run hcall.guard) hm
      have hremote₀ := hcall₀.remoteExecution (Run.refines run₀ hcall₀.guard) hm₀
      obtain rfl : q = p :=
        T.proposalHash_inj hremote₀.hashed hremote.hashed (hqh.trans hph.symm)
      obtain rfl : b = a := hremote₀.child.symm.trans hremote.child
      exact remote_execution_fresh run step hm hmem₀ hm₀

/-- The parent nonce of a child counts the REMOTE executions on it and the marked
leaves of its execution map.  On the whole ledger no REMOTE proposal is executed
twice. -/
theorem remote_executions_once (run : (ledgerSystem T guards).Run as L) :
    (∀ a ∈ guards, (L.state a).ownersCommitment ≠ 0 →
      (L.state a).parentNonce.val = (childExecutions a as).length ∧
        ∃ executions, CommitsMap T (L.state a).childExecutionRoot executions ∧
          (∀ h, executions h = 0 ∨ executions h = executedMarker) ∧
          {h | executions h = executedMarker}.ncard = (L.state a).parentNonce.val) ∧
      ((remoteExecutions as).map fun x ↦ E.proposalHash x.2).Nodup := by
  refine ⟨?_, remoteExecutions_nodup run⟩
  intro a ha hinit
  obtain ⟨v, hv, hstate, hinvariant⟩ := Run.active run ha hinit
  have hlog : v.childExecuted = childExecutions a as := by
    have heq := Run.childExecuted_eq run ha
    rw [hv] at heq
    exact heq
  have hnonce : (L.state a).parentNonce.val = v.childExecuted.length := by
    rw [hstate]
    exact hinvariant.val_parentNonce
  rw [hnonce, hstate, ← hlog]
  refine ⟨rfl, v.childExecutionMap E, ⟨hinvariant.childExecutions_mem, rfl⟩, ?_,
    hinvariant.ncard_childExecuted⟩
  intro h
  unfold Vault.childExecutionMap
  split
  · exact Or.inr rfl
  · exact Or.inl rfl

theorem Walkthrough.disable_once :
    (disabled.ledger.state child).parentNonce.val =
        (childExecutions child
          (actionsBeforeAdd ++ [add] ++ actionsBeforeDisable ++ [disable])).length ∧
      ((remoteExecutions
        (actionsBeforeAdd ++ [add] ++ actionsBeforeDisable ++ [disable])).map fun x ↦
          tables.env.proposalHash x.2).Nodup := by
  obtain ⟨hchild, hnodup⟩ := remote_executions_once run_disabled
  have hcount := hchild child (List.mem_cons_of_mem _ List.mem_cons_self) (by decide +kernel)
  exact ⟨hcount.1, hnodup⟩

end MinaGuard
