import MinaGuard.Vault.Runs

/-!
# Logs are histories

In a run the vote log of a guard lists the votes cast on it, and the execution
logs list the proposals executed on it.  Every vote on record was signed.  A
child that executes for its parent does so with the approval of the parent's
vault in its present state.
-/

namespace MinaGuard

open Foundations

variable {E : Env} {T : Transcript E} {guards : Set PublicKey}

namespace MethodCall

/-- The REMOTE proposal a call executes, creating a child or on one. -/
def remoteExecution? (m : MethodCall E) : Option TransactionProposal :=
  m.childExecution? <|> m.childCreation?

theorem remoteExecution?_eq_some {m : MethodCall E} {p : TransactionProposal} :
    m.remoteExecution? = some p ↔
      m.childExecution? = some p ∨ m.childCreation? = some p := by
  cases m <;> simp [remoteExecution?, childExecution?, childCreation?]

end MethodCall

namespace Phase

variable {m : MethodCall E}

theorem votes_next {ph : Phase} (h : m.vote?.isSome → ∃ v, ph = .active v) :
    (ph.next m).votes = ph.votes ++ m.vote?.toList := by
  cases ph with
  | active v =>
      cases m with
      | propose => rfl
      | approveProposal => rfl
      | _ => exact (List.append_nil _).symm
  | vacant => cases m <;> first | rfl | exact absurd (h rfl) (by simp)
  | reserved => cases m <;> first | rfl | exact absurd (h rfl) (by simp)

theorem executed_next {ph : Phase} (h : m.localExecution?.isSome → ∃ v, ph = .active v) :
    (ph.next m).executed = ph.executed ++ m.localExecution?.toList := by
  cases ph with
  | active v =>
      cases m with
      | executeTransfer => rfl
      | executeAllocateToChildren => rfl
      | executeOwnerChange => rfl
      | executeThresholdChange => rfl
      | executeDelegate => rfl
      | _ => exact (List.append_nil _).symm
  | vacant => cases m <;> first | rfl | exact absurd (h rfl) (by simp)
  | reserved => cases m <;> first | rfl | exact absurd (h rfl) (by simp)

theorem childExecuted_next {ph : Phase}
    (h : m.childExecution?.isSome → ∃ v, ph = .active v) :
    (ph.next m).childExecuted = ph.childExecuted ++ m.childExecution?.toList := by
  cases ph with
  | active v =>
      cases m with
      | executeReclaimToParent => rfl
      | executeDestroy => rfl
      | executeEnableChildMultiSig => rfl
      | _ => exact (List.append_nil _).symm
  | vacant => cases m <;> first | rfl | exact absurd (h rfl) (by simp)
  | reserved => cases m <;> first | rfl | exact absurd (h rfl) (by simp)

end Phase

namespace CallStep

variable {L L' : Ledger} {a : PublicKey} {m : MethodCall E} {F : Forest} {ph : Phase}
  {p : TransactionProposal} {k : PublicKey}

theorem votable (h : CallStep T guards L a m F L') (href : Refines T a (L.state a) ph)
    (hm : m.vote? = some (p, k)) : ∃ v, ph = .active v ∧ v.Votable T a p k := by
  obtain ⟨P, rfl, hprove⟩ := h.proved
  obtain ⟨v, hv, hvotable, -⟩ :=
    MethodCall.votable href h.recorded hm hprove h.included
  exact ⟨v, hv, hvotable⟩

theorem executable (h : CallStep T guards L a m F L') (href : Refines T a (L.state a) ph)
    (hm : m.localExecution? = some p) :
    ∃ v, ph = .active v ∧ v.Invariant T a ∧ v.Executable E a p := by
  obtain ⟨P, rfl, hprove⟩ := h.proved
  exact MethodCall.executable href h.recorded hm hprove h.included

theorem childExecutable (h : CallStep T guards L a m F L')
    (href : Refines T a (L.state a) ph) (hm : m.childExecution? = some p) :
    ∃ v, ph = .active v ∧ v.Invariant T a ∧ v.ChildExecutable T a p := by
  obtain ⟨P, rfl, hprove⟩ := h.proved
  exact MethodCall.childExecutable href h.recorded hm hprove h.included

end CallStep

namespace Run

variable {as bs : List (Action E)} {L L' : Ledger} {a : PublicKey}

/-- A log that each call extends by what it contributes lists the contributions. -/
theorem log_eq {β : Type} (log : Phase → List β) (kind : MethodCall E → Option β)
    (hstart : log .vacant = [])
    (hnext : ∀ {L a m F L' ph}, CallStep T guards L a m F L' →
      Refines T a (L.state a) ph → log (ph.next m) = log ph ++ (kind m).toList)
    (h : (ledgerSystem T guards).Run as L) (ha : a ∈ guards) :
    log (replay a as) = (callsOn a as).filterMap kind := by
  refine TransitionSystem.Run.invariant
    (fun as _ ↦ log (replay a as) = (callsOn a as).filterMap kind) ?_ ?_ h
  · intro L _
    exact hstart
  · intro as L act L' hrun ih hstep
    cases act with
    | call b m F =>
        have hcall := LedgerStep.call_inv hstep
        by_cases hb : b = a
        · subst hb
          rw [replay_call, hnext hcall (refines hrun ha), ih, callsOn_call,
            List.filterMap_append]
          cases hm : kind m <;> simp [hm]
        · rw [replay_call_of_ne hb, callsOn_call_of_ne hb]
          exact ih
    | deposit b amount => simpa [replay, callsOn] using ih
    | advance slot => simpa [replay, callsOn] using ih
    | foreign b acc => simpa [replay, callsOn] using ih

theorem votes_eq (h : (ledgerSystem T guards).Run as L) (ha : a ∈ guards) :
    (replay a as).votes = (callsOn a as).filterMap MethodCall.vote? := by
  apply log_eq Phase.votes MethodCall.vote? rfl _ h ha
  intro L a m F L' ph hcall href
  apply Phase.votes_next
  intro hsome
  obtain ⟨⟨p, k⟩, hm⟩ := Option.isSome_iff_exists.mp hsome
  obtain ⟨v, hv, -⟩ := hcall.votable href hm
  exact ⟨v, hv⟩

theorem executed_eq (h : (ledgerSystem T guards).Run as L) (ha : a ∈ guards) :
    (replay a as).executed = (callsOn a as).filterMap MethodCall.localExecution? := by
  apply log_eq Phase.executed MethodCall.localExecution? rfl _ h ha
  intro L a m F L' ph hcall href
  apply Phase.executed_next
  intro hsome
  obtain ⟨p, hm⟩ := Option.isSome_iff_exists.mp hsome
  obtain ⟨v, hv, -⟩ := hcall.executable href hm
  exact ⟨v, hv⟩

theorem childExecuted_eq (h : (ledgerSystem T guards).Run as L) (ha : a ∈ guards) :
    (replay a as).childExecuted =
      (callsOn a as).filterMap MethodCall.childExecution? := by
  apply log_eq Phase.childExecuted MethodCall.childExecution? rfl _ h ha
  intro L a m F L' ph hcall href
  apply Phase.childExecuted_next
  intro hsome
  obtain ⟨p, hm⟩ := Option.isSome_iff_exists.mp hsome
  obtain ⟨v, hv, -⟩ := hcall.childExecutable href hm
  exact ⟨v, hv⟩

/-- Every vote on record was cast by a call that carries the voter's signature. -/
theorem signed (h : (ledgerSystem T guards).Run as L) (ha : a ∈ guards)
    {p : TransactionProposal} {k : PublicKey} (hvote : (p, k) ∈ (replay a as).votes) :
    ∃ m F, .call a m F ∈ as ∧ m.Signs E (E.proposalHash p) k := by
  rw [votes_eq h ha, List.mem_filterMap] at hvote
  obtain ⟨m, hmem, hm⟩ := hvote
  obtain ⟨F, hact⟩ := mem_callsOn.mp hmem
  obtain ⟨_, _, s, s', -, -, hstep, -⟩ := h.exists_step hact
  have hcall := LedgerStep.call_inv hstep
  obtain ⟨P, rfl, hprove⟩ := hcall.proved
  obtain ⟨_, _, _, _, -, -, hsigns, -⟩ :=
    MethodCall.voteChecks hm hprove hcall.included
  exact ⟨m, F, hact, hsigns⟩

end Run

/-- The REMOTE execution of `p` on `a`: the proposal is for `a`, and `a` has just
read the approval of its parent. -/
structure RemoteExecution (T : Transcript E) (L : Ledger) (a : PublicKey)
    (p : TransactionProposal) : Prop where
  hashed : E.proposalInput p ∈ T.hashed
  remote : p.destination = destinationRemote
  child : p.childAccount = a
  isChild : (L.state a).parent ≠ PublicKey.empty
  parent_ne : (L.state a).parent ≠ a
  inTime : L.slot ≤ lastSlot p
  approved : ∃ w ∈ T.witnesses, ∃ count,
    ApprovedBy E p (L.state a).parent (L.state (L.state a).parent) w count

namespace RemoteExecution

variable {L : Ledger} {a : PublicKey} {p : TransactionProposal}

theorem guard (h : RemoteExecution T L a p) : p.guardAddress = (L.state a).parent := by
  obtain ⟨w, -, count, happroved⟩ := h.approved
  exact happroved.guard

/-- If the parent is a guard, its vault approves. -/
theorem approves (h : RemoteExecution T L a p) {ph : Phase}
    (href : Refines T (L.state a).parent (L.state (L.state a).parent) ph) :
    ∃ v, ph = .active v ∧ v.Invariant T (L.state a).parent ∧
      v.Approves E (L.state a).parent p := by
  obtain ⟨w, hw, count, happroved⟩ := h.approved
  obtain ⟨v, rfl, hstate, hv⟩ := href.active happroved.initialized
  rw [hstate] at happroved
  exact ⟨v, rfl, hv, hv.approves hw h.hashed happroved⟩

end RemoteExecution

namespace CallStep

variable {L L' : Ledger} {a : PublicKey} {m : MethodCall E} {F : Forest} {ph : Phase}
  {p : TransactionProposal}

theorem parent_ne (href : Refines T a (L.state a) ph)
    (hne : (L.state a).parent ≠ PublicKey.empty) : (L.state a).parent ≠ a := by
  obtain ⟨hstate, hsound⟩ := href
  rw [hstate] at hne ⊢
  cases hsound with
  | vacant => exact absurd rfl hne
  | reserved _ ne_this => exact ne_this
  | active hinvariant => exact hinvariant.parent_ne hne

theorem remoteExecution (h : CallStep T guards L a m F L')
    (href : Refines T a (L.state a) ph) (hm : m.remoteExecution? = some p) :
    RemoteExecution T L a p := by
  obtain ⟨P, rfl, hprove⟩ := h.proved
  rcases MethodCall.remoteExecution?_eq_some.mp hm with hm | hm
  · obtain ⟨pw, cw, count, hchecks, -, hws, -, hp⟩ :=
      MethodCall.remoteChecks hm hprove h.included
    have hne := parent_ne href hchecks.isChild
    have happroved := hchecks.approved
    rw [h.state_other hne] at happroved
    exact
      { hashed := h.recorded.hashed _ hp
        remote := hchecks.destination
        child := hchecks.child
        isChild := hchecks.isChild
        parent_ne := hne
        inTime := hchecks.inTime
        approved := ⟨pw, h.recorded.witnessed pw (by simp [hws]), count, happroved⟩ }
  · cases m with
    | executeSetupChild t n o q w count =>
        cases hm
        obtain ⟨-, hisChild, -, hdest, hchild, -, -, -, happroved, htime, -⟩ :=
          executeSetupChild_spec (MethodCall.prove_ok.mp hprove) h.included
        have hne := parent_ne href hisChild
        rw [h.state_other hne] at happroved
        exact
          { hashed := h.recorded.hashed _ List.mem_cons_self
            remote := hdest
            child := hchild
            isChild := hisChild
            parent_ne := hne
            inTime := htime
            approved := ⟨w, h.recorded.witnessed w List.mem_cons_self, count, happroved⟩ }
    | _ => cases hm

/-- A creation finds an account that is not initialized, and initializes it. -/
theorem childCreation (h : CallStep T guards L a m F L')
    (hm : m.childCreation? = some p) :
    p.txType = TxType.createChild ∧ (L.state a).ownersCommitment = 0 ∧
      (L'.state a).ownersCommitment ≠ 0 := by
  obtain ⟨P, rfl, hprove⟩ := h.proved
  cases m with
  | executeSetupChild t n o q w c =>
      cases hm
      obtain ⟨hzero, -, htype, -, -, -, -, -, -, -, -, -, hstate⟩ :=
        executeSetupChild_spec (MethodCall.prove_ok.mp hprove) h.included
      refine ⟨htype, hzero, ?_⟩
      rw [hstate]
      change computeSetupOwnersChain E o n ≠ 0
      rw [computeSetupOwnersChain_eq]
      exact T.computeOwnerChain_ne_zero fun q hq ↦ h.recorded.hashed q
        (List.mem_cons_of_mem _ (List.mem_cons_of_mem _ hq))
  | _ => cases hm

end CallStep

end MinaGuard
