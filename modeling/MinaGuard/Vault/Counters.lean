import MinaGuard.Vault.History

/-!
# Counters never decrease

Slots, configuration numbers and both nonces only grow, and an execution uses
exactly the next value of its nonce.  None of the counters wraps.
-/

namespace MinaGuard

open Foundations

variable {E : Env} {T : Transcript E} {guards : Set PublicKey}
  {as bs : List (Action E)} {L L' : Ledger} {a : PublicKey} {m : MethodCall E}
  {F : Forest} {ph : Phase} {p : TransactionProposal}

theorem LedgerStep.slot_le {act : Action E} (h : LedgerStep T guards L act L') :
    L.slot ≤ L'.slot := by
  cases h with
  | call _ _ _ included => exact (Forest.included_of_apply included).slot_eq.ge
  | deposit => exact le_rfl
  | advance later => exact later
  | foreign => exact le_rfl

theorem slot_le_of_path (path : (ledgerSystem T guards).Path L bs L') : L.slot ≤ L'.slot := by
  apply TransitionSystem.Path.preserves (fun M : Ledger ↦ L.slot ≤ M.slot) _ path le_rfl
  intro M act M' hle step
  exact hle.trans step.slot_le

theorem Phase.Later.counters_le {ph' : Phase} (h : ph.Later ph') (hsound : ph.Sound T a)
    (hsound' : ph'.Sound T a) :
    (ph.encode E).configNonce.val ≤ (ph'.encode E).configNonce.val ∧
      (ph.encode E).nonce.val ≤ (ph'.encode E).nonce.val ∧
      (ph.encode E).parentNonce.val ≤ (ph'.encode E).parentNonce.val := by
  cases h with
  | vacant => exact ⟨Nat.zero_le _, Nat.zero_le _, Nat.zero_le _⟩
  | reserved => exact ⟨le_rfl, le_rfl, le_rfl⟩
  | created => exact ⟨Nat.zero_le _, Nat.zero_le _, Nat.zero_le _⟩
  | active hlater =>
      cases hsound with
      | active hv =>
          cases hsound' with
          | active hw =>
              simp only [Phase.encode, Vault.encode, hv.val_configNonce, hv.val_nonce,
                hv.val_parentNonce, hw.val_configNonce, hw.val_nonce, hw.val_parentNonce]
              exact ⟨hlater.configNonce, hlater.executed.length_le,
                hlater.childExecuted.length_le⟩

theorem Run.counters_le (run : (ledgerSystem T guards).Run as L) (ha : a ∈ guards)
    (path : (ledgerSystem T guards).Path L bs L') :
    (L.state a).configNonce.val ≤ (L'.state a).configNonce.val ∧
      (L.state a).nonce.val ≤ (L'.state a).nonce.val ∧
      (L.state a).parentNonce.val ≤ (L'.state a).parentNonce.val := by
  have href := refines run ha
  have href' := refines (run.extend path) ha
  rw [href.state, href'.state]
  exact (replay_later a as bs).counters_le href.sound href'.sound

/-- One call moves the configuration number by at most one. -/
theorem Vault.configNonce_next_le (v : Vault) (m : MethodCall E) :
    (v.next m).configNonce ≤ v.configNonce + 1 := by
  cases m with
  | executeOwnerChange => exact le_rfl
  | executeThresholdChange => exact le_rfl
  | executeDestroy => exact le_rfl
  | executeEnableChildMultiSig p _ _ _ enabled =>
      change (if decide (enabled = 1) = true then v.configNonce else v.configNonce + 1) ≤ _
      split
      · exact Nat.le_succ _
      · exact le_rfl
  | _ => exact Nat.le_succ _

/-- Each action opens at most one configuration. -/
theorem configNonce_le_length {v : Vault} (hv : replay a as = .active v) :
    v.configNonce ≤ as.length := by
  induction as using List.reverseRecOn generalizing v with
  | nil => cases hv
  | append_singleton as act ih =>
      rw [List.length_append, List.length_singleton]
      rcases replay_step a as act with hsame | ⟨m, F, -, hnext⟩
      · rw [hsame] at hv
        exact (ih hv).trans (Nat.le_succ _)
      · rw [hnext] at hv
        cases hph : replay a as with
        | active w =>
            rw [hph] at hv
            cases hv
            exact (w.configNonce_next_le m).trans (Nat.succ_le_succ (ih hph))
        | vacant =>
            rw [hph] at hv
            cases m <;> cases hv
            exact Nat.zero_le _
        | reserved =>
            rw [hph] at hv
            cases m <;> cases hv
            exact Nat.zero_le _

namespace CallStep

/-- The nonce of a LOCAL execution is the nonce it leaves behind. -/
theorem local_nonce (h : CallStep T guards L a m F L') (href : Refines T a (L.state a) ph)
    (hm : m.localExecution? = some p) :
    p.nonce = (L'.state a).nonce ∧ (L'.state a).nonce.val = (L.state a).nonce.val + 1 := by
  obtain ⟨v, rfl, hinvariant, hexecutable⟩ := h.executable href hm
  obtain ⟨hstate', hsound'⟩ := h.refines_next href
  have hlog : (v.next m).executed.length = v.executed.length + 1 := by
    have hnext := @Phase.executed_next E m (.active v) fun _ ↦ ⟨v, rfl⟩
    rw [hm] at hnext
    exact (congrArg List.length hnext).trans List.length_append
  have hnonce : (L'.state a).nonce = ((v.executed.length + 1 : ℕ) : Fp) := by
    rw [hstate', ← hlog]
    rfl
  refine ⟨hexecutable.nonce.trans hnonce.symm, ?_⟩
  cases hsound' with
  | active hinvariant' =>
      have hval := hinvariant'.val_nonce
      rw [hlog] at hval
      rw [hnonce, hval, href.state]
      exact congrArg (· + 1) hinvariant.val_nonce.symm

/-- The nonce of a REMOTE execution on a child is the parent nonce it leaves. -/
theorem child_nonce (h : CallStep T guards L a m F L') (href : Refines T a (L.state a) ph)
    (hm : m.childExecution? = some p) :
    p.nonce = (L'.state a).parentNonce ∧
      (L'.state a).parentNonce.val = (L.state a).parentNonce.val + 1 := by
  obtain ⟨v, rfl, hinvariant, hexecutable⟩ := h.childExecutable href hm
  obtain ⟨hstate', hsound'⟩ := h.refines_next href
  have hlog : (v.next m).childExecuted.length = v.childExecuted.length + 1 := by
    have hnext := @Phase.childExecuted_next E m (.active v) fun _ ↦ ⟨v, rfl⟩
    rw [hm] at hnext
    exact (congrArg List.length hnext).trans List.length_append
  have hnonce : (L'.state a).parentNonce = ((v.childExecuted.length + 1 : ℕ) : Fp) := by
    rw [hstate', ← hlog]
    rfl
  refine ⟨hexecutable.nonce.trans hnonce.symm, ?_⟩
  cases hsound' with
  | active hinvariant' =>
      have hval := hinvariant'.val_parentNonce
      rw [hlog] at hval
      rw [hnonce, hval, href.state]
      exact congrArg (· + 1) hinvariant.val_parentNonce.symm

end CallStep

end MinaGuard
