import MinaGuard.Properties.Quorum

/-!
# Governance and its configurations

The committed owner list always has the length the state claims, and the
threshold can be met.  The configuration number names a governance: it moves
by at most one in a step, and while it stays, the owners and the threshold
stay.  A proposal recorded before the number moved is never used afterwards.
-/

namespace MinaGuard

open Foundations

variable {E : Env} {T : Transcript E} {guards : Set PublicKey}
  {as bs : List (Action E)} {L L' L'' : Ledger} {a : PublicKey}

/-- Every initialized guard has a coherent owner list of the size it states. -/
theorem governance_invariant (run : (ledgerSystem T guards).Run as L) (ha : a ∈ guards)
    (hinit : (L.state a).ownersCommitment ≠ 0) :
    0 < (L.state a).threshold.val ∧
      (L.state a).threshold.val ≤ (L.state a).numOwners.val ∧
      (L.state a).numOwners.val ≤ maxOwners ∧
      ∃ owners : List PublicKey, owners.length = (L.state a).numOwners.val ∧
        OwnersCoherent E owners ∧
        computeOwnerChain E owners = (L.state a).ownersCommitment := by
  obtain ⟨v, -, hstate, hv⟩ := Run.active run ha hinit
  have hthreshold : (L.state a).threshold.val = v.threshold := by
    rw [hstate]
    exact hv.val_threshold
  have hnum : (L.state a).numOwners.val = v.owners.length := by
    rw [hstate]
    exact hv.val_numOwners
  have hgoverned := hv.governed
  rw [hthreshold, hnum]
  refine ⟨hgoverned.threshold_pos, hgoverned.threshold_le, hgoverned.length_le,
    v.owners, rfl, hgoverned.coherent, ?_⟩
  rw [hstate]
  rfl

theorem Walkthrough.root_governed :
    0 < 2 ∧ 2 ≤ 3 ∧ 3 ≤ maxOwners ∧
      ∃ owners : List PublicKey, owners.length = 3 ∧ OwnersCoherent tables.env owners ∧
        computeOwnerChain tables.env owners = 4 :=
  governance_invariant (a := root) run_disabled List.mem_cons_self (by decide +kernel)

theorem replay_step_configNonce {v w : Vault} {act : Action E} {a : PublicKey}
    (hv : replay a as = .active v) (hw : replay a (as ++ [act]) = .active w) :
    w.configNonce ≤ v.configNonce + 1 := by
  rcases replay_step a as act with hsame | ⟨m, F, -, hnext⟩
  · rw [hsame, hv] at hw
    cases hw
    exact Nat.le_succ _
  · rw [hnext, hv] at hw
    cases hw
    exact v.configNonce_next_le m

/-- A call that disables the multi-sig of the child it runs on. -/
def MethodCall.Disables : MethodCall E → Prop
  | .executeDestroy .. => True
  | .executeEnableChildMultiSig _ _ _ _ enabled => enabled = 0
  | _ => False

theorem Vault.configNonce_next_of_disables (v : Vault) {m : MethodCall E}
    (hm : m.Disables) : (v.next m).configNonce = v.configNonce + 1 := by
  cases m with
  | executeDestroy => rfl
  | executeEnableChildMultiSig =>
      obtain rfl := hm
      have hoff : decide ((0 : Fp) = 1) = false := by decide
      change (if decide ((0 : Fp) = 1) = true then v.configNonce else v.configNonce + 1) = _
      rw [hoff]
      rfl
  | _ => exact absurd hm id

/-- A proposal cast in an earlier configuration can neither be voted on nor
executed on its guard. -/
theorem no_call_of_old_configuration {m : MethodCall E} {F : Forest}
    {p q : TransactionProposal} {v : Vault} (run : (ledgerSystem T guards).Run as L)
    (step : LedgerStep T guards L (.call a m F) L')
    (hv : replay a as = .active v) (hp : E.proposalInput p ∈ T.hashed)
    (hold : p.configNonce.val < v.configNonce) (heq : E.proposalHash q = E.proposalHash p) :
    m.localExecution? ≠ some q ∧ ∀ k, m.vote? ≠ some (q, k) := by
  have hcall := step.call_inv
  have href := Run.refines run hcall.guard
  have hinvariant := (Run.invariant run hcall.guard hv).2
  have hcurrent : q.configNonce = (v.configNonce : Fp) → E.proposalInput q ∈ T.hashed →
      False := by
    intro hq hmem
    obtain rfl := T.proposalHash_inj hmem hp heq
    rw [hq, hinvariant.val_configNonce] at hold
    exact lt_irrefl _ hold
  constructor
  · intro hm
    obtain ⟨w, hw, hwinv, hexecutable⟩ := hcall.executable href hm
    rw [hv] at hw
    cases hw
    obtain ⟨k, hk⟩ := hexecutable.voted
    exact hcurrent hexecutable.current (hwinv.votes _ hk).hashed
  · intro k hm
    obtain ⟨w, hw, hvotable⟩ := hcall.votable href hm
    rw [hv] at hw
    cases hw
    exact hcurrent hvotable.current hvotable.record.hashed

/-- A vote of the run is on the record of the vault it leads to. -/
theorem Run.vote_on_record (run : (ledgerSystem T guards).Run as L) (ha : a ∈ guards)
    {v : Vault} (hv : replay a as = .active v) {m : MethodCall E} {F : Forest}
    {p : TransactionProposal} {k : PublicKey} (hmem : .call a m F ∈ as)
    (hvote : m.vote? = some (p, k)) :
    Vault.OnRecord T a v.parent v.owners v.configNonce p k := by
  have hlog := Run.votes_eq run ha
  rw [hv] at hlog
  change v.votes = _ at hlog
  apply (Run.invariant run ha hv).2.votes (p, k)
  rw [hlog]
  apply List.mem_filterMap.mpr
  exact ⟨m, mem_callsOn.mpr ⟨F, hmem⟩, hvote⟩

/-- Disabling a child raises its configuration number for good. -/
theorem Run.configNonce_lt_of_disables (run : (ledgerSystem T guards).Run as L)
    {m : MethodCall E} {F : Forest} (step : LedgerStep T guards L (.call a m F) L')
    (hm : m.Disables) (path : (ledgerSystem T guards).Path L' bs L'')
    {v : Vault} (hv : replay a as = .active v) :
    ∃ w, replay a (as ++ [.call a m F] ++ bs) = .active w ∧
      v.configNonce < w.configNonce := by
  obtain ⟨w, hw, hlater, -, -⟩ := Run.later_call run step path hv
  have hbump := v.configNonce_next_of_disables hm
  have hle := hlater.configNonce
  exact ⟨w, hw, by omega⟩

/-- The configuration number never decreases, moves by at most one in a step,
and determines the governance.  Once a child was disabled, no proposal recorded
on it before is ever voted on or executed again. -/
theorem configuration_epochs (run : (ledgerSystem T guards).Run as L) (ha : a ∈ guards)
    (hinit : (L.state a).ownersCommitment ≠ 0) :
    (∀ act L', (ledgerSystem T guards).step L act L' →
      (L.state a).configNonce.val ≤ (L'.state a).configNonce.val ∧
        (L'.state a).configNonce.val ≤ (L.state a).configNonce.val + 1) ∧
    (∀ bs L', (ledgerSystem T guards).Path L bs L' →
      (L.state a).configNonce.val ≤ (L'.state a).configNonce.val ∧
        ((L'.state a).configNonce = (L.state a).configNonce →
          (L'.state a).ownersCommitment = (L.state a).ownersCommitment ∧
            (L'.state a).threshold = (L.state a).threshold ∧
            (L'.state a).numOwners = (L.state a).numOwners)) ∧
    (∀ p k m F L₁ bs L₂ m' F' L₃ q,
      (∃ m₀ F₀, .call a m₀ F₀ ∈ as ∧ m₀.vote? = some (p, k)) →
      LedgerStep T guards L (.call a m F) L₁ → m.Disables →
      (ledgerSystem T guards).Path L₁ bs L₂ →
      LedgerStep T guards L₂ (.call a m' F') L₃ →
      E.proposalHash q = E.proposalHash p →
        m'.localExecution? ≠ some q ∧ ∀ k', m'.vote? ≠ some (q, k')) := by
  obtain ⟨v, hv, hstate, hinvariant⟩ := Run.active run ha hinit
  have hval : (L.state a).configNonce.val = v.configNonce := by
    rw [hstate]
    exact hinvariant.val_configNonce
  refine ⟨?_, ?_, ?_⟩
  · intro act L' step
    have path := TransitionSystem.path_singleton.mpr step
    obtain ⟨w, hw, -, hstate', hinvariant'⟩ := Run.later run ha path hv
    refine ⟨(Run.counters_le run ha path).1, ?_⟩
    rw [hval, hstate']
    exact hinvariant'.val_configNonce.trans_le (replay_step_configNonce hv hw)
  · intro bs L' path
    refine ⟨(Run.counters_le run ha path).1, ?_⟩
    intro heq
    obtain ⟨w, -, hlater, hstate', hinvariant'⟩ := Run.later run ha path hv
    have hsame : w.configNonce = v.configNonce := by
      rw [← hval, ← heq, hstate']
      exact hinvariant'.val_configNonce.symm
    rw [hstate, hstate']
    simp only [Vault.encode, hlater.owners hsame, hlater.threshold hsame, and_self]
  · rintro p k m F L₁ bs L₂ m' F' L₃ q ⟨m₀, F₀, hmem, hvote⟩ step hdisables path step' heq
    have hrecord := Run.vote_on_record run ha hv hmem hvote
    obtain ⟨w, hw, hraised⟩ := Run.configNonce_lt_of_disables run step hdisables path hv
    have run₁ := run.step (S := ledgerSystem T guards) step
    exact no_call_of_old_configuration (run₁.extend path) step' hw hrecord.hashed
      (hrecord.epoch.trans_lt hraised) heq

theorem Walkthrough.payB_expires :
    ((disableApproved.ledger.state child).configNonce.val ≤
        (disabled.ledger.state child).configNonce.val ∧
      (disabled.ledger.state child).configNonce.val ≤
        (disableApproved.ledger.state child).configNonce.val + 1) ∧
      ∀ bs L₂ m F L₃, system.Path disabled.ledger bs L₂ →
        system.step L₂ (.call child m F) L₃ → m.localExecution? ≠ some payB := by
  have hproposed : .call child proposePayment (added.forest child proposePayment) ∈
      actionsBeforeAdd ++ [add] ++ actionsBeforeDisable :=
    List.mem_append_right _ List.mem_cons_self
  obtain ⟨hstep, -, hold⟩ := configuration_epochs run_disableApproved
    (List.mem_cons_of_mem root List.mem_cons_self) (by decide +kernel)
  refine ⟨hstep disable disabled.ledger disable_step, ?_⟩
  intro bs L₂ m F L₃ path step
  exact (hold payB ownerA executeDisable _ _ bs L₂ m F L₃ payB
    ⟨proposePayment, _, hproposed, rfl⟩ disable_step rfl path step rfl).1

end MinaGuard
