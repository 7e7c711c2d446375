import MinaGuard.Vault.Simulation

/-!
# Runs of the ledger

The phase of an account is a function of the calls made on it, and in every run
it is the phase its app state encodes.  The logs of the phase are the calls of
the run, so facts about a vault are facts about what happened before.
-/

namespace MinaGuard

open Foundations

variable {E : Env} {T : Transcript E} {guards : Set PublicKey}

/-- The value a call pins on its own account, in state `s`. -/
def MethodCall.pin (s : GuardState) : MethodCall E → StateValue
  | .setup .. => .ownersCommitment 0
  | .reserveForParent .. => .parent PublicKey.empty
  | .executeSetupChild .. => .ownersCommitment 0
  | .propose .. => .voteNullifierRoot s.voteNullifierRoot
  | .approveProposal .. => .voteNullifierRoot s.voteNullifierRoot
  | .executeTransfer .. => .nonce s.nonce
  | .executeAllocateToChildren .. => .nonce s.nonce
  | .executeOwnerChange .. => .nonce s.nonce
  | .executeThresholdChange .. => .nonce s.nonce
  | .executeDelegate .. => .nonce s.nonce
  | .executeReclaimToParent .. => .parentNonce s.parentNonce
  | .executeDestroy .. => .parentNonce s.parentNonce
  | .executeEnableChildMultiSig .. => .parentNonce s.parentNonce

theorem MethodCall.pins {m : MethodCall E} {P : Prover} {F : Forest} {L L' : Ledger}
    (hprove : m.prove P = .ok F) (hF : F.Included L L') :
    F.Pins P.address (m.pin (L.state P.address)) := by
  rw [prove_ok] at hprove
  cases m with
  | setup => exact (setup_spec hprove hF).2.2.2.1
  | reserveForParent =>
      obtain ⟨-, -, -, -, -, -, -, hpins, -⟩ := reserveForParent_spec hprove hF
      exact hpins
  | executeSetupChild =>
      obtain ⟨-, -, -, -, -, -, -, -, -, -, -, hpins, -⟩ :=
        executeSetupChild_spec hprove hF
      exact hpins
  | propose => exact (propose_spec hprove hF).2.2.2.1
  | approveProposal => exact (approveProposal_spec hprove hF).2.2.2.2.1
  | executeTransfer => exact (executeTransfer_spec hprove hF).2.2.1
  | executeAllocateToChildren => exact (executeAllocateToChildren_spec hprove hF).2.2.1
  | executeOwnerChange =>
      obtain ⟨_, _, -, -, -, -, hpins, -⟩ := executeOwnerChange_spec hprove hF
      exact hpins
  | executeThresholdChange =>
      obtain ⟨-, -, -, -, -, hpins, -⟩ := executeThresholdChange_spec hprove hF
      exact hpins
  | executeDelegate => exact (executeDelegate_spec hprove hF).2.2.1
  | executeReclaimToParent =>
      obtain ⟨-, -, -, hpins, -⟩ := executeReclaimToParent_spec hprove hF
      exact hpins
  | executeDestroy =>
      obtain ⟨-, -, hpins, -⟩ := executeDestroy_spec hprove hF
      exact hpins
  | executeEnableChildMultiSig =>
      obtain ⟨-, -, -, -, hpins, -⟩ := executeEnableChildMultiSig_spec hprove hF
      exact hpins

/-- An included call of `m` on the guard at `a`. -/
structure CallStep (T : Transcript E) (guards : Set PublicKey) (L : Ledger)
    (a : PublicKey) (m : MethodCall E) (F : Forest) (L' : Ledger) : Prop where
  guard : a ∈ guards
  recorded : m.Recorded T
  proved : ∃ P : Prover, P.address = a ∧ m.prove P = .ok F
  included : F.Included L L'

namespace LedgerStep

variable {L L' : Ledger} {a : PublicKey} {m : MethodCall E} {F : Forest}

theorem call_inv (h : LedgerStep T guards L (.call a m F) L') :
    CallStep T guards L a m F L' := by
  cases h with
  | call guard recorded proved included =>
      exact ⟨guard, recorded, ⟨_, rfl, proved⟩, Forest.included_of_apply included⟩

end LedgerStep

namespace CallStep

variable {L L' : Ledger} {a : PublicKey} {m : MethodCall E} {F : Forest}

/-- A call writes app state on its own account only. -/
theorem state_other (h : CallStep T guards L a m F L') {b : PublicKey} (hne : b ≠ a) :
    L'.state b = L.state b := by
  obtain ⟨P, rfl, hprove⟩ := h.proved
  apply h.included.state_other
  rwa [(MethodCall.pins hprove h.included).publicKey]

theorem pins (h : CallStep T guards L a m F L') : F.Pins a (m.pin (L.state a)) := by
  obtain ⟨P, rfl, hprove⟩ := h.proved
  exact MethodCall.pins hprove h.included

theorem refines_next (h : CallStep T guards L a m F L') {ph : Phase}
    (href : Refines T a (L.state a) ph) : Refines T a (L'.state a) (ph.next m) := by
  obtain ⟨P, rfl, hprove⟩ := h.proved
  exact MinaGuard.refines_next href h.recorded hprove h.included

end CallStep

/-- The calls on `a`, in order. -/
def callsOn (a : PublicKey) (as : List (Action E)) : List (MethodCall E) :=
  as.filterMap fun
    | .call b m _ => if b = a then some m else none
    | _ => none

theorem mem_callsOn {a : PublicKey} {as : List (Action E)} {m : MethodCall E} :
    m ∈ callsOn a as ↔ ∃ F, .call a m F ∈ as := by
  unfold callsOn
  rw [List.mem_filterMap]
  constructor
  · rintro ⟨act, hmem, hsome⟩
    cases act with
    | call b m' F =>
        by_cases hb : b = a
        · subst hb
          obtain rfl : m' = m := by simpa using hsome
          exact ⟨F, hmem⟩
        · simp [hb] at hsome
    | deposit => cases hsome
    | advance => cases hsome
    | foreign => cases hsome
  · rintro ⟨F, hmem⟩
    exact ⟨_, hmem, by simp⟩

theorem callsOn_append (a : PublicKey) (as bs : List (Action E)) :
    callsOn a (as ++ bs) = callsOn a as ++ callsOn a bs :=
  List.filterMap_append

theorem callsOn_call (a : PublicKey) (as : List (Action E)) (m : MethodCall E) (F : Forest) :
    callsOn a (as ++ [.call a m F]) = callsOn a as ++ [m] := by
  rw [callsOn_append]
  simp [callsOn]

theorem callsOn_call_of_ne {a b : PublicKey} (hne : b ≠ a) (as : List (Action E))
    (m : MethodCall E) (F : Forest) :
    callsOn a (as ++ [.call b m F]) = callsOn a as := by
  rw [callsOn_append]
  simp [callsOn, hne]

/-- The phase of the account at `a` after the calls of `as`. -/
def replay (a : PublicKey) (as : List (Action E)) : Phase :=
  (callsOn a as).foldl Phase.next .vacant

theorem replay_call (a : PublicKey) (as : List (Action E)) (m : MethodCall E) (F : Forest) :
    replay a (as ++ [.call a m F]) = (replay a as).next m := by
  rw [replay, callsOn_call, List.foldl_append]
  rfl

theorem replay_call_of_ne {a b : PublicKey} (hne : b ≠ a) (as : List (Action E))
    (m : MethodCall E) (F : Forest) :
    replay a (as ++ [.call b m F]) = replay a as := by
  rw [replay, callsOn_call_of_ne hne]
  rfl

/-- One action either leaves the phase of `a` alone or is a call on `a`. -/
theorem replay_step (a : PublicKey) (as : List (Action E)) (act : Action E) :
    replay a (as ++ [act]) = replay a as ∨
      ∃ m F, act = .call a m F ∧ replay a (as ++ [act]) = (replay a as).next m := by
  cases act with
  | call b m F =>
      by_cases hb : b = a
      · subst hb
        exact Or.inr ⟨m, F, rfl, replay_call b as m F⟩
      · exact Or.inl (replay_call_of_ne hb as m F)
  | deposit => exact Or.inl (by simp [replay, callsOn])
  | advance => exact Or.inl (by simp [replay, callsOn])
  | foreign => exact Or.inl (by simp [replay, callsOn])

/-- Later in the run the phase is later. -/
theorem replay_later (a : PublicKey) (as bs : List (Action E)) :
    (replay a as).Later (replay a (as ++ bs)) := by
  unfold replay
  rw [callsOn_append, List.foldl_append]
  generalize (callsOn a as).foldl Phase.next .vacant = ph
  induction callsOn a bs generalizing ph with
  | nil => exact .refl ph
  | cons m ms ih => exact (ph.later_next m).trans (ih _)

/-- Once an account has a parent, it keeps it. -/
theorem Phase.Later.parent {ph ph' : Phase} (h : ph.Later ph')
    (hne : (ph.encode E).parent ≠ PublicKey.empty) :
    (ph'.encode E).parent = (ph.encode E).parent := by
  cases h with
  | vacant => exact absurd rfl hne
  | reserved => rfl
  | created hparent => exact hparent
  | active hlater => exact hlater.parent

namespace Run

variable {as bs : List (Action E)} {L L' L'' : Ledger} {a : PublicKey}

/-- In every run, the state of a guard encodes the phase its calls lead to. -/
theorem refines (h : (ledgerSystem T guards).Run as L) (ha : a ∈ guards) :
    Refines T a (L.state a) (replay a as) := by
  have hall : ∀ a ∈ guards, Refines T a (L.state a) (replay a as) := by
    refine TransitionSystem.Run.invariant
      (fun as L ↦ ∀ a ∈ guards, Refines T a (L.state a) (replay a as)) ?_ ?_ h
    · intro L hinit a ha
      exact ⟨hinit a ha, .vacant⟩
    · intro as L act L' _ ih hstep a ha
      have href := ih a ha
      cases act with
      | call b m F =>
          have hcall := LedgerStep.call_inv hstep
          by_cases hb : b = a
          · subst hb
            rw [replay_call]
            exact hcall.refines_next href
          · rw [replay_call_of_ne hb, hcall.state_other (Ne.symm hb)]
            exact href
      | deposit b amount =>
          cases hstep
          have hreplay : replay a (as ++ [.deposit b amount]) = replay a as := by
            simp [replay, callsOn]
          rw [hreplay, Ledger.state_credit]
          exact href
      | advance slot =>
          cases hstep
          have hreplay : replay a (as ++ [.advance slot]) = replay a as := by
            simp [replay, callsOn]
          rw [hreplay]
          exact href
      | foreign b acc =>
          cases hstep with
          | foreign hother =>
              have hne : a ≠ b := fun heq ↦ hother (heq ▸ ha)
              have hreplay : replay a (as ++ [.foreign b acc]) = replay a as := by
                simp [replay, callsOn]
              rw [hreplay, L.state_setAccount_of_ne acc hne]
              exact href
  exact hall a ha

theorem invariant (h : (ledgerSystem T guards).Run as L) (ha : a ∈ guards) {v : Vault}
    (hv : replay a as = .active v) : L.state a = v.encode E ∧ v.Invariant T a := by
  obtain ⟨hstate, hsound⟩ := refines h ha
  rw [hv] at hstate hsound
  cases hsound with
  | active hinvariant => exact ⟨hstate, hinvariant⟩

/-- An initialized guard is an active vault. -/
theorem active (h : (ledgerSystem T guards).Run as L) (ha : a ∈ guards)
    (hinit : (L.state a).ownersCommitment ≠ 0) :
    ∃ v, replay a as = .active v ∧ L.state a = v.encode E ∧ v.Invariant T a :=
  (refines h ha).active hinit

/-- An active vault along a run: still active, and later. -/
theorem later (run : (ledgerSystem T guards).Run as L) (ha : a ∈ guards)
    (path : (ledgerSystem T guards).Path L bs L') {v : Vault} (hv : replay a as = .active v) :
    ∃ w, replay a (as ++ bs) = .active w ∧ v.Later w ∧ L'.state a = w.encode E ∧
      w.Invariant T a := by
  have hlater := replay_later a as bs
  rw [hv] at hlater
  obtain ⟨w, hw, hvw⟩ := hlater.of_active
  obtain ⟨hstate, hinvariant⟩ := invariant (run.extend path) ha hw
  exact ⟨w, hw, hvw, hstate, hinvariant⟩

/-- An initialized guard stays initialized. -/
theorem stays_initialized (run : (ledgerSystem T guards).Run as L) (ha : a ∈ guards)
    (hinit : (L.state a).ownersCommitment ≠ 0)
    (path : (ledgerSystem T guards).Path L bs L') :
    (L'.state a).ownersCommitment ≠ 0 := by
  obtain ⟨v, hv, -, -⟩ := active run ha hinit
  obtain ⟨w, -, -, hstate, hinvariant⟩ := later run ha path hv
  rw [hstate]
  exact T.computeOwnerChain_ne_zero hinvariant.chained

theorem stays_child (run : (ledgerSystem T guards).Run as L) (ha : a ∈ guards)
    (hne : (L.state a).parent ≠ PublicKey.empty)
    (path : (ledgerSystem T guards).Path L bs L') :
    (L'.state a).parent = (L.state a).parent := by
  have hlater := replay_later a as bs
  rw [(refines run ha).state] at hne ⊢
  rw [(refines (run.extend path) ha).state]
  exact hlater.parent hne

/-- The state a call on an active vault leaves. -/
theorem state_call (run : (ledgerSystem T guards).Run as L) {m : MethodCall E} {F : Forest}
    (step : LedgerStep T guards L (.call a m F) L') {v : Vault}
    (hv : replay a as = .active v) :
    replay a (as ++ [.call a m F]) = .active (v.next m) ∧
      L'.state a = (v.next m).encode E := by
  have hnext : replay a (as ++ [.call a m F]) = .active (v.next m) := by
    rw [replay_call, hv]
    rfl
  exact ⟨hnext,
    (invariant (run.step (S := ledgerSystem T guards) step) step.call_inv.guard hnext).1⟩

/-- A call on an active vault, and what follows it. -/
theorem later_call (run : (ledgerSystem T guards).Run as L) {m : MethodCall E} {F : Forest}
    (step : LedgerStep T guards L (.call a m F) L')
    (path : (ledgerSystem T guards).Path L' bs L'') {v : Vault}
    (hv : replay a as = .active v) :
    ∃ w, replay a (as ++ [.call a m F] ++ bs) = .active w ∧ (v.next m).Later w ∧
      L''.state a = w.encode E ∧ w.Invariant T a :=
  later (run.step (S := ledgerSystem T guards) step) step.call_inv.guard path
    (state_call run step hv).1

end Run

end MinaGuard
