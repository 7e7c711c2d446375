import MinaGuard.Contract.Ledger

/-!
# The vault behind a guard

What the users of a guard think it is.  An account is vacant, then perhaps
reserved for a parent, then active for good.  An active vault has an ordered
owner list, a threshold and a configuration number, and remembers everything
that happened: who voted for what, which LOCAL proposals it executed and which
REMOTE ones it executed for its parent.  The roots and counters on the ledger
are commitments to these logs.

`Phase.next` is the effect of one method call on the account it runs on.
-/

namespace MinaGuard

open Foundations

/-- An initialized guard. -/
structure Vault where
  parent : PublicKey
  owners : List PublicKey
  threshold : ℕ
  configNonce : ℕ
  votes : List (TransactionProposal × PublicKey)
  executed : List TransactionProposal
  childExecuted : List TransactionProposal
  enabled : Bool
deriving DecidableEq

namespace Vault

def fresh (parent : PublicKey) (owners : List PublicKey) (threshold : ℕ) : Vault where
  parent := parent
  owners := owners
  threshold := threshold
  configNonce := 0
  votes := []
  executed := []
  childExecuted := []
  enabled := true

variable (v : Vault)

def vote (p : TransactionProposal) (k : PublicKey) : Vault :=
  { v with votes := v.votes ++ [(p, k)] }

def execute (p : TransactionProposal) : Vault :=
  { v with executed := v.executed ++ [p] }

def executeChild (p : TransactionProposal) : Vault :=
  { v with childExecuted := v.childExecuted ++ [p] }

/-- New governance opens a new configuration. -/
def govern (owners : List PublicKey) (threshold : ℕ) : Vault :=
  { v with owners := owners, threshold := threshold, configNonce := v.configNonce + 1 }

/-- Disabling also opens a new configuration, enabling does not. -/
def setEnabled (enabled : Bool) : Vault :=
  { v with
    enabled := enabled
    configNonce := if enabled then v.configNonce else v.configNonce + 1 }

/-- The owners after an owner change. -/
def ownersAfter (p : TransactionProposal) (insertAfter : PublicKeyOption) :
    List PublicKey :=
  if p.txType = TxType.addOwner then
    MinaGuard.insertOwner insertAfter p.slot0.address v.owners
  else MinaGuard.removeOwner p.slot0.address v.owners

def next {E : Env} : MethodCall E → Vault
  | .setup .. => v
  | .reserveForParent .. => v
  | .executeSetupChild .. => v
  | .propose p _ k .. => v.vote p k
  | .approveProposal p _ k .. => v.vote p k
  | .executeTransfer p .. => v.execute p
  | .executeAllocateToChildren p .. => v.execute p
  | .executeOwnerChange p _ _ _ pos =>
      (v.execute p).govern (v.ownersAfter p pos) v.threshold
  | .executeThresholdChange p _ _ newThreshold =>
      (v.execute p).govern v.owners newThreshold.val
  | .executeDelegate p .. => v.execute p
  | .executeReclaimToParent p .. => v.executeChild p
  | .executeDestroy p .. => (v.executeChild p).setEnabled false
  | .executeEnableChildMultiSig p _ _ _ enabled =>
      (v.executeChild p).setEnabled (decide (enabled = 1))

end Vault

/-- The life of a guard account. -/
inductive Phase where
  | vacant
  | reserved (parent : PublicKey) (configHash : Fp)
  | active (vault : Vault)
deriving DecidableEq

namespace Phase

/-- The effect of a call; calls that cannot succeed leave the phase alone. -/
def next {E : Env} : Phase → MethodCall E → Phase
  | vacant, .setup t n o => active (.fresh PublicKey.empty (setupOwners o n) t.val)
  | vacant, .reserveForParent a _ t n o =>
      reserved a (E.childConfigHash (computeSetupOwnersChain E o n) t n)
  | vacant, _ => vacant
  | reserved a _, .executeSetupChild t n o .. =>
      active (.fresh a (setupOwners o n) t.val)
  | reserved a c, _ => reserved a c
  | active v, m => active (v.next m)

/-! The logs of a phase; an account that is not active has none. -/

def votes : Phase → List (TransactionProposal × PublicKey)
  | active v => v.votes
  | _ => []

def executed : Phase → List TransactionProposal
  | active v => v.executed
  | _ => []

def childExecuted : Phase → List TransactionProposal
  | active v => v.childExecuted
  | _ => []

end Phase

/-- `w` is a later state of `v`: the logs only grow, the configuration number
never decreases, and as long as it stays the governance does. -/
structure Vault.Later (v w : Vault) : Prop where
  parent : w.parent = v.parent
  votes : v.votes <+: w.votes
  executed : v.executed <+: w.executed
  childExecuted : v.childExecuted <+: w.childExecuted
  configNonce : v.configNonce ≤ w.configNonce
  owners : w.configNonce = v.configNonce → w.owners = v.owners
  threshold : w.configNonce = v.configNonce → w.threshold = v.threshold

namespace Vault.Later

variable {u v w : Vault}

theorem refl (v : Vault) : v.Later v :=
  ⟨rfl, List.prefix_refl _, List.prefix_refl _, List.prefix_refl _, le_rfl,
    fun _ ↦ rfl, fun _ ↦ rfl⟩

theorem trans (h : u.Later v) (h' : v.Later w) : u.Later w := by
  have hsame (heq : w.configNonce = u.configNonce) :
      v.configNonce = u.configNonce ∧ w.configNonce = v.configNonce := by
    have hle := h.configNonce
    have hle' := h'.configNonce
    omega
  refine
    { parent := h'.parent.trans h.parent
      votes := h.votes.trans h'.votes
      executed := h.executed.trans h'.executed
      childExecuted := h.childExecuted.trans h'.childExecuted
      configNonce := h.configNonce.trans h'.configNonce
      owners := ?_
      threshold := ?_ }
  · intro heq
    obtain ⟨hvu, hwv⟩ := hsame heq
    exact (h'.owners hwv).trans (h.owners hvu)
  · intro heq
    obtain ⟨hvu, hwv⟩ := hsame heq
    exact (h'.threshold hwv).trans (h.threshold hvu)

end Vault.Later

namespace Vault

variable (v : Vault)

theorem later_vote (p : TransactionProposal) (k : PublicKey) : v.Later (v.vote p k) :=
  { Later.refl v with votes := List.prefix_append _ _ }

theorem later_execute (p : TransactionProposal) : v.Later (v.execute p) :=
  { Later.refl v with executed := List.prefix_append _ _ }

theorem later_executeChild (p : TransactionProposal) : v.Later (v.executeChild p) :=
  { Later.refl v with childExecuted := List.prefix_append _ _ }

theorem later_govern (owners : List PublicKey) (threshold : ℕ) :
    v.Later (v.govern owners threshold) :=
  { Later.refl v with
    configNonce := Nat.le_succ _
    owners := fun h ↦ absurd h (Nat.succ_ne_self _)
    threshold := fun h ↦ absurd h (Nat.succ_ne_self _) }

theorem later_setEnabled (enabled : Bool) : v.Later (v.setEnabled enabled) := by
  refine
    { Later.refl v with
      configNonce := ?_
      owners := fun _ ↦ rfl
      threshold := fun _ ↦ rfl }
  cases enabled with
  | false => exact Nat.le_succ _
  | true => exact le_rfl

theorem later_next {E : Env} (m : MethodCall E) : v.Later (v.next m) := by
  cases m with
  | setup => exact Later.refl v
  | reserveForParent => exact Later.refl v
  | executeSetupChild => exact Later.refl v
  | propose => exact v.later_vote _ _
  | approveProposal => exact v.later_vote _ _
  | executeTransfer => exact v.later_execute _
  | executeAllocateToChildren => exact v.later_execute _
  | executeOwnerChange => exact (v.later_execute _).trans (later_govern _ _ _)
  | executeThresholdChange => exact (v.later_execute _).trans (later_govern _ _ _)
  | executeDelegate => exact v.later_execute _
  | executeReclaimToParent => exact v.later_executeChild _
  | executeDestroy => exact (v.later_executeChild _).trans (later_setEnabled _ _)
  | executeEnableChildMultiSig =>
      exact (v.later_executeChild _).trans (later_setEnabled _ _)

end Vault

/-- A later phase of an account.  A reservation keeps its parent through the
creation of the child. -/
inductive Phase.Later : Phase → Phase → Prop where
  | vacant (ph : Phase) : Later .vacant ph
  | reserved (a : PublicKey) (c : Fp) : Later (.reserved a c) (.reserved a c)
  | created {a : PublicKey} {c : Fp} {v : Vault} (parent : v.parent = a) :
      Later (.reserved a c) (.active v)
  | active {v w : Vault} (later : v.Later w) : Later (.active v) (.active w)

namespace Phase

theorem Later.refl (ph : Phase) : ph.Later ph := by
  cases ph with
  | vacant => exact .vacant _
  | reserved a c => exact .reserved a c
  | active v => exact .active (.refl v)

theorem Later.trans {ph ph' ph'' : Phase} (h : ph.Later ph') (h' : ph'.Later ph'') :
    ph.Later ph'' := by
  cases h with
  | vacant => exact .vacant _
  | reserved a c => exact h'
  | created hparent =>
      cases h' with
      | active hlater => exact .created (hlater.parent.trans hparent)
  | active hlater =>
      cases h' with
      | active hlater' => exact .active (hlater.trans hlater')

theorem later_next {E : Env} (ph : Phase) (m : MethodCall E) : ph.Later (ph.next m) := by
  cases ph with
  | vacant => exact .vacant _
  | reserved a c =>
      cases m with
      | executeSetupChild => exact .created rfl
      | _ => exact .reserved a c
  | active v => exact .active (v.later_next m)

/-- Once active, always active. -/
theorem Later.of_active {v : Vault} {ph : Phase} (h : (Phase.active v).Later ph) :
    ∃ w, ph = .active w ∧ v.Later w := by
  cases h with
  | active hlater => exact ⟨_, rfl, hlater⟩

end Phase

end MinaGuard
