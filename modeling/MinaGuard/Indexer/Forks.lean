import MinaGuard.Foundations.ForkedHistory
import MinaGuard.Indexer.IndexCore

/-!
# The index of a chain that forks

On the history of one chain, a rollback commutes with what happened at or below the fork and
takes back what happened above it.  So the index is a machine whose history may fork.
-/

namespace MinaGuard

open Foundations

namespace IndexView

variable (i : IndexView)

/-- The proposal that an execution is of, in its own vault or in the parent. -/
def executed (v : VaultView) (proposalHash : String) : Option ProposalView :=
  match v.proposals proposalHash with
  | some p => some p
  | none => (i.remoteProposal v proposalHash).map Prod.snd

/-- The parent was discovered before, if the execution is of its proposal. -/
def parentKnown (v : VaultView) (proposalHash : String) (height : ℕ) : Bool :=
  (v.proposals proposalHash).isSome ||
    (i.remoteProposal v proposalHash).all fun x ↦
      (i x.1).all fun w ↦ w.discoveredAtBlock.all fun n ↦ n ≤ height

end IndexView

namespace Index

variable (i : Index)

/-- The setup of the vault was applied, at the height or below. -/
def isSetUpBy (address : String) (height : ℕ) : Bool :=
  i.log.any fun x ↦ (x.vault = some address ∧ x.eventType = "setup" ∧ x.applyError = none) ∧
    x.blockHeight ≤ height

/-- A vault is set up once and before it executes; a proposal is made once, with its receivers,
then approved once by each owner and executed once. -/
def admitsEvent (address : String) (e : ChainEvent) (v : VaultView) : Bool :=
  let proposalHash := truthy (asString (e.event.get "proposalHash"))
  match e.type with
  | "setup" => !i.isSetUp address
  | "proposal" => proposalHash.all fun proposalHash ↦ (v.proposals proposalHash).isNone
  | "receiver" => proposalHash.all fun proposalHash ↦
      (v.proposals proposalHash).all fun p ↦ p.row.createdAtBlock = e.blockHeight
  | "approval" => proposalHash.all fun proposalHash ↦
      (v.proposals proposalHash).all fun p ↦
        (truthy (asString (e.event.get "approver"))).all fun approver ↦
          (p.approval approver).isNone
  | "execution" => i.isSetUpBy address e.blockHeight && proposalHash.all fun proposalHash ↦
      i.vaults.parentKnown v proposalHash e.blockHeight &&
        (i.vaults.executed v proposalHash).all fun p ↦
          p.row.createdAtBlock ≤ e.blockHeight && p.execution.isNone
  | _ => true

/-- What a chain can have now.  A vault is tracked before anything of it is known; a new event
is not below what its vault has, and a fingerprint is of one height. -/
def admits : IndexAction → Bool
  | .track address _ =>
      (i.vaults address).isNone && i.log.all fun x ↦ x.vault ≠ some address
  | .untrack _ => false
  | .ingest address _ e =>
      (i.log.all fun x ↦ x.fingerprint ≠ fingerprintEvent address e ∨
        x.blockHeight = e.blockHeight) &&
      (i.isRecorded (fingerprintEvent address e) || (i.vaults address).any fun v ↦
        v.discoveredAtBlock.all (fun n ↦ n ≤ e.blockHeight) &&
        v.configs.all (fun x ↦ x.1 ≤ e.blockHeight) &&
        (e.decodeError.isSome || i.admitsEvent address e v))
  | .rollback _ => false
  | .note => true

end Index

/-- What happened above the fork. -/
def IndexAction.isAbove (forkHeight : ℤ) : IndexAction → Bool
  | .track _ discoveredAtBlock => discoveredAtBlock.any (MinaGuard.isAbove forkHeight)
  | .ingest _ _ e => MinaGuard.isAbove forkHeight e.blockHeight
  | _ => false

section Discovered

variable {E : Env} {lib : Backend E} {e : ChainEvent} {v w : VaultView}

namespace VaultView

/-- A write leaves it known where the vault was discovered. -/
def Stays (f : VaultView → Option VaultView) : Prop :=
  ∀ v w, f v = some w → w.discoveredAtBlock = v.discoveredAtBlock

theorem Stays.some {f : VaultView → VaultView}
    (hf : ∀ v, (f v).discoveredAtBlock = v.discoveredAtBlock) : Stays fun v ↦ some (f v) :=
  fun v _ hw ↦ Option.some.inj hw ▸ hf v

theorem discovered_snapshot {height : ℕ} {changes : ContractConfigChanges}
    (h : v.snapshot height changes = some w) : w.discoveredAtBlock = v.discoveredAtBlock := by
  rw [snapshot_eq] at h
  split at h
  · rw [← Option.some.inj h]
  · cases h

theorem stays_snapshot (height : ℕ) (changes : ContractConfigChanges) :
    Stays fun v ↦ v.snapshot height changes := fun _ _ ↦ discovered_snapshot

theorem stays_setUp : Stays fun v ↦ v.setUp lib e :=
  fun _ _ hw ↦ (discovered_snapshot hw).trans rfl

theorem stays_setUpOwner (setupFallback : Option OnChainState) :
    Stays fun v ↦ v.setUpOwner lib e setupFallback := fun v w hw ↦ by
  unfold setUpOwner at hw
  dsimp only at hw
  split at hw
  · rw [Option.some.inj hw]
  split at hw
  · rw [Option.some.inj hw]
  split at hw
  · split at hw
    · rw [← Option.some.inj hw]
      rfl
    · cases setupFallback with
      | none =>
          rw [← Option.some.inj hw]
          rfl
      | some state => exact (discovered_snapshot hw).trans rfl
  · cases hw

theorem stays_execute (proposalHash : String) (p : ProposalView) :
    Stays fun v ↦ v.execute lib proposalHash p e := fun v w hw ↦ by
  unfold execute at hw
  dsimp only at hw
  split at hw
  · exact (discovered_snapshot hw).trans rfl
  · rw [← Option.some.inj hw]
    rfl

theorem stays_changeOwner : Stays fun v ↦ v.changeOwner e := fun v w hw ↦ by
  unfold changeOwner at hw
  dsimp only at hw
  split at hw
  · rw [Option.some.inj hw]
  split at hw
  · rw [← Option.some.inj hw]
    rfl
  · exact (discovered_snapshot hw).trans rfl

theorem stays_changeThreshold : Stays fun v ↦ v.changeThreshold e := fun v w hw ↦ by
  unfold changeThreshold at hw
  dsimp only at hw
  split at hw
  · rw [Option.some.inj hw]
  · exact discovered_snapshot hw

theorem stays_changeDelegate : Stays fun v ↦ v.changeDelegate e := fun v w hw ↦ by
  unfold changeDelegate at hw
  dsimp only at hw
  split at hw
  · rw [Option.some.inj hw]
  · exact discovered_snapshot hw

theorem stays_enableChildMultiSig : Stays fun v ↦ v.enableChildMultiSig e := fun v w hw ↦ by
  unfold enableChildMultiSig at hw
  dsimp only at hw
  split at hw
  · rw [Option.some.inj hw]
  · exact discovered_snapshot hw

theorem discovered_receive : (v.receive lib e).discoveredAtBlock = v.discoveredAtBlock := by
  unfold receive
  split
  · split <;> rfl
  · rfl

theorem discovered_approve : (v.approve e).discoveredAtBlock = v.discoveredAtBlock := by
  unfold approve
  split <;> rfl

end VaultView

namespace IndexView

variable {i i' : IndexView} {address : String}

/-- Where each vault was discovered. -/
def discovered (i : IndexView) (address : String) : Option (Option ℕ) :=
  (i address).map VaultView.discoveredAtBlock

theorem discovered_update (hv : i address = some v)
    (hw : w.discoveredAtBlock = v.discoveredAtBlock) :
    discovered (Function.update i address (some w)) = i.discovered := by
  funext a
  unfold discovered
  by_cases ha : a = address
  · rw [ha, Function.update_self, hv, Option.map_some, Option.map_some, hw]
  · rw [Function.update_of_ne ha]

theorem discovered_alter {f : VaultView → Option VaultView} (hf : VaultView.Stays f)
    (h : i.alter address f = some i') : i'.discovered = i.discovered := by
  unfold alter at h
  obtain ⟨w, hw, rfl⟩ := Option.map_eq_some_iff.mp h
  obtain ⟨v, hv, hfv⟩ := Option.bind_eq_some_iff.mp hw
  exact discovered_update hv (hf v w hfv)

theorem discovered_modify {f : VaultView → VaultView}
    (hf : ∀ v, (f v).discoveredAtBlock = v.discoveredAtBlock) :
    (i.modify address f).discovered = i.discovered := by
  unfold modify
  cases hv : i address with
  | none => rw [Option.map_none, ← hv, Function.update_eq_self]
  | some v => exact discovered_update hv (hf v)

theorem discovered_execute (h : i.execute lib address e v = some i') :
    i'.discovered = i.discovered := by
  unfold execute at h
  split at h
  · rw [Option.some.inj h]
  split at h
  · exact discovered_alter (VaultView.stays_execute _ _) h
  split at h
  · rw [Option.some.inj h]
  next proposalHash _ _ _ _ parent p _ =>
    have hmodify : (i.modify parent fun v ↦ v.amend proposalHash fun p ↦
        p.markExecuted lib e).discovered = i.discovered := discovered_modify fun _ ↦ rfl
    dsimp only at h
    split at h
    · exact (discovered_alter (VaultView.stays_snapshot _ _) h).trans hmodify
    · rw [← Option.some.inj h]
      exact hmodify

/-- In full mode an event says nothing of where vaults were discovered. -/
theorem discovered_apply {setupFallback : Option OnChainState}
    (h : i.apply lib .full address e setupFallback = some i') : i'.discovered = i.discovered := by
  unfold apply at h
  split at h
  · exact discovered_alter VaultView.stays_setUp h
  · exact discovered_alter (VaultView.stays_setUpOwner setupFallback) h
  · split at h
    · rw [Option.some.inj h]
    · rw [← Option.some.inj h]
      exact discovered_modify fun _ ↦ rfl
  · rw [← Option.some.inj h]
    exact discovered_modify fun _ ↦ VaultView.discovered_approve
  · obtain ⟨v, -, hexecute⟩ := Option.bind_eq_some_iff.mp h
    exact discovered_execute hexecute
  · exact discovered_alter VaultView.stays_enableChildMultiSig h
  · rw [← Option.some.inj h]
    exact discovered_modify fun _ ↦ VaultView.discovered_receive
  · exact discovered_alter VaultView.stays_changeOwner h
  · exact discovered_alter VaultView.stays_changeThreshold h
  · exact discovered_alter VaultView.stays_changeDelegate h
  · rw [Option.some.inj h]

end IndexView

end Discovered

/-! ## Below the fork -/

section Below

variable {E : Env} {lib : Backend E} {e : ChainEvent} {F : ℤ} {v w : VaultView} {height : ℕ}

theorem isAbove_of_le {n : ℕ} (hle : n ≤ height) (hheight : isAbove F height = false) :
    isAbove F n = false := by
  unfold isAbove at *
  rw [decide_eq_false_iff_not] at *
  omega

namespace ProposalView

variable (p : ProposalView)

theorem rollback_approve (approver : String) (approvalRaw : Option String)
    (hheight : isAbove F height = false) :
    (p.approve approver approvalRaw height).rollback F =
      (p.rollback F).approve approver approvalRaw height := by
  unfold approve rollback
  dsimp only
  congr 1
  funext k
  rw [Function.update_apply, Function.update_apply]
  split
  · exact Option.filter_some_pos (by simp [hheight])
  · rfl

theorem rollback_markExecuted (hheight : isAbove F e.blockHeight = false) :
    (p.markExecuted lib e).rollback F = (p.rollback F).markExecuted lib e := by
  unfold markExecuted rollback
  dsimp only
  congr 1
  exact Option.filter_some_pos (by simp [hheight])

end ProposalView

namespace VaultView

/-- All snapshots are at the height or below, so none is above the fork. -/
theorem rollback_configs (hconfigs : v.configs.all (fun x ↦ x.1 ≤ height) = true)
    (hheight : isAbove F height = false) : (v.rollback F).configs = v.configs := by
  refine List.filter_eq_self.mpr fun x hx ↦ ?_
  have hle := of_decide_eq_true (List.all_eq_true.mp hconfigs x hx)
  rw [isAbove_of_le hle hheight]
  rfl

theorem not_isOrphaned (hdiscovered : v.discoveredAtBlock.all (fun n ↦ n ≤ height) = true)
    (hheight : isAbove F height = false) : v.isOrphaned F .full = false := by
  unfold isOrphaned
  cases hn : v.discoveredAtBlock with
  | none => rfl
  | some n =>
      rw [hn] at hdiscovered
      simp [isAbove_of_le (of_decide_eq_true hdiscovered) hheight]

/-- A proposal below the fork is kept. -/
theorem proposals_rollback {proposalHash : String} {p : ProposalView}
    (hp : v.proposals proposalHash = some p) (hcreated : p.row.createdAtBlock ≤ height)
    (hheight : isAbove F height = false) :
    (v.rollback F).proposals proposalHash = some (p.rollback F) := by
  unfold rollback
  dsimp only
  rw [hp, Option.filter_some_pos (by simp [isAbove_of_le hcreated hheight])]
  rfl

theorem proposals_rollback_none {proposalHash : String} (hp : v.proposals proposalHash = none) :
    (v.rollback F).proposals proposalHash = none := by
  unfold rollback
  dsimp only
  rw [hp]
  rfl

/-- The rollback can be made before. -/
def Commutes (F : ℤ) (f : VaultView → Option VaultView) (v : VaultView) : Prop :=
  (f v).map (rollback F) = f (v.rollback F)

theorem commutes_snapshot (changes : ContractConfigChanges)
    (hconfigs : v.configs.all (fun x ↦ x.1 ≤ height) = true)
    (hheight : isAbove F height = false) :
    Commutes F (fun v ↦ v.snapshot height changes) v := by
  have hconfig : (v.rollback F).config = v.config := by
    unfold config
    rw [rollback_configs hconfigs hheight]
  unfold Commutes
  dsimp only
  rw [snapshot_eq, snapshot_eq, hconfig]
  split
  · refine congrArg some ?_
    unfold rollback
    dsimp only
    rw [List.filter_append, List.filter_cons_of_pos (by simp [hheight]), List.filter_nil]
  · rfl

theorem rollback_record {m : MembershipView} (hheight : isAbove F m.validFromBlock = false) :
    (v.record m).rollback F = (v.rollback F).record m := by
  unfold rollback record
  dsimp only
  rw [List.filter_append, List.filter_cons_of_pos (by simp [hheight]), List.filter_nil]

theorem rollback_setProposal {proposalHash : String} {p : Option ProposalView} :
    (v.setProposal proposalHash p).rollback F = (v.rollback F).setProposal proposalHash
      ((p.filter fun p ↦ !isAbove F p.row.createdAtBlock).map (ProposalView.rollback F)) := by
  unfold rollback setProposal
  rw [VaultView.mk.injEq]
  refine ⟨rfl, rfl, rfl, rfl, funext fun hash ↦ ?_⟩
  dsimp only
  rw [Function.update_apply, Function.update_apply]
  split <;> rfl

/-- The write keeps the height of the proposal and commutes. -/
theorem rollback_amend {proposalHash : String} {g : ProposalView → ProposalView}
    (hcreated : ∀ p, (g p).row.createdAtBlock = p.row.createdAtBlock)
    (hg : ∀ p, (g p).rollback F = g (p.rollback F)) :
    (v.amend proposalHash g).rollback F = (v.rollback F).amend proposalHash g := by
  unfold amend
  rw [rollback_setProposal]
  congr 1
  change _ = (((v.proposals proposalHash).filter fun p ↦ !isAbove F p.row.createdAtBlock).map
    (ProposalView.rollback F)).map g
  rw [Option.filter_map, Option.map_map, Option.map_map]
  cases v.proposals proposalHash with
  | none => rfl
  | some p =>
      rw [Option.filter_some, Option.filter_some, Function.comp_apply, hcreated]
      split
      · exact congrArg some (hg p)
      · rfl

theorem rollback_propose {proposalHash : String} (hfresh : v.proposals proposalHash = none)
    (hheight : isAbove F e.blockHeight = false) :
    (v.propose lib proposalHash e).rollback F = (v.rollback F).propose lib proposalHash e := by
  have hnone : (v.rollback F).proposals proposalHash = none := by
    unfold rollback
    dsimp only
    rw [hfresh]
    rfl
  unfold propose
  rw [rollback_setProposal, hfresh, hnone]
  dsimp only
  have hcreated : (ProposalView.start lib proposalHash e).row.createdAtBlock = e.blockHeight := rfl
  rw [Option.filter_some_pos (by rw [hcreated, hheight]; rfl)]
  rfl

theorem rollback_receive : (v.receive lib e).rollback F = (v.rollback F).receive lib e := by
  unfold receive
  split
  · split
    · rfl
    · refine rollback_amend (fun p ↦ ?_) fun p ↦ ?_
      · unfold ProposalView.receive
        dsimp only
        split <;> rfl
      · unfold ProposalView.receive ProposalView.rollback
        rfl
  · rfl

theorem rollback_approveEvent (hheight : isAbove F e.blockHeight = false) :
    (v.approve e).rollback F = (v.rollback F).approve e := by
  unfold approve
  split
  · exact rollback_amend (fun _ ↦ rfl) fun p ↦ p.rollback_approve _ _ hheight
  · rfl

theorem Commutes.comp {f : VaultView → VaultView} {g : VaultView → Option VaultView}
    (hg : Commutes F g (f v)) (hf : (f v).rollback F = f (v.rollback F)) :
    Commutes F (fun v ↦ g (f v)) v := by
  unfold Commutes at hg ⊢
  rw [hg, hf]

theorem commutes_some {f : VaultView → VaultView} (hf : (f v).rollback F = f (v.rollback F)) :
    Commutes F (fun v ↦ some (f v)) v := congrArg some hf

variable (hconfigs : v.configs.all (fun x ↦ x.1 ≤ e.blockHeight) = true)
  (hheight : isAbove F e.blockHeight = false)

include hconfigs hheight

theorem commutes_setUp : Commutes F (fun v ↦ v.setUp lib e) v := by
  let parent := asString (e.event.get "parent")
  exact Commutes.comp
    (f := fun v ↦ { v with parent :=
      if parent = none ∨ parent = some (emptyPublicKey lib) then none else parent })
    (commutes_snapshot _ hconfigs hheight) rfl

theorem commutes_setUpOwner (setupFallback : Option OnChainState) :
    Commutes F (fun v ↦ v.setUpOwner lib e setupFallback) v := by
  have hconfig (m : MembershipView) : ((v.rollback F).record m).config = (v.record m).config := by
    unfold config record
    dsimp only
    rw [rollback_configs hconfigs hheight]
  have hrecord {m : MembershipView} (hm : m.validFromBlock = e.blockHeight) :
      (v.record m).rollback F = (v.rollback F).record m := rollback_record (hm ▸ hheight)
  unfold Commutes setUpOwner
  dsimp only
  split
  · rfl
  split
  · rfl
  split
  · rw [hconfig]
    split
    · exact congrArg some (hrecord rfl)
    · cases setupFallback with
      | none => exact congrArg some (hrecord rfl)
      | some state =>
          exact Commutes.comp (f := fun v ↦ v.record _) (commutes_snapshot _ hconfigs hheight)
            (hrecord rfl)
  · rfl

theorem commutes_execute (proposalHash : String) (p : ProposalView) :
    Commutes F (fun v ↦ v.execute lib proposalHash p e) v := by
  have hamend : (v.amend proposalHash fun p ↦ p.markExecuted lib e).rollback F =
      (v.rollback F).amend proposalHash fun p ↦ p.markExecuted lib e :=
    rollback_amend (fun _ ↦ rfl) fun p ↦ p.rollback_markExecuted hheight
  unfold Commutes execute
  dsimp only
  split
  · exact Commutes.comp (f := fun v ↦ v.amend proposalHash _)
      (commutes_snapshot _ hconfigs hheight) hamend
  · exact congrArg some hamend

theorem commutes_changeOwner : Commutes F (fun v ↦ v.changeOwner e) v := by
  have hrecord {m : MembershipView} (hm : m.validFromBlock = e.blockHeight) :
      (v.record m).rollback F = (v.rollback F).record m := rollback_record (hm ▸ hheight)
  unfold Commutes changeOwner
  dsimp only
  split
  · rfl
  split
  · exact congrArg some (hrecord rfl)
  · exact Commutes.comp (f := fun v ↦ v.record _) (commutes_snapshot _ hconfigs hheight)
      (hrecord rfl)

theorem commutes_changeThreshold : Commutes F (fun v ↦ v.changeThreshold e) v := by
  unfold Commutes changeThreshold
  dsimp only
  split
  · rfl
  · exact commutes_snapshot _ hconfigs hheight

theorem commutes_changeDelegate : Commutes F (fun v ↦ v.changeDelegate e) v := by
  unfold Commutes changeDelegate
  dsimp only
  split
  · rfl
  · exact commutes_snapshot _ hconfigs hheight

theorem commutes_enableChildMultiSig : Commutes F (fun v ↦ v.enableChildMultiSig e) v := by
  unfold Commutes enableChildMultiSig
  dsimp only
  split
  · rfl
  · exact commutes_snapshot _ hconfigs hheight

end VaultView

namespace IndexView

variable {i i' : IndexView} {address : String}

theorem rollback_at (hv : i address = some v) (hkept : v.isOrphaned F .full = false) :
    (i.rollback .full F) address = some (v.rollback F) := by
  unfold rollback
  rw [hv, Option.filter_some_pos (by simp [hkept])]
  rfl

theorem rollback_update (hkept : v.isOrphaned F .full = false) :
    rollback .full F (Function.update i address (some v)) =
      Function.update (i.rollback .full F) address (some (v.rollback F)) := by
  funext a
  by_cases ha : a = address
  · subst ha
    rw [rollback_at (Function.update_self ..) hkept, Function.update_self]
  · unfold rollback
    rw [Function.update_of_ne ha, Function.update_of_ne ha]

/-- A write to a vault that is kept can be made after the rollback. -/
theorem rollback_alter {f : VaultView → Option VaultView} (hv : i address = some v)
    (hkept : v.isOrphaned F .full = false) (hf : VaultView.Commutes F f v)
    (hsame : VaultView.Stays f) :
    (i.alter address f).map (rollback .full F) = (i.rollback .full F).alter address f := by
  unfold alter
  rw [rollback_at hv hkept, hv, Option.bind_some, Option.bind_some, ← hf]
  cases hw : f v with
  | none => rfl
  | some w =>
      have hkept' : w.isOrphaned F .full = false := by
        unfold VaultView.isOrphaned at hkept ⊢
        rw [hsame v w hw, hkept]
      exact congrArg some (rollback_update hkept')

theorem modify_eq_alter {f : VaultView → VaultView} (hv : i address = some v) :
    some (i.modify address f) = i.alter address fun v ↦ some (f v) := by
  unfold modify alter
  rw [hv]
  rfl

theorem rollback_modify {f : VaultView → VaultView} (hv : i address = some v)
    (hkept : v.isOrphaned F .full = false) (hf : (f v).rollback F = f (v.rollback F))
    (hsame : ∀ v, (f v).discoveredAtBlock = v.discoveredAtBlock) :
    (i.modify address f).rollback .full F = (i.rollback .full F).modify address f := by
  refine Option.some.inj ?_
  rw [modify_eq_alter (rollback_at hv hkept), ← rollback_alter hv hkept
    (VaultView.commutes_some hf) (VaultView.Stays.some hsame), ← modify_eq_alter hv]
  rfl

theorem remoteProposal_eq (v : VaultView) (proposalHash : String) :
    i.remoteProposal v proposalHash = (truthy v.parent).bind fun parent ↦
      (i parent).bind fun w ↦ (w.proposals proposalHash).map fun p ↦ (parent, p) := by
  unfold remoteProposal
  simp only [Option.bind_eq_bind, Option.pure_def, Option.map_eq_bind, Function.comp_def]

/-- What the parent does not have it does not have after a rollback. -/
theorem remoteProposal_rollback_none {proposalHash : String}
    (h : i.remoteProposal v proposalHash = none) :
    (i.rollback .full F).remoteProposal (v.rollback F) proposalHash = none := by
  rw [remoteProposal_eq] at h ⊢
  change (truthy v.parent).bind _ = none
  cases hparent : truthy v.parent with
  | none => rfl
  | some parent =>
      rw [hparent, Option.bind_some] at h
      rw [Option.bind_some]
      cases hw : (i.rollback .full F) parent with
      | none => rfl
      | some w =>
          obtain ⟨w', hw', rfl⟩ := Option.map_eq_some_iff.mp hw
          rw [(Option.filter_eq_some_iff.mp hw').1, Option.bind_some,
            Option.map_eq_none_iff] at h
          rw [Option.bind_some, VaultView.proposals_rollback_none h]
          rfl

/-- An execution can be made after the rollback. -/
theorem rollback_execute (hv : i address = some v)
    (hdiscovered : v.discoveredAtBlock.all (fun n ↦ n ≤ e.blockHeight) = true)
    (hconfigs : v.configs.all (fun x ↦ x.1 ≤ e.blockHeight) = true)
    (hheight : isAbove F e.blockHeight = false)
    (hknown : ∀ proposalHash, truthy (asString (e.event.get "proposalHash")) = some proposalHash →
      i.parentKnown v proposalHash e.blockHeight = true ∧
      ∀ p, i.executed v proposalHash = some p → p.row.createdAtBlock ≤ e.blockHeight) :
    (i.execute lib address e v).map (rollback .full F) =
      (i.rollback .full F).execute lib address e (v.rollback F) := by
  have hkept := VaultView.not_isOrphaned hdiscovered hheight
  unfold execute
  cases hhash : truthy (asString (e.event.get "proposalHash")) with
  | none => rfl
  | some proposalHash =>
  obtain ⟨hparent, hcreated⟩ := hknown proposalHash hhash
  unfold parentKnown executed at *
  dsimp only
  cases hlocal : v.proposals proposalHash with
  | some p =>
      rw [hlocal] at hcreated
      rw [VaultView.proposals_rollback hlocal (hcreated p rfl) hheight]
      exact rollback_alter hv hkept (VaultView.commutes_execute hconfigs hheight proposalHash p)
        (VaultView.stays_execute proposalHash p)
  | none =>
  rw [hlocal] at hcreated hparent
  rw [VaultView.proposals_rollback_none hlocal]
  dsimp only
  cases hremote : i.remoteProposal v proposalHash with
  | none => rw [remoteProposal_rollback_none hremote]; rfl
  | some x =>
      obtain ⟨parent, p⟩ := x
      rw [hremote] at hcreated hparent
      rw [remoteProposal_eq] at hremote
      obtain ⟨parent', htruthy, hremote⟩ := Option.bind_eq_some_iff.mp hremote
      obtain ⟨w, hw, hremote⟩ := Option.bind_eq_some_iff.mp hremote
      obtain ⟨p', hp, heq⟩ := Option.map_eq_some_iff.mp hremote
      obtain ⟨rfl, rfl⟩ := Prod.mk.inj heq
      simp only [Option.isSome_none, Bool.false_or, Option.all_some, hw] at hparent
      have hkeptw := VaultView.not_isOrphaned hparent hheight
      have hremote' : (i.rollback .full F).remoteProposal (v.rollback F) proposalHash =
          some (parent', p'.rollback F) := by
        rw [remoteProposal_eq]
        change (truthy v.parent).bind _ = _
        rw [htruthy, Option.bind_some, rollback_at hw hkeptw, Option.bind_some,
          VaultView.proposals_rollback hp (hcreated p' rfl) hheight]
        rfl
      have hmodify := rollback_modify (f := fun v ↦ v.amend proposalHash fun p ↦
        p.markExecuted lib e) hw hkeptw
        (VaultView.rollback_amend (fun _ ↦ rfl) fun p ↦ p.rollback_markExecuted hheight)
        fun _ ↦ rfl
      have hne : address ≠ parent' := by
        rintro rfl
        rw [hv] at hw
        rw [Option.some.inj hw, hp] at hlocal
        cases hlocal
      rw [hremote']
      dsimp only
      have hnonce : (p'.rollback F).row.nonce = p'.row.nonce := rfl
      rw [hnonce, ← hmodify]
      cases p'.row.nonce.bind columnNumber with
      | none => rfl
      | some nonce =>
          have hv' : (i.modify parent' fun v ↦ v.amend proposalHash fun p ↦
              p.markExecuted lib e) address = some v := by
            unfold modify
            rw [Function.update_of_ne hne, hv]
          exact rollback_alter hv' hkept (VaultView.commutes_snapshot _ hconfigs hheight)
            (VaultView.stays_snapshot _ _)

end IndexView

/-- What an event below the fork means can be written after the rollback. -/
theorem Index.rollback_apply {i : Index} {address : String} {setupFallback : Option OnChainState}
    (hv : i.vaults address = some v)
    (hdiscovered : v.discoveredAtBlock.all (fun n ↦ n ≤ e.blockHeight) = true)
    (hconfigs : v.configs.all (fun x ↦ x.1 ≤ e.blockHeight) = true)
    (hadmits : i.admitsEvent address e v = true) (hheight : isAbove F e.blockHeight = false) :
    (i.vaults.apply lib .full address e setupFallback).map (IndexView.rollback .full F) =
      (i.vaults.rollback .full F).apply lib .full address e setupFallback := by
  have hkept := VaultView.not_isOrphaned hdiscovered hheight
  unfold admitsEvent at hadmits
  unfold IndexView.apply
  dsimp only at hadmits
  generalize e.type = type at *
  split
  · exact IndexView.rollback_alter hv hkept (VaultView.commutes_setUp hconfigs hheight)
      VaultView.stays_setUp
  · exact IndexView.rollback_alter hv hkept
      (VaultView.commutes_setUpOwner hconfigs hheight setupFallback)
      (VaultView.stays_setUpOwner setupFallback)
  · cases hhash : truthy (asString (e.event.get "proposalHash")) with
    | none => rfl
    | some proposalHash =>
        simp only [hhash, Option.all_some, Option.isNone_iff_eq_none] at hadmits
        exact congrArg some (IndexView.rollback_modify hv hkept
          (VaultView.rollback_propose hadmits hheight) fun _ ↦ rfl)
  · exact congrArg some (IndexView.rollback_modify hv hkept
      (VaultView.rollback_approveEvent hheight) fun _ ↦ VaultView.discovered_approve)
  · rw [hv, IndexView.rollback_at hv hkept]
    refine IndexView.rollback_execute hv hdiscovered hconfigs hheight fun proposalHash hhash ↦ ?_
    simp only [hhash, Option.all_some, Bool.and_eq_true] at hadmits
    refine ⟨hadmits.2.1, fun p hp ↦ ?_⟩
    have hexecuted := hadmits.2.2
    rw [hp, Option.all_some, Bool.and_eq_true] at hexecuted
    exact of_decide_eq_true hexecuted.1
  · exact IndexView.rollback_alter hv hkept
      (VaultView.commutes_enableChildMultiSig hconfigs hheight)
      VaultView.stays_enableChildMultiSig
  · exact congrArg some (IndexView.rollback_modify hv hkept VaultView.rollback_receive
      fun _ ↦ VaultView.discovered_receive)
  · exact IndexView.rollback_alter hv hkept (VaultView.commutes_changeOwner hconfigs hheight)
      VaultView.stays_changeOwner
  · exact IndexView.rollback_alter hv hkept (VaultView.commutes_changeThreshold hconfigs hheight)
      VaultView.stays_changeThreshold
  · exact IndexView.rollback_alter hv hkept (VaultView.commutes_changeDelegate hconfigs hheight)
      VaultView.stays_changeDelegate
  · rfl

end Below

end MinaGuard
