import MinaGuard.Indexer.Forks

/-!
# What a fork takes back

An event above the fork leaves no trace after the rollback, up to the memo of an execution
and the parent from a setup.
-/

namespace MinaGuard

open Foundations

section Above

variable {E : Env} {lib : Backend E} {e : ChainEvent} {F : ℤ} {v w : VaultView} {s : Bool}

namespace VaultView

/-- The rollback takes the write back, up to what it leaves in place. -/
def Drops (F : ℤ) (s : Bool) (f : VaultView → Option VaultView) (v : VaultView) : Prop :=
  ∀ w, f v = some w → (w.rollback F).core s = (v.rollback F).core s

theorem drops_snapshot {height : ℕ} (changes : ContractConfigChanges)
    (hheight : isAbove F height = true) : Drops F s (fun v ↦ v.snapshot height changes) v := by
  intro w hw
  dsimp only at hw
  rw [snapshot_eq] at hw
  split at hw
  · rw [← Option.some.inj hw]
    congr 1
    unfold rollback
    dsimp only
    rw [List.filter_append, List.filter_cons_of_neg (by simp [hheight]), List.filter_nil,
      List.append_nil]
  · cases hw

theorem drop_record {m : MembershipView} (hheight : isAbove F m.validFromBlock = true) :
    (v.record m).rollback F = v.rollback F := by
  unfold rollback record
  dsimp only
  rw [List.filter_append, List.filter_cons_of_neg (by simp [hheight]), List.filter_nil,
    List.append_nil]

/-- Of the proposal the rollback leaves the same. -/
theorem drop_setProposal {proposalHash : String} {p : Option ProposalView}
    (hp : ((p.filter fun p ↦ !isAbove F p.row.createdAtBlock).map (ProposalView.rollback F)).map
      ProposalView.core = ((v.rollback F).proposals proposalHash).map ProposalView.core) :
    ((v.setProposal proposalHash p).rollback F).core s = (v.rollback F).core s := by
  rw [rollback_setProposal]
  unfold core setProposal
  dsimp only
  congr 1
  funext hash
  rw [Function.update_apply]
  split
  · next heq => rw [heq, hp]
  · rfl

theorem drop_amend {proposalHash : String} {g : ProposalView → ProposalView}
    (hcreated : ∀ p, (g p).row.createdAtBlock = p.row.createdAtBlock)
    (hg : ∀ p, v.proposals proposalHash = some p → isAbove F p.row.createdAtBlock = false →
      ((g p).rollback F).core = (p.rollback F).core) :
    ((v.amend proposalHash g).rollback F).core s = (v.rollback F).core s := by
  refine drop_setProposal ?_
  change _ = (((v.proposals proposalHash).filter fun p ↦ !isAbove F p.row.createdAtBlock).map
    (ProposalView.rollback F)).map ProposalView.core
  cases hp : v.proposals proposalHash with
  | none => rfl
  | some p =>
      rw [Option.map_some, Option.filter_some, Option.filter_some, hcreated]
      cases habove : isAbove F p.row.createdAtBlock with
      | true => rfl
      | false => exact congrArg some (hg p hp habove)

theorem drop_propose {proposalHash : String} (hfresh : v.proposals proposalHash = none)
    (hheight : isAbove F e.blockHeight = true) :
    ((v.propose lib proposalHash e).rollback F).core s = (v.rollback F).core s := by
  refine drop_setProposal ?_
  have hcreated : (ProposalView.start lib proposalHash e).row.createdAtBlock = e.blockHeight := rfl
  rw [hfresh, proposals_rollback_none hfresh]
  dsimp only
  rw [Option.filter_some_neg (by rw [hcreated, hheight]; rfl)]
  rfl

/-- The receivers are of a proposal that is taken back. -/
theorem drop_receive (hheight : isAbove F e.blockHeight = true)
    (hcreated : ∀ proposalHash p,
      truthy (asString (e.event.get "proposalHash")) = some proposalHash →
      v.proposals proposalHash = some p → p.row.createdAtBlock = e.blockHeight) :
    ((v.receive lib e).rollback F).core s = (v.rollback F).core s := by
  unfold receive
  split
  next hhash _ _ =>
    split
    · rfl
    · refine drop_amend (fun p ↦ ?_) fun p hp habove ↦ ?_
      · unfold ProposalView.receive
        dsimp only
        split <;> rfl
      · rw [hcreated _ p hhash hp, hheight] at habove
        cases habove
  · rfl

/-- The owner had not approved before. -/
theorem drop_approve (hheight : isAbove F e.blockHeight = true)
    (hfirst : ∀ proposalHash p approver,
      truthy (asString (e.event.get "proposalHash")) = some proposalHash →
      v.proposals proposalHash = some p →
      truthy (asString (e.event.get "approver")) = some approver → p.approval approver = none) :
    ((v.approve e).rollback F).core s = (v.rollback F).core s := by
  unfold approve
  split
  next hhash happrover =>
    refine drop_amend (fun _ ↦ rfl) fun p hp _ ↦ congrArg ProposalView.core ?_
    unfold ProposalView.approve ProposalView.rollback
    dsimp only
    congr 1
    funext k
    rw [Function.update_apply]
    split
    next heq =>
      rw [heq, hfirst _ p _ hhash hp happrover, Option.filter_some_neg (by simp [hheight])]
      rfl
    · rfl
  · rfl

/-- The proposal was not executed before. -/
theorem drop_markExecuted {p : ProposalView} (hheight : isAbove F e.blockHeight = true)
    (hopen : p.execution = none) :
    ((p.markExecuted lib e).rollback F).core = (p.rollback F).core := by
  unfold ProposalView.markExecuted ProposalView.rollback ProposalView.core
  dsimp only
  rw [hopen, Option.filter_some_neg (by simp [hheight])]
  rfl

theorem Drops.comp {f : VaultView → VaultView} {g : VaultView → Option VaultView}
    (hg : Drops F s g (f v)) (hf : ((f v).rollback F).core s = (v.rollback F).core s) :
    Drops F s (fun v ↦ g (f v)) v := fun w hw ↦ (hg w hw).trans hf

variable (hheight : isAbove F e.blockHeight = true)

include hheight

/-- The parent from the setup stays, but then the vault is not set up. -/
theorem drops_setUp : Drops F false (fun v ↦ v.setUp lib e) v := by
  let parent := asString (e.event.get "parent")
  exact Drops.comp
    (f := fun v ↦ { v with parent :=
      if parent = none ∨ parent = some (emptyPublicKey lib) then none else parent })
    (drops_snapshot _ hheight) rfl

theorem drops_setUpOwner (setupFallback : Option OnChainState) :
    Drops F s (fun v ↦ v.setUpOwner lib e setupFallback) v := by
  have hrecord {m : MembershipView} (hm : m.validFromBlock = e.blockHeight) :
      ((v.record m).rollback F).core s = (v.rollback F).core s :=
    congrArg (core s) (drop_record (hm ▸ hheight))
  intro w hw
  unfold setUpOwner at hw
  dsimp only at hw
  split at hw
  · rw [Option.some.inj hw]
  split at hw
  · rw [Option.some.inj hw]
  split at hw
  · split at hw
    · rw [← Option.some.inj hw]
      exact hrecord rfl
    · cases setupFallback with
      | none =>
          rw [← Option.some.inj hw]
          exact hrecord rfl
      | some state =>
          exact (drops_snapshot _ hheight w hw).trans (hrecord rfl)
  · cases hw

theorem drops_execute {proposalHash : String} {p : ProposalView}
    (hopen : ∀ p, v.proposals proposalHash = some p → p.execution = none) :
    Drops F s (fun v ↦ v.execute lib proposalHash p e) v := by
  have hamend : ((v.amend proposalHash fun p ↦ p.markExecuted lib e).rollback F).core s =
      (v.rollback F).core s :=
    drop_amend (fun _ ↦ rfl) fun p hp _ ↦ drop_markExecuted hheight (hopen p hp)
  intro w hw
  unfold execute at hw
  dsimp only at hw
  split at hw
  · exact (drops_snapshot _ hheight w hw).trans hamend
  · rw [← Option.some.inj hw]
    exact hamend

theorem drops_changeOwner : Drops F s (fun v ↦ v.changeOwner e) v := by
  have hrecord {m : MembershipView} (hm : m.validFromBlock = e.blockHeight) :
      ((v.record m).rollback F).core s = (v.rollback F).core s :=
    congrArg (core s) (drop_record (hm ▸ hheight))
  intro w hw
  unfold changeOwner at hw
  dsimp only at hw
  split at hw
  · rw [Option.some.inj hw]
  split at hw
  · rw [← Option.some.inj hw]
    exact hrecord rfl
  · exact (drops_snapshot _ hheight w hw).trans (hrecord rfl)

theorem drops_changeThreshold : Drops F s (fun v ↦ v.changeThreshold e) v := by
  intro w hw
  unfold changeThreshold at hw
  dsimp only at hw
  split at hw
  · rw [Option.some.inj hw]
  · exact drops_snapshot _ hheight w hw

theorem drops_changeDelegate : Drops F s (fun v ↦ v.changeDelegate e) v := by
  intro w hw
  unfold changeDelegate at hw
  dsimp only at hw
  split at hw
  · rw [Option.some.inj hw]
  · exact drops_snapshot _ hheight w hw

theorem drops_enableChildMultiSig : Drops F s (fun v ↦ v.enableChildMultiSig e) v := by
  intro w hw
  unfold enableChildMultiSig at hw
  dsimp only at hw
  split at hw
  · rw [Option.some.inj hw]
  · exact drops_snapshot _ hheight w hw

end VaultView

namespace IndexView

variable {i i' : IndexView} {address : String} {s : String → Bool}

theorem drop_update (hv : i address = some v)
    (hw : (w.rollback F).core (s address) = (v.rollback F).core (s address)) :
    core s (rollback .full F (Function.update i address (some w))) =
      core s (i.rollback .full F) := by
  have hdiscovered : w.discoveredAtBlock = v.discoveredAtBlock :=
    (VaultView.mk.injEq .. ▸ hw).2.1
  funext a
  unfold core rollback
  by_cases ha : a = address
  · rw [ha, Function.update_self, hv, Option.filter_some, Option.filter_some]
    have horphaned : w.isOrphaned F .full = v.isOrphaned F .full := by
      unfold VaultView.isOrphaned
      rw [hdiscovered]
    rw [horphaned]
    split
    · exact congrArg some hw
    · rfl
  · rw [Function.update_of_ne ha]

theorem drop_alter {f : VaultView → Option VaultView}
    (hf : ∀ v, i address = some v → VaultView.Drops F (s address) f v)
    (h : i.alter address f = some i') :
    core s (i'.rollback .full F) = core s (i.rollback .full F) := by
  unfold alter at h
  obtain ⟨w, hw, rfl⟩ := Option.map_eq_some_iff.mp h
  obtain ⟨v, hv, hfv⟩ := Option.bind_eq_some_iff.mp hw
  exact drop_update hv (hf v hv w hfv)

theorem drop_modify {f : VaultView → VaultView}
    (hf : ∀ v, i address = some v →
      ((f v).rollback F).core (s address) = (v.rollback F).core (s address)) :
    core s ((i.modify address f).rollback .full F) = core s (i.rollback .full F) := by
  unfold modify
  cases hv : i address with
  | none => rw [Option.map_none, ← hv, Function.update_eq_self]
  | some v => exact drop_update hv (hf v hv)

theorem drop_execute (hv : i address = some v) (hheight : isAbove F e.blockHeight = true)
    (hopen : ∀ proposalHash p,
      truthy (asString (e.event.get "proposalHash")) = some proposalHash →
      i.executed v proposalHash = some p → p.execution = none)
    (h : i.execute lib address e v = some i') :
    core s (i'.rollback .full F) = core s (i.rollback .full F) := by
  unfold execute at h
  split at h
  · rw [Option.some.inj h]
  next proposalHash hhash =>
  have hopen := fun p ↦ hopen proposalHash p hhash
  unfold executed at hopen
  split at h
  next p hlocal =>
    refine drop_alter (fun w hw ↦ VaultView.drops_execute hheight fun p hp ↦ ?_) h
    rw [hv] at hw
    rw [← Option.some.inj hw] at hp
    rw [hp] at hopen
    exact hopen p rfl
  next hlocal =>
  rw [hlocal] at hopen
  split at h
  · rw [Option.some.inj h]
  next parent p hremote =>
    rw [hremote] at hopen
    rw [remoteProposal_eq] at hremote
    obtain ⟨parent', -, hremote⟩ := Option.bind_eq_some_iff.mp hremote
    obtain ⟨w, hw, hremote⟩ := Option.bind_eq_some_iff.mp hremote
    obtain ⟨p', hp, heq⟩ := Option.map_eq_some_iff.mp hremote
    obtain ⟨rfl, rfl⟩ := Prod.mk.inj heq
    have hmodify : core s (rollback .full F (i.modify parent' fun v ↦
        v.amend proposalHash fun p ↦ p.markExecuted lib e)) = core s (i.rollback .full F) := by
      refine drop_modify fun w' hw' ↦ VaultView.drop_amend (fun _ ↦ rfl) fun p hp' _ ↦
        VaultView.drop_markExecuted hheight ?_
      rw [hw] at hw'
      rw [← Option.some.inj hw', hp] at hp'
      exact Option.some.inj hp' ▸ hopen p' rfl
    dsimp only at h
    split at h
    · exact (drop_alter (fun _ _ ↦ VaultView.drops_snapshot _ hheight) h).trans hmodify
    · rw [← Option.some.inj h]
      exact hmodify

end IndexView

/-- What an event above the fork means is taken back. -/
theorem Index.drop_apply {i : Index} {vaults : IndexView} {address : String}
    {setupFallback : Option OnChainState} {s : String → Bool} (hv : i.vaults address = some v)
    (hadmits : i.admitsEvent address e v = true) (hheight : isAbove F e.blockHeight = true)
    (hsetup : e.type = "setup" → s address = false)
    (h : i.vaults.apply lib .full address e setupFallback = some vaults) :
    (vaults.rollback .full F).core s = (i.vaults.rollback .full F).core s := by
  unfold admitsEvent at hadmits
  unfold IndexView.apply at h
  dsimp only at hadmits
  have hhere {w : VaultView} (hw : i.vaults address = some w) : w = v :=
    Option.some.inj (hw.symm.trans hv)
  generalize e.type = type at *
  split at h
  · refine IndexView.drop_alter (fun w _ ↦ ?_) h
    rw [hsetup rfl]
    exact VaultView.drops_setUp hheight
  · exact IndexView.drop_alter (fun _ _ ↦ VaultView.drops_setUpOwner hheight setupFallback) h
  · split at h
    · rw [Option.some.inj h]
    next proposalHash hhash =>
      rw [← Option.some.inj h]
      refine IndexView.drop_modify fun w hw ↦ VaultView.drop_propose ?_ hheight
      simpa [hhash, hhere hw] using hadmits
  · rw [← Option.some.inj h]
    refine IndexView.drop_modify fun w hw ↦
      VaultView.drop_approve hheight fun proposalHash p approver hhash hp happrover ↦ ?_
    rw [hhere hw] at hp
    simpa [hhash, hp, happrover] using hadmits
  · rw [hv, Option.bind_some] at h
    refine IndexView.drop_execute hv hheight (fun proposalHash p hhash hp ↦ ?_) h
    simp only [hhash, Option.all_some, Bool.and_eq_true, hp] at hadmits
    exact Option.isNone_iff_eq_none.mp hadmits.2.2.2
  · exact IndexView.drop_alter (fun _ _ ↦ VaultView.drops_enableChildMultiSig hheight) h
  · rw [← Option.some.inj h]
    refine IndexView.drop_modify fun w hw ↦
      VaultView.drop_receive hheight fun proposalHash p hhash hp ↦ ?_
    rw [hhere hw] at hp
    simpa [hhash, hp] using hadmits
  · exact IndexView.drop_alter (fun _ _ ↦ VaultView.drops_changeOwner hheight) h
  · exact IndexView.drop_alter (fun _ _ ↦ VaultView.drops_changeThreshold hheight) h
  · exact IndexView.drop_alter (fun _ _ ↦ VaultView.drops_changeDelegate hheight) h
  · rw [Option.some.inj h]

end Above

end MinaGuard
