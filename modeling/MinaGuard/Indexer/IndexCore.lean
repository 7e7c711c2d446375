import MinaGuard.Indexer.EventIndex

/-!
# The core of an index

A rollback leaves two things in place: the memo of an execution that is taken back, and the
parent of a vault whose setup is taken back.  Without them an index is in its core, and what
happens next changes the core by itself.
-/

namespace MinaGuard

open Foundations

/-- Without the memo of an execution that is not known. -/
def ProposalView.core (p : ProposalView) : ProposalView :=
  { p with row := { p.row with
      executionMemoHash := if p.execution.isSome then p.row.executionMemoHash else none } }

/-- Without the parent, unless the vault is set up. -/
def VaultView.core (isSetUp : Bool) (v : VaultView) : VaultView :=
  { v with
    parent := if isSetUp then v.parent else none
    proposals := fun proposalHash ↦ (v.proposals proposalHash).map ProposalView.core }

def IndexView.core (isSetUp : String → Bool) (i : IndexView) : IndexView :=
  fun address ↦ (i address).map (VaultView.core (isSetUp address))

namespace Index

/-- The setup of the vault was applied. -/
def isSetUp (i : Index) (address : String) : Bool :=
  i.log.any fun x ↦ x.vault = some address ∧ x.eventType = "setup" ∧ x.applyError = none

def core (i : Index) : Index := { i with vaults := i.vaults.core i.isSetUp }

end Index

section Proposals

variable {E : Env} (lib : Backend E) (e : ChainEvent) (p : ProposalView)

@[simp] theorem ProposalView.core_core : p.core.core = p.core := by
  unfold core
  dsimp only
  congr 2
  split <;> rfl

/-- The write makes the same of the core. -/
def ProposalView.Respects (f : ProposalView → ProposalView) : Prop :=
  ∀ p : ProposalView, (f p).core = (f p.core).core

theorem ProposalView.respects_describe : Respects fun p ↦ p.describe lib e := fun p ↦ by
  unfold core describe
  dsimp only
  congr 2
  cases p.execution.isSome <;> rfl

theorem ProposalView.respects_receive (address amount : String) :
    Respects fun p ↦ p.receive address amount := fun p ↦ by
  unfold core receive
  dsimp only
  split <;> (congr 2; cases p.execution.isSome <;> rfl)

theorem ProposalView.respects_approve (approver : String) (approvalRaw : Option String)
    (height : ℕ) : Respects fun p ↦ p.approve approver approvalRaw height := fun p ↦ by
  unfold core approve
  dsimp only
  congr 2
  cases p.execution.isSome <;> rfl

theorem ProposalView.respects_markExecuted : Respects fun p ↦ p.markExecuted lib e :=
  fun _ ↦ rfl

theorem ProposalView.respects_rollback (forkHeight : ℤ) :
    Respects (rollback forkHeight) := fun p ↦ by
  unfold core rollback
  dsimp only
  congr 2
  cases p.execution with
  | none => rfl
  | some x => rfl

end Proposals

namespace VaultView

variable {E : Env} (lib : Backend E) (e : ChainEvent) {s s' : Bool} {v : VaultView}

theorem map_core_core (o : Option ProposalView) :
    (o.map ProposalView.core).map ProposalView.core = o.map ProposalView.core := by
  rw [Option.map_map]
  congr 1
  exact funext ProposalView.core_core

@[simp] theorem core_core : (v.core s).core s = v.core s := by
  unfold core
  dsimp only
  congr 1
  · cases s <;> rfl
  · exact funext fun proposalHash ↦ map_core_core _

/-- The write makes the same of the core; a setup may set the vault up. -/
def Respects (s s' : Bool) (f : VaultView → Option VaultView) : Prop :=
  ∀ v : VaultView, (f v).map (core s') = (f (v.core s)).map (core s')

theorem respects_snapshot (height : ℕ) (changes : ContractConfigChanges) :
    Respects s s fun v ↦ v.snapshot height changes := fun v ↦ by
  have hconfig : (v.core s).config = v.config := rfl
  have hcore := core_core (s := s) (v := v)
  unfold core at hcore
  rw [VaultView.mk.injEq] at hcore
  dsimp only
  rw [snapshot_eq, snapshot_eq, hconfig]
  split
  · refine congrArg some ?_
    unfold core
    rw [VaultView.mk.injEq]
    exact ⟨hcore.1.symm, rfl, rfl, rfl, hcore.2.2.2.2.symm⟩
  · rfl

/-- A write before that respects the core. -/
theorem Respects.comp {f : VaultView → VaultView} {g : VaultView → Option VaultView}
    (hg : Respects s s' g) (hf : ∀ v, (f v).core s = (f (v.core s)).core s) :
    Respects s s' fun v ↦ g (f v) := fun v ↦ by
  dsimp only
  rw [hg (f v), hf, ← hg]

theorem core_record (v : VaultView) (m : MembershipView) :
    (v.record m).core s = ((v.core s).record m).core s := by
  have hcore := core_core (s := s) (v := v)
  unfold core at hcore
  rw [VaultView.mk.injEq] at hcore
  unfold core record
  rw [VaultView.mk.injEq]
  exact ⟨hcore.1.symm, rfl, rfl, rfl, hcore.2.2.2.2.symm⟩

theorem core_setProposal (v : VaultView) {proposalHash : String} {p p' : Option ProposalView}
    (hp : p.map ProposalView.core = p'.map ProposalView.core) :
    (v.setProposal proposalHash p).core s = ((v.core s).setProposal proposalHash p').core s := by
  have hcore := core_core (s := s) (v := v)
  unfold core at hcore
  rw [VaultView.mk.injEq] at hcore
  unfold core setProposal
  rw [VaultView.mk.injEq]
  refine ⟨hcore.1.symm, rfl, rfl, rfl, funext fun hash ↦ ?_⟩
  dsimp only
  rw [Function.update_apply, Function.update_apply]
  split
  · exact hp
  · exact (map_core_core _).symm

theorem core_amend (v : VaultView) (proposalHash : String) {g : ProposalView → ProposalView}
    (hg : ProposalView.Respects g) :
    (v.amend proposalHash g).core s = ((v.core s).amend proposalHash g).core s := by
  unfold amend
  refine core_setProposal v ?_
  change _ = (((v.proposals proposalHash).map ProposalView.core).map g).map ProposalView.core
  rw [Option.map_map, Option.map_map, Option.map_map]
  congr 1
  exact funext hg

theorem core_propose (v : VaultView) (proposalHash : String) :
    (v.propose lib proposalHash e).core s = ((v.core s).propose lib proposalHash e).core s := by
  unfold propose
  refine core_setProposal v ?_
  have hcore : (v.core s).proposals proposalHash =
      (v.proposals proposalHash).map ProposalView.core := rfl
  rw [hcore]
  cases v.proposals proposalHash with
  | none => rfl
  | some p => exact congrArg some (ProposalView.respects_describe lib e p)

theorem core_receive (v : VaultView) :
    (v.receive lib e).core s = ((v.core s).receive lib e).core s := by
  unfold receive
  split
  · split
    · exact core_core.symm
    · exact core_amend v _ (ProposalView.respects_receive _ _)
  · exact core_core.symm

theorem core_approve (v : VaultView) :
    (v.approve e).core s = ((v.core s).approve e).core s := by
  unfold approve
  split
  · exact core_amend v _ (ProposalView.respects_approve _ _ _)
  · exact core_core.symm

/-- Nothing is written. -/
theorem respects_id : Respects s s some := fun _ ↦ congrArg some core_core.symm

theorem respects_setUp : Respects s true fun v ↦ v.setUp lib e := fun v ↦ by
  unfold setUp
  dsimp only
  rw [respects_snapshot]
  refine Eq.trans ?_ (respects_snapshot e.blockHeight _ _).symm
  congr 2
  unfold core
  rw [VaultView.mk.injEq]
  exact ⟨rfl, rfl, rfl, rfl, funext fun hash ↦ (map_core_core _).symm⟩

theorem respects_setUpOwner (setupFallback : Option OnChainState) :
    Respects s s fun v ↦ v.setUpOwner lib e setupFallback := fun v ↦ by
  unfold setUpOwner
  dsimp only
  split
  · exact respects_id v
  split
  · exact respects_id v
  split
  · have hconfig (m : MembershipView) : ((v.core s).record m).config = (v.record m).config := rfl
    rw [hconfig]
    split
    · exact congrArg some (core_record v _)
    · cases setupFallback with
      | none => exact congrArg some (core_record v _)
      | some state => exact (respects_snapshot _ _).comp (fun v ↦ core_record v _) v
  · rfl

theorem respects_execute (proposalHash : String) (p : ProposalView) :
    Respects s s fun v ↦ v.execute lib proposalHash p e := fun v ↦ by
  unfold execute
  dsimp only
  split
  · exact (respects_snapshot _ _).comp
      (fun v ↦ core_amend v _ (ProposalView.respects_markExecuted lib e)) v
  · exact congrArg some (core_amend v _ (ProposalView.respects_markExecuted lib e))

theorem respects_changeOwner : Respects s s fun v ↦ v.changeOwner e := fun v ↦ by
  unfold changeOwner
  dsimp only
  split
  · exact respects_id v
  split
  · exact congrArg some (core_record v _)
  · exact (respects_snapshot _ _).comp (fun v ↦ core_record v _) v

theorem respects_changeThreshold : Respects s s fun v ↦ v.changeThreshold e := fun v ↦ by
  unfold changeThreshold
  dsimp only
  split
  · exact respects_id v
  · exact respects_snapshot _ _ v

theorem respects_changeDelegate : Respects s s fun v ↦ v.changeDelegate e := fun v ↦ by
  unfold changeDelegate
  dsimp only
  split
  · exact respects_id v
  · exact respects_snapshot _ _ v

theorem respects_enableChildMultiSig : Respects s s fun v ↦ v.enableChildMultiSig e := fun v ↦ by
  unfold enableChildMultiSig
  dsimp only
  split
  · exact respects_id v
  · exact respects_snapshot _ _ v

/-- A rollback may take the setup back. -/
theorem core_rollback (forkHeight : ℤ) (hs : s' = true → s = true) (v : VaultView) :
    (v.rollback forkHeight).core s' = ((v.core s).rollback forkHeight).core s' := by
  unfold core rollback
  rw [VaultView.mk.injEq]
  refine ⟨?_, rfl, rfl, rfl, funext fun hash ↦ ?_⟩
  · cases s' with
    | false => rfl
    | true => rw [hs rfl]; rfl
  · dsimp only
    rw [Option.filter_map, Option.map_map, Option.map_map, Option.map_map]
    congr 1
    exact funext (ProposalView.respects_rollback forkHeight)

end VaultView

/-! ## Indexes of vaults -/

namespace IndexView

variable {E : Env} (lib : Backend E) (e : ChainEvent) {s s' : String → Bool} {i : IndexView}
  {address : String}

@[simp] theorem core_core : (i.core s).core s = i.core s := by
  funext a
  unfold core
  rw [Option.map_map]
  congr 1
  exact funext fun v ↦ VaultView.core_core

/-- What is known of one vault is replaced. -/
theorem core_update (i : IndexView) (hother : ∀ a, a ≠ address → s' a = s a)
    {v w : Option VaultView}
    (hvw : v.map (VaultView.core (s' address)) = w.map (VaultView.core (s' address))) :
    core s' (Function.update i address v) = core s' (Function.update (i.core s) address w) := by
  funext a
  unfold core
  by_cases ha : a = address
  · rw [ha, Function.update_self, Function.update_self, hvw]
  · rw [Function.update_of_ne ha, Function.update_of_ne ha, hother a ha]
    exact (congrFun (core_core (s := s) (i := i)) a).symm

theorem core_alter (i : IndexView) (hother : ∀ a, a ≠ address → s' a = s a)
    {f : VaultView → Option VaultView} (hf : VaultView.Respects (s address) (s' address) f) :
    (i.alter address f).map (core s') = ((i.core s).alter address f).map (core s') := by
  have hcore : (i.core s) address = (i address).map (VaultView.core (s address)) := rfl
  unfold alter
  rw [hcore]
  cases i address with
  | none => rfl
  | some v =>
      have hv := hf v
      rw [Option.bind_some, Option.map_some, Option.bind_some, Option.map_map, Option.map_map]
      cases h : f v with
      | none =>
          rw [h] at hv
          rw [Option.map_eq_none_iff.mp hv.symm]
          rfl
      | some w =>
          rw [h] at hv
          obtain ⟨w', hw', hsame⟩ := Option.map_eq_some_iff.mp hv.symm
          rw [hw', Option.map_some, Option.map_some]
          exact congrArg some (core_update i hother (congrArg some hsame.symm))

theorem core_modify (i : IndexView) {f : VaultView → VaultView}
    (hf : ∀ v, (f v).core (s address) = (f (v.core (s address))).core (s address)) :
    (i.modify address f).core s = ((i.core s).modify address f).core s := by
  have hcore : (i.core s) address = (i address).map (VaultView.core (s address)) := rfl
  unfold modify
  refine core_update i (fun _ _ ↦ rfl) ?_
  rw [hcore]
  cases i address with
  | none => rfl
  | some v => exact congrArg some (hf v)

theorem core_subscribeChild (mode : IndexerMode) (i : IndexView) :
    (i.subscribeChild lib mode address e).core s =
      ((i.core s).subscribeChild lib mode address e).core s := by
  unfold subscribeChild
  split
  · cases asNullableAddress lib (asString (e.event.get "childAccount")) with
    | none => exact core_core.symm
    | some child =>
        have hcore : (i.core s) child = (i child).map (VaultView.core (s child)) := rfl
        dsimp only
        rw [hcore]
        cases i child with
        | none => exact core_update i (fun _ _ ↦ rfl) rfl
        | some v => exact core_core.symm
  · exact core_core.symm

/-- The parent of a vault that is set up is in the core, and so are its proposals. -/
theorem remoteProposal_core (v : VaultView) (proposalHash : String) :
    (i.core s).remoteProposal (v.core true) proposalHash =
      (i.remoteProposal v proposalHash).map fun x ↦ (x.1, x.2.core) := by
  change ((truthy v.parent).bind fun parent ↦ ((i parent).map (VaultView.core (s parent))).bind
      fun w ↦ (w.proposals proposalHash).bind fun p ↦ some (parent, p)) =
    ((truthy v.parent).bind fun parent ↦ (i parent).bind fun w ↦
      (w.proposals proposalHash).bind fun p ↦ some (parent, p)).map _
  cases truthy v.parent with
  | none => rfl
  | some parent =>
      rw [Option.bind_some, Option.bind_some]
      cases i parent with
      | none => rfl
      | some w =>
          rw [Option.map_some, Option.bind_some, Option.bind_some]
          change ((w.proposals proposalHash).map ProposalView.core).bind _ = _
          cases w.proposals proposalHash <;> rfl

theorem core_execute (i : IndexView) {v : VaultView} :
    (i.execute lib address e v).map (core s) =
      ((i.core s).execute lib address e (v.core true)).map (core s) := by
  have hsame : some (i.core s) = some ((i.core s).core s) := congrArg some core_core.symm
  unfold execute
  split
  · exact hsame
  next proposalHash _ =>
    have hproposal : (v.core true).proposals proposalHash =
        (v.proposals proposalHash).map ProposalView.core := rfl
    rw [hproposal]
    cases v.proposals proposalHash with
    | some p =>
        exact core_alter i (fun _ _ ↦ rfl) (VaultView.respects_execute lib e proposalHash p)
    | none =>
        rw [Option.map_none, remoteProposal_core]
        dsimp only
        cases i.remoteProposal v proposalHash with
        | none => exact hsame
        | some x =>
            obtain ⟨parent, p⟩ := x
            have hmodify : core s (i.modify parent fun v ↦ v.amend proposalHash fun p ↦
                p.markExecuted lib e) = core s ((i.core s).modify parent fun v ↦
                  v.amend proposalHash fun p ↦ p.markExecuted lib e) :=
              core_modify i fun v ↦
                VaultView.core_amend v proposalHash (ProposalView.respects_markExecuted lib e)
            have hnonce : p.core.row.nonce = p.row.nonce := rfl
            rw [Option.map_some]
            dsimp only
            rw [hnonce]
            cases p.row.nonce.bind columnNumber with
            | none => exact congrArg some hmodify
            | some nonce =>
                have hsnapshot := VaultView.respects_snapshot (s := s address) e.blockHeight
                  { parentNonce := some nonce }
                dsimp only
                rw [core_alter _ (fun _ _ ↦ rfl) hsnapshot, hmodify,
                  ← core_alter _ (fun _ _ ↦ rfl) hsnapshot]

/-- What an event means for the core; an execution needs the vault to be set up. -/
theorem core_apply (mode : IndexerMode) (i : IndexView) (setupFallback : Option OnChainState)
    (hexecution : e.type = "execution" → s address = true)
    (hother : ∀ a, a ≠ address → s' a = s a) (hsetup : e.type = "setup" → s' address = true)
    (hplain : e.type ≠ "setup" → s' address = s address) :
    (i.apply lib mode address e setupFallback).map (core s') =
      ((i.core s).apply lib mode address e setupFallback).map (core s') := by
  have hsame (hne : e.type ≠ "setup") : s' = s := by
    funext a
    by_cases ha : a = address
    · rw [ha, hplain hne]
    · exact hother a ha
  have hcore : some (i.core s) = some ((i.core s).core s) := congrArg some core_core.symm
  unfold apply
  generalize e.type = type at *
  split
  · refine core_alter i hother ?_
    rw [hsetup rfl]
    exact VaultView.respects_setUp lib e
  · obtain rfl := hsame (by decide)
    exact core_alter i hother (VaultView.respects_setUpOwner lib e setupFallback)
  · obtain rfl := hsame (by decide)
    split
    · exact hcore
    next proposalHash _ =>
      refine congrArg some ?_
      rw [core_subscribeChild, core_modify i fun v ↦ VaultView.core_propose lib e v proposalHash,
        ← core_subscribeChild]
  · obtain rfl := hsame (by decide)
    exact congrArg some (core_modify i fun v ↦ VaultView.core_approve e v)
  · obtain rfl := hsame (by decide)
    have haddress : (i.core s') address = (i address).map (VaultView.core true) := by
      rw [← hexecution rfl]
      rfl
    rw [haddress]
    cases i address with
    | none => rfl
    | some v => exact core_execute lib e i
  · obtain rfl := hsame (by decide)
    exact core_alter i hother (VaultView.respects_enableChildMultiSig e)
  · obtain rfl := hsame (by decide)
    exact congrArg some (core_modify i fun v ↦ VaultView.core_receive lib e v)
  · obtain rfl := hsame (by decide)
    exact core_alter i hother (VaultView.respects_changeOwner e)
  · obtain rfl := hsame (by decide)
    exact core_alter i hother (VaultView.respects_changeThreshold e)
  · obtain rfl := hsame (by decide)
    exact core_alter i hother (VaultView.respects_changeDelegate e)
  next hne _ _ _ _ _ _ _ _ _ =>
    obtain rfl := hsame hne
    exact hcore

end IndexView

namespace Index

variable {E : Env} {lib : Backend E} {mode : IndexerMode} {i j : Index} {a : IndexAction}

/-- Two indexes have the same core. -/
theorem core_ext (hheaders : i.headers = j.headers) (hlog : i.log = j.log)
    (hvaults : i.vaults.core i.isSetUp = j.vaults.core i.isSetUp) : i.core = j.core := by
  have hsetup : j.isSetUp = i.isSetUp := by
    unfold isSetUp
    rw [hlog]
  unfold core
  rw [hheaders, hlog, hvaults, hsetup]

@[simp] theorem core_core : i.core.core = i.core :=
  core_ext rfl rfl IndexView.core_core

theorem isSetUp_record (address : String) (e : ChainEvent) (fingerprint : String)
    (applyError : Option String) (b : String) :
    (i.record address e fingerprint applyError).isSetUp b =
      (i.isSetUp b || decide (address = b ∧ e.type = "setup" ∧ applyError = none)) := by
  unfold isSetUp record
  simp only [List.any_append, List.any_cons, List.any_nil, Bool.or_false, Option.some.injEq]

/-- An execution comes after the setup of its vault. -/
def Safe (i : Index) : IndexAction → Prop
  | .ingest address _ e => i.isRecorded (fingerprintEvent address e) = false →
      e.decodeError = none → e.type = "execution" → i.isSetUp address = true
  | _ => True

theorem core_record (address : String) (e : ChainEvent) (fingerprint : String)
    (message : String) :
    (i.record address e fingerprint (some message)).core =
      (i.core.record address e fingerprint (some message)).core := by
  refine core_ext rfl rfl ?_
  have hsetup : (i.record address e fingerprint (some message)).isSetUp = i.isSetUp := by
    funext b
    rw [isSetUp_record]
    simp
  rw [hsetup]
  exact IndexView.core_core.symm

theorem core_ingest (address : String) (setupFallback : Option OnChainState) (e : ChainEvent)
    (hsafe : i.Safe (.ingest address setupFallback e)) :
    (i.ingest lib mode address setupFallback e).core =
      (i.core.ingest lib mode address setupFallback e).core := by
  have hrecorded : i.core.isRecorded (fingerprintEvent address e) =
      i.isRecorded (fingerprintEvent address e) := rfl
  unfold Safe at hsafe
  unfold ingest
  dsimp only
  rw [hrecorded]
  cases hnew : i.isRecorded (fingerprintEvent address e) with
  | true => exact core_core.symm
  | false =>
  simp only [Bool.false_eq_true, if_false]
  cases hdecode : e.decodeError with
  | some message => exact core_record ..
  | none =>
      let s' : String → Bool := (i.record address e (fingerprintEvent address e) none).isSetUp
      have hs' (b : String) : s' b = (i.isSetUp b || decide (address = b ∧ e.type = "setup")) := by
        refine (isSetUp_record ..).trans ?_
        simp
      have happly : (i.vaults.apply lib mode address e setupFallback).map (IndexView.core s') =
          ((i.vaults.core i.isSetUp).apply lib mode address e setupFallback).map
            (IndexView.core s') :=
        IndexView.core_apply lib e mode i.vaults setupFallback (hsafe hnew hdecode)
          (fun b hb ↦ by simp [hs', hb.symm]) (fun htype ↦ by simp [hs', htype])
          fun htype ↦ by simp [hs', htype]
      have hcore : i.core.vaults = i.vaults.core i.isSetUp := rfl
      dsimp only
      rw [hcore]
      cases h : i.vaults.apply lib mode address e setupFallback with
      | none =>
          rw [h] at happly
          rw [Option.map_eq_none_iff.mp happly.symm]
          exact core_record ..
      | some vaults =>
          rw [h] at happly
          obtain ⟨vaults', h', hsame⟩ := Option.map_eq_some_iff.mp happly.symm
          rw [h']
          exact core_ext rfl rfl hsame.symm

theorem core_track (address : String) (discoveredAtBlock : Option ℕ) :
    (i.track address discoveredAtBlock).core = (i.core.track address discoveredAtBlock).core := by
  have hcore : i.core.vaults address =
      (i.vaults address).map (VaultView.core (i.isSetUp address)) := rfl
  unfold track
  rw [hcore]
  cases i.vaults address with
  | none => exact core_ext rfl rfl (IndexView.core_update i.vaults (fun _ _ ↦ rfl) rfl)
  | some v => exact core_core.symm

theorem core_untrack (address : String) :
    (i.untrack address).core = (i.core.untrack address).core := by
  refine core_ext rfl rfl (IndexView.core_update i.vaults (fun b hb ↦ ?_) rfl)
  change (i.log.filter _).any _ = i.log.any _
  rw [List.any_filter]
  refine List.any_congr rfl fun x ↦ ?_
  by_cases hx : x.vault = some b
  · simp [hx, hb]
  · simp [hx]

/-- The vault of an entry that is kept was the vault of the entry. -/
theorem isSetUp_of_rollback {forkHeight : ℤ} {b : String}
    (h : (i.rollback mode forkHeight).isSetUp b = true) : i.isSetUp b = true := by
  obtain ⟨x, hx, hsetup⟩ := List.any_eq_true.mp h
  obtain ⟨y, hy, rfl⟩ := List.mem_map.mp hx
  obtain ⟨hvault, htype⟩ := of_decide_eq_true hsetup
  refine List.any_eq_true.mpr ⟨y, List.mem_of_mem_filter hy, decide_eq_true ⟨?_, htype⟩⟩
  exact (Option.filter_eq_some_iff.mp hvault).1

theorem core_rollback (forkHeight : ℤ) :
    (i.rollback mode forkHeight).core = (i.core.rollback mode forkHeight).core := by
  have hkept : i.core.isKept mode forkHeight = i.isKept mode forkHeight := by
    funext b
    unfold isKept
    change ((i.vaults b).map _).any _ = _
    rw [Option.any_map]
    rfl
  refine core_ext rfl ?_ ?_
  · unfold rollback
    dsimp only
    rw [hkept]
    rfl
  · funext b
    change (((i.vaults b).filter _).map _).map _ =
      ((((i.vaults b).map _).filter _).map _).map _
    rw [Option.filter_map, Option.map_map, Option.map_map, Option.map_map]
    congr 1
    funext v
    exact VaultView.core_rollback forkHeight (fun hb ↦ isSetUp_of_rollback hb) v

/-- What happens next changes the core by itself. -/
theorem core_next (hsafe : i.Safe a) :
    (i.next lib mode a).core = (i.core.next lib mode a).core := by
  cases a with
  | track address discoveredAtBlock => exact core_track address discoveredAtBlock
  | untrack address => exact core_untrack address
  | ingest address setupFallback e => exact core_ingest address setupFallback e hsafe
  | rollback forkHeight => exact core_rollback forkHeight
  | note => exact core_core.symm

end Index

end MinaGuard
