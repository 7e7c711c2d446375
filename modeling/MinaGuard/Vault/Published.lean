import MinaGuard.Contract.Effects
import MinaGuard.Vault.History

/-!
# What the events of a guard tell

Every leaf the vault's maps ever had was published, with the roots after the
write.  So the published events determine the maps: a leaf of the approval map
is the largest value published for its hash, and the other two maps are the
sets of votes and of REMOTE executions published.
-/

namespace MinaGuard

open Foundations

/-- The types whose executions write `childExecutionRoot`, or no map at all. -/
def isRemoteExecutionType (txType : Fp) : Prop :=
  txType = TxType.createChild ∨ txType = TxType.reclaimChild ∨
    txType = TxType.destroyChild ∨ txType = TxType.enableChildMultiSig

def isChildMarkingType (txType : Fp) : Prop :=
  txType = TxType.reclaimChild ∨ txType = TxType.destroyChild ∨
    txType = TxType.enableChildMultiSig

instance (txType : Fp) : Decidable (isRemoteExecutionType txType) :=
  inferInstanceAs (Decidable (_ ∨ _))

instance (txType : Fp) : Decidable (isChildMarkingType txType) :=
  inferInstanceAs (Decidable (_ ∨ _))

namespace Event

/-- The approval leaf the event reports. -/
def leaf? : Event → Option (Fp × Fp)
  | proposal proposalHash .. => some (proposalHash, proposedMarker + 1)
  | approval proposalHash _ approvalCount .. => some (proposalHash, approvalCount)
  | execution proposalHash txType _ =>
      if isRemoteExecutionType txType then none else some (proposalHash, executedMarker)
  | _ => none

/-- The vote the event reports. -/
def vote? : Event → Option (Fp × PublicKey)
  | proposal proposalHash proposer .. => some (proposalHash, proposer)
  | approval proposalHash approver .. => some (proposalHash, approver)
  | _ => none

/-- The REMOTE execution on a child that the event reports. -/
def childMark? : Event → Option Fp
  | execution proposalHash txType _ =>
      if isChildMarkingType txType then some proposalHash else none
  | _ => none

/-- The approval root the event publishes. -/
def approvalRoot? : Event → Option Fp
  | approval _ _ _ approvalRoot _ => some approvalRoot
  | execution _ txType root => if isRemoteExecutionType txType then none else some root
  | _ => none

/-- The nullifier root the event publishes. -/
def nullifierRoot? : Event → Option Fp
  | approval _ _ _ _ voteNullifierRoot => some voteNullifierRoot
  | _ => none

/-- The event says nothing about the maps. -/
structure Silent (e : Event) : Prop where
  leaf : e.leaf? = none
  vote : e.vote? = none
  childMark : e.childMark? = none
  approvalRoot : e.approvalRoot? = none
  nullifierRoot : e.nullifierRoot? = none

end Event

variable {E : Env} {T : Transcript E} {guards : Set PublicKey}

/-- The events of a call report exactly what it changes in the maps, and the
roots it leaves. -/
structure Vault.Reports (E : Env) (events : List Event) (v v' : Vault) : Prop where
  leaf : ∀ e ∈ events, ∀ h c, e.leaf? = some (h, c) → v'.approvalMap E h = c
  leaves : ∀ h, v'.approvalMap E h = v.approvalMap E h ∨
    ∃ e ∈ events, e.leaf? = some (h, v'.approvalMap E h)
  grows : ∀ h, (v.approvalMap E h).val ≤ (v'.approvalMap E h).val
  votes : ∀ h k, (∃ p, (p, k) ∈ v'.votes ∧ E.proposalHash p = h) ↔
    (∃ p, (p, k) ∈ v.votes ∧ E.proposalHash p = h) ∨ ∃ e ∈ events, e.vote? = some (h, k)
  voter_onCurve : ∀ e ∈ events, ∀ h k, e.vote? = some (h, k) → E.onCurve k = true
  childMarks : ∀ h, h ∈ v'.childExecuted.map E.proposalHash ↔
    h ∈ v.childExecuted.map E.proposalHash ∨ ∃ e ∈ events, e.childMark? = some h
  approvalRoot : ∀ e ∈ events, ∀ r, e.approvalRoot? = some r →
    r = E.merkleMap.getRoot (v'.approvalMap E)
  approvalSame : (∀ e ∈ events, e.approvalRoot? = none) → v'.approvalMap E = v.approvalMap E
  nullifierRoot : ∀ e ∈ events, ∀ r, e.nullifierRoot? = some r →
    r = E.merkleMap.getRoot (v'.nullifierMap E)
  nullifierSame : (∀ e ∈ events, e.nullifierRoot? = none) →
    v'.nullifierMap E = v.nullifierMap E

namespace Vault.Reports

variable {events : List Event} {v v' : Vault}

/-- A call that leaves the maps alone and publishes nothing about them. -/
theorem of_silent (happrovals : v'.approvalMap E = v.approvalMap E)
    (hvotes : v'.votes = v.votes) (hchild : v'.childExecuted = v.childExecuted)
    (hsilent : ∀ e ∈ events, e.Silent) : Reports E events v v' where
  leaf := fun e he h c hleaf ↦ by
    rw [(hsilent e he).leaf] at hleaf
    cases hleaf
  leaves := fun h ↦ Or.inl (congrFun happrovals h)
  grows := fun h ↦ (congrArg (fun map ↦ (map h).val) happrovals).ge
  votes := fun h k ↦ by
    rw [hvotes]
    refine (or_iff_left ?_).symm
    rintro ⟨e, he, hvote⟩
    rw [(hsilent e he).vote] at hvote
    cases hvote
  voter_onCurve := fun e he h k hvote ↦ by
    rw [(hsilent e he).vote] at hvote
    cases hvote
  childMarks := fun h ↦ by
    rw [hchild]
    refine (or_iff_left ?_).symm
    rintro ⟨e, he, hmark⟩
    rw [(hsilent e he).childMark] at hmark
    cases hmark
  approvalRoot := fun e he r hroot ↦ by
    rw [(hsilent e he).approvalRoot] at hroot
    cases hroot
  approvalSame := fun _ ↦ happrovals
  nullifierRoot := fun e he r hroot ↦ by
    rw [(hsilent e he).nullifierRoot] at hroot
    cases hroot
  nullifierSame := fun _ ↦ by
    funext κ
    unfold nullifierMap
    rw [hvotes]

/-- Silent events add nothing. -/
theorem append_silent {more : List Event} (h : Reports E events v v')
    (hsilent : ∀ e ∈ more, e.Silent) : Reports E (events ++ more) v v' := by
  have hsome {α : Type} (f : Event → Option α) (hf : ∀ e ∈ more, f e = none) (a : α) :
      (∃ e ∈ events ++ more, f e = some a) ↔ ∃ e ∈ events, f e = some a := by
    constructor
    · rintro ⟨e, he, ha⟩
      rcases List.mem_append.mp he with he | he
      · exact ⟨e, he, ha⟩
      · rw [hf e he] at ha
        cases ha
    · rintro ⟨e, he, ha⟩
      exact ⟨e, List.mem_append_left _ he, ha⟩
  have hall {α : Type} {f : Event → Option α} (hf : ∀ e ∈ more, f e = none) {P : α → Prop}
      (hP : ∀ e ∈ events, ∀ a, f e = some a → P a) :
      ∀ e ∈ events ++ more, ∀ a, f e = some a → P a := by
    intro e he a ha
    obtain ⟨e', he', ha'⟩ := (hsome f hf a).mp ⟨e, he, ha⟩
    exact hP e' he' a ha'
  have hnone {α : Type} {f : Event → Option α} {P : Prop}
      (hP : (∀ e ∈ events, f e = none) → P) : (∀ e ∈ events ++ more, f e = none) → P :=
    fun hf ↦ hP fun e he ↦ hf e (List.mem_append_left _ he)
  have hleaf := fun e he ↦ (hsilent e he).leaf
  have hvote := fun e he ↦ (hsilent e he).vote
  have hmark := fun e he ↦ (hsilent e he).childMark
  exact
    { leaf := fun e he h' c hc ↦
        hall hleaf (P := fun x ↦ v'.approvalMap E x.1 = x.2)
          (fun e he x hx ↦ h.leaf e he x.1 x.2 hx) e he (h', c) hc
      leaves := fun h' ↦ (h.leaves h').imp_right (hsome _ hleaf _).mpr
      grows := h.grows
      votes := fun h' k ↦ by rw [h.votes, hsome _ hvote]
      voter_onCurve := fun e he h' k hk ↦
        hall hvote (P := fun x ↦ E.onCurve x.2 = true)
          (fun e he x hx ↦ h.voter_onCurve e he x.1 x.2 hx) e he (h', k) hk
      childMarks := fun h' ↦ by rw [h.childMarks, hsome _ hmark]
      approvalRoot := hall (fun e he ↦ (hsilent e he).approvalRoot) h.approvalRoot
      approvalSame := hnone h.approvalSame
      nullifierRoot := hall (fun e he ↦ (hsilent e he).nullifierRoot) h.nullifierRoot
      nullifierSame := hnone h.nullifierSame }

end Vault.Reports

theorem MethodCall.emits_vote {m : MethodCall E} {p : TransactionProposal} {k : PublicKey}
    {vw aw : E.MerkleMapWitness} {count leaf : Fp} (hm : m.vote? = some (p, k))
    (hwrites : m.mapWrites = [⟨vw, 0, 1⟩, ⟨aw, count, leaf⟩]) (a : PublicKey)
    (s : GuardState) (balance : UInt64) :
    ∃ front, m.emits a s balance = front ++
        [.approval (E.proposalHash p) k leaf (E.root aw leaf) (E.root vw 1)] ∧
      ∀ e ∈ front, e.Silent ∨ e = proposalEvent E p k ∧ leaf = proposedMarker + 1 := by
  cases m with
  | propose q ow proposer sig vw' aw' =>
      cases hm
      cases hwrites
      refine ⟨proposalEvent E p k :: receiverEvents E p, rfl, ?_⟩
      intro e he
      rcases List.mem_cons.mp he with rfl | he
      · exact Or.inr ⟨rfl, rfl⟩
      · obtain ⟨r, -, rfl⟩ := List.mem_map.mp he
        exact Or.inl ⟨rfl, rfl, rfl, rfl, rfl⟩
  | approveProposal q sig approver ow aw' count' vw' =>
      cases hm
      cases hwrites
      exact ⟨[], rfl, fun e he ↦ absurd he List.not_mem_nil⟩
  | _ => cases hm

namespace Vault

variable {v : Vault} {p : TransactionProposal} {k : PublicKey} {this : PublicKey}

theorem val_approvalMap_of_pending (hfew : (v.voters E (E.proposalHash p)).length ≤ maxOwners)
    (hpending : E.proposalHash p ∉ v.executed.map E.proposalHash) :
    (v.approvalMap E (E.proposalHash p)).val ≤
      (v.voters E (E.proposalHash p)).length + 1 := by
  unfold approvalMap
  rw [if_neg hpending]
  split
  · rw [val_zero]
    exact Nat.zero_le _
  · exact (val_proposedMarker_add hfew).le

/-- The events of a vote. -/
theorem reports_vote (hvotable : v.Votable T this p k) (hcurve : E.onCurve k = true)
    (hafter : (v.vote p k).Invariant T this) {leaf root voteRoot : Fp}
    (hleaf : (v.vote p k).approvalMap E (E.proposalHash p) = leaf)
    (hroot : root = E.merkleMap.getRoot ((v.vote p k).approvalMap E))
    (hvoteRoot : voteRoot = E.merkleMap.getRoot ((v.vote p k).nullifierMap E))
    {front : List Event} (hfront : ∀ e ∈ front, e.Silent ∨
      e = proposalEvent E p k ∧ leaf = proposedMarker + 1) :
    Reports E (front ++ [.approval (E.proposalHash p) k leaf root voteRoot]) v
      (v.vote p k) := by
  have hmem : ∀ e ∈ front ++ [Event.approval (E.proposalHash p) k leaf root voteRoot],
      e.Silent ∨ (e = proposalEvent E p k ∧ leaf = proposedMarker + 1) ∨
        e = .approval (E.proposalHash p) k leaf root voteRoot := by
    intro e he
    rcases List.mem_append.mp he with he | he
    · exact (hfront e he).imp_right Or.inl
    · exact Or.inr (Or.inr (List.mem_singleton.mp he))
  have hlast : Event.approval (E.proposalHash p) k leaf root voteRoot ∈
      front ++ [Event.approval (E.proposalHash p) k leaf root voteRoot] :=
    List.mem_append_right _ (List.mem_singleton_self _)
  have hvote : ∀ e ∈ front ++ [Event.approval (E.proposalHash p) k leaf root voteRoot],
      ∀ x, e.vote? = some x → x = (E.proposalHash p, k) := by
    intro e he x hx
    rcases hmem e he with hsilent | ⟨rfl, -⟩ | rfl
    · rw [hsilent.vote] at hx
      cases hx
    · exact (Option.some.inj hx).symm
    · exact (Option.some.inj hx).symm
  refine
    { leaf := ?_
      leaves := ?_
      grows := ?_
      votes := ?_
      voter_onCurve := ?_
      childMarks := ?_
      approvalRoot := ?_
      approvalSame := fun hnone ↦ absurd (hnone _ hlast) (by simp [Event.approvalRoot?])
      nullifierRoot := ?_
      nullifierSame := fun hnone ↦ absurd (hnone _ hlast) (by simp [Event.nullifierRoot?]) }
  · intro e he h c hc
    rcases hmem e he with hsilent | ⟨rfl, heq⟩ | rfl
    · rw [hsilent.leaf] at hc
      cases hc
    · cases hc
      rw [hleaf, heq]
    · cases hc
      exact hleaf
  · intro h
    by_cases hh : h = E.proposalHash p
    · subst hh
      exact Or.inr ⟨_, hlast, by rw [hleaf]; rfl⟩
    · left
      rw [approvalMap_vote hvotable.pending, Function.update_of_ne hh]
  · intro h
    by_cases hh : h = E.proposalHash p
    · subst hh
      have hfew := hafter.voters_le (E.proposalHash p)
      rw [voters_vote_self, List.length_append, List.length_singleton] at hfew
      have hold := val_approvalMap_of_pending (by omega) hvotable.pending
      rw [approvalMap_vote hvotable.pending, Function.update_self,
        val_proposedMarker_add hfew]
      omega
    · rw [approvalMap_vote hvotable.pending, Function.update_of_ne hh]
  · intro h k'
    constructor
    · rintro ⟨q, hq, rfl⟩
      rcases List.mem_append.mp hq with hq | hq
      · exact Or.inl ⟨q, hq, rfl⟩
      · cases List.mem_singleton.mp hq
        exact Or.inr ⟨_, hlast, rfl⟩
    · rintro (⟨q, hq, rfl⟩ | ⟨e, he, hx⟩)
      · exact ⟨q, List.mem_append_left _ hq, rfl⟩
      · cases hvote e he _ hx
        exact ⟨p, List.mem_append_right _ (List.mem_singleton_self _), rfl⟩
  · intro e he h k' hx
    cases hvote e he _ hx
    exact hcurve
  · intro h
    refine (or_iff_left ?_).symm
    rintro ⟨e, he, hmark⟩
    rcases hmem e he with hsilent | ⟨rfl, -⟩ | rfl
    · rw [hsilent.childMark] at hmark
      cases hmark
    · cases hmark
    · cases hmark
  · intro e he r hr
    rcases hmem e he with hsilent | ⟨rfl, -⟩ | rfl
    · rw [hsilent.approvalRoot] at hr
      cases hr
    · cases hr
    · cases hr
      exact hroot
  · intro e he r hr
    rcases hmem e he with hsilent | ⟨rfl, -⟩ | rfl
    · rw [hsilent.nullifierRoot] at hr
      cases hr
    · cases hr
    · cases hr
      exact hvoteRoot

end Vault

/-! ## LOCAL executions -/

theorem MethodCall.emits_localExecution {m : MethodCall E} {p : TransactionProposal}
    {w : E.MerkleMapWitness} (hm : m.localExecution? = some p) (hw : m.witnesses = [w])
    (a : PublicKey) (s : GuardState) (balance : UInt64) :
    ∃ back, m.emits a s balance =
        [.execution (E.proposalHash p) p.txType (E.root w executedMarker)] ++ back ∧
      ∀ e ∈ back, e.Silent := by
  cases m with
  | executeTransfer q w' count =>
      cases hm
      cases hw
      exact ⟨[], rfl, fun e he ↦ absurd he List.not_mem_nil⟩
  | executeAllocateToChildren q w' count =>
      cases hm
      cases hw
      exact ⟨[], rfl, fun e he ↦ absurd he List.not_mem_nil⟩
  | executeOwnerChange q w' count ow pos =>
      cases hm
      cases hw
      exact ⟨_, rfl, List.forall_mem_singleton.mpr ⟨rfl, rfl, rfl, rfl, rfl⟩⟩
  | executeThresholdChange q w' count t =>
      cases hm
      cases hw
      exact ⟨_, rfl, List.forall_mem_singleton.mpr ⟨rfl, rfl, rfl, rfl, rfl⟩⟩
  | executeDelegate q w' count =>
      cases hm
      cases hw
      exact ⟨_, rfl, List.forall_mem_singleton.mpr ⟨rfl, rfl, rfl, rfl, rfl⟩⟩
  | _ => cases hm

theorem not_isRemoteExecutionType_of_local {txType : Fp} (h : isLocalType txType) :
    ¬isRemoteExecutionType txType := by
  rcases h with rfl | rfl | rfl | rfl | rfl | rfl <;> decide

theorem val_le_executedMarker (x : Fp) : x.val ≤ executedMarker.val := by
  have hmax : executedMarker.val = fieldOrder - 1 := by decide +kernel
  have hlt := ZMod.val_lt x
  omega

namespace Vault

variable {v v' : Vault} {p : TransactionProposal}

/-- The execution event of a LOCAL execution; governance may change with it. -/
theorem reports_execute (hlocal : ¬isRemoteExecutionType p.txType)
    (happrovals : v'.approvalMap E = (v.execute p).approvalMap E) (hvotes : v'.votes = v.votes)
    (hchild : v'.childExecuted = v.childExecuted) {root : Fp}
    (hroot : root = E.merkleMap.getRoot ((v.execute p).approvalMap E)) :
    Reports E [.execution (E.proposalHash p) p.txType root] v v' := by
  have hleaf : (Event.execution (E.proposalHash p) p.txType root).leaf? =
      some (E.proposalHash p, executedMarker) := if_neg hlocal
  have happrovalRoot : (Event.execution (E.proposalHash p) p.txType root).approvalRoot? =
      some root := if_neg hlocal
  have hmark : (Event.execution (E.proposalHash p) p.txType root).childMark? = none :=
    if_neg fun h ↦ hlocal (Or.inr h)
  refine
    { leaf := ?_
      leaves := ?_
      grows := ?_
      votes := ?_
      voter_onCurve := List.forall_mem_singleton.mpr fun h k hk ↦ by cases hk
      childMarks := ?_
      approvalRoot := ?_
      approvalSame := fun hnone ↦ by
        rw [hnone _ (List.mem_singleton_self _)] at happrovalRoot
        cases happrovalRoot
      nullifierRoot := List.forall_mem_singleton.mpr fun r hr ↦ by cases hr
      nullifierSame := fun _ ↦ by
        funext κ
        unfold nullifierMap
        rw [hvotes] }
  · refine List.forall_mem_singleton.mpr fun h c hc ↦ ?_
    cases hleaf.symm.trans hc
    rw [happrovals, approvalMap_execute, Function.update_self]
  · intro h
    rw [happrovals, approvalMap_execute]
    by_cases hh : h = E.proposalHash p
    · subst hh
      rw [Function.update_self]
      exact Or.inr ⟨_, List.mem_singleton_self _, hleaf⟩
    · rw [Function.update_of_ne hh]
      exact Or.inl rfl
  · intro h
    rw [happrovals, approvalMap_execute]
    by_cases hh : h = E.proposalHash p
    · subst hh
      rw [Function.update_self]
      exact val_le_executedMarker _
    · rw [Function.update_of_ne hh]
  · intro h k
    rw [hvotes]
    refine (or_iff_left ?_).symm
    rintro ⟨e, he, hk⟩
    cases List.mem_singleton.mp he
    cases hk
  · intro h
    rw [hchild]
    refine (or_iff_left ?_).symm
    rintro ⟨e, he, hk⟩
    cases List.mem_singleton.mp he
    rw [hmark] at hk
    cases hk
  · refine List.forall_mem_singleton.mpr fun r hr ↦ ?_
    cases happrovalRoot.symm.trans hr
    rw [happrovals]
    exact hroot

end Vault

theorem MethodCall.emits_childExecution {m : MethodCall E} {p : TransactionProposal}
    (hm : m.childExecution? = some p) (a : PublicKey) (s : GuardState) (balance : UInt64) :
    ∃ root back, m.emits a s balance = [.execution (E.proposalHash p) p.txType root] ++ back ∧
      ∀ e ∈ back, e.Silent := by
  cases m with
  | executeReclaimToParent q pw count cw amount =>
      cases hm
      exact ⟨_, _, rfl, List.forall_mem_singleton.mpr ⟨rfl, rfl, rfl, rfl, rfl⟩⟩
  | executeDestroy q pw count cw =>
      cases hm
      exact ⟨_, _, rfl, List.forall_mem_cons.mpr ⟨⟨rfl, rfl, rfl, rfl, rfl⟩,
        List.forall_mem_singleton.mpr ⟨rfl, rfl, rfl, rfl, rfl⟩⟩⟩
  | executeEnableChildMultiSig q pw count cw enabled =>
      cases hm
      exact ⟨_, _, rfl, List.forall_mem_singleton.mpr ⟨rfl, rfl, rfl, rfl, rfl⟩⟩
  | _ => cases hm

theorem Vault.reports_executeChild {v v' : Vault} {p : TransactionProposal}
    (hmarks : isChildMarkingType p.txType) (happrovals : v'.approvalMap E = v.approvalMap E)
    (hvotes : v'.votes = v.votes)
    (hchild : v'.childExecuted = v.childExecuted ++ [p]) (root : Fp) :
    Reports E [.execution (E.proposalHash p) p.txType root] v v' := by
  have hremote : isRemoteExecutionType p.txType := Or.inr hmarks
  have hleaf : (Event.execution (E.proposalHash p) p.txType root).leaf? = none :=
    if_pos hremote
  have hroot : (Event.execution (E.proposalHash p) p.txType root).approvalRoot? = none :=
    if_pos hremote
  have hmark : (Event.execution (E.proposalHash p) p.txType root).childMark? =
      some (E.proposalHash p) := if_pos hmarks
  refine
    { leaf := List.forall_mem_singleton.mpr fun h c hc ↦ by cases hleaf.symm.trans hc
      leaves := fun h ↦ Or.inl (congrFun happrovals h)
      grows := fun h ↦ (congrArg (fun map ↦ (map h).val) happrovals).ge
      votes := ?_
      voter_onCurve := List.forall_mem_singleton.mpr fun h k hk ↦ by cases hk
      childMarks := ?_
      approvalRoot := List.forall_mem_singleton.mpr fun r hr ↦ by cases hroot.symm.trans hr
      approvalSame := fun _ ↦ happrovals
      nullifierRoot := List.forall_mem_singleton.mpr fun r hr ↦ by cases hr
      nullifierSame := fun _ ↦ by
        funext κ
        unfold nullifierMap
        rw [hvotes] }
  · intro h k
    rw [hvotes]
    refine (or_iff_left ?_).symm
    rintro ⟨e, he, hk⟩
    cases List.mem_singleton.mp he
    cases hk
  · intro h
    rw [hchild, List.map_append, List.mem_append, List.map_singleton, List.mem_singleton]
    refine or_congr_right ⟨?_, ?_⟩
    · rintro rfl
      exact ⟨_, List.mem_singleton_self _, hmark⟩
    · rintro ⟨e, he, hk⟩
      cases List.mem_singleton.mp he
      exact (Option.some.inj (hmark.symm.trans hk)).symm

namespace Vault

variable {m : MethodCall E} {p : TransactionProposal}

theorem approvalMap_congr {v w : Vault} (hvotes : w.votes = v.votes)
    (hexecuted : w.executed = v.executed) : w.approvalMap E = v.approvalMap E := by
  funext h
  unfold approvalMap voters
  rw [hvotes, hexecuted]

theorem next_localExecution (v : Vault) (hm : m.localExecution? = some p) :
    (v.next m).votes = v.votes ∧ (v.next m).executed = (v.execute p).executed ∧
      (v.next m).childExecuted = v.childExecuted := by
  cases m with
  | executeTransfer => cases hm; exact ⟨rfl, rfl, rfl⟩
  | executeAllocateToChildren => cases hm; exact ⟨rfl, rfl, rfl⟩
  | executeOwnerChange => cases hm; exact ⟨rfl, rfl, rfl⟩
  | executeThresholdChange => cases hm; exact ⟨rfl, rfl, rfl⟩
  | executeDelegate => cases hm; exact ⟨rfl, rfl, rfl⟩
  | _ => cases hm

theorem next_childExecution (v : Vault) (hm : m.childExecution? = some p) :
    (v.next m).votes = v.votes ∧ (v.next m).executed = v.executed ∧
      (v.next m).childExecuted = v.childExecuted ++ [p] := by
  cases m with
  | executeReclaimToParent => cases hm; exact ⟨rfl, rfl, rfl⟩
  | executeDestroy => cases hm; exact ⟨rfl, rfl, rfl⟩
  | executeEnableChildMultiSig => cases hm; exact ⟨rfl, rfl, rfl⟩
  | _ => cases hm

end Vault

/-- The vault of a phase, without any history if it is not active. -/
def Phase.vault : Phase → Vault
  | .active v => v
  | _ => .fresh PublicKey.empty [] 0

theorem Event.silent_setupEvents {threshold numOwners : Fp} {parent : PublicKey}
    {owners : SetupOwnersInput} :
    ∀ e ∈ setupEvents E threshold numOwners parent owners, e.Silent := by
  refine List.forall_mem_cons.mpr ⟨⟨rfl, rfl, rfl, rfl, rfl⟩, ?_⟩
  intro e he
  obtain ⟨slot, -, rfl⟩ := List.mem_map.mp he
  exact ⟨rfl, rfl, rfl, rfl, rfl⟩

namespace CallStep

variable {L L' : Ledger} {a : PublicKey} {m : MethodCall E} {F : Forest} {ph : Phase}
  {p : TransactionProposal} {k : PublicKey}

/-- The events of an included call. -/
theorem emits (h : CallStep T guards L a m F L') :
    ∃ balance, F.self.events = m.emits a (L.state a) balance := by
  obtain ⟨P, rfl, hprove⟩ := h.proved
  exact ⟨P.balance, (MethodCall.effects hprove h.included).events⟩

theorem reports_vote (h : CallStep T guards L a m F L') (href : Refines T a (L.state a) ph)
    (hm : m.vote? = some (p, k)) :
    Vault.Reports E F.self.events ph.vault (ph.next m).vault := by
  obtain ⟨P, rfl, hprove⟩ := h.proved
  obtain ⟨ow, vw, aw, count, hchecks, -, -, hwitnesses, -, hwrites, hstate'⟩ :=
    MethodCall.voteChecks hm hprove h.included
  obtain ⟨v, rfl, hvotable, href'⟩ := MethodCall.votable href h.recorded hm hprove h.included
  obtain ⟨hstate, hsound⟩ := href
  obtain ⟨hencoded, hsound'⟩ := href'
  cases hsound with
  | active hv =>
      cases hsound' with
      | active hv' =>
          have hnext : (Phase.active v).next m = .active (v.vote p k) := by
            cases m with
            | propose => cases hm; rfl
            | approveProposal => cases hm; rfl
            | _ => cases hm
          have haw : aw ∈ T.witnesses := h.recorded.witnessed aw (by simp [hwitnesses])
          rw [hstate'] at hencoded
          have hroot := congrArg GuardState.approvalRoot hencoded
          have hvoteRoot := congrArg GuardState.voteNullifierRoot hencoded
          have hopened := hchecks.root
          rw [hstate] at hopened
          have hsame := T.binding.writes aw haw _ hv.approvals_mem count
            (MethodCall.votedLeaf count) hopened
          have hleaf : (v.vote p k).approvalMap E (E.proposalHash p) =
              MethodCall.votedLeaf count :=
            T.binding.read haw hv'.approvals_mem hroot (by rw [hsame]; exact hchecks.key)
          have howner : k ∈ v.owners := hvotable.record.owner
            (by rw [hvotable.current, hv.val_configNonce])
          obtain ⟨front, hemits, hfront⟩ := MethodCall.emits_vote hm hwrites P.address
            (L.state P.address) P.balance
          rw [(MethodCall.effects hprove h.included).events, hemits, hnext]
          exact Vault.reports_vote hvotable (hv.governed.coherent.onCurve k howner) hv' hleaf
            hroot hvoteRoot hfront

theorem reports_localExecution (h : CallStep T guards L a m F L')
    (href : Refines T a (L.state a) ph) (hm : m.localExecution? = some p) :
    Vault.Reports E F.self.events ph.vault (ph.next m).vault := by
  obtain ⟨P, rfl, hprove⟩ := h.proved
  obtain ⟨w, count, hchecks, hw, hwrites, hp⟩ :=
    MethodCall.localChecks hm hprove h.included
  obtain ⟨v, rfl, hstate, hv, -, hroot⟩ := refines_execute href h.recorded
    (by simp [hw]) hp (by simp [hwrites]) hchecks
  obtain ⟨_, ⟨⟩, -, hexecutable⟩ :=
    MethodCall.executable href h.recorded hm hprove h.included
  obtain ⟨k, hk⟩ := hexecutable.voted
  have hlocal : isLocalType p.txType := by
    rcases (hv.votes _ hk).rules.target with ⟨htype, -⟩ | ⟨-, hremote, -⟩
    · exact htype
    · exact absurd (hchecks.destination.symm.trans hremote) destinationLocal_ne_remote
  obtain ⟨back, hemits, hback⟩ := MethodCall.emits_localExecution hm hw P.address
    (L.state P.address) P.balance
  rw [(MethodCall.effects hprove h.included).events, hemits]
  refine Vault.Reports.append_silent ?_ hback
  obtain ⟨hvotes, hexecuted, hchild⟩ := v.next_localExecution hm
  exact Vault.reports_execute (not_isRemoteExecutionType_of_local hlocal)
    (Vault.approvalMap_congr hvotes hexecuted) hvotes hchild hroot

theorem reports_childExecution (h : CallStep T guards L a m F L')
    (href : Refines T a (L.state a) ph) (hm : m.childExecution? = some p) :
    Vault.Reports E F.self.events ph.vault (ph.next m).vault := by
  obtain ⟨v, rfl, -⟩ := h.childExecutable href hm
  obtain ⟨P, rfl, hprove⟩ := h.proved
  obtain ⟨_, _, _, -, htype, -⟩ := MethodCall.remoteChecks hm hprove h.included
  obtain ⟨root, back, hemits, hback⟩ := MethodCall.emits_childExecution hm P.address
    (L.state P.address) P.balance
  rw [(MethodCall.effects hprove h.included).events, hemits]
  refine Vault.Reports.append_silent ?_ hback
  obtain ⟨hvotes, hexecuted, hchild⟩ := v.next_childExecution hm
  exact Vault.reports_executeChild htype (Vault.approvalMap_congr hvotes hexecuted) hvotes
    hchild root

/-- Before a guard is active it has no maps to report about. -/
theorem reports_inactive {events : List Event} {v : Vault}
    (hv : v.votes = [] ∧ v.executed = [] ∧ v.childExecuted = [])
    (hsilent : ∀ e ∈ events, e.Silent) :
    Vault.Reports E events (.fresh PublicKey.empty [] 0) v := by
  obtain ⟨hvotes, hexecuted, hchild⟩ := hv
  refine .of_silent ?_ hvotes hchild hsilent
  funext h
  simp [Vault.approvalMap, Vault.voters, hvotes, hexecuted, Vault.fresh]

theorem reports (h : CallStep T guards L a m F L') (href : Refines T a (L.state a) ph) :
    Vault.Reports E F.self.events ph.vault (ph.next m).vault := by
  obtain ⟨balance, hevents⟩ := h.emits
  cases m with
  | setup t n o =>
      rw [hevents]
      obtain ⟨P, rfl, hprove⟩ := h.proved
      obtain ⟨hzero, hparent, -⟩ := setup_spec (MethodCall.prove_ok.mp hprove) h.included
      rcases href.inactive hzero with rfl | ⟨b, c, rfl, hne, -⟩
      · exact reports_inactive ⟨rfl, rfl, rfl⟩ Event.silent_setupEvents
      · rw [href.state] at hparent
        exact absurd hparent hne
  | reserveForParent b hash t n o =>
      rw [hevents]
      obtain ⟨P, rfl, hprove⟩ := h.proved
      obtain ⟨hzero, hparent, -⟩ :=
        reserveForParent_spec (MethodCall.prove_ok.mp hprove) h.included
      have hsilent : ∀ e ∈ (MethodCall.reserveForParent (E := E) b hash t n o).emits
          P.address (L.state P.address) balance, e.Silent := by
        refine List.forall_mem_cons.mpr ⟨⟨rfl, rfl, rfl, rfl, rfl⟩, ?_⟩
        intro e he
        obtain ⟨slot, -, rfl⟩ := List.mem_map.mp he
        exact ⟨rfl, rfl, rfl, rfl, rfl⟩
      rcases href.inactive hzero with rfl | ⟨b, c, rfl, hne, -⟩
      · exact reports_inactive ⟨rfl, rfl, rfl⟩ hsilent
      · rw [href.state] at hparent
        exact absurd hparent hne
  | executeSetupChild t n o p w c =>
      rw [hevents]
      obtain ⟨P, rfl, hprove⟩ := h.proved
      obtain ⟨hzero, hparent, htype, -⟩ :=
        executeSetupChild_spec (MethodCall.prove_ok.mp hprove) h.included
      have hsilent : ∀ e ∈ (MethodCall.executeSetupChild t n o p w c).emits
          P.address (L.state P.address) balance, e.Silent := by
        refine List.forall_mem_append.mpr ⟨Event.silent_setupEvents,
          List.forall_mem_cons.mpr ⟨?_, List.forall_mem_singleton.mpr
            ⟨rfl, rfl, rfl, rfl, rfl⟩⟩⟩
        rw [htype]
        exact ⟨rfl, rfl, rfl, rfl, rfl⟩
      rcases href.inactive hzero with rfl | ⟨b, c, rfl, -, -⟩
      · rw [href.state] at hparent
        exact absurd rfl hparent
      · exact reports_inactive ⟨rfl, rfl, rfl⟩ hsilent
  | propose => exact h.reports_vote href rfl
  | approveProposal => exact h.reports_vote href rfl
  | executeTransfer => exact h.reports_localExecution href rfl
  | executeAllocateToChildren => exact h.reports_localExecution href rfl
  | executeOwnerChange => exact h.reports_localExecution href rfl
  | executeThresholdChange => exact h.reports_localExecution href rfl
  | executeDelegate => exact h.reports_localExecution href rfl
  | executeReclaimToParent => exact h.reports_childExecution href rfl
  | executeDestroy => exact h.reports_childExecution href rfl
  | executeEnableChildMultiSig => exact h.reports_childExecution href rfl

end CallStep

/-! ## A whole run -/

/-- The events one action publishes on `g`. -/
def Action.published (g : PublicKey) : Action E → List Event
  | .call a _ F => if a = g then F.self.events else []
  | _ => []

/-- The events of a run on `g`, in order. -/
def published (g : PublicKey) (as : List (Action E)) : List Event :=
  as.flatMap (Action.published g)

theorem published_append (g : PublicKey) (as bs : List (Action E)) :
    published g (as ++ bs) = published g as ++ published g bs :=
  List.flatMap_append

theorem published_concat (g : PublicKey) (as : List (Action E)) (act : Action E) :
    published g (as ++ [act]) = published g as ++ act.published g := by
  rw [published_append]
  simp [published]

/-- An action is a call on the account, or neither changes nor publishes anything. -/
theorem call_or_silent (a : PublicKey) (as : List (Action E)) (act : Action E) :
    (∃ m F, act = .call a m F) ∨
      replay a (as ++ [act]) = replay a as ∧ act.published a = [] := by
  cases act with
  | call b m F =>
      by_cases hb : b = a
      · subst hb
        exact Or.inl ⟨m, F, rfl⟩
      · exact Or.inr ⟨replay_call_of_ne hb as m F, if_neg hb⟩
  | deposit => exact Or.inr ⟨by simp [replay, callsOn], rfl⟩
  | advance => exact Or.inr ⟨by simp [replay, callsOn], rfl⟩
  | foreign => exact Or.inr ⟨by simp [replay, callsOn], rfl⟩

/-- The maps of a vault are those its events describe. -/
structure Vault.Mirrored (E : Env) (events : List Event) (v : Vault) : Prop where
  leaf_le : ∀ e ∈ events, ∀ h c, e.leaf? = some (h, c) → c.val ≤ (v.approvalMap E h).val
  leaf_mem : ∀ h, v.approvalMap E h = 0 ∨
    ∃ e ∈ events, e.leaf? = some (h, v.approvalMap E h)
  votes : ∀ h k, (∃ p, (p, k) ∈ v.votes ∧ E.proposalHash p = h) ↔
    ∃ e ∈ events, e.vote? = some (h, k)
  voter_onCurve : ∀ e ∈ events, ∀ h k, e.vote? = some (h, k) → E.onCurve k = true
  childMarks : ∀ h, h ∈ v.childExecuted.map E.proposalHash ↔
    ∃ e ∈ events, e.childMark? = some h

namespace Vault.Mirrored

variable {events more : List Event} {v v' : Vault}

theorem start : Mirrored E [] (.fresh PublicKey.empty [] 0) where
  leaf_le := fun _ he ↦ absurd he List.not_mem_nil
  leaf_mem := fun h ↦ Or.inl (by simp [approvalMap, voters, Vault.fresh])
  votes := fun h k ↦ by simp [Vault.fresh]
  voter_onCurve := fun _ he ↦ absurd he List.not_mem_nil
  childMarks := fun h ↦ by simp [Vault.fresh]

theorem reports (h : Mirrored E events v) (hstep : Reports E more v v') :
    Mirrored E (events ++ more) v' where
  leaf_le := by
    intro e he h' c hc
    rcases List.mem_append.mp he with he | he
    · exact (h.leaf_le e he h' c hc).trans (hstep.grows h')
    · rw [hstep.leaf e he h' c hc]
  leaf_mem := by
    intro h'
    rcases hstep.leaves h' with hsame | ⟨e, he, hleaf⟩
    · rw [hsame]
      refine (h.leaf_mem h').imp_right ?_
      rintro ⟨e, he, hleaf⟩
      exact ⟨e, List.mem_append_left _ he, hleaf⟩
    · exact Or.inr ⟨e, List.mem_append_right _ he, hleaf⟩
  votes := by
    intro h' k
    rw [hstep.votes, h.votes]
    simp only [List.mem_append, or_and_right, exists_or]
  voter_onCurve := by
    intro e he
    rcases List.mem_append.mp he with he | he
    · exact h.voter_onCurve e he
    · exact hstep.voter_onCurve e he
  childMarks := by
    intro h'
    rw [hstep.childMarks, h.childMarks]
    simp only [List.mem_append, or_and_right, exists_or]

end Vault.Mirrored

namespace Run

variable {as : List (Action E)} {L : Ledger} {g : PublicKey}

/-- In every run, the events of a guard describe its maps. -/
theorem mirrored (run : (ledgerSystem T guards).Run as L) (hg : g ∈ guards) :
    Vault.Mirrored E (published g as) (replay g as).vault := by
  refine TransitionSystem.Run.invariant
    (fun as _ ↦ Vault.Mirrored E (published g as) (replay g as).vault) ?_ ?_ run
  · intro L _
    exact .start
  · intro as L act L' run ih step
    rw [published_concat]
    rcases call_or_silent g as act with ⟨m, F, rfl⟩ | ⟨hsame, hnone⟩
    · have hpublished : (Action.call g m F).published g = F.self.events := if_pos rfl
      rw [hpublished, replay_call]
      exact ih.reports ((LedgerStep.call_inv step).reports (refines run hg))
    · rw [hsame, hnone, List.append_nil]
      exact ih

/-- Along a path, either no event publishes a root, or the last one that does
publishes the root at the end. -/
theorem checkpoint (root? : Event → Option Fp) (root : Vault → Fp)
    (hpublished : ∀ events v v', Vault.Reports E events v v' →
      ∀ e ∈ events, ∀ r, root? e = some r → r = root v')
    (hsame : ∀ events v v', Vault.Reports E events v v' →
      (∀ e ∈ events, root? e = none) → root v' = root v)
    (run : (ledgerSystem T guards).Run as L) (hg : g ∈ guards) {bs : List (Action E)}
    {L' : Ledger} (path : (ledgerSystem T guards).Path L bs L') :
    (∀ e ∈ published g bs, root? e = none) ∨
      ∃ e ∈ published g bs, root? e = some (root (replay g (as ++ bs)).vault) := by
  induction bs using List.reverseRecOn generalizing L' with
  | nil => exact Or.inl fun e he ↦ absurd he List.not_mem_nil
  | append_singleton bs act ih =>
      obtain ⟨M, hpath, hlast⟩ := TransitionSystem.path_append.mp path
      have hstep : LedgerStep T guards M act L' := TransitionSystem.path_singleton.mp hlast
      rw [published_concat, ← List.append_assoc]
      rcases call_or_silent g (as ++ bs) act with ⟨m, F, rfl⟩ | ⟨hreplay, hnone⟩
      · have hevents : (Action.call g m F).published g = F.self.events := if_pos rfl
        have hreports := (LedgerStep.call_inv hstep).reports (refines (run.extend hpath) hg)
        rw [hevents, replay_call]
        by_cases hquiet : ∀ e ∈ F.self.events, root? e = none
        · rw [hsame _ _ _ hreports hquiet]
          refine (ih hpath).imp ?_ ?_
          · exact fun hall ↦ List.forall_mem_append.mpr ⟨hall, hquiet⟩
          · rintro ⟨e, he, hr⟩
            exact ⟨e, List.mem_append_left _ he, hr⟩
        · obtain ⟨e, he, hne⟩ := not_forall₂.mp hquiet
          obtain ⟨r, hr⟩ := Option.ne_none_iff_exists'.mp hne
          refine Or.inr ⟨e, List.mem_append_right _ he, ?_⟩
          rw [hr, hpublished _ _ _ hreports e he r hr]
      · rw [hreplay, hnone, List.append_nil]
        exact ih hpath

theorem approval_checkpoint (run : (ledgerSystem T guards).Run as L) (hg : g ∈ guards)
    {bs : List (Action E)} {L' : Ledger} (path : (ledgerSystem T guards).Path L bs L') :
    (∀ e ∈ published g bs, e.approvalRoot? = none) ∨
      ∃ e ∈ published g bs, e.approvalRoot? =
        some (E.merkleMap.getRoot ((replay g (as ++ bs)).vault.approvalMap E)) :=
  checkpoint _ (fun v ↦ E.merkleMap.getRoot (v.approvalMap E)) (fun _ _ _ h ↦ h.approvalRoot)
    (fun _ _ _ h hnone ↦ congrArg E.merkleMap.getRoot (h.approvalSame hnone)) run hg path

theorem nullifier_checkpoint (run : (ledgerSystem T guards).Run as L) (hg : g ∈ guards)
    {bs : List (Action E)} {L' : Ledger} (path : (ledgerSystem T guards).Path L bs L') :
    (∀ e ∈ published g bs, e.nullifierRoot? = none) ∨
      ∃ e ∈ published g bs, e.nullifierRoot? =
        some (E.merkleMap.getRoot ((replay g (as ++ bs)).vault.nullifierMap E)) :=
  checkpoint _ (fun v ↦ E.merkleMap.getRoot (v.nullifierMap E)) (fun _ _ _ h ↦ h.nullifierRoot)
    (fun _ _ _ h hnone ↦ congrArg E.merkleMap.getRoot (h.nullifierSame hnone)) run hg path

end Run

end MinaGuard
