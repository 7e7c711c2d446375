import MinaGuard.Indexer.Submissions
import MinaGuard.Instance.Keys

/-!
# Reports and events of approvals

A reported hash stays on the row after the event was applied if a transaction of
the indexer has read the row before the report and commits after the check of
the route.  Nothing else leaves it there.
-/

namespace MinaGuard

open Foundations

variable {proposalHash : String} {s s' : SubmissionState} {as : List SubmissionAction}
  {H : String}

/-- An approval event of the transaction is applied to the proposal. -/
def SubmissionState.Applied (s : SubmissionState) (proposalHash txHash : String) : Prop :=
  ∃ r ∈ s.eventRaws, r.applyError = none ∧ r.chainEvent.approves proposalHash = true ∧
    r.chainEvent.txHash = some txHash

/-- The screens of the owners wait for a transaction that has long arrived. -/
def SubmissionState.Locked (s : SubmissionState) (proposalHash txHash : String) : Prop :=
  s.row = ⟨some txHash, none⟩ ∧ s.Applied proposalHash txHash

/-- The calls that report the transaction and those that apply its events are over. -/
def SubmissionState.Settled (s : SubmissionState) (txHash : String) : Prop :=
  (∀ call ∈ s.calls, call.txHash = txHash → call.phase = .finished) ∧
    ∀ t ∈ s.transactions, t.chainEvent.txHash = some txHash → t.phase = .finished

/-- The transaction has read the row, and will not clear it. -/
def ApprovalTransaction.missed (t : ApprovalTransaction) : Bool :=
  match t.phase with
  | .read row => !row.clearedBy t.chainEvent
  | .upserted row => !row.clearedBy t.chainEvent
  | _ => false

/-- When a call looks for the event and finds none, no open transaction for an event of its
hash has read the row without that hash. -/
def SubmissionState.Covered (proposalHash : String) (s : SubmissionState) :
    SubmissionAction → Prop
  | .check i => ∀ call, s.calls[i]? = some call → s.recordedApproval call.txHash = false →
      ∀ t ∈ s.transactions, t.chainEvent.approves proposalHash = true →
        t.chainEvent.txHash = some call.txHash → t.missed = false
  | _ => True

/-- With nobody in between, the statements of a transaction leave the row as
`applyApprovalEvent` does. -/
theorem applyApprovalEvent_proposals {db : Database} {contractId eventOrder : ℕ}
    {chainEvent : ChainEvent} {p : Db.Proposal}
    (happroves : chainEvent.approves proposalHash = true)
    (hp : db.findProposal contractId proposalHash = some p) :
    ∃ db', applyApprovalEvent db contractId chainEvent eventOrder = .ok db' ∧
      db'.proposals = if p.approveTracking.clearedBy chainEvent then
        db.proposals.map fun q ↦
          if q.id = p.id then { q with lastApproveTxHash := none, lastApproveError := none }
          else q
      else db.proposals := by
  obtain ⟨-, hhash, happrover⟩ := of_decide_eq_true happroves
  obtain ⟨approver, happrover⟩ := Option.ne_none_iff_exists'.mp happrover
  unfold applyApprovalEvent
  dsimp only
  rw [hhash, happrover]
  dsimp only
  rw [hp]
  refine ⟨_, rfl, ?_⟩
  have hiff : p.approveTracking.clearedBy chainEvent = true ↔
      chainEvent.txHash ≠ none ∧ p.lastApproveTxHash = chainEvent.txHash ∨
        p.lastApproveError ≠ none := decide_eq_true_iff
  by_cases hclears : p.approveTracking.clearedBy chainEvent = true
  · rw [if_pos hclears, if_pos (hiff.mp hclears)]
    rfl
  · rw [if_neg hclears, if_neg (hiff.not.mp hclears)]
    rfl

namespace SubmissionState

theorem onCall_eq_some {i : ℕ} {phase : RoutePhase}
    {statement : RouteCall → Option SubmissionState} :
    s.onCall i phase statement = some s' ↔
      ∃ call, s.calls[i]? = some call ∧ call.phase = phase ∧ statement call = some s' := by
  unfold onCall
  rw [Option.bind_eq_some_iff]
  refine exists_congr fun call ↦ and_congr_right fun _ ↦ ?_
  rw [Option.ite_none_right_eq_some]

theorem onTransaction_eq_some {j : ℕ}
    {statement : ApprovalTransaction → Option SubmissionState} :
    s.onTransaction j statement = some s' ↔
      ∃ t, s.transactions[j]? = some t ∧ statement t = some s' :=
  Option.bind_eq_some_iff

/-- A call that has written the hash and is to look for the event, or to clear it. -/
def Pending (s : SubmissionState) (txHash : String) : Prop :=
  ∃ (i : ℕ) (call : RouteCall), s.calls[i]? = some call ∧ call.txHash = txHash ∧
    (call.phase = .written ∨ call.phase = .clearing)

/-- An event of the hash is applied, or will be by a transaction that leaves the row alone. -/
def Passed (s : SubmissionState) (proposalHash txHash : String) : Prop :=
  s.Applied proposalHash txHash ∨
    ∃ t ∈ s.transactions, t.chainEvent.approves proposalHash = true ∧
      t.chainEvent.txHash = some txHash ∧ t.missed = true

/-- Whoever has reported an event that went past is still at it. -/
def Attended (proposalHash : String) (s : SubmissionState) : Prop :=
  ∀ txHash, s.row = ⟨some txHash, none⟩ → s.Passed proposalHash txHash → s.Pending txHash

theorem Pending.setCall {i : ℕ} {call : RouteCall} {phase : RoutePhase} (h : s.Pending H)
    (hcall : s.calls[i]? = some call)
    (hkeep : call.txHash = H → call.phase = .written ∨ call.phase = .clearing →
      phase = .written ∨ phase = .clearing) : (s.setCall i call phase).Pending H := by
  obtain ⟨k, c, hk, hH, hphase⟩ := h
  have hlength := (List.getElem?_eq_some_iff.mp hk).1
  by_cases hki : i = k
  · subst hki
    obtain rfl : c = call := Option.some.inj (hk.symm.trans hcall)
    refine ⟨i, { c with phase }, ?_, hH, hkeep hH hphase⟩
    exact List.getElem?_set_self hlength
  · refine ⟨k, c, ?_, hH, hphase⟩
    exact (List.getElem?_set_ne hki).trans hk

/-- A call that moves on without a write keeps all that is attended to. -/
theorem Attended.setCall {i : ℕ} {call : RouteCall} {phase : RoutePhase}
    (h : s.Attended proposalHash) (hcall : s.calls[i]? = some call)
    (hkeep : call.phase = .written ∨ call.phase = .clearing →
      (s.row = ⟨some call.txHash, none⟩ → s.Passed proposalHash call.txHash →
        phase = .written ∨ phase = .clearing)) :
    (s.setCall i call phase).Attended proposalHash := by
  intro H hrow hpassed
  refine (h H hrow hpassed).setCall hcall ?_
  rintro rfl hphase
  exact hkeep hphase hrow hpassed

theorem Attended.lookup {i : ℕ} (h : s.Attended proposalHash) (hstep : s.lookup i = some s') :
    s'.Attended proposalHash := by
  obtain ⟨call, hcall, hphase, hs⟩ := onCall_eq_some.mp hstep
  obtain rfl := Option.some.inj hs
  apply h.setCall hcall
  rintro (hw | hc)
  · cases hphase.symm.trans hw
  · cases hphase.symm.trans hc

theorem Attended.reject {i : ℕ} (h : s.Attended proposalHash) (hstep : s.reject i = some s') :
    s'.Attended proposalHash := by
  obtain ⟨call, hcall, hphase, hs⟩ := onCall_eq_some.mp hstep
  obtain rfl := Option.some.inj hs
  apply h.setCall hcall
  rintro (hw | hc)
  · cases hphase.symm.trans hw
  · cases hphase.symm.trans hc

/-- Whoever writes a hash attends to it. -/
theorem attended_write {i : ℕ} (hstep : s.write i = some s') : s'.Attended proposalHash := by
  obtain ⟨call, hcall, hphase, hs⟩ := onCall_eq_some.mp hstep
  split at hs
  · cases hs
  · obtain rfl := Option.some.inj hs
    intro H hrow _
    refine ⟨i, { call with phase := .written }, ?_, ?_, Or.inl rfl⟩
    · exact List.getElem?_set_self (List.getElem?_eq_some_iff.mp hcall).1
    · exact Option.some.inj (congrArg ApproveTracking.lastApproveTxHash hrow)

theorem recordedApproval_of_applied (h : s.Applied proposalHash H) :
    s.recordedApproval H = true := by
  obtain ⟨r, hr, -, happroves, htxHash⟩ := h
  have htype : r.chainEvent.type = "approval" := (of_decide_eq_true happroves).1
  exact List.any_eq_true.mpr ⟨r, hr, decide_eq_true ⟨htxHash, htype⟩⟩

/-- A check that finds nothing has let nothing past. -/
theorem Attended.check {i : ℕ} (h : s.Attended proposalHash)
    (hcovered : s.Covered proposalHash (.check i)) (hstep : s.check i = some s') :
    s'.Attended proposalHash := by
  obtain ⟨call, hcall, hphase, hs⟩ := onCall_eq_some.mp hstep
  obtain rfl := Option.some.inj hs
  refine h.setCall hcall fun _ _ hpassed ↦ Or.inr (if_pos ?_)
  rcases hpassed with happlied | ⟨t, ht, happroves, htxHash, hmissed⟩
  · exact recordedApproval_of_applied happlied
  · by_contra hnone
    rw [hcovered call hcall (Bool.eq_false_iff.mpr hnone) t ht happroves htxHash] at hmissed
    cases hmissed

theorem Attended.clear {i : ℕ} (h : s.Attended proposalHash) (hstep : s.clear i = some s') :
    s'.Attended proposalHash := by
  obtain ⟨call, hcall, hphase, hs⟩ := onCall_eq_some.mp hstep
  split at hs
  · cases hs
  · obtain rfl := Option.some.inj hs
    intro H hrow hpassed
    by_cases hsame : s.row.lastApproveTxHash = some call.txHash
    · -- the row is empty now
      dsimp only at hrow
      rw [if_pos hsame] at hrow
      cases hrow
    · dsimp only at hrow
      rw [if_neg hsame] at hrow
      refine (h H hrow hpassed).setCall hcall ?_
      rintro rfl _
      exact absurd (congrArg ApproveTracking.lastApproveTxHash hrow) hsame

/-! ## Transactions -/

/-- A transaction that moves on without a commit does not go past more than before. -/
theorem passed_of_setTransaction {j : ℕ} {t : ApprovalTransaction} {phase : TransactionPhase}
    (hj : s.transactions[j]? = some t)
    (hkeep : t.chainEvent.txHash = some H → { t with phase }.missed = true → t.missed = true)
    (h : (s.setTransaction j t phase).Passed proposalHash H) : s.Passed proposalHash H := by
  rcases h with happlied | ⟨u, hu, happroves, htxHash, hmissed⟩
  · exact Or.inl happlied
  · right
    rcases List.mem_or_eq_of_mem_set hu with hu | rfl
    · exact ⟨u, hu, happroves, htxHash, hmissed⟩
    · exact ⟨t, List.mem_of_getElem? hj, happroves, htxHash, hkeep htxHash hmissed⟩

theorem Attended.setTransaction {j : ℕ} {t : ApprovalTransaction} {phase : TransactionPhase}
    (h : s.Attended proposalHash) (hj : s.transactions[j]? = some t)
    (hkeep : s.row = ⟨t.chainEvent.txHash, none⟩ → t.chainEvent.txHash ≠ none →
      { t with phase }.missed = true → t.missed = true) :
    (s.setTransaction j t phase).Attended proposalHash := by
  intro H hrow hpassed
  refine h H hrow (passed_of_setTransaction hj (fun htxHash ↦ ?_) hpassed)
  apply hkeep
  · rw [htxHash]
    exact hrow
  · rw [htxHash]
    exact Option.some_ne_none H

theorem Attended.record {j : ℕ} (h : s.Attended proposalHash) (hstep : s.record j = some s') :
    s'.Attended proposalHash := by
  obtain ⟨t, hj, hs⟩ := onTransaction_eq_some.mp hstep
  obtain ⟨-, hs⟩ := Option.ite_none_right_eq_some.mp hs
  obtain rfl := Option.some.inj hs
  exact h.setTransaction hj fun _ _ hmissed ↦ by cases hmissed

/-- A transaction that reads the reported hash will clear it. -/
theorem Attended.read {j : ℕ} (h : s.Attended proposalHash)
    (hstep : s.read proposalHash j = some s') : s'.Attended proposalHash := by
  obtain ⟨t, hj, hs⟩ := onTransaction_eq_some.mp hstep
  obtain ⟨-, hs⟩ := Option.ite_none_right_eq_some.mp hs
  obtain rfl := Option.some.inj hs
  refine h.setTransaction hj fun hrow hsome hmissed ↦ ?_
  have hclears : s.row.clearedBy t.chainEvent = true := by
    rw [hrow]
    exact decide_eq_true (Or.inl ⟨hsome, rfl⟩)
  simp [ApprovalTransaction.missed, hclears] at hmissed

theorem Attended.upsert {j : ℕ} (h : s.Attended proposalHash) (hstep : s.upsert j = some s') :
    s'.Attended proposalHash := by
  obtain ⟨t, hj, hs⟩ := onTransaction_eq_some.mp hstep
  split at hs
  · next row hphase =>
      obtain rfl := Option.some.inj hs
      refine h.setTransaction hj fun _ _ hmissed ↦ ?_
      unfold ApprovalTransaction.missed at hmissed ⊢
      rw [hphase]
      exact hmissed
  · cases hs

theorem Attended.clearRow {j : ℕ} (h : s.Attended proposalHash)
    (hstep : s.clearRow j = some s') : s'.Attended proposalHash := by
  obtain ⟨t, hj, hs⟩ := onTransaction_eq_some.mp hstep
  split at hs
  · obtain ⟨-, hs⟩ := Option.ite_none_right_eq_some.mp hs
    obtain rfl := Option.some.inj hs
    exact h.setTransaction hj fun _ _ hmissed ↦ by cases hmissed
  · cases hs

theorem Attended.abort {j : ℕ} (h : s.Attended proposalHash) (hstep : s.abort j = some s') :
    s'.Attended proposalHash := by
  obtain ⟨t, hj, hs⟩ := onTransaction_eq_some.mp hstep
  split at hs
  · cases hs
  · obtain rfl := Option.some.inj hs
    exact h.setTransaction hj fun _ _ hmissed ↦ by cases hmissed

/-- What is passed after a commit that leaves the row alone was passed before. -/
theorem Attended.committed {j : ℕ} {t : ApprovalTransaction} (h : s.Attended proposalHash)
    (hj : s.transactions[j]? = some t)
    (hmissed : t.chainEvent.approves proposalHash = true → t.missed = true) :
    (s.committed j t s.row).Attended proposalHash := by
  intro H hrow hpassed
  refine h H hrow ?_
  rcases hpassed with ⟨r, hr, herror, happroves, htxHash⟩ | hopen
  · rcases List.mem_append.mp hr with hr | hr
    · exact Or.inl ⟨r, hr, herror, happroves, htxHash⟩
    · obtain rfl := List.mem_singleton.mp hr
      exact Or.inr ⟨t, List.mem_of_getElem? hj, happroves, htxHash, hmissed happroves⟩
  · have hkeep : t.chainEvent.txHash = some H →
        ({ t with phase := .finished } : ApprovalTransaction).missed = true → t.missed = true := by
      intro _ hfinished
      cases hfinished
    exact passed_of_setTransaction hj hkeep (Or.inr hopen)

theorem Attended.commit {j : ℕ} (h : s.Attended proposalHash)
    (hstep : s.commit proposalHash j = some s') : s'.Attended proposalHash := by
  obtain ⟨t, hj, hs⟩ := onTransaction_eq_some.mp hstep
  split at hs
  · split at hs
    · cases hs
    · next hother =>
        obtain rfl := Option.some.inj hs
        exact h.committed hj fun happroves ↦ absurd happroves hother
  · next row hphase =>
      split at hs
      · cases hs
      · next hkeeps =>
          obtain rfl := Option.some.inj hs
          refine h.committed hj fun _ ↦ ?_
          unfold ApprovalTransaction.missed
          rw [hphase]
          simpa using hkeeps
  · obtain rfl := Option.some.inj hs
    intro H hrow
    cases hrow
  · cases hs

theorem Attended.step {action : SubmissionAction} (h : s.Attended proposalHash)
    (hcovered : s.Covered proposalHash action)
    (hstep : SubmissionState.step proposalHash s action = some s') :
    s'.Attended proposalHash := by
  cases action with
  | receive txHash =>
      obtain rfl := Option.some.inj hstep
      intro H hrow hpassed
      obtain ⟨i, call, hi, hrest⟩ := h H hrow hpassed
      exact ⟨i, call, (List.getElem?_append_left (List.getElem?_eq_some_iff.mp hi).1).trans hi,
        hrest⟩
  | lookup i => exact h.lookup hstep
  | reject i => exact h.reject hstep
  | write i => exact attended_write hstep
  | check i => exact h.check hcovered hstep
  | clear i => exact h.clear hstep
  | start chainEvent fingerprint =>
      obtain ⟨-, hs⟩ := Option.ite_none_right_eq_some.mp hstep
      obtain rfl := Option.some.inj hs
      intro H hrow hpassed
      refine h H hrow (hpassed.imp_right ?_)
      rintro ⟨t, ht, happroves, htxHash, hmissed⟩
      rcases List.mem_append.mp ht with ht | ht
      · exact ⟨t, ht, happroves, htxHash, hmissed⟩
      · obtain rfl := List.mem_singleton.mp ht
        cases hmissed
  | record j => exact h.record hstep
  | read j => exact h.read hstep
  | upsert j => exact h.upsert hstep
  | clearRow j => exact h.clearRow hstep
  | commit j => exact h.commit hstep
  | abort j => exact h.abort hstep
  | quarantine chainEvent fingerprint reason =>
      change (if _ then none else some _) = _ at hstep
      split at hstep
      · cases hstep
      · obtain rfl := Option.some.inj hstep
        intro H hrow hpassed
        refine h H hrow (hpassed.imp_left ?_)
        rintro ⟨r, hr, herror, hrest⟩
        rcases List.mem_append.mp hr with hr | hr
        · exact ⟨r, hr, herror, hrest⟩
        · obtain rfl := List.mem_singleton.mp hr
          cases herror
  | poll =>
      obtain rfl := Option.some.inj hstep
      exact h
  | fail reason =>
      obtain ⟨-, hs⟩ := Option.ite_none_right_eq_some.mp hstep
      obtain rfl := Option.some.inj hs
      intro H hrow
      cases congrArg ApproveTracking.lastApproveError hrow

end SubmissionState

/-- When no call that finds nothing has missed a transaction halfway, no row is left with the
hash of an approval that is applied. -/
theorem reported_approvals_cleared
    (run : ((submissionSystem proposalHash).restrict
      (SubmissionState.Covered proposalHash)).Run as s)
    (hsettled : s.Settled H) : ¬s.Locked proposalHash H := by
  have hattended : s.Attended proposalHash := by
    refine TransitionSystem.Run.invariant (fun _ s ↦ s.Attended proposalHash) ?_ ?_ run
    · rintro s ⟨eventRaws, rfl⟩ H hrow
      cases hrow
    · rintro _ s action s' - h ⟨hcovered, hstep⟩
      exact h.step hcovered hstep
  rintro ⟨hrow, happlied⟩
  obtain ⟨i, call, hi, hH, hphase⟩ := hattended H hrow (Or.inl happlied)
  have hfinished := hsettled.1 call (List.mem_of_getElem? hi) hH
  rw [hfinished] at hphase
  rcases hphase with hphase | hphase <;> cases hphase

/-- A check that is not covered leaves the hash for good once the transaction commits. -/
theorem SubmissionState.locked_of_missed {i j : ℕ} {call : RouteCall} {t : ApprovalTransaction}
    {row : ApproveTracking} (hcall : s.calls[i]? = some call) (hwritten : call.phase = .written)
    (hrow : s.row = ⟨some call.txHash, none⟩)
    (hnew : s.recordedApproval call.txHash = false) (ht : s.transactions[j]? = some t)
    (happroves : t.chainEvent.approves proposalHash = true)
    (htxHash : t.chainEvent.txHash = some call.txHash) (hphase : t.phase = .upserted row)
    (hmissed : row.clearedBy t.chainEvent = false) :
    ∃ s', [.check i, .commit j].foldlM (SubmissionState.step proposalHash) s = some s' ∧
      s'.Locked proposalHash call.txHash := by
  have hcheck : s.check i = some (s.setCall i call .finished) := by
    refine onCall_eq_some.mpr ⟨call, hcall, hwritten, ?_⟩
    rw [hnew]
    rfl
  have hcommit : (s.setCall i call .finished).commit proposalHash j =
      some ((s.setCall i call .finished).committed j t s.row) := by
    refine onTransaction_eq_some.mpr ⟨t, ht, ?_⟩
    rw [hphase]
    dsimp only
    rw [hmissed]
    rfl
  refine ⟨(s.setCall i call .finished).committed j t s.row, ?_, hrow, ?_⟩
  · rw [List.foldlM_cons]
    refine Option.bind_eq_some_iff.mpr ⟨_, hcheck, ?_⟩
    rw [List.foldlM_cons]
    exact Option.bind_eq_some_iff.mpr ⟨_, hcommit, rfl⟩
  · exact ⟨⟨t.chainEvent, t.fingerprint, none⟩,
      List.mem_append_right _ (List.mem_singleton_self _), rfl, happroves, htxHash⟩

namespace Walkthrough

/-- The second approval of the creation of the child. -/
def createApproval : ChainEvent where
  type := "approval"
  event := .payload
    [("proposalHash", .string "6"), ("approver", .string (keyText ownerB)),
      ("approvalCount", .string "3")]
  blockHeight := 4
  blockHash := "3N4"
  parentHash := "3N3"
  txHash := some "5Ju4"
  txMemo := none
  decodeError := none

/-- The report comes between the statements of the transaction. -/
def missedReport : List SubmissionAction :=
  [.receive "5Ju4", .lookup 0, .start createApproval "fingerprint", .record 0, .read 0,
    .write 0, .check 0, .upsert 0, .commit 0]

theorem report_missed : ¬∀ (proposalHash : String) (as : List SubmissionAction)
    (s : SubmissionState) (txHash : String), (submissionSystem proposalHash).Run as s →
      s.Settled txHash → ¬s.Locked proposalHash txHash := by
  intro hclaim
  obtain ⟨s, hs⟩ : ∃ s, missedReport.foldlM (SubmissionState.step "6")
      ⟨.cleared, [], [], [], .cleared⟩ = some s := ⟨_, rfl⟩
  have hrun : (submissionSystem "6").Run missedReport s :=
    ⟨_, ⟨[], rfl⟩, TransitionSystem.path_ofFunction.mpr hs⟩
  obtain rfl := Option.some.inj hs
  refine hclaim _ _ _ "5Ju4" hrun ⟨?_, ?_⟩ ⟨rfl, ?_⟩
  · intro call hcall _
    obtain rfl := List.mem_singleton.mp hcall
    rfl
  · intro t ht _
    obtain rfl := List.mem_singleton.mp ht
    rfl
  · exact ⟨_, List.mem_singleton_self _, rfl, rfl, rfl⟩

/-- The event is recorded but not committed when the call looks for it; its transaction
reads the row later. -/
def timelyReport : List SubmissionAction :=
  [.receive "5Ju4", .lookup 0, .start createApproval "fingerprint", .record 0, .write 0,
    .check 0, .read 0, .upsert 0, .clearRow 0, .commit 0]

/-- Where it leads. -/
def timelyState : SubmissionState where
  row := .cleared
  eventRaws := [⟨createApproval, "fingerprint", none⟩]
  calls := [⟨"5Ju4", .finished⟩]
  transactions := [⟨createApproval, "fingerprint", .finished⟩]
  polled := .cleared

theorem run_timelyReport :
    ((submissionSystem "6").restrict (SubmissionState.Covered "6")).Run timelyReport
      timelyState := by
  refine ⟨_, ⟨[], rfl⟩, _, ⟨trivial, rfl⟩, _, ⟨trivial, rfl⟩, _, ⟨trivial, rfl⟩,
    _, ⟨trivial, rfl⟩, _, ⟨trivial, rfl⟩, _, ⟨?_, rfl⟩, _, ⟨trivial, rfl⟩, _, ⟨trivial, rfl⟩,
    _, ⟨trivial, rfl⟩, _, ⟨trivial, rfl⟩, rfl⟩
  intro call _ _ t ht _ _
  obtain rfl := List.mem_singleton.mp ht
  rfl

theorem timelyReport_cleared : ¬timelyState.Locked "6" "5Ju4" := by
  apply reported_approvals_cleared run_timelyReport
  refine ⟨?_, ?_⟩
  · intro call hcall _
    obtain rfl := List.mem_singleton.mp hcall
    rfl
  · intro t ht _
    obtain rfl := List.mem_singleton.mp ht
    rfl

end Walkthrough

end MinaGuard
