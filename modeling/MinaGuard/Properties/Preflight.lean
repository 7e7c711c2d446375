import MinaGuard.Clients.PreflightSpec

/-!
# The check before a broadcast and the ledger

The check and the ledger go on after the same updates unless a requirement on
`isNew` escapes the check.
-/

namespace MinaGuard

open Preflight

variable {width : ℕ} {tx : List (AppUpdate width)} {txJson : Serialized}
  {read : String → String → Except String AccountState}
  {reads : String × String → NodeAccount width}

/-- The answers for all accounts whose state the updates need. -/
def Answers (read : String → String → Except String AccountState)
    (reads : String × String → NodeAccount width) (updates : List (AppUpdate width)) : Prop :=
  ∀ u ∈ updates, ¬ u.Empty → read u.account.1 u.account.2 = .ok (reads u.account).state

/-- The check goes on after all updates, in order. -/
def Passes (reads : String × String → NodeAccount width) (tx : List (AppUpdate width)) : Prop :=
  ∀ before u after, tx = before ++ u :: after →
    u.Enforced (viewAfter reads before u.account)

theorem forall₂_append {A B : Type} {R : A → B → Prop} {l l' : List A} {m : List B}
    (h : List.Forall₂ R (l ++ l') m) :
    ∃ xs ys, m = xs ++ ys ∧ List.Forall₂ R l xs ∧ List.Forall₂ R l' ys := by
  induction l generalizing m with
  | nil => exact ⟨[], m, rfl, .nil, h⟩
  | cons x l ih =>
      obtain ⟨y, m, hy, hm, rfl⟩ := List.forall₂_cons_left_iff.mp h
      obtain ⟨xs, ys, rfl, hxs, hys⟩ := ih hm
      exact ⟨y :: xs, ys, rfl, .cons hy hxs, hys⟩

theorem allEnforced_iff : AllEnforced reads tx ↔ Passes reads tx :=
  along_iff seenStep fun view u ↦ u.Enforced (view u.account)

/-- An error is reported as such. -/
def orUnavailable : Except String PreflightStatus → PreflightStatus
  | .ok status => status
  | .error _ => .unavailable

theorem checkTransactionState_run {json : JsValue} {updates : List JsValue}
    (hupdates : json.get "accountUpdates" = .array updates) :
    checkTransactionState (.text (some json)) read =
      orUnavailable (checkUpdates read [] updates) := by
  have hparse : parseJson (.text (some json)) = .ok json := rfl
  unfold checkTransactionState
  rw [hparse]
  simp only [bind, Except.bind, hupdates]
  cases checkUpdates read [] updates with
  | ok status => rfl
  | error e => rfl

/-- On complete answers the check is current or stale. -/
theorem checkTransactionState_complete (htx : EncodesTx tx txJson)
    (hanswers : Answers read reads tx) :
    Passes reads tx ∧ checkTransactionState txJson read = .current ∨
      ¬ Passes reads tx ∧ checkTransactionState txJson read = .stale := by
  obtain ⟨json, updates, rfl, hupdates, hencodes⟩ := htx
  rw [checkTransactionState_run hupdates, ← allEnforced_iff]
  have hshows : ∀ v ∈ tx, ¬ v.Empty → Shows read [] reads v.account :=
    fun v hv hskip ↦ Or.inr ⟨rfl, hanswers v hv hskip⟩
  have hrun := checkUpdates_append hencodes hshows []
  rw [List.append_nil] at hrun
  rcases hrun with ⟨hall, states, heq, -⟩ | ⟨hnot, heq⟩
  · refine Or.inl ⟨hall, ?_⟩
    rw [heq]
    rfl
  · refine Or.inr ⟨hnot, ?_⟩
    rw [heq]
    rfl

/-- An incomplete state behind complete ones stops the check, if it gets there. -/
theorem checkTransactionState_incomplete {before after : List (AppUpdate width)}
    {u : AppUpdate width} (htx : EncodesTx (before ++ u :: after) txJson)
    (hanswers : Answers read reads before) (hskip : ¬ u.Empty)
    (hread : ∀ node : NodeAccount width, read u.account.1 u.account.2 ≠ .ok node.state) :
    Passes reads before ∧ checkTransactionState txJson read = .unavailable ∨
      ¬ Passes reads before ∧ checkTransactionState txJson read = .stale := by
  obtain ⟨json, updates, rfl, hupdates, hencodes⟩ := htx
  rw [checkTransactionState_run hupdates, ← allEnforced_iff]
  have hshows : ∀ v ∈ before, ¬ v.Empty → Shows read [] reads v.account :=
    fun v hv hskip ↦ Or.inr ⟨rfl, hanswers v hv hskip⟩
  obtain ⟨xs, rest, rfl, hbefore, hrest⟩ := forall₂_append hencodes
  obtain ⟨x, ys, hu, -, rfl⟩ := List.forall₂_cons_left_iff.mp hrest
  rcases checkUpdates_append hbefore hshows (x :: ys) with
    ⟨hall, states, heq, hframe⟩ | ⟨hnot, heq⟩
  · have hfresh : ∀ v ∈ before, ¬ v.Empty → v.account ≠ u.account := by
      intro v hv hne haccount
      refine hread (reads v.account) ?_
      rw [← haccount]
      exact hanswers v hv hne
    obtain ⟨message, herror⟩ := checkUpdate_incomplete hu hskip (hframe _ hfresh) hread
    have hstop : checkUpdates read states (x :: ys) = .error message := by
      unfold checkUpdates
      rw [herror]
      rfl
    refine Or.inl ⟨hall, ?_⟩
    rw [heq, hstop]
    rfl
  · refine Or.inr ⟨hnot, ?_⟩
    rw [heq]
    rfl

/-- Complete answers can be collected. -/
theorem exists_answers {updates : List (AppUpdate width)}
    (hcomplete : ∀ v ∈ updates, ¬ v.Empty →
      ∃ node : NodeAccount width, read v.account.1 v.account.2 = .ok node.state) :
    ∃ reads, Answers read reads updates := by
  classical
  refine ⟨fun account ↦
    if h : ∃ node : NodeAccount width, read account.1 account.2 = .ok node.state then h.choose
    else .absent, ?_⟩
  intro v hv hskip
  have h := hcomplete v hv hskip
  dsimp only
  rw [dif_pos h]
  exact h.choose_spec

/-- Before an incomplete state there is a first one. -/
theorem exists_first_incomplete (before after : List (AppUpdate width)) {u : AppUpdate width}
    (hskip : ¬ u.Empty)
    (hread : ∀ node : NodeAccount width, read u.account.1 u.account.2 ≠ .ok node.state) :
    ∃ first v rest reads, before ++ u :: after = first ++ v :: rest ∧
      Answers read reads first ∧ ¬ v.Empty ∧
        ∀ node : NodeAccount width, read v.account.1 v.account.2 ≠ .ok node.state := by
  induction hlength : before.length using Nat.strong_induction_on generalizing before u after with
  | _ n ih =>
      by_cases hcomplete : ∀ v ∈ before, ¬ v.Empty →
          ∃ node : NodeAccount width, read v.account.1 v.account.2 = .ok node.state
      · obtain ⟨reads, hanswers⟩ := exists_answers hcomplete
        exact ⟨before, u, after, reads, rfl, hanswers, hskip, hread⟩
      · push Not at hcomplete
        obtain ⟨v, hv, hne, hincomplete⟩ := hcomplete
        obtain ⟨first, rest, rfl⟩ := List.append_of_mem hv
        rw [List.append_assoc, List.cons_append]
        refine ih first.length ?_ first (rest ++ u :: after) hne hincomplete rfl
        rw [← hlength, List.length_append, List.length_cons]
        omega

/-- Whatever JSON the transaction has, the check and the ledger agree on it. -/
def VerdictsAgree (read : String → String → Except String AccountState)
    (reads : String × String → NodeAccount width) (tx : List (AppUpdate width)) : Prop :=
  ∀ txJson, EncodesTx tx txJson →
    (checkTransactionState txJson read = .current ↔ Satisfied reads tx)

theorem current_iff_passes (htx : EncodesTx tx txJson) (hanswers : Answers read reads tx) :
    checkTransactionState txJson read = .current ↔ Passes reads tx := by
  rcases checkTransactionState_complete htx hanswers with ⟨hpasses, hcheck⟩ | ⟨hnot, hcheck⟩
  · exact ⟨fun _ ↦ hpasses, fun _ ↦ hcheck⟩
  · rw [hcheck]
    exact ⟨nofun, fun h ↦ absurd h hnot⟩

/-- What a transaction begins with is a transaction. -/
theorem encodesTx_of_prefix {before : List (AppUpdate width)} (htx : EncodesTx tx txJson)
    (hbefore : before <+: tx) : ∃ json, EncodesTx before json := by
  obtain ⟨after, rfl⟩ := hbefore
  obtain ⟨_, _, -, -, hencodes⟩ := htx
  obtain ⟨xs, _, -, hxs, -⟩ := forall₂_append hencodes
  exact ⟨.text (some (.object [("accountUpdates", .array xs)])), _, xs, rfl, rfl, hxs⟩

/-- The two accept the same updates as long as none escapes the check. -/
theorem passes_iff_satisfied (hseen : ∀ before u after, tx = before ++ u :: after →
    Satisfied reads before → Seen reads before u) : Passes reads tx ↔ Satisfied reads tx := by
  induction tx using List.reverseRecOn with
  | nil => exact ⟨fun _ _ _ _ h ↦ by simp at h, fun _ _ _ _ h ↦ by simp at h⟩
  | append_singleton before u ih =>
      obtain ⟨hbefore, hlast⟩ := forall_places_concat.mp hseen
      unfold Passes Satisfied at *
      rw [forall_places_concat, forall_places_concat, ih hbefore]
      exact and_congr_right fun hsatisfied ↦ seen_iff.mp (hlast hsatisfied)

/-- They part at the first update that escapes. -/
theorem seen_of_agrees {before : List (AppUpdate width)} {u : AppUpdate width}
    (hbefore : Passes reads before ↔ Satisfied reads before)
    (hafter : Passes reads (before ++ [u]) ↔ Satisfied reads (before ++ [u]))
    (hsatisfied : Satisfied reads before) : Seen reads before u := by
  have hpasses := hbefore.mpr hsatisfied
  unfold Passes Satisfied at *
  rw [forall_places_concat, forall_places_concat] at hafter
  refine seen_iff.mpr ⟨fun h ↦ (hafter.mp ⟨hpasses, h⟩).2, fun h ↦ (hafter.mpr ⟨hsatisfied, h⟩).2⟩

/-- On complete answers the check says current or stale, and it agrees with the ledger on a
transaction and everything the transaction begins with if and only if no update escapes it
behind updates that the ledger accepts.  Where both accept, no update escapes at all.  A
needed state that is not complete is never current, and the check that gets there says
unavailable. -/
theorem checkTransactionState_agrees (htx : EncodesTx tx txJson) :
    (∀ reads, Answers read reads tx →
      checkTransactionState txJson read ≠ .unavailable ∧
        ((∀ before, before <+: tx → VerdictsAgree read reads before) ↔
          ∀ before u after, tx = before ++ u :: after → Satisfied reads before →
            Seen reads before u) ∧
        (checkTransactionState txJson read = .current → Satisfied reads tx →
          ∀ before u after, tx = before ++ u :: after → Seen reads before u)) ∧
      ∀ before u after, tx = before ++ u :: after → ¬ u.Empty →
        (∀ node : NodeAccount width, read u.account.1 u.account.2 ≠ .ok node.state) →
          checkTransactionState txJson read ≠ .current ∧
            ∀ reads, Answers read reads before → Passes reads before →
              checkTransactionState txJson read = .unavailable := by
  constructor
  · intro reads hanswers
    have hverdict {before : List (AppUpdate width)} (hbefore : before <+: tx) {json : Serialized}
        (hencodes : EncodesTx before json) :
        checkTransactionState json read = .current ↔ Passes reads before :=
      current_iff_passes hencodes fun u hu ↦ hanswers u (hbefore.subset hu)
    refine ⟨?_, ⟨fun hagrees before u after heq hsatisfied ↦ ?_, ?_⟩, ?_⟩
    · rcases checkTransactionState_complete htx hanswers with ⟨-, hcheck⟩ | ⟨-, hcheck⟩
      · rw [hcheck]
        nofun
      · rw [hcheck]
        nofun
    · have hiff {front : List (AppUpdate width)} (hfront : front <+: tx) :
          Passes reads front ↔ Satisfied reads front := by
        obtain ⟨json, hjson⟩ := encodesTx_of_prefix htx hfront
        exact (hverdict hfront hjson).symm.trans (hagrees front hfront json hjson)
      refine seen_of_agrees (hiff ⟨u :: after, heq.symm⟩) (hiff ⟨after, ?_⟩) hsatisfied
      rw [heq, List.append_assoc, List.singleton_append]
    · rintro hseen before ⟨rest, rfl⟩ json hjson
      refine (hverdict (List.prefix_append before rest) hjson).trans
        (passes_iff_satisfied fun front u back heq ↦ hseen front u (back ++ rest) ?_)
      rw [heq, List.append_assoc, List.cons_append]
    · intro hcurrent hsatisfied before u after heq
      have hpasses := (hverdict (List.prefix_refl tx) htx).mp hcurrent
      exact seen_iff.mpr
        ⟨fun _ ↦ hsatisfied before u after heq, fun _ ↦ hpasses before u after heq⟩
  · rintro before u after rfl hskip hread
    constructor
    · obtain ⟨first, v, rest, reads, heq, hanswers, hne, hincomplete⟩ :=
        exists_first_incomplete before after hskip hread
      rw [heq] at htx
      rcases checkTransactionState_incomplete htx hanswers hne hincomplete with
        ⟨-, hcheck⟩ | ⟨-, hcheck⟩ <;> rw [hcheck] <;> exact nofun
    · intro reads hanswers hpasses
      rcases checkTransactionState_incomplete htx hanswers hskip hread with
        ⟨-, hcheck⟩ | ⟨hnot, -⟩
      · exact hcheck
      · exact absurd hpasses hnot

namespace Walkthrough

/-- A deployment: all fields written, none constrained, on a new account. -/
def deployment : AppUpdate 2 where
  account := ("vault", "1")
  isNew := some true
  expected := fun _ ↦ none
  written := fun i ↦ some i.val

def deploymentJson : JsValue :=
  .object [("accountUpdates", .array [.object [("body", .object [
    ("publicKey", .string "vault"), ("tokenId", .string "1"),
    ("preconditions", .object [("account", .object [
      ("state", .array [.null, .null]), ("isNew", .boolean true)])]),
    ("update", .object [("appState", .array [.string "0", .string "1"])])])]])]

/-- The account was deployed in the meantime. -/
def deployedAccount : NodeAccount 2 := .full fun _ ↦ 7

theorem encodesTx_deployment : EncodesTx [deployment] (.text (some deploymentJson)) :=
  ⟨deploymentJson, _, rfl, rfl, .cons ⟨rfl, rfl, rfl, rfl, rfl⟩ .nil⟩

theorem not_satisfied_deployment : ¬ Satisfied (fun _ ↦ deployedAccount) [deployment] := by
  intro h
  exact Bool.noConfusion ((h [] deployment [] rfl).1 true rfl)

/-- The check says current where the ledger refuses the transaction. -/
theorem deployed_again_is_current :
    EncodesTx [deployment] (.text (some deploymentJson)) ∧
      Answers (fun _ _ ↦ .ok deployedAccount.state) (fun _ ↦ deployedAccount) [deployment] ∧
      checkTransactionState (.text (some deploymentJson))
        (fun _ _ ↦ .ok deployedAccount.state) = .current ∧
      ¬ Satisfied (fun _ ↦ deployedAccount) [deployment] :=
  ⟨encodesTx_deployment, fun _ _ _ ↦ rfl, by decide, not_satisfied_deployment⟩

/-- A call that expects what the deployment wrote. -/
def firstCall : AppUpdate 2 where
  account := ("vault", "1")
  isNew := none
  expected := fun i ↦ some i.val
  written := fun _ ↦ none

def deploymentAndCallJson : JsValue :=
  .object [("accountUpdates", .array [.object [("body", .object [
    ("publicKey", .string "vault"), ("tokenId", .string "1"),
    ("preconditions", .object [("account", .object [
      ("state", .array [.null, .null]), ("isNew", .boolean true)])]),
    ("update", .object [("appState", .array [.string "0", .string "1"])])])],
    .object [("body", .object [
    ("publicKey", .string "vault"), ("tokenId", .string "1"),
    ("preconditions", .object [("account", .object [
      ("state", .array [.string "0", .string "1"]), ("isNew", .null)])]),
    ("update", .object [("appState", .array [.null, .null])])])]])]

theorem encodesTx_deploymentAndCall :
    EncodesTx [deployment, firstCall] (.text (some deploymentAndCallJson)) :=
  ⟨deploymentAndCallJson, _, rfl, rfl,
    .cons ⟨rfl, rfl, rfl, rfl, rfl⟩ (.cons ⟨rfl, rfl, rfl, rfl, rfl⟩ .nil)⟩

/-- On an account that is still absent the two agree. -/
theorem deployment_agrees :
    EncodesTx [deployment, firstCall] (.text (some deploymentAndCallJson)) ∧
      checkTransactionState (.text (some deploymentAndCallJson)) (fun _ _ ↦ .ok .absent) =
        .current ∧
      Satisfied (fun _ ↦ .absent) [deployment, firstCall] := by
  have hcurrent : checkTransactionState (.text (some deploymentAndCallJson))
      (fun _ _ ↦ .ok .absent) = .current := by decide
  have hagrees := ((@checkTransactionState_agrees 2 [deployment, firstCall] _
    (fun _ _ ↦ .ok .absent) encodesTx_deploymentAndCall).1 (fun _ ↦ .absent)
    fun _ _ _ ↦ rfl).2.1
  have hdeploys : ¬ deployment.Empty := fun hempty ↦ nomatch (hempty 0).2
  have hcalls : ¬ firstCall.Empty := fun hempty ↦ nomatch (hempty 0).1
  have hwritten : Written [deployment] ("vault", "1") :=
    ⟨deployment, List.mem_cons_self, hdeploys, rfl⟩
  refine ⟨encodesTx_deploymentAndCall, hcurrent, (hagrees.mpr ?_ _ (List.prefix_refl _) _
    encodesTx_deploymentAndCall).mp hcurrent⟩
  refine forall_places_concat (l := [deployment]) |>.mpr
    ⟨forall_places_concat (l := []) |>.mpr ⟨?_, fun _ ↦ ?_⟩, fun _ ↦ ?_⟩
  · intro before u after heq
    simp at heq
  · refine ⟨fun hempty ↦ absurd hempty hdeploys, ?_, fun _ _ _ ↦ nofun, ?_⟩
    · rintro - (⟨fields, hfull⟩ | ⟨v, hv, -⟩)
      · cases hfull
      · cases hv
    · rintro - - - ⟨v, hv, -⟩
      cases hv
  · refine ⟨fun hempty ↦ absurd hempty hcalls, fun _ _ ↦ nofun, fun _ _ _ ↦ nofun, ?_⟩
    exact fun _ _ hunwritten ↦ absurd hwritten hunwritten

end Walkthrough

end MinaGuard
