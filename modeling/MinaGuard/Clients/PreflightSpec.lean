import Mathlib.Data.List.OfFn
import MinaGuard.Clients.Preflight

/-!
# What the check enforces

`checkUpdates` on the JSON of a transaction, as a fold over the transaction
itself: each update that has a state precondition or a write is compared with
the check's own view of its account.
-/

namespace MinaGuard

open Foundations

namespace Preflight

section Along

variable {S A : Type} (step : S → A → S) (P : S → A → Prop)

/-- `P` holds of each element and the state before it. -/
def Along : S → List A → Prop
  | _, [] => True
  | s, x :: l => P s x ∧ Along (step s x) l

theorem along_iff {s : S} {l : List A} :
    Along step P s l ↔
      ∀ before x after, l = before ++ x :: after → P (before.foldl step s) x := by
  induction l generalizing s with
  | nil => exact ⟨fun _ before x after h ↦ by simp at h, fun _ ↦ trivial⟩
  | cons y l ih =>
      constructor
      · rintro ⟨hy, hl⟩ before x after heq
        cases before with
        | nil =>
            obtain ⟨rfl, -⟩ := List.cons.inj heq
            exact hy
        | cons z before =>
            obtain ⟨rfl, hrest⟩ := List.cons.inj heq
            exact ih.mp hl before x after hrest
      · intro h
        refine ⟨h [] y l rfl, ih.mpr ?_⟩
        intro before x after heq
        exact h (y :: before) x after (by rw [heq, List.cons_append])

/-- What holds at each place of a list that has grown by one element. -/
theorem forall_places_concat {P : List A → A → Prop} {l : List A} {y : A} :
    (∀ before x after, l ++ [y] = before ++ x :: after → P before x) ↔
      (∀ before x after, l = before ++ x :: after → P before x) ∧ P l y := by
  constructor
  · intro h
    refine ⟨fun before x after heq ↦ h before x (after ++ [y]) ?_, h l y [] rfl⟩
    rw [heq, List.append_assoc, List.cons_append]
  · rintro ⟨hl, hy⟩ before x after heq
    rcases List.eq_nil_or_concat' after with rfl | ⟨after, z, rfl⟩
    · obtain ⟨rfl, hlast⟩ := List.append_inj' heq rfl
      obtain ⟨rfl, -⟩ := List.cons.inj hlast
      exact hy
    · rw [← List.cons_append, ← List.append_assoc] at heq
      exact hl before x after (List.append_inj' heq rfl).1

end Along

theorem slot_ok (value : Option ℕ) :
    (isNull (slotJson value) || isDecimal (slotJson value)) = true := by
  cases value with
  | none => rfl
  | some n => exact isCanonicalNumber_decimal n

theorem isNull_slotJson {value : Option ℕ} : isNull (slotJson value) = true ↔ value = none := by
  cases value with
  | none => exact ⟨fun _ ↦ rfl, fun _ ↦ rfl⟩
  | some n => exact ⟨nofun, nofun⟩

theorem bigInt_decimal (n : ℕ) : bigInt (.string (decimal n)) = some n := ofDecimal_decimal n

variable {width : ℕ}

/-- The JSON of fields. -/
def fieldsJson (fields : Fin width → ℕ) : List JsValue :=
  List.ofFn fun i ↦ .string (decimal (fields i))

def slotsJson (slots : Fin width → Option ℕ) : List JsValue := List.ofFn fun i ↦ slotJson (slots i)

theorem zipWith_ofFn {A B C : Type} (f : A → B → C) (a : Fin width → A) (b : Fin width → B) :
    List.zipWith f (List.ofFn a) (List.ofFn b) = List.ofFn fun i ↦ f (a i) (b i) := by
  apply List.ext_getElem
  · simp
  · intro i hi hi'
    simp

theorem all_slotsJson (slots : Fin width → Option ℕ) :
    ((slotsJson slots).all fun x ↦ isNull x || isDecimal x) = true := by
  rw [List.all_eq_true]
  exact List.forall_mem_ofFn_iff.mpr fun i ↦ slot_ok (slots i)

theorem all_isNull_slotsJson {slots : Fin width → Option ℕ} :
    (slotsJson slots).all isNull = true ↔ ∀ i, slots i = none := by
  rw [List.all_eq_true]
  exact List.forall_mem_ofFn_iff.trans (forall_congr' fun i ↦ isNull_slotJson)

theorem all_isDecimal_fieldsJson (fields : Fin width → ℕ) :
    (fieldsJson fields).all isDecimal = true := by
  rw [List.all_eq_true]
  exact List.forall_mem_ofFn_iff.mpr fun i ↦ isCanonicalNumber_decimal (fields i)

/-- Some expected field differs. -/
theorem any_differs_iff {expected : Fin width → Option ℕ} {fields : Fin width → ℕ} :
    (((slotsJson expected).zip (fieldsJson fields)).any fun x ↦
        !isNull x.1 && bigInt x.1 ≠ bigInt x.2) = true ↔
      ¬ ∀ i value, expected i = some value → fields i = value := by
  have hzip : (slotsJson expected).zip (fieldsJson fields) =
      List.ofFn fun i ↦ (slotJson (expected i), JsValue.string (decimal (fields i))) :=
    zipWith_ofFn Prod.mk _ _
  have hslot (i : Fin width) : (!isNull (slotJson (expected i)) &&
      bigInt (slotJson (expected i)) ≠ bigInt (.string (decimal (fields i)))) = true ↔
      ¬ ∀ value, expected i = some value → fields i = value := by
    rw [bigInt_decimal]
    cases hexpected : expected i with
    | none => simp [slotJson, isNull]
    | some n =>
        change (true && decide (bigInt (.string (decimal n)) ≠ some (fields i))) = true ↔ _
        rw [bigInt_decimal, Bool.true_and, decide_eq_true_iff]
        simp [eq_comm]
  rw [hzip, List.any_eq_true, not_forall]
  constructor
  · rintro ⟨x, hx, hdiffers⟩
    obtain ⟨i, rfl⟩ := List.mem_ofFn.mp hx
    exact ⟨i, (hslot i).mp hdiffers⟩
  · rintro ⟨i, hi⟩
    exact ⟨_, List.mem_ofFn.mpr ⟨i, rfl⟩, (hslot i).mpr hi⟩

theorem zipWith_orElse (written : Fin width → Option ℕ) (fields : Fin width → ℕ) :
    List.zipWith JsValue.orElse (slotsJson written) (fieldsJson fields) =
      fieldsJson fun i ↦ (written i).getD (fields i) := by
  unfold slotsJson fieldsJson
  rw [zipWith_ofFn]
  congr 1
  funext i
  change (slotJson (written i)).orElse _ = .string (decimal ((written i).getD (fields i)))
  cases written i with
  | none => rfl
  | some n => rfl

namespace AppUpdate

variable (u : AppUpdate width)

/-- The check stops at the kind of the account. -/
def Refuses : NodeAccount width → Prop
  | .absent => u.isNew ≠ some true ∧ u.Constrained
  | .bare => u.isNew = some true
  | .full _ => False

/-- The check goes on. -/
def Enforced (a : NodeAccount width) : Prop :=
  u.Empty ∨ ¬ u.Refuses a ∧ u.Matches a.ledger.fields

end AppUpdate

open Classical in
/-- The check's view of the accounts after an update. -/
noncomputable def seenStep (view : String × String → NodeAccount width) (u : AppUpdate width) :
    String × String → NodeAccount width :=
  if u.Empty then view
  else Function.update view u.account (.full (u.write (view u.account).ledger.fields))

/-- The check's view of the accounts after updates. -/
noncomputable def viewAfter (reads : String × String → NodeAccount width) :
    List (AppUpdate width) → String × String → NodeAccount width :=
  List.foldl seenStep reads

/-- The check goes on after each update. -/
def AllEnforced : (String × String → NodeAccount width) → List (AppUpdate width) → Prop :=
  Along seenStep fun view u ↦ u.Enforced (view u.account)

/-- The map and the answers still to come show the view of an account. -/
def Shows (read : String → String → Except String AccountState) (states : States)
    (view : String × String → NodeAccount width) (account : String × String) : Prop :=
  states.get? account = some (view account).state ∨
    states.get? account = none ∧ read account.1 account.2 = .ok (view account).state

variable {read : String → String → Except String AccountState} {states : States}
  {view : String × String → NodeAccount width} {u : AppUpdate width} {x : JsValue}

theorem isNew_strictEq (isNew : Option Bool) :
    (isNewJson isNew).strictEq (.boolean true) = true ↔ isNew = some true := by
  rcases isNew with - | (- | -)
  · exact ⟨nofun, nofun⟩
  · exact ⟨nofun, nofun⟩
  · exact ⟨fun _ ↦ rfl, fun _ ↦ rfl⟩

theorem any_constrained_iff {expected : Fin width → Option ℕ} :
    ((slotsJson expected).any fun value ↦ !isNull value) = true ↔ ∃ i, expected i ≠ none := by
  rw [List.any_eq_true]
  constructor
  · rintro ⟨x, hx, hnull⟩
    obtain ⟨i, rfl⟩ := List.mem_ofFn.mp hx
    refine ⟨i, fun hnone ↦ ?_⟩
    rw [isNull_slotJson.mpr hnone] at hnull
    cases hnull
  · rintro ⟨i, hi⟩
    refine ⟨_, List.mem_ofFn.mpr ⟨i, rfl⟩, ?_⟩
    rw [Bool.not_eq_true', Bool.eq_false_iff, ne_eq, isNull_slotJson]
    exact hi

theorem replicate_zero (slots : Fin width → Option ℕ) :
    List.replicate (slotsJson slots).length (.string "0") = fieldsJson fun _ : Fin width ↦ 0 := by
  unfold slotsJson fieldsJson
  rw [List.length_ofFn, List.ofFn_const]
  rfl

/-- The kind of an account as the check reads it. -/
theorem startingState_state (a : NodeAccount width) :
    (u.Refuses a ∧ startingState a.state ((isNewJson u.isNew).strictEq (.boolean true))
        (slotsJson u.expected) = none) ∨
      ¬ u.Refuses a ∧ startingState a.state ((isNewJson u.isNew).strictEq (.boolean true))
        (slotsJson u.expected) = some (fieldsJson a.ledger.fields) := by
  cases a with
  | absent =>
      by_cases hrefuses : u.isNew ≠ some true ∧ u.Constrained
      · refine Or.inl ⟨hrefuses, if_pos ?_⟩
        rw [Bool.and_eq_true, Bool.not_eq_true', Bool.eq_false_iff, ne_eq, isNew_strictEq]
        exact ⟨hrefuses.1, any_constrained_iff.mpr hrefuses.2⟩
      · refine Or.inr ⟨hrefuses, (if_neg ?_).trans (congrArg some (replicate_zero _))⟩
        rw [Bool.and_eq_true, Bool.not_eq_true', Bool.eq_false_iff, ne_eq, isNew_strictEq]
        exact fun h ↦ hrefuses ⟨h.1, any_constrained_iff.mp h.2⟩
  | bare =>
      by_cases hnew : u.isNew = some true
      · exact Or.inl ⟨hnew, if_pos ((isNew_strictEq _).mpr hnew)⟩
      · refine Or.inr ⟨hnew, (if_neg ?_).trans (congrArg some (replicate_zero _))⟩
        rwa [isNew_strictEq]
  | full fields => exact Or.inr ⟨id, rfl⟩

/-- The comparison: stale, or the update's writes. -/
theorem compareState_state (hskip : ¬ u.Empty) :
    compareState states u.account ((isNewJson u.isNew).strictEq (.boolean true))
        (slotsJson u.expected) (slotsJson u.written) (view u.account).state =
      .ok (open Classical in
        if u.Enforced (view u.account) then
          some (states.set u.account (seenStep view u u.account).state)
        else none) := by
  unfold compareState
  rcases startingState_state (u := u) (view u.account) with
    ⟨hrefuses, hstart⟩ | ⟨hrefuses, hstart⟩
  · have hnot : ¬ u.Enforced (view u.account) := fun h ↦ h.elim hskip fun h ↦ h.1 hrefuses
    rw [hstart, if_neg hnot]
  · have hcomplete : ¬ ((fieldsJson (view u.account).ledger.fields).length ≠
        (slotsJson u.expected).length ∨
        (!(fieldsJson (view u.account).ledger.fields).all isDecimal) = true) := by
      rw [all_isDecimal_fieldsJson]
      simp [fieldsJson, slotsJson]
    rw [hstart]
    dsimp only
    rw [if_neg hcomplete]
    by_cases hmatches : u.Matches (view u.account).ledger.fields
    · have henforced : u.Enforced (view u.account) := Or.inr ⟨hrefuses, hmatches⟩
      rw [if_neg (fun h ↦ any_differs_iff.mp h hmatches), if_pos henforced, zipWith_orElse]
      unfold seenStep
      rw [if_neg hskip, Function.update_self]
      rfl
    · have hnot : ¬ u.Enforced (view u.account) := fun h ↦ h.elim hskip fun h ↦ hmatches h.2
      rw [if_pos (any_differs_iff.mpr hmatches), if_neg hnot]

/-- The JSON of an update passes the checks of its form. -/
theorem checkUpdate_wellFormed (hencodes : u.Encodes x) :
    checkUpdate read states x = (open Classical in
      if u.Empty then .ok (some states)
      else (knownState read states u.account).bind
        (compareState states u.account ((isNewJson u.isNew).strictEq (.boolean true))
          (slotsJson u.expected) (slotsJson u.written))) := by
  have hexpected : (((x.get "body").get "preconditions").get "account").get "state" =
      .array (slotsJson u.expected) := hencodes.expected
  have hwritten : ((x.get "body").get "update").get "appState" =
      .array (slotsJson u.written) := hencodes.written
  have hwellFormed : ¬ ((slotsJson u.expected).length ≠ (slotsJson u.written).length ∨
      (!((slotsJson u.expected).all fun x ↦ isNull x || isDecimal x)) = true ∨
      (!((slotsJson u.written).all fun x ↦ isNull x || isDecimal x)) = true) := by
    rw [all_slotsJson, all_slotsJson]
    simp [slotsJson]
  have hempty : ((slotsJson u.expected).all isNull = true ∧
      (slotsJson u.written).all isNull = true) ↔ u.Empty := by
    rw [all_isNull_slotsJson, all_isNull_slotsJson]
    exact forall_and.symm
  simp only [checkUpdate, hencodes.publicKey, hencodes.tokenId, hexpected, hwritten,
    hencodes.isNew]
  rw [if_neg hwellFormed]
  by_cases hskip : u.Empty
  · rw [if_pos (hempty.mpr hskip), if_pos hskip]
    rfl
  · rw [if_neg (mt hempty.mp hskip), if_neg hskip]
    rfl

/-- One update of a transaction: skipped, stale, or compared and written. -/
theorem checkUpdate_encodes (hencodes : u.Encodes x)
    (hshows : ¬ u.Empty → Shows read states view u.account) :
    checkUpdate read states x = .ok (open Classical in
      if u.Empty then some states
      else if u.Enforced (view u.account) then
        some (states.set u.account (seenStep view u u.account).state)
      else none) := by
  rw [checkUpdate_wellFormed hencodes]
  by_cases hskip : u.Empty
  · rw [if_pos hskip, if_pos hskip]
  · have hknown : knownState read states u.account = .ok (view u.account).state := by
      unfold knownState
      rcases hshows hskip with hget | ⟨hget, hread⟩
      · rw [hget]
      · rw [hget]
        exact hread
    rw [if_neg hskip, if_neg hskip, hknown]
    exact compareState_state hskip

/-- What the map shows is kept by a step of the check. -/
theorem Shows.step {account : String × String} (hshows : Shows read states view account)
    (hskip : ¬ u.Empty) :
    Shows read (states.set u.account (seenStep view u u.account).state) (seenStep view u)
      account := by
  by_cases heq : account = u.account
  · subst heq
    exact Or.inl InsertionMap.get?_set_self
  · have hsame : seenStep view u account = view account := by
      unfold seenStep
      rw [if_neg hskip, Function.update_of_ne heq]
    unfold Shows
    rw [InsertionMap.get?_set_of_ne heq, hsame]
    exact hshows

/-- The updates in front: the check goes on behind them, or is stale. -/
theorem checkUpdates_append {us : List (AppUpdate width)} {xs : List JsValue}
    (hencodes : List.Forall₂ AppUpdate.Encodes us xs)
    (hshows : ∀ v ∈ us, ¬ v.Empty → Shows read states view v.account) (rest : List JsValue) :
    (AllEnforced view us ∧ ∃ states',
      checkUpdates read states (xs ++ rest) = checkUpdates read states' rest ∧
        ∀ account, (∀ v ∈ us, ¬ v.Empty → v.account ≠ account) →
          states'.get? account = states.get? account) ∨
      ¬ AllEnforced view us ∧ checkUpdates read states (xs ++ rest) = .ok .stale := by
  induction hencodes generalizing states view with
  | nil => exact Or.inl ⟨trivial, states, rfl, fun _ _ ↦ rfl⟩
  | @cons u x us xs hu hus ih =>
      have hstep := checkUpdate_encodes hu (hshows u List.mem_cons_self)
      rw [List.cons_append, checkUpdates, hstep]
      have htail := fun v hv ↦ hshows v (List.mem_cons_of_mem _ hv)
      by_cases hskip : u.Empty
      · have hview : seenStep view u = view := if_pos hskip
        rw [if_pos hskip]
        rcases ih htail with ⟨hall, states', heq, hframe⟩ | ⟨hnot, heq⟩
        · refine Or.inl ⟨⟨Or.inl hskip, by rwa [hview]⟩, states', heq, ?_⟩
          exact fun account h ↦ hframe account fun v hv ↦ h v (List.mem_cons_of_mem _ hv)
        · refine Or.inr ⟨fun h ↦ hnot ?_, heq⟩
          have htailEnforced := h.2
          rwa [hview] at htailEnforced
      · rw [if_neg hskip]
        by_cases henforced : u.Enforced (view u.account)
        · rw [if_pos henforced]
          have hshows' : ∀ v ∈ us, ¬ v.Empty →
              Shows read (states.set u.account (seenStep view u u.account).state)
                (seenStep view u) v.account :=
            fun v hv hne ↦ (htail v hv hne).step hskip
          rcases ih hshows' with ⟨hall, states', heq, hframe⟩ | ⟨hnot, heq⟩
          · refine Or.inl ⟨⟨henforced, hall⟩, states', heq, ?_⟩
            intro account h
            rw [hframe account fun v hv ↦ h v (List.mem_cons_of_mem _ hv),
              InsertionMap.get?_set_of_ne (h u List.mem_cons_self hskip).symm]
          · exact Or.inr ⟨fun h ↦ hnot h.2, heq⟩
        · rw [if_neg henforced]
          exact Or.inr ⟨fun h ↦ henforced h.1, rfl⟩

/-- Decimals without leading zeros, one for each field. -/
theorem complete_fields {slots : Fin width → Option ℕ} {state : List JsValue}
    (hcomplete : ¬ (state.length ≠ (slotsJson slots).length ∨ (!state.all isDecimal) = true)) :
    ∃ fields : Fin width → ℕ, state = fieldsJson fields := by
  rw [not_or, not_not, Bool.not_eq_true', Bool.not_eq_false, List.all_eq_true] at hcomplete
  obtain ⟨hlength, hall⟩ := hcomplete
  have hwidth : state.length = width := by
    rw [hlength]
    exact List.length_ofFn
  have hfield (i : Fin width) :
      ∃ n, state.get (i.cast hwidth.symm) = .string (decimal n) := by
    have hdecimal := hall _ (List.get_mem state (i.cast hwidth.symm))
    cases hx : state.get (i.cast hwidth.symm) with
    | string text =>
        rw [hx] at hdecimal
        obtain ⟨n, rfl⟩ := exists_decimal_of_isCanonicalNumber hdecimal
        exact ⟨n, rfl⟩
    | _ =>
        rw [hx] at hdecimal
        cases hdecimal
  choose fields hfields using hfield
  refine ⟨fields, ?_⟩
  change state = List.ofFn fun i ↦ JsValue.string (decimal (fields i))
  apply List.ext_getElem (hwidth.trans List.length_ofFn.symm)
  intro i hi hi'
  rw [List.getElem_ofFn, ← hfields]
  rfl

/-- A state that is needed and not complete stops the check. -/
theorem checkUpdate_incomplete (hencodes : u.Encodes x) (hskip : ¬ u.Empty)
    (hnone : states.get? u.account = none)
    (hread : ∀ node : NodeAccount width, read u.account.1 u.account.2 ≠ .ok node.state) :
    ∃ message, checkUpdate read states x = .error message := by
  have hknown : knownState read states u.account = read u.account.1 u.account.2 := by
    unfold knownState
    rw [hnone]
  rw [checkUpdate_wellFormed hencodes, if_neg hskip, hknown]
  cases hanswer : read u.account.1 u.account.2 with
  | error message => exact ⟨message, rfl⟩
  | ok known =>
      rw [hanswer] at hread
      cases known with
      | absent => exact absurd rfl (hread .absent)
      | bare => exact absurd rfl (hread .bare)
      | full state =>
          refine ⟨"Incomplete account state", if_pos ?_⟩
          by_contra hcomplete
          obtain ⟨fields, rfl⟩ := complete_fields hcomplete
          exact hread (.full fields) rfl

/-! ## The view and the ledger -/

variable {reads : String × String → NodeAccount width} {before : List (AppUpdate width)}
  {account : String × String}

/-- An earlier update of the account. -/
def Touched (before : List (AppUpdate width)) (account : String × String) : Prop :=
  ∃ v ∈ before, v.account = account

/-- An earlier update of the account that has a state precondition or a write. -/
def Written (before : List (AppUpdate width)) (account : String × String) : Prop :=
  ∃ v ∈ before, ¬ v.Empty ∧ v.account = account

theorem ledgerAfter_concat (v : AppUpdate width) :
    ledgerAfter reads (before ++ [v]) =
      Function.update (ledgerAfter reads before) v.account
        (v.apply (ledgerAfter reads before v.account)) := by
  unfold ledgerAfter
  rw [List.foldl_append, List.foldl_cons, List.foldl_nil]

theorem viewAfter_concat (v : AppUpdate width) :
    viewAfter reads (before ++ [v]) = seenStep (viewAfter reads before) v := by
  unfold viewAfter
  rw [List.foldl_append, List.foldl_cons, List.foldl_nil]

theorem AppUpdate.Empty.write (hempty : u.Empty) (fields : Fin width → ℕ) :
    u.write fields = fields := by
  funext i
  unfold AppUpdate.write
  rw [(hempty i).2]
  rfl

theorem touched_concat {v : AppUpdate width} :
    Touched (before ++ [v]) account ↔ Touched before account ∨ v.account = account := by
  simp [Touched, or_and_right, exists_or]

theorem written_concat {v : AppUpdate width} :
    Written (before ++ [v]) account ↔
      Written before account ∨ ¬ v.Empty ∧ v.account = account := by
  simp [Written, or_and_right, exists_or]

/-- The check's view has the ledger's fields; it takes an account that an empty
update has created for one that is not there. -/
structure Views (reads : String × String → NodeAccount width) (before : List (AppUpdate width))
    (account : String × String) : Prop where
  fields : (viewAfter reads before account).ledger.fields =
    (ledgerAfter reads before account).fields
  full : Written before account → ∃ fields, viewAfter reads before account = .full fields
  unwritten : ¬ Written before account → viewAfter reads before account = reads account
  present : (ledgerAfter reads before account).present = true ↔
    (reads account).ledger.present = true ∨ Touched before account

/-- An update that leaves the view and the fields of an account alone. -/
theorem Views.concat {before : List (AppUpdate width)} {v : AppUpdate width}
    (h : Views reads before account)
    (hview : viewAfter reads (before ++ [v]) account = viewAfter reads before account)
    (hfields : (ledgerAfter reads (before ++ [v]) account).fields =
      (ledgerAfter reads before account).fields)
    (hwritten : Written (before ++ [v]) account ↔ Written before account)
    (hpresent : (ledgerAfter reads (before ++ [v]) account).present = true ↔
      (reads account).ledger.present = true ∨ Touched (before ++ [v]) account) :
    Views reads (before ++ [v]) account where
  fields := by rw [hview, h.fields, hfields]
  full := by
    rw [hview, hwritten]
    exact h.full
  unwritten := by
    rw [hview, hwritten]
    exact h.unwritten
  present := hpresent

theorem views (reads : String × String → NodeAccount width) (before : List (AppUpdate width))
    (account : String × String) : Views reads before account := by
  induction before using List.reverseRecOn with
  | nil =>
      refine ⟨rfl, ?_, fun _ ↦ rfl, ?_⟩
      · rintro ⟨v, hv, -⟩
        cases hv
      · constructor
        · exact Or.inl
        · rintro (h | ⟨v, hv, -⟩)
          · exact h
          · cases hv
  | append_singleton before v ih =>
      have hpresent : (ledgerAfter reads (before ++ [v]) account).present = true ↔
          (reads account).ledger.present = true ∨ Touched (before ++ [v]) account := by
        rw [ledgerAfter_concat, touched_concat, ← or_assoc, ← ih.present]
        by_cases heq : account = v.account
        · subst heq
          rw [Function.update_self]
          exact ⟨fun _ ↦ Or.inr rfl, fun _ ↦ rfl⟩
        · rw [Function.update_of_ne heq]
          exact ⟨Or.inl, fun h ↦ h.resolve_right (Ne.symm heq)⟩
      by_cases heq : account = v.account
      · subst heq
        by_cases hskip : v.Empty
        · have hview : viewAfter reads (before ++ [v]) v.account =
              viewAfter reads before v.account := by
            rw [viewAfter_concat]
            unfold seenStep
            rw [if_pos hskip]
          have hwritten : Written (before ++ [v]) v.account ↔ Written before v.account := by
            rw [written_concat]
            exact ⟨fun h ↦ h.resolve_right fun h ↦ h.1 hskip, Or.inl⟩
          refine ih.concat hview ?_ hwritten hpresent
          rw [ledgerAfter_concat, Function.update_self]
          exact hskip.write _
        · have hview : viewAfter reads (before ++ [v]) v.account =
              .full (v.write (viewAfter reads before v.account).ledger.fields) := by
            rw [viewAfter_concat]
            unfold seenStep
            rw [if_neg hskip, Function.update_self]
          refine ⟨?_, fun _ ↦ ⟨_, hview⟩, ?_, hpresent⟩
          · rw [hview, ledgerAfter_concat, Function.update_self]
            exact congrArg v.write ih.fields
          · intro hnot
            exact absurd (written_concat.mpr (Or.inr ⟨hskip, rfl⟩)) hnot
      · have hview : viewAfter reads (before ++ [v]) account = viewAfter reads before account := by
          rw [viewAfter_concat]
          unfold seenStep
          split
          · rfl
          · rw [Function.update_of_ne heq]
        have hwritten : Written (before ++ [v]) account ↔ Written before account := by
          rw [written_concat]
          exact ⟨fun h ↦ h.resolve_right fun h ↦ heq h.2.symm, Or.inl⟩
        refine ih.concat hview ?_ hwritten hpresent
        rw [ledgerAfter_concat, Function.update_of_ne heq]

/-- No requirement of the update escapes the check.  An update without state requires of
`isNew` what holds.  An account whose state was read or written may be required to be new
only where a field differs anyway, and an absent one to exist only where a field is
constrained.  Of an account that only updates without state have created nothing is
required, unless a field differs. -/
structure Seen (reads : String × String → NodeAccount width) (before : List (AppUpdate width))
    (u : AppUpdate width) : Prop where
  empty : u.Empty → u.MeetsIsNew (ledgerAfter reads before u.account)
  full : ¬ u.Empty → (∃ fields, reads u.account = .full fields) ∨ Written before u.account →
    u.isNew = some true → ¬ u.Matches (ledgerAfter reads before u.account).fields
  absent : ¬ u.Empty → reads u.account = .absent → ¬ Touched before u.account →
    u.isNew = some false → u.Constrained
  created : ¬ u.Empty → reads u.account = .absent → ¬ Written before u.account →
    Touched before u.account → u.Matches (ledgerAfter reads before u.account).fields →
    u.isNew ≠ some true ∧ ¬ u.Constrained

/-- An empty update asks the ledger for no more than `isNew`. -/
theorem AppUpdate.Empty.meets_iff (hempty : u.Empty) {a : LedgerAccount width} :
    u.Meets a ↔ u.MeetsIsNew a := by
  have hnone (i : Fin width) : u.expected i = none := (hempty i).1
  constructor
  · exact fun h ↦ h.1
  · refine fun h ↦ ⟨h, ?_, ?_⟩
    · intro i value hvalue
      rw [hnone i] at hvalue
      cases hvalue
    · rintro - ⟨i, hi⟩
      exact absurd (hnone i) hi

/-- What an account that is there has to meet. -/
theorem meets_of_present {a : LedgerAccount width} (hpresent : a.present = true) :
    u.Meets a ↔ u.isNew ≠ some true ∧ u.Matches a.fields := by
  unfold AppUpdate.Meets AppUpdate.MeetsIsNew
  rw [hpresent]
  constructor
  · rintro ⟨hnew, hmatches, -⟩
    exact ⟨fun htrue ↦ Bool.noConfusion (hnew true htrue), hmatches⟩
  · rintro ⟨hnew, hmatches⟩
    refine ⟨?_, hmatches, fun h ↦ Bool.noConfusion h⟩
    intro b hb
    cases b with
    | false => rfl
    | true => exact absurd hb hnew

/-- What an account that is not there has to meet. -/
theorem meets_of_not_present {a : LedgerAccount width} (hpresent : a.present = false) :
    u.Meets a ↔
      u.isNew ≠ some false ∧ u.Matches a.fields ∧ (u.Constrained → u.isNew = some true) := by
  unfold AppUpdate.Meets AppUpdate.MeetsIsNew
  rw [hpresent]
  constructor
  · rintro ⟨hnew, hmatches, hconstrained⟩
    exact ⟨fun hfalse ↦ Bool.noConfusion (hnew false hfalse), hmatches, hconstrained rfl⟩
  · rintro ⟨hnew, hmatches, hconstrained⟩
    refine ⟨?_, hmatches, fun _ ↦ hconstrained⟩
    intro b hb
    cases b with
    | false => exact absurd hb hnew
    | true => rfl

/-- An update with state on an account whose fields the check has. -/
theorem enforced_full {fields : Fin width → ℕ} (hskip : ¬ u.Empty) :
    u.Enforced (.full fields) ↔ u.Matches fields :=
  ⟨fun h ↦ (h.resolve_left hskip).2, fun h ↦ Or.inr ⟨id, h⟩⟩

/-- The account of an update with state, as the check and the ledger see it. -/
theorem view_cases (reads : String × String → NodeAccount width)
    (before : List (AppUpdate width)) (account : String × String) :
    (((∃ fields, reads account = .full fields) ∨ Written before account) ∧
        (ledgerAfter reads before account).present = true ∧
        viewAfter reads before account = .full (ledgerAfter reads before account).fields) ∨
      (reads account = .bare ∧ ¬ Written before account ∧
        (ledgerAfter reads before account).present = true ∧
        viewAfter reads before account = .bare) ∨
      reads account = .absent ∧ ¬ Written before account ∧
        viewAfter reads before account = .absent := by
  have hviews := views reads before account
  have hfields := hviews.fields
  by_cases hwritten : Written before account
  · obtain ⟨fields, hfull⟩ := hviews.full hwritten
    rw [hfull] at hfields
    have htouched : Touched before account := by
      obtain ⟨v, hv, -, haccount⟩ := hwritten
      exact ⟨v, hv, haccount⟩
    refine Or.inl ⟨Or.inr hwritten, hviews.present.mpr (Or.inr htouched), ?_⟩
    rw [hfull, ← hfields]
    rfl
  · have hread := hviews.unwritten hwritten
    have hpresent := hviews.present
    rw [hread] at hfields
    cases hkind : reads account with
    | absent => exact Or.inr (Or.inr ⟨rfl, hwritten, hread.trans hkind⟩)
    | bare =>
        rw [hkind] at hpresent
        exact Or.inr (Or.inl ⟨rfl, hwritten, hpresent.mpr (Or.inl rfl), hread.trans hkind⟩)
    | full fields =>
        rw [hkind] at hpresent hfields
        refine Or.inl ⟨Or.inl ⟨fields, rfl⟩, hpresent.mpr (Or.inl rfl), ?_⟩
        rw [hread, hkind, ← hfields]
        rfl

theorem matches_of_not_constrained (h : ¬ u.Constrained) (fields : Fin width → ℕ) :
    u.Matches fields := by
  intro i value hvalue
  refine absurd ⟨i, ?_⟩ h
  rw [hvalue]
  exact Option.some_ne_none value

theorem Written.touched (h : Written before account) : Touched before account :=
  h.imp fun _ hv ↦ ⟨hv.1, hv.2.2⟩

/-- What the check asks of an absent account. -/
theorem enforced_absent (hskip : ¬ u.Empty) :
    u.Enforced .absent ↔ ¬ (u.isNew ≠ some true ∧ u.Constrained) ∧ u.Matches fun _ ↦ 0 :=
  ⟨fun h ↦ h.resolve_left hskip, Or.inr⟩

section Kinds

variable (hskip : ¬ u.Empty)
include hskip

theorem seen_known
    (hknown : (∃ fields, reads u.account = .full fields) ∨ Written before u.account) :
    Seen reads before u ↔
      (u.isNew = some true → ¬ u.Matches (ledgerAfter reads before u.account).fields) := by
  refine ⟨fun h ↦ h.full hskip hknown, fun h ↦ ⟨fun hempty ↦ absurd hempty hskip,
    fun _ _ ↦ h, fun _ hkind htouched ↦ ?_, fun _ hkind hwritten ↦ ?_⟩⟩
  · rcases hknown with ⟨fields, hfull⟩ | hwritten
    · exact nomatch hkind.symm.trans hfull
    · exact absurd hwritten.touched htouched
  · rcases hknown with ⟨fields, hfull⟩ | hwritten'
    · exact nomatch hkind.symm.trans hfull
    · exact absurd hwritten' hwritten

theorem seen_bare (hkind : reads u.account = .bare) (hwritten : ¬ Written before u.account) :
    Seen reads before u where
  empty := fun hempty ↦ absurd hempty hskip
  full := by
    rintro - (⟨fields, hfull⟩ | hwritten')
    · exact nomatch hkind.symm.trans hfull
    · exact absurd hwritten' hwritten
  absent := fun _ hkind' ↦ nomatch hkind.symm.trans hkind'
  created := fun _ hkind' ↦ nomatch hkind.symm.trans hkind'

theorem seen_absent (hkind : reads u.account = .absent) (hwritten : ¬ Written before u.account) :
    Seen reads before u ↔
      (¬ Touched before u.account → u.isNew = some false → u.Constrained) ∧
        (Touched before u.account → u.Matches (ledgerAfter reads before u.account).fields →
          u.isNew ≠ some true ∧ ¬ u.Constrained) := by
  refine ⟨fun h ↦ ⟨h.absent hskip hkind, h.created hskip hkind hwritten⟩,
    fun h ↦ ⟨fun hempty ↦ absurd hempty hskip, ?_, fun _ _ ↦ h.1, fun _ _ _ ↦ h.2⟩⟩
  rintro - (⟨fields, hfull⟩ | hwritten')
  · exact nomatch hkind.symm.trans hfull
  · exact absurd hwritten' hwritten

end Kinds

/-- An update is seen just when the check and the ledger go on after it, or neither. -/
theorem seen_iff : Seen reads before u ↔ (u.Enforced (viewAfter reads before u.account) ↔
    u.Meets (ledgerAfter reads before u.account)) := by
  have hviews := views reads before u.account
  have hfields := hviews.fields
  by_cases hskip : u.Empty
  · rw [hskip.meets_iff]
    exact ⟨fun h ↦ ⟨fun _ ↦ h.empty hskip, fun _ ↦ Or.inl hskip⟩,
      fun h ↦ ⟨fun _ ↦ h.mp (Or.inl hskip), fun hne ↦ absurd hskip hne,
        fun hne ↦ absurd hskip hne, fun hne ↦ absurd hskip hne⟩⟩
  rcases view_cases reads before u.account with
    ⟨hknown, hpresent, hview⟩ | ⟨hkind, hwritten, hpresent, hview⟩ | ⟨hkind, hwritten, hview⟩
  · rw [seen_known hskip hknown, hview, enforced_full hskip, meets_of_present hpresent]
    exact ⟨fun h ↦ ⟨fun hmatches ↦ ⟨fun hnew ↦ h hnew hmatches, hmatches⟩, And.right⟩,
      fun h hnew hmatches ↦ (h.mp hmatches).1 hnew⟩
  · rw [hview] at hfields
    rw [hview, meets_of_present hpresent, ← hfields]
    exact ⟨fun _ ↦ ⟨fun h ↦ h.resolve_left hskip, Or.inr⟩,
      fun _ ↦ seen_bare hskip hkind hwritten⟩
  · rw [hview] at hfields
    have hzero : (ledgerAfter reads before u.account).fields = fun _ ↦ 0 := hfields.symm
    rw [seen_absent hskip hkind hwritten, hview, enforced_absent hskip, hzero]
    by_cases htouched : Touched before u.account
    · rw [meets_of_present (hviews.present.mpr (Or.inr htouched)), hzero]
      constructor
      · rintro ⟨-, hcreated⟩
        refine ⟨fun h ↦ ⟨(hcreated htouched h.2).1, h.2⟩, ?_⟩
        exact fun h ↦ ⟨fun hrefuses ↦ (hcreated htouched h.2).2 hrefuses.2, h.2⟩
      · refine fun h ↦ ⟨fun hfresh ↦ absurd htouched hfresh, fun _ hmatches ↦ ?_⟩
        have hnew : u.isNew ≠ some true := fun hnew ↦
          (h.mp ⟨fun hrefuses ↦ hrefuses.1 hnew, hmatches⟩).1 hnew
        exact ⟨hnew, fun hconstrained ↦ (h.mpr ⟨hnew, hmatches⟩).1 ⟨hnew, hconstrained⟩⟩
    · have hpresent : (ledgerAfter reads before u.account).present = false := by
        rw [← Bool.not_eq_true, hviews.present, hkind]
        exact fun h ↦ h.elim nofun htouched
      rw [meets_of_not_present hpresent, hzero]
      constructor
      · rintro ⟨habsent, -⟩
        refine ⟨fun h ↦ ?_, fun h ↦ ⟨fun hrefuses ↦ hrefuses.1 (h.2.2 hrefuses.2), h.2.1⟩⟩
        have hnew (hconstrained : u.Constrained) : u.isNew = some true := by
          by_contra hnew
          exact h.1 ⟨hnew, hconstrained⟩
        refine ⟨fun hfalse ↦ ?_, h.2, hnew⟩
        exact nomatch hfalse.symm.trans (hnew (habsent htouched hfalse))
      · refine fun h ↦ ⟨fun _ hfalse ↦ ?_, fun htouched' ↦ absurd htouched' htouched⟩
        by_contra hconstrained
        exact (h.mp ⟨fun hrefuses ↦ hconstrained hrefuses.2,
          matches_of_not_constrained hconstrained _⟩).1 hfalse

end Preflight

end MinaGuard
