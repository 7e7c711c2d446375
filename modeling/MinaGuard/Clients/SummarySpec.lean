import MinaGuard.Clients.Summary
import MinaGuard.Foundations.Splitting

/-!
# What a summary shows

The lines of a summary as they stand on the screen, read by their labels.
-/

namespace MinaGuard

open Foundations

/-- What follows a label, on the first line that has it. -/
def shown (label : String) (lines : List String) : Option String :=
  lines.findSome? fun text ↦
    if (labelField label).toList <+: text.toList then
      some (String.ofList (text.toList.drop (labelField label).toList.length))
    else none

/-- The lines of receivers, which stand further in. -/
def shownReceivers (lines : List String) : List String :=
  lines.filter fun text ↦ "    ".toList <+: text.toList

variable {label front rest text : String} {value : JsValue} {lines : List String}

/-- A front that nothing in it is escaped stays in front. -/
theorem toList_escape_append (h : TerminalSafe front) (rest : String) :
    (escapeTerminalText (front ++ rest)).toList =
      front.toList ++ (escapeTerminalText rest).toList := by
  rw [escapeTerminalText_append, h.escape, String.toList_append]

theorem shown_cons_line (h : TerminalSafe (labelField label)) (text : String)
    (lines : List String) :
    shown label (escapeTerminalText (textLine label text) :: lines) =
      some (escapeTerminalText text) := by
  unfold shown textLine
  rw [List.findSome?_cons, toList_escape_append h, if_pos (List.prefix_append _ _), List.drop_left,
    String.ofList_toList]

/-- Neither of two texts begins with the other. -/
def Apart (a b : String) : Prop := ¬a.toList <+: b.toList ∧ ¬b.toList <+: a.toList

instance (a b : String) : Decidable (Apart a b) :=
  inferInstanceAs (Decidable (¬a.toList <+: b.toList ∧ ¬b.toList <+: a.toList))

theorem Apart.not_prefix {a : String} (h : Apart a front) (hsafe : TerminalSafe front)
    (rest : String) : ¬a.toList <+: (escapeTerminalText (front ++ rest)).toList := by
  rw [toList_escape_append hsafe]
  intro hprefix
  exact (List.prefix_or_prefix_of_prefix hprefix (List.prefix_append _ _)).elim h.1 h.2

/-- A line that begins with something else is passed over. -/
theorem shown_cons_other (h : Apart (labelField label) front) (hsafe : TerminalSafe front)
    (rest : String) (lines : List String) :
    shown label (escapeTerminalText (front ++ rest) :: lines) = shown label lines := by
  unfold shown
  rw [List.findSome?_cons, if_neg (h.not_prefix hsafe rest)]

theorem shownReceivers_cons_other (h : Apart "    " front) (hsafe : TerminalSafe front)
    (rest : String) (lines : List String) :
    shownReceivers (escapeTerminalText (front ++ rest) :: lines) = shownReceivers lines := by
  unfold shownReceivers
  exact List.filter_cons_of_neg (by simpa using h.not_prefix hsafe rest)

/-- The label stands on no line about what could not be rendered. -/
def IsBodyLabel (label : String) : Prop :=
  TerminalSafe (labelField label) ∧ shown label unrendered = none

instance (label : String) : Decidable (IsBodyLabel label) :=
  inferInstanceAs (Decidable (TerminalSafe (labelField label) ∧ shown label unrendered = none))

/-- The labels of the lines about an action. -/
theorem isBodyLabel (h : label ∈ ["SubVault", "Amount", "Multi-sig", "New threshold", "New owner",
    "Remove owner", "Delegate", "Delegate to"]) : IsBodyLabel label := by
  have hall : ∀ label ∈ ["SubVault", "Amount", "Multi-sig", "New threshold", "New owner",
      "Remove owner", "Delegate", "Delegate to"], IsBodyLabel label := by decide +kernel
  exact hall label h

theorem screenLines_none : screenLines none = unrendered := by
  have hsafe : ∀ text ∈ unrendered, TerminalSafe text := by decide
  exact (List.map_congr_left fun text htext ↦ (hsafe text htext).escape).trans (List.map_id _)

theorem IsBodyLabel.shown_none (h : IsBodyLabel label) : shown label (screenLines none) = none := by
  rw [screenLines_none]
  exact h.2

/-- The value of the first line. -/
theorem shown_line (h : IsBodyLabel label) (others : List String) :
    shown label (screenLines ((line label value).map fun text ↦ text :: others)) =
      (value.orElse (.string "")).toText.map escapeTerminalText := by
  unfold line
  cases (value.orElse (.string "")).toText with
  | none => exact h.shown_none
  | some text => exact shown_cons_line h.1 text _

/-- A value of a line after the first one. -/
theorem shown_line_other {other : String} (h : IsBodyLabel other)
    (hapart : Apart (labelField other) (labelField label)) (hsafe : TerminalSafe (labelField label))
    (others : List String) :
    shown other (screenLines ((line label value).map fun text ↦ text :: others)) =
      (value.orElse (.string "")).toText.bind fun _ ↦
        shown other (others.map escapeTerminalText) := by
  unfold line
  cases (value.orElse (.string "")).toText with
  | none => exact h.shown_none
  | some text => exact shown_cons_other hapart hsafe text _

/-- The value of a line that cannot fail. -/
theorem shown_textLine (h : IsBodyLabel label) (text : String) (others : List String) :
    shown label ((textLine label text :: others).map escapeTerminalText) =
      some (escapeTerminalText text) := shown_cons_line h.1 text _

theorem orElse_orUnknown {other : JsValue} : (orUnknown value).orElse other = orUnknown value := by
  cases value <;> rfl

theorem mem_nanoText {n : ℕ} {c : Char} (hc : c ∈ (nanoText n).toList) :
    c.isDigit = true ∨ c = '.' := by
  have hdigit {k : ℕ} (h : c ∈ (decimal k).toList) : c.isDigit = true := isDigit_of_mem_decimal h
  rw [toList_nanoText] at hc
  rcases List.mem_append.mp hc with hc | hc
  · exact .inl (hdigit hc)
  · split at hc
    · cases hc
    · rcases List.mem_cons.mp hc with rfl | hc
      · exact .inr rfl
      · rcases List.mem_append.mp ((List.rdropWhile_prefix _ _).subset hc) with hc | hc
        · rw [List.eq_of_mem_replicate hc]
          exact .inl rfl
        · exact .inl (hdigit hc)

theorem terminalSafe_of_isDigit {c : Char} (h : c.isDigit = true ∨ c = '.') :
    isTerminalUnsafe c = false := by
  rcases h with hdigit | rfl
  · obtain ⟨hlow, hhigh⟩ : 48 ≤ c.toNat ∧ c.toNat ≤ 57 := by
      simpa [Char.isDigit, UInt32.le_iff_toNat_le] using hdigit
    exact isTerminalUnsafe_of_le (by omega) (by omega)
  · decide

theorem terminalSafe_nanoText (n : ℕ) : TerminalSafe (nanoText n) :=
  fun _ hc ↦ terminalSafe_of_isDigit (mem_nanoText hc)

theorem escape_eq_nanoText {n : ℕ} : escapeTerminalText text = nanoText n ↔ text = nanoText n := by
  have hplain : '\\' ∉ (nanoText n).toList := fun hc ↦
    absurd (mem_nanoText hc) (by decide)
  rw [escapeTerminalText_eq_iff hplain]
  exact and_iff_right_of_imp fun h ↦ h ▸ terminalSafe_nanoText n

section Receivers

variable {E : Env} {B : Base58 E} {receivers : JsValue} {rows real : List JsValue}
  {texts : List String}

theorem receiverLine_eq (address amount : String) :
    receiverLine address amount = "    " ++ (address ++ ("  →  " ++ amount ++ " MINA")) := by
  unfold receiverLine
  simp only [String.append_assoc]

theorem escape_receiverLine (address amount : String) :
    escapeTerminalText (receiverLine address amount) =
      receiverLine (escapeTerminalText address) (escapeTerminalText amount) := by
  have hsafe (text : String) (h : TerminalSafe text) := h.escape
  unfold receiverLine
  simp only [escapeTerminalText_append, hsafe "    " (by decide), hsafe "  →  " (by decide),
    hsafe " MINA" (by decide)]

/-- An address without blanks ends at the first one. -/
theorem receiverLine_inj {address address' amount amount' : String}
    (h : ' ' ∉ address.toList) (h' : ' ' ∉ address'.toList)
    (heq : receiverLine address amount = receiverLine address' amount') :
    address = address' ∧ amount = amount' := by
  have hchars (a b : String) : (receiverLine a b).toList =
      "    ".toList ++ (a.toList ++ ' ' :: (" →  ".toList ++ (b.toList ++ " MINA".toList))) := by
    rw [receiverLine_eq]
    simp only [String.toList_append]
    rfl
  have hlists := congrArg String.toList heq
  rw [hchars, hchars] at hlists
  obtain ⟨haddress, hrest⟩ := append_cons_inj h h' (List.append_cancel_left hlists)
  exact ⟨String.toList_inj.mp haddress,
    String.toList_inj.mp (List.append_cancel_right (List.append_cancel_left hrest))⟩

/-- Lines of receivers are not those of a label. -/
theorem shown_receiverLines (h : Apart (labelField label) "    ")
    (hrows : ∀ text ∈ texts, ∃ address amount, text = receiverLine address amount) :
    shown label (texts.map escapeTerminalText ++ lines) = shown label lines := by
  induction texts with
  | nil => rfl
  | cons text texts ih =>
      obtain ⟨address, amount, rfl⟩ := hrows text List.mem_cons_self
      rw [List.map_cons, List.cons_append, receiverLine_eq,
        shown_cons_other h (by decide)]
      exact ih fun text htext ↦ hrows text (List.mem_cons_of_mem _ htext)

theorem shownReceivers_receiverLines
    (hrows : ∀ text ∈ texts, ∃ address amount, text = receiverLine address amount) :
    shownReceivers (texts.map escapeTerminalText ++ lines) =
      texts.map escapeTerminalText ++ shownReceivers lines := by
  induction texts with
  | nil => rfl
  | cons text texts ih =>
      obtain ⟨address, amount, rfl⟩ := hrows text List.mem_cons_self
      have hfront : "    ".toList <+:
          (escapeTerminalText (receiverLine address amount)).toList := by
        rw [receiverLine_eq, toList_escape_append (by decide)]
        exact List.prefix_append _ _
      have hrest := ih fun text htext ↦ hrows text (List.mem_cons_of_mem _ htext)
      unfold shownReceivers at hrest ⊢
      rw [List.map_cons, List.cons_append, List.filter_cons_of_pos (by simpa using hfront), hrest,
        List.cons_append]

/-- The address of a row, where it is a text. -/
def addressText (row : JsValue) : String := (row.get "address").isString?.getD ""

def shownRow (row : JsValue) : String :=
  receiverLine (addressText row) (formatMina (row.get "amount"))

theorem mapM_renderReceiver (h : ∀ row ∈ real, ∃ text, row.get "address" = .string text) :
    real.mapM renderReceiver = some (real.map shownRow) := by
  induction real with
  | nil => rfl
  | cons row real ih =>
      have hrow : renderReceiver row = some (shownRow row) := by
        obtain ⟨text, htext⟩ := h row List.mem_cons_self
        unfold renderReceiver shownRow addressText
        rw [htext]
        rfl
      rw [List.mapM_cons, hrow, ih fun row hmem ↦ h row (List.mem_cons_of_mem _ hmem)]
      rfl

/-- What is shown of rows that all have a text for their address. -/
theorem shown_renderReceivers (hrows : receivers.isArray? = some rows)
    (hreal : (rows.take maxReceivers).filter (isRealReceiver B) = real)
    (haddress : ∀ row ∈ real, ∃ text, row.get "address" = .string text) :
    shownReceivers (screenLines (renderReceivers B receivers)) =
        real.map (fun row ↦ escapeTerminalText (shownRow row)) ∧
      (real ≠ [] → shown "Total" (screenLines (renderReceivers B receivers)) =
        some (escapeTerminalText (totalMina real ++ " MINA"))) := by
  have hlist : realReceivers B (.array (rows.take maxReceivers)) = real := hreal
  have hlines : ∀ text ∈ real.map shownRow, ∃ address amount,
      text = receiverLine address amount := by
    intro text htext
    obtain ⟨row, -, rfl⟩ := List.mem_map.mp htext
    exact ⟨_, _, rfl⟩
  unfold renderReceivers
  rw [hrows, Option.getD_some]
  dsimp only
  rw [hlist]
  generalize hwarning : (if maxReceivers < rows.length then
    [textLine "WARNING" ("the bundle lists " ++ decimal rows.length ++
      " receivers; only the first " ++ decimal maxReceivers ++ " are signed")]
    else []) = warning
  have hskip (l : List String) :
      shownReceivers ((warning ++ l).map escapeTerminalText) =
          shownReceivers (l.map escapeTerminalText) ∧
        shown "Total" ((warning ++ l).map escapeTerminalText) =
          shown "Total" (l.map escapeTerminalText) := by
    rw [← hwarning]
    split
    · exact ⟨shownReceivers_cons_other (by decide) (by decide) _ _,
        shown_cons_other (by decide) (by decide) _ _⟩
    · exact ⟨rfl, rfl⟩
  by_cases hnil : real = []
  · subst hnil
    rw [if_pos rfl]
    refine ⟨?_, fun hne ↦ absurd rfl hne⟩
    exact (hskip _).1.trans (shownReceivers_cons_other (by decide) (by decide) _ _)
  · have hheading : "  Receivers (" ++ decimal real.length ++ "):" =
        "  Receivers (" ++ (decimal real.length ++ "):") := String.append_assoc
    rw [if_neg hnil, mapM_renderReceiver haddress, Option.map_some, List.append_assoc,
      List.cons_append, hheading]
    refine ⟨(hskip _).1.trans ?_, fun _ ↦ (hskip _).2.trans ?_⟩
    · rw [List.map_cons, shownReceivers_cons_other (by decide) (by decide), List.map_append,
        shownReceivers_receiverLines hlines, List.map_map]
      have hlast : shownReceivers ([textLine "Total" (totalMina real ++ " MINA")].map
          escapeTerminalText) = [] := shownReceivers_cons_other (by decide) (by decide) _ _
      rw [hlast, List.append_nil]
      rfl
    · rw [List.map_cons, shown_cons_other (by decide) (by decide), List.map_append,
        shown_receiverLines (by decide) hlines]
      exact shown_textLine (by decide) _ _

end Receivers

end MinaGuard
