import Mathlib.Algebra.Order.Floor.Semifield
import Mathlib.Data.Rat.Floor
import MinaGuard.Clients.Recipients

/-!
# Amounts and recipients survive the form

An amount in nanomina is shown in MINA and read back; the rows of recipients are written
as lines and read back.
-/

namespace MinaGuard

open Foundations

def wholePart (text : String) : List Char := text.toList.takeWhile (· ≠ '.')

def fractionPart (text : String) : List Char := (text.toList.dropWhile (· ≠ '.')).tail

/-- The number that a decimal text stands for. -/
def textValue (text : String) : ℚ :=
  digitsValue (wholePart text) + digitsValue (fractionPart text) / 10 ^ (fractionPart text).length

theorem DecimalText.parts {text : String} {whole frac : List Char}
    (h : DecimalText text.toList whole frac) :
    wholePart text = whole ∧ fractionPart text = frac := by
  have hne : ∀ c ∈ whole, decide (c ≠ '.') = true := fun c hc ↦
    decide_eq_true fun heq ↦ point_notMem h.whole_digits (heq ▸ hc)
  unfold wholePart fractionPart
  rcases h.value_eq with ⟨htext, rfl⟩ | htext
  · rw [htext, List.takeWhile_eq_self_iff.mpr hne, List.dropWhile_eq_nil_iff.mpr hne]
    exact ⟨rfl, rfl⟩
  · rw [htext, List.takeWhile_append_of_pos hne, List.dropWhile_append_of_pos hne,
      List.takeWhile_cons_of_neg (by simp), List.dropWhile_cons_of_neg (by simp), List.append_nil]
    exact ⟨rfl, rfl⟩

theorem floor_textValue {text : String} {whole frac : List Char}
    (h : DecimalText text.toList whole frac) :
    ⌊textValue text * 10 ^ 9⌋₊ = digitsValue whole * 10 ^ 9 + digitsValue (ninePlaces frac) := by
  obtain ⟨hwhole, hfrac⟩ := h.parts
  have hvalue : textValue text * 10 ^ 9 =
      ((digitsValue frac * 10 ^ 9 + 10 ^ frac.length * (digitsValue whole * 10 ^ 9) : ℕ) : ℚ) /
        ((10 ^ frac.length : ℕ) : ℚ) := by
    unfold textValue
    rw [hwhole, hfrac]
    push_cast
    field_simp
    ring
  rw [hvalue, Nat.floor_div_eq_div, Nat.add_mul_div_left _ _ (by positivity),
    digitsValue_ninePlaces h.frac_digits, Nat.add_comm]

theorem trimmed_eq (chars : List Char) :
    trimmed chars = (chars.dropWhile isWhiteSpace).rdropWhile isWhiteSpace := rfl

theorem mem_of_mem_trimmed {chars : List Char} {c : Char} (h : c ∈ trimmed chars) : c ∈ chars := by
  rw [trimmed_eq] at h
  exact (List.dropWhile_suffix _).subset ((List.rdropWhile_prefix _ _).subset h)

theorem trimmed_trimmed (chars : List Char) : trimmed (trimmed chars) = trimmed chars := by
  have hfront : (trimmed chars).dropWhile isWhiteSpace = trimmed chars := by
    cases htrimmed : trimmed chars with
    | nil => rfl
    | cons c rest =>
        obtain ⟨back, hback⟩ := List.rdropWhile_prefix isWhiteSpace (chars.dropWhile isWhiteSpace)
        rw [← trimmed_eq, htrimmed, List.cons_append] at hback
        refine List.dropWhile_cons_of_neg ?_
        have hhead := List.head_dropWhile_not isWhiteSpace (l := chars)
          (by rw [← hback]; exact List.cons_ne_nil _ _)
        simp only [← hback, List.head_cons] at hhead
        simp [hhead]
  rw [trimmed_eq (trimmed chars), hfront, trimmed_eq, List.rdropWhile_idempotent]

theorem trimText_trimText (text : String) : trimText (trimText text) = trimText text := by
  unfold trimText
  rw [String.toList_ofList, trimmed_trimmed]

namespace RecipientRow

variable {row : RecipientRow}

theorem trim_trim (row : RecipientRow) : row.trim.trim = row.trim := by
  unfold trim
  rw [trimText_trimText, trimText_trimText]

theorem isEmpty_iff :
    row.isEmpty = true ↔ trimText row.address = "" ∧ trimText row.amount = "" := by
  unfold isEmpty
  rw [decide_eq_true_eq]

theorem isEmpty_trim (row : RecipientRow) : row.trim.isEmpty = row.isEmpty := by
  unfold isEmpty trim
  rw [trimText_trimText, trimText_trimText]

end RecipientRow

/-- The rows that are not blank, without the space around their fields. -/
def filledRows (rows : List RecipientRow) : List RecipientRow :=
  (rows.filter fun row ↦ !row.isEmpty).map RecipientRow.trim

theorem filledRows_filledRows (rows : List RecipientRow) :
    filledRows (filledRows rows) = filledRows rows := by
  have hfilled : ∀ row ∈ filledRows rows, (!row.isEmpty) = true := by
    intro row hrow
    obtain ⟨old, hold, rfl⟩ := List.mem_map.mp hrow
    rw [RecipientRow.isEmpty_trim]
    exact (List.mem_filter.mp hold).2
  have htrim : ∀ row ∈ filledRows rows, row.trim = row := by
    intro row hrow
    obtain ⟨old, -, rfl⟩ := List.mem_map.mp hrow
    exact old.trim_trim
  rw [filledRows, List.filter_eq_self.mpr hfilled, List.map_congr_left htrim, List.map_id']

theorem addressCounts_filledRows (rows : List RecipientRow) :
    addressCounts (filledRows rows) = addressCounts rows := by
  unfold addressCounts filledRows
  rw [List.foldl_map]
  generalize ([] : InsertionMap String ℕ) = counts
  induction rows generalizing counts with
  | nil => rw [List.filter_nil, List.foldl_nil, List.foldl_nil]
  | cons row rows ih =>
      have htrim : countAddress counts row.trim = countAddress counts row := by
        unfold countAddress RecipientRow.trim
        rw [trimText_trimText]
      rw [List.foldl_cons]
      cases hempty : row.isEmpty with
      | true =>
          have hsame : countAddress counts row = counts := by
            unfold countAddress
            dsimp only
            rw [if_pos (RecipientRow.isEmpty_iff.mp hempty).1]
          rw [List.filter_cons_of_neg (by simp [hempty]), ih, hsame]
      | false =>
          rw [List.filter_cons_of_pos (by simp [hempty]), List.foldl_cons, ih, htrim]

theorem validateRow_trim (counts : InsertionMap String ℕ) (row : RecipientRow) :
    validateRow counts row.trim = validateRow counts row := by
  unfold validateRow
  rw [RecipientRow.isEmpty_trim]
  unfold RecipientRow.trim
  rw [trimText_trimText, trimText_trimText]

theorem receiverOf_trim (row : RecipientRow) (validation : RecipientRowValidation) :
    receiverOf row.trim validation = receiverOf row validation := by
  unfold receiverOf RecipientRow.trim
  rw [trimText_trimText]

/-- The receivers, read off the filled rows. -/
def receiversOf (counts : InsertionMap String ℕ) (filled : List RecipientRow) :
    List RecipientRow :=
  filled.filterMap fun row ↦ receiverOf row (validateRow counts row)

theorem receivers_eq (counts : InsertionMap String ℕ) (rows : List RecipientRow) :
    ((rows.zip (rows.map (validateRow counts))).filterMap fun x ↦ receiverOf x.1 x.2) =
      receiversOf counts (filledRows rows) := by
  unfold receiversOf filledRows
  induction rows with
  | nil => rfl
  | cons row rows ih =>
      rw [List.map_cons, List.zip_cons_cons]
      cases hempty : row.isEmpty with
      | true =>
          have hnone : receiverOf row (validateRow counts row) = none := by
            unfold validateRow
            rw [if_pos hempty]
            rfl
          rw [List.filter_cons_of_neg (by simp [hempty]), List.filterMap_cons]
          dsimp only
          rw [hnone, ih]
      | false =>
          rw [List.filter_cons_of_pos (by simp [hempty]), List.map_cons, List.filterMap_cons,
            List.filterMap_cons, validateRow_trim, receiverOf_trim, ih]

theorem all_ok_eq (counts : InsertionMap String ℕ) (rows : List RecipientRow) :
    ((rows.zip (rows.map (validateRow counts))).all fun x ↦ x.1.isEmpty ∨ x.2.ok) =
      (filledRows rows).all fun row ↦ (validateRow counts row).ok := by
  unfold filledRows
  induction rows with
  | nil => rfl
  | cons row rows ih =>
      rw [List.map_cons, List.zip_cons_cons, List.all_cons, ih]
      cases hempty : row.isEmpty with
      | true => simp [hempty]
      | false => simp [hempty, validateRow_trim]

/-- The results agree on all that the form sends or sums up. -/
def RecipientsParseResult.Same (a b : RecipientsParseResult) : Prop :=
  a.ok = b.ok ∧ a.receivers = b.receivers ∧ a.totalAmount = b.totalAmount ∧
    a.recipientCount = b.recipientCount ∧ a.topError = b.topError

theorem parseRecipients_same {rows rows' : List RecipientRow}
    (h : filledRows rows = filledRows rows') :
    (parseRecipients rows).Same (parseRecipients rows') := by
  have hcounts : addressCounts rows = addressCounts rows' := by
    rw [← addressCounts_filledRows, h, addressCounts_filledRows]
  have hlength : (rows.filter fun row ↦ !row.isEmpty).length =
      (rows'.filter fun row ↦ !row.isEmpty).length := by
    have hsame := congrArg List.length h
    rwa [filledRows, filledRows, List.length_map, List.length_map] at hsame
  unfold parseRecipients
  dsimp only
  rw [hlength, hcounts, receivers_eq, receivers_eq, all_ok_eq, all_ok_eq, h]
  exact ⟨rfl, rfl, rfl, rfl, rfl⟩

/-- No line break in a field, and no comma in the address. -/
def RecipientRow.OneLine (row : RecipientRow) : Prop :=
  '\n' ∉ row.address.toList ∧ '\n' ∉ row.amount.toList ∧ ',' ∉ row.address.toList

theorem notMem_trimText {text : String} {c : Char} (h : c ∉ text.toList) :
    c ∉ (trimText text).toList := by
  unfold trimText
  rw [String.toList_ofList]
  exact mt mem_of_mem_trimmed h

theorem idxOf?_append_cons {l r : List Char} {c : Char} (h : c ∉ l) :
    (l ++ c :: r).idxOf? c = some l.length := by
  induction l with
  | nil => simp [List.idxOf?_cons]
  | cons d l ih =>
      obtain ⟨hd, hl⟩ := not_or.mp (mt List.mem_cons.mpr h)
      rw [List.cons_append, List.idxOf?_cons, ih hl, if_neg (by simpa using Ne.symm hd)]
      rfl

theorem parseLine_lineOf {row : RecipientRow} (h : row.OneLine) :
    parseLine (lineOf row) = row.trim := by
  unfold parseLine lineOf
  rw [idxOf?_append_cons (notMem_trimText h.2.2)]
  dsimp only
  rw [List.take_left, List.drop_append, List.drop_eq_nil_of_le (Nat.le_succ _),
    Nat.add_sub_cancel_left]
  unfold RecipientRow.trim trimText
  rw [List.nil_append, List.drop_succ_cons, List.drop_zero, String.toList_ofList,
    String.toList_ofList, trimmed_trimmed, trimmed_trimmed]

/-- The rows come back trimmed, the blank ones left out. -/
theorem parseBulkRecipients_serializeRecipients {rows : List RecipientRow}
    (h : ∀ row ∈ rows, row.OneLine) :
    parseBulkRecipients (serializeRecipients rows) =
      if filledRows rows = [] then [.blank] else filledRows rows := by
  have hlines : ∀ line ∈ (rows.filter fun row ↦ !row.isEmpty).map lineOf, '\n' ∉ line := by
    intro line hline
    obtain ⟨row, hrow, rfl⟩ := List.mem_map.mp hline
    obtain ⟨haddress, hamount, -⟩ := h row (List.mem_filter.mp hrow).1
    unfold lineOf
    rw [List.mem_append, List.mem_cons]
    rintro (hmem | heq | hmem)
    · exact notMem_trimText haddress hmem
    · exact absurd heq (by decide)
    · exact notMem_trimText hamount hmem
  have hback : ((rows.filter fun row ↦ !row.isEmpty).map lineOf).map parseLine =
      filledRows rows := by
    unfold filledRows
    rw [List.map_map]
    refine List.map_congr_left fun row hrow ↦ ?_
    have hrow' := (List.mem_filter.mp hrow).1
    rw [Function.comp_apply, parseLine_lineOf (h row hrow')]
  unfold parseBulkRecipients serializeRecipients
  dsimp only
  rw [String.toList_ofList]
  by_cases hempty : filledRows rows = []
  · have hnil : rows.filter (fun row ↦ !row.isEmpty) = [] := List.map_eq_nil_iff.mp hempty
    have hline : parseLine [] = .blank := rfl
    rw [if_pos hempty, hnil, List.map_nil, List.intercalate_nil, List.splitOn_nil,
      List.map_singleton, hline, if_pos (List.length_pos_iff.mpr (List.cons_ne_nil _ _))]
  · have hne : (rows.filter fun row ↦ !row.isEmpty).map lineOf ≠ [] := fun hnil ↦
      hempty (List.map_eq_nil_iff.mpr (List.map_eq_nil_iff.mp hnil))
    rw [List.splitOn_intercalate _ hlines hne, hback, if_neg hempty,
      if_pos (List.length_pos_iff.mpr hempty)]

/-- An amount is shown by all three formatters alike and read back as it was.  A decimal
text is read as its value in nanomina, rounded down.  And rows of recipients mean the same
after a change to the bulk mode. -/
theorem amount_text_round_trip :
    (∀ n : ℕ, 0 < n →
      formatNanominaAsMina (decimal n) = Ui.formatMina (some (decimal n)) ∧
      formatMina (.string (decimal n)) = Ui.formatMina (some (decimal n)) ∧
      parseMinaToNanomina (Ui.formatMina (some (decimal n))) = some ⟨decimal n, false⟩) ∧
    (∀ text amount, parseMinaToNanomina text = some amount →
      amount.nanomina = decimal ⌊textValue text * 10 ^ 9⌋₊ ∧
      (amount.truncated = true ↔ 9 < (fractionPart text).length)) ∧
    (∀ rows : List RecipientRow, (∀ row ∈ rows, row.OneLine) →
      parseBulkRecipients (serializeRecipients rows) =
        (if filledRows rows = [] then [.blank] else filledRows rows) ∧
      (parseRecipients (parseBulkRecipients (serializeRecipients rows))).Same
        (parseRecipients rows)) := by
  refine ⟨?_, ?_, ?_⟩
  · intro n hn
    have hvalue : (JsValue.string (decimal n)).toBigInt = .ok n := by
      unfold JsValue.toBigInt
      dsimp only
      rw [parseBigInt_decimal]
    rw [formatMina_decimal, formatMina_of_toBigInt hvalue]
    exact ⟨formatNanominaAsMina_decimal n, rfl, parseMinaToNanomina_nanoText hn⟩
  · intro text amount hparse
    obtain ⟨whole, frac, htext⟩ := parseMinaToNanomina_of_some hparse
    rw [parseMinaToNanomina_eq htext] at hparse
    split at hparse
    · cases hparse
    · obtain rfl := Option.some.inj hparse
      rw [floor_textValue htext, htext.parts.2]
      exact ⟨rfl, decide_eq_true_iff⟩
  · intro rows h
    have hback := parseBulkRecipients_serializeRecipients h
    refine ⟨hback, parseRecipients_same ?_⟩
    rw [hback]
    split
    · next hempty =>
        rw [hempty]
        rfl
    · exact filledRows_filledRows rows

namespace Walkthrough

/-- One and a half MINA and a recipient. -/
theorem recipient_read_back :
    parseMinaToNanomina (Ui.formatMina (some (decimal 1500000000))) =
        some ⟨decimal 1500000000, false⟩ ∧
      parseBulkRecipients (serializeRecipients [⟨" B62qk", "1.5"⟩, .blank]) =
        [⟨"B62qk", "1.5"⟩] := by
  obtain ⟨hamounts, -, hrows⟩ := amount_text_round_trip
  have honeLine : ∀ row ∈ [⟨" B62qk", "1.5"⟩, RecipientRow.blank], row.OneLine := by
    unfold RecipientRow.OneLine
    decide
  obtain ⟨hback, -⟩ := hrows _ honeLine
  exact ⟨(hamounts _ (by decide)).2.2, hback.trans (by decide)⟩

end Walkthrough

end MinaGuard
