import MinaGuard.Clients.Amounts
import MinaGuard.Foundations.InsertionMap

/-!
# Recipients in the proposal form

`parseRecipients`, `serializeRecipients` and `parseBulkRecipients` of
`ProposalForm.tsx`: the form holds rows, and its bulk mode holds them as lines of text.
-/

namespace MinaGuard

open Foundations

structure RecipientRow where
  address : String
  amount : String
deriving DecidableEq

/-- `text.trim()`. -/
def trimText (text : String) : String := String.ofList (trimmed text.toList)

/-- The empty key in Base58. -/
def emptyPubkeyB58 : String := "B62qiTKpEPjGTSHZrtM8uXiKgn8So916pLmNJKDhKeyBQL9TDb3nvBG"

/-- `/^B62[1-9A-HJ-NP-Za-km-z]+$/`. -/
def looksLikeAddress (text : String) : Bool :=
  match text.toList with
  | 'B' :: '6' :: '2' :: rest =>
      rest ≠ [] ∧ rest.all fun c ↦ '1' ≤ c ∧ c ≤ '9' ∨ 'A' ≤ c ∧ c ≤ 'H' ∨ 'J' ≤ c ∧ c ≤ 'N' ∨
        'P' ≤ c ∧ c ≤ 'Z' ∨ 'a' ≤ c ∧ c ≤ 'k' ∨ 'm' ≤ c ∧ c ≤ 'z'
  | _ => false

structure RecipientRowValidation where
  ok : Bool
  nanomina : Option String
  errors : List String
  warning : Option String
deriving DecidableEq

structure RecipientsParseResult where
  rows : List RecipientRowValidation
  ok : Bool
  receivers : List RecipientRow
  totalAmount : String
  recipientCount : ℕ
  topError : Option String

namespace RecipientRow

def blank : RecipientRow := ⟨"", ""⟩

/-- Both fields without the space around them. -/
def trim (row : RecipientRow) : RecipientRow := ⟨trimText row.address, trimText row.amount⟩

def isEmpty (row : RecipientRow) : Bool := trimText row.address = "" ∧ trimText row.amount = ""

end RecipientRow

def countAddress (counts : InsertionMap String ℕ) (row : RecipientRow) : InsertionMap String ℕ :=
  let address := trimText row.address
  if address = "" then counts else counts.set address ((counts.get? address).getD 0 + 1)

/-- How many rows have an address. -/
def addressCounts (rows : List RecipientRow) : InsertionMap String ℕ :=
  rows.foldl countAddress []

def addressErrors (counts : InsertionMap String ℕ) (address : String) : List String :=
  if address = "" then ["Address required"]
  else if ¬looksLikeAddress address then ["Invalid Mina address"]
  else if address = emptyPubkeyB58 then ["The empty address cannot receive funds"]
  else if (counts.get? address).getD 0 > 1 then ["Duplicate recipient"]
  else []

def truncationWarning (nanomina : String) : String :=
  "Will send " ++ formatNanominaAsMina nanomina ++ " MINA (Mina's precision is 9 decimals)."

def validateRow (counts : InsertionMap String ℕ) (row : RecipientRow) : RecipientRowValidation :=
  if row.isEmpty then ⟨false, none, [], none⟩
  else
    let amountText := trimText row.amount
    let amt := if amountText = "" then none else parseMinaToNanomina amountText
    let amountErrors :=
      if amountText = "" then ["Amount required"]
      else if amt = none then ["Invalid amount"]
      else []
    let errors := addressErrors counts (trimText row.address) ++ amountErrors
    let nanomina := amt.map ParsedAmount.nanomina
    { ok := errors = [] ∧ nanomina ≠ none
      nanomina := if errors = [] then nanomina else none
      errors
      warning := (amt.filter ParsedAmount.truncated).map fun amount ↦
        truncationWarning amount.nanomina }

/-- The receiver of a valid row. -/
def receiverOf (row : RecipientRow) (validation : RecipientRowValidation) :
    Option RecipientRow :=
  if validation.ok then
    validation.nanomina.bind fun nanomina ↦
      if nanomina = "" then none else some ⟨trimText row.address, nanomina⟩
  else none

def parseRecipients (rows : List RecipientRow) : RecipientsParseResult :=
  let filledCount := (rows.filter fun row ↦ !row.isEmpty).length
  let counts := addressCounts rows
  let validations := rows.map (validateRow counts)
  let receivers := (rows.zip validations).filterMap fun x ↦ receiverOf x.1 x.2
  let total := receivers.foldl (fun sum r ↦ sum + (parseBigInt r.amount).getD 0) 0
  let topError :=
    if filledCount = 0 then some "Add at least one recipient."
    else if filledCount > maxReceivers then
      some ("Too many recipients. The contract limit is " ++ decimal maxReceivers ++ ".")
    else none
  { rows := validations
    ok := topError = none ∧ receivers.length > 0 ∧
      (rows.zip validations).all fun x ↦ x.1.isEmpty ∨ x.2.ok
    receivers
    totalAmount := integerText total
    recipientCount := receivers.length
    topError }

def lineOf (row : RecipientRow) : List Char :=
  (trimText row.address).toList ++ ',' :: (trimText row.amount).toList

/-- The lines of the bulk mode, without the empty rows. -/
def serializeRecipients (rows : List RecipientRow) : String :=
  String.ofList (['\n'].intercalate ((rows.filter fun row ↦ !row.isEmpty).map lineOf))

/-- A line up to its first comma, and what follows. -/
def parseLine (line : List Char) : RecipientRow :=
  match line.idxOf? ',' with
  | none => ⟨String.ofList (trimmed line), ""⟩
  | some idx =>
      ⟨String.ofList (trimmed (line.take idx)), String.ofList (trimmed (line.drop (idx + 1)))⟩

def parseBulkRecipients (text : String) : List RecipientRow :=
  let rows := (text.toList.splitOn '\n').map parseLine
  if rows.length > 0 then rows else [.blank]

end MinaGuard
