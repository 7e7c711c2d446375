import MinaGuard.Clients.JsValue

/-!
# The check before a broadcast

`checkTransactionState`: the explicit app-state preconditions of a transaction,
in its order, on account states a node answered.  The second half says what the
same transaction means to the ledger; the check looks at less of it.
-/

namespace MinaGuard

open Foundations

/-- The node's view of one account: none, one without app state, or its app
state. -/
inductive AccountState where
  | absent
  | bare
  | full (state : List JsValue)

inductive PreflightStatus where
  | current
  | stale
  | unavailable
deriving DecidableEq

namespace Preflight

/-- `decimal`. -/
def isDecimal (x : JsValue) : Bool :=
  match x with
  | .string text => isCanonicalNumber text
  | _ => false

def isNull (x : JsValue) : Bool :=
  match x with
  | .null => true
  | _ => false

/-- `BigInt` of a decimal. -/
def bigInt (x : JsValue) : Option ℕ :=
  match x with
  | .string text => ofDecimal text
  | _ => none

abbrev States := InsertionMap (String × String) AccountState

/-- The fields an update starts from, `none` where it is stale already. -/
def startingState (actual : AccountState) (isNew : Bool) (expected : List JsValue) :
    Option (List JsValue) :=
  match actual with
  | .absent =>
      if !isNew && expected.any fun value ↦ !isNull value then none
      else some (List.replicate expected.length (.string "0"))
  | .bare => if isNew then none else some (List.replicate expected.length (.string "0"))
  | .full state => some state

/-- The comparison with the account, and the writes; `none` where it is stale. -/
def compareState (states : States) (key : String × String) (isNew : Bool)
    (expected written : List JsValue) (known : AccountState) : Except String (Option States) :=
  match startingState known isNew expected with
  | none => .ok none
  | some actual =>
      if actual.length ≠ expected.length ∨ !(actual.all isDecimal) then
        .error "Incomplete account state"
      else if (expected.zip actual).any fun x ↦ !isNull x.1 && bigInt x.1 ≠ bigInt x.2 then
        .ok none
      else .ok (some (states.set key (.full (List.zipWith JsValue.orElse written actual))))

variable (read : String → String → Except String AccountState)

/-- An account is read once. -/
def knownState (states : States) (key : String × String) : Except String AccountState :=
  match states.get? key with
  | some known => .ok known
  | none => read key.1 key.2

/-- One update; `none` where it is stale. -/
def checkUpdate (states : States) (update : JsValue) : Except String (Option States) :=
  let body := update.get "body"
  let account := (body.get "preconditions").get "account"
  match body.get "publicKey", body.get "tokenId", account.get "state",
      (body.get "update").get "appState" with
  | .string publicKey, .string tokenId, .array expected, .array written => do
      if expected.length ≠ written.length ∨
          !(expected.all fun x ↦ isNull x || isDecimal x) ∨
          !(written.all fun x ↦ isNull x || isDecimal x) then
        throw "Invalid account update"
      else if expected.all isNull ∧ written.all isNull then pure (some states)
      else
        let key := (publicKey, tokenId)
        let known ← knownState read states key
        compareState states key ((account.get "isNew").strictEq (.boolean true)) expected written
          known
  | _, _, _, _ => throw "Invalid account update"

def checkUpdates : States → List JsValue → Except String PreflightStatus
  | _, [] => pure .current
  | states, update :: updates => do
      match ← checkUpdate read states update with
      | none => pure .stale
      | some states => checkUpdates states updates

end Preflight

open Preflight in
def checkTransactionState (txJson : Serialized)
    (read : String → String → Except String AccountState) : PreflightStatus :=
  let status : Except String PreflightStatus := do
    let tx ← parseJson txJson
    match tx.get "accountUpdates" with
    | .array updates => checkUpdates read [] updates
    | _ => throw "Invalid transaction"
  match status with
  | .ok status => status
  | .error _ => .unavailable

namespace Preflight

/-- What an account update asks of an account's app state, and writes to it. -/
structure AppUpdate (width : ℕ) where
  account : String × String
  isNew : Option Bool
  expected : Fin width → Option ℕ
  written : Fin width → Option ℕ

/-- A complete answer of a node. -/
inductive NodeAccount (width : ℕ) where
  | absent
  | bare
  | full (fields : Fin width → ℕ)

structure LedgerAccount (width : ℕ) where
  present : Bool
  fields : Fin width → ℕ

variable {width : ℕ}

/-- The ledger's account behind an answer; fields start at zero. -/
def NodeAccount.ledger : NodeAccount width → LedgerAccount width
  | absent => ⟨false, fun _ ↦ 0⟩
  | bare => ⟨true, fun _ ↦ 0⟩
  | full fields => ⟨true, fields⟩

namespace AppUpdate

variable (u : AppUpdate width)

/-- Some field has a precondition. -/
def Constrained : Prop := ∃ i, u.expected i ≠ none

/-- Neither constrains nor writes a field. -/
def Empty : Prop := ∀ i, u.expected i = none ∧ u.written i = none

/-- The fields are as the update expects them. -/
def Matches (fields : Fin width → ℕ) : Prop :=
  ∀ i value, u.expected i = some value → fields i = value

/-- The account is or is not new, as the update requires. -/
def MeetsIsNew (a : LedgerAccount width) : Prop := ∀ b, u.isNew = some b → a.present = !b

/-- All preconditions; an account that is not there has no state to constrain
unless the update requires it to be new. -/
def Meets (a : LedgerAccount width) : Prop :=
  u.MeetsIsNew a ∧ u.Matches a.fields ∧
    (a.present = false → u.Constrained → u.isNew = some true)

def write (fields : Fin width → ℕ) : Fin width → ℕ :=
  fun i ↦ (u.written i).getD (fields i)

/-- Any update creates its account. -/
def apply (a : LedgerAccount width) : LedgerAccount width := ⟨true, u.write a.fields⟩

end AppUpdate

/-- The accounts before a transaction, and after updates of it. -/
def ledgerAfter (reads : String × String → NodeAccount width) :
    List (AppUpdate width) → String × String → LedgerAccount width :=
  List.foldl (fun ledger u ↦ Function.update ledger u.account (u.apply (ledger u.account)))
    fun account ↦ (reads account).ledger

/-- The ledger accepts the state preconditions of all updates, in order. -/
def Satisfied (reads : String × String → NodeAccount width) (tx : List (AppUpdate width)) :
    Prop :=
  ∀ before u after, tx = before ++ u :: after → u.Meets (ledgerAfter reads before u.account)

def slotJson : Option ℕ → JsValue
  | none => .null
  | some n => .string (decimal n)

def isNewJson : Option Bool → JsValue
  | none => .null
  | some b => .boolean b

/-- The JSON of an update. -/
structure AppUpdate.Encodes (u : AppUpdate width) (x : JsValue) : Prop where
  publicKey : (x.get "body").get "publicKey" = .string u.account.1
  tokenId : (x.get "body").get "tokenId" = .string u.account.2
  expected : (((x.get "body").get "preconditions").get "account").get "state" =
    .array (List.ofFn fun i ↦ slotJson (u.expected i))
  isNew : (((x.get "body").get "preconditions").get "account").get "isNew" = isNewJson u.isNew
  written : ((x.get "body").get "update").get "appState" =
    .array (List.ofFn fun i ↦ slotJson (u.written i))

/-- The JSON of a transaction. -/
def EncodesTx (tx : List (AppUpdate width)) (txJson : Serialized) : Prop :=
  ∃ json updates, txJson = .text (some json) ∧ json.get "accountUpdates" = .array updates ∧
    List.Forall₂ AppUpdate.Encodes tx updates

def NodeAccount.state : NodeAccount width → AccountState
  | absent => .absent
  | bare => .bare
  | full fields => .full (List.ofFn fun i ↦ .string (decimal (fields i)))

end Preflight

end MinaGuard
