import MinaGuard.Clients.AccountFees
import MinaGuard.Indexer.Sync

/-!
# Authentication of a vault

`vault-security.ts` and `fetchVaultSecurityStatus` of the backend, and the check of the
browser in `api.ts`, on the account object that a node returns.
-/

namespace MinaGuard

inductive GuardPermissionName where
  | editState
  | send
  | receive
  | setDelegate
  | setPermissions
  | setVerificationKey
  | setZkappUri
  | editActionState
  | setTokenSymbol
  | incrementNonce
  | setVotingFor
  | setTiming
  | access
deriving DecidableEq

namespace GuardPermissionName

def text : GuardPermissionName → String
  | editState => "editState"
  | send => "send"
  | receive => "receive"
  | setDelegate => "setDelegate"
  | setPermissions => "setPermissions"
  | setVerificationKey => "setVerificationKey"
  | setZkappUri => "setZkappUri"
  | editActionState => "editActionState"
  | setTokenSymbol => "setTokenSymbol"
  | incrementNonce => "incrementNonce"
  | setVotingFor => "setVotingFor"
  | setTiming => "setTiming"
  | access => "access"

end GuardPermissionName

def guardPermissionNames : List GuardPermissionName :=
  [.editState, .send, .receive, .setDelegate, .setPermissions, .setVerificationKey, .setZkappUri,
    .editActionState, .setTokenSymbol, .incrementNonce, .setVotingFor, .setTiming, .access]

inductive PermissionKind where
  | none
  | either
  | proof
  | signature
  | impossible
deriving DecidableEq

def PermissionKind.text : PermissionKind → String
  | none => "None"
  | either => "Either"
  | proof => "Proof"
  | signature => "Signature"
  | impossible => "Impossible"

def guardPermissionKinds : GuardPermissionName → PermissionKind
  | .editState => .proof
  | .send => .proof
  | .receive => .none
  | .setDelegate => .proof
  | .setPermissions => .impossible
  | .setVerificationKey => .impossible
  | .setZkappUri => .impossible
  | .editActionState => .proof
  | .setTokenSymbol => .impossible
  | .incrementNonce => .impossible
  | .setVotingFor => .impossible
  | .setTiming => .impossible
  | .access => .none

def guardSetVerificationKeyTxnVersion : String := "4"

/-- The whole status, as both sides report it; the expected kinds are constants. -/
structure VaultSecurityReport extends VaultSecurityStatus where
  verificationKeyHash : JsValue
  setVerificationKeyTxnVersion : Option String
  verificationKeyMatches : Bool
  permissionKinds : GuardPermissionName → Option String
  permissionMismatches : List GuardPermissionName

/-- `BigInt(a) < BigInt(b)`. -/
def bigIntLt (a b : String) : Bool :=
  match parseBigInt a, parseBigInt b with
  | some a, some b => a < b
  | _, _ => false

/-- `mismatches.push('setVerificationKey')` for another version, unless it is there. -/
def withVersion (sameVersion : Bool) (mismatches : List GuardPermissionName) :
    List GuardPermissionName :=
  if ¬sameVersion ∧ .setVerificationKey ∉ mismatches then mismatches ++ [.setVerificationKey]
  else mismatches

section Validation

/-! `textOf` is what `String(value)` makes of a value other than a string. -/

variable (textOf : JsValue → String)

def stringOf : JsValue → String
  | .string text => text
  | value => textOf value

/-- A value of JSON has no method `toBoolean`. -/
def readBool : JsValue → Option Bool
  | .boolean b => some b
  | _ => none

def PermissionKind.ofText? (text : String) : Option PermissionKind :=
  [none, either, proof, signature, impossible].find? fun kind ↦ kind.text = text

def PermissionKind.ofBits? : Bool → Bool → Bool → Option PermissionKind
  | true, true, false => some impossible
  | true, false, true => some none
  | false, false, false => some proof
  | false, true, true => some signature
  | false, false, true => some either
  | _, _, _ => Option.none

def permissionKind (permission : JsValue) : Option PermissionKind :=
  match permission.isString?.bind PermissionKind.ofText? with
  | some kind => some kind
  | none => do
      let constant ← readBool (permission.get "constant")
      let necessary ← readBool (permission.get "signatureNecessary")
      let sufficient ← readBool (permission.get "signatureSufficient")
      PermissionKind.ofBits? constant necessary sufficient

def permissionKindVector (permissions : JsValue) (name : GuardPermissionName) :
    Option PermissionKind :=
  if permissions.isObject then
    let field := permissions.get name.text
    permissionKind (if name = .setVerificationKey then (field.get "auth").orElse field else field)
  else none

def permissionMismatches (actual : GuardPermissionName → Option PermissionKind) :
    List GuardPermissionName :=
  guardPermissionNames.filter fun name ↦ actual name ≠ some (guardPermissionKinds name)

def transactionVersion (value : JsValue) : Option String :=
  match value with
  | .undefined | .null => none
  | value => some (stringOf textOf value)

/-- `currentTxnVersion` is the version in `GUARD_PERMISSIONS`, which comes from o1js. -/
def validatePermissionVector (currentTxnVersion : String) (permissions : JsValue) :
    (GuardPermissionName → Option PermissionKind) × List GuardPermissionName :=
  let kinds := permissionKindVector permissions
  let actualVkVersion := transactionVersion textOf
    ((permissions.get "setVerificationKey").get "txnVersion")
  (kinds, withVersion (actualVkVersion = some currentTxnVersion) (permissionMismatches kinds))

def allowsProofActionsWithOlderVersion (verificationKeyMatches : Bool)
    (permissionKinds : GuardPermissionName → Option PermissionKind)
    (mismatches : List GuardPermissionName) (storedVersion : JsValue) : Bool :=
  match transactionVersion textOf storedVersion with
  | none => false
  | some version =>
      verificationKeyMatches ∧
        permissionKinds .setVerificationKey = some (guardPermissionKinds .setVerificationKey) ∧
        mismatches.length = 1 ∧ mismatches[0]? = some .setVerificationKey ∧
        isCanonicalNumber version ∧ bigIntLt version guardSetVerificationKeyTxnVersion

def matchesExpectedVerificationKey (actual : JsValue) (expected : Option String) : Bool :=
  match expected with
  | none => false
  | some hash => ¬actual.strictEq .null ∧ actual.strictEq (.string hash)

def Backend.fetchVaultSecurityStatus (currentTxnVersion : String) (minaguardVkHash : Option String)
    (account : JsValue) : VaultSecurityReport :=
  if account.truthy then
    let verificationKeyHash := ((account.get "verificationKey").get "hash").orElse .null
    let verificationKeyMatches := matchesExpectedVerificationKey verificationKeyHash minaguardVkHash
    let (permissionKinds, mismatches) :=
      validatePermissionVector textOf currentTxnVersion (account.get "permissions")
    let storedVersion := ((account.get "permissions").get "setVerificationKey").get "txnVersion"
    let matchingOlderVersion := allowsProofActionsWithOlderVersion textOf verificationKeyMatches
      permissionKinds mismatches storedVersion
    { accountFound := true
      verificationKeyHash
      setVerificationKeyTxnVersion := transactionVersion textOf storedVersion
      verificationKeyMatches
      permissionKinds := fun name ↦ (permissionKinds name).map PermissionKind.text
      permissionMismatches := mismatches
      safe := verificationKeyMatches ∧ (mismatches.length = 0 ∨ matchingOlderVersion) }
  else
    { accountFound := false
      verificationKeyHash := .null
      setVerificationKeyTxnVersion := none
      verificationKeyMatches := false
      permissionKinds := fun _ ↦ none
      permissionMismatches := []
      safe := false }

def Ui.fetchVaultSecurityStatus (expectedVkHash : Option String) (account : JsValue) :
    VaultSecurityReport :=
  if account.truthy then
    let raw := (account.get "permissions").orElse (.object [])
    let setVerificationKey := raw.get "setVerificationKey"
    let permissionKinds (name : GuardPermissionName) :=
      (if name = .setVerificationKey then setVerificationKey.get "auth"
      else raw.get name.text).isString?
    let mismatches := guardPermissionNames.filter fun name ↦
      permissionKinds name ≠ some (guardPermissionKinds name).text
    let txnVersion := setVerificationKey.get "txnVersion"
    let permissionMismatches := withVersion
      (stringOf textOf (txnVersion.orElse (.string "")) = guardSetVerificationKeyTxnVersion)
      mismatches
    let verificationKeyHash := ((account.get "verificationKey").get "hash").orElse .null
    let verificationKeyMatches := expectedVkHash.any fun hash ↦
      ¬verificationKeyHash.strictEq .null ∧ verificationKeyHash.strictEq (.string hash)
    let setVerificationKeyTxnVersion :=
      if txnVersion.strictEq .undefined ∨ txnVersion.strictEq .null then none
      else some (stringOf textOf txnVersion)
    let matchingOlderVersion : Bool :=
      verificationKeyMatches ∧
        permissionKinds .setVerificationKey =
          some (guardPermissionKinds .setVerificationKey).text ∧
        permissionMismatches.length = 1 ∧ permissionMismatches[0]? = some .setVerificationKey ∧
        setVerificationKeyTxnVersion.any fun version ↦
          isCanonicalNumber version ∧ bigIntLt version guardSetVerificationKeyTxnVersion
    { accountFound := true
      verificationKeyHash
      setVerificationKeyTxnVersion
      verificationKeyMatches
      permissionKinds
      permissionMismatches
      safe := verificationKeyMatches ∧
        (permissionMismatches.length = 0 ∨ matchingOlderVersion) }
  else
    { accountFound := false
      verificationKeyHash := .null
      setVerificationKeyTxnVersion := none
      verificationKeyMatches := false
      permissionKinds := fun _ ↦ none
      permissionMismatches := guardPermissionNames
      safe := false }

def isCanonicalVaultSecurity (status : Option VaultSecurityReport) : Bool :=
  match status with
  | none => false
  | some status =>
      status.accountFound ∧ status.verificationKeyMatches ∧ status.safe ∧
        guardPermissionNames.all fun name ↦
          status.permissionKinds name = some (guardPermissionKinds name).text

end Validation

end MinaGuard
