import MinaGuard.Clients.VaultSecurity

/-!
# Backend and browser authenticate the same vaults

Both accept an account exactly if it has the expected key, the canonical permissions and
a reviewed transaction version.
-/

namespace MinaGuard

/-- A string, `null`, or missing. -/
inductive JsValue.TextOrNone : JsValue → Prop where
  | undefined : TextOrNone .undefined
  | null : TextOrNone .null
  | text (text : String) : TextOrNone (.string text)

/-- A permission as a field of the account, that of the key with its version beside it. -/
def permissionField (account : JsValue) (name : GuardPermissionName) : JsValue :=
  let field := (account.get "permissions").get name.text
  if name = .setVerificationKey then field.get "auth" else field

def versionField (account : JsValue) : JsValue :=
  ((account.get "permissions").get "setVerificationKey").get "txnVersion"

/-- What the query may give: any strings, missing or null values for the permissions, and
nothing beside `auth` and `txnVersion` for that of the key.  The key, its hash and the
version may be any values. -/
structure NodeAccount (account : JsValue) : Prop where
  permission (name : GuardPermissionName) : (permissionField account name).TextOrNone
  members (key : String) : key ≠ "auth" → key ≠ "txnVersion" →
    ((account.get "permissions").get "setVerificationKey").get key = .undefined

/-- The vault may be used. -/
structure Authentic (textOf : JsValue → String) (expected : Option String) (account : JsValue) :
    Prop where
  hash : ∃ hash, expected = some hash ∧
    (account.get "verificationKey").get "hash" = .string hash
  kinds (name : GuardPermissionName) :
    permissionField account name = .string (guardPermissionKinds name).text
  version : ∃ n, transactionVersion textOf (versionField account) = some (decimal n) ∧ n ≤ 4

section Mismatches

variable {mismatches : List GuardPermissionName} {sameVersion : Bool} {older : Prop}

/-- The version alone may differ, if it is older. -/
theorem withVersion_accepted (holder : older → sameVersion = false) :
    ((withVersion sameVersion mismatches).length = 0 ∨
      .setVerificationKey ∉ mismatches ∧ (withVersion sameVersion mismatches).length = 1 ∧
        (withVersion sameVersion mismatches)[0]? = some .setVerificationKey ∧ older) ↔
      mismatches = [] ∧ (sameVersion = true ∨ older) := by
  unfold withVersion
  by_cases hmem : .setVerificationKey ∈ mismatches
  · rw [if_neg fun h ↦ h.2 hmem]
    constructor
    · rintro (hlength | ⟨hnot, -⟩)
      · rw [List.length_eq_zero_iff.mp hlength] at hmem
        cases hmem
      · exact absurd hmem hnot
    · rintro ⟨rfl, -⟩
      cases hmem
  · cases sameVersion with
    | true =>
        rw [if_neg fun h ↦ h.1 rfl]
        constructor
        · rintro (hlength | ⟨-, -, -, hold⟩)
          · exact ⟨List.length_eq_zero_iff.mp hlength, .inl rfl⟩
          · cases holder hold
        · rintro ⟨rfl, -⟩
          exact .inl rfl
    | false =>
        rw [if_pos ⟨Bool.false_ne_true, hmem⟩, List.length_append]
        constructor
        · rintro (hlength | ⟨-, hlength, -, hold⟩)
          · exact absurd hlength (by simp)
          · refine ⟨List.length_eq_zero_iff.mp ?_, .inr hold⟩
            exact Nat.add_right_cancel hlength
        · rintro ⟨rfl, hnever | hold⟩
          · cases hnever
          · exact .inr ⟨hmem, rfl, rfl, hold⟩

theorem mem_guardPermissionNames (name : GuardPermissionName) : name ∈ guardPermissionNames := by
  cases name <;> decide

theorem filter_eq_nil_iff {p : GuardPermissionName → Prop} [DecidablePred p] :
    (guardPermissionNames.filter fun name ↦ ¬p name) = [] ↔ ∀ name, p name := by
  rw [List.filter_eq_nil_iff]
  simp [mem_guardPermissionNames]

end Mismatches

theorem PermissionKind.ofText?_eq_some_iff {text : String} {kind : PermissionKind} :
    ofText? text = some kind ↔ text = kind.text := by
  unfold ofText?
  constructor
  · intro h
    have htext : kind.text = text := by simpa using List.find?_some h
    exact htext.symm
  · rintro rfl
    cases kind <;> decide

theorem permissionKind_string {text : String} {kind : PermissionKind} :
    permissionKind (.string text) = some kind ↔ text = kind.text := by
  rw [← PermissionKind.ofText?_eq_some_iff]
  unfold permissionKind
  rw [JsValue.isString?, Option.bind_some]
  cases PermissionKind.ofText? text with
  | some kind => exact Iff.rfl
  | none => exact iff_of_false (by simp [readBool, JsValue.get, JsValue.property]) (by simp)

theorem permissionKind_of_constant {permission : JsValue} (h : permission.isString? = none)
    (hconstant : permission.get "constant" = .undefined) : permissionKind permission = none := by
  unfold permissionKind
  rw [h, hconstant]
  rfl

section Version

variable {textOf : JsValue → String} {value : JsValue} {text : String}

theorem stringOf_orElse (h : text ≠ "") :
    stringOf textOf (value.orElse (.string "")) = text ↔
      transactionVersion textOf value = some text := by
  unfold transactionVersion JsValue.orElse
  cases value with
  | undefined => exact iff_of_false (fun heq ↦ h heq.symm) (by simp)
  | null => exact iff_of_false (fun heq ↦ h heq.symm) (by simp)
  | boolean b => exact Option.some_inj.symm
  | number q => exact Option.some_inj.symm
  | string text => exact Option.some_inj.symm
  | array values => exact Option.some_inj.symm
  | object members => exact Option.some_inj.symm

/-- A version that is not the reviewed one, but older. -/
def OlderVersion (version : Option String) : Prop :=
  ∃ text, version = some text ∧ isCanonicalNumber text = true ∧
    bigIntLt text guardSetVerificationKeyTxnVersion = true

theorem version_le_iff {version : Option String} :
    (version = some guardSetVerificationKeyTxnVersion ∨ OlderVersion version) ↔
      ∃ n, version = some (decimal n) ∧ n ≤ 4 := by
  have hreviewed : guardSetVerificationKeyTxnVersion = decimal 4 := rfl
  have hlt (n : ℕ) : bigIntLt (decimal n) (decimal 4) = true ↔ n < 4 := by
    unfold bigIntLt
    rw [parseBigInt_decimal, parseBigInt_decimal]
    simp
  unfold OlderVersion
  rw [hreviewed]
  constructor
  · rintro (h | ⟨text, h, hcanonical, hless⟩)
    · exact ⟨4, h, le_rfl⟩
    · obtain ⟨n, rfl⟩ := exists_decimal_of_isCanonicalNumber hcanonical
      exact ⟨n, h, ((hlt n).mp hless).le⟩
  · rintro ⟨n, h, hle⟩
    rcases hle.lt_or_eq with hless | rfl
    · exact .inr ⟨_, h, isCanonicalNumber_decimal n, (hlt n).mpr hless⟩
    · exact .inl h

theorem OlderVersion.ne {version : Option String} (h : OlderVersion version) :
    version ≠ some guardSetVerificationKeyTxnVersion := by
  obtain ⟨text, rfl, -, hless⟩ := h
  intro heq
  rw [Option.some.inj heq] at hless
  exact absurd hless (by decide)

end Version

/-- What both sides make of the kinds and the version. -/
theorem accepted_iff {kindOk : GuardPermissionName → Prop} [DecidablePred kindOk]
    {version : Option String} {same : Bool}
    (hsame : same = true ↔ version = some guardSetVerificationKeyTxnVersion)
    {mismatches : List GuardPermissionName}
    (hmismatches : mismatches = guardPermissionNames.filter fun name ↦ ¬kindOk name) :
    ((withVersion same mismatches).length = 0 ∨
      kindOk .setVerificationKey ∧ (withVersion same mismatches).length = 1 ∧
        (withVersion same mismatches)[0]? = some .setVerificationKey ∧ OlderVersion version) ↔
      (∀ name, kindOk name) ∧ ∃ n, version = some (decimal n) ∧ n ≤ 4 := by
  have hkey : kindOk .setVerificationKey ↔ .setVerificationKey ∉ mismatches := by
    rw [hmismatches, List.mem_filter]
    simp [mem_guardPermissionNames]
  rw [hkey, withVersion_accepted, hsame, version_le_iff, hmismatches, filter_eq_nil_iff]
  intro holder
  rw [Bool.eq_false_iff, Ne, hsame]
  exact holder.ne

section Verdicts

variable {textOf : JsValue → String} {expected : Option String} {account : JsValue}

theorem matchesExpectedVerificationKey_iff {hash : JsValue} :
    matchesExpectedVerificationKey (hash.orElse .null) expected = true ↔
      ∃ text, expected = some text ∧ hash = .string text := by
  unfold matchesExpectedVerificationKey
  cases expected with
  | none => simp
  | some text =>
      cases hash <;> simp [JsValue.orElse, JsValue.strictEq, eq_comm]

theorem get_of_not_truthy {value : JsValue} (h : ¬value.truthy = true) (key : String) :
    value.get key = .undefined := by
  cases value with
  | array values => exact absurd rfl h
  | object members => exact absurd rfl h
  | _ => rfl

theorem Authentic.truthy (h : Authentic textOf expected account) : account.truthy = true := by
  by_contra hfalse
  obtain ⟨hash, -, hhash⟩ := h.hash
  rw [get_of_not_truthy hfalse] at hhash
  cases hhash

theorem get_of_not_isObject {value : JsValue} (h : ¬value.isObject = true) (key : String) :
    value.get key = .undefined := by
  cases value with
  | array values => exact absurd rfl h
  | object members => exact absurd rfl h
  | _ => rfl

theorem permissionKind_textOrNone {value : JsValue} (h : value.TextOrNone) {kind : PermissionKind} :
    permissionKind value = some kind ↔ value = .string kind.text := by
  cases h with
  | undefined =>
      have hnone : permissionKind .undefined = none := permissionKind_of_constant rfl rfl
      exact iff_of_false (by simp [hnone]) (by simp)
  | null =>
      have hnone : permissionKind .null = none := permissionKind_of_constant rfl rfl
      exact iff_of_false (by simp [hnone]) (by simp)
  | text text =>
      rw [permissionKind_string, JsValue.string.injEq]

/-- With a version, the permission for the key is an object, whose `auth` decides. -/
theorem permissionKind_auth (h : NodeAccount account) {kind : PermissionKind}
    (hversion : versionField account ≠ .undefined) :
    let field := (account.get "permissions").get "setVerificationKey"
    permissionKind ((field.get "auth").orElse field) = some kind ↔
      field.get "auth" = .string kind.text := by
  intro field
  have hauth : (field.get "auth").TextOrNone := h.permission .setVerificationKey
  have hstring : field.isString? = none := by
    cases hfield : field with
    | string text =>
        refine absurd ?_ hversion
        unfold versionField
        change field.get "txnVersion" = _
        rw [hfield]
        rfl
    | _ => rfl
  have hnone : permissionKind field = none := permissionKind_of_constant hstring
    (h.members "constant" (by decide) (by decide))
  generalize hvalue : field.get "auth" = auth at hauth
  cases hauth with
  | undefined => exact iff_of_false (by simp [JsValue.orElse, hnone]) (by simp)
  | null => exact iff_of_false (by simp [JsValue.orElse, hnone]) (by simp)
  | text text => exact permissionKind_textOrNone (.text text)

theorem permissionKindVector_iff (h : NodeAccount account) {name : GuardPermissionName}
    {kind : PermissionKind} (hversion : versionField account ≠ .undefined) :
    permissionKindVector (account.get "permissions") name = some kind ↔
      permissionField account name = .string kind.text := by
  unfold permissionKindVector
  by_cases hobject : (account.get "permissions").isObject = true
  · rw [if_pos hobject]
    dsimp only
    by_cases hname : name = .setVerificationKey
    · subst hname
      rw [if_pos rfl]
      exact permissionKind_auth h hversion
    · have hfield := h.permission name
      unfold permissionField at hfield ⊢
      dsimp only at hfield ⊢
      rw [if_neg hname] at hfield ⊢
      rw [if_neg hname]
      exact permissionKind_textOrNone hfield
  · rw [if_neg hobject]
    refine iff_of_false (by simp) ?_
    unfold permissionField
    dsimp only
    rw [get_of_not_isObject hobject]
    split
    · exact fun hne ↦ by cases hne
    · exact fun hne ↦ by cases hne

theorem allowsProofActionsWithOlderVersion_iff {same : Bool} {stored : JsValue}
    {kinds : GuardPermissionName → Option PermissionKind} {mismatches : List GuardPermissionName} :
    allowsProofActionsWithOlderVersion textOf same kinds mismatches stored = true ↔
      same = true ∧
        kinds .setVerificationKey = some (guardPermissionKinds .setVerificationKey) ∧
        mismatches.length = 1 ∧ mismatches[0]? = some .setVerificationKey ∧
        OlderVersion (transactionVersion textOf stored) := by
  unfold allowsProofActionsWithOlderVersion OlderVersion
  cases transactionVersion textOf stored with
  | none => simp
  | some version => simp

/-- What is accepted, put together. -/
theorem authentic_iff {kindOk : GuardPermissionName → Prop}
    (hkinds : versionField account ≠ .undefined → ∀ name, kindOk name ↔
      permissionField account name = .string (guardPermissionKinds name).text) :
    ((∃ hash, expected = some hash ∧ (account.get "verificationKey").get "hash" = .string hash) ∧
      (∀ name, kindOk name) ∧
      ∃ n, transactionVersion textOf (versionField account) = some (decimal n) ∧ n ≤ 4) ↔
      Authentic textOf expected account := by
  constructor
  · rintro ⟨hhash, hall, n, hn, hle⟩
    have hversion : versionField account ≠ .undefined := by
      intro heq
      rw [heq] at hn
      cases hn
    exact ⟨hhash, fun name ↦ (hkinds hversion name).mp (hall name), n, hn, hle⟩
  · rintro ⟨hhash, hall, n, hn, hle⟩
    have hversion : versionField account ≠ .undefined := by
      intro heq
      rw [heq] at hn
      cases hn
    exact ⟨hhash, fun name ↦ (hkinds hversion name).mpr (hall name), n, hn, hle⟩

theorem backend_safe_iff (h : NodeAccount account) :
    (Backend.fetchVaultSecurityStatus textOf guardSetVerificationKeyTxnVersion expected
      account).safe = true ↔ Authentic textOf expected account := by
  unfold Backend.fetchVaultSecurityStatus
  by_cases htruthy : account.truthy = true
  · rw [if_pos htruthy]
    unfold validatePermissionVector
    dsimp only
    rw [decide_eq_true_iff, allowsProofActionsWithOlderVersion_iff,
      matchesExpectedVerificationKey_iff, ← authentic_iff fun hversion _ ↦
        permissionKindVector_iff h hversion]
    refine Iff.trans ?_ (and_congr_right' (accepted_iff decide_eq_true_iff rfl))
    exact ⟨fun hsafe ↦ ⟨hsafe.1, hsafe.2.imp_right And.right⟩,
      fun hsafe ↦ ⟨hsafe.1, hsafe.2.imp_right fun hrest ↦ ⟨hsafe.1, hrest⟩⟩⟩
  · rw [if_neg htruthy]
    exact iff_of_false (by simp) fun hsafe ↦ htruthy hsafe.truthy

theorem get_orElse_object (value : JsValue) (key : String) :
    (value.orElse (.object [])).get key = value.get key := by
  cases value <;> rfl

theorem isString?_eq_some_iff {value : JsValue} {text : String} :
    value.isString? = some text ↔ value = .string text := by
  cases value <;> simp [JsValue.isString?]

theorem version_eq (value : JsValue) :
    (if value.strictEq .undefined ∨ value.strictEq .null then none
      else some (stringOf textOf value)) = transactionVersion textOf value := by
  cases value <;> rfl

theorem any_iff_olderVersion {version : Option String} :
    (version.any fun version ↦ decide (isCanonicalNumber version = true ∧
      bigIntLt version guardSetVerificationKeyTxnVersion = true)) = true ↔
      OlderVersion version := by
  unfold OlderVersion
  cases version with
  | none => simp
  | some version => simp

theorem hash_any_eq (hash : JsValue) :
    (expected.any fun text ↦ decide (¬hash.strictEq .null = true ∧
      hash.strictEq (.string text) = true)) = matchesExpectedVerificationKey hash expected := by
  cases expected <;> rfl

theorem ui_safe_iff :
    (Ui.fetchVaultSecurityStatus textOf expected account).safe = true ↔
      Authentic textOf expected account := by
  unfold Ui.fetchVaultSecurityStatus
  by_cases htruthy : account.truthy = true
  · rw [if_pos htruthy]
    dsimp only
    simp only [get_orElse_object, version_eq, hash_any_eq]
    rw [decide_eq_true_iff, decide_eq_true_iff, any_iff_olderVersion,
      matchesExpectedVerificationKey_iff]
    have hkinds (name : GuardPermissionName) :
        (if name = .setVerificationKey then
          ((account.get "permissions").get "setVerificationKey").get "auth"
          else (account.get "permissions").get name.text).isString? =
            some (guardPermissionKinds name).text ↔
          permissionField account name = .string (guardPermissionKinds name).text := by
      rw [isString?_eq_some_iff]
      unfold permissionField
      by_cases hname : name = .setVerificationKey
      · subst hname
        exact Iff.rfl
      · rw [if_neg hname, if_neg hname]
    rw [← authentic_iff fun _ ↦ hkinds]
    refine Iff.trans ?_ (and_congr_right' (accepted_iff (decide_eq_true_iff.trans
      (stringOf_orElse (by decide))) rfl))
    exact ⟨fun hsafe ↦ ⟨hsafe.1, hsafe.2.imp_right And.right⟩,
      fun hsafe ↦ ⟨hsafe.1, hsafe.2.imp_right fun hrest ↦ ⟨hsafe.1, hrest⟩⟩⟩
  · rw [if_neg htruthy]
    exact iff_of_false (by simp) fun hsafe ↦ htruthy hsafe.truthy

theorem Authentic.ui (h : Authentic textOf expected account) :
    (Ui.fetchVaultSecurityStatus textOf expected account).accountFound = true ∧
    (Ui.fetchVaultSecurityStatus textOf expected account).verificationKeyMatches = true ∧
    ∀ name, (Ui.fetchVaultSecurityStatus textOf expected account).permissionKinds name =
      some (guardPermissionKinds name).text := by
  unfold Ui.fetchVaultSecurityStatus
  rw [if_pos h.truthy]
  dsimp only
  simp only [get_orElse_object, hash_any_eq]
  refine ⟨trivial, matchesExpectedVerificationKey_iff.mpr h.hash, fun name ↦ ?_⟩
  have hfield := h.kinds name
  unfold permissionField at hfield
  rw [isString?_eq_some_iff]
  by_cases hname : name = .setVerificationKey
  · subst hname
    exact hfield
  · dsimp only at hfield
    rwa [if_neg hname] at hfield ⊢

theorem Authentic.backend (h : Authentic textOf expected account) (hnode : NodeAccount account)
    (currentTxnVersion : String) (name : GuardPermissionName) :
    (Backend.fetchVaultSecurityStatus textOf currentTxnVersion expected
      account).permissionKinds name = some (guardPermissionKinds name).text := by
  have hversion : versionField account ≠ .undefined := by
    obtain ⟨n, hn, -⟩ := h.version
    intro heq
    rw [heq] at hn
    cases hn
  unfold Backend.fetchVaultSecurityStatus
  rw [if_pos h.truthy]
  exact Option.map_eq_some_iff.mpr
    ⟨_, (permissionKindVector_iff hnode hversion).mpr (h.kinds name), rfl⟩

end Verdicts

/-- Backend and browser give the same verdict on every account of a node, which the
browser's field-by-field check repeats.  A safe vault has the expected key, the thirteen
canonical permissions and a version up to the reviewed one, which o1js sets as well. -/
theorem vault_authentication_agrees (textOf : JsValue → String) {currentTxnVersion : String}
    (hcurrent : currentTxnVersion = guardSetVerificationKeyTxnVersion) (expected : Option String)
    {account : JsValue} (h : NodeAccount account) :
    (Backend.fetchVaultSecurityStatus textOf currentTxnVersion expected account).safe =
        (Ui.fetchVaultSecurityStatus textOf expected account).safe ∧
    isCanonicalVaultSecurity (some (Ui.fetchVaultSecurityStatus textOf expected account)) =
        (Ui.fetchVaultSecurityStatus textOf expected account).safe ∧
    ((Ui.fetchVaultSecurityStatus textOf expected account).safe = true →
      Authentic textOf expected account ∧
      ∀ name, (Backend.fetchVaultSecurityStatus textOf currentTxnVersion expected
          account).permissionKinds name = some (guardPermissionKinds name).text ∧
        (Ui.fetchVaultSecurityStatus textOf expected account).permissionKinds name =
          some (guardPermissionKinds name).text) := by
  subst hcurrent
  refine ⟨?_, ?_, ?_⟩
  · rw [Bool.eq_iff_iff, backend_safe_iff h, ui_safe_iff]
  · unfold isCanonicalVaultSecurity
    dsimp only
    rw [Bool.eq_iff_iff, decide_eq_true_iff]
    constructor
    · exact fun hall ↦ hall.2.2.1
    · intro hsafe
      obtain ⟨hfound, hmatches, hkinds⟩ := (ui_safe_iff.mp hsafe).ui
      exact ⟨hfound, hmatches, hsafe,
        List.all_eq_true.mpr fun name _ ↦ decide_eq_true (hkinds name)⟩
  · intro hsafe
    have hauthentic := ui_safe_iff.mp hsafe
    exact ⟨hauthentic, fun name ↦ ⟨hauthentic.backend h _ name, hauthentic.ui.2.2 name⟩⟩

namespace Walkthrough

/-- Natural numbers as `String` writes them. -/
def numberText : JsValue → String
  | .number q => decimal q.num.natAbs
  | _ => ""

/-- A vault that was last updated one version ago. -/
def olderVault : JsValue :=
  .object [("verificationKey", .object [("hash", .string "777")]),
    ("permissions", .object (("setVerificationKey",
      .object [("auth", .string "Impossible"), ("txnVersion", .number 3)]) ::
      (guardPermissionNames.filter (· ≠ .setVerificationKey)).map fun name ↦
        (name.text, .string (guardPermissionKinds name).text)))]

theorem nodeAccount_olderVault : NodeAccount olderVault where
  permission name := by
    have hfield : permissionField olderVault name = .string (guardPermissionKinds name).text := by
      cases name <;> rfl
    rw [hfield]
    exact .text _
  members key hauth hversion := by
    change JsValue.get (.object [("auth", .string "Impossible"), ("txnVersion", .number 3)]) key = _
    have hlookup : [("auth", JsValue.string "Impossible"), ("txnVersion", .number 3)].lookup key =
        none := by
      rw [List.lookup_cons, beq_false_of_ne hauth]
      dsimp only
      rw [List.lookup_cons, beq_false_of_ne hversion]
      rfl
    unfold JsValue.get JsValue.property
    dsimp only
    rw [hlookup]
    rfl

theorem olderVault_safe :
    (Backend.fetchVaultSecurityStatus numberText "4" (some "777") olderVault).safe =
        (Ui.fetchVaultSecurityStatus numberText (some "777") olderVault).safe ∧
      Authentic numberText (some "777") olderVault := by
  obtain ⟨hsame, -, hsafe⟩ := vault_authentication_agrees numberText
    (rfl : "4" = guardSetVerificationKeyTxnVersion) (some "777") nodeAccount_olderVault
  exact ⟨hsame, (hsafe (by decide)).1⟩

end Walkthrough

end MinaGuard
