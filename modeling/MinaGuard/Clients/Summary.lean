import MinaGuard.Clients.Proposals
import MinaGuard.Clients.TerminalText

/-!
# The summary of a bundle

`summary.ts` of the offline CLI, which reads the bundle on its own and shows what
is about to be signed.  The amounts it writes in MINA can be told apart.
-/

namespace MinaGuard

/-- `toString()` of a `bigint`. -/
def integerText (n : ℤ) : String :=
  if n < 0 then "-" ++ decimal n.natAbs else decimal n.natAbs

/-- `padStart(9, '0').replace(/0+$/, '')`. -/
def fractionText (text : String) : List Char :=
  (List.replicate (9 - text.toList.length) '0' ++ text.toList).rdropWhile (· = '0')

/-- A number of nanomina, in MINA. -/
def nanoText (n : ℤ) : String :=
  let whole := n.tdiv 1000000000
  let frac := n.tmod 1000000000
  if frac = 0 then integerText whole
  else integerText whole ++ "." ++ String.ofList (fractionText (integerText frac))

def formatMina (nanomina : JsValue) : String :=
  if nanomina.truthy then
    match nanomina.toBigInt with
    | .ok n => nanoText n
    | .error _ => "0"
  else "0"

theorem formatMina_of_toBigInt {value : JsValue} {n : ℤ} (h : value.toBigInt = .ok n) :
    formatMina value = nanoText n := by
  unfold formatMina
  by_cases htruthy : value.truthy = true
  · rw [if_pos htruthy, h]
  · rw [if_neg htruthy]
    cases value with
    | boolean b =>
        obtain rfl : b = false := by simpa [JsValue.truthy] using htruthy
        obtain rfl := Except.ok.inj h
        rfl
    | number q =>
        obtain rfl : q = 0 := by simpa [JsValue.truthy] using htruthy
        obtain rfl := Except.ok.inj h
        rfl
    | string text =>
        obtain rfl : text = "" := by simpa [JsValue.truthy] using htruthy
        obtain rfl := Except.ok.inj h
        rfl
    | array values => exact absurd rfl htruthy
    | object members => exact absurd rfl htruthy
    | undefined => cases h
    | null => cases h

theorem fractionText_toDigits {n : ℕ} (h : n < 10 ^ 9) :
    Nat.ofDigitChars 10 (fractionText (decimal n) ++
      List.replicate (9 - (fractionText (decimal n)).length) '0') 0 = n := by
  have hdigits : (decimal n).toList = Nat.toDigits 10 n := Nat.toList_repr
  unfold fractionText
  rw [hdigits]
  generalize hpadded : List.replicate (9 - (Nat.toDigits 10 n).length) '0' ++ Nat.toDigits 10 n =
    padded
  have hlength : padded.length = 9 := by
    have hle := Nat.toDigits_length 10 n 9 (by decide) h
    rw [← hpadded, List.length_append, List.length_replicate]
    omega
  have hvalue : Nat.ofDigitChars 10 padded 0 = n := by
    rw [← hpadded, Nat.ofDigitChars_append, Nat.ofDigitChars_replicate_zero, Nat.mul_zero,
      Nat.ofDigitChars_ten_toDigits]
  -- what was cut off are zeros
  have hcut := List.rdropWhile_append_rtakeWhile (p := fun c ↦ decide (c = '0')) (l := padded)
  have hzeros : padded.rtakeWhile (fun c ↦ decide (c = '0')) =
      List.replicate (padded.rtakeWhile fun c ↦ decide (c = '0')).length '0' := by
    apply List.eq_replicate_length.mpr
    exact fun c hc ↦ by simpa using List.mem_rtakeWhile_imp hc
  have hrest : 9 - (padded.rdropWhile fun c ↦ decide (c = '0')).length =
      (padded.rtakeWhile fun c ↦ decide (c = '0')).length := by
    have hsum := congrArg List.length hcut
    rw [List.length_append, hlength] at hsum
    omega
  rw [hrest, ← hzeros, hcut, hvalue]

theorem toList_nanoText (n : ℕ) :
    (nanoText n).toList = (decimal (n / 10 ^ 9)).toList ++
      if n % 10 ^ 9 = 0 then [] else '.' :: fractionText (decimal (n % 10 ^ 9)) := by
  have hwhole : (n : ℤ).tdiv 1000000000 = ((n / 10 ^ 9 : ℕ) : ℤ) := by
    rw [Int.tdiv_eq_ediv_of_nonneg (Int.natCast_nonneg n)]
    rfl
  have hfrac : (n : ℤ).tmod 1000000000 = ((n % 10 ^ 9 : ℕ) : ℤ) := by
    rw [Int.tmod_eq_emod_of_nonneg (Int.natCast_nonneg n)]
    rfl
  have htext (k : ℕ) : integerText (k : ℤ) = decimal k := by
    unfold integerText
    rw [if_neg (not_lt.mpr (Int.natCast_nonneg k)), Int.natAbs_natCast]
  unfold nanoText
  dsimp only
  rw [hwhole, hfrac, htext, htext]
  by_cases hzero : n % 10 ^ 9 = 0
  · rw [if_pos hzero, if_pos (Int.natCast_eq_zero.mpr hzero), List.append_nil]
  · have hpoint : ".".toList = ['.'] := rfl
    rw [if_neg hzero, if_neg (mt Int.natCast_eq_zero.mp hzero), String.toList_append,
      String.toList_append, hpoint, String.toList_ofList, List.append_assoc, List.singleton_append]

theorem nanoText_natCast_injective {n m : ℕ} (h : nanoText n = nanoText m) : n = m := by
  have hchars := congrArg String.toList h
  rw [toList_nanoText, toList_nanoText] at hchars
  -- the point ends the digits of the whole
  have hdigit (k : ℕ) : ∀ c ∈ (decimal k).toList, decide (c ≠ '.') = true := by
    intro c hc
    apply decide_eq_true
    rintro rfl
    exact absurd (isDigit_of_mem_decimal hc) (by decide)
  have htake (k : ℕ) : (if k % 10 ^ 9 = 0 then []
      else '.' :: fractionText (decimal (k % 10 ^ 9))).takeWhile (fun c ↦ decide (c ≠ '.')) =
        [] := by
    split <;> rfl
  have hdrop (k : ℕ) : (if k % 10 ^ 9 = 0 then []
      else '.' :: fractionText (decimal (k % 10 ^ 9))).dropWhile (fun c ↦ decide (c ≠ '.')) =
        if k % 10 ^ 9 = 0 then [] else '.' :: fractionText (decimal (k % 10 ^ 9)) := by
    split <;> rfl
  have hwhole := congrArg (List.takeWhile fun c ↦ decide (c ≠ '.')) hchars
  rw [List.takeWhile_append_of_pos (hdigit _), List.takeWhile_append_of_pos (hdigit _), htake,
    htake, List.append_nil, List.append_nil] at hwhole
  have hfrac := congrArg (List.dropWhile fun c ↦ decide (c ≠ '.')) hchars
  rw [List.dropWhile_append_of_pos (hdigit _), List.dropWhile_append_of_pos (hdigit _), hdrop,
    hdrop] at hfrac
  have hdiv := decimal_injective (String.toList_inj.mp hwhole)
  have hmod : n % 10 ^ 9 = m % 10 ^ 9 := by
    split at hfrac
    · next hn =>
        split at hfrac
        · next hm => rw [hn, hm]
        · cases hfrac
    · split at hfrac
      · cases hfrac
      · have htail := (List.cons.inj hfrac).2
        rw [← fractionText_toDigits (Nat.mod_lt n (by decide)), htail,
          fractionText_toDigits (Nat.mod_lt m (by decide))]
  rw [← Nat.div_add_mod n (10 ^ 9), hdiv, hmod, Nat.div_add_mod]

theorem mem_fractionText {text : String} {c : Char} (hc : c ∈ text.toList) (hne : c ≠ '0') :
    c ∈ fractionText text := by
  have hmem : c ∈ List.replicate (9 - text.toList.length) '0' ++ text.toList :=
    List.mem_append_right _ hc
  rw [← List.rdropWhile_append_rtakeWhile (p := fun c ↦ decide (c = '0'))
    (l := List.replicate (9 - text.toList.length) '0' ++ text.toList)] at hmem
  refine (List.mem_append.mp hmem).resolve_right fun hcut ↦ hne ?_
  simpa using List.mem_rtakeWhile_imp hcut

/-- Negative amounts are shown with a sign. -/
theorem dash_mem_nanoText {n : ℤ} (h : n < 0) : '-' ∈ (nanoText n).toList := by
  obtain ⟨m, rfl⟩ : ∃ m : ℕ, n = -(m : ℤ) := ⟨n.natAbs, by omega⟩
  have hwhole : (-(m : ℤ)).tdiv 1000000000 = -((m / 10 ^ 9 : ℕ) : ℤ) := by
    rw [Int.neg_tdiv, Int.tdiv_eq_ediv_of_nonneg (Int.natCast_nonneg m)]
    rfl
  have hfrac : (-(m : ℤ)).tmod 1000000000 = -((m % 10 ^ 9 : ℕ) : ℤ) := by
    rw [Int.neg_tmod, Int.tmod_eq_emod_of_nonneg (Int.natCast_nonneg m)]
    rfl
  have hneg {k : ℤ} (hk : k < 0) : '-' ∈ (integerText k).toList := by
    unfold integerText
    rw [if_pos hk, String.toList_append]
    exact List.mem_append_left _ List.mem_cons_self
  unfold nanoText
  dsimp only
  rw [hwhole, hfrac]
  by_cases hzero : m % 10 ^ 9 = 0
  · rw [if_pos (by omega)]
    exact hneg (by omega)
  · rw [if_neg (by omega), String.toList_append, String.toList_ofList]
    exact List.mem_append_right _ (mem_fractionText (hneg (by omega)) (by decide))

theorem dash_notMem_nanoText (n : ℕ) : '-' ∉ (nanoText n).toList := by
  have hdigit (k : ℕ) : '-' ∉ (decimal k).toList := fun hc ↦
    absurd (isDigit_of_mem_decimal hc) (by decide)
  have hfraction (k : ℕ) : '-' ∉ fractionText (decimal k) := by
    intro hc
    rcases List.mem_append.mp ((List.rdropWhile_prefix _ _).subset hc) with hc | hc
    · exact absurd (List.eq_of_mem_replicate hc) (by decide)
    · exact hdigit k hc
  rw [toList_nanoText, List.mem_append, not_or]
  refine ⟨hdigit _, ?_⟩
  split
  · exact List.not_mem_nil
  · rw [List.mem_cons, not_or]
    exact ⟨by decide, hfraction _⟩

/-- What is shown for an amount is shown for no other. -/
theorem eq_of_nanoText_eq {n : ℤ} {m : ℕ} (h : nanoText n = nanoText m) : n = m := by
  rcases lt_or_ge n 0 with hneg | hnonneg
  · have hdash := dash_mem_nanoText hneg
    rw [h] at hdash
    exact absurd hdash (dash_notMem_nanoText m)
  · obtain ⟨k, rfl⟩ := Int.eq_ofNat_of_zero_le hnonneg
    rw [nanoText_natCast_injective h]

/-- `  ${label.padEnd(16)}`. -/
def labelField (label : String) : String :=
  "  " ++ label ++ String.ofList (List.replicate (16 - label.length) ' ')

def textLine (label text : String) : String := labelField label ++ text

/-- A line with a value, `none` where its text throws. -/
def line (label : String) (value : JsValue) : Option String :=
  (value.orElse (.string "")).toText.map (textLine label)

def receiverLine (address amount : String) : String :=
  "    " ++ address ++ "  →  " ++ amount ++ " MINA"

section Rendering

variable {E : Env} (B : Base58 E)

def isRealReceiver (row : JsValue) : Bool :=
  (row.get "address").truthy ∧ ¬(row.get "address").strictEq (.string B.emptyKey)

/-- The rows that are not padding. -/
def realReceivers (receivers : JsValue) : List JsValue :=
  match receivers.isArray? with
  | none => []
  | some rows => rows.filter (isRealReceiver B)

/-- Malformed amounts are left out of the total. -/
def addAmount (sum : ℤ) (row : JsValue) : ℤ :=
  match ((row.get "amount").orElse (.string "0")).toBigInt with
  | .ok n => sum + n
  | .error _ => sum

def totalMina (rows : List JsValue) : String :=
  formatMina (.string (integerText (rows.foldl addAmount 0)))

def renderReceiver (row : JsValue) : Option String :=
  (row.get "address").toText.map fun address ↦
    receiverLine address (formatMina (row.get "amount"))

def renderReceivers (receivers : JsValue) : Option (List String) :=
  let all := receivers.isArray?.getD []
  let warning :=
    if maxReceivers < all.length then
      [textLine "WARNING" ("the bundle lists " ++ decimal all.length ++
        " receivers; only the first " ++ decimal maxReceivers ++ " are signed")]
    else []
  let real := realReceivers B (.array (all.take maxReceivers))
  if real = [] then some (warning ++ [textLine "Receivers" "(none)"])
  else
    (real.mapM renderReceiver).map fun rows ↦
      warning ++ ("  Receivers (" ++ decimal real.length ++ "):") :: rows ++
        [textLine "Total" (totalMina real ++ " MINA")]

/-- Where the body takes its values from. -/
structure BodySource where
  receivers : JsValue
  ownerTarget : JsValue
  threshold : JsValue
  delegate : JsValue
  undelegate : Bool
  childAddress : JsValue
  childOwners : JsValue
  childThreshold : JsValue
  /-- Of a proposed SubVault. -/
  childAccountExists : Option Bool
  reclaimAmount : JsValue
  enableMultiSig : Bool

/-- A value that may be missing. -/
def orUnknown (value : JsValue) : JsValue := value.orElse (.string "(unknown)")

/-- The SubVault of an action, and lines about it. -/
def withSubVault (childAddress : JsValue) (others : List String) : Option (List String) :=
  (line "SubVault" (orUnknown childAddress)).map fun subVault ↦ subVault :: others

def renderBody (txType : TxTypeName) (src : BodySource) : Option (List String) :=
  match txType with
  | .transfer | .allocateChild => renderReceivers B (src.receivers.orElse (.array []))
  | .addOwner => (line "New owner" (orUnknown src.ownerTarget)).map fun text ↦ [text]
  | .removeOwner => (line "Remove owner" (orUnknown src.ownerTarget)).map fun text ↦ [text]
  | .changeThreshold => (line "New threshold" (orUnknown src.threshold)).map fun text ↦ [text]
  | .setDelegate =>
      if src.undelegate then some [textLine "Delegate" "undelegate (clear)"]
      else (line "Delegate to" (orUnknown src.delegate)).map fun text ↦ [text]
  | .createChild => do
      let owners := src.childOwners.isArray?.getD []
      let texts ← owners.mapM JsValue.toText
      let threshold ← line "Threshold" (orUnknown src.childThreshold)
      withSubVault src.childAddress <|
        (if owners = [] then []
        else ("  Owners (" ++ decimal owners.length ++ "):") :: texts.map ("    " ++ ·)) ++
        threshold ::
        (match src.childAccountExists with
        | none => []
        | some true => [textLine "Child account" "exists, no creation fee"]
        | some false => [textLine "Child account" "new, 1 MINA creation fee"])
  | .reclaimChild =>
      withSubVault src.childAddress
        [textLine "Amount" (formatMina src.reclaimAmount ++ " MINA")]
  | .destroyChild =>
      withSubVault src.childAddress
        [textLine "Effect" ("disables the SubVault multi-sig and cancels its " ++
            "pending local proposals"),
          textLine "Funds" ("returned to the parent Vault; a balance may remain " ++
            "and needs a separate Reclaim"),
          textLine "Later" "the parent Vault can re-enable the SubVault"]
  | .enableChildMultiSig =>
      withSubVault src.childAddress <|
        textLine "Multi-sig" (if src.enableMultiSig then "enable" else "disable") ::
          if src.enableMultiSig then []
          else [textLine "Effect" "cancels the SubVault's pending local proposals"]

/-- The values of a bundle that proposes, from its `input`. -/
def proposeSource (bundle : JsValue) (txType : TxTypeName) : BodySource :=
  let input := bundle.get "input"
  { receivers := input.get "receivers"
    ownerTarget :=
      match txType with
      | .addOwner => (input.get "newOwner").orElse .null
      | .removeOwner => (input.get "removeOwnerAddress").orElse .null
      | _ => .null
    threshold := (input.get "newThreshold").orElse .null
    delegate := (input.get "delegate").orElse .null
    undelegate := (input.get "undelegate").truthy
    childAddress := (input.get "childAccount").orElse .null
    childOwners := (input.get "childOwners").orElse .null
    childThreshold := (input.get "childThreshold").orElse .null
    childAccountExists :=
      match (input.get "childAccount").isString? with
      | some address =>
          if txType = .createChild ∧ address ≠ "" then
            some ((bundle.get "accounts").get address).truthy
          else none
      | none => none
    reclaimAmount := (input.get "reclaimAmount").orElse .null
    enableMultiSig := (input.get "childMultiSigEnable").truthy }

/-- The target of a governance action, from the receivers of its proposal. -/
def target0 (receivers : JsValue) : JsValue :=
  match (realReceivers B receivers).head? with
  | some row => (row.get "address").orElse .null
  | none => .null

/-- The values of a bundle that approves or executes, from its `proposal`. -/
def proposalSource (bundle : JsValue) (txType : TxTypeName) : BodySource :=
  let proposal := bundle.get "proposal"
  let target0 := target0 B (proposal.get "receivers")
  { receivers := proposal.get "receivers"
    ownerTarget := target0
    threshold := (proposal.get "data").orElse .null
    delegate := target0
    undelegate := target0.strictEq .null ∧ txType = .setDelegate
    childAddress := ((proposal.get "childAccount").orElse (bundle.get "childAddress")).orElse .null
    childOwners := (bundle.get "childOwners").orElse .null
    childThreshold := (bundle.get "childThreshold").orElse .null
    childAccountExists := none
    reclaimAmount := (proposal.get "data").orElse .null
    enableMultiSig := (proposal.get "data").strictEq (.string "1") }

/-- The lines in place of what could not be rendered. -/
def unrendered : List String :=
  ["", "  WARNING: could not fully render this bundle.",
    "  Cannot convert object to primitive value",
    "  Inspect the bundle file manually before signing."]

/-- The lines of a summary on a screen. -/
def screenLines (body : Option (List String)) : List String :=
  (body.getD unrendered).map escapeTerminalText

/-- The body of the summary, the transaction type being checked. -/
def renderBundleSummary (action : BundleAction) (txType : TxTypeName) (bundle : JsValue) :
    List String :=
  match action with
  | .propose => screenLines (renderBody B txType (proposeSource bundle txType))
  | .approve | .execute => screenLines (renderBody B txType (proposalSource B bundle txType))

end Rendering

end MinaGuard
