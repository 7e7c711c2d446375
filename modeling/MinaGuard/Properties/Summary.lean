import MinaGuard.Clients.ReceiverRows
import MinaGuard.Clients.SummarySpec
import MinaGuard.Instance.Keys

/-!
# What the offline CLI shows and what it signs

The summary reads a bundle by rules of its own, and agrees with the proposal that
is signed exactly where the fields of the bundle are written in the usual way.
-/

namespace MinaGuard

open Foundations

/-- The slots in use. -/
def TransactionProposal.payments (p : TransactionProposal) : List Receiver :=
  p.receivers.toList.filter fun r ↦ r.address ≠ PublicKey.empty

section

variable {E : Env} (B : Base58 E)

/-- The address of a key, or for the empty one that there is none. -/
def ShowsAddress (text : String) (k : PublicKey) : Prop :=
  text = B.toBase58 k ∨ k = PublicKey.empty ∧ (text = "(unknown)" ∨ text = "")

def ShowsSubVault (lines : List String) (p : TransactionProposal) : Prop :=
  ∃ text, shown "SubVault" lines = some text ∧ ShowsAddress B text p.childAccount

/-- The values of the action are those of the proposal. -/
def ShowsAction (txType : TxTypeName) (lines : List String) (p : TransactionProposal) : Prop :=
  match txType with
  | .transfer | .allocateChild =>
      (shownReceivers lines).Perm
        (p.payments.map fun r ↦ receiverLine (B.toBase58 r.address) (nanoText r.amount.toNat)) ∧
      (p.payments ≠ [] → shown "Total" lines =
        some (nanoText (p.payments.map fun r ↦ (r.amount.toNat : ℤ)).sum ++ " MINA"))
  | .addOwner => ∃ text, shown "New owner" lines = some text ∧ ShowsAddress B text p.slot0.address
  | .removeOwner =>
      ∃ text, shown "Remove owner" lines = some text ∧ ShowsAddress B text p.slot0.address
  | .changeThreshold =>
      ∃ text, shown "New threshold" lines = some text ∧ parseBigInt text = some (p.data.val : ℤ)
  | .setDelegate =>
      if p.slot0.address = PublicKey.empty then
        shown "Delegate" lines = some "undelegate (clear)"
      else shown "Delegate to" lines = some (B.toBase58 p.slot0.address)
  | .createChild | .destroyChild => ShowsSubVault B lines p
  | .reclaimChild =>
      ShowsSubVault B lines p ∧ shown "Amount" lines = some (nanoText p.data.val ++ " MINA")
  | .enableChildMultiSig =>
      ShowsSubVault B lines p ∧
        (shown "Multi-sig" lines = some "enable" ∧ p.data = 1 ∨
          shown "Multi-sig" lines = some "disable" ∧ p.data = 0)

def JsValue.IsNullish (value : JsValue) : Prop := value = .undefined ∨ value = .null

/-- An integer of the field, not one modulo its order. -/
def JsValue.IsCount (value : JsValue) : Prop :=
  ∃ n : ℕ, n < fieldOrder ∧ value.toBigInt = .ok (n : ℤ)

/-- A number that is written with all of its digits, or a text that `BigInt` reads,
without characters that are escaped. -/
inductive JsValue.Denotes : JsValue → ℕ → Prop
  | number {n : ℕ} (h : numberText n = decimal n) : Denotes (.number n) n
  | string {text : String} {n : ℕ} (hsafe : TerminalSafe text)
      (h : parseBigInt text = some (n : ℤ)) : Denotes (.string text) n

/-- Nothing that could be taken for an address. -/
def NamesNothing (value : JsValue) : Prop :=
  value.IsNullish ∨ ∃ text, value.toText = some text ∧
    (text = "(unknown)" ∨ text = "" ∨ text = B.emptyKey)

/-- An address, or nothing. -/
def ReadableAddress (value : JsValue) : Prop :=
  NamesNothing B value ∨ ∃ text, value = .string text ∧ (B.fromBase58 text).isSome

/-- The amounts of the slots in use are not reduced. -/
def LegiblePayments (receivers : JsValue) : Prop :=
  ∀ row ∈ (receivers.isArray?.getD []).take maxReceivers, isRealReceiver B row →
    (row.get "amount").IsCount

/-- The target comes first if there is one. -/
def LegibleTarget (receivers : JsValue) : Prop :=
  ∀ row rows, receivers.isArray? = some (row :: rows) → (∃ r ∈ rows, isRealReceiver B r) →
    isRealReceiver B row

def LegibleInput (txType : TxTypeName) (input : JsValue) : Prop :=
  match txType with
  | .transfer | .allocateChild => LegiblePayments B (input.get "receivers")
  | .addOwner => (input.get "newOwner").IsNullish ∨ ∃ text, input.get "newOwner" = .string text
  | .removeOwner =>
      (input.get "removeOwnerAddress").IsNullish ∨
        ∃ text, input.get "removeOwnerAddress" = .string text
  | .changeThreshold => ∃ n < fieldOrder, (input.get "newThreshold").Denotes n
  | .setDelegate => (input.get "undelegate").truthy ∨ (input.get "delegate").truthy
  | .createChild | .destroyChild | .enableChildMultiSig =>
      ReadableAddress B (input.get "childAccount")
  | .reclaimChild =>
      ReadableAddress B (input.get "childAccount") ∧
        ((input.get "reclaimAmount").truthy → (input.get "reclaimAmount").IsCount)

/-- The child that an approval or an execution names is the one of the proposal. -/
def LegibleSubVault (action : BundleAction) (bundle : JsValue) : Prop :=
  let childAccount := (bundle.get "proposal").get "childAccount"
  match action with
  | .execute => ReadableAddress B (childAccount.orElse (bundle.get "childAddress"))
  | _ =>
      ReadableAddress B childAccount ∧
        (childAccount.IsNullish → NamesNothing B (bundle.get "childAddress"))

def LegibleProposal (action : BundleAction) (txType : TxTypeName) (bundle : JsValue) : Prop :=
  let data := (bundle.get "proposal").get "data"
  let receivers := (bundle.get "proposal").get "receivers"
  match txType with
  | .transfer | .allocateChild => LegiblePayments B receivers
  | .addOwner | .removeOwner | .setDelegate => LegibleTarget B receivers
  | .changeThreshold => ∃ n < fieldOrder, data.Denotes n
  | .createChild | .destroyChild => LegibleSubVault B action bundle
  | .reclaimChild => LegibleSubVault B action bundle ∧ (data.truthy → data.IsCount)
  | .enableChildMultiSig =>
      LegibleSubVault B action bundle ∧
        (data = .string "1" ∨ data.IsNullish ∨
          ∃ n : ℤ, data.toBigInt = .ok n ∧ (fieldOrder : ℤ) ∣ n)

/-- The action of a bundle is written in the usual way. -/
def Legible (action : BundleAction) (txType : TxTypeName) (bundle : JsValue) : Prop :=
  match action with
  | .propose => LegibleInput B txType (bundle.get "input")
  | _ => LegibleProposal B action txType bundle

/-- Keys are written in letters and digits, or other characters that show themselves. -/
def Base58.Printable : Prop :=
  ∀ k, ∀ c ∈ (B.toBase58 k).toList, 33 ≤ c.toNat ∧ c.toNat ≤ 126 ∧ c ≠ '\\'

/-- A number is shown as it is signed exactly if it is not reduced. -/
theorem natCast_val_eq_iff {n : ℤ} : ((n : Fp).val : ℤ) = n ↔ ∃ m : ℕ, m < fieldOrder ∧ n = m := by
  constructor
  · intro h
    exact ⟨(n : Fp).val, ZMod.val_lt _, h.symm⟩
  · rintro ⟨m, hlt, rfl⟩
    rw [Int.cast_natCast, ZMod.val_natCast_of_lt hlt]

namespace JsValue

variable {value other : JsValue}

theorem orElse_of_isNullish (h : value.IsNullish) : value.orElse other = other := by
  rcases h with rfl | rfl <;> rfl

theorem orElse_of_not_isNullish (h : ¬value.IsNullish) : value.orElse other = value := by
  cases value with
  | undefined => exact absurd (.inl rfl) h
  | null => exact absurd (.inr rfl) h
  | _ => rfl

theorem not_isNullish_of_truthy (h : value.truthy = true) : ¬value.IsNullish := by
  rintro (rfl | rfl) <;> cases h

theorem isNullish_string {text : String} : ¬(JsValue.string text).IsNullish := by
  rintro (h | h) <;> cases h

/-- What is not truthy counts as nothing. -/
theorem eq_zero_of_not_truthy (h : value.truthy = false) {x : Fp}
    (hx : (value.orElse (.string "0")).toFp = .ok x) : x = 0 := by
  have hzero : parseField "0" = .ok 0 := parseField_fieldText 0
  cases value with
  | undefined => exact Except.ok.inj (hx.symm.trans hzero)
  | null => exact Except.ok.inj (hx.symm.trans hzero)
  | boolean b =>
      obtain rfl : b = false := h
      exact (Except.ok.inj hx).symm
  | number q =>
      obtain rfl : q = 0 := by simpa [truthy] using h
      obtain ⟨n, hn, rfl⟩ := toFp_ok.mp hx
      obtain rfl := Except.ok.inj hn
      rfl
  | string text =>
      obtain rfl : text = "" := by simpa [truthy] using h
      exact (Except.ok.inj hx).symm
  | array values => cases h
  | object members => cases h

end JsValue

theorem givenPublicKey_ok {value : JsValue} {k : PublicKey}
    (h : givenPublicKey B value = .ok k) : k = safePublicKey B value := by
  unfold givenPublicKey at h
  unfold safePublicKey
  split at h
  · next htruthy => rw [if_pos htruthy, h]
  · next htruthy =>
      rw [if_neg htruthy]
      exact (Check.pure_ok.mp h).symm

variable {B}

theorem safePublicKey_string (hcanonical : B.Canonical) {text : String} {k : PublicKey}
    (h : B.fromBase58 text = some k) : safePublicKey B (.string text) = k := by
  have hne : text ≠ "" := by
    rintro rfl
    exact B.toBase58_ne_empty k (hcanonical _ _ h)
  have htruthy : (JsValue.string text).truthy = true := decide_eq_true hne
  have hdecodes : publicKeyOf B (.string text) = .ok k := by
    unfold publicKeyOf JsValue.isString?
    rw [Option.bind_some, h]
  unfold safePublicKey
  rw [if_pos htruthy, hdecodes]

theorem safePublicKey_of_fails {value : JsValue}
    (h : ∀ text, value = .string text → B.fromBase58 text = none) :
    safePublicKey B value = PublicKey.empty := by
  unfold safePublicKey
  split
  · cases hk : publicKeyOf B value with
    | ok k =>
        obtain ⟨text, rfl, htext⟩ := publicKeyOf_ok B hk
        rw [h text rfl] at htext
        cases htext
    | error e => rfl
  · rfl

theorem toBase58_ne_unknown (k : PublicKey) : B.toBase58 k ≠ "(unknown)" := by
  intro h
  have hlength := B.length_toBase58 k
  rw [h] at hlength
  exact absurd hlength (by decide)

section Printable

variable (hprintable : B.Printable)

include hprintable

theorem Base58.Printable.safe (k : PublicKey) : TerminalSafe (B.toBase58 k) := by
  intro c hc
  obtain ⟨hlow, hhigh, -⟩ := hprintable k c hc
  exact isTerminalUnsafe_of_le (by omega) hhigh

theorem Base58.Printable.backslash_notMem (k : PublicKey) : '\\' ∉ (B.toBase58 k).toList :=
  fun hc ↦ (hprintable k _ hc).2.2 rfl

theorem Base58.Printable.escape_eq_iff {text : String} {k : PublicKey} :
    escapeTerminalText text = B.toBase58 k ↔ text = B.toBase58 k := by
  rw [escapeTerminalText_eq_iff (hprintable.backslash_notMem k)]
  exact and_iff_right_of_imp fun h ↦ h ▸ hprintable.safe k

/-- The text of a value is shown as the address of a key. -/
theorem showsAddress_escape {text : String} {k : PublicKey} :
    ShowsAddress B (escapeTerminalText text) k ↔ ShowsAddress B text k := by
  have hplain {plain : String} (hsafe : TerminalSafe plain) (hmem : '\\' ∉ plain.toList) :
      escapeTerminalText text = plain ↔ text = plain := by
    rw [escapeTerminalText_eq_iff hmem]
    exact and_iff_right_of_imp fun h ↦ h ▸ hsafe
  unfold ShowsAddress
  rw [hprintable.escape_eq_iff, hplain (by decide) (by decide), hplain (by decide) (by decide)]

end Printable

/-- A value is shown as a key. -/
def ShowsKey (B : Base58 E) (value : JsValue) (k : PublicKey) : Prop :=
  ∃ text, (orUnknown value).toText.map escapeTerminalText = some text ∧ ShowsAddress B text k

theorem showsKey_iff (hprintable : B.Printable) {value : JsValue} {k : PublicKey} :
    ShowsKey B value k ↔ ∃ text, (orUnknown value).toText = some text ∧ ShowsAddress B text k := by
  unfold ShowsKey
  simp only [Option.map_eq_some_iff, exists_exists_and_eq_and, showsAddress_escape hprintable]

theorem showsKey_empty (hprintable : B.Printable) {value : JsValue} :
    ShowsKey B value PublicKey.empty ↔ NamesNothing B value := by
  rw [showsKey_iff hprintable]
  by_cases h : value.IsNullish
  · refine iff_of_true ⟨"(unknown)", ?_, .inr ⟨rfl, .inl rfl⟩⟩ (.inl h)
    unfold orUnknown
    rw [JsValue.orElse_of_isNullish h]
    rfl
  · unfold orUnknown ShowsAddress NamesNothing Base58.emptyKey
    rw [JsValue.orElse_of_not_isNullish h, or_iff_right h]
    refine exists_congr fun text ↦ and_congr_right fun _ ↦ ?_
    rw [and_iff_right rfl, or_comm, or_assoc]

/-- A value is shown as the key that is read from it exactly if it is an address or
nothing. -/
theorem showsKey_safePublicKey (hcanonical : B.Canonical) (hprintable : B.Printable)
    {value : JsValue} : ShowsKey B value (safePublicKey B value) ↔ ReadableAddress B value := by
  by_cases hdecodes : ∃ text k, value = .string text ∧ B.fromBase58 text = some k
  · obtain ⟨text, k, rfl, hk⟩ := hdecodes
    rw [safePublicKey_string hcanonical hk, showsKey_iff hprintable]
    refine iff_of_true ⟨text, rfl, .inl (hcanonical _ _ hk).symm⟩ (.inr ⟨text, rfl, ?_⟩)
    rw [hk]
    rfl
  · have hfails : ∀ text, value = .string text → B.fromBase58 text = none := fun text htext ↦
      Option.eq_none_iff_forall_ne_some.mpr fun k hk ↦ hdecodes ⟨text, k, htext, hk⟩
    rw [safePublicKey_of_fails hfails, showsKey_empty hprintable]
    refine (or_iff_left ?_).symm
    rintro ⟨text, heq, hsome⟩
    rw [hfails text heq] at hsome
    cases hsome

/-! ## Amounts -/

/-- An amount is shown as it is signed exactly if it is not reduced. -/
theorem formatMina_eq_iff {value : JsValue} {n : ℤ} (h : value.toBigInt = .ok n) :
    formatMina value = nanoText (n : Fp).val ↔ value.IsCount := by
  have hcount : value.IsCount ↔ ((n : Fp).val : ℤ) = n := by
    rw [natCast_val_eq_iff]
    refine exists_congr fun m ↦ and_congr_right fun _ ↦ ?_
    rw [h, Except.ok.injEq]
  rw [hcount, formatMina_of_toBigInt h]
  constructor
  · intro htext
    exact (eq_of_nanoText_eq htext).symm
  · intro heq
    rw [heq]

theorem exists_sum_amounts (rs : List Receiver) :
    ∃ m : ℕ, (rs.map fun r ↦ (r.amount.toNat : ℤ)).sum = m := by
  refine Int.eq_ofNat_of_zero_le (List.sum_nonneg fun n hn ↦ ?_)
  obtain ⟨r, -, rfl⟩ := List.mem_map.mp hn
  exact Int.natCast_nonneg _

namespace RowOf

variable {row : JsValue} {r : Receiver} {rows : List JsValue} {rs : List Receiver}

theorem formatMina_eq_iff (h : RowOf B row r) :
    formatMina (row.get "amount") = nanoText r.amount.toNat ↔ (row.get "amount").IsCount := by
  obtain ⟨n, hn, hval⟩ := h.amount
  rw [← hval]
  exact MinaGuard.formatMina_eq_iff hn

theorem exists_of_mem (h : List.Forall₂ (RowOf B) rows rs) (hrow : row ∈ rows) :
    ∃ r, RowOf B row r ∧ r ∈ rs := by
  induction h with
  | nil => cases hrow
  | cons hhead _ ih =>
      rcases List.mem_cons.mp hrow with rfl | hrow
      · exact ⟨_, hhead, List.mem_cons_self⟩
      · obtain ⟨r, hr, hmem⟩ := ih hrow
        exact ⟨r, hr, List.mem_cons_of_mem _ hmem⟩

theorem toBigInt_of_isCount (h : RowOf B row r) (hcount : (row.get "amount").IsCount) :
    (row.get "amount").toBigInt = .ok (r.amount.toNat : ℤ) := by
  obtain ⟨n, hn, hval⟩ := h.amount
  obtain ⟨m, hlt, hm⟩ := hcount
  obtain rfl := Except.ok.inj (hn.symm.trans hm)
  rw [hn, ← hval, Int.cast_natCast, ZMod.val_natCast_of_lt hlt]

theorem escape_shownRow (hprintable : B.Printable) (h : RowOf B row r)
    (haddress : r.address ≠ PublicKey.empty) :
    escapeTerminalText (shownRow row) =
      receiverLine (B.toBase58 r.address) (escapeTerminalText (formatMina (row.get "amount"))) := by
  unfold shownRow addressText
  rw [escape_receiverLine, h.address haddress]
  exact congrArg (receiverLine · _) (hprintable.safe r.address).escape

/-- Rows with addresses, written in the usual way, are shown as their slots. -/
theorem map_eq (hprintable : B.Printable) (h : List.Forall₂ (RowOf B) rows rs)
    (haddress : ∀ r ∈ rs, r.address ≠ PublicKey.empty)
    (hcount : ∀ row ∈ rows, (row.get "amount").IsCount) :
    rows.map (fun row ↦ escapeTerminalText (shownRow row)) =
      rs.map fun r ↦ receiverLine (B.toBase58 r.address) (nanoText r.amount.toNat) := by
  induction h with
  | nil => rfl
  | cons hrow _ ih =>
      rw [List.map_cons, List.map_cons,
        hrow.escape_shownRow hprintable (haddress _ List.mem_cons_self),
        hrow.formatMina_eq_iff.mpr (hcount _ List.mem_cons_self),
        (terminalSafe_nanoText _).escape,
        ih (fun r hr ↦ haddress r (List.mem_cons_of_mem _ hr))
          fun row hr ↦ hcount row (List.mem_cons_of_mem _ hr)]

theorem foldl_addAmount (h : List.Forall₂ (RowOf B) rows rs)
    (hcount : ∀ row ∈ rows, (row.get "amount").IsCount) (start : ℤ) :
    rows.foldl addAmount start = start + (rs.map fun r ↦ (r.amount.toNat : ℤ)).sum := by
  induction h generalizing start with
  | nil => simp
  | @cons row r _ _ hrow _ ih =>
      have hamount := hrow.toBigInt_of_isCount (hcount _ List.mem_cons_self)
      have hnullish : ¬(row.get "amount").IsNullish := by
        rintro (hnone | hnone) <;> rw [hnone] at hamount <;> cases hamount
      have hadd : addAmount start row = start + r.amount.toNat := by
        unfold addAmount
        rw [JsValue.orElse_of_not_isNullish hnullish, hamount]
      rw [List.foldl_cons, hadd, ih fun row hr ↦ hcount row (List.mem_cons_of_mem _ hr),
        List.map_cons, List.sum_cons, add_assoc]

theorem totalMina_eq (h : List.Forall₂ (RowOf B) rows rs)
    (hcount : ∀ row ∈ rows, (row.get "amount").IsCount) :
    totalMina rows = nanoText (rs.map fun r ↦ (r.amount.toNat : ℤ)).sum := by
  obtain ⟨m, hm⟩ := exists_sum_amounts rs
  have htext : (JsValue.string (integerText (m : ℤ))).toBigInt = .ok (m : ℤ) := by
    unfold integerText JsValue.toBigInt
    rw [if_neg (not_lt.mpr (Int.natCast_nonneg m)), Int.natAbs_natCast]
    dsimp only
    rw [parseBigInt_decimal]
  unfold totalMina
  rw [foldl_addAmount h hcount, zero_add, hm, formatMina_of_toBigInt htext]

end RowOf

/-- Payments are shown as they are signed exactly if no amount is reduced. -/
theorem showsPayments_iff (hcanonical : B.Canonical) (hprintable : B.Printable)
    {receivers : JsValue} {p : TransactionProposal}
    (h : buildTransferReceivers B receivers = .ok p.receivers) :
    ((shownReceivers (screenLines (renderReceivers B receivers))).Perm
        (p.payments.map fun r ↦ receiverLine (B.toBase58 r.address) (nanoText r.amount.toNat)) ∧
      (p.payments ≠ [] → shown "Total" (screenLines (renderReceivers B receivers)) =
        some (nanoText (p.payments.map fun r ↦ (r.amount.toNat : ℤ)).sum ++ " MINA"))) ↔
      LegiblePayments B receivers := by
  obtain ⟨rows, rs, hrows, hslots, hall⟩ := buildTransferReceivers_ok hcanonical h
  have hpayments : p.payments =
      (rs.take maxReceivers).filter fun r ↦ decide (r.address ≠ PublicKey.empty) := by
    unfold TransactionProposal.payments
    rw [hslots, toList_receiverSlots]
  have hpaired : List.Forall₂ (RowOf B) ((rows.take maxReceivers).filter (isRealReceiver B))
      p.payments := by
    rw [hpayments]
    exact List.rel_filter (fun row r hrow ↦ hrow.real.trans decide_eq_true_iff.symm)
      (List.forall₂_take maxReceivers hall)
  have hnonempty : ∀ r ∈ p.payments, r.address ≠ PublicKey.empty := fun r hr ↦
    of_decide_eq_true (List.mem_filter.mp hr).2
  generalize hreal : (rows.take maxReceivers).filter (isRealReceiver B) = real at hpaired
  have hlegible : LegiblePayments B receivers ↔ ∀ row ∈ real, (row.get "amount").IsCount := by
    unfold LegiblePayments
    rw [hrows, Option.getD_some, ← hreal]
    simp only [List.mem_filter, and_imp]
  have haddress : ∀ row ∈ real, ∃ text, row.get "address" = .string text := by
    intro row hrow
    obtain ⟨r, hr, hmem⟩ := RowOf.exists_of_mem hpaired hrow
    exact ⟨_, hr.address (hnonempty r hmem)⟩
  obtain ⟨hshown, htotal⟩ := shown_renderReceivers hrows hreal haddress
  rw [hlegible, hshown]
  constructor
  · -- what is shown for a row is an amount of some slot
    rintro ⟨hperm, -⟩ row hrow
    obtain ⟨r, hr, hline⟩ := List.mem_map.mp (hperm.subset (List.mem_map_of_mem hrow))
    obtain ⟨r', hr', hmem⟩ := RowOf.exists_of_mem hpaired hrow
    rw [hr'.escape_shownRow hprintable (hnonempty r' hmem)] at hline
    obtain ⟨n, hn, -⟩ := hr'.amount
    have hspace (k : PublicKey) : ' ' ∉ (B.toBase58 k).toList := fun hc ↦
      absurd (hprintable k ' ' hc).1 (by decide)
    have htext := escape_eq_nanoText.mp (receiverLine_inj (hspace _) (hspace _) hline).2.symm
    rw [formatMina_of_toBigInt hn] at htext
    rw [eq_of_nanoText_eq htext] at hn
    exact ⟨_, (UInt64.toNat_lt r.amount).trans two_pow_64_lt_fieldOrder, hn⟩
  · intro hcount
    rw [RowOf.map_eq hprintable hpaired hnonempty hcount]
    refine ⟨.refl _, fun hne ↦ ?_⟩
    have hne' : real ≠ [] := by
      rintro rfl
      exact hne (List.forall₂_nil_left_iff.mp hpaired)
    obtain ⟨m, hm⟩ := exists_sum_amounts p.payments
    rw [htotal hne', RowOf.totalMina_eq hpaired hcount, hm, escapeTerminalText_append,
      (terminalSafe_nanoText m).escape]
    rfl

/-- The shown target is that of the first slot exactly if it comes first. -/
theorem target0_cases (hcanonical : B.Canonical) {receivers : JsValue} {p : TransactionProposal}
    (h : buildTransferReceivers B receivers = .ok p.receivers) :
    LegibleTarget B receivers ∧
        (target0 B receivers = .null ∧ p.slot0.address = PublicKey.empty ∨
          target0 B receivers = .string (B.toBase58 p.slot0.address) ∧
            p.slot0.address ≠ PublicKey.empty) ∨
      ¬LegibleTarget B receivers ∧ p.slot0.address = PublicKey.empty ∧
        ∃ k, target0 B receivers = .string (B.toBase58 k) ∧ k ≠ PublicKey.empty := by
  obtain ⟨rows, rs, hrows, hslots, hall⟩ := buildTransferReceivers_ok hcanonical h
  have hslot0 : p.slot0 = (receiverSlots rs)[0] := by
    rw [← hslots]
    rfl
  have hreal : realReceivers B receivers = rows.filter (isRealReceiver B) := by
    unfold realReceivers
    rw [hrows]
  unfold target0 LegibleTarget
  rw [hslot0, hreal, hrows]
  cases hall with
  | nil => exact .inl ⟨nofun, .inl ⟨rfl, rfl⟩⟩
  | @cons row r rows rs hrow hall =>
      have hfirst : (receiverSlots (r :: rs))[0] = r := rfl
      rw [hfirst]
      by_cases hrowReal : isRealReceiver B row = true
      · have hne := hrow.real.mp hrowReal
        refine .inl ⟨?_, .inr ⟨?_, hne⟩⟩
        · rintro row' rows' heq -
          obtain ⟨rfl, -⟩ := List.cons.inj (Option.some.inj heq)
          exact hrowReal
        · rw [List.filter_cons_of_pos hrowReal, List.head?_cons]
          dsimp only
          rw [hrow.address hne]
          rfl
      · have hempty : r.address = PublicKey.empty := by
          by_contra hne
          exact hrowReal (hrow.real.mpr hne)
        rw [List.filter_cons_of_neg hrowReal]
        by_cases hlater : ∃ row' ∈ rows, isRealReceiver B row' = true
        · refine .inr ⟨fun hlegible ↦ hrowReal (hlegible row rows rfl hlater), hempty, ?_⟩
          cases hhead : (rows.filter (isRealReceiver B)).head? with
          | none =>
              obtain ⟨row', hmem, hrow'⟩ := hlater
              exact absurd hrow' (List.filter_eq_nil_iff.mp (List.head?_eq_none_iff.mp hhead)
                row' hmem)
          | some row' =>
              obtain ⟨hmem, hrow'⟩ := List.mem_filter.mp (List.mem_of_head? hhead)
              obtain ⟨r', hr', -⟩ := RowOf.exists_of_mem hall hmem
              have hne := hr'.real.mp hrow'
              refine ⟨r'.address, ?_, hne⟩
              dsimp only
              rw [hr'.address hne]
              rfl
        · have hnil : rows.filter (isRealReceiver B) = [] :=
            List.filter_eq_nil_iff.mpr fun row' hmem hrow' ↦ hlater ⟨row', hmem, hrow'⟩
          refine .inl ⟨?_, .inl ⟨?_, hempty⟩⟩
          · rintro row' rows' heq hlater'
            obtain ⟨rfl, rfl⟩ := List.cons.inj (Option.some.inj heq)
            exact absurd hlater' hlater
          · rw [hnil]
            rfl

/-! ## What is signed -/

/-- The parts of a proposal that the summary is about, from a bundled proposal. -/
structure FromProposal (B : Base58 E) (proposal childAccount : JsValue)
    (p : TransactionProposal) : Prop where
  receivers : buildTransferReceivers B (proposal.get "receivers") = .ok p.receivers
  data : ((proposal.get "data").orElse (.string "0")).toFp = .ok p.data
  childAccount : p.childAccount = safePublicKey B childAccount

theorem buildProposalStruct_ok {proposal : JsValue} {fields : ProposalFields}
    {p : TransactionProposal} (h : buildProposalStruct B proposal fields = .ok p) :
    FromProposal B proposal fields.childAccount p := by
  obtain ⟨txType, -, h⟩ := Check.bind_ok.mp h
  split at h
  · cases h
  · cases h
  · obtain ⟨receivers, hreceivers, h⟩ := Check.bind_ok.mp h
    obtain ⟨tokenId, -, h⟩ := Check.bind_ok.mp h
    obtain ⟨data, hdata, h⟩ := Check.bind_ok.mp h
    obtain ⟨nonce, -, h⟩ := Check.bind_ok.mp h
    obtain ⟨configNonce, -, h⟩ := Check.bind_ok.mp h
    obtain ⟨expirySlot, -, h⟩ := Check.bind_ok.mp h
    obtain ⟨memoHash, -, h⟩ := Check.bind_ok.mp h
    obtain rfl := Check.pure_ok.mp h
    exact ⟨hreceivers, hdata, rfl⟩

section Handlers

variable {toText : JsValue → String} {bundle : JsValue} {ownerStore : OwnerStore}
  {p : TransactionProposal} {txType : TxTypeName}

theorem handleApprove_ok (h : handleApprove B toText bundle ownerStore = .ok p) :
    FromProposal B (bundle.get "proposal") ((bundle.get "proposal").get "childAccount") p ∧
      ∃ config, assertCreateChildBundleConfig B bundle = .ok config := by
  obtain ⟨proposalStruct, hstruct, h⟩ := Check.bind_ok.mp h
  obtain ⟨-, -, h⟩ := Check.bind_ok.mp h
  obtain ⟨config, hconfig, h⟩ := Check.bind_ok.mp h
  obtain ⟨-, -, h⟩ := Check.bind_ok.mp h
  obtain ⟨-, -, h⟩ := Check.bind_ok.mp h
  obtain rfl := Check.pure_ok.mp h
  exact ⟨buildProposalStruct_ok hstruct, config, hconfig⟩

theorem handleExecute_ok (htype : requireTxType ((bundle.get "proposal").get "txType") = .ok txType)
    (h : handleExecute B toText bundle = .ok p) :
    FromProposal B (bundle.get "proposal") (executedFields bundle txType).childAccount p ∧
      ∃ config, assertCreateChildBundleConfig B bundle = .ok config := by
  obtain ⟨txType', htype', h⟩ := Check.bind_ok.mp h
  obtain rfl := Except.ok.inj (htype.symm.trans htype')
  obtain ⟨proposalStruct, hstruct, h⟩ := Check.bind_ok.mp h
  obtain ⟨-, -, h⟩ := Check.bind_ok.mp h
  obtain ⟨-, -, h⟩ := Check.bind_ok.mp h
  split at h
  · cases h
  · obtain ⟨config, hconfig, h⟩ := Check.bind_ok.mp h
    obtain rfl := Check.pure_ok.mp h
    exact ⟨buildProposalStruct_ok hstruct, config, hconfig⟩

/-- The same parts, from the input of a bundle that proposes. -/
structure FromInput (B : Base58 E) (txType : TxTypeName) (input : JsValue)
    (ownerStore : OwnerStore) (p : TransactionProposal) : Prop where
  receivers : buildReceiversForProposal B txType input = .ok p.receivers
  data : buildProposalDataField B txType input ownerStore = .ok p.data
  childAccount : p.childAccount = safePublicKey B (input.get "childAccount")

theorem handlePropose_ok (htype : requireTxType ((bundle.get "input").get "txType") = .ok txType)
    (h : handlePropose B toText bundle ownerStore = .ok p) :
    FromInput B txType (bundle.get "input") ownerStore p ∧
      ∃ config, assertCreateChildProposeConfig B (bundle.get "input") = .ok config := by
  obtain ⟨txType', htype', h⟩ := Check.bind_ok.mp h
  obtain rfl := Except.ok.inj (htype.symm.trans htype')
  split at h
  · cases h
  · obtain ⟨config, hconfig, h⟩ := Check.bind_ok.mp h
    obtain ⟨-, -, h⟩ := Check.bind_ok.mp h
    obtain ⟨receivers, hreceivers, h⟩ := Check.bind_ok.mp h
    obtain ⟨data, hdata, h⟩ := Check.bind_ok.mp h
    obtain ⟨nonce, -, h⟩ := Check.bind_ok.mp h
    obtain ⟨configNonce, -, h⟩ := Check.bind_ok.mp h
    obtain ⟨expirySlot, -, h⟩ := Check.bind_ok.mp h
    obtain ⟨guardAddress, -, h⟩ := Check.bind_ok.mp h
    obtain ⟨childAccount, hchild, h⟩ := Check.bind_ok.mp h
    obtain rfl := Check.pure_ok.mp h
    exact ⟨⟨hreceivers, hdata, givenPublicKey_ok B hchild⟩, config, hconfig⟩

end Handlers

section Values

variable {value other : JsValue} {x : Fp}

theorem orUnknown_orElse_null : orUnknown (value.orElse .null) = orUnknown value := by
  cases value <;> rfl

theorem JsValue.Denotes.toBigInt {n : ℕ} (h : value.Denotes n) :
    value.toBigInt = .ok (n : ℤ) := by
  cases h with
  | number _ =>
      unfold JsValue.toBigInt
      dsimp only
      rw [if_pos (Rat.den_natCast n), Rat.num_natCast]
  | string _ htext =>
      unfold JsValue.toBigInt
      dsimp only
      rw [htext]

theorem JsValue.Denotes.parseBigInt_toText {n : ℕ} (h : value.Denotes n) :
    ∃ text, value.toText = some text ∧ TerminalSafe text ∧ parseBigInt text = some (n : ℤ) := by
  cases h with
  | number htext =>
      refine ⟨decimal n, congrArg some htext, fun c hc ↦ ?_, parseBigInt_decimal n⟩
      exact terminalSafe_of_isDigit (.inl (isDigit_of_mem_decimal hc))
  | string hsafe htext => exact ⟨_, rfl, hsafe, htext⟩

theorem not_denotes_of_isNullish (h : value.IsNullish) {n : ℕ} : ¬value.Denotes n := by
  rcases h with rfl | rfl <;> rintro ⟨⟩

/-- What is signed is denoted by the value whose text shows it. -/
theorem denotes_of_parseBigInt (h : value.toFp = .ok x) {text : String}
    (htext : value.toText = some text) (hsafe : TerminalSafe text)
    (hparse : parseBigInt text = some (x.val : ℤ)) : value.Denotes x.val := by
  cases value with
  | string text' =>
      obtain rfl : text' = text := Option.some.inj htext
      exact .string hsafe hparse
  | number q =>
      obtain ⟨n, hn, hx⟩ := JsValue.toFp_ok.mp h
      obtain ⟨hden, hnum⟩ : q.den = 1 ∧ q.num = n := by
        unfold JsValue.toBigInt at hn
        dsimp only at hn
        split at hn
        · next hden => exact ⟨hden, Except.ok.inj hn⟩
        · cases hn
      obtain rfl : q = n := by rw [← hnum, Rat.coe_int_num_of_den_eq_one hden]
      obtain rfl : numberText n = text := Option.some.inj htext
      obtain ⟨hdigits, hnonneg, hle, hsmall⟩ := parseBigInt_numberText hparse
      have hlt : n < fieldOrder := by
        have hbound : 2 * (10 ^ 21 : ℤ) < fieldOrder := by decide
        omega
      obtain ⟨k, rfl⟩ := Int.eq_ofNat_of_zero_le hnonneg
      obtain rfl : k = x.val := by
        rw [← hx, Int.cast_natCast, ZMod.val_natCast_of_lt (by exact_mod_cast hlt)]
      exact .number hdigits
  | boolean b =>
      obtain rfl : (if b then "true" else "false") = text := Option.some.inj htext
      cases b <;> cases hparse
  | undefined => cases h
  | null => cases h
  | array values => cases h
  | object members => cases h

/-- A threshold is shown as it is signed exactly if it is not reduced, and written with
all of its digits. -/
theorem showsNumber_iff (h : (value.orElse other).toFp = .ok x) :
    (∃ text, (orUnknown value).toText.map escapeTerminalText = some text ∧
      parseBigInt text = some (x.val : ℤ)) ↔ ∃ n < fieldOrder, value.Denotes n := by
  simp only [Option.map_eq_some_iff, exists_exists_and_eq_and, parseBigInt_escape]
  by_cases hnullish : value.IsNullish
  · unfold orUnknown
    rw [JsValue.orElse_of_isNullish hnullish]
    refine iff_of_false ?_ fun ⟨_, _, hn⟩ ↦ not_denotes_of_isNullish hnullish hn
    rintro ⟨text, htext, -, hparse⟩
    obtain rfl : "(unknown)" = text := Option.some.inj htext
    have hunknown : parseBigInt "(unknown)" = none := by decide
    rw [hunknown] at hparse
    cases hparse
  · unfold orUnknown
    rw [JsValue.orElse_of_not_isNullish hnullish] at h ⊢
    constructor
    · rintro ⟨text, htext, hsafe, hparse⟩
      exact ⟨x.val, ZMod.val_lt x, denotes_of_parseBigInt h htext hsafe hparse⟩
    · rintro ⟨n, hlt, hdenotes⟩
      obtain ⟨m, hm, rfl⟩ := JsValue.toFp_ok.mp h
      obtain rfl := Except.ok.inj (hm.symm.trans hdenotes.toBigInt)
      rw [Int.cast_natCast, ZMod.val_natCast_of_lt hlt]
      exact hdenotes.parseBigInt_toText

theorem showsAmount_iff (h : (value.orElse (.string "0")).toFp = .ok x) :
    formatMina value = nanoText x.val ↔ (value.truthy = true → value.IsCount) := by
  by_cases htruthy : value.truthy = true
  · rw [JsValue.orElse_of_not_isNullish (JsValue.not_isNullish_of_truthy htruthy)] at h
    obtain ⟨n, hn, rfl⟩ := JsValue.toFp_ok.mp h
    rw [formatMina_eq_iff hn]
    exact ⟨fun hcount _ ↦ hcount, fun hcount ↦ hcount htruthy⟩
  · obtain rfl := JsValue.eq_zero_of_not_truthy (Bool.eq_false_iff.mpr htruthy) h
    refine iff_of_true ?_ fun htrue ↦ absurd htrue htruthy
    unfold formatMina
    rw [if_neg htruthy, val_zero]
    rfl

theorem showsToggle_iff (h : (value.orElse (.string "0")).toFp = .ok x) :
    ((if value.strictEq (.string "1") = true then "enable" else "disable") = "enable" ∧ x = 1 ∨
        (if value.strictEq (.string "1") = true then "enable" else "disable") = "disable" ∧
          x = 0) ↔
      value = .string "1" ∨ value.IsNullish ∨
        ∃ n : ℤ, value.toBigInt = .ok n ∧ (fieldOrder : ℤ) ∣ n := by
  have hone : parseField "1" = .ok 1 := by
    rw [← fieldText_one]
    exact parseField_fieldText 1
  by_cases hvalue : value = .string "1"
  · rw [if_pos (strictEq_string.mpr hvalue)]
    subst hvalue
    exact iff_of_true (.inl ⟨rfl, Except.ok.inj (h.symm.trans hone)⟩) (.inl rfl)
  · rw [if_neg (mt strictEq_string.mp hvalue)]
    have hzero : x = 0 ↔
        value.IsNullish ∨ ∃ n : ℤ, value.toBigInt = .ok n ∧ (fieldOrder : ℤ) ∣ n := by
      by_cases hnullish : value.IsNullish
      · rw [JsValue.orElse_of_isNullish hnullish] at h
        exact iff_of_true (Except.ok.inj (h.symm.trans (parseField_fieldText 0))) (.inl hnullish)
      · rw [JsValue.orElse_of_not_isNullish hnullish] at h
        obtain ⟨n, hn, rfl⟩ := JsValue.toFp_ok.mp h
        rw [or_iff_right hnullish, ZMod.intCast_zmod_eq_zero_iff_dvd]
        constructor
        · exact fun hdvd ↦ ⟨n, hn, hdvd⟩
        · rintro ⟨m, hm, hdvd⟩
          rwa [Except.ok.inj (hn.symm.trans hm)]
    rw [← hzero, or_iff_right hvalue]
    constructor
    · rintro (⟨hne, -⟩ | ⟨-, hx⟩)
      · exact absurd hne (by decide)
      · exact hx
    · exact fun hx ↦ .inr ⟨rfl, hx⟩

end Values

theorem safePublicKey_orElse_null {value : JsValue} :
    safePublicKey B (value.orElse .null) = safePublicKey B value := by
  cases value <;> rfl

theorem showsKey_orElse_null {value : JsValue} {k : PublicKey} :
    ShowsKey B (value.orElse .null) k ↔ ShowsKey B value k := by
  unfold ShowsKey
  rw [orUnknown_orElse_null]

/-- Short texts name something, but for the empty one. -/
theorem not_namesNothing {value : JsValue} {text : String} (h : ¬value.IsNullish)
    (htext : value.toText = some text) (hne : text ≠ "(unknown)" ∧ text ≠ "")
    (hlength : text.length ≤ 10) : ¬NamesNothing B value := by
  rintro (hnullish | ⟨text', htext', heq⟩)
  · exact h hnullish
  · obtain rfl := Option.some.inj (htext.symm.trans htext')
    rcases heq with heq | heq | heq
    · exact hne.1 heq
    · exact hne.2 heq
    · have hempty := B.length_toBase58 PublicKey.empty
      unfold Base58.emptyKey at heq
      rw [← heq] at hempty
      omega

theorem showsAmountLine_iff {value : JsValue} {x : Fp}
    (h : (value.orElse (.string "0")).toFp = .ok x) :
    escapeTerminalText (formatMina (value.orElse .null) ++ " MINA") = nanoText x.val ++ " MINA" ↔
      (value.truthy = true → value.IsCount) := by
  have hnull : formatMina (value.orElse .null) = formatMina value := by
    cases value <;> rfl
  have hunit : TerminalSafe " MINA" := by decide
  rw [hnull, ← showsAmount_iff h, escapeTerminalText_append, hunit.escape, String.append_left_inj,
    escape_eq_nanoText]

/-- The child of an approval: shown from two fields, signed from one. -/
theorem showsApprovedChild_iff (hcanonical : B.Canonical) (hprintable : B.Printable)
    {childAccount childAddress : JsValue} :
    ShowsKey B (childAccount.orElse childAddress) (safePublicKey B childAccount) ↔
      ReadableAddress B childAccount ∧ (childAccount.IsNullish → NamesNothing B childAddress) := by
  by_cases hnullish : childAccount.IsNullish
  · have hempty : safePublicKey B childAccount = PublicKey.empty := by
      rcases hnullish with rfl | rfl <;> rfl
    rw [JsValue.orElse_of_isNullish hnullish, hempty, showsKey_empty hprintable]
    exact ⟨fun hnothing ↦ ⟨.inl (.inl hnullish), fun _ ↦ hnothing⟩, fun h ↦ h.2 hnullish⟩
  · rw [JsValue.orElse_of_not_isNullish hnullish, showsKey_safePublicKey hcanonical hprintable]
    exact ⟨fun hreadable ↦ ⟨hreadable, fun hnone ↦ absurd hnone hnullish⟩, And.left⟩

/-! ## Lines -/

section Lines

variable {label : String} {value : JsValue} {others : List String}

/-- What is shown of a value in the first line. -/
theorem shown_orUnknown (h : IsBodyLabel label) :
    shown label (screenLines ((line label (orUnknown value)).map fun text ↦ text :: others)) =
      (orUnknown value).toText.map escapeTerminalText := by
  rw [shown_line h, orElse_orUnknown]

theorem showsSubVault_iff {p : TransactionProposal} :
    ShowsSubVault B (screenLines (withSubVault value others)) p ↔
      ShowsKey B value p.childAccount := by
  unfold ShowsSubVault ShowsKey withSubVault
  rw [shown_orUnknown (isBodyLabel (by simp))]

/-- A body that is the line of a threshold. -/
theorem showsThresholdLine_iff {other : JsValue} {x : Fp} (h : (value.orElse other).toFp = .ok x) :
    (∃ text, shown "New threshold" (screenLines ((line "New threshold"
      (orUnknown (value.orElse .null))).map fun text ↦ [text])) = some text ∧
        parseBigInt text = some (x.val : ℤ)) ↔ ∃ n < fieldOrder, value.Denotes n := by
  rw [shown_orUnknown (isBodyLabel (by simp)), orUnknown_orElse_null]
  exact showsNumber_iff h

/-- A body that is the line of a key. -/
theorem showsKeyLine_iff (h : IsBodyLabel label) {k : PublicKey} :
    (∃ text, shown label (screenLines ((line label (orUnknown value)).map fun text ↦ [text])) =
      some text ∧ ShowsAddress B text k) ↔ ShowsKey B value k := by
  unfold ShowsKey
  rw [shown_orUnknown h]

/-- Another line of an action on a SubVault, given that this one is shown. -/
theorem shown_after_subVault {other : String} (h : IsBodyLabel other)
    (hapart : Apart (labelField other) (labelField "SubVault")) {k : PublicKey}
    (hshown : ShowsKey B value k) :
    shown other (screenLines (withSubVault value others)) =
      shown other (others.map escapeTerminalText) := by
  obtain ⟨text, htext, -⟩ := hshown
  obtain ⟨text, hvalue, -⟩ := Option.map_eq_some_iff.mp htext
  unfold withSubVault
  rw [shown_line_other h hapart (by decide), orElse_orUnknown, hvalue, Option.bind_some]

theorem showsReclaim_iff {k : PublicKey} {text amount : String} (hshown : ShowsKey B value k) :
    shown "Amount" (screenLines (withSubVault value (textLine "Amount" text :: others))) =
      some amount ↔ escapeTerminalText text = amount := by
  have hlabel : IsBodyLabel "Amount" := isBodyLabel (by simp)
  rw [shown_after_subVault hlabel (by decide) hshown, shown_textLine hlabel, Option.some_inj]

theorem showsMultiSig_iff {enable : Bool} {k : PublicKey} {x : Fp} (hshown : ShowsKey B value k) :
    (shown "Multi-sig" (screenLines (withSubVault value (textLine "Multi-sig"
          (if enable then "enable" else "disable") :: others))) = some "enable" ∧ x = 1 ∨
        shown "Multi-sig" (screenLines (withSubVault value (textLine "Multi-sig"
          (if enable then "enable" else "disable") :: others))) = some "disable" ∧ x = 0) ↔
      (if enable then "enable" else "disable") = "enable" ∧ x = 1 ∨
        (if enable then "enable" else "disable") = "disable" ∧ x = 0 := by
  have hsafe : TerminalSafe (if enable then "enable" else "disable") := by
    cases enable <;> decide
  have hlabel : IsBodyLabel "Multi-sig" := isBodyLabel (by simp)
  rw [shown_after_subVault hlabel (by decide) hshown, shown_textLine hlabel, hsafe.escape,
    Option.some_inj, Option.some_inj]

end Lines

theorem exists_toText_of_toFp {value : JsValue} {x : Fp} (h : value.toFp = .ok x) :
    ∃ text, value.toText = some text := by
  cases value with
  | undefined => cases h
  | null => cases h
  | array values => cases h
  | object members => cases h
  | boolean b => exact ⟨_, rfl⟩
  | number q => exact ⟨_, rfl⟩
  | string text => exact ⟨_, rfl⟩

/-- A configuration that was checked has texts for all that is listed of it. -/
theorem renderBody_createChild (hcanonical : B.Canonical) {src : BodySource}
    {childOwners childThreshold : JsValue} {order : OwnerOrder} {checked : CheckedConfig}
    (howners : src.childOwners = childOwners.orElse .null)
    (hthreshold : src.childThreshold = childThreshold.orElse .null)
    (h : checkedChildConfigHash B childOwners childThreshold order = .ok checked) :
    ∃ lines, renderBody B .createChild src = withSubVault src.childAddress lines := by
  obtain ⟨owners, threshold, rfl, hfield, -⟩ := checkedChildConfigHash_ok hcanonical h
  obtain ⟨text, htext⟩ := exists_toText_of_toFp hfield
  have hgiven : ¬childThreshold.IsNullish := by
    rintro (rfl | rfl) <;> cases hfield
  have hlist : src.childOwners.isArray? = some ((owners.map B.toBase58).map .string) := by
    rw [howners]
    rfl
  have htexts (l : List String) : (l.map JsValue.string).mapM JsValue.toText = some l := by
    induction l with
    | nil => rfl
    | cons text l ih =>
        rw [List.map_cons, List.mapM_cons, ih]
        rfl
  have hline : line "Threshold" (orUnknown src.childThreshold) =
      some (textLine "Threshold" text) := by
    unfold line orUnknown
    rw [hthreshold, JsValue.orElse_of_not_isNullish hgiven,
      JsValue.orElse_of_not_isNullish hgiven, JsValue.orElse_of_not_isNullish hgiven, htext]
    rfl
  unfold renderBody
  dsimp only
  rw [hlist, Option.getD_some, htexts, hline]
  exact ⟨_, rfl⟩

theorem checked_of_bundleConfig {bundle : JsValue} {config : Option ChildConfig}
    (htype : requireTxType ((bundle.get "proposal").get "txType") = .ok .createChild)
    (h : assertCreateChildBundleConfig B bundle = .ok config) :
    ∃ checked, checkedChildConfigHash B (bundle.get "childOwners") (bundle.get "childThreshold")
      .reserved = .ok checked := by
  unfold assertCreateChildBundleConfig at h
  obtain ⟨txType, htype', h⟩ := Check.bind_ok.mp h
  obtain rfl := Except.ok.inj (htype.symm.trans htype')
  rw [if_neg (not_not.mpr rfl)] at h
  split at h
  · cases h
  · obtain ⟨checked, hchecked, -⟩ := Check.bind_ok.mp h
    exact ⟨checked, hchecked⟩

theorem checked_of_proposeConfig {input : JsValue} {config : Option ChildConfig}
    (htype : requireTxType (input.get "txType") = .ok .createChild)
    (h : assertCreateChildProposeConfig B input = .ok config) :
    ∃ checked, checkedChildConfigHash B (input.get "childOwners") (input.get "childThreshold")
      .sorted = .ok checked := by
  unfold assertCreateChildProposeConfig at h
  obtain ⟨txType, htype', h⟩ := Check.bind_ok.mp h
  obtain rfl := Except.ok.inj (htype.symm.trans htype')
  rw [if_neg (not_not.mpr rfl)] at h
  obtain ⟨checked, hchecked, -⟩ := Check.bind_ok.mp h
  exact ⟨checked, hchecked⟩

section Main

variable {bundle : JsValue} {p : TransactionProposal} {txType : TxTypeName}

theorem showsOwner_iff (hcanonical : B.Canonical) (hprintable : B.Printable)
    {receivers : JsValue} (h : buildTransferReceivers B receivers = .ok p.receivers) :
    ShowsKey B (target0 B receivers) p.slot0.address ↔ LegibleTarget B receivers := by
  rcases target0_cases hcanonical h with ⟨hlegible, ⟨hnull, hempty⟩ | ⟨htarget, -⟩⟩ |
    ⟨hnot, hempty, k, htarget, hne⟩
  · rw [hnull, hempty, showsKey_empty hprintable]
    exact iff_of_true (.inl (.inr rfl)) hlegible
  · rw [htarget, showsKey_iff hprintable]
    exact iff_of_true ⟨_, rfl, .inl rfl⟩ hlegible
  · rw [htarget, hempty, showsKey_empty hprintable]
    refine iff_of_false ?_ hnot
    rintro (hnullish | ⟨text, htext, heq⟩)
    · exact JsValue.isNullish_string hnullish
    · obtain rfl : B.toBase58 k = text := Option.some.inj htext
      rcases heq with heq | heq | heq
      · exact toBase58_ne_unknown k heq
      · exact B.toBase58_ne_empty k heq
      · exact hne (B.toBase58_eq_emptyKey.mp heq)

/-- The lines about a delegate. -/
theorem showsDelegate_cases {undelegate : Bool} {delegate : JsValue} {k : PublicKey} :
    (if k = PublicKey.empty then
        shown "Delegate" (screenLines (if undelegate then
          some [textLine "Delegate" "undelegate (clear)"]
          else (line "Delegate to" (orUnknown delegate)).map fun text ↦ [text])) =
            some "undelegate (clear)"
      else
        shown "Delegate to" (screenLines (if undelegate then
          some [textLine "Delegate" "undelegate (clear)"]
          else (line "Delegate to" (orUnknown delegate)).map fun text ↦ [text])) =
            some (B.toBase58 k)) ↔
      if k = PublicKey.empty then undelegate = true
      else undelegate = false ∧
        (orUnknown delegate).toText.map escapeTerminalText = some (B.toBase58 k) := by
  cases undelegate with
  | true =>
      have hclear : shown "Delegate" (screenLines
          (some [textLine "Delegate" "undelegate (clear)"])) = some "undelegate (clear)" := by
        decide +kernel
      have hnone : shown "Delegate to" (screenLines
          (some [textLine "Delegate" "undelegate (clear)"])) = none := by
        decide +kernel
      rw [if_pos rfl, hclear, hnone]
      split
      · exact iff_of_true rfl rfl
      · exact iff_of_false nofun fun h ↦ Bool.noConfusion h.1
  | false =>
      have hother : shown "Delegate" (screenLines ((line "Delegate to" (orUnknown delegate)).map
          fun text ↦ [text])) = none := by
        rw [shown_line_other (isBodyLabel (by simp)) (by decide) (by decide)]
        cases ((orUnknown delegate).orElse (.string "")).toText <;> rfl
      rw [if_neg Bool.false_ne_true, hother, shown_orUnknown (isBodyLabel (by simp))]
      split
      · exact iff_of_false nofun nofun
      · exact (and_iff_right rfl).symm

theorem showsDelegate_iff (hcanonical : B.Canonical) (hprintable : B.Printable)
    {receivers : JsValue} (h : buildTransferReceivers B receivers = .ok p.receivers) :
    (if p.slot0.address = PublicKey.empty then (target0 B receivers).strictEq .null = true
      else (target0 B receivers).strictEq .null = false ∧
        (orUnknown (target0 B receivers)).toText.map escapeTerminalText =
          some (B.toBase58 p.slot0.address)) ↔ LegibleTarget B receivers := by
  rcases target0_cases hcanonical h with ⟨hlegible, ⟨hnull, hempty⟩ | ⟨htarget, hne⟩⟩ |
    ⟨hnot, hempty, k, htarget, hne⟩
  · rw [hnull, if_pos hempty]
    exact iff_of_true rfl hlegible
  · rw [htarget, if_neg hne]
    exact iff_of_true ⟨rfl, congrArg some (hprintable.safe _).escape⟩ hlegible
  · rw [htarget, if_pos hempty]
    exact iff_of_false nofun hnot

/-- A bundle that approves or executes is shown as it is signed exactly if it is
written in the usual way, given that this holds of the child it names. -/
theorem showsProposal_iff (hcanonical : B.Canonical) (hprintable : B.Printable)
    {action : BundleAction} {childAccount : JsValue}
    (hp : FromProposal B (bundle.get "proposal") childAccount p)
    (hchild : txType.isRemote = true →
      (ShowsKey B (((bundle.get "proposal").get "childAccount").orElse
        (bundle.get "childAddress")) p.childAccount ↔ LegibleSubVault B action bundle))
    (hconfig : txType = .createChild →
      ∃ lines, renderBody B txType (proposalSource B bundle txType) =
        withSubVault (proposalSource B bundle txType).childAddress lines) :
    ShowsAction B txType (screenLines (renderBody B txType (proposalSource B bundle txType))) p ↔
      LegibleProposal B action txType bundle := by
  have hreceivers := hp.receivers
  obtain ⟨rows, -, hrows, -, -⟩ := buildTransferReceivers_ok hcanonical hreceivers
  have hlist : ((bundle.get "proposal").get "receivers").orElse (.array []) =
      (bundle.get "proposal").get "receivers" := by
    apply JsValue.orElse_of_not_isNullish
    rintro (hnone | hnone) <;> rw [hnone] at hrows <;> cases hrows
  have hsubVault (hremote : txType.isRemote = true) : ShowsKey B
      ((((bundle.get "proposal").get "childAccount").orElse (bundle.get "childAddress")).orElse
        .null) p.childAccount ↔ LegibleSubVault B action bundle := by
    rw [← hchild hremote, showsKey_orElse_null]
  cases txType with
  | transfer =>
      change (_ ∧ _) ↔ LegiblePayments B _
      rw [← showsPayments_iff hcanonical hprintable hreceivers, ← hlist]
      exact Iff.rfl
  | allocateChild =>
      change (_ ∧ _) ↔ LegiblePayments B _
      rw [← showsPayments_iff hcanonical hprintable hreceivers, ← hlist]
      exact Iff.rfl
  | addOwner =>
      exact (showsKeyLine_iff (isBodyLabel (by simp))).trans
        (showsOwner_iff hcanonical hprintable hreceivers)
  | removeOwner =>
      exact (showsKeyLine_iff (isBodyLabel (by simp))).trans
        (showsOwner_iff hcanonical hprintable hreceivers)
  | changeThreshold => exact showsThresholdLine_iff hp.data
  | setDelegate =>
      have hbody : renderBody B .setDelegate (proposalSource B bundle .setDelegate) =
          if (target0 B ((bundle.get "proposal").get "receivers")).strictEq .null then
            some [textLine "Delegate" "undelegate (clear)"]
          else (line "Delegate to" (orUnknown (target0 B
            ((bundle.get "proposal").get "receivers")))).map fun text ↦ [text] := by
        simp [renderBody, proposalSource]
      unfold ShowsAction
      dsimp only
      rw [hbody, showsDelegate_cases]
      exact showsDelegate_iff hcanonical hprintable hreceivers
  | createChild =>
      obtain ⟨lines, hlines⟩ := hconfig rfl
      rw [hlines]
      exact showsSubVault_iff.trans (hsubVault rfl)
  | destroyChild => exact showsSubVault_iff.trans (hsubVault rfl)
  | reclaimChild =>
      refine Iff.trans (and_congr_right fun hshown ↦ ?_)
        (and_congr (showsSubVault_iff.trans (hsubVault rfl)) (showsAmountLine_iff hp.data))
      exact showsReclaim_iff (showsSubVault_iff.mp hshown)
  | enableChildMultiSig =>
      refine Iff.trans (and_congr_right fun hshown ↦ ?_)
        (and_congr (showsSubVault_iff.trans (hsubVault rfl)) (showsToggle_iff hp.data))
      exact showsMultiSig_iff (showsSubVault_iff.mp hshown)

theorem legiblePayments_orElse {receivers : JsValue} :
    LegiblePayments B (receivers.orElse (.array [])) ↔ LegiblePayments B receivers := by
  cases receivers <;> exact Iff.rfl

/-- The first slot of a proposal for a target that need not be given. -/
theorem slot0_of_target {txType : TxTypeName} {input : JsValue}
    (htype : ¬(txType = .transfer ∨ txType = .allocateChild))
    (h : buildReceiversForProposal B txType input = .ok p.receivers) :
    (governanceTargetAddress txType input).truthy = true ∧
        publicKeyOf B (governanceTargetAddress txType input) = .ok p.slot0.address ∨
      (governanceTargetAddress txType input).truthy = false ∧
        p.slot0.address = PublicKey.empty := by
  unfold buildReceiversForProposal at h
  rw [if_neg htype] at h
  dsimp only at h
  split at h
  · next htruthy =>
      obtain ⟨address, haddress, h⟩ := Check.bind_ok.mp h
      have hslot0 : p.slot0.address = address := by
        unfold TransactionProposal.slot0
        rw [← Check.pure_ok.mp h]
        rfl
      exact .inl ⟨htruthy, haddress.trans (congrArg Except.ok hslot0.symm)⟩
  · next htruthy =>
      refine .inr ⟨Bool.eq_false_iff.mpr htruthy, ?_⟩
      unfold TransactionProposal.slot0
      rw [← Check.pure_ok.mp h]
      rfl

/-- The owner that is proposed, shown as it is unless it is no text. -/
theorem showsInputOwner_iff (hcanonical : B.Canonical) (hprintable : B.Printable)
    {txType : TxTypeName} {input owner : JsValue}
    (htype : ¬(txType = .transfer ∨ txType = .allocateChild))
    (htarget : governanceTargetAddress txType input = owner.orElse .null)
    (h : buildReceiversForProposal B txType input = .ok p.receivers) :
    ShowsKey B owner p.slot0.address ↔ owner.IsNullish ∨ ∃ text, owner = .string text := by
  rcases slot0_of_target htype h with ⟨htruthy, hk⟩ | ⟨htruthy, hempty⟩
  · rw [htarget] at htruthy hk
    obtain ⟨text, htext, hdecodes⟩ := publicKeyOf_ok B hk
    have howner : owner = .string text := by
      cases owner <;> first | exact htext | cases htext
    rw [howner, showsKey_iff hprintable]
    exact iff_of_true ⟨text, rfl, .inl (hcanonical _ _ hdecodes).symm⟩ (.inr ⟨text, rfl⟩)
  · rw [htarget] at htruthy
    rw [hempty, showsKey_empty hprintable]
    -- what is not truthy and no text has a text that names something
    cases owner with
    | undefined => exact iff_of_true (.inl (.inl rfl)) (.inl (.inl rfl))
    | null => exact iff_of_true (.inl (.inr rfl)) (.inl (.inr rfl))
    | string text =>
        obtain rfl : text = "" := by simpa [JsValue.orElse, JsValue.truthy] using htruthy
        exact iff_of_true (.inr ⟨"", rfl, .inr (.inl rfl)⟩) (.inr ⟨"", rfl⟩)
    | boolean b =>
        obtain rfl : b = false := by simpa [JsValue.orElse, JsValue.truthy] using htruthy
        have hnot : ¬(JsValue.boolean false).IsNullish := by rintro (h | h) <;> cases h
        refine iff_of_false (not_namesNothing hnot rfl (by decide) (by decide))
          (not_or.mpr ⟨hnot, ?_⟩)
        rintro ⟨text, htext⟩
        cases htext
    | number q =>
        obtain rfl : q = 0 := by simpa [JsValue.orElse, JsValue.truthy] using htruthy
        have hnot : ¬(JsValue.number 0).IsNullish := by rintro (h | h) <;> cases h
        refine iff_of_false (not_namesNothing hnot rfl (by decide) (by decide))
          (not_or.mpr ⟨hnot, ?_⟩)
        rintro ⟨text, htext⟩
        cases htext
    | array values => cases htruthy
    | object members => cases htruthy

theorem showsInputDelegate_iff (hcanonical : B.Canonical) (hprintable : B.Printable)
    {input : JsValue} (h : buildReceiversForProposal B .setDelegate input = .ok p.receivers) :
    (if p.slot0.address = PublicKey.empty then (input.get "undelegate").truthy = true
      else (input.get "undelegate").truthy = false ∧
        (orUnknown ((input.get "delegate").orElse .null)).toText.map escapeTerminalText =
          some (B.toBase58 p.slot0.address)) ↔
      (input.get "undelegate").truthy = true ∨ (input.get "delegate").truthy = true := by
  have htarget : governanceTargetAddress .setDelegate input =
      if (input.get "undelegate").truthy = true then .null
      else (input.get "delegate").orElse .null := rfl
  have hslot0 := slot0_of_target (by decide) h
  rw [htarget] at hslot0
  by_cases hundelegate : (input.get "undelegate").truthy = true
  · rw [if_pos hundelegate] at hslot0
    rcases hslot0 with ⟨htruthy, -⟩ | ⟨-, hempty⟩
    · cases htruthy
    · rw [if_pos hempty]
      exact iff_of_true hundelegate (.inl hundelegate)
  · rw [if_neg hundelegate] at hslot0
    rw [or_iff_right hundelegate]
    rcases hslot0 with ⟨htruthy, hk⟩ | ⟨htruthy, hempty⟩
    · obtain ⟨text, htext, hdecodes⟩ := publicKeyOf_ok B hk
      have hdelegate : input.get "delegate" = .string text := by
        cases hvalue : input.get "delegate" <;> rw [hvalue] at htext <;>
          first | exact htext | cases htext
      have hne : p.slot0.address ≠ PublicKey.empty := by
        intro hempty
        rw [hempty, ← hcanonical _ _ hdecodes, B.fails B.empty_not_onCurve] at hdecodes
        cases hdecodes
      have hsafe := hprintable.safe p.slot0.address
      rw [hcanonical _ _ hdecodes] at hsafe
      rw [if_neg hne, hdelegate, hcanonical _ _ hdecodes]
      refine iff_of_true ⟨Bool.eq_false_iff.mpr hundelegate, ?_⟩ ?_
      · exact congrArg some hsafe.escape
      · rw [htext] at htruthy
        exact htruthy
    · rw [if_pos hempty]
      refine iff_of_false hundelegate ?_
      intro hdelegate
      rw [JsValue.orElse_of_not_isNullish (JsValue.not_isNullish_of_truthy hdelegate),
        hdelegate] at htruthy
      cases htruthy

/-- A bundle that proposes is shown as it is signed exactly if it is written in the
usual way. -/
theorem showsInput_iff (hcanonical : B.Canonical) (hprintable : B.Printable)
    {ownerStore : OwnerStore} (hp : FromInput B txType (bundle.get "input") ownerStore p)
    (hconfig : txType = .createChild →
      ∃ lines, renderBody B txType (proposeSource bundle txType) =
        withSubVault (proposeSource bundle txType).childAddress lines) :
    ShowsAction B txType (screenLines (renderBody B txType (proposeSource bundle txType))) p ↔
      LegibleInput B txType (bundle.get "input") := by
  have hreceivers := hp.receivers
  have hdata := hp.data
  have hsubVault : ShowsKey B (((bundle.get "input").get "childAccount").orElse .null)
      p.childAccount ↔ ReadableAddress B ((bundle.get "input").get "childAccount") := by
    rw [hp.childAccount, showsKey_orElse_null]
    exact showsKey_safePublicKey hcanonical hprintable
  cases txType with
  | transfer =>
      change (_ ∧ _) ↔ LegiblePayments B _
      rw [← legiblePayments_orElse]
      exact showsPayments_iff hcanonical hprintable hreceivers
  | allocateChild =>
      change (_ ∧ _) ↔ LegiblePayments B _
      rw [← legiblePayments_orElse]
      exact showsPayments_iff hcanonical hprintable hreceivers
  | addOwner =>
      refine (showsKeyLine_iff (isBodyLabel (by simp))).trans (showsKey_orElse_null.trans ?_)
      exact showsInputOwner_iff hcanonical hprintable (by decide) rfl hreceivers
  | removeOwner =>
      refine (showsKeyLine_iff (isBodyLabel (by simp))).trans (showsKey_orElse_null.trans ?_)
      exact showsInputOwner_iff hcanonical hprintable (by decide) rfl hreceivers
  | changeThreshold => exact showsThresholdLine_iff hdata
  | setDelegate =>
      have hbody : renderBody B .setDelegate (proposeSource bundle .setDelegate) =
          if ((bundle.get "input").get "undelegate").truthy then
            some [textLine "Delegate" "undelegate (clear)"]
          else (line "Delegate to" (orUnknown
            (((bundle.get "input").get "delegate").orElse .null))).map fun text ↦ [text] := rfl
      unfold ShowsAction
      dsimp only
      rw [hbody, showsDelegate_cases]
      exact showsInputDelegate_iff hcanonical hprintable hreceivers
  | createChild =>
      obtain ⟨lines, hlines⟩ := hconfig rfl
      rw [hlines]
      exact showsSubVault_iff.trans hsubVault
  | destroyChild => exact showsSubVault_iff.trans hsubVault
  | reclaimChild =>
      refine Iff.trans (and_congr_right fun hshown ↦ ?_)
        (and_congr (showsSubVault_iff.trans hsubVault) (showsAmountLine_iff hdata))
      exact showsReclaim_iff (showsSubVault_iff.mp hshown)
  | enableChildMultiSig =>
      refine (and_iff_left_of_imp fun hshown ↦ ?_).trans (showsSubVault_iff.trans hsubVault)
      have hvalue : (if ((bundle.get "input").get "childMultiSigEnable").truthy = true then 1
          else 0) = p.data := Except.ok.inj hdata
      refine (showsMultiSig_iff (showsSubVault_iff.mp hshown)).mpr ?_
      rw [← hvalue]
      by_cases henable : ((bundle.get "input").get "childMultiSigEnable").truthy = true
      · exact .inl ⟨if_pos henable, if_pos henable⟩
      · exact .inr ⟨if_neg henable, if_neg henable⟩

/-- What is shown of a reservation that is approved or executed starts with the child. -/
theorem renderBody_reserved (hcanonical : B.Canonical)
    (htype : requireTxType ((bundle.get "proposal").get "txType") = .ok .createChild)
    (h : ∃ config, assertCreateChildBundleConfig B bundle = .ok config) :
    ∃ lines, renderBody B .createChild (proposalSource B bundle .createChild) =
      withSubVault (proposalSource B bundle .createChild).childAddress lines := by
  obtain ⟨config, hconfig⟩ := h
  obtain ⟨checked, hchecked⟩ := checked_of_bundleConfig htype hconfig
  exact renderBody_createChild hcanonical rfl rfl hchecked

/-- The summary of a bundle shows the proposal that is signed exactly if the bundle
is written in the usual way. -/
theorem summary_shows_signed (hcanonical : B.Canonical) (hprintable : B.Printable)
    {toText : JsValue → String} {action : BundleAction} {ownerStore : OwnerStore}
    (htype : canonicalizeBundleTxType action bundle = .ok txType)
    (hsigned : signedProposal B toText action bundle ownerStore = .ok p) :
    ShowsAction B txType (renderBundleSummary B action txType bundle) p ↔
      Legible B action txType bundle := by
  cases action with
  | propose =>
      have hp := handlePropose_ok htype hsigned
      refine showsInput_iff hcanonical hprintable hp.1 ?_
      rintro rfl
      obtain ⟨config, hconfig⟩ := hp.2
      obtain ⟨checked, hchecked⟩ := checked_of_proposeConfig htype hconfig
      exact renderBody_createChild hcanonical rfl rfl hchecked
  | approve =>
      have hp := handleApprove_ok hsigned
      refine showsProposal_iff hcanonical hprintable hp.1 (fun _ ↦ ?_) ?_
      · rw [hp.1.childAccount]
        exact showsApprovedChild_iff hcanonical hprintable
      · rintro rfl
        exact renderBody_reserved hcanonical htype hp.2
  | execute =>
      have hp := handleExecute_ok htype hsigned
      refine showsProposal_iff hcanonical hprintable hp.1 (fun hremote ↦ ?_) ?_
      · have hchild : (executedFields bundle txType).childAccount =
            (((bundle.get "proposal").get "childAccount").orElse
              (bundle.get "childAddress")).orElse .null := if_pos hremote
        rw [hp.1.childAccount, hchild, safePublicKey_orElse_null]
        exact showsKey_safePublicKey hcanonical hprintable
      · rintro rfl
        exact renderBody_reserved hcanonical htype hp.2

end Main

end

namespace Walkthrough

/-- The values of these bundles are texts. -/
def toText (value : JsValue) : String := value.isString?.getD ""

theorem base58_printable : base58.Printable := by
  intro k c hc
  change c ∈ (keyText k).toList at hc
  rw [toList_keyText] at hc
  rcases List.mem_append.mp hc with hprefix | hc
  · have hall : "B62q-point-".toList.all fun c ↦ 33 ≤ c.toNat ∧ c.toNat ≤ 126 ∧ c ≠ '\\' := by
      decide
    exact of_decide_eq_true (List.all_eq_true.mp hall c hprefix)
  · have hdigit : c.isDigit = true := by
      rcases List.mem_cons.mp hc with rfl | hc
      · cases k.isOdd <;> rfl
      · exact isDigit_of_mem_decimal hc
    obtain ⟨hlow, hhigh⟩ : 48 ≤ c.toNat ∧ c.toNat ≤ 57 := by
      simpa [Char.isDigit, UInt32.le_iff_toNat_le] using hdigit
    refine ⟨by omega, by omega, ?_⟩
    rintro rfl
    exact absurd hhigh (by decide)

/-- The proposal to enable or disable the multi-sig of a SubVault. -/
def enableProposal (data : Fp) : TransactionProposal where
  receivers := receiverSlots []
  tokenId := nativeTokenId
  txType := uiTxTypeToField .enableChildMultiSig
  data
  nonce := 0
  configNonce := 0
  expirySlot := 0
  guardAddress := safePublicKey base58 (.string (keyText root))
  destination := destinationRemote
  childAccount := safePublicKey base58 (.string (keyText child))
  memoHash := memoToField tables.env ""

/-- A bundle to approve it, with its data in any spelling. -/
def enableBundle (data : String) (x : Fp) : JsValue :=
  .object
    [("contractAddress", .string (keyText root)),
      ("proposal", .object
        [("txType", .string "enableChildMultiSig"),
          ("receivers", .array []),
          ("data", .string data),
          ("destination", .string "remote"),
          ("childAccount", .string (keyText child)),
          ("memoHash", .string (fieldText (memoToField tables.env ""))),
          ("proposalHash", .string (fieldText (tables.env.proposalHash (enableProposal x))))])]

theorem signed_enableBundle {data : String} {x : Fp} (h : parseField data = .ok x) :
    signedProposal base58 toText .approve (enableBundle data x) ⟨[]⟩ = .ok (enableProposal x) := by
  have hzero : parseField "0" = .ok 0 := parseField_fieldText 0
  have htoken : parseField (fieldText nativeTokenId) = .ok nativeTokenId :=
    parseField_fieldText nativeTokenId
  have hmemo := parseField_fieldText (memoToField tables.env "")
  have hbuild : buildProposalStruct base58 ((enableBundle data x).get "proposal")
      { guardAddress := .string (keyText root)
        destination := .string "remote"
        childAccount := .string (keyText child) } = .ok (enableProposal x) := by
    refine Check.bind_ok.mpr ⟨.enableChildMultiSig, rfl, ?_⟩
    refine Check.bind_ok.mpr ⟨receiverSlots [], rfl, ?_⟩
    refine Check.bind_ok.mpr ⟨nativeTokenId, htoken, ?_⟩
    refine Check.bind_ok.mpr ⟨x, h, ?_⟩
    refine Check.bind_ok.mpr ⟨0, hzero, ?_⟩
    refine Check.bind_ok.mpr ⟨0, hzero, ?_⟩
    refine Check.bind_ok.mpr ⟨0, hzero, ?_⟩
    exact Check.bind_ok.mpr ⟨_, hmemo, rfl⟩
  change handleApprove base58 toText (enableBundle data x) ⟨[]⟩ = _
  unfold handleApprove
  refine Check.bind_ok.mpr ⟨_, hbuild, ?_⟩
  refine Check.bind_ok.mpr ⟨(), rfl, ?_⟩
  refine Check.bind_ok.mpr ⟨none, rfl, ?_⟩
  refine Check.bind_ok.mpr ⟨(), if_pos (decide_eq_true rfl), ?_⟩
  exact Check.bind_ok.mpr ⟨(), if_pos (decide_eq_true rfl), rfl⟩

/-- `"01"` is signed as one, and shown as anything but `"1"` is. -/
theorem padded_enable_shown :
    canonicalizeBundleTxType .approve (enableBundle "01" 1) = .ok .enableChildMultiSig ∧
      signedProposal base58 toText .approve (enableBundle "01" 1) ⟨[]⟩ =
        .ok (enableProposal 1) ∧
      ¬ShowsAction base58 .enableChildMultiSig
        (renderBundleSummary base58 .approve .enableChildMultiSig (enableBundle "01" 1))
        (enableProposal 1) := by
  refine ⟨rfl, signed_enableBundle rfl, ?_⟩
  have hshown : shown "Multi-sig" (renderBundleSummary base58 .approve .enableChildMultiSig
      (enableBundle "01" 1)) = some "disable" := by decide +kernel
  rintro ⟨-, ⟨henable, -⟩ | ⟨-, hdata⟩⟩
  · rw [hshown] at henable
    exact absurd (Option.some.inj henable) (by decide)
  · exact absurd hdata (by decide)

theorem enable_shown :
    ShowsAction base58 .enableChildMultiSig
      (renderBundleSummary base58 .approve .enableChildMultiSig (enableBundle "1" 1))
      (enableProposal 1) := by
  refine (summary_shows_signed (fun _ _ h ↦ Tables.keyText_of_base58 h) base58_printable
    rfl (signed_enableBundle rfl)).mpr ⟨⟨.inr ⟨keyText child, rfl, ?_⟩, ?_⟩, .inl rfl⟩
  · decide +kernel
  · exact fun hnullish ↦ absurd hnullish JsValue.isNullish_string

end Walkthrough

end MinaGuard
