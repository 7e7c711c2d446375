import MinaGuard.Clients.AccountFees
import MinaGuard.Instance.Keys
import MinaGuard.Properties.Funds

/-!
# Paying for new accounts

The three counts agree, and each is the number of slots whose receiver has no
account.  The transaction creates one account for each such receiver.
-/

namespace MinaGuard

open Foundations Circuit

variable {E : Env} {B : Base58 E} {accounts : PublicKey → Bool} {p : TransactionProposal}
  {P : Prover} {F F₁ : Forest}

theorem beginLocalExecution_children {typeCheck : Check} {w : E.MerkleMapWitness} {count : Fp}
    {c : LocalContext}
    (h : beginLocalExecution E typeCheck p w count P (Forest.start P.address) = .ok (c, F₁)) :
    F₁.children = [] ∧ F₁.self.publicKey = P.address := by
  simp only [beginLocalExecution, bind_ok, check_ok, Circuit.pure_ok,
    assertChildMultiSigEnabledIfChild_ok, getInitializedOwnersCommitment_ok,
    assertLocalProposal, assertProposalConfigNetworkAndGuard_ok,
    assertProposalNotExpired_ok, assertNotExecuted, assertProposalExists,
    getGovernanceState_ok, assertThresholdSatisfied, assertApprovalWitnessValue_ok,
    assertAndIncrementLocalNonce_ok, exists_and_left, exists_eq_left', exists_const,
    and_assoc] at h
  obtain ⟨-, -, -, -, -, -, -, -, -, -, -, -, -, -, rfl⟩ := h
  exact ⟨rfl, rfl⟩

/-- A transfer updates the guard and the recipient of each slot. -/
theorem executeTransfer_children {w : E.MerkleMapWitness} {count : Fp}
    (h : executeTransfer E p w count P (Forest.start P.address) = .ok ((), F)) :
    F.children = transferCredits p P.address ∧ F.self.publicKey = P.address := by
  simp only [executeTransfer, bind_ok, executeTransfers_ok, markExecuted_ok,
    emitEvent_ok, exists_and_left, exists_eq_left', exists_const, and_assoc] at h
  obtain ⟨c, F₁, hopen, hrest⟩ := h
  obtain ⟨hchildren, hself⟩ := beginLocalExecution_children hopen
  subst hrest
  refine ⟨?_, hself⟩
  change F₁.children ++ transferCredits p P.address = transferCredits p P.address
  rw [hchildren, List.nil_append]

/-- The accounts a transfer creates are its new receivers, each of them once. -/
theorem createdAccounts_executeTransfer {w : E.MerkleMapWitness} {count : Fp}
    (h : (MethodCall.executeTransfer p w count).prove P = .ok F)
    (hself : accounts P.address = true) :
    createdAccounts accounts F = (newReceivers accounts p).dedup := by
  obtain ⟨hchildren, haddress⟩ := executeTransfer_children (MethodCall.prove_ok.mp h)
  have hslots (receivers : List Receiver) :
      ((receivers.map fun r ↦ if r.address = PublicKey.empty then P.address else r.address).filter
          fun k ↦ !accounts k) =
        (receivers.map Receiver.address).filter fun k ↦ k ≠ PublicKey.empty && !accounts k := by
    induction receivers with
    | nil => rfl
    | cons r receivers ih =>
        rw [List.map_cons, List.map_cons, List.filter_cons, List.filter_cons, ih]
        by_cases hempty : r.address = PublicKey.empty
        · simp [hempty, hself]
        · simp [hempty]
  unfold createdAccounts newReceivers
  rw [haddress, hchildren, transferCredits, List.map_map, List.filter_cons, hself]
  exact congrArg List.dedup (hslots p.receivers.toList)

/-- The flags say which receivers have an account. -/
def Truthful (B : Base58 E) (accounts : PublicKey → Bool) (p : TransactionProposal)
    (flags : JsValue) : Prop :=
  flags.isObject = true ∧ ∀ r ∈ p.receivers.toList, r.address ≠ PublicKey.empty →
    (flags.get (B.toBase58 r.address)).strictEq (.boolean true) = accounts r.address

theorem countNewReceiverAccounts_eq {receivers : List Receiver} {accountExists : String → Bool}
    (hempty : ∀ r ∈ receivers, r.address.isEmpty = true ↔ r.address = PublicKey.empty)
    (hexists : ∀ r ∈ receivers, r.address ≠ PublicKey.empty →
      accountExists (B.toBase58 r.address) = accounts r.address) :
    countNewReceiverAccounts B receivers accountExists =
      ((receivers.map Receiver.address).filter fun k ↦
        k ≠ PublicKey.empty && !accounts k).length := by
  have hloop (count : ℕ) : receivers.foldl (fun count r ↦
      if r.address.isEmpty then count
      else if accountExists (B.toBase58 r.address) then count
      else count + 1) count = count + ((receivers.map Receiver.address).filter fun k ↦
        k ≠ PublicKey.empty && !accounts k).length := by
    induction receivers generalizing count with
    | nil => rfl
    | cons r receivers ih =>
        have htail := ih (fun x hx ↦ hempty x (List.mem_cons_of_mem _ hx))
          fun x hx ↦ hexists x (List.mem_cons_of_mem _ hx)
        rw [List.foldl_cons, htail, List.map_cons, List.filter_cons]
        by_cases hr : r.address = PublicKey.empty
        · rw [if_pos ((hempty r List.mem_cons_self).mpr hr)]
          simp [hr]
        · rw [if_neg (mt (hempty r List.mem_cons_self).mp hr),
            hexists r List.mem_cons_self hr]
          cases accounts r.address <;> simp [hr]
          omega
  exact (hloop 0).trans (Nat.zero_add _)

theorem newAccountCount_eq {receivers : List Receiver}
    {fetchAccount : PublicKey → DeployTargetFetch}
    (hempty : ∀ r ∈ receivers, r.address.isEmpty = true ↔ r.address = PublicKey.empty)
    (hfetch : ∀ k, receiverExists (fetchAccount k) = .ok (accounts k)) :
    newAccountCount .transfer receivers fetchAccount =
      .ok ((receivers.map Receiver.address).filter fun k ↦
        k ≠ PublicKey.empty && !accounts k).length := by
  let countReceiver (count : ℕ) (r : Receiver) : Except String ℕ :=
    if r.address.isEmpty then pure count
    else do
      let found ← receiverExists (fetchAccount r.address)
      if ¬found ∧ TxTypeName.transfer = .allocateChild then
        throw "Allocation recipients must be initialized children of this vault"
      else pure (if found then count else count + 1)
  have hstep {r : Receiver} (hr : r ∈ receivers) (count : ℕ) : countReceiver count r =
      .ok (if r.address ≠ PublicKey.empty ∧ accounts r.address = false then count + 1
        else count) := by
    by_cases hkey : r.address = PublicKey.empty
    · exact (if_pos ((hempty r hr).mpr hkey)).trans (by simp [hkey, pure, Except.pure])
    · refine (if_neg (mt (hempty r hr).mp hkey)).trans ?_
      rw [hfetch]
      cases accounts r.address with
      | false => exact congrArg Except.ok (if_pos ⟨hkey, rfl⟩).symm
      | true => exact congrArg Except.ok (if_neg fun h ↦ Bool.noConfusion h.2).symm
  have hloop (count : ℕ) : receivers.foldlM countReceiver count =
      .ok (count + ((receivers.map Receiver.address).filter fun k ↦
        k ≠ PublicKey.empty && !accounts k).length) := by
    induction receivers generalizing count with
    | nil => rfl
    | cons r receivers ih =>
        rw [List.foldlM_cons, hstep List.mem_cons_self]
        refine (ih (fun x hx ↦ hempty x (List.mem_cons_of_mem _ hx))
          (fun hx ↦ hstep (List.mem_cons_of_mem _ hx)) _).trans ?_
        rw [List.map_cons, List.filter_cons]
        by_cases hkey : r.address = PublicKey.empty
        · simp [hkey]
        · cases accounts r.address <;> simp [hkey]
          omega
  exact (if_pos (Or.inl rfl)).trans ((hloop 0).trans (by rw [Nat.zero_add]))

theorem countNewRecipientSlots_rows {rows : List JsValue} {rs : List Receiver} {flags : JsValue}
    (h : List.Forall₂ (RowOf B) rows rs)
    (hflags : ∀ r ∈ rs, r.address ≠ PublicKey.empty →
      (flags.get (B.toBase58 r.address)).strictEq (.boolean true) = accounts r.address) :
    (((rows.map fun receiver ↦ receiver.get "address").filter fun address ↦
        address.truthy && !address.strictEq (.string B.emptyKey)).filter fun address ↦
          !recipientFlag flags address).length =
      (((rs.filter fun r ↦ r.address ≠ PublicKey.empty).map Receiver.address).filter fun k ↦
        !accounts k).length := by
  induction h with
  | nil => rfl
  | @cons row r rows rs hrow hrows ih =>
      have htail := ih fun x hx ↦ hflags x (List.mem_cons_of_mem _ hx)
      have hreal : ((row.get "address").truthy &&
          !(row.get "address").strictEq (.string B.emptyKey)) = isRealReceiver B row := by
        simp [isRealReceiver]
      rw [List.map_cons, List.filter_cons, List.filter_cons, hreal]
      by_cases hempty : r.address = PublicKey.empty
      · have hnot : ¬ isRealReceiver B row = true := fun h ↦ hrow.real.mp h hempty
        rw [if_neg hnot, if_neg (by simp [hempty])]
        exact htail
      · have hflag := hflags r List.mem_cons_self hempty
        have haddress := hrow.address hempty
        rw [if_pos (hrow.real.mpr hempty), if_pos (by simp [hempty]), List.map_cons,
          List.filter_cons, List.filter_cons]
        have hsame : recipientFlag flags (row.get "address") = accounts r.address := by
          rw [haddress, ← hflag]
          rfl
        rw [hsame]
        cases accounts r.address with
        | false => exact congrArg Nat.succ htail
        | true => exact htail

theorem newReceivers_eq (accounts : PublicKey → Bool) (p : TransactionProposal) :
    newReceivers accounts p =
      ((p.receivers.toList.filter fun r ↦ r.address ≠ PublicKey.empty).map
        Receiver.address).filter fun k ↦ !accounts k := by
  unfold newReceivers
  rw [List.filter_map, List.filter_map, List.filter_filter]
  refine congrArg (List.map Receiver.address) (List.filter_congr fun r _ ↦ ?_)
  exact Bool.and_comm _ _

/-- The rows that rebuild a proposal, and the slots made from them. -/
theorem rows_of_rebuilt (hcanonical : B.Canonical) {rows : List JsValue}
    (hrows : buildTransferReceivers B (.array rows) = .ok p.receivers) :
    ∃ rs, List.Forall₂ (RowOf B) rows rs ∧ p.receivers = receiverSlots rs := by
  obtain ⟨rows', rs, hsome, hslots, hrow⟩ := buildTransferReceivers_ok hcanonical hrows
  obtain rfl : rows = rows' := Option.some.inj hsome
  exact ⟨rs, hrow, hslots⟩

theorem exists_row_of_mem {rows : List JsValue} {rs : List Receiver} {r : Receiver}
    (h : List.Forall₂ (RowOf B) rows rs) (hr : r ∈ rs) : ∃ row, RowOf B row r := by
  induction h with
  | nil => cases hr
  | cons hhead _ ih =>
      rcases List.mem_cons.mp hr with rfl | hr
      · exact ⟨_, hhead⟩
      · exact ih hr

theorem mem_receiverSlots {rs : List Receiver} {r : Receiver} :
    r ∈ (receiverSlots rs).toList → r ∈ rs.take maxReceivers ∨ r = Receiver.empty := by
  have hlist : (receiverSlots rs).toList =
      (rs ++ List.replicate maxReceivers Receiver.empty).take maxReceivers := rfl
  rw [hlist, List.take_append, List.mem_append]
  refine Or.imp_right fun hr ↦ ?_
  exact List.eq_of_mem_replicate (List.mem_of_mem_take hr)

theorem mem_receiverSlots_of_mem {rs : List Receiver} {r : Receiver}
    (hr : r ∈ rs.take maxReceivers) : r ∈ (receiverSlots rs).toList := by
  have hlist : (receiverSlots rs).toList =
      (rs ++ List.replicate maxReceivers Receiver.empty).take maxReceivers := rfl
  rw [hlist, List.take_append]
  exact List.mem_append_left _ hr

theorem countNewRecipientSlotsFromSnapshot_eq (hcanonical : B.Canonical) {rows : List JsValue}
    {flags : JsValue} (hrows : buildTransferReceivers B (.array rows) = .ok p.receivers)
    (hflags : Truthful B accounts p flags) :
    countNewRecipientSlotsFromSnapshot B rows flags = (newReceivers accounts p).length := by
  obtain ⟨rs, hrow, hslots⟩ := rows_of_rebuilt hcanonical hrows
  have htruthful := hflags.2
  rw [hslots] at htruthful
  rw [newReceivers_eq, hslots, toList_receiverSlots]
  exact countNewRecipientSlots_rows (List.forall₂_take maxReceivers hrow)
    fun r hr ↦ htruthful r (mem_receiverSlots_of_mem hr)

theorem isEmpty_iff (hcanonical : B.Canonical) (hzero : ∀ k, k.x = 0 → E.onCurve k = false)
    {rows : List JsValue} (hrows : buildTransferReceivers B (.array rows) = .ok p.receivers)
    {r : Receiver} (hr : r ∈ p.receivers.toList) :
    r.address.isEmpty = true ↔ r.address = PublicKey.empty := by
  obtain ⟨rs, hrow, hslots⟩ := rows_of_rebuilt hcanonical hrows
  constructor
  · intro hempty
    by_contra hne
    rw [hslots] at hr
    have hcurve : E.onCurve r.address = true := by
      rcases mem_receiverSlots hr with hr | rfl
      · obtain ⟨row, h⟩ := exists_row_of_mem hrow (List.mem_of_mem_take hr)
        exact h.onCurve hne
      · exact absurd rfl hne
    rw [hzero r.address (of_decide_eq_true hempty)] at hcurve
    cases hcurve
  · intro hempty
    rw [hempty]
    rfl

/-- The three counts of the accounts to pay for agree.  They are what the
transaction creates exactly if no receiver without an account is named twice. -/
theorem new_account_counts (hcanonical : B.Canonical)
    (hzero : ∀ k, k.x = 0 → E.onCurve k = false) {w : E.MerkleMapWitness} {count : Fp}
    (hexecuted : (MethodCall.executeTransfer p w count).prove P = .ok F)
    (hself : accounts P.address = true) {bundle : JsValue} {rows : List JsValue}
    (htype : requireTxType ((bundle.get "proposal").get "txType") = .ok .transfer)
    (hreceivers : (bundle.get "proposal").get "receivers" = .array rows)
    (hrows : buildTransferReceivers B (.array rows) = .ok p.receivers)
    (hflags : Truthful B accounts p (bundle.get "receiverAccountExists"))
    {fetchAccount : PublicKey → DeployTargetFetch}
    (hfetch : ∀ k, receiverExists (fetchAccount k) = .ok (accounts k)) :
    ∃ n, countExecuteNewAccounts B bundle = .ok n ∧
      newAccountCount .transfer p.receivers.toList fetchAccount = .ok n ∧
      countNewRecipientSlotsFromSnapshot B rows (bundle.get "receiverAccountExists") = n ∧
      (createdAccounts accounts F).length = (newReceivers accounts p).toFinset.card ∧
      (n = (createdAccounts accounts F).length ↔ (newReceivers accounts p).Nodup) := by
  have hempty : ∀ r ∈ p.receivers.toList,
      r.address.isEmpty = true ↔ r.address = PublicKey.empty :=
    fun r hr ↦ isEmpty_iff hcanonical hzero hrows hr
  have hcli : countExecuteNewAccounts B bundle = .ok (newReceivers accounts p).length := by
    unfold countExecuteNewAccounts
    dsimp only
    rw [hreceivers]
    refine Check.bind_ok.mpr ⟨.transfer, htype, ?_⟩
    refine Check.bind_ok.mpr ⟨p.receivers, hrows, ?_⟩
    refine congrArg Except.ok (countNewReceiverAccounts_eq hempty fun r hr hne ↦ ?_)
    rw [hflags.1, Bool.true_and]
    exact hflags.2 r hr hne
  refine ⟨_, hcli, newAccountCount_eq hempty hfetch,
    countNewRecipientSlotsFromSnapshot_eq hcanonical hrows hflags, ?_, ?_⟩
  · rw [createdAccounts_executeTransfer hexecuted hself, List.card_toFinset]
  · rw [createdAccounts_executeTransfer hexecuted hself]
    constructor
    · intro hlength
      have hsame := (List.dedup_sublist (newReceivers accounts p)).eq_of_length hlength.symm
      rw [← hsame]
      exact List.nodup_dedup _
    · intro hnodup
      rw [hnodup.dedup]

namespace Walkthrough

attribute [local instance] instOfNatFp

/-- The rows of a payment. -/
def paymentRows (payments : List (PublicKey × ℕ)) : List JsValue :=
  payments.map fun x ↦
    .object [("address", .string (keyText x.1)), ("amount", .string (decimal x.2))]

/-- A bundle to execute it. -/
def paymentBundle (payments : List (PublicKey × ℕ)) (flags : JsValue) : JsValue :=
  .object
    [("proposal", .object
      [("txType", .string "transfer"), ("receivers", .array (paymentRows payments))]),
    ("receiverAccountExists", flags)]

/-- The accounts of the walkthrough. -/
def existing (k : PublicKey) : Bool := k = root || k = child

def fetchExisting (k : PublicKey) : DeployTargetFetch :=
  if existing k then ⟨true, none⟩ else ⟨false, some (some 404)⟩

theorem receiverExists_fetchExisting (k : PublicKey) :
    receiverExists (fetchExisting k) = .ok (existing k) := by
  unfold fetchExisting
  cases existing k <;> rfl

theorem base58_canonical : base58.Canonical := fun _ _ h ↦ Tables.keyText_of_base58 h

theorem zero_not_onCurve (k : PublicKey) (hzero : k.x = 0) : tables.env.onCurve k = false := by
  have hsame : tables.env.onCurve k = tables.env.onCurve PublicKey.empty := by
    change ((CurvePoint.generator :: tables.points).any fun q ↦ decide (q.x = k.x)) =
      (CurvePoint.generator :: tables.points).any fun q ↦ decide (q.x = 0)
    rw [hzero]
  rw [hsame]
  exact base58.empty_not_onCurve

/-- The child when the owner has approved to pay three accounts. -/
def threeApproved : Book :=
  Book.credit ⟨[entry child (voted childState [] [(41, 2)]), entry root rootAdded], 10⟩ child 20

def payAllThree : MethodCall tables.env := .executeTransfer payThree (opening [(41, 2)] 41) 2

def threePayments : List (PublicKey × ℕ) := [(ownerB, 3), (ownerC, 4), (root, 5)]

/-- Only the last of them has an account. -/
def threeFlags : JsValue := .object [(keyText root, .boolean true)]

theorem payThree_rows :
    buildTransferReceivers base58 (.array (paymentRows threePayments)) =
      .ok payThree.receivers := by
  rfl

theorem payThree_forest : payAllThree.prove (threeApproved.prover child) =
    .ok (threeApproved.forest child payAllThree) := by
  rfl

/-- Two new accounts are counted, and created. -/
theorem payThree_counts :
    newReceivers existing payThree = [ownerB, ownerC] ∧
    ∃ n, countExecuteNewAccounts base58 (paymentBundle threePayments threeFlags) = .ok n ∧
      newAccountCount .transfer payThree.receivers.toList fetchExisting = .ok n ∧
      countNewRecipientSlotsFromSnapshot base58 (paymentRows threePayments)
        threeFlags = n ∧
      (createdAccounts existing (threeApproved.forest child payAllThree)).length =
        (newReceivers existing payThree).toFinset.card ∧
      (n = (createdAccounts existing (threeApproved.forest child payAllThree)).length ↔
        (newReceivers existing payThree).Nodup) :=
  ⟨by decide +kernel,
    new_account_counts base58_canonical zero_not_onCurve payThree_forest rfl (.refl _) rfl
      payThree_rows ⟨rfl, by decide +kernel⟩ receiverExists_fetchExisting⟩

/-- Two payments to one new account. -/
def payTwice : TransactionProposal :=
  { payB with receivers := receiverSlots [⟨ownerB, 3⟩, ⟨ownerB, 4⟩] }

def payOwnerBTwice : MethodCall tables.env :=
  .executeTransfer payTwice (opening [(16, 2)] (tables.env.proposalHash payTwice)) 2

/-- Two accounts are paid for, and one is created. -/
theorem payment_twice_counted :
    buildTransferReceivers base58 (.array (paymentRows [(ownerB, 3), (ownerB, 4)])) =
        .ok payTwice.receivers ∧
      (payOwnerBTwice.prove (funded.prover child)).map
        (fun F ↦ (createdAccounts existing F).length) = .ok 1 ∧
      countExecuteNewAccounts base58 (paymentBundle [(ownerB, 3), (ownerB, 4)] (.object [])) =
        .ok 2 ∧
      newAccountCount .transfer payTwice.receivers.toList fetchExisting = .ok 2 ∧
      countNewRecipientSlotsFromSnapshot base58 (paymentRows [(ownerB, 3), (ownerB, 4)])
        (.object []) = 2 := by
  decide +kernel

end Walkthrough

end MinaGuard
