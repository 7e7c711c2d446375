import MinaGuard.Contract.Effects
import MinaGuard.Properties.Execution

/-!
# Where the money goes

Four methods move MINA out of a guard, each for a proposal it executes.  Since
no proposal is executed twice, what has left a guard is what the executed
proposals say, plus what the provers of its destructions chose.
-/

namespace MinaGuard

open Foundations

variable {E : Env} {T : Transcript E} {guards : Set PublicKey}
  {as bs : List (Action E)} {L L' : Ledger} {g : PublicKey} {m : MethodCall E}
  {F : Forest} {p : TransactionProposal}

/-- What the slots of a proposal pay to accounts other than `g`. -/
def slotsTotal (g : PublicKey) (p : TransactionProposal) : ℕ :=
  ((p.receivers.toList.filter fun r ↦ r.address ≠ PublicKey.empty ∧ r.address ≠ g).map
    fun r ↦ r.amount.toNat).sum

/-- What a proposal executed on `g` sends away. -/
def promised (g : PublicKey) (p : TransactionProposal) : ℕ :=
  if p.txType = TxType.transfer ∨ p.txType = TxType.allocateChild then slotsTotal g p
  else if p.txType = TxType.reclaimChild then p.data.val
  else 0

/-- A slot without a receiver pays nothing, to the guard itself. -/
theorem slotPayments_total (g : PublicKey) (p : TransactionProposal) :
    ((slotPayments p g).map Prod.snd).sum = paidTo g (slotPayments p g) + slotsTotal g p := by
  unfold slotPayments slotsTotal paidTo
  induction p.receivers.toList with
  | nil => rfl
  | cons r rs ih =>
      simp only [List.map_cons, List.sum_cons, ih]
      by_cases hempty : r.address = PublicKey.empty
      · simp [hempty, effectiveAmount]
      · by_cases hself : r.address = g
        · simp [hself, add_assoc]
        · simp [hempty, hself, effectiveAmount, add_left_comm]

/-- What leaves the guard whose method yields the forest. -/
def Forest.outflow (F : Forest) : ℕ := F.self.debit - F.credited F.self.publicKey

/-- The amount a `reclaimChild` event publishes. -/
def publishedAmount (events : List Event) : ℕ :=
  ((events.findSome? fun
    | .reclaimChild _ _ amount => some amount.toNat
    | _ => none).getD 0)

namespace MethodCall

/-- What a call on `g` sends away, given the events it publishes. -/
def sends (m : MethodCall E) (g : PublicKey) (events : List Event) : ℕ :=
  match m with
  | .executeTransfer p .. => slotsTotal g p
  | .executeAllocateToChildren p .. => slotsTotal g p
  | .executeReclaimToParent p .. => p.data.val
  | .executeDestroy .. => publishedAmount events
  | _ => 0

/-- The calls that send money to the parent. -/
def PaysParent : MethodCall E → Prop
  | .executeReclaimToParent .. => True
  | .executeDestroy .. => True
  | _ => False

/-- The calls that pay the slots of their proposal. -/
def PaysSlots : MethodCall E → Prop
  | .executeTransfer .. => True
  | .executeAllocateToChildren .. => True
  | _ => False

end MethodCall

/-- What an included call moves out of the guard `g`, and where to. -/
structure Spends (L : Ledger) (g : PublicKey) (m : MethodCall E) (F : Forest)
    (L' : Ledger) : Prop where
  balance : (L'.account g).balance + F.outflow = (L.account g).balance
  debit_le : F.self.debit ≤ (L.account g).balance
  amount : F.outflow = m.sends g F.self.events
  allocated : ∀ p w count, m = .executeAllocateToChildren p w count →
    ∀ r ∈ p.receivers.toList, r.address ≠ PublicKey.empty →
      (L.state r.address).ownersCommitment ≠ 0 ∧ (L.state r.address).parent = g
  toParent : m.PaysParent → ∀ a, F.credited a =
    if a = (L.state g).parent then F.outflow else 0
  nothing : ¬m.PaysSlots → ¬m.PaysParent →
    F.self.debit = 0 ∧ ∀ a, F.credited a = 0

theorem paidTo_le (a : PublicKey) (payments : List (PublicKey × ℕ)) :
    paidTo a payments ≤ (payments.map Prod.snd).sum :=
  (List.filter_sublist.map Prod.snd).sum_le_sum fun _ _ ↦ Nat.zero_le _

theorem paidTo_singleton (a b : PublicKey) (amount : ℕ) :
    paidTo a [(b, amount)] = if a = b then amount else 0 := by
  by_cases h : b = a
  · simp [paidTo, h]
  · simp [paidTo, h, Ne.symm h]

namespace CallStep

theorem effects (h : CallStep T guards L g m F L') :
    ∃ balance, F.Effects (m.emits g (L.state g) balance)
      (m.payments g (L.state g) balance) := by
  obtain ⟨P, rfl, hprove⟩ := h.proved
  exact ⟨P.balance, MethodCall.effects hprove h.included⟩

/-- The accounts an allocation pays are children of the guard. -/
theorem allocated (h : CallStep T guards L g m F L') {ph : Phase}
    (href : Refines T g (L'.state g) ph) {w : E.MerkleMapWitness} {count : Fp}
    (hm : m = .executeAllocateToChildren p w count) {r : Receiver}
    (hr : r ∈ p.receivers.toList) (hne : r.address ≠ PublicKey.empty) :
    (L.state r.address).ownersCommitment ≠ 0 ∧ (L.state r.address).parent = g := by
  subst hm
  obtain ⟨P, rfl, hprove⟩ := h.proved
  obtain ⟨hinit, hparent⟩ :=
    (executeAllocateToChildren_effects (MethodCall.prove_ok.mp hprove) h.included).2 r hr hne
  have hself : r.address ≠ P.address := by
    intro heq
    rw [heq] at hparent hne
    apply parent_ne href _ hparent
    rwa [hparent]
  rw [h.state_other hself] at hinit hparent
  exact ⟨hinit, hparent⟩

/-- A reclaim and a destruction make one payment, to the parent. -/
theorem payments_toParent (h : CallStep T guards L g m F L') (hm : m.PaysParent)
    {balance : UInt64} (hevents : F.self.events = m.emits g (L.state g) balance) :
    m.payments g (L.state g) balance =
      [((L.state g).parent, m.sends g F.self.events)] := by
  obtain ⟨P, rfl, hprove⟩ := h.proved
  cases m with
  | executeReclaimToParent p pw count cw amount =>
      obtain ⟨-, hdata, -⟩ :=
        executeReclaimToParent_spec (MethodCall.prove_ok.mp hprove) h.included
      have hval : p.data.val = amount.toNat := by
        rw [hdata]
        exact val_amountValue amount
      change [((L.state P.address).parent, amount.toNat)] =
        [((L.state P.address).parent, p.data.val)]
      rw [hval]
  | executeDestroy =>
      rw [hevents]
      rfl
  | _ => exact absurd hm id

theorem parent_ne_of_paysParent (h : CallStep T guards L g m F L') {ph : Phase}
    (href : Refines T g (L.state g) ph) (hm : m.PaysParent) : (L.state g).parent ≠ g := by
  have hremote : ∃ p, m.remoteExecution? = some p := by
    cases m with
    | executeReclaimToParent p => exact ⟨p, rfl⟩
    | executeDestroy p => exact ⟨p, rfl⟩
    | _ => exact absurd hm id
  obtain ⟨p, hp⟩ := hremote
  exact (h.remoteExecution href hp).parent_ne

end CallStep

namespace MethodCall

theorem payments_of_paysSlots (hm : m.PaysSlots) (s : GuardState) (balance : UInt64)
    (events : List Event) :
    ((m.payments g s balance).map Prod.snd).sum =
      paidTo g (m.payments g s balance) + m.sends g events := by
  cases m with
  | executeTransfer p => exact slotPayments_total g p
  | executeAllocateToChildren p => exact slotPayments_total g p
  | _ => exact absurd hm id

/-- All other methods pay nothing. -/
theorem payments_eq_nil (hslots : ¬m.PaysSlots) (hparent : ¬m.PaysParent)
    (s : GuardState) (balance : UInt64) (events : List Event) :
    m.payments g s balance = [] ∧ m.sends g events = 0 := by
  cases m with
  | executeTransfer => exact absurd trivial hslots
  | executeAllocateToChildren => exact absurd trivial hslots
  | executeReclaimToParent => exact absurd trivial hparent
  | executeDestroy => exact absurd trivial hparent
  | _ => exact ⟨rfl, rfl⟩

end MethodCall

/-- Every call on a guard moves money as its method says. -/
theorem spends (run : (ledgerSystem T guards).Run as L)
    (step : LedgerStep T guards L (.call g m F) L') : Spends L g m F L' := by
  have hcall := step.call_inv
  have href := Run.refines run hcall.guard
  have href' := Run.refines (run.step (S := ledgerSystem T guards) step) hcall.guard
  have hself : F.self.publicKey = g := hcall.pins.publicKey
  have hsettled : F.Settled L L' := by
    cases step with
    | call _ _ _ included => exact Forest.settled_of_apply included
  obtain ⟨balance, heffects⟩ := hcall.effects
  have hbalance := hsettled.self
  have hcovered := hsettled.debit_le
  rw [hself] at hbalance hcovered
  have hle : F.credited g ≤ F.self.debit := by
    rw [heffects.debit, heffects.credited]
    exact paidTo_le g _
  have houtflow : F.outflow = F.self.debit - F.credited g := by
    rw [Forest.outflow, hself]
  have hsends : F.self.debit = F.credited g + m.sends g F.self.events := by
    rw [heffects.debit, heffects.credited]
    by_cases hslots : m.PaysSlots
    · exact MethodCall.payments_of_paysSlots hslots _ _ _
    by_cases hparent : m.PaysParent
    · rw [hcall.payments_toParent hparent heffects.events, paidTo_singleton,
        if_neg (hcall.parent_ne_of_paysParent href hparent).symm]
      simp
    · obtain ⟨hnil, hzero⟩ :=
        MethodCall.payments_eq_nil (g := g) hslots hparent (L.state g) balance F.self.events
      rw [hnil, hzero]
      rfl
  have hamount : F.outflow = m.sends g F.self.events := by omega
  refine
    { balance := by omega
      debit_le := hcovered
      amount := hamount
      allocated := fun p w count hm r hr hne ↦ hcall.allocated href' hm hr hne
      toParent := ?_
      nothing := ?_ }
  · intro hparent a
    rw [heffects.credited, hcall.payments_toParent hparent heffects.events,
      paidTo_singleton, hamount]
  · intro hslots hparent
    obtain ⟨hnil, -⟩ :=
      MethodCall.payments_eq_nil (g := g) hslots hparent (L.state g) balance F.self.events
    have hdebit := heffects.debit
    have hcredited := heffects.credited
    rw [hnil] at hdebit hcredited
    exact ⟨hdebit, hcredited⟩

/-! ## What a run sends -/

/-- What has left `g` by its own methods. -/
def moneyOut (g : PublicKey) (as : List (Action E)) : ℕ :=
  (as.map fun
    | .call a _ F => if a = g then F.outflow else 0
    | _ => 0).sum

/-- The proposals executed on `g`. -/
def executions (g : PublicKey) (as : List (Action E)) : List TransactionProposal :=
  localExecutions g as ++ childExecutions g as

/-- The amounts the provers of the destructions of `g` chose. -/
def destroyedAmounts (g : PublicKey) (as : List (Action E)) : List ℕ :=
  as.filterMap fun
    | .call a (.executeDestroy ..) F =>
        if a = g then some (publishedAmount F.self.events) else none
    | _ => none

/-- What the executions on `g` were meant to send. -/
def accounted (g : PublicKey) (as : List (Action E)) : ℕ :=
  ((executions g as).map (promised g)).sum + (destroyedAmounts g as).sum

theorem moneyOut_append (as bs : List (Action E)) :
    moneyOut g (as ++ bs) = moneyOut g as + moneyOut g bs := by
  simp [moneyOut]

theorem accounted_append (as bs : List (Action E)) :
    accounted g (as ++ bs) = accounted g as + accounted g bs := by
  simp only [accounted, executions, localExecutions, childExecutions, destroyedAmounts,
    callsOn_append, List.filterMap_append, List.map_append, List.sum_append]
  omega

theorem promised_of_other {t : Fp} (htype : p.txType = t)
    (hother : t ≠ TxType.transfer ∧ t ≠ TxType.allocateChild ∧ t ≠ TxType.reclaimChild) :
    promised g p = 0 := by
  subst htype
  simp [promised, hother]

theorem accounted_call (m : MethodCall E) (F : Forest) :
    accounted g [.call g m F] =
      (m.localExecution?.elim 0 (promised g)) + (m.childExecution?.elim 0 (promised g)) +
        (destroyedAmounts g [.call g m F]).sum := by
  have hcalls : callsOn g [.call g m F] = [m] := by simp [callsOn]
  simp only [accounted, executions, localExecutions, childExecutions, hcalls,
    List.filterMap_cons, List.filterMap_nil, List.map_append, List.sum_append]
  cases m.localExecution? <;> cases m.childExecution? <;> simp

/-- The type of a proposal tells which method executed it. -/
theorem CallStep.accounted_eq (h : CallStep T guards L g m F L') :
    accounted g [.call g m F] = m.sends g F.self.events := by
  obtain ⟨P, rfl, hprove⟩ := h.proved
  have hproved := MethodCall.prove_ok.mp hprove
  have hF := h.included
  rw [accounted_call]
  cases m with
  | executeTransfer p =>
      have htype := (executeTransfer_spec hproved hF).1
      change promised P.address p + 0 + 0 = slotsTotal P.address p
      simp [promised, htype]
  | executeAllocateToChildren p =>
      have htype := (executeAllocateToChildren_spec hproved hF).1
      change promised P.address p + 0 + 0 = slotsTotal P.address p
      simp [promised, htype]
  | executeOwnerChange p =>
      obtain ⟨_, _, htype, -⟩ := executeOwnerChange_spec hproved hF
      change promised P.address p + 0 + 0 = 0
      rcases htype with ⟨htype, -⟩ | ⟨htype, -⟩
      · rw [promised_of_other htype (by decide)]
      · rw [promised_of_other htype (by decide)]
  | executeThresholdChange p =>
      have htype := (executeThresholdChange_spec hproved hF).1
      change promised P.address p + 0 + 0 = 0
      rw [promised_of_other htype (by decide)]
  | executeDelegate p =>
      have htype := (executeDelegate_spec hproved hF).1
      change promised P.address p + 0 + 0 = 0
      rw [promised_of_other htype (by decide)]
  | executeReclaimToParent p =>
      have htype := (executeReclaimToParent_spec hproved hF).1
      have hne : TxType.reclaimChild ≠ TxType.transfer ∧
          TxType.reclaimChild ≠ TxType.allocateChild := by decide
      change 0 + promised P.address p + 0 = p.data.val
      simp [promised, htype, hne]
  | executeDestroy p =>
      have htype := (executeDestroy_spec hproved hF).1
      change 0 + promised P.address p + (destroyedAmounts _ _).sum = publishedAmount _
      rw [promised_of_other htype (by decide)]
      simp [destroyedAmounts]
  | executeEnableChildMultiSig p =>
      have htype := (executeEnableChildMultiSig_spec hproved hF).1
      change 0 + promised P.address p + 0 = 0
      rw [promised_of_other htype (by decide)]
  | _ => rfl

/-- What left a guard is what its executions account for. -/
theorem moneyOut_eq (run : (ledgerSystem T guards).Run as L) :
    moneyOut g as = accounted g as := by
  refine TransitionSystem.Run.invariant (fun as _ ↦ moneyOut g as = accounted g as) ?_ ?_ run
  · intro L _
    rfl
  · intro as L act L' run ih step
    rw [moneyOut_append, accounted_append, ih]
    cases act with
    | call a m F =>
        by_cases ha : a = g
        · subst ha
          rw [(LedgerStep.call_inv step).accounted_eq, ← (spends run step).amount]
          simp [moneyOut]
        · have hcalls : callsOn g [.call a m F] = [] := by simp [callsOn, ha]
          have hnone : destroyedAmounts g [.call a m F] = [] := by
            cases m <;> simp [destroyedAmounts, ha]
          simp [moneyOut, accounted, executions, localExecutions, childExecutions, hcalls,
            hnone, ha]
    | deposit => rfl
    | advance => rfl
    | foreign => rfl

theorem executions_nodup (run : (ledgerSystem T guards).Run as L) (hg : g ∈ guards) :
    ((executions g as).map E.proposalHash).Nodup := by
  unfold executions localExecutions childExecutions
  rw [← Run.executed_eq run hg, ← Run.childExecuted_eq run hg]
  obtain ⟨-, hsound⟩ := Run.refines run hg
  generalize replay g as = ph at hsound
  cases hsound with
  | vacant => exact List.nodup_nil
  | reserved => exact List.nodup_nil
  | active hinvariant => exact hinvariant.executedHashes_nodup

/-- Nothing but its own methods takes money from a guard. -/
theorem balance_le_of_other (hg : g ∈ guards) {act : Action E}
    (step : LedgerStep T guards L act L') (hother : ∀ m F, act ≠ .call g m F) :
    (L.account g).balance ≤ (L'.account g).balance := by
  cases step with
  | @call _ P m F _ _ proved included =>
      have hself : F.self.publicKey = P.address :=
        (MethodCall.pins proved (Forest.included_of_apply included)).publicKey
      have hne : g ≠ F.self.publicKey := by
        rw [hself]
        rintro rfl
        exact hother m F rfl
      rw [(Forest.settled_of_apply included).other g hne]
      exact Nat.le_add_right _ _
  | deposit =>
      rw [Ledger.balance_credit]
      exact Nat.le_add_right _ _
  | advance => exact le_rfl
  | foreign other =>
      rw [Ledger.account_setAccount_of_ne]
      rintro rfl
      exact other hg

/-- What has left a guard is what the proposals executed on it promise, each of
them once, and what its destructions chose.  Every call pays as its method says,
and nothing else takes money from a guard. -/
theorem funds_accounting (run : (ledgerSystem T guards).Run as L) (hg : g ∈ guards) :
    moneyOut g as =
        ((executions g as).map (promised g)).sum + (destroyedAmounts g as).sum ∧
      ((executions g as).map E.proposalHash).Nodup ∧
      (∀ m F L', LedgerStep T guards L (.call g m F) L' → Spends L g m F L') ∧
      ∀ act L', LedgerStep T guards L act L' → (∀ m F, act ≠ .call g m F) →
        (L.account g).balance ≤ (L'.account g).balance := by
  refine ⟨moneyOut_eq run, executions_nodup run hg, ?_, ?_⟩
  · intro m F L' step
    exact spends run step
  · intro act L' step hother
    exact balance_le_of_other hg step hother

namespace Walkthrough

attribute [local instance] instOfNatFp

def paymentProposed : Book := ⟨[entry child childProposed, entry root rootAdded], 10⟩

def funded : Book := paymentProposed.credit child 20

def payOwnerB : MethodCall tables.env :=
  .executeTransfer payB (opening [(16, 2)] 16) 2

def paid : Book :=
  ⟨[(child, { (funded.account child) with
        appState := { childProposed with nonce := 1, approvalRoot := rootOf [(16, executedMarker)] }
        balance := 13 }),
      (ownerB, { Account.untouched ownerB with balance := 7 }),
      entry root rootAdded], 10⟩

theorem paymentProposed_plays :
    Book.Plays Walkthrough.guards added [(child, proposePayment, paymentProposed)] := by
  decide +kernel

theorem payment_plays :
    Book.Plays Walkthrough.guards funded [(child, payOwnerB, paid)] := by
  decide +kernel

theorem run_funded :
    system.Run (actionsBeforeAdd ++ [add] ++
      Book.actions added [(child, proposePayment, paymentProposed)] ++
        [.deposit child 20]) funded.ledger := by
  have hfunded : funded.ledger = paymentProposed.ledger.credit child 20 :=
    paymentProposed.ledger_credit child 20
  rw [hfunded]
  exact (run_added.extend (Book.path_of_plays paymentProposed_plays)).step .deposit

/-- The child sends what the payment says. -/
theorem payment_accounted :
    moneyOut child (actionsBeforeAdd ++ [add] ++
        Book.actions added [(child, proposePayment, paymentProposed)] ++ [.deposit child 20] ++
          [.call child payOwnerB (funded.forest child payOwnerB)]) = 7 ∧
      Spends funded.ledger child payOwnerB (funded.forest child payOwnerB) paid.ledger := by
  have step := Book.step_of_plays payment_plays
  have hchild : child ∈ {a | a ∈ Walkthrough.guards} := List.mem_cons_of_mem _ List.mem_cons_self
  obtain ⟨-, -, hspends, -⟩ := funds_accounting run_funded hchild
  obtain ⟨htotal, -⟩ := funds_accounting (run_funded.step step) hchild
  refine ⟨htotal.trans ?_, hspends _ _ _ step⟩
  decide +kernel

end Walkthrough

end MinaGuard
