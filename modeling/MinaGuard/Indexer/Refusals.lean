import MinaGuard.Indexer.Apply

/-!
# What the database refuses

The state changes of an event throw only what the database refuses: a number that its
column does not hold, a second row of one key, a row that is not there.  An outage is
nothing of these, so such an error is recorded and not left to a later sync.
-/

namespace MinaGuard

open Database

section Refusals

variable {α β : Type} {x : Except Thrown α}

/-- What is thrown is no outage, which a later sync may not see. -/
def Lasting (x : Except Thrown α) : Prop := ∀ e, x = .error e → isTransientDbError e = false

theorem lasting_ok (a : α) : Lasting (.ok a) := nofun

theorem lasting_prismaError {code message : String} (h : code ∉ transientDbErrorCodes) :
    Lasting (.error (prismaError code message) : Except Thrown α) := by
  rintro e ⟨⟩
  exact decide_eq_false h

theorem Lasting.bind {f : α → Except Thrown β} (h : Lasting x) (hf : ∀ a, Lasting (f a)) :
    Lasting (x >>= f) := by
  intro e he
  cases x with
  | error e' =>
      cases he
      exact h e rfl
  | ok a => exact hf a e he

theorem Lasting.map {f : α → β} (h : Lasting x) : Lasting (x.map f) := by
  intro e he
  cases x with
  | error e' =>
      cases he
      exact h e rfl
  | ok a => cases he

end Refusals

section Lasting

variable {E : Env} {lib : Backend E} {db : Database} {contractId eventOrder sourceEventId : ℕ}
  {chainEvent : ChainEvent}

theorem intColumn_lasting (n : Option ℕ) : Lasting (intColumn n) := by
  unfold intColumn
  split
  · exact lasting_ok _
  · split
    · exact lasting_ok _
    · exact lasting_prismaError (by decide)

theorem appendContractConfigSnapshot_lasting {validFromBlock : ℕ} {sourceEventId : Option ℕ}
    {changes : ContractConfigChanges} :
    Lasting (appendContractConfigSnapshot db contractId validFromBlock eventOrder sourceEventId
      changes) := by
  unfold appendContractConfigSnapshot
  refine (intColumn_lasting _).bind fun _ ↦ (intColumn_lasting _).bind fun _ ↦ ?_
  refine (intColumn_lasting _).bind fun _ ↦ (intColumn_lasting _).bind fun _ ↦ ?_
  exact (intColumn_lasting _).bind fun _ ↦ lasting_ok _

theorem applySetupEvent_lasting :
    Lasting (applySetupEvent lib db contractId chainEvent eventOrder sourceEventId) := by
  have hupdate {f : Db.Contract → Db.Contract} : Lasting (db.updateContract contractId f) := by
    unfold updateContract
    split
    · exact lasting_prismaError (by decide)
    · exact lasting_ok _
  exact hupdate.bind fun _ ↦ appendContractConfigSnapshot_lasting

theorem applySetupOwnerEvent_lasting {setupFallback : Option OnChainState} :
    Lasting (applySetupOwnerEvent lib db contractId chainEvent eventOrder sourceEventId
      setupFallback) := by
  unfold applySetupOwnerEvent
  dsimp only
  split
  · exact lasting_ok _
  · split
    · exact lasting_ok _
    · refine (intColumn_lasting _).bind fun _ ↦ ?_
      split
      · exact lasting_ok _
      · split
        · exact lasting_ok _
        · exact appendContractConfigSnapshot_lasting

theorem applyProposalEvent_lasting {mode : IndexerMode} :
    Lasting (applyProposalEvent lib mode db contractId chainEvent) := by
  have hcreate {db : Database} {address : String} {parent : Option String} {verified : Bool}
      {block : Option ℕ} : Lasting (db.createContract address parent verified block) := by
    unfold createContract
    split
    · exact lasting_prismaError (by decide)
    · exact lasting_ok _
  unfold applyProposalEvent
  split
  · exact lasting_ok _
  · unfold subscribeChild
    dsimp only
    split
    · split
      · exact lasting_ok _
      · split
        · exact lasting_ok _
        · split
          · exact lasting_ok _
          · exact hcreate.map
    · exact lasting_ok _

theorem applyReceiverEvent_lasting {event : EventBody} :
    Lasting (applyReceiverEvent lib db contractId event) := by
  have hcreate {row : Db.ProposalReceiver} : Lasting (db.createReceiver row) := by
    unfold createReceiver
    split
    · exact lasting_prismaError (by decide)
    · exact lasting_ok _
  unfold applyReceiverEvent
  dsimp only
  split
  · split
    · exact lasting_ok _
    · split
      · exact lasting_ok _
      · exact hcreate.bind fun _ ↦ lasting_ok _
  · exact lasting_ok _

theorem applyExecutionEvent_lasting :
    Lasting (applyExecutionEvent lib db contractId chainEvent eventOrder) := by
  unfold applyExecutionEvent
  dsimp only
  split
  · exact lasting_ok _
  · split
    · split
      · exact appendContractConfigSnapshot_lasting
      · exact lasting_ok _
    · split
      · exact lasting_ok _
      · split
        · exact appendContractConfigSnapshot_lasting
        · exact lasting_ok _

theorem applyApprovalEvent_lasting :
    Lasting (applyApprovalEvent db contractId chainEvent eventOrder) := by
  unfold applyApprovalEvent
  dsimp only
  split
  · split
    · exact lasting_ok _
    · exact lasting_ok _
  · exact lasting_ok _

theorem applyOwnerChangeEvent_lasting :
    Lasting (applyOwnerChangeEvent db contractId chainEvent eventOrder sourceEventId) := by
  unfold applyOwnerChangeEvent
  dsimp only
  split
  · exact lasting_ok _
  · split
    · exact lasting_ok _
    · exact appendContractConfigSnapshot_lasting

theorem applyThresholdChangeEvent_lasting :
    Lasting (applyThresholdChangeEvent db contractId chainEvent eventOrder sourceEventId) := by
  unfold applyThresholdChangeEvent
  dsimp only
  split
  · exact lasting_ok _
  · exact appendContractConfigSnapshot_lasting

theorem applyDelegateEvent_lasting :
    Lasting (applyDelegateEvent db contractId chainEvent eventOrder sourceEventId) := by
  unfold applyDelegateEvent
  split
  · exact lasting_ok _
  · exact appendContractConfigSnapshot_lasting

theorem applyEnableChildMultiSigEvent_lasting :
    Lasting (applyEnableChildMultiSigEvent db contractId chainEvent eventOrder
      sourceEventId) := by
  unfold applyEnableChildMultiSigEvent
  dsimp only
  split
  · exact lasting_ok _
  · exact appendContractConfigSnapshot_lasting

/-- No error of an event's state changes is kept for a later sync. -/
theorem applyEvent_lasting {mode : IndexerMode} {setupFallback : Option OnChainState} :
    Lasting (applyEvent lib mode db contractId chainEvent eventOrder sourceEventId
      setupFallback) := by
  unfold applyEvent
  split
  · exact applySetupEvent_lasting
  · exact applySetupOwnerEvent_lasting
  · exact applyProposalEvent_lasting
  · exact applyApprovalEvent_lasting
  · exact applyExecutionEvent_lasting
  · exact applyEnableChildMultiSigEvent_lasting
  · exact applyReceiverEvent_lasting
  · exact applyOwnerChangeEvent_lasting
  · exact applyThresholdChangeEvent_lasting
  · exact applyDelegateEvent_lasting
  · exact lasting_ok _

end Lasting

end MinaGuard
