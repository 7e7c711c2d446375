import MinaGuard.Indexer.Database

/-!
# Applying events

The state changes `indexer.ts` derives from one event.  They run inside the
transaction that records the event, so an error undoes all of them.
-/

namespace MinaGuard

inductive IndexerMode where
  | full
  | lite
deriving DecidableEq

/-- The member of an `event` object under a name. -/
def EventBody.get (event : EventBody) (name : String) : Option JsonValue :=
  match event with
  | .payload fields => fields.lookup name
  | .malformed _ => none

def asString : Option JsonValue → Option String
  | some (.string text) => some text
  | some (.number n) => some (decimal n)
  | some (.boolean b) => some (if b then "true" else "false")
  | some .null => none
  | none => none

def asNumber (value : Option JsonValue) : Option ℕ :=
  match asString value with
  | none => none
  | some text => if text = "" then none else columnNumber text

/-- A value that is neither null nor empty. -/
def truthy : Option String → Option String
  | some text => if text = "" then none else some text
  | none => none

/-- Maps a destination field to its name. -/
def normalizeDestination : Option String → Option String
  | none => none
  | some value =>
      if value = "0" ∨ value = "local" then some "local"
      else if value = "1" ∨ value = "remote" then some "remote"
      else some value

section Apply

variable {E : Env} (lib : Backend E)

/-- `EMPTY_PUBLIC_KEY`. -/
def emptyPublicKey : String := lib.base58.emptyKey

/-- Null for the empty key. -/
def asNullableAddress (value : Option String) : Option String :=
  match truthy value with
  | none => none
  | some text => if text = emptyPublicKey lib then none else some text

/-- `ContractConfigChanges`: absent fields are copied from the latest row. -/
structure ContractConfigChanges where
  threshold : Option ℕ := none
  numOwners : Option ℕ := none
  nonce : Option ℕ := none
  parentNonce : Option ℕ := none
  configNonce : Option ℕ := none
  delegate : Option String := none
  childMultiSigEnabled : Option Bool := none
  ownersCommitment : Option String := none
deriving DecidableEq

/-- The snapshot that overlays the changes on the latest row. -/
def ContractConfigChanges.overlay (changes : ContractConfigChanges)
    (latest : Option Db.ContractConfig) (contractId validFromBlock eventOrder : ℕ)
    (sourceEventId : Option ℕ) : Db.ContractConfig :=
  { contractId, validFromBlock, eventOrder, sourceEventId
    threshold := changes.threshold <|> latest.bind Db.ContractConfig.threshold
    numOwners := changes.numOwners <|> latest.bind Db.ContractConfig.numOwners
    nonce := changes.nonce <|> latest.bind Db.ContractConfig.nonce
    parentNonce := changes.parentNonce <|> latest.bind Db.ContractConfig.parentNonce
    configNonce := changes.configNonce <|> latest.bind Db.ContractConfig.configNonce
    delegate := changes.delegate <|> latest.bind Db.ContractConfig.delegate
    childMultiSigEnabled :=
      changes.childMultiSigEnabled <|> latest.bind Db.ContractConfig.childMultiSigEnabled
    ownersCommitment :=
      changes.ownersCommitment <|> latest.bind Db.ContractConfig.ownersCommitment }

def appendContractConfigSnapshot (db : Database) (contractId validFromBlock eventOrder : ℕ)
    (sourceEventId : Option ℕ) (changes : ContractConfigChanges) : Except Thrown Database := do
  let row := changes.overlay (db.getLatestConfig contractId) contractId validFromBlock
    eventOrder sourceEventId
  let _ ← intColumn row.threshold
  let _ ← intColumn row.numOwners
  let _ ← intColumn row.nonce
  let _ ← intColumn row.parentNonce
  let _ ← intColumn row.configNonce
  pure { db with contractConfigs := db.contractConfigs ++ [row] }

def applySetupEvent (db : Database) (contractId : ℕ) (chainEvent : ChainEvent)
    (eventOrder sourceEventId : ℕ) : Except Thrown Database := do
  let event := chainEvent.event
  let parent := asString (event.get "parent")
  let isRoot := parent = none ∨ parent = some (emptyPublicKey lib)
  let db ← db.updateContract contractId fun c ↦
    { c with parent := if isRoot then none else parent }
  appendContractConfigSnapshot db contractId chainEvent.blockHeight eventOrder
    (some sourceEventId)
    { threshold := asNumber (event.get "threshold")
      numOwners := asNumber (event.get "numOwners")
      nonce := some 0
      parentNonce := some 0
      configNonce := some 0
      ownersCommitment := asString (event.get "ownersCommitment")
      childMultiSigEnabled := some true }

/-- What `fetchOnChainState` returns, as far as `applySetupOwnerEvent` reads it. -/
structure OnChainState where
  threshold : ℕ
  numOwners : ℕ
  ownersCommitment : String
deriving DecidableEq

def applySetupOwnerEvent (db : Database) (contractId : ℕ) (chainEvent : ChainEvent)
    (eventOrder sourceEventId : ℕ) (setupFallback : Option OnChainState) :
    Except Thrown Database :=
  let event := chainEvent.event
  match truthy (asString (event.get "owner")) with
  | none => .ok db
  | some ownerAddress =>
      if ownerAddress.length < 10 ∨ ownerAddress = emptyPublicKey lib then .ok db
      else do
        let index ← intColumn (asNumber (event.get "index"))
        let db := { db with ownerMemberships := db.ownerMemberships ++
          [{ contractId, index, eventOrder, address := ownerAddress, action := "added",
             validFromBlock := chainEvent.blockHeight,
             sourceEventId := some sourceEventId }] }
        -- the fallback is for an owner whose setup event is missing
        if ((db.getLatestConfig contractId).bind Db.ContractConfig.threshold).isSome then
          pure db
        else
          match setupFallback with
          | none => pure db
          | some state =>
              appendContractConfigSnapshot db contractId chainEvent.blockHeight eventOrder
                (some sourceEventId)
                { threshold := some state.threshold
                  numOwners := some state.numOwners
                  ownersCommitment := some state.ownersCommitment }

/-- The memo of a transaction, as text where it decodes. -/
def memoText (txMemo : Option String) : Option String :=
  match truthy txMemo with
  | none => none
  | some memo =>
      match decodeTxMemo lib memo with
      | .ok text => some text
      | .error _ => some memo

/-- The proposal row with everything the event says about it. -/
def Db.Proposal.describe (row : Db.Proposal) (chainEvent : ChainEvent) : Db.Proposal :=
  let event := chainEvent.event
  { row with
    tokenId := asString (event.get "tokenId")
    txType := asString (event.get "txType")
    data := asString (event.get "data")
    memoHash := asString (event.get "memoHash")
    memo := memoText lib chainEvent.txMemo
    nonce := asString (event.get "nonce")
    configNonce := asString (event.get "configNonce")
    expirySlot := asString (event.get "expirySlot")
    guardAddress := asString (event.get "guardAddress")
    destination := normalizeDestination (asString (event.get "destination"))
    childAccount := asNullableAddress lib (asString (event.get "childAccount")) }

/-- A proposal row before it is described. -/
def Db.Proposal.blank (id contractId : ℕ) (proposalHash : String) (proposer : Option String)
    (createdAtBlock : ℕ) : Db.Proposal :=
  { id, contractId, proposalHash, proposer, createdAtBlock, toAddress := none,
    tokenId := none, txType := none, data := none, memoHash := none, memo := none,
    nonce := none, configNonce := none, expirySlot := none, guardAddress := none,
    destination := none, childAccount := none, executionMemoHash := none,
    lastApproveTxHash := none, lastApproveError := none, lastExecuteTxHash := none,
    lastExecuteError := none }

/-- The upsert of `applyProposalEvent`. -/
def upsertProposal (db : Database) (contractId : ℕ) (proposalHash : String)
    (chainEvent : ChainEvent) : Database :=
  match db.findProposal contractId proposalHash with
  | some row => db.updateProposal row.id fun p ↦ p.describe lib chainEvent
  | none =>
      let row := Db.Proposal.blank db.nextProposalId contractId proposalHash
        (asString (chainEvent.event.get "proposer")) chainEvent.blockHeight
      { db with
        nextProposalId := db.nextProposalId + 1
        proposals := db.proposals ++ [row.describe lib chainEvent] }

/-- In lite mode a CREATE_CHILD proposal subscribes to its child at once. -/
def subscribeChild (mode : IndexerMode) (db : Database) (contractId : ℕ)
    (chainEvent : ChainEvent) : Except Thrown Database :=
  let event := chainEvent.event
  if mode = .lite ∧ asString (event.get "txType") = some "5" then
    match asNullableAddress lib (asString (event.get "childAccount")) with
    | none => .ok db
    | some childAddress =>
        match db.findContract contractId with
        | none => .ok db
        | some parent =>
            match db.findContractAt childAddress with
            | some _ => .ok db
            | none =>
                (db.createContract childAddress (some parent.address) false
                  (some chainEvent.blockHeight)).map Prod.snd
  else .ok db

def applyProposalEvent (mode : IndexerMode) (db : Database) (contractId : ℕ)
    (chainEvent : ChainEvent) : Except Thrown Database :=
  match truthy (asString (chainEvent.event.get "proposalHash")) with
  | none => .ok db
  | some proposalHash =>
      subscribeChild lib mode (upsertProposal lib db contractId proposalHash chainEvent)
        contractId chainEvent

/-- The types whose target key is in slot 0. -/
def isGovernanceWithTarget (txType : Option String) : Bool :=
  txType = some "1" ∨ txType = some "2" ∨ txType = some "4"

def applyReceiverEvent (db : Database) (contractId : ℕ) (event : EventBody) :
    Except Thrown Database :=
  match truthy (asString (event.get "proposalHash")), truthy (asString (event.get "receiver")),
      truthy (asString (event.get "amount")) with
  | some proposalHash, some address, some amount =>
      if address = emptyPublicKey lib then .ok db
      else
        match db.findProposal contractId proposalHash with
        | none => .ok db
        | some proposal => do
            let nextIndex :=
              (db.proposalReceivers.filter fun r ↦ r.proposalId = proposal.id).length
            let db ← db.createReceiver
              { proposalId := proposal.id, idx := nextIndex, address, amount }
            pure (if nextIndex = 0 ∧ isGovernanceWithTarget proposal.txType then
              db.updateProposal proposal.id fun p ↦ { p with toAddress := some address }
            else db)
  | _, _, _ => .ok db

def applyApprovalEvent (db : Database) (contractId : ℕ) (chainEvent : ChainEvent)
    (eventOrder : ℕ) : Except Thrown Database :=
  let event := chainEvent.event
  match truthy (asString (event.get "proposalHash")),
      truthy (asString (event.get "approver")) with
  | some proposalHash, some approver =>
      match db.findProposal contractId proposalHash with
      | none => .ok db
      | some proposal =>
          let db := db.upsertApproval
            { proposalId := proposal.id, approver, eventOrder,
              approvalRaw := asString (event.get "approvalCount"),
              blockHeight := chainEvent.blockHeight }
          -- the submission the frontend recorded has arrived, or was retried
          .ok (if chainEvent.txHash ≠ none ∧ proposal.lastApproveTxHash = chainEvent.txHash ∨
              proposal.lastApproveError ≠ none then
            db.updateProposal proposal.id fun p ↦
              { p with lastApproveTxHash := none, lastApproveError := none }
          else db)
  | _, _ => .ok db

/-- `memoToField(observedMemo).toString()`. -/
def executionMemoHash (txMemo : Option String) : String :=
  fieldText (memoToField E ((memoText lib txMemo).getD ""))

/-- Marks a proposal executed, wherever it is stored. -/
def markExecutedRow (db : Database) (proposal : Db.Proposal) (chainEvent : ChainEvent)
    (eventOrder : ℕ) : Database :=
  let db := db.upsertProposalExecution
    { proposalId := proposal.id, blockHeight := chainEvent.blockHeight,
      txHash := chainEvent.txHash, eventOrder }
  db.updateProposal proposal.id fun p ↦
    { p with
      executionMemoHash := some (executionMemoHash lib chainEvent.txMemo)
      lastExecuteTxHash :=
        if chainEvent.txHash ≠ none ∧ proposal.lastExecuteTxHash = chainEvent.txHash then none
        else p.lastExecuteTxHash
      lastExecuteError :=
        if chainEvent.txHash ≠ none ∧ proposal.lastExecuteTxHash = chainEvent.txHash then none
        else p.lastExecuteError }

/-- The proposal of the child's parent, for an execution without a LOCAL one. -/
def remoteProposal (db : Database) (contractId : ℕ) (proposalHash : String) :
    Option Db.Proposal := do
  let child ← db.findContract contractId
  let parentAddress ← truthy child.parent
  let parent ← db.findContractAt parentAddress
  db.findProposal parent.id proposalHash

def applyExecutionEvent (db : Database) (contractId : ℕ) (chainEvent : ChainEvent)
    (eventOrder : ℕ) : Except Thrown Database :=
  match truthy (asString (chainEvent.event.get "proposalHash")) with
  | none => .ok db
  | some proposalHash =>
      match db.findProposal contractId proposalHash with
      | some proposal =>
          let db := markExecutedRow lib db proposal chainEvent eventOrder
          match proposal.nonce.bind columnNumber with
          | some localNonce =>
              appendContractConfigSnapshot db contractId chainEvent.blockHeight eventOrder
                none { nonce := some localNonce }
          | none => .ok db
      | none =>
          match remoteProposal db contractId proposalHash with
          | none => .ok db
          | some remote =>
              let db := markExecutedRow lib db remote chainEvent eventOrder
              match remote.nonce.bind columnNumber with
              | some remoteNonce =>
                  appendContractConfigSnapshot db contractId chainEvent.blockHeight
                    eventOrder none { parentNonce := some remoteNonce }
              | none => .ok db

def applyOwnerChangeEvent (db : Database) (contractId : ℕ) (chainEvent : ChainEvent)
    (eventOrder sourceEventId : ℕ) : Except Thrown Database :=
  let event := chainEvent.event
  match truthy (asString (event.get "owner")) with
  | none => .ok db
  | some owner =>
      let added := asString (event.get "added") = some "1"
      let db := { db with ownerMemberships := db.ownerMemberships ++
        [{ contractId, eventOrder, address := owner,
           action := if added then "added" else "removed", index := none,
           validFromBlock := chainEvent.blockHeight, sourceEventId := some sourceEventId }] }
      let changes : ContractConfigChanges :=
        { numOwners := asNumber (event.get "newNumOwners")
          configNonce := asNumber (event.get "configNonce")
          ownersCommitment := asString (event.get "newOwnersCommitment") }
      if changes = {} then .ok db
      else
        appendContractConfigSnapshot db contractId chainEvent.blockHeight eventOrder
          (some sourceEventId) changes

def applyThresholdChangeEvent (db : Database) (contractId : ℕ) (chainEvent : ChainEvent)
    (eventOrder sourceEventId : ℕ) : Except Thrown Database :=
  let event := chainEvent.event
  match asNumber (event.get "newThreshold") with
  | none => .ok db
  | some newThreshold =>
      appendContractConfigSnapshot db contractId chainEvent.blockHeight eventOrder
        (some sourceEventId)
        { threshold := some newThreshold, configNonce := asNumber (event.get "configNonce") }

def applyDelegateEvent (db : Database) (contractId : ℕ) (chainEvent : ChainEvent)
    (eventOrder sourceEventId : ℕ) : Except Thrown Database :=
  match asString (chainEvent.event.get "delegate") with
  | none => .ok db
  | some delegate =>
      appendContractConfigSnapshot db contractId chainEvent.blockHeight eventOrder
        (some sourceEventId) { delegate := some delegate }

def applyEnableChildMultiSigEvent (db : Database) (contractId : ℕ) (chainEvent : ChainEvent)
    (eventOrder sourceEventId : ℕ) : Except Thrown Database :=
  let event := chainEvent.event
  match asNumber (event.get "enabled") with
  | none => .ok db
  | some enabled =>
      appendContractConfigSnapshot db contractId chainEvent.blockHeight eventOrder
        (some sourceEventId)
        { childMultiSigEnabled := some (enabled = 1)
          configNonce := asNumber (event.get "configNonce") }

/-- The state changes of an event.  The other types change nothing. -/
def applyEvent (mode : IndexerMode) (db : Database) (contractId : ℕ) (chainEvent : ChainEvent)
    (eventOrder sourceEventId : ℕ) (setupFallback : Option OnChainState) :
    Except Thrown Database :=
  match chainEvent.type with
  | "setup" => applySetupEvent lib db contractId chainEvent eventOrder sourceEventId
  | "setupOwner" =>
      applySetupOwnerEvent lib db contractId chainEvent eventOrder sourceEventId setupFallback
  | "proposal" => applyProposalEvent lib mode db contractId chainEvent
  | "approval" => applyApprovalEvent db contractId chainEvent eventOrder
  | "execution" => applyExecutionEvent lib db contractId chainEvent eventOrder
  | "enableChildMultiSig" =>
      applyEnableChildMultiSigEvent db contractId chainEvent eventOrder sourceEventId
  | "receiver" => applyReceiverEvent lib db contractId chainEvent.event
  | "ownerChange" => applyOwnerChangeEvent db contractId chainEvent eventOrder sourceEventId
  | "thresholdChange" =>
      applyThresholdChangeEvent db contractId chainEvent eventOrder sourceEventId
  | "delegate" => applyDelegateEvent db contractId chainEvent eventOrder sourceEventId
  | _ => .ok db

end Apply

end MinaGuard
