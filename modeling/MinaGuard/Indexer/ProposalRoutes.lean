import MinaGuard.Foundations.InsertionMap
import MinaGuard.Indexer.ProposalRecord

/-!
# The proposal routes

The list and the single proposal of `routes.ts`.  The list of a derived status is
cut from a window of the newest proposals, of which only the columns that the
status needs are read; the page is loaded after that.
-/

namespace MinaGuard

open Foundations

structure ProposalReceiverRecord where
  index : ℕ
  address : String
  amount : String
deriving DecidableEq

/-- A row with what the routes include. -/
structure ProposalWithDerived extends Db.Proposal where
  receivers : List Db.ProposalReceiver
  executions : List Db.ProposalExecution
  approvals : ℕ
deriving DecidableEq

structure SerializedProposalRecord where
  proposalHash : String
  proposer : Option String
  toAddress : Option String
  tokenId : Option String
  txType : Option String
  data : Option String
  nonce : Option String
  configNonce : Option String
  expirySlot : Option String
  guardAddress : Option String
  memo : Option String
  memoHash : Option String
  proposalMemoMatch : Option Bool
  memoExecutionMatch : Option Bool
  destination : Option String
  childAccount : Option String
  status : ProposalStatus
  invalidReason : Option InvalidReason
  childTargetIndexed : Option Bool
  approvalCount : ℕ
  createdAtBlock : ℕ
  executedAtBlock : Option ℕ
  executionTxHash : Option String
  lastApproveTxHash : Option String
  lastExecuteTxHash : Option String
  lastApproveError : Option String
  lastExecuteError : Option String
  receivers : List ProposalReceiverRecord
  recipientCount : ℕ
  totalAmount : Option String
deriving DecidableEq

def computeProposalMemoMatch (E : Env) (memo memoHash : Option String) : Option Bool :=
  match memo, memoHash with
  | some memo, some memoHash => some (fieldText (memoToField E memo) = memoHash)
  | _, _ => none

def computeMemoExecutionMatch (memoHash executionMemoHash : Option String) : Option Bool :=
  match executionMemoHash, memoHash with
  | some executionMemoHash, some memoHash => some (memoHash = executionMemoHash)
  | _, _ => none

/-- The sum of the amounts, each of them read by `BigInt`. -/
def totalAmount (receivers : List ProposalReceiverRecord) : Except String (Option String) := do
  if receivers = [] then return none
  let sum ← receivers.foldlM
    (fun sum receiver ↦
      match parseBigInt receiver.amount with
      | some amount => .ok (sum + amount)
      | none => .error ("Cannot convert " ++ receiver.amount ++ " to a BigInt"))
    (0 : ℤ)
  return some (toString sum)

/-- The proposal acts on a SubVault. -/
def targetsChild (proposal : Db.Proposal) : Bool :=
  proposal.destination = some "remote" ∧ proposal.txType ≠ some "5"

def serializeProposalRecord (E : Env) (proposal : ProposalWithDerived) (latestSlot : ℕ)
    (parentState childState : Option ContractState) : Except String SerializedProposalRecord := do
  let receivers := (proposal.receivers.mergeSort fun a b ↦ a.idx ≤ b.idx).map fun receiver ↦
    { index := receiver.idx
      address := receiver.address
      amount := receiver.amount : ProposalReceiverRecord }
  let totalAmount ← totalAmount receivers
  let execution := proposal.executions.head?
  let invalidReason := deriveInvalidReason proposal.toProposal parentState childState
  let status := deriveStatus proposal.toProposal execution.isSome latestSlot invalidReason
  return {
    proposalHash := proposal.proposalHash
    proposer := proposal.proposer
    toAddress := proposal.toAddress
    tokenId := proposal.tokenId
    txType := proposal.txType
    data := proposal.data
    nonce := proposal.nonce
    configNonce := proposal.configNonce
    expirySlot := proposal.expirySlot
    guardAddress := proposal.guardAddress
    memo := proposal.memo
    memoHash := proposal.memoHash
    proposalMemoMatch := computeProposalMemoMatch E proposal.memo proposal.memoHash
    memoExecutionMatch := computeMemoExecutionMatch proposal.memoHash proposal.executionMemoHash
    destination := proposal.destination
    childAccount := proposal.childAccount
    status
    invalidReason
    childTargetIndexed :=
      if targetsChild proposal.toProposal ∧ proposal.childAccount ≠ none then
        some childState.isSome
      else none
    approvalCount := proposal.approvals
    createdAtBlock := proposal.createdAtBlock
    executedAtBlock := execution.map Db.ProposalExecution.blockHeight
    executionTxHash := execution.bind Db.ProposalExecution.txHash
    lastApproveTxHash := proposal.lastApproveTxHash
    lastExecuteTxHash := proposal.lastExecuteTxHash
    lastApproveError := proposal.lastApproveError
    lastExecuteError := proposal.lastExecuteError
    receivers
    recipientCount := receivers.length
    totalAmount }

/-- `LATEST_CONFIG_FIRST`, over rows in the order of their ids. -/
def latestConfigFirst (rows : List Db.ContractConfig) : List Db.ContractConfig :=
  rows.reverse.mergeSort fun a b ↦
    b.validFromBlock < a.validFromBlock ∨
      b.validFromBlock = a.validFromBlock ∧ b.eventOrder ≤ a.eventOrder

def latestContractConfigs (db : Database) (contractIds : List ℕ) :
    InsertionMap ℕ Db.ContractConfig :=
  InsertionMap.firstOf Db.ContractConfig.contractId
    (latestConfigFirst (db.contractConfigs.filter fun row ↦ row.contractId ∈ contractIds))

/-- The states of the indexed and verified targets of the proposals. -/
def buildChildStateMap (db : Database) (proposals : List Db.Proposal) :
    InsertionMap String ContractState :=
  let childAddresses := ((proposals.filter targetsChild).filterMap fun p ↦
    truthy p.childAccount).eraseDups
  let childContracts := db.contracts.filter fun c ↦
    c.address ∈ childAddresses ∧ c.ready ∧ c.permissionsVerified
  let latestByContractId := latestContractConfigs db (childContracts.map Db.Contract.id)
  InsertionMap.setEach Db.Contract.address
    (fun child ↦ toContractState (latestByContractId.get? child.id)) childContracts

/-- What the map says of the child account of a proposal. -/
def childStateOf (childStateByAddress : InsertionMap String ContractState)
    (proposal : Db.Proposal) : Option ContractState :=
  (truthy proposal.childAccount).bind childStateByAddress.get?

/-- `PROPOSALS_NEWEST_FIRST`: by block, by the time of the row, by id. -/
def proposalsNewestFirst (createdAt : ℕ → ℕ) (a b : Db.Proposal) : Bool :=
  b.createdAtBlock < a.createdAtBlock ∨
    b.createdAtBlock = a.createdAtBlock ∧
      (createdAt b.id < createdAt a.id ∨ createdAt b.id = createdAt a.id ∧ b.id ≤ a.id)

def derivedStatusScanLimit : ℕ := 1000

/-- The name of a status in the API. -/
def ProposalStatus.text : ProposalStatus → String
  | .executed => "executed"
  | .expired => "expired"
  | .invalidated => "invalidated"
  | .pending => "pending"

/-- The statuses only `deriveStatus` can tell apart. -/
def needsInMemoryStatusFilter (status : Option String) : Option ProposalStatus :=
  if status = some "pending" then some .pending
  else if status = some "expired" then some .expired
  else if status = some "invalidated" then some .invalidated
  else none

/-- The loop over the candidates, which ends as soon as `stop` of them match. -/
def selectMatching (isMatch : Db.Proposal → Bool) (stop : ℕ) :
    List ℕ → List Db.Proposal → List ℕ
  | matching, [] => matching
  | matching, candidate :: candidates =>
      let matching := if isMatch candidate then matching ++ [candidate.id] else matching
      if matching.length = stop then matching
      else selectMatching isMatch stop matching candidates

section Routes

variable (db : Database) (createdAt : ℕ → ℕ) (latestSlot : ℕ)

/-- The proposals of a contract that satisfy a filter, newest first. -/
def findProposals (filter : Db.Proposal → Bool) : List Db.Proposal :=
  (db.proposals.filter filter).mergeSort (proposalsNewestFirst createdAt)

def executionsOf (proposal : Db.Proposal) : List Db.ProposalExecution :=
  db.proposalExecutions.filter fun x ↦ x.proposalId = proposal.id

def buildProposalStatusWhere (status : Option String) (proposal : Db.Proposal) : Bool :=
  status = some "executed" → executionsOf db proposal ≠ []

def selectProposalIdsByDerivedStatus (contractId : ℕ) (status : ProposalStatus)
    (parentState : Option ContractState) (limit offset : ℕ) : List ℕ :=
  let candidates := (findProposals db createdAt fun p ↦ p.contractId = contractId).take
    derivedStatusScanLimit
  let childStateByAddress := buildChildStateMap db candidates
  let derived := fun candidate ↦
    deriveStatus candidate (0 < ((executionsOf db candidate).take 1).length) latestSlot
      (deriveInvalidReason candidate parentState (childStateOf childStateByAddress candidate))
  (selectMatching (fun candidate ↦ derived candidate = status) (offset + limit) [] candidates).drop
    offset

/-- The rows the list route loads. -/
def proposalPage (contractId : ℕ) (parentState : Option ContractState) (status : Option String)
    (limit offset : ℕ) : List Db.Proposal :=
  match needsInMemoryStatusFilter status with
  | some derived =>
      let pageIds := selectProposalIdsByDerivedStatus db createdAt latestSlot contractId derived
        parentState limit offset
      findProposals db createdAt fun p ↦ p.id ∈ pageIds
  | none =>
      ((findProposals db createdAt fun p ↦
        p.contractId = contractId ∧ buildProposalStatusWhere db status p).drop offset).take limit

def includeDerived (proposal : Db.Proposal) : ProposalWithDerived where
  toProposal := proposal
  receivers := (db.proposalReceivers.filter fun r ↦ r.proposalId = proposal.id).mergeSort
    fun a b ↦ a.idx ≤ b.idx
  executions := executionsOf db proposal
  approvals := (db.approvals.filter fun a ↦ a.proposalId = proposal.id).length

/-- An answer of the API with a body, or `404`. -/
inductive RouteAnswer (α : Type) where
  | json (body : α)
  | notFound (error : String)
deriving DecidableEq

def findReadyContract (address : String) : Option Db.Contract :=
  (db.findContractAt address).filter fun c ↦ c.ready ∧ c.permissionsVerified

/-- `/api/contracts/:address/proposals`. -/
def listProposals (E : Env) (address : String) (status : Option String) (limit offset : ℕ) :
    Except String (RouteAnswer (List SerializedProposalRecord)) :=
  match findReadyContract db address with
  | none => .ok (.notFound "Contract not found")
  | some contract => do
      let parentState := toContractState (db.getLatestConfig contract.id)
      let proposals := proposalPage db createdAt latestSlot contract.id parentState status limit
        offset
      let childStateByAddress := buildChildStateMap db proposals
      let serialized ← proposals.mapM fun p ↦
        serializeProposalRecord E (includeDerived db p) latestSlot parentState
          (childStateOf childStateByAddress p)
      return .json (serialized.filter fun s ↦ status.all fun status ↦ s.status.text = status)

/-- `/api/contracts/:address/proposals/:proposalHash`. -/
def getProposal (E : Env) (address proposalHash : String) :
    Except String (RouteAnswer SerializedProposalRecord) :=
  match findReadyContract db address with
  | none => .ok (.notFound "Contract not found")
  | some contract =>
      match db.findProposal contract.id proposalHash with
      | none => .ok (.notFound "Proposal not found")
      | some proposal => do
          let parentState := toContractState (db.getLatestConfig contract.id)
          let record ← serializeProposalRecord E (includeDerived db proposal) latestSlot
            parentState (proposalChildState db proposal)
          return .json record

end Routes

end MinaGuard
