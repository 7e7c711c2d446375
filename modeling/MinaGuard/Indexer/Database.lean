import MinaGuard.Indexer.Archive

/-!
# The indexer's database

The tables of `schema.prisma`, with the columns the indexer reads or derives
from the chain, and the queries it makes of them.  Ids count up, and none is used
twice.  Timestamps are left out; of `lastSyncedAt` only whether it is set is ever
read.
-/

namespace MinaGuard

/-- The classes of errors `isTransientDbError` tells apart. -/
inductive ErrorClass where
  | prismaKnownRequest (code : String)
  | prismaInitialization
  | prismaRustPanic
  | prismaUnknownRequest
  | error
  | nonError
deriving DecidableEq

structure Thrown where
  errorClass : ErrorClass
  name : String
  message : String
deriving DecidableEq

/-- `TRANSIENT_DB_ERROR_CODES`. -/
def transientDbErrorCodes : List String :=
  ["P1001", "P1002", "P1008", "P1017", "P2024", "P2028", "P2034"]

/-- True for database failures a later retry can succeed on. -/
def isTransientDbError (error : Thrown) : Bool :=
  match error.errorClass with
  | .prismaKnownRequest code => code ∈ transientDbErrorCodes
  | .prismaInitialization => true
  | .prismaRustPanic => true
  | .prismaUnknownRequest => true
  | .error => false
  | .nonError => false

/-- The text `ingestEvent` records for an error. -/
def Thrown.reason (error : Thrown) : String :=
  match error.errorClass with
  | .nonError => error.message
  | _ => error.name ++ ": " ++ error.message

def prismaError (code message : String) : Thrown :=
  ⟨.prismaKnownRequest code, "PrismaClientKnownRequestError", message⟩

namespace Db

structure BlockHeader where
  height : ℕ
  blockHash : String
  parentHash : String
deriving DecidableEq

structure Contract where
  id : ℕ
  address : String
  parent : Option String
  ready : Bool
  permissionsVerified : Bool
  discoveredAtBlock : Option ℕ
  /-- Whether `lastSyncedAt` is set. -/
  synced : Bool
deriving DecidableEq

structure ContractConfig where
  contractId : ℕ
  validFromBlock : ℕ
  eventOrder : ℕ
  sourceEventId : Option ℕ
  threshold : Option ℕ
  numOwners : Option ℕ
  nonce : Option ℕ
  parentNonce : Option ℕ
  configNonce : Option ℕ
  delegate : Option String
  childMultiSigEnabled : Option Bool
  ownersCommitment : Option String
deriving DecidableEq

structure OwnerMembership where
  contractId : ℕ
  address : String
  action : String
  index : Option ℕ
  validFromBlock : ℕ
  eventOrder : ℕ
  sourceEventId : Option ℕ
deriving DecidableEq

structure Proposal where
  id : ℕ
  contractId : ℕ
  proposalHash : String
  proposer : Option String
  toAddress : Option String
  tokenId : Option String
  txType : Option String
  data : Option String
  memoHash : Option String
  memo : Option String
  nonce : Option String
  configNonce : Option String
  expirySlot : Option String
  guardAddress : Option String
  destination : Option String
  childAccount : Option String
  executionMemoHash : Option String
  lastApproveTxHash : Option String
  lastApproveError : Option String
  lastExecuteTxHash : Option String
  lastExecuteError : Option String
  createdAtBlock : ℕ
deriving DecidableEq

structure ProposalReceiver where
  proposalId : ℕ
  idx : ℕ
  address : String
  amount : String
deriving DecidableEq

structure Approval where
  proposalId : ℕ
  approver : String
  approvalRaw : Option String
  blockHeight : ℕ
  eventOrder : ℕ
deriving DecidableEq

structure ProposalExecution where
  proposalId : ℕ
  blockHeight : ℕ
  txHash : Option String
  eventOrder : ℕ
deriving DecidableEq

structure EventRaw where
  id : ℕ
  /-- Null after the contract was deleted. -/
  contractId : Option ℕ
  blockHeight : ℕ
  txHash : Option String
  eventType : String
  payload : String
  fingerprint : String
  /-- Why applying the event failed; `none` when it was applied. -/
  applyError : Option String
deriving DecidableEq

end Db

structure Database where
  blockHeaders : List Db.BlockHeader := []
  contracts : List Db.Contract := []
  contractConfigs : List Db.ContractConfig := []
  ownerMemberships : List Db.OwnerMembership := []
  proposals : List Db.Proposal := []
  proposalReceivers : List Db.ProposalReceiver := []
  approvals : List Db.Approval := []
  proposalExecutions : List Db.ProposalExecution := []
  eventRaws : List Db.EventRaw := []
  /-- The `indexed_height` cursor. -/
  indexedHeight : Option ℕ := none
  /-- The `archive_discovered_height` cursor. -/
  archiveDiscoveredHeight : Option ℕ := none
  nextContractId : ℕ := 1
  nextProposalId : ℕ := 1
  nextEventId : ℕ := 1
deriving DecidableEq

/-- An `Int` column holds 32-bit numbers. -/
def intColumn : Option ℕ → Except Thrown (Option ℕ)
  | none => .ok none
  | some n =>
      if n < 2 ^ 31 then .ok (some n)
      else .error (prismaError "P2020" "Value out of range for the type.")

namespace Database

variable (db : Database)

def findContract (id : ℕ) : Option Db.Contract := db.contracts.find? fun c ↦ c.id = id

def findContractAt (address : String) : Option Db.Contract :=
  db.contracts.find? fun c ↦ c.address = address

/-- `contract.create`; addresses are unique. -/
def createContract (address : String) (parent : Option String) (permissionsVerified : Bool)
    (discoveredAtBlock : Option ℕ) : Except Thrown (ℕ × Database) :=
  match db.findContractAt address with
  | some _ => .error (prismaError "P2002" "Unique constraint failed on the fields: (address)")
  | none =>
      let id := db.nextContractId
      .ok (id, { db with
        nextContractId := id + 1
        contracts := db.contracts ++
          [{ id, address, parent, permissionsVerified, discoveredAtBlock, ready := false,
             synced := false }] })

/-- `contract.update`, which needs the row to exist. -/
def updateContract (id : ℕ) (f : Db.Contract → Db.Contract) : Except Thrown Database :=
  match db.findContract id with
  | none => .error (prismaError "P2025" "No record was found for an update.")
  | some _ =>
      .ok { db with contracts := db.contracts.map fun c ↦ if c.id = id then f c else c }

/-- Of two snapshots, the one `getLatestConfig` sorts first. -/
def laterConfig (latest : Option Db.ContractConfig) (row : Db.ContractConfig) :
    Option Db.ContractConfig :=
  match latest with
  | none => some row
  | some best =>
      if best.validFromBlock < row.validFromBlock ∨
          best.validFromBlock = row.validFromBlock ∧ best.eventOrder ≤ row.eventOrder then
        some row
      else some best

/-- The snapshot with the highest `validFromBlock`, then `eventOrder`. -/
def getLatestConfig (contractId : ℕ) : Option Db.ContractConfig :=
  (db.contractConfigs.filter fun c ↦ c.contractId = contractId).foldl laterConfig none

def findProposal (contractId : ℕ) (proposalHash : String) : Option Db.Proposal :=
  db.proposals.find? fun p ↦ p.contractId = contractId ∧ p.proposalHash = proposalHash

def updateProposal (id : ℕ) (f : Db.Proposal → Db.Proposal) : Database :=
  { db with proposals := db.proposals.map fun p ↦ if p.id = id then f p else p }

/-- `proposalReceiver.create`; a proposal has one receiver of each index. -/
def createReceiver (row : Db.ProposalReceiver) : Except Thrown Database :=
  if db.proposalReceivers.any fun r ↦ r.proposalId = row.proposalId ∧ r.idx = row.idx then
    .error (prismaError "P2002" "Unique constraint failed on the fields: (proposalId,idx)")
  else .ok { db with proposalReceivers := db.proposalReceivers ++ [row] }

/-- `approval.upsert` by proposal and approver. -/
def upsertApproval (row : Db.Approval) : Database :=
  { db with approvals :=
      if db.approvals.any fun a ↦ a.proposalId = row.proposalId ∧ a.approver = row.approver
      then db.approvals.map fun a ↦
        if a.proposalId = row.proposalId ∧ a.approver = row.approver then row else a
      else db.approvals ++ [row] }

/-- `upsertProposalExecution`. -/
def upsertProposalExecution (row : Db.ProposalExecution) : Database :=
  { db with proposalExecutions :=
      if db.proposalExecutions.any fun x ↦ x.proposalId = row.proposalId
      then db.proposalExecutions.map fun x ↦ if x.proposalId = row.proposalId then row else x
      else db.proposalExecutions ++ [row] }

def findEventRaw (fingerprint : String) : Option Db.EventRaw :=
  db.eventRaws.find? fun r ↦ r.fingerprint = fingerprint

/-- `isRecorded`. -/
def isRecorded (fingerprint : String) : Bool := (db.findEventRaw fingerprint).isSome

theorem isRecorded_iff {fingerprint : String} :
    db.isRecorded fingerprint = true ↔
      fingerprint ∈ db.eventRaws.map Db.EventRaw.fingerprint := by
  simp [isRecorded, findEventRaw]

end Database

end MinaGuard
