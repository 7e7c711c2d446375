import MinaGuard.Indexer.Reorg
import MinaGuard.Indexer.ViewApply

/-!
# The index as a machine

What the tables say, ids aside, is a function of what happened: which vaults were tracked
and forgotten, which events were ingested, and which blocks were rolled back.
-/

namespace MinaGuard

open Foundations

section Rollback

/-- The approvals and the execution above the fork are forgotten. -/
def ProposalView.rollback (forkHeight : ℤ) (p : ProposalView) : ProposalView where
  row := p.row
  receivers := p.receivers
  approval := fun approver ↦ (p.approval approver).filter fun a ↦ !isAbove forkHeight a.2
  execution := p.execution.filter fun x ↦ !isAbove forkHeight x.1

namespace VaultView

variable (forkHeight : ℤ) (v : VaultView)

def rollback : VaultView where
  parent := v.parent
  discoveredAtBlock := v.discoveredAtBlock
  configs := v.configs.filter fun row ↦ !isAbove forkHeight row.1
  memberships := v.memberships.filter fun m ↦ !isAbove forkHeight m.validFromBlock
  proposals := fun proposalHash ↦
    ((v.proposals proposalHash).filter fun p ↦ !isAbove forkHeight p.row.createdAtBlock).map
      (ProposalView.rollback forkHeight)

/-- In full mode a vault that was discovered above the fork is forgotten. -/
def isOrphaned (mode : IndexerMode) : Bool :=
  mode = .full ∧ v.discoveredAtBlock.any (isAbove forkHeight)

end VaultView

def IndexView.rollback (mode : IndexerMode) (forkHeight : ℤ) (i : IndexView) : IndexView :=
  fun address ↦ ((i address).filter fun v ↦ !v.isOrphaned forkHeight mode).map
    (VaultView.rollback forkHeight)

end Rollback

/-- An event of the log, with the vault it is of. -/
structure LogEntry where
  vault : Option String
  blockHeight : ℕ
  txHash : Option String
  eventType : String
  payload : String
  fingerprint : String
  applyError : Option String
deriving DecidableEq

/-- What the tables say, ids aside. -/
structure Index where
  headers : List Db.BlockHeader
  vaults : IndexView
  log : List LogEntry

namespace Index

def empty : Index := ⟨[], fun _ ↦ none, []⟩

variable {E : Env} (lib : Backend E) (mode : IndexerMode) (i : Index)

def isRecorded (fingerprint : String) : Bool := i.log.any fun x ↦ x.fingerprint = fingerprint

/-- The event is logged, and its header if none of the height is known. -/
def record (address : String) (e : ChainEvent) (fingerprint : String)
    (applyError : Option String) : Index where
  headers :=
    if e.blockHash = "" ∨ (i.headers.any fun h ↦ h.height = e.blockHeight) = true then i.headers
    else i.headers ++ [⟨e.blockHeight, e.blockHash, e.parentHash⟩]
  vaults := i.vaults
  log := i.log ++
    [⟨some address, e.blockHeight, e.txHash, e.type, e.event.stringify, fingerprint, applyError⟩]

/-- An event that is new is logged, with what it means or why it means nothing. -/
def ingest (address : String) (setupFallback : Option OnChainState) (e : ChainEvent) : Index :=
  let fingerprint := fingerprintEvent address e
  if i.isRecorded fingerprint then i
  else
    match e.decodeError with
    | some message => i.record address e fingerprint (some ("Malformed event: " ++ message))
    | none =>
        match i.vaults.apply lib mode address e setupFallback with
        | some vaults => { i.record address e fingerprint none with vaults }
        | none => i.record address e fingerprint (some Database.outOfRange.reason)

/-- A vault is tracked from now on. -/
def track (address : String) (discoveredAtBlock : Option ℕ) : Index :=
  match i.vaults address with
  | some _ => i
  | none =>
      { i with vaults := Function.update i.vaults address (some (.new none discoveredAtBlock)) }

/-- A vault and its events are forgotten. -/
def untrack (address : String) : Index :=
  { i with
    vaults := Function.update i.vaults address none
    log := i.log.filter fun x ↦ x.vault ≠ some address }

/-- Whether the rollback keeps the vault at the address. -/
def isKept (forkHeight : ℤ) (address : String) : Bool :=
  (i.vaults address).any fun v ↦ !v.isOrphaned forkHeight mode

/-- The blocks above the fork are forgotten. -/
def rollback (forkHeight : ℤ) : Index where
  headers := i.headers.filter fun h ↦ !isAbove forkHeight h.height
  vaults := i.vaults.rollback mode forkHeight
  log := (i.log.filter fun x ↦ !isAbove forkHeight x.blockHeight).map fun x ↦
    { x with vault := x.vault.filter (i.isKept mode forkHeight) }

end Index

/-- What can happen to an index. -/
inductive IndexAction where
  | track (address : String) (discoveredAtBlock : Option ℕ)
  | untrack (address : String)
  | ingest (address : String) (setupFallback : Option OnChainState) (e : ChainEvent)
  | rollback (forkHeight : ℤ)
  /-- A write that says nothing about the chain. -/
  | note
deriving DecidableEq

/-- What becomes of the index. -/
def Index.next {E : Env} (lib : Backend E) (mode : IndexerMode) (i : Index) :
    IndexAction → Index
  | .track address discoveredAtBlock => i.track address discoveredAtBlock
  | .untrack address => i.untrack address
  | .ingest address setupFallback e => i.ingest lib mode address setupFallback e
  | .rollback forkHeight => i.rollback mode forkHeight
  | .note => i

namespace Database

/-- The address of a contract that is still there. -/
def addressOf (db : Database) (contractId : Option ℕ) : Option String :=
  (contractId.bind db.findContract).map Db.Contract.address

def logEntry (db : Database) (r : Db.EventRaw) : LogEntry :=
  ⟨db.addressOf r.contractId, r.blockHeight, r.txHash, r.eventType, r.payload, r.fingerprint,
    r.applyError⟩

def index (db : Database) : Index where
  headers := db.blockHeaders
  vaults := db.indexView
  log := db.eventRaws.map db.logEntry

/-- `deleteContract`: the contract with its events, and what belongs to it. -/
def deleteContract (db : Database) (contractId : ℕ) : Except Thrown Database :=
  match db.findContract contractId with
  | none => .error (prismaError "P2025" "No record was found for a delete.")
  | some _ =>
      .ok (Database.deleteContracts
        { db with eventRaws := db.eventRaws.filter fun r ↦ r.contractId ≠ some contractId }
        fun c ↦ c.id = contractId)

end Database

end MinaGuard
