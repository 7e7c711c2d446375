import MinaGuard.Indexer.Sync

/-!
# Reorganizations of the chain

Stored block hashes are compared with those of the daemon's best chain.  From the
highest stored height that agrees, or from below the lowest that does not, every
row of the history is deleted.
-/

namespace MinaGuard

open Foundations

/-- A block of the daemon's answer. -/
structure DaemonBlock where
  stateHash : Option String
  previousStateHash : Option String
  blockHeight : Option ℕ
deriving DecidableEq

structure BestChainHeader where
  height : ℕ
  blockHash : String
  parentHash : String
deriving DecidableEq

/-- The complete blocks of the answer, ascending. -/
def fetchBestChainHeaders (response : List DaemonBlock) : List BestChainHeader :=
  (response.filterMap fun block ↦
    match truthy block.stateHash, truthy block.previousStateHash, block.blockHeight with
    | some blockHash, some parentHash, some height => some ⟨height, blockHash, parentHash⟩
    | _, _, _ => none).mergeSort fun a b ↦ a.height ≤ b.height

/-- `chainByHeight`; of two headers of one height the last is kept. -/
def chainByHeight (headers : List BestChainHeader) : InsertionMap ℕ BestChainHeader :=
  headers.foldl (fun chain h ↦ chain.set h.height h) []

namespace Database

variable (db : Database)

/-- `proposal.deleteMany`; what belongs to a proposal goes with it. -/
def deleteProposals (doomed : Db.Proposal → Bool) : Database :=
  let ids := (db.proposals.filter doomed).map Db.Proposal.id
  { db with
    proposals := db.proposals.filter fun p ↦ !doomed p
    proposalReceivers := db.proposalReceivers.filter fun r ↦ r.proposalId ∉ ids
    approvals := db.approvals.filter fun a ↦ a.proposalId ∉ ids
    proposalExecutions := db.proposalExecutions.filter fun x ↦ x.proposalId ∉ ids }

/-- `contract.deleteMany`; of what belongs to a contract only its events are kept. -/
def deleteContracts (doomed : Db.Contract → Bool) : Database :=
  let ids := (db.contracts.filter doomed).map Db.Contract.id
  let db := db.deleteProposals fun p ↦ p.contractId ∈ ids
  { db with
    contracts := db.contracts.filter fun c ↦ !doomed c
    contractConfigs := db.contractConfigs.filter fun c ↦ c.contractId ∉ ids
    ownerMemberships := db.ownerMemberships.filter fun m ↦ m.contractId ∉ ids
    eventRaws := db.eventRaws.map fun r ↦
      { r with contractId := r.contractId.filter fun id ↦ id ∉ ids } }

/-- `deleteMany` of the rows with a height of their own. -/
def deleteRows (isAbove : ℕ → Bool) : Database :=
  { db with
    blockHeaders := db.blockHeaders.filter fun h ↦ !isAbove h.height
    eventRaws := db.eventRaws.filter fun r ↦ !isAbove r.blockHeight
    contractConfigs := db.contractConfigs.filter fun c ↦ !isAbove c.validFromBlock
    ownerMemberships := db.ownerMemberships.filter fun m ↦ !isAbove m.validFromBlock
    proposalExecutions := db.proposalExecutions.filter fun x ↦ !isAbove x.blockHeight
    approvals := db.approvals.filter fun a ↦ !isAbove a.blockHeight }

/-- A contract without events is shown no more. -/
def hideContracts : Database :=
  { db with
    contracts := db.contracts.map fun c ↦
      if db.eventRaws.any fun r ↦ r.contractId = some c.id then c
      else { c with ready := false, permissionsVerified := false } }

end Database

/-- `height: { gt: forkHeight }`. -/
def isAbove (forkHeight : ℤ) (height : ℕ) : Bool := forkHeight < height

/-- Deletes the history above the fork, and rewinds the cursor to it. -/
def rollbackAboveFork (indexerMode : IndexerMode) (forkHeight : ℤ) (db : Database) : Database :=
  let db := (db.deleteRows (isAbove forkHeight)).deleteProposals fun p ↦
    isAbove forkHeight p.createdAtBlock
  let db := match indexerMode with
    -- A subscription is kept even if the deployment was orphaned.
    | .lite => db
    | .full => db.deleteContracts fun c ↦ c.discoveredAtBlock.any (isAbove forkHeight)
  -- Heights start at one, so the cursor does not become negative.
  { db.hideContracts with indexedHeight := some forkHeight.toNat }

structure HeightMismatch where
  height : ℕ
  stored : String
  chain : String
deriving DecidableEq

structure ForkSearch where
  forkHeight : Option ℕ := none
  highestMismatch : Option HeightMismatch := none
  lowestMismatchHeight : Option ℕ := none
deriving DecidableEq

/-- The loop over the stored headers, highest first, up to the first that agrees. -/
def searchFork (chain : InsertionMap ℕ BestChainHeader) :
    ForkSearch → List Db.BlockHeader → ForkSearch
  | search, [] => search
  | search, s :: stored =>
      match chain.get? s.height with
      | none => searchFork chain search stored
      | some c =>
          if c.blockHash = s.blockHash then { search with forkHeight := some s.height }
          else
            searchFork chain
              { search with
                highestMismatch :=
                  search.highestMismatch.orElse fun _ ↦ some ⟨s.height, s.blockHash, c.blockHash⟩
                lowestMismatchHeight := some s.height }
              stored

/-- What detection returns and what it leaves. -/
structure ReorgResult where
  forkHeight : Option ℤ := none
  warning : Option String := none
  db : Database
deriving DecidableEq

def reorgWarning (forkHeight : ℤ) (lowestMismatchHeight : ℕ) : String :=
  "Reorg recovery without an agreed stored predecessor: rolling back to " ++
    toString forkHeight ++ " before earliest mismatch " ++ decimal lowestMismatchHeight ++
    ". History older than the " ++ decimal reorgDetectionWindow ++
    "-block detection window is unverified; a deeper fork requires investigation and reindexing."

/-- The stored headers in the range of the chain, highest first. -/
def storedInRange (db : Database) (headers : List BestChainHeader) : List Db.BlockHeader :=
  match headers.head?, headers.getLast? with
  | some first, some last =>
      ((db.blockHeaders.filter fun s ↦ first.height ≤ s.height ∧ s.height ≤ last.height).mergeSort
        fun a b ↦ a.height ≤ b.height).reverse
  | _, _ => []

def detectAndRollbackReorg (indexerMode : IndexerMode)
    (response : Except String (List DaemonBlock)) (db : Database) : ReorgResult :=
  match response.map fetchBestChainHeaders with
  | .error _ => { db }
  | .ok headers =>
      let search := searchFork (chainByHeight headers) {} (storedInRange db headers)
      match search.highestMismatch, search.lowestMismatchHeight with
      | some _, some lowest =>
          match search.forkHeight with
          | some fork =>
              { forkHeight := some fork, db := rollbackAboveFork indexerMode fork db }
          | none =>
              let fork : ℤ := lowest - 1
              { forkHeight := some fork
                warning := some (reorgWarning fork lowest)
                db := rollbackAboveFork indexerMode fork db }
      | _, _ => { db }

end MinaGuard
