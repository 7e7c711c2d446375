import MinaGuard.Indexer.Apply

/-!
# The status of a proposal

What `proposal-record.ts` and the proposal routes derive, at the time of a
request, from the row of a proposal, the latest snapshots of its guard and of
its target, and the latest slot.
-/

namespace MinaGuard

inductive InvalidReason where
  | configNonceStale
  | proposalNonceStale
deriving DecidableEq

inductive ProposalStatus where
  | executed
  | expired
  | invalidated
  | pending
deriving DecidableEq

/-- The counters of the latest `ContractConfig` row. -/
structure ContractState where
  nonce : Option ℕ
  parentNonce : Option ℕ
  configNonce : Option ℕ
deriving DecidableEq

/-- The proposal is of an earlier configuration than `parent`. -/
def isConfigStale (proposal : Db.Proposal) (parent : Option ContractState) : Bool :=
  match parent.bind ContractState.configNonce, proposal.configNonce.bind finiteNumber with
  | some current, some parsedConfig => parsedConfig < current
  | _, _ => false

def deriveInvalidReason (proposal : Db.Proposal) (parent child : Option ContractState) :
    Option InvalidReason :=
  if isConfigStale proposal parent then some .configNonceStale
  else if proposal.txType = some "5" then none
  else
    match proposal.nonce.bind finiteNumber with
    | none => none
    | some parsedNonce =>
        let isRemote := proposal.destination = some "remote"
        let current := if isRemote then child.bind ContractState.parentNonce
          else parent.bind ContractState.nonce
        match current with
        | none => none
        | some nonce => if parsedNonce ≤ nonce then some .proposalNonceStale else none

/-- The last slot of the proposal is over; zero stands for none. -/
def isExpired (proposal : Db.Proposal) (latestSlot : ℕ) : Bool :=
  match finiteNumber (proposal.expirySlot.getD "0") with
  | some expiry => 0 < expiry ∧ expiry < latestSlot
  | none => false

def deriveStatus (proposal : Db.Proposal) (executed : Bool) (latestSlot : ℕ)
    (invalidReason : Option InvalidReason) : ProposalStatus :=
  if executed then .executed
  else if isExpired proposal latestSlot then .expired
  else if invalidReason ≠ none then .invalidated
  else .pending

def toContractState (config : Option Db.ContractConfig) : Option ContractState :=
  config.map fun row ↦ ⟨row.nonce, row.parentNonce, row.configNonce⟩

section Routes

variable (db : Database)

/-- The state of a child that is indexed and verified. -/
def resolveChildState (address : String) : Option ContractState :=
  match db.findContractAt address with
  | none => none
  | some child =>
      if ¬child.ready ∨ ¬child.permissionsVerified then none
      else toContractState (db.getLatestConfig child.id)

/-- The state of the target of a REMOTE proposal. -/
def proposalChildState (proposal : Db.Proposal) : Option ContractState :=
  if proposal.destination = some "remote" ∧ proposal.txType ≠ some "5" then
    (truthy proposal.childAccount).bind (resolveChildState db)
  else none

def proposalInvalidReason (proposal : Db.Proposal) : Option InvalidReason :=
  deriveInvalidReason proposal (toContractState (db.getLatestConfig proposal.contractId))
    (proposalChildState db proposal)

/-- The status in the answer of the API. -/
def proposalStatus (proposal : Db.Proposal) (latestSlot : ℕ) : ProposalStatus :=
  deriveStatus proposal (db.proposalExecutions.any fun x ↦ x.proposalId = proposal.id) latestSlot
    (proposalInvalidReason db proposal)

end Routes

end MinaGuard
