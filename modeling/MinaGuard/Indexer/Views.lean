import Mathlib.Logic.Function.Basic
import MinaGuard.Foundations.KeyedRows
import MinaGuard.Indexer.Sync

/-!
# What the index says

The index of a vault, without ids: its parent, its configurations, its owner changes and
its proposals with what belongs to them.  On such an index an event has a meaning of its
own, which names no table.
-/

namespace MinaGuard

open Foundations

/-- A proposal with all that belongs to it. -/
structure ProposalView where
  row : Db.Proposal
  /-- Addresses and amounts, by `idx`. -/
  receivers : List (String × String)
  /-- The reported count and the height, for each approver. -/
  approval : String → Option (Option String × ℕ)
  /-- The height and the transaction. -/
  execution : Option (ℕ × Option String)

/-- An owner change. -/
structure MembershipView where
  validFromBlock : ℕ
  address : String
  action : String
  index : Option ℕ
deriving DecidableEq

structure VaultView where
  parent : Option String
  discoveredAtBlock : Option ℕ
  /-- The snapshots, oldest first, each with its height. -/
  configs : List (ℕ × ContractConfigChanges)
  memberships : List MembershipView
  proposals : String → Option ProposalView

/-- The vaults, by address. -/
abbrev IndexView := String → Option VaultView

/-- The columns that are copied from snapshot to snapshot. -/
def Db.ContractConfig.columns (row : Db.ContractConfig) : ContractConfigChanges where
  threshold := row.threshold
  numOwners := row.numOwners
  nonce := row.nonce
  parentNonce := row.parentNonce
  configNonce := row.configNonce
  delegate := row.delegate
  childMultiSigEnabled := row.childMultiSigEnabled
  ownersCommitment := row.ownersCommitment

namespace ContractConfigChanges

/-- What does not change is copied from what was known before. -/
def filledFrom (changes : ContractConfigChanges) (latest : Option ContractConfigChanges) :
    ContractConfigChanges where
  threshold := changes.threshold <|> latest.bind threshold
  numOwners := changes.numOwners <|> latest.bind numOwners
  nonce := changes.nonce <|> latest.bind nonce
  parentNonce := changes.parentNonce <|> latest.bind parentNonce
  configNonce := changes.configNonce <|> latest.bind configNonce
  delegate := changes.delegate <|> latest.bind delegate
  childMultiSigEnabled := changes.childMultiSigEnabled <|> latest.bind childMultiSigEnabled
  ownersCommitment := changes.ownersCommitment <|> latest.bind ownersCommitment

/-- The numbers fit their columns. -/
def fits (columns : ContractConfigChanges) : Bool :=
  [columns.threshold, columns.numOwners, columns.nonce, columns.parentNonce,
    columns.configNonce].all fun n ↦ n.all fun n ↦ n < 2 ^ 31

end ContractConfigChanges

/-- The row, without ids and without what the frontend notes of its submissions. -/
def Db.Proposal.content (row : Db.Proposal) : Db.Proposal :=
  { row with
    id := 0, contractId := 0, lastApproveTxHash := none, lastApproveError := none,
    lastExecuteTxHash := none, lastExecuteError := none }

section Events

variable {E : Env} (lib : Backend E)

namespace ProposalView

/-- A proposal the index has not seen before. -/
def start (proposalHash : String) (e : ChainEvent) : ProposalView where
  row := (Db.Proposal.blank 0 0 proposalHash (asString (e.event.get "proposer"))
    e.blockHeight).describe lib e
  receivers := []
  approval := fun _ ↦ none
  execution := none

variable (p : ProposalView)

def describe (e : ChainEvent) : ProposalView := { p with row := p.row.describe lib e }

/-- The first receiver of a governance proposal is its target. -/
def receive (address amount : String) : ProposalView where
  row :=
    if p.receivers = [] ∧ isGovernanceWithTarget p.row.txType then
      { p.row with toAddress := some address }
    else p.row
  receivers := p.receivers ++ [(address, amount)]
  approval := p.approval
  execution := p.execution

def approve (approver : String) (approvalRaw : Option String) (height : ℕ) : ProposalView :=
  { p with approval := Function.update p.approval approver (some (approvalRaw, height)) }

def markExecuted (e : ChainEvent) : ProposalView :=
  { p with
    row := { p.row with executionMemoHash := some (executionMemoHash lib e.txMemo) }
    execution := some (e.blockHeight, e.txHash) }

end ProposalView

namespace VaultView

/-- A vault nothing is known of. -/
def new (parent : Option String) (discoveredAtBlock : Option ℕ) : VaultView where
  parent := parent
  discoveredAtBlock := discoveredAtBlock
  configs := []
  memberships := []
  proposals := fun _ ↦ none

variable (v : VaultView)

/-- The columns of the latest snapshot. -/
def config : Option ContractConfigChanges := v.configs.getLast?.map Prod.snd

/-- A snapshot more, if its numbers fit. -/
def snapshot (height : ℕ) (changes : ContractConfigChanges) : Option VaultView :=
  let columns := changes.filledFrom v.config
  if columns.fits then some { v with configs := v.configs ++ [(height, columns)] } else none

def record (m : MembershipView) : VaultView := { v with memberships := v.memberships ++ [m] }

/-- What is known of one proposal. -/
def setProposal (proposalHash : String) (p : Option ProposalView) : VaultView :=
  { v with proposals := Function.update v.proposals proposalHash p }

def amend (proposalHash : String) (f : ProposalView → ProposalView) : VaultView :=
  v.setProposal proposalHash ((v.proposals proposalHash).map f)

def setUp (e : ChainEvent) : Option VaultView :=
  let parent := asString (e.event.get "parent")
  let isRoot := parent = none ∨ parent = some (emptyPublicKey lib)
  { v with parent := if isRoot then none else parent }.snapshot e.blockHeight
    { threshold := asNumber (e.event.get "threshold")
      numOwners := asNumber (e.event.get "numOwners")
      nonce := some 0
      parentNonce := some 0
      configNonce := some 0
      ownersCommitment := asString (e.event.get "ownersCommitment")
      childMultiSigEnabled := some true }

def setUpOwner (e : ChainEvent) (setupFallback : Option OnChainState) : Option VaultView :=
  match truthy (asString (e.event.get "owner")) with
  | none => some v
  | some owner =>
      if owner.length < 10 ∨ owner = emptyPublicKey lib then some v
      else
        let index := asNumber (e.event.get "index")
        if index.all fun n ↦ n < 2 ^ 31 then
          let v := v.record ⟨e.blockHeight, owner, "added", index⟩
          if (v.config.bind ContractConfigChanges.threshold).isSome then some v
          else
            match setupFallback with
            | none => some v
            | some state =>
                v.snapshot e.blockHeight
                  { threshold := some state.threshold
                    numOwners := some state.numOwners
                    ownersCommitment := some state.ownersCommitment }
        else none

def propose (proposalHash : String) (e : ChainEvent) : VaultView :=
  v.setProposal proposalHash (some (match v.proposals proposalHash with
    | some p => p.describe lib e
    | none => .start lib proposalHash e))

def receive (e : ChainEvent) : VaultView :=
  match truthy (asString (e.event.get "proposalHash")),
      truthy (asString (e.event.get "receiver")), truthy (asString (e.event.get "amount")) with
  | some proposalHash, some address, some amount =>
      if address = emptyPublicKey lib then v
      else v.amend proposalHash fun p ↦ p.receive address amount
  | _, _, _ => v

def approve (e : ChainEvent) : VaultView :=
  match truthy (asString (e.event.get "proposalHash")),
      truthy (asString (e.event.get "approver")) with
  | some proposalHash, some approver =>
      v.amend proposalHash fun p ↦
        p.approve approver (asString (e.event.get "approvalCount")) e.blockHeight
  | _, _ => v

/-- A LOCAL execution; the proposal is the vault's own. -/
def execute (proposalHash : String) (p : ProposalView) (e : ChainEvent) : Option VaultView :=
  let v := v.amend proposalHash fun p ↦ p.markExecuted lib e
  match p.row.nonce.bind columnNumber with
  | some nonce => v.snapshot e.blockHeight { nonce := some nonce }
  | none => some v

def changeOwner (e : ChainEvent) : Option VaultView :=
  match truthy (asString (e.event.get "owner")) with
  | none => some v
  | some owner =>
      let added := asString (e.event.get "added") = some "1"
      let v := v.record ⟨e.blockHeight, owner, if added then "added" else "removed", none⟩
      let changes : ContractConfigChanges :=
        { numOwners := asNumber (e.event.get "newNumOwners")
          configNonce := asNumber (e.event.get "configNonce")
          ownersCommitment := asString (e.event.get "newOwnersCommitment") }
      if changes = {} then some v else v.snapshot e.blockHeight changes

def changeThreshold (e : ChainEvent) : Option VaultView :=
  match asNumber (e.event.get "newThreshold") with
  | none => some v
  | some threshold =>
      v.snapshot e.blockHeight
        { threshold := some threshold, configNonce := asNumber (e.event.get "configNonce") }

def changeDelegate (e : ChainEvent) : Option VaultView :=
  match asString (e.event.get "delegate") with
  | none => some v
  | some delegate => v.snapshot e.blockHeight { delegate := some delegate }

def enableChildMultiSig (e : ChainEvent) : Option VaultView :=
  match asNumber (e.event.get "enabled") with
  | none => some v
  | some enabled =>
      v.snapshot e.blockHeight
        { childMultiSigEnabled := some (enabled = 1)
          configNonce := asNumber (e.event.get "configNonce") }

end VaultView

namespace IndexView

variable (i : IndexView)

/-- Changes what is known of a vault. -/
def alter (address : String) (f : VaultView → Option VaultView) : Option IndexView :=
  ((i address).bind f).map fun v ↦ Function.update i address (some v)

def modify (address : String) (f : VaultView → VaultView) : IndexView :=
  Function.update i address ((i address).map f)

/-- The child is known from the proposal to create it on. -/
def subscribeChild (mode : IndexerMode) (address : String) (e : ChainEvent) : IndexView :=
  if mode = .lite ∧ asString (e.event.get "txType") = some "5" then
    match asNullableAddress lib (asString (e.event.get "childAccount")) with
    | none => i
    | some child =>
        match i child with
        | some _ => i
        | none => Function.update i child (some (.new (some address) (some e.blockHeight)))
  else i

/-- The parent of a vault and its proposal of the hash. -/
def remoteProposal (v : VaultView) (proposalHash : String) : Option (String × ProposalView) := do
  let parent ← truthy v.parent
  let p ← (← i parent).proposals proposalHash
  pure (parent, p)

def execute (address : String) (e : ChainEvent) (v : VaultView) : Option IndexView :=
  match truthy (asString (e.event.get "proposalHash")) with
  | none => some i
  | some proposalHash =>
      match v.proposals proposalHash with
      | some p => i.alter address fun v ↦ v.execute lib proposalHash p e
      | none =>
          match i.remoteProposal v proposalHash with
          | none => some i
          | some (parent, p) =>
              let i := i.modify parent fun v ↦ v.amend proposalHash fun p ↦ p.markExecuted lib e
              match p.row.nonce.bind columnNumber with
              | some nonce =>
                  i.alter address fun v ↦ v.snapshot e.blockHeight { parentNonce := some nonce }
              | none => some i

/-- What an event of the vault at the address means.  Nothing, if a number does not fit. -/
def apply (mode : IndexerMode) (address : String) (e : ChainEvent)
    (setupFallback : Option OnChainState) : Option IndexView :=
  match e.type with
  | "setup" => i.alter address fun v ↦ v.setUp lib e
  | "setupOwner" => i.alter address fun v ↦ v.setUpOwner lib e setupFallback
  | "proposal" =>
      match truthy (asString (e.event.get "proposalHash")) with
      | none => some i
      | some proposalHash =>
          some ((i.modify address fun v ↦ v.propose lib proposalHash e).subscribeChild lib mode
            address e)
  | "approval" => some (i.modify address fun v ↦ v.approve e)
  | "execution" => (i address).bind fun v ↦ i.execute lib address e v
  | "enableChildMultiSig" => i.alter address fun v ↦ v.enableChildMultiSig e
  | "receiver" => some (i.modify address fun v ↦ v.receive lib e)
  | "ownerChange" => i.alter address fun v ↦ v.changeOwner e
  | "thresholdChange" => i.alter address fun v ↦ v.changeThreshold e
  | "delegate" => i.alter address fun v ↦ v.changeDelegate e
  | _ => some i

end IndexView

end Events

/-- Proposals are told apart by their contract and their hash. -/
def Db.Proposal.key (p : Db.Proposal) : ℕ × String := (p.contractId, p.proposalHash)

def Db.Approval.key (a : Db.Approval) : ℕ × String := (a.proposalId, a.approver)

namespace Database

variable (db : Database)

def proposalView (p : Db.Proposal) : ProposalView where
  row := p.content
  receivers := (db.proposalReceivers.filter fun r ↦ r.proposalId = p.id).map fun r ↦
    (r.address, r.amount)
  approval := fun approver ↦ (rowAt Db.Approval.key db.approvals (p.id, approver)).map fun a ↦
    (a.approvalRaw, a.blockHeight)
  execution := (rowAt Db.ProposalExecution.proposalId db.proposalExecutions p.id).map fun x ↦
    (x.blockHeight, x.txHash)

/-- The proposal of a contract with the hash. -/
def proposalAt (contractId : ℕ) (proposalHash : String) : Option ProposalView :=
  (db.findProposal contractId proposalHash).map db.proposalView

def vaultView (c : Db.Contract) : VaultView where
  parent := c.parent
  discoveredAtBlock := c.discoveredAtBlock
  configs := (db.contractConfigs.filter fun row ↦ row.contractId = c.id).map fun row ↦
    (row.validFromBlock, row.columns)
  memberships := (db.ownerMemberships.filter fun m ↦ m.contractId = c.id).map fun m ↦
    ⟨m.validFromBlock, m.address, m.action, m.index⟩
  proposals := db.proposalAt c.id

/-- What the tables say. -/
def indexView : IndexView := fun address ↦ (db.findContractAt address).map db.vaultView

end Database

end MinaGuard
