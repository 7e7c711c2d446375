import MinaGuard.Contract.OwnerList
import MinaGuard.Foundations.InsertionMap
import MinaGuard.Indexer.Payload

/-!
# Rebuilding the stores from events

`event-rebuild.ts` and the stores of `storage.ts` it fills.  The web worker and
the offline CLI run it on the events the backend serves, in whatever order and
however often they arrive.
-/

namespace MinaGuard

open Foundations

/-- An event as the backend serves it. -/
structure IndexedEvent where
  eventType : String
  payload : Payload
  blockHeight : Option ℕ
deriving DecidableEq

namespace Payload

def field (payload : Payload) (key : String) : Option String :=
  match payload.lookup key with
  | some (.string text) => if text = "" then none else some text
  | some (.number n) => some (decimal n)
  | _ => none

def publicKey {E : Env} (B : Base58 E) (payload : Payload) (key : String) :
    Option PublicKey :=
  match payload.field key with
  | none => none
  | some value => if value.length ≤ 10 then none else B.fromBase58 value

end Payload

namespace TxType

/-- REMOTE lifecycle executions write the child's `childExecutionRoot`. -/
def remoteExecutionTypes : List String :=
  [createChild, reclaimChild, destroyChild, enableChildMultiSig].map fieldText

def childExecutionMarkingTypes : List String :=
  [reclaimChild, destroyChild, enableChildMultiSig].map fieldText

end TxType

def isExecution (e : IndexedEvent) : Bool :=
  e.eventType = "execution" ∨ e.eventType = "executionBatch"

/-- An execution that wrote the guard's own approval map. -/
def isLocalExecution (e : IndexedEvent) : Bool :=
  isExecution e ∧ (e.payload.field "txType").getD "" ∉ TxType.remoteExecutionTypes

/-- `OwnerStore`: the owners in the order of the chain. -/
structure OwnerStore where
  owners : List PublicKey

namespace OwnerStore

variable {E : Env} (B : Base58 E) (store : OwnerStore)

/-- The first index with a greater base58 text, where the app inserts. -/
def sortedIndex (owner : PublicKey) : Option ℕ :=
  store.owners.findIdx? fun o ↦ B.toBase58 owner < B.toBase58 o

def addSorted (owner : PublicKey) : OwnerStore :=
  match store.sortedIndex B owner with
  | none => ⟨store.owners ++ [owner]⟩
  | some idx => ⟨store.owners.insertIdx idx owner⟩

def remove (owner : PublicKey) : OwnerStore :=
  ⟨store.owners.filter fun o ↦ B.toBase58 o ≠ B.toBase58 owner⟩

variable (E) in
def getCommitment : Fp := computeOwnerChain E store.owners

variable (E) in
/-- Whether the chain with `owner` at `i` is the target. -/
def matchesAt (owner : PublicKey) (target : String) (i : ℕ) : Bool :=
  fieldText (computeOwnerChain E (store.owners.take i ++ owner :: store.owners.drop i)) =
    target

/-- Where inserting `owner` makes the chain equal the target, `none` for -1. -/
def insertPositionFor (owner : PublicKey) (target : String) : Option ℕ :=
  let preferred := (store.sortedIndex B owner).getD store.owners.length
  if store.matchesAt E owner target preferred then some preferred
  else
    (List.range (store.owners.length + 1)).find? fun i ↦
      decide (i ≠ preferred) && store.matchesAt E owner target i

end OwnerStore

section Owners

variable {E : Env} (B : Base58 E)

/-- `a - b` as a comparator; a comparison with NaN does not tell apart. -/
def numberLe : Option ℚ → Option ℚ → Bool
  | some a, some b => a ≤ b
  | _, _ => true

/-- The indexed and the unindexed owners of the setup events. -/
def setupSlots (events : List IndexedEvent) :
    InsertionMap (Option ℚ) PublicKey × List PublicKey :=
  (events.filter fun e ↦ e.eventType = "setupOwner").foldl
    (fun acc e ↦
      match e.payload.publicKey B "owner" with
      | none => acc
      | some owner =>
          match e.payload.field "index" with
          | none => (acc.1, acc.2 ++ [owner])
          | some index =>
              if acc.1.has (toNumber index) then acc
              else (acc.1.set (toNumber index) owner, acc.2))
    ([], [])

/-- The owners before any owner change. -/
def setupOwnerStore (events : List IndexedEvent) : OwnerStore :=
  let (slots, unindexed) := setupSlots B events
  if slots = [] then unindexed.foldl (OwnerStore.addSorted B) ⟨[]⟩
  else ⟨(slots.mergeSort fun a b ↦ numberLe a.1 b.1).map Prod.snd⟩

def isOwnerChange (e : IndexedEvent) : Bool :=
  e.eventType = "ownerChange" ∨ e.eventType = "ownerChangeBatch"

/-- `[configNonce, owner, added].join('|')`. -/
def changeKey (e : IndexedEvent) : String :=
  (e.payload.field "configNonce").getD "" ++ "|" ++ (e.payload.field "owner").getD "" ++
    "|" ++ (e.payload.field "added").getD ""

/-- An unreadable nonce is replayed last; `Number(null)` is 0. -/
def nonceOf (e : IndexedEvent) : ℚ :=
  match e.payload.field "configNonce" with
  | none => 0
  | some text => (finiteNumber text).getD maxSafeInteger

/-- The owner changes, each once, in the order of their nonces. -/
def orderedChanges (events : List IndexedEvent) : List IndexedEvent :=
  (InsertionMap.firstOf changeKey (events.filter isOwnerChange)).values.mergeSort
    fun a b ↦ nonceOf a ≤ nonceOf b

def isAdd (e : IndexedEvent) : Bool :=
  e.payload.field "added" = some "1" ∨ e.payload.lookup "added" = some (.boolean true)

def applyOwnerChange (store : OwnerStore) (e : IndexedEvent) : OwnerStore :=
  match e.payload.publicKey B "owner" with
  | none => store
  | some owner =>
      if isAdd e then
        match (e.payload.field "newOwnersCommitment").bind
            (store.insertPositionFor B owner) with
        | none => store.addSorted B owner
        | some position => ⟨store.owners.insertIdx position owner⟩
      else store.remove B owner

def rebuildOwners (events : List IndexedEvent) (initial : Option OwnerStore) : OwnerStore :=
  (orderedChanges events).foldl (applyOwnerChange B) (initial.getD (setupOwnerStore B events))

end Owners

/-- An off-chain `MerkleMap`. -/
abbrev MerkleMap := Fp → Fp

structure ApprovalStore where
  map : MerkleMap
  keys : List Fp

namespace ApprovalStore

def empty : ApprovalStore := ⟨fun _ ↦ 0, []⟩

variable (store : ApprovalStore)

def getCount (proposalHash : Fp) : Fp := store.map proposalHash

def setCount (proposalHash count : Fp) : ApprovalStore where
  map := Function.update store.map proposalHash count
  keys := if proposalHash ∈ store.keys then store.keys else store.keys ++ [proposalHash]

def raiseTo (proposalHash value : Fp) : ApprovalStore :=
  if (store.getCount proposalHash).val < value.val then store.setCount proposalHash value
  else store

end ApprovalStore

structure VoteNullifierStore where
  map : MerkleMap
  keys : List String

namespace VoteNullifierStore

def empty : VoteNullifierStore := ⟨fun _ ↦ 0, []⟩

def nullify (E : Env) (store : VoteNullifierStore) (proposalHash : Fp)
    (approver : PublicKey) : VoteNullifierStore :=
  let key := E.voteNullifierKey proposalHash approver
  if fieldText key ∈ store.keys then store
  else { map := Function.update store.map key 1, keys := store.keys ++ [fieldText key] }

end VoteNullifierStore

section Maps

variable {E : Env} (B : Base58 E)

/-- `applyMapEvent`; an unreadable number throws. -/
def applyMapEvent (stores : ApprovalStore × VoteNullifierStore) (e : IndexedEvent) :
    Except String (ApprovalStore × VoteNullifierStore) :=
  match e.payload.field "proposalHash" with
  | none => pure stores
  | some hash => do
      let proposalHash ← parseField hash
      if e.eventType = "proposal" ∨ e.eventType = "approval" then
        let count ←
          if e.eventType = "proposal" then pure (proposedMarker + 1)
          else parseField ((e.payload.field "approvalCount").getD "0")
        let approvals := stores.1.raiseTo proposalHash count
        let voter := if e.eventType = "proposal" then "proposer" else "approver"
        match e.payload.publicKey B voter with
        | none => pure (approvals, stores.2)
        | some key => pure (approvals, stores.2.nullify E proposalHash key)
      else if isLocalExecution e then
        pure (stores.1.raiseTo proposalHash executedMarker, stores.2)
      else pure stores

/-- The approval roots emitted in a block, by votes and LOCAL executions. -/
def emittedApprovalRoots (block : List IndexedEvent) : List String :=
  block.filterMap fun e ↦
    if e.eventType = "approval" then e.payload.field "approvalRoot"
    else if isLocalExecution e then e.payload.field "root"
    else none

def emittedNullifierRoots (block : List IndexedEvent) : List String :=
  block.filterMap fun e ↦
    if e.eventType = "approval" then e.payload.field "voteNullifierRoot" else none

/-- The first block at which a rebuilt map missed the emitted roots. -/
structure DivergentBlock where
  approval : Option ℕ
  nullifier : Option ℕ
deriving DecidableEq

structure RebuiltStores where
  ownerStore : OwnerStore
  approvalStore : ApprovalStore
  nullifierStore : VoteNullifierStore
  firstDivergentBlock : DivergentBlock

/-- What the loop over the blocks carries. -/
structure MapProgress where
  stores : ApprovalStore × VoteNullifierStore
  divergent : DivergentBlock

/-- One checkpoint: the root must be among those emitted, if any were. -/
def checkpoint (divergent : Option ℕ) (roots : List String) (root : Fp) (height : ℕ) :
    Option ℕ :=
  if divergent = none ∧ roots ≠ [] ∧ fieldText root ∉ roots then some height else divergent

def rebuildBlock (checkpointsUsable : Bool) (blocks : InsertionMap ℕ (List IndexedEvent))
    (s : MapProgress) (height : ℕ) : Except String MapProgress := do
  let block := (blocks.get? height).getD []
  let stores ← block.foldlM (applyMapEvent B) s.stores
  if checkpointsUsable then
    pure
      { stores
        divergent :=
          { approval := checkpoint s.divergent.approval (emittedApprovalRoots block)
              (E.merkleMap.getRoot stores.1.map) height
            nullifier := checkpoint s.divergent.nullifier (emittedNullifierRoots block)
              (E.merkleMap.getRoot stores.2.map) height } }
  else pure { s with stores }

def rebuildStores (events : List IndexedEvent) (initial : Option RebuiltStores) :
    Except String RebuiltStores := do
  let ownerStore := rebuildOwners B events (initial.map RebuiltStores.ownerStore)
  let approvalStore := (initial.map RebuiltStores.approvalStore).getD .empty
  let nullifierStore := (initial.map RebuiltStores.nullifierStore).getD .empty
  let unplaced := events.filter fun e ↦ e.blockHeight.isNone
  let blocks := InsertionMap.groupBy (fun e ↦ e.blockHeight.getD 0)
    (events.filter fun e ↦ e.blockHeight.isSome)
  let stores ← unplaced.foldlM (applyMapEvent B) (approvalStore, nullifierStore)
  let rebuilt ← (blocks.keys.mergeSort fun a b ↦ a ≤ b).foldlM
    (rebuildBlock B unplaced.isEmpty blocks) ⟨stores, ⟨none, none⟩⟩
  pure ⟨ownerStore, rebuilt.stores.1, rebuilt.stores.2, rebuilt.divergent⟩

/-- The map behind a child's `childExecutionRoot`, from its own events. -/
def rebuildChildExecutionMap (events : List IndexedEvent) : Except String MerkleMap :=
  events.foldlM
    (fun map e ↦
      match e.payload.field "proposalHash" with
      | none => pure map
      | some hash =>
          if isExecution e ∧
              (e.payload.field "txType").getD "" ∈ TxType.childExecutionMarkingTypes then do
            let proposalHash ← parseField hash
            pure (Function.update map proposalHash executedMarker)
          else pure map)
    fun _ ↦ 0

end Maps

end MinaGuard
