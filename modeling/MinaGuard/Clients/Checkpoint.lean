import MinaGuard.Clients.Bundle

/-!
# Store checkpoints

The stores of `storage.ts` as JSON, the comparison of rebuilt stores with the
account, and the checkpoints of `store-checkpoint.ts`.  A checkpoint comes from
outside: its parts may be any values, and its texts may hold any JSON or none.
-/

namespace MinaGuard

open Foundations

def serializeMerkleMap (map : MerkleMap) (keys : List Fp) : JsValue :=
  let entries := keys.foldl
    (fun entries key ↦ InsertionMap.set entries (fieldText key) (.string (fieldText (map key)))) []
  .object [("entries", .object (ownEntries entries))]

def deserializeMerkleMap (data : JsValue) : Except String ApprovalStore := do
  let entries ← (← data.property "entries").entries
  entries.foldlM
    (fun store x ↦ do
      let key ← parseField x.1
      let value ← x.2.toFp
      pure ⟨Function.update store.map key value, store.keys ++ [key]⟩)
    .empty

section Stores

variable {E : Env} (B : Base58 E)

def OwnerStore.serialize (store : OwnerStore) : Serialized :=
  .stringify (.object [("owners", .array (store.owners.map fun k ↦ .string (B.toBase58 k)))])

def OwnerStore.deserialize (json : Serialized) : Except String OwnerStore := do
  let data ← parseJson json
  match (← data.property "owners").isArray? with
  | none => .error "map is not a function"
  | some values => do
      let owners ← values.mapM (publicKeyOf B)
      pure ⟨owners⟩

end Stores

def ApprovalStore.serialize (store : ApprovalStore) : Serialized :=
  .stringify (.object [("entries", serializeMerkleMap store.map store.keys)])

def ApprovalStore.deserialize (json : Serialized) : Except String ApprovalStore := do
  let data ← parseJson json
  deserializeMerkleMap (← data.property "entries")

def VoteNullifierStore.serialize (store : VoteNullifierStore) : Serialized :=
  .stringify (.object [("keys", .array (store.keys.map .string))])

/-- One key of a serialized nullifier store. -/
def restoreNullifier (store : VoteNullifierStore) (value : JsValue) :
    Except String VoteNullifierStore :=
  match value.isString? with
  | none => .error "Invalid nullifier key"
  | some key =>
      if isCanonicalNumber key then do
        let κ ← parseField key
        if fieldText κ ≠ key then .error "Invalid nullifier key"
        else if key ∈ store.keys then .error "Duplicate nullifier key"
        else pure ⟨Function.update store.map κ 1, store.keys ++ [key]⟩
      else .error "Invalid nullifier key"

def VoteNullifierStore.deserialize (json : Serialized) : Except String VoteNullifierStore := do
  let data ← parseJson json
  match (← data.property "keys").isArray? with
  | none => .error "Invalid nullifier checkpoint"
  | some values => values.foldlM restoreNullifier .empty

/-- Values of the account as text, `none` where null or undefined. -/
structure ChainState where
  ownersCommitment : Option String
  approvalRoot : Option String
  voteNullifierRoot : Option String
deriving DecidableEq

variable {E : Env}

/-- `at`: where the rebuild first missed the emitted roots. -/
def divergenceText : Option ℕ → String
  | none => ""
  | some block => " (first divergence at block " ++ decimal block ++ ")"

def retryText : String :=
  "The indexed events do not reproduce this state yet; " ++
    "wait for the indexer to catch up and retry."

/-- A value of the account that is there is the rebuilt one. -/
def assertSame (chain : Option String) (rebuilt : Fp) (message : String) : Except String Unit :=
  match chain with
  | none => pure ()
  | some text => if text = fieldText rebuilt then pure () else .error message

variable (E) in
def assertStoresMatchChain (stores : RebuiltStores) (chain : ChainState)
    (label : String := "vault") : Except String Unit := do
  assertSame chain.ownersCommitment (stores.ownerStore.getCommitment E)
    ("Rebuilt owner list does not match the " ++ label ++ "'s on-chain owner commitment. " ++
      retryText)
  assertSame chain.approvalRoot (E.merkleMap.getRoot stores.approvalStore.map)
    ("Rebuilt approval map does not match the " ++ label ++ "'s on-chain approval root" ++
      divergenceText stores.firstDivergentBlock.approval ++ ". " ++ retryText)
  assertSame chain.voteNullifierRoot (E.merkleMap.getRoot stores.nullifierStore.map)
    ("Rebuilt vote nullifier map does not match the " ++ label ++ "'s on-chain nullifier root" ++
      divergenceText stores.firstDivergentBlock.nullifier ++ ". " ++ retryText)

def requireRoots (chain : ChainState) : Except String Unit :=
  if chain.ownersCommitment = none ∨ chain.approvalRoot = none ∨ chain.voteNullifierRoot = none
  then .error "A complete account state is required to verify a store checkpoint"
  else pure ()

inductive MinaNetwork where
  | mainnet
  | testnet
deriving DecidableEq

def MinaNetwork.text : MinaNetwork → String
  | mainnet => "mainnet"
  | testnet => "testnet"

/-- The vault that a checkpoint is of. -/
structure StoreScope where
  network : MinaNetwork
  address : String

structure StoreCheckpoint where
  version : JsValue
  network : JsValue
  address : JsValue
  throughBlock : JsValue
  owners : Serialized
  approvals : Serialized
  nullifiers : Serialized
  roots : ChainState

def storeCheckpointVersion : ℚ := 1

/-- A block height, `null` for events without heights. -/
def heightValue : Option ℕ → JsValue
  | none => .null
  | some height => .number height

section Checkpoints

variable (B : Base58 E)

def checkpointStores (stores : RebuiltStores) (scope : StoreScope) (throughBlock : Option ℕ) :
    StoreCheckpoint where
  version := .number storeCheckpointVersion
  network := .string scope.network.text
  address := .string scope.address
  throughBlock := heightValue throughBlock
  owners := stores.ownerStore.serialize B
  approvals := stores.approvalStore.serialize
  nullifiers := stores.nullifierStore.serialize
  roots :=
    { ownersCommitment := some (fieldText (stores.ownerStore.getCommitment E))
      approvalRoot := some (fieldText (E.merkleMap.getRoot stores.approvalStore.map))
      voteNullifierRoot := some (fieldText (E.merkleMap.getRoot stores.nullifierStore.map)) }

def Serialized.isText : Serialized → Bool
  | .text _ => true
  | .other _ => false

/-- `null` or a safe integer that is not negative. -/
def isThroughBlock : JsValue → Bool
  | .null => true
  | .number q => JsValue.isSafeInteger (.number q) ∧ 0 ≤ q
  | _ => false

/-- The fields of a checkpoint fit its format and the vault. -/
def StoreCheckpoint.fits (checkpoint : StoreCheckpoint) (scope : StoreScope) : Bool :=
  checkpoint.version.isNumber? = some storeCheckpointVersion ∧
    checkpoint.network.isString? = some scope.network.text ∧
    checkpoint.address.isString? = some scope.address ∧ isThroughBlock checkpoint.throughBlock ∧
    checkpoint.owners.isText ∧ checkpoint.approvals.isText ∧ checkpoint.nullifiers.isText

/-- The trees are recomputed from the leaves. -/
def restoreStoreCheckpoint (checkpoint : StoreCheckpoint) (scope : StoreScope) :
    Except String RebuiltStores :=
  if checkpoint.fits scope then do
    let owners ← parseJson checkpoint.owners
    match (← owners.property "owners").isArray? with
    | none => .error "Invalid checkpoint owners"
    | some values =>
        if maxOwners < values.length then .error "Invalid checkpoint owners"
        else do
          requireRoots checkpoint.roots
          let ownerStore ← OwnerStore.deserialize B checkpoint.owners
          let approvalStore ← ApprovalStore.deserialize checkpoint.approvals
          let nullifierStore ← VoteNullifierStore.deserialize checkpoint.nullifiers
          let stores : RebuiltStores := ⟨ownerStore, approvalStore, nullifierStore, ⟨none, none⟩⟩
          assertStoresMatchChain E stores checkpoint.roots
          pure stores
  else .error "Invalid or incompatible store checkpoint"

/-- What the offline CLI reads of a request. -/
structure OfflineRequest where
  version : JsValue
  minaNetwork : MinaNetwork
  contractAddress : String
  events : JsValue
  storeCheckpoint : Option StoreCheckpoint

def offlineRequestVersion : ℚ := 3

/-- The stores of a request, as its checkpoint and the account have them. -/
def storesFromOfflineRequest (request : OfflineRequest) (chain : ChainState) :
    Except String RebuiltStores :=
  if request.version.isNumber? = some offlineRequestVersion then do
    requireRoots chain
    match request.storeCheckpoint, request.events.isArray? with
    | some checkpoint, some [] => do
        let stores ← restoreStoreCheckpoint B checkpoint
          ⟨request.minaNetwork, request.contractAddress⟩
        assertStoresMatchChain E stores chain
        pure stores
    | _, _ =>
        .error "An offline request requires a complete store checkpoint and empty events"
  else .error "Unsupported request version"

end Checkpoints

section Witnesses

variable (mapWitness : MerkleMap → Fp → E.MerkleMapWitness)

def ApprovalStore.getWitness (store : ApprovalStore) (proposalHash : Fp) : E.MerkleMapWitness :=
  mapWitness store.map proposalHash

def VoteNullifierStore.getWitness (store : VoteNullifierStore) (proposalHash : Fp)
    (approver : PublicKey) : E.MerkleMapWitness :=
  mapWitness store.map (E.voteNullifierKey proposalHash approver)

end Witnesses

end MinaGuard
