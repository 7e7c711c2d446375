import MinaGuard.Clients.ChildConfig
import MinaGuard.Indexer.Memo

/-!
# The proposals that the offline CLI signs

How the handlers of `build-tx.ts` get from a bundle, which may be any JSON value,
to the `TransactionProposal` whose hash they sign or execute.
-/

namespace MinaGuard

open Foundations

namespace JsValue

/-- `BigInt(value)`. -/
def toBigInt : JsValue → Except String ℤ
  | string text =>
      match parseBigInt text with
      | some n => .ok n
      | none => .error "Cannot convert text to a BigInt"
  | number q => if q.den = 1 then .ok q.num else .error "not an integer"
  | boolean b => .ok b.toNat
  | _ => .error "Cannot convert to a BigInt"

/-- `UInt64.from(value)`. -/
def toUInt64 (value : JsValue) : Except String UInt64 := do
  let x ← value.toFp
  if x.val < 2 ^ 64 then pure (.ofNat x.val)
  else .error "UInt64: Expected number between 0 and 2^64 - 1"

end JsValue

section Handlers

variable {E : Env} (B : Base58 E)

def safePublicKey (value : JsValue) : PublicKey :=
  if value.truthy then
    match publicKeyOf B value with
    | .ok k => k
    | .error _ => PublicKey.empty
  else PublicKey.empty

/-- A key that need not be given, but must decode. -/
def givenPublicKey (value : JsValue) : Except String PublicKey :=
  if value.truthy then publicKeyOf B value else pure PublicKey.empty

def governanceTargetAddress (txType : TxTypeName) (input : JsValue) : JsValue :=
  match txType with
  | .addOwner => (input.get "newOwner").orElse .null
  | .removeOwner => (input.get "removeOwnerAddress").orElse .null
  | .setDelegate =>
      if (input.get "undelegate").truthy then .null else (input.get "delegate").orElse .null
  | _ => .null

/-- One row of `buildTransferReceivers`. -/
def buildReceiver (row : JsValue) : Except String Receiver := do
  let address ← row.property "address"
  let amount ← row.property "amount"
  if address.strictEq (.string B.emptyKey) then
    let n ← amount.toBigInt
    if n ≠ 0 then .error "Empty receiver must have zero amount"
    else do
      let amount ← amount.toUInt64
      pure ⟨PublicKey.empty, amount⟩
  else do
    let address ← publicKeyOf B address
    let amount ← amount.toUInt64
    pure ⟨address, amount⟩

def buildTransferReceivers (receivers : JsValue) :
    Except String (Vector Receiver maxReceivers) :=
  match receivers.isArray? with
  | none => .error "receivers.map is not a function"
  | some rows => do
      let normalized ← rows.mapM (buildReceiver B)
      pure (receiverSlots normalized)

def buildReceiversForProposal (txType : TxTypeName) (input : JsValue) :
    Except String (Vector Receiver maxReceivers) :=
  if txType = .transfer ∨ txType = .allocateChild then
    buildTransferReceivers B ((input.get "receivers").orElse (.array []))
  else
    let target := governanceTargetAddress txType input
    if target.truthy then do
      let address ← publicKeyOf B target
      pure (receiverSlots [⟨address, 0⟩])
    else pure (receiverSlots [])

/-- The fields of a bundled proposal that the handlers may replace. -/
structure ProposalFields where
  guardAddress : JsValue
  destination : JsValue
  childAccount : JsValue

def buildProposalStruct (proposal : JsValue) (fields : ProposalFields) :
    Except String TransactionProposal := do
  let txType ← requireTxType (proposal.get "txType")
  match proposal.get "memoHash" with
  | .undefined | .null => .error "Proposal is missing its memo commitment"
  | memoHash => do
      let receivers ← buildTransferReceivers B (proposal.get "receivers")
      let tokenId ← ((proposal.get "tokenId").orElse (.string (fieldText nativeTokenId))).toFp
      let data ← ((proposal.get "data").orElse (.string "0")).toFp
      let nonce ← ((proposal.get "nonce").orElse (.string "0")).toFp
      let configNonce ← ((proposal.get "configNonce").orElse (.string "0")).toFp
      let expirySlot ← ((proposal.get "expirySlot").orElse (.string "0")).toFp
      let memoHash ← memoHash.toFp
      pure
        { receivers
          tokenId
          txType := uiTxTypeToField txType
          data
          nonce
          configNonce
          expirySlot
          guardAddress := safePublicKey B fields.guardAddress
          destination :=
            if fields.destination.strictEq (.string "remote") then destinationRemote
            else destinationLocal
          childAccount := safePublicKey B fields.childAccount
          memoHash }

def assertRecomputedProposalHash (recomputed : Fp) (expectedProposalHash : JsValue)
    (action : String) : Except String Unit :=
  if expectedProposalHash.strictEq (.string (fieldText recomputed)) then pure ()
  else
    .error ("Refusing to " ++ action ++ ": the bundle's proposal fields hash to " ++
      fieldText recomputed ++ ", which does not match its declared proposal. " ++
      "The bundle may have been tampered with.")

section Memo

-- `String(value)`, which gives a text itself
variable (toText : JsValue → String)

variable (E) in
def assertBundleMemo (proposal : JsValue) : Except String Unit :=
  let memo := (proposal.get "memo").orElse (.string "")
  match proposal.get "memoHash" with
  | .undefined | .null => .error "Proposal is missing its memo commitment"
  | memoHash =>
      if memoHash.strictEq (.string (fieldText (memoToField E (toText memo)))) then pure ()
      else
        .error ("The memo in this bundle does not match the memo the owners approved. " ++
          "Refusing to sign with a different memo.")

def TxTypeName.isRemote (txType : TxTypeName) : Bool :=
  txType = .createChild ∨ txType = .reclaimChild ∨ txType = .destroyChild ∨
    txType = .enableChildMultiSig

/-- A key an owner already holds can never be added. -/
def assertNewOwner (txType : TxTypeName) (input : JsValue) (ownerStore : OwnerStore) :
    Except String Unit :=
  if txType = .addOwner ∧ (input.get "newOwner").truthy then do
    let newOwner ← publicKeyOf B (input.get "newOwner")
    assertFalse (ownerStore.hasOwnerWithSameX newOwner)
      ("This address is already an owner or the negation of one (same key holder) " ++
        "and cannot be added.")
  else pure ()

def handlePropose (bundle : JsValue) (ownerStore : OwnerStore) :
    Except String TransactionProposal := do
  let input := bundle.get "input"
  let txType ← requireTxType (input.get "txType")
  if txType = .createChild ∧ (¬(input.get "childPrivateKey").truthy ∨
      ¬(input.get "childOwners").truthy ∨ (input.get "childThreshold").strictEq .null ∨
      (input.get "childThreshold").strictEq .undefined) then
    .error ("createChild proposal requires childPrivateKey, childOwners, and " ++
      "childThreshold in the bundle")
  else do
    let _ ← assertCreateChildProposeConfig B input
    assertNewOwner B txType input ownerStore
    let receivers ← buildReceiversForProposal B txType input
    let data ← buildProposalDataField B txType input ownerStore
    let nonce ← (input.get "nonce").toFp
    let configNonce ← (bundle.get "configNonce").toFp
    let expirySlot ← ((input.get "expirySlot").orElse (.number 0)).toFp
    let guardAddress ← publicKeyOf B (bundle.get "contractAddress")
    let childAccount ← givenPublicKey B (input.get "childAccount")
    pure
      { receivers
        tokenId := nativeTokenId
        txType := uiTxTypeToField txType
        data
        nonce
        configNonce
        expirySlot
        guardAddress
        destination := if txType.isRemote then destinationRemote else destinationLocal
        childAccount
        memoHash := memoToField E (toText ((input.get "memo").orElse (.string ""))) }

def handleApprove (bundle : JsValue) (ownerStore : OwnerStore) :
    Except String TransactionProposal := do
  let proposal := bundle.get "proposal"
  let proposalStruct ← buildProposalStruct B proposal
    { guardAddress := (proposal.get "guardAddress").orElse (bundle.get "contractAddress")
      destination := proposal.get "destination"
      childAccount := proposal.get "childAccount" }
  assertExecutableAddOwnerData B proposalStruct ownerStore
  let _ ← assertCreateChildBundleConfig B bundle
  assertRecomputedProposalHash (E.proposalHash proposalStruct) (proposal.get "proposalHash")
    "approve this proposal"
  assertBundleMemo E toText proposal
  pure proposalStruct

/-- What `handleExecute` puts in place of the bundled fields. -/
def executedFields (bundle : JsValue) (txType : TxTypeName) : ProposalFields :=
  let proposal := bundle.get "proposal"
  { guardAddress := (proposal.get "guardAddress").orElse (bundle.get "contractAddress")
    destination := if txType.isRemote then .string "remote" else proposal.get "destination"
    childAccount :=
      if txType.isRemote then
        ((proposal.get "childAccount").orElse (bundle.get "childAddress")).orElse .null
      else proposal.get "childAccount" }

def handleExecute (bundle : JsValue) : Except String TransactionProposal := do
  let proposal := bundle.get "proposal"
  let txType ← requireTxType (proposal.get "txType")
  let proposalStruct ← buildProposalStruct B proposal (executedFields bundle txType)
  assertRecomputedProposalHash (E.proposalHash proposalStruct) (proposal.get "proposalHash")
    "execute this proposal"
  assertBundleMemo E toText proposal
  if txType.isRemote ∧
      ¬((bundle.get "childAddress").orElse (proposal.get "childAccount")).truthy then
    .error "bundle missing childAddress"
  else do
    let _ ← assertCreateChildBundleConfig B bundle
    pure proposalStruct

inductive BundleAction where
  | propose
  | approve
  | execute
deriving DecidableEq

/-- The type of a bundle, by name. -/
def canonicalizeBundleTxType (action : BundleAction) (bundle : JsValue) :
    Except String TxTypeName :=
  match action with
  | .propose => requireTxType ((bundle.get "input").get "txType")
  | .approve | .execute => requireTxType ((bundle.get "proposal").get "txType")

/-- The proposal behind the hash that is signed or executed. -/
def signedProposal (action : BundleAction) (bundle : JsValue) (ownerStore : OwnerStore) :
    Except String TransactionProposal :=
  match action with
  | .propose => handlePropose B toText bundle ownerStore
  | .approve => handleApprove B toText bundle ownerStore
  | .execute => handleExecute B toText bundle

end Memo

end Handlers

end MinaGuard
