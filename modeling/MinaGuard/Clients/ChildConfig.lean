import MinaGuard.Clients.Bundle
import MinaGuard.Contract.Ledger

/-!
# Announced SubVault configurations

The configuration of a SubVault is checked by the offline CLI, reserved on chain,
read back from the events of the SubVault by the web client, and carried in the
bundles that approve and execute its creation.
-/

namespace MinaGuard

open Foundations

/-- Owners in base58 and a threshold. -/
structure ChildConfig where
  owners : List String
  threshold : ℕ
deriving DecidableEq

section Cli

variable {E : Env} (B : Base58 E)

/-- The order of the owners that a commitment covers. -/
inductive OwnerOrder where
  /-- As in the bundle, which has the slots of the reservation. -/
  | reserved
  /-- By base58 text, as proposals reserve them. -/
  | sorted
deriving DecidableEq

/-- The owners added to an empty store one by one. -/
def sortedStore (owners : List PublicKey) : OwnerStore :=
  owners.foldl (OwnerStore.addSorted B) ⟨[]⟩

structure CheckedConfig where
  config : ChildConfig
  hash : Fp

/-- An integer from 1 to `max`. -/
def integerUpTo (value : JsValue) (max : ℕ) : Option ℕ :=
  match value with
  | .number q => if q.den = 1 ∧ 1 ≤ q.num ∧ q.num ≤ max then some q.num.toNat else none
  | _ => none

def listedOwner (value : JsValue) : Except String PublicKey :=
  if value.strictEq (.string B.emptyKey) then .error "empty" else publicKeyOf B value

def checkedChildConfigHash (childOwners childThreshold : JsValue) (order : OwnerOrder) :
    Except String CheckedConfig :=
  match childOwners.isArray? with
  | none => .error "createChild bundle is missing the SubVault owner list"
  | some values =>
      if values.length = 0 then .error "createChild bundle is missing the SubVault owner list"
      else if maxOwners < values.length then
        .error ("createChild bundle lists more than " ++ decimal maxOwners ++ " SubVault owners")
      else
        match integerUpTo childThreshold values.length with
        | none => .error "createChild bundle has an invalid SubVault threshold"
        | some threshold =>
            match values.mapM (listedOwner B) with
            | .error _ => .error "createChild bundle has an invalid SubVault owner address"
            | .ok owners =>
                if ¬(owners.map fun k ↦ fieldText k.x).Nodup then
                  .error ("createChild bundle lists the same SubVault owner twice " ++
                    "(or a key and its negation)")
                else
                  let store : OwnerStore :=
                    match order with
                    | .reserved => ⟨owners⟩
                    | .sorted => sortedStore B owners
                  .ok
                    { config := ⟨values.filterMap JsValue.isString?, threshold⟩
                      hash := E.childConfigHash (store.getCommitment E) threshold
                        values.length }

/-- The check of a bundle that approves or executes, `none` for other types. -/
def assertCreateChildBundleConfig (bundle : JsValue) : Except String (Option ChildConfig) := do
  let proposal := bundle.get "proposal"
  let txType ← requireTxType (proposal.get "txType")
  if txType ≠ .createChild then pure none
  else if ¬(bundle.get "childAddress").strictEq .undefined ∧
      ¬(bundle.get "childAddress").strictEq (proposal.get "childAccount") then
    .error "createChild bundle names a SubVault address other than the proposal's"
  else
    let checked ← checkedChildConfigHash B (bundle.get "childOwners")
      (bundle.get "childThreshold") .reserved
    if ¬((proposal.get "data").orElse (.string "")).strictEq
        (.string (fieldText checked.hash)) then
      .error ("SubVault config mismatch: the bundle's owners/threshold do not hash to the " ++
        "proposal data this approval would sign. The bundle may contain a tampered " ++
        "SubVault config.")
    else pure (some checked.config)

/-- The check of a bundle that proposes, from its `input`. -/
def assertCreateChildProposeConfig (input : JsValue) : Except String (Option ChildConfig) := do
  let txType ← requireTxType (input.get "txType")
  if txType ≠ .createChild then pure none
  else
    let checked ← checkedChildConfigHash B (input.get "childOwners")
      (input.get "childThreshold") .sorted
    match (input.get "createChildConfigHash").isString? with
    | none => .error "createChild bundle is missing createChildConfigHash"
    | some text =>
        if text = "" then .error "createChild bundle is missing createChildConfigHash"
        else if fieldText checked.hash ≠ text then
          .error ("SubVault config mismatch: the bundle's owners/threshold do not hash to the " ++
            "createChildConfigHash this proposal would sign. The bundle may contain a " ++
            "tampered SubVault config.")
        else pure (some checked.config)

/-- The reservation that `handlePropose` builds. -/
def reserveForParentCall (input : JsValue) (contractAddress : PublicKey) (proposalHash : Fp) :
    Except String (MethodCall E) :=
  match (input.get "childOwners").isArray? with
  | none =>
      .error ("createChild proposal requires childPrivateKey, childOwners, and " ++
        "childThreshold in the bundle")
  | some values => do
      let owners ← values.mapM (publicKeyOf B)
      let threshold ← (input.get "childThreshold").toFp
      pure (.reserveForParent contractAddress proposalHash threshold values.length
        (setupInput (sortedStore B owners).owners))

/-- The creation that `handleExecute` builds after its checks. -/
def executeSetupChildCall (bundle : JsValue) (proposal : TransactionProposal)
    (approvalWitness : E.MerkleMapWitness) (approvalCount : Fp) :
    Except String (MethodCall E) := do
  match ← assertCreateChildBundleConfig B bundle, (bundle.get "childOwners").isArray? with
  | some checked, some values => do
      let owners ← checked.owners.mapM fun address ↦ publicKeyOf B (.string address)
      let threshold ← (bundle.get "childThreshold").toFp
      pure (.executeSetupChild threshold values.length (setupInput owners) proposal
        approvalWitness approvalCount)
  | _, _ => .error "createChild bundle is missing the SubVault owner list"

end Cli

section Web

variable {E : Env} (B : Base58 E)

/-- `Number` of a member of a payload; a missing one is not a number. -/
def memberNumber : Option JsonValue → Option ℚ
  | none => none
  | some .null => some 0
  | some (.boolean b) => some b.toNat
  | some (.number n) => some n
  | some (.string text) => toNumber text

/-- `Number(member ?? '0')`. -/
def memberNumberOrZero : Option JsonValue → Option ℚ
  | none => some 0
  | some member => memberNumber (some member)

/-- The owner of one slot. -/
def slotOwner (ownerEvents : List IndexedEvent) (index : ℕ) : Except String String :=
  match ownerEvents.filter fun e ↦ memberNumber (e.payload.lookup "index") = some (index : ℚ) with
  | [e] =>
      match e.payload.lookup "owner" with
      | some (.string owner) =>
          if owner.length ≤ 10 ∨ owner = B.emptyKey then
            .error ("Invalid SubVault owner at slot " ++ decimal index)
          else .ok owner
      | _ => .error ("Invalid SubVault owner at slot " ++ decimal index)
  | _ => .error ("SubVault owner slot " ++ decimal index ++ " is missing or duplicated")

def parseChildConfigFromEvents (events : List IndexedEvent) (childAddress : String) :
    Except String (Option ChildConfig) :=
  match events.filter fun e ↦ e.eventType = "createChildConfig" with
  | [] => .ok none
  | [configEvent] =>
      if configEvent.payload.lookup "childAccount" ≠ some (.string childAddress) then
        .error "SubVault reservation address mismatch"
      else
        match (memberNumberOrZero (configEvent.payload.lookup "threshold")).bind toNatural,
          (memberNumberOrZero (configEvent.payload.lookup "numOwners")).bind toNatural with
        | some threshold, some numOwners =>
            if numOwners < 1 ∨ threshold < 1 ∨ numOwners < threshold then
              .error "Invalid SubVault reservation governance"
            else do
              let ownerEvents := (events.filter fun e ↦ e.eventType = "createChildOwner").mergeSort
                fun a b ↦ numberLe (memberNumberOrZero (a.payload.lookup "index"))
                  (memberNumberOrZero (b.payload.lookup "index"))
              let owners ← (List.range numOwners).mapM (slotOwner B ownerEvents)
              pure (some ⟨owners, threshold⟩)
        | _, _ => .error "Invalid SubVault reservation governance"
  | _ => .error "Multiple SubVault reservations found"

structure ConfigHashes where
  ownersCommitment : String
  configHash : String
deriving DecidableEq

/-- Hashes the owners as given, or sorted. -/
def computeCreateChildConfigHash (config : ChildConfig) (preserveOrder : Bool) :
    Except String ConfigHashes := do
  let owners ← config.owners.mapM fun address ↦ publicKeyOf B (.string address)
  let ownerStore := if preserveOrder then ⟨owners⟩ else sortedStore B owners
  let ownersCommitment := ownerStore.getCommitment E
  pure
    { ownersCommitment := fieldText ownersCommitment
      configHash := fieldText (E.childConfigHash ownersCommitment config.threshold
        config.owners.length) }

end Web

end MinaGuard
