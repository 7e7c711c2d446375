import MinaGuard.Clients.JsValue
import MinaGuard.Clients.OwnerFlow

/-!
# Bundles of the offline CLI

`build-tx.ts`: how the fields of a bundle, which may be any JSON values, become
the parts of a proposal.
-/

namespace MinaGuard

/-- The transaction types by name. -/
inductive TxTypeName where
  | transfer
  | addOwner
  | removeOwner
  | changeThreshold
  | setDelegate
  | createChild
  | allocateChild
  | reclaimChild
  | destroyChild
  | enableChildMultiSig
deriving DecidableEq

namespace TxTypeName

def all : List TxTypeName :=
  [transfer, addOwner, removeOwner, changeThreshold, setDelegate, createChild, allocateChild,
    reclaimChild, destroyChild, enableChildMultiSig]

def text : TxTypeName → String
  | transfer => "transfer"
  | addOwner => "addOwner"
  | removeOwner => "removeOwner"
  | changeThreshold => "changeThreshold"
  | setDelegate => "setDelegate"
  | createChild => "createChild"
  | allocateChild => "allocateChild"
  | reclaimChild => "reclaimChild"
  | destroyChild => "destroyChild"
  | enableChildMultiSig => "enableChildMultiSig"

/-- The numeric form. -/
def code : TxTypeName → String
  | transfer => "0"
  | addOwner => "1"
  | removeOwner => "2"
  | changeThreshold => "3"
  | setDelegate => "4"
  | createChild => "5"
  | allocateChild => "6"
  | reclaimChild => "7"
  | destroyChild => "8"
  | enableChildMultiSig => "9"

end TxTypeName

def normalizeTxType (value : JsValue) : Option TxTypeName :=
  match value.isString? with
  | none => none
  | some text => TxTypeName.all.find? fun t ↦ t.text = text ∨ t.code = text

def requireTxType (value : JsValue) : Except String TxTypeName :=
  match normalizeTxType value with
  | none => .error "Unsupported transaction type"
  | some txType => .ok txType

def uiTxTypeToField (txType : TxTypeName) : Fp :=
  let value : ℕ :=
    match txType with
    | .transfer => 0
    | .addOwner => 1
    | .removeOwner => 2
    | .changeThreshold => 3
    | .setDelegate => 4
    | .createChild => 5
    | .allocateChild => 6
    | .reclaimChild => 7
    | .destroyChild => 8
    | .enableChildMultiSig => 9
  value

section Proposal

variable {E : Env} (B : Base58 E)

/-- `PublicKey.fromBase58` of a value. -/
def publicKeyOf (value : JsValue) : Except String PublicKey :=
  match value.isString?.bind B.fromBase58 with
  | some k => .ok k
  | none => .error "fromBase58"

theorem publicKeyOf_toBase58 {k : PublicKey} (h : E.onCurve k = true) :
    publicKeyOf B (.string (B.toBase58 k)) = .ok k := by
  unfold publicKeyOf JsValue.isString?
  rw [Option.bind_some, B.decodes h]

def buildProposalDataField (txType : TxTypeName) (input : JsValue) (ownerStore : OwnerStore) :
    Except String Fp :=
  match txType with
  | .changeThreshold => ((input.get "newThreshold").orElse (.number 0)).toFp
  | .reclaimChild => ((input.get "reclaimAmount").orElse (.string "0")).toFp
  | .enableChildMultiSig => .ok (if (input.get "childMultiSigEnable").truthy then 1 else 0)
  | .createChild => ((input.get "createChildConfigHash").orElse (.string "0")).toFp
  | .addOwner =>
      if (input.get "newOwner").truthy then do
        let newOwner ← publicKeyOf B (input.get "newOwner")
        pure (ownerStore.commitmentWithSortedAdd B newOwner)
      else .ok 0
  | _ => .ok 0

end Proposal

end MinaGuard
