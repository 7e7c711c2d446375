import MinaGuard.Indexer.Numbers

/-!
# Events as text

Off chain an event is a name and an object of strings: field elements and
amounts in decimal, keys in base58.  The functions that read such objects give
back what was written.
-/

namespace MinaGuard

/-- The text form of keys.  Every key has one, but it decodes only for a point
of the curve, which `PublicKey.empty()` is not. -/
structure Base58 (E : Env) where
  toBase58 : PublicKey → String
  /-- `PublicKey.fromBase58`, `none` where it throws. -/
  fromBase58 : String → Option PublicKey
  toBase58_injective : Function.Injective toBase58
  length_toBase58 : ∀ k, 10 < (toBase58 k).length
  fromBase58_toBase58 : ∀ k, fromBase58 (toBase58 k) = if E.onCurve k then some k else none
  empty_not_onCurve : E.onCurve PublicKey.empty = false

namespace Base58

variable {E : Env} (B : Base58 E) {k : PublicKey}

/-- `EMPTY_PUBLIC_KEY`. -/
def emptyKey : String := B.toBase58 PublicKey.empty

theorem decodes (h : E.onCurve k = true) : B.fromBase58 (B.toBase58 k) = some k := by
  rw [B.fromBase58_toBase58, if_pos h]

theorem fails (h : E.onCurve k = false) : B.fromBase58 (B.toBase58 k) = none := by
  rw [B.fromBase58_toBase58, h]
  rfl

theorem toBase58_ne_empty (k : PublicKey) : B.toBase58 k ≠ "" := by
  intro h
  have hlength := B.length_toBase58 k
  rw [h] at hlength
  exact absurd hlength (by decide)

theorem toBase58_eq_emptyKey : B.toBase58 k = B.emptyKey ↔ k = PublicKey.empty :=
  B.toBase58_injective.eq_iff

end Base58

/-- A value of a decoded payload. -/
inductive JsonValue where
  | null
  | boolean (b : Bool)
  | number (n : ℕ)
  | string (text : String)
deriving DecidableEq

/-- An object, keys in insertion order. -/
abbrev Payload := List (String × JsonValue)

/-- A component of an event. -/
inductive EventValue where
  | field (x : Fp)
  | publicKey (k : PublicKey)
  | uint64 (n : UInt64)
deriving DecidableEq

namespace Event

/-- The key of the event in `MinaGuard.events`. -/
def name : Event → String
  | setup .. => "setup"
  | setupOwner .. => "setupOwner"
  | proposal .. => "proposal"
  | receiver .. => "receiver"
  | approval .. => "approval"
  | execution .. => "execution"
  | ownerChange .. => "ownerChange"
  | thresholdChange .. => "thresholdChange"
  | delegate .. => "delegate"
  | createChild .. => "createChild"
  | reclaimChild .. => "reclaimChild"
  | enableChildMultiSig .. => "enableChildMultiSig"
  | createChildConfig .. => "createChildConfig"
  | createChildOwner .. => "createChildOwner"

/-- The components of an event under their names, in declared order. -/
def components : Event → List (String × EventValue)
  | setup ownersCommitment threshold numOwners parent =>
      [("ownersCommitment", .field ownersCommitment), ("threshold", .field threshold),
        ("numOwners", .field numOwners), ("parent", .publicKey parent)]
  | setupOwner owner index => [("owner", .publicKey owner), ("index", .field index)]
  | proposal proposalHash proposer tokenId txType data memoHash nonce configNonce expirySlot
      guardAddress destination childAccount =>
      [("proposalHash", .field proposalHash), ("proposer", .publicKey proposer),
        ("tokenId", .field tokenId), ("txType", .field txType), ("data", .field data),
        ("memoHash", .field memoHash), ("nonce", .field nonce),
        ("configNonce", .field configNonce), ("expirySlot", .field expirySlot),
        ("guardAddress", .publicKey guardAddress), ("destination", .field destination),
        ("childAccount", .publicKey childAccount)]
  | receiver proposalHash address amount =>
      [("proposalHash", .field proposalHash), ("receiver", .publicKey address),
        ("amount", .uint64 amount)]
  | approval proposalHash approver approvalCount approvalRoot voteNullifierRoot =>
      [("proposalHash", .field proposalHash), ("approver", .publicKey approver),
        ("approvalCount", .field approvalCount), ("approvalRoot", .field approvalRoot),
        ("voteNullifierRoot", .field voteNullifierRoot)]
  | execution proposalHash txType root =>
      [("proposalHash", .field proposalHash), ("txType", .field txType),
        ("root", .field root)]
  | ownerChange proposalHash owner added newNumOwners newOwnersCommitment configNonce =>
      [("proposalHash", .field proposalHash), ("owner", .publicKey owner),
        ("added", .field added), ("newNumOwners", .field newNumOwners),
        ("newOwnersCommitment", .field newOwnersCommitment),
        ("configNonce", .field configNonce)]
  | thresholdChange proposalHash oldThreshold newThreshold configNonce =>
      [("proposalHash", .field proposalHash), ("oldThreshold", .field oldThreshold),
        ("newThreshold", .field newThreshold), ("configNonce", .field configNonce)]
  | delegate proposalHash address =>
      [("proposalHash", .field proposalHash), ("delegate", .publicKey address)]
  | createChild proposalHash parentAddress =>
      [("proposalHash", .field proposalHash), ("parentAddress", .publicKey parentAddress)]
  | reclaimChild proposalHash parentAddress amount =>
      [("proposalHash", .field proposalHash), ("parentAddress", .publicKey parentAddress),
        ("amount", .uint64 amount)]
  | enableChildMultiSig proposalHash parentAddress enabled configNonce =>
      [("proposalHash", .field proposalHash), ("parentAddress", .publicKey parentAddress),
        ("enabled", .field enabled), ("configNonce", .field configNonce)]
  | createChildConfig proposalHash childAccount ownersCommitment threshold numOwners =>
      [("proposalHash", .field proposalHash), ("childAccount", .publicKey childAccount),
        ("ownersCommitment", .field ownersCommitment), ("threshold", .field threshold),
        ("numOwners", .field numOwners)]
  | createChildOwner proposalHash owner index =>
      [("proposalHash", .field proposalHash), ("owner", .publicKey owner),
        ("index", .field index)]

end Event

/-- `serializeValue`: the text of one component. -/
def serializeValue {E : Env} (B : Base58 E) : EventValue → String
  | .field x => fieldText x
  | .publicKey k => B.toBase58 k
  | .uint64 n => decimal n.toNat

/-- `toSerializableObject`. -/
def toSerializableObject {E : Env} (B : Base58 E) (components : List (String × EventValue)) :
    Payload :=
  components.map fun c ↦ (c.1, .string (serializeValue B c.2))

/-- The payload of an event. -/
def Event.payload {E : Env} (B : Base58 E) (e : Event) : Payload :=
  toSerializableObject B e.components

theorem serializeValue_ne_empty {E : Env} (B : Base58 E) (v : EventValue) :
    serializeValue B v ≠ "" := by
  cases v with
  | field x => exact fieldText_ne_empty x
  | publicKey k => exact B.toBase58_ne_empty k
  | uint64 n => exact decimal_ne_empty _

end MinaGuard
