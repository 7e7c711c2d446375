import MinaGuard.Contract.Field
import MinaGuard.Foundations.MapCommitment

/-!
# Keys, proposals and hash domains

The provable data types of `MinaGuard.ts`, the constants of `constants.ts`,
and the domain-separated hashes of `hash-domains.ts` and
`proposal-signing.ts`.  Everything that comes from o1js, the Poseidon
sponge, the Merkle map, signature verification and the curve check, is
collected in `Env`.
-/

namespace MinaGuard

open Foundations

def maxOwners : ℕ := 20

def maxReceivers : ℕ := 9

def nativeTokenId : Fp := 1

def proposedMarker : Fp := 1

def executedMarker : Fp := 0 - 1

namespace TxType

def transfer : Fp := 0
def addOwner : Fp := 1
def removeOwner : Fp := 2
def changeThreshold : Fp := 3
def setDelegate : Fp := 4
def createChild : Fp := 5
def allocateChild : Fp := 6
def reclaimChild : Fp := 7
def destroyChild : Fp := 8
def enableChildMultiSig : Fp := 9

end TxType

/-- `Destination.LOCAL`: executes on the guard that stores the proposal. -/
def destinationLocal : Fp := 0

/-- `Destination.REMOTE`: approved on a parent, executed on one child. -/
def destinationRemote : Fp := 1

inductive NetworkDomainName where
  | mainnet
  | testnet
  | devnet
deriving DecidableEq

/-- `NETWORK_DOMAIN_IDS`. -/
def networkDomainId : NetworkDomainName → Fp
  | .mainnet => 1
  | .testnet => 2
  | .devnet => 2

/-- A compressed key: an abscissa and the parity of the ordinate. -/
structure PublicKey where
  x : Fp
  isOdd : Bool
deriving DecidableEq

namespace PublicKey

def empty : PublicKey := ⟨0, false⟩

def toFields (key : PublicKey) : List Fp := [key.x, toField key.isOdd]

theorem toFields_injective : Function.Injective toFields := by
  rintro ⟨x, odd⟩ ⟨x', odd'⟩ h
  simp only [toFields, List.cons.injEq, and_true] at h
  obtain ⟨rfl, hodd⟩ := h
  rw [toField_injective hodd]

end PublicKey

/-- One receiver slot; unused slots hold `Receiver.empty`. -/
structure Receiver where
  address : PublicKey
  amount : UInt64
deriving DecidableEq

namespace Receiver

def empty : Receiver := ⟨PublicKey.empty, 0⟩

def toFields (r : Receiver) : List Fp :=
  r.address.toFields ++ [amountValue r.amount]

theorem toFields_injective : Function.Injective toFields := by
  rintro ⟨address, amount⟩ ⟨address', amount'⟩ h
  obtain ⟨haddress, hamount⟩ := List.append_inj h rfl
  obtain rfl : address = address' := PublicKey.toFields_injective haddress
  obtain rfl : amount = amount' :=
    amountValue_injective (List.singleton_injective hamount)
  rfl

theorem length_toFields (r : Receiver) : r.toFields.length = 3 := rfl

end Receiver

/-- The payload owners sign. -/
structure TransactionProposal where
  receivers : Vector Receiver maxReceivers
  tokenId : Fp
  txType : Fp
  data : Fp
  memoHash : Fp
  nonce : Fp
  configNonce : Fp
  expirySlot : Fp
  guardAddress : PublicKey
  destination : Fp
  childAccount : PublicKey
deriving DecidableEq

/-- `receivers[0]`, where owner changes and delegations find their key. -/
def TransactionProposal.slot0 (p : TransactionProposal) : Receiver := p.receivers[0]

theorem TransactionProposal.slot0_mem (p : TransactionProposal) :
    p.slot0 ∈ p.receivers.toList :=
  Vector.mem_toList_iff.mpr (Vector.getElem_mem _)

/-- `SetupOwnersInput.owners`. -/
abbrev SetupOwnersInput := Vector PublicKey maxOwners

/-- An `Option(PublicKey)`.  The value of an absent key is whatever the prover
chose. -/
structure PublicKeyOption where
  isSome : Bool
  value : PublicKey
deriving DecidableEq

/-- `OwnerWitness.owners`. -/
abbrev OwnerWitness := Vector PublicKeyOption maxOwners

/-! Arrays that hold a list, padding behind it. -/

def padded {α : Type} (n : ℕ) (l : List α) (x : α) : Vector α n :=
  ⟨⟨(l ++ List.replicate n x).take n⟩, by simp⟩

def setupInput (owners : List PublicKey) : SetupOwnersInput :=
  padded maxOwners owners PublicKey.empty

def ownerWitness (owners : List PublicKey) : OwnerWitness :=
  padded maxOwners (owners.map (PublicKeyOption.mk true)) ⟨false, PublicKey.empty⟩

def receiverSlots (receivers : List Receiver) : Vector Receiver maxReceivers :=
  padded maxReceivers receivers Receiver.empty

/-- What the circuits take from o1js and from the build: the sponge, the
Merkle map, signature verification, the curve check behind `toGroup`, and the
network the build is for. -/
structure Env where
  Signature : Type
  MerkleMapWitness : Type
  /-- `Poseidon.hashWithPrefix`. -/
  hashWithPrefix : String → List Fp → Fp
  /-- `MerkleMap.getRoot` and `MerkleMapWitness.computeRootAndKey`. -/
  merkleMap : MapCommitment Fp Fp Fp MerkleMapWitness
  /-- `Signature.verify`. -/
  verify : Signature → PublicKey → List Fp → Bool
  /-- Whether `toGroup` succeeds on the key. -/
  onCurve : PublicKey → Bool
  /-- `Group.generator`, a curve point. -/
  generator : PublicKey
  generator_onCurve : onCurve generator = true
  networkDomainName : NetworkDomainName

/-- A prefix and the field elements absorbed after it. -/
abbrev HashInput := String × List Fp

/-- The two operations an owner signs for. -/
inductive SigningAction where
  | propose
  | approve
deriving DecidableEq

/-- The slots of a receiver array, flattened in order. -/
def receiverFields (receivers : Vector Receiver maxReceivers) : List Fp :=
  receivers.toList.flatMap Receiver.toFields

namespace Env

variable (E : Env)

def networkDomain : Fp := networkDomainId E.networkDomainName

def hash (input : HashInput) : Fp := E.hashWithPrefix input.1 input.2

/-- `EMPTY_MERKLE_MAP_ROOT`. -/
def emptyMerkleMapRoot : Fp := E.merkleMap.getRoot fun _ ↦ 0

/-- `INITIAL_OWNER_CHAIN`. -/
def initialOwnerChain : Fp := E.hash ("owner-chain", [])

/-! The inputs of the domain-separated hashes, and the hashes themselves. -/

def ownerLinkInput (previous : Fp) (owner : PublicKey) : HashInput :=
  ("owner-link", [previous, owner.x, toField owner.isOdd])

def ownerChainLink (previous : Fp) (owner : PublicKey) : Fp :=
  E.hash (ownerLinkInput previous owner)

def voteNullifierInput (proposalHash : Fp) (owner : PublicKey) : HashInput :=
  ("vote-nullifier", proposalHash :: owner.toFields)

def voteNullifierKey (proposalHash : Fp) (owner : PublicKey) : Fp :=
  E.hash (voteNullifierInput proposalHash owner)

def childConfigInput (ownersCommitment threshold numOwners : Fp) : HashInput :=
  ("child-config", [ownersCommitment, threshold, numOwners])

def childConfigHash (ownersCommitment threshold numOwners : Fp) : Fp :=
  E.hash (childConfigInput ownersCommitment threshold numOwners)

/-- The prefix tells proposing and approving apart. -/
def signingPrefix : SigningAction → String
  | .propose => "mina-guard-propose"
  | .approve => "mina-guard-approve"

def proposalSigningMessage (proposalHash : Fp) (action : SigningAction) : Fp :=
  E.hash (signingPrefix action, [proposalHash])

/-- The fields `TransactionProposal.hash` absorbs, in its order. -/
def proposalInput (p : TransactionProposal) : HashInput :=
  ("mina-guard-proposal",
    receiverFields p.receivers ++
      [p.tokenId, p.txType, p.data, p.memoHash, p.nonce, p.configNonce,
        p.expirySlot] ++
      p.guardAddress.toFields ++ [p.destination] ++
      p.childAccount.toFields ++ [E.networkDomain])

/-- `TransactionProposal.hash`. -/
def proposalHash (p : TransactionProposal) : Fp := E.hash (E.proposalInput p)

end Env

theorem length_receiverFields (rs : Vector Receiver maxReceivers) :
    (receiverFields rs).length = 27 := by
  have hlen : ∀ l : List Receiver,
      (l.flatMap Receiver.toFields).length = 3 * l.length := by
    intro l
    induction l with
    | nil => rfl
    | cons r l ih =>
        simp only [List.flatMap_cons, List.length_append, List.length_cons, ih,
          Receiver.length_toFields]
        omega
  have hslots : rs.toList.length = 9 := rs.length_toList
  simp [receiverFields, hlen, hslots]

theorem flatMap_toFields_injective {l l' : List Receiver}
    (h : l.flatMap Receiver.toFields = l'.flatMap Receiver.toFields) : l = l' := by
  induction l generalizing l' with
  | nil =>
      cases l' with
      | nil => rfl
      | cons r l' => simp [Receiver.toFields, PublicKey.toFields] at h
  | cons r l ih =>
      cases l' with
      | nil => simp [Receiver.toFields, PublicKey.toFields] at h
      | cons r' l' =>
          simp only [List.flatMap_cons] at h
          obtain ⟨hhead, htail⟩ := List.append_inj h rfl
          rw [Receiver.toFields_injective hhead, ih htail]

theorem receiverFields_injective : Function.Injective receiverFields := by
  intro rs rs' h
  exact Vector.toList_inj.mp (flatMap_toFields_injective h)

namespace Env

variable {E : Env}

/-- The hash covers every field of the proposal. -/
theorem proposalInput_injective : Function.Injective E.proposalInput := by
  rintro ⟨rs, tok, ty, data, memo, nonce, cfg, exp, guard, dest, child⟩
    ⟨rs', tok', ty', data', memo', nonce', cfg', exp', guard', dest', child'⟩ h
  simp only [proposalInput, Prod.mk.injEq, true_and, List.append_assoc] at h
  obtain ⟨hreceivers, hrest⟩ := List.append_inj h
    (by rw [length_receiverFields, length_receiverFields])
  simp only [PublicKey.toFields, List.cons_append, List.nil_append,
    List.cons.injEq, and_true] at hrest
  obtain ⟨rfl, rfl, rfl, rfl, rfl, rfl, rfl, hgx, hgo, rfl, hcx, hco⟩ := hrest
  obtain rfl := receiverFields_injective hreceivers
  have hguard : guard = guard' :=
    PublicKey.toFields_injective (by simp [PublicKey.toFields, hgx, hgo])
  have hchild : child = child' :=
    PublicKey.toFields_injective (by simp [PublicKey.toFields, hcx, hco])
  rw [hguard, hchild]

theorem voteNullifierInput_injective {h h' : Fp} {k k' : PublicKey}
    (heq : voteNullifierInput h k = voteNullifierInput h' k') : h = h' ∧ k = k' := by
  simp only [voteNullifierInput, Prod.mk.injEq, true_and, List.cons.injEq] at heq
  exact ⟨heq.1, PublicKey.toFields_injective heq.2⟩

theorem ownerLinkInput_injective {d d' : Fp} {k k' : PublicKey}
    (heq : ownerLinkInput d k = ownerLinkInput d' k') : d = d' ∧ k = k' := by
  simp only [ownerLinkInput, Prod.mk.injEq, true_and, List.cons.injEq] at heq
  obtain ⟨hd, hx, hodd, _⟩ := heq
  exact ⟨hd, PublicKey.toFields_injective (by simp [PublicKey.toFields, hx, hodd])⟩

end Env

end MinaGuard
