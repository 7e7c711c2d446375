import MinaGuard.Foundations.InsertionMap
import MinaGuard.Indexer.Json
import MinaGuard.Indexer.Memo

/-!
# Events from the archive

What the archive API returns, how `mina-client.ts` decodes it, and the order
in which the indexer applies what was decoded.  Both the order and the
decoding keep every event of an applied, proof-authorized update.
-/

namespace MinaGuard

open Foundations

/-- An entry of an event's `data`: a string, or some other JSON text. -/
inductive ArchiveValue where
  | text (value : String)
  | other (json : String)
deriving DecidableEq

/-- The text `String` gives for an entry. -/
def ArchiveValue.spelling : ArchiveValue → String
  | text value => value
  | other json => json

/-- An event's `data`: an array, or some other JSON text. -/
inductive ArchiveData where
  | array (values : List ArchiveValue)
  | other (json : String)
deriving DecidableEq

structure TransactionInfo where
  hash : Option String
  memo : Option String
  status : Option String
  authorizationKind : Option String
deriving DecidableEq

structure ArchiveEvent where
  transactionInfo : Option TransactionInfo
  data : ArchiveData
deriving DecidableEq

/-- One block of a vault's events. -/
structure ArchiveEventBlock where
  height : ℕ
  stateHash : String
  parentHash : String
  eventData : List (Option ArchiveEvent)
deriving DecidableEq

/-- The `event` object of a chain event; a malformed event keeps its data. -/
inductive EventBody where
  | payload (fields : Payload)
  | malformed (data : ArchiveData)
deriving DecidableEq

/-- A decoded event as the indexer consumes it. -/
structure ChainEvent where
  type : String
  event : EventBody
  blockHeight : ℕ
  blockHash : String
  parentHash : String
  txHash : Option String
  txMemo : Option String
  /-- Set when a proof-authorized event could not be decoded. -/
  decodeError : Option String
deriving DecidableEq

/-- The provable type of an event component. -/
inductive ValueKind where
  | field
  | publicKey
  | uint64
deriving DecidableEq

namespace ValueKind

def sizeInFields : ValueKind → ℕ
  | field => 1
  | publicKey => 2
  | uint64 => 1

end ValueKind

/-- The components of an event type under their names, in declared order. -/
abbrev EventShape := List (String × ValueKind)

/-- `MINAGUARD_EVENTS`, sorted by name as `MINAGUARD_EVENT_NAMES` is. -/
def minaguardEvents : List (String × EventShape) :=
  [("approval", [("proposalHash", .field), ("approver", .publicKey),
      ("approvalCount", .field), ("approvalRoot", .field), ("voteNullifierRoot", .field)]),
    ("createChild", [("proposalHash", .field), ("parentAddress", .publicKey)]),
    ("createChildConfig", [("proposalHash", .field), ("childAccount", .publicKey),
      ("ownersCommitment", .field), ("threshold", .field), ("numOwners", .field)]),
    ("createChildOwner", [("proposalHash", .field), ("owner", .publicKey),
      ("index", .field)]),
    ("delegate", [("proposalHash", .field), ("delegate", .publicKey)]),
    ("deployed", [("guardAddress", .publicKey)]),
    ("enableChildMultiSig", [("proposalHash", .field), ("parentAddress", .publicKey),
      ("enabled", .field), ("configNonce", .field)]),
    ("execution", [("proposalHash", .field), ("txType", .field), ("root", .field)]),
    ("ownerChange", [("proposalHash", .field), ("owner", .publicKey), ("added", .field),
      ("newNumOwners", .field), ("newOwnersCommitment", .field), ("configNonce", .field)]),
    ("proposal", [("proposalHash", .field), ("proposer", .publicKey), ("tokenId", .field),
      ("txType", .field), ("data", .field), ("memoHash", .field), ("nonce", .field),
      ("configNonce", .field), ("expirySlot", .field), ("guardAddress", .publicKey),
      ("destination", .field), ("childAccount", .publicKey)]),
    ("receiver", [("proposalHash", .field), ("receiver", .publicKey),
      ("amount", .uint64)]),
    ("reclaimChild", [("proposalHash", .field), ("parentAddress", .publicKey),
      ("amount", .uint64)]),
    ("setup", [("ownersCommitment", .field), ("threshold", .field),
      ("numOwners", .field), ("parent", .publicKey)]),
    ("setupOwner", [("owner", .publicKey), ("index", .field)]),
    ("thresholdChange", [("proposalHash", .field), ("oldThreshold", .field),
      ("newThreshold", .field), ("configNonce", .field)])]

namespace EventShape

def sizeInFields (shape : EventShape) : ℕ := (shape.map fun c ↦ c.2.sizeInFields).sum

/-- `fromFields` and `check`: the components, unless one fails its check. -/
def read : EventShape → List Fp → Option (List (String × EventValue))
  | [], [] => some []
  | (name, .field) :: shape, x :: fields =>
      (read shape fields).map fun rest ↦ (name, .field x) :: rest
  | (name, .publicKey) :: shape, x :: isOdd :: fields =>
      if isOdd = 0 ∨ isOdd = 1 then
        (read shape fields).map fun rest ↦ (name, .publicKey ⟨x, isOdd = 1⟩) :: rest
      else none
  | (name, .uint64) :: shape, x :: fields =>
      if x.val < 2 ^ 64 then
        (read shape fields).map fun rest ↦ (name, .uint64 (UInt64.ofNat x.val)) :: rest
      else none
  | _, _ => none

end EventShape

/-- A string that spells a canonical field element. -/
def canonicalField : ArchiveValue → Option Fp
  | .text value =>
      match ofDecimal value with
      | some n => if n < fieldOrder then some (n : Fp) else none
      | none => none
  | .other _ => none

section Decoding

variable {E : Env} (lib : Backend E)

/-- The type and the payload of an event's raw fields, or what is wrong. -/
def decodeMinaGuardEvent (data : ArchiveData) : Except String (String × Payload) :=
  match data with
  | .other _ => .error "no event data"
  | .array values =>
      if values = [] then .error "no event data"
      else
        match values.mapM canonicalField with
        | none => .error "event data is not a list of field elements"
        | some [] => .error "no event data"
        | some (first :: fields) =>
            match minaguardEvents[nearestDouble first.val]? with
            | none =>
                .error ("unknown event type index " ++
                  (values.head?.map ArchiveValue.spelling).getD "")
            | some (type, shape) =>
                if fields.length ≠ shape.sizeInFields then
                  .error (type ++ " expects " ++ decimal shape.sizeInFields ++
                    " fields, got " ++ decimal fields.length)
                else
                  match shape.read fields with
                  | none => .error (type ++ " does not decode: " ++ lib.checkError type)
                  | some components => .ok (type, toSerializableObject lib.base58 components)

/-- False for events of a transaction the chain reports as failed. -/
def isFromAppliedTransaction (status : Option String) : Bool :=
  match status with
  | some text => text.toLower ≠ "failed"
  | none => true

/-- `decodeContractEvents` on one event: nothing where it is skipped. -/
def decodeContractEvent (address : String) (block : ArchiveEventBlock) (raw : ArchiveEvent) :
    Except String (Option ChainEvent) :=
  let txInfo := raw.transactionInfo
  if ¬isFromAppliedTransaction (txInfo.bind TransactionInfo.status) then .ok none
  else
    let hash := txInfo.bind TransactionInfo.hash
    let kind := txInfo.bind TransactionInfo.authorizationKind
    let normalized := kind.map String.toLower
    if normalized ≠ some "proof" ∧ normalized ≠ some "signature" ∧
        normalized ≠ some "none_given" then
      .error ("Archive event on " ++ address ++ " at block " ++ decimal block.height ++
        " (tx " ++ hash.getD "?" ++ ") has no recognized authorization kind (" ++
        kind.getD "undefined" ++ "); refusing to index it")
    else if normalized ≠ some "proof" then .ok none
    else
      let decoded (type : String) (event : EventBody) (decodeError : Option String) :
          ChainEvent :=
        { type, event, decodeError, blockHeight := block.height,
          blockHash := block.stateHash, parentHash := block.parentHash, txHash := hash,
          txMemo := txInfo.bind TransactionInfo.memo }
      match decodeMinaGuardEvent lib raw.data with
      | .error message => .ok (some (decoded "malformed" (.malformed raw.data) (some message)))
      | .ok (type, payload) => .ok (some (decoded type (.payload payload) none))

/-- The proof-authorized events of applied transactions, decoded. -/
def decodeContractEvents (address : String) (blocks : List ArchiveEventBlock) :
    Except String (List ChainEvent) :=
  (blocks.flatMap fun block ↦ block.eventData.filterMap fun raw ↦
      raw.map fun raw ↦ (block, raw)).foldlM
    (fun decoded x ↦ (decodeContractEvent lib address x.1 x.2).map fun event ↦
      decoded ++ event.toList) []

end Decoding

/-- Restores the order of emission inside each transaction; an event without a
hash is a group of its own. -/
def reverseEventsWithinEachTx (events : List ChainEvent) : List ChainEvent :=
  let groups : InsertionMap String (List ChainEvent) := events.foldl
    (fun groups e ↦
      let key := e.txHash.getD ("__no_tx_" ++ decimal groups.length)
      groups.set key ((groups.get? key).getD [] ++ [e])) []
  groups.values.flatMap List.reverse

/-- `EVENT_TYPE_ORDER`: the order of application within one block. -/
def eventTypeOrder : List (String × ℕ) :=
  [("deployed", 0), ("setup", 1), ("setupOwner", 2), ("proposal", 3), ("approval", 4),
    ("receiver", 5), ("execution", 6), ("ownerChange", 7), ("thresholdChange", 8),
    ("delegate", 9), ("createChild", 10), ("reclaimChild", 11),
    ("enableChildMultiSig", 12), ("createChildConfig", 13), ("createChildOwner", 14)]

/-- `EVENT_TYPE_ORDER[type] ?? 99`. -/
def typeRank (type : String) : ℕ := (eventTypeOrder.lookup type).getD 99

/-- The comparison of `orderEventsForApply`: height, rank, place in the input. -/
def applyLe (a b : ChainEvent × ℕ) : Bool :=
  if a.1.blockHeight ≠ b.1.blockHeight then a.1.blockHeight ≤ b.1.blockHeight
  else if typeRank a.1.type ≠ typeRank b.1.type then typeRank a.1.type ≤ typeRank b.1.type
  else a.2 ≤ b.2

def orderEventsForApply (events : List ChainEvent) : List ChainEvent :=
  (events.zipIdx.mergeSort applyLe).map Prod.fst

/-- The text of an `event` object. -/
def EventBody.stringify : EventBody → String
  | .payload fields => fields.stringify
  | .malformed data =>
      String.ofList ('{' :: Json.quoted "data".toList ++ ':' :: (match data with
        | .other json => json.toList
        | .array values => '[' :: ((values.map fun v ↦ match v with
            | .text value => Json.quoted value.toList
            | .other json => json.toList).intersperse [',']).flatten ++ [']']) ++ ['}'])

/-- `fingerprintEvent`: the key under which an event is recorded. -/
def fingerprintEvent (address : String) (chainEvent : ChainEvent) : String :=
  "::".intercalate [address, chainEvent.type, decimal chainEvent.blockHeight,
    chainEvent.txHash.getD "no-hash", chainEvent.event.stringify]

section Decoding

variable {E : Env} {lib : Backend E} {address : String}

theorem decodeContractEvent_blockHeight {block : ArchiveEventBlock} {raw : ArchiveEvent}
    {e : ChainEvent} (h : decodeContractEvent lib address block raw = .ok (some e)) :
    e.blockHeight = block.height := by
  unfold decodeContractEvent at h
  dsimp only at h
  split at h
  · cases h
  · split at h
    · cases h
    · split at h
      · cases h
      · split at h
        · cases h
          rfl
        · cases h
          rfl

/-- Every decoded event is the decoding of one the archive returned. -/
theorem mem_decodeContractEvents {blocks : List ArchiveEventBlock} {events : List ChainEvent}
    (h : decodeContractEvents lib address blocks = .ok events) {e : ChainEvent}
    (he : e ∈ events) :
    ∃ block ∈ blocks, ∃ raw, some raw ∈ block.eventData ∧
      decodeContractEvent lib address block raw = .ok (some e) := by
  have hfold : ∀ (l : List (ArchiveEventBlock × ArchiveEvent)) (decoded : List ChainEvent),
      l.foldlM (fun decoded x ↦ (decodeContractEvent lib address x.1 x.2).map fun event ↦
        decoded ++ event.toList) decoded = .ok events →
      e ∈ decoded ∨ ∃ x ∈ l, decodeContractEvent lib address x.1 x.2 = .ok (some e) := by
    intro l
    induction l with
    | nil =>
        intro decoded h
        cases h
        exact Or.inl he
    | cons x l ih =>
        intro decoded h
        rw [List.foldlM_cons] at h
        cases hx : decodeContractEvent lib address x.1 x.2 with
        | error message =>
            rw [hx] at h
            cases h
        | ok event =>
            rw [hx] at h
            rcases ih _ h with hmem | ⟨y, hy, hdecode⟩
            · rcases List.mem_append.mp hmem with hmem | hmem
              · exact Or.inl hmem
              · obtain rfl := Option.mem_toList.mp hmem
                exact Or.inr ⟨x, List.mem_cons_self, hx⟩
            · exact Or.inr ⟨y, List.mem_cons_of_mem x hy, hdecode⟩
  rcases hfold _ _ h with hnil | ⟨x, hx, hdecode⟩
  · exact absurd hnil List.not_mem_nil
  · obtain ⟨block, hblock, hx⟩ := List.mem_flatMap.mp hx
    obtain ⟨entry, hentry, hraw⟩ := List.mem_filterMap.mp hx
    cases entry with
    | none => cases hraw
    | some raw =>
        cases hraw
        exact ⟨block, hblock, raw, hentry, hdecode⟩

end Decoding

theorem orderEventsForApply_perm (events : List ChainEvent) :
    (orderEventsForApply events).Perm events := by
  have hperm := (List.mergeSort_perm events.zipIdx applyLe).map Prod.fst
  rwa [List.zipIdx_map_fst] at hperm

theorem mem_orderEventsForApply {events : List ChainEvent} {e : ChainEvent} :
    e ∈ orderEventsForApply events ↔ e ∈ events :=
  (orderEventsForApply_perm events).mem_iff

theorem reverseEventsWithinEachTx_perm (events : List ChainEvent) :
    (reverseEventsWithinEachTx events).Perm events := by
  have hfold : ∀ groups : InsertionMap String (List ChainEvent),
      ((events.foldl (fun groups e ↦
        let key := e.txHash.getD ("__no_tx_" ++ decimal groups.length)
        groups.set key ((groups.get? key).getD [] ++ [e])) groups).values.flatten).Perm
          (groups.values.flatten ++ events) := by
    induction events with
    | nil =>
        intro groups
        rw [List.append_nil]
        exact List.Perm.refl _
    | cons e events ih =>
        intro groups
        refine (ih _).trans ?_
        have hset := InsertionMap.flatten_values_set_perm groups
          (e.txHash.getD ("__no_tx_" ++ decimal groups.length)) e
        refine (hset.append_right events).trans ?_
        rw [List.append_assoc, List.singleton_append]
  have hreverse : ∀ l : List (List ChainEvent), (l.flatMap List.reverse).Perm l.flatten := by
    intro l
    induction l with
    | nil => exact List.Perm.refl _
    | cons group l ih =>
        rw [List.flatMap_cons, List.flatten_cons]
        exact group.reverse_perm.append ih
  exact (hreverse _).trans (hfold [])

theorem mem_reverseEventsWithinEachTx {events : List ChainEvent} {e : ChainEvent} :
    e ∈ reverseEventsWithinEachTx events ↔ e ∈ events :=
  (reverseEventsWithinEachTx_perm events).mem_iff

end MinaGuard
