import MinaGuard.Foundations.StableSort
import MinaGuard.Indexer.Archive

/-!
# From the contract to the indexer

The archive keeps an event as its position among the event names followed by
its field elements, in decimal, and returns the events of a transaction newest
first.  What the indexer decodes are the names and payloads that were emitted,
and before it sorts them they are in the order of emission again.
-/

namespace MinaGuard

open Foundations

namespace EventValue

def kind : EventValue → ValueKind
  | field _ => .field
  | publicKey _ => .publicKey
  | uint64 _ => .uint64

def toFields : EventValue → List Fp
  | field x => [x]
  | publicKey k => k.toFields
  | uint64 n => [amountValue n]

theorem length_toFields (v : EventValue) : v.toFields.length = v.kind.sizeInFields := by
  cases v <;> rfl

end EventValue

theorem serializeValue_injective {E : Env} {B : Base58 E} {v w : EventValue}
    (hkind : v.kind = w.kind) (h : serializeValue B v = serializeValue B w) : v = w := by
  cases v with
  | field x =>
      cases w with
      | field y => rw [fieldText_injective h]
      | publicKey k => cases hkind
      | uint64 n => cases hkind
  | publicKey k =>
      cases w with
      | field y => cases hkind
      | publicKey k' => rw [B.toBase58_injective h]
      | uint64 n => cases hkind
  | uint64 m =>
      cases w with
      | field y => cases hkind
      | publicKey k => cases hkind
      | uint64 n => rw [UInt64.toNat_inj.mp (decimal_injective h)]

theorem toSerializableObject_injective {E : Env} {B : Base58 E}
    {v w : List (String × EventValue)}
    (hshape : v.map (fun c ↦ (c.1, c.2.kind)) = w.map fun c ↦ (c.1, c.2.kind))
    (h : toSerializableObject B v = toSerializableObject B w) : v = w := by
  induction v generalizing w with
  | nil =>
      cases w with
      | nil => rfl
      | cons c w => cases hshape
  | cons c v ih =>
      cases w with
      | nil => cases hshape
      | cons d w =>
          obtain ⟨hhead, htail⟩ := List.cons.inj hshape
          obtain ⟨hname, hkind⟩ := Prod.mk.inj hhead
          obtain ⟨hfirst, hrest⟩ := List.cons.inj h
          have htext : serializeValue B c.2 = serializeValue B d.2 :=
            JsonValue.string.inj (Prod.mk.inj hfirst).2
          rw [ih htail hrest, Prod.ext hname (serializeValue_injective hkind htext)]

namespace Event

def shape (e : Event) : EventShape := e.components.map fun c ↦ (c.1, c.2.kind)

def toFields (e : Event) : List Fp := e.components.flatMap fun c ↦ c.2.toFields

/-- The position of the event among the names in alphabetical order. -/
def typeIndex (e : Event) : ℕ := (minaguardEvents.map Prod.fst).idxOf e.name

/-- The `data` of the event in the archive. -/
def archiveData (e : Event) : ArchiveData :=
  .array (((e.typeIndex : Fp) :: e.toFields).map fun x ↦ .text (fieldText x))

theorem minaguardEvents_typeIndex (e : Event) :
    minaguardEvents[e.typeIndex]? = some (e.name, e.shape) := by
  cases e <;> rfl

theorem typeIndex_lt (e : Event) : e.typeIndex < 15 :=
  (List.getElem?_eq_some_iff.mp e.minaguardEvents_typeIndex).1

theorem length_toFields (e : Event) : e.toFields.length = e.shape.sizeInFields := by
  unfold toFields shape EventShape.sizeInFields
  induction e.components with
  | nil => rfl
  | cons c cs ih =>
      rw [List.flatMap_cons, List.length_append, ih, c.2.length_toFields]
      simp

end Event

/-- Reading the components back from their field elements. -/
theorem EventShape.read_toFields (components : List (String × EventValue)) :
    EventShape.read (components.map fun c ↦ (c.1, c.2.kind))
      (components.flatMap fun c ↦ c.2.toFields) = some components := by
  induction components with
  | nil => rfl
  | cons c components ih =>
      obtain ⟨name, v⟩ := c
      rw [List.map_cons, List.flatMap_cons]
      cases v with
      | field x => exact congrArg (Option.map fun rest ↦ (name, EventValue.field x) :: rest) ih
      | publicKey k =>
          obtain ⟨x, isOdd⟩ := k
          have hbit : toField isOdd = 0 ∨ toField isOdd = 1 := by
            cases isOdd
            · exact Or.inl rfl
            · exact Or.inr rfl
          have hdecode : decide (toField isOdd = 1) = isOdd := by
            cases isOdd <;> rfl
          refine (if_pos hbit).trans ((congrArg (Option.map fun rest ↦
            (name, EventValue.publicKey ⟨x, decide (toField isOdd = 1)⟩) :: rest) ih).trans ?_)
          rw [Option.map_some, hdecode]
      | uint64 n =>
          have hlt : (amountValue n).val < 2 ^ 64 := by
            rw [val_amountValue]
            exact n.toNat_lt
          refine (if_pos hlt).trans ((congrArg (Option.map fun rest ↦
            (name, EventValue.uint64 (UInt64.ofNat (amountValue n).val)) :: rest) ih).trans ?_)
          rw [Option.map_some, val_amountValue, UInt64.ofNat_toNat]

theorem canonicalField_fieldText (x : Fp) : canonicalField (.text (fieldText x)) = some x := by
  unfold canonicalField fieldText
  simp only [ofDecimal_decimal, x.val_lt, if_true]
  rw [ZMod.natCast_zmod_val]

theorem mapM_canonicalField (xs : List Fp) :
    (xs.map fun x ↦ ArchiveValue.text (fieldText x)).mapM canonicalField = some xs := by
  induction xs with
  | nil => rfl
  | cons x xs ih =>
      rw [List.map_cons, List.mapM_cons, canonicalField_fieldText, ih]
      rfl

section Decoding

variable {E : Env} (lib : Backend E)

/-- Decoding gives the name and the payload that were emitted. -/
theorem decodeMinaGuardEvent_archiveData (e : Event) :
    decodeMinaGuardEvent lib e.archiveData = .ok (e.name, e.payload lib.base58) := by
  have hval : ((e.typeIndex : ℕ) : Fp).val = e.typeIndex :=
    val_natCast_of_lt (e.typeIndex_lt.trans (by decide))
  have hindex : nearestDouble ((e.typeIndex : ℕ) : Fp).val = e.typeIndex := by
    rw [hval, nearestDouble_of_le (e.typeIndex_lt.le.trans (by decide))]
  have hread : e.shape.read e.toFields = some e.components := EventShape.read_toFields _
  have hfields := mapM_canonicalField ((e.typeIndex : Fp) :: e.toFields)
  rw [List.map_cons] at hfields
  unfold decodeMinaGuardEvent Event.archiveData
  simp only [List.map_cons, reduceCtorEq, if_false, hfields, hindex,
    e.minaguardEvents_typeIndex, e.length_toFields, hread, ne_eq, not_true_eq_false]
  rfl

end Decoding

/-- A transaction and the events it emitted on one guard, in order. -/
structure ArchivedTransaction where
  info : TransactionInfo
  events : List Event

namespace ArchivedTransaction

/-- The transaction was applied, and its updates were authorized by a proof. -/
structure Proved (t : ArchivedTransaction) : Prop where
  applied : isFromAppliedTransaction t.info.status = true
  proof : t.info.authorizationKind.map String.toLower = some "proof"

/-- The events as the archive returns them, newest first. -/
def eventData (t : ArchivedTransaction) : List (Option ArchiveEvent) :=
  t.events.reverse.map fun e ↦ some ⟨some t.info, e.archiveData⟩

end ArchivedTransaction

structure ArchivedBlock where
  height : ℕ
  stateHash : String
  parentHash : String
  transactions : List ArchivedTransaction

namespace ArchivedBlock

variable (b : ArchivedBlock)

def eventBlock : ArchiveEventBlock where
  height := b.height
  stateHash := b.stateHash
  parentHash := b.parentHash
  eventData := b.transactions.flatMap ArchivedTransaction.eventData

section Decoding

variable {E : Env} (B : Base58 E)

/-- What the indexer makes of an event. -/
def chainEvent (info : TransactionInfo) (e : Event) : ChainEvent where
  type := e.name
  event := .payload (e.payload B)
  blockHeight := b.height
  blockHash := b.stateHash
  parentHash := b.parentHash
  txHash := info.hash
  txMemo := info.memo
  decodeError := none

/-- The events of the block, decoded, in the order of emission. -/
def chainEvents : List ChainEvent :=
  b.transactions.flatMap fun t ↦ t.events.map (b.chainEvent B t.info)

/-- As the archive returns them. -/
def returned : List ChainEvent :=
  b.transactions.flatMap fun t ↦ (t.events.map (b.chainEvent B t.info)).reverse

end Decoding

end ArchivedBlock

section Decoding

variable {E : Env} (lib : Backend E) {address : String}

theorem decodeContractEvent_archiveData {b : ArchivedBlock} {t : ArchivedTransaction}
    (ht : t.Proved) (e : Event) :
    decodeContractEvent lib address b.eventBlock ⟨some t.info, e.archiveData⟩ =
      .ok (some (b.chainEvent lib.base58 t.info e)) := by
  obtain ⟨happlied, hproof⟩ := ht
  unfold decodeContractEvent
  simp only [Option.bind_some, happlied, hproof, not_true_eq_false, if_false, ne_eq,
    decodeMinaGuardEvent_archiveData, false_and]
  rfl

/-- Proof-authorized events are decoded one by one. -/
theorem decodeContractEvents_eventBlock {blocks : List ArchivedBlock}
    (hproved : ∀ b ∈ blocks, ∀ t ∈ b.transactions, t.Proved) :
    decodeContractEvents lib address (blocks.map ArchivedBlock.eventBlock) =
      .ok (blocks.flatMap fun b ↦ b.returned lib.base58) := by
  have hfold (l : List (ArchivedBlock × ArchivedTransaction × Event))
      (hl : ∀ x ∈ l, x.2.1.Proved) (decoded : List ChainEvent) :
      (l.map fun x ↦ (x.1.eventBlock,
        (⟨some x.2.1.info, x.2.2.archiveData⟩ : ArchiveEvent))).foldlM
        (fun decoded x ↦ (decodeContractEvent lib address x.1 x.2).map fun event ↦
          decoded ++ event.toList) decoded =
        .ok (decoded ++ l.map fun x ↦ x.1.chainEvent lib.base58 x.2.1.info x.2.2) := by
    induction l generalizing decoded with
    | nil => rw [List.map_nil, List.map_nil, List.append_nil]; rfl
    | cons x l ih =>
        rw [List.map_cons, List.foldlM_cons,
          decodeContractEvent_archiveData lib (hl x List.mem_cons_self)]
        refine (ih (fun y hy ↦ hl y (List.mem_cons_of_mem x hy)) _).trans ?_
        exact congrArg Except.ok (List.append_assoc decoded [_] _)
  have hmem : ∀ x ∈ blocks.flatMap fun b ↦ b.transactions.flatMap fun t ↦
      t.events.reverse.map fun e ↦ (b, t, e), x.2.1.Proved := by
    intro x hx
    obtain ⟨b, hb, hx⟩ := List.mem_flatMap.mp hx
    obtain ⟨t, ht, hx⟩ := List.mem_flatMap.mp hx
    obtain ⟨e, -, rfl⟩ := List.mem_map.mp hx
    exact hproved b hb t ht
  refine (congrArg (List.foldlM _ []) ?_).trans ((hfold _ hmem []).trans ?_)
  · simp only [ArchivedBlock.eventBlock, ArchivedTransaction.eventData, List.flatMap_map,
      List.map_flatMap, List.map_map, List.filterMap_flatMap, List.filterMap_map]
    simp only [Function.comp_def, Option.map_some, List.filterMap_eq_map']
  · rw [List.nil_append, List.map_flatMap]
    simp only [ArchivedBlock.returned, List.map_flatMap, List.map_map, List.map_reverse,
      Function.comp_def]

end Decoding

/-! ## The order of emission -/

/-- Every transaction has a hash of its own. -/
structure DistinctHashes (blocks : List ArchivedBlock) : Prop where
  isSome : ∀ b ∈ blocks, ∀ t ∈ b.transactions, t.info.hash.isSome
  nodup : (blocks.flatMap fun b ↦ b.transactions.map fun t ↦ t.info.hash).Nodup

theorem DistinctHashes.window {blocks window : List ArchivedBlock}
    (h : DistinctHashes blocks) (hsub : window.Sublist blocks) : DistinctHashes window where
  isSome := fun b hb ↦ h.isSome b (hsub.subset hb)
  nodup := h.nodup.sublist (hsub.flatMap _)

/-- With hashes everywhere, the groups are those of the hashes. -/
theorem reverseEventsWithinEachTx_eq_groupBy {events : List ChainEvent}
    (hhash : ∀ e ∈ events, e.txHash.isSome) :
    reverseEventsWithinEachTx events =
      (InsertionMap.groupBy (fun e : ChainEvent ↦ e.txHash.getD "") events).values.flatMap
        List.reverse := by
  have hfold : ∀ groups : InsertionMap String (List ChainEvent),
      events.foldl (fun groups e ↦
        let key := e.txHash.getD ("__no_tx_" ++ decimal groups.length)
        groups.set key ((groups.get? key).getD [] ++ [e])) groups =
      events.foldl (fun groups e ↦ groups.set (e.txHash.getD "")
        ((groups.get? (e.txHash.getD "")).getD [] ++ [e])) groups := by
    induction events with
    | nil => exact fun _ ↦ rfl
    | cons e events ih =>
        intro groups
        obtain ⟨hash, hsome⟩ := Option.isSome_iff_exists.mp (hhash e List.mem_cons_self)
        rw [List.foldl_cons, List.foldl_cons, hsome]
        exact ih (fun e' he' ↦ hhash e' (List.mem_cons_of_mem e he')) _
  unfold reverseEventsWithinEachTx InsertionMap.groupBy
  rw [hfold]

section Order

variable {E : Env} (B : Base58 E) {blocks : List ArchivedBlock}

/-- The events of each transaction, newest first, are put back in order. -/
theorem reverseEventsWithinEachTx_returned (hhashes : DistinctHashes blocks) :
    reverseEventsWithinEachTx (blocks.flatMap fun b ↦ b.returned B) =
      blocks.flatMap fun b ↦ b.chainEvents B := by
  let groups : List (String × List ChainEvent) := blocks.flatMap fun b ↦
    b.transactions.map fun t ↦ (t.info.hash.getD "", (t.events.map (b.chainEvent B t.info)).reverse)
  have hreturned : (blocks.flatMap fun b ↦ b.returned B) = groups.flatMap Prod.snd := by
    simp only [groups, ArchivedBlock.returned, List.flatMap_assoc, List.flatMap_map]
  have hgroup : ∀ group ∈ groups, ∀ e ∈ group.2,
      e.txHash.isSome ∧ e.txHash.getD "" = group.1 := by
    intro group hgroup e he
    obtain ⟨b, hb, hgroup⟩ := List.mem_flatMap.mp hgroup
    obtain ⟨t, ht, rfl⟩ := List.mem_map.mp hgroup
    obtain ⟨event, -, rfl⟩ := List.mem_map.mp (List.mem_reverse.mp he)
    exact ⟨hhashes.isSome b hb t ht, rfl⟩
  have hnodup : (groups.map Prod.fst).Nodup := by
    have hkeys : groups.map Prod.fst =
        (blocks.flatMap fun b ↦ b.transactions.map fun t ↦ t.info.hash).map
          fun hash ↦ hash.getD "" := by
      simp only [groups, List.map_flatMap, List.map_map, Function.comp_def]
    rw [hkeys]
    refine List.Nodup.map_on ?_ hhashes.nodup
    intro x hx y hy hxy
    obtain ⟨b, hb, hx⟩ := List.mem_flatMap.mp hx
    obtain ⟨t, ht, rfl⟩ := List.mem_map.mp hx
    obtain ⟨b', hb', hy⟩ := List.mem_flatMap.mp hy
    obtain ⟨t', ht', rfl⟩ := List.mem_map.mp hy
    obtain ⟨hash, hhash⟩ := Option.isSome_iff_exists.mp (hhashes.isSome b hb t ht)
    obtain ⟨hash', hhash'⟩ := Option.isSome_iff_exists.mp (hhashes.isSome b' hb' t' ht')
    rw [hhash, hhash'] at hxy ⊢
    exact congrArg some hxy
  have hsome : ∀ e ∈ groups.flatMap Prod.snd, e.txHash.isSome := by
    intro e he
    obtain ⟨group, hmem, he⟩ := List.mem_flatMap.mp he
    exact (hgroup group hmem e he).1
  rw [hreturned, reverseEventsWithinEachTx_eq_groupBy hsome,
    InsertionMap.values_groupBy_flatMap _ hnodup fun group hmem e he ↦ (hgroup group hmem e he).2]
  have hempty : ∀ l : List (List ChainEvent),
      (l.filter (· ≠ [])).flatMap List.reverse = l.flatMap List.reverse := by
    intro l
    induction l with
    | nil => rfl
    | cons group l ih =>
        by_cases hnil : group = []
        · rw [List.filter_cons_of_neg (by simpa using hnil), ih, hnil]
          rfl
        · rw [List.filter_cons_of_pos (by simpa using hnil), List.flatMap_cons,
            List.flatMap_cons, ih]
  rw [hempty]
  simp only [groups, ArchivedBlock.chainEvents, List.map_flatMap, List.map_map,
    List.flatMap_assoc, List.flatMap_map, Function.comp_apply, List.reverse_reverse]

end Order

/-- Height and rank in one number. -/
def applyKey (e : ChainEvent) : ℕ := e.blockHeight * 100 + typeRank e.type

theorem typeRank_lt (type : String) : typeRank type < 100 := by
  have hlookup : ∀ l : List (String × ℕ), (∀ x ∈ l, x.2 < 100) →
      (l.lookup type).getD 99 < 100 := by
    intro l hl
    induction l with
    | nil => exact Nat.lt_succ_self 99
    | cons x l ih =>
        rw [List.lookup_cons]
        cases type == x.1 with
        | true => exact hl x List.mem_cons_self
        | false => exact ih fun y hy ↦ hl y (List.mem_cons_of_mem x hy)
  exact hlookup eventTypeOrder (by decide)

theorem applyLe_iff (a b : ChainEvent × ℕ) :
    applyLe a b = true ↔
      applyKey a.1 < applyKey b.1 ∨ applyKey a.1 = applyKey b.1 ∧ a.2 ≤ b.2 := by
  have ha := typeRank_lt a.1.type
  have hb := typeRank_lt b.1.type
  unfold applyLe applyKey
  split
  · rw [decide_eq_true_iff]
    omega
  · split
    · rw [decide_eq_true_iff]
      omega
    · rw [decide_eq_true_iff]
      omega

theorem orderEventsForApply_eq_buckets {events : List ChainEvent} {n : ℕ}
    (h : ∀ e ∈ events, applyKey e < n) :
    orderEventsForApply events = buckets applyKey n events :=
  mergeSort_zipIdx_eq_buckets applyKey applyLe_iff h

theorem orderEventsForApply_eq_flatMap {events : List ChainEvent} {keys : List ℕ}
    (hkeys : keys.Pairwise fun k k' ↦ k < k') (h : ∀ e ∈ events, applyKey e ∈ keys) :
    orderEventsForApply events = keys.flatMap fun k ↦ events.filter fun e ↦ applyKey e = k := by
  have hn : ∀ k ∈ keys, k < keys.sum + 1 := fun k hk ↦ Nat.lt_succ_of_le (List.le_sum_of_mem hk)
  rw [orderEventsForApply_eq_buckets fun e he ↦ hn _ (h e he)]
  exact buckets_eq_flatMap applyKey hkeys h hn

theorem exists_applyKey_bound (events : List ChainEvent) : ∃ n, ∀ e ∈ events, applyKey e < n := by
  induction events with
  | nil => exact ⟨0, fun _ he ↦ absurd he List.not_mem_nil⟩
  | cons e events ih =>
      obtain ⟨n, hn⟩ := ih
      refine ⟨max (applyKey e + 1) n, fun e' he' ↦ ?_⟩
      rcases List.mem_cons.mp he' with rfl | he'
      · omega
      · have hlt := hn e' he'
        omega

theorem pairwise_orderEventsForApply (events : List ChainEvent) :
    (orderEventsForApply events).Pairwise fun a b ↦ applyKey a ≤ applyKey b := by
  obtain ⟨n, hn⟩ := exists_applyKey_bound events
  rw [orderEventsForApply_eq_buckets hn]
  exact pairwise_le_buckets applyKey

/-- Events that are in order keep their order among each other. -/
theorem filter_orderEventsForApply {events : List ChainEvent} {p : ChainEvent → Bool}
    (hsorted : (events.filter p).Pairwise fun a b ↦ applyKey a ≤ applyKey b) :
    (orderEventsForApply events).filter p = events.filter p := by
  obtain ⟨n, hn⟩ := exists_applyKey_bound events
  rw [orderEventsForApply_eq_buckets hn]
  exact filter_buckets_of_sorted applyKey hsorted hn

end MinaGuard
