import MinaGuard.Clients.EventRebuild
import MinaGuard.Vault.Blocks

/-!
# The rebuilt maps

What `rebuildStores` makes of the approval and nullifier maps depends only on
which events it is given.  Along a run these are the committed maps, block by
block, so every checkpoint agrees.
-/

namespace MinaGuard

open Foundations

variable {E : Env} (B : Base58 E)

/-- An event of the chain as the backend serves it. -/
def indexed (x : ℕ × Event) : IndexedEvent where
  eventType := x.2.name
  payload := x.2.payload B
  blockHeight := some x.1

theorem lookup_toSerializableObject (components : List (String × EventValue)) (key : String) :
    (toSerializableObject B components).lookup key =
      (components.lookup key).map fun v ↦ .string (serializeValue B v) := by
  induction components with
  | nil => rfl
  | cons c components ih =>
      unfold toSerializableObject at ih ⊢
      rw [List.map_cons, List.lookup_cons, List.lookup_cons]
      split
      · rfl
      · exact ih

namespace Event

variable (e : Event)

theorem field_payload (key : String) :
    (e.payload B).field key = (e.components.lookup key).map (serializeValue B) := by
  unfold Payload.field payload
  rw [lookup_toSerializableObject]
  cases e.components.lookup key with
  | none => rfl
  | some v => exact if_neg (serializeValue_ne_empty B v)

theorem publicKey_payload {e : Event} {key : String} {k : PublicKey}
    (h : e.components.lookup key = some (.publicKey k)) :
    (e.payload B).publicKey B key = if E.onCurve k then some k else none := by
  unfold Payload.publicKey
  rw [field_payload, h]
  change (if (B.toBase58 k).length ≤ 10 then none else B.fromBase58 (B.toBase58 k)) = _
  rw [if_neg (not_le.mpr (B.length_toBase58 k)), B.fromBase58_toBase58]

end Event

theorem mem_remoteExecutionTypes (txType : Fp) :
    fieldText txType ∈ TxType.remoteExecutionTypes ↔ isRemoteExecutionType txType := by
  simp [TxType.remoteExecutionTypes, isRemoteExecutionType, fieldText_injective.eq_iff]

theorem mem_childExecutionMarkingTypes (txType : Fp) :
    fieldText txType ∈ TxType.childExecutionMarkingTypes ↔ isChildMarkingType txType := by
  simp [TxType.childExecutionMarkingTypes, isChildMarkingType, fieldText_injective.eq_iff]

theorem isLocalExecution_execution (height : ℕ) (h txType root : Fp) :
    isLocalExecution (indexed B (height, .execution h txType root)) = true ↔
      ¬isRemoteExecutionType txType := by
  have hfield : ((Event.execution h txType root).payload B).field "txType" =
      some (fieldText txType) := by
    rw [Event.field_payload]
    rfl
  unfold isLocalExecution indexed
  simp only [hfield, Option.getD_some, mem_remoteExecutionTypes]
  simp [isExecution, Event.name]

variable (E) in
/-- What an event does to the stores. -/
def record (stores : ApprovalStore × VoteNullifierStore) (e : Event) :
    ApprovalStore × VoteNullifierStore :=
  (match e.leaf? with
    | none => stores.1
    | some (h, c) => stores.1.raiseTo h c,
    match e.vote? with
    | none => stores.2
    | some (h, k) => if E.onCurve k then stores.2.nullify E h k else stores.2)

variable (stores : ApprovalStore × VoteNullifierStore)

/-- Events of the other kinds leave the stores alone. -/
theorem applyMapEvent_unhashed {e : IndexedEvent}
    (hhash : e.payload.field "proposalHash" = none) : applyMapEvent B stores e = .ok stores := by
  unfold applyMapEvent
  rw [hhash]
  rfl

theorem applyMapEvent_other {e : IndexedEvent} {h : Fp}
    (hhash : e.payload.field "proposalHash" = some (fieldText h))
    (hvote : ¬(e.eventType = "proposal" ∨ e.eventType = "approval"))
    (hexecution : isLocalExecution e = false) :
    applyMapEvent B stores e = .ok stores := by
  unfold applyMapEvent
  simp only [hhash, parseField_fieldText]
  change (if _ then _ else _) = _
  rw [if_neg hvote, hexecution]
  rfl

/-- A vote raises the leaf and nullifies the voter, if the key decodes. -/
theorem applyMapEvent_vote {e : IndexedEvent} {h count : Fp} {k : PublicKey}
    (hhash : e.payload.field "proposalHash" = some (fieldText h))
    (hvote : e.eventType = "proposal" ∨ e.eventType = "approval")
    (hcount : (if e.eventType = "proposal" then pure (proposedMarker + 1)
      else parseField ((e.payload.field "approvalCount").getD "0")) = Except.ok count)
    (hvoter : e.payload.publicKey B
      (if e.eventType = "proposal" then "proposer" else "approver") =
        if E.onCurve k then some k else none) :
    applyMapEvent B stores e = .ok (stores.1.raiseTo h count,
      if E.onCurve k then stores.2.nullify E h k else stores.2) := by
  unfold applyMapEvent
  simp only [hhash, parseField_fieldText]
  change (if _ then _ else _) = _
  rw [if_pos hvote]
  by_cases hkind : e.eventType = "proposal"
  · simp only [if_pos hkind] at hcount hvoter ⊢
    cases hcount
    rw [pure_bind, hvoter]
    cases E.onCurve k <;> rfl
  · simp only [if_neg hkind] at hcount hvoter ⊢
    rw [hcount, hvoter]
    cases E.onCurve k <;> rfl

theorem applyMapEvent_localExecution {e : IndexedEvent} {h : Fp}
    (hhash : e.payload.field "proposalHash" = some (fieldText h))
    (hvote : ¬(e.eventType = "proposal" ∨ e.eventType = "approval"))
    (hexecution : isLocalExecution e = true) :
    applyMapEvent B stores e = .ok (stores.1.raiseTo h executedMarker, stores.2) := by
  unfold applyMapEvent
  simp only [hhash, parseField_fieldText]
  change (if _ then _ else _) = _
  rw [if_neg hvote, if_pos hexecution]
  rfl

theorem applyMapEvent_indexed (x : ℕ × Event) :
    applyMapEvent B stores (indexed B x) = .ok (record E stores x.2) := by
  obtain ⟨height, e⟩ := x
  have hother (h : Fp) (hkind : (indexed B (height, e)).payload.field "proposalHash" =
      some (fieldText h)) (hvote : ¬(e.name = "proposal" ∨ e.name = "approval"))
      (hexecution : ¬(e.name = "execution" ∨ e.name = "executionBatch")) :
      applyMapEvent B stores (indexed B (height, e)) = .ok stores :=
    applyMapEvent_other B stores hkind hvote
      (by simp [isLocalExecution, isExecution, indexed, not_or.mp hexecution])
  cases e with
  | setup | setupOwner =>
      exact applyMapEvent_unhashed B stores (Event.field_payload B _ _)
  | proposal h k =>
      exact applyMapEvent_vote B stores (Event.field_payload B _ _) (Or.inl rfl) rfl
        (Event.publicKey_payload B rfl)
  | approval h k count approvalRoot voteRoot =>
      refine applyMapEvent_vote B stores (Event.field_payload B _ _) (Or.inr rfl) ?_
        (Event.publicKey_payload B rfl)
      have hfield : (indexed B (height, .approval h k count approvalRoot voteRoot)).payload.field
        "approvalCount" = some (fieldText count) := Event.field_payload B _ _
      change parseField (Option.getD _ "0") = _
      rw [hfield]
      exact parseField_fieldText count
  | execution h txType root =>
      have hvote : ¬("execution" = "proposal" ∨ "execution" = "approval") := by decide
      have hhash : (indexed B (height, .execution h txType root)).payload.field
        "proposalHash" = some (fieldText h) := Event.field_payload B _ _
      by_cases htype : isRemoteExecutionType txType
      · have hexecution : isLocalExecution (indexed B (height, .execution h txType root)) =
            false := by
          rw [Bool.eq_false_iff, ne_eq, isLocalExecution_execution]
          exact not_not.mpr htype
        rw [applyMapEvent_other B stores hhash hvote hexecution]
        simp [record, Event.leaf?, Event.vote?, htype]
      · rw [applyMapEvent_localExecution B stores hhash hvote
          ((isLocalExecution_execution B _ _ _ _).mpr htype)]
        simp [record, Event.leaf?, Event.vote?, htype]
  | receiver h | ownerChange h | thresholdChange h | delegate h | createChild h | reclaimChild h
  | enableChildMultiSig h | createChildConfig h | createChildOwner h =>
      exact hother h (Event.field_payload B _ _) (by simp [Event.name]) (by simp [Event.name])

namespace ApprovalStore

variable (store : ApprovalStore) (h value h' : Fp)

theorem map_setCount :
    (store.setCount h value).map = Function.update store.map h value := rfl

theorem raiseTo_map_eq : (store.raiseTo h value).map h' = store.map h' ∨
    h' = h ∧ (store.raiseTo h value).map h' = value := by
  unfold raiseTo
  split
  · rw [map_setCount]
    by_cases hh : h' = h
    · subst hh
      exact Or.inr ⟨rfl, Function.update_self h' value store.map⟩
    · exact Or.inl (Function.update_of_ne hh value store.map)
  · exact Or.inl rfl

theorem le_raiseTo : (store.map h').val ≤ ((store.raiseTo h value).map h').val := by
  unfold raiseTo
  split
  · next hlt =>
      rw [map_setCount]
      by_cases hh : h' = h
      · subst hh
        rw [Function.update_self]
        exact hlt.le
      · rw [Function.update_of_ne hh]
  · exact le_rfl

theorem value_le_raiseTo : value.val ≤ ((store.raiseTo h value).map h).val := by
  unfold raiseTo
  split
  · rw [map_setCount, Function.update_self]
  · next hle => exact not_lt.mp hle

end ApprovalStore

/-- The store holds exactly the keys of a set. -/
structure VoteNullifierStore.Holds (store : VoteNullifierStore) (S : Set Fp) : Prop where
  marked : ∀ κ ∈ S, store.map κ = 1
  unmarked : ∀ κ ∉ S, store.map κ = 0
  keys : ∀ κ, fieldText κ ∈ store.keys ↔ κ ∈ S

theorem VoteNullifierStore.Holds.nullify {store : VoteNullifierStore} {S : Set Fp}
    (hstore : store.Holds S) (h : Fp) (k : PublicKey) :
    (store.nullify E h k).Holds (insert (E.voteNullifierKey h k) S) := by
  unfold VoteNullifierStore.nullify
  dsimp only
  split
  · next hold =>
      rwa [Set.insert_eq_of_mem ((hstore.keys _).mp hold)]
  · refine ⟨?_, ?_, ?_⟩
    · rintro κ (rfl | hκ)
      · exact Function.update_self ..
      · by_cases hne : κ = E.voteNullifierKey h k
        · subst hne
          exact Function.update_self ..
        · exact (Function.update_of_ne hne ..).trans (hstore.marked κ hκ)
    · intro κ hκ
      obtain ⟨hne, hold⟩ := not_or.mp hκ
      exact (Function.update_of_ne hne ..).trans (hstore.unmarked κ hold)
    · intro κ
      simp only [List.mem_append, List.mem_singleton, hstore.keys, fieldText_injective.eq_iff,
        Set.mem_insert_iff, or_comm]

/-- The nullifier keys of the votes the events report. -/
def nullifiers (E : Env) (events : List Event) : Set Fp :=
  {κ | ∃ e ∈ events, ∃ h k, e.vote? = some (h, k) ∧ E.onCurve k = true ∧
    E.voteNullifierKey h k = κ}

theorem nullifiers_concat_none {events : List Event} {e : Event} (hnone : e.vote? = none) :
    nullifiers E (events ++ [e]) = nullifiers E events := by
  ext κ
  simp [nullifiers, or_and_right, exists_or, hnone]

theorem nullifiers_concat_some {events : List Event} {e : Event} {h : Fp} {k : PublicKey}
    (hvote : e.vote? = some (h, k)) :
    nullifiers E (events ++ [e]) =
      if E.onCurve k then insert (E.voteNullifierKey h k) (nullifiers E events)
      else nullifiers E events := by
  ext κ
  cases hcurve : E.onCurve k with
  | false => simp [nullifiers, or_and_right, exists_or, hvote, hcurve]
  | true =>
      simp only [nullifiers, List.mem_append, List.mem_singleton, or_and_right, exists_or,
        exists_eq_left, hvote, Option.some.injEq, Prod.mk.injEq, Set.mem_ofPred_eq, if_true,
        Set.mem_insert_iff]
      constructor
      · rintro (hold | ⟨_, _, ⟨rfl, rfl⟩, -, rfl⟩)
        · exact Or.inr hold
        · exact Or.inl rfl
      · rintro (rfl | hold)
        · exact Or.inr ⟨h, k, ⟨rfl, rfl⟩, hcurve, rfl⟩
        · exact Or.inl hold

/-- The stores hold what the events tell, each leaf its largest value. -/
structure Shows (E : Env) (events : List Event)
    (stores : ApprovalStore × VoteNullifierStore) : Prop where
  leaf_le : ∀ e ∈ events, ∀ h c, e.leaf? = some (h, c) → c.val ≤ (stores.1.map h).val
  leaf_mem : ∀ h, stores.1.map h = 0 ∨ ∃ e ∈ events, e.leaf? = some (h, stores.1.map h)
  votes : stores.2.Holds (nullifiers E events)

namespace Shows

variable {stores} {events : List Event}

theorem start : Shows E [] (.empty, .empty) where
  leaf_le := fun _ he ↦ absurd he List.not_mem_nil
  leaf_mem := fun _ ↦ Or.inl rfl
  votes :=
    { marked := fun _ ⟨_, he, _⟩ ↦ absurd he List.not_mem_nil
      unmarked := fun _ _ ↦ rfl
      keys := fun _ ↦ iff_of_false List.not_mem_nil fun ⟨_, he, _⟩ ↦ absurd he List.not_mem_nil }

theorem record_leaf (h : Shows E events stores) (e : Event) :
    (∀ e' ∈ events ++ [e], ∀ h c, e'.leaf? = some (h, c) →
      c.val ≤ ((record E stores e).1.map h).val) ∧
      ∀ h, (record E stores e).1.map h = 0 ∨
        ∃ e' ∈ events ++ [e], e'.leaf? = some (h, (record E stores e).1.map h) := by
  have hold (h' : Fp) (heq : (record E stores e).1.map h' = stores.1.map h') :
      (record E stores e).1.map h' = 0 ∨
        ∃ e' ∈ events ++ [e], e'.leaf? = some (h', (record E stores e).1.map h') := by
    rw [heq]
    refine (h.leaf_mem h').imp_right ?_
    rintro ⟨e', he', hleaf⟩
    exact ⟨e', List.mem_append_left _ he', hleaf⟩
  cases hleaf : e.leaf? with
  | none =>
      have hsame : (record E stores e).1 = stores.1 := by simp [record, hleaf]
      refine ⟨?_, fun h' ↦ hold h' (by rw [hsame])⟩
      rw [hsame]
      refine List.forall_mem_append.mpr ⟨h.leaf_le, List.forall_mem_singleton.mpr ?_⟩
      intro h' c hc
      cases hleaf.symm.trans hc
  | some x =>
      have hraise : (record E stores e).1 = stores.1.raiseTo x.1 x.2 := by simp [record, hleaf]
      refine ⟨?_, ?_⟩
      · rw [hraise]
        refine List.forall_mem_append.mpr ⟨?_, List.forall_mem_singleton.mpr ?_⟩
        · intro e' he' h' c hc
          exact (h.leaf_le e' he' h' c hc).trans (stores.1.le_raiseTo _ _ _)
        · intro h' c hc
          cases hleaf.symm.trans hc
          exact stores.1.value_le_raiseTo h' c
      · intro h'
        rcases stores.1.raiseTo_map_eq x.1 x.2 h' with heq | ⟨rfl, heq⟩
        · exact hold h' (by rw [hraise, heq])
        · refine Or.inr ⟨e, List.mem_append_right _ (List.mem_singleton_self e), ?_⟩
          rw [hraise, heq, hleaf]

theorem record_votes (h : Shows E events stores) (e : Event) :
    (record E stores e).2.Holds (nullifiers E (events ++ [e])) := by
  cases hvote : e.vote? with
  | none =>
      have hsame : (record E stores e).2 = stores.2 := by simp [record, hvote]
      rw [nullifiers_concat_none hvote, hsame]
      exact h.votes
  | some x =>
      rw [nullifiers_concat_some hvote]
      cases hcurve : E.onCurve x.2 with
      | false =>
          have hsame : (record E stores e).2 = stores.2 := by simp [record, hvote, hcurve]
          rw [hsame]
          exact h.votes
      | true =>
          have hnext : (record E stores e).2 = stores.2.nullify E x.1 x.2 := by
            simp [record, hvote, hcurve]
          rw [hnext]
          exact h.votes.nullify x.1 x.2

theorem record (h : Shows E events stores) (e : Event) :
    Shows E (events ++ [e]) (MinaGuard.record E stores e) where
  leaf_le := (h.record_leaf e).1
  leaf_mem := (h.record_leaf e).2
  votes := h.record_votes e

theorem foldl_record (h : Shows E events stores) (more : List Event) :
    Shows E (events ++ more) (more.foldl (MinaGuard.record E) stores) := by
  induction more generalizing events stores with
  | nil => simpa using h
  | cons e more ih =>
      rw [List.foldl_cons, List.append_cons]
      exact ih (h.record e)

/-- The maps that the events of a guard describe. -/
theorem maps_eq (h : Shows E events stores) {told : List Event} {v : Vault}
    (hv : Vault.Mirrored E told v) (hsame : ∀ e, e ∈ events ↔ e ∈ told) :
    stores.1.map = v.approvalMap E ∧ stores.2.map = v.nullifierMap E := by
  constructor
  · funext hash
    apply ZMod.val_injective
    apply le_antisymm
    · rcases h.leaf_mem hash with hzero | ⟨e, he, hleaf⟩
      · rw [hzero]
        exact (congrArg (· ≤ _) val_zero).mpr (Nat.zero_le _)
      · exact hv.leaf_le e ((hsame e).mp he) hash _ hleaf
    · rcases hv.leaf_mem hash with hzero | ⟨e, he, hleaf⟩
      · rw [hzero]
        exact (congrArg (· ≤ _) val_zero).mpr (Nat.zero_le _)
      · exact h.leaf_le e ((hsame e).mpr he) hash _ hleaf
  · have hnullifiers (κ : Fp) : κ ∈ nullifiers E events ↔
        ∃ x ∈ v.votes, E.voteNullifierKey (E.proposalHash x.1) x.2 = κ := by
      constructor
      · rintro ⟨e, he, hash, k, hvote, -, rfl⟩
        obtain ⟨p, hp, rfl⟩ := (hv.votes hash k).mpr ⟨e, (hsame e).mp he, hvote⟩
        exact ⟨(p, k), hp, rfl⟩
      · rintro ⟨⟨p, k⟩, hp, rfl⟩
        obtain ⟨e, he, hvote⟩ := (hv.votes _ k).mp ⟨p, hp, rfl⟩
        exact ⟨e, (hsame e).mpr he, _, k, hvote, hv.voter_onCurve e he _ k hvote, rfl⟩
    funext κ
    unfold Vault.nullifierMap
    split
    · next hκ => exact h.votes.marked κ ((hnullifiers κ).mpr hκ)
    · next hκ => exact h.votes.unmarked κ (mt (hnullifiers κ).mp hκ)

end Shows

/-! ## Block by block -/

theorem foldlM_applyMapEvent (l : List (ℕ × Event)) :
    (l.map (indexed B)).foldlM (applyMapEvent B) stores =
      .ok ((l.map Prod.snd).foldl (record E) stores) := by
  induction l generalizing stores with
  | nil => rfl
  | cons x l ih =>
      rw [List.map_cons, List.foldlM_cons, applyMapEvent_indexed]
      exact ih (record E stores x.2)

theorem approvalRoot_indexed (x : ℕ × Event) :
    (if x.2.name = "approval" then (x.2.payload B).field "approvalRoot"
      else if isLocalExecution (indexed B x) then (x.2.payload B).field "root"
      else none) = x.2.approvalRoot?.map fieldText := by
  obtain ⟨height, e⟩ := x
  have hother (happroval : e.name ≠ "approval")
      (hexecution : ¬(e.name = "execution" ∨ e.name = "executionBatch"))
      (hnone : e.approvalRoot? = none) :
      (if e.name = "approval" then (e.payload B).field "approvalRoot"
        else if isLocalExecution (indexed B (height, e)) then (e.payload B).field "root"
        else none) = e.approvalRoot?.map fieldText := by
    rw [if_neg happroval, if_neg (by simp [isLocalExecution, isExecution, indexed,
      not_or.mp hexecution]), hnone]
    rfl
  cases e with
  | approval h k count approvalRoot voteRoot =>
      exact (if_pos rfl).trans (Event.field_payload B _ _)
  | execution h txType root =>
      refine (if_neg (by simp [Event.name])).trans ?_
      by_cases htype : isRemoteExecutionType txType
      · rw [if_neg (by rw [isLocalExecution_execution]; exact not_not.mpr htype)]
        simp [Event.approvalRoot?, htype]
      · rw [if_pos ((isLocalExecution_execution B _ _ _ _).mpr htype)]
        simp only [Event.approvalRoot?, if_neg htype]
        exact Event.field_payload B _ _
  | _ => exact hother (by simp [Event.name]) (by simp [Event.name]) rfl

theorem emittedApprovalRoots_indexed (l : List (ℕ × Event)) :
    emittedApprovalRoots (l.map (indexed B)) =
      l.filterMap fun x ↦ x.2.approvalRoot?.map fieldText := by
  unfold emittedApprovalRoots
  rw [List.filterMap_map]
  exact congrArg (fun f ↦ l.filterMap f) (funext (approvalRoot_indexed B))

theorem emittedNullifierRoots_indexed (l : List (ℕ × Event)) :
    emittedNullifierRoots (l.map (indexed B)) =
      l.filterMap fun x ↦ x.2.nullifierRoot?.map fieldText := by
  unfold emittedNullifierRoots
  rw [List.filterMap_map]
  refine congrArg (fun f ↦ l.filterMap f) (funext ?_)
  rintro ⟨height, e⟩
  change (if e.name = "approval" then (e.payload B).field "voteNullifierRoot" else none) =
    e.nullifierRoot?.map fieldText
  cases e with
  | approval h k count approvalRoot voteRoot =>
      exact (if_pos rfl).trans (Event.field_payload B _ _)
  | _ => exact if_neg (by simp [Event.name])

/-- A checkpoint is passed without roots, or with the right one among them. -/
theorem checkpoint_none {roots : List String} {root : Fp} (height : ℕ)
    (h : roots = [] ∨ fieldText root ∈ roots) : checkpoint none roots root height = none := by
  unfold checkpoint
  apply if_neg
  rintro ⟨-, hne, hmiss⟩
  exact h.elim hne hmiss

/-- The roots of a block, from what its events publish. -/
theorem roots_of_published {root? : Event → Option Fp} {root : Fp} {block : List (ℕ × Event)}
    {told : List Event} (hsame : ∀ e, (∃ x ∈ block, x.2 = e) ↔ e ∈ told)
    (h : (∀ e ∈ told, root? e = none) ∨ ∃ e ∈ told, root? e = some root) :
    (block.filterMap fun x ↦ (root? x.2).map fieldText) = [] ∨
      fieldText root ∈ block.filterMap fun x ↦ (root? x.2).map fieldText := by
  refine h.imp ?_ ?_
  · intro hnone
    rw [List.filterMap_eq_nil_iff]
    intro x hx
    rw [hnone x.2 ((hsame x.2).mp ⟨x, hx, rfl⟩)]
    rfl
  · rintro ⟨e, he, hroot⟩
    obtain ⟨x, hx, rfl⟩ := (hsame e).mpr he
    exact List.mem_filterMap.mpr ⟨x, hx, by rw [hroot]; rfl⟩

section Blocks

variable {T : Transcript E} {guards : Set PublicKey} {H : BlockHistory E} {L : Ledger}
  {g : PublicKey} {delivered : List (ℕ × Event)}

theorem block_get (h : ℕ) :
    ((InsertionMap.groupBy (fun e : IndexedEvent ↦ e.blockHeight.getD 0)
      (delivered.map (indexed B))).get? h).getD [] =
        (delivered.filter fun x ↦ x.1 = h).map (indexed B) := by
  rw [InsertionMap.getD_groupBy, List.filter_map]
  rfl

variable (H g) in
/-- The stores after the block at height `h` hold the committed maps, and the
roots emitted in the block include theirs. -/
theorem rebuildBlock_ok (run : (ledgerSystem T guards).Run H.actions L) (hg : g ∈ guards)
    {h : ℕ} (hdelivered : ∀ e, (h, e) ∈ delivered ↔ (h, e) ∈ H.published g)
    {events : List Event} (hshows : Shows E events stores)
    (hevents : ∀ e, e ∈ events ↔ ∃ x ∈ H.published g, x.1 < h ∧ x.2 = e) :
    ∃ s events', rebuildBlock B true (InsertionMap.groupBy (fun e ↦ e.blockHeight.getD 0)
        (delivered.map (indexed B))) ⟨stores, ⟨none, none⟩⟩ h = .ok s ∧
      s.divergent = ⟨none, none⟩ ∧ Shows E events' s.stores ∧
      ∀ e, e ∈ events' ↔ ∃ x ∈ H.published g, x.1 ≤ h ∧ x.2 = e := by
  have hblock (e : Event) : (∃ x ∈ delivered.filter (fun x ↦ x.1 = h), x.2 = e) ↔
      e ∈ published g (H.block h) := by
    rw [← BlockHistory.mem_published, ← hdelivered]
    constructor
    · rintro ⟨x, hx, rfl⟩
      obtain ⟨hmem, heq⟩ := List.mem_filter.mp hx
      rw [← of_decide_eq_true heq]
      exact hmem
    · intro he
      exact ⟨(h, e), List.mem_filter.mpr ⟨he, decide_eq_true rfl⟩, rfl⟩
  have hnext := hshows.foldl_record ((delivered.filter fun x ↦ x.1 = h).map Prod.snd)
  have htold (e : Event) : e ∈ events ++ (delivered.filter fun x ↦ x.1 = h).map Prod.snd ↔
      ∃ x ∈ H.published g, x.1 ≤ h ∧ x.2 = e := by
    rw [List.mem_append, hevents, List.mem_map, hblock, ← BlockHistory.mem_published]
    constructor
    · rintro (⟨x, hx, hlt, rfl⟩ | he)
      · exact ⟨x, hx, hlt.le, rfl⟩
      · exact ⟨(h, e), he, le_rfl, rfl⟩
    · rintro ⟨x, hx, hle, rfl⟩
      rcases hle.lt_or_eq with hlt | rfl
      · exact Or.inl ⟨x, hx, hlt, rfl⟩
      · exact Or.inr hx
  obtain ⟨M, M', hrun, hpath⟩ := BlockHistory.run_block run h
  have hmirrored := Run.mirrored (hrun.extend hpath) hg
  have happroval := Run.approval_checkpoint hrun hg hpath
  have hnullifier := Run.nullifier_checkpoint hrun hg hpath
  rw [H.before_append_block h] at hmirrored happroval hnullifier
  obtain ⟨hmap, hvotes⟩ := hnext.maps_eq hmirrored fun e ↦ by
    rw [htold, BlockHistory.mem_published_upTo]
    constructor
    · rintro ⟨x, hx, hle, rfl⟩
      exact ⟨x.1, hle, hx⟩
    · rintro ⟨k, hle, hmem⟩
      exact ⟨(k, e), hmem, hle, rfl⟩
  refine ⟨⟨((delivered.filter fun x ↦ x.1 = h).map Prod.snd).foldl (record E) stores,
    ⟨none, none⟩⟩, _, ?_, rfl, hnext, htold⟩
  unfold rebuildBlock
  rw [block_get]
  dsimp only
  rw [foldlM_applyMapEvent, emittedApprovalRoots_indexed, emittedNullifierRoots_indexed]
  change Except.ok _ = _
  rw [hmap, hvotes, checkpoint_none h (roots_of_published hblock happroval),
    checkpoint_none h (roots_of_published hblock hnullifier)]

variable (H g) in
/-- All checkpoints are passed, whatever the order of delivery, from stores that
hold what the blocks below `floor` tell. -/
theorem rebuildBlocks_ok (run : (ledgerSystem T guards).Run H.actions L) (hg : g ∈ guards)
    {floor : ℕ} (hdelivered : ∀ x, x ∈ delivered ↔ x ∈ H.published g ∧ floor ≤ x.1)
    {events : List Event} (hshows : Shows E events stores)
    (hevents : ∀ e, e ∈ events ↔ ∃ x ∈ H.published g, x.1 < floor ∧ x.2 = e)
    {heights : List ℕ} (hsorted : heights.Pairwise (· < ·)) (hfloor : ∀ h ∈ heights, floor ≤ h)
    (hclosed : ∀ h ∈ heights, ∀ x ∈ delivered, x.1 ≤ h → x.1 ∈ heights) :
    ∃ s events', heights.foldlM (rebuildBlock B true (InsertionMap.groupBy
        (fun e ↦ e.blockHeight.getD 0) (delivered.map (indexed B))))
          ⟨stores, ⟨none, none⟩⟩ = .ok s ∧
      s.divergent = ⟨none, none⟩ ∧ Shows E events' s.stores ∧
      ∀ e, e ∈ events' ↔ ∃ x ∈ H.published g, (x.1 < floor ∨ x.1 ∈ heights) ∧ x.2 = e := by
  induction heights using List.reverseRecOn with
  | nil => exact ⟨_, events, rfl, rfl, hshows, by simpa using hevents⟩
  | append_singleton heights h ih =>
      obtain ⟨hfront, -, hbelow⟩ := List.pairwise_append.mp hsorted
      have hlt : ∀ k ∈ heights, k < h := fun k hk ↦ hbelow k hk h (List.mem_singleton_self h)
      have hlast : floor ≤ h := hfloor h (List.mem_append_right _ (List.mem_singleton_self h))
      have hmem : ∀ x ∈ H.published g, x.1 < floor ∨ x.1 ∈ heights ↔ x.1 < h := by
        intro x hx
        constructor
        · rintro (hxf | hin)
          · exact hxf.trans_le hlast
          · exact hlt x.1 hin
        · intro hxh
          refine (lt_or_ge x.1 floor).imp_right fun hxf ↦ ?_
          have hin := hclosed h (List.mem_append_right _ (List.mem_singleton_self h)) x
            ((hdelivered x).mpr ⟨hx, hxf⟩) hxh.le
          exact (List.mem_append.mp hin).resolve_right fun heq ↦
            hxh.ne (List.mem_singleton.mp heq)
      obtain ⟨s, events', hrun, hnone, hshows', hevents'⟩ := ih hfront
        (fun k hk ↦ hfloor k (List.mem_append_left _ hk)) fun k hk x hx hle ↦ by
          obtain ⟨hin, hxf⟩ := (hdelivered x).mp hx
          exact ((hmem x hin).mpr (hle.trans_lt (hlt k hk))).resolve_left (not_lt.mpr hxf)
      obtain ⟨stores', divergent⟩ := s
      obtain rfl : divergent = ⟨none, none⟩ := hnone
      obtain ⟨s', events'', hblock, hnone', hshows'', hevents''⟩ :=
        rebuildBlock_ok B stores' H g run hg (h := h)
          (fun e ↦ (hdelivered (h, e)).trans (and_iff_left hlast)) hshows' fun e ↦ by
            rw [hevents']
            constructor
            · rintro ⟨x, hx, hin, rfl⟩
              exact ⟨x, hx, (hmem x hx).mp hin, rfl⟩
            · rintro ⟨x, hx, hxh, rfl⟩
              exact ⟨x, hx, (hmem x hx).mpr hxh, rfl⟩
      refine ⟨s', events'', ?_, hnone', hshows'', fun e ↦ ?_⟩
      · rw [List.foldlM_append, hrun]
        exact (bind_pure _).trans hblock
      · rw [hevents'']
        constructor
        · rintro ⟨x, hx, hle, rfl⟩
          refine ⟨x, hx, ?_, rfl⟩
          rw [List.mem_append, List.mem_singleton, ← or_assoc, hmem x hx]
          exact hle.lt_or_eq
        · rintro ⟨x, hx, hin, rfl⟩
          refine ⟨x, hx, ?_, rfl⟩
          rw [List.mem_append, List.mem_singleton, ← or_assoc, hmem x hx] at hin
          exact hin.elim le_of_lt le_of_eq

/-- `rebuildStores` on the events from block `floor` on, in any order and with
repetitions, after stores that hold what the blocks below it tell. -/
theorem rebuildStores_shows (run : (ledgerSystem T guards).Run H.actions L) (hg : g ∈ guards)
    {floor : ℕ} (hdelivered : ∀ x, x ∈ delivered ↔ x ∈ H.published g ∧ floor ≤ x.1)
    {initial : Option RebuiltStores} {events : List Event}
    (hshows : Shows E events ((initial.map RebuiltStores.approvalStore).getD .empty,
      (initial.map RebuiltStores.nullifierStore).getD .empty))
    (hevents : ∀ e, e ∈ events ↔ ∃ x ∈ H.published g, x.1 < floor ∧ x.2 = e) :
    ∃ stores events', rebuildStores B (delivered.map (indexed B)) initial = .ok stores ∧
      stores.ownerStore = rebuildOwners B (delivered.map (indexed B))
        (initial.map RebuiltStores.ownerStore) ∧
      Shows E events' (stores.approvalStore, stores.nullifierStore) ∧
      (∀ e, e ∈ events' ↔ e ∈ MinaGuard.published g H.actions) ∧
      stores.firstDivergentBlock = ⟨none, none⟩ := by
  have hunplaced : (delivered.map (indexed B)).filter (fun e ↦ e.blockHeight.isNone) = [] := by
    rw [List.filter_map]
    simp [Function.comp_def, indexed]
  have hplaced : (delivered.map (indexed B)).filter (fun e ↦ e.blockHeight.isSome) =
      delivered.map (indexed B) := by
    rw [List.filter_map]
    simp [Function.comp_def, indexed]
  have hkeys (h : ℕ) : h ∈ ((InsertionMap.groupBy (fun e ↦ e.blockHeight.getD 0)
      (delivered.map (indexed B))).keys.mergeSort fun a b ↦ a ≤ b) ↔
        ∃ x ∈ delivered, x.1 = h := by
    rw [List.mem_mergeSort, InsertionMap.mem_keys_groupBy]
    simp [indexed]
  have hsorted := pairwise_mergeSort_lt (InsertionMap.nodup_keys_groupBy
    (fun e : IndexedEvent ↦ e.blockHeight.getD 0) (delivered.map (indexed B)))
  obtain ⟨s, events', hblocks, hnone, hshows', hevents'⟩ := rebuildBlocks_ok B _ H g run hg
    hdelivered hshows hevents hsorted
    (fun h hh ↦ by
      obtain ⟨x, hx, rfl⟩ := (hkeys h).mp hh
      exact ((hdelivered x).mp hx).2)
    fun h _ x hx _ ↦ (hkeys x.1).mpr ⟨x, hx, rfl⟩
  refine ⟨⟨_, s.stores.1, s.stores.2, s.divergent⟩, events', ?_, rfl, hshows', fun e ↦ ?_, hnone⟩
  · unfold rebuildStores
    simp only [hunplaced, hplaced, List.foldlM_nil, List.isEmpty_nil, pure_bind]
    rw [hblocks]
    rfl
  · rw [hevents', BlockHistory.mem_published_actions]
    constructor
    · rintro ⟨x, hx, -, rfl⟩
      exact ⟨x.1, hx⟩
    · rintro ⟨k, hk⟩
      refine ⟨(k, e), hk, (lt_or_ge k floor).imp_right fun hle ↦ ?_, rfl⟩
      exact (hkeys k).mpr ⟨_, (hdelivered _).mpr ⟨hk, hle⟩, rfl⟩

/-- `rebuildStores` on all the events of a run. -/
theorem rebuildStores_maps (run : (ledgerSystem T guards).Run H.actions L) (hg : g ∈ guards)
    (hdelivered : ∀ x, x ∈ delivered ↔ x ∈ H.published g) :
    ∃ stores, rebuildStores B (delivered.map (indexed B)) none = .ok stores ∧
      stores.ownerStore = rebuildOwners B (delivered.map (indexed B)) none ∧
      stores.approvalStore.map = (replay g H.actions).vault.approvalMap E ∧
      stores.nullifierStore.map = (replay g H.actions).vault.nullifierMap E ∧
      stores.firstDivergentBlock = ⟨none, none⟩ := by
  have hall (x : ℕ × Event) : x ∈ delivered ↔ x ∈ H.published g ∧ 0 ≤ x.1 := by
    rw [hdelivered, and_iff_left (Nat.zero_le _)]
  have hstart : Shows E [] ((Option.map RebuiltStores.approvalStore none).getD .empty,
      (Option.map RebuiltStores.nullifierStore none).getD .empty) := .start
  obtain ⟨stores, events, hstores, howners, hshows, hevents, hnone⟩ :=
    rebuildStores_shows B run hg hall hstart (by simp)
  obtain ⟨hmap, hvotes⟩ := hshows.maps_eq (Run.mirrored run hg) hevents
  exact ⟨stores, hstores, howners, hmap, hvotes, hnone⟩

/-! ## The child execution map -/

/-- What an event does to the map of REMOTE executions. -/
def recordChild (map : MerkleMap) (e : Event) : MerkleMap :=
  match e.childMark? with
  | none => map
  | some h => Function.update map h executedMarker

theorem rebuildChildExecutionMap_step (map : MerkleMap) (x : ℕ × Event) :
    (match (x.2.payload B).field "proposalHash" with
      | none => pure map
      | some hash =>
          if isExecution (indexed B x) ∧
              ((x.2.payload B).field "txType").getD "" ∈ TxType.childExecutionMarkingTypes then do
            let proposalHash ← parseField hash
            pure (Function.update map proposalHash executedMarker)
          else pure map : Except String MerkleMap) = .ok (recordChild map x.2) := by
  obtain ⟨height, e⟩ := x
  have hother (h : Fp) (hhash : (e.payload B).field "proposalHash" = some (fieldText h))
      (hexecution : ¬(e.name = "execution" ∨ e.name = "executionBatch"))
      (hnone : e.childMark? = none) :
      (match (e.payload B).field "proposalHash" with
        | none => pure map
        | some hash =>
            if isExecution (indexed B (height, e)) ∧
                ((e.payload B).field "txType").getD "" ∈ TxType.childExecutionMarkingTypes then do
              let proposalHash ← parseField hash
              pure (Function.update map proposalHash executedMarker)
            else pure map : Except String MerkleMap) = .ok (recordChild map e) := by
    rw [hhash, recordChild, hnone]
    exact if_neg fun h ↦ hexecution (of_decide_eq_true h.1)
  cases e with
  | setup | setupOwner => rw [Event.field_payload]; rfl
  | execution h txType root =>
      have hhash : ((Event.execution h txType root).payload B).field "proposalHash" =
        some (fieldText h) := Event.field_payload B _ _
      have htype : ((Event.execution h txType root).payload B).field "txType" =
        some (fieldText txType) := Event.field_payload B _ _
      simp only [hhash, htype, Option.getD_some, mem_childExecutionMarkingTypes,
        parseField_fieldText]
      by_cases hmarks : isChildMarkingType txType
      · rw [if_pos ⟨rfl, hmarks⟩]
        simp only [recordChild, Event.childMark?, if_pos hmarks]
        rfl
      · rw [if_neg fun h ↦ hmarks h.2]
        simp only [recordChild, Event.childMark?, if_neg hmarks]
        rfl
  | proposal h | approval h | receiver h | ownerChange h | thresholdChange h | delegate h
  | createChild h | reclaimChild h | enableChildMultiSig h | createChildConfig h
  | createChildOwner h =>
      exact hother h (Event.field_payload B _ _) (by simp [Event.name]) rfl

theorem rebuildChildExecutionMap_indexed (l : List (ℕ × Event)) :
    rebuildChildExecutionMap (l.map (indexed B)) =
      .ok ((l.map Prod.snd).foldl recordChild fun _ ↦ 0) := by
  unfold rebuildChildExecutionMap
  generalize (fun _ ↦ 0 : MerkleMap) = map
  induction l generalizing map with
  | nil => rfl
  | cons x l ih =>
      rw [List.map_cons, List.foldlM_cons]
      refine (congrArg (· >>= _) (rebuildChildExecutionMap_step B map x)).trans ?_
      exact ih (recordChild map x.2)

theorem foldl_recordChild (events : List Event) (h : Fp) :
    (∀ e ∈ events, e.childMark? ≠ some h) ∧ events.foldl recordChild (fun _ ↦ 0) h = 0 ∨
      (∃ e ∈ events, e.childMark? = some h) ∧
        events.foldl recordChild (fun _ ↦ 0) h = executedMarker := by
  induction events using List.reverseRecOn with
  | nil => exact Or.inl ⟨fun _ he ↦ absurd he List.not_mem_nil, rfl⟩
  | append_singleton events e ih =>
      rw [List.foldl_concat]
      have hold (hsame : recordChild (events.foldl recordChild fun _ ↦ 0) e h =
          events.foldl recordChild (fun _ ↦ 0) h) (hne : e.childMark? ≠ some h) :
          (∀ e' ∈ events ++ [e], e'.childMark? ≠ some h) ∧
              recordChild (events.foldl recordChild fun _ ↦ 0) e h = 0 ∨
            (∃ e' ∈ events ++ [e], e'.childMark? = some h) ∧
              recordChild (events.foldl recordChild fun _ ↦ 0) e h = executedMarker := by
        rw [hsame]
        refine ih.imp ?_ ?_
        · rintro ⟨hall, hzero⟩
          exact ⟨List.forall_mem_append.mpr ⟨hall, List.forall_mem_singleton.mpr hne⟩, hzero⟩
        · rintro ⟨⟨e', he', hmark⟩, hmarked⟩
          exact ⟨⟨e', List.mem_append_left _ he', hmark⟩, hmarked⟩
      cases hmark : e.childMark? with
      | none =>
          exact hold (by simp [recordChild, hmark]) (by simp [hmark])
      | some h' =>
          by_cases hh : h' = h
          · subst hh
            refine Or.inr ⟨⟨e, List.mem_append_right _ (List.mem_singleton_self e), hmark⟩, ?_⟩
            simp [recordChild, hmark]
          · exact hold (by simp [recordChild, hmark, Function.update_of_ne (Ne.symm hh)])
              (by simpa [hmark] using hh)

/-- `rebuildChildExecutionMap` on the events of a run. -/
theorem rebuildChildExecutionMap_eq (run : (ledgerSystem T guards).Run H.actions L)
    (hg : g ∈ guards) (hdelivered : ∀ x, x ∈ delivered ↔ x ∈ H.published g) :
    rebuildChildExecutionMap (delivered.map (indexed B)) =
      .ok ((replay g H.actions).vault.childExecutionMap E) := by
  rw [rebuildChildExecutionMap_indexed]
  refine congrArg Except.ok (funext fun h ↦ ?_)
  have hmarks := (Run.mirrored run hg).childMarks h
  have hsame : (∃ e ∈ delivered.map Prod.snd, e.childMark? = some h) ↔
      ∃ e ∈ published g H.actions, e.childMark? = some h := by
    simp only [BlockHistory.mem_published_actions, List.mem_map, ← hdelivered]
    constructor
    · rintro ⟨e, ⟨x, hx, rfl⟩, hmark⟩
      exact ⟨x.2, ⟨x.1, hx⟩, hmark⟩
    · rintro ⟨e, ⟨k, hk⟩, hmark⟩
      exact ⟨e, ⟨(k, e), hk, rfl⟩, hmark⟩
  unfold Vault.childExecutionMap
  rcases foldl_recordChild (delivered.map Prod.snd) h with ⟨hnone, hzero⟩ | ⟨hsome, hmarked⟩
  · rw [hzero, if_neg]
    intro hmem
    obtain ⟨e, he, hmark⟩ := hsame.mpr (hmarks.mp hmem)
    exact hnone e he hmark
  · rw [hmarked, if_pos (hmarks.mpr (hsame.mp hsome))]

end Blocks

end MinaGuard
