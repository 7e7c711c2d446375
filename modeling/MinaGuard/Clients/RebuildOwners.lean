import MinaGuard.Clients.RebuildMaps
import MinaGuard.Vault.OwnerLog

/-!
# The rebuilt owners

The setup slots come sorted by index, the owner changes by the configuration
number they open, and an insertion goes where the chain it published says.  So
the rebuilt owner list is the committed one, in the committed order.
-/

namespace MinaGuard

open Foundations

variable {E : Env} (B : Base58 E) {T : Transcript E}

theorem insertIdx_eq_take_drop {α : Type} (l : List α) (a : α) {i : ℕ} (hi : i ≤ l.length) :
    l.insertIdx i a = l.take i ++ a :: l.drop i := by
  induction l generalizing i with
  | nil =>
      obtain rfl : i = 0 := Nat.le_zero.mp hi
      rfl
  | cons b l ih =>
      cases i with
      | zero => rfl
      | succ i => exact congrArg (b :: ·) (ih (Nat.le_of_succ_le_succ hi))

namespace OwnerStore

variable (store : OwnerStore) {owner : PublicKey} {target : Fp} {i : ℕ}

theorem matchesAt_iff (hi : i ≤ store.owners.length) :
    store.matchesAt E owner (fieldText target) i = true ↔
      computeOwnerChain E (store.owners.insertIdx i owner) = target := by
  unfold matchesAt
  rw [decide_eq_true_eq, fieldText_injective.eq_iff, insertIdx_eq_take_drop _ _ hi]

theorem preferred_le (owner : PublicKey) :
    (store.sortedIndex B owner).getD store.owners.length ≤ store.owners.length := by
  unfold sortedIndex
  cases hidx : store.owners.findIdx? _ with
  | none => exact le_rfl
  | some idx =>
      obtain ⟨hlt, -⟩ := List.findIdx?_eq_some_iff_getElem.mp hidx
      exact hlt.le

theorem insertPositionFor_some (h : store.insertPositionFor B owner (fieldText target) = some i) :
    i ≤ store.owners.length ∧ computeOwnerChain E (store.owners.insertIdx i owner) = target := by
  have hpreferred := store.preferred_le B owner
  unfold insertPositionFor at h
  dsimp only at h
  split at h
  · next hmatch =>
      obtain rfl := Option.some.inj h
      exact ⟨hpreferred, (store.matchesAt_iff hpreferred).mp hmatch⟩
  · have hle := List.mem_range.mp (List.mem_of_find?_eq_some h)
    have hmatch := List.find?_some h
    rw [Bool.and_eq_true] at hmatch
    exact ⟨Nat.lt_succ_iff.mp hle, (store.matchesAt_iff (Nat.lt_succ_iff.mp hle)).mp hmatch.2⟩

/-- A position that matches is found. -/
theorem insertPositionFor_isSome (hi : i ≤ store.owners.length)
    (hmatch : computeOwnerChain E (store.owners.insertIdx i owner) = target) :
    ∃ j, store.insertPositionFor B owner (fieldText target) = some j := by
  unfold insertPositionFor
  dsimp only
  split
  · exact ⟨_, rfl⟩
  · next hmiss =>
      apply Option.ne_none_iff_exists'.mp
      intro hnone
      have hat := (store.matchesAt_iff (E := E) hi).mpr hmatch
      have hne : i ≠ (store.sortedIndex B owner).getD store.owners.length := by
        rintro rfl
        exact hmiss hat
      have hskip := List.find?_eq_none.mp hnone i (List.mem_range.mpr (Nat.lt_succ_of_le hi))
      simp [hne, hat] at hskip

theorem remove_eq (owner : PublicKey) :
    (store.remove B owner).owners = removeOwner owner store.owners := by
  unfold remove removeOwner
  simp only [ne_eq, B.toBase58_injective.eq_iff]

end OwnerStore

theorem fieldText_one : fieldText 1 = "1" := by
  unfold fieldText
  rw [val_one]
  rfl

theorem isAdd_indexed (height : ℕ) (hash added n commitment nonce : Fp) (k : PublicKey) :
    isAdd (indexed B (height, .ownerChange hash k added n commitment nonce)) = true ↔
      added = 1 := by
  have hfield : ((Event.ownerChange hash k added n commitment nonce).payload B).field "added" =
    some (fieldText added) := Event.field_payload B _ _
  have hlookup : ((Event.ownerChange hash k added n commitment nonce).payload B).lookup "added" =
    some (.string (fieldText added)) := lookup_toSerializableObject B _ _
  unfold isAdd indexed
  simp only [hfield, hlookup, ← fieldText_one, Option.some.injEq, fieldText_injective.eq_iff,
    reduceCtorEq, or_false, decide_eq_true_eq]

/-- Replaying a reported change makes it. -/
theorem applyOwnerChange_of_changed {e : Event} {owners owners' : List PublicKey}
    (h : OwnersChanged T e owners owners') (height : ℕ) :
    applyOwnerChange B ⟨owners⟩ (indexed B (height, e)) = ⟨owners'⟩ := by
  cases h with
  | @added hash k n nonce front back hcurve htried =>
      generalize hchain : computeOwnerChain E (front ++ k :: back) = chain
      have hkey : (indexed B (height, .ownerChange hash k 1 n chain nonce)).payload.publicKey B
        "owner" = some k := (Event.publicKey_payload B rfl).trans (if_pos hcurve)
      have htarget : (indexed B (height, .ownerChange hash k 1 n chain nonce)).payload.field
        "newOwnersCommitment" = some (fieldText chain) := Event.field_payload B _ _
      have hle : front.length ≤ (front ++ back).length := by simp
      have hplace : (front ++ back).insertIdx front.length k = front ++ k :: back := by
        rw [insertIdx_eq_take_drop _ _ hle]
        simp
      obtain ⟨i, hi⟩ := (OwnerStore.mk (front ++ back)).insertPositionFor_isSome B hle
        ((congrArg (computeOwnerChain E) hplace).trans hchain)
      obtain ⟨hile, hmatch⟩ := OwnerStore.insertPositionFor_some B _ hi
      -- the chain determines the list, so any position that matches is right
      have hsame : (front ++ back).insertIdx i k = front ++ k :: back :=
        T.computeOwnerChain_inj (htried i hile) (hplace ▸ htried _ hle)
          (hmatch.trans hchain.symm)
      unfold applyOwnerChange
      simp only [hkey, htarget, Option.bind_some]
      rw [if_pos ((isAdd_indexed B height _ _ _ _ _ _).mpr rfl), hi]
      exact congrArg OwnerStore.mk hsame
  | @removed hash k n commitment nonce _ hcurve =>
      have hkey : (indexed B (height, .ownerChange hash k 0 n commitment nonce)).payload.publicKey
        B "owner" = some k := (Event.publicKey_payload B rfl).trans (if_pos hcurve)
      have hremove : ¬isAdd (indexed B (height, .ownerChange hash k 0 n commitment nonce)) =
          true := by
        rw [isAdd_indexed]
        exact zero_ne_one
      unfold applyOwnerChange
      simp only [hkey]
      rw [if_neg hremove]
      exact congrArg OwnerStore.mk (OwnerStore.remove_eq B ⟨owners⟩ k)

theorem foldl_applyOwnerChange {start owners : List PublicKey} {events : List Event}
    (h : OwnersReplay T start events owners) {l : List (ℕ × Event)}
    (hl : l.map Prod.snd = events) :
    (l.map (indexed B)).foldl (applyOwnerChange B) ⟨start⟩ = ⟨owners⟩ := by
  induction h generalizing l with
  | start =>
      obtain rfl := List.map_eq_nil_iff.mp hl
      rfl
  | change before changed ih =>
      obtain ⟨front, back, rfl, hfront, hback⟩ := List.map_eq_append_iff.mp hl
      obtain ⟨x, rest, rfl, rfl, hrest⟩ := List.map_eq_cons_iff.mp hback
      obtain rfl := List.map_eq_nil_iff.mp hrest
      rw [List.map_append, List.foldl_append, ih hfront]
      exact applyOwnerChange_of_changed B changed x.1

theorem isOwnerChange_indexed (x : ℕ × Event) :
    isOwnerChange (indexed B x) = x.2.changesOwners := by
  obtain ⟨height, e⟩ := x
  unfold isOwnerChange indexed
  cases e with
  | ownerChange => rfl
  | _ => simp [Event.name, Event.changesOwners]

theorem nonceOf_indexed {x : ℕ × Event} (hchange : x.2.changesOwners = true)
    (hsmall : x.2.changeNonce ≤ 2 ^ 53) : nonceOf (indexed B x) = x.2.changeNonce := by
  obtain ⟨height, e⟩ := x
  cases e with
  | ownerChange hash k added n commitment nonce =>
      have hfield : ((Event.ownerChange hash k added n commitment nonce).payload B).field
          "configNonce" = some (fieldText nonce) := Event.field_payload B _ _
      have hnumber : finiteNumber (fieldText nonce) = some (nonce.val : ℚ) :=
        finiteNumber_decimal hsmall
      unfold nonceOf
      simp only [indexed, hfield, hnumber, Option.getD_some]
      rfl
  | _ => cases hchange

theorem changeKey_indexed (height : ℕ) (hash added n commitment nonce : Fp) (k : PublicKey) :
    (changeKey (indexed B (height, .ownerChange hash k added n commitment nonce))).toList =
      (fieldText nonce).toList ++ '|' :: ((B.toBase58 k).toList ++
        '|' :: (fieldText added).toList) := by
  have hnonce : (indexed B (height, .ownerChange hash k added n commitment nonce)).payload.field
    "configNonce" = some (fieldText nonce) := Event.field_payload B _ _
  have howner : (indexed B (height, .ownerChange hash k added n commitment nonce)).payload.field
    "owner" = some (B.toBase58 k) := Event.field_payload B _ _
  have hadded : (indexed B (height, .ownerChange hash k added n commitment nonce)).payload.field
    "added" = some (fieldText added) := Event.field_payload B _ _
  unfold changeKey
  simp only [hnonce, howner, hadded, Option.getD_some, String.toList_append]
  simp

/-- The part of a text before its first separator. -/
theorem takeWhile_fieldText (x : Fp) (rest : List Char) :
    ((fieldText x).toList ++ '|' :: rest).takeWhile (fun c ↦ decide (c ≠ '|')) =
      (fieldText x).toList := by
  rw [List.takeWhile_append_of_pos, List.takeWhile_cons_of_neg (by simp), List.append_nil]
  intro c hc
  refine decide_eq_true ?_
  rintro rfl
  exact absurd (isDigit_of_mem_decimal hc) (by decide)

/-- The key of a change starts with its configuration number. -/
theorem changeNonce_eq_of_changeKey {x y : ℕ × Event} (hx : x.2.changesOwners = true)
    (hy : y.2.changesOwners = true)
    (h : changeKey (indexed B x) = changeKey (indexed B y)) :
    x.2.changeNonce = y.2.changeNonce := by
  obtain ⟨height, e⟩ := x
  obtain ⟨height', e'⟩ := y
  cases e with
  | ownerChange hash k added n commitment nonce =>
      cases e' with
      | ownerChange hash' k' added' n' commitment' nonce' =>
          have htext := congrArg String.toList h
          rw [changeKey_indexed, changeKey_indexed] at htext
          have hfirst := congrArg (List.takeWhile fun c ↦ decide (c ≠ '|')) htext
          rw [takeWhile_fieldText, takeWhile_fieldText] at hfirst
          exact congrArg ZMod.val (fieldText_injective (String.toList_inj.mp hfirst))
      | _ => cases hy
  | _ => cases hx

section Run

variable {guards : Set PublicKey} {H : BlockHistory E} {L : Ledger} {g : PublicKey}
  {delivered : List (ℕ × Event)} {v : Vault} {o : SetupOwnersInput} {n : Fp}

/-- The owner changes of a history, in order. -/
def BlockHistory.ownerChanges (H : BlockHistory E) (g : PublicKey) : List (ℕ × Event) :=
  (H.published g).filter fun x ↦ x.2.changesOwners

theorem BlockHistory.map_ownerChanges :
    (H.ownerChanges g).map Prod.snd = ownerChangesOf (MinaGuard.published g H.actions) := by
  rw [← BlockHistory.published_actions, ownerChangesOf, List.filter_map]
  rfl

/-- Owner changes come out in the order of their numbers, each once. -/
theorem orderedChanges_indexed {changes : List (ℕ × Event)}
    (hnonces : changes.Pairwise fun x y ↦ x.2.changeNonce < y.2.changeNonce)
    (hsmall : ∀ x ∈ changes, x.2.changeNonce ≤ 2 ^ 53)
    (hchanges : ∀ x, x ∈ changes ↔ x ∈ delivered ∧ x.2.changesOwners = true) :
    orderedChanges (delivered.map (indexed B)) = changes.map (indexed B) := by
  have hchange : ∀ x ∈ changes, x.2.changesOwners = true := fun x hx ↦ ((hchanges x).mp hx).2
  have hnonceOf : ∀ x ∈ changes, nonceOf (indexed B x) = x.2.changeNonce :=
    fun x hx ↦ nonceOf_indexed B (hchange x hx) (hsmall x hx)
  have hmem (e : IndexedEvent) : e ∈ (delivered.map (indexed B)).filter isOwnerChange ↔
      ∃ x ∈ changes, indexed B x = e := by
    rw [List.mem_filter, List.mem_map]
    constructor
    · rintro ⟨⟨x, hx, rfl⟩, he⟩
      rw [isOwnerChange_indexed] at he
      exact ⟨x, (hchanges x).mpr ⟨hx, he⟩, rfl⟩
    · rintro ⟨x, hx, rfl⟩
      refine ⟨⟨x, ((hchanges x).mp hx).1, rfl⟩, ?_⟩
      rw [isOwnerChange_indexed]
      exact hchange x hx
  have hinj : ∀ e ∈ (delivered.map (indexed B)).filter isOwnerChange,
      ∀ e' ∈ (delivered.map (indexed B)).filter isOwnerChange,
        changeKey e = changeKey e' → e = e' := by
    intro e he e' he' hkey
    obtain ⟨x, hx, rfl⟩ := (hmem e).mp he
    obtain ⟨y, hy, rfl⟩ := (hmem e').mp he'
    have hnonce := changeNonce_eq_of_changeKey B (hchange x hx) (hchange y hy) hkey
    rw [eq_of_key_eq (fun x ↦ x.2.changeNonce) hnonces hx hy hnonce]
  unfold orderedChanges
  refine mergeSort_eq nonceOf (InsertionMap.nodup_values_firstOf changeKey _) ?_ ?_
  · intro e
    rw [InsertionMap.mem_values_firstOf changeKey hinj, hmem, List.mem_map]
  · refine List.pairwise_map.mpr (hnonces.imp_of_mem ?_)
    intro x y hx hy hlt
    rw [hnonceOf x hx, hnonceOf y hy]
    exact_mod_cast hlt

/-- The owner changes of a history open increasing numbers. -/
theorem ownerChanges_nonces (htold : OwnersTold T (published g H.actions) v o n) :
    (H.ownerChanges g).Pairwise fun x y ↦ x.2.changeNonce < y.2.changeNonce := by
  have hpairwise := htold.nonces
  rw [← BlockHistory.map_ownerChanges, List.pairwise_map] at hpairwise
  exact hpairwise

theorem changeNonce_le (htold : OwnersTold T (published g H.actions) v o n)
    (hsmall : v.configNonce ≤ 2 ^ 53) :
    ∀ x ∈ H.ownerChanges g, x.2.changeNonce ≤ 2 ^ 53 := by
  intro x hx
  refine (htold.nonce_le x.2 ?_).trans hsmall
  rw [← BlockHistory.map_ownerChanges]
  exact List.mem_map_of_mem hx

/-- The owner changes come out in the order of the chain, each once. -/
theorem orderedChanges_eq (htold : OwnersTold T (published g H.actions) v o n)
    (hsmall : v.configNonce ≤ 2 ^ 53) (hdelivered : ∀ x, x ∈ delivered ↔ x ∈ H.published g) :
    orderedChanges (delivered.map (indexed B)) = (H.ownerChanges g).map (indexed B) := by
  refine orderedChanges_indexed B (ownerChanges_nonces htold) (changeNonce_le htold hsmall) ?_
  intro x
  rw [BlockHistory.ownerChanges, List.mem_filter, hdelivered]

/-! ## The setup slots -/

/-- The slot an event fills, if its key decodes. -/
def slotEntry (E : Env) (x : ℕ × Event) : Option (Option ℚ × PublicKey) :=
  match x.2.setupSlot? with
  | none => none
  | some (owner, index) =>
      if E.onCurve owner then some (toNumber (fieldText index), owner) else none

/-- The slots are the first entry for each index. -/
theorem setupSlots_indexed (l : List (ℕ × Event)) :
    setupSlots B (l.map (indexed B)) =
      ((InsertionMap.firstOf Prod.fst (l.filterMap (slotEntry E))).values, []) := by
  induction l using List.reverseRecOn with
  | nil => rfl
  | append_singleton l x ih =>
      obtain ⟨height, e⟩ := x
      have hother (hname : e.name ≠ "setupOwner") (hslot : e.setupSlot? = none) :
          setupSlots B ((l ++ [(height, e)]).map (indexed B)) =
            ((InsertionMap.firstOf Prod.fst
              ((l ++ [(height, e)]).filterMap (slotEntry E))).values, []) := by
        have hnone : slotEntry E (height, e) = none := by simp [slotEntry, hslot]
        have hskip : [indexed B (height, e)].filter (fun e ↦ e.eventType = "setupOwner") = [] := by
          simp [indexed, hname]
        unfold setupSlots at ih ⊢
        rw [List.map_append, List.filter_append, List.map_singleton, hskip, List.append_nil, ih,
          List.filterMap_append, List.filterMap_cons_none hnone, List.filterMap_nil,
          List.append_nil]
      cases e with
      | setupOwner owner index =>
          have hkey : (indexed B (height, .setupOwner owner index)).payload.publicKey B "owner" =
            if E.onCurve owner then some owner else none := Event.publicKey_payload B rfl
          have hindex : (indexed B (height, .setupOwner owner index)).payload.field "index" =
            some (fieldText index) := Event.field_payload B _ _
          have hkeep : [indexed B (height, .setupOwner owner index)].filter
              (fun e ↦ e.eventType = "setupOwner") =
                [indexed B (height, .setupOwner owner index)] := rfl
          unfold setupSlots at ih ⊢
          rw [List.map_append, List.filter_append, List.map_singleton, hkeep, List.foldl_append,
            ih, List.filterMap_append, List.foldl_cons, List.foldl_nil]
          simp only [hkey, hindex]
          cases hcurve : E.onCurve owner with
          | false =>
              have hnone : slotEntry E (height, .setupOwner owner index) = none := by
                simp [slotEntry, Event.setupSlot?, hcurve]
              rw [List.filterMap_cons_none hnone]
              simp
          | true =>
              have hsome : slotEntry E (height, .setupOwner owner index) =
                  some (toNumber (fieldText index), owner) := by
                simp [slotEntry, Event.setupSlot?, hcurve]
              rw [List.filterMap_cons_some hsome, List.filterMap_nil,
                InsertionMap.values_firstOf_concat]
              simp only [if_true]
              split <;> rfl
      | _ => exact hother (by simp [Event.name]) rfl

/-- A key that decodes is published exactly for the owner at its index. -/
theorem mem_publishedOwners {o : SetupOwnersInput} {n : Fp}
    (hcoherent : OwnersCoherent E (setupOwners o n)) (hempty : E.onCurve PublicKey.empty = false)
    {k : PublicKey} {index : Fp} :
    (k, index) ∈ publishedOwners o n ∧ E.onCurve k = true ↔
      ∃ j : ℕ, j ≤ maxOwners ∧ index = (j : Fp) ∧ (setupOwners o n)[j]? = some k := by
  have hactive {j : ℕ} {k' : PublicKey} (hj : o.toList[j]? = some k') :
      j ≤ maxOwners ∧ (lessThan (j : Fp) n ↔ j < n.val) := by
    have hlength : o.toList.length = maxOwners := o.length_toList
    obtain ⟨hlt, -⟩ := List.getElem?_eq_some_iff.mp hj
    have hsmall := small_lt_fieldOrder (hlength ▸ hlt.le)
    unfold lessThan
    rw [val_natCast_of_lt (by omega)]
    exact ⟨hlength ▸ hlt.le, Iff.rfl⟩
  unfold publishedOwners
  rw [List.mem_map]
  constructor
  · rintro ⟨⟨⟨k', j⟩, hmem, heq⟩, hcurve⟩
    have hget := List.mk_mem_zipIdx_iff_getElem?.mp hmem
    obtain ⟨hle, hlt⟩ := hactive hget
    obtain ⟨hk, rfl⟩ := Prod.mk.inj heq
    refine ⟨j, hle, rfl, ?_⟩
    by_cases hj : j < n.val
    · rw [if_pos (hlt.mpr hj)] at hk
      rw [setupOwners, List.getElem?_take_of_lt hj, hget]
      exact congrArg some hk
    · rw [if_neg (mt hlt.mp hj)] at hk
      rw [← hk, hempty] at hcurve
      cases hcurve
  · rintro ⟨j, -, rfl, hget⟩
    have hcurve := hcoherent.onCurve k (List.mem_of_getElem? hget)
    rw [setupOwners, List.getElem?_take] at hget
    obtain ⟨hj, hget⟩ := Option.ite_none_right_eq_some.mp hget
    refine ⟨⟨(k, j), List.mk_mem_zipIdx_iff_getElem?.mpr hget, ?_⟩, hcurve⟩
    rw [if_pos ((hactive hget).2.mpr hj)]

theorem mem_slotEntries (htold : OwnersTold T (published g H.actions) v o n)
    (hempty : E.onCurve PublicKey.empty = false)
    (hdelivered : ∀ x, x ∈ delivered ↔ x ∈ H.published g) (x : Option ℚ × PublicKey) :
    x ∈ delivered.filterMap (slotEntry E) ↔
      ∃ (j : ℕ) (k : PublicKey), x = (some (j : ℚ), k) ∧ (setupOwners o n)[j]? = some k := by
  have hslot (k : PublicKey) (index : Fp) : (k, index) ∈ publishedOwners o n ↔
      ∃ y ∈ delivered, y.2.setupSlot? = some (k, index) := by
    rw [← htold.slots, setupSlotsOf, List.mem_filterMap]
    constructor
    · rintro ⟨e, he, hsome⟩
      obtain ⟨height, hmem⟩ := BlockHistory.mem_published_actions.mp he
      exact ⟨(height, e), (hdelivered _).mpr hmem, hsome⟩
    · rintro ⟨y, hy, hsome⟩
      exact ⟨y.2, BlockHistory.mem_published_actions.mpr ⟨y.1, (hdelivered y).mp hy⟩, hsome⟩
  have hnumber {j : ℕ} (hj : j ≤ maxOwners) : toNumber (fieldText (j : Fp)) = some (j : ℚ) := by
    have hsmall := small_lt_fieldOrder hj
    have hmax : maxOwners ≤ 2 ^ 53 := by decide
    unfold fieldText
    rw [val_natCast_of_lt (by omega), toNumber_decimal_of_le (hj.trans hmax)]
  rw [List.mem_filterMap]
  constructor
  · rintro ⟨y, hy, hentry⟩
    unfold slotEntry at hentry
    split at hentry
    · cases hentry
    · next owner index hsome =>
        obtain ⟨hcurve, hx⟩ := Option.ite_none_right_eq_some.mp hentry
        obtain ⟨j, hj, rfl, hget⟩ := (mem_publishedOwners htold.coherent hempty).mp
          ⟨(hslot owner index).mpr ⟨y, hy, hsome⟩, hcurve⟩
        rw [hnumber hj] at hx
        exact ⟨j, owner, (Option.some.inj hx).symm, hget⟩
  · rintro ⟨j, k, rfl, hget⟩
    have hlength : (setupOwners o n).length ≤ maxOwners :=
      (List.length_take_le' _ _).trans o.length_toList.le
    obtain ⟨hlt, -⟩ := List.getElem?_eq_some_iff.mp hget
    have hj : j ≤ maxOwners := hlt.le.trans hlength
    obtain ⟨hmem, hcurve⟩ := (mem_publishedOwners htold.coherent hempty).mpr ⟨j, hj, rfl, hget⟩
    obtain ⟨y, hy, hsome⟩ := (hslot k j).mp hmem
    refine ⟨y, hy, ?_⟩
    unfold slotEntry
    rw [hsome]
    simp only [hcurve, if_true, hnumber hj]

/-- The setup slots come out as the owners of the setup. -/
theorem setupOwnerStore_eq (htold : OwnersTold T (published g H.actions) v o n)
    (hdelivered : ∀ x, x ∈ delivered ↔ x ∈ H.published g) :
    setupOwnerStore B (delivered.map (indexed B)) = ⟨setupOwners o n⟩ := by
  have hentries := mem_slotEntries htold B.empty_not_onCurve hdelivered
  generalize hslots : (InsertionMap.firstOf Prod.fst
    (delivered.filterMap (slotEntry E))).values = slots
  have hmem (x : Option ℚ × PublicKey) : x ∈ slots ↔
      ∃ (j : ℕ) (k : PublicKey), x = (some (j : ℚ), k) ∧ (setupOwners o n)[j]? = some k := by
    rw [← hslots, InsertionMap.mem_values_firstOf, hentries]
    intro x hx y hy hkey
    obtain ⟨j, k, rfl, hj⟩ := (hentries x).mp hx
    obtain ⟨j', k', rfl, hj'⟩ := (hentries y).mp hy
    obtain rfl : j = j' := Nat.cast_injective (Option.some.inj hkey)
    rw [hj] at hj'
    rw [Option.some.inj hj']
  have hnodup : slots.Nodup := hslots ▸ InsertionMap.nodup_values_firstOf _ _
  have hne : slots ≠ [] := by
    obtain ⟨k, hk⟩ := List.exists_mem_of_ne_nil _ htold.nonempty
    obtain ⟨j, hj⟩ := List.mem_iff_getElem?.mp hk
    exact List.ne_nil_of_mem ((hmem _).mpr ⟨j, k, rfl, hj⟩)
  -- all indices are numbers, so the comparator is that of their values
  have hsort : (slots.mergeSort fun a b ↦ numberLe a.1 b.1).map
      (fun x ↦ (x.1.getD 0, x.2)) =
        (setupOwners o n).zipIdx.map fun x ↦ ((x.2 : ℚ), x.1) := by
    rw [List.map_mergeSort (s := fun a b : ℚ × PublicKey ↦ decide (a.1 ≤ b.1))]
    · refine mergeSort_eq Prod.fst (hnodup.map_on ?_) ?_ ?_
      · intro x hx y hy hkey
        obtain ⟨j, k, rfl, -⟩ := (hmem x).mp hx
        obtain ⟨j', k', rfl, -⟩ := (hmem y).mp hy
        simpa using hkey
      · rintro ⟨j, k⟩
        simp only [List.mem_map, hmem, Prod.exists, Prod.mk.injEq,
          List.mk_mem_zipIdx_iff_getElem?]
        constructor
        · rintro ⟨_, _, ⟨j', k', ⟨rfl, rfl⟩, hget⟩, rfl, rfl⟩
          exact ⟨_, _, hget, rfl, rfl⟩
        · rintro ⟨k', j', hget, rfl, rfl⟩
          exact ⟨some (j' : ℚ), k', ⟨j', k', ⟨rfl, rfl⟩, hget⟩, rfl, rfl⟩
      · have hlt : (List.range' 0 (setupOwners o n).length).Pairwise (· < ·) :=
          List.pairwise_lt_range'
        rw [← List.zipIdx_map_snd, List.pairwise_map] at hlt
        exact List.pairwise_map.mpr (hlt.imp Nat.cast_lt.mpr)
    · intro a ha b hb
      obtain ⟨j, k, rfl, -⟩ := (hmem a).mp ha
      obtain ⟨j', k', rfl, -⟩ := (hmem b).mp hb
      rfl
  have howners : (slots.mergeSort fun a b ↦ numberLe a.1 b.1).map Prod.snd =
      setupOwners o n := by
    have hsnd := congrArg (List.map Prod.snd) hsort
    rw [List.map_map, List.map_map] at hsnd
    exact hsnd.trans (List.zipIdx_map_fst 0 _)
  unfold setupOwnerStore
  rw [setupSlots_indexed, hslots]
  dsimp only
  rw [if_neg hne, howners]

/-- The rebuilt owners are the owners, whatever the order of delivery. -/
theorem rebuildOwners_eq (htold : OwnersTold T (published g H.actions) v o n)
    (hsmall : v.configNonce ≤ 2 ^ 53) (hdelivered : ∀ x, x ∈ delivered ↔ x ∈ H.published g) :
    rebuildOwners B (delivered.map (indexed B)) none = ⟨v.owners⟩ := by
  unfold rebuildOwners
  rw [orderedChanges_eq B htold hsmall hdelivered, Option.getD_none,
    setupOwnerStore_eq B htold hdelivered]
  exact foldl_applyOwnerChange B htold.replay BlockHistory.map_ownerChanges

end Run

end MinaGuard
