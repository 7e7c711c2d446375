import MinaGuard.Contract.OwnerList
import Mathlib.Data.List.Pairwise
import Mathlib.Data.List.Nodup
import Mathlib.Tactic.Ring

/-!
# What the owner-list circuits compute

The circuits run over fixed-size arrays with gaps; the guard relies on the
list of present keys.  Setup yields a coherent list, adding inserts one key at
one place, removing drops one key, and the chains they return are the chains
of the resulting lists.
-/

namespace MinaGuard

open Foundations

/-- A list of owners that can all sign, no two of them held by one secret. -/
structure OwnersCoherent (E : Env) (owners : List PublicKey) : Prop where
  ne_empty : ∀ key ∈ owners, key ≠ PublicKey.empty
  onCurve : ∀ key ∈ owners, E.onCurve key = true
  distinct_x : owners.Pairwise fun a b ↦ a.x ≠ b.x

namespace OwnersCoherent

variable {E : Env} {owners : List PublicKey}

theorem nodup (h : OwnersCoherent E owners) : owners.Nodup :=
  h.distinct_x.imp fun hx heq ↦ hx (congrArg PublicKey.x heq)

theorem sublist (h : OwnersCoherent E owners) {rest : List PublicKey}
    (hsub : rest.Sublist owners) : OwnersCoherent E rest where
  ne_empty := fun key hkey ↦ h.ne_empty key (hsub.subset hkey)
  onCurve := fun key hkey ↦ h.onCurve key (hsub.subset hkey)
  distinct_x := h.distinct_x.sublist hsub

end OwnersCoherent

variable {E : Env}

theorem assertOnCurveIf_ok {check : Prop} [Decidable check] {pk : PublicKey} {u : Unit} :
    assertOnCurveIf E check pk = .ok u ↔ (check → E.onCurve pk = true) := by
  unfold assertOnCurveIf
  rw [Check.assertTrue_ok]
  by_cases h : check
  · simp [h]
  · simp [h, E.generator_onCurve]

/-- The slots a setup with `numOwners` treats as active. -/
def activeKeys (numOwners : Fp) (slots : List (PublicKey × ℕ)) : List PublicKey :=
  slots.filterMap fun slot ↦
    if lessThan (slot.2 : Fp) numOwners then some slot.1 else none

theorem activeKeys_cons (numOwners : Fp) (slot : PublicKey × ℕ)
    (rest : List (PublicKey × ℕ)) :
    activeKeys numOwners (slot :: rest) =
      (if lessThan (slot.2 : Fp) numOwners then [slot.1] else []) ++
        activeKeys numOwners rest := by
  by_cases h : lessThan (slot.2 : Fp) numOwners <;> simp [activeKeys, h]

/-- The active slots of an indexed array are its first `numOwners` keys. -/
theorem activeKeys_zipIdx (numOwners : Fp) (keys : List PublicKey) (start : ℕ)
    (hbound : start + keys.length < fieldOrder) :
    activeKeys numOwners (keys.zipIdx start) =
      keys.take (numOwners.val - start) := by
  induction keys generalizing start with
  | nil => simp [activeKeys]
  | cons key keys ih =>
      simp only [List.length_cons] at hbound
      rw [List.zipIdx_cons, activeKeys_cons, ih (start + 1) (by omega)]
      have hval : (start : Fp).val = start := val_natCast_of_lt (by omega)
      by_cases h : start < numOwners.val
      · have hsub : numOwners.val - start = (numOwners.val - (start + 1)) + 1 := by
          omega
        simp [lessThan, hval, h, hsub]
      · have hsub : numOwners.val - start = 0 := by omega
        have hsub' : numOwners.val - (start + 1) = 0 := by omega
        simp [lessThan, hval, h, hsub, hsub']

theorem setupChain_foldl (numOwners : Fp) (slots : List (PublicKey × ℕ)) (d : Fp) :
    slots.foldl
      (fun currentChain slot ↦
        let next := E.ownerChainLink currentChain slot.1
        if lessThan (slot.2 : Fp) numOwners then next else currentChain) d =
      Chain.digest E.ownerChainLink d (activeKeys numOwners slots) := by
  induction slots generalizing d with
  | nil => rfl
  | cons slot slots ih =>
      rw [List.foldl_cons, ih, activeKeys_cons]
      by_cases h : lessThan (slot.2 : Fp) numOwners <;> simp [h]

/-- The owners a setup call commits to. -/
def setupOwners (owners : SetupOwnersInput) (numOwners : Fp) : List PublicKey :=
  owners.toList.take numOwners.val

theorem activeKeys_setup (owners : SetupOwnersInput) (numOwners : Fp) :
    activeKeys numOwners owners.toList.zipIdx = setupOwners owners numOwners := by
  have hlen : owners.toList.length = 20 := owners.length_toList
  have hbound : 0 + owners.toList.length < fieldOrder := by
    rw [hlen]
    decide
  simpa [setupOwners] using activeKeys_zipIdx numOwners owners.toList 0 hbound

theorem computeSetupOwnersChain_eq (owners : SetupOwnersInput) (numOwners : Fp) :
    computeSetupOwnersChain E owners numOwners =
      computeOwnerChain E (setupOwners owners numOwners) := by
  unfold computeSetupOwnersChain computeOwnerChain
  rw [setupChain_foldl, activeKeys_setup]

theorem length_setupOwners (owners : SetupOwnersInput) {numOwners : Fp}
    (h : numOwners.val ≤ maxOwners) :
    (setupOwners owners numOwners).length = numOwners.val := by
  have hlen : owners.toList.length = maxOwners := owners.length_toList
  rw [setupOwners, List.length_take, hlen]
  omega

theorem coherent_of_assertCoherentSlots {numOwners : Fp}
    {slots : List (PublicKey × ℕ)}
    (h : assertCoherentSlots E numOwners slots = .ok ()) :
    OwnersCoherent E (activeKeys numOwners slots) := by
  induction slots with
  | nil => exact ⟨by simp [activeKeys], by simp [activeKeys], List.Pairwise.nil⟩
  | cons slot rest ih =>
      simp only [assertCoherentSlots, Check.bind_ok, Check.forM_ok,
        Check.assertTrue_ok, Check.assertFalse_ok] at h
      obtain ⟨_, _, _, hfilled, _, hcurve, _, hdistinct, hrest⟩ := h
      have hrest' := ih hrest
      rw [activeKeys_cons]
      by_cases hactive : lessThan (slot.2 : Fp) numOwners
      · have hpoint := assertOnCurveIf_ok.mp hcurve hactive
        have hne : slot.1 ≠ PublicKey.empty := fun hempty ↦ hfilled ⟨hactive, hempty⟩
        rw [if_pos hactive, List.singleton_append]
        refine ⟨?_, ?_, ?_⟩
        · rintro key hkey
          rcases List.mem_cons.mp hkey with rfl | hkey
          · exact hne
          · exact hrest'.ne_empty key hkey
        · rintro key hkey
          rcases List.mem_cons.mp hkey with rfl | hkey
          · exact hpoint
          · exact hrest'.onCurve key hkey
        · refine List.pairwise_cons.mpr ⟨?_, hrest'.distinct_x⟩
          intro key hkey heq
          obtain ⟨later, hlater, hsome⟩ := List.mem_filterMap.mp hkey
          by_cases hlt : lessThan (later.2 : Fp) numOwners
          · rw [if_pos hlt, Option.some.injEq] at hsome
            exact hdistinct later hlater ⟨by rw [heq, hsome], hactive, hlt⟩
          · simp [hlt] at hsome
      · simpa [hactive] using hrest'

/-- A setup array that passes the checks commits to a coherent list. -/
theorem assertCoherentSetupOwners_ok {owners : SetupOwnersInput} {numOwners : Fp}
    (h : assertCoherentSetupOwners E owners numOwners = .ok ()) :
    OwnersCoherent E (setupOwners owners numOwners) := by
  rw [← activeKeys_setup]
  exact coherent_of_assertCoherentSlots h

/-- Slots pass when the active ones are distinct points and the others empty. -/
theorem assertCoherentSlots_of {numOwners : Fp} {slots : List (PublicKey × ℕ)}
    (hslots : ∀ slot ∈ slots,
      (lessThan (slot.2 : Fp) numOwners → slot.1 ≠ PublicKey.empty ∧ E.onCurve slot.1 = true) ∧
        (¬lessThan (slot.2 : Fp) numOwners → slot.1 = PublicKey.empty))
    (hdistinct : slots.Pairwise fun a b ↦ lessThan (a.2 : Fp) numOwners →
      lessThan (b.2 : Fp) numOwners → a.1.x ≠ b.1.x) :
    assertCoherentSlots E numOwners slots = .ok () := by
  induction slots with
  | nil => rfl
  | cons slot rest ih =>
      obtain ⟨hhead, htail⟩ := List.pairwise_cons.mp hdistinct
      obtain ⟨hactive, hpadding⟩ := hslots slot List.mem_cons_self
      simp only [assertCoherentSlots, Check.bind_ok, Check.forM_ok, Check.assertTrue_ok,
        Check.assertFalse_ok, assertOnCurveIf_ok, exists_and_left, exists_const]
      refine ⟨?_, fun h ↦ (hactive h.1).1 h.2, fun h ↦ (hactive h).2, ?_,
        ih (fun s hs ↦ hslots s (List.mem_cons_of_mem _ hs)) htail⟩
      · exact or_iff_not_imp_left.mpr hpadding
      · exact fun later hlater h ↦ hhead later hlater h.2.1 h.2.2 h.1

/-- A coherent list that fits passes the setup checks. -/
theorem assertCoherentSetupOwners_setupInput {owners : List PublicKey}
    (h : OwnersCoherent E owners) (hle : owners.length ≤ maxOwners) :
    assertCoherentSetupOwners E (setupInput owners) (owners.length : Fp) = .ok () := by
  have hlist : (setupInput owners).toList =
      owners ++ List.replicate (maxOwners - owners.length) PublicKey.empty :=
    toList_padded hle PublicKey.empty
  have hmax : maxOwners < fieldOrder := by decide
  have hlength : (setupInput owners).toList.length = maxOwners := (setupInput owners).length_toList
  have hactive {i : ℕ} (hi : i < maxOwners) :
      lessThan (i : Fp) (owners.length : Fp) ↔ i < owners.length := by
    unfold lessThan
    rw [val_natCast_of_lt (hi.trans hmax), val_natCast_of_lt (hle.trans_lt hmax)]
  have hslot {k : PublicKey} {i : ℕ} (hget : (setupInput owners).toList[i]? = some k) :
      (i < owners.length → owners[i]? = some k) ∧ (¬i < owners.length → k = PublicKey.empty) := by
    rw [hlist] at hget
    refine ⟨fun hi ↦ by rwa [List.getElem?_append_left hi] at hget, fun hi ↦ ?_⟩
    rw [List.getElem?_append_right (not_lt.mp hi)] at hget
    exact List.eq_of_mem_replicate (List.mem_of_getElem? hget)
  have hbound {k : PublicKey} {i : ℕ} (hget : (setupInput owners).toList[i]? = some k) :
      i < maxOwners := by
    obtain ⟨hi, -⟩ := List.getElem?_eq_some_iff.mp hget
    exact hlength ▸ hi
  refine assertCoherentSlots_of ?_ ?_
  · rintro ⟨k, i⟩ hmem
    have hget := List.mk_mem_zipIdx_iff_getElem?.mp hmem
    refine ⟨fun hlt ↦ ?_, fun hlt ↦ (hslot hget).2 (mt (hactive (hbound hget)).mpr hlt)⟩
    have hk := List.mem_of_getElem? ((hslot hget).1 ((hactive (hbound hget)).mp hlt))
    exact ⟨h.ne_empty k hk, h.onCurve k hk⟩
  · rw [List.pairwise_iff_getElem]
    intro i j hi hj hij hlti hltj
    rw [List.length_zipIdx] at hi hj
    simp only [List.getElem_zipIdx, zero_add] at hlti hltj ⊢
    have hi' := (hactive (hlength ▸ hi)).mp hlti
    have hj' := (hactive (hlength ▸ hj)).mp hltj
    have hx := List.pairwise_iff_getElem.mp h.distinct_x i j hi' hj' hij
    have hsame {k : ℕ} (hk : k < (setupInput owners).toList.length) (hk' : k < owners.length) :
        (setupInput owners).toList[k] = owners[k] := by
      have hget := (hslot (List.getElem?_eq_getElem hk)).1 hk'
      rw [List.getElem?_eq_getElem hk', Option.some.injEq] at hget
      exact hget.symm
    rwa [hsame hi hi', hsame hj hj']

theorem setupOwners_setupInput {owners : List PublicKey} (hle : owners.length ≤ maxOwners) :
    setupOwners (setupInput owners) (owners.length : Fp) = owners := by
  have hmax : maxOwners < fieldOrder := by decide
  have hlist : (setupInput owners).toList =
      owners ++ List.replicate (maxOwners - owners.length) PublicKey.empty :=
    toList_padded hle PublicKey.empty
  rw [setupOwners, hlist, val_natCast_of_lt (hle.trans_lt hmax), List.take_left]

/-! ## Adding an owner -/

/-- The list after inserting `owner` behind every occurrence of the marked key,
or in front when nothing is marked. -/
def insertOwner (insertAfter : PublicKeyOption) (owner : PublicKey)
    (owners : List PublicKey) : List PublicKey :=
  (if insertAfter.isSome then [] else [owner]) ++
    owners.flatMap fun pk ↦
      if insertAfter.isSome ∧ pk = insertAfter.value then [pk, owner] else [pk]

theorem addOwner_foldl (owner : PublicKey) (insertAfter : PublicKeyOption)
    (slots : List PublicKeyOption) (s : AddState) :
    slots.foldl (addOwnerStep E owner insertAfter) s =
      { currentChain :=
          Chain.digest E.ownerChainLink s.currentChain (presentKeys slots)
        newChain :=
          Chain.digest E.ownerChainLink s.newChain
            ((presentKeys slots).flatMap fun pk ↦
              if insertAfter.isSome ∧ pk = insertAfter.value then [pk, owner]
              else [pk])
        foundOwner :=
          s.foundOwner || (presentKeys slots).any fun pk ↦ decide (pk.x = owner.x)
        foundPosition :=
          s.foundPosition ||
            (insertAfter.isSome && decide (insertAfter.value ∈ presentKeys slots)) } := by
  induction slots generalizing s with
  | nil => simp
  | cons o slots ih =>
      rw [List.foldl_cons, ih]
      cases hsome : o.isSome with
      | false => simp [addOwnerStep, hsome, presentKeys_cons_none hsome]
      | true =>
          rw [presentKeys_cons_some hsome]
          cases hafter : insertAfter.isSome with
          | false =>
              by_cases hx : o.value.x = owner.x <;>
                simp [addOwnerStep, hsome, hafter, hx]
          | true =>
              by_cases hpos : o.value = insertAfter.value
              · by_cases hx : insertAfter.value.x = owner.x <;>
                  simp [addOwnerStep, hsome, hafter, hx, hpos]
              · by_cases hx : o.value.x = owner.x <;>
                  simp [addOwnerStep, hsome, hafter, hx, hpos, Ne.symm hpos]

/-- The add circuit returns the chain of the list with the key inserted, and
accepts when the key is new, the position exists and the list is the
committed one. -/
theorem addOwnerToCommitment_spec (commitment : Fp) (owner : PublicKey)
    (witness : OwnerWitness) (insertAfter : PublicKeyOption) :
    (addOwnerToCommitment E commitment owner witness insertAfter).1 =
        computeOwnerChain E
          (insertOwner insertAfter owner (presentKeys witness.toList)) ∧
      ((addOwnerToCommitment E commitment owner witness insertAfter).2 = true ↔
        (∀ pk ∈ presentKeys witness.toList, pk.x ≠ owner.x) ∧
          (insertAfter.isSome = true →
            insertAfter.value ∈ presentKeys witness.toList) ∧
          computeOwnerChain E (presentKeys witness.toList) = commitment) := by
  simp only [addOwnerToCommitment, addOwner_foldl]
  cases hafter : insertAfter.isSome with
  | false => simp [insertOwner, computeOwnerChain, hafter]
  | true => simp [insertOwner, computeOwnerChain, hafter, and_assoc]

/-- In a coherent list the marked key occurs once, so one key is added. -/
theorem insertOwner_eq {owners : List PublicKey} (hnodup : owners.Nodup)
    {insertAfter : PublicKeyOption}
    (hpos : insertAfter.isSome = true → insertAfter.value ∈ owners)
    (owner : PublicKey) :
    ∃ front back, owners = front ++ back ∧
      insertOwner insertAfter owner owners = front ++ owner :: back := by
  cases hafter : insertAfter.isSome with
  | false => exact ⟨[], owners, rfl, by simp [insertOwner, hafter]⟩
  | true =>
      obtain ⟨front, back, rfl⟩ := List.append_of_mem (hpos hafter)
      refine ⟨front ++ [insertAfter.value], back, by simp, ?_⟩
      have hsplit := List.nodup_append.mp hnodup
      have hfront : ∀ pk ∈ front, pk ≠ insertAfter.value := fun pk hpk ↦
        hsplit.2.2 pk hpk _ List.mem_cons_self
      have hback : ∀ pk ∈ back, pk ≠ insertAfter.value := fun pk hpk heq ↦
        (List.nodup_cons.mp hsplit.2.1).1 (heq ▸ hpk)
      have hkeep : ∀ l : List PublicKey, (∀ pk ∈ l, pk ≠ insertAfter.value) →
          (l.flatMap fun pk ↦
            if insertAfter.isSome = true ∧ pk = insertAfter.value then [pk, owner]
            else [pk]) = l := by
        intro l
        induction l with
        | nil => simp
        | cons pk l ih =>
            intro hl
            have hpk := hl pk List.mem_cons_self
            have htail := ih fun q hq ↦ hl q (List.mem_cons_of_mem pk hq)
            rw [List.flatMap_cons, htail]
            simp [hpk]
      unfold insertOwner
      rw [List.flatMap_append, List.flatMap_cons, hkeep front hfront, hkeep back hback]
      simp [hafter]

theorem length_insertOwner {owners : List PublicKey} (hnodup : owners.Nodup)
    {insertAfter : PublicKeyOption}
    (hpos : insertAfter.isSome = true → insertAfter.value ∈ owners)
    (owner : PublicKey) :
    (insertOwner insertAfter owner owners).length = owners.length + 1 := by
  obtain ⟨front, back, rfl, heq⟩ := insertOwner_eq hnodup hpos owner
  rw [heq]
  simp
  omega

/-- Inserting a curve point with a new abscissa keeps the list coherent. -/
theorem OwnersCoherent.insertOwner {owners : List PublicKey}
    (h : OwnersCoherent E owners) {insertAfter : PublicKeyOption}
    (hpos : insertAfter.isSome = true → insertAfter.value ∈ owners)
    {owner : PublicKey} (hne : owner ≠ PublicKey.empty)
    (hcurve : E.onCurve owner = true) (hnew : ∀ pk ∈ owners, pk.x ≠ owner.x) :
    OwnersCoherent E (insertOwner insertAfter owner owners) := by
  obtain ⟨front, back, rfl, heq⟩ := insertOwner_eq h.nodup hpos owner
  rw [heq]
  have hmem : ∀ pk ∈ front ++ owner :: back, pk = owner ∨ pk ∈ front ++ back := by
    intro pk hpk
    simp only [List.mem_append, List.mem_cons] at hpk ⊢
    rcases hpk with hpk | hpk | hpk
    · exact Or.inr (Or.inl hpk)
    · exact Or.inl hpk
    · exact Or.inr (Or.inr hpk)
  refine ⟨?_, ?_, ?_⟩
  · intro pk hpk
    rcases hmem pk hpk with rfl | hold
    · exact hne
    · exact h.ne_empty pk hold
  · intro pk hpk
    rcases hmem pk hpk with rfl | hold
    · exact hcurve
    · exact h.onCurve pk hold
  · have hpair := List.pairwise_append.mp h.distinct_x
    refine List.pairwise_append.mpr ⟨hpair.1, ?_, ?_⟩
    · refine List.pairwise_cons.mpr ⟨?_, hpair.2.1⟩
      intro pk hpk
      exact (hnew pk (List.mem_append_right front hpk)).symm
    · intro a ha b hb
      rcases List.mem_cons.mp hb with rfl | hb
      · exact hnew a (List.mem_append_left back ha)
      · exact hpair.2.2 a ha b hb

/-- The list without any occurrence of `owner`. -/
def removeOwner (owner : PublicKey) (owners : List PublicKey) : List PublicKey :=
  owners.filter fun pk ↦ decide (pk ≠ owner)

theorem removeOwner_foldl (owner : PublicKey) (slots : List PublicKeyOption)
    (s : RemoveState) :
    slots.foldl (removeOwnerStep E owner) s =
      { currentChain :=
          Chain.digest E.ownerChainLink s.currentChain (presentKeys slots)
        newChain :=
          Chain.digest E.ownerChainLink s.newChain
            (removeOwner owner (presentKeys slots))
        foundOwner := s.foundOwner || decide (owner ∈ presentKeys slots)
        remaining :=
          s.remaining + ((removeOwner owner (presentKeys slots)).length : Fp) } := by
  induction slots generalizing s with
  | nil => simp [removeOwner]
  | cons o slots ih =>
      rw [List.foldl_cons, ih]
      cases hsome : o.isSome with
      | false =>
          simp [removeOwnerStep, hsome, presentKeys_cons_none hsome, toField]
      | true =>
          rw [presentKeys_cons_some hsome]
          by_cases heq : o.value = owner
          · simp [removeOwnerStep, removeOwner, hsome, heq, toField]
          · simp [removeOwnerStep, removeOwner, hsome, heq, Ne.symm heq, toField]
            ring

/-- The remove circuit returns the chain of the list without the key. -/
theorem removeOwnerFromCommitment_spec (commitment : Fp) (owner : PublicKey)
    (witness : OwnerWitness) :
    (removeOwnerFromCommitment E commitment owner witness).1 =
        computeOwnerChain E (removeOwner owner (presentKeys witness.toList)) ∧
      ((removeOwnerFromCommitment E commitment owner witness).2 = true →
        owner ∈ presentKeys witness.toList ∧
          computeOwnerChain E (presentKeys witness.toList) = commitment ∧
          removeOwner owner (presentKeys witness.toList) ≠ []) := by
  simp only [removeOwnerFromCommitment, removeOwner_foldl]
  refine ⟨rfl, ?_⟩
  intro hvalid
  simp only [Bool.false_or, zero_add, Bool.and_eq_true, decide_eq_true_eq] at hvalid
  obtain ⟨⟨hmem, hchain⟩, hremaining⟩ := hvalid
  refine ⟨hmem, hchain, ?_⟩
  intro hnil
  simp [hnil, greaterThan] at hremaining

theorem removeOwner_eq_erase {owners : List PublicKey} (hnodup : owners.Nodup)
    (owner : PublicKey) : removeOwner owner owners = owners.erase owner := by
  rw [hnodup.erase_eq_filter]
  unfold removeOwner
  congr 1
  funext pk
  simp [bne, beq_eq_decide]

theorem length_removeOwner {owners : List PublicKey} (hnodup : owners.Nodup)
    {owner : PublicKey} (hmem : owner ∈ owners) :
    (removeOwner owner owners).length + 1 = owners.length := by
  rw [removeOwner_eq_erase hnodup, List.length_erase_of_mem hmem]
  have hpos := List.length_pos_of_mem hmem
  omega

theorem OwnersCoherent.removeOwner {owners : List PublicKey}
    (h : OwnersCoherent E owners) (owner : PublicKey) :
    OwnersCoherent E (removeOwner owner owners) :=
  h.sublist List.filter_sublist

end MinaGuard
