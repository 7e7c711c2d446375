import MinaGuard.Clients.ChildConfig
import MinaGuard.Contract.MethodSpec

/-!
# One owner list in four orders

What a client checks, what the contract reserves, what the events tell and what
the later bundles carry is one list of owners, in the order in which they were
added by base58 text.
-/

namespace MinaGuard

open Foundations

variable {E : Env} (B : Base58 E)

/-- The texts that decode are those that keys are written as. -/
def Base58.Canonical : Prop := ∀ text k, B.fromBase58 text = some k → B.toBase58 k = text

theorem Base58.Canonical.onCurve {B : Base58 E} (h : B.Canonical) {text : String} {k : PublicKey}
    (hk : B.fromBase58 text = some k) : E.onCurve k = true := by
  rw [← h text k hk, B.fromBase58_toBase58] at hk
  exact (Option.ite_none_right_eq_some.mp hk).1

theorem addSorted_perm (store : OwnerStore) (owner : PublicKey) :
    (store.addSorted B owner).owners.Perm (owner :: store.owners) := by
  unfold OwnerStore.addSorted
  cases hidx : store.sortedIndex B owner with
  | none => exact List.perm_append_singleton owner store.owners
  | some idx =>
      have hle : idx ≤ store.owners.length := by
        have hpreferred := store.preferred_le B owner
        rwa [hidx] at hpreferred
      exact List.perm_insertIdx owner store.owners hle

theorem sortedStore_perm (owners : List PublicKey) :
    (sortedStore B owners).owners.Perm owners := by
  have hfold (store : OwnerStore) : (owners.foldl (OwnerStore.addSorted B) store).owners.Perm
      (store.owners ++ owners) := by
    induction owners generalizing store with
    | nil => simp
    | cons owner owners ih =>
        rw [List.foldl_cons]
        refine (ih (store.addSorted B owner)).trans ?_
        refine ((addSorted_perm B store owner).append_right owners).trans ?_
        exact List.perm_middle.symm
  exact hfold ⟨[]⟩

theorem publicKeyOf_ok {value : JsValue} {k : PublicKey} (h : publicKeyOf B value = .ok k) :
    ∃ text, value = .string text ∧ B.fromBase58 text = some k := by
  unfold publicKeyOf at h
  cases value with
  | string text =>
      refine ⟨text, rfl, ?_⟩
      have hbind : (JsValue.string text).isString?.bind B.fromBase58 = B.fromBase58 text := rfl
      rw [hbind] at h
      split at h
      · next k' hk' => rw [hk', Except.ok.inj h]
      · cases h
  | _ => cases h

variable {B}

theorem publicKeyOf_of_listedOwner {value : JsValue} {k : PublicKey}
    (h : listedOwner B value = .ok k) : publicKeyOf B value = .ok k := by
  unfold listedOwner at h
  split at h
  · cases h
  · exact h

theorem listedOwner_toBase58 {k : PublicKey} (h : E.onCurve k = true) :
    listedOwner B (.string (B.toBase58 k)) = .ok k := by
  have hne : B.toBase58 k ≠ B.emptyKey := by
    rw [ne_eq, B.toBase58_eq_emptyKey]
    rintro rfl
    rw [B.empty_not_onCurve] at h
    cases h
  have hfalse : (JsValue.string (B.toBase58 k)).strictEq (.string B.emptyKey) = false :=
    decide_eq_false hne
  unfold listedOwner
  rw [hfalse, publicKeyOf_toBase58 B h]
  rfl

/-- Bundled owners are keys in their text form. -/
theorem values_of_mapM_listedOwner (hcanonical : B.Canonical) {values : List JsValue}
    {owners : List PublicKey} (h : values.mapM (listedOwner B) = .ok owners) :
    values = (owners.map B.toBase58).map .string ∧ ∀ k ∈ owners, E.onCurve k = true := by
  have hall := Check.mapM_ok h
  clear h
  induction hall with
  | nil => exact ⟨rfl, fun k hk ↦ absurd hk List.not_mem_nil⟩
  | cons hhead _ ih =>
      obtain ⟨text, rfl, hk⟩ := publicKeyOf_ok B (publicKeyOf_of_listedOwner hhead)
      obtain ⟨rfl, hcurve⟩ := ih
      refine ⟨?_, List.forall_mem_cons.mpr ⟨hcanonical.onCurve hk, hcurve⟩⟩
      rw [List.map_cons, List.map_cons, hcanonical _ _ hk]

theorem integerUpTo_ok {value : JsValue} {max n : ℕ} (h : integerUpTo value max = some n) :
    1 ≤ n ∧ n ≤ max ∧ value.toFp = .ok (n : Fp) := by
  unfold integerUpTo at h
  split at h
  · next q =>
      obtain ⟨⟨hden, hone, hmax⟩, hn⟩ := Option.ite_none_right_eq_some.mp h
      obtain rfl := Option.some.inj hn
      obtain ⟨m, hm⟩ := Int.eq_ofNat_of_zero_le (zero_le_one.trans hone)
      refine ⟨by omega, by omega, ?_⟩
      change (if q.den = 1 then Except.ok (q.num : Fp) else _) = _
      rw [if_pos hden, hm]
      simp
  · cases h

theorem integerUpTo_natCast {n max : ℕ} (hpos : 1 ≤ n) (hle : n ≤ max) :
    integerUpTo (.number n) max = some n := by
  have hlow : (1 : ℤ) ≤ (n : ℚ).num := by
    rw [Rat.num_natCast]
    exact_mod_cast hpos
  have hhigh : (n : ℚ).num ≤ max := by
    rw [Rat.num_natCast]
    exact_mod_cast hle
  refine (if_pos ⟨Rat.den_natCast n, hlow, hhigh⟩).trans ?_
  rw [Rat.num_natCast, Int.toNat_natCast]

/-- A configuration as an accepted bundle has it. -/
structure Announced (E : Env) (owners : List PublicKey) (threshold : ℕ) : Prop where
  coherent : OwnersCoherent E owners
  threshold_pos : 1 ≤ threshold
  threshold_le : threshold ≤ owners.length
  length_le : owners.length ≤ maxOwners

theorem fieldText_x_nodup {owners : List PublicKey} :
    (owners.map fun k ↦ fieldText k.x).Nodup ↔ owners.Pairwise fun a b ↦ a.x ≠ b.x := by
  rw [List.Nodup, List.pairwise_map]
  simp only [ne_eq, fieldText_injective.eq_iff]

variable (B) in
/-- The owners in the order that a commitment covers. -/
def OwnerOrder.arrange (owners : List PublicKey) : OwnerOrder → List PublicKey
  | .reserved => owners
  | .sorted => (sortedStore B owners).owners

theorem checkedChildConfigHash_ok (hcanonical : B.Canonical) {childOwners childThreshold : JsValue}
    {order : OwnerOrder} {checked : CheckedConfig}
    (h : checkedChildConfigHash B childOwners childThreshold order = .ok checked) :
    ∃ owners threshold,
      childOwners = .array ((owners.map B.toBase58).map .string) ∧
      childThreshold.toFp = .ok ((threshold : ℕ) : Fp) ∧
      Announced E owners threshold ∧
      checked.config = ⟨owners.map B.toBase58, threshold⟩ ∧
      checked.hash = E.childConfigHash (computeOwnerChain E (order.arrange B owners)) threshold
        owners.length := by
  unfold checkedChildConfigHash at h
  cases childOwners with
  | array values =>
      change (if _ then _ else if _ then _ else _) = _ at h
      split at h
      · cases h
      · split at h
        · cases h
        · next hpos hmax =>
            split at h
            · cases h
            · next threshold hthreshold =>
                split at h
                · cases h
                · next owners howners =>
                    obtain ⟨hvalues, hcurve⟩ := values_of_mapM_listedOwner hcanonical howners
                    obtain ⟨hone, hle, hfield⟩ := integerUpTo_ok hthreshold
                    have hlength : values.length = owners.length := by simp [hvalues]
                    split at h
                    · cases h
                    · next hdistinct =>
                        obtain rfl := Except.ok.inj h
                        refine ⟨owners, threshold, congrArg JsValue.array hvalues, hfield, ?_, ?_,
                          ?_⟩
                        · refine ⟨⟨?_, hcurve, fieldText_x_nodup.mp (not_not.mp hdistinct)⟩, hone,
                            hlength ▸ hle, hlength ▸ not_lt.mp hmax⟩
                          rintro key hkey rfl
                          have hempty := hcurve _ hkey
                          rw [B.empty_not_onCurve] at hempty
                          cases hempty
                        · simp [hvalues, List.filterMap_map, Function.comp_def, JsValue.isString?]
                        · rw [hlength]
                          cases order <;> rfl
  | _ => cases h

theorem Announced.perm {owners owners' : List PublicKey} {threshold : ℕ}
    (h : Announced E owners threshold) (hperm : owners'.Perm owners) :
    Announced E owners' threshold where
  coherent :=
    { ne_empty := fun key hkey ↦ h.coherent.ne_empty key (hperm.mem_iff.mp hkey)
      onCurve := fun key hkey ↦ h.coherent.onCurve key (hperm.mem_iff.mp hkey)
      distinct_x := (hperm.pairwise_iff fun hne ↦ Ne.symm hne).mpr h.coherent.distinct_x }
  threshold_pos := h.threshold_pos
  threshold_le := hperm.length_eq ▸ h.threshold_le
  length_le := hperm.length_eq ▸ h.length_le

/-- The check passes on the texts of an announced configuration. -/
theorem checkedChildConfigHash_announced {owners : List PublicKey} {threshold : ℕ}
    (h : Announced E owners threshold) (order : OwnerOrder) :
    checkedChildConfigHash B (.array ((owners.map B.toBase58).map .string)) (.number threshold)
        order =
      .ok ⟨⟨owners.map B.toBase58, threshold⟩,
        E.childConfigHash (computeOwnerChain E (order.arrange B owners)) threshold
          owners.length⟩ := by
  have hlength : ((owners.map B.toBase58).map JsValue.string).length = owners.length := by simp
  have hread : ((owners.map B.toBase58).map JsValue.string).mapM (listedOwner B) = .ok owners := by
    rw [List.map_map]
    exact Check.mapM_map_ok fun k hk ↦ listedOwner_toBase58 (h.coherent.onCurve k hk)
  have htexts : ((owners.map B.toBase58).map JsValue.string).filterMap JsValue.isString? =
      owners.map B.toBase58 := by
    rw [List.filterMap_map]
    exact List.filterMap_some
  have hpos : owners.length ≠ 0 := by
    have hone := h.threshold_pos
    have hle := h.threshold_le
    omega
  unfold checkedChildConfigHash JsValue.isArray?
  dsimp only
  rw [hlength, if_neg hpos, if_neg (not_lt.mpr h.length_le),
    integerUpTo_natCast h.threshold_pos h.threshold_le]
  dsimp only
  rw [hread, htexts]
  dsimp only
  rw [if_neg (not_not.mpr (fieldText_x_nodup.mpr h.coherent.distinct_x))]
  cases order <;> rfl

/-- What an accepted proposal bundle announces. -/
theorem assertCreateChildProposeConfig_ok (hcanonical : B.Canonical) {input : JsValue}
    {config : ChildConfig} (h : assertCreateChildProposeConfig B input = .ok (some config)) :
    ∃ owners,
      input.get "childOwners" = .array ((owners.map B.toBase58).map .string) ∧
      (input.get "childThreshold").toFp = .ok ((config.threshold : ℕ) : Fp) ∧
      Announced E owners config.threshold ∧
      config.owners = owners.map B.toBase58 ∧
      input.get "createChildConfigHash" = .string (fieldText (E.childConfigHash
        (computeOwnerChain E (sortedStore B owners).owners) config.threshold
          owners.length)) := by
  unfold assertCreateChildProposeConfig at h
  obtain ⟨txType, -, h⟩ := Check.bind_ok.mp h
  split at h
  · cases h
  · obtain ⟨checked, hchecked, h⟩ := Check.bind_ok.mp h
    obtain ⟨owners, threshold, howners, hthreshold, hannounced, hconfig, hhash⟩ :=
      checkedChildConfigHash_ok hcanonical hchecked
    split at h
    · cases h
    · next text htext =>
        split at h
        · cases h
        · split at h
          · cases h
          · next heq =>
              obtain rfl : checked.config = config := Option.some.inj (Check.pure_ok.mp h)
              have hvalue : input.get "createChildConfigHash" = .string text := by
                cases hget : input.get "createChildConfigHash" with
                | string text' =>
                    rw [hget] at htext
                    exact congrArg JsValue.string (Option.some.inj htext)
                | _ => simp [hget, JsValue.isString?] at htext
              rw [hconfig]
              refine ⟨owners, howners, hthreshold, hannounced, rfl, ?_⟩
              rw [hvalue, ← not_not.mp heq, hhash]
              rfl

/-! ## The events of a reservation -/

/-- The element of an indexed list at one place. -/
theorem filter_zipIdx {α : Type} (l : List α) (start i : ℕ) (hi : i < l.length) :
    (l.zipIdx start).filter (fun x ↦ x.2 = start + i) = [(l[i], start + i)] := by
  induction l generalizing start i with
  | nil => exact absurd hi (Nat.not_lt_zero i)
  | cons a l ih =>
      have hlater : ∀ x ∈ l.zipIdx (start + 1), start < x.2 :=
        fun x hx ↦ (List.mem_zipIdx hx).1
      cases i with
      | zero =>
          have hnone : (l.zipIdx (start + 1)).filter (fun x ↦ x.2 = start) = [] :=
            List.filter_eq_nil_iff.mpr fun x hx ↦ by simpa using (hlater x hx).ne'
          simp [List.zipIdx_cons, hnone]
      | succ i =>
          have hrest := ih (start + 1) i (Nat.lt_of_succ_lt_succ hi)
          rw [List.zipIdx_cons, List.filter_cons_of_neg (by simp), List.getElem_cons_succ]
          convert hrest using 2
          · funext x
            congr 1
            rw [Nat.add_assoc, Nat.add_comm 1 i]
          · rw [Nat.add_assoc, Nat.add_comm 1 i]

section Events

variable {hash commitment : Fp} {child : PublicKey} {slots : List PublicKey} {threshold : ℕ}
  {delivered : List (ℕ × Event)}

/-- The events of a reservation in order. -/
def reservationEvents (hash : Fp) (child : PublicKey) (commitment : Fp) (slots : List PublicKey)
    (threshold : ℕ) : List Event :=
  .createChildConfig hash child commitment threshold slots.length ::
    (publishedOwners (setupInput slots) slots.length).map fun slot ↦
      .createChildOwner hash slot.1 slot.2

/-- Events that all orders of delivery have in common. -/
theorem filter_indexed {p : IndexedEvent → Bool} {q : Event → Bool} {e : Event}
    {events : List Event} (hperm : (delivered.map Prod.snd).Perm events)
    (hsame : ∀ x : ℕ × Event, p (indexed B x) = q x.2) (hone : events.filter q = [e]) :
    ∃ height, (delivered.map (indexed B)).filter p = [indexed B (height, e)] := by
  have hfilter : (delivered.map (indexed B)).filter p =
      (delivered.filter fun x ↦ q x.2).map (indexed B) := by
    rw [List.filter_map]
    exact congrArg (List.map _) (List.filter_congr fun x _ ↦ hsame x)
  have hsnd : (delivered.filter fun x ↦ q x.2).map Prod.snd = [e] := by
    rw [← List.perm_singleton, ← hone]
    have hmapped := hperm.filter q
    rwa [List.filter_map] at hmapped
  obtain ⟨x, hx, rfl⟩ := List.map_eq_singleton_iff.mp hsnd
  exact ⟨x.1, by rw [hfilter, hx]; rfl⟩

theorem lookup_payload (e : Event) (key : String) :
    (e.payload B).lookup key = (e.components.lookup key).map fun v ↦
      .string (serializeValue B v) :=
  lookup_toSerializableObject B e.components key

variable (B) in
/-- The event publishes the owner of slot `i`. -/
def isSlot (i : ℕ) (e : Event) : Bool :=
  e.name = "createChildOwner" ∧ memberNumber ((e.payload B).lookup "index") = some (i : ℚ)

theorem memberNumber_fieldText {j : ℕ} (hj : j ≤ maxOwners) :
    memberNumber (some (.string (fieldText (j : Fp)))) = some (j : ℚ) := by
  have hmax : maxOwners < fieldOrder := by decide
  have hsmall : maxOwners ≤ 2 ^ 53 := by decide
  unfold memberNumber fieldText
  dsimp only
  rw [val_natCast_of_lt (hj.trans_lt hmax), toNumber_decimal_of_le (hj.trans hsmall)]

theorem isSlot_createChildOwner {i j : ℕ} (hj : j ≤ maxOwners) (k : PublicKey) :
    isSlot B i (.createChildOwner hash k (j : Fp)) = decide (j = i) := by
  have hindex : ((Event.createChildOwner hash k (j : Fp)).payload B).lookup "index" =
      some (.string (fieldText (j : Fp))) := lookup_payload _ _
  unfold isSlot
  rw [hindex, memberNumber_fieldText hj, decide_eq_decide, Option.some.injEq, Nat.cast_inj]
  exact and_iff_right rfl

/-- Each active slot is published once. -/
theorem filter_isSlot (h : Announced E slots threshold) {i : ℕ} (hi : i < slots.length) :
    (reservationEvents hash child commitment slots threshold).filter (isSlot B i) =
      [.createChildOwner hash slots[i] (i : Fp)] := by
  have hmax : maxOwners < fieldOrder := by decide
  have hlength : (setupInput slots).toList.length = maxOwners := (setupInput slots).length_toList
  have hi' : i < (setupInput slots).toList.length := by
    rw [hlength]
    exact hi.trans_le h.length_le
  have hget : (setupInput slots).toList[i] = slots[i] := by
    have hlist : (setupInput slots).toList =
        slots ++ List.replicate (maxOwners - slots.length) PublicKey.empty :=
      toList_padded h.length_le PublicKey.empty
    have hsome : (setupInput slots).toList[i]? = some slots[i] := by
      rw [hlist, List.getElem?_append_left hi, List.getElem?_eq_getElem hi]
    rwa [List.getElem?_eq_getElem hi', Option.some.injEq] at hsome
  have hactive : lessThan (i : Fp) (slots.length : Fp) := by
    unfold lessThan
    rwa [val_natCast_of_lt ((hi.trans_le h.length_le).trans hmax),
      val_natCast_of_lt (h.length_le.trans_lt hmax)]
  have hconfig : isSlot B i (.createChildConfig hash child commitment threshold slots.length) =
      false := decide_eq_false fun hname ↦ by simp [Event.name] at hname
  have hplace := filter_zipIdx (setupInput slots).toList 0 i hi'
  simp only [zero_add] at hplace
  unfold reservationEvents publishedOwners
  rw [List.filter_cons_of_neg (by simp [hconfig]), List.map_map, List.filter_map]
  have hcongr : (setupInput slots).toList.zipIdx.filter (isSlot B i ∘ ((fun slot ↦
      Event.createChildOwner hash slot.1 slot.2) ∘ fun slot ↦
        (if lessThan (slot.2 : Fp) (slots.length : Fp) then slot.1 else PublicKey.empty,
          (slot.2 : Fp)))) =
      (setupInput slots).toList.zipIdx.filter fun x ↦ x.2 = i := by
    refine List.filter_congr fun x hx ↦ ?_
    have hx2 : x.2 < maxOwners := by
      have hlt := (List.mem_zipIdx hx).2.1
      omega
    exact isSlot_createChildOwner hx2.le _
  rw [hcongr, hplace]
  simp [hactive, hget]

/-- One slot is read back. -/
theorem slotOwner_reservation (h : Announced E slots threshold)
    (hperm : (delivered.map Prod.snd).Perm
      (reservationEvents hash child commitment slots threshold))
    {ownerEvents : List IndexedEvent}
    (hevents : ownerEvents.Perm ((delivered.map (indexed B)).filter fun e ↦
      e.eventType = "createChildOwner")) {i : ℕ} (hi : i < slots.length) :
    slotOwner B ownerEvents i = .ok (B.toBase58 slots[i]) := by
  obtain ⟨height, hone⟩ := filter_indexed (B := B) (p := fun e ↦
    e.eventType = "createChildOwner" ∧
      memberNumber (e.payload.lookup "index") = some (i : ℚ)) hperm (q := isSlot B i)
    (fun x ↦ rfl) (filter_isSlot h hi)
  have hslot : (ownerEvents.filter fun e ↦
      memberNumber (e.payload.lookup "index") = some (i : ℚ)) =
        [indexed B (height, .createChildOwner hash slots[i] (i : Fp))] := by
    rw [← List.perm_singleton, ← hone]
    refine (hevents.filter _).trans ?_
    rw [List.filter_filter]
    refine List.Perm.of_eq (List.filter_congr fun e _ ↦ ?_)
    rw [← Bool.decide_and, decide_eq_decide, and_comm]
  have howner : (indexed B (height, .createChildOwner hash slots[i] (i : Fp))).payload.lookup
      "owner" = some (.string (B.toBase58 slots[i])) := lookup_payload _ _
  have hkey := h.coherent.ne_empty slots[i] (List.getElem_mem hi)
  have hvalid : ¬((B.toBase58 slots[i]).length ≤ 10 ∨ B.toBase58 slots[i] = B.emptyKey) := by
    rw [not_or, B.toBase58_eq_emptyKey]
    exact ⟨not_le.mpr (B.length_toBase58 _), hkey⟩
  unfold slotOwner
  rw [hslot]
  dsimp only
  rw [howner]
  dsimp only
  rw [if_neg hvalid]

/-- A reservation is read back, whatever the order of its events. -/
theorem parseChildConfigFromEvents_reservation (h : Announced E slots threshold)
    (hperm : (delivered.map Prod.snd).Perm
      (reservationEvents hash child commitment slots threshold)) :
    parseChildConfigFromEvents B (delivered.map (indexed B)) (B.toBase58 child) =
      .ok (some ⟨slots.map B.toBase58, threshold⟩) := by
  have hmax : maxOwners < fieldOrder := by decide
  have hsmall : maxOwners ≤ 2 ^ 53 := by decide
  have hconfigs : (reservationEvents hash child commitment slots threshold).filter (fun e ↦
      e.name = "createChildConfig") =
        [.createChildConfig hash child commitment threshold slots.length] := by
    unfold reservationEvents
    rw [List.filter_cons_of_pos (by rfl), List.filter_eq_nil_iff.mpr]
    intro e he
    obtain ⟨slot, -, rfl⟩ := List.mem_map.mp he
    simp [Event.name]
  obtain ⟨height, hconfig⟩ := filter_indexed (B := B) (p := fun e ↦
    e.eventType = "createChildConfig") hperm (q := fun e ↦ e.name = "createChildConfig")
    (fun x ↦ rfl) hconfigs
  have hnumber {m : ℕ} (hm : m ≤ maxOwners) :
      (memberNumberOrZero (some (.string (fieldText (m : Fp))))).bind toNatural = some m := by
    change (memberNumber (some (.string (fieldText (m : Fp))))).bind toNatural = _
    rw [memberNumber_fieldText hm, Option.bind_some, toNatural_natCast (hm.trans hsmall)]
  have haccount : (indexed B (height, .createChildConfig hash child commitment threshold
      slots.length)).payload.lookup "childAccount" = some (.string (B.toBase58 child)) :=
    lookup_payload _ _
  have hthreshold : (indexed B (height, .createChildConfig hash child commitment threshold
      slots.length)).payload.lookup "threshold" = some (.string (fieldText (threshold : Fp))) :=
    lookup_payload _ _
  have hnum : (indexed B (height, .createChildConfig hash child commitment threshold
      slots.length)).payload.lookup "numOwners" = some (.string (fieldText (slots.length : Fp))) :=
    lookup_payload _ _
  have hvalid : ¬(slots.length < 1 ∨ threshold < 1 ∨ slots.length < threshold) := by
    have hone := h.threshold_pos
    have hle := h.threshold_le
    omega
  unfold parseChildConfigFromEvents
  rw [hconfig]
  dsimp only
  rw [haccount, hthreshold, hnum, if_neg (not_not.mpr rfl),
    hnumber (h.threshold_le.trans h.length_le), hnumber h.length_le]
  dsimp only
  rw [if_neg hvalid]
  have howners : (List.range slots.length).mapM (slotOwner B
      (((delivered.map (indexed B)).filter fun e ↦ e.eventType = "createChildOwner").mergeSort
        fun a b ↦ numberLe (memberNumberOrZero (a.payload.lookup "index"))
          (memberNumberOrZero (b.payload.lookup "index")))) =
        .ok (slots.map B.toBase58) := by
    have htexts : (List.range slots.length).map (fun i ↦ (slots.map B.toBase58)[i]?.getD "") =
        slots.map B.toBase58 := by
      apply List.ext_getElem
      · simp
      · intro i hi hi'
        simp at hi'
        simp [hi']
    rw [← htexts]
    refine Check.mapM_of_forall fun i hi ↦ ?_
    have hi' := List.mem_range.mp hi
    rw [slotOwner_reservation h hperm (List.mergeSort_perm _ _) hi']
    simp [hi']
  rw [howners]
  rfl

end Events

end MinaGuard
