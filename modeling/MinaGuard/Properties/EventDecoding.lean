import MinaGuard.Clients.JsValue
import MinaGuard.Indexer.Delivery
import MinaGuard.Instance.Keys

/-!
# Event decoding is exact

What is decoded are the encodings of the values of the event types, up to zeros
in front of numbers, and nothing else.  Of an archive's answer there is one entry
for each event of an applied update that a proof authorizes.
-/

namespace MinaGuard

open Foundations

/-- The text is the decimal form of the number, perhaps after zeros. -/
def Spells (text : String) (n : ℕ) : Prop :=
  ∃ zeros, text.toList = List.replicate zeros '0' ++ (decimal n).toList

theorem spells_decimal (n : ℕ) : Spells (decimal n) n := ⟨0, rfl⟩

theorem ofDigitChars_zeros (zeros : ℕ) (digits : List Char) :
    Nat.ofDigitChars 10 (List.replicate zeros '0' ++ digits) 0 =
      Nat.ofDigitChars 10 digits 0 := by
  induction zeros with
  | zero => rfl
  | succ zeros ih =>
      rw [List.replicate_succ, List.cons_append, Nat.ofDigitChars_cons]
      exact ih

/-- Digits are zeros and the digits of their value. -/
theorem exists_zeros {digits : List Char} (hne : digits ≠ [])
    (hdigits : ∀ c ∈ digits, c.isDigit = true) :
    ∃ zeros, digits =
      List.replicate zeros '0' ++ Nat.toDigits 10 (Nat.ofDigitChars 10 digits 0) := by
  induction digits with
  | nil => exact absurd rfl hne
  | cons c rest ih =>
      by_cases hc : c = '0'
      · subst hc
        by_cases hrest : rest = []
        · subst hrest
          exact ⟨0, rfl⟩
        · obtain ⟨zeros, hzeros⟩ := ih hrest fun d hd ↦ hdigits d (List.mem_cons_of_mem _ hd)
          refine ⟨zeros + 1, ?_⟩
          rw [List.replicate_succ, List.cons_append, Nat.ofDigitChars_cons]
          exact congrArg ('0' :: ·) hzeros
      · exact ⟨0, (toDigits_ofDigitChars hc hdigits).symm⟩

theorem ofDecimal_eq_some {text : String} {n : ℕ} : ofDecimal text = some n ↔ Spells text n := by
  have hdecimal : (decimal n).toList = Nat.toDigits 10 n := Nat.toList_repr
  unfold ofDecimal Spells
  rw [hdecimal, Option.ite_none_right_eq_some, Option.some.injEq]
  constructor
  · rintro ⟨⟨hne, hall⟩, rfl⟩
    exact exists_zeros hne fun c hc ↦ List.all_eq_true.mp hall c hc
  · rintro ⟨zeros, htext⟩
    rw [htext]
    refine ⟨⟨?_, ?_⟩, ?_⟩
    · intro hnil
      exact Nat.toDigits_ne_nil (List.append_eq_nil_iff.mp hnil).2
    · rw [List.all_eq_true]
      intro c hc
      rcases List.mem_append.mp hc with hc | hc
      · rw [List.eq_of_mem_replicate hc]
        decide
      · exact Nat.isDigit_of_mem_toDigits (by decide) (by decide) hc
    · rw [ofDigitChars_zeros, Nat.ofDigitChars_ten_toDigits]

/-- The values of an event type: a component of each kind under each name. -/
def EventShape.Value (shape : EventShape) : Type :=
  { components : List (String × EventValue) // components.map (fun c ↦ (c.1, c.2.kind)) = shape }

namespace EventShape.Value

variable {shape : EventShape} {E : Env}

/-- The field elements of a value. -/
def toFields (v : shape.Value) : List Fp := v.1.flatMap fun c ↦ c.2.toFields

def payload (B : Base58 E) (v : shape.Value) : Payload := toSerializableObject B v.1

/-- The texts an archive has for a value of the event type at an index. -/
def archiveData (index : ℕ) (v : shape.Value) : ArchiveData :=
  .array ((decimal index :: v.toFields.map fieldText).map ArchiveValue.text)

theorem length_toFields (v : shape.Value) : v.toFields.length = shape.sizeInFields := by
  obtain ⟨components, rfl⟩ := v
  unfold toFields EventShape.sizeInFields
  rw [List.length_flatMap, List.map_map]
  congr 1
  exact List.map_congr_left fun c _ ↦ c.2.length_toFields

end EventShape.Value

/-- The data spells an index and field elements. -/
def ArchiveData.Encodes (data : ArchiveData) (index : ℕ) (fields : List Fp) : Prop :=
  ∃ first rest, data = .array ((first :: rest).map ArchiveValue.text) ∧ Spells first index ∧
    List.Forall₂ (fun text (x : Fp) ↦ Spells text x.val) rest fields

theorem EventShape.Value.encodes {shape : EventShape} (index : ℕ) (v : shape.Value) :
    (v.archiveData index).Encodes index v.toFields := by
  refine ⟨_, _, rfl, spells_decimal index, ?_⟩
  rw [List.forall₂_map_left_iff]
  exact List.forall₂_same.mpr fun x _ ↦ spells_decimal x.val

/-- The value can be recovered from the payload. -/
theorem EventShape.Value.payload_injective {shape : EventShape} {E : Env} (B : Base58 E) :
    Function.Injective (EventShape.Value.payload B : shape.Value → Payload) := by
  intro v w h
  exact Subtype.ext (toSerializableObject_injective (v.2.trans w.2.symm) h)

/-- Reading takes exactly the field elements of a value. -/
theorem EventShape.read_eq_some {shape : EventShape} {fields : List Fp}
    {components : List (String × EventValue)} (h : shape.read fields = some components) :
    components.map (fun c ↦ (c.1, c.2.kind)) = shape ∧
      (components.flatMap fun c ↦ c.2.toFields) = fields := by
  fun_induction EventShape.read shape fields generalizing components with
  | case1 =>
      obtain rfl := Option.some.inj h
      exact ⟨rfl, rfl⟩
  | case2 name shape x fields ih =>
      obtain ⟨rest, hrest, rfl⟩ := Option.map_eq_some_iff.mp h
      obtain ⟨hshape, hfields⟩ := ih hrest
      exact ⟨congrArg (_ :: ·) hshape, congrArg (x :: ·) hfields⟩
  | case3 name shape x isOdd fields hbit ih =>
      obtain ⟨rest, hrest, rfl⟩ := Option.map_eq_some_iff.mp h
      obtain ⟨hshape, hfields⟩ := ih hrest
      have hodd : toField (decide (isOdd = 1)) = isOdd := by
        rcases hbit with rfl | rfl
        · rfl
        · rfl
      refine ⟨congrArg (_ :: ·) hshape, ?_⟩
      rw [List.flatMap_cons, hfields]
      change x :: toField (decide (isOdd = 1)) :: fields = _
      rw [hodd]
  | case4 name shape x isOdd fields hbit => cases h
  | case5 name shape x fields hlt ih =>
      obtain ⟨rest, hrest, rfl⟩ := Option.map_eq_some_iff.mp h
      obtain ⟨hshape, hfields⟩ := ih hrest
      have hvalue : amountValue (UInt64.ofNat x.val) = x := by
        apply ZMod.val_injective
        rw [val_amountValue, UInt64.toNat_ofNat_of_lt' hlt]
      refine ⟨congrArg (_ :: ·) hshape, ?_⟩
      rw [List.flatMap_cons, hfields]
      change amountValue (UInt64.ofNat x.val) :: fields = _
      rw [hvalue]
  | case6 name shape x fields hlt => cases h
  | case7 => cases h

theorem canonicalField_eq_some {value : ArchiveValue} {x : Fp} :
    canonicalField value = some x ↔ ∃ text, value = .text text ∧ Spells text x.val := by
  cases value with
  | other json => exact iff_of_false nofun nofun
  | text text =>
      have hvalue : canonicalField (.text text) = some x ↔ ofDecimal text = some x.val := by
        unfold canonicalField
        dsimp only
        cases ofDecimal text with
        | none => exact iff_of_false nofun nofun
        | some n =>
            dsimp only
            rw [Option.ite_none_right_eq_some, Option.some.injEq, Option.some.injEq]
            constructor
            · rintro ⟨hlt, rfl⟩
              exact (val_natCast_of_lt hlt).symm
            · rintro rfl
              exact ⟨x.val_lt, ZMod.natCast_zmod_val x⟩
      rw [hvalue, ofDecimal_eq_some]
      constructor
      · exact fun h ↦ ⟨text, rfl, h⟩
      · rintro ⟨_, htext, h⟩
        obtain rfl := ArchiveValue.text.inj htext
        exact h

theorem mapM_canonicalField_eq_some {values : List ArchiveValue} {xs : List Fp} :
    values.mapM canonicalField = some xs ↔
      ∃ texts, values = texts.map ArchiveValue.text ∧
        List.Forall₂ (fun text (x : Fp) ↦ Spells text x.val) texts xs := by
  induction values generalizing xs with
  | nil =>
      rw [List.mapM_nil]
      constructor
      · intro h
        obtain rfl := Option.some.inj h
        exact ⟨[], rfl, .nil⟩
      · rintro ⟨texts, htexts, hspells⟩
        rw [List.map_eq_nil_iff.mp htexts.symm] at hspells
        cases hspells
        rfl
  | cons value values ih =>
      rw [List.mapM_cons]
      constructor
      · intro h
        obtain ⟨x, hx, h⟩ := Option.bind_eq_some_iff.mp h
        obtain ⟨rest, hrest, h⟩ := Option.bind_eq_some_iff.mp h
        obtain rfl := Option.some.inj h
        obtain ⟨text, rfl, hspells⟩ := canonicalField_eq_some.mp hx
        obtain ⟨texts, rfl, hall⟩ := ih.mp hrest
        exact ⟨text :: texts, rfl, .cons hspells hall⟩
      · rintro ⟨texts, htexts, hspells⟩
        cases hspells with
        | nil => cases htexts
        | cons hhead htail =>
            obtain ⟨rfl, hrest⟩ := List.cons.inj htexts
            rw [canonicalField_eq_some.mpr ⟨_, rfl, hhead⟩, ih.mpr ⟨_, hrest, htail⟩]
            rfl

theorem nearestDouble_eq_of_lt {n index : ℕ} (h : nearestDouble n = index)
    (hindex : index < 2 ^ 53) : n = index := by
  by_cases hn : 2 ^ 53 ≤ n
  · exact absurd (h ▸ le_nearestDouble hn) (not_le.mpr hindex)
  · rwa [nearestDouble_of_le (not_le.mp hn).le] at h

section Decoding

variable {E : Env} {lib : Backend E}

/-- Exactly the encodings of the values of the event types are decoded. -/
theorem decodeMinaGuardEvent_ok {data : ArchiveData} {type : String} {payload : Payload} :
    decodeMinaGuardEvent lib data = .ok (type, payload) ↔
      ∃ index shape, minaguardEvents[index]? = some (type, shape) ∧
        ∃ v : shape.Value, payload = v.payload lib.base58 ∧ data.Encodes index v.toFields := by
  constructor
  · intro h
    unfold decodeMinaGuardEvent at h
    split at h
    · cases h
    · next values =>
        split at h
        · cases h
        · split at h
          · cases h
          · cases h
          · next first fields hvalues =>
              split at h
              · cases h
              · next type' shape hindex =>
                  split at h
                  · cases h
                  · split at h
                    · cases h
                    · next components hread =>
                        obtain ⟨rfl, rfl⟩ := Prod.mk.inj (Except.ok.inj h)
                        obtain ⟨hshape, hfields⟩ := EventShape.read_eq_some hread
                        obtain ⟨texts, rfl, hspells⟩ := mapM_canonicalField_eq_some.mp hvalues
                        cases hspells with
                        | cons hfirst hrest =>
                            have hlt := (List.getElem?_eq_some_iff.mp hindex).1
                            have hexact := nearestDouble_eq_of_lt rfl (hlt.trans (by decide))
                            refine ⟨_, shape, hindex, ⟨components, hshape⟩, rfl, ?_⟩
                            refine ⟨_, _, rfl, hexact ▸ hfirst, ?_⟩
                            change List.Forall₂ _ _ (components.flatMap fun c ↦ c.2.toFields)
                            rwa [hfields]
  · rintro ⟨index, shape, hindex, v, rfl, first, rest, rfl, hfirst, hrest⟩
    have hlt : index < 15 := (List.getElem?_eq_some_iff.mp hindex).1
    have hval : ((index : ℕ) : Fp).val = index := val_natCast_of_lt (hlt.trans (by decide))
    have hvalues : ((first :: rest).map ArchiveValue.text).mapM canonicalField =
        some ((index : Fp) :: v.toFields) :=
      mapM_canonicalField_eq_some.mpr ⟨_, rfl, .cons (hval.symm ▸ hfirst) hrest⟩
    have hdouble : nearestDouble ((index : ℕ) : Fp).val = index := by
      rw [hval, nearestDouble_of_le (hlt.le.trans (by decide))]
    have hread : shape.read v.toFields = some v.1 := by
      obtain ⟨components, rfl⟩ := v
      exact EventShape.read_toFields components
    rw [List.map_cons] at hvalues
    unfold decodeMinaGuardEvent
    simp only [hvalues, hdouble, hindex, v.length_toFields, hread, ne_eq, not_true_eq_false,
      if_false, List.map_cons, reduceCtorEq]
    rfl

/-! ## The answer of the archive -/

/-- The events of the blocks, in order. -/
def rawEvents (blocks : List ArchiveEventBlock) : List (ArchiveEventBlock × ArchiveEvent) :=
  blocks.flatMap fun block ↦ block.eventData.filterMap fun raw ↦ raw.map fun raw ↦ (block, raw)

namespace ArchiveEvent

variable (raw : ArchiveEvent)

/-- The transaction of the update did not fail. -/
abbrev IsApplied : Prop :=
  isFromAppliedTransaction (raw.transactionInfo.bind TransactionInfo.status) = true

/-- The authorization kind, in lower case. -/
abbrev authorization : Option String :=
  (raw.transactionInfo.bind TransactionInfo.authorizationKind).map String.toLower

def IsRecognized : Prop :=
  raw.authorization = some "proof" ∨ raw.authorization = some "signature" ∨
    raw.authorization = some "none_given"

/-- What the event decodes to, or its data and what is wrong with them. -/
inductive Decoded (lib : Backend E) (raw : ArchiveEvent) (e : ChainEvent) : Prop
  | event (type : String) (payload : Payload)
      (h : decodeMinaGuardEvent lib raw.data = .ok (type, payload)) (htype : e.type = type)
      (hevent : e.event = .payload payload) (herror : e.decodeError = none)
  | malformed (message : String) (h : decodeMinaGuardEvent lib raw.data = .error message)
      (htype : e.type = "malformed") (hevent : e.event = .malformed raw.data)
      (herror : e.decodeError = some message)

/-- The entry of an event in a block. -/
structure IsEntry (lib : Backend E) (block : ArchiveEventBlock) (raw : ArchiveEvent)
    (e : ChainEvent) : Prop where
  decoded : Decoded lib raw e
  blockHeight : e.blockHeight = block.height
  blockHash : e.blockHash = block.stateHash
  parentHash : e.parentHash = block.parentHash
  txHash : e.txHash = raw.transactionInfo.bind TransactionInfo.hash
  txMemo : e.txMemo = raw.transactionInfo.bind TransactionInfo.memo

variable {raw} {block : ArchiveEventBlock} {address : String}

theorem IsEntry.unique {e e' : ChainEvent} (h : IsEntry lib block raw e)
    (h' : IsEntry lib block raw e') : e = e' := by
  have hfields : e.type = e'.type ∧ e.event = e'.event ∧ e.decodeError = e'.decodeError := by
    cases h.decoded with
    | event type payload hdecode htype hevent herror =>
        cases h'.decoded with
        | event type' payload' hdecode' htype' hevent' herror' =>
            obtain ⟨rfl, rfl⟩ := Prod.mk.inj (Except.ok.inj (hdecode.symm.trans hdecode'))
            exact ⟨htype.trans htype'.symm, hevent.trans hevent'.symm, herror.trans herror'.symm⟩
        | malformed message hdecode' =>
            rw [hdecode] at hdecode'
            cases hdecode'
    | malformed message hdecode htype hevent herror =>
        cases h'.decoded with
        | event type' payload' hdecode' =>
            rw [hdecode] at hdecode'
            cases hdecode'
        | malformed message' hdecode' htype' hevent' herror' =>
            obtain rfl := Except.error.inj (hdecode.symm.trans hdecode')
            exact ⟨htype.trans htype'.symm, hevent.trans hevent'.symm, herror.trans herror'.symm⟩
  obtain ⟨htype, hevent, herror⟩ := hfields
  have hheight := h.blockHeight.trans h'.blockHeight.symm
  have hhash := h.blockHash.trans h'.blockHash.symm
  have hparent := h.parentHash.trans h'.parentHash.symm
  have htx := h.txHash.trans h'.txHash.symm
  have hmemo := h.txMemo.trans h'.txMemo.symm
  cases e
  cases e'
  dsimp only at htype hevent herror hheight hhash hparent htx hmemo
  rw [htype, hevent, herror, hheight, hhash, hparent, htx, hmemo]

variable (lib) (block) (address)

theorem decodeContractEvent_of_failed (h : ¬raw.IsApplied) :
    decodeContractEvent lib address block raw = .ok none := by
  unfold decodeContractEvent
  exact if_pos h

theorem decodeContractEvent_of_unrecognized (happlied : raw.IsApplied) (h : ¬raw.IsRecognized) :
    ∃ message, decodeContractEvent lib address block raw = .error message := by
  have hkinds := not_or.mp h
  have hothers := not_or.mp hkinds.2
  unfold decodeContractEvent
  dsimp only
  rw [if_neg (not_not.mpr happlied), if_pos ⟨hkinds.1, hothers.1, hothers.2⟩]
  exact ⟨_, rfl⟩

theorem decodeContractEvent_of_recognized (happlied : raw.IsApplied) (h : raw.IsRecognized)
    (hproof : raw.authorization ≠ some "proof") :
    decodeContractEvent lib address block raw = .ok none := by
  have hkinds : ¬(raw.authorization ≠ some "proof" ∧ raw.authorization ≠ some "signature" ∧
      raw.authorization ≠ some "none_given") := fun hall ↦
    h.elim hall.1 fun h ↦ h.elim hall.2.1 hall.2.2
  unfold decodeContractEvent
  dsimp only
  rw [if_neg (not_not.mpr happlied), if_neg hkinds, if_pos hproof]

theorem decodeContractEvent_of_proof (happlied : raw.IsApplied)
    (hproof : raw.authorization = some "proof") :
    ∃ e, decodeContractEvent lib address block raw = .ok (some e) ∧ IsEntry lib block raw e := by
  have hkinds : ¬(raw.authorization ≠ some "proof" ∧ raw.authorization ≠ some "signature" ∧
      raw.authorization ≠ some "none_given") := fun hall ↦ hall.1 hproof
  unfold decodeContractEvent
  dsimp only
  rw [if_neg (not_not.mpr happlied), if_neg hkinds, if_neg (not_not.mpr hproof)]
  cases hdecode : decodeMinaGuardEvent lib raw.data with
  | error message =>
      exact ⟨_, rfl, .malformed message hdecode rfl rfl rfl, rfl, rfl, rfl, rfl, rfl⟩
  | ok result =>
      exact ⟨_, rfl, .event result.1 result.2 hdecode rfl rfl rfl, rfl, rfl, rfl, rfl, rfl⟩

end ArchiveEvent

/-- The events that are passed on. -/
def provedEvents (blocks : List ArchiveEventBlock) : List (ArchiveEventBlock × ArchiveEvent) :=
  (rawEvents blocks).filter fun x ↦ x.2.IsApplied ∧ x.2.authorization = some "proof"

variable (lib) (address : String)

/-- One round of `decodeContractEvents`. -/
def decodeNext (decoded : List ChainEvent)
    (x : ArchiveEventBlock × ArchiveEvent) : Except String (List ChainEvent) :=
  (decodeContractEvent lib address x.1 x.2).map fun event ↦ decoded ++ event.toList

theorem foldlM_decodeNext_ok {l : List (ArchiveEventBlock × ArchiveEvent)}
    (h : ∀ x ∈ l, x.2.IsApplied → x.2.IsRecognized) (decoded : List ChainEvent) :
    ∃ events, l.foldlM (decodeNext lib address) decoded = .ok (decoded ++ events) ∧
      List.Forall₂ (fun x e ↦ ArchiveEvent.IsEntry lib x.1 x.2 e)
        (l.filter fun x ↦ x.2.IsApplied ∧ x.2.authorization = some "proof") events := by
  induction l generalizing decoded with
  | nil => exact ⟨[], congrArg Except.ok (List.append_nil decoded).symm, .nil⟩
  | cons x l ih =>
      have htail (decoded : List ChainEvent) :=
        ih (fun y hy ↦ h y (List.mem_cons_of_mem x hy)) decoded
      rw [List.foldlM_cons]
      by_cases hpassed : x.2.IsApplied ∧ x.2.authorization = some "proof"
      · obtain ⟨e, hdecode, hentry⟩ := ArchiveEvent.decodeContractEvent_of_proof lib x.1
          address hpassed.1 hpassed.2
        have hround : decodeNext lib address decoded x = .ok (decoded ++ [e]) := by
          unfold decodeNext
          rw [hdecode]
          rfl
        obtain ⟨events, hevents, hentries⟩ := htail (decoded ++ [e])
        refine ⟨e :: events, ?_, ?_⟩
        · rw [List.append_assoc, List.singleton_append] at hevents
          rw [hround]
          exact hevents
        · rw [List.filter_cons_of_pos (by simpa using hpassed)]
          exact .cons hentry hentries
      · have hdecode : decodeContractEvent lib address x.1 x.2 = .ok none := by
          by_cases happlied : x.2.IsApplied
          · exact ArchiveEvent.decodeContractEvent_of_recognized _ _ _ happlied
              (h x List.mem_cons_self happlied) fun hproof ↦ hpassed ⟨happlied, hproof⟩
          · exact ArchiveEvent.decodeContractEvent_of_failed _ _ _ happlied
        have hround : decodeNext lib address decoded x = .ok (decoded ++ []) := by
          unfold decodeNext
          rw [hdecode]
          rfl
        rw [hround, List.append_nil, List.filter_cons_of_neg (by simpa using hpassed)]
        exact htail decoded

theorem foldlM_decodeNext_error {l : List (ArchiveEventBlock × ArchiveEvent)}
    (h : ∃ x ∈ l, x.2.IsApplied ∧ ¬x.2.IsRecognized) (decoded : List ChainEvent) :
    ∃ message, l.foldlM (decodeNext lib address) decoded = .error message := by
  induction l generalizing decoded with
  | nil =>
      obtain ⟨x, hx, -⟩ := h
      exact absurd hx List.not_mem_nil
  | cons x l ih =>
      rw [List.foldlM_cons]
      by_cases hbad : x.2.IsApplied ∧ ¬x.2.IsRecognized
      · obtain ⟨message, hmessage⟩ := ArchiveEvent.decodeContractEvent_of_unrecognized lib x.1
          address hbad.1 hbad.2
        refine ⟨message, ?_⟩
        have hround : decodeNext lib address decoded x = .error message := by
          unfold decodeNext
          rw [hmessage]
          rfl
        rw [hround]
        rfl
      · have hrest : ∃ y ∈ l, y.2.IsApplied ∧ ¬y.2.IsRecognized := by
          obtain ⟨y, hy, hybad⟩ := h
          rcases List.mem_cons.mp hy with rfl | hy
          · exact absurd hybad hbad
          · exact ⟨y, hy, hybad⟩
        cases hround : decodeNext lib address decoded x with
        | error message => exact ⟨message, rfl⟩
        | ok decoded' => exact ih hrest decoded'

variable {lib address}

theorem decodeContractEvents_ok {blocks : List ArchiveEventBlock} {events : List ChainEvent} :
    decodeContractEvents lib address blocks = .ok events ↔
      (∀ x ∈ rawEvents blocks, x.2.IsApplied → x.2.IsRecognized) ∧
        List.Forall₂ (fun x e ↦ ArchiveEvent.IsEntry lib x.1 x.2 e) (provedEvents blocks)
          events := by
  constructor
  · intro h
    have hall : ∀ x ∈ rawEvents blocks, x.2.IsApplied → x.2.IsRecognized := by
      by_contra hnot
      push Not at hnot
      obtain ⟨message, hmessage⟩ := foldlM_decodeNext_error lib address hnot []
      cases h.symm.trans hmessage
    obtain ⟨events', hok, hentries⟩ := foldlM_decodeNext_ok lib address hall []
    obtain rfl : events = events' := Except.ok.inj (h.symm.trans hok)
    exact ⟨hall, hentries⟩
  · rintro ⟨hall, hentries⟩
    obtain ⟨events', hok, hentries'⟩ := foldlM_decodeNext_ok lib address hall []
    have hunique : Relator.RightUnique fun (x : ArchiveEventBlock × ArchiveEvent) e ↦
        ArchiveEvent.IsEntry lib x.1 x.2 e := fun _ _ _ h h' ↦ h.unique h'
    have hsame : events = events' := List.right_unique_forall₂' hunique hentries hentries'
    exact hsame ▸ hok

end Decoding

/-- The encodings of the values of the event types are decoded, each to the value it
encodes, and nothing else is.  The answer of an archive has one entry for each event of
an applied update that a proof authorizes, in order, or is refused because an applied
event does not say what authorizes it. -/
theorem event_decoding_exact {E : Env} (lib : Backend E) (address : String) :
    (minaguardEvents.map Prod.fst).Pairwise (· < ·) ∧
    (∀ (index : ℕ) (type : String) (shape : EventShape),
      minaguardEvents[index]? = some (type, shape) → ∀ v : shape.Value,
        decodeMinaGuardEvent lib (v.archiveData index) = .ok (type, v.payload lib.base58) ∧
          ∀ w : shape.Value, w.payload lib.base58 = v.payload lib.base58 → w = v) ∧
    (∀ data type payload, decodeMinaGuardEvent lib data = .ok (type, payload) ↔
      ∃ index shape, minaguardEvents[index]? = some (type, shape) ∧
        ∃ v : shape.Value, payload = v.payload lib.base58 ∧ data.Encodes index v.toFields) ∧
    ∀ blocks,
      (∀ events, decodeContractEvents lib address blocks = .ok events ↔
        (∀ x ∈ rawEvents blocks, x.2.IsApplied → x.2.IsRecognized) ∧
          List.Forall₂ (fun x e ↦ ArchiveEvent.IsEntry lib x.1 x.2 e) (provedEvents blocks)
            events) ∧
      ((∃ message, decodeContractEvents lib address blocks = .error message) ↔
        ∃ x ∈ rawEvents blocks, x.2.IsApplied ∧ ¬x.2.IsRecognized) := by
  refine ⟨by decide +kernel, ?_, fun data type payload ↦ decodeMinaGuardEvent_ok, ?_⟩
  · intro index type shape hindex v
    refine ⟨decodeMinaGuardEvent_ok.mpr ⟨index, shape, hindex, v, rfl, v.encodes index⟩, ?_⟩
    exact fun w h ↦ EventShape.Value.payload_injective lib.base58 h
  · intro blocks
    refine ⟨fun events ↦ decodeContractEvents_ok, ?_⟩
    constructor
    · rintro ⟨message, hmessage⟩
      by_contra hnot
      push Not at hnot
      obtain ⟨events, hok, -⟩ := foldlM_decodeNext_ok lib address hnot []
      cases hmessage.symm.trans hok
    · exact fun h ↦ foldlM_decodeNext_error lib address h []

end MinaGuard
