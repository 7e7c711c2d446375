import MinaGuard.Foundations.Splitting
import MinaGuard.Indexer.Delivery
import MinaGuard.Indexer.Json

/-!
# Fingerprints of events

An event is recorded under a text of its address, type, height, transaction and
payload.  Among the events of one vault, it tells which event it is.
-/

namespace MinaGuard

open Foundations

namespace Event

theorem colon_notMem_name (e : Event) : ':' ∉ e.name.toList := by
  unfold name
  split <;> decide

theorem eq_of_components {e e' : Event} (hname : e.name = e'.name)
    (h : e.components = e'.components) : e = e' := by
  cases e <;> cases e' <;> simp only [name, String.reduceEq] at hname <;>
    simp_all only [components, List.cons.injEq, Prod.mk.injEq, EventValue.field.injEq,
      EventValue.publicKey.injEq, EventValue.uint64.injEq]

/-- The name determines the kinds of the components. -/
theorem shape_eq {e e' : Event} (h : e.name = e'.name) : e.shape = e'.shape := by
  have hindex : e.typeIndex = e'.typeIndex := by
    unfold typeIndex
    rw [h]
  have hentry := e.minaguardEvents_typeIndex
  rw [hindex, e'.minaguardEvents_typeIndex] at hentry
  exact (Prod.mk.inj (Option.some.inj hentry)).2.symm

section Text

variable {E : Env} (B : Base58 E)

theorem eq_of_payload {e e' : Event} (hname : e.name = e'.name)
    (h : e.payload B = e'.payload B) : e = e' :=
  eq_of_components hname (toSerializableObject_injective (shape_eq hname) h)

/-- The payload as keys and texts. -/
theorem payload_eq_zip (e : Event) :
    e.payload B = (e.components.map Prod.fst).zip
      ((e.components.map fun c ↦ serializeValue B c.2).map JsonValue.string) := by
  unfold payload toSerializableObject
  rw [List.map_map, List.zip_map']
  rfl

/-- The text of the payload can be read back. -/
theorem eq_of_stringify {e e' : Event} (hname : e.name = e'.name)
    (h : (e.payload B).stringify = (e'.payload B).stringify) : e = e' := by
  have hkeys : e.components.map Prod.fst = e'.components.map Prod.fst := by
    have hshape := congrArg (List.map Prod.fst) (shape_eq hname)
    unfold shape at hshape
    rwa [List.map_map, List.map_map] at hshape
  have hlength : e.components.length = e'.components.length := by
    simpa using congrArg List.length hkeys
  have hmembers : (e.payload B).members = (e'.payload B).members := by
    have hchars := congrArg String.toList h
    unfold Payload.stringify at hchars
    rw [String.toList_ofList, String.toList_ofList] at hchars
    exact (List.cons.inj hchars).2
  rw [payload_eq_zip, payload_eq_zip, ← hkeys] at hmembers
  have hvalues := members_inj _ (by simp) (by simp [hlength]) hmembers
  refine eq_of_payload B hname ?_
  rw [payload_eq_zip, payload_eq_zip, hvalues, hkeys]

end Text

end Event

theorem toList_fingerprintEvent (address : String) (e : ChainEvent) :
    (fingerprintEvent address e).toList =
      address.toList ++ ':' :: ':' :: (e.type.toList ++ ':' :: ':' ::
        ((decimal e.blockHeight).toList ++ ':' :: ':' ::
          ((e.txHash.getD "no-hash").toList ++ ':' :: ':' :: e.event.stringify.toList))) := by
  have hjoin : fingerprintEvent address e = address ++ "::" ++ e.type ++ "::" ++
      decimal e.blockHeight ++ "::" ++ e.txHash.getD "no-hash" ++ "::" ++ e.event.stringify := rfl
  rw [hjoin]
  simp

/-- The hash of a transaction has no colon. -/
def TransactionInfo.PlainHash (info : TransactionInfo) : Prop :=
  ∀ hash ∈ info.hash, ':' ∉ hash.toList

/-- The fingerprint tells the events of a vault apart. -/
theorem fingerprintEvent_inj {E : Env} {B : Base58 E} {address : String} {b b' : ArchivedBlock}
    {info info' : TransactionInfo} {e e' : Event} (hinfo : info.PlainHash)
    (hinfo' : info'.PlainHash)
    (h : fingerprintEvent address (b.chainEvent B info e) =
      fingerprintEvent address (b'.chainEvent B info' e')) : e = e' := by
  have hhash {info : TransactionInfo} (hinfo : info.PlainHash) :
      ':' ∉ (info.hash.getD "no-hash").toList := by
    cases hcase : info.hash with
    | none => decide
    | some hash => exact hinfo hash hcase
  have hheight (n : ℕ) : ':' ∉ (decimal n).toList := by
    intro hmem
    exact absurd (isDigit_of_mem_decimal hmem) (by decide)
  have htext := congrArg String.toList h
  rw [toList_fingerprintEvent, toList_fingerprintEvent] at htext
  have hrest := (List.cons.inj (List.cons.inj (List.append_cancel_left htext)).2).2
  obtain ⟨hname, hrest⟩ := append_cons_inj e.colon_notMem_name e'.colon_notMem_name hrest
  obtain ⟨-, hrest⟩ := append_cons_inj (hheight _) (hheight _) (List.cons.inj hrest).2
  obtain ⟨-, hrest⟩ := append_cons_inj (hhash hinfo) (hhash hinfo') (List.cons.inj hrest).2
  exact Event.eq_of_stringify B (String.toList_inj.mp hname)
    (String.toList_inj.mp (List.cons.inj hrest).2)

end MinaGuard
