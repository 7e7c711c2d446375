import MinaGuard.Clients.ChildConfigSpec
import MinaGuard.Clients.Summary

/-!
# Rows of receivers

The rows of a bundle beside the slots that are built from them.
-/

namespace MinaGuard

open Foundations

theorem JsValue.toFp_ok {value : JsValue} {x : Fp} :
    value.toFp = .ok x ↔ ∃ n : ℤ, value.toBigInt = .ok n ∧ (n : Fp) = x := by
  cases value with
  | string text =>
      unfold JsValue.toFp JsValue.toBigInt
      dsimp only
      unfold parseField
      cases parseBigInt text <;> simp
  | number q =>
      change (if q.den = 1 then Except.ok (q.num : Fp) else .error _) = _ ↔
        ∃ n : ℤ, (if q.den = 1 then Except.ok q.num else .error _) = Except.ok n ∧ _
      split <;> simp
  | boolean b => cases b <;> simp [JsValue.toFp, JsValue.toBigInt, toField]
  | _ => simp [JsValue.toFp, JsValue.toBigInt]

theorem JsValue.toUInt64_ok {value : JsValue} {amount : UInt64} (h : value.toUInt64 = .ok amount) :
    ∃ n : ℤ, value.toBigInt = .ok n ∧ (n : Fp).val = amount.toNat := by
  obtain ⟨x, hx, hbound⟩ := Check.bind_ok.mp h
  obtain ⟨n, hn, rfl⟩ := JsValue.toFp_ok.mp hx
  split at hbound
  · next hlt =>
      obtain rfl := Check.pure_ok.mp hbound
      exact ⟨n, hn, (UInt64.toNat_ofNat_of_lt hlt).symm⟩
  · cases hbound

section

variable {E : Env} {B : Base58 E}

theorem JsValue.get_of_property {value member : JsValue} {key : String}
    (h : value.property key = .ok member) : value.get key = member := by
  unfold JsValue.get
  rw [h]

theorem strictEq_string {value : JsValue} {text : String} :
    value.strictEq (.string text) = true ↔ value = .string text := by
  cases value with
  | string t => exact decide_eq_true_iff.trans (by rw [JsValue.string.injEq])
  | _ => exact iff_of_false nofun nofun

/-- A row as it is shown, and the slot made from it. -/
structure RowOf (B : Base58 E) (row : JsValue) (r : Receiver) : Prop where
  real : isRealReceiver B row = true ↔ r.address ≠ PublicKey.empty
  address : r.address ≠ PublicKey.empty → row.get "address" = .string (B.toBase58 r.address)
  amount : ∃ n : ℤ, (row.get "amount").toBigInt = .ok n ∧ (n : Fp).val = r.amount.toNat
  onCurve : r.address ≠ PublicKey.empty → E.onCurve r.address = true

theorem buildReceiver_ok (hcanonical : B.Canonical) {row : JsValue} {r : Receiver}
    (h : buildReceiver B row = .ok r) : RowOf B row r := by
  obtain ⟨address, haddress, h⟩ := Check.bind_ok.mp h
  obtain ⟨amount, hamount, h⟩ := Check.bind_ok.mp h
  have hget := JsValue.get_of_property haddress
  have hgetAmount := JsValue.get_of_property hamount
  split at h
  · next hempty =>
      obtain ⟨n, hn, h⟩ := Check.bind_ok.mp h
      split at h
      · cases h
      · obtain ⟨amount', hamount', h⟩ := Check.bind_ok.mp h
        obtain rfl := Check.pure_ok.mp h
        refine ⟨iff_of_false ?_ (fun hne ↦ hne rfl), fun hne ↦ absurd rfl hne, ?_,
        fun hne ↦ absurd rfl hne⟩
        · unfold isRealReceiver
          rw [hget, hempty]
          simp
        · rw [hgetAmount]
          exact JsValue.toUInt64_ok hamount'
  · next hempty =>
      obtain ⟨k, hk, h⟩ := Check.bind_ok.mp h
      obtain ⟨amount', hamount', h⟩ := Check.bind_ok.mp h
      obtain rfl := Check.pure_ok.mp h
      obtain ⟨text, rfl, htext⟩ := publicKeyOf_ok B hk
      obtain rfl := hcanonical _ _ htext
      have hne : k ≠ PublicKey.empty := by
        rintro rfl
        rw [B.fails B.empty_not_onCurve] at htext
        cases htext
      refine ⟨iff_of_true ?_ hne, fun _ ↦ hget, ?_, fun _ ↦ hcanonical.onCurve htext⟩
      · have htruthy : (JsValue.string (B.toBase58 k)).truthy = true :=
          decide_eq_true (B.toBase58_ne_empty k)
        unfold isRealReceiver
        rw [hget, htruthy]
        simpa using hempty
      · rw [hgetAmount]
        exact JsValue.toUInt64_ok hamount'

theorem buildTransferReceivers_ok (hcanonical : B.Canonical) {receivers : JsValue}
    {slots : Vector Receiver maxReceivers} (h : buildTransferReceivers B receivers = .ok slots) :
    ∃ rows rs, receivers.isArray? = some rows ∧ slots = receiverSlots rs ∧
      List.Forall₂ (RowOf B) rows rs := by
  unfold buildTransferReceivers at h
  split at h
  · cases h
  · next rows hrows =>
      obtain ⟨rs, hrs, h⟩ := Check.bind_ok.mp h
      refine ⟨rows, rs, hrows, (Check.pure_ok.mp h).symm, ?_⟩
      exact (Check.mapM_ok hrs).imp fun _ _ ↦ buildReceiver_ok hcanonical

theorem toList_receiverSlots (rs : List Receiver) :
    (receiverSlots rs).toList.filter (fun r ↦ decide (r.address ≠ PublicKey.empty)) =
      (rs.take maxReceivers).filter fun r ↦ decide (r.address ≠ PublicKey.empty) := by
  have hlist : (receiverSlots rs).toList =
      (rs ++ List.replicate maxReceivers Receiver.empty).take maxReceivers := rfl
  rw [hlist, List.take_append, List.filter_append, List.take_replicate]
  refine (congrArg _ (List.filter_eq_nil_iff.mpr fun r hr ↦ ?_)).trans (List.append_nil _)
  rw [List.eq_of_mem_replicate hr]
  simp [Receiver.empty]

end

end MinaGuard
