import MinaGuard.Contract.Ledger

/-!
# What inclusion of a forest says

Attached updates read and credit, they never write state.  So all of them see
the same app states: the guard's after its own writes, every other account's
as it was before the call.
-/

namespace MinaGuard

open Foundations

namespace Ledger

theorem account_setAccount_self (L : Ledger) (a : PublicKey) (acc : Account) :
    (L.setAccount a acc).account a = acc := by
  simp [setAccount]

theorem account_setAccount_of_ne (L : Ledger) {a b : PublicKey} (acc : Account)
    (hne : b ≠ a) : (L.setAccount a acc).account b = L.account b := by
  simp [setAccount, Function.update_of_ne hne]

theorem balance_credit (L : Ledger) (a b : PublicKey) (amount : ℕ) :
    ((L.credit a amount).account b).balance =
      (L.account b).balance + if b = a then amount else 0 := by
  by_cases hb : b = a
  · subst hb
    rw [credit, account_setAccount_self, if_pos rfl]
  · rw [credit, account_setAccount_of_ne L _ hb, if_neg hb, add_zero]

theorem state_setAccount_self (L : Ledger) (a : PublicKey) (acc : Account) :
    (L.setAccount a acc).state a = acc.appState := by
  simp [state, setAccount]

theorem state_setAccount_of_ne (L : Ledger) {a b : PublicKey} (acc : Account)
    (hne : b ≠ a) : (L.setAccount a acc).state b = L.state b := by
  simp [state, setAccount, Function.update_of_ne hne]

@[simp] theorem state_credit (L : Ledger) (a : PublicKey) (amount : ℕ) :
    (L.credit a amount).state = L.state := by
  funext b
  by_cases h : b = a
  · subst h
    rw [credit, state_setAccount_self]
    rfl
  · rw [credit, state_setAccount_of_ne L _ h]

end Ledger

namespace Forest

/-- The included forest, as far as app states and slots go. -/
structure Included (F : Forest) (L L' : Ledger) : Prop where
  own : ∀ v ∈ F.self.preconditions, v.Holds (L.state F.self.publicKey)
  slot_le : ∀ slot ∈ F.self.slotAtMost, L.slot ≤ slot
  state_self : L'.state F.self.publicKey =
    F.self.appState.foldl StateValue.write (L.state F.self.publicKey)
  state_other : ∀ a, a ≠ F.self.publicKey → L'.state a = L.state a
  foreign : ∀ c ∈ F.children, ∀ v ∈ c.preconditions, v.Holds (L'.state c.publicKey)
  slot_eq : L'.slot = L.slot

theorem children_included {children : List ChildUpdate} {L L' : Ledger}
    (h : children.foldlM ChildUpdate.apply L = some L') :
    (∀ c ∈ children, ∀ v ∈ c.preconditions, v.Holds (L.state c.publicKey)) ∧
      L'.state = L.state ∧ L'.slot = L.slot := by
  induction children generalizing L with
  | nil =>
      obtain rfl : L = L' := by simpa using h
      simp
  | cons c children ih =>
      rw [List.foldlM_cons] at h
      obtain ⟨L₁, hhead, htail⟩ := Option.bind_eq_some_iff.mp h
      unfold ChildUpdate.apply at hhead
      split at hhead
      · rename_i hc
        cases hhead
        obtain ⟨hrest, hstate, hslot⟩ := ih htail
        rw [Ledger.state_credit] at hrest hstate
        refine ⟨?_, hstate, hslot⟩
        intro d hd
        rcases List.mem_cons.mp hd with rfl | hd
        · exact hc
        · exact hrest d hd
      · cases hhead

theorem included_of_apply {F : Forest} {L L' : Ledger} (h : F.apply L = some L') :
    F.Included L L' := by
  obtain ⟨L₁, hself, hchildren⟩ := Option.bind_eq_some_iff.mp h
  obtain ⟨hforeign, hstate, hslot⟩ := children_included hchildren
  unfold AccountUpdate.apply at hself
  split at hself
  · rename_i hsat
    cases hself
    rw [← hstate] at hforeign
    refine
      { own := hsat.1
        slot_le := hsat.2.1
        state_self := ?_
        state_other := ?_
        foreign := hforeign
        slot_eq := hslot }
    · rw [hstate, Ledger.state_setAccount_self]
      rfl
    · intro a ha
      rw [hstate, Ledger.state_setAccount_of_ne L _ ha]
  · cases hself

end Forest

end MinaGuard
