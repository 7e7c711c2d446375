import Mathlib.Data.List.Basic

/-!
# Assertion gadgets

A check either passes or fails with a message.  The lemmas turn the success of
a composed check into the facts its parts assert.
-/

namespace Foundations

universe u v

/-- A gadget that only asserts. -/
abbrev Check := Except String Unit

def assertTrue (c : Prop) [Decidable c] (message : String) : Check :=
  if c then .ok () else .error message

def assertFalse (c : Prop) [Decidable c] (message : String) : Check :=
  assertTrue (¬c) message

namespace Check

variable {α : Type u} {β : Type u}

@[simp] theorem assertTrue_ok {c : Prop} [Decidable c] {message : String} {u : Unit} :
    assertTrue c message = .ok u ↔ c := by
  unfold assertTrue
  split <;> simp_all

@[simp] theorem assertFalse_ok {c : Prop} [Decidable c] {message : String} {u : Unit} :
    assertFalse c message = .ok u ↔ ¬c :=
  assertTrue_ok

theorem bind_ok {x : Except String α} {f : α → Except String β} {b : β} :
    (x >>= f) = .ok b ↔ ∃ a, x = .ok a ∧ f a = .ok b := by
  cases x with
  | error e => simp [bind, Except.bind]
  | ok a => simp [bind, Except.bind]

/-- A test that throws before the rest. -/
theorem guard_ok {c : Prop} [Decidable c] {message : String} {f : PUnit → Except String β}
    {b : β} :
    (if c then throw message >>= f else f PUnit.unit) = .ok b ↔ ¬c ∧ f PUnit.unit = .ok b := by
  split
  · next hc => exact iff_of_false (fun h ↦ by cases h) fun h ↦ h.1 hc
  · next hc => exact ⟨fun h ↦ ⟨hc, h⟩, fun h ↦ h.2⟩

theorem pure_ok {a b : α} : (pure a : Except String α) = .ok b ↔ a = b := by
  simp [pure, Except.pure]

/-- A loop of checks passes exactly when each of them does. -/
theorem forM_ok {ι : Type v} {l : List ι} {f : ι → Check} {u : Unit} :
    forM l f = .ok u ↔ ∀ a ∈ l, f a = .ok () := by
  induction l with
  | nil => simp [pure, Except.pure]
  | cons a l ih =>
      rw [List.forM_cons, bind_ok]
      constructor
      · rintro ⟨_, hhead, htail⟩ b hb
        rcases List.mem_cons.mp hb with rfl | hb
        · exact hhead
        · exact ih.mp htail b hb
      · intro h
        exact ⟨(), h a List.mem_cons_self,
          ih.mpr fun b hb ↦ h b (List.mem_cons_of_mem a hb)⟩

/-- What each round keeps, a loop that succeeds keeps. -/
theorem foldlM_invariant {ι : Type v} {f : α → ι → Except String α} {I : α → Prop}
    (hstep : ∀ a x a', I a → f a x = .ok a' → I a') {l : List ι} {a a' : α} (ha : I a)
    (h : l.foldlM f a = .ok a') : I a' := by
  induction l generalizing a with
  | nil => exact pure_ok.mp h ▸ ha
  | cons x l ih =>
      rw [List.foldlM_cons] at h
      obtain ⟨b, hb, hrest⟩ := bind_ok.mp h
      exact ih (hstep a x b ha hb) hrest

/-- A traversal that succeeds maps each element to its result. -/
theorem mapM_ok {f : α → Except String β} {l : List α} {r : List β}
    (h : l.mapM f = .ok r) : List.Forall₂ (fun a b ↦ f a = .ok b) l r := by
  induction l generalizing r with
  | nil =>
      obtain rfl := pure_ok.mp h
      exact .nil
  | cons a l ih =>
      rw [List.mapM_cons] at h
      obtain ⟨b, hb, h⟩ := bind_ok.mp h
      obtain ⟨bs, hbs, h⟩ := bind_ok.mp h
      obtain rfl := pure_ok.mp h
      exact .cons hb (ih hbs)

/-- Each result is that of some element. -/
theorem exists_of_mapM {f : α → Except String β} {l : List α} {r : List β}
    (h : l.mapM f = .ok r) {b : β} (hb : b ∈ r) : ∃ a ∈ l, f a = .ok b := by
  have hpairs := mapM_ok h
  clear h
  induction hpairs with
  | nil => exact absurd hb List.not_mem_nil
  | cons hhead htail ih =>
      rcases List.mem_cons.mp hb with rfl | hb
      · exact ⟨_, List.mem_cons_self, hhead⟩
      · obtain ⟨a, ha, hfa⟩ := ih hb
        exact ⟨a, List.mem_cons_of_mem _ ha, hfa⟩

/-- What the results have in common with their elements, in order. -/
theorem map_eq_of_mapM {γ : Type v} {f : α → Except String β} {l : List α} {r : List β}
    (h : l.mapM f = .ok r) {g : β → γ} {g' : α → γ}
    (hsame : ∀ a ∈ l, ∀ b, f a = .ok b → g b = g' a) : r.map g = l.map g' := by
  have hpairs := mapM_ok h
  clear h
  induction hpairs with
  | nil => rfl
  | cons hhead htail ih =>
      rw [List.map_cons, List.map_cons, hsame _ List.mem_cons_self _ hhead,
        ih fun a ha ↦ hsame a (List.mem_cons_of_mem _ ha)]

theorem mapM_of_forall {f : α → Except String β} {g : α → β} {l : List α}
    (h : ∀ a ∈ l, f a = .ok (g a)) : l.mapM f = .ok (l.map g) := by
  induction l with
  | nil => rfl
  | cons a l ih =>
      rw [List.mapM_cons, h a List.mem_cons_self,
        ih fun b hb ↦ h b (List.mem_cons_of_mem a hb)]
      rfl

/-- A traversal that inverts a map gives the list back. -/
theorem mapM_map_ok {f : β → Except String α} {g : α → β} {l : List α}
    (h : ∀ a ∈ l, f (g a) = .ok a) : (l.map g).mapM f = .ok l := by
  induction l with
  | nil => rfl
  | cons a l ih =>
      rw [List.map_cons, List.mapM_cons, h a List.mem_cons_self,
        ih fun b hb ↦ h b (List.mem_cons_of_mem a hb)]
      rfl

end Check

end Foundations
