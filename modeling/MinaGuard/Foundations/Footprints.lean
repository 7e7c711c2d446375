import MinaGuard.Foundations.AtomicPrograms

/-!
# Footprints of programs

A footprint bounds what each atomic step of a program can change, whatever the
requests are answered and whichever transactions fail.  It needs no trace and
no promise to others, so it has one rule for each way of composing programs
and carries over to a program that runs alone and to one among others.
-/

namespace Foundations.Program

variable {σ ε Λ α β : Type}

/-- Every step from a store in `I` stays within `F`, and every result is in `Q`. -/
def Within (I : σ → Prop) (F : σ → σ → Prop) (Q : α → Prop) : Program σ ε Λ α → Prop
  | done a => Q a
  | throw _ => True
  | ask _ next => ∀ r, (next r).Within I F Q
  | mark _ next => next.Within I F Q
  | memory _ update next => ∀ s, I s →
      F s (update s).2 ∧ (next (update s).1).Within I F Q
  | transaction _ _ body next =>
      (∀ s, I s → ∀ b s', body s = .ok (b, s') → F s s' ∧ (next (.ok b)).Within I F Q) ∧
        ∀ e, (next (.error e)).Within I F Q

variable {I : σ → Prop} {F : σ → σ → Prop} {Q Q' : α → Prop}

theorem within_pure {a : α} (h : Q a) : (pure a : Program σ ε Λ α).Within I F Q := h

theorem within_throw {e : ε} :
    (MonadExcept.throw e : Program σ ε Λ α).Within I F Q := trivial

theorem within_settle {r : Except ε α} (h : ∀ a, r = .ok a → Q a) :
    (settle r : Program σ ε Λ α).Within I F Q := by
  cases r with
  | ok a => exact h a rfl
  | error e => trivial

/-- The rule of consequence. -/
theorem Within.mono {I' : σ → Prop} {F' : σ → σ → Prop} {p : Program σ ε Λ α}
    (hI : ∀ s, I' s → I s) (hF : ∀ s s', F s s' → F' s s') (hQ : ∀ a, Q a → Q' a)
    (h : p.Within I F Q) : p.Within I' F' Q' := by
  induction p with
  | done a => exact hQ a h
  | throw e => trivial
  | ask γ next ih => exact fun r ↦ ih r (h r)
  | mark label next ih => exact ih h
  | memory γ update next ih =>
      intro s hs
      obtain ⟨hstep, hnext⟩ := h s (hI s hs)
      exact ⟨hF _ _ hstep, ih _ hnext⟩
  | transaction γ label body next ih =>
      refine ⟨fun s hs b s' hbody ↦ ?_, fun e ↦ ih _ (h.2 e)⟩
      obtain ⟨hstep, hnext⟩ := h.1 s (hI s hs) b s' hbody
      exact ⟨hF _ _ hstep, ih _ hnext⟩

/-- Sequencing. -/
theorem Within.bind {P : α → Prop} {Q : β → Prop} {p : Program σ ε Λ α} {f : α → Program σ ε Λ β}
    (h : p.Within I F P) (hf : ∀ a, P a → (f a).Within I F Q) : (p >>= f).Within I F Q := by
  change (p.bind f).Within I F Q
  induction p with
  | done a => exact hf a h
  | throw e => trivial
  | ask γ next ih => exact fun r ↦ ih r (h r)
  | mark label next ih => exact ih h
  | memory γ update next ih => exact fun s hI ↦ ⟨(h s hI).1, ih _ (h s hI).2⟩
  | transaction γ label body next ih =>
      refine ⟨fun s hI b s' hbody ↦ ?_, fun e ↦ ih _ (h.2 e)⟩
      obtain ⟨hF, hnext⟩ := h.1 s hI b s' hbody
      exact ⟨hF, ih _ hnext⟩

/-- Handling. -/
theorem Within.tryCatch {p : Program σ ε Λ α} {handler : ε → Program σ ε Λ α}
    (h : p.Within I F Q) (hhandler : ∀ e, (handler e).Within I F Q) :
    (MonadExcept.tryCatch p handler).Within I F Q := by
  change (p.tryCatch handler).Within I F Q
  induction p with
  | done a => exact h
  | throw e => exact hhandler e
  | ask γ next ih => exact fun r ↦ ih r (h r)
  | mark label next ih => exact ih h
  | memory γ update next ih => exact fun s hI ↦ ⟨(h s hI).1, ih _ (h s hI).2⟩
  | transaction γ label body next ih =>
      refine ⟨fun s hI b s' hbody ↦ ?_, fun e ↦ ih _ (h.2 e)⟩
      obtain ⟨hF, hnext⟩ := h.1 s hI b s' hbody
      exact ⟨hF, ih _ hnext⟩

theorem Within.foldlM {γ : Type} {l : List γ} {f : α → γ → Program σ ε Λ α} {init : α}
    (hinit : Q init) (hbody : ∀ x ∈ l, ∀ a, Q a → (f a x).Within I F Q) :
    (l.foldlM f init).Within I F Q := by
  induction l generalizing init with
  | nil => exact hinit
  | cons x l ih =>
      rw [List.foldlM_cons]
      refine (hbody x List.mem_cons_self init hinit).bind fun a ha ↦ ?_
      exact ih ha fun y hy ↦ hbody y (List.mem_cons_of_mem x hy)

theorem Within.forM {γ : Type} {l : List γ} {body : γ → Program σ ε Λ PUnit}
    (hbody : ∀ x ∈ l, (body x).Within I F fun _ ↦ True) :
    (forM l body : Program σ ε Λ PUnit).Within I F fun _ ↦ True := by
  induction l with
  | nil => trivial
  | cons x l ih =>
      rw [List.forM_cons]
      refine (hbody x List.mem_cons_self).bind fun _ _ ↦ ?_
      exact ih fun y hy ↦ hbody y (List.mem_cons_of_mem x hy)

theorem within_transaction {label : Option Λ} {body : σ → Except ε (α × σ)}
    (h : ∀ s, I s → ∀ a s', body s = .ok (a, s') → F s s' ∧ Q a) :
    (transaction α label body settle : Program σ ε Λ α).Within I F Q :=
  ⟨fun s hI a s' hbody ↦ h s hI a s' hbody, fun _ ↦ trivial⟩

/-- Alone, the program as a whole stays within its footprint. -/
theorem Within.alone {p : Program σ ε Λ α} (hrefl : ∀ s, F s s)
    (htrans : ∀ s₁ s₂ s₃, F s₁ s₂ → F s₂ s₃ → F s₁ s₃) (hkeep : ∀ s s', F s s' → I s → I s')
    {s s' : σ} {ls : List (Option Λ)} {r : Except ε α} (h : p.Within I F Q) (hI : I s)
    (hrun : Alone s p ls s' r) : F s s' ∧ ∀ a, r = .ok a → Q a := by
  induction hrun with
  | done => exact ⟨hrefl _, fun a ha ↦ by cases ha; exact h⟩
  | throw => exact ⟨hrefl _, fun a ha ↦ by cases ha⟩
  | ask r _ ih => exact ih (h r) hI
  | mark _ ih => exact ih h hI
  | memory _ ih =>
      obtain ⟨hF, hnext⟩ := h _ hI
      obtain ⟨hrest, hQ⟩ := ih hnext (hkeep _ _ hF hI)
      exact ⟨htrans _ _ _ hF hrest, hQ⟩
  | commit committed _ ih =>
      obtain ⟨hF, hnext⟩ := h.1 _ hI _ _ committed
      obtain ⟨hrest, hQ⟩ := ih hnext (hkeep _ _ hF hI)
      exact ⟨htrans _ _ _ hF hrest, hQ⟩
  | abort _ _ ih => exact ih (h.2 _) hI

/-- Among others that keep `I`, it promises its footprint. -/
theorem Within.meets {p : Program σ ε Λ α} (hrefl : ∀ s, F s s)
    (hkeep : ∀ s s', F s s' → I s → I s') {tr : List Λ} {s : σ} (h : p.Within I F Q)
    (hI : I s) :
    p.Meets (fun s s' ↦ I s → I s') (fun _ _ ↦ F) (fun _ _ _ ↦ True) tr s := by
  induction p generalizing tr s with
  | done a => trivial
  | throw e => trivial
  | ask γ next ih => exact fun s₁ hR r ↦ ih r (h r) (hR hI)
  | mark label next ih => exact fun s₁ hR ↦ ⟨hrefl s₁, ih h (hR hI)⟩
  | memory γ update next ih =>
      intro s₁ hR
      obtain ⟨hF, hnext⟩ := h s₁ (hR hI)
      exact ⟨hF, ih _ hnext (hkeep _ _ hF (hR hI))⟩
  | transaction γ label body next ih =>
      refine fun s₁ hR ↦ ⟨fun b s₂ hbody ↦ ?_, fun e ↦ ih _ (h.2 e) (hR hI)⟩
      obtain ⟨hF, hnext⟩ := h.1 s₁ (hR hI) b s₂ hbody
      have hI₂ := hkeep _ _ hF (hR hI)
      exact ⟨hF, ih _ hnext hI₂, fun e ↦ ih _ (h.2 e) hI₂⟩

end Foundations.Program
