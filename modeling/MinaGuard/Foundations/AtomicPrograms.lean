import Mathlib.Logic.Function.Basic
import MinaGuard.Foundations.TransitionSystem

/-!
# Programs of atomic transactions

Asynchronous programs over one shared store.  Between its atomic steps a
program can be interrupted by the others, and a transaction can fail in three
ways: it is rolled back, it commits but its client is told that it failed, or
the server stops.  `Meets` is a weakest precondition relative to what the
others may do meanwhile (`R`) and what the program promises them (`G`); it has
one rule for each way of composing programs, and `ServerStep.keeps` is the
only induction over runs.
-/

namespace Foundations

universe u

/-- A program on a store of type `σ` that may throw an `ε`.  A step that others
watch leaves a label. -/
inductive Program (σ ε Λ α : Type) : Type 1 where
  | done (a : α)
  | throw (e : ε)
  /-- An answer from outside, or no answer. -/
  | ask (β : Type) (next : Except ε β → Program σ ε Λ α)
  | mark (label : Λ) (next : Program σ ε Λ α)
  /-- A change of the program's own memory; it cannot fail. -/
  | memory (β : Type) (update : σ → β × σ) (next : β → Program σ ε Λ α)
  | transaction (β : Type) (label : Option Λ) (body : σ → Except ε (β × σ))
      (next : Except ε β → Program σ ε Λ α)

namespace Program

variable {σ ε Λ α β : Type}

protected def bind (p : Program σ ε Λ α) (f : α → Program σ ε Λ β) : Program σ ε Λ β :=
  match p with
  | done a => f a
  | throw e => throw e
  | ask γ next => ask γ fun r ↦ (next r).bind f
  | mark label next => mark label (next.bind f)
  | memory γ update next => memory γ update fun b ↦ (next b).bind f
  | transaction γ label body next => transaction γ label body fun r ↦ (next r).bind f

/-- `try p catch handler`. -/
protected def tryCatch (p : Program σ ε Λ α) (handler : ε → Program σ ε Λ α) :
    Program σ ε Λ α :=
  match p with
  | done a => done a
  | throw e => handler e
  | ask γ next => ask γ fun r ↦ (next r).tryCatch handler
  | mark label next => mark label (next.tryCatch handler)
  | memory γ update next => memory γ update fun b ↦ (next b).tryCatch handler
  | transaction γ label body next =>
      transaction γ label body fun r ↦ (next r).tryCatch handler

instance : Monad (Program σ ε Λ) where
  pure := done
  bind := Program.bind

instance : MonadExceptOf ε (Program σ ε Λ) where
  throw := throw
  tryCatch := Program.tryCatch

/-- Return what came back, or throw it. -/
def settle : Except ε α → Program σ ε Λ α
  | .ok a => done a
  | .error e => throw e

/-- One atomic step of a program. -/
inductive Step : σ → Program σ ε Λ α → Option Λ → σ → Program σ ε Λ α → Prop where
  | answer {s : σ} {γ : Type} {next : Except ε γ → Program σ ε Λ α} (r : Except ε γ) :
      Step s (ask γ next) none s (next r)
  | mark {s : σ} {label : Λ} {next : Program σ ε Λ α} :
      Step s (mark label next) (some label) s next
  | memory {s : σ} {γ : Type} {update : σ → γ × σ} {next : γ → Program σ ε Λ α} :
      Step s (memory γ update next) none (update s).2 (next (update s).1)
  | commit {s s' : σ} {γ : Type} {label : Option Λ} {body : σ → Except ε (γ × σ)}
      {next : Except ε γ → Program σ ε Λ α} {b : γ} (committed : body s = .ok (b, s')) :
      Step s (transaction γ label body next) label s' (next (.ok b))
  /-- The transaction commits, but the client sees an error. -/
  | lost {s s' : σ} {γ : Type} {label : Option Λ} {body : σ → Except ε (γ × σ)}
      {next : Except ε γ → Program σ ε Λ α} {b : γ} (committed : body s = .ok (b, s'))
      (e : ε) : Step s (transaction γ label body next) label s' (next (.error e))
  | abort {s : σ} {γ : Type} {label : Option Λ} {body : σ → Except ε (γ × σ)}
      {next : Except ε γ → Program σ ε Λ α} (e : ε) :
      Step s (transaction γ label body next) none s (next (.error e))

theorem Step.bind {p p' : Program σ ε Λ α} {f : α → Program σ ε Λ β} {s s' : σ} {l : Option Λ}
    (h : Step s p l s' p') : Step s (p >>= f) l s' (p' >>= f) := by
  cases h with
  | answer r => exact .answer r
  | mark => exact .mark
  | memory => exact .memory
  | commit committed => exact .commit committed
  | lost committed e => exact .lost committed e
  | abort e => exact .abort e

/-- Some steps of a program, and what it has left to do. -/
inductive Steps : σ → Program σ ε Λ α → List (Option Λ) → σ → Program σ ε Λ α → Prop where
  | refl {s : σ} {p : Program σ ε Λ α} : Steps s p [] s p
  | head {s s₁ s' : σ} {p p₁ p' : Program σ ε Λ α} {l : Option Λ} {ls : List (Option Λ)}
      (first : Step s p l s₁ p₁) (rest : Steps s₁ p₁ ls s' p') : Steps s p (l :: ls) s' p'

theorem Steps.bind {p p' : Program σ ε Λ α} {f : α → Program σ ε Λ β} {s s' : σ}
    {ls : List (Option Λ)} (h : Steps s p ls s' p') : Steps s (p >>= f) ls s' (p' >>= f) := by
  induction h with
  | refl => exact .refl
  | head first rest ih => exact .head first.bind ih

/-- Whatever the others do within `R`, each step keeps the promise `G`, which
may look at the labels left so far, and the program ends in `Q` if it ends. -/
def Meets (R : σ → σ → Prop) (G : List Λ → Option Λ → σ → σ → Prop) :
    Program σ ε Λ α → (List Λ → σ → Except ε α → Prop) → List Λ → σ → Prop
  | done a, Q, tr, s => Q tr s (.ok a)
  | throw e, Q, tr, s => Q tr s (.error e)
  | ask _ next, Q, tr, s => ∀ s₁, R s s₁ → ∀ r, (next r).Meets R G Q tr s₁
  | mark label next, Q, tr, s => ∀ s₁, R s s₁ →
      G tr (some label) s₁ s₁ ∧ next.Meets R G Q (tr ++ [label]) s₁
  | memory _ update next, Q, tr, s => ∀ s₁, R s s₁ →
      G tr none s₁ (update s₁).2 ∧ (next (update s₁).1).Meets R G Q tr (update s₁).2
  | transaction _ label body next, Q, tr, s => ∀ s₁, R s s₁ →
      (∀ b s₂, body s₁ = .ok (b, s₂) → G tr label s₁ s₂ ∧
        (next (.ok b)).Meets R G Q (tr ++ label.toList) s₂ ∧
          ∀ e, (next (.error e)).Meets R G Q (tr ++ label.toList) s₂) ∧
        ∀ e, (next (.error e)).Meets R G Q tr s₁

variable {R : σ → σ → Prop} {G : List Λ → Option Λ → σ → σ → Prop}
  {Q Q' : List Λ → σ → Except ε α → Prop} {tr : List Λ} {s : σ}

theorem meets_settle {r : Except ε α} : (settle r : Program σ ε Λ α).Meets R G Q tr s ↔
    Q tr s r := by
  cases r with
  | ok a => rfl
  | error e => rfl

/-- The rule of consequence. -/
theorem Meets.mono {p : Program σ ε Λ α} (hQ : ∀ tr s r, Q tr s r → Q' tr s r)
    (h : p.Meets R G Q tr s) : p.Meets R G Q' tr s := by
  induction p generalizing tr s with
  | done a => exact hQ _ _ _ h
  | throw e => exact hQ _ _ _ h
  | ask γ next ih => exact fun s₁ hR r ↦ ih r (h s₁ hR r)
  | mark label next ih => exact fun s₁ hR ↦ ⟨(h s₁ hR).1, ih (h s₁ hR).2⟩
  | memory γ update next ih => exact fun s₁ hR ↦ ⟨(h s₁ hR).1, ih _ (h s₁ hR).2⟩
  | transaction γ label body next ih =>
      intro s₁ hR
      obtain ⟨hcommit, habort⟩ := h s₁ hR
      refine ⟨?_, fun e ↦ ih _ (habort e)⟩
      intro b s₂ hbody
      obtain ⟨hG, hok, hlost⟩ := hcommit b s₂ hbody
      exact ⟨hG, ih _ hok, fun e ↦ ih _ (hlost e)⟩

/-- Sequencing: an error skips the rest. -/
theorem Meets.bind {Q : List Λ → σ → Except ε β → Prop} {p : Program σ ε Λ α}
    {f : α → Program σ ε Λ β}
    (h : p.Meets R G (fun tr s r ↦ match r with
      | .ok a => (f a).Meets R G Q tr s
      | .error e => Q tr s (.error e)) tr s) :
    (p >>= f).Meets R G Q tr s := by
  change (p.bind f).Meets R G Q tr s
  induction p generalizing tr s with
  | done a => exact h
  | throw e => exact h
  | ask γ next ih => exact fun s₁ hR r ↦ ih r (h s₁ hR r)
  | mark label next ih => exact fun s₁ hR ↦ ⟨(h s₁ hR).1, ih (h s₁ hR).2⟩
  | memory γ update next ih => exact fun s₁ hR ↦ ⟨(h s₁ hR).1, ih _ (h s₁ hR).2⟩
  | transaction γ label body next ih =>
      intro s₁ hR
      obtain ⟨hcommit, habort⟩ := h s₁ hR
      refine ⟨?_, fun e ↦ ih _ (habort e)⟩
      intro b s₂ hbody
      obtain ⟨hG, hok, hlost⟩ := hcommit b s₂ hbody
      exact ⟨hG, ih _ hok, fun e ↦ ih _ (hlost e)⟩

/-- Handling: a result skips the handler. -/
theorem Meets.tryCatch {p : Program σ ε Λ α} {handler : ε → Program σ ε Λ α}
    (h : p.Meets R G (fun tr s r ↦ match r with
      | .ok a => Q tr s (.ok a)
      | .error e => (handler e).Meets R G Q tr s) tr s) :
    (MonadExcept.tryCatch p handler).Meets R G Q tr s := by
  change (p.tryCatch handler).Meets R G Q tr s
  induction p generalizing tr s with
  | done a => exact h
  | throw e => exact h
  | ask γ next ih => exact fun s₁ hR r ↦ ih r (h s₁ hR r)
  | mark label next ih => exact fun s₁ hR ↦ ⟨(h s₁ hR).1, ih (h s₁ hR).2⟩
  | memory γ update next ih => exact fun s₁ hR ↦ ⟨(h s₁ hR).1, ih _ (h s₁ hR).2⟩
  | transaction γ label body next ih =>
      intro s₁ hR
      obtain ⟨hcommit, habort⟩ := h s₁ hR
      refine ⟨?_, fun e ↦ ih _ (habort e)⟩
      intro b s₂ hbody
      obtain ⟨hG, hok, hlost⟩ := hcommit b s₂ hbody
      exact ⟨hG, ih _ hok, fun e ↦ ih _ (hlost e)⟩

/-- Interference before a program starts is interference before its first step. -/
theorem Meets.interfere {p : Program σ ε Λ α} {s' : σ}
    (htrans : ∀ s₁ s₂ s₃, R s₁ s₂ → R s₂ s₃ → R s₁ s₃)
    (hQ : ∀ tr s₁ s₂ r, R s₁ s₂ → Q tr s₁ r → Q tr s₂ r)
    (h : p.Meets R G Q tr s) (hR : R s s') : p.Meets R G Q tr s' := by
  cases p with
  | done a => exact hQ _ _ _ _ hR h
  | throw e => exact hQ _ _ _ _ hR h
  | ask γ next => exact fun s₁ hR' ↦ h s₁ (htrans _ _ _ hR hR')
  | mark label next => exact fun s₁ hR' ↦ h s₁ (htrans _ _ _ hR hR')
  | memory γ update next => exact fun s₁ hR' ↦ h s₁ (htrans _ _ _ hR hR')
  | transaction γ label body next => exact fun s₁ hR' ↦ h s₁ (htrans _ _ _ hR hR')

/-- Loops with a state: an invariant of what was done that each pass extends or
abandons with an error. -/
theorem Meets.foldlM {γ : Type} {l : List γ} {f : α → γ → Program σ ε Λ α} {init : α}
    (I : List γ → α → List Λ → σ → Prop)
    (hbody : ∀ front x back, l = front ++ x :: back → ∀ a tr s, I front a tr s →
      (f a x).Meets R G (fun tr s r ↦ match r with
        | .ok a => I (front ++ [x]) a tr s
        | .error e => Q tr s (.error e)) tr s)
    (hdone : ∀ a tr s, I l a tr s → Q tr s (.ok a)) (h : I [] init tr s) :
    (l.foldlM f init).Meets R G Q tr s := by
  suffices hrest : ∀ (back front : List γ) (a : α) (tr : List Λ) (s : σ), l = front ++ back →
      I front a tr s → (back.foldlM f a).Meets R G Q tr s from hrest l [] init tr s rfl h
  intro back
  induction back with
  | nil =>
      intro front a tr s hl hI
      rw [List.append_nil] at hl
      exact hdone a tr s (hl ▸ hI)
  | cons x back ih =>
      intro front a tr s hl hI
      rw [List.foldlM_cons]
      refine Meets.bind ((hbody front x back hl a tr s hI).mono ?_)
      intro tr s r hr
      cases r with
      | error e => exact hr
      | ok a' => exact ih (front ++ [x]) a' tr s (by rw [hl, List.append_assoc]; rfl) hr

/-- Loops without a state. -/
theorem Meets.forM {γ : Type} {l : List γ} {body : γ → Program σ ε Λ PUnit}
    {Q : List Λ → σ → Except ε PUnit → Prop} (I : List Λ → σ → Prop)
    (hbody : ∀ x ∈ l, ∀ tr s, I tr s → (body x).Meets R G (fun tr s r ↦ match r with
      | .ok _ => I tr s
      | .error e => Q tr s (.error e)) tr s)
    (hdone : ∀ tr s, I tr s → Q tr s (.ok ⟨⟩)) (h : I tr s) :
    (forM l body : Program σ ε Λ PUnit).Meets R G Q tr s := by
  induction l generalizing tr s with
  | nil => exact hdone tr s h
  | cons x l ih =>
      rw [List.forM_cons]
      refine Meets.bind ((hbody x (by simp) tr s h).mono ?_)
      intro tr s r hr
      cases r with
      | error e => exact hr
      | ok u => exact ih (fun y hy ↦ hbody y (List.mem_cons_of_mem x hy)) hr

/-! ## One step and its result -/

theorem Meets.ask (h : ∀ s₁, R s s₁ → ∀ r, Q tr s₁ r) :
    (ask α settle : Program σ ε Λ α).Meets R G Q tr s :=
  fun s₁ hR r ↦ meets_settle.mpr (h s₁ hR r)

theorem Meets.transaction {label : Option Λ} {body : σ → Except ε (α × σ)}
    (h : ∀ s₁, R s s₁ →
      (∀ a s₂, body s₁ = .ok (a, s₂) → G tr label s₁ s₂ ∧ Q (tr ++ label.toList) s₂ (.ok a) ∧
        ∀ e, Q (tr ++ label.toList) s₂ (.error e)) ∧ ∀ e, Q tr s₁ (.error e)) :
    (transaction α label body settle : Program σ ε Λ α).Meets R G Q tr s := by
  intro s₁ hR
  obtain ⟨hcommit, habort⟩ := h s₁ hR
  refine ⟨?_, fun e ↦ meets_settle.mpr (habort e)⟩
  intro a s₂ hbody
  obtain ⟨hG, hok, herror⟩ := hcommit a s₂ hbody
  exact ⟨hG, meets_settle.mpr hok, fun e ↦ meets_settle.mpr (herror e)⟩

theorem Meets.mark {label : Λ} {Q : List Λ → σ → Except ε Unit → Prop}
    (h : ∀ s₁, R s s₁ → G tr (some label) s₁ s₁ ∧ Q (tr ++ [label]) s₁ (.ok ())) :
    (mark label (done ()) : Program σ ε Λ Unit).Meets R G Q tr s := h

theorem Meets.memory {update : σ → α × σ}
    (h : ∀ s₁, R s s₁ → G tr none s₁ (update s₁).2 ∧ Q tr (update s₁).2 (.ok (update s₁).1)) :
    (memory α update done : Program σ ε Λ α).Meets R G Q tr s := h

/-- A step of a program that keeps its promise keeps it. -/
theorem Meets.step {p p' : Program σ ε Λ α} {l : Option Λ} {s' : σ}
    (hrefl : ∀ tr s, G tr none s s) (hR : R s s)
    (h : p.Meets R G Q tr s) (hstep : Step s p l s' p') :
    G tr l s s' ∧ p'.Meets R G Q (tr ++ l.toList) s' := by
  cases hstep with
  | answer r =>
      rw [Option.toList_none, List.append_nil]
      exact ⟨hrefl tr s, h s hR r⟩
  | mark => exact h s hR
  | memory =>
      rw [Option.toList_none, List.append_nil]
      exact h s hR
  | commit committed =>
      obtain ⟨hG, hok, -⟩ := (h s hR).1 _ _ committed
      exact ⟨hG, hok⟩
  | lost committed e =>
      obtain ⟨hG, -, hlost⟩ := (h s hR).1 _ _ committed
      exact ⟨hG, hlost e⟩
  | abort e =>
      rw [Option.toList_none, List.append_nil]
      exact ⟨hrefl tr s, (h s hR).2 e⟩

/-- Alone on a store that does not fail, the program leaves the labels `ls` and
ends in `s'` with `r`. -/
inductive Alone : σ → Program σ ε Λ α → List (Option Λ) → σ → Except ε α → Prop where
  | done {s : σ} {a : α} : Alone s (done a) [] s (.ok a)
  | throw {s : σ} {e : ε} : Alone s (throw e) [] s (.error e)
  | ask {s s' : σ} {γ : Type} {next : Except ε γ → Program σ ε Λ α} {ls : List (Option Λ)}
      {res : Except ε α} (r : Except ε γ) (rest : Alone s (next r) ls s' res) :
      Alone s (ask γ next) (none :: ls) s' res
  | mark {s s' : σ} {label : Λ} {next : Program σ ε Λ α} {ls : List (Option Λ)}
      {res : Except ε α} (rest : Alone s next ls s' res) :
      Alone s (mark label next) (some label :: ls) s' res
  | memory {s s' : σ} {γ : Type} {update : σ → γ × σ} {next : γ → Program σ ε Λ α}
      {ls : List (Option Λ)} {res : Except ε α}
      (rest : Alone (update s).2 (next (update s).1) ls s' res) :
      Alone s (memory γ update next) (none :: ls) s' res
  | commit {s s₁ s' : σ} {γ : Type} {label : Option Λ} {body : σ → Except ε (γ × σ)}
      {next : Except ε γ → Program σ ε Λ α} {b : γ} {ls : List (Option Λ)}
      {res : Except ε α} (committed : body s = .ok (b, s₁))
      (rest : Alone s₁ (next (.ok b)) ls s' res) :
      Alone s (transaction γ label body next) (label :: ls) s' res
  /-- The transaction itself throws. -/
  | abort {s s' : σ} {γ : Type} {label : Option Λ} {body : σ → Except ε (γ × σ)}
      {next : Except ε γ → Program σ ε Λ α} {e : ε} {ls : List (Option Λ)}
      {res : Except ε α} (thrown : body s = .error e)
      (rest : Alone s (next (.error e)) ls s' res) :
      Alone s (transaction γ label body next) (none :: ls) s' res

section Alone

variable {s s₁ s' : σ} {ls ls' : List (Option Λ)}

theorem Alone.bind {p : Program σ ε Λ α} {f : α → Program σ ε Λ β} {a : α}
    {r : Except ε β} (h : Alone s p ls s₁ (.ok a)) (h' : Alone s₁ (f a) ls' s' r) :
    Alone s (p >>= f) (ls ++ ls') s' r := by
  change Alone s (p.bind f) (ls ++ ls') s' r
  generalize hres : Except.ok a = res at h
  induction h with
  | done =>
      cases hres
      exact h'
  | throw => cases hres
  | ask r rest ih => exact .ask r (ih h' hres)
  | mark rest ih => exact .mark (ih h' hres)
  | memory rest ih => exact .memory (ih h' hres)
  | commit committed rest ih => exact .commit committed (ih h' hres)
  | abort thrown rest ih => exact .abort thrown (ih h' hres)

/-- What is done alone is done step by step. -/
theorem Alone.steps {p : Program σ ε Λ α} {r : Except ε α} (h : Alone s p ls s' r) :
    ∃ p', Steps s p ls s' p' := by
  induction h with
  | done => exact ⟨_, .refl⟩
  | throw => exact ⟨_, .refl⟩
  | ask r rest ih => exact ih.imp fun _ ↦ .head (.answer r)
  | mark rest ih => exact ih.imp fun _ ↦ .head .mark
  | memory rest ih => exact ih.imp fun _ ↦ .head .memory
  | commit committed rest ih => exact ih.imp fun _ ↦ .head (.commit committed)
  | abort thrown rest ih => exact ih.imp fun _ ↦ .head (.abort _)

theorem Alone.steps_bind {p : Program σ ε Λ α} {f : α → Program σ ε Λ β} {a : α}
    {q : Program σ ε Λ β} (h : Alone s p ls s₁ (.ok a)) (h' : Steps s₁ (f a) ls' s' q) :
    Steps s (p >>= f) (ls ++ ls') s' q := by
  change Steps s (p.bind f) (ls ++ ls') s' q
  generalize hres : Except.ok a = res at h
  induction h with
  | done =>
      cases hres
      exact h'
  | throw => cases hres
  | ask r rest ih => exact .head (.answer r) (ih h' hres)
  | mark rest ih => exact .head .mark (ih h' hres)
  | memory rest ih => exact .head .memory (ih h' hres)
  | commit committed rest ih => exact .head (.commit committed) (ih h' hres)
  | abort thrown rest ih => exact .head (.abort _) (ih h' hres)

/-- The program pauses in `s₁`, finds `s₂` when it goes on, and nothing disturbs it before
or after. -/
def Pauses (s : σ) (p : Program σ ε Λ α) (ls : List (Option Λ)) (s₁ s₂ : σ)
    (ls' : List (Option Λ)) (s' : σ) (r : Except ε α) : Prop :=
  ∃ q, Steps s p ls s₁ q ∧ Alone s₂ q ls' s' r

section Pauses

variable {s₂ s₃ : σ} {ls'' : List (Option Λ)}

theorem Pauses.bind {p : Program σ ε Λ α} {f : α → Program σ ε Λ β} {a : α} {r : Except ε β}
    (h : Pauses s p ls s₁ s₂ ls' s₃ (.ok a)) (h' : Alone s₃ (f a) ls'' s' r) :
    Pauses s (p >>= f) ls s₁ s₂ (ls' ++ ls'') s' r := by
  obtain ⟨q, hsteps, halone⟩ := h
  exact ⟨q >>= f, hsteps.bind, halone.bind h'⟩

theorem Alone.pauses_bind {p : Program σ ε Λ α} {f : α → Program σ ε Λ β} {a : α}
    {r : Except ε β} (h : Alone s p ls s₁ (.ok a))
    (h' : Pauses s₁ (f a) ls' s₂ s₃ ls'' s' r) :
    Pauses s (p >>= f) (ls ++ ls') s₂ s₃ ls'' s' r := by
  obtain ⟨q, hsteps, halone⟩ := h'
  exact ⟨q, h.steps_bind hsteps, halone⟩

theorem Pauses.mark {label : Λ} {next : Program σ ε Λ α} {r : Except ε α}
    (h : Pauses s next ls s₁ s₂ ls' s' r) :
    Pauses s (.mark label next) (some label :: ls) s₁ s₂ ls' s' r := by
  obtain ⟨q, hsteps, halone⟩ := h
  exact ⟨q, .head .mark hsteps, halone⟩

end Pauses

/-- A sequence ends with an error of its first part, or with its second part. -/
theorem Alone.of_bind {p : Program σ ε Λ α} {f : α → Program σ ε Λ β} {r : Except ε β}
    (h : Alone s (p >>= f) ls s' r) :
    (∃ e, Alone s p ls s' (.error e) ∧ r = .error e) ∨
      ∃ a s₁ front back, Alone s p front s₁ (.ok a) ∧ Alone s₁ (f a) back s' r ∧
        ls = front ++ back := by
  change Alone s (p.bind f) ls s' r at h
  induction p generalizing s ls with
  | done a => exact Or.inr ⟨a, s, [], ls, .done, h, rfl⟩
  | throw e =>
      cases h
      exact Or.inl ⟨e, .throw, rfl⟩
  | ask γ next ih =>
      cases h with
      | ask r' rest =>
          rcases ih r' rest with ⟨e, he, hr⟩ | ⟨a, s₁, front, back, ha, hb, rfl⟩
          · exact Or.inl ⟨e, .ask r' he, hr⟩
          · exact Or.inr ⟨a, s₁, _, back, .ask r' ha, hb, rfl⟩
  | mark label next ih =>
      cases h with
      | mark rest =>
          rcases ih rest with ⟨e, he, hr⟩ | ⟨a, s₁, front, back, ha, hb, rfl⟩
          · exact Or.inl ⟨e, .mark he, hr⟩
          · exact Or.inr ⟨a, s₁, _, back, .mark ha, hb, rfl⟩
  | memory γ update next ih =>
      cases h with
      | memory rest =>
          rcases ih _ rest with ⟨e, he, hr⟩ | ⟨a, s₁, front, back, ha, hb, rfl⟩
          · exact Or.inl ⟨e, .memory he, hr⟩
          · exact Or.inr ⟨a, s₁, _, back, .memory ha, hb, rfl⟩
  | transaction γ label body next ih =>
      cases h with
      | commit committed rest =>
          rcases ih _ rest with ⟨e, he, hr⟩ | ⟨a, s₁, front, back, ha, hb, rfl⟩
          · exact Or.inl ⟨e, .commit committed he, hr⟩
          · exact Or.inr ⟨a, s₁, _, back, .commit committed ha, hb, rfl⟩
      | abort thrown rest =>
          rcases ih _ rest with ⟨e, he, hr⟩ | ⟨a, s₁, front, back, ha, hb, rfl⟩
          · exact Or.inl ⟨e, .abort thrown he, hr⟩
          · exact Or.inr ⟨a, s₁, _, back, .abort thrown ha, hb, rfl⟩

/-- A guarded program ends with its own result, or with the handler's. -/
theorem Alone.of_tryCatch {p : Program σ ε Λ α} {handler : ε → Program σ ε Λ α}
    {r : Except ε α} (h : Alone s (MonadExcept.tryCatch p handler) ls s' r) :
    (∃ a, Alone s p ls s' (.ok a) ∧ r = .ok a) ∨
      ∃ e s₁ front back, Alone s p front s₁ (.error e) ∧ Alone s₁ (handler e) back s' r ∧
        ls = front ++ back := by
  change Alone s (p.tryCatch handler) ls s' r at h
  induction p generalizing s ls with
  | done a =>
      cases h
      exact Or.inl ⟨a, .done, rfl⟩
  | throw e => exact Or.inr ⟨e, s, [], ls, .throw, h, rfl⟩
  | ask γ next ih =>
      cases h with
      | ask r' rest =>
          rcases ih r' rest with ⟨a, ha, hr⟩ | ⟨e, s₁, front, back, he, hb, rfl⟩
          · exact Or.inl ⟨a, .ask r' ha, hr⟩
          · exact Or.inr ⟨e, s₁, _, back, .ask r' he, hb, rfl⟩
  | mark label next ih =>
      cases h with
      | mark rest =>
          rcases ih rest with ⟨a, ha, hr⟩ | ⟨e, s₁, front, back, he, hb, rfl⟩
          · exact Or.inl ⟨a, .mark ha, hr⟩
          · exact Or.inr ⟨e, s₁, _, back, .mark he, hb, rfl⟩
  | memory γ update next ih =>
      cases h with
      | memory rest =>
          rcases ih _ rest with ⟨a, ha, hr⟩ | ⟨e, s₁, front, back, he, hb, rfl⟩
          · exact Or.inl ⟨a, .memory ha, hr⟩
          · exact Or.inr ⟨e, s₁, _, back, .memory he, hb, rfl⟩
  | transaction γ label body next ih =>
      cases h with
      | commit committed rest =>
          rcases ih _ rest with ⟨a, ha, hr⟩ | ⟨e, s₁, front, back, he, hb, rfl⟩
          · exact Or.inl ⟨a, .commit committed ha, hr⟩
          · exact Or.inr ⟨e, s₁, _, back, .commit committed he, hb, rfl⟩
      | abort thrown rest =>
          rcases ih _ rest with ⟨a, ha, hr⟩ | ⟨e, s₁, front, back, he, hb, rfl⟩
          · exact Or.inl ⟨a, .abort thrown ha, hr⟩
          · exact Or.inr ⟨e, s₁, _, back, .abort thrown he, hb, rfl⟩

/-- A handler that is not needed. -/
theorem Alone.tryCatch {p : Program σ ε Λ α} {handler : ε → Program σ ε Λ α} {a : α}
    (h : Alone s p ls s' (.ok a)) : Alone s (MonadExcept.tryCatch p handler) ls s' (.ok a) := by
  change Alone s (p.tryCatch handler) ls s' (.ok a)
  generalize hres : Except.ok a = res at h ⊢
  induction h with
  | done => exact .done
  | throw => cases hres
  | ask r rest ih => exact .ask r (ih hres)
  | mark rest ih => exact .mark (ih hres)
  | memory rest ih => exact .memory (ih hres)
  | commit committed rest ih => exact .commit committed (ih hres)
  | abort thrown rest ih => exact .abort thrown (ih hres)

/-- What a loop that ended leaves, from what each pass does. -/
theorem Alone.of_foldlM {γ : Type} {l : List γ} {f : α → γ → Program σ ε Λ α} {init a : α}
    (R : List γ → α → σ → Prop)
    (hbody : ∀ front x b s ls c s', R front b s → Alone s (f b x) ls s' (.ok c) →
      R (front ++ [x]) c s')
    (h : Alone s (l.foldlM f init) ls s' (.ok a)) (hinit : R [] init s) : R l a s' := by
  suffices hrest : ∀ (back front : List γ) (b : α) (s : σ) (ls : List (Option Λ)),
      R front b s → Alone s (back.foldlM f b) ls s' (.ok a) → R (front ++ back) a s' from
    hrest l [] init s ls hinit h
  intro back
  induction back with
  | nil =>
      intro front b s ls hR h
      cases h
      rwa [List.append_nil]
  | cons x back ih =>
      intro front b s ls hR h
      rw [List.foldlM_cons] at h
      rcases h.of_bind with ⟨e, -, hr⟩ | ⟨c, s₁, _, _, hx, hback, -⟩
      · cases hr
      · have hfront := ih (front ++ [x]) c s₁ _ (hbody front x b s _ c s₁ hR hx) hback
        rwa [List.append_assoc, List.singleton_append] at hfront

end Alone

end Program

/-! ## Servers -/

/-- A running program with the labels it has left. -/
structure Job (σ ε Λ : Type) where
  trace : List Λ
  program : Program σ ε Λ Unit

/-- A store and the jobs on it, at most one in each slot. -/
structure Server (ι σ ε Λ : Type) where
  store : σ
  jobs : ι → Option (Job σ ε Λ)

/-- What can happen to a server. -/
inductive Happening (ι Λ : Type) where
  | start (i : ι)
  | run (i : ι) (label : Option Λ)
  | stop (i : ι)
  | crash

section Servers

variable {ι σ ε Λ : Type} [DecidableEq ι]

/-- Jobs of the allowed kinds start in free slots, take turns, and stop.  A
crash takes all of them and the memory, and leaves what `restart` keeps. -/
inductive ServerStep (starts : ι → Program σ ε Λ Unit → Prop) (restart : σ → σ) :
    Server ι σ ε Λ → Happening ι Λ → Server ι σ ε Λ → Prop where
  | start {S : Server ι σ ε Λ} {i : ι} {p : Program σ ε Λ Unit} (free : S.jobs i = none)
      (allowed : starts i p) : ServerStep starts restart S (.start i)
        { S with jobs := Function.update S.jobs i (some ⟨[], p⟩) }
  | run {S : Server ι σ ε Λ} {i : ι} {job : Job σ ε Λ} {l : Option Λ} {s' : σ}
      {p' : Program σ ε Λ Unit} (running : S.jobs i = some job)
      (step : job.program.Step S.store l s' p') : ServerStep starts restart S (.run i l)
        ⟨s', Function.update S.jobs i (some ⟨job.trace ++ l.toList, p'⟩)⟩
  | stop {S : Server ι σ ε Λ} {i : ι} : ServerStep starts restart S (.stop i)
        { S with jobs := Function.update S.jobs i none }
  | crash {S : Server ι σ ε Λ} :
      ServerStep starts restart S .crash ⟨restart S.store, fun _ ↦ none⟩

/-- A server that starts without jobs. -/
def serverSystem (start : σ → Prop) (starts : ι → Program σ ε Λ Unit → Prop)
    (restart : σ → σ) : TransitionSystem (Server ι σ ε Λ) (Happening ι Λ) where
  init := fun S ↦ start S.store ∧ ∀ i, S.jobs i = none
  step := ServerStep starts restart

variable {start : σ → Prop} {starts : ι → Program σ ε Λ Unit → Prop} {restart : σ → σ}

/-- What a slot holds after one slot was written. -/
theorem eq_some_of_update {jobs : ι → Option (Job σ ε Λ)} {i j : ι}
    {v : Option (Job σ ε Λ)} {job : Job σ ε Λ}
    (h : Function.update jobs i v j = some job) :
    j = i ∧ v = some job ∨ j ≠ i ∧ jobs j = some job := by
  by_cases hj : j = i
  · subst hj
    rw [Function.update_self] at h
    exact Or.inl ⟨rfl, h⟩
  · rw [Function.update_of_ne hj] at h
    exact Or.inr ⟨hj, h⟩

/-- The rule for runs: where each kind of job keeps its promise to the others,
every step of every run keeps the promise of its job. -/
theorem ServerStep.keeps (I : σ → Prop) (R : ι → σ → σ → Prop)
    (G : ι → List Λ → Option Λ → σ → σ → Prop)
    (hinit : ∀ s, start s → I s) (hrestart : ∀ s, I s → I (restart s))
    (hrefl : ∀ i s, R i s s) (htrans : ∀ i s₁ s₂ s₃, R i s₁ s₂ → R i s₂ s₃ → R i s₁ s₃)
    (hsame : ∀ i tr s, G i tr none s s)
    (hinv : ∀ i tr l s s', G i tr l s s' → I s → I s')
    (hothers : ∀ i j tr l s s', i ≠ j → G i tr l s s' → R j s s')
    (hstarts : ∀ i p, starts i p → ∀ s, I s →
      p.Meets (R i) (G i) (fun _ _ _ ↦ True) [] s)
    {as : List (Happening ι Λ)} {S : Server ι σ ε Λ}
    (run : (serverSystem start starts restart).Run as S) :
    I S.store ∧ ∀ {i l S'}, ServerStep starts restart S (.run i l) S' →
      ∃ job, S.jobs i = some job ∧ G i job.trace l S.store S'.store := by
  have hinvariant : I S.store ∧ ∀ i job, S.jobs i = some job →
      job.program.Meets (R i) (G i) (fun _ _ _ ↦ True) job.trace S.store := by
    refine TransitionSystem.Run.invariant
      (I := fun _ S ↦ I S.store ∧ ∀ i job, S.jobs i = some job →
        job.program.Meets (R i) (G i) (fun _ _ _ ↦ True) job.trace S.store) ?_ ?_ run
    · rintro S ⟨hstart, hfree⟩
      refine ⟨hinit _ hstart, fun i job hjob ↦ ?_⟩
      rw [hfree i] at hjob
      cases hjob
    · rintro _ S _ _ - ⟨hI, hjobs⟩ hstep
      cases hstep with
      | @start i p free allowed =>
          refine ⟨hI, fun j job hjob ↦ ?_⟩
          rcases eq_some_of_update hjob with ⟨rfl, hnew⟩ | ⟨-, hold⟩
          · obtain rfl := Option.some.inj hnew
            exact hstarts j p allowed _ hI
          · exact hjobs j job hold
      | @run i job l s' p' running step =>
          obtain ⟨hG, hmeets⟩ :=
            (hjobs i job running).step (hsame i) (hrefl i S.store) step
          refine ⟨hinv _ _ _ _ _ hG hI, fun j other hjob ↦ ?_⟩
          rcases eq_some_of_update hjob with ⟨rfl, hnew⟩ | ⟨hne, hold⟩
          · obtain rfl := Option.some.inj hnew
            exact hmeets
          · exact (hjobs j other hold).interfere (htrans j) (fun _ _ _ _ _ h ↦ h)
              (hothers i j _ _ _ _ (Ne.symm hne) hG)
      | @stop i =>
          refine ⟨hI, fun j job hjob ↦ ?_⟩
          rcases eq_some_of_update hjob with ⟨-, hnew⟩ | ⟨-, hold⟩
          · cases hnew
          · exact hjobs j job hold
      | crash => exact ⟨hrestart _ hI, fun j job hjob ↦ by cases hjob⟩
  refine ⟨hinvariant.1, ?_⟩
  intro i l S' hstep
  cases hstep with
  | run running step =>
      exact ⟨_, running,
        ((hinvariant.2 i _ running).step (hsame i) (hrefl i S.store) step).1⟩

/-- What a program can do, its job can do. -/
theorem Program.Steps.path {s s' : σ} {p p' : Program σ ε Λ Unit} {ls : List (Option Λ)}
    (h : Program.Steps s p ls s' p') {i : ι} {tr : List Λ} {jobs : ι → Option (Job σ ε Λ)}
    (hjob : jobs i = some ⟨tr, p⟩) :
    ∃ jobs' tr', (serverSystem start starts restart).Path ⟨s, jobs⟩ (ls.map (.run i))
      ⟨s', jobs'⟩ ∧ jobs' i = some ⟨tr', p'⟩ ∧ ∀ j ≠ i, jobs' j = jobs j := by
  induction h generalizing jobs tr with
  | refl => exact ⟨jobs, tr, rfl, hjob, fun _ _ ↦ rfl⟩
  | head first rest ih =>
      obtain ⟨jobs', tr', hpath, hi, hothers⟩ := ih (Function.update_self i (some ⟨_, _⟩) jobs)
      refine ⟨jobs', tr', ⟨_, .run hjob first, hpath⟩, hi, fun j hj ↦ ?_⟩
      rw [hothers j hj, Function.update_of_ne hj]

/-- What a program does alone, a server can do. -/
theorem Program.Alone.path {s s' : σ} {p : Program σ ε Λ Unit} {ls : List (Option Λ)}
    {r : Except ε Unit} (h : Program.Alone s p ls s' r) {i : ι} {tr : List Λ}
    {jobs : ι → Option (Job σ ε Λ)} (hjob : jobs i = some ⟨tr, p⟩) :
    ∃ jobs', (serverSystem start starts restart).Path ⟨s, jobs⟩ (ls.map (.run i))
      ⟨s', jobs'⟩ ∧ ∀ j ≠ i, jobs' j = jobs j := by
  obtain ⟨p', hsteps⟩ := h.steps
  obtain ⟨jobs', -, hpath, -, hothers⟩ := hsteps.path hjob
  exact ⟨jobs', hpath, hothers⟩

end Servers

end Foundations
