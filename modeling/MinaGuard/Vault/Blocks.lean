import MinaGuard.Foundations.InsertionMap
import MinaGuard.Vault.Published

/-!
# Runs in blocks

The actions of a run are included in blocks, and an event carries the height
of its block.  Off chain, heights are all that is left of the order.
-/

namespace MinaGuard

open Foundations

variable {E : Env} {T : Transcript E} {guards : Set PublicKey}

/-- The actions of a run, each with the height of its block.  Heights are 32-bit
numbers, and a block has room for far fewer than `2 ^ 21` actions. -/
structure BlockHistory (E : Env) where
  placed : List (ℕ × Action E)
  ordered : placed.Pairwise fun x y ↦ x.1 ≤ y.1
  height_lt : ∀ x ∈ placed, x.1 < 2 ^ 32
  block_le : ∀ h, (placed.filter fun x ↦ x.1 = h).length ≤ 2 ^ 21

namespace BlockHistory

variable (H : BlockHistory E) (g : PublicKey) (h : ℕ)

def actions : List (Action E) := H.placed.map Prod.snd

/-- The actions below height `h`. -/
def before : List (Action E) := (H.placed.filter fun x ↦ x.1 < h).map Prod.snd

/-- The actions in the block at height `h`. -/
def block : List (Action E) := (H.placed.filter fun x ↦ x.1 = h).map Prod.snd

/-- The actions up to height `h`. -/
def upTo : List (Action E) := (H.placed.filter fun x ↦ x.1 ≤ h).map Prod.snd

/-- The actions above height `h`. -/
def after : List (Action E) := (H.placed.filter fun x ↦ !decide (x.1 ≤ h)).map Prod.snd

/-- The events of `g`, each with its height. -/
def published : List (ℕ × Event) :=
  H.placed.flatMap fun x ↦ (x.2.published g).map fun e ↦ (x.1, e)

/-- The blocks at some heights only. -/
def restrict (p : ℕ → Bool) : BlockHistory E where
  placed := H.placed.filter fun x ↦ p x.1
  ordered := H.ordered.filter _
  height_lt := fun x hx ↦ H.height_lt x (List.mem_of_mem_filter hx)
  block_le := fun k ↦ ((List.filter_sublist.filter _).length_le).trans (H.block_le k)

/-- The blocks below height `h`. -/
def below : BlockHistory E := H.restrict fun k ↦ k < h

/-- The blocks from height `h` on. -/
def since : BlockHistory E := H.restrict fun k ↦ h ≤ k

theorem published_restrict (p : ℕ → Bool) :
    (H.restrict p).published g = (H.published g).filter fun x ↦ p x.1 := by
  unfold published restrict
  dsimp only
  induction H.placed with
  | nil => rfl
  | cons x placed ih =>
      rw [List.flatMap_cons, List.filter_append, ← ih, List.filter_cons, List.filter_map]
      cases hx : p x.1 with
      | true => simp [hx, Function.comp_def]
      | false => simp [hx, Function.comp_def]

theorem mem_published_below {x : ℕ × Event} :
    x ∈ (H.below h).published g ↔ x ∈ H.published g ∧ x.1 < h := by
  rw [below, published_restrict, List.mem_filter, decide_eq_true_eq]

theorem mem_published_since {x : ℕ × Event} :
    x ∈ (H.since h).published g ↔ x ∈ H.published g ∧ h ≤ x.1 := by
  rw [since, published_restrict, List.mem_filter, decide_eq_true_eq]

theorem below_append_since : (H.below h).actions ++ (H.since h).actions = H.actions := by
  have hcut := filter_append_filter_not (p := fun x : ℕ × Action E ↦ decide (x.1 < h))
    (H.ordered.imp fun hle hb ↦ decide_eq_true (hle.trans_lt (of_decide_eq_true hb)))
  have hsince : (H.since h).placed = H.placed.filter fun x ↦ !decide (x.1 < h) :=
    List.filter_congr fun x _ ↦ by
      rw [← decide_not, decide_eq_decide]
      exact not_lt.symm
  unfold actions
  rw [← List.map_append, hsince]
  exact congrArg (List.map Prod.snd) hcut

theorem below_below {h h' : ℕ} (hle : h ≤ h') : ((H.below h').below h).actions =
    (H.below h).actions := by
  change ((H.placed.filter fun x ↦ decide (x.1 < h')).filter fun x ↦ decide (x.1 < h)).map
    Prod.snd = (H.placed.filter fun x ↦ decide (x.1 < h)).map Prod.snd
  rw [List.filter_filter]
  refine congrArg (List.map Prod.snd) (List.filter_congr fun x _ ↦ ?_)
  rw [← Bool.decide_and, decide_eq_decide, and_iff_left_of_imp]
  exact fun hlt ↦ hlt.trans_le hle

theorem upTo_append_after : H.upTo h ++ H.after h = H.actions := by
  have hcut := filter_append_filter_not (p := fun x : ℕ × Action E ↦ decide (x.1 ≤ h))
    (H.ordered.imp fun hle hb ↦ decide_eq_true (hle.trans (of_decide_eq_true hb)))
  rw [upTo, after, ← List.map_append, hcut]
  rfl

theorem before_append_block : H.before h ++ H.block h = H.upTo h := by
  have hcut := filter_append_filter_not (p := fun x : ℕ × Action E ↦ decide (x.1 < h))
    ((H.ordered.filter fun x ↦ decide (x.1 ≤ h)).imp
      fun hle hb ↦ decide_eq_true (hle.trans_lt (of_decide_eq_true hb)))
  rw [List.filter_filter, List.filter_filter] at hcut
  rw [before, block, upTo, ← List.map_append, ← hcut]
  congr 2
  · apply List.filter_congr
    intro x _
    simp only [← Bool.decide_and, decide_eq_decide]
    omega
  · apply List.filter_congr
    intro x _
    simp only [← decide_not, ← Bool.decide_and, decide_eq_decide]
    omega

variable {H g h} {e : Event}

theorem mem_published : (h, e) ∈ H.published g ↔ e ∈ MinaGuard.published g (H.block h) := by
  unfold published MinaGuard.published block
  simp only [List.mem_flatMap, List.mem_map, List.mem_filter, decide_eq_true_eq, Prod.mk.injEq]
  constructor
  · rintro ⟨x, hx, e', he, rfl, rfl⟩
    exact ⟨x.2, ⟨x, ⟨hx, rfl⟩, rfl⟩, he⟩
  · rintro ⟨act, ⟨x, ⟨hx, rfl⟩, rfl⟩, he⟩
    exact ⟨x, hx, e, he, rfl, rfl⟩

theorem mem_published_upTo :
    e ∈ MinaGuard.published g (H.upTo h) ↔ ∃ k ≤ h, (k, e) ∈ H.published g := by
  unfold published MinaGuard.published upTo
  simp only [List.mem_flatMap, List.mem_map, List.mem_filter, decide_eq_true_eq, Prod.mk.injEq]
  constructor
  · rintro ⟨act, ⟨x, ⟨hx, hle⟩, rfl⟩, he⟩
    exact ⟨x.1, hle, x, hx, e, he, rfl, rfl⟩
  · rintro ⟨k, hle, x, hx, e', he, rfl, rfl⟩
    exact ⟨x.2, ⟨x, ⟨hx, hle⟩, rfl⟩, he⟩

theorem published_actions :
    (H.published g).map Prod.snd = MinaGuard.published g H.actions := by
  unfold published MinaGuard.published actions
  rw [List.map_flatMap, List.flatMap_map]
  congr 1
  funext x
  simp

theorem mem_published_actions :
    e ∈ MinaGuard.published g H.actions ↔ ∃ k, (k, e) ∈ H.published g := by
  rw [← published_actions]
  simp

theorem ordered_published : (H.published g).Pairwise fun x y ↦ x.1 ≤ y.1 := by
  unfold published
  rw [List.flatMap_def, List.pairwise_flatten]
  refine ⟨?_, ?_⟩
  · simp only [List.mem_map]
    rintro l ⟨x, -, rfl⟩
    exact List.pairwise_map.mpr (List.pairwise_of_forall fun _ _ ↦ le_rfl)
  · refine List.pairwise_map.mpr (H.ordered.imp ?_)
    intro x y hle a ha b hb
    obtain ⟨_, -, rfl⟩ := List.mem_map.mp ha
    obtain ⟨_, -, rfl⟩ := List.mem_map.mp hb
    exact hle

variable {L : Ledger}

/-- A run reaches the end of each block. -/
theorem run_upTo (run : (ledgerSystem T guards).Run H.actions L) (h : ℕ) :
    ∃ M, (ledgerSystem T guards).Run (H.upTo h) M ∧
      (ledgerSystem T guards).Path M (H.after h) L := by
  rw [← H.upTo_append_after h] at run
  obtain ⟨L₀, hinit, hpath⟩ := run
  obtain ⟨M, hM, hrest⟩ := TransitionSystem.path_append.mp hpath
  exact ⟨M, ⟨L₀, hinit, hM⟩, hrest⟩

/-- A run reaches the start of each block. -/
theorem run_below (run : (ledgerSystem T guards).Run H.actions L) (h : ℕ) :
    ∃ M, (ledgerSystem T guards).Run (H.below h).actions M ∧
      (ledgerSystem T guards).Path M (H.since h).actions L := by
  rw [← H.below_append_since h] at run
  obtain ⟨L₀, hinit, hpath⟩ := run
  obtain ⟨M, hM, hrest⟩ := TransitionSystem.path_append.mp hpath
  exact ⟨M, ⟨L₀, hinit, hM⟩, hrest⟩

/-- A run passes through each block. -/
theorem run_block (run : (ledgerSystem T guards).Run H.actions L) (h : ℕ) :
    ∃ M M', (ledgerSystem T guards).Run (H.before h) M ∧
      (ledgerSystem T guards).Path M (H.block h) M' := by
  obtain ⟨M', ⟨L₀, hinit, hpath⟩, -⟩ := run_upTo run h
  rw [← H.before_append_block h] at hpath
  obtain ⟨M, hM, hblock⟩ := TransitionSystem.path_append.mp hpath
  exact ⟨M, M', ⟨L₀, hinit, hM⟩, hblock⟩

theorem length_actions_le : H.actions.length ≤ 2 ^ 53 := by
  have hbelow (n : ℕ) : (H.placed.filter fun x ↦ x.1 < n).length ≤ n * 2 ^ 21 := by
    induction n with
    | zero => simp
    | succ n ih =>
        have hsplit := H.before_append_block n
        have hlength := congrArg List.length hsplit
        simp only [before, block, upTo, List.length_append, List.length_map] at hlength
        have hblock := H.block_le n
        simp only [Nat.lt_succ_iff]
        omega
  have hall : (H.placed.filter fun x ↦ x.1 < 2 ^ 32) = H.placed :=
    List.filter_eq_self.mpr fun x hx ↦ decide_eq_true (H.height_lt x hx)
  have hle := hbelow (2 ^ 32)
  rw [hall] at hle
  simpa [actions] using hle

end BlockHistory

end MinaGuard
