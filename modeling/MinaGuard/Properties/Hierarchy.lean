import MinaGuard.Properties.Quorum

/-!
# Two levels and no more

The only way to a parent is a reservation, and a reservation is included only
while the parent is an initialized root.  A root stays one: setup and creation
fix the parent of an account for good.  So parents never have parents.
-/

namespace MinaGuard

open Foundations

variable {E : Env} {T : Transcript E} {guards : Set PublicKey}
  {as bs : List (Action E)} {L L' : Ledger} {a b c : PublicKey}

namespace Phase

def parent : Phase → PublicKey
  | vacant => PublicKey.empty
  | reserved a _ => a
  | active v => v.parent

theorem encode_parent (ph : Phase) : (ph.encode E).parent = ph.parent := by
  cases ph <;> rfl

/-- A parent that is not there yet comes with a reservation. -/
theorem parent_next (ph : Phase) (m : MethodCall E) :
    (ph.next m).parent = ph.parent ∨
      ∃ h t n o, m = .reserveForParent (ph.next m).parent h t n o := by
  cases ph with
  | vacant =>
      cases m with
      | reserveForParent a h t n o => exact Or.inr ⟨h, t, n, o, rfl⟩
      | _ => exact Or.inl rfl
  | reserved a c => cases m <;> exact Or.inl rfl
  | active v => exact Or.inl (v.later_next m).parent

end Phase

/-- Among calls that lead to a parent there is a reservation for it. -/
theorem exists_reservation (ms : List (MethodCall E)) :
    (ms.foldl Phase.next .vacant).parent = PublicKey.empty ∨
      ∃ h t n o, .reserveForParent (ms.foldl Phase.next .vacant).parent h t n o ∈ ms := by
  induction ms using List.reverseRecOn with
  | nil => exact Or.inl rfl
  | append_singleton ms m ih =>
      rw [List.foldl_append, List.foldl_cons, List.foldl_nil]
      rcases Phase.parent_next (ms.foldl Phase.next .vacant) m with hsame | ⟨h, t, n, o, hm⟩
      · rw [hsame]
        rcases ih with hempty | ⟨h, t, n, o, hmem⟩
        · exact Or.inl hempty
        · exact Or.inr ⟨h, t, n, o, List.mem_append_left _ hmem⟩
      · exact Or.inr ⟨h, t, n, o, hm ▸ List.mem_append_right _ (List.mem_singleton_self m)⟩

namespace Run

theorem parent_eq (run : (ledgerSystem T guards).Run as L) (ha : a ∈ guards) :
    (L.state a).parent = (replay a as).parent := by
  rw [(refines run ha).state, Phase.encode_parent]

/-- An initialized root stays one. -/
theorem root_stays (run : (ledgerSystem T guards).Run as L) (ha : a ∈ guards)
    (path : (ledgerSystem T guards).Path L bs L')
    (hinit : (L.state a).ownersCommitment ≠ 0)
    (hroot : (L.state a).parent = PublicKey.empty) :
    (L'.state a).ownersCommitment ≠ 0 ∧ (L'.state a).parent = PublicKey.empty := by
  obtain ⟨v, hv, hstate, -⟩ := active run ha hinit
  obtain ⟨w, -, hlater, hstate', hinvariant⟩ := later run ha path hv
  rw [hstate] at hroot
  rw [hstate']
  exact ⟨T.computeOwnerChain_ne_zero hinvariant.chained, hlater.parent.trans hroot⟩

/-- Whoever has a parent was reserved for it. -/
theorem reserved_for_parent (run : (ledgerSystem T guards).Run as L) (ha : a ∈ guards)
    (hne : (L.state a).parent ≠ PublicKey.empty) :
    ∃ h t n o F, .call a (.reserveForParent (L.state a).parent h t n o) F ∈ as := by
  rw [parent_eq run ha] at hne ⊢
  obtain ⟨h, t, n, o, hmem⟩ := (exists_reservation (callsOn a as)).resolve_left hne
  obtain ⟨F, hF⟩ := mem_callsOn.mp hmem
  exact ⟨h, t, n, o, F, hF⟩

/-- A parent is an initialized root. -/
theorem parent_root (run : (ledgerSystem T guards).Run as L) (ha : a ∈ guards)
    (hne : (L.state a).parent ≠ PublicKey.empty) (hparent : (L.state a).parent ∈ guards) :
    (L.state (L.state a).parent).ownersCommitment ≠ 0 ∧
      (L.state (L.state a).parent).parent = PublicKey.empty := by
  obtain ⟨h, t, n, o, F, hmem⟩ := reserved_for_parent run ha hne
  obtain ⟨_, _, s, s', -, run₀, step, path⟩ := run.exists_step hmem
  obtain ⟨P, rfl, hprove⟩ := (LedgerStep.call_inv step).proved
  obtain ⟨-, -, -, -, hinit, hroot, -⟩ :=
    reserveForParent_spec (MethodCall.prove_ok.mp hprove) (LedgerStep.call_inv step).included
  exact root_stays (run₀.step step) hparent path hinit hroot

end Run

/-- `b` is the parent of the guard `a`. -/
structure ParentOf (guards : Set PublicKey) (L : Ledger) (b a : PublicKey) : Prop where
  guard : a ∈ guards
  parent_guard : b ∈ guards
  parent : (L.state a).parent = b
  ne_empty : b ≠ PublicKey.empty

theorem ParentOf.root (run : (ledgerSystem T guards).Run as L) (h : ParentOf guards L b a) :
    (L.state b).ownersCommitment ≠ 0 ∧ (L.state b).parent = PublicKey.empty := by
  obtain ⟨ha, hb, rfl, hne⟩ := h
  exact Run.parent_root run ha hne hb

/-- Parents have no parents. -/
theorem ParentOf.not_parentOf (run : (ledgerSystem T guards).Run as L)
    (h : ParentOf guards L b a) : ¬ParentOf guards L c b := by
  intro h'
  apply h'.ne_empty
  rw [← h'.parent]
  exact (h.root run).2

theorem not_ancestor_self (run : (ledgerSystem T guards).Run as L) :
    ¬Relation.TransGen (ParentOf guards L) a a := by
  intro h
  obtain ⟨b, hfirst, hrest⟩ := Relation.TransGen.head'_iff.mp h
  cases hrest with
  | refl => exact hfirst.not_parentOf run hfirst
  | tail hb hlast => exact hfirst.not_parentOf run hlast

/-- A guard with a parent has no REMOTE proposal on record. -/
theorem not_remote_of_parent (run : (ledgerSystem T guards).Run as L) (ha : a ∈ guards)
    (hne : (L.state a).parent ≠ PublicKey.empty) {m : MethodCall E} {F : Forest}
    {p : TransactionProposal} {k : PublicKey} (hmem : .call a m F ∈ as)
    (hvote : m.vote? = some (p, k)) : p.destination ≠ destinationRemote := by
  intro hremote
  have hrecorded : (p, k) ∈ (replay a as).votes := by
    rw [Run.votes_eq run ha]
    apply List.mem_filterMap.mpr
    exact ⟨m, mem_callsOn.mpr ⟨F, hmem⟩, hvote⟩
  obtain ⟨hstate, hsound⟩ := Run.refines run ha
  rw [hstate, Phase.encode_parent] at hne
  generalize replay a as = ph at hrecorded hsound hne
  cases hsound with
  | vacant => exact absurd hrecorded List.not_mem_nil
  | reserved => exact absurd hrecorded List.not_mem_nil
  | active hv => exact hne ((hv.votes _ hrecorded).root hremote)

/-- Parents are initialized roots, now and later.  So nobody is its own
ancestor, chains of parents have one link, roots stay roots, and REMOTE
proposals are only ever recorded on guards without a parent. -/
theorem hierarchy_cap (run : (ledgerSystem T guards).Run as L) :
    (∀ a ∈ guards, (L.state a).parent ≠ PublicKey.empty → (L.state a).parent ∈ guards →
      ∀ bs L', (ledgerSystem T guards).Path L bs L' →
        (L'.state a).parent = (L.state a).parent ∧
          (L'.state (L.state a).parent).ownersCommitment ≠ 0 ∧
          (L'.state (L.state a).parent).parent = PublicKey.empty) ∧
      (∀ a, ¬Relation.TransGen (ParentOf guards L) a a) ∧
      (∀ a b c, ParentOf guards L b a → ¬ParentOf guards L c b) ∧
      (∀ a ∈ guards, (L.state a).ownersCommitment ≠ 0 →
        (L.state a).parent = PublicKey.empty →
          ∀ bs L', (ledgerSystem T guards).Path L bs L' →
            (L'.state a).parent = PublicKey.empty) ∧
      ∀ a ∈ guards, (L.state a).parent ≠ PublicKey.empty →
        ∀ m F p k, .call a m F ∈ as → m.vote? = some (p, k) →
          p.destination ≠ destinationRemote := by
  refine ⟨?_, fun a ↦ not_ancestor_self run, fun a b c h ↦ h.not_parentOf run, ?_, ?_⟩
  · intro a ha hne hparent bs L' path
    obtain ⟨hinit, hroot⟩ := Run.parent_root run ha hne hparent
    exact ⟨Run.stays_child run ha hne path, Run.root_stays run hparent path hinit hroot⟩
  · intro a ha hinit hroot bs L' path
    exact (Run.root_stays run ha path hinit hroot).2
  · intro a ha hne m F p k hmem hvote
    exact not_remote_of_parent run ha hne hmem hvote

theorem Walkthrough.child_below_root :
    ParentOf {a | a ∈ Walkthrough.guards} disabled.ledger root child ∧
      (disabled.ledger.state root).ownersCommitment ≠ 0 ∧
      ¬Relation.TransGen (ParentOf {a | a ∈ Walkthrough.guards} disabled.ledger) child
        child := by
  obtain ⟨hparent, hancestor, -⟩ := hierarchy_cap run_disabled
  have hlink : ParentOf {a | a ∈ Walkthrough.guards} disabled.ledger root child :=
    ⟨List.mem_cons_of_mem root List.mem_cons_self, List.mem_cons_self, by decide +kernel,
      by decide⟩
  refine ⟨hlink, ?_, hancestor child⟩
  have hstays := hparent child hlink.guard (by decide +kernel) (by decide +kernel) [] _ rfl
  have hroot : (disabled.ledger.state child).parent = root := hlink.parent
  rw [hroot] at hstays
  exact hstays.2.1

end MinaGuard
