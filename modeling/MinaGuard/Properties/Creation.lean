import MinaGuard.Contract.Effects
import MinaGuard.Properties.Hierarchy

/-!
# Child creation is bound to its reservation

Anyone may reserve an account for a parent and anyone may create the child, but
the creation must hash to the reserved configuration, which the reservation
published and the parent's owners approved.  So the child starts with the owners
that were published, whoever calls.
-/

namespace MinaGuard

open Foundations

variable {E : Env} {T : Transcript E} {guards : Set PublicKey}
  {as bs : List (Action E)} {L L₁ L₂ L₃ : Ledger} {c parent : PublicKey}
  {m : MethodCall E} {F : Forest} {hash threshold numOwners : Fp} {owners : SetupOwnersInput}

/-- The configuration in a `createChildConfig` event. -/
def publishedConfig (events : List Event) : Option (Fp × Fp × Fp) :=
  events.findSome? fun
    | .createChildConfig _ _ ownersCommitment threshold numOwners =>
        some (ownersCommitment, threshold, numOwners)
    | _ => none

/-- The owners in the `createChildOwner` events, in order, padding left out. -/
def publishedChildOwners (events : List Event) : List PublicKey :=
  events.filterMap fun
    | .createChildOwner _ owner _ => if owner = PublicKey.empty then none else some owner
    | _ => none

/-- Padding is published as empty, the other slots as they are. -/
theorem filterMap_publishedOwners (hactive : ∀ key ∈ setupOwners owners numOwners,
    key ≠ PublicKey.empty) :
    ((publishedOwners owners numOwners).filterMap fun slot ↦
      if slot.1 = PublicKey.empty then none else some slot.1) =
        setupOwners owners numOwners := by
  rw [← activeKeys_setup] at hactive ⊢
  unfold publishedOwners
  generalize owners.toList.zipIdx = slots at hactive ⊢
  induction slots with
  | nil => rfl
  | cons slot slots ih =>
      rw [activeKeys_cons] at hactive ⊢
      by_cases hslot : lessThan (slot.2 : Fp) numOwners
      · rw [if_pos hslot] at hactive ⊢
        have hne : slot.1 ≠ PublicKey.empty := hactive _ List.mem_cons_self
        have hrest := ih fun key hkey ↦ hactive key (List.mem_cons_of_mem _ hkey)
        simp only [List.map_cons, if_pos hslot, List.filterMap_cons, if_neg hne, hrest,
          List.cons_append, List.nil_append]
      · rw [if_neg hslot] at hactive ⊢
        simp only [List.map_cons, if_neg hslot, List.filterMap_cons, if_true, List.nil_append]
        exact ih hactive

/-- A reservation publishes the configuration whose hash it stores. -/
theorem reservation_published
    (h : CallStep T guards L c (.reserveForParent parent hash threshold numOwners owners) F
      L₁) :
    publishedConfig F.self.events =
        some (computeOwnerChain E (setupOwners owners numOwners), threshold, numOwners) ∧
      publishedChildOwners F.self.events = setupOwners owners numOwners := by
  obtain ⟨P, rfl, hprove⟩ := h.proved
  have hevents := (reserveForParent_effects (MethodCall.prove_ok.mp hprove)).events
  obtain ⟨-, -, -, -, -, -, hvalid, -⟩ :=
    reserveForParent_spec (MethodCall.prove_ok.mp hprove) h.included
  rw [hevents, computeSetupOwnersChain_eq]
  refine ⟨rfl, ?_⟩
  rw [← filterMap_publishedOwners hvalid.coherent.ne_empty]
  simp only [publishedChildOwners, List.filterMap_cons, List.filterMap_map]
  rfl

namespace Run

/-- A reservation turns a vacant account into a reserved one. -/
theorem reserved_after (run : (ledgerSystem T guards).Run as L)
    (step : LedgerStep T guards L
      (.call c (.reserveForParent parent hash threshold numOwners owners) F) L₁) :
    parent ≠ PublicKey.empty ∧
      replay c (as ++ [.call c (.reserveForParent parent hash threshold numOwners owners) F]) =
        .reserved parent (E.childConfigHash (computeSetupOwnersChain E owners numOwners)
          threshold numOwners) := by
  have hcall := LedgerStep.call_inv step
  have href := refines run hcall.guard
  obtain ⟨P, rfl, hprove⟩ := hcall.proved
  obtain ⟨hzero, hempty, hne, -⟩ :=
    reserveForParent_spec (MethodCall.prove_ok.mp hprove) hcall.included
  refine ⟨hne, ?_⟩
  rw [replay_call]
  rcases href.inactive hzero with hvacant | ⟨a, config, hreserved, hne', -⟩
  · rw [hvacant]
    rfl
  · rw [href.state, hreserved] at hempty
    exact absurd hempty hne'

/-- A reserved account is reserved still, or has become a child of its parent. -/
theorem reserved_later {config : Fp} (hreserved : replay c as = .reserved parent config)
    (bs : List (Action E)) :
    replay c (as ++ bs) = .reserved parent config ∨
      ∃ v, replay c (as ++ bs) = .active v ∧ v.parent = parent := by
  have hlater := replay_later c as bs
  rw [hreserved] at hlater
  generalize replay c (as ++ bs) = ph at hlater
  cases hlater with
  | reserved => exact Or.inl rfl
  | created hparent => exact Or.inr ⟨_, rfl, hparent⟩

/-- A step that initializes a reserved account creates the child. -/
theorem created_by (run : (ledgerSystem T guards).Run as L) (hc : c ∈ guards) {config : Fp}
    (hreserved : replay c as = .reserved parent config) {act : Action E}
    (step : LedgerStep T guards L act L₁) (hinit : (L₁.state c).ownersCommitment ≠ 0) :
    ∃ t n o p w count F, act = .call c (.executeSetupChild t n o p w count) F := by
  have href := refines (run.step (S := ledgerSystem T guards) step) hc
  rcases replay_step c as act with hsame | ⟨m, F, rfl, hnext⟩
  · rw [href.state, hsame, hreserved] at hinit
    exact absurd rfl hinit
  · rw [href.state, hnext, hreserved] at hinit
    cases m with
    | executeSetupChild t n o p w count => exact ⟨t, n, o, p, w, count, F, rfl⟩
    | _ => exact absurd rfl hinit

end Run

/-- The creation of a child from a reservation with these arguments. -/
structure CreatedAs (T : Transcript E) (as : List (Action E)) (L₂ L₃ : Ledger)
    (c parent : PublicKey) (events : List Event) (t n : Fp) (o : SetupOwnersInput)
    (p : TransactionProposal) : Prop where
  owners : setupOwners o n = publishedChildOwners events
  config : publishedConfig events =
    some ((L₃.state c).ownersCommitment, (L₃.state c).threshold, (L₃.state c).numOwners)
  chain : (L₃.state c).ownersCommitment = computeOwnerChain E (publishedChildOwners events)
  arguments : (L₃.state c).threshold = t ∧ (L₃.state c).numOwners = n
  parent_eq : (L₃.state c).parent = parent
  txType : p.txType = TxType.createChild
  child : p.childAccount = c
  guard : p.guardAddress = parent
  data : p.data = E.childConfigHash (L₃.state c).ownersCommitment (L₃.state c).threshold
    (L₃.state c).numOwners
  quorum : HasQuorum T as L₂ parent (E.proposalHash p)

/-- The child a creation makes is the one that was reserved. -/
theorem created_as (run : (ledgerSystem T guards).Run as L₂) (hparent : parent ∈ guards)
    (hreserved : replay c as = .reserved parent
      (E.childConfigHash (computeSetupOwnersChain E owners numOwners) threshold numOwners))
    (hrecorded : (MethodCall.reserveForParent parent hash threshold numOwners
      owners : MethodCall E).Recorded T)
    {events : List Event}
    (hconfig : publishedConfig events =
      some (computeOwnerChain E (setupOwners owners numOwners), threshold, numOwners))
    (howners : publishedChildOwners events = setupOwners owners numOwners)
    {t n count : Fp} {o : SetupOwnersInput} {p : TransactionProposal}
    {w : E.MerkleMapWitness}
    (step : LedgerStep T guards L₂ (.call c (.executeSetupChild t n o p w count) F) L₃) :
    CreatedAs T as L₂ L₃ c parent events t n o p := by
  have hcall := LedgerStep.call_inv step
  have href := Run.refines run hcall.guard
  have hremote := hcall.remoteExecution (p := p) href rfl
  have hstate₂ := href.state
  rw [hreserved] at hstate₂
  obtain ⟨P, rfl, hprove⟩ := hcall.proved
  obtain ⟨-, -, htype, -, hchild, -, hdata, hstored, -, -, -, -, hstate⟩ :=
    executeSetupChild_spec (MethodCall.prove_ok.mp hprove) hcall.included
  -- both configurations hash to the reserved value
  have hhash : E.childConfigHash (computeSetupOwnersChain E o n) t n =
      E.childConfigHash (computeSetupOwnersChain E owners numOwners) threshold numOwners := by
    rw [← hdata, ← hstored, hstate₂]
    rfl
  have hinput := T.hash_injOn
    (hcall.recorded.hashed _ (List.mem_cons_of_mem _ List.mem_cons_self))
    (hrecorded.hashed _ List.mem_cons_self) hhash
  simp only [Env.childConfigInput, Prod.mk.injEq, List.cons.injEq, true_and, and_true]
    at hinput
  obtain ⟨hchain, rfl, rfl⟩ := hinput
  rw [computeSetupOwnersChain_eq, computeSetupOwnersChain_eq] at hchain
  have hsame : setupOwners o n = setupOwners owners n :=
    T.computeOwnerChain_inj
      (fun q hq ↦ hcall.recorded.hashed q
        (List.mem_cons_of_mem _ (List.mem_cons_of_mem _ hq)))
      (fun q hq ↦ hrecorded.hashed q (List.mem_cons_of_mem _ hq)) hchain
  have hparent₂ : (L₂.state P.address).parent = parent := by
    rw [hstate₂]
    rfl
  have hcommitment : (L₃.state P.address).ownersCommitment =
      computeOwnerChain E (setupOwners owners n) := by
    rw [hstate, ← hsame, ← computeSetupOwnersChain_eq]
    rfl
  have hthreshold : (L₃.state P.address).threshold = t := by
    rw [hstate]
    rfl
  have hnum : (L₃.state P.address).numOwners = n := by
    rw [hstate]
    rfl
  have happroves := hremote.approves (Run.refines run (hparent₂ ▸ hparent))
  rw [hparent₂] at happroves
  obtain ⟨v, hv, -, happroves⟩ := happroves
  exact
    { owners := by rw [howners, hsame]
      config := by rw [hconfig, hcommitment, hthreshold, hnum]
      chain := by rw [howners, hcommitment]
      arguments := ⟨hthreshold, hnum⟩
      parent_eq := by
        rw [hstate]
        exact hparent₂
      txType := htype
      child := hchild
      guard := hremote.guard.trans hparent₂
      data := by rw [hdata, computeSetupOwnersChain_eq, hsame, hcommitment, hthreshold, hnum]
      quorum := hasQuorum_of_approves run hparent hv happroves }

/-- From a reservation on: the parent stays, neither `setup` nor another
reservation succeeds, and whatever initializes the account creates exactly the
published child, with the approval of the parent's owners, once. -/
theorem child_creation_binding (run : (ledgerSystem T guards).Run as L)
    (reserve : LedgerStep T guards L
      (.call c (.reserveForParent parent hash threshold numOwners owners) F) L₁)
    (path : (ledgerSystem T guards).Path L₁ bs L₂) (hparent : parent ∈ guards) :
    (L₂.state c).parent = parent ∧
      (∀ m F₂ L₃, LedgerStep T guards L₂ (.call c m F₂) L₃ →
        (∀ t n o, m ≠ .setup t n o) ∧ ∀ a h t n o, m ≠ .reserveForParent a h t n o) ∧
      (∀ act L₃, LedgerStep T guards L₂ act L₃ →
        (L₂.state c).ownersCommitment = 0 → (L₃.state c).ownersCommitment ≠ 0 →
          ∃ t n o p w count F₂, act = .call c (.executeSetupChild t n o p w count) F₂ ∧
            CreatedAs T
              (as ++ [.call c (.reserveForParent parent hash threshold numOwners owners) F] ++
                bs) L₂ L₃ c parent F.self.events t n o p) ∧
      ((L₂.state c).ownersCommitment ≠ 0 →
        ∀ act L₃, LedgerStep T guards L₂ act L₃ →
          (L₃.state c).ownersCommitment ≠ 0 ∧
            ∀ t n o p w count F₂, act ≠ .call c (.executeSetupChild t n o p w count) F₂) := by
  have hreserve := LedgerStep.call_inv reserve
  have hc := hreserve.guard
  obtain ⟨hne, hreserved⟩ := Run.reserved_after run reserve
  have run₂ := (run.step (S := ledgerSystem T guards) reserve).extend path
  obtain ⟨hconfig, howners⟩ := reservation_published hreserve
  have hparent₂ : (L₂.state c).parent = parent := by
    rw [Run.parent_eq run₂ hc]
    rcases Run.reserved_later hreserved bs with hph | ⟨v, hph, hv⟩
    · rw [hph]
      rfl
    · rw [hph]
      exact hv
  refine ⟨hparent₂, ?_, ?_, ?_⟩
  · intro m F₂ L₃ step
    have hcall := LedgerStep.call_inv step
    obtain ⟨P, rfl, hprove⟩ := hcall.proved
    rw [← hparent₂] at hne
    refine ⟨?_, ?_⟩
    · rintro t n o rfl
      exact hne (setup_spec (MethodCall.prove_ok.mp hprove) hcall.included).2.1
    · rintro a h t n o rfl
      exact hne (reserveForParent_spec (MethodCall.prove_ok.mp hprove) hcall.included).2.1
  · intro act L₃ step hzero hinit
    rcases Run.reserved_later hreserved bs with hph | ⟨v, hph, -⟩
    · obtain ⟨t, n, o, p, w, count, F₂, rfl⟩ := Run.created_by run₂ hc hph step hinit
      exact ⟨t, n, o, p, w, count, F₂, rfl,
        created_as run₂ hparent hph hreserve.recorded hconfig howners step⟩
    · obtain ⟨hstate, hv⟩ := Run.invariant run₂ hc hph
      rw [hstate] at hzero
      exact absurd hzero (T.computeOwnerChain_ne_zero hv.chained)
  · intro hinit act L₃ step
    refine ⟨?_, ?_⟩
    · exact Run.stays_initialized run₂ hc hinit (TransitionSystem.path_singleton.mpr step)
    · rintro t n o p w count F₂ rfl
      exact hinit ((LedgerStep.call_inv step).childCreation (p := p) rfl).2.1

namespace Walkthrough

attribute [local instance] instOfNatFp

def setUp : Book := ⟨[entry root rootState], 10⟩

def childReserved : Book := ⟨[entry root rootState, entry child reservedState], 10⟩

def createApproved : Book :=
  ⟨[entry root rootCreateApproved, entry child reservedState], 10⟩

def childCreated : Book := ⟨[entry root rootCreateApproved, entry child childState], 10⟩

def beforeCreate : Book.Script tables :=
  [(root, proposeCreate,
      ⟨[entry root (voted rootState [(7, 1)] [(6, 2)]), entry child reservedState], 10⟩),
    (root, approveCreate, createApproved)]

theorem setUp_plays : Book.Plays Walkthrough.guards emptyBook [(root, setupRoot, setUp)] := by
  decide +kernel

theorem reserve_plays :
    Book.Plays Walkthrough.guards setUp [(child, reserveChild, childReserved)] := by
  decide +kernel

theorem beforeCreate_plays : Book.Plays Walkthrough.guards childReserved beforeCreate := by
  decide +kernel

theorem create_plays :
    Book.Plays Walkthrough.guards createApproved [(child, executeCreate, childCreated)] := by
  decide +kernel

/-- The child starts with the owners its reservation published. -/
theorem child_bound :
    (disabled.ledger.state child).parent ≠ PublicKey.empty ∧
      (createApproved.ledger.state child).parent = root ∧
      ∃ p, CreatedAs tables.transcript
        (Book.actions emptyBook [(root, setupRoot, setUp)] ++
          [.call child reserveChild (setUp.forest child reserveChild)] ++
            Book.actions childReserved beforeCreate)
        createApproved.ledger childCreated.ledger child root
        (setUp.forest child reserveChild).self.events 1 1 (setupInput [ownerA]) p := by
  refine ⟨by decide +kernel, ?_⟩
  obtain ⟨hparent, -, hcreated, -⟩ := child_creation_binding
    (Book.run_of_plays setUp_plays) (Book.step_of_plays reserve_plays)
    (Book.path_of_plays beforeCreate_plays) (by decide)
  refine ⟨hparent, ?_⟩
  obtain ⟨t, n, o, p, w, count, F₂, hact, hbound⟩ :=
    hcreated _ _ (Book.step_of_plays create_plays) (by decide +kernel) (by decide +kernel)
  cases hact
  exact ⟨_, hbound⟩

end Walkthrough

end MinaGuard
