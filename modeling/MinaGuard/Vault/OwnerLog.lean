import MinaGuard.Vault.Published

/-!
# What the events tell about the owners

The setup publishes a slot for each owner, and every owner change publishes
the key, the chain of the new list and the configuration number it opens.
These numbers increase, so the changes can be replayed in order, each insertion
where the chain says.
-/

namespace MinaGuard

open Foundations

variable {E : Env} {T : Transcript E} {guards : Set PublicKey}

namespace Event

/-- The setup slot the event publishes. -/
def setupSlot? : Event → Option (PublicKey × Fp)
  | setupOwner owner index => some (owner, index)
  | _ => none

def changesOwners : Event → Bool
  | ownerChange .. => true
  | _ => false

/-- The configuration number an owner change opens. -/
def changeNonce : Event → ℕ
  | ownerChange _ _ _ _ _ configNonce => configNonce.val
  | _ => 0

/-- The event says nothing about the owners. -/
structure OwnersSilent (e : Event) : Prop where
  slot : e.setupSlot? = none
  change : e.changesOwners = false

end Event

/-- The slots of the setup that the events publish. -/
def setupSlotsOf (events : List Event) : List (PublicKey × Fp) :=
  events.filterMap Event.setupSlot?

/-- The owner changes among the events. -/
def ownerChangesOf (events : List Event) : List Event := events.filter Event.changesOwners

theorem setupSlotsOf_append (events more : List Event) :
    setupSlotsOf (events ++ more) = setupSlotsOf events ++ setupSlotsOf more :=
  List.filterMap_append

theorem ownerChangesOf_append (events more : List Event) :
    ownerChangesOf (events ++ more) = ownerChangesOf events ++ ownerChangesOf more :=
  List.filter_append ..

theorem setupSlotsOf_silent {events : List Event} (h : ∀ e ∈ events, e.OwnersSilent) :
    setupSlotsOf events = [] :=
  List.filterMap_eq_nil_iff.mpr fun e he ↦ (h e he).slot

theorem ownerChangesOf_silent {events : List Event} (h : ∀ e ∈ events, e.OwnersSilent) :
    ownerChangesOf events = [] :=
  List.filter_eq_nil_iff.mpr fun e he ↦ by simp [(h e he).change]

/-- The event reports how one owner list became another.  For an addition the
transcript has the chains of the list with the key inserted anywhere, since a
rebuild may try them all. -/
inductive OwnersChanged (T : Transcript E) :
    Event → List PublicKey → List PublicKey → Prop where
  | added {hash k n nonce : _} {front back : List PublicKey} (onCurve : E.onCurve k = true)
      (tried : ∀ i ≤ (front ++ back).length,
        ∀ q ∈ ownerChainInputs E ((front ++ back).insertIdx i k), q ∈ T.hashed) :
      OwnersChanged T
        (.ownerChange hash k 1 n (computeOwnerChain E (front ++ k :: back)) nonce)
        (front ++ back) (front ++ k :: back)
  | removed {hash k n commitment nonce : _} {owners : List PublicKey}
      (onCurve : E.onCurve k = true) :
      OwnersChanged T (.ownerChange hash k 0 n commitment nonce) owners (removeOwner k owners)

/-- The events report, one after another, how the owners changed. -/
inductive OwnersReplay (T : Transcript E) (start : List PublicKey) :
    List Event → List PublicKey → Prop where
  | start : OwnersReplay T start [] start
  | change {events : List Event} {e : Event} {owners owners' : List PublicKey}
      (before : OwnersReplay T start events owners) (changed : OwnersChanged T e owners owners') :
      OwnersReplay T start (events ++ [e]) owners'

/-- The events tell the owners of an active vault. -/
structure OwnersTold (T : Transcript E) (events : List Event) (v : Vault)
    (initialOwners : SetupOwnersInput) (numOwners : Fp) : Prop where
  coherent : OwnersCoherent E (setupOwners initialOwners numOwners)
  nonempty : setupOwners initialOwners numOwners ≠ []
  slots : setupSlotsOf events = publishedOwners initialOwners numOwners
  replay : OwnersReplay T (setupOwners initialOwners numOwners) (ownerChangesOf events) v.owners
  nonces : (ownerChangesOf events).Pairwise fun e e' ↦ e.changeNonce < e'.changeNonce
  nonce_le : ∀ e ∈ ownerChangesOf events, e.changeNonce ≤ v.configNonce

/-- The events tell the owners, if there are any yet. -/
def Phase.OwnersTold (T : Transcript E) (events : List Event) : Phase → Prop
  | .active v => ∃ o n, MinaGuard.OwnersTold T events v o n
  | _ => setupSlotsOf events = [] ∧ ownerChangesOf events = []

namespace OwnersTold

variable {events more : List Event} {v v' : Vault} {o : SetupOwnersInput} {n : Fp}

theorem silent (h : OwnersTold T events v o n) (hsilent : ∀ e ∈ more, e.OwnersSilent)
    (howners : v'.owners = v.owners) (hnonce : v.configNonce ≤ v'.configNonce) :
    OwnersTold T (events ++ more) v' o n := by
  have hslots : setupSlotsOf (events ++ more) = setupSlotsOf events := by
    rw [setupSlotsOf_append, setupSlotsOf_silent hsilent, List.append_nil]
  have hchanges : ownerChangesOf (events ++ more) = ownerChangesOf events := by
    rw [ownerChangesOf_append, ownerChangesOf_silent hsilent, List.append_nil]
  exact
    { coherent := h.coherent
      nonempty := h.nonempty
      slots := hslots.trans h.slots
      replay := by
        rw [hchanges, howners]
        exact h.replay
      nonces := by
        rw [hchanges]
        exact h.nonces
      nonce_le := fun e he ↦ by
        rw [hchanges] at he
        exact (h.nonce_le e he).trans hnonce }

theorem change (h : OwnersTold T events v o n) {front : List Event} {e : Event}
    (hfront : ∀ e ∈ front, e.OwnersSilent) (hslot : e.setupSlot? = none)
    (hchange : e.changesOwners = true) (hchanged : OwnersChanged T e v.owners v'.owners)
    (hnonce : e.changeNonce = v'.configNonce) (hnext : v'.configNonce = v.configNonce + 1) :
    OwnersTold T (events ++ (front ++ [e])) v' o n := by
  have hslots : setupSlotsOf (events ++ (front ++ [e])) = setupSlotsOf events := by
    rw [setupSlotsOf_append, setupSlotsOf_append, setupSlotsOf_silent hfront]
    simp [setupSlotsOf, hslot]
  have hchanges : ownerChangesOf (events ++ (front ++ [e])) = ownerChangesOf events ++ [e] := by
    rw [ownerChangesOf_append, ownerChangesOf_append, ownerChangesOf_silent hfront]
    simp [ownerChangesOf, hchange]
  exact
    { coherent := h.coherent
      nonempty := h.nonempty
      slots := hslots.trans h.slots
      replay := by
        rw [hchanges]
        exact h.replay.change hchanged
      nonces := by
        rw [hchanges, List.pairwise_append]
        refine ⟨h.nonces, List.pairwise_singleton _ _, ?_⟩
        intro e' he' e'' he''
        have hle := h.nonce_le e' he'
        rw [List.mem_singleton.mp he'']
        omega
      nonce_le := by
        rw [hchanges]
        refine List.forall_mem_append.mpr ⟨fun e' he' ↦ ?_, List.forall_mem_singleton.mpr ?_⟩
        · have hle := h.nonce_le e' he'
          omega
        · exact hnonce.le }

end OwnersTold

/-- The setup tells the first owners. -/
theorem OwnersTold.setup {t n : Fp} (a parent : PublicKey) {o : SetupOwnersInput}
    (hvalid : InitialGovernance E t n o) (back : List Event)
    (hback : ∀ e ∈ back, e.OwnersSilent) :
    OwnersTold T (setupEvents E t n a o ++ back) (.fresh parent (setupOwners o n) t.val) o n := by
  have hslots : setupSlotsOf (setupEvents E t n a o) = publishedOwners o n := by
    unfold setupSlotsOf setupEvents
    rw [List.filterMap_cons_none rfl, List.filterMap_map]
    exact List.filterMap_some
  have hchanges : ownerChangesOf (setupEvents E t n a o) = [] := by
    refine List.filter_eq_nil_iff.mpr (List.forall_mem_cons.mpr ⟨by simp [Event.changesOwners], ?_⟩)
    intro e he
    obtain ⟨slot, -, rfl⟩ := List.mem_map.mp he
    simp [Event.changesOwners]
  have hnone : ownerChangesOf (setupEvents E t n a o ++ back) = [] := by
    rw [ownerChangesOf_append, hchanges, ownerChangesOf_silent hback]
    rfl
  have hlength := length_setupOwners o hvalid.numOwners_le
  exact
    { coherent := hvalid.coherent
      nonempty := by
        intro hnil
        rw [hnil] at hlength
        have hpos := hvalid.threshold_pos.trans_le hvalid.threshold_le
        rw [List.length_nil] at hlength
        omega
      slots := by
        rw [setupSlotsOf_append, hslots, setupSlotsOf_silent hback, List.append_nil]
      replay := by
        rw [hnone]
        exact .start
      nonces := by
        rw [hnone]
        exact List.Pairwise.nil
      nonce_le := by
        rw [hnone]
        exact fun e he ↦ absurd he List.not_mem_nil }

/-- The client may try any place for a key that is added. -/
def Vault.TriesHashed (T : Transcript E) (v : Vault) : MethodCall E → Prop
  | .executeOwnerChange p .. => p.txType = TxType.addOwner →
      ∀ i ≤ v.owners.length, ∀ q ∈ ownerChainInputs E (v.owners.insertIdx i p.slot0.address),
        q ∈ T.hashed
  | _ => True

namespace CallStep

variable {L L' : Ledger} {a : PublicKey} {m : MethodCall E} {F : Forest} {v : Vault}

/-- What an owner change does and tells. -/
theorem ownerChange {p : TransactionProposal} {w : E.MerkleMapWitness} {count : Fp}
    {ow : OwnerWitness} {pos : PublicKeyOption}
    (h : CallStep T guards L a (.executeOwnerChange p w count ow pos) F L')
    (href : Refines T a (L.state a) (.active v)) :
    ∃ added numOwners commitment nonce,
      F.self.events = [.execution (E.proposalHash p) p.txType (E.root w executedMarker),
        .ownerChange (E.proposalHash p) p.slot0.address added numOwners commitment nonce] ∧
      E.onCurve p.slot0.address = true ∧ numOwners.val ≤ maxOwners ∧
      nonce.val = (v.next (.executeOwnerChange p w count ow pos)).configNonce ∧
      ((p.txType = TxType.addOwner ∧ added = 1 ∧
          commitment = computeOwnerChain E (v.ownersAfter p pos) ∧
          ∃ front back, v.owners = front ++ back ∧
            v.ownersAfter p pos = front ++ p.slot0.address :: back) ∨
        added = 0 ∧ v.ownersAfter p pos = removeOwner p.slot0.address v.owners) := by
  have hnext := h.refines_next href
  obtain ⟨hencoded, hsound⟩ := href
  have hstate : L.state a = v.encode E := hencoded
  cases hsound with
  | active hv =>
      cases hnext.sound with
      | active hv' =>
          obtain ⟨balance, hevents⟩ := h.emits
          obtain ⟨P, rfl, hprove⟩ := h.proved
          obtain ⟨numOwners, commitment, hchange, -, hfew, hchecks, -⟩ :=
            executeOwnerChange_spec (MethodCall.prove_ok.mp hprove) h.included
          have hhashed := h.recorded.hashed
          simp only [MethodCall.hashInputs, List.cons_append, List.forall_mem_cons,
            List.forall_mem_append] at hhashed
          obtain ⟨hp, ⟨hpresent, -⟩, -⟩ := hhashed
          rw [hstate] at hchange hchecks
          obtain ⟨k, hk⟩ := (hv.executable
            (h.recorded.witnessed w List.mem_cons_self) hp hchecks).voted
          have hnonce : ((v.encode E).configNonce + 1).val = v.configNonce + 1 := by
            have hval := hv'.val_configNonce
            change ((v.configNonce + 1 : ℕ) : Fp).val = v.configNonce + 1 at hval
            rwa [Nat.cast_add, Nat.cast_one] at hval
          rw [hstate] at hevents
          refine ⟨_, _, _, _, hevents, ?_, ?_, hnonce, ?_⟩
          · rcases hchange with ⟨htype, -, hadd⟩ | ⟨htype, -, hremove⟩
            · obtain ⟨-, -, -, hcoherent, front, back, -, hnew⟩ :=
                hv.ownersAfter_add (hv.votes _ hk).rules htype hpresent hadd
              exact hcoherent.onCurve _ (by rw [hnew]; simp)
            · obtain ⟨-, hmem, -⟩ := hv.ownersAfter_remove pos htype hpresent hremove
              exact hv.governed.coherent.onCurve _ hmem
          · rcases hchange with ⟨htype, hnum, -⟩ | ⟨htype, hnum, -⟩
            · have hnot : ¬TxType.addOwner = TxType.removeOwner := by decide
              simpa [htype, hnot, toField, hnum] using hfew
            · have hnot : ¬TxType.removeOwner = TxType.addOwner := by decide
              simpa [htype, hnot, toField, hnum] using hfew
          rcases hchange with ⟨htype, -, hadd⟩ | ⟨htype, -, hremove⟩
          · obtain ⟨-, hchain, -, -, howners⟩ :=
              hv.ownersAfter_add (hv.votes _ hk).rules htype hpresent hadd
            refine .inl ⟨htype, by simp [htype, toField], ?_, howners⟩
            rw [← hchain, changedOwnersCommitment, if_neg (by rw [htype]; decide), hadd]
          · have hnot : ¬p.txType = TxType.addOwner := by
              rw [htype]
              decide
            exact .inr ⟨by simp [hnot, toField], if_neg hnot⟩

/-- The event of an owner change. -/
theorem ownersChanged {p : TransactionProposal} {w : E.MerkleMapWitness} {count : Fp}
    {ow : OwnerWitness} {pos : PublicKeyOption}
    (h : CallStep T guards L a (.executeOwnerChange p w count ow pos) F L')
    (href : Refines T a (L.state a) (.active v))
    (htries : v.TriesHashed T (.executeOwnerChange p w count ow pos)) :
    ∃ front e, F.self.events = front ++ [e] ∧ (∀ e ∈ front, e.OwnersSilent) ∧
      e.setupSlot? = none ∧ e.changesOwners = true ∧
      OwnersChanged T e v.owners (v.next (.executeOwnerChange p w count ow pos)).owners ∧
      e.changeNonce = (v.next (.executeOwnerChange p w count ow pos)).configNonce := by
  obtain ⟨added, numOwners, commitment, nonce, hevents, hcurve, -, hnonce, hchange⟩ :=
    h.ownerChange href
  refine ⟨[.execution (E.proposalHash p) p.txType (E.root w executedMarker)], _, hevents,
    List.forall_mem_singleton.mpr ⟨rfl, rfl⟩, rfl, rfl, ?_, hnonce⟩
  change OwnersChanged T _ v.owners (v.ownersAfter p pos)
  rcases hchange with ⟨htype, rfl, rfl, front, back, hold, hnew⟩ | ⟨rfl, hnew⟩
  · rw [hold, hnew]
    exact .added hcurve (hold ▸ htries htype)
  · rw [hnew]
    exact .removed hcurve

end CallStep

/-- A call that neither sets an account up nor changes its owners, and whose
events do not claim it does. -/
structure MethodCall.KeepsOwners (m : MethodCall E) : Prop where
  silent : ∀ a s balance, ∀ e ∈ m.emits a s balance, e.OwnersSilent
  owners : ∀ (ph : Phase) v', ph.next m = .active v' →
    ∃ v, ph = .active v ∧ v' = v.next m ∧ v'.owners = v.owners

/-- Such are all calls but three. -/
theorem MethodCall.keepsOwners (m : MethodCall E) :
    (∃ t n o, m = .setup t n o) ∨ (∃ t n o p w c, m = .executeSetupChild t n o p w c) ∨
      (∃ p w c ow pos, m = .executeOwnerChange p w c ow pos) ∨ m.KeepsOwners := by
  have hone (e : Event) (he : e.OwnersSilent) : ∀ e' ∈ [e], e'.OwnersSilent :=
    List.forall_mem_singleton.mpr he
  cases m with
  | setup t n o => exact Or.inl ⟨t, n, o, rfl⟩
  | executeSetupChild t n o p w c => exact Or.inr (Or.inl ⟨t, n, o, p, w, c, rfl⟩)
  | executeOwnerChange p w c ow pos => exact Or.inr (Or.inr (Or.inl ⟨p, w, c, ow, pos, rfl⟩))
  | reserveForParent b hash t n o =>
      refine Or.inr (Or.inr (Or.inr ⟨fun _ _ _ ↦ List.forall_mem_cons.mpr ⟨⟨rfl, rfl⟩, ?_⟩, ?_⟩))
      · intro e he
        obtain ⟨slot, -, rfl⟩ := List.mem_map.mp he
        exact ⟨rfl, rfl⟩
      · intro ph v' h
        cases ph <;> cases h
        exact ⟨_, rfl, rfl, rfl⟩
  | propose p ow k sig vw aw =>
      refine Or.inr (Or.inr (Or.inr ⟨fun _ _ _ ↦ List.forall_mem_append.mpr
        ⟨List.forall_mem_cons.mpr ⟨⟨rfl, rfl⟩, ?_⟩, hone _ ⟨rfl, rfl⟩⟩, ?_⟩))
      · intro e he
        obtain ⟨r, -, rfl⟩ := List.mem_map.mp he
        exact ⟨rfl, rfl⟩
      · intro ph v' h
        cases ph <;> cases h
        exact ⟨_, rfl, rfl, rfl⟩
  | approveProposal | executeTransfer | executeAllocateToChildren =>
      refine Or.inr (Or.inr (Or.inr ⟨fun _ _ _ ↦ hone _ ⟨rfl, rfl⟩, ?_⟩))
      intro ph v' h
      cases ph <;> cases h
      exact ⟨_, rfl, rfl, rfl⟩
  | executeThresholdChange | executeDelegate | executeReclaimToParent
  | executeEnableChildMultiSig =>
      refine Or.inr (Or.inr (Or.inr ⟨fun _ _ _ ↦ List.forall_mem_cons.mpr ⟨⟨rfl, rfl⟩,
        hone _ ⟨rfl, rfl⟩⟩, ?_⟩))
      intro ph v' h
      cases ph <;> cases h
      exact ⟨_, rfl, rfl, rfl⟩
  | executeDestroy =>
      refine Or.inr (Or.inr (Or.inr ⟨fun _ _ _ ↦ List.forall_mem_cons.mpr ⟨⟨rfl, rfl⟩,
        List.forall_mem_cons.mpr ⟨⟨rfl, rfl⟩, hone _ ⟨rfl, rfl⟩⟩⟩, ?_⟩))
      intro ph v' h
      cases ph <;> cases h
      exact ⟨_, rfl, rfl, rfl⟩

namespace Phase.OwnersTold

variable {ph : Phase} {events more : List Event} {m : MethodCall E}

theorem silent (h : ph.OwnersTold T events) (hm : m.KeepsOwners)
    (hsilent : ∀ e ∈ more, e.OwnersSilent) : (ph.next m).OwnersTold T (events ++ more) := by
  cases hnext : ph.next m with
  | active v' =>
      obtain ⟨v, rfl, rfl, howners⟩ := hm.owners ph v' hnext
      obtain ⟨o, n, htold⟩ := h
      exact ⟨o, n, htold.silent hsilent howners (v.later_next m).configNonce⟩
  | vacant | reserved =>
      have hnone : setupSlotsOf events = [] ∧ ownerChangesOf events = [] := by
        cases ph with
        | active v => cases hnext
        | vacant => exact h
        | reserved => exact h
      exact ⟨by rw [setupSlotsOf_append, hnone.1, setupSlotsOf_silent hsilent]; rfl,
        by rw [ownerChangesOf_append, hnone.2, ownerChangesOf_silent hsilent]; rfl⟩

/-- The setup is the first thing told about the owners. -/
theorem of_setup {parent : PublicKey} {t n : Fp} {o : SetupOwnersInput}
    (hnone : setupSlotsOf events = [] ∧ ownerChangesOf events = [])
    (htold : MinaGuard.OwnersTold T more (.fresh parent (setupOwners o n) t.val) o n) :
    (Phase.active (.fresh parent (setupOwners o n) t.val)).OwnersTold T (events ++ more) := by
  have hslots : setupSlotsOf (events ++ more) = setupSlotsOf more := by
    rw [setupSlotsOf_append, hnone.1, List.nil_append]
  have hchanges : ownerChangesOf (events ++ more) = ownerChangesOf more := by
    rw [ownerChangesOf_append, hnone.2, List.nil_append]
  exact ⟨o, n, htold.coherent, htold.nonempty, hslots.trans htold.slots,
    by rw [hchanges]; exact htold.replay, by rw [hchanges]; exact htold.nonces,
    by rw [hchanges]; exact htold.nonce_le⟩

end Phase.OwnersTold

/-- One call keeps the owners told. -/
theorem CallStep.ownersTold {L L' : Ledger} {a : PublicKey} {m : MethodCall E} {F : Forest}
    {ph : Phase} {events : List Event} (h : CallStep T guards L a m F L')
    (href : Refines T a (L.state a) ph) (htold : ph.OwnersTold T events)
    (htries : ∀ v, ph = .active v → v.TriesHashed T m) :
    (ph.next m).OwnersTold T (events ++ F.self.events) := by
  obtain ⟨balance, hevents⟩ := h.emits
  rcases m.keepsOwners with ⟨t, n, o, rfl⟩ | ⟨t, n, o, p, w, c, rfl⟩ | ⟨p, w, c, ow, pos, rfl⟩ |
    hkeeps
  · obtain ⟨P, rfl, hprove⟩ := h.proved
    obtain ⟨hzero, hparent, hvalid, -⟩ := setup_spec (MethodCall.prove_ok.mp hprove) h.included
    have hsetup := OwnersTold.setup (T := T) PublicKey.empty PublicKey.empty hvalid []
      fun e he ↦ absurd he List.not_mem_nil
    rw [List.append_nil] at hsetup
    rcases href.inactive hzero with rfl | ⟨b, c, rfl, hne, -⟩
    · rw [hevents]
      exact .of_setup htold hsetup
    · rw [href.state] at hparent
      exact absurd hparent hne
  · obtain ⟨P, rfl, hprove⟩ := h.proved
    obtain ⟨hzero, hparent, -, -, -, -, -, -, -, -, hvalid, -⟩ :=
      executeSetupChild_spec (MethodCall.prove_ok.mp hprove) h.included
    rcases href.inactive hzero with rfl | ⟨b, c, rfl, -, -⟩
    · rw [href.state] at hparent
      exact absurd rfl hparent
    · rw [hevents]
      exact .of_setup htold (.setup _ _ hvalid _ (List.forall_mem_cons.mpr ⟨⟨rfl, rfl⟩,
        List.forall_mem_singleton.mpr ⟨rfl, rfl⟩⟩))
  · obtain ⟨v, rfl, -⟩ := h.executable href rfl
    obtain ⟨o, n, htold⟩ := htold
    obtain ⟨front, e, hemitted, hsilent, hslot, hchange, hchanged, hnonce⟩ :=
      h.ownersChanged href (htries v rfl)
    rw [hemitted]
    exact ⟨o, n, htold.change hsilent hslot hchange hchanged hnonce rfl⟩
  · refine htold.silent hkeeps ?_
    rw [hevents]
    exact hkeeps.silent _ _ _

/-- One call on an active vault reports how it changes the owners. -/
theorem CallStep.ownersReplay {L L' : Ledger} {a : PublicKey} {m : MethodCall E} {F : Forest}
    {v : Vault} (h : CallStep T guards L a m F L') (href : Refines T a (L.state a) (.active v))
    (htries : v.TriesHashed T m) :
    OwnersReplay T v.owners (ownerChangesOf F.self.events) (v.next m).owners := by
  obtain ⟨balance, hevents⟩ := h.emits
  rcases m.keepsOwners with ⟨t, n, o, rfl⟩ | ⟨t, n, o, p, w, c, rfl⟩ | ⟨p, w, c, ow, pos, rfl⟩ |
    hkeeps
  · obtain ⟨P, rfl, hprove⟩ := h.proved
    obtain ⟨hzero, -⟩ := setup_spec (MethodCall.prove_ok.mp hprove) h.included
    rcases href.inactive hzero with hph | ⟨_, _, hph, -⟩ <;> cases hph
  · obtain ⟨P, rfl, hprove⟩ := h.proved
    obtain ⟨hzero, -⟩ := executeSetupChild_spec (MethodCall.prove_ok.mp hprove) h.included
    rcases href.inactive hzero with hph | ⟨_, _, hph, -⟩ <;> cases hph
  · obtain ⟨front, e, hemitted, hsilent, -, hchange, hchanged, -⟩ := h.ownersChanged href htries
    have hchanges : ownerChangesOf (front ++ [e]) = [] ++ [e] := by
      rw [ownerChangesOf_append, ownerChangesOf_silent hsilent]
      simp [ownerChangesOf, hchange]
    rw [hemitted, hchanges]
    exact .change .start hchanged
  · obtain ⟨w, hw, -, howners⟩ := hkeeps.owners (.active v) (v.next m) rfl
    obtain rfl := Phase.active.inj hw
    rw [hevents, ownerChangesOf_silent (hkeeps.silent _ _ _), howners]
    exact .start

theorem OwnersReplay.trans {start mid owners : List PublicKey} {events more : List Event}
    (h : OwnersReplay T start events mid) (h' : OwnersReplay T mid more owners) :
    OwnersReplay T start (events ++ more) owners := by
  induction h' with
  | start =>
      rw [List.append_nil]
      exact h
  | change before changed ih =>
      rw [← List.append_assoc]
      exact ih.change changed

/-- The transcript has the chains that rebuilding the owners of `g` may try. -/
def RebuildRecorded (T : Transcript E) (g : PublicKey) (as : List (Action E)) : Prop :=
  ∀ front m F back v, as = front ++ .call g m F :: back → replay g front = .active v →
    v.TriesHashed T m

theorem RebuildRecorded.front {g : PublicKey} {as bs : List (Action E)}
    (h : RebuildRecorded T g (as ++ bs)) : RebuildRecorded T g as := by
  rintro front m F back v rfl hv
  exact h front m F (back ++ bs) v (by simp) hv

namespace Run

variable {as : List (Action E)} {L : Ledger} {g : PublicKey}

/-- In every run, the events of a guard tell its owners. -/
theorem ownersTold (run : (ledgerSystem T guards).Run as L) (hg : g ∈ guards)
    (hrebuild : RebuildRecorded T g as) : (replay g as).OwnersTold T (published g as) := by
  refine TransitionSystem.Run.invariant
    (fun as _ ↦ RebuildRecorded T g as → (replay g as).OwnersTold T (published g as))
    ?_ ?_ run hrebuild
  · intro L _ _
    exact ⟨rfl, rfl⟩
  · intro as L act L' run ih step hrebuild
    rw [published_concat]
    rcases call_or_silent g as act with ⟨m, F, rfl⟩ | ⟨hsame, hnone⟩
    · have hpublished : (Action.call g m F).published g = F.self.events := if_pos rfl
      rw [hpublished, replay_call]
      exact (LedgerStep.call_inv step).ownersTold (refines run hg) (ih hrebuild.front)
        fun v hv ↦ hrebuild as m F [] v rfl hv
    · rw [hsame, hnone, List.append_nil]
      exact ih hrebuild.front

/-- From any active vault on, the events tell how its owners change. -/
theorem ownersReplay (run : (ledgerSystem T guards).Run as L) (hg : g ∈ guards) {v : Vault}
    (hv : replay g as = .active v) {bs : List (Action E)} {L' : Ledger}
    (path : (ledgerSystem T guards).Path L bs L') (hrebuild : RebuildRecorded T g (as ++ bs)) :
    ∃ w, replay g (as ++ bs) = .active w ∧
      OwnersReplay T v.owners (ownerChangesOf (published g bs)) w.owners := by
  induction bs using List.reverseRecOn generalizing L' with
  | nil => exact ⟨v, by rwa [List.append_nil], .start⟩
  | append_singleton bs act ih =>
      obtain ⟨M, hpath, hstep⟩ := TransitionSystem.path_append.mp path
      rw [← List.append_assoc] at hrebuild ⊢
      obtain ⟨w, hw, hreplay⟩ := ih hpath hrebuild.front
      rw [published_concat, ownerChangesOf_append]
      rcases call_or_silent g (as ++ bs) act with ⟨m, F, rfl⟩ | ⟨hsame, hnone⟩
      · have hpublished : (Action.call g m F).published g = F.self.events := if_pos rfl
        have href := refines (run.extend hpath) hg
        rw [hw] at href
        have hcall := LedgerStep.call_inv (TransitionSystem.path_singleton.mp hstep)
        rw [hpublished, replay_call, hw]
        exact ⟨_, rfl, hreplay.trans
          (hcall.ownersReplay href (hrebuild (as ++ bs) m F [] w rfl hw))⟩
      · rw [hsame, hnone]
        exact ⟨w, hw, hreplay.trans .start⟩

end Run

end MinaGuard
