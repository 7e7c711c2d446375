import MinaGuard.Foundations.LastWords
import MinaGuard.Vault.Blocks
import MinaGuard.Vault.OwnerLog

/-!
# Who is an owner, as the events have it

For the set of the owners their order does not matter: a key is an owner if the last event
about it made it one.  The events that say so are all different.
-/

namespace MinaGuard

open Foundations

variable {E : Env} {T : Transcript E} {guards : Set PublicKey}

namespace Event

/-- What the event says about a key: whether it is an owner from now on. -/
def ownerWord? : Event → Option (PublicKey × Bool)
  | setupOwner owner _ => if owner = PublicKey.empty then none else some (owner, true)
  | ownerChange _ owner added _ _ _ => some (owner, decide (added = 1))
  | _ => none

def isOwnerEvent : Event → Bool
  | setup .. | setupOwner .. | ownerChange .. => true
  | _ => false

def isSetup : Event → Bool
  | setup .. => true
  | _ => false

/-- First the setup, then its slots, then the changes. -/
def ownerRank : Event → ℕ
  | setup .. => 0
  | setupOwner .. => 1
  | _ => 2

/-- The event announces a configuration, before there is one. -/
def isReservation : Event → Bool
  | createChildConfig .. | createChildOwner .. => true
  | _ => false

/-- The numbers of an event about the owners. -/
def Small (configNonce : ℕ) : Event → Prop
  | setup _ threshold numOwners _ => threshold.val ≤ maxOwners ∧ numOwners.val ≤ maxOwners
  | setupOwner _ index => index.val ≤ maxOwners
  | ownerChange _ _ _ numOwners _ nonce => numOwners.val ≤ maxOwners ∧ nonce.val ≤ configNonce
  | _ => True

theorem ownerWord?_eq_none {e : Event} (h : e.isOwnerEvent = false) : e.ownerWord? = none := by
  cases e <;> first | rfl | cases h

theorem small_of_plain {e : Event} (h : e.isOwnerEvent = false) (n : ℕ) : e.Small n := by
  cases e <;> trivial

theorem Small.mono {e : Event} {m n : ℕ} (h : e.Small m) (hle : m ≤ n) : e.Small n := by
  cases e <;> first | trivial | exact h | exact ⟨h.1, h.2.trans hle⟩

theorem ownerRank_le (e : Event) : e.ownerRank ≤ 2 := by
  unfold ownerRank
  split <;> decide

theorem plain_of_reservation {e : Event} (h : e.isReservation = true) :
    e.isOwnerEvent = false := by
  cases e <;> first | rfl | cases h

end Event

/-- What the events say about the owners, in order. -/
def ownerWords (events : List Event) : List (PublicKey × Bool) :=
  events.filterMap Event.ownerWord?

theorem ownerWords_append (events more : List Event) :
    ownerWords (events ++ more) = ownerWords events ++ ownerWords more := List.filterMap_append

theorem ownerWords_plain {events : List Event} (h : ∀ e ∈ events, e.isOwnerEvent = false) :
    ownerWords events = [] :=
  List.filterMap_eq_nil_iff.mpr fun e he ↦ Event.ownerWord?_eq_none (h e he)

theorem filter_plain {events : List Event} (h : ∀ e ∈ events, e.isOwnerEvent = false) :
    events.filter Event.isOwnerEvent = [] :=
  List.filter_eq_nil_iff.mpr fun e he ↦ by simp [h e he]

/-- The events say who the owners of an active vault are. -/
structure OwnersSaid (events : List Event) (v : Vault) : Prop where
  owners : ∀ k, k ∈ v.owners ↔ lastWord (ownerWords events) k = some true
  distinct : (events.filter Event.isOwnerEvent).Nodup
  ranked : (events.filter Event.isOwnerEvent).Pairwise fun e e' ↦ e.ownerRank ≤ e'.ownerRank
  small : ∀ e ∈ events, e.Small v.configNonce
  setup : ∃ e back, events.filter Event.isOwnerEvent = e :: back ∧ e.isSetup = true

/-- The events say who the owners are, if there are any yet. -/
def Phase.OwnersSaid (events : List Event) : Phase → Prop
  | .active v => MinaGuard.OwnersSaid events v
  | _ => ∀ e ∈ events, e.isReservation = true

namespace OwnersSaid

variable {events more : List Event} {v v' : Vault}

/-- Nothing is said about the owners. -/
theorem plain (h : OwnersSaid events v) (hplain : ∀ e ∈ more, e.isOwnerEvent = false)
    (howners : v'.owners = v.owners) (hnonce : v.configNonce ≤ v'.configNonce) :
    OwnersSaid (events ++ more) v' := by
  have hfilter : (events ++ more).filter Event.isOwnerEvent =
      events.filter Event.isOwnerEvent := by
    rw [List.filter_append, filter_plain hplain, List.append_nil]
  exact
    { owners := by
        rw [ownerWords_append, ownerWords_plain hplain, List.append_nil, howners]
        exact h.owners
      distinct := hfilter ▸ h.distinct
      ranked := hfilter ▸ h.ranked
      small := List.forall_mem_append.mpr ⟨fun e he ↦ (h.small e he).mono hnonce,
        fun e he ↦ Event.small_of_plain (hplain e he) _⟩
      setup := hfilter ▸ h.setup }

/-- One owner change. -/
theorem change (h : OwnersSaid events v) {first : Event} (hfirst : first.isOwnerEvent = false)
    {hash added numOwners commitment nonce : Fp} {k : PublicKey}
    (hfew : numOwners.val ≤ maxOwners) (hnonce : nonce.val = v'.configNonce)
    (hnext : v'.configNonce = v.configNonce + 1)
    (howners : ∀ k', k' ∈ v'.owners ↔ if k = k' then added = 1 else k' ∈ v.owners) :
    OwnersSaid (events ++ [first, .ownerChange hash k added numOwners commitment nonce]) v' := by
  have hfilter : (events ++ [first, .ownerChange hash k added numOwners commitment nonce]).filter
      Event.isOwnerEvent = events.filter Event.isOwnerEvent ++
        [.ownerChange hash k added numOwners commitment nonce] := by
    rw [List.filter_append, List.filter_cons_of_neg (by simp [hfirst])]
    rfl
  refine
    { owners := ?_
      distinct := ?_
      ranked := ?_
      small := ?_
      setup := ?_ }
  · intro k'
    have hwords : ownerWords [first, .ownerChange hash k added numOwners commitment nonce] =
        [(k, decide (added = 1))] := by
      unfold ownerWords
      rw [List.filterMap_cons_none (Event.ownerWord?_eq_none hfirst)]
      rfl
    rw [ownerWords_append, hwords, lastWord_concat, howners]
    by_cases hk : k = k'
    · rw [if_pos hk, if_pos hk]
      simp
    · rw [if_neg hk, if_neg hk]
      exact h.owners k'
  · rw [hfilter]
    refine List.nodup_append.mpr ⟨h.distinct, List.nodup_singleton _, ?_⟩
    rintro e he e' he' rfl
    obtain rfl := List.mem_singleton.mp he'
    -- earlier changes have smaller numbers
    have hsmall := (h.small _ (List.mem_of_mem_filter he)).2
    omega
  · rw [hfilter, List.pairwise_append]
    refine ⟨h.ranked, List.pairwise_singleton _ _, ?_⟩
    rintro e - e' he'
    obtain rfl := List.mem_singleton.mp he'
    exact e.ownerRank_le
  · refine List.forall_mem_append.mpr ⟨fun e he ↦ (h.small e he).mono (by omega), ?_⟩
    exact List.forall_mem_cons.mpr ⟨Event.small_of_plain hfirst _,
      List.forall_mem_singleton.mpr ⟨hfew, hnonce.le⟩⟩
  · obtain ⟨e, back, hevents, hsetup⟩ := h.setup
    exact ⟨e, _, by rw [hfilter, hevents, List.cons_append], hsetup⟩

end OwnersSaid

/-- A published slot that is not empty holds an owner. -/
theorem mem_setupOwners_iff {o : SetupOwnersInput} {n : Fp}
    (hcoherent : OwnersCoherent E (setupOwners o n)) {k : PublicKey} :
    k ∈ setupOwners o n ↔ k ≠ PublicKey.empty ∧ ∃ index, (k, index) ∈ publishedOwners o n := by
  have hactive {j : ℕ} {k' : PublicKey} (hj : o.toList[j]? = some k') :
      lessThan (j : Fp) n ↔ j < n.val := by
    have hlength : o.toList.length = maxOwners := o.length_toList
    obtain ⟨hlt, -⟩ := List.getElem?_eq_some_iff.mp hj
    have hsmall := small_lt_fieldOrder (hlength ▸ hlt.le)
    unfold lessThan
    rw [val_natCast_of_lt (by omega)]
  unfold publishedOwners
  constructor
  · intro hk
    refine ⟨hcoherent.ne_empty k hk, ?_⟩
    obtain ⟨j, hj⟩ := List.mem_iff_getElem?.mp hk
    rw [setupOwners, List.getElem?_take] at hj
    obtain ⟨hlt, hget⟩ := Option.ite_none_right_eq_some.mp hj
    refine ⟨(j : Fp), List.mem_map.mpr ⟨(k, j), List.mk_mem_zipIdx_iff_getElem?.mpr hget, ?_⟩⟩
    rw [if_pos ((hactive hget).mpr hlt)]
  · rintro ⟨hne, index, hmem⟩
    obtain ⟨⟨k', j⟩, hslot, heq⟩ := List.mem_map.mp hmem
    have hget := List.mk_mem_zipIdx_iff_getElem?.mp hslot
    obtain ⟨hk, -⟩ := Prod.mk.inj heq
    by_cases hlt : j < n.val
    · rw [if_pos ((hactive hget).mpr hlt)] at hk
      dsimp only at hk
      subst hk
      refine List.mem_iff_getElem?.mpr ⟨j, ?_⟩
      rw [setupOwners, List.getElem?_take_of_lt hlt, hget]
    · rw [if_neg (mt (hactive hget).mp hlt)] at hk
      exact absurd hk.symm hne

theorem publishedOwners_index {o : SetupOwnersInput} {n : Fp} :
    ((publishedOwners o n).map Prod.snd).Nodup ∧
      ∀ slot ∈ publishedOwners o n, slot.2.val ≤ maxOwners := by
  have hlength : o.toList.length = maxOwners := o.length_toList
  have hlt {slot : PublicKey × ℕ} (h : slot ∈ o.toList.zipIdx) : slot.2 < maxOwners := by
    obtain ⟨hlt, -⟩ := List.getElem?_eq_some_iff.mp (List.mem_zipIdx_iff_getElem?.mp h)
    omega
  have hval {slot : PublicKey × ℕ} (h : slot ∈ o.toList.zipIdx) : (slot.2 : Fp).val = slot.2 :=
    val_natCast_of_lt ((hlt h).le.trans_lt (by have := small_lt_fieldOrder le_rfl; omega))
  unfold publishedOwners
  constructor
  · rw [List.map_map]
    refine List.Nodup.map_on ?_ (List.Nodup.of_map Prod.snd ?_)
    · intro x hx y hy hxy
      have hslot : x.2 = y.2 := by
        rw [← hval hx, ← hval hy]
        exact congrArg ZMod.val hxy
      have hget := List.mem_zipIdx_iff_getElem?.mp hx
      rw [hslot, List.mem_zipIdx_iff_getElem?.mp hy] at hget
      exact Prod.ext (Option.some.inj hget).symm hslot
    · rw [List.zipIdx_map_snd]
      exact List.nodup_range'
  · intro slot hslot
    obtain ⟨x, hx, rfl⟩ := List.mem_map.mp hslot
    exact (hval hx).trans_le (hlt hx).le

/-- The events of the setup say who the first owners are. -/
theorem OwnersSaid.of_setup {events back : List Event} {a parent : PublicKey} {t n : Fp}
    {o : SetupOwnersInput} (hvalid : InitialGovernance E t n o)
    (hbefore : ∀ e ∈ events, e.isReservation = true)
    (hback : ∀ e ∈ back, e.isOwnerEvent = false) :
    OwnersSaid (events ++ (setupEvents E t n a o ++ back))
      (.fresh parent (setupOwners o n) t.val) := by
  have hplain : ∀ e ∈ events, e.isOwnerEvent = false :=
    fun e he ↦ Event.plain_of_reservation (hbefore e he)
  have hfilter : (events ++ (setupEvents E t n a o ++ back)).filter Event.isOwnerEvent =
      setupEvents E t n a o := by
    rw [List.filter_append, List.filter_append, filter_plain hplain, filter_plain hback,
      List.nil_append, List.append_nil]
    refine List.filter_eq_self.mpr (List.forall_mem_cons.mpr ⟨rfl, ?_⟩)
    intro e he
    obtain ⟨slot, -, rfl⟩ := List.mem_map.mp he
    rfl
  have hwords : ownerWords (events ++ (setupEvents E t n a o ++ back)) =
      (publishedOwners o n).filterMap fun slot ↦
        if slot.1 = PublicKey.empty then none else some (slot.1, true) := by
    rw [ownerWords_append, ownerWords_append, ownerWords_plain hplain, ownerWords_plain hback,
      List.nil_append, List.append_nil]
    unfold ownerWords setupEvents
    rw [List.filterMap_cons_none rfl, List.filterMap_map]
    rfl
  obtain ⟨hindex, hsmall⟩ := publishedOwners_index (o := o) (n := n)
  refine
    { owners := ?_
      distinct := ?_
      ranked := ?_
      small := ?_
      setup := ⟨_, _, hfilter, rfl⟩ }
  · intro k
    rw [hwords, lastWord_eq_some_iff_of_forall, List.map_filterMap]
    · change k ∈ setupOwners o n ↔ _
      rw [mem_setupOwners_iff hvalid.coherent, List.mem_filterMap]
      constructor
      · rintro ⟨hne, index, hslot⟩
        exact ⟨(k, index), hslot, by rw [if_neg hne]; rfl⟩
      · rintro ⟨⟨k', index⟩, hslot, heq⟩
        split at heq
        · cases heq
        · next hne =>
            obtain rfl := Option.some.inj heq
            exact ⟨hne, index, hslot⟩
    · intro x hx
      obtain ⟨slot, -, heq⟩ := List.mem_filterMap.mp hx
      split at heq
      · cases heq
      · rw [← Option.some.inj heq]
  · rw [hfilter]
    refine List.nodup_cons.mpr ⟨fun hmem ↦ ?_, ?_⟩
    · obtain ⟨slot, -, heq⟩ := List.mem_map.mp hmem
      cases heq
    · refine List.Nodup.map ?_ (List.Nodup.of_map Prod.snd hindex)
      intro x y hxy
      obtain ⟨hk, hi⟩ := Event.setupOwner.inj hxy
      exact Prod.ext hk hi
  · rw [hfilter]
    refine List.pairwise_cons.mpr ⟨fun e _ ↦ Nat.zero_le _, List.pairwise_map.mpr ?_⟩
    exact List.pairwise_of_forall fun _ _ ↦ le_rfl
  · refine List.forall_mem_append.mpr ⟨fun e he ↦ Event.small_of_plain (hplain e he) _,
      List.forall_mem_append.mpr ⟨List.forall_mem_cons.mpr ⟨?_, ?_⟩,
        fun e he ↦ Event.small_of_plain (hback e he) _⟩⟩
    · exact ⟨hvalid.threshold_le.trans hvalid.numOwners_le, hvalid.numOwners_le⟩
    · intro e he
      obtain ⟨slot, hslot, rfl⟩ := List.mem_map.mp he
      exact hsmall slot hslot

/-! ## One call -/

/-- Such a call does not speak of the owners at all. -/
theorem MethodCall.KeepsOwners.plain {m : MethodCall E} (hm : m.KeepsOwners) {a : PublicKey}
    {s : GuardState} {balance : UInt64} {e : Event} (he : e ∈ m.emits a s balance) :
    e.isOwnerEvent = false := by
  have hsetup : e.isSetup = false := by
    cases m with
    | setup t n o =>
        obtain ⟨v, hph, -⟩ := hm.owners .vacant _ rfl
        cases hph
    | executeSetupChild t n o p w c =>
        obtain ⟨v, hph, -⟩ := hm.owners (.reserved PublicKey.empty 0) _ rfl
        cases hph
    | _ =>
        cases e with
        | setup => simp [MethodCall.emits, proposalEvent, receiverEvents] at he
        | _ => rfl
  obtain ⟨hslot, hchange⟩ := hm.silent a s balance e he
  cases e with
  | setup => cases hsetup
  | setupOwner => cases hslot
  | ownerChange => cases hchange
  | _ => rfl

namespace CallStep

variable {L L' : Ledger} {a : PublicKey} {m : MethodCall E} {F : Forest} {ph : Phase}
  {events : List Event}

/-- Until a guard is active, it announces a configuration at most. -/
theorem reserves (h : CallStep T guards L a m F L') (href : Refines T a (L.state a) ph)
    (hinactive : ∀ v, ph.next m ≠ .active v) : ∀ e ∈ F.self.events, e.isReservation = true := by
  have hph : ∀ v, ph ≠ .active v := by
    rintro v rfl
    exact hinactive _ rfl
  obtain ⟨balance, hevents⟩ := h.emits
  rw [hevents]
  cases m with
  | setup t n o =>
      obtain ⟨P, rfl, hprove⟩ := h.proved
      obtain ⟨hzero, hparent, -⟩ := setup_spec (MethodCall.prove_ok.mp hprove) h.included
      rcases href.inactive hzero with rfl | ⟨b, c, rfl, hne, -⟩
      · exact absurd rfl (hinactive _)
      · rw [href.state] at hparent
        exact absurd hparent hne
  | reserveForParent b hash t n o =>
      refine List.forall_mem_cons.mpr ⟨rfl, fun e he ↦ ?_⟩
      obtain ⟨slot, -, rfl⟩ := List.mem_map.mp he
      rfl
  | executeSetupChild t n o p w c =>
      obtain ⟨P, rfl, hprove⟩ := h.proved
      obtain ⟨hzero, hparent, -⟩ :=
        executeSetupChild_spec (MethodCall.prove_ok.mp hprove) h.included
      rcases href.inactive hzero with rfl | ⟨b, c, rfl, -, -⟩
      · rw [href.state] at hparent
        exact absurd rfl hparent
      · exact absurd rfl (hinactive _)
  | propose =>
      obtain ⟨v, rfl, -⟩ := h.votable href rfl
      exact absurd rfl (hph v)
  | approveProposal =>
      obtain ⟨v, rfl, -⟩ := h.votable href rfl
      exact absurd rfl (hph v)
  | executeTransfer | executeAllocateToChildren | executeOwnerChange | executeThresholdChange
  | executeDelegate =>
      obtain ⟨v, rfl, -⟩ := h.executable href rfl
      exact absurd rfl (hph v)
  | executeReclaimToParent | executeDestroy | executeEnableChildMultiSig =>
      obtain ⟨v, rfl, -⟩ := h.childExecutable href rfl
      exact absurd rfl (hph v)

/-- A call on an active vault, as the owners see it. -/
theorem ownersSaid_active {v : Vault} (h : CallStep T guards L a m F L')
    (href : Refines T a (L.state a) (.active v)) (hsaid : OwnersSaid events v) :
    OwnersSaid (events ++ F.self.events) (v.next m) := by
  obtain ⟨balance, hevents⟩ := h.emits
  rcases m.keepsOwners with ⟨t, n, o, rfl⟩ | ⟨t, n, o, p, w, c, rfl⟩ | ⟨p, w, c, ow, pos, rfl⟩ |
    hkeeps
  · obtain ⟨P, rfl, hprove⟩ := h.proved
    obtain ⟨hzero, -⟩ := setup_spec (MethodCall.prove_ok.mp hprove) h.included
    rcases href.inactive hzero with hph | ⟨_, _, hph, -⟩ <;> cases hph
  · obtain ⟨P, rfl, hprove⟩ := h.proved
    obtain ⟨hzero, -⟩ := executeSetupChild_spec (MethodCall.prove_ok.mp hprove) h.included
    rcases href.inactive hzero with hph | ⟨_, _, hph, -⟩ <;> cases hph
  · obtain ⟨added, numOwners, commitment, nonce, hemitted, -, hfew, hnonce, hchange⟩ :=
      h.ownerChange href
    rw [hemitted]
    refine hsaid.change rfl hfew hnonce rfl fun k' ↦ ?_
    change k' ∈ v.ownersAfter p pos ↔ _
    rcases hchange with ⟨-, rfl, -, front, back, hold, hnew⟩ | ⟨rfl, hnew⟩
    · rw [hold, hnew]
      by_cases hk : p.slot0.address = k'
      · rw [if_pos hk, ← hk]
        simp
      · rw [if_neg hk]
        simp [Ne.symm hk]
    · rw [hnew, removeOwner, List.mem_filter]
      by_cases hk : p.slot0.address = k'
      · rw [if_pos hk, ← hk]
        simp
      · rw [if_neg hk]
        simp [Ne.symm hk]
  · obtain ⟨w, hw, -, howners⟩ := hkeeps.owners (.active v) (v.next m) rfl
    obtain rfl := Phase.active.inj hw
    rw [hevents]
    exact hsaid.plain (fun e he ↦ hkeeps.plain he) howners (v.later_next m).configNonce

/-- One call. -/
theorem ownersSaid (h : CallStep T guards L a m F L') (href : Refines T a (L.state a) ph)
    (hsaid : ph.OwnersSaid events) : (ph.next m).OwnersSaid (events ++ F.self.events) := by
  by_cases hinactive : ∀ v, ph.next m ≠ .active v
  · have hall : ∀ e ∈ events ++ F.self.events, e.isReservation = true := by
      refine List.forall_mem_append.mpr ⟨?_, h.reserves href hinactive⟩
      cases ph with
      | active v => exact absurd rfl (hinactive _)
      | vacant => exact hsaid
      | reserved => exact hsaid
    cases hnext : ph.next m with
    | active v => exact absurd hnext (hinactive v)
    | vacant => exact hall
    | reserved => exact hall
  · obtain ⟨v', hnext⟩ := not_forall_not.mp hinactive
    obtain ⟨balance, hevents⟩ := h.emits
    cases ph with
    | active v => exact h.ownersSaid_active href hsaid
    | vacant =>
        cases m with
        | setup t n o =>
            obtain ⟨P, rfl, hprove⟩ := h.proved
            obtain ⟨-, -, hvalid, -⟩ := setup_spec (MethodCall.prove_ok.mp hprove) h.included
            have hsetup : OwnersSaid (events ++ (setupEvents E t n PublicKey.empty o ++ []))
                (.fresh PublicKey.empty (setupOwners o n) t.val) :=
              .of_setup hvalid hsaid fun e he ↦ absurd he List.not_mem_nil
            rw [List.append_nil] at hsetup
            rw [hevents]
            exact hsetup
        | _ => cases hnext
    | reserved b c =>
        cases m with
        | executeSetupChild t n o p w cw =>
            obtain ⟨P, rfl, hprove⟩ := h.proved
            obtain ⟨-, -, -, -, -, -, -, -, -, -, hvalid, -⟩ :=
              executeSetupChild_spec (MethodCall.prove_ok.mp hprove) h.included
            rw [hevents]
            exact .of_setup hvalid hsaid
              (List.forall_mem_cons.mpr ⟨rfl, List.forall_mem_singleton.mpr rfl⟩)
        | _ => cases hnext

end CallStep

/-- The value an execution leaves in a map, under the hash of its proposal. -/
def Event.hash? (e : Event) : Option Fp := e.leaf?.map Prod.fst <|> e.childMark?

namespace Run

variable {as : List (Action E)} {L : Ledger} {g : PublicKey}

/-- In every run, the events of a guard say who its owners are. -/
theorem ownersSaid (run : (ledgerSystem T guards).Run as L) (hg : g ∈ guards) :
    (replay g as).OwnersSaid (published g as) := by
  refine TransitionSystem.Run.invariant
    (fun as _ ↦ (replay g as).OwnersSaid (published g as)) ?_ ?_ run
  · intro L _ e he
    exact absurd he List.not_mem_nil
  · intro as L act L' run ih step
    rw [published_concat]
    rcases call_or_silent g as act with ⟨m, F, rfl⟩ | ⟨hsame, hnone⟩
    · have hpublished : (Action.call g m F).published g = F.self.events := if_pos rfl
      rw [hpublished, replay_call]
      exact (LedgerStep.call_inv step).ownersSaid (refines run hg) ih
    · rw [hsame, hnone, List.append_nil]
      exact ih

/-- Every configuration after the first took an event of its own. -/
theorem exists_configNonce_le (run : (ledgerSystem T guards).Run as L) (hg : g ∈ guards)
    {v : Vault} (hv : replay g as = .active v) :
    ∃ said : List Event, said.Nodup ∧ said ⊆ published g as ∧ v.configNonce ≤ said.length := by
  obtain ⟨-, hinvariant⟩ := Run.invariant run hg hv
  have hmirrored := mirrored run hg
  rw [hv] at hmirrored
  have hsaid : ∀ h ∈ (v.executed ++ v.childExecuted).map E.proposalHash,
      ∃ e ∈ published g as, e.hash? = some h := by
    intro h hh
    rw [List.map_append, List.mem_append] at hh
    rcases hh with hh | hh
    · have happroval : v.approvalMap E h = executedMarker := if_pos hh
      rcases hmirrored.leaf_mem h with hzero | ⟨e, he, hleaf⟩
      · exact absurd (happroval.symm.trans hzero) (by decide)
      · exact ⟨e, he, by rw [Event.hash?, hleaf]; rfl⟩
    · obtain ⟨e, he, hmark⟩ := (hmirrored.childMarks h).mp hh
      refine ⟨e, he, ?_⟩
      cases e with
      | execution hash txType root =>
          obtain ⟨htype, -⟩ := Option.ite_none_right_eq_some.mp hmark
          have hleaf : (Event.execution hash txType root).leaf? = none := if_pos (.inr htype)
          rw [Event.hash?, hleaf, hmark]
          rfl
      | _ => cases hmark
  choose f hf hhash using hsaid
  refine ⟨((v.executed ++ v.childExecuted).map E.proposalHash).attach.map fun h ↦ f h.1 h.2,
    ?_, ?_, ?_⟩
  · refine (hinvariant.executedHashes_nodup.attach).map fun x y hxy ↦ ?_
    have hsame := congrArg Event.hash? hxy
    rw [hhash, hhash] at hsame
    exact Subtype.ext (Option.some.inj hsame)
  · intro e he
    obtain ⟨h, -, rfl⟩ := List.mem_map.mp he
    exact hf h.1 h.2
  · rw [List.length_map, List.length_attach, List.length_map, List.length_append]
    exact hinvariant.configNonce_le

end Run

end MinaGuard
