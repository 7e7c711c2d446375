import MinaGuard.Indexer.OwnerSyncs
import MinaGuard.Instance.Archive

/-!
# The mirror of the owner list

However the blocks of a guard are cut into windows, and however often its owners change
within a block, the routes list the owners of the guard, each once.
-/

namespace MinaGuard

open Foundations

variable {E : Env} {T : Transcript E} {guards : Set PublicKey}

/-- An event with its block and transaction. -/
structure PlacedEvent where
  block : ArchivedBlock
  info : TransactionInfo
  event : Event

def PlacedEvent.chainEvent (B : Base58 E) (x : PlacedEvent) : ChainEvent :=
  x.block.chainEvent B x.info x.event

/-- The events of the blocks, in order. -/
def placedEvents (blocks : List ArchivedBlock) : List PlacedEvent :=
  blocks.flatMap fun b ↦ b.transactions.flatMap fun t ↦ t.events.map (PlacedEvent.mk b t.info)

/-- The events of a guard are in the blocks, at their heights. -/
structure Archives (H : BlockHistory E) (g : PublicKey) (blocks : List ArchivedBlock) : Prop
    extends Archived blocks where
  published : ((placedEvents blocks).map fun x ↦ (x.block.height, x.event)) = H.published g

theorem flatMap_chainEvents (B : Base58 E) (blocks : List ArchivedBlock) :
    (blocks.flatMap fun b ↦ b.chainEvents B) =
      (placedEvents blocks).map (PlacedEvent.chainEvent B) := by
  unfold placedEvents
  simp only [List.map_flatMap, List.map_map]
  rfl

/-- The events about owners, placed. -/
def placedOwnerEvents (blocks : List ArchivedBlock) : List PlacedEvent :=
  (placedEvents blocks).filter fun x ↦ x.event.isOwnerEvent

theorem isOwnerType_chainEvent (B : Base58 E) (x : PlacedEvent) :
    (x.chainEvent B).isOwnerType = x.event.isOwnerEvent := by
  obtain ⟨b, info, event⟩ := x
  cases event <;> rfl

theorem ownerChainEvents_eq (lib : Backend E) (blocks : List ArchivedBlock) :
    ownerChainEvents lib blocks =
      (placedOwnerEvents blocks).map (PlacedEvent.chainEvent lib.base58) := by
  unfold ownerChainEvents placedOwnerEvents
  rw [flatMap_chainEvents, List.filter_map]
  congr 2
  funext x
  exact isOwnerType_chainEvent lib.base58 x

/-- The rank of an event about owners among the types. -/
theorem typeRank_mono {e e' : Event} (he : e.isOwnerEvent = true) (he' : e'.isOwnerEvent = true)
    (hle : e.ownerRank ≤ e'.ownerRank) : typeRank e.name ≤ typeRank e'.name := by
  have hrank {e : Event} (he : e.isOwnerEvent = true) :
      typeRank e.name = [1, 2, 7].getD e.ownerRank 0 := by
    cases e <;> first | rfl | cases he
  have hmono : ∀ m ≤ 2, ∀ n ≤ 2, m ≤ n → [1, 2, 7].getD m 0 ≤ [1, 2, 7].getD n 0 := by decide
  rw [hrank he, hrank he']
  exact hmono _ e.ownerRank_le _ e'.ownerRank_le hle

namespace Archives

variable {H : BlockHistory E} {g : PublicKey} {blocks : List ArchivedBlock} {L : Ledger}
  {lib : Backend E}

theorem map_event (h : Archives H g blocks) :
    (placedEvents blocks).map PlacedEvent.event = MinaGuard.published g H.actions := by
  rw [← BlockHistory.published_actions, ← h.published, List.map_map]
  rfl

theorem map_ownerEvent (h : Archives H g blocks) :
    (placedOwnerEvents blocks).map PlacedEvent.event =
      (MinaGuard.published g H.actions).filter Event.isOwnerEvent := by
  rw [← h.map_event, List.filter_map]
  rfl

theorem emitted (h : Archives H g blocks) (lib : Backend E) {x : PlacedEvent}
    (hx : x ∈ placedEvents blocks) : (x.chainEvent lib.base58).Emitted lib x.event := by
  obtain ⟨b, hb, hx⟩ := List.mem_flatMap.mp hx
  obtain ⟨t, ht, hx⟩ := List.mem_flatMap.mp hx
  obtain ⟨event, -, rfl⟩ := List.mem_map.mp hx
  exact ⟨b, t.info, h.plain b hb t ht, rfl⟩

/-- The fingerprints of placed events tell the events apart. -/
theorem fingerprint_inj (h : Archives H g blocks) {address : String} {x y : PlacedEvent}
    (hx : x ∈ placedEvents blocks) (hy : y ∈ placedEvents blocks)
    (heq : fingerprintEvent address (x.chainEvent lib.base58) =
      fingerprintEvent address (y.chainEvent lib.base58)) : x.event = y.event := by
  obtain ⟨b, info, hinfo, hb⟩ := h.emitted lib hx
  obtain ⟨b', info', hinfo', hb'⟩ := h.emitted lib hy
  rw [hb, hb'] at heq
  exact fingerprintEvent_inj hinfo hinfo' heq

/-- The rows that mirror the blocks say what the events say about the owners. -/
theorem filterMap_ownerWord? (h : Archives H g blocks) :
    (ownerChainEvents lib blocks).filterMap (ChainEvent.ownerWord? lib) =
      (ownerWords (MinaGuard.published g H.actions)).map fun w ↦
        (lib.base58.toBase58 w.1, w.2) := by
  have hword : ∀ x ∈ placedOwnerEvents blocks,
      (x.chainEvent lib.base58).ownerWord? lib =
        x.event.ownerWord?.map fun w ↦ (lib.base58.toBase58 w.1, w.2) := fun x hx ↦
    (h.emitted lib (List.mem_of_mem_filter hx)).ownerWord?
  have hwords : ownerWords (MinaGuard.published g H.actions) =
      (placedOwnerEvents blocks).filterMap fun x ↦ x.event.ownerWord? := by
    unfold ownerWords placedOwnerEvents
    rw [← h.map_event, List.filterMap_map, List.filterMap_filter]
    refine List.filterMap_congr fun x _ ↦ ?_
    cases howner : x.event.isOwnerEvent with
    | true => rfl
    | false => exact Event.ownerWord?_eq_none howner
  rw [ownerChainEvents_eq, List.filterMap_map, hwords, List.map_filterMap]
  exact List.filterMap_congr hword

/-- While no owner was changed too often, the events about owners can be mirrored. -/
theorem ownerEvents (h : Archives H g blocks) (run : (ledgerSystem T guards).Run H.actions L)
    (hg : g ∈ guards) (lib : Backend E) (address : String)
    (hnonce : ∀ v, replay g H.actions = .active v → v.configNonce < 2 ^ 31) :
    OwnerEvents lib address (ownerChainEvents lib blocks) := by
  have hsaid := Run.ownersSaid run hg
  have hevents := h.map_ownerEvent
  rw [ownerChainEvents_eq]
  cases hphase : replay g H.actions with
  | active v =>
      rw [hphase] at hsaid
      have hmem {x : PlacedEvent} (hx : x ∈ placedOwnerEvents blocks) :
          x ∈ placedEvents blocks ∧ x.event.isOwnerEvent = true := List.mem_filter.mp hx
      refine
        { emitted := ?_
          distinct := ?_
          ordered := ?_
          first := ?_ }
      · rintro _ he
        obtain ⟨x, hx, rfl⟩ := List.mem_map.mp he
        have hpublished : x.event ∈ MinaGuard.published g H.actions := by
          rw [← h.map_event]
          exact List.mem_map_of_mem (hmem hx).1
        have hlt := hnonce v hphase
        exact ⟨x.event, h.emitted lib (hmem hx).1, (hmem hx).2,
          (hsaid.small _ hpublished).mono (by omega)⟩
      · have hdistinct := hsaid.distinct
        rw [← hevents] at hdistinct
        rw [List.map_map]
        refine List.pairwise_map.mpr ((List.pairwise_map.mp hdistinct).imp_of_mem ?_)
        exact fun hx hy hne heq ↦ hne (h.fingerprint_inj (hmem hx).1 (hmem hy).1 heq)
      · have hranked := hsaid.ranked
        rw [← hevents] at hranked
        have hheights := BlockHistory.ordered_published (H := H) (g := g)
        rw [← h.published] at hheights
        have hboth := ((List.pairwise_map.mp hheights).filter fun x ↦ x.event.isOwnerEvent).and
          (List.pairwise_map.mp hranked)
        refine List.pairwise_map.mpr (hboth.imp_of_mem ?_)
        rintro x y hx hy ⟨hheight, hrank⟩
        have htype := typeRank_mono (hmem hx).2 (hmem hy).2 hrank
        change x.block.height * 100 + typeRank x.event.name ≤
          y.block.height * 100 + typeRank y.event.name
        dsimp only at hheight
        omega
      · intro e rest heq
        obtain ⟨e', back, hfirst, hsetup⟩ := hsaid.setup
        cases howners : placedOwnerEvents blocks with
        | nil =>
            rw [howners] at heq
            cases heq
        | cons x xs =>
            rw [howners] at heq hevents
            obtain rfl := (List.cons.inj heq).1
            have hevent : x.event = e' := (List.cons.inj (hevents.trans hfirst)).1
            change x.event.name = "setup"
            rw [hevent]
            cases e' <;> first | rfl | cases hsetup
  | _ =>
      rw [hphase] at hsaid
      have hnone : placedOwnerEvents blocks = [] := by
        rw [filter_plain fun e he ↦ Event.plain_of_reservation (hsaid e he)] at hevents
        exact List.map_eq_nil_iff.mp hevents
      rw [hnone]
      exact ⟨nofun, List.nodup_nil, List.Pairwise.nil, nofun⟩

/-- The event log has a row for every configuration after the first. -/
theorem configNonce_le (h : Archives H g blocks) (run : (ledgerSystem T guards).Run H.actions L)
    (hg : g ∈ guards) {address : String} {db : Database}
    (hrecorded : ∀ b ∈ blocks, ∀ e ∈ b.chainEvents lib.base58,
      db.isRecorded (fingerprintEvent address e) = true)
    {v : Vault} (hv : replay g H.actions = .active v) :
    v.configNonce ≤ db.eventRaws.length := by
  obtain ⟨said, hnodup, hsubset, hle⟩ := Run.exists_configNonce_le run hg hv
  have hplaced : ∀ e ∈ said, ∃ x ∈ placedEvents blocks, x.event = e := by
    intro e he
    have hmem := hsubset he
    rw [← h.map_event] at hmem
    exact List.mem_map.mp hmem
  choose x hx hevent using hplaced
  have hrows : ∀ y ∈ placedEvents blocks,
      fingerprintEvent address (y.chainEvent lib.base58) ∈
        db.eventRaws.map Db.EventRaw.fingerprint := by
    intro y hy
    have hchain : y.chainEvent lib.base58 ∈ blocks.flatMap fun b ↦ b.chainEvents lib.base58 := by
      rw [flatMap_chainEvents]
      exact List.mem_map_of_mem hy
    obtain ⟨b, hb, he⟩ := List.mem_flatMap.mp hchain
    exact db.isRecorded_iff.mp (hrecorded b hb _ he)
  have hfingerprints : (said.attach.map fun e ↦
      fingerprintEvent address ((x e.1 e.2).chainEvent lib.base58)).Nodup := by
    refine hnodup.attach.map fun e e' heq ↦ Subtype.ext ?_
    rw [← hevent e.1 e.2, ← hevent e'.1 e'.2]
    exact h.fingerprint_inj (hx _ _) (hx _ _) heq
  have hrecordedRow : ∀ f ∈ said.attach.map fun e ↦
      fingerprintEvent address ((x e.1 e.2).chainEvent lib.base58),
      f ∈ db.eventRaws.map Db.EventRaw.fingerprint := by
    intro f hf
    obtain ⟨e, -, rfl⟩ := List.mem_map.mp hf
    exact hrows _ (hx e.1 e.2)
  have hlength := (List.subperm_of_subset hfingerprints hrecordedRow).length_le
  rw [List.length_map, List.length_map, List.length_attach] at hlength
  exact hle.trans hlength

end Archives

/-- The vault is tracked, and nothing is known of it. -/
structure Database.Untold (db : Database) (contractId : ℕ) (address : String) : Prop where
  contract : contractId ∈ db.contracts.map Db.Contract.id
  memberships : db.membershipsOf contractId = []
  configs : ∀ row ∈ db.contractConfigs, row.contractId ≠ contractId
  unrecorded : ∀ e, db.isRecorded (fingerprintEvent address e) = false

theorem Database.Untold.mirrored {lib : Backend E} {contractId : ℕ} {address : String}
    {db : Database} (h : db.Untold contractId address) (all : List ChainEvent) (floor : ℕ) :
    OwnersMirrored lib contractId address all db [] floor 0 where
  contract := h.contract
  words := by
    rw [h.memberships]
    rfl
  ordered := by
    rw [h.memberships]
    exact List.Pairwise.nil
  before := by
    rw [h.memberships]
    exact nofun
  snapshots := ⟨fun row hrow heq ↦ absurd heq (h.configs row hrow),
    fun row hrow heq ↦ absurd heq (h.configs row hrow)⟩
  threshold := fun hne ↦ absurd rfl hne
  recorded := fun e _ hrec ↦ by
    rw [h.unrecorded] at hrec
    cases hrec

/-- `owners` is the owner set of the guard; before the setup there is none. -/
def HasOwners (T : Transcript E) (L : Ledger) (g : PublicKey) (owners : List PublicKey) : Prop :=
  (L.state g).ownersCommitment = 0 ∧ owners = [] ∨
    CommitsOwners T (L.state g).ownersCommitment owners

/-- The events of a run say who the owners of the guard are. -/
theorem Run.exists_hasOwners {as : List (Action E)} {L : Ledger} {g : PublicKey}
    (run : (ledgerSystem T guards).Run as L) (hg : g ∈ guards) :
    ∃ owners, HasOwners T L g owners ∧ owners.Nodup ∧
      ∀ k, k ∈ owners ↔ lastWord (ownerWords (published g as)) k = some true := by
  have hsaid := Run.ownersSaid run hg
  by_cases hinit : (L.state g).ownersCommitment = 0
  · have hall : ∀ e ∈ published g as, e.isReservation = true := by
      rcases (Run.refines run hg).inactive hinit with hph | ⟨b, c, hph, -⟩
      · rwa [hph] at hsaid
      · rwa [hph] at hsaid
    refine ⟨[], .inl ⟨hinit, rfl⟩, List.nodup_nil, fun k ↦ ?_⟩
    rw [ownerWords_plain fun e he ↦ Event.plain_of_reservation (hall e he)]
    simp
  · obtain ⟨v, hv, hstate, hinvariant⟩ := Run.active run hg hinit
    rw [hv] at hsaid
    refine ⟨v.owners, .inr ?_, hinvariant.governed.coherent.nodup, hsaid.owners⟩
    rw [hstate]
    exact ⟨rfl, hinvariant.chained⟩

/-- However the blocks of a guard are cut into windows, the routes list its owners,
each once. -/
theorem owner_list_mirror {H : BlockHistory E} {L : Ledger} {g : PublicKey}
    (run : (ledgerSystem T guards).Run H.actions L) (hg : g ∈ guards) {lib : Backend E}
    {config : BackendConfig} {contractId : ℕ} {windows : List (List ArchivedBlock)}
    {db db' : Database} (harchives : Archives H g windows.flatten)
    (huntold : db.Untold contractId (lib.base58.toBase58 g))
    (hsyncs : Syncs lib config contractId (lib.base58.toBase58 g) windows db db')
    (hids : db'.eventRaws.length < 2 ^ 31) (createdAt : Db.OwnerMembership → ℕ) :
    ∃ owners, HasOwners T L g owners ∧ owners.Nodup ∧
      ((listOwners createdAt db' contractId (some true)).map OwnerRecord.address).Perm
        (owners.map lib.base58.toBase58) ∧
      ∀ contractIds c,
        (c ∈ contractIds →
          ((listOwnersByContract createdAt db' contractIds (some true)).get? c).getD [] =
            listOwners createdAt db' c (some true)) ∧
        (c ∉ contractIds →
          (listOwnersByContract createdAt db' contractIds (some true)).get? c = none) := by
  have harchived := harchives.toArchived
  have hnonce : ∀ v, replay g H.actions = .active v → v.configNonce < 2 ^ 31 := fun v hv ↦
    (harchives.configNonce_le run hg (hsyncs.isRecorded harchived) hv).trans_lt hids
  have hall := harchives.ownerEvents run hg lib (lib.base58.toBase58 g) hnonce
  obtain ⟨ceil, hceil⟩ : ∃ ceil, ∀ b ∈ windows.flatten, b.height < ceil := by
    obtain ⟨n, hn⟩ := (List.finite_toSet (windows.flatten.map ArchivedBlock.height)).bddAbove
    exact ⟨n + 1, fun b hb ↦ Nat.lt_succ_of_le (hn (List.mem_map_of_mem hb))⟩
  have hmirrored := hsyncs.mirrored harchived hall (List.prefix_refl _)
    (huntold.mirrored (ownerChainEvents lib windows.flatten)) hceil
  obtain ⟨owners, howners, hnodup, hwords⟩ := Run.exists_hasOwners run hg
  refine ⟨owners, howners, hnodup, ?_, fun contractIds c ↦
    ⟨get?_listOwnersByContract _, listOwnersByContract_of_notMem _⟩⟩
  refine (List.perm_ext_iff_of_nodup (nodup_collapseOwners _)
    (hnodup.map lib.base58.toBase58_injective)).mpr fun address ↦ ?_
  refine (mem_listOwners hmirrored.ordered).trans ?_
  have hsaid := hmirrored.words.trans harchives.filterMap_ownerWord?
  unfold Database.membershipsOf at hsaid
  rw [hsaid, lastWord_map_eq_some_iff lib.base58.toBase58_injective, List.mem_map]
  exact exists_congr fun k ↦ and_congr_left' (hwords k).symm

namespace Walkthrough

theorem rootWindows_archives : Archives history root rootWindows.flatten where
  toArchived := rootWindows_archived
  published := by decide +kernel

theorem tracked_untold : tracked.Untold 1 (keyText root) where
  contract := List.mem_cons_self
  memberships := rfl
  configs := fun _ hrow ↦ absurd hrow List.not_mem_nil
  unrecorded := fun _ ↦ rfl

theorem rootWindows_events : (rootWindows.map fun window ↦
    (window.flatMap fun b ↦ b.chainEvents backend.base58).length).sum = 47 := by
  decide +kernel

theorem root_synced : ∃ db, Syncs backend backendConfig 1 (keyText root) rootWindows tracked db ∧
    db.eventRaws.length < 2 ^ 31 := by
  have hwindows : ∀ window ∈ rootWindows, ∃ fromHeight toHeight,
      OneRequest window fromHeight toHeight := by
    refine List.forall_mem_cons.mpr ⟨⟨3, 4, ?_⟩, List.forall_mem_singleton.mpr ⟨5, 9, ?_⟩⟩
    · exact ⟨by decide, by decide, by decide, archivedBlocks_inside _ _ (by decide)⟩
    · exact ⟨by decide, by decide, by decide, archivedBlocks_inside _ _ (by decide)⟩
  have hhashes : ∀ window ∈ rootWindows, DistinctHashes window :=
    List.forall_mem_cons.mpr ⟨⟨by decide +kernel, by decide +kernel⟩,
      List.forall_mem_singleton.mpr ⟨by decide +kernel, by decide +kernel⟩⟩
  have hproved : ∀ window ∈ rootWindows, ∀ b ∈ window, ∀ t ∈ b.transactions, t.Proved :=
    List.forall_mem_cons.mpr ⟨archivedBlocks_proved _ _ _,
      List.forall_mem_singleton.mpr (archivedBlocks_proved _ _ _)⟩
  obtain ⟨db, hsyncs, -, hlength⟩ := exists_syncs backend backendConfig 1 (keyText root)
    tracked_keyed rfl rootWindows hproved hhashes hwindows
  rw [rootWindows_events] at hlength
  exact ⟨db, hsyncs, hlength.trans_lt (by decide)⟩

/-- The third owner is added between the two windows. -/
theorem root_owners_listed : ∃ db owners,
    Syncs backend backendConfig 1 (keyText root) rootWindows tracked db ∧
    HasOwners tables.transcript added.ledger root owners ∧
    ((listOwners (fun _ ↦ 0) db 1 (some true)).map OwnerRecord.address).Perm
      (owners.map keyText) := by
  obtain ⟨db, hsyncs, hids⟩ := root_synced
  obtain ⟨owners, howners, -, hlisted, -⟩ := owner_list_mirror (H := history) run_added
    (List.mem_cons_self : root ∈ guards) rootWindows_archives tracked_untold hsyncs hids
    fun _ ↦ 0
  exact ⟨db, owners, hsyncs, howners, hlisted⟩

end Walkthrough

end MinaGuard
