import MinaGuard.Clients.StoreCacheSpec
import MinaGuard.Properties.Approvals
import MinaGuard.Properties.Incremental

/-!
# The store cache returns verified stores

Whatever the sources answer and however the calls take turns, the stores a call
returns have the roots of the chain state its load was given last, and no caller
can change what the cache or another caller has.
-/

namespace MinaGuard

open Foundations

variable {E : Env} (B : Base58 E) {s s' : StoreCache} {a : CacheAction} {as : List CacheAction}

/-- The last chain state that the load of call `n` was given. -/
def LastChain (as : List CacheAction) (n : ℕ) (chain : ChainState) : Prop :=
  ∃ front back, as = front ++ .chain n (some chain) :: back ∧ ∀ answer, .chain n answer ∉ back

theorem LastChain.last (as : List CacheAction) (n : ℕ) (chain : ChainState) :
    LastChain (as ++ [.chain n (some chain)]) n chain :=
  ⟨as, [], rfl, fun _ ↦ List.not_mem_nil⟩

theorem LastChain.append {n : ℕ} {chain : ChainState} (h : LastChain as n chain)
    (ha : ∀ answer, a ≠ .chain n answer) : LastChain (as ++ [a]) n chain := by
  obtain ⟨front, back, rfl, hback⟩ := h
  refine ⟨front, back ++ [a], by simp, fun answer hmem ↦ ?_⟩
  rcases List.mem_append.mp hmem with hmem | hmem
  · exact hback answer hmem
  · exact ha answer (List.mem_singleton.mp hmem).symm

namespace StoreCache

/-- Stores that were verified belong to the cache, or to the call that returned them. -/
theorem holds_of_verified {n : ℕ} {call : GetCall} (hcall : s.calls[n]? = some call)
    {refs : StoreRefs} {chain : ChainState} (h : call.phase.verified = some (refs, chain)) :
    ∃ x, (∀ i ∈ refs.addresses, s.Holds x i) ∧ (x = none ∨ x = some n) := by
  cases hphase : call.phase with
  | writing stores chain' =>
      rw [hphase] at h
      obtain ⟨rfl, -⟩ := Prod.mk.inj (Option.some.inj h)
      refine ⟨none, fun i hi ↦ ⟨stores, inUse_of_held hcall ?_, hi⟩, .inl rfl⟩
      rw [hphase]
      exact List.mem_singleton_self stores
  | settled result =>
      rw [hphase] at h
      refine ⟨some n, fun i hi ↦ ⟨refs, chain, ⟨call, hcall, ?_⟩, hi⟩, .inr rfl⟩
      rw [hphase]
      exact congrArg some h
  | finished result =>
      rw [hphase] at h
      refine ⟨some n, fun i hi ↦ ⟨refs, chain, ⟨call, hcall, ?_⟩, hi⟩, .inr rfl⟩
      rw [hphase]
      exact congrArg some h
  | _ =>
      rw [hphase] at h
      cases h

/-- Call `n` has its result and changed a container of it. -/
def Changed (as : List CacheAction) (n : ℕ) (call : GetCall) : Prop :=
  (∃ result, call.phase = .finished result) ∧ ∃ address container, .mutate n address container ∈ as

/-- Stores that were verified match the last chain state. -/
def KeepsVerified (E : Env) (as : List CacheAction) (s : StoreCache) : Prop :=
  ∀ n call refs chain, s.calls[n]? = some call → call.phase.verified = some (refs, chain) →
    LastChain as n chain ∧ (Changed as n call ∨ (refs.contents s.heap).Verified E chain)

theorem keepsVerified_step (hsep : Heap.Separated s.heap s.Holds)
    (hverified : KeepsVerified E as s) (h : step B s a = some s') :
    KeepsVerified E (as ++ [a]) s' := by
  -- a call that the step is not about, unless its caller changes what it has
  have hkept (m : ℕ) (call : GetCall) (refs : StoreRefs) (chain : ChainState)
      (hcall : s.calls[m]? = some call) (hphase : call.phase.verified = some (refs, chain))
      (hchain : ∀ answer, a ≠ .chain m answer) :
      LastChain (as ++ [a]) m chain ∧
        (Changed (as ++ [a]) m call ∨ (refs.contents s'.heap).Verified E chain) := by
    obtain ⟨hlast, hverified⟩ := hverified m call refs chain hcall hphase
    refine ⟨hlast.append hchain, ?_⟩
    rcases hverified with ⟨hfinished, address, container, hmem⟩ | hverified
    · exact .inl ⟨hfinished, address, container, List.mem_append_left _ hmem⟩
    · by_cases hchanged : ∃ address container, a = .mutate m address container
      · obtain ⟨address, container, rfl⟩ := hchanged
        obtain ⟨call', hcall', hmutate⟩ := Option.bind_eq_some_iff.mp h
        obtain rfl := Option.some.inj (hcall.symm.trans hcall')
        obtain ⟨⟨refs', chain', hfinished, -⟩, -⟩ := mutate_ok hmutate
        exact .inl ⟨⟨_, hfinished⟩, address, container, by simp⟩
      · obtain ⟨x, hholds, hx⟩ := holds_of_verified hcall hphase
        rw [contents_step B hsep h hholds]
        · exact .inr hverified
        · rintro k address container rfl rfl
          rcases hx with hx | hx
          · cases hx
          · obtain rfl := Option.some.inj hx
            exact hchanged ⟨address, container, rfl⟩
  intro m call refs chain hcall hphase
  rcases step_cases B h with ⟨source, rfl, rfl⟩ | ⟨n, call', phase, hcall', hmoved⟩ |
    ⟨n, address, container, rfl, -, rfl⟩
  · rcases getElem?_get hcall with hcall | ⟨previous, rfl⟩
    · exact hkept m call refs chain hcall hphase nofun
    · cases hphase
  · rcases getElem?_moved hmoved hcall with ⟨rfl, rfl⟩ | ⟨hne, hcall⟩
    · rcases hmoved.verified refs chain hphase with ⟨rfl, hverified⟩ |
        ⟨hchain, hunfinished, old, hold, hcontents⟩
      · exact ⟨.last as m chain, .inr hverified⟩
      · obtain ⟨hlast, hold⟩ := hverified m call' old chain hcall' hold
        refine ⟨hlast.append hchain, .inr ?_⟩
        rw [hcontents]
        exact hold.resolve_left fun hchanged ↦ hchanged.1.elim hunfinished
    · exact hkept m call refs chain hcall hphase fun answer ha ↦
        hne (hmoved.chain m answer ha)
  · exact hkept m call refs chain hcall hphase nofun

theorem keepsVerified (run : (cacheSystem B).Run as s) : KeepsVerified E as s := by
  refine TransitionSystem.Run.invariant (KeepsVerified E) ?_ ?_ run
  · rintro s rfl n call refs chain hcall
    cases hcall
  · exact fun _ _ _ _ hrun hverified h ↦ keepsVerified_step B (separated B hrun) hverified h

end StoreCache

def GuardState.chainState (account : GuardState) : ChainState where
  ownersCommitment := some (fieldText account.ownersCommitment)
  approvalRoot := some (fieldText account.approvalRoot)
  voteNullifierRoot := some (fieldText account.voteNullifierRoot)

/-- What a client has hashed to get the roots. -/
structure RebuiltStores.Recorded (T : Transcript E) (stores : RebuiltStores) : Prop where
  owners : ∀ q ∈ ownerChainInputs E stores.ownerStore.owners, q ∈ T.hashed
  approvals : stores.approvalStore.map ∈ T.maps
  nullifiers : stores.nullifierStore.map ∈ T.maps

section Guards

variable {T : Transcript E} {guards : Set PublicKey} {L : Ledger} {bs : List (Action E)}
  {g : PublicKey} {stores : RebuiltStores}

/-- Stores with the roots of a guard have its owners in order and all its leaves. -/
theorem RebuiltStores.Verified.eq_of_guard (run : (ledgerSystem T guards).Run bs L)
    (hg : g ∈ guards) (hinit : (L.state g).ownersCommitment ≠ 0)
    (hrecorded : stores.Recorded T) (h : stores.Verified E (L.state g).chainState) :
    ∃ v, replay g bs = .active v ∧ stores.ownerStore.owners = v.owners ∧
      (∀ hash, stores.approvalStore.map hash = v.approvalMap E hash) ∧
      ∀ κ, stores.nullifierStore.map κ = v.nullifierMap E κ := by
  obtain ⟨v, hv, hstate, hinvariant⟩ := Run.active run hg hinit
  obtain ⟨howners, happrovals, hnullifiers⟩ := h
  rw [hstate] at howners happrovals hnullifiers
  have hchain := fieldText_injective (Option.some.inj howners)
  have hroot := fieldText_injective (Option.some.inj happrovals)
  have hvotes := fieldText_injective (Option.some.inj hnullifiers)
  have hmap : CommitsMap T (v.encode E).approvalRoot stores.approvalStore.map :=
    ⟨hrecorded.approvals, hroot.symm⟩
  have hmap' : CommitsMap T (v.encode E).voteNullifierRoot stores.nullifierStore.map :=
    ⟨hrecorded.nullifiers, hvotes.symm⟩
  exact ⟨v, hv, (T.computeOwnerChain_inj hinvariant.chained hrecorded.owners hchain).symm,
    congrFun (hmap.unique ⟨hinvariant.approvals_mem, rfl⟩),
    congrFun (hmap'.unique ⟨hinvariant.nullifiers_mem, rfl⟩)⟩

end Guards

/-- Every result is an error or stores with the roots of the chain state that its load
was given last, so with the owners and leaves of a guard in that state; a load that
throws leaves nothing in the cache; and who changes a result changes nothing else. -/
theorem store_cache_correct (run : (cacheSystem B).Run as s)
    (hstep : (cacheSystem B).step s a s') :
    (∀ n call refs chain, s.calls[n]? = some call →
      call.phase.result = some (some (refs, chain)) → ¬StoreCache.Changed as n call →
        LastChain as n chain ∧ (refs.contents s.heap).Verified E chain ∧
          ∀ {T : Transcript E} {guards bs L g}, (ledgerSystem T guards).Run bs L → g ∈ guards →
            (L.state g).ownersCommitment ≠ 0 → chain = (L.state g).chainState →
            (refs.contents s.heap).Recorded T →
              ∃ v, replay g bs = .active v ∧
                (refs.contents s.heap).ownerStore.owners = v.owners ∧
                (∀ hash, (refs.contents s.heap).approvalStore.map hash = v.approvalMap E hash) ∧
                ∀ κ, (refs.contents s.heap).nullifierStore.map κ = v.nullifierMap E κ) ∧
    (∀ (n : ℕ) (call' : GetCall), s'.calls[n]? = some call' → call'.phase.result = some none →
      (∃ call : GetCall, s.calls[n]? = some call ∧ call.phase.result = some none) ∨
        s'.cache.get? call'.source.key = none) ∧
    ∀ n address container, a = .mutate n address container →
      s'.cache = s.cache ∧
        (∀ refs, s.InUse refs → refs.contents s'.heap = refs.contents s.heap) ∧
        ∀ m refs chain, m ≠ n → s.Returned m refs chain →
          refs.contents s'.heap = refs.contents s.heap := by
  refine ⟨?_, ?_, ?_⟩
  · intro n call refs chain hcall hresult hchanged
    obtain ⟨hlast, hverified⟩ := StoreCache.keepsVerified B run n call refs chain hcall
      (StoreCache.verified_of_result hresult)
    have hverified := hverified.resolve_left hchanged
    refine ⟨hlast, hverified, ?_⟩
    rintro T guards bs L g hrun hg hinit rfl hrecorded
    exact hverified.eq_of_guard hrun hg hinit hrecorded
  · intro n call' hcall' hresult
    rcases StoreCache.step_cases B hstep with ⟨source, -, rfl⟩ |
      ⟨m, call, phase, hcall, hmoved⟩ | ⟨m, address, container, -, -, rfl⟩
    · rcases StoreCache.getElem?_get hcall' with hcall | ⟨previous, rfl⟩
      · exact .inl ⟨call', hcall, hresult⟩
      · cases hresult
    · rcases StoreCache.getElem?_moved hmoved hcall' with ⟨rfl, rfl⟩ | ⟨-, hold⟩
      · exact (hmoved.thrown hresult).imp (fun hold ↦ ⟨call, hcall, hold⟩) id
      · exact .inl ⟨call', hold, hresult⟩
    · exact .inl ⟨call', hcall', hresult⟩
  · rintro n address container rfl
    have hsep := StoreCache.separated B run
    have hother {x : Option ℕ} (hx : x ≠ some n) (k : ℕ) (address' : ℕ) (container' : Container)
        (heq : CacheAction.mutate n address container = .mutate k address' container') :
        x ≠ some k := by
      obtain ⟨rfl, -⟩ := CacheAction.mutate.inj heq
      exact hx
    refine ⟨?_, ?_, ?_⟩
    · obtain ⟨call, -, hmutate⟩ := Option.bind_eq_some_iff.mp hstep
      rw [(StoreCache.mutate_ok hmutate).2]
    · intro refs huse
      exact StoreCache.contents_step B hsep hstep (x := none) (fun i hi ↦ ⟨refs, huse, hi⟩)
        (hother nofun)
    · intro m refs chain hne hreturned
      exact StoreCache.contents_step B hsep hstep (x := some m)
        (fun i hi ↦ ⟨refs, chain, hreturned, hi⟩) (hother fun heq ↦ hne (Option.some.inj heq))

/-- One call has returned: the cache has the stores, the caller a copy. -/
def afterFirstCall (source : CheckpointSource) (events : List IndexedEvent)
    (stores : RebuiltStores) (chain : ChainState) : StoreCache where
  heap := stores.containers ++
    (StoreRefs.startingAt 0).addresses.map (Heap.read stores.containers)
  cache := [(source.key, ⟨.startingAt 0, advanceThrough none events⟩)]
  pending := []
  calls := [⟨source, .finished (some (.startingAt 6, chain))⟩]

/-- The first call, where nothing is stored and the source answers as it should. -/
theorem run_firstCall {source : CheckpointSource} {events : List IndexedEvent}
    {stores : RebuiltStores} {chain : ChainState} (partialStores : RebuiltStores)
    (hrebuild : rebuildStores B events none = .ok stores) (hverified : stores.Verified E chain) :
    (cacheSystem B).Run
      [.get source, .load 0, .read 0 none, .events 0 (some events) partialStores,
        .chain 0 (some chain), .write 0, .finish 0]
      (afterFirstCall source events stores chain) := by
  -- the states around the answer with the chain state
  let checking : StoreCache := ⟨stores.containers, [], [(source.key, 0)],
    [⟨source, .checking .full events (.startingAt 0)⟩]⟩
  let written : StoreCache :=
    { afterFirstCall source events stores chain with
      pending := [(source.key, 0)]
      calls := [⟨source, .settled (some (.startingAt 6, chain))⟩] }
  have hevents : StoreCache.step B ⟨[], [], [(source.key, 0)], [⟨source, .fetching .full⟩]⟩
      (.events 0 (some events) partialStores) = some checking := by
    simp only [StoreCache.step, List.getElem?_cons_zero, Option.bind_some, StoreCache.events,
      Attempt.accepts, StoreCache.rebuild, rebuildStoresIn, Option.map_none, hrebuild]
    rfl
  have hverify : checking.verify E (.startingAt 0) chain = .ok () :=
    StoreCache.verify_ok.mpr hverified
  have hchain : StoreCache.step B checking (.chain 0 (some chain)) =
      some { checking with
        cache := [(source.key, ⟨.startingAt 0, advanceThrough none events⟩)]
        calls := [⟨source, .writing (.startingAt 0) chain⟩] } := by
    have hcall : checking.calls[0]? = some ⟨source, .checking .full events (.startingAt 0)⟩ := rfl
    simp only [StoreCache.step, hcall, Option.bind_some, StoreCache.chain, hverify]
    rfl
  have hfinish : StoreCache.step B written (.finish 0) =
      some (afterFirstCall source events stores chain) := by
    simp [StoreCache.step, StoreCache.finish, written, afterFirstCall, InsertionMap.get?,
      InsertionMap.erase, StoreCache.setPhase]
  exact ⟨⟨[], [], [], []⟩, rfl, _, rfl, _, rfl, _, rfl, _, hevents, _, hchain, written, rfl, _,
    hfinish, rfl⟩

namespace Walkthrough

def vaultSource : CheckpointSource where
  key := "vault"
  scope := ⟨.testnet, base58.toBase58 root⟩

def vaultEvents : List IndexedEvent := (history.published root).map (indexed base58)

/-- Where a rebuild throws, the stores have got nowhere. -/
def noStores : RebuiltStores := ⟨⟨[]⟩, .empty, .empty, ⟨none, none⟩⟩

def vaultChain : ChainState := (added.ledger.state root).chainState

/-- All events for the first call. -/
def cacheActions : List CacheAction :=
  [.get vaultSource, .load 0, .read 0 none, .events 0 (some vaultEvents) noStores,
    .chain 0 (some vaultChain), .write 0, .finish 0]

/-- The caller then drops the owners of its result; the cached ones stay. -/
theorem cached_untouched :
    ∃ s s' v, (cacheSystem base58).Run cacheActions s ∧
      (cacheSystem base58).step s (.mutate 0 6 (.owners [])) s' ∧
      LastChain cacheActions 0 vaultChain ∧
      ((StoreRefs.startingAt 6).contents s.heap).Verified tables.env vaultChain ∧
      replay root history.actions = .active v ∧
      ((StoreRefs.startingAt 6).contents s.heap).ownerStore.owners = v.owners ∧
      s'.cache = s.cache ∧
      (StoreRefs.startingAt 0).contents s'.heap = (StoreRefs.startingAt 0).contents s.heap := by
  have hinit : (added.ledger.state root).ownersCommitment ≠ 0 := by decide +kernel
  obtain ⟨v, hv, hstate, hinvariant⟩ := Run.active run_added List.mem_cons_self hinit
  obtain ⟨stores, hrebuild, ⟨w, hw, howners⟩, ⟨events, hshows, hevents⟩, -⟩ :=
    rebuildStores_reproduces base58 (H := history) run_added List.mem_cons_self rebuild_recorded
      hv fun _ ↦ Iff.rfl
  obtain rfl := Phase.active.inj (hw.symm.trans hv)
  obtain ⟨hmap, hvotes⟩ := hshows.maps_eq (Run.mirrored run_added List.mem_cons_self) hevents
  rw [hv] at hmap hvotes
  have hverified : stores.Verified tables.env vaultChain := by
    unfold vaultChain RebuiltStores.Verified
    rw [hstate, howners, hmap, hvotes]
    exact ⟨rfl, rfl, rfl⟩
  have hcontents : (StoreRefs.startingAt 6).contents
      (afterFirstCall vaultSource vaultEvents stores vaultChain).heap = stores :=
    (StoreRefs.contents_clone stores.containers (.startingAt 0)).trans
      (StoreRefs.contents_startingAt [] stores)
  have hrecorded : stores.Recorded tables.transcript := by
    refine ⟨?_, ?_, ?_⟩
    · rw [howners]
      exact hinvariant.chained
    · rw [hmap]
      exact hinvariant.approvals_mem
    · rw [hvotes]
      exact hinvariant.nullifiers_mem
  have hunchanged : ¬StoreCache.Changed cacheActions 0
      ⟨vaultSource, .finished (some (.startingAt 6, vaultChain))⟩ := by
    rintro ⟨-, address, container, hmem⟩
    simp [cacheActions] at hmem
  have hrun : (cacheSystem base58).Run cacheActions
      (afterFirstCall vaultSource vaultEvents stores vaultChain) :=
    run_firstCall base58 noStores hrebuild hverified
  have hstep : (cacheSystem base58).step (afterFirstCall vaultSource vaultEvents stores vaultChain)
      (.mutate 0 6 (.owners [])) { afterFirstCall vaultSource vaultEvents stores vaultChain with
        heap := (afterFirstCall vaultSource vaultEvents stores vaultChain).heap.set 6
          (.owners []) } := rfl
  obtain ⟨hreturned, -, hothers⟩ := store_cache_correct base58 hrun hstep
  obtain ⟨hlast, hmatch, hguard⟩ := hreturned 0 _ _ _ rfl rfl hunchanged
  obtain ⟨v, hv, howners', -⟩ := hguard run_added List.mem_cons_self hinit rfl
    (hcontents.symm ▸ hrecorded)
  obtain ⟨hcache, huse, -⟩ := hothers 0 _ _ rfl
  exact ⟨_, _, v, hrun, hstep, hlast, hmatch, hv, howners', hcache,
    huse _ (.inl ⟨_, List.mem_cons_self, rfl⟩)⟩

end Walkthrough

end MinaGuard
