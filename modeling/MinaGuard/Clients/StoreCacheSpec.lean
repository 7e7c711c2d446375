import MinaGuard.Clients.CheckpointSpec
import MinaGuard.Clients.StoreCache

/-!
# What a step of the store cache does

The containers of returned stores are held by the one call that returned them,
all others by the cache and its loads.  So a load copies what it takes over, works
on its copy, and hands out a copy of what it keeps.
-/

namespace MinaGuard

open Foundations

variable {E : Env} (B : Base58 E)

namespace StoreRefs

variable {refs : StoreRefs} {heap heap' : Heap Container} {base i : ℕ}

/-- The containers are among those added. -/
def New (refs : StoreRefs) (heap heap' : Heap Container) : Prop :=
  ∀ i ∈ refs.addresses, heap.length ≤ i ∧ i < heap'.length

theorem mem_addresses_startingAt : i ∈ (startingAt base).addresses ↔ base ≤ i ∧ i < base + 6 := by
  simp only [startingAt, addresses, List.mem_cons, List.not_mem_nil, or_false]
  omega

theorem contents_congr (h : ∀ i ∈ refs.addresses, heap'.read i = heap.read i) :
    refs.contents heap' = refs.contents heap := by
  simp only [addresses, List.forall_mem_cons] at h
  obtain ⟨howners, htree, hkeys, hvotes, hnullified, hdivergent, -⟩ := h
  unfold contents
  rw [howners, htree, hkeys, hvotes, hnullified, hdivergent]

theorem contents_startingAt (heap : Heap Container) (stores : RebuiltStores) :
    (startingAt heap.length).contents (heap ++ stores.containers) = stores := by
  have hread := Heap.read_append_add (h := heap) stores.containers
  have hfirst := hread 0
  rw [Nat.add_zero] at hfirst
  unfold contents startingAt
  dsimp only
  rw [hfirst, hread 1, hread 2, hread 3, hread 4, hread 5]
  rfl

/-- A copy has what the original has. -/
theorem contents_clone (heap : Heap Container) (refs : StoreRefs) :
    (startingAt heap.length).contents (heap ++ refs.addresses.map heap.read) =
      refs.contents heap := by
  have hread := Heap.read_append_add (h := heap) (refs.addresses.map heap.read)
  have hfirst := hread 0
  rw [Nat.add_zero] at hfirst
  unfold contents startingAt
  dsimp only
  rw [hfirst, hread 1, hread 2, hread 3, hread 4, hread 5]
  rfl

theorem new_startingAt {cells : List Container} (hlength : cells.length = 6) :
    (startingAt heap.length).New heap (heap ++ cells) := by
  intro i hi
  rw [mem_addresses_startingAt] at hi
  rw [List.length_append, hlength]
  exact hi

theorem New.trans (h : refs.New heap heap') {old : Heap Container} {later : Heap Container}
    (hold : old.length ≤ heap.length) (hlater : heap'.length ≤ later.length) :
    refs.New old later := fun i hi ↦
  ⟨hold.trans (h i hi).1, (h i hi).2.trans_le hlater⟩

end StoreRefs

theorem writeMaps_extends {base heap : Heap Container} (hext : Heap.Extends base heap)
    {refs : StoreRefs} (hnew : refs.New base heap) (stores : RebuiltStores) :
    Heap.Extends base (writeMaps heap refs stores) := by
  have hge (i : ℕ) (hi : i ∈ refs.addresses) : base.length ≤ i := (hnew i hi).1
  unfold writeMaps
  refine Heap.Extends.set (.set (.set (.set hext (hge _ ?_) _) (hge _ ?_) _) (hge _ ?_) _)
    (hge _ ?_) _ <;> simp [StoreRefs.addresses]

theorem length_writeMaps (heap : Heap Container) (refs : StoreRefs) (stores : RebuiltStores) :
    (writeMaps heap refs stores).length = heap.length := by
  simp [writeMaps]

/-- A rebuild writes into new containers only, if the initial stores have these. -/
theorem rebuildStoresIn_new {base heap : Heap Container} (hext : Heap.Extends base heap)
    {events : List IndexedEvent} {initial : Option StoreRefs} {partialStores : RebuiltStores}
    (hinitial : ∀ refs ∈ initial, refs.New base heap) :
    Heap.Extends base (rebuildStoresIn B heap events initial partialStores).2 ∧
      ∀ refs ∈ (rebuildStoresIn B heap events initial partialStores).1,
        refs.New base (rebuildStoresIn B heap events initial partialStores).2 := by
  unfold rebuildStoresIn
  split
  · exact ⟨hext, by simp⟩
  · refine ⟨hext.trans (.append heap _), ?_⟩
    rintro refs hrefs
    obtain rfl := Option.some.inj hrefs
    exact (StoreRefs.new_startingAt rfl).trans hext.length_le le_rfl
  · exact ⟨writeMaps_extends hext (hinitial _ rfl) _, by simp⟩
  · next refs stores _ =>
      have hnew := hinitial refs rfl
      have hlength := length_writeMaps heap refs stores
      refine ⟨(writeMaps_extends hext hnew _).trans (.append _ _), ?_⟩
      rintro refs' hrefs' i hi
      obtain rfl := Option.some.inj hrefs'
      rw [List.length_append, hlength]
      simp only [StoreRefs.addresses, List.mem_cons, List.not_mem_nil, or_false] at hi
      have hle := hext.length_le
      have hold (j : ℕ) (hj : j ∈ refs.addresses) : base.length ≤ j ∧ j < heap.length + 2 :=
        ⟨(hnew j hj).1, (hnew j hj).2.trans (Nat.lt_add_of_pos_right two_pos)⟩
      rcases hi with rfl | rfl | rfl | rfl | rfl | rfl
      · exact ⟨hle, Nat.lt_add_of_pos_right two_pos⟩
      · exact hold _ (by simp [StoreRefs.addresses])
      · exact hold _ (by simp [StoreRefs.addresses])
      · exact hold _ (by simp [StoreRefs.addresses])
      · exact hold _ (by simp [StoreRefs.addresses])
      · exact ⟨hle.trans (Nat.le_add_right _ _), Nat.add_lt_add_left one_lt_two _⟩

/-- A complete account state passes exactly for stores with its roots. -/
theorem StoreCache.verify_ok {s : StoreCache} {stores : StoreRefs} {chain : ChainState} :
    s.verify E stores chain = .ok () ↔ (stores.contents s.heap).Verified E chain := by
  rw [← assertStoresMatchChain_ok]
  refine Check.bind_ok.trans ⟨?_, fun h ↦ ⟨(), h⟩⟩
  rintro ⟨⟨⟩, h⟩
  exact h

/-- The stores a load works on. -/
def Attempt.held : Attempt → List StoreRefs
  | .incremental cached _ => [cached.stores]
  | .full => []

namespace LoadPhase

def held : LoadPhase → List StoreRefs
  | fetching attempt => attempt.held
  | checking attempt _ stores => stores :: attempt.held
  | writing stores _ => [stores]
  | _ => []

/-- The stores that were compared with a chain state. -/
def verified : LoadPhase → Option (StoreRefs × ChainState)
  | writing stores chain => some (stores, chain)
  | settled result => result
  | finished result => result
  | _ => none

end LoadPhase

namespace StoreCache

variable {s s' : StoreCache} {n : ℕ} {call : GetCall} {phase : LoadPhase} {a : CacheAction}

/-- In the cache or in a load. -/
def InUse (s : StoreCache) (refs : StoreRefs) : Prop :=
  (∃ x ∈ s.cache, x.2.stores = refs) ∨ ∃ call ∈ s.calls, refs ∈ call.phase.held

/-- The result of a call. -/
def Returned (s : StoreCache) (n : ℕ) (refs : StoreRefs) (chain : ChainState) : Prop :=
  ∃ call, s.calls[n]? = some call ∧ call.phase.result = some (some (refs, chain))

/-- Who holds a container: a call what it has returned, the cache the rest. -/
def Holds (s : StoreCache) : Option ℕ → ℕ → Prop
  | none, i => ∃ refs, s.InUse refs ∧ i ∈ refs.addresses
  | some n, i => ∃ refs chain, s.Returned n refs chain ∧ i ∈ refs.addresses

/-- What the step of a call may do, besides giving it its next phase. -/
structure Moved (E : Env) (a : CacheAction) (n : ℕ) (call : GetCall) (phase : LoadPhase)
    (s s' : StoreCache) : Prop where
  calls : s'.calls = s.calls.set n { call with phase }
  chain : ∀ m answer, a = .chain m answer → m = n
  heap : Heap.Extends s.heap s'.heap
  cache : ∀ x ∈ s'.cache, x ∈ s.cache ∨ x.2.stores ∈ call.phase.held
  held : ∀ refs ∈ phase.held, s.InUse refs ∨ refs.New s.heap s'.heap
  /-- What is returned is new and handed to the caller alone. -/
  returned : ∀ refs chain, phase.result = some (some (refs, chain)) →
    call.phase.result = some (some (refs, chain)) ∨
      refs.New s.heap s'.heap ∧ phase.held = []
  /-- Stores are verified against the answer, and then only copied. -/
  verified : ∀ refs chain, phase.verified = some (refs, chain) →
    a = .chain n (some chain) ∧ (refs.contents s'.heap).Verified E chain ∨
      (∀ answer, a ≠ .chain n answer) ∧ (∀ result, call.phase ≠ .finished result) ∧
        ∃ old, call.phase.verified = some (old, chain) ∧
          refs.contents s'.heap = old.contents s.heap
  thrown : phase.result = some none →
    call.phase.result = some none ∨ s'.cache.get? call.source.key = none

theorem inUse_of_held (hcall : s.calls[n]? = some call) {refs : StoreRefs}
    (h : refs ∈ call.phase.held) : s.InUse refs :=
  .inr ⟨call, List.mem_of_getElem? hcall, h⟩

theorem inUse_of_get? {key : String} {cached : CachedStores}
    (h : s.cache.get? key = some cached) : s.InUse cached.stores :=
  .inl ⟨_, InsertionMap.mem_of_get? h, rfl⟩

theorem verified_of_result {result : GetResult} (h : phase.result = some result) :
    phase.verified = result := by
  cases phase with
  | settled => exact Option.some.inj h
  | finished => exact Option.some.inj h
  | _ => cases h

theorem held_first (cached : CachedStores) :
    ∀ refs ∈ (Attempt.first cached).held, refs = cached.stores := by
  intro refs hrefs
  unfold Attempt.first at hrefs
  split at hrefs
  · exact List.mem_singleton.mp hrefs
  · cases hrefs

section Steps

variable {heap : Heap Container} {cache : InsertionMap String CachedStores}

/-- A step to a phase without verified stores. -/
theorem moved_unverified (hchain : ∀ m answer, a = .chain m answer → m = n)
    (hext : Heap.Extends s.heap heap) (hcache : ∀ x ∈ cache, x ∈ s.cache)
    (hheld : ∀ refs ∈ phase.held, s.InUse refs ∨ refs.New s.heap heap)
    (hnone : phase.verified = none)
    (hthrown : phase.result = some none → cache.get? call.source.key = none) :
    Moved E a n call phase s ({ s with heap, cache }.setPhase n call phase) where
  calls := rfl
  chain := hchain
  heap := hext
  cache x hx := .inl (hcache x hx)
  held := hheld
  returned refs chain h := by
    rw [verified_of_result h] at hnone
    cases hnone
  verified refs chain h := by
    rw [hnone] at h
    cases h
  thrown h := .inr (hthrown h)

theorem load_moved (h : s.load n call = some s') :
    ∃ phase, Moved E (.load n) n call phase s s' := by
  have hchain (m : ℕ) (answer : Option ChainState)
      (hload : CacheAction.load n = .chain m answer) : m = n := by cases hload
  unfold load at h
  split at h
  · split at h
    · split at h
      · next cached hcached =>
          obtain rfl := Option.some.inj h
          refine ⟨_, moved_unverified hchain (.refl _) (fun _ hx ↦ hx)
            (fun refs hrefs ↦ .inl ?_) rfl ?_⟩
          · rw [held_first cached refs hrefs]
            exact inUse_of_get? hcached
          · intro hdone
            cases hdone
      · obtain rfl := Option.some.inj h
        refine ⟨_, moved_unverified hchain (.refl _) (fun _ hx ↦ hx) ?_ rfl ?_⟩
        · intro refs hrefs
          cases hrefs
        · intro hdone
          cases hdone
    · cases h
  · cases h

theorem read_moved {checkpoint : Option StoreCheckpoint}
    (h : s.read B n call checkpoint = some s') :
    ∃ phase, Moved E (.read n checkpoint) n call phase s s' := by
  unfold read at h
  split at h
  · obtain rfl := Option.some.inj h
    exact ⟨_, moved_unverified nofun (.refl _) (fun _ hx ↦ hx) nofun rfl nofun⟩
  · split at h
    · obtain rfl := Option.some.inj h
      exact ⟨_, moved_unverified nofun (.refl _) (fun _ hx ↦ hx) nofun rfl nofun⟩
    · obtain rfl := Option.some.inj h
      refine ⟨_, moved_unverified nofun (.append _ _) (fun _ hx ↦ hx) (fun refs hrefs ↦ .inr ?_)
        rfl nofun⟩
      rw [held_first _ refs hrefs]
      exact StoreRefs.new_startingAt rfl
  · cases h

/-- A failed attempt, on a memory that may have been added to. -/
theorem caught_moved (hchain : ∀ m answer, a = .chain m answer → m = n)
    (hext : Heap.Extends s.heap heap) (attempt : Attempt) :
    ∃ phase, Moved E a n call phase s ({ s with heap }.caught n call attempt) := by
  have hcache : ∀ x ∈ s.cache.erase call.source.key, x ∈ s.cache := fun _ hx ↦
    InsertionMap.mem_of_mem_erase hx
  cases attempt with
  | incremental cached throughBlock =>
      exact ⟨_, moved_unverified hchain hext hcache nofun rfl nofun⟩
  | full =>
      exact ⟨_, moved_unverified hchain hext hcache nofun rfl fun _ ↦
        InsertionMap.get?_erase_self⟩

theorem rebuild_new (attempt : Attempt) (events : List IndexedEvent)
    (partialStores : RebuiltStores) :
    Heap.Extends s.heap (s.rebuild B attempt events partialStores).2 ∧
      ∀ refs ∈ (s.rebuild B attempt events partialStores).1,
        refs.New s.heap (s.rebuild B attempt events partialStores).2 := by
  cases attempt with
  | incremental cached throughBlock =>
      apply rebuildStoresIn_new B (.append _ _)
      rintro refs hrefs
      obtain rfl := Option.some.inj hrefs
      exact StoreRefs.new_startingAt rfl
  | full => exact rebuildStoresIn_new B (.refl _) nofun

theorem events_moved (hcall : s.calls[n]? = some call) {answer : Option (List IndexedEvent)}
    {partialStores : RebuiltStores} (h : s.events B n call answer partialStores = some s') :
    ∃ phase, Moved E (.events n answer partialStores) n call phase s s' := by
  have hchain : ∀ m answer', CacheAction.events n answer partialStores = .chain m answer' →
      m = n := nofun
  unfold events at h
  split at h
  · obtain rfl := Option.some.inj h
    exact caught_moved hchain (.refl _) _
  · next attempt events hphase =>
      split at h
      · obtain ⟨hext, hnew⟩ := s.rebuild_new B attempt events partialStores
        split at h
        · next heap hrebuild =>
            obtain rfl := Option.some.inj h
            rw [hrebuild] at hext
            exact caught_moved hchain hext attempt
        · next stores heap hrebuild =>
            obtain rfl := Option.some.inj h
            rw [hrebuild] at hext hnew
            refine ⟨_, moved_unverified hchain hext (fun _ hx ↦ hx) ?_ rfl nofun⟩
            intro refs hrefs
            rcases List.mem_cons.mp hrefs with rfl | hrefs
            · exact .inr (hnew refs rfl)
            · refine .inl (inUse_of_held hcall ?_)
              rw [hphase]
              exact hrefs
      · obtain rfl := Option.some.inj h
        exact caught_moved hchain (.refl _) attempt
  · cases h

theorem chain_moved (hcall : s.calls[n]? = some call) {answer : Option ChainState}
    (h : s.chain E n call answer = some s') :
    ∃ phase, Moved E (.chain n answer) n call phase s s' := by
  have hchain : ∀ m answer', CacheAction.chain n answer = .chain m answer' → m = n := by
    rintro m answer' heq
    exact (CacheAction.chain.inj heq).1.symm
  unfold chain at h
  split at h
  · obtain rfl := Option.some.inj h
    exact caught_moved hchain (.refl _) _
  · next attempt events stores chain hphase =>
      split at h
      · obtain rfl := Option.some.inj h
        exact caught_moved hchain (.refl _) attempt
      · next hverify =>
          obtain rfl := Option.some.inj h
          have hheld : stores ∈ call.phase.held := by
            rw [hphase]
            exact List.mem_cons_self
          refine ⟨.writing stores chain, rfl, hchain, .refl _, ?_, ?_, nofun, ?_, nofun⟩
          · intro x hx
            rcases InsertionMap.mem_of_mem_set (List.mem_of_mem_drop hx) with rfl | hx
            · exact .inr hheld
            · exact .inl (InsertionMap.mem_of_mem_erase hx)
          · intro refs hrefs
            obtain rfl := List.mem_singleton.mp hrefs
            exact .inl (inUse_of_held hcall hheld)
          · rintro refs chain' h
            obtain ⟨rfl, rfl⟩ := Prod.mk.inj (Option.some.inj h)
            exact .inl ⟨rfl, verify_ok.mp hverify⟩
  · cases h

theorem write_moved (h : s.write n call = some s') :
    ∃ phase, Moved E (.write n) n call phase s s' := by
  unfold write at h
  split at h
  · next stores chain hphase =>
      obtain rfl := Option.some.inj h
      refine ⟨_, rfl, nofun, .append _ _, fun _ hx ↦ .inl hx, nofun, ?_, ?_, nofun⟩
      · rintro refs chain' h
        obtain ⟨rfl, rfl⟩ := Prod.mk.inj (Option.some.inj (Option.some.inj h))
        exact .inr ⟨StoreRefs.new_startingAt rfl, rfl⟩
      · rintro refs chain' h
        obtain ⟨rfl, rfl⟩ := Prod.mk.inj (Option.some.inj h)
        rw [hphase]
        exact .inr ⟨nofun, nofun, stores, rfl, StoreRefs.contents_clone s.heap stores⟩
  · cases h

theorem finish_moved (h : s.finish n call = some s') :
    ∃ phase, Moved E (.finish n) n call phase s s' := by
  unfold finish at h
  split at h
  · next result hphase =>
      obtain rfl := Option.some.inj h
      refine ⟨.finished result, rfl, nofun, .refl _, fun _ hx ↦ .inl hx, nofun, ?_, ?_, ?_⟩
      · intro refs chain h
        rw [hphase]
        exact .inl h
      · intro refs chain h
        rw [hphase]
        exact .inr ⟨nofun, nofun, refs, h, rfl⟩
      · intro h
        rw [hphase]
        exact .inl h
  · cases h

theorem mutate_ok {address : ℕ} {container : Container}
    (h : s.mutate call address container = some s') :
    (∃ refs chain, call.phase = .finished (some (refs, chain)) ∧ address ∈ refs.addresses) ∧
      s' = { s with heap := s.heap.set address container } := by
  unfold mutate at h
  split at h
  · next refs chain hphase =>
      split at h
      · next hmem => exact ⟨⟨refs, chain, hphase, hmem⟩, (Option.some.inj h).symm⟩
      · cases h
  · cases h

/-- All that a step can do. -/
theorem step_cases (h : step B s a = some s') :
    (∃ source, a = .get source ∧ s' = s.get source) ∨
      (∃ n call phase, s.calls[n]? = some call ∧ Moved E a n call phase s s') ∨
      ∃ n address container, a = .mutate n address container ∧ s.Holds (some n) address ∧
        s' = { s with heap := s.heap.set address container } := by
  cases a with
  | get source => exact .inl ⟨source, rfl, (Option.some.inj h).symm⟩
  | load n =>
      obtain ⟨call, hcall, h⟩ := Option.bind_eq_some_iff.mp h
      exact .inr (.inl ⟨n, call, (load_moved h).imp fun _ hmoved ↦ ⟨hcall, hmoved⟩⟩)
  | read n checkpoint =>
      obtain ⟨call, hcall, h⟩ := Option.bind_eq_some_iff.mp h
      exact .inr (.inl ⟨n, call, (read_moved B h).imp fun _ hmoved ↦ ⟨hcall, hmoved⟩⟩)
  | events n answer partialStores =>
      obtain ⟨call, hcall, h⟩ := Option.bind_eq_some_iff.mp h
      exact .inr (.inl ⟨n, call, (events_moved B hcall h).imp fun _ hmoved ↦ ⟨hcall, hmoved⟩⟩)
  | chain n answer =>
      obtain ⟨call, hcall, h⟩ := Option.bind_eq_some_iff.mp h
      exact .inr (.inl ⟨n, call, (chain_moved hcall h).imp fun _ hmoved ↦ ⟨hcall, hmoved⟩⟩)
  | write n =>
      obtain ⟨call, hcall, h⟩ := Option.bind_eq_some_iff.mp h
      exact .inr (.inl ⟨n, call, (write_moved h).imp fun _ hmoved ↦ ⟨hcall, hmoved⟩⟩)
  | finish n =>
      obtain ⟨call, hcall, h⟩ := Option.bind_eq_some_iff.mp h
      exact .inr (.inl ⟨n, call, (finish_moved h).imp fun _ hmoved ↦ ⟨hcall, hmoved⟩⟩)
  | mutate n address container =>
      obtain ⟨call, hcall, h⟩ := Option.bind_eq_some_iff.mp h
      obtain ⟨⟨refs, chain, hphase, hmem⟩, heq⟩ := mutate_ok h
      refine .inr (.inr ⟨n, address, container, rfl, ⟨refs, chain, ⟨call, hcall, ?_⟩, hmem⟩, heq⟩)
      rw [hphase]
      rfl

end Steps

/-! ## Separation -/

theorem inUse_moved {n : ℕ} {call : GetCall} {phase : LoadPhase}
    (hcall : s.calls[n]? = some call) (hmoved : Moved E a n call phase s s') {refs : StoreRefs}
    (h : s'.InUse refs) : s.InUse refs ∨ refs.New s.heap s'.heap ∧ phase.held ≠ [] := by
  rcases h with ⟨x, hx, rfl⟩ | ⟨call', hmem, hheld⟩
  · rcases hmoved.cache x hx with hx | hx
    · exact .inl (.inl ⟨x, hx, rfl⟩)
    · exact .inl (inUse_of_held hcall hx)
  · rw [hmoved.calls] at hmem
    rcases List.mem_or_eq_of_mem_set hmem with hmem | rfl
    · exact .inl (.inr ⟨call', hmem, hheld⟩)
    · exact (hmoved.held refs hheld).imp id fun hnew ↦ ⟨hnew, List.ne_nil_of_mem hheld⟩

theorem getElem?_moved {n m : ℕ} {call call' : GetCall} {phase : LoadPhase}
    (hmoved : Moved E a n call phase s s') (h : s'.calls[m]? = some call') :
    m = n ∧ call' = { call with phase } ∨ m ≠ n ∧ s.calls[m]? = some call' := by
  rw [hmoved.calls, List.getElem?_set] at h
  split at h
  · next heq =>
      split at h
      · exact .inl ⟨heq.symm, (Option.some.inj h).symm⟩
      · cases h
  · next hne => exact .inr ⟨Ne.symm hne, h⟩

theorem returned_moved {n m : ℕ} {call : GetCall} {phase : LoadPhase}
    (hcall : s.calls[n]? = some call) (hmoved : Moved E a n call phase s s') {refs : StoreRefs}
    {chain : ChainState} (h : s'.Returned m refs chain) :
    s.Returned m refs chain ∨ m = n ∧ refs.New s.heap s'.heap ∧ phase.held = [] := by
  obtain ⟨call', hcall', hresult⟩ := h
  rcases getElem?_moved hmoved hcall' with ⟨rfl, rfl⟩ | ⟨-, hold⟩
  · rcases hmoved.returned refs chain hresult with hold | hnew
    · exact .inl ⟨call, hcall, hold⟩
    · exact .inr ⟨rfl, hnew⟩
  · exact .inl ⟨call', hold, hresult⟩

theorem getElem?_get {source : CheckpointSource} {m : ℕ} {call : GetCall}
    (h : (s.get source).calls[m]? = some call) :
    s.calls[m]? = some call ∨ ∃ previous, call = ⟨source, .waiting previous⟩ := by
  change (s.calls ++ [_])[m]? = some call at h
  rcases Nat.lt_or_ge m s.calls.length with hlt | hge
  · rw [List.getElem?_append_left hlt] at h
    exact .inl h
  · rw [List.getElem?_append_right hge] at h
    obtain rfl := List.mem_singleton.mp (List.mem_of_getElem? h)
    exact .inr ⟨_, rfl⟩

theorem holds_get {source : CheckpointSource} {x : Option ℕ} {i : ℕ}
    (h : (s.get source).Holds x i) : s.Holds x i := by
  cases x with
  | none =>
      obtain ⟨refs, hcached | ⟨call, hcall, hheld⟩, hi⟩ := h
      · exact ⟨refs, .inl hcached, hi⟩
      · rcases List.mem_append.mp hcall with hcall | hcall
        · exact ⟨refs, .inr ⟨call, hcall, hheld⟩, hi⟩
        · obtain rfl := List.mem_singleton.mp hcall
          cases hheld
  | some n =>
      obtain ⟨refs, chain, ⟨call, hcall, hresult⟩, hi⟩ := h
      rcases getElem?_get hcall with hcall | ⟨previous, rfl⟩
      · exact ⟨refs, chain, ⟨call, hcall, hresult⟩, hi⟩
      · cases hresult

/-- One step adds cells for one holder. -/
theorem separated_step (hsep : Heap.Separated s.heap s.Holds) (h : step B s a = some s') :
    Heap.Separated s'.heap s'.Holds := by
  rcases step_cases B h with ⟨source, -, rfl⟩ | ⟨n, call, phase, hcall, hmoved⟩ |
    ⟨n, address, container, -, -, rfl⟩
  · exact hsep.extend (.refl _) none fun _ _ hholds ↦ .inl (holds_get hholds)
  · by_cases hheld : phase.held = []
    · refine hsep.extend hmoved.heap (some n) fun y i hholds ↦ ?_
      cases y with
      | none =>
          obtain ⟨refs, huse, hi⟩ := hholds
          rcases inUse_moved hcall hmoved huse with huse | ⟨-, hne⟩
          · exact .inl ⟨refs, huse, hi⟩
          · exact absurd hheld hne
      | some m =>
          obtain ⟨refs, chain, hreturned, hi⟩ := hholds
          rcases returned_moved hcall hmoved hreturned with hreturned | ⟨rfl, hnew, -⟩
          · exact .inl ⟨refs, chain, hreturned, hi⟩
          · exact .inr ⟨rfl, hnew i hi⟩
    · refine hsep.extend hmoved.heap none fun y i hholds ↦ ?_
      cases y with
      | none =>
          obtain ⟨refs, huse, hi⟩ := hholds
          rcases inUse_moved hcall hmoved huse with huse | ⟨hnew, -⟩
          · exact .inl ⟨refs, huse, hi⟩
          · exact .inr ⟨rfl, hnew i hi⟩
      | some m =>
          obtain ⟨refs, chain, hreturned, hi⟩ := hholds
          rcases returned_moved hcall hmoved hreturned with hreturned | ⟨-, -, hnil⟩
          · exact .inl ⟨refs, chain, hreturned, hi⟩
          · exact absurd hnil hheld
  · exact hsep.set address container

theorem separated {as : List CacheAction} (run : (cacheSystem B).Run as s) :
    Heap.Separated s.heap s.Holds := by
  refine TransitionSystem.Run.invariant (fun _ s ↦ Heap.Separated s.heap s.Holds) ?_ ?_ run
  · rintro s rfl
    have hnone : ∀ x i, ¬(⟨[], [], [], []⟩ : StoreCache).Holds x i := by
      rintro (_ | n) i hholds
      · obtain ⟨refs, ⟨x, hx, -⟩ | ⟨call, hcall, -⟩, -⟩ := hholds
        · cases hx
        · cases hcall
      · obtain ⟨refs, chain, ⟨call, hcall, -⟩, -⟩ := hholds
        cases hcall
    exact ⟨fun x i hi ↦ absurd hi (hnone x i), fun x y i hi ↦ absurd hi (hnone x i)⟩
  · exact fun _ _ _ _ _ hsep h ↦ separated_step B hsep h

/-- Only the caller that holds stores changes them. -/
theorem contents_step (hsep : Heap.Separated s.heap s.Holds) (h : step B s a = some s')
    {x : Option ℕ} {refs : StoreRefs} (hholds : ∀ i ∈ refs.addresses, s.Holds x i)
    (hother : ∀ n address container, a = .mutate n address container → x ≠ some n) :
    refs.contents s'.heap = refs.contents s.heap := by
  apply StoreRefs.contents_congr
  intro i hi
  rcases step_cases B h with ⟨source, -, rfl⟩ | ⟨n, call, phase, -, hmoved⟩ |
    ⟨n, address, container, hmutate, hheld, rfl⟩
  · rfl
  · exact hmoved.heap.read_eq i (hsep.lt x i (hholds i hi))
  · exact hsep.read_set hheld (hholds i hi) (hother n address container hmutate).symm container

end StoreCache

end MinaGuard
