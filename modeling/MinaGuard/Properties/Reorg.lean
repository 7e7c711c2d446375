import MinaGuard.Indexer.Reorg
import MinaGuard.Instance.Keys

/-!
# Reorganizations are found

Detection leaves no stored header that disagrees with the chain, and deletes exactly
what is above the fork, if and only if no stored header disagrees below one that
agrees and nothing above the fork owns rows at or below it.
-/

namespace MinaGuard

open Foundations

variable {chain : InsertionMap ℕ BestChainHeader} {s s' : Db.BlockHeader}

/-- The chain has the same block at the height of the header. -/
def Agrees (chain : InsertionMap ℕ BestChainHeader) (s : Db.BlockHeader) : Prop :=
  ∃ c, chain.get? s.height = some c ∧ c.blockHash = s.blockHash

/-- The chain has another block at the height of the header. -/
def Disagrees (chain : InsertionMap ℕ BestChainHeader) (s : Db.BlockHeader) : Prop :=
  ∃ c, chain.get? s.height = some c ∧ c.blockHash ≠ s.blockHash

theorem Agrees.not_disagrees (h : Agrees chain s) : ¬Disagrees chain s := by
  rintro ⟨c, hc, hne⟩
  obtain ⟨c', hc', heq⟩ := h
  obtain rfl : c = c' := Option.some.inj (hc.symm.trans hc')
  exact hne heq

/-- The search stopped at the highest header that agrees. -/
structure StoppedAt (chain : InsertionMap ℕ BestChainHeader) (stored : List Db.BlockHeader)
    (s : Db.BlockHeader) : Prop where
  mem : s ∈ stored
  agrees : Agrees chain s
  highest : ∀ s' ∈ stored, s.height < s'.height → ¬Agrees chain s'

/-- What a search from nothing found in headers sorted by height. -/
structure Searched (chain : InsertionMap ℕ BestChainHeader) (stored : List Db.BlockHeader)
    (search : ForkSearch) : Prop where
  fork : ∀ height, search.forkHeight = some height →
    ∃ s, s.height = height ∧ StoppedAt chain stored s
  noFork : search.forkHeight = none → ∀ s ∈ stored, ¬Agrees chain s
  mismatch : search.highestMismatch.isSome = search.lowestMismatchHeight.isSome
  lowest : ∀ height, search.lowestMismatchHeight = some height →
    ∃ s ∈ stored, s.height = height ∧ Disagrees chain s ∧
      (∀ fork, search.forkHeight = some fork → fork < height) ∧
      ∀ s' ∈ stored, Disagrees chain s' →
        height ≤ s'.height ∨ ∃ fork, search.forkHeight = some fork ∧ s'.height < fork
  noMismatch : search.lowestMismatchHeight = none → ∀ s' ∈ stored, Disagrees chain s' →
    ∃ fork, search.forkHeight = some fork ∧ s'.height < fork

section Step

variable {seen stored : List Db.BlockHeader} {search : ForkSearch}

/-- The chain does not know the height. -/
theorem Searched.skip (h : Searched chain seen search) (hagrees : ¬Agrees chain s)
    (hdisagrees : ¬Disagrees chain s) (hnone : search.forkHeight = none) :
    Searched chain (seen ++ [s]) search where
  fork := fun height hfork ↦ by rw [hnone] at hfork; cases hfork
  noFork := by
    intro _ s' hs'
    rcases List.mem_append.mp hs' with hs' | hs'
    · exact h.noFork hnone s' hs'
    · rwa [List.mem_singleton.mp hs']
  mismatch := h.mismatch
  lowest := by
    intro height hlowest
    obtain ⟨s₀, hs₀, hheight, hdiffers, hfork, hall⟩ := h.lowest height hlowest
    refine ⟨s₀, List.mem_append_left _ hs₀, hheight, hdiffers, hfork, ?_⟩
    intro s' hs' hdis
    rcases List.mem_append.mp hs' with hs' | hs'
    · exact hall s' hs' hdis
    · exact absurd (List.mem_singleton.mp hs' ▸ hdis) hdisagrees
  noMismatch := by
    intro hlowest s' hs' hdis
    rcases List.mem_append.mp hs' with hs' | hs'
    · exact h.noMismatch hlowest s' hs' hdis
    · exact absurd (List.mem_singleton.mp hs' ▸ hdis) hdisagrees

/-- The header agrees: the search ends. -/
theorem Searched.stop (h : Searched chain seen search) (hnone : search.forkHeight = none)
    (hagrees : Agrees chain s) (habove : ∀ s' ∈ seen, s.height < s'.height)
    (hbelow : ∀ s' ∈ stored, s'.height < s.height) :
    Searched chain (seen ++ s :: stored) { search with forkHeight := some s.height } where
  fork := by
    rintro height hfork
    refine ⟨s, Option.some.inj hfork, by simp, hagrees, ?_⟩
    intro s' hs' hlt
    rcases List.mem_append.mp hs' with hs' | hs'
    · exact h.noFork hnone s' hs'
    · rcases List.mem_cons.mp hs' with rfl | hs'
      · exact absurd hlt (lt_irrefl _)
      · exact absurd (hbelow s' hs') (not_lt.mpr hlt.le)
  noFork := fun hfork ↦ by cases hfork
  mismatch := h.mismatch
  lowest := by
    intro height hlowest
    obtain ⟨s₀, hs₀, rfl, hdiffers, -, hall⟩ := h.lowest height hlowest
    refine ⟨s₀, List.mem_append_left _ hs₀, rfl, hdiffers, ?_, ?_⟩
    · intro fork hfork
      exact Option.some.inj hfork ▸ habove s₀ hs₀
    · intro s' hs' hdis
      rcases List.mem_append.mp hs' with hs' | hs'
      · rcases hall s' hs' hdis with hle | ⟨fork, hfork, -⟩
        · exact Or.inl hle
        · rw [hnone] at hfork
          cases hfork
      · rcases List.mem_cons.mp hs' with rfl | hs'
        · exact absurd hdis hagrees.not_disagrees
        · exact Or.inr ⟨_, rfl, hbelow s' hs'⟩
  noMismatch := by
    intro hlowest s' hs' hdis
    rcases List.mem_append.mp hs' with hs' | hs'
    · obtain ⟨fork, hfork, -⟩ := h.noMismatch hlowest s' hs' hdis
      rw [hnone] at hfork
      cases hfork
    · rcases List.mem_cons.mp hs' with rfl | hs'
      · exact absurd hdis hagrees.not_disagrees
      · exact ⟨_, rfl, hbelow s' hs'⟩

/-- The header differs: it is the lowest mismatch so far. -/
theorem Searched.differ (h : Searched chain seen search) (hnone : search.forkHeight = none)
    (hdisagrees : Disagrees chain s) (mismatch : HeightMismatch)
    (habove : ∀ s' ∈ seen, s.height < s'.height) :
    Searched chain (seen ++ [s])
      { search with
        highestMismatch := search.highestMismatch.orElse fun _ ↦ some mismatch
        lowestMismatchHeight := some s.height } where
  fork := fun height hfork ↦ by
    change search.forkHeight = some height at hfork
    rw [hnone] at hfork
    cases hfork
  noFork := by
    intro _ s' hs'
    rcases List.mem_append.mp hs' with hs' | hs'
    · exact h.noFork hnone s' hs'
    · exact fun hagrees ↦ hagrees.not_disagrees (List.mem_singleton.mp hs' ▸ hdisagrees)
  mismatch := by
    cases search.highestMismatch <;> rfl
  lowest := by
    intro height hlowest
    obtain rfl := Option.some.inj hlowest
    refine ⟨s, by simp, rfl, hdisagrees, ?_, ?_⟩
    · intro fork hfork
      change search.forkHeight = some fork at hfork
      rw [hnone] at hfork
      cases hfork
    · intro s' hs' _
      rcases List.mem_append.mp hs' with hs' | hs'
      · exact Or.inl (habove s' hs').le
      · exact Or.inl (List.mem_singleton.mp hs' ▸ le_refl _)
  noMismatch := fun hlowest ↦ by cases hlowest

end Step

/-- The same of a search that goes on below `seen`. -/
theorem searchFork_searched {seen stored : List Db.BlockHeader} {search : ForkSearch}
    (hsorted : (seen ++ stored).Pairwise fun a b ↦ b.height < a.height)
    (hnone : search.forkHeight = none) (hseen : Searched chain seen search) :
    Searched chain (seen ++ stored) (searchFork chain search stored) := by
  induction stored generalizing seen search with
  | nil =>
      rw [List.append_nil]
      exact hseen
  | cons s stored ih =>
      have hsplit : seen ++ s :: stored = (seen ++ [s]) ++ stored := by
        rw [List.append_assoc, List.singleton_append]
      have habove {s' : Db.BlockHeader} (hs' : s' ∈ seen) : s.height < s'.height :=
        (List.pairwise_append.mp hsorted).2.2 s' hs' s List.mem_cons_self
      have hbelow {s' : Db.BlockHeader} (hs' : s' ∈ stored) : s'.height < s.height :=
        (List.pairwise_cons.mp (List.pairwise_append.mp hsorted).2.1).1 s' hs'
      unfold searchFork
      split
      · next hget =>
          rw [hsplit] at hsorted ⊢
          refine ih hsorted hnone ?_
          exact hseen.skip (fun ⟨c, hc, _⟩ ↦ by rw [hget] at hc; cases hc)
            (fun ⟨c, hc, _⟩ ↦ by rw [hget] at hc; cases hc) hnone
      · next c hget =>
          split
          · next hsame =>
              exact hseen.stop hnone ⟨c, hget, hsame⟩ (fun _ ↦ habove) fun _ ↦ hbelow
          · next hdiffers =>
              rw [hsplit] at hsorted ⊢
              refine ih hsorted hnone ?_
              exact hseen.differ hnone ⟨c, hget, hdiffers⟩ _ fun _ ↦ habove

theorem searchFork_spec {stored : List Db.BlockHeader}
    (hsorted : stored.Pairwise fun a b ↦ b.height < a.height) :
    Searched chain stored (searchFork chain {} stored) :=
  @searchFork_searched chain [] stored {} hsorted rfl
    { fork := fun _ h ↦ by cases h
      noFork := fun _ _ h ↦ absurd h List.not_mem_nil
      mismatch := rfl
      lowest := fun _ h ↦ by cases h
      noMismatch := fun _ _ h ↦ absurd h List.not_mem_nil }

section Range

variable {headers : List BestChainHeader} {response : List DaemonBlock} {db : Database}

theorem pairwise_fetchBestChainHeaders :
    (fetchBestChainHeaders response).Pairwise fun a b ↦ a.height ≤ b.height :=
  pairwise_mergeSort_le BestChainHeader.height _

theorem get?_chainByHeight {height : ℕ} {c : BestChainHeader}
    (h : (chainByHeight headers).get? height = some c) : c ∈ headers ∧ c.height = height := by
  unfold chainByHeight at h
  induction headers using List.reverseRecOn with
  | nil => cases h
  | append_singleton headers x ih =>
      rw [List.foldl_concat] at h
      by_cases hx : height = x.height
      · subst hx
        rw [InsertionMap.get?_set_self] at h
        obtain rfl := Option.some.inj h
        exact ⟨by simp, rfl⟩
      · rw [InsertionMap.get?_set_of_ne hx] at h
        obtain ⟨hmem, hheight⟩ := ih h
        exact ⟨List.mem_append_left _ hmem, hheight⟩

/-- A height that the chain knows is in its range. -/
theorem mem_storedInRange (hsorted : headers.Pairwise fun a b ↦ a.height ≤ b.height)
    {c : BestChainHeader} (hs : s ∈ db.blockHeaders)
    (hget : (chainByHeight headers).get? s.height = some c) : s ∈ storedInRange db headers := by
  obtain ⟨hmem, hheight⟩ := get?_chainByHeight hget
  have hne : headers ≠ [] := List.ne_nil_of_mem hmem
  obtain ⟨first, rest, rfl⟩ := List.exists_cons_of_ne_nil hne
  have hfirst : first.height ≤ s.height := by
    rcases List.mem_cons.mp hmem with rfl | hmem
    · exact hheight.le
    · exact hheight ▸ (List.pairwise_cons.mp hsorted).1 c hmem
  have hlast : s.height ≤ ((first :: rest).getLast hne).height := by
    rw [← List.dropLast_append_getLast hne] at hmem hsorted
    rcases List.mem_append.mp hmem with hmem | hmem
    · exact hheight ▸ (List.pairwise_append.mp hsorted).2.2 c hmem _ (List.mem_singleton_self _)
    · exact hheight ▸ List.mem_singleton.mp hmem ▸ le_refl _
  unfold storedInRange
  rw [List.head?_cons, List.getLast?_eq_some_getLast hne]
  dsimp only
  rw [List.mem_reverse, List.mem_mergeSort, List.mem_filter]
  exact ⟨hs, decide_eq_true ⟨hfirst, hlast⟩⟩

theorem mem_of_mem_storedInRange (h : s ∈ storedInRange db headers) : s ∈ db.blockHeaders := by
  unfold storedInRange at h
  split at h
  · exact List.mem_of_mem_filter (List.mem_mergeSort.mp (List.mem_reverse.mp h))
  · exact absurd h List.not_mem_nil

theorem pairwise_storedInRange (hnodup : (db.blockHeaders.map Db.BlockHeader.height).Nodup) :
    (storedInRange db headers).Pairwise fun a b ↦ b.height < a.height := by
  unfold storedInRange
  split
  · next first last _ _ =>
      have hne : (db.blockHeaders.filter fun s ↦
          first.height ≤ s.height ∧ s.height ≤ last.height).Pairwise fun a b ↦
          a.height ≠ b.height :=
        (List.pairwise_map.mp hnodup).filter _
      rw [List.pairwise_reverse]
      have hperm := (List.mergeSort_perm (db.blockHeaders.filter fun s ↦
        first.height ≤ s.height ∧ s.height ≤ last.height) fun a b ↦
          decide (a.height ≤ b.height)).symm
      have hne' := (hperm.pairwise_iff fun h ↦ Ne.symm h).mp hne
      exact ((pairwise_mergeSort_le Db.BlockHeader.height _).and hne').imp fun h ↦
        Nat.lt_of_le_of_ne h.1 h.2
  · exact List.Pairwise.nil

end Range

/-! ## The fork point -/

/-- Where stored history leaves the chain: the highest stored height that agrees, if
one above it does not, or the height before the lowest that does not, if none agrees. -/
inductive IsForkPoint (db : Database) (chain : InsertionMap ℕ BestChainHeader) : ℤ → Prop
  | agreed (s : Db.BlockHeader) (hs : s ∈ db.blockHeaders) (hagrees : Agrees chain s)
      (hhighest : ∀ s' ∈ db.blockHeaders, s.height < s'.height → ¬Agrees chain s')
      (hdiffers : ∃ s' ∈ db.blockHeaders, s.height < s'.height ∧ Disagrees chain s') :
      IsForkPoint db chain s.height
  | unknown (s : Db.BlockHeader) (hs : s ∈ db.blockHeaders) (hdiffers : Disagrees chain s)
      (hlowest : ∀ s' ∈ db.blockHeaders, Disagrees chain s' → s.height ≤ s'.height)
      (hnone : ∀ s' ∈ db.blockHeaders, ¬Agrees chain s') : IsForkPoint db chain (s.height - 1)

variable {db : Database}

theorem IsForkPoint.unique {f f' : ℤ} (h : IsForkPoint db chain f)
    (h' : IsForkPoint db chain f') : f = f' := by
  cases h with
  | agreed s hs hagrees hhighest hdiffers =>
      cases h' with
      | agreed s' hs' hagrees' hhighest' hdiffers' =>
          have hle : ¬s'.height < s.height := fun hlt ↦ hhighest' s hs hlt hagrees
          have hge : ¬s.height < s'.height := fun hlt ↦ hhighest s' hs' hlt hagrees'
          omega
      | unknown s' hs' hdiffers' hlowest' hnone' => exact absurd hagrees (hnone' s hs)
  | unknown s hs hdiffers hlowest hnone =>
      cases h' with
      | agreed s' hs' hagrees' hhighest' hdiffers' => exact absurd hagrees' (hnone s' hs')
      | unknown s' hs' hdiffers' hlowest' hnone' =>
          have hle := hlowest s' hs' hdiffers'
          have hge := hlowest' s hs hdiffers
          omega

/-- Detection rolls back to the fork point, if there is one. -/
theorem detectAndRollbackReorg_spec {mode : IndexerMode} {response : List DaemonBlock}
    (hnodup : (db.blockHeaders.map Db.BlockHeader.height).Nodup) :
    (∃ f, IsForkPoint db (chainByHeight (fetchBestChainHeaders response)) f ∧
      (detectAndRollbackReorg mode (.ok response) db).forkHeight = some f ∧
      (detectAndRollbackReorg mode (.ok response) db).db = rollbackAboveFork mode f db) ∨
    (∀ f, ¬IsForkPoint db (chainByHeight (fetchBestChainHeaders response)) f) ∧
      (∀ s ∈ db.blockHeaders, Disagrees (chainByHeight (fetchBestChainHeaders response)) s →
        ∃ s' ∈ db.blockHeaders, s.height < s'.height ∧
          Agrees (chainByHeight (fetchBestChainHeaders response)) s') ∧
      (detectAndRollbackReorg mode (.ok response) db).forkHeight = none ∧
      (detectAndRollbackReorg mode (.ok response) db).db = db := by
  unfold detectAndRollbackReorg
  simp only [Except.map]
  set headers := fetchBestChainHeaders response with hheaders
  have hsorted : headers.Pairwise fun a b ↦ a.height ≤ b.height := pairwise_fetchBestChainHeaders
  have hsearched := @searchFork_spec (chainByHeight headers) _
    (@pairwise_storedInRange headers db hnodup)
  have hagree {s : Db.BlockHeader} (hs : s ∈ db.blockHeaders)
      (h : Agrees (chainByHeight headers) s) : s ∈ storedInRange db headers := by
    obtain ⟨c, hc, -⟩ := h
    exact mem_storedInRange hsorted hs hc
  have hdisagree {s : Db.BlockHeader} (hs : s ∈ db.blockHeaders)
      (h : Disagrees (chainByHeight headers) s) : s ∈ storedInRange db headers := by
    obtain ⟨c, hc, -⟩ := h
    exact mem_storedInRange hsorted hs hc
  set search := searchFork (chainByHeight headers) {} (storedInRange db headers) with hsearch
  cases hmismatch : search.highestMismatch with
  | none =>
      right
      have hlowest : search.lowestMismatchHeight = none := by
        have hsome := hsearched.mismatch
        rw [hmismatch] at hsome
        exact Option.not_isSome_iff_eq_none.mp (by rw [← hsome]; decide)
      have hbelow {s : Db.BlockHeader} (hs : s ∈ db.blockHeaders)
          (hdis : Disagrees (chainByHeight headers) s) : ∃ s' ∈ db.blockHeaders,
            s.height < s'.height ∧ Agrees (chainByHeight headers) s' := by
        obtain ⟨fork, hfork, hlt⟩ := hsearched.noMismatch hlowest s (hdisagree hs hdis) hdis
        obtain ⟨s₁, rfl, hstopped⟩ := hsearched.fork fork hfork
        exact ⟨s₁, mem_of_mem_storedInRange hstopped.mem, hlt, hstopped.agrees⟩
      refine ⟨?_, fun s hs hdis ↦ hbelow hs hdis, rfl, rfl⟩
      intro f hf
      cases hf with
      | agreed s hs hagrees hhighest hdiffers =>
          obtain ⟨s', hs', hlt, hdis⟩ := hdiffers
          obtain ⟨s₁, hs₁, hlt₁, hagrees₁⟩ := hbelow hs' hdis
          exact hhighest s₁ hs₁ (hlt.trans hlt₁) hagrees₁
      | unknown s hs hdiffers _ hnone =>
          obtain ⟨s₁, hs₁, -, hagrees₁⟩ := hbelow hs hdiffers
          exact hnone s₁ hs₁ hagrees₁
  | some mismatch =>
      left
      obtain ⟨lowest, hlowest⟩ : ∃ lowest, search.lowestMismatchHeight = some lowest := by
        rw [← Option.isSome_iff_exists, ← hsearched.mismatch, hmismatch]
        rfl
      rw [hlowest]
      obtain ⟨s₀, hs₀, rfl, hdiffers, hfork, hall⟩ := hsearched.lowest _ hlowest
      cases hforkHeight : search.forkHeight with
      | some fork =>
          obtain ⟨s₁, rfl, hstopped⟩ := hsearched.fork fork hforkHeight
          refine ⟨_, .agreed s₁ (mem_of_mem_storedInRange hstopped.mem) hstopped.agrees ?_ ?_,
            rfl, rfl⟩
          · exact fun s' hs' hlt hagrees ↦
              hstopped.highest s' (hagree hs' hagrees) hlt hagrees
          · exact ⟨s₀, mem_of_mem_storedInRange hs₀, hfork _ hforkHeight, hdiffers⟩
      | none =>
          refine ⟨_, .unknown s₀ (mem_of_mem_storedInRange hs₀) hdiffers ?_ ?_, rfl, rfl⟩
          · intro s' hs' hdis
            refine (hall s' (hdisagree hs' hdis) hdis).resolve_right ?_
            rintro ⟨fork, hsome, -⟩
            rw [hforkHeight] at hsome
            cases hsome
          · exact fun s' hs' hagrees ↦
              hsearched.noFork hforkHeight s' (hagree hs' hagrees) hagrees

/-- The event, whichever contract it is linked to. -/
def Db.EventRaw.unlinked (r : Db.EventRaw) : Db.EventRaw := { r with contractId := none }

/-- The contract, whether it is shown or not. -/
def Db.Contract.hidden (c : Db.Contract) : Db.Contract :=
  { c with ready := false, permissionsVerified := false }

/-- The contract was discovered above the fork, by which a subscription is not dated. -/
def Db.Contract.IsAbove (mode : IndexerMode) (f : ℤ) (c : Db.Contract) : Prop :=
  mode = .full ∧ ∃ height, c.discoveredAtBlock = some height ∧ f < height

/-- Of `db`, exactly the rows above the fork are gone. -/
structure IsRolledBack (mode : IndexerMode) (f : ℤ) (db db' : Database) : Prop where
  blockHeaders : ∀ h ∈ db.blockHeaders, h ∈ db'.blockHeaders ↔ h.height ≤ f
  eventRaws : ∀ r ∈ db.eventRaws,
    r.unlinked ∈ db'.eventRaws.map Db.EventRaw.unlinked ↔ r.blockHeight ≤ f
  contracts : ∀ c ∈ db.contracts,
    c.hidden ∈ db'.contracts.map Db.Contract.hidden ↔ ¬c.IsAbove mode f
  contractConfigs : ∀ c ∈ db.contractConfigs, c ∈ db'.contractConfigs ↔ c.validFromBlock ≤ f
  ownerMemberships : ∀ m ∈ db.ownerMemberships,
    m ∈ db'.ownerMemberships ↔ m.validFromBlock ≤ f
  proposals : ∀ p ∈ db.proposals, p ∈ db'.proposals ↔ p.createdAtBlock ≤ f
  approvals : ∀ a ∈ db.approvals, a ∈ db'.approvals ↔ a.blockHeight ≤ f
  proposalExecutions : ∀ x ∈ db.proposalExecutions,
    x ∈ db'.proposalExecutions ↔ x.blockHeight ≤ f

/-- No contract or proposal above the fork owns rows at or below it. -/
structure OwnsNothingBelow (mode : IndexerMode) (db : Database) (f : ℤ) : Prop where
  contractConfigs : ∀ c ∈ db.contracts, c.IsAbove mode f →
    ∀ row ∈ db.contractConfigs, row.contractId = c.id → f < row.validFromBlock
  ownerMemberships : ∀ c ∈ db.contracts, c.IsAbove mode f →
    ∀ row ∈ db.ownerMemberships, row.contractId = c.id → f < row.validFromBlock
  proposals : ∀ c ∈ db.contracts, c.IsAbove mode f →
    ∀ row ∈ db.proposals, row.contractId = c.id → f < row.createdAtBlock
  approvals : ∀ p ∈ db.proposals, f < p.createdAtBlock →
    ∀ row ∈ db.approvals, row.proposalId = p.id → f < row.blockHeight
  proposalExecutions : ∀ p ∈ db.proposals, f < p.createdAtBlock →
    ∀ row ∈ db.proposalExecutions, row.proposalId = p.id → f < row.blockHeight

/-- A proposal goes with a rollback: it is above the fork, or its contract goes. -/
def Db.Proposal.IsDoomed (mode : IndexerMode) (db : Database) (f : ℤ) (p : Db.Proposal) : Prop :=
  f < p.createdAtBlock ∨ ∃ c ∈ db.contracts, c.IsAbove mode f ∧ c.id = p.contractId

/-- What a rollback leaves. -/
structure Remains (mode : IndexerMode) (f : ℤ) (db db' : Database) : Prop where
  blockHeaders : ∀ h, h ∈ db'.blockHeaders ↔ h ∈ db.blockHeaders ∧ h.height ≤ f
  eventRaws : ∀ r, r ∈ db'.eventRaws.map Db.EventRaw.unlinked ↔
    ∃ r' ∈ db.eventRaws, r'.blockHeight ≤ f ∧ r'.unlinked = r
  contracts : ∀ c, c ∈ db'.contracts.map Db.Contract.hidden ↔
    ∃ c' ∈ db.contracts, ¬c'.IsAbove mode f ∧ c'.hidden = c
  contractConfigs : ∀ row, row ∈ db'.contractConfigs ↔ row ∈ db.contractConfigs ∧
    row.validFromBlock ≤ f ∧ ¬∃ c ∈ db.contracts, c.IsAbove mode f ∧ c.id = row.contractId
  ownerMemberships : ∀ row, row ∈ db'.ownerMemberships ↔ row ∈ db.ownerMemberships ∧
    row.validFromBlock ≤ f ∧ ¬∃ c ∈ db.contracts, c.IsAbove mode f ∧ c.id = row.contractId
  proposals : ∀ p, p ∈ db'.proposals ↔ p ∈ db.proposals ∧ ¬p.IsDoomed mode db f
  approvals : ∀ row, row ∈ db'.approvals ↔ row ∈ db.approvals ∧ row.blockHeight ≤ f ∧
    ¬∃ p ∈ db.proposals, p.IsDoomed mode db f ∧ p.id = row.proposalId
  proposalExecutions : ∀ row, row ∈ db'.proposalExecutions ↔ row ∈ db.proposalExecutions ∧
    row.blockHeight ≤ f ∧ ¬∃ p ∈ db.proposals, p.IsDoomed mode db f ∧ p.id = row.proposalId

section Tables

variable {doomed : Db.Proposal → Bool} {lost : Db.Contract → Bool} {isAbove : ℕ → Bool}

theorem Database.mem_deleteProposals_ids {id : ℕ} :
    id ∈ (db.proposals.filter doomed).map Db.Proposal.id ↔
      ∃ p ∈ db.proposals, doomed p = true ∧ p.id = id := by
  simp only [List.mem_map, List.mem_filter, and_assoc]

theorem Database.mem_deleteContracts_ids {id : ℕ} :
    id ∈ (db.contracts.filter lost).map Db.Contract.id ↔
      ∃ c ∈ db.contracts, lost c = true ∧ c.id = id := by
  simp only [List.mem_map, List.mem_filter, and_assoc]

@[simp] theorem Database.mem_deleteProposals_proposals {p : Db.Proposal} :
    p ∈ (db.deleteProposals doomed).proposals ↔ p ∈ db.proposals ∧ ¬doomed p = true := by
  simp [Database.deleteProposals]

@[simp] theorem Database.mem_deleteProposals_approvals {a : Db.Approval} :
    a ∈ (db.deleteProposals doomed).approvals ↔ a ∈ db.approvals ∧
      ¬∃ p ∈ db.proposals, doomed p = true ∧ p.id = a.proposalId := by
  unfold Database.deleteProposals
  rw [List.mem_filter, decide_eq_true_iff, mem_deleteProposals_ids]

@[simp] theorem Database.mem_deleteProposals_executions {x : Db.ProposalExecution} :
    x ∈ (db.deleteProposals doomed).proposalExecutions ↔ x ∈ db.proposalExecutions ∧
      ¬∃ p ∈ db.proposals, doomed p = true ∧ p.id = x.proposalId := by
  unfold Database.deleteProposals
  rw [List.mem_filter, decide_eq_true_iff, mem_deleteProposals_ids]

@[simp] theorem Database.mem_deleteContracts_configs {row : Db.ContractConfig} :
    row ∈ (db.deleteContracts lost).contractConfigs ↔ row ∈ db.contractConfigs ∧
      ¬∃ c ∈ db.contracts, lost c = true ∧ c.id = row.contractId := by
  unfold Database.deleteContracts Database.deleteProposals
  rw [List.mem_filter, decide_eq_true_iff, mem_deleteContracts_ids]

@[simp] theorem Database.mem_deleteContracts_memberships {row : Db.OwnerMembership} :
    row ∈ (db.deleteContracts lost).ownerMemberships ↔ row ∈ db.ownerMemberships ∧
      ¬∃ c ∈ db.contracts, lost c = true ∧ c.id = row.contractId := by
  unfold Database.deleteContracts Database.deleteProposals
  rw [List.mem_filter, decide_eq_true_iff, mem_deleteContracts_ids]

@[simp] theorem Database.mem_deleteContracts_proposals {p : Db.Proposal} :
    p ∈ (db.deleteContracts lost).proposals ↔ p ∈ db.proposals ∧
      ¬∃ c ∈ db.contracts, lost c = true ∧ c.id = p.contractId := by
  change p ∈ (db.deleteProposals _).proposals ↔ _
  rw [mem_deleteProposals_proposals, decide_eq_true_iff, mem_deleteContracts_ids]

@[simp] theorem Database.mem_deleteContracts_approvals {a : Db.Approval} :
    a ∈ (db.deleteContracts lost).approvals ↔ a ∈ db.approvals ∧
      ¬∃ p ∈ db.proposals, (∃ c ∈ db.contracts, lost c = true ∧ c.id = p.contractId) ∧
        p.id = a.proposalId := by
  change a ∈ (db.deleteProposals _).approvals ↔ _
  simp only [mem_deleteProposals_approvals, decide_eq_true_iff, mem_deleteContracts_ids]

@[simp] theorem Database.mem_deleteContracts_executions {x : Db.ProposalExecution} :
    x ∈ (db.deleteContracts lost).proposalExecutions ↔ x ∈ db.proposalExecutions ∧
      ¬∃ p ∈ db.proposals, (∃ c ∈ db.contracts, lost c = true ∧ c.id = p.contractId) ∧
        p.id = x.proposalId := by
  change x ∈ (db.deleteProposals _).proposalExecutions ↔ _
  simp only [mem_deleteProposals_executions, decide_eq_true_iff, mem_deleteContracts_ids]

@[simp] theorem Database.unlinked_deleteContracts :
    (db.deleteContracts lost).eventRaws.map Db.EventRaw.unlinked =
      db.eventRaws.map Db.EventRaw.unlinked := by
  unfold Database.deleteContracts Database.deleteProposals
  rw [List.map_map]
  rfl

@[simp] theorem Database.hidden_hideContracts :
    db.hideContracts.contracts.map Db.Contract.hidden = db.contracts.map Db.Contract.hidden := by
  unfold Database.hideContracts
  rw [List.map_map]
  apply List.map_congr_left
  intro c _
  rw [Function.comp_apply]
  split
  · rfl
  · rfl

end Tables

@[simp] theorem isAbove_iff {f : ℤ} {height : ℕ} : isAbove f height = true ↔ f < height :=
  decide_eq_true_iff

@[simp] theorem isAbove_eq_false {f : ℤ} {height : ℕ} : isAbove f height = false ↔ height ≤ f := by
  rw [← Bool.not_eq_true, isAbove_iff, not_lt]

theorem Db.Contract.any_discoveredAtBlock {f : ℤ} {c : Db.Contract} :
    c.discoveredAtBlock.any (isAbove f) = true ↔ c.IsAbove .full f := by
  unfold IsAbove
  cases c.discoveredAtBlock with
  | none => simp
  | some height => simp

theorem rollbackAboveFork_lite (f : ℤ) (db : Database) :
    Remains .lite f db (rollbackAboveFork .lite f db) := by
  have hkept (c : Db.Contract) : ¬c.IsAbove .lite f := fun h ↦ by cases h.1
  have hdoomed (p : Db.Proposal) : p.IsDoomed .lite db f ↔ f < p.createdAtBlock :=
    or_iff_left fun ⟨c, _, habove, _⟩ ↦ hkept c habove
  constructor
  · intro h
    change h ∈ db.blockHeaders.filter _ ↔ _
    simp
  · intro r
    change r ∈ (db.eventRaws.filter _).map _ ↔ _
    simp [and_assoc]
  · intro c
    change c ∈ ((db.deleteRows _).deleteProposals _).hideContracts.contracts.map _ ↔ _
    rw [Database.hidden_hideContracts]
    change c ∈ db.contracts.map _ ↔ _
    simp [hkept]
  · intro row
    change row ∈ db.contractConfigs.filter _ ↔ _
    simp [hkept]
  · intro row
    change row ∈ db.ownerMemberships.filter _ ↔ _
    simp [hkept]
  · intro p
    change p ∈ ((db.deleteRows _).deleteProposals _).proposals ↔ _
    rw [Database.mem_deleteProposals_proposals, hdoomed, isAbove_iff]
    rfl
  · intro row
    change row ∈ ((db.deleteRows _).deleteProposals _).approvals ↔ _
    rw [Database.mem_deleteProposals_approvals]
    simp only [hdoomed, isAbove_iff]
    change row ∈ db.approvals.filter _ ∧ _ ↔ _
    simp [and_assoc, Database.deleteRows]
  · intro row
    change row ∈ ((db.deleteRows _).deleteProposals _).proposalExecutions ↔ _
    rw [Database.mem_deleteProposals_executions]
    simp only [hdoomed, isAbove_iff]
    change row ∈ db.proposalExecutions.filter _ ∧ _ ↔ _
    simp [and_assoc, Database.deleteRows]

/-- A proposal is deleted for its height, or after that for its contract. -/
theorem not_isDoomed_iff {f : ℤ} {id : ℕ} :
    ((¬∃ p ∈ db.proposals, f < p.createdAtBlock ∧ p.id = id) ∧
      ¬∃ p, (p ∈ db.proposals ∧ ¬f < p.createdAtBlock) ∧
        (∃ c ∈ db.contracts, c.IsAbove .full f ∧ c.id = p.contractId) ∧ p.id = id) ↔
      ¬∃ p ∈ db.proposals, p.IsDoomed .full db f ∧ p.id = id := by
  rw [← not_or, not_iff_not]
  constructor
  · rintro (⟨p, hp, habove, hid⟩ | ⟨p, ⟨hp, -⟩, hcontract, hid⟩)
    · exact ⟨p, hp, Or.inl habove, hid⟩
    · exact ⟨p, hp, Or.inr hcontract, hid⟩
  · rintro ⟨p, hp, hdoomed, hid⟩
    by_cases habove : f < p.createdAtBlock
    · exact Or.inl ⟨p, hp, habove, hid⟩
    · exact Or.inr ⟨p, ⟨hp, habove⟩, hdoomed.resolve_left habove, hid⟩

theorem rollbackAboveFork_full (f : ℤ) (db : Database) :
    Remains .full f db (rollbackAboveFork .full f db) := by
  constructor
  · intro h
    change h ∈ db.blockHeaders.filter _ ↔ _
    simp
  · intro r
    change r ∈ (((db.deleteRows _).deleteProposals _).deleteContracts _).eventRaws.map _ ↔ _
    rw [Database.unlinked_deleteContracts]
    change r ∈ (db.eventRaws.filter _).map _ ↔ _
    simp [and_assoc]
  · intro c
    change c ∈ (((db.deleteRows _).deleteProposals _).deleteContracts _).hideContracts.contracts.map
      _ ↔ _
    rw [Database.hidden_hideContracts]
    change c ∈ (db.contracts.filter _).map _ ↔ _
    simp only [List.mem_map, List.mem_filter, Bool.not_eq_true', ← Bool.not_eq_true,
      Db.Contract.any_discoveredAtBlock, and_assoc]
  · intro row
    change row ∈ (((db.deleteRows _).deleteProposals _).deleteContracts _).contractConfigs ↔ _
    rw [Database.mem_deleteContracts_configs]
    simp only [Db.Contract.any_discoveredAtBlock]
    change row ∈ db.contractConfigs.filter _ ∧ _ ↔ _
    simp [and_assoc, Database.deleteRows, Database.deleteProposals]
  · intro row
    change row ∈ (((db.deleteRows _).deleteProposals _).deleteContracts _).ownerMemberships ↔ _
    rw [Database.mem_deleteContracts_memberships]
    simp only [Db.Contract.any_discoveredAtBlock]
    change row ∈ db.ownerMemberships.filter _ ∧ _ ↔ _
    simp [and_assoc, Database.deleteRows, Database.deleteProposals]
  · intro p
    change p ∈ (((db.deleteRows _).deleteProposals _).deleteContracts _).proposals ↔ _
    rw [Database.mem_deleteContracts_proposals, Database.mem_deleteProposals_proposals]
    simp only [Db.Contract.any_discoveredAtBlock, isAbove_iff]
    unfold Db.Proposal.IsDoomed
    rw [not_or, and_assoc]
    rfl
  · intro row
    change row ∈ (((db.deleteRows _).deleteProposals _).deleteContracts _).approvals ↔ _
    rw [Database.mem_deleteContracts_approvals, Database.mem_deleteProposals_approvals]
    simp only [Db.Contract.any_discoveredAtBlock, isAbove_iff,
      Database.mem_deleteProposals_proposals]
    change (row ∈ db.approvals.filter _ ∧ ¬∃ p ∈ db.proposals, _) ∧
      (¬∃ p, (p ∈ db.proposals ∧ _) ∧ (∃ c ∈ db.contracts, _) ∧ _) ↔ _
    rw [and_assoc, not_isDoomed_iff]
    simp [and_assoc]
  · intro row
    change row ∈ (((db.deleteRows _).deleteProposals _).deleteContracts _).proposalExecutions ↔ _
    rw [Database.mem_deleteContracts_executions, Database.mem_deleteProposals_executions]
    simp only [Db.Contract.any_discoveredAtBlock, isAbove_iff,
      Database.mem_deleteProposals_proposals]
    change (row ∈ db.proposalExecutions.filter _ ∧ ¬∃ p ∈ db.proposals, _) ∧
      (¬∃ p, (p ∈ db.proposals ∧ _) ∧ (∃ c ∈ db.contracts, _) ∧ _) ↔ _
    rw [and_assoc, not_isDoomed_iff]
    simp [and_assoc]

theorem rollbackAboveFork_remains (mode : IndexerMode) (f : ℤ) (db : Database) :
    Remains mode f db (rollbackAboveFork mode f db) := by
  cases mode with
  | lite => exact rollbackAboveFork_lite f db
  | full => exact rollbackAboveFork_full f db

/-- Exactly the rows above the fork go if nothing above it owns rows below. -/
theorem Remains.isRolledBack_iff {mode : IndexerMode} {f : ℤ} {db' : Database}
    (h : Remains mode f db db') : IsRolledBack mode f db db' ↔ OwnsNothingBelow mode db f := by
  constructor
  · intro hrolled
    constructor
    · intro c hc habove row hrow hid
      by_contra hle
      have hkept := (hrolled.contractConfigs row hrow).mpr (not_lt.mp hle)
      exact ((h.contractConfigs row).mp hkept).2.2 ⟨c, hc, habove, hid.symm⟩
    · intro c hc habove row hrow hid
      by_contra hle
      have hkept := (hrolled.ownerMemberships row hrow).mpr (not_lt.mp hle)
      exact ((h.ownerMemberships row).mp hkept).2.2 ⟨c, hc, habove, hid.symm⟩
    · intro c hc habove row hrow hid
      by_contra hle
      have hkept := (hrolled.proposals row hrow).mpr (not_lt.mp hle)
      exact ((h.proposals row).mp hkept).2 (Or.inr ⟨c, hc, habove, hid.symm⟩)
    · intro p hp habove row hrow hid
      by_contra hle
      have hkept := (hrolled.approvals row hrow).mpr (not_lt.mp hle)
      exact ((h.approvals row).mp hkept).2.2 ⟨p, hp, Or.inl habove, hid.symm⟩
    · intro p hp habove row hrow hid
      by_contra hle
      have hkept := (hrolled.proposalExecutions row hrow).mpr (not_lt.mp hle)
      exact ((h.proposalExecutions row).mp hkept).2.2 ⟨p, hp, Or.inl habove, hid.symm⟩
  · intro howns
    have hdoomed {p : Db.Proposal} (hp : p ∈ db.proposals) (hdoom : p.IsDoomed mode db f) :
        f < p.createdAtBlock := by
      rcases hdoom with habove | ⟨c, hc, habove, hid⟩
      · exact habove
      · exact howns.proposals c hc habove p hp hid.symm
    constructor
    · intro row hrow
      rw [h.blockHeaders, and_iff_right hrow]
    · intro r hr
      rw [h.eventRaws]
      constructor
      · rintro ⟨r', -, hle, hsame⟩
        have hheight := congrArg Db.EventRaw.blockHeight hsame
        change r'.blockHeight = r.blockHeight at hheight
        exact hheight ▸ hle
      · exact fun hle ↦ ⟨r, hr, hle, rfl⟩
    · intro c hc
      rw [h.contracts]
      constructor
      · rintro ⟨c', -, hkept, hsame⟩ ⟨hmode, height, hheight, hlt⟩
        have hdate := congrArg Db.Contract.discoveredAtBlock hsame
        change c'.discoveredAtBlock = c.discoveredAtBlock at hdate
        exact hkept ⟨hmode, height, hdate.trans hheight, hlt⟩
      · exact fun hkept ↦ ⟨c, hc, hkept, rfl⟩
    · intro row hrow
      rw [h.contractConfigs, and_iff_right hrow]
      refine and_iff_left_of_imp ?_
      rintro hle ⟨c, hc, habove, hid⟩
      exact absurd (howns.contractConfigs c hc habove row hrow hid.symm) (not_lt.mpr hle)
    · intro row hrow
      rw [h.ownerMemberships, and_iff_right hrow]
      refine and_iff_left_of_imp ?_
      rintro hle ⟨c, hc, habove, hid⟩
      exact absurd (howns.ownerMemberships c hc habove row hrow hid.symm) (not_lt.mpr hle)
    · intro p hp
      rw [h.proposals, and_iff_right hp]
      constructor
      · exact fun hkept ↦ not_lt.mp fun habove ↦ hkept (Or.inl habove)
      · exact fun hle hdoom ↦ absurd (hdoomed hp hdoom) (not_lt.mpr hle)
    · intro row hrow
      rw [h.approvals, and_iff_right hrow]
      refine and_iff_left_of_imp ?_
      rintro hle ⟨p, hp, hdoom, hid⟩
      exact absurd (howns.approvals p hp (hdoomed hp hdoom) row hrow hid.symm) (not_lt.mpr hle)
    · intro row hrow
      rw [h.proposalExecutions, and_iff_right hrow]
      refine and_iff_left_of_imp ?_
      rintro hle ⟨p, hp, hdoom, hid⟩
      exact absurd (howns.proposalExecutions p hp (hdoomed hp hdoom) row hrow hid.symm)
        (not_lt.mpr hle)

/-! ## Detection is complete -/

/-- What is expected of a detection: no stored header disagrees with the chain, and the
history above the fork, which is not above what is stored, is gone. -/
structure ReorgHandled (mode : IndexerMode) (headers : List BestChainHeader) (db : Database)
    (result : ReorgResult) : Prop where
  agree : ∀ s ∈ result.db.blockHeaders, ¬Disagrees (chainByHeight headers) s
  stored : ∀ f, result.forkHeight = some f → ∃ s ∈ db.blockHeaders, f ≤ s.height
  rolledBack : ∀ f, result.forkHeight = some f → IsRolledBack mode f db result.db

/-- No stored header disagrees with the chain below one that agrees. -/
def AgreesBelow (chain : InsertionMap ℕ BestChainHeader) (db : Database) : Prop :=
  ∀ s ∈ db.blockHeaders, Agrees chain s →
    ∀ s' ∈ db.blockHeaders, s'.height < s.height → ¬Disagrees chain s'

/-- Detection is right if and only if no header disagrees below one that agrees, and
nothing above the fork point owns rows at or below it. -/
theorem detectAndRollbackReorg_complete (mode : IndexerMode) (response : List DaemonBlock)
    (hnodup : (db.blockHeaders.map Db.BlockHeader.height).Nodup) :
    ReorgHandled mode (fetchBestChainHeaders response) db
        (detectAndRollbackReorg mode (.ok response) db) ↔
      AgreesBelow (chainByHeight (fetchBestChainHeaders response)) db ∧
        ∀ f, IsForkPoint db (chainByHeight (fetchBestChainHeaders response)) f →
          OwnsNothingBelow mode db f := by
  have hspec := @detectAndRollbackReorg_spec db mode response hnodup
  set chain := chainByHeight (fetchBestChainHeaders response) with hchain
  set result := detectAndRollbackReorg mode (.ok response) db
  have hremains (f : ℤ) := rollbackAboveFork_remains mode f db
  constructor
  · intro h
    constructor
    · intro s hs hagrees s' hs' hlt hdis
      rcases hspec with ⟨f, hf, -, hdb⟩ | ⟨-, -, -, hdb⟩
      · refine h.agree s' ?_ hdis
        rw [hdb, (hremains f).blockHeaders]
        refine ⟨hs', ?_⟩
        cases hf with
        | agreed s₀ hs₀ hagrees₀ hhighest hdiffers =>
            have hle : ¬s₀.height < s.height := fun hlt ↦ hhighest s hs hlt hagrees
            omega
        | unknown s₀ hs₀ hdiffers hlowest hnone => exact absurd hagrees (hnone s hs)
      · exact h.agree s' (hdb ▸ hs') hdis
    · intro f hf
      rcases hspec with ⟨f', hf', hfork, hdb⟩ | ⟨hno, -⟩
      · obtain rfl := hf.unique hf'
        have hrolled := h.rolledBack f hfork
        rw [hdb] at hrolled
        exact (hremains f).isRolledBack_iff.mp hrolled
      · exact absurd hf (hno f)
  · rintro ⟨hbelow, howns⟩
    rcases hspec with ⟨f, hf, hfork, hdb⟩ | ⟨-, hmasked, hnone, hdb⟩
    · have hsome {f' : ℤ} (h : result.forkHeight = some f') : f' = f :=
        Option.some.inj (h.symm.trans hfork)
      refine ⟨?_, fun f' hf' ↦ ?_, fun f' hf' ↦ ?_⟩
      · intro s hs hdis
        rw [hdb, (hremains f).blockHeaders] at hs
        obtain ⟨hs, hle⟩ := hs
        cases hf with
        | agreed s₀ hs₀ hagrees hhighest hdiffers =>
            rcases Nat.lt_or_eq_of_le (Int.ofNat_le.mp hle) with hlt | heq
            · exact hbelow s₀ hs₀ hagrees s hs hlt hdis
            · obtain rfl := List.inj_on_of_nodup_map hnodup hs hs₀ heq
              exact hagrees.not_disagrees hdis
        | unknown s₀ hs₀ hdiffers hlowest hnone =>
            have hge := hlowest s hs hdis
            omega
      · rw [hsome hf']
        cases hf with
        | agreed s₀ hs₀ => exact ⟨s₀, hs₀, le_refl _⟩
        | unknown s₀ hs₀ => exact ⟨s₀, hs₀, by omega⟩
      · rw [hsome hf', hdb]
        exact (hremains f).isRolledBack_iff.mpr (howns f hf)
    · refine ⟨?_, fun f' hf' ↦ ?_, fun f' hf' ↦ ?_⟩
      · intro s hs hdis
        rw [hdb] at hs
        obtain ⟨s', hs', hlt, hagrees⟩ := hmasked s hs hdis
        exact hbelow s' hs' hagrees s hs hlt hdis
      · rw [hnone] at hf'
        cases hf'
      · rw [hnone] at hf'
        cases hf'

namespace Walkthrough

/-- The daemon follows the new branch from height 10 on. -/
def newBranch : List DaemonBlock :=
  [⟨some "new-10", some "hash-9", some 10⟩, ⟨some "new-11", some "new-10", some 11⟩]

def newHeaders : List BestChainHeader :=
  [⟨10, "new-10", "hash-9"⟩, ⟨11, "new-11", "new-10"⟩]

theorem fetchBestChainHeaders_newBranch : fetchBestChainHeaders newBranch = newHeaders := by
  unfold fetchBestChainHeaders
  refine (List.mergeSort_of_pairwise ?_).trans (by decide)
  decide

/-- An event of the old branch was stored at height 10, and one of the new at 11. -/
def mixedHeaders : Database where
  blockHeaders := [⟨10, "old-10", "hash-9"⟩, ⟨11, "new-11", "new-10"⟩]

/-- The header at height 10 is of another block than the daemon's, but detection finds
nothing, since the one at height 11 is the daemon's. -/
theorem mixed_headers_missed :
    (detectAndRollbackReorg .full (.ok newBranch) mixedHeaders).forkHeight = none ∧
      (detectAndRollbackReorg .full (.ok newBranch) mixedHeaders).db = mixedHeaders ∧
      ∃ s ∈ mixedHeaders.blockHeaders,
        Disagrees (chainByHeight (fetchBestChainHeaders newBranch)) s := by
  have hold : Disagrees (chainByHeight newHeaders) ⟨10, "old-10", "hash-9"⟩ :=
    ⟨⟨10, "new-10", "hash-9"⟩, by decide, by decide⟩
  have hnew : Agrees (chainByHeight newHeaders) ⟨11, "new-11", "new-10"⟩ :=
    ⟨⟨11, "new-11", "new-10"⟩, by decide, rfl⟩
  have hspec := @detectAndRollbackReorg_spec mixedHeaders .full newBranch (by decide)
  rw [fetchBestChainHeaders_newBranch] at hspec ⊢
  rcases hspec with ⟨f, hf, -, -⟩ | ⟨-, -, hnone, hdb⟩
  · exfalso
    cases hf with
    | agreed s hs hagrees hhighest hdiffers =>
        obtain ⟨s', hs', hlt, hdis⟩ := hdiffers
        rcases List.mem_pair.mp hs' with rfl | rfl
        · rcases List.mem_pair.mp hs with rfl | rfl
          · exact absurd hlt (by decide)
          · exact absurd hlt (by decide)
        · exact hnew.not_disagrees hdis
    | unknown s hs hdiffers hlowest hnone => exact hnone _ (by decide) hnew
  · exact ⟨hnone, hdb, _, List.mem_cons_self, hold⟩

/-- A header of the old branch at height 11, and one from before it. -/
def oldHeaders : Database where
  blockHeaders := [⟨10, "new-10", "hash-9"⟩, ⟨11, "old-11", "new-10"⟩]

/-- An old branch of one block is handled. -/
theorem old_headers_handled :
    ReorgHandled .full (fetchBestChainHeaders newBranch) oldHeaders
      (detectAndRollbackReorg .full (.ok newBranch) oldHeaders) := by
  have hold : Disagrees (chainByHeight newHeaders) ⟨11, "old-11", "new-10"⟩ :=
    ⟨⟨11, "new-11", "new-10"⟩, by decide, by decide⟩
  refine (@detectAndRollbackReorg_complete oldHeaders .full newBranch (by decide)).mpr ⟨?_, ?_⟩
  · rw [fetchBestChainHeaders_newBranch]
    intro s hs hagrees s' hs' hlt
    rcases List.mem_pair.mp hs with rfl | rfl
    · rcases List.mem_pair.mp hs' with rfl | rfl
      · exact absurd hlt (by decide)
      · exact absurd hlt (by decide)
    · exact absurd hold hagrees.not_disagrees
  · intro f _
    exact ⟨fun _ h ↦ absurd h List.not_mem_nil, fun _ h ↦ absurd h List.not_mem_nil,
      fun _ h ↦ absurd h List.not_mem_nil, fun _ h ↦ absurd h List.not_mem_nil,
      fun _ h ↦ absurd h List.not_mem_nil⟩

end Walkthrough

end MinaGuard
