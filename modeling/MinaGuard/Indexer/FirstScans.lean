import MinaGuard.Indexer.RowFootprints
import MinaGuard.Indexer.Ingest

/-!
# First scans and their budget

The unready contracts that were never stamped share a budget of steps in each
tick, in the order of the database.  A step of a refused contract is spent
without progress.  What a tick without failures does to each first scan is
computed here from the state before it.
-/

namespace MinaGuard

open Foundations IndexerProgram Program

/-- What the daemon and the archive answer during one tick. -/
structure ChainView where
  latestHeight : ℕ
  security : String → VaultSecurityStatus
  events : String → ℕ → ℕ → List ChainEvent
  candidates : ℕ → List DiscoveryCandidate

namespace ChainView

variable (view : ChainView)

/-- Requests that are answered so, and never fail. -/
def requests : Requests where
  latestHeight := pure view.latestHeight
  security := fun address ↦ pure (view.security address)
  events := fun address fromHeight toHeight ↦ pure (view.events address fromHeight toHeight)
  candidates := fun indexedHeight ↦ pure (view.candidates indexedHeight)

/-- The account exists and is safe. -/
def isSafe (address : String) : Bool :=
  (view.security address).accountFound && (view.security address).safe

/-- A sync of this contract finds its account missing or refuses it. -/
def refuses (c : Db.Contract) : Bool := !c.permissionsVerified && !view.isSafe c.address

theorem quiet : view.requests.Quiet where
  latestHeight := within_pure trivial
  security := fun _ ↦ within_pure trivial
  events := fun _ _ _ ↦ within_pure trivial
  candidates := fun _ ↦ within_pure trivial

end ChainView

section Budget

variable (config : BackendConfig)

/-- Where the first scan of a contract starts. -/
def scanStart (c : Db.Contract) : ℕ := c.discoveredAtBlock.getD config.indexStartHeight

/-- The first block it has not scanned. -/
def scanNext (scans : InsertionMap ℕ FirstScan) (c : Db.Contract) : ℕ :=
  match scans.get? c.id with
  | some scan => if scan.start = scanStart config c then scan.next else scanStart config c
  | none => scanStart config c

/-- The steps from a block to the tip. -/
def stepsBetween (next tip : ℕ) : ℕ := (tip - next) / eventQueryBlockSpan + 1

/-- The steps a first scan needs to finish. -/
def stepsLeft (tip : ℕ) (scans : InsertionMap ℕ FirstScan) (c : Db.Contract) : ℕ :=
  if c.synced then 0 else stepsBetween (scanNext config scans c) tip

/-- Whether a tick tries to advance the first scan. -/
def isDue (tip : ℕ) (c : Db.Contract) : Bool :=
  !c.ready && !c.synced && scanStart config c ≤ tip

/-- What a contract takes from the budget if there is enough. -/
def scanCost (view : ChainView) (scans : InsertionMap ℕ FirstScan) (c : Db.Contract) : ℕ :=
  if isDue config view.latestHeight c then
    if view.refuses c then 1 else stepsLeft config view.latestHeight scans c
  else 0

/-- The steps that contracts take together. -/
def spent (view : ChainView) (scans : InsertionMap ℕ FirstScan) (l : List Db.Contract) : ℕ :=
  (l.map (scanCost config view scans)).sum

/-- The steps by which the scan advances when this much of the budget is left. -/
def granted (view : ChainView) (scans : InsertionMap ℕ FirstScan) (budget : ℕ)
    (c : Db.Contract) : ℕ :=
  if isDue config view.latestHeight c && !view.refuses c then
    min (stepsLeft config view.latestHeight scans c) budget
  else 0

/-- Row `c` became `c'` while its scan advanced by `n` steps. -/
structure Advances (tip n : ℕ) (scans scans' : InsertionMap ℕ FirstScan)
    (c c' : Db.Contract) : Prop where
  id : c'.id = c.id
  discoveredAtBlock : c'.discoveredAtBlock = c.discoveredAtBlock
  le : n ≤ stepsLeft config tip scans c
  done : c'.synced = true ↔ n = stepsLeft config tip scans c
  next : c'.synced = false →
    scanNext config scans' c' = scanNext config scans c + n * eventQueryBlockSpan

end Budget

section Step

variable {E : Env} {lib : Backend E} {config : BackendConfig} {view : ChainView}
  {s s' : IndexerState} {ls : List (Option Mark)} {d : Db.Contract} {contractId : ℕ}
  {address : String}

theorem alone_pure {α : Type} {a : α} {r : Except Thrown α}
    (h : (pure a : IndexerProgram α).Alone s ls s' r) : s = s' ∧ r = .ok a := by
  cases h
  exact ⟨rfl, rfl⟩

theorem alone_scans {α : Type}
    {f : InsertionMap ℕ FirstScan → α × InsertionMap ℕ FirstScan} {r : Except Thrown α}
    (h : (scans f).Alone s ls s' r) :
    s' = { s with firstScans := (f s.firstScans).2 } ∧ r = .ok (f s.firstScans).1 := by
  cases h with
  | memory rest =>
      cases rest
      exact ⟨rfl, rfl⟩

theorem updateContract_row {db db' : Database} {f : Db.Contract → Db.Contract}
    (h : db.updateContract contractId f = .ok db') (hd : d ∈ db.contracts)
    (hid : d.id = contractId) : f d ∈ db'.contracts := by
  rw [updateContract_ok h]
  have := List.mem_map_of_mem (f := fun c ↦ if c.id = contractId then f c else c) hd
  rwa [if_pos hid] at this

theorem alone_execute_ok {label : Option Mark} {body : Database → Except Thrown Database}
    {u : Unit} (h : (execute label body).Alone s ls s' (.ok u)) :
    ∃ db, body s.db = .ok db ∧ s' = { s with db := db } := by
  rcases alone_execute h with ⟨db, hdb, hs, -⟩ | ⟨_, -, -, hr⟩
  · exact ⟨db, hdb, hs⟩
  · cases hr

/-- The verdict on the account, with the row it is stored in. -/
theorem alone_verifyPermissions_view (hkeyed : s.db.Keyed) (hd : d ∈ s.db.contracts)
    (hid : d.id = contractId) (haddress : d.address = address) {verified : Bool}
    (h : (verifyPermissions view.requests contractId address).Alone s ls s' (.ok verified)) :
    verified = !view.refuses d ∧ ∃ d' ∈ s'.db.contracts, d.Evolves True d' ∧
      d'.synced = d.synced ∧ (verified = true → d'.permissionsVerified = true) := by
  subst hid haddress
  obtain ⟨known, s₁, _, _, hquery, hrest, -⟩ := alone_bind_ok h
  obtain ⟨rfl, hknown⟩ := alone_query hquery
  rw [hkeyed.findContract hd] at hknown
  cases hknown
  split at hrest
  next hverified =>
    obtain ⟨rfl, hr⟩ := alone_pure hrest
    cases hr
    have hverified : d.permissionsVerified = true := Option.some.inj hverified
    refine ⟨?_, d, hd, .refl d, rfl, fun _ ↦ hverified⟩
    simp [ChainView.refuses, hverified]
  next hverified =>
    have hfalse : d.permissionsVerified = false :=
      Bool.eq_false_iff.mpr fun htrue ↦ hverified (congrArg some htrue)
    obtain ⟨security, _, _, _, hrequest, hrest, -⟩ := alone_bind_ok hrest
    obtain ⟨rfl, hr⟩ := alone_pure hrequest
    cases hr
    split at hrest
    next hmissing =>
      obtain ⟨rfl, hr⟩ := alone_pure hrest
      cases hr
      refine ⟨?_, d, hd, .refl d, rfl, nofun⟩
      simp [ChainView.refuses, ChainView.isSafe, hfalse, hmissing]
    next hfound =>
      split at hrest
      next hunsafe =>
        obtain ⟨_, _, _, _, hwrite, hrest, -⟩ := alone_bind_ok hrest
        obtain ⟨db, hdb, rfl⟩ := alone_execute_ok hwrite
        obtain ⟨rfl, hr⟩ := alone_pure hrest
        cases hr
        refine ⟨?_, _, updateContract_row hdb hd rfl, ⟨rfl, rfl, rfl, fun h ↦ h, nofun,
          fun h ↦ absurd trivial h⟩, rfl, nofun⟩
        simp [ChainView.refuses, ChainView.isSafe, hfalse, hunsafe]
      next hsafe =>
        obtain ⟨_, _, _, _, hwrite, hrest, -⟩ := alone_bind_ok hrest
        obtain ⟨db, hdb, rfl⟩ := alone_execute_ok hwrite
        obtain ⟨rfl, hr⟩ := alone_pure hrest
        cases hr
        refine ⟨?_, _, updateContract_row hdb hd rfl, ⟨rfl, rfl, rfl, fun h ↦ h, fun h ↦ h,
          fun h ↦ absurd trivial h⟩, rfl, fun _ ↦ rfl⟩
        simp [ChainView.refuses, ChainView.isSafe, hfalse, hfound, hsafe]

/-- The stamp. -/
theorem alone_finishSync_row {ingested readyFromStoredEvents : Bool} {u : Unit}
    (hd : d ∈ s.db.contracts) (hid : d.id = contractId)
    (h : (finishSync contractId ingested readyFromStoredEvents).Alone s ls s' (.ok u)) :
    ∃ d' ∈ s'.db.contracts, d.Evolves True d' ∧ d'.synced = true ∧
      d'.permissionsVerified = d.permissionsVerified := by
  have hstamp {stored : Bool} {s : IndexerState} {ls : List (Option Mark)}
      (hd : d ∈ s.db.contracts)
      (h : (execute none fun db ↦ db.updateContract contractId fun c ↦
        if ingested || stored then { c with synced := true, ready := true }
        else { c with synced := true }).Alone s ls s' (.ok u)) :
      ∃ d' ∈ s'.db.contracts, d.Evolves True d' ∧ d'.synced = true ∧
        d'.permissionsVerified = d.permissionsVerified := by
    obtain ⟨db, hdb, rfl⟩ := alone_execute_ok h
    refine ⟨_, updateContract_row hdb hd hid, ?_⟩
    split
    · exact ⟨⟨rfl, rfl, rfl, fun _ ↦ rfl, fun _ _ ↦ rfl, fun h ↦ absurd trivial h⟩, rfl, rfl⟩
    · exact ⟨⟨rfl, rfl, rfl, fun _ ↦ rfl, fun _ _ ↦ rfl, fun h ↦ absurd trivial h⟩, rfl, rfl⟩
  unfold finishSync at h
  dsimp only at h
  split at h
  · obtain ⟨stored, _, _, _, hquery, hrest, -⟩ := alone_bind_ok h
    obtain ⟨rfl, -⟩ := alone_query hquery
    exact hstamp hd hrest
  · exact hstamp hd h

/-- A sync does nothing exactly for a refused contract, and stamps the row if it
finishes the scan. -/
theorem alone_syncSingleContract_view (hkeyed : s.db.Keyed) (hd : d ∈ s.db.contracts)
    (hid : d.id = contractId) (haddress : d.address = address) {fromHeight toHeight : ℕ}
    {finish readyFromStoredEvents : Bool} {result : Option Bool}
    (h : (syncSingleContract lib config view.requests contractId address fromHeight toHeight
      finish readyFromStoredEvents).Alone s ls s' (.ok result)) :
    result.isSome = !view.refuses d ∧ ∃ d' ∈ s'.db.contracts, d.Evolves True d' ∧
      d'.synced = (d.synced || (result.isSome && finish)) ∧
      (result.isSome = true → d'.permissionsVerified = true) := by
  obtain ⟨verified, s₁, _, _, hverify, hrest, -⟩ := alone_bind_ok h
  obtain ⟨hverdict, d₁, hd₁, hevolves₁, hsynced₁, hverified₁⟩ :=
    alone_verifyPermissions_view hkeyed hd hid haddress hverify
  split at hrest
  next htrue =>
    rw [htrue] at hverdict
    obtain ⟨rawEvents, _, _, _, hfetch, hrest, -⟩ := alone_bind_ok hrest
    obtain ⟨rfl, -⟩ := alone_pure hfetch
    obtain ⟨_, _, _, _, hmark, hrest, -⟩ := alone_bind_ok hrest
    obtain ⟨rfl, -⟩ := alone_mark hmark
    obtain ⟨ingested, s₂, _, _, hloop, hrest, -⟩ := alone_bind_ok hrest
    -- applying events flags no row
    have hkeeps : s₁.db.Keeps (fun _ ↦ False) s₂.db :=
      (Writes.alone (Within.foldlM trivial fun _ _ _ _ ↦ syncEvent_writes) hloop).1
    obtain ⟨d₂, hd₂, hevolves₂⟩ := hkeeps.row hd₁
    obtain ⟨-, hverified₂, hsynced₂⟩ := hevolves₂.flags id
    have hevolves : d.Evolves True d₂ := hevolves₁.trans hevolves₂ fun _ ↦ trivial
    dsimp only at hrest
    split at hrest
    next hfinish =>
      obtain ⟨_, _, _, _, hfinished, hrest, -⟩ := alone_bind_ok hrest
      obtain ⟨d₃, hd₃, hevolves₃, hsynced₃, hverified₃⟩ :=
        alone_finishSync_row hd₂ (hevolves.id.trans hid) hfinished
      obtain ⟨_, _, _, _, hmark, hrest, -⟩ := alone_bind_ok hrest
      obtain ⟨rfl, -⟩ := alone_mark hmark
      obtain ⟨rfl, hr⟩ := alone_pure hrest
      cases hr
      refine ⟨hverdict, d₃, hd₃, hevolves.trans hevolves₃ fun _ ↦ trivial, ?_, fun _ ↦ ?_⟩
      · rw [hsynced₃, hfinish, Option.isSome_some, Bool.and_self, Bool.or_true]
      · rw [hverified₃, hverified₂, hverified₁ htrue]
    next hfinish =>
      obtain ⟨_, _, _, _, hmark, hrest, -⟩ := alone_bind_ok hrest
      obtain ⟨rfl, -⟩ := alone_mark hmark
      obtain ⟨rfl, hr⟩ := alone_pure hrest
      cases hr
      refine ⟨hverdict, d₂, hd₂, hevolves, ?_, fun _ ↦ ?_⟩
      · rw [hsynced₂, hsynced₁, Bool.eq_false_iff.mpr hfinish, Bool.and_false, Bool.or_false]
      · rw [hverified₂, hverified₁ htrue]
  next hfalse =>
    rw [Bool.eq_false_iff.mpr hfalse] at hverdict
    obtain ⟨rfl, hr⟩ := alone_pure hrest
    cases hr
    refine ⟨hverdict, d₁, hd₁, hevolves₁, ?_, nofun⟩
    rw [hsynced₁, Option.isSome_none, Bool.false_and, Bool.or_false]

/-! ## One scan -/

theorem stepsBetween_pos {next tip : ℕ} : 0 < stepsBetween next tip := Nat.succ_pos _

/-- A step that does not reach the tip leaves one step less. -/
theorem stepsBetween_succ {next tip : ℕ} (h : next + eventQueryBlockSpan ≤ tip) :
    stepsBetween next tip = stepsBetween (next + eventQueryBlockSpan) tip + 1 := by
  unfold stepsBetween eventQueryBlockSpan at *
  omega

theorem stepsBetween_eq_one {next tip : ℕ} (h : tip < next + eventQueryBlockSpan) :
    stepsBetween next tip = 1 := by
  unfold stepsBetween eventQueryBlockSpan at *
  omega

/-- A first scan with `steps` of the budget left. -/
theorem alone_firstScanSteps {contract : Db.Contract} {start latestHeight steps next k : ℕ}
    (hkeyed : s.db.Keyed) (hd : d ∈ s.db.contracts) (hid : d.id = contract.id)
    (haddress : d.address = contract.address) (hsynced : d.synced = false)
    (hscan : s.firstScans.get? contract.id = some ⟨start, next⟩)
    (h : (firstScanSteps lib config view.requests contract start latestHeight steps
      next).Alone s ls s' (.ok k)) :
    let left := stepsBetween next latestHeight
    let n := if view.refuses d then 0 else min left steps
    k = steps - (if view.refuses d then 1 else left) ∧
      s.db.Keeps (fun id ↦ id = contract.id) s'.db ∧
      (∀ id, id ≠ contract.id → s'.firstScans.get? id = s.firstScans.get? id) ∧
      ∃ d' ∈ s'.db.contracts, d.Evolves True d' ∧ (d'.synced = true ↔ n = left) ∧
        (n ≠ left → s'.firstScans.get? contract.id =
          some ⟨start, next + n * eventQueryBlockSpan⟩) := by
  induction steps generalizing s ls next d with
  | zero =>
      obtain ⟨rfl, hk⟩ := alone_pure h
      cases hk
      have hzero : (if view.refuses d = true then 0
          else min (stepsBetween next latestHeight) 0) = 0 := by
        rw [Nat.min_zero, ite_self]
      dsimp only
      rw [hzero, Nat.zero_sub, Nat.zero_mul, Nat.add_zero]
      refine ⟨rfl, .refl _, fun _ _ ↦ rfl, d, hd, .refl d, ?_, fun _ ↦ hscan⟩
      rw [hsynced]
      exact ⟨nofun, fun h ↦ absurd h stepsBetween_pos.ne⟩
  | succ steps ih =>
      obtain ⟨result, s₁, _, _, hsync, hrest, -⟩ := alone_bind_ok h
      obtain ⟨hkeeps, hscans⟩ := (syncSingleContract_writes view.quiet).alone hsync
      obtain ⟨hresult, d₁, hd₁, hevolves₁, hsynced₁, hverified₁⟩ :=
        alone_syncSingleContract_view hkeyed hd hid haddress hsync
      rw [hsynced, Bool.false_or] at hsynced₁
      cases result with
      | none =>
          have hrefused : view.refuses d = true := by simpa using hresult
          obtain ⟨rfl, hk⟩ := alone_pure hrest
          dsimp only
          rw [if_pos hrefused, if_pos hrefused, Nat.zero_mul]
          refine ⟨Except.ok.inj hk, hkeeps, fun id _ ↦ by rw [hscans], d₁, hd₁, hevolves₁, ?_,
            fun _ ↦ by rw [hscans, hscan, Nat.add_zero]⟩
          rw [hsynced₁]
          exact ⟨nofun, fun h ↦ absurd h stepsBetween_pos.ne⟩
      | some ingested =>
          have haccepted : view.refuses d = false := by simpa using hresult
          dsimp only at hrest ⊢
          rw [haccepted, if_neg Bool.false_ne_true, if_neg Bool.false_ne_true]
          split at hrest
          next hfinish =>
            have hone : stepsBetween next latestHeight = 1 := by
              refine stepsBetween_eq_one ?_
              rw [decide_eq_true_eq] at hfinish
              unfold eventQueryBlockSpan at *
              omega
            obtain ⟨_, s₂, _, _, hdelete, hrest, -⟩ := alone_bind_ok hrest
            obtain ⟨rfl, -⟩ := alone_scans hdelete
            obtain ⟨_, _, _, _, hquery, hrest, -⟩ := alone_bind_ok hrest
            obtain ⟨rfl, -⟩ := alone_query hquery
            obtain ⟨rfl, hk⟩ := alone_pure hrest
            rw [hone, Nat.min_eq_left (Nat.le_add_left 1 steps)]
            refine ⟨Except.ok.inj hk, hkeeps, fun id hne ↦ ?_, d₁, hd₁, hevolves₁, ?_,
              fun h ↦ absurd rfl h⟩
            · rw [InsertionMap.get?_filter (p := fun id ↦ id ≠ contract.id) (by simpa using hne),
                hscans]
            · rw [hsynced₁, hfinish]
              exact ⟨fun _ ↦ rfl, fun _ ↦ rfl⟩
          next hfinish =>
            have hbelow : next + eventQueryBlockSpan ≤ latestHeight := by
              rw [decide_eq_true_eq] at hfinish
              unfold eventQueryBlockSpan at *
              omega
            have hto : min (next + eventQueryBlockSpan - 1) latestHeight + 1 =
                next + eventQueryBlockSpan := by
              unfold eventQueryBlockSpan at *
              omega
            obtain ⟨_, s₂, _, _, hset, hrest, -⟩ := alone_bind_ok hrest
            obtain ⟨rfl, -⟩ := alone_scans hset
            rw [hto] at hrest
            have haccepted₁ : view.refuses d₁ = false := by
              rw [ChainView.refuses, hverified₁ rfl, Bool.not_true, Bool.false_and]
            rw [Bool.eq_false_iff.mpr hfinish] at hsynced₁
            obtain ⟨hk, hkeeps₂, hothers, d₂, hd₂, hevolves₂, hdone, hnext⟩ :=
              ih (s := { s₁ with
                  firstScans := s₁.firstScans.set contract.id
                    ⟨start, next + eventQueryBlockSpan⟩ })
                (hkeeps.keyed hkeyed) hd₁ (hevolves₁.id.trans hid)
                (hevolves₁.address.trans haddress) hsynced₁ InsertionMap.get?_set_self hrest
            rw [haccepted₁, if_neg Bool.false_ne_true] at hk hdone hnext
            rw [stepsBetween_succ hbelow, Nat.add_min_add_right, Nat.add_sub_add_right]
            refine ⟨hk, hkeeps.trans hkeeps₂, fun id hne ↦ ?_, d₂, hd₂,
              hevolves₁.trans hevolves₂ fun _ ↦ trivial, ?_, fun hne ↦ ?_⟩
            · rw [hothers id hne, InsertionMap.get?_set_of_ne hne, hscans]
            · rw [hdone, Nat.add_right_cancel_iff]
            · rw [hnext fun h ↦ hne (congrArg (· + 1) h), Nat.add_mul, Nat.one_mul, Nat.add_assoc,
                Nat.add_comm eventQueryBlockSpan]

variable {c : Db.Contract} {budget k fromHeight : ℕ}

theorem ChainView.refuses_congr (haddress : d.address = c.address)
    (hverified : d.permissionsVerified = c.permissionsVerified) :
    view.refuses d = view.refuses c := by
  rw [refuses, refuses, haddress, hverified]

theorem scanNext_congr {scans scans' : InsertionMap ℕ FirstScan} (hid : d.id = c.id)
    (hblock : d.discoveredAtBlock = c.discoveredAtBlock)
    (hscans : scans'.get? c.id = scans.get? c.id) :
    scanNext config scans' d = scanNext config scans c := by
  unfold scanNext scanStart
  rw [hid, hblock, hscans]

/-- A row that was stamped before. -/
theorem advances_synced {scans scans' : InsertionMap ℕ FirstScan} {tip : ℕ} (hid : d.id = c.id)
    (hblock : d.discoveredAtBlock = c.discoveredAtBlock) (hc : c.synced = true)
    (hd : d.synced = true) : Advances config tip 0 scans scans' c d := by
  refine ⟨hid, hblock, Nat.zero_le _, ?_, fun hfalse ↦ ?_⟩
  · rw [stepsLeft, if_pos hc]
    exact ⟨fun _ ↦ rfl, fun _ ↦ hd⟩
  · rw [hd] at hfalse
    cases hfalse

/-- A row whose scan does not run. -/
theorem advances_zero {scans scans' : InsertionMap ℕ FirstScan} {tip : ℕ} (hid : d.id = c.id)
    (hblock : d.discoveredAtBlock = c.discoveredAtBlock) (hc : c.synced = false)
    (hd : d.synced = false) (hscans : scans'.get? c.id = scans.get? c.id) :
    Advances config tip 0 scans scans' c d := by
  refine ⟨hid, hblock, Nat.zero_le _, ?_, fun _ ↦ ?_⟩
  · rw [stepsLeft, hc, hd, if_neg Bool.false_ne_true]
    exact ⟨nofun, fun h ↦ absurd h stepsBetween_pos.ne⟩
  · rw [Nat.zero_mul, Nat.add_zero, scanNext_congr hid hblock hscans]

theorem alone_rescanContract (hkeyed : s.db.Keyed) (hd : d ∈ s.db.contracts)
    (hsame : c.Evolves False d) (hunready : c.ready = false)
    (h : (rescanContract lib config view.requests fromHeight view.latestHeight budget
      c).Alone s ls s' (.ok k)) :
    k = budget - scanCost config view s.firstScans c ∧
      s.db.Keeps (fun id ↦ id = c.id) s'.db ∧
      (∀ id, id ≠ c.id → s'.firstScans.get? id = s.firstScans.get? id) ∧
      ∃ d' ∈ s'.db.contracts, Advances config view.latestHeight
        (granted config view s.firstScans budget c) s.firstScans s'.firstScans c d' := by
  obtain ⟨-, hverified, hsynced⟩ := hsame.flags not_false
  have hidle (hdue : isDue config view.latestHeight c = false) :
      scanCost config view s.firstScans c = 0 ∧
        granted config view s.firstScans budget c = 0 := by
    simp [scanCost, granted, hdue]
  unfold rescanContract at h
  dsimp only at h
  split at h
  next hstamped =>
    obtain ⟨hcost, hgranted⟩ := hidle (by simp [isDue, hstamped])
    rw [hcost, hgranted, Nat.sub_zero]
    split at h
    · obtain ⟨rfl, hk⟩ := alone_pure h
      exact ⟨Except.ok.inj hk, .refl _, fun _ _ ↦ rfl, d, hd,
        advances_synced hsame.id hsame.discoveredAtBlock hstamped (hsynced.trans hstamped)⟩
    · obtain ⟨result, s₁, _, _, hsync, hrest, -⟩ := alone_bind_ok h
      obtain ⟨hkeeps, hscans⟩ := (syncSingleContract_writes view.quiet).alone hsync
      obtain ⟨rfl, hk⟩ := alone_pure hrest
      obtain ⟨d', hd', hevolves⟩ := hkeeps.row hd
      refine ⟨Except.ok.inj hk, hkeeps, fun _ _ ↦ by rw [hscans], d', hd',
        advances_synced (hevolves.id.trans hsame.id)
          (hevolves.discoveredAtBlock.trans hsame.discoveredAtBlock) hstamped
          (hevolves.synced (hsynced.trans hstamped))⟩
  next hpending =>
    have hpending : c.synced = false := Bool.eq_false_iff.mpr hpending
    split at h
    next hlate =>
      obtain ⟨hcost, hgranted⟩ := hidle (by simp [isDue, scanStart, Nat.not_le.mpr hlate])
      obtain ⟨rfl, hk⟩ := alone_pure h
      rw [hcost, hgranted, Nat.sub_zero]
      exact ⟨Except.ok.inj hk, .refl _, fun _ _ ↦ rfl, d, hd,
        advances_zero hsame.id hsame.discoveredAtBlock hpending (hsynced.trans hpending) rfl⟩
    next hreached =>
      have hdue : isDue config view.latestHeight c = true := by
        simp [isDue, hunready, hpending, scanStart, Nat.le_of_not_lt hreached]
      have hleft : stepsLeft config view.latestHeight s.firstScans c =
          stepsBetween (scanNext config s.firstScans c) view.latestHeight := by
        rw [stepsLeft, hpending, if_neg Bool.false_ne_true]
      obtain ⟨scan, s₁, _, _, hresume, hrest, -⟩ := alone_bind_ok h
      -- the scan goes on where it stopped, unless its start has moved
      have hentry : s₁.db = s.db ∧ scan.next = scanNext config s.firstScans c ∧
          s₁.firstScans.get? c.id =
            some ⟨scanStart config c, scanNext config s.firstScans c⟩ ∧
          ∀ id, id ≠ c.id → s₁.firstScans.get? id = s.firstScans.get? id := by
        obtain ⟨rfl, hscan⟩ := alone_scans hresume
        rw [Except.ok.inj hscan]
        dsimp only
        unfold scanNext scanStart
        cases hm : s.firstScans.get? c.id with
        | none =>
            exact ⟨rfl, rfl, InsertionMap.get?_set_self,
              fun _ hne ↦ InsertionMap.get?_set_of_ne hne⟩
        | some entry =>
            dsimp only
            split
            next hstart =>
              refine ⟨rfl, rfl, ?_, fun _ _ ↦ rfl⟩
              rw [hm, ← hstart]
            next =>
              exact ⟨rfl, rfl, InsertionMap.get?_set_self,
                fun _ hne ↦ InsertionMap.get?_set_of_ne hne⟩
      obtain ⟨hdb, hnext, hentry, hothers⟩ := hentry
      rw [hnext] at hrest
      rw [← hdb] at hkeyed hd
      obtain ⟨hk, hkeeps, hothers', d', hd', hevolves, hdone, hrun⟩ :=
        alone_firstScanSteps (d := d) hkeyed hd hsame.id hsame.address (hsynced.trans hpending)
          hentry hrest
      have hgranted : granted config view s.firstScans budget c =
          if view.refuses d then 0
          else min (stepsBetween (scanNext config s.firstScans c) view.latestHeight) budget := by
        unfold granted
        rw [hdue, hleft, Bool.true_and, ChainView.refuses_congr hsame.address hverified]
        cases view.refuses c <;> rfl
      rw [← hgranted] at hdone hrun
      rw [hdb] at hkeeps
      refine ⟨?_, hkeeps, fun id hne ↦ (hothers' id hne).trans (hothers id hne), d', hd',
        hevolves.id.trans hsame.id, hevolves.discoveredAtBlock.trans hsame.discoveredAtBlock,
        ?_, ?_, fun hfalse ↦ ?_⟩
      · rw [hk, scanCost, hdue, if_pos rfl, hleft,
          ChainView.refuses_congr hsame.address hverified]
      · rw [hgranted, hleft]
        split
        · exact Nat.zero_le _
        · exact Nat.min_le_left _ _
      · rw [hdone, hleft]
      · have hne := fun heq ↦ Bool.eq_false_iff.mp hfalse (hdone.mpr heq)
        unfold scanNext scanStart
        rw [hevolves.id.trans hsame.id, hrun hne,
          hevolves.discoveredAtBlock.trans hsame.discoveredAtBlock]
        exact if_pos rfl

section Congruence

variable {scans scans₀ scans' scans'' : InsertionMap ℕ FirstScan} {tip n : ℕ}

/-- Of the map of first scans only the entry of a pending scan is read. -/
theorem stepsLeft_congr (h : c.synced = false → scans.get? c.id = scans₀.get? c.id) :
    stepsLeft config tip scans c = stepsLeft config tip scans₀ c := by
  unfold stepsLeft
  split
  · rfl
  next hc => rw [scanNext_congr rfl rfl (h (Bool.eq_false_iff.mpr hc))]

theorem scanCost_congr (h : c.synced = false → scans.get? c.id = scans₀.get? c.id) :
    scanCost config view scans c = scanCost config view scans₀ c := by
  unfold scanCost
  rw [stepsLeft_congr h]

theorem granted_congr (h : c.synced = false → scans.get? c.id = scans₀.get? c.id) :
    granted config view scans budget c = granted config view scans₀ budget c := by
  unfold granted
  rw [stepsLeft_congr h]

theorem Advances.unsynced (h : Advances config tip n scans scans' c d) (hd : d.synced = false) :
    c.synced = false := by
  refine Bool.eq_false_iff.mpr fun hc ↦ Bool.eq_false_iff.mp hd (h.done.mpr ?_)
  have hle := h.le
  rw [stepsLeft, if_pos hc] at hle ⊢
  exact Nat.le_zero.mp hle

theorem Advances.before (h : Advances config tip n scans scans' c d)
    (hscans : c.synced = false → scans.get? c.id = scans₀.get? c.id) :
    Advances config tip n scans₀ scans' c d := by
  have hleft : stepsLeft config tip scans c = stepsLeft config tip scans₀ c :=
    stepsLeft_congr hscans
  refine ⟨h.id, h.discoveredAtBlock, hleft ▸ h.le, hleft ▸ h.done, fun hfalse ↦ ?_⟩
  rw [h.next hfalse, scanNext_congr rfl rfl (hscans (h.unsynced hfalse))]

/-- What happens to other rows later makes no difference. -/
theorem Advances.after (h : Advances config tip n scans scans' c d) {d' : Db.Contract}
    (hid : d'.id = d.id) (hblock : d'.discoveredAtBlock = d.discoveredAtBlock)
    (hsynced : d'.synced = d.synced) (hscans : scans''.get? c.id = scans'.get? c.id) :
    Advances config tip n scans scans'' c d' := by
  refine ⟨hid.trans h.id, hblock.trans h.discoveredAtBlock, h.le, hsynced ▸ h.done,
    fun hfalse ↦ ?_⟩
  rw [← h.next (hsynced ▸ hfalse)]
  exact scanNext_congr hid hblock (by rw [h.id, hscans])

end Congruence

/-- Each contract gets what those in front of it have left of the budget. -/
theorem alone_rescans {l : List Db.Contract} (scans₀ : InsertionMap ℕ FirstScan)
    (hkeyed : s.db.Keyed) (hrows : ∀ c ∈ l, ∃ d ∈ s.db.contracts, c.Evolves False d)
    (hunready : ∀ c ∈ l, c.ready = false) (hnodup : (l.map Db.Contract.id).Nodup)
    (hscans : ∀ c ∈ l, c.synced = false → s.firstScans.get? c.id = scans₀.get? c.id)
    (h : (l.foldlM (rescanContract lib config view.requests fromHeight view.latestHeight)
      budget).Alone s ls s' (.ok k)) :
    s.db.Keeps (fun id ↦ ∃ c ∈ l, c.id = id) s'.db ∧
      (∀ id, (∀ c ∈ l, c.id ≠ id) → s'.firstScans.get? id = s.firstScans.get? id) ∧
      ∀ front c back, l = front ++ c :: back → ∃ d' ∈ s'.db.contracts,
        Advances config view.latestHeight
          (granted config view scans₀ (budget - spent config view scans₀ front) c) scans₀
          s'.firstScans c d' := by
  induction l generalizing s ls budget with
  | nil =>
      obtain ⟨rfl, -⟩ := alone_pure h
      exact ⟨.refl _, fun _ _ ↦ rfl, fun front c back hl ↦ by simp at hl⟩
  | cons x l ih =>
      rw [List.foldlM_cons] at h
      obtain ⟨k₁, s₁, _, _, hx, hrest, -⟩ := alone_bind_ok h
      obtain ⟨hxl, hnodup⟩ := List.nodup_cons.mp hnodup
      have hne : ∀ c ∈ l, c.id ≠ x.id := fun c hc heq ↦ hxl (heq ▸ List.mem_map_of_mem hc)
      obtain ⟨d, hd, hsame⟩ := hrows x List.mem_cons_self
      obtain ⟨hk₁, hkeeps, hothers, d₁, hd₁, hadvances⟩ :=
        alone_rescanContract hkeyed hd hsame (hunready x List.mem_cons_self) hx
      have hx₀ := hscans x List.mem_cons_self
      obtain ⟨hkeeps', hothers', hrest⟩ := ih (hkeeps.keyed hkeyed)
        (fun c hc ↦ by
          obtain ⟨e, he, hsame⟩ := hrows c (List.mem_cons_of_mem x hc)
          obtain ⟨e', he', hevolves⟩ := hkeeps.row he
          refine ⟨e', he', hsame.trans hevolves fun ht ↦ ?_⟩
          exact ht.elim id fun heq ↦ hne c hc (hsame.id.symm.trans heq))
        (fun c hc ↦ hunready c (List.mem_cons_of_mem x hc)) hnodup
        (fun c hc hsynced ↦ (hothers c.id (hne c hc)).trans
          (hscans c (List.mem_cons_of_mem x hc) hsynced)) hrest
      refine ⟨?_, fun id hid ↦ ?_, ?_⟩
      · refine (hkeeps.mono fun id hid ↦ ?_).trans (hkeeps'.mono fun id hid ↦ ?_)
        · exact ⟨x, List.mem_cons_self, hid.symm⟩
        · obtain ⟨c, hc, hid⟩ := hid
          exact ⟨c, List.mem_cons_of_mem x hc, hid⟩
      · rw [hothers' id fun c hc ↦ hid c (List.mem_cons_of_mem x hc),
          hothers id (hid x List.mem_cons_self).symm]
      · intro front c back hl
        cases front with
        | nil =>
            cases hl
            obtain ⟨d₂, hd₂, hevolves⟩ := hkeeps'.row hd₁
            refine ⟨d₂, hd₂, ?_⟩
            rw [granted_congr hx₀] at hadvances
            have hfree : ¬∃ e ∈ l, e.id = d₁.id := by
              rintro ⟨e, he, heq⟩
              exact hne e he (heq.trans hadvances.id)
            obtain ⟨-, -, hsynced⟩ := hevolves.flags hfree
            exact (hadvances.before hx₀).after hevolves.id hevolves.discoveredAtBlock hsynced
              (hothers' _ hne)
        | cons y front =>
            obtain ⟨rfl, rfl⟩ := List.cons.inj hl
            have hbudget : k₁ - spent config view scans₀ front =
                budget - spent config view scans₀ (x :: front) := by
              rw [hk₁, scanCost_congr hx₀, Nat.sub_sub]
              rfl
            rw [← hbudget]
            exact hrest front c back rfl

/-! ## A tick -/

theorem spent_cons {scans : InsertionMap ℕ FirstScan} {l : List Db.Contract} :
    spent config view scans (c :: l) =
      scanCost config view scans c + spent config view scans l := rfl

/-- Contracts that are ready take nothing. -/
theorem spent_filter {scans : InsertionMap ℕ FirstScan} {l : List Db.Contract} :
    spent config view scans (l.filter fun c ↦ !c.ready) = spent config view scans l := by
  induction l with
  | nil => rfl
  | cons c l ih =>
      rw [List.filter_cons, spent_cons, ← ih]
      split
      · rfl
      next hready =>
        have hidle : scanCost config view scans c = 0 := by
          simp [scanCost, isDue, hready]
        rw [hidle, Nat.zero_add]

theorem alone_rescanUnreadyContracts (hkeyed : s.db.Keyed) {u : Unit}
    (h : (rescanUnreadyContracts lib config view.requests fromHeight
      view.latestHeight).Alone s ls s' (.ok u)) :
    s.db.Keeps (fun _ ↦ True) s'.db ∧
      ∀ front c back, s.db.contracts = front ++ c :: back → ∃ d ∈ s'.db.contracts,
        Advances config view.latestHeight
          (granted config view s.firstScans
            (firstScanStepsPerTick - spent config view s.firstScans front) c)
          s.firstScans s'.firstScans c d := by
  obtain ⟨unready, s₁, _, _, hquery, hrest, -⟩ := alone_bind_ok h
  obtain ⟨rfl, hunready⟩ := alone_query hquery
  cases hunready
  have hsub : ∀ c ∈ s.db.contracts.filter fun c ↦ !c.ready,
      c ∈ s.db.contracts ∧ c.ready = false := fun c hc ↦ by
    simpa using List.mem_filter.mp hc
  have hloop {ls : List (Option Mark)} {pending : List ℕ}
      (hpending : ∀ c ∈ s.db.contracts.filter fun c ↦ !c.ready, c.synced = false → c.id ∈ pending)
      (h : Program.Alone s (do
      scans fun m ↦ ((), m.filter fun x ↦ x.1 ∈ pending)
      let _ ← (s.db.contracts.filter fun c ↦ !c.ready).foldlM
        (rescanContract lib config view.requests fromHeight view.latestHeight)
        firstScanStepsPerTick) ls s' (.ok u)) :
      s.db.Keeps (fun id ↦ ∃ c ∈ s.db.contracts.filter fun c ↦ !c.ready, c.id = id) s'.db ∧
        ∀ front c back, (s.db.contracts.filter fun c ↦ !c.ready) = front ++ c :: back →
          ∃ d ∈ s'.db.contracts, Advances config view.latestHeight
            (granted config view s.firstScans
              (firstScanStepsPerTick - spent config view s.firstScans front) c)
            s.firstScans s'.firstScans c d := by
    obtain ⟨_, s₁, _, _, hfilter, hrest, -⟩ := alone_bind_ok h
    obtain ⟨rfl, -⟩ := alone_scans hfilter
    obtain ⟨k, s₂, _, _, hfold, hrest, -⟩ := alone_bind_ok hrest
    obtain ⟨rfl, -⟩ := alone_pure hrest
    obtain ⟨hkeeps, -, hadvances⟩ := alone_rescans s.firstScans
      (s := { s with firstScans := s.firstScans.filter fun x ↦ x.1 ∈ pending }) hkeyed
      (fun c hc ↦ ⟨c, (hsub c hc).1, .refl c⟩) (fun c hc ↦ (hsub c hc).2)
      (hkeyed.distinct.sublist (List.filter_sublist.map _))
      (fun c hc hsynced ↦ InsertionMap.get?_filter (p := fun id ↦ id ∈ pending)
        (decide_eq_true (hpending c hc hsynced)))
      hfold
    exact ⟨hkeeps, hadvances⟩
  have hboth : s.db.Keeps (fun id ↦ ∃ c ∈ s.db.contracts.filter fun c ↦ !c.ready, c.id = id)
      s'.db ∧ ∀ front c back, (s.db.contracts.filter fun c ↦ !c.ready) = front ++ c :: back →
        ∃ d ∈ s'.db.contracts, Advances config view.latestHeight
          (granted config view s.firstScans
            (firstScanStepsPerTick - spent config view s.firstScans front) c)
          s.firstScans s'.firstScans c d := by
    have hpending : ∀ c ∈ s.db.contracts.filter fun c ↦ !c.ready, c.synced = false →
        c.id ∈ ((s.db.contracts.filter fun c ↦ !c.ready).filter fun c ↦ !c.synced).map
          Db.Contract.id := fun c hc hsynced ↦
      List.mem_map_of_mem (List.mem_filter.mpr ⟨hc, by simpa using hsynced⟩)
    dsimp only at hrest
    split at hrest
    · obtain ⟨_, _, _, _, hquery, hrest, -⟩ := alone_bind_ok hrest
      obtain ⟨rfl, -⟩ := alone_query hquery
      exact hloop hpending hrest
    · exact hloop hpending hrest
  obtain ⟨hkeeps, hadvances⟩ := hboth
  refine ⟨hkeeps.mono fun _ _ ↦ trivial, fun front c back hrows ↦ ?_⟩
  cases hready : c.ready with
  | false =>
      have hsplit : (s.db.contracts.filter fun c ↦ !c.ready) =
          (front.filter fun c ↦ !c.ready) ++ c :: back.filter fun c ↦ !c.ready := by
        rw [hrows, List.filter_append, List.filter_cons, hready, Bool.not_false, if_pos rfl]
      obtain ⟨d, hd, hadvances⟩ := hadvances _ c _ hsplit
      rw [spent_filter] at hadvances
      exact ⟨d, hd, hadvances⟩
  | true =>
      have hc : c ∈ s.db.contracts := hrows ▸ List.mem_append_right _ List.mem_cons_self
      have hsynced := hkeyed.ready c hc hready
      obtain ⟨d, hd, hevolves⟩ := hkeeps.row hc
      have hzero (budget : ℕ) : granted config view s.firstScans budget c = 0 := by
        simp [granted, isDue, hready]
      rw [hzero]
      exact ⟨d, hd, advances_synced hevolves.id hevolves.discoveredAtBlock hsynced
        (hevolves.synced hsynced)⟩

/-- A tick that nothing disturbs and in which no call fails. -/
def FaultFreeTick {E : Env} (lib : Backend E) (config : BackendConfig) (view : ChainView)
    (s s' : IndexerState) : Prop :=
  ∃ ls, (indexingLoop lib config view.requests).Alone s ls s' (.ok ())

theorem stepsLeft_evolves {scans : InsertionMap ℕ FirstScan} {tip : ℕ}
    (hsame : c.Evolves False d) :
    stepsLeft config tip scans d = stepsLeft config tip scans c := by
  obtain ⟨-, -, hsynced⟩ := hsame.flags not_false
  rw [stepsLeft, stepsLeft, hsynced, scanNext_congr hsame.id hsame.discoveredAtBlock rfl]

theorem isDue_evolves {tip : ℕ} (hsame : c.Evolves False d) :
    isDue config tip d = isDue config tip c := by
  obtain ⟨hready, -, hsynced⟩ := hsame.flags not_false
  rw [isDue, isDue, scanStart, scanStart, hready, hsynced, hsame.discoveredAtBlock]

theorem refuses_evolves (hsame : c.Evolves False d) : view.refuses d = view.refuses c :=
  ChainView.refuses_congr hsame.address (hsame.flags not_false).2.1

theorem scanCost_evolves {scans : InsertionMap ℕ FirstScan} (hsame : c.Evolves False d) :
    scanCost config view scans d = scanCost config view scans c := by
  rw [scanCost, scanCost, isDue_evolves hsame, refuses_evolves hsame, stepsLeft_evolves hsame]

theorem granted_evolves {scans : InsertionMap ℕ FirstScan} (hsame : c.Evolves False d) :
    granted config view scans budget d = granted config view scans budget c := by
  rw [granted, granted, isDue_evolves hsame, refuses_evolves hsame, stepsLeft_evolves hsame]

/-- What a tick does to each first scan. -/
theorem FaultFreeTick.advances (hkeyed : s.db.Keyed) (h : FaultFreeTick lib config view s s') :
    s.db.Keeps (fun _ ↦ True) s'.db ∧
      ∀ front c back, s.db.contracts = front ++ c :: back → ∃ d ∈ s'.db.contracts,
        Advances config view.latestHeight
          (granted config view s.firstScans
            (firstScanStepsPerTick - spent config view s.firstScans front) c)
          s.firstScans s'.firstScans c d := by
  obtain ⟨ls, h⟩ := h
  obtain ⟨latestHeight, _, _, _, hlatest, hrest, -⟩ := alone_bind_ok h
  obtain ⟨rfl, hr⟩ := alone_pure hlatest
  cases hr
  obtain ⟨indexedHeight, _, _, _, hindexed, hrest, -⟩ := alone_bind_ok hrest
  obtain ⟨rfl, -⟩ := alone_query hindexed
  dsimp only at hrest
  split at hrest
  · cases hrest
  -- what comes after discovery
  have hloop {s₁ : IndexerState} {ls : List (Option Mark)} {fromHeight : ℕ}
      (hkeyed : s₁.db.Keyed)
      (h : Program.Alone s₁ (do
        rescanUnreadyContracts lib config view.requests fromHeight view.latestHeight
        if fromHeight ≤ view.latestHeight then
          syncKnownContracts lib config view.requests fromHeight view.latestHeight
          execute (some (.advanced indexedHeight view.latestHeight)) fun db ↦
            .ok { db with indexedHeight := some view.latestHeight }) ls s' (.ok ())) :
      s₁.db.Keeps (fun _ ↦ True) s'.db ∧
        ∀ front c back, s₁.db.contracts = front ++ c :: back → ∃ d ∈ s'.db.contracts,
          Advances config view.latestHeight
            (granted config view s₁.firstScans
              (firstScanStepsPerTick - spent config view s₁.firstScans front) c)
            s₁.firstScans s'.firstScans c d := by
    obtain ⟨_, s₂, _, _, hrescan, hrest, -⟩ := alone_bind_ok h
    obtain ⟨hkeeps, hadvances⟩ := alone_rescanUnreadyContracts hkeyed hrescan
    split at hrest
    · obtain ⟨_, s₃, _, _, hknown, hrest, -⟩ := alone_bind_ok hrest
      obtain ⟨db, hdb, rfl⟩ := alone_execute_ok hrest
      cases hdb
      obtain ⟨ready, _, _, _, hquery, hsync, -⟩ := alone_bind_ok hknown
      obtain ⟨rfl, hready⟩ := alone_query hquery
      cases hready
      obtain ⟨hkeeps', hscans⟩ := (syncReady_writes view.quiet).alone hsync
      refine ⟨hkeeps.trans ((hkeeps'.mono fun _ _ ↦ trivial).trans (.of_eq rfl rfl)),
        fun front c back hrows ↦ ?_⟩
      obtain ⟨d, hd, hadvances⟩ := hadvances front c back hrows
      obtain ⟨d', hd', hevolves⟩ := hkeeps'.row hd
      refine ⟨d', hd', hadvances.after hevolves.id hevolves.discoveredAtBlock ?_
        (by rw [hscans])⟩
      -- a scan that is not finished is not of a ready contract
      cases hsynced : d.synced with
      | true => exact hevolves.synced hsynced
      | false =>
          have hfree : ¬∃ r ∈ s₂.db.contracts.filter fun c ↦ c.ready, r.id = d.id := by
            rintro ⟨r, hr, hid⟩
            obtain ⟨hr, hready⟩ := List.mem_filter.mp hr
            obtain rfl := (hkeeps.keyed hkeyed).unique hd hr hid
            rw [(hkeeps.keyed hkeyed).ready r hr hready] at hsynced
            cases hsynced
          exact (hevolves.flags hfree).2.2.trans hsynced
    · obtain ⟨rfl, -⟩ := alone_pure hrest
      exact ⟨hkeeps, hadvances⟩
  split at hrest
  · obtain ⟨_, s₁, _, _, hdiscover, hrest, -⟩ := alone_bind_ok hrest
    obtain ⟨hkeeps, hscans⟩ := (discoverContracts_adds view.quiet).alone le_rfl hdiscover
    obtain ⟨hkeeps', hadvances⟩ := hloop (hkeeps.keyed hkeyed) hrest
    refine ⟨(hkeeps.mono fun _ _ ↦ trivial).trans hkeeps', fun front c back hrows ↦ ?_⟩
    -- discovery touches none of the rows that were there
    obtain ⟨f, new, hkeeps⟩ := hkeeps
    have hsame : ∀ x ∈ s.db.contracts, x.Evolves False (f x) := fun x hx ↦
      { hkeeps.evolves x hx with
        flags := fun _ ↦ (hkeeps.evolves x hx).flags (Nat.not_le.mpr (hkeyed.below x hx)) }
    have hrows₁ : s₁.db.contracts = front.map f ++ f c :: (back.map f ++ new) := by
      rw [hkeeps.rows, hrows, List.map_append, List.map_cons, List.append_assoc,
        List.cons_append]
    obtain ⟨d, hd, hadvances⟩ := hadvances _ _ _ hrows₁
    have hc : c.Evolves False (f c) :=
      hsame c (hrows ▸ List.mem_append_right _ List.mem_cons_self)
    have hspent : spent config view s.firstScans (front.map f) =
        spent config view s.firstScans front := by
      unfold spent
      rw [List.map_map]
      refine congrArg List.sum (List.map_congr_left fun x hx ↦ ?_)
      exact scanCost_evolves (hsame x (hrows ▸ List.mem_append_left _ hx))
    have hleft : stepsLeft config view.latestHeight s.firstScans (f c) =
        stepsLeft config view.latestHeight s.firstScans c := stepsLeft_evolves hc
    rw [hscans, hspent, granted_evolves hc] at hadvances
    refine ⟨d, hd, hadvances.id.trans hc.id, hadvances.discoveredAtBlock.trans
      hc.discoveredAtBlock, hleft ▸ hadvances.le, hleft ▸ hadvances.done, fun hfalse ↦ ?_⟩
    rw [hadvances.next hfalse, scanNext_congr hc.id hc.discoveredAtBlock rfl]
  · exact hloop hkeyed hrest

end Step

end MinaGuard
