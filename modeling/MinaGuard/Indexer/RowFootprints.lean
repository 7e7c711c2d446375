import MinaGuard.Foundations.Footprints
import MinaGuard.Indexer.ContractRows

/-!
# What the indexer's programs do to the rows of contracts

The flags of a row change only through a sync of its own contract or discovery.  Each
program gets a footprint that says so.  It keeps ids unique, and no contract ready
before its first scan is stamped.
-/

namespace MinaGuard

open Foundations IndexerProgram Program

/-- A program that writes to rows as `touched` allows, and to no first scan. -/
abbrev Writes {α : Type} (touched : ℕ → Prop) (p : IndexerProgram α) : Prop :=
  p.Within (fun _ ↦ True)
    (fun s s' ↦ s.db.Keeps touched s'.db ∧ s'.firstScans = s.firstScans) fun _ ↦ True

section Footprints

variable {E : Env} {lib : Backend E} {config : BackendConfig} {T : ℕ → Prop}
  {α : Type}

theorem writes_request : Writes T (request α) :=
  fun _ ↦ within_settle fun _ _ ↦ trivial

theorem writes_query {read : Database → α} : Writes T (query read) :=
  within_transaction fun s _ a s' h ↦ by
    cases h
    exact ⟨⟨.refl _, rfl⟩, trivial⟩

theorem within_transact {I : IndexerState → Prop} {F : IndexerState → IndexerState → Prop}
    {Q : α → Prop} {label : Option Mark} {body : Database → Except Thrown (α × Database)}
    (h : ∀ s, I s → ∀ a db, body s.db = .ok (a, db) → F s { s with db := db } ∧ Q a) :
    (transact label body).Within I F Q :=
  within_transaction fun s hI a s' hbody ↦ by
    cases hdb : body s.db with
    | error e =>
        rw [hdb] at hbody
        cases hbody
    | ok r =>
        rw [hdb] at hbody
        cases hbody
        exact h s hI r.1 r.2 hdb

theorem writes_transact {label : Option Mark} {body : Database → Except Thrown (α × Database)}
    (h : ∀ db a db', body db = .ok (a, db') → db.Keeps T db') :
    Writes T (transact label body) :=
  within_transact fun s _ a db hbody ↦ ⟨⟨h s.db a db hbody, rfl⟩, trivial⟩

theorem writes_execute {label : Option Mark} {body : Database → Except Thrown Database}
    (h : ∀ db db', body db = .ok db' → db.Keeps T db') :
    Writes T (execute label body) :=
  writes_transact fun db _ db' hbody ↦ by
    cases hdb : body db with
    | error e =>
        rw [hdb] at hbody
        cases hbody
    | ok db₁ =>
        rw [hdb] at hbody
        cases hbody
        exact h db _ hdb

theorem Writes.mono {T' : ℕ → Prop} {p : IndexerProgram α}
    (hmono : ∀ id, T id → T' id) (h : Writes T p) : Writes T' p :=
  Within.mono (fun _ h ↦ h) (fun _ _ hstep ↦ ⟨hstep.1.mono hmono, hstep.2⟩) (fun _ h ↦ h) h

theorem Writes.alone {p : IndexerProgram α} (h : Writes T p) {s s' : IndexerState}
    {ls : List (Option Mark)} {r : Except Thrown α} (hrun : p.Alone s ls s' r) :
    s.db.Keeps T s'.db ∧ s'.firstScans = s.firstScans :=
  (Within.alone (fun s ↦ ⟨.refl s.db, rfl⟩)
    (fun _ _ _ h h' ↦ ⟨h.1.trans h'.1, h'.2.trans h.2⟩) (fun _ _ _ _ ↦ trivial) h trivial
    hrun).1

variable {contractId eventOrder : ℕ} {chainEvent : ChainEvent} {fingerprint : String}
  {setupFallback : Option OnChainState}

theorem recordFailedEvent_writes {reason : String} :
    Writes T (recordFailedEvent contractId chainEvent fingerprint reason) := by
  apply Within.tryCatch
  · refine (writes_transact fun _ _ _ h ↦ recordEvent_keeps h).bind fun _ _ ↦ ?_
    exact within_pure trivial
  · intro e
    refine writes_query.bind fun known _ ↦ ?_
    split
    · exact within_pure trivial
    · exact within_throw

theorem ingestAttempts_writes {attempts : ℕ} {error : Thrown} :
    Writes T (ingestAttempts lib config contractId chainEvent eventOrder fingerprint
      setupFallback attempts error) := by
  induction attempts generalizing error with
  | zero => exact recordFailedEvent_writes
  | succ attempts ih =>
      apply Within.tryCatch
      · refine (writes_execute fun _ _ h ↦ recordAndApply_keeps h).bind fun _ _ ↦ ?_
        exact within_pure trivial
      · intro e
        refine writes_query.bind fun known _ ↦ ?_
        split
        · exact within_pure trivial
        · split
          · exact within_throw
          · exact ih

theorem ingestEvent_writes :
    Writes T (ingestEvent lib config contractId chainEvent eventOrder fingerprint
      setupFallback) := by
  unfold ingestEvent
  split
  · exact recordFailedEvent_writes
  · exact ingestAttempts_writes

theorem syncEvent_writes {address : String} {ingested : Bool} {x : ChainEvent × ℕ} :
    Writes T (syncEvent lib config contractId address ingested x) := by
  have hingest {fallback : Option OnChainState} :
      Writes T (do
        let outcome ← ingestEvent lib config contractId x.1 x.2
          (fingerprintEvent address x.1) fallback
        pure (ingested || outcome = .applied)) :=
    ingestEvent_writes.bind fun _ _ ↦ within_pure trivial
  refine writes_query.bind fun known _ ↦ ?_
  split
  · exact within_pure trivial
  · dsimp only
    split
    · refine Within.bind (P := fun _ ↦ True) ?_ fun _ _ ↦ hingest
      refine writes_query.bind fun configured _ ↦ ?_
      split
      · exact within_pure trivial
      · exact writes_request
    · exact hingest

/-- Asking changes nothing. -/
structure Requests.Quiet (requests : Requests) : Prop where
  latestHeight : Writes (fun _ ↦ False) requests.latestHeight
  security : ∀ address, Writes (fun _ ↦ False) (requests.security address)
  events : ∀ address fromHeight toHeight,
    Writes (fun _ ↦ False) (requests.events address fromHeight toHeight)
  candidates : ∀ indexedHeight, Writes (fun _ ↦ False) (requests.candidates indexedHeight)

variable {requests : Requests}

theorem verifyPermissions_writes (hquiet : requests.Quiet) {address : String} :
    Writes (fun id ↦ id = contractId) (verifyPermissions requests contractId address) := by
  have hflag {f : Db.Contract → Db.Contract} {b : Bool}
      (hf : ∀ c : Db.Contract, c.Evolves True (f c)) :
      Writes (fun id ↦ id = contractId) (do
        execute none fun db ↦ db.updateContract contractId f
        pure b) := by
    refine (writes_execute fun db db' h ↦ ?_).bind fun _ _ ↦ within_pure trivial
    exact Database.keeps_updateContract
      (fun c _ _ ↦ (hf c).trans (.refl (T := False) _) fun _ ↦ rfl) h
  refine writes_query.bind fun verified _ ↦ ?_
  split
  · exact within_pure trivial
  · refine ((hquiet.security address).mono fun _ ↦ False.elim).bind fun security _ ↦ ?_
    split
    · exact within_pure trivial
    · split
      · exact hflag fun c ↦ ⟨rfl, rfl, rfl, fun h ↦ h, nofun, fun h ↦ absurd trivial h⟩
      · exact hflag fun c ↦ ⟨rfl, rfl, rfl, fun h ↦ h, fun h ↦ h, fun h ↦ absurd trivial h⟩

theorem finishSync_writes {ingested readyFromStoredEvents : Bool} :
    Writes (fun id ↦ id = contractId)
      (finishSync contractId ingested readyFromStoredEvents) := by
  have hstamp {stored : Bool} :
      Writes (fun id ↦ id = contractId) (execute none fun db ↦
        db.updateContract contractId fun c ↦
          if ingested || stored then { c with synced := true, ready := true }
          else { c with synced := true }) := by
    refine writes_execute fun db db' h ↦ Database.keeps_updateContract (fun c _ _ ↦ ?_) h
    split
    · exact ⟨rfl, rfl, rfl, fun _ ↦ rfl, fun _ _ ↦ rfl, fun h ↦ absurd rfl h⟩
    · exact ⟨rfl, rfl, rfl, fun _ ↦ rfl, fun _ _ ↦ rfl, fun h ↦ absurd rfl h⟩
  unfold finishSync
  dsimp only
  split
  · exact writes_query.bind fun _ _ ↦ hstamp
  · exact hstamp

theorem writes_mark {label : Mark} : Writes T (IndexerProgram.mark label) := trivial

theorem syncSingleContract_writes (hquiet : requests.Quiet) {address : String}
    {fromHeight toHeight : ℕ} {finish readyFromStoredEvents : Bool} :
    Writes (fun id ↦ id = contractId)
      (syncSingleContract lib config requests contractId address fromHeight toHeight finish
        readyFromStoredEvents) := by
  refine (verifyPermissions_writes hquiet).bind fun verified _ ↦ ?_
  split
  · refine ((hquiet.events address fromHeight toHeight).mono fun _ ↦ False.elim).bind
      fun rawEvents _ ↦ ?_
    refine writes_mark.bind fun _ _ ↦ ?_
    refine Within.bind (P := fun _ ↦ True)
      (Within.foldlM trivial fun _ _ _ _ ↦ syncEvent_writes) fun ingested _ ↦ ?_
    dsimp only
    split
    · refine finishSync_writes.bind fun _ _ ↦ ?_
      exact writes_mark.bind fun _ _ ↦ within_pure trivial
    · exact writes_mark.bind fun _ _ ↦ within_pure trivial
  · exact within_pure trivial

/-! ## Discovery -/

/-- A program that adds rows and writes only to rows added since the counter
was at `n`. -/
abbrev Adds {α : Type} (n : ℕ) (p : IndexerProgram α) : Prop :=
  p.Within (fun s ↦ n ≤ s.db.nextContractId)
    (fun s s' ↦ s.db.Keeps (fun id ↦ n ≤ id) s'.db ∧ s'.firstScans = s.firstScans)
    fun _ ↦ True

theorem Writes.adds {n : ℕ} {p : IndexerProgram α} (hmono : ∀ id, T id → n ≤ id)
    (h : Writes T p) : Adds n p :=
  Within.mono (fun _ _ ↦ trivial) (fun _ _ hstep ↦ ⟨hstep.1.mono hmono, hstep.2⟩)
    (fun _ h ↦ h) h

theorem Adds.alone {n : ℕ} {p : IndexerProgram α} (h : Adds n p) {s s' : IndexerState}
    {ls : List (Option Mark)} {r : Except Thrown α} (hn : n ≤ s.db.nextContractId)
    (hrun : p.Alone s ls s' r) :
    s.db.Keeps (fun id ↦ n ≤ id) s'.db ∧ s'.firstScans = s.firstScans :=
  (Within.alone (fun s ↦ ⟨.refl s.db, rfl⟩)
    (fun _ _ _ h h' ↦ ⟨h.1.trans h'.1, h'.2.trans h.2⟩)
    (fun _ _ hstep hI ↦ hI.trans hstep.1.nextContractId) h hn hrun).1

theorem backfillContract_writes (hquiet : requests.Quiet) {address : String} :
    Writes (fun id ↦ id = contractId)
      (backfillContract lib config requests contractId address) := by
  refine writes_query.bind fun indexedHeight _ ↦ ?_
  extract_lets backfillFrom
  split
  · exact (syncSingleContract_writes hquiet).bind fun _ _ ↦ within_pure trivial
  · exact within_pure trivial

theorem processCandidate_adds (hquiet : requests.Quiet) {n failureCount : ℕ}
    {candidate : DiscoveryCandidate} :
    Adds n (processCandidate lib config requests failureCount candidate) := by
  refine Within.tryCatch ?_ fun _ ↦ within_pure trivial
  refine (Writes.adds (T := fun _ ↦ False) nofun writes_query).bind fun known _ ↦ ?_
  split
  · exact within_pure trivial
  · refine (Writes.adds nofun (hquiet.security candidate.address)).bind fun security _ ↦ ?_
    split
    · exact within_pure trivial
    · -- the new row's id is the counter, so no smaller than `n`
      refine Within.bind (P := fun id ↦ n ≤ id) ?_ fun id hid ↦ ?_
      · refine within_transact fun s hI id db hcreate ↦ ?_
        refine ⟨⟨Database.keeps_createContract hcreate, rfl⟩, ?_⟩
        rw [(createContract_ok hcreate).2.1]
        exact hI
      · refine Within.bind (P := fun _ ↦ True) ?_ fun _ _ ↦ within_pure trivial
        exact (backfillContract_writes hquiet).adds fun _ h ↦ hid.trans_eq h.symm

theorem discoverContracts_adds (hquiet : requests.Quiet) {n indexedHeight latestHeight : ℕ} :
    Adds n (discoverContracts lib config requests indexedHeight latestHeight) := by
  refine (Writes.adds nofun (hquiet.candidates indexedHeight)).bind fun candidates _ ↦ ?_
  refine Within.bind (P := fun _ ↦ True) ?_ fun failureCount _ ↦ ?_
  · refine Within.bind (P := fun _ ↦ True)
      (Within.foldlM trivial fun _ _ _ _ ↦ processCandidate_adds hquiet) fun _ _ ↦ ?_
    refine (Writes.adds (T := fun _ ↦ False) nofun writes_query).bind fun _ _ ↦ ?_
    exact within_pure trivial
  · split
    · refine Writes.adds (T := fun _ ↦ False) nofun (writes_execute fun db db' h ↦ ?_)
      cases h
      exact .of_eq rfl rfl
    · exact within_pure trivial

/-- The contracts that are ready now are synced. -/
theorem syncReady_writes (hquiet : requests.Quiet) {contracts : List Db.Contract}
    {fromHeight toHeight : ℕ} :
    Writes (fun id ↦ ∃ c ∈ contracts, c.id = id) (contracts.forM fun contract ↦ do
      let _ ← syncSingleContract lib config requests contract.id contract.address fromHeight
        toHeight true false) := by
  refine Within.forM fun c hc ↦ ?_
  exact ((syncSingleContract_writes hquiet).mono fun id hid ↦ ⟨c, hc, hid.symm⟩).bind
    fun _ _ ↦ within_pure trivial

/-- A program that may write to any row. -/
abbrev Tracks {α : Type} (p : IndexerProgram α) : Prop :=
  p.Within (fun _ ↦ True) (fun s s' ↦ s.db.Keeps (fun _ ↦ True) s'.db) fun _ ↦ True

theorem Writes.tracks {p : IndexerProgram α} (h : Writes T p) : Tracks p :=
  Within.mono (fun _ h ↦ h) (fun _ _ hstep ↦ hstep.1.mono fun _ _ ↦ trivial) (fun _ h ↦ h) h

theorem tracks_scans {f : InsertionMap ℕ FirstScan → α × InsertionMap ℕ FirstScan} :
    Tracks (scans f) := fun s _ ↦ ⟨.refl s.db, trivial⟩

theorem firstScanSteps_tracks (hquiet : requests.Quiet) {contract : Db.Contract}
    {start latestHeight steps next : ℕ} :
    Tracks (firstScanSteps lib config requests contract start latestHeight steps next) := by
  induction steps generalizing next with
  | zero => exact within_pure trivial
  | succ steps ih =>
      refine (syncSingleContract_writes hquiet).tracks.bind fun result _ ↦ ?_
      cases result with
      | none => exact within_pure trivial
      | some ingested =>
          dsimp only
          split
          · refine tracks_scans.bind fun _ _ ↦ ?_
            refine (writes_query (T := fun _ ↦ False)).tracks.bind fun _ _ ↦ ?_
            exact within_pure trivial
          · exact tracks_scans.bind fun _ _ ↦ ih

theorem rescanContract_tracks (hquiet : requests.Quiet) {contract : Db.Contract}
    {fromHeight latestHeight steps : ℕ} :
    Tracks (rescanContract lib config requests fromHeight latestHeight steps contract) := by
  unfold rescanContract
  dsimp only
  split
  · split
    · exact within_pure trivial
    · exact (syncSingleContract_writes hquiet).tracks.bind fun _ _ ↦ within_pure trivial
  · split
    · exact within_pure trivial
    · exact tracks_scans.bind fun _ _ ↦ firstScanSteps_tracks hquiet

theorem rescanUnreadyContracts_tracks (hquiet : requests.Quiet) {fromHeight latestHeight : ℕ} :
    Tracks (rescanUnreadyContracts lib config requests fromHeight latestHeight) := by
  have hloop {unready : List Db.Contract} {pending : List ℕ} :
      Tracks (do
        scans fun m ↦ ((), m.filter fun x ↦ x.1 ∈ pending)
        let _ ← unready.foldlM (rescanContract lib config requests fromHeight latestHeight)
          firstScanStepsPerTick) := by
    refine tracks_scans.bind fun _ _ ↦ ?_
    exact Within.bind (P := fun _ ↦ True)
      (Within.foldlM trivial fun _ _ _ _ ↦ rescanContract_tracks hquiet)
      fun _ _ ↦ within_pure trivial
  refine (writes_query (T := fun _ ↦ False)).tracks.bind fun unready _ ↦ ?_
  dsimp only
  split
  · exact (writes_query (T := fun _ ↦ False)).tracks.bind fun _ _ ↦ hloop
  · exact hloop

theorem syncKnownContracts_tracks (hquiet : requests.Quiet) {fromHeight toHeight : ℕ} :
    Tracks (syncKnownContracts lib config requests fromHeight toHeight) :=
  (writes_query (T := fun _ ↦ False)).tracks.bind fun _ _ ↦
    (syncReady_writes hquiet).tracks

theorem indexingLoop_tracks (hquiet : requests.Quiet) :
    Tracks (indexingLoop lib config requests) := by
  have hsync {fromHeight toHeight indexedHeight : ℕ} :
      Tracks (do
        rescanUnreadyContracts lib config requests fromHeight toHeight
        if fromHeight ≤ toHeight then
          syncKnownContracts lib config requests fromHeight toHeight
          execute (some (.advanced indexedHeight toHeight)) fun db ↦
            .ok { db with indexedHeight := some toHeight }) := by
    refine (rescanUnreadyContracts_tracks hquiet).bind fun _ _ ↦ ?_
    split
    · refine (syncKnownContracts_tracks hquiet).bind fun _ _ ↦ ?_
      refine (writes_execute (T := fun _ ↦ False) fun db db' h ↦ ?_).tracks
      cases h
      exact .of_eq rfl rfl
    · exact within_pure trivial
  refine hquiet.latestHeight.tracks.bind fun latestHeight _ ↦ ?_
  refine Within.bind (P := fun _ ↦ True)
    (writes_query (T := fun _ ↦ False)).tracks fun indexedHeight _ ↦ ?_
  dsimp only
  split
  · exact within_throw
  · split
    · refine Within.bind (P := fun _ ↦ True) ?_ fun _ _ ↦ hsync
      refine (discoverContracts_adds (n := 0) hquiet).mono (fun _ _ ↦ Nat.zero_le _)
        (fun _ _ hstep ↦ ?_) fun _ h ↦ h
      exact hstep.1.mono fun _ _ ↦ trivial
    · exact hsync

theorem tick_tracks (hquiet : requests.Quiet) : Tracks (tick lib config requests) :=
  (indexingLoop_tracks hquiet).tryCatch fun _ ↦ within_pure trivial

theorem fetchArchiveEventBlocks_writes {fromHeight toHeight : ℕ} :
    Writes T (fetchArchiveEventBlocks fromHeight toHeight) := by
  have hwindow {window : ℕ × ℕ} : Writes T (fetchWindow window) := by
    refine writes_request.bind fun answer _ ↦ ?_
    cases answer with
    | none => exact within_throw
    | some events =>
        dsimp only
        split
        · exact within_throw
        · exact within_pure trivial
  unfold fetchArchiveEventBlocks
  split
  · exact within_throw
  · refine Within.tryCatch ?_ fun _ ↦ within_throw
    exact Within.foldlM trivial fun _ _ _ _ ↦ hwindow.bind fun _ _ ↦ within_pure trivial

theorem fetchDecodedContractEvents_writes {address : String} {fromHeight toHeight : ℕ} :
    Writes T (fetchDecodedContractEvents lib address fromHeight toHeight) := by
  refine fetchArchiveEventBlocks_writes.bind fun blocks _ ↦ ?_
  cases decodeContractEvents lib address blocks with
  | error message => exact within_throw
  | ok events => exact within_pure trivial

theorem discoverCandidates_writes {indexedHeight : ℕ} :
    Writes T (discoverCandidates config indexedHeight) := by
  unfold discoverCandidates
  split
  · exact writes_query.bind fun _ _ ↦ writes_request
  · refine writes_request.bind fun daemonHeight _ ↦ ?_
    cases daemonHeight with
    | none => exact within_throw
    | some height => exact writes_request.bind fun _ _ ↦ within_pure trivial

theorem live_quiet : (Requests.live lib config).Quiet where
  latestHeight := writes_request
  security := fun _ ↦ writes_request
  events := fun _ _ _ ↦ fetchDecodedContractEvents_writes
  candidates := fun _ ↦ discoverCandidates_writes

theorem starts_tracks {i : Slot} {p : IndexerProgram Unit} (h : Starts lib config i p) :
    Tracks p := by
  cases h with
  | tick => exact tick_tracks live_quiet
  | sync =>
      exact (syncSingleContract_writes live_quiet).tracks.bind fun _ _ ↦ within_pure trivial
  | backfill => exact (backfillContract_writes live_quiet).tracks
  | subscribe =>
      refine (writes_transact (T := fun _ ↦ False) fun db id db' h ↦ ?_).tracks.bind
        fun _ _ ↦ within_pure trivial
      exact Database.keeps_createContract h

/-- Whatever runs beside it, fails or crashes, the database stays keyed. -/
theorem run_keyed {as : List (Happening Slot Mark)} {S : Server Slot IndexerState Thrown Mark}
    (run : (indexerSystem lib config).Run as S) : S.store.db.Keyed := by
  have hkeep (s s' : IndexerState) (h : s.db.Keeps (fun _ ↦ True) s'.db) (hs : s.db.Keyed) :
      s'.db.Keyed := h.keyed hs
  refine (ServerStep.keeps (fun s ↦ s.db.Keyed) (fun _ s s' ↦ s.db.Keyed → s'.db.Keyed)
    (fun _ _ _ s s' ↦ s.db.Keeps (fun _ ↦ True) s'.db) ?_ (fun _ hs ↦ ⟨hs.1, hs.2, hs.3⟩)
    (fun _ _ h ↦ h) (fun _ _ _ _ h h' hs ↦ h' (h hs)) (fun _ _ _ ↦ .refl _)
    (fun _ _ _ ↦ hkeep) (fun _ _ _ _ s s' _ h ↦ hkeep s s' h) ?_ run).1
  · rintro s rfl
    exact ⟨List.nodup_nil, nofun, nofun⟩
  · intro i p hstarts s hs
    exact ((starts_tracks hstarts).mono (fun _ _ ↦ trivial) (fun _ _ h ↦ h) fun _ h ↦ h).meets
      (I := fun s ↦ s.db.Keyed) (fun s ↦ .refl s.db) hkeep hs

end Footprints

end MinaGuard
