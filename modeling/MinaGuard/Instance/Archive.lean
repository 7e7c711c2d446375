import MinaGuard.Indexer.IndexRuns
import MinaGuard.Properties.Rebuild

/-!
# An archive of the walkthrough

The blocks that include the calls of the walkthrough, as an archive returns them, and
syncs of its vaults in which no request and no transaction fails.
-/

namespace MinaGuard

open Foundations IndexerProgram

section Undisturbed

variable {E : Env} {lib : Backend E} {config : BackendConfig} {contractId : ℕ} {address : String}
  {db db' : Database} {scans : InsertionMap ℕ FirstScan}

/-- What a pass over an event leaves, if nothing fails and nothing is asked. -/
def applyNew (lib : Backend E) (config : BackendConfig) (contractId : ℕ) (address : String)
    (db : Database) (x : ChainEvent × ℕ) : Option Database :=
  let fingerprint := fingerprintEvent address x.1
  if db.isRecorded fingerprint then some db
  else if x.1.decodeError = none ∧
      (x.1.type = "setupOwner" →
        ((db.getLatestConfig contractId).bind Db.ContractConfig.threshold).isSome) then
    (recordAndApply lib config db contractId x.1 x.2 fingerprint none).toOption
  else none

/-- A pass over an event finds its row, or writes it. -/
theorem applyNew_cases {x : ChainEvent × ℕ}
    (h : applyNew lib config contractId address db x = some db') :
    db.isRecorded (fingerprintEvent address x.1) = true ∧ db' = db ∨
    db.isRecorded (fingerprintEvent address x.1) = false ∧ x.1.decodeError = none ∧
      (x.1.type = "setupOwner" →
        ((db.getLatestConfig contractId).bind Db.ContractConfig.threshold).isSome) ∧
      recordAndApply lib config db contractId x.1 x.2 (fingerprintEvent address x.1) none =
        .ok db' := by
  cases hfree : db.isRecorded (fingerprintEvent address x.1) with
  | true =>
      simp only [applyNew, hfree, if_true, Option.some.injEq] at h
      exact .inl ⟨rfl, h.symm⟩
  | false =>
      simp only [applyNew, hfree, Bool.false_eq_true, if_false] at h
      obtain ⟨⟨hdecode, hthreshold⟩, happly⟩ := Option.ite_none_right_eq_some.mp h
      refine .inr ⟨rfl, hdecode, hthreshold, ?_⟩
      cases hresult : recordAndApply lib config db contractId x.1 x.2
          (fingerprintEvent address x.1) none with
      | error e =>
          rw [hresult] at happly
          cases happly
      | ok db₁ =>
          rw [hresult] at happly
          rw [Option.some.inj happly]

theorem ingest_of_applyNew {x : ChainEvent × ℕ}
    (h : applyNew lib config contractId address db x = some db') :
    ingest lib config contractId address none db x = db' := by
  unfold ingest applyOrFail
  dsimp only
  rcases applyNew_cases h with ⟨hfound, rfl⟩ | ⟨hfree, hdecode, -, happly⟩
  · rw [hfound, if_pos rfl]
  · rw [hfree, if_neg Bool.false_ne_true, hdecode]
    dsimp only
    rw [happly]

theorem foldl_ingest_of_applyNew {xs : List (ChainEvent × ℕ)}
    (h : xs.foldlM (applyNew lib config contractId address) db = some db') :
    xs.foldl (ingest lib config contractId address none) db = db' := by
  induction xs generalizing db with
  | nil => exact Option.some.inj h
  | cons x xs ih =>
      obtain ⟨db₁, hfirst, hrest⟩ := Option.bind_eq_some_iff.mp h
      rw [List.foldl_cons, ingest_of_applyNew hfirst]
      exact ih hrest

theorem isRecorded_of_applyNew {x : ChainEvent × ℕ}
    (h : applyNew lib config contractId address db x = some db') :
    db'.isRecorded (fingerprintEvent address x.1) = true ∧
      ∀ fingerprint, db.isRecorded fingerprint = true → db'.isRecorded fingerprint = true := by
  rcases applyNew_cases h with ⟨hfound, rfl⟩ | ⟨-, -, -, happly⟩
  · exact ⟨hfound, fun _ ↦ id⟩
  · obtain ⟨-, -, row, hrows, hrow, -⟩ := recordAndApply_ok happly
    refine ⟨?_, fun _ ↦ Database.isRecorded_of_append hrows⟩
    rw [Database.isRecorded_iff, hrows, List.map_append, ← hrow]
    exact List.mem_append_right _ List.mem_cons_self

/-- Events that were ingested have rows. -/
theorem isRecorded_of_foldlM_applyNew {xs : List (ChainEvent × ℕ)}
    (h : xs.foldlM (applyNew lib config contractId address) db = some db') :
    (∀ x ∈ xs, db'.isRecorded (fingerprintEvent address x.1) = true) ∧
      ∀ fingerprint, db.isRecorded fingerprint = true → db'.isRecorded fingerprint = true := by
  induction xs generalizing db with
  | nil =>
      cases h
      exact ⟨fun _ hx ↦ absurd hx List.not_mem_nil, fun _ ↦ id⟩
  | cons x xs ih =>
      obtain ⟨db₁, hfirst, hrest⟩ := Option.bind_eq_some_iff.mp h
      obtain ⟨hx, hkept⟩ := isRecorded_of_applyNew hfirst
      obtain ⟨hxs, hkept'⟩ := ih hrest
      exact ⟨List.forall_mem_cons.mpr ⟨hkept' _ hx, hxs⟩, fun f hf ↦ hkept' f (hkept f hf)⟩

/-- Events that have rows are passed over. -/
theorem alone_foldlM_of_recorded (scans : InsertionMap ℕ FirstScan)
    {xs : List (ChainEvent × ℕ)} (ingested : Bool)
    (h : ∀ x ∈ xs, db.isRecorded (fingerprintEvent address x.1) = true) :
    (xs.foldlM (syncEvent lib config contractId address) ingested).Alone ⟨db, scans⟩
      (xs.map fun _ ↦ none) ⟨db, scans⟩ (.ok ingested) := by
  induction xs with
  | nil => exact .done
  | cons x xs ih =>
      obtain ⟨hx, hxs⟩ := List.forall_mem_cons.mp h
      have hpass : (syncEvent lib config contractId address ingested x).Alone ⟨db, scans⟩ [none]
          ⟨db, scans⟩ (.ok ingested) := by
        refine .commit (b := true) ?_ .done
        dsimp only
        rw [hx]
      exact hpass.bind (ih hxs)

/-- Another sync was faster: the transaction is undone, and the row counts as written. -/
theorem alone_ingestEvent_of_recorded {e : ChainEvent} {order : ℕ} {fingerprint : String}
    (hdecode : e.decodeError = none) (hrecorded : db.isRecorded fingerprint = true) :
    (ingestEvent lib config contractId e order fingerprint none).Alone ⟨db, scans⟩ [none, none]
      ⟨db, scans⟩ (.ok .duplicate) := by
  unfold ingestEvent
  rw [hdecode]
  cases hresult : recordAndApply lib config db contractId e order fingerprint none with
  | ok db' =>
      rw [(recordAndApply_ok hresult).1] at hrecorded
      cases hrecorded
  | error thrown =>
      refine .abort (e := thrown) ?_ (.commit (b := true) ?_ .done)
      · dsimp only
        rw [hresult]
        rfl
      · dsimp only
        rw [hrecorded]

/-- A pass that pauses after its look at the event, while the event gets a row. -/
theorem pauses_syncEvent {x : ChainEvent × ℕ}
    (hfree : db.isRecorded (fingerprintEvent address x.1) = false)
    (hdecode : x.1.decodeError = none) (htype : x.1.type ≠ "setupOwner")
    (hrecorded : db'.isRecorded (fingerprintEvent address x.1) = true) :
    (syncEvent lib config contractId address false x).Pauses ⟨db, scans⟩ [none] ⟨db, scans⟩
      ⟨db', scans⟩ [none, none] ⟨db', scans⟩ (.ok false) := by
  refine ⟨_, .head (.commit (b := false) ?_) .refl, ?_⟩
  · dsimp only
    rw [hfree]
  · dsimp only
    rw [if_neg htype]
    exact (alone_ingestEvent_of_recorded hdecode hrecorded).bind .done

/-- What leaves the verdict on an account alone. -/
theorem verified_of_keeps (h : db.Keeps (fun _ ↦ False) db') (hkeyed : db.Keyed)
    (hverified : (db.findContract contractId).map Db.Contract.permissionsVerified = some true) :
    (db'.findContract contractId).map Db.Contract.permissionsVerified = some true := by
  obtain ⟨c, hc, hverified⟩ := Option.map_eq_some_iff.mp hverified
  have hid : c.id = contractId := by simpa using List.find?_some hc
  obtain ⟨c', hc', hevolves⟩ := h.row (List.mem_of_find?_eq_some hc)
  have hfind := (h.keyed hkeyed).findContract hc'
  rw [hevolves.id, hid] at hfind
  rw [hfind, Option.map_some, (hevolves.flags id).2.1, hverified]

theorem length_recordFailure_le (db : Database) (e : ChainEvent) (fingerprint reason : String) :
    (recordFailure contractId db e fingerprint reason).eventRaws.length ≤
      db.eventRaws.length + 1 := by
  unfold recordFailure
  split
  next r hrecord =>
    obtain ⟨id, db₁⟩ := r
    obtain ⟨-, -, -, ⟨row, hrows, -⟩, -⟩ := recordEvent_ok hrecord
    rw [hrows, List.length_append, List.length_singleton]
  next => exact Nat.le_succ _

variable (lib config contractId address) in
/-- An event has at most one row. -/
theorem length_ingest_le (db : Database) (x : ChainEvent × ℕ) :
    (ingest lib config contractId address none db x).eventRaws.length ≤
      db.eventRaws.length + 1 := by
  unfold ingest
  dsimp only
  split
  · exact Nat.le_succ _
  · split
    · exact length_recordFailure_le _ _ _ _
    · unfold applyOrFail
      split
      next happly =>
        obtain ⟨-, -, row, hrows, -⟩ := recordAndApply_ok happly
        rw [hrows, List.length_append, List.length_singleton]
      next => exact length_recordFailure_le _ _ _ _

/-- What a sync makes of the events of a window, if nothing fails and nothing is asked. -/
def ingestWindow (lib : Backend E) (config : BackendConfig) (contractId : ℕ) (address : String)
    (window : List ArchivedBlock) (db : Database) : Database :=
  (orderEventsForApply (window.flatMap fun b ↦ b.chainEvents lib.base58)).zipIdx.foldl
    (ingest lib config contractId address none) db

variable (lib config contractId address) in
theorem ingestWindow_keeps (window : List ArchivedBlock) (db : Database) :
    db.Keeps (fun _ ↦ False) (ingestWindow lib config contractId address window db) := by
  unfold ingestWindow
  generalize (orderEventsForApply _).zipIdx = xs
  induction xs generalizing db with
  | nil => exact .refl _
  | cons x xs ih =>
      obtain ⟨hkeeps, -⟩ := Database.ingest_effect lib config contractId address none db x.1 x.2
      exact hkeeps.trans (ih _)

theorem length_ingestWindow_le (window : List ArchivedBlock) (db : Database) :
    (ingestWindow lib config contractId address window db).eventRaws.length ≤
      db.eventRaws.length + (window.flatMap fun b ↦ b.chainEvents lib.base58).length := by
  have hlength : (orderEventsForApply (window.flatMap fun b ↦
      b.chainEvents lib.base58)).zipIdx.length =
        (window.flatMap fun b ↦ b.chainEvents lib.base58).length := by
    rw [List.length_zipIdx]
    exact (orderEventsForApply_perm _).length_eq
  unfold ingestWindow
  rw [← hlength]
  generalize (orderEventsForApply _).zipIdx = xs
  induction xs generalizing db with
  | nil => exact Nat.le_refl _
  | cons x xs ih =>
      have hfirst := length_ingest_le lib config contractId address db x
      have hrest := ih (ingest lib config contractId address none db x)
      rw [List.foldl_cons, List.length_cons]
      omega

/-- A window of at most one request. -/
structure OneRequest (window : List ArchivedBlock) (fromHeight toHeight : ℕ) : Prop where
  ordered : fromHeight ≤ toHeight
  small : toHeight < 2147483647
  span : toHeight - fromHeight < eventQueryBlockSpan
  inside : ∀ b ∈ window, fromHeight ≤ b.height ∧ b.height ≤ toHeight

theorem alone_fetch_window (lib : Backend E) (address : String) {window : List ArchivedBlock}
    {fromHeight toHeight : ℕ} (hwindow : OneRequest window fromHeight toHeight)
    (hproved : ∀ b ∈ window, ∀ t ∈ b.transactions, t.Proved) (s : IndexerState) :
    (fetchDecodedContractEvents lib address fromHeight toHeight).Alone s ([none] ++ []) s
      (.ok (window.flatMap fun b ↦ b.returned lib.base58)) := by
  obtain ⟨hle, hsmall, hspan, hinside⟩ := hwindow
  have hwindows : queryWindows fromHeight toHeight = [(fromHeight, toHeight + 1)] := by
    unfold queryWindows eventQueryBlockSpan at *
    have hdiv : (toHeight - fromHeight) / 5000 = 0 := Nat.div_eq_of_lt hspan
    have hmin : min (fromHeight + 5000) (toHeight + 1) = toHeight + 1 := by omega
    rw [hdiv]
    simp [hmin]
  have hwindow : (fetchWindow (fromHeight, toHeight + 1)).Alone s [none] s
      (.ok (window.map ArchivedBlock.eventBlock)) := by
    refine .ask (.ok (some (window.map ArchivedBlock.eventBlock))) ?_
    have hchecked : ((window.map ArchivedBlock.eventBlock).any fun block ↦
        decide (block.height < fromHeight ∨ toHeight + 1 ≤ block.height)) = false := by
      apply List.any_eq_false.mpr
      intro block hblock
      obtain ⟨b, hb, rfl⟩ := List.mem_map.mp hblock
      have hb := hinside b hb
      change ¬decide (b.height < fromHeight ∨ toHeight + 1 ≤ b.height) = true
      rw [decide_eq_true_eq]
      omega
    change Program.Alone s (if _ = true then _ else _) [] s _
    rw [hchecked]
    exact .done
  have hblocks : (fetchArchiveEventBlocks fromHeight toHeight).Alone s ([none] ++ []) s
      (.ok (window.map ArchivedBlock.eventBlock)) := by
    unfold fetchArchiveEventBlocks
    rw [if_neg (by omega), hwindows]
    apply Program.Alone.tryCatch
    have hfetched := hwindow.bind Program.Alone.done
    exact hfetched.bind .done
  refine hblocks.bind ?_
  rw [decodeContractEvents_eventBlock lib hproved]
  exact .done

theorem alone_verifyPermissions_of_verified
    (hverified : (db.findContract contractId).map Db.Contract.permissionsVerified = some true) :
    (verifyPermissions (.live lib config) contractId address).Alone ⟨db, scans⟩ ([none] ++ [])
      ⟨db, scans⟩ (.ok true) := by
  refine Program.Alone.bind (a := some true) (.commit ?_ .done) .done
  dsimp only
  rw [hverified]

/-- What a sync leaves until its first look at an event. -/
def fetchedMarks (B : Base58 E) (contractId : ℕ) (address : String) (window : List ArchivedBlock) :
    List (Option Mark) :=
  [none, none, some (.fetched contractId address (window.flatMap fun b ↦ b.returned B))]

/-- What it leaves at the end. -/
def syncedMark (B : Base58 E) (address : String) (window : List ArchivedBlock) : Option Mark :=
  some (.synced address (window.flatMap fun b ↦ b.returned B))

/-- A sync of a window has fetched it and nothing else. -/
theorem fetched_of_mem {B : Base58 E} {window : List ArchivedBlock} {ls : List (Option Mark)}
    {events : List ChainEvent} (hquiet : FetchFree ls)
    (h : some (.fetched contractId address events) ∈
      fetchedMarks B contractId address window ++ (ls ++ [syncedMark B address window])) :
    events = window.flatMap fun b ↦ b.returned B := by
  simpa [fetchedMarks, syncedMark, hquiet contractId address events] using h

section Window

variable {window : List ArchivedBlock} {fromHeight toHeight : ℕ}
  (hverified : (db.findContract contractId).map Db.Contract.permissionsVerified = some true)
  (hproved : ∀ b ∈ window, ∀ t ∈ b.transactions, t.Proved) (hhashes : DistinctHashes window)
  (hwindow : OneRequest window fromHeight toHeight)

include hverified hproved hhashes hwindow

variable (lib config address) in
/-- A sync of a window comes to its end. -/
theorem alone_sync_window :
    ∃ ls ingested, FetchFree ls ∧ (syncSingleContract lib config (.live lib config) contractId
      address fromHeight toHeight false false).Alone ⟨db, []⟩
        (fetchedMarks lib.base58 contractId address window ++
          (ls ++ [syncedMark lib.base58 address window]))
        ⟨ingestWindow lib config contractId address window db, []⟩ (.ok (some ingested)) := by
  obtain ⟨ls, ingested, hquiet, hloop⟩ := exists_alone_foldlM_syncEvent address false
    (orderEventsForApply (window.flatMap fun b ↦ b.chainEvents lib.base58)).zipIdx
  refine ⟨ls, ingested, hquiet, (alone_verifyPermissions_of_verified hverified).bind
    ((alone_fetch_window lib address hwindow hproved ⟨db, []⟩).bind (.mark ?_))⟩
  rw [reverseEventsWithinEachTx_returned lib.base58 hhashes]
  exact hloop.bind (.mark .done)

/-- A sync that pauses after its look at the first event, while another one ingests all. -/
theorem pauses_sync_window {x : ChainEvent × ℕ} {xs : List (ChainEvent × ℕ)}
    (hplaced : (orderEventsForApply (window.flatMap fun b ↦
      b.chainEvents lib.base58)).zipIdx = x :: xs)
    (hfree : db.isRecorded (fingerprintEvent address x.1) = false)
    (hdecode : x.1.decodeError = none) (htype : x.1.type ≠ "setupOwner")
    (happly : (x :: xs).foldlM (applyNew lib config contractId address) db = some db') :
    (syncSingleContract lib config (.live lib config) contractId address fromHeight toHeight
      false false).Pauses ⟨db, []⟩
        (fetchedMarks lib.base58 contractId address window ++ [none]) ⟨db, []⟩ ⟨db', []⟩
        (none :: none :: xs.map (fun _ ↦ none) ++ [syncedMark lib.base58 address window])
        ⟨db', []⟩ (.ok (some false)) := by
  obtain ⟨hx, hxs⟩ := List.forall_mem_cons.mp (isRecorded_of_foldlM_applyNew happly).1
  have hloop : ((x :: xs).foldlM (syncEvent lib config contractId address) false).Pauses
      ⟨db, []⟩ [none] ⟨db, []⟩ ⟨db', []⟩ ([none, none] ++ xs.map fun _ ↦ none) ⟨db', []⟩
      (.ok false) :=
    (pauses_syncEvent hfree hdecode htype hx).bind (alone_foldlM_of_recorded [] false hxs)
  rw [← hplaced] at hloop
  refine (alone_verifyPermissions_of_verified hverified).pauses_bind
    ((alone_fetch_window lib address hwindow hproved ⟨db, []⟩).pauses_bind (.mark ?_))
  rw [reverseEventsWithinEachTx_returned lib.base58 hhashes]
  exact hloop.bind (.mark .done)

end Window

/-- The windows of an archive can be synced one after the other. -/
theorem exists_syncs (lib : Backend E) (config : BackendConfig) (contractId : ℕ)
    (address : String) (hkeyed : db.Keyed)
    (hverified : (db.findContract contractId).map Db.Contract.permissionsVerified = some true)
    (windows : List (List ArchivedBlock))
    (hproved : ∀ window ∈ windows, ∀ b ∈ window, ∀ t ∈ b.transactions, t.Proved)
    (hhashes : ∀ window ∈ windows, DistinctHashes window)
    (hwindows : ∀ window ∈ windows, ∃ fromHeight toHeight,
      OneRequest window fromHeight toHeight) :
    ∃ db', Syncs lib config contractId address windows db db' ∧ db.Keeps (fun _ ↦ False) db' ∧
      db'.eventRaws.length ≤ db.eventRaws.length +
        (windows.map fun window ↦
          (window.flatMap fun b ↦ b.chainEvents lib.base58).length).sum := by
  induction windows using List.reverseRecOn with
  | nil => exact ⟨db, .nil, .refl db, Nat.le_refl _⟩
  | append_singleton windows window ih =>
      rw [List.forall_mem_append, List.forall_mem_singleton] at hproved hhashes hwindows
      obtain ⟨db', hsyncs, hkeeps, hlength⟩ := ih hproved.1 hhashes.1 hwindows.1
      obtain ⟨fromHeight, toHeight, hwindow⟩ := hwindows.2
      obtain ⟨ls, ingested, hquiet, hsync⟩ := alone_sync_window lib config address
        (verified_of_keeps hkeeps hkeyed hverified) hproved.2 hhashes.2 hwindow
      refine ⟨_, .sync hsyncs hsync fun events hmem ↦ ?_,
        hkeeps.trans (ingestWindow_keeps _ _ _ _ window db'),
        (length_ingestWindow_le window db').trans ?_⟩
      · rw [decodeContractEvents_eventBlock lib hproved.2, fetched_of_mem hquiet hmem]
      · rw [List.map_append, List.sum_append, List.map_singleton, List.sum_singleton]
        omega

end Undisturbed

namespace Walkthrough

def backendConfig : BackendConfig := ⟨.full, .archive, 0, none⟩

/-- The root guard is tracked, and nothing is indexed. -/
def tracked : Database where
  contracts := [⟨1, keyText root, none, false, true, some 2, false⟩]
  nextContractId := 2

def info (i : ℕ) : TransactionInfo := ⟨some ("5J" ++ decimal i), none, some "applied", some "Proof"⟩

/-- The blocks at some heights, with what their transactions emitted on a guard. -/
def archivedBlocks (H : BlockHistory tables.env) (g : PublicKey) (heights : List ℕ) :
    List ArchivedBlock :=
  heights.map fun h ↦
    { height := h
      stateHash := "3NK" ++ decimal h
      parentHash := "3NK" ++ decimal (h - 1)
      transactions := (H.placed.zipIdx.filter fun x ↦ x.1.1 = h).map fun x ↦
        ⟨info x.2, x.1.2.published g⟩ }

theorem archivedBlocks_proved (H : BlockHistory tables.env) (g : PublicKey) (heights : List ℕ) :
    ∀ b ∈ archivedBlocks H g heights, ∀ t ∈ b.transactions, t.Proved := by
  have happlied : isFromAppliedTransaction (some "applied") = true := by decide +kernel
  have hproof : (some "Proof").map String.toLower = some "proof" := by decide +kernel
  intro b hb t ht
  obtain ⟨h, -, rfl⟩ := List.mem_map.mp hb
  obtain ⟨x, -, rfl⟩ := List.mem_map.mp ht
  exact ⟨happlied, hproof⟩

theorem archivedBlocks_inside (H : BlockHistory tables.env) (g : PublicKey) {heights : List ℕ}
    {fromHeight toHeight : ℕ} (h : ∀ n ∈ heights, fromHeight ≤ n ∧ n ≤ toHeight) :
    ∀ b ∈ archivedBlocks H g heights, fromHeight ≤ b.height ∧ b.height ≤ toHeight := by
  intro b hb
  obtain ⟨n, hn, rfl⟩ := List.mem_map.mp hb
  exact h n hn

def windowEvents (window : List ArchivedBlock) : List ChainEvent :=
  window.flatMap fun b ↦ b.chainEvents base58

/-- The places that the events of a window can have. -/
def windowKeys (window : List ArchivedBlock) : List ℕ :=
  window.flatMap fun b ↦ (List.range 15).map fun rank ↦ b.height * 100 + rank

/-- The events of a window, in the order of application. -/
def placed (window : List ArchivedBlock) : List (ChainEvent × ℕ) :=
  ((windowKeys window).flatMap fun k ↦
    (windowEvents window).filter fun e ↦ applyKey e = k).zipIdx

/-- What a sync of a window leaves. -/
def synced (contractId : ℕ) (g : PublicKey) (window : List ArchivedBlock) (db : Database) :
    Option Database :=
  (placed window).foldlM (applyNew backend backendConfig contractId (keyText g)) db

theorem placed_eq {window : List ArchivedBlock}
    (hkeys : (windowKeys window).Pairwise fun k k' ↦ k < k')
    (h : ∀ e ∈ windowEvents window, applyKey e ∈ windowKeys window) :
    (orderEventsForApply (window.flatMap fun b ↦ b.chainEvents backend.base58)).zipIdx =
      placed window := by
  unfold placed
  rw [← orderEventsForApply_eq_flatMap hkeys h]
  rfl

theorem ingestWindow_of_synced {contractId : ℕ} {g : PublicKey} {window : List ArchivedBlock}
    {db db' : Database} (hplaced : (orderEventsForApply (window.flatMap fun b ↦
      b.chainEvents backend.base58)).zipIdx = placed window)
    (h : synced contractId g window db = some db') :
    ingestWindow backend backendConfig contractId (keyText g) window db = db' := by
  unfold ingestWindow
  rw [hplaced]
  exact foldl_ingest_of_applyNew h

/-- The blocks that add the third owner to the root guard. -/
def addition : List ArchivedBlock := archivedBlocks history root [7, 9]

theorem addition_hashes : DistinctHashes addition := ⟨by decide +kernel, by decide +kernel⟩

theorem addition_placed : (orderEventsForApply (addition.flatMap fun b ↦
    b.chainEvents backend.base58)).zipIdx = placed addition :=
  placed_eq (by decide +kernel) (by decide +kernel)

/-- The blocks in which the root guard is called, in two windows. -/
def rootWindows : List (List ArchivedBlock) :=
  [archivedBlocks history root [3, 4], archivedBlocks history root [7, 9]]

theorem rootWindows_archived : Archived rootWindows.flatten where
  ordered := by decide +kernel
  proved := by
    have hone : rootWindows.flatten = archivedBlocks history root [3, 4, 7, 9] := rfl
    rw [hone]
    exact archivedBlocks_proved _ _ _
  hashes := ⟨by decide +kernel, by decide +kernel⟩
  plain := by
    unfold TransactionInfo.PlainHash
    decide +kernel

theorem tracked_keyed : tracked.Keyed := by
  refine ⟨by decide, by decide, ?_⟩
  simp [tracked]

end Walkthrough

end MinaGuard
