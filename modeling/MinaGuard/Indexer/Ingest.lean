import MinaGuard.Indexer.Refusals
import MinaGuard.Indexer.SyncSpec

/-!
# Undisturbed syncs

A sync that nothing disturbs, neither another program nor the database, is a
function of the events it fetched: `ingest` for each of them in the order of
application.  Apart from that it only sets flags of contract rows.
-/

namespace MinaGuard

open Foundations IndexerProgram

section Ingest

variable {E : Env} (lib : Backend E) (config : BackendConfig) (contractId : ℕ)

/-- The event is recorded with the reason it was not applied. -/
def recordFailure (db : Database) (chainEvent : ChainEvent) (fingerprint reason : String) :
    Database :=
  match recordEvent db contractId chainEvent fingerprint (some reason) with
  | .ok r => r.2
  | .error _ => db

/-- The event is recorded and applied, or recorded with the error it throws. -/
def applyOrFail (db : Database) (chainEvent : ChainEvent) (eventOrder : ℕ)
    (fingerprint : String) (setupFallback : Option OnChainState) : Database :=
  match recordAndApply lib config db contractId chainEvent eventOrder fingerprint
    setupFallback with
  | .ok db' => db'
  | .error e => recordFailure contractId db chainEvent fingerprint e.reason

/-- `syncEvent` where only the event itself can fail. -/
def ingest (address : String) (setupFallback : Option OnChainState) (db : Database)
    (x : ChainEvent × ℕ) : Database :=
  let fingerprint := fingerprintEvent address x.1
  if db.isRecorded fingerprint then db
  else
    match x.1.decodeError with
    | some message =>
        recordFailure contractId db x.1 fingerprint ("Malformed event: " ++ message)
    | none => applyOrFail lib config contractId db x.1 x.2 fingerprint setupFallback

/-- The events one by one; each may come with a state read from the chain. -/
inductive Ingests (address : String) : List (ChainEvent × ℕ) → Database → Database → Prop where
  | nil {db : Database} : Ingests address [] db db
  | snoc {xs : List (ChainEvent × ℕ)} {x : ChainEvent × ℕ} {db db₁ : Database}
      (front : Ingests address xs db db₁) (setupFallback : Option OnChainState) :
      Ingests address (xs ++ [x]) db
        (ingest lib config contractId address setupFallback db₁ x)

variable {lib config contractId} in
/-- What holds before and is kept by each event holds in the end. -/
theorem Ingests.keeps {P : List (ChainEvent × ℕ) → Database → Prop} {address : String}
    {xs : List (ChainEvent × ℕ)} {db db' : Database}
    (h : Ingests lib config contractId address xs db db') (hnil : P [] db)
    (hsnoc : ∀ front x db₁ setupFallback, front ++ [x] <+: xs → P front db₁ →
      P (front ++ [x]) (ingest lib config contractId address setupFallback db₁ x)) :
    P xs db' := by
  induction h with
  | nil => exact hnil
  | snoc front setupFallback ih =>
      refine hsnoc _ _ _ _ (List.prefix_refl _) (ih hnil fun front x db₁ fallback hinit ↦ ?_)
      exact hsnoc front x db₁ fallback (hinit.trans (List.prefix_append _ _))

end Ingest

/-- Only flags of contract rows differ. -/
structure Database.Reflagged (db db' : Database) : Prop where
  tables : db' = { db with contracts := db'.contracts }
  links : db'.contracts.map Db.Contract.link = db.contracts.map Db.Contract.link

namespace Database.Reflagged

variable {db db₁ db₂ : Database}

theorem refl (db : Database) : Reflagged db db := ⟨rfl, rfl⟩

theorem trans (h : Reflagged db db₁) (h' : Reflagged db₁ db₂) : Reflagged db db₂ where
  tables := by
    rw [h'.tables, h.tables]
  links := h'.links.trans h.links

theorem of_updateContract {id : ℕ} {f : Db.Contract → Db.Contract}
    (hf : ∀ x, (f x).link = x.link) (h : db.updateContract id f = .ok db₁) :
    Reflagged db db₁ := by
  rw [updateContract_ok h]
  refine ⟨rfl, ?_⟩
  rw [List.map_map]
  apply List.map_congr_left
  intro x _
  rw [Function.comp_apply]
  split
  · exact hf x
  · rfl

end Database.Reflagged

section Primitives

variable {α : Type} {s s' : IndexerState} {ls : List (Option Mark)} {r : Except Thrown α}

theorem alone_query {read : Database → α} (h : (query read).Alone s ls s' r) :
    s = s' ∧ r = .ok (read s.db) := by
  cases h with
  | commit committed rest =>
      cases committed
      cases rest
      exact ⟨rfl, rfl⟩
  | abort thrown rest => cases thrown

theorem alone_request (h : (request α).Alone s ls s' r) : s = s' := by
  cases h with
  | ask answer rest =>
      cases answer <;> (cases rest; rfl)

theorem alone_mark {label : Mark} {u : Except Thrown Unit}
    (h : (IndexerProgram.mark label).Alone s ls s' u) : s = s' ∧ ls = [some label] := by
  cases h with
  | mark rest =>
      cases rest
      exact ⟨rfl, rfl⟩

theorem alone_transact {label : Option Mark}
    {body : Database → Except Thrown (α × Database)}
    (h : (transact label body).Alone s ls s' r) :
    (∃ a db, body s.db = .ok (a, db) ∧ s' = { s with db := db } ∧ r = .ok a) ∨
      ∃ e, body s.db = .error e ∧ s' = s ∧ r = .error e := by
  cases h with
  | commit committed rest =>
      dsimp only at committed
      cases hbody : body s.db with
      | error e =>
          rw [hbody] at committed
          cases committed
      | ok x =>
          rw [hbody] at committed
          cases committed
          cases rest
          exact Or.inl ⟨x.1, x.2, rfl, rfl, rfl⟩
  | abort thrown rest =>
      dsimp only at thrown
      cases hbody : body s.db with
      | error e =>
          rw [hbody] at thrown
          cases thrown
          cases rest
          exact Or.inr ⟨_, rfl, rfl, rfl⟩
      | ok x =>
          rw [hbody] at thrown
          cases thrown

theorem alone_execute {label : Option Mark} {body : Database → Except Thrown Database}
    {u : Except Thrown Unit} (h : (execute label body).Alone s ls s' u) :
    (∃ db, body s.db = .ok db ∧ s' = { s with db := db } ∧ u = .ok ()) ∨
      ∃ e, body s.db = .error e ∧ s' = s ∧ u = .error e := by
  rcases alone_transact h with ⟨a, db, hbody, hs, hu⟩ | ⟨e, hbody, hs, hu⟩
  · cases hdb : body s.db with
    | error e =>
        rw [hdb] at hbody
        cases hbody
    | ok db₁ =>
        rw [hdb] at hbody
        cases hbody
        exact Or.inl ⟨db, rfl, hs, hu⟩
  · cases hdb : body s.db with
    | error e₁ =>
        rw [hdb] at hbody
        cases hbody
        exact Or.inr ⟨_, rfl, hs, hu⟩
    | ok db₁ =>
        rw [hdb] at hbody
        cases hbody

/-- From a sequence that returned, its two parts. -/
theorem alone_bind_ok {β : Type} {p : IndexerProgram β} {f : β → IndexerProgram α} {a : α}
    (h : (p >>= f).Alone s ls s' (.ok a)) :
    ∃ b s₁ front back, p.Alone s front s₁ (.ok b) ∧ (f b).Alone s₁ back s' (.ok a) ∧
      ls = front ++ back := by
  rcases h.of_bind with ⟨e, -, hr⟩ | hparts
  · cases hr
  · exact hparts

end Primitives

section Ingest

variable {E : Env} {lib : Backend E} {config : BackendConfig} {contractId eventOrder : ℕ}
  {chainEvent : ChainEvent} {fingerprint : String} {setupFallback : Option OnChainState}
  {s s' : IndexerState} {ls : List (Option Mark)} {outcome : Outcome}

theorem recordEvent_error {db : Database} {applyError : Option String} {e : Thrown}
    (h : recordEvent db contractId chainEvent fingerprint applyError = .error e) :
    db.isRecorded fingerprint = true := by
  unfold recordEvent at h
  dsimp only at h
  split at h
  · assumption
  · cases h

theorem alone_recordFailedEvent {reason : String}
    (hfree : s.db.isRecorded fingerprint = false)
    (h : (recordFailedEvent contractId chainEvent fingerprint reason).Alone s ls s'
      (.ok outcome)) :
    s' = { s with db := recordFailure contractId s.db chainEvent fingerprint reason } := by
  rcases h.of_tryCatch with ⟨o, hbody, -⟩ | ⟨e, s₁, _, _, hbody, -, -⟩
  · obtain ⟨id, s₁, _, _, hwrite, hrest, -⟩ := alone_bind_ok hbody
    rcases alone_transact hwrite with ⟨a, db, hrecord, rfl, -⟩ | ⟨e, -, -, hr⟩
    · cases hrest
      unfold recordFailure
      rw [hrecord]
    · cases hr
  · rcases hbody.of_bind with ⟨e', hwrite, -⟩ | ⟨id, s₂, _, _, -, hrest, -⟩
    · rcases alone_transact hwrite with ⟨a, db, -, -, hr⟩ | ⟨e'', hrecord, -, -⟩
      · cases hr
      · rw [recordEvent_error hrecord] at hfree
        cases hfree
    · cases hrest

/-- An attempt commits, or leaves the database to the attempts after it. -/
theorem alone_attempt (hfree : s.db.isRecorded fingerprint = false) {n : ℕ} {error : Thrown}
    (h : (ingestAttempts lib config contractId chainEvent eventOrder fingerprint setupFallback
      (n + 1) error).Alone s ls s' (.ok outcome)) :
    (∃ db, recordAndApply lib config s.db contractId chainEvent eventOrder fingerprint
      setupFallback = .ok db ∧ s' = { s with db := db }) ∨
    ∃ e ls', recordAndApply lib config s.db contractId chainEvent eventOrder fingerprint
        setupFallback = .error e ∧
      (ingestAttempts lib config contractId chainEvent eventOrder fingerprint setupFallback
        n e).Alone s ls' s' (.ok outcome) := by
  rcases h.of_tryCatch with ⟨o, hbody, -⟩ | ⟨e, s₁, _, _, hbody, hhandler, -⟩
  · obtain ⟨u, s₁, _, _, hwrite, hrest, -⟩ := alone_bind_ok hbody
    rcases alone_execute hwrite with ⟨db, happly, rfl, -⟩ | ⟨e, -, -, hr⟩
    · cases hrest
      exact Or.inl ⟨db, happly, rfl⟩
    · cases hr
  · rcases hbody.of_bind with ⟨_, hwrite, he⟩ | ⟨_, _, _, _, -, hrest, -⟩
    · rcases alone_execute hwrite with ⟨_, -, -, hr⟩ | ⟨_, happly, rfl, hr⟩
      · cases hr
      · cases hr
        cases he
        obtain ⟨known, _, _, _, hquery, hrest, -⟩ := alone_bind_ok hhandler
        obtain ⟨rfl, hknown⟩ := alone_query hquery
        cases hknown
        rw [hfree, if_neg Bool.false_ne_true] at hrest
        split at hrest
        · cases hrest
        · exact Or.inr ⟨_, _, happly, hrest⟩
    · cases hrest

/-- Two attempts come to one: the second throws what the first threw. -/
theorem alone_ingestAttempts (hfree : s.db.isRecorded fingerprint = false) {n : ℕ}
    {error : Thrown}
    (h : (ingestAttempts lib config contractId chainEvent eventOrder fingerprint setupFallback
      (n + 1) error).Alone s ls s' (.ok outcome)) :
    s' = { s with
      db := applyOrFail lib config contractId s.db chainEvent eventOrder fingerprint
        setupFallback } := by
  induction n generalizing error ls with
  | zero =>
      rcases alone_attempt hfree h with ⟨db, happly, rfl⟩ | ⟨e, _, happly, hrest⟩
      · rw [applyOrFail, happly]
      · rw [alone_recordFailedEvent hfree hrest, applyOrFail, happly]
  | succ n ih =>
      rcases alone_attempt hfree h with ⟨db, happly, rfl⟩ | ⟨e, _, happly, hrest⟩
      · rw [applyOrFail, happly]
      · exact ih hrest

theorem alone_fetchSetupFallback {fallback : Option OnChainState}
    (h : (fetchSetupFallback contractId).Alone s ls s' (.ok fallback)) : s = s' := by
  obtain ⟨known, _, _, _, hquery, hrest, -⟩ := alone_bind_ok h
  obtain ⟨rfl, -⟩ := alone_query hquery
  split at hrest
  · cases hrest
    rfl
  · exact alone_request hrest

/-- One pass of the loop over the fetched events. -/
theorem alone_syncEvent {address : String} {ingested ingested' : Bool}
    {x : ChainEvent × ℕ}
    (h : (syncEvent lib config contractId address ingested x).Alone s ls s' (.ok ingested')) :
    ∃ setupFallback,
      s' = { s with db := ingest lib config contractId address setupFallback s.db x } := by
  obtain ⟨known, _, _, _, hquery, hrest, -⟩ := alone_bind_ok h
  obtain ⟨rfl, hknown⟩ := alone_query hquery
  cases hknown
  split at hrest
  next hrec =>
    cases hrest
    refine ⟨none, ?_⟩
    unfold ingest
    dsimp only
    rw [if_pos hrec]
  next hrec =>
    have hfree := Bool.eq_false_iff.mpr hrec
    have hingest {fallback : Option OnChainState} {ls : List (Option Mark)}
        (h : Program.Alone s (do
          let outcome ← ingestEvent lib config contractId x.1 x.2
            (fingerprintEvent address x.1) fallback
          pure (ingested || outcome = .applied)) ls s' (.ok ingested')) :
        s' = { s with
          db := ingest lib config contractId address fallback s.db x } := by
      unfold ingest
      dsimp only
      rw [if_neg hrec]
      obtain ⟨o, s₂, _, _, hingest, hrest, -⟩ := alone_bind_ok h
      cases hrest
      unfold ingestEvent at hingest
      cases hdecode : x.1.decodeError with
      | some message =>
          rw [hdecode] at hingest
          exact alone_recordFailedEvent hfree hingest
      | none =>
          rw [hdecode] at hingest
          exact alone_ingestAttempts hfree hingest
    dsimp only at hrest
    split at hrest
    · obtain ⟨fallback, _, _, _, hfallback, hrest, -⟩ := alone_bind_ok hrest
      obtain rfl := alone_fetchSetupFallback hfallback
      exact ⟨fallback, hingest hrest⟩
    · exact ⟨none, hingest hrest⟩

/-! ## A sync -/

variable {address : String} {fromHeight toHeight : ℕ}

theorem alone_verifyPermissions {verified : Bool}
    (h : (verifyPermissions (.live lib config) contractId address).Alone s ls s' (.ok verified)) :
    s'.firstScans = s.firstScans ∧ s.db.Reflagged s'.db := by
  have hupdate {f : Db.Contract → Db.Contract} {b : Bool} {s : IndexerState}
      {ls : List (Option Mark)}
      (h : Program.Alone s (do
        execute none fun db ↦ db.updateContract contractId f
        pure b) ls s' (.ok verified)) (hf : ∀ x, (f x).link = x.link) :
      s'.firstScans = s.firstScans ∧ s.db.Reflagged s'.db := by
    obtain ⟨_, _, _, _, hwrite, hrest, -⟩ := alone_bind_ok h
    cases hrest
    rcases alone_execute hwrite with ⟨db, hdb, rfl, -⟩ | ⟨_, -, -, hr⟩
    · exact ⟨rfl, .of_updateContract hf hdb⟩
    · cases hr
  obtain ⟨known, _, _, _, hquery, hrest, -⟩ := alone_bind_ok h
  obtain ⟨rfl, -⟩ := alone_query hquery
  split at hrest
  · cases hrest
    exact ⟨rfl, .refl _⟩
  · obtain ⟨security, _, _, _, hrequest, hrest, -⟩ := alone_bind_ok hrest
    obtain rfl := alone_request hrequest
    split at hrest
    · cases hrest
      exact ⟨rfl, .refl _⟩
    · split at hrest
      · exact hupdate hrest fun _ ↦ rfl
      · exact hupdate hrest fun _ ↦ rfl

theorem alone_fetchWindow {window : ℕ × ℕ} {blocks : List ArchiveEventBlock}
    (h : (fetchWindow window).Alone s ls s' (.ok blocks)) : s = s' := by
  obtain ⟨answer, _, _, _, hrequest, hrest, -⟩ := alone_bind_ok h
  obtain rfl := alone_request hrequest
  split at hrest
  · cases hrest
  · split at hrest
    · cases hrest
    · cases hrest
      rfl

theorem alone_fetchDecodedContractEvents {events : List ChainEvent}
    (h : (fetchDecodedContractEvents lib address fromHeight toHeight).Alone s ls s'
      (.ok events)) : s = s' := by
  obtain ⟨blocks, s₁, _, _, hblocks, hrest, -⟩ := alone_bind_ok h
  have hfetch : s = s₁ := by
    unfold fetchArchiveEventBlocks at hblocks
    split at hblocks
    · cases hblocks
    · rcases hblocks.of_tryCatch with ⟨_, hloop, -⟩ | ⟨_, _, _, _, -, hthrow, -⟩
      · refine Program.Alone.of_foldlM (fun _ _ t ↦ s = t) ?_ hloop rfl
        rintro _ _ _ _ _ _ _ rfl hpass
        obtain ⟨_, _, _, _, hwindow, hdone, -⟩ := alone_bind_ok hpass
        cases hdone
        exact alone_fetchWindow hwindow
      · cases hthrow
  subst hfetch
  split at hrest
  · cases hrest
  · cases hrest
    rfl

theorem alone_finishSync {ingested readyFromStoredEvents : Bool} {u : Unit}
    (h : (finishSync contractId ingested readyFromStoredEvents).Alone s ls s' (.ok u)) :
    s'.firstScans = s.firstScans ∧ s.db.Reflagged s'.db := by
  have hupdate {stored : Bool} {s : IndexerState} {ls : List (Option Mark)}
      (h : (execute none fun db ↦ db.updateContract contractId fun c ↦
        if ingested || stored then { c with synced := true, ready := true }
        else { c with synced := true }).Alone s ls s' (.ok u)) :
      s'.firstScans = s.firstScans ∧ s.db.Reflagged s'.db := by
    rcases alone_execute h with ⟨db, hdb, rfl, -⟩ | ⟨_, -, -, hr⟩
    · refine ⟨rfl, .of_updateContract (fun x ↦ ?_) hdb⟩
      split <;> rfl
    · cases hr
  unfold finishSync at h
  dsimp only at h
  split at h
  · obtain ⟨stored, _, _, _, hquery, hrest, -⟩ := alone_bind_ok h
    obtain ⟨rfl, -⟩ := alone_query hquery
    exact hupdate hrest
  · exact hupdate h

/-- The parts of an undisturbed sync that returned. -/
theorem alone_syncSingleContract_parts {finish readyFromStoredEvents ingested : Bool}
    (h : (syncSingleContract lib config (.live lib config) contractId address fromHeight toHeight
      finish readyFromStoredEvents).Alone s ls s' (.ok (some ingested))) :
    ∃ events s₁ s₂ front back, some (.fetched contractId address events) ∈ ls ∧
      (verifyPermissions (.live lib config) contractId address).Alone s front s₁ (.ok true) ∧
      Ingests lib config contractId address
        (orderEventsForApply (reverseEventsWithinEachTx events)).zipIdx s₁.db s₂.db ∧
      (s' = s₂ ∨ (finishSync contractId ingested readyFromStoredEvents).Alone s₂ back s'
        (.ok ())) := by
  obtain ⟨verified, s₁, front, _, hverify, hrest, rfl⟩ := alone_bind_ok h
  split at hrest
  next hverified =>
    subst hverified
    obtain ⟨events, _, _, _, hfetch, hrest, hlabels⟩ := alone_bind_ok hrest
    obtain rfl := alone_fetchDecodedContractEvents hfetch
    obtain ⟨_, _, _, _, hmark, hrest, hlabels'⟩ := alone_bind_ok hrest
    obtain ⟨rfl, hfetched⟩ := alone_mark hmark
    obtain ⟨b, s₂, _, _, hloop, hrest, -⟩ := alone_bind_ok hrest
    have hingests := Program.Alone.of_foldlM
      (fun front _ t ↦ Ingests lib config contractId address front s₁.db t.db)
      (fun front x b t ls c t' hfront hpass ↦ by
        obtain ⟨fallback, rfl⟩ := alone_syncEvent hpass
        exact .snoc hfront fallback) hloop .nil
    dsimp only at hrest
    split at hrest
    · obtain ⟨_, _, back, _, hfinish, hrest, -⟩ := alone_bind_ok hrest
      obtain ⟨_, _, _, _, hmark, hrest, -⟩ := alone_bind_ok hrest
      obtain ⟨rfl, -⟩ := alone_mark hmark
      cases hrest
      exact ⟨events, s₁, s₂, front, back, by simp [hlabels, hlabels', hfetched], hverify, hingests,
        .inr hfinish⟩
    · obtain ⟨_, _, _, _, hmark, hrest, -⟩ := alone_bind_ok hrest
      obtain ⟨rfl, -⟩ := alone_mark hmark
      cases hrest
      exact ⟨events, s₁, _, front, [], by simp [hlabels, hlabels', hfetched], hverify, hingests,
        .inl rfl⟩
  · cases hrest

/-- What an undisturbed sync that returned has done: it ingested what it fetched. -/
theorem alone_syncSingleContract {finish readyFromStoredEvents ingested : Bool}
    (h : (syncSingleContract lib config (.live lib config) contractId address fromHeight toHeight
      finish readyFromStoredEvents).Alone s ls s' (.ok (some ingested))) :
    ∃ events db₁ db₂, some (.fetched contractId address events) ∈ ls ∧ s.db.Reflagged db₁ ∧
      Ingests lib config contractId address
        (orderEventsForApply (reverseEventsWithinEachTx events)).zipIdx db₁ db₂ ∧
      db₂.Reflagged s'.db := by
  obtain ⟨events, s₁, s₂, _, _, hfetched, hverify, hloop, hfinish⟩ :=
    alone_syncSingleContract_parts h
  obtain ⟨-, hflags⟩ := alone_verifyPermissions hverify
  refine ⟨events, s₁.db, s₂.db, hfetched, hflags, hloop, ?_⟩
  rcases hfinish with rfl | hfinish
  · exact .refl _
  · exact (alone_finishSync hfinish).2

end Ingest

/-- The labels say nothing of a fetch. -/
def FetchFree (ls : List (Option Mark)) : Prop :=
  ∀ contractId address events, some (.fetched contractId address events) ∉ ls

theorem FetchFree.append {ls ls' : List (Option Mark)} (h : FetchFree ls) (h' : FetchFree ls') :
    FetchFree (ls ++ ls') := fun contractId address events hmem ↦
  (List.mem_append.mp hmem).elim (h contractId address events) (h' contractId address events)

theorem fetchFree_nil : FetchFree [] := fun _ _ _ ↦ List.not_mem_nil

theorem fetchFree_none : FetchFree [none] := by
  intro contractId address events hmem
  cases List.mem_singleton.mp hmem

section Ends

variable {E : Env} {lib : Backend E} {config : BackendConfig} {contractId eventOrder : ℕ}
  {chainEvent : ChainEvent} {fingerprint : String} {setupFallback : Option OnChainState}
  {db : Database} {scans : InsertionMap ℕ FirstScan} {error e : Thrown}

theorem recordAndApply_lasting :
    Lasting (recordAndApply lib config db contractId chainEvent eventOrder fingerprint
      setupFallback) := by
  have hrecord : Lasting (recordEvent db contractId chainEvent fingerprint none) := by
    unfold recordEvent
    dsimp only
    split
    · exact lasting_prismaError (by decide)
    · exact lasting_ok _
  exact hrecord.bind fun _ ↦ applyEvent_lasting

theorem exists_alone_recordFailedEvent (hfree : db.isRecorded fingerprint = false)
    (reason : String) :
    ∃ ls, FetchFree ls ∧
      (recordFailedEvent contractId chainEvent fingerprint reason).Alone ⟨db, scans⟩ ls
        ⟨recordFailure contractId db chainEvent fingerprint reason, scans⟩ (.ok .quarantined) := by
  unfold recordFailure
  cases hrecord : recordEvent db contractId chainEvent fingerprint (some reason) with
  | error e =>
      rw [recordEvent_error hrecord] at hfree
      cases hfree
  | ok r =>
      refine ⟨[some (.recorded fingerprint)], ?_, .commit (b := r.1) ?_ .done⟩
      · intro contractId address events hmem
        cases List.mem_singleton.mp hmem
      · dsimp only
        rw [hrecord]
        rfl

/-- An attempt that fails leaves the database to the next one. -/
theorem alone_ingestAttempts_of_error (hfree : db.isRecorded fingerprint = false) {n : ℕ}
    {ls : List (Option Mark)} {s : IndexerState} {outcome : Outcome}
    (happly : recordAndApply lib config db contractId chainEvent eventOrder fingerprint
      setupFallback = .error e)
    (h : (ingestAttempts lib config contractId chainEvent eventOrder fingerprint setupFallback
      n e).Alone ⟨db, scans⟩ ls s (.ok outcome)) :
    (ingestAttempts lib config contractId chainEvent eventOrder fingerprint setupFallback
      (n + 1) error).Alone ⟨db, scans⟩ (none :: none :: ls) s (.ok outcome) := by
  have hquery : (Except.ok (db.isRecorded fingerprint, ⟨db, scans⟩) :
      Except Thrown (Bool × IndexerState)) = .ok (false, ⟨db, scans⟩) := by rw [hfree]
  refine .abort (e := e) ?_ (.commit hquery ?_)
  · dsimp only
    rw [happly]
    rfl
  · change Program.Alone _ (if isTransientDbError e = true then throw e else _) _ _ _
    rw [recordAndApply_lasting e happly]
    exact h

theorem exists_alone_ingestAttempts (hfree : db.isRecorded fingerprint = false) (n : ℕ)
    (error : Thrown) :
    ∃ ls outcome, FetchFree ls ∧ (ingestAttempts lib config contractId chainEvent eventOrder
      fingerprint setupFallback (n + 1) error).Alone ⟨db, scans⟩ ls
        ⟨applyOrFail lib config contractId db chainEvent eventOrder fingerprint setupFallback,
          scans⟩ (.ok outcome) := by
  unfold applyOrFail
  cases happly : recordAndApply lib config db contractId chainEvent eventOrder fingerprint
      setupFallback with
  | ok db' =>
      refine ⟨[some (.applied fingerprint)], .applied, ?_, .commit (b := ()) ?_ .done⟩
      · intro contractId address events hmem
        cases List.mem_singleton.mp hmem
      · dsimp only
        rw [happly]
        rfl
  | error e =>
      have hfailed := fetchFree_none.append fetchFree_none
      induction n generalizing error with
      | zero =>
          obtain ⟨ls, hls, hrest⟩ := exists_alone_recordFailedEvent hfree e.reason
          exact ⟨_, _, hfailed.append hls, alone_ingestAttempts_of_error hfree happly hrest⟩
      | succ n ih =>
          obtain ⟨ls, outcome, hls, hrest⟩ := ih e
          exact ⟨_, _, hfailed.append hls, alone_ingestAttempts_of_error hfree happly hrest⟩

variable (lib config contractId scans) in
theorem exists_alone_ingestEvent {address : String} {x : ChainEvent × ℕ}
    (hfree : db.isRecorded (fingerprintEvent address x.1) = false) :
    ∃ ls outcome, FetchFree ls ∧ (ingestEvent lib config contractId x.1 x.2
      (fingerprintEvent address x.1) none).Alone ⟨db, scans⟩ ls
        ⟨ingest lib config contractId address none db x, scans⟩ (.ok outcome) := by
  unfold ingest ingestEvent
  dsimp only
  rw [hfree, if_neg Bool.false_ne_true]
  cases x.1.decodeError with
  | some message =>
      obtain ⟨ls, hls, hfailed⟩ :=
        exists_alone_recordFailedEvent hfree ("Malformed event: " ++ message)
      exact ⟨ls, _, hls, hfailed⟩
  | none => exact exists_alone_ingestAttempts hfree 1 _

variable (contractId db scans) in
/-- A state of the chain that is asked for may be missing. -/
theorem exists_alone_fetchSetupFallback : ∃ ls, FetchFree ls ∧
    (fetchSetupFallback contractId).Alone ⟨db, scans⟩ ls ⟨db, scans⟩ (.ok none) := by
  cases hthreshold : ((db.getLatestConfig contractId).bind Db.ContractConfig.threshold).isSome with
  | true =>
      refine ⟨[none], fetchFree_none, .commit (b := true) ?_ .done⟩
      dsimp only
      rw [hthreshold]
  | false =>
      refine ⟨_, fetchFree_none.append fetchFree_none,
        .commit (b := false) ?_ (.ask (.ok none) .done)⟩
      dsimp only
      rw [hthreshold]

/-- A pass over any event comes to its end. -/
theorem exists_alone_syncEvent (address : String) (ingested : Bool) (x : ChainEvent × ℕ) :
    ∃ ls ingested', FetchFree ls ∧
      (syncEvent lib config contractId address ingested x).Alone ⟨db, scans⟩ ls
        ⟨ingest lib config contractId address none db x, scans⟩ (.ok ingested') := by
  have hknown : (query fun db ↦ db.isRecorded (fingerprintEvent address x.1) :
      IndexerProgram Bool).Alone ⟨db, scans⟩ [none] ⟨db, scans⟩
      (.ok (db.isRecorded (fingerprintEvent address x.1))) := .commit rfl .done
  cases hrecorded : db.isRecorded (fingerprintEvent address x.1) with
  | true =>
      have hsame : ingest lib config contractId address none db x = db := if_pos hrecorded
      rw [hsame]
      refine ⟨_, ingested, fetchFree_none.append fetchFree_nil, hknown.bind ?_⟩
      rw [hrecorded, if_pos rfl]
      exact .done
  | false =>
      obtain ⟨ls, outcome, hls, hingest⟩ :=
        exists_alone_ingestEvent lib config contractId scans hrecorded
      obtain ⟨ls', hls', hfallback⟩ := exists_alone_fetchSetupFallback contractId db scans
      have hrest := hingest.bind (f := fun outcome ↦
        (pure (ingested || outcome = .applied) : IndexerProgram Bool)) .done
      refine ⟨[none] ++ ((if x.1.type = "setupOwner" then ls' else []) ++ (ls ++ [])),
        (ingested || outcome = .applied), ?_, hknown.bind ?_⟩
      · refine fetchFree_none.append (.append ?_ (hls.append fetchFree_nil))
        split
        · exact hls'
        · exact fetchFree_nil
      · rw [hrecorded, if_neg Bool.false_ne_true]
        dsimp only
        split
        · exact hfallback.bind hrest
        · exact hrest

/-- The loop over any events comes to its end. -/
theorem exists_alone_foldlM_syncEvent (address : String) (ingested : Bool)
    (xs : List (ChainEvent × ℕ)) :
    ∃ ls ingested', FetchFree ls ∧
      (xs.foldlM (syncEvent lib config contractId address) ingested).Alone ⟨db, scans⟩ ls
        ⟨xs.foldl (ingest lib config contractId address none) db, scans⟩ (.ok ingested') := by
  induction xs generalizing db ingested with
  | nil => exact ⟨[], ingested, fetchFree_nil, .done⟩
  | cons x xs ih =>
      obtain ⟨ls, ingested', hls, hpass⟩ := exists_alone_syncEvent address ingested x
      obtain ⟨ls', ingested'', hls', hpasses⟩ := ih ingested'
      exact ⟨ls ++ ls', ingested'', hls.append hls', hpass.bind hpasses⟩

end Ends

end MinaGuard
