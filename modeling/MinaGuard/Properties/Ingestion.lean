import MinaGuard.Instance.Archive

/-!
# Exactly-once ingestion

However the syncs of a contract overlap and whatever fails, the event log has
one row for each fingerprint, a row without an error stands for one committed
application, and a row with an error for none.  A sync that returns has a row
for everything it fetched, and the cursor follows such rows.
-/

namespace MinaGuard

open Foundations

section Ingestion

variable {E : Env} (lib : Backend E) (config : BackendConfig)

/-- The happening is a committed application of the event under a fingerprint. -/
def applies (fingerprint : String) : Happening Slot Mark → Bool
  | .run _ (some (.applied applied)) => applied = fingerprint
  | _ => false

/-- How often the state changes under a fingerprint were committed. -/
def applications (fingerprint : String) (as : List (Happening Slot Mark)) : ℕ :=
  as.countP (applies fingerprint)

/-- The step commits an event that its job has fetched: the row and the changes. -/
def CommitsEvent (S S' : Server Slot IndexerState Thrown Mark) (i : Slot) (l : Option Mark) :
    Prop :=
  ∃ job contractId address chainEvent eventOrder setupFallback, S.jobs i = some job ∧
    Fetched i job.trace S.store.db contractId address (chainEvent, eventOrder) ∧
    chainEvent.decodeError = none ∧ l = some (.applied (fingerprintEvent address chainEvent)) ∧
    recordAndApply lib config S.store.db contractId chainEvent eventOrder
      (fingerprintEvent address chainEvent) setupFallback = .ok S'.store.db

/-- The step commits the failure of such an event: a row with an error. -/
def CommitsFailure (S S' : Server Slot IndexerState Thrown Mark) (i : Slot) (l : Option Mark) :
    Prop :=
  ∃ job contractId address chainEvent eventOrder reason id, S.jobs i = some job ∧
    Fetched i job.trace S.store.db contractId address (chainEvent, eventOrder) ∧
    l = some (.recorded (fingerprintEvent address chainEvent)) ∧
    recordEvent S.store.db contractId chainEvent (fingerprintEvent address chainEvent)
      (some reason) = .ok (id, S'.store.db)

/-- What holds after the happenings `as`, which led to `S`. -/
structure ExactlyOnce (as : List (Happening Slot Mark))
    (S : Server Slot IndexerState Thrown Mark) : Prop where
  /-- Each fingerprint has at most one row. -/
  unique : (S.store.db.eventRaws.map Db.EventRaw.fingerprint).Nodup
  at_most_once : ∀ fingerprint, applications fingerprint as ≤ 1
  /-- A row without an error is there exactly when the changes were committed. -/
  applied_iff : ∀ fingerprint, applications fingerprint as = 1 ↔
    ∃ row ∈ S.store.db.eventRaws, row.fingerprint = fingerprint ∧ row.applyError = none
  /-- The row and the changes of a fetched event are committed together; every other
  step leaves what is derived from events alone, the record of a failure included. -/
  effect : ∀ i l S', (indexerSystem lib config).step S (.run i l) S' →
    CommitsEvent lib config S S' i l ∨
      S.store.db.Untouched S'.store.db ∧
        (S'.store.db.eventRaws = S.store.db.eventRaws ∨
          CommitsFailure S S' i l ∧
            ∃ row, S'.store.db.eventRaws = S.store.db.eventRaws ++ [row] ∧
              row.applyError ≠ none)
  /-- A sync that has returned has a row for every event it fetched. -/
  complete : ∀ i address events, .run i (some (.synced address events)) ∈ as →
    ∀ e ∈ events, ∃ row ∈ S.store.db.eventRaws,
      row.fingerprint = fingerprintEvent address e
  /-- A tick moves the cursor only when every event that its syncs fetched
  beyond the old cursor has a row. -/
  advance : ∀ i l S', (indexerSystem lib config).step S (.run i l) S' →
    S'.store.db.indexedHeight ≠ S.store.db.indexedHeight →
    ∃ job, S.jobs i = some job ∧
      ∀ contractId address events, .fetched contractId address events ∈ job.trace →
      ∀ e ∈ events, cursor config S.store.db < e.blockHeight →
        ∃ row ∈ S.store.db.eventRaws, row.fingerprint = fingerprintEvent address e

variable {lib config} {as : List (Happening Slot Mark)}
  {S S' : Server Slot IndexerState Thrown Mark}

theorem step_promise (run : (indexerSystem lib config).Run as S) {i : Slot}
    {l : Option Mark} (hstep : (indexerSystem lib config).step S (.run i l) S') :
    ∃ job, S.jobs i = some job ∧
      Promise lib config i job.trace l S.store S'.store := by
  refine (ServerStep.keeps (fun _ ↦ True) Rely (Promise lib config) (fun _ _ ↦ trivial)
    (fun _ _ ↦ trivial) (fun _ s ↦ .refl s) (fun _ _ _ _ ↦ Rely.trans)
    (fun _ tr s ↦ .of_plain ⟨nofun, nofun⟩ (effect_none_refl tr s.db))
    (fun _ _ _ _ _ _ _ ↦ trivial) (fun _ _ _ _ _ _ hij h ↦ h.rely hij) ?_ run).2 hstep
  intro i p hstarts s _
  have hI {n : ℕ} : Between config (.side n) 0 nothing [] [] s := ⟨nofun, nofun, nofun⟩
  have hside {n contractId : ℕ} {address : String} :
      Slot.side n = .tick → Fact.contract contractId address ∈ [] := nofun
  cases hstarts with
  | tick => exact tick_ensures s
  | sync =>
      apply Program.Meets.bind
      refine (syncSingleContract_ensures hside hI).mono fun tr s r _ ↦ ?_
      cases r with
      | error e => trivial
      | ok result => trivial
  | backfill => exact (backfillContract_ensures hside hI).mono fun _ _ _ _ ↦ trivial
  | subscribe =>
      apply Program.Meets.bind
      refine ensures_transact ⟨nofun, nofun⟩ nofun
        (fun s hs id db' hbody ↦ createContract_effect hbody) hI ?_
      exact fun _ _ _ ↦ ⟨fun _ _ _ ↦ trivial, fun _ ↦ trivial⟩

/-- Steps of programs are the only ones that change the database. -/
theorem step_db {a : Happening Slot Mark} (hstep : (indexerSystem lib config).step S a S') :
    S'.store.db = S.store.db ∧ (∀ fingerprint, applies fingerprint a = false) ∨
      ∃ i l, a = .run i l := by
  cases hstep with
  | start => exact Or.inl ⟨rfl, fun _ ↦ rfl⟩
  | run => exact Or.inr ⟨_, _, rfl⟩
  | stop => exact Or.inl ⟨rfl, fun _ ↦ rfl⟩
  | crash => exact Or.inl ⟨rfl, fun _ ↦ rfl⟩

theorem step_grows (run : (indexerSystem lib config).Run as S) {a : Happening Slot Mark}
    (hstep : (indexerSystem lib config).step S a S') : S.store.db.Grows S'.store.db := by
  rcases step_db hstep with ⟨heq, -⟩ | ⟨i, l, rfl⟩
  · rw [heq]
    exact .refl _
  · obtain ⟨_, -, hpromise⟩ := step_promise run hstep
    exact hpromise.1.grows

/-- What a step adds to the event log: nothing, or one row under a fingerprint
that was free, without an error just when its changes are committed with it. -/
theorem Effect.eventRaws {i : Slot} {tr : List Mark} {l : Option Mark} {db db' : Database}
    (h : Effect lib config i tr l db db') :
    db'.eventRaws = db.eventRaws ∧ (∀ fingerprint, applies fingerprint (.run i l) = false) ∨
      ∃ row, db'.eventRaws = db.eventRaws ++ [row] ∧
        row.fingerprint ∉ db.eventRaws.map Db.EventRaw.fingerprint ∧
        ∀ fingerprint, applies fingerprint (.run i l) =
          decide (row.fingerprint = fingerprint ∧ row.applyError = none) := by
  unfold Effect at h
  split at h
  · obtain ⟨_, _, _, _, _, -, -, -, happly⟩ := h
    obtain ⟨hfree, -, row, hrows, rfl, herror⟩ := recordAndApply_ok happly
    refine Or.inr ⟨row, hrows, ?_, fun fingerprint ↦ ?_⟩
    · rwa [← Database.isRecorded_iff, Bool.not_eq_true]
    · simp [applies, herror]
  · obtain ⟨_, _, _, _, _, _, -, -, hrecord⟩ := h
    obtain ⟨hfree, -, -, ⟨row, hrows, rfl, herror⟩, -⟩ := recordEvent_ok hrecord
    refine Or.inr ⟨row, hrows, ?_, fun fingerprint ↦ ?_⟩
    · rwa [← Database.isRecorded_iff, Bool.not_eq_true]
    · simp [applies, herror]
  · exact Or.inl ⟨by rw [h], fun _ ↦ rfl⟩
  · exact Or.inl ⟨by rw [h], fun _ ↦ rfl⟩
  · exact Or.inl ⟨by rw [h], fun _ ↦ rfl⟩
  · exact Or.inl ⟨h.1, fun _ ↦ rfl⟩

/-- The rows that stand for a committed application of the fingerprint. -/
def appliedRows (fingerprint : String) (rows : List Db.EventRaw) : List Db.EventRaw :=
  rows.filter fun r ↦ r.fingerprint = fingerprint ∧ r.applyError = none

/-- Fingerprints are unique, and the applied rows count the applications. -/
theorem run_eventRaws (run : (indexerSystem lib config).Run as S) :
    (S.store.db.eventRaws.map Db.EventRaw.fingerprint).Nodup ∧
      ∀ fingerprint, applications fingerprint as =
        (appliedRows fingerprint S.store.db.eventRaws).length := by
  refine TransitionSystem.Run.invariant
    (I := fun as S ↦ (S.store.db.eventRaws.map Db.EventRaw.fingerprint).Nodup ∧
      ∀ fingerprint, applications fingerprint as =
        (appliedRows fingerprint S.store.db.eventRaws).length) ?_ ?_ run
  · rintro S ⟨hstore, -⟩
    rw [hstore]
    exact ⟨List.nodup_nil, fun _ ↦ rfl⟩
  · rintro as S a S' hrun ⟨hnodup, hcount⟩ hstep
    have hlog : S'.store.db.eventRaws = S.store.db.eventRaws ∧
        (∀ fingerprint, applies fingerprint a = false) ∨
        ∃ row, S'.store.db.eventRaws = S.store.db.eventRaws ++ [row] ∧
          row.fingerprint ∉ S.store.db.eventRaws.map Db.EventRaw.fingerprint ∧
          ∀ fingerprint, applies fingerprint a =
            decide (row.fingerprint = fingerprint ∧ row.applyError = none) := by
      rcases step_db hstep with ⟨heq, hquiet⟩ | ⟨i, l, rfl⟩
      · exact Or.inl ⟨by rw [heq], hquiet⟩
      · obtain ⟨_, -, hpromise⟩ := step_promise hrun hstep
        exact hpromise.1.eventRaws
    have happend (fingerprint : String) : applications fingerprint (as ++ [a]) =
        applications fingerprint as + (if applies fingerprint a then 1 else 0) := by
      unfold applications
      rw [List.countP_append, List.countP_singleton]
    rcases hlog with ⟨hrows, hquiet⟩ | ⟨row, hrows, hfree, happlies⟩
    · rw [hrows]
      refine ⟨hnodup, fun fingerprint ↦ ?_⟩
      rw [happend, hquiet]
      exact hcount fingerprint
    · rw [hrows, List.map_append]
      refine ⟨List.nodup_append.mpr ⟨hnodup, List.nodup_singleton _, ?_⟩,
        fun fingerprint ↦ ?_⟩
      · intro x hx y hy
        rw [List.map_singleton, List.mem_singleton] at hy
        rw [hy]
        exact fun heq ↦ hfree (heq ▸ hx)
      · rw [happend, happlies, hcount, appliedRows, appliedRows, List.filter_append,
          List.length_append, List.filter_singleton]
        cases decide (row.fingerprint = fingerprint ∧ row.applyError = none) with
        | true => rfl
        | false => rfl

theorem applications_le_one (run : (indexerSystem lib config).Run as S)
    (fingerprint : String) : applications fingerprint as ≤ 1 := by
  obtain ⟨hnodup, hcount⟩ := run_eventRaws run
  rw [hcount]
  have hsub : ((appliedRows fingerprint S.store.db.eventRaws).map
      Db.EventRaw.fingerprint).Nodup :=
    hnodup.sublist (List.filter_sublist.map _)
  have hconst : ∀ x ∈ (appliedRows fingerprint S.store.db.eventRaws).map
      Db.EventRaw.fingerprint, x = fingerprint := by
    intro x hx
    obtain ⟨row, hrow, rfl⟩ := List.mem_map.mp hx
    exact (of_decide_eq_true (List.mem_filter.mp hrow).2).1
  rw [List.eq_replicate_of_mem hconst, List.nodup_replicate, List.length_map] at hsub
  exact hsub

theorem applications_eq_one_iff (run : (indexerSystem lib config).Run as S)
    (fingerprint : String) : applications fingerprint as = 1 ↔
      ∃ row ∈ S.store.db.eventRaws, row.fingerprint = fingerprint ∧ row.applyError = none := by
  have hle := applications_le_one run fingerprint
  have hpos : applications fingerprint as = 1 ↔ 0 < applications fingerprint as := by omega
  rw [hpos, (run_eventRaws run).2, List.length_pos_iff_exists_mem]
  simp [appliedRows]

theorem Database.Recorded.exists_row {db : Database} {address : String} {e : ChainEvent}
    (h : db.Recorded address e) :
    ∃ row ∈ db.eventRaws, row.fingerprint = fingerprintEvent address e :=
  List.mem_map.mp (db.isRecorded_iff.mp h)

/-- Rows outlive the rest of the run. -/
theorem path_grows (run : (indexerSystem lib config).Run as S)
    {bs : List (Happening Slot Mark)} (path : (indexerSystem lib config).Path S bs S') :
    S.store.db.Grows S'.store.db := by
  induction bs generalizing as S with
  | nil =>
      cases path
      exact .refl _
  | cons b bs ih =>
      obtain ⟨M, hstep, hrest⟩ := path
      exact (step_grows run hstep).trans (ih (run.step hstep) hrest)

theorem synced_recorded (run : (indexerSystem lib config).Run as S) {i : Slot}
    {address : String} {events : List ChainEvent}
    (hsynced : .run i (some (.synced address events)) ∈ as) {e : ChainEvent}
    (he : e ∈ events) : S.store.db.Recorded address e := by
  obtain ⟨front, back, S₁, S₂, rfl, hfront, hstep, hpath⟩ := run.exists_step hsynced
  obtain ⟨_, -, hpromise⟩ := step_promise hfront hstep
  have hrec := hpromise.2.1 address events rfl e he
  have hgrows := (step_grows hfront hstep).trans (path_grows (hfront.step hstep) hpath)
  exact hgrows.isRecorded hrec

/-- Overlapping syncs ingest every event exactly once, all or nothing. -/
theorem exactly_once_ingestion (run : (indexerSystem lib config).Run as S) :
    ExactlyOnce lib config as S where
  unique := (run_eventRaws run).1
  at_most_once := applications_le_one run
  applied_iff := applications_eq_one_iff run
  effect := by
    intro i l S' hstep
    obtain ⟨job, hjob, heffect, -⟩ := step_promise run hstep
    unfold Effect at heffect
    split at heffect
    next fingerprint =>
      obtain ⟨contractId, address, chainEvent, eventOrder, setupFallback, hfetched, hdecode, rfl,
        happly⟩ := heffect
      exact Or.inl ⟨job, contractId, address, chainEvent, eventOrder, setupFallback, hjob,
        hfetched, hdecode, rfl, happly⟩
    next fingerprint =>
      obtain ⟨contractId, address, chainEvent, eventOrder, reason, id, hfetched, rfl, hrecord⟩ :=
        heffect
      obtain ⟨-, huntouched, -, ⟨row, hrows, -, herror⟩, -⟩ := recordEvent_ok hrecord
      refine Or.inr ⟨huntouched, Or.inr ⟨⟨job, contractId, address, chainEvent, eventOrder,
        reason, id, hjob, hfetched, rfl, hrecord⟩, row, hrows, ?_⟩⟩
      rw [herror]
      nofun
    next =>
      rw [heffect]
      exact Or.inr ⟨⟨rfl, rfl, rfl, rfl, rfl, rfl, (Database.Untouched.refl _).contracts⟩,
        Or.inl rfl⟩
    next =>
      rw [heffect]
      exact Or.inr ⟨.refl _, Or.inl rfl⟩
    next =>
      rw [heffect]
      exact Or.inr ⟨.refl _, Or.inl rfl⟩
    next => exact Or.inr ⟨heffect.2.2.2, Or.inl heffect.1⟩
  complete := fun i address events hsynced e he ↦ (synced_recorded run hsynced he).exists_row
  advance := by
    intro i l S' hstep hmoved
    obtain ⟨job, hjob, heffect, -, hadvance⟩ := step_promise run hstep
    have hl : ∃ c t, l = some (.advanced c t) := by
      by_contra hnone
      exact hmoved (heffect.indexedHeight fun c t hl ↦ hnone ⟨c, t, hl⟩)
    obtain ⟨c, t, rfl⟩ := hl
    obtain ⟨-, rfl, hcovered⟩ := hadvance c t rfl
    refine ⟨job, hjob, fun contractId address events hfetched e he hc ↦ ?_⟩
    exact ((hcovered contractId address events hfetched e he hc).resolve_right id).exists_row

/-- A job that nothing disturbs, started in a free slot. -/
theorem run_alone (run : (indexerSystem lib config).Run as S) {i : Slot}
    (free : S.jobs i = none) {p : IndexerProgram Unit} (allowed : Starts lib config i p)
    {ls : List (Option Mark)} {s' : IndexerState} {r : Except Thrown Unit}
    (h : p.Alone S.store ls s' r) :
    ∃ jobs, (indexerSystem lib config).Run (as ++ .start i :: ls.map (.run i)) ⟨s', jobs⟩ ∧
      ∀ j ≠ i, jobs j = S.jobs j := by
  obtain ⟨jobs, hpath, hothers⟩ := h.path (Function.update_self i (some ⟨[], p⟩) S.jobs)
  refine ⟨jobs, run.extend ⟨_, .start free allowed, hpath⟩, fun j hj ↦ ?_⟩
  rw [hothers j hj, Function.update_of_ne hj]

/-- One job pauses, another one runs from its start to its end, and the first goes on. -/
theorem run_overlapping (run : (indexerSystem lib config).Run as S) {i j : Slot} (hij : j ≠ i)
    (free : S.jobs i = none) (free' : S.jobs j = none) {p p' : IndexerProgram Unit}
    (allowed : Starts lib config i p) (allowed' : Starts lib config j p')
    {ls ls₁ ls₂ : List (Option Mark)} {s₁ s₂ s' : IndexerState} {r r' : Except Thrown Unit}
    (h : p.Pauses S.store ls s₁ s₂ ls₂ s' r) (h' : p'.Alone s₁ ls₁ s₂ r') :
    ∃ jobs, (indexerSystem lib config).Run (as ++ .start i :: ls.map (.run i) ++
      .start j :: ls₁.map (.run j) ++ ls₂.map (.run i)) ⟨s', jobs⟩ := by
  obtain ⟨q, hsteps, halone⟩ := h
  obtain ⟨jobs, _, hpath, hi, hothers⟩ :=
    hsteps.path (Function.update_self i (some ⟨[], p⟩) S.jobs)
  have hpaused : (indexerSystem lib config).Run (as ++ .start i :: ls.map (.run i)) ⟨s₁, jobs⟩ :=
    run.extend ⟨_, .start free allowed, hpath⟩
  have hfree : jobs j = none := by rw [hothers j hij, Function.update_of_ne hij, free']
  obtain ⟨jobs', hbetween, hothers'⟩ := run_alone hpaused hfree allowed' h'
  obtain ⟨jobs'', hpath', -⟩ := halone.path ((hothers' i hij.symm).trans hi)
  exact ⟨jobs'', hbetween.extend hpath'⟩

end Ingestion

namespace Walkthrough

theorem alone_subscribe :
    (subscribe (keyText root) true 2).Alone ⟨{}, []⟩ [none] ⟨tracked, []⟩ (.ok ()) :=
  .commit rfl .done

/-- What one sync makes of them: a proposal that is approved and executed, and an owner. -/
theorem addition_synced : ∃ db x xs, placed addition = x :: xs ∧
    x.1.decodeError = none ∧ x.1.type ≠ "setupOwner" ∧ synced 1 root addition tracked = some db ∧
    db.approvals.length = 2 ∧ db.proposalExecutions.length = 1 ∧
    db.ownerMemberships.length = 1 := by
  have hplaced : (placed addition).head?.any (fun x ↦
      x.1.decodeError = none ∧ x.1.type ≠ "setupOwner") = true := by decide +kernel
  have hsynced : (synced 1 root addition tracked).any (fun db ↦
      db.approvals.length = 2 ∧ db.proposalExecutions.length = 1 ∧
        db.ownerMemberships.length = 1) = true := by decide +kernel
  obtain ⟨x, hx, hfirst⟩ := (Option.any_eq_true _ _).mp hplaced
  obtain ⟨db, hdb, hrest⟩ := (Option.any_eq_true _ _).mp hsynced
  obtain ⟨xs, hxs⟩ := List.head?_eq_some_iff.mp hx
  obtain ⟨hdecode, htype⟩ := of_decide_eq_true hfirst
  exact ⟨db, x, xs, hxs, hdecode, htype, hdb, of_decide_eq_true hrest⟩

/-- A subscription, and two syncs of which the first one pauses after its look at the first
event; `ls` are the marks of the second one on the events. -/
def overlapping (ls : List (Option Mark)) : List (Happening Slot Mark) :=
  let fetched := fetchedMarks backend.base58 1 (keyText root) addition
  let synced := syncedMark backend.base58 (keyText root) addition
  [.start (.side 0), .run (.side 0) none] ++
    .start (.side 1) :: (fetched ++ [none]).map (.run (.side 1)) ++
    .start (.side 2) :: (fetched ++ (ls ++ [synced])).map (.run (.side 2)) ++
    (none :: none :: (placed addition).tail.map (fun _ ↦ none) ++ [synced]).map (.run (.side 1))

/-- The second sync ingests the events, and the first one finds them there. -/
theorem overlapping_syncs_ingested : ∃ ls S, synced 1 root addition tracked = some S.store.db ∧
    S.store.db.approvals.length = 2 ∧ S.store.db.proposalExecutions.length = 1 ∧
    S.store.db.ownerMemberships.length = 1 ∧
    ExactlyOnce backend backendConfig (overlapping ls) S := by
  obtain ⟨db, x, xs, hplaced, hdecode, htype, hdb, hrows⟩ := addition_synced
  have hstart : (indexerSystem backend backendConfig).Run [] ⟨⟨{}, []⟩, fun _ ↦ none⟩ :=
    ⟨_, ⟨rfl, fun _ ↦ rfl⟩, rfl⟩
  obtain ⟨jobs, hsubscribed, hfree⟩ :=
    run_alone hstart rfl (Starts.subscribe (n := 0)) alone_subscribe
  have hproved : ∀ b ∈ addition, ∀ t ∈ b.transactions, t.Proved := archivedBlocks_proved _ _ _
  have hwindow : OneRequest addition 5 9 := ⟨by decide, by decide, by decide, by decide +kernel⟩
  have hverified : (tracked.findContract 1).map Db.Contract.permissionsVerified = some true := rfl
  obtain ⟨ls, ingested, -, hsecond⟩ :=
    alone_sync_window backend backendConfig (keyText root) hverified hproved addition_hashes hwindow
  rw [ingestWindow_of_synced addition_placed hdb] at hsecond
  have hfirst : (syncSingleContract backend backendConfig (.live backend backendConfig) 1
      (keyText root) 5 9 false false).Pauses ⟨tracked, []⟩
        (fetchedMarks backend.base58 1 (keyText root) addition ++ [none]) ⟨tracked, []⟩ ⟨db, []⟩
        (none :: none :: xs.map (fun _ ↦ none) ++
          [syncedMark backend.base58 (keyText root) addition]) ⟨db, []⟩ (.ok (some false)) :=
    pauses_sync_window hverified hproved addition_hashes hwindow
      (addition_placed.trans hplaced) rfl hdecode htype (hplaced ▸ hdb)
  obtain ⟨jobs', hrun⟩ := run_overlapping hsubscribed (j := .side 2) (by decide)
    (hfree (.side 1) nofun) (hfree (.side 2) nofun) .sync .sync (hfirst.bind .done)
    (hsecond.bind .done)
  refine ⟨ls, ⟨⟨db, []⟩, jobs'⟩, hdb, hrows.1, hrows.2.1, hrows.2.2, exactly_once_ingestion ?_⟩
  unfold overlapping
  rw [hplaced]
  simp only [List.append_nil] at hrun
  exact hrun

end Walkthrough

end MinaGuard
