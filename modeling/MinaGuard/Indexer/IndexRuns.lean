import MinaGuard.Indexer.IndexSteps
import MinaGuard.Indexer.OwnerSyncs

/-!
# Runs of the indexer, seen without ids

The database with its writers is a transition system.  In each of its runs the tables say
what the machine computes from the labels, and undisturbed syncs are paths of it.
-/

namespace MinaGuard

open Foundations

namespace Database

/-- Writes that say nothing about the chain: flags and cursors, and what the frontend notes
of its submissions. -/
inductive Notes (db : Database) : Database → Prop where
  | flags {rows : List Db.Contract} (hrows : rows.map originOf = db.contracts.map originOf)
      (indexed discovered : Option ℕ) :
      Notes db { db with
        contracts := rows
        indexedHeight := indexed
        archiveDiscoveredHeight := discovered }
  | submission {id : ℕ} {f : Db.Proposal → Db.Proposal}
      (hf : ∀ p, (f p).id = p.id ∧ (f p).key = p.key ∧ (f p).content = p.content) :
      Notes db (db.updateProposal id f)

end Database

section System

variable {E : Env} (lib : Backend E) (config : BackendConfig)

/-- What can happen to the database.  An event that is new comes after the snapshots of its
contract: in a higher block, or in the same block at a later place. -/
inductive IndexStep (db : Database) : IndexAction → Database → Prop where
  | track {address : String} {verified : Bool} {discoveredAtBlock : Option ℕ} {id : ℕ}
      {db' : Database}
      (hdb : db.createContract address none verified discoveredAtBlock = .ok (id, db')) :
      IndexStep db (.track address discoveredAtBlock) db'
  | untrack {c : Db.Contract} {db' : Database} (hc : c ∈ db.contracts)
      (hdb : db.deleteContract c.id = .ok db') : IndexStep db (.untrack c.address) db'
  | ingest {c : Db.Contract} {e : ChainEvent} {order : ℕ} (hc : c ∈ db.contracts)
      (hbefore : db.isRecorded (fingerprintEvent c.address e) = false →
        db.ConfigsBefore c.id e.blockHeight order) (setupFallback : Option OnChainState) :
      IndexStep db (.ingest c.address setupFallback e)
        (ingest lib config c.id c.address setupFallback db (e, order))
  | rollback (forkHeight : ℤ) :
      IndexStep db (.rollback forkHeight) (rollbackAboveFork config.indexerMode forkHeight db)
  | note {db' : Database} (hnotes : db.Notes db') : IndexStep db .note db'

/-- From an empty database. -/
def indexSystem : TransitionSystem Database IndexAction where
  init db := db = {}
  step := IndexStep lib config

end System

namespace Database

variable {E : Env} {lib : Backend E} {config : BackendConfig} {db db' : Database}
  {c : Db.Contract} {e : ChainEvent} {order : ℕ} {a : IndexAction}

theorem empty_indexed : Indexed {} where
  contractIds := List.nodup_nil
  addresses := List.nodup_nil
  contractsBelow := fun _ h ↦ absurd h List.not_mem_nil
  configsBelow := fun _ h ↦ absurd h List.not_mem_nil
  membershipsBelow := fun _ h ↦ absurd h List.not_mem_nil
  proposalIds := List.nodup_nil
  proposalKeys := List.nodup_nil
  proposalsBelow := fun _ h ↦ absurd h List.not_mem_nil
  proposalContracts := fun _ h ↦ absurd h List.not_mem_nil
  receiversBelow := fun _ h ↦ absurd h List.not_mem_nil
  receiverIdx := fun _ ↦ ⟨0, rfl⟩
  approvalKeys := List.nodup_nil
  approvalsBelow := fun _ h ↦ absurd h List.not_mem_nil
  executionKeys := List.nodup_nil
  executionsBelow := fun _ h ↦ absurd h List.not_mem_nil
  chronological := fun _ ↦ List.Pairwise.nil
  eventsBelow := fun _ h ↦ absurd h List.not_mem_nil

theorem index_ingest (h : db.Indexed) (hc : c ∈ db.contracts)
    (hbefore : db.isRecorded (fingerprintEvent c.address e) = false →
      db.ConfigsBefore c.id e.blockHeight order) (setupFallback : Option OnChainState) :
    (ingest lib config c.id c.address setupFallback db (e, order)).index =
        db.index.ingest lib config.indexerMode c.address setupFallback e ∧
      (ingest lib config c.id c.address setupFallback db (e, order)).Indexed := by
  unfold ingest Index.ingest
  dsimp only
  rw [isRecorded_index]
  cases hrecorded : db.isRecorded (fingerprintEvent c.address e) with
  | true => exact ⟨rfl, h⟩
  | false =>
      simp only [Bool.false_eq_true, if_false]
      cases e.decodeError with
      | none => exact index_applyOrFail h hc hrecorded (hbefore hrecorded) setupFallback
      | some message =>
          dsimp only
          unfold recordFailure
          cases hresult : recordEvent db c.id e (fingerprintEvent c.address e)
              (some ("Malformed event: " ++ message)) with
          | ok r =>
              obtain ⟨id, db₁⟩ := r
              obtain ⟨hindex, hindexed, -⟩ := index_recordEvent h hc hresult
              exact ⟨hindex, hindexed⟩
          | error error =>
              rw [recordEvent_error hresult] at hrecorded
              cases hrecorded

/-- What the frontend notes of its submissions is not seen. -/
theorem index_submission (h : db.Indexed) {id : ℕ} {f : Db.Proposal → Db.Proposal}
    (hf : ∀ p, (f p).id = p.id ∧ (f p).key = p.key ∧ (f p).content = p.content) :
    (db.updateProposal id f).index = db.index ∧ (db.updateProposal id f).Indexed := by
  have hkey (q : Db.Proposal) : (if q.id = id then f q else q).id = q.id ∧
      (if q.id = id then f q else q).key = q.key ∧
      (if q.id = id then f q else q).content = q.content := by
    split
    · exact hf q
    · exact ⟨rfl, rfl, rfl⟩
  have hkeyed := h.toWellKeyed.updateProposal id fun q ↦ ⟨(hf q).1, (hf q).2.1⟩
  refine ⟨?_, ⟨hkeyed, h.chronological⟩, h.eventsBelow⟩
  have hproposal (q : Db.Proposal) :
      (db.updateProposal id f).proposalView (if q.id = id then f q else q) = db.proposalView q := by
    obtain ⟨hid, -, hcontent⟩ := hkey q
    unfold proposalView
    rw [hid, hcontent]
    rfl
  have hproposals (contractId : ℕ) :
      (db.updateProposal id f).proposalAt contractId = db.proposalAt contractId := by
    funext proposalHash
    have hfind : (db.updateProposal id f).findProposal contractId proposalHash =
        (db.findProposal contractId proposalHash).map fun q ↦ if q.id = id then f q else q := by
      rw [findProposal_eq, findProposal_eq]
      exact rowAt_map fun q _ ↦ (hkey q).2.1
    unfold proposalAt
    rw [hfind, Option.map_map]
    congr 1
    exact funext hproposal
  have hviews : (db.updateProposal id f).vaultView = db.vaultView := by
    funext c
    unfold vaultView
    rw [hproposals]
    rfl
  have hvaults : (db.updateProposal id f).indexView = db.indexView := by
    unfold indexView
    rw [hviews]
    rfl
  unfold index
  rw [hvaults]
  rfl

/-- A step is one of the machine. -/
theorem index_step (h : db.Indexed) (hstep : IndexStep lib config db a db') :
    db'.Indexed ∧ db'.index = db.index.next lib config.indexerMode a := by
  cases hstep with
  | track hdb => exact (index_createContract h hdb).symm
  | untrack hc hdb => exact (index_deleteContract h hc hdb).symm
  | ingest hc hbefore setupFallback => exact (index_ingest h hc hbefore setupFallback).symm
  | rollback forkHeight =>
      exact (index_rollback h config.indexerMode forkHeight).symm
  | note hnotes =>
      cases hnotes with
      | flags hrows indexed discovered =>
          exact ⟨h.relabel hrows indexed discovered, index_relabel hrows indexed discovered⟩
      | submission hf => exact (index_submission h hf).symm

/-- What the tables say after a path is computed from its labels. -/
theorem index_path {as : List IndexAction} (h : db.Indexed)
    (hpath : (indexSystem lib config).Path db as db') :
    db'.Indexed ∧ db'.index = as.foldl (Index.next lib config.indexerMode) db.index :=
  TransitionSystem.Path.foldl Indexed index _ (fun _ _ _ ↦ index_step) hpath h

theorem index_run {as : List IndexAction} (hrun : (indexSystem lib config).Run as db) :
    db.Indexed ∧ db.index = as.foldl (Index.next lib config.indexerMode) .empty := by
  obtain ⟨_, rfl, hpath⟩ := hrun
  exact index_path empty_indexed hpath

/-! ## A batch of events -/

section Batch

variable {contractId : ℕ} {address : String} {setupFallback : Option OnChainState}

/-- What an ingested event leaves alone. -/
theorem ingest_effect (lib : Backend E) (config : BackendConfig) (contractId : ℕ)
    (address : String) (setupFallback : Option OnChainState) (db : Database) (e : ChainEvent)
    (order : ℕ) :
    db.Keeps (fun _ ↦ False) (ingest lib config contractId address setupFallback db (e, order)) ∧
      WritesConfigs contractId e.blockHeight order db
        (ingest lib config contractId address setupFallback db (e, order)) ∧
      ∀ f, db.isRecorded f = true →
        (ingest lib config contractId address setupFallback db (e, order)).isRecorded f = true := by
  have hrecorded {fingerprint : String} {applyError : Option String} {id : ℕ} {db₁ : Database}
      (h : recordEvent db contractId e fingerprint applyError = .ok (id, db₁)) :
      db.Keeps (fun _ ↦ False) db₁ ∧ WritesConfigs contractId e.blockHeight order db db₁ := by
    obtain ⟨-, huntouched, -⟩ := recordEvent_ok h
    exact ⟨recordEvent_keeps h, .of_eq huntouched.contractConfigs⟩
  cases hdecode : e.decodeError with
  | none =>
      have hlogs := ingest_logs lib config contractId address setupFallback db order hdecode
      rcases ingest_cases lib config contractId address setupFallback db order hdecode with
        ⟨-, hsame⟩ | ⟨-, id, db₁, hrecord, h⟩
      · rw [hsame]
        exact ⟨.refl _, .of_eq rfl, fun _ hf ↦ hf⟩
      · obtain ⟨hkeeps, hconfigs⟩ := hrecorded hrecord
        obtain ⟨-, huntouched, -⟩ := recordEvent_ok hrecord
        rcases h with ⟨db₂, happly, hdb₂⟩ | ⟨error, reason, id', -, hfailed⟩
        · rw [hdb₂] at hlogs ⊢
          refine ⟨hkeeps.trans (applyEvent_keeps happly), ?_, hlogs.2.1⟩
          unfold WritesConfigs
          rw [← huntouched.contractConfigs]
          exact applyEvent_writesConfigs happly
        · obtain ⟨hkeeps, hconfigs⟩ := hrecorded hfailed
          exact ⟨hkeeps, hconfigs, hlogs.2.1⟩
  | some message =>
      have hsame : db.Keeps (fun _ ↦ False) db ∧
          WritesConfigs contractId e.blockHeight order db db ∧
          ∀ f, db.isRecorded f = true → db.isRecorded f = true :=
        ⟨.refl _, .of_eq rfl, fun _ hf ↦ hf⟩
      unfold ingest
      dsimp only
      split
      · exact hsame
      · rw [hdecode]
        dsimp only
        unfold recordFailure
        split
        next r hresult =>
          obtain ⟨id, db₁⟩ := r
          obtain ⟨hkeeps, hconfigs⟩ := hrecorded hresult
          obtain ⟨-, -, -, ⟨row, hrows, -⟩, -⟩ := recordEvent_ok hresult
          exact ⟨hkeeps, hconfigs, fun f hf ↦ isRecorded_of_append hrows hf⟩
        next => exact hsame

/-- What is known of a batch after some of its events. -/
structure Batched (lib : Backend E) (config : BackendConfig) (c : Db.Contract) (db : Database)
    (front : List (ChainEvent × ℕ)) (db₁ : Database) : Prop where
  path : ∃ actions, List.Forall₂ (fun x a ↦ ∃ setupFallback,
    a = IndexAction.ingest c.address setupFallback x.1) front actions ∧
      (indexSystem lib config).Path db actions db₁
  contract : ∃ c₁ ∈ db₁.contracts, c₁.id = c.id ∧ c₁.address = c.address
  configs : ∀ row ∈ db₁.contractConfigs, row ∈ db.contractConfigs ∨
    ∃ x ∈ front, row.validFromBlock = x.1.blockHeight ∧ row.eventOrder = x.2
  recorded : ∀ f, db.isRecorded f = true → db₁.isRecorded f = true

theorem Batched.snoc {front : List (ChainEvent × ℕ)} {db₁ : Database}
    (h : Batched lib config c db front db₁)
    (hbefore : db.isRecorded (fingerprintEvent c.address e) = false →
      db.ConfigsBefore c.id e.blockHeight order)
    (hfront : ∀ x ∈ front, Precedes x.1.blockHeight x.2 e.blockHeight order)
    (setupFallback : Option OnChainState) :
    Batched lib config c db (front ++ [(e, order)])
      (ingest lib config c.id c.address setupFallback db₁ (e, order)) := by
  obtain ⟨actions, hactions, hpath⟩ := h.path
  obtain ⟨c₁, hc₁, hid, haddress⟩ := h.contract
  obtain ⟨hkeeps, hconfigs, hrecorded⟩ := ingest_effect lib config c.id c.address
    setupFallback db₁ e order
  have hplace : db₁.isRecorded (fingerprintEvent c₁.address e) = false →
      db₁.ConfigsBefore c₁.id e.blockHeight order := by
    intro hfree row hrow hcontract
    rcases h.configs row hrow with hrow | ⟨x, hx, hheight, horder⟩
    · refine hbefore ?_ row hrow (hcontract.trans hid)
      refine Bool.eq_false_iff.mpr fun hrec ↦ ?_
      rw [haddress, h.recorded _ hrec] at hfree
      cases hfree
    · rw [hheight, horder]
      exact hfront x hx
  have hstep : (indexSystem lib config).step db₁ (.ingest c₁.address setupFallback e)
      (ingest lib config c₁.id c₁.address setupFallback db₁ (e, order)) :=
    .ingest hc₁ hplace setupFallback
  rw [hid, haddress] at hstep
  refine
    { path := ⟨actions ++ [.ingest c.address setupFallback e],
        List.rel_append hactions (.cons ⟨setupFallback, rfl⟩ .nil),
        hpath.trans (TransitionSystem.path_singleton.mpr hstep)⟩
      contract := ?_
      configs := ?_
      recorded := fun f hf ↦ hrecorded f (h.recorded f hf) }
  · obtain ⟨f, new, hrows, hevolves, -⟩ := hkeeps
    refine ⟨f c₁, ?_, (hevolves c₁ hc₁).id.trans hid, (hevolves c₁ hc₁).address.trans haddress⟩
    rw [hrows]
    exact List.mem_append_left _ (List.mem_map_of_mem hc₁)
  · intro row hrow
    rcases hconfigs row hrow with hrow | ⟨-, hheight, horder⟩
    · rcases h.configs row hrow with hrow | ⟨x, hx, hrest⟩
      · exact .inl hrow
      · exact .inr ⟨x, List.mem_append_left _ hx, hrest⟩
    · exact .inr ⟨(e, order), List.mem_append_right _ (List.mem_singleton_self _), hheight, horder⟩

/-- The places in the front of a batch. -/
theorem lt_of_mem_prefix_zipIdx {A : Type} {l : List A} {front : List (A × ℕ)} {x : A × ℕ}
    (h : front <+: l.zipIdx) (hx : x ∈ front) : x.2 < front.length := by
  obtain ⟨n, hn, rfl⟩ := List.mem_iff_getElem.mp hx
  have hget : l.zipIdx[n]? = some front[n] := by
    rw [h.getElem hn, List.getElem?_eq_getElem]
  rw [List.getElem?_zipIdx, Option.map_eq_some_iff] at hget
  obtain ⟨y, -, hy⟩ := hget
  have hplace := congrArg Prod.snd hy
  dsimp only at hplace
  omega

/-- A sorted batch whose new events come after the snapshots of the contract is a path. -/
theorem path_ingests {events : List ChainEvent} (hc : c ∈ db.contracts)
    (hsorted : events.Pairwise fun a b ↦ a.blockHeight ≤ b.blockHeight)
    (hlater : ∀ e ∈ events, db.isRecorded (fingerprintEvent c.address e) = false →
      ∀ row ∈ db.contractConfigs, row.contractId = c.id → row.validFromBlock < e.blockHeight)
    (h : Ingests lib config c.id c.address events.zipIdx db db') :
    ∃ actions, List.Forall₂ (fun e a ↦ ∃ setupFallback,
        a = IndexAction.ingest c.address setupFallback e) events actions ∧
      (indexSystem lib config).Path db actions db' := by
  have hbatched : Batched lib config c db events.zipIdx db' := by
    refine h.keeps (P := fun front db₁ ↦ Batched lib config c db front db₁) ?_ ?_
    · exact
        { path := ⟨[], .nil, rfl⟩
          contract := ⟨c, hc, rfl, rfl⟩
          configs := fun row hrow ↦ .inl hrow
          recorded := fun _ hf ↦ hf }
    · rintro front ⟨e, order⟩ db₁ setupFallback hbatch ih
      obtain ⟨rfl, hevents⟩ := concat_prefix_zipIdx hbatch
      refine ih.snoc (fun hfree row hrow hcontract ↦ .inl ?_) (fun x hx ↦ ?_) setupFallback
      · exact hlater e (hevents.subset (List.mem_append_right _ (List.mem_singleton_self e))) hfree
          row hrow hcontract
      · have hheight := (List.pairwise_append.mp (hsorted.sublist hevents.sublist)).2.2 _
          (List.mem_map_of_mem hx) e (List.mem_singleton_self e)
        have horder := lt_of_mem_prefix_zipIdx ((List.prefix_append _ _).trans hbatch) hx
        exact hheight.lt_or_eq.imp_right fun heq ↦ ⟨heq, horder⟩
  obtain ⟨actions, hactions, hpath⟩ := hbatched.path
  refine ⟨actions, ?_, hpath⟩
  rw [← List.zipIdx_map_fst 0 events]
  exact List.forall₂_map_left_iff.mpr hactions

/-- Writes to the flags of contract rows only. -/
theorem Notes.of_reflagged {T : ℕ → Prop} (hflags : db.Reflagged db') (hkeeps : db.Keeps T db') :
    db.Notes db' := by
  obtain ⟨f, new, hrows, hevolves, -⟩ := hkeeps
  have hlinks := hflags.links
  have hlength := congrArg List.length hlinks
  rw [hrows, List.length_map, List.length_map, List.length_append, List.length_map] at hlength
  obtain rfl := List.length_eq_zero_iff.mp (show new.length = 0 by omega)
  rw [List.append_nil] at hrows
  rw [hrows, List.map_map] at hlinks
  have horigins : db'.contracts.map originOf = db.contracts.map originOf := by
    rw [hrows, List.map_map]
    refine List.map_congr_left fun c hc ↦ ?_
    have hlink := List.map_inj_left.mp hlinks c hc
    have hid := congrArg Prod.fst hlink
    have haddress := congrArg (fun x ↦ x.2.1) hlink
    have hparent := congrArg (fun x ↦ x.2.2) hlink
    exact Prod.ext hid (Prod.ext haddress (Prod.ext hparent (hevolves c hc).discoveredAtBlock))
  rw [hflags.tables]
  exact .flags horigins _ _

/-- An undisturbed sync that returned is a path: it ingests what it fetched, in the order of
application. -/
theorem path_syncSingleContract {s s' : IndexerState} {ls : List (Option Mark)}
    {fromHeight toHeight : ℕ} {finish readyFromStoredEvents ingested : Bool}
    (hc : c ∈ s.db.contracts)
    (hlater : ∀ events, some (.fetched c.id c.address events) ∈ ls → ∀ e ∈ events,
      s.db.isRecorded (fingerprintEvent c.address e) = false →
        ∀ row ∈ s.db.contractConfigs, row.contractId = c.id → row.validFromBlock < e.blockHeight)
    (h : (syncSingleContract lib config (.live lib config) c.id c.address fromHeight toHeight
      finish readyFromStoredEvents).Alone s ls s' (.ok (some ingested))) :
    ∃ events actions, some (.fetched c.id c.address events) ∈ ls ∧
      List.Forall₂ (fun e a ↦ ∃ setupFallback,
        a = IndexAction.ingest c.address setupFallback e)
        (orderEventsForApply (reverseEventsWithinEachTx events)) actions ∧
      (indexSystem lib config).Path s.db (.note :: actions ++ [.note]) s'.db := by
  obtain ⟨events, s₁, s₂, front, back, hfetched, hverify, hingests, hfinish⟩ :=
    alone_syncSingleContract_parts h
  obtain ⟨-, hflags⟩ := alone_verifyPermissions hverify
  have hwrites := (verifyPermissions_writes live_quiet).alone hverify
  have hfirst : s.db.Notes s₁.db := .of_reflagged hflags hwrites.1
  have hlast : s₂.db.Notes s'.db := by
    rcases hfinish with rfl | hfinish
    · exact .flags rfl _ _
    · exact .of_reflagged (alone_finishSync hfinish).2 (finishSync_writes.alone hfinish).1
  obtain ⟨c₁, hc₁, hid, haddress⟩ : ∃ c₁ ∈ s₁.db.contracts, c₁.id = c.id ∧
      c₁.address = c.address := by
    obtain ⟨f, new, hrows, hevolves, -⟩ := hwrites.1
    refine ⟨f c, ?_, (hevolves c hc).id, (hevolves c hc).address⟩
    rw [hrows]
    exact List.mem_append_left _ (List.mem_map_of_mem hc)
  have hsorted : (orderEventsForApply (reverseEventsWithinEachTx events)).Pairwise
      fun a b ↦ a.blockHeight ≤ b.blockHeight := by
    refine (pairwise_orderEventsForApply _).imp fun {a b} hle ↦ ?_
    have ha := typeRank_lt a.type
    have hb := typeRank_lt b.type
    unfold applyKey at hle
    omega
  have hsame : ∀ e ∈ orderEventsForApply (reverseEventsWithinEachTx events),
      s₁.db.isRecorded (fingerprintEvent c₁.address e) = false →
      ∀ row ∈ s₁.db.contractConfigs, row.contractId = c₁.id →
        row.validFromBlock < e.blockHeight := by
    intro e he
    rw [hflags.tables, hid, haddress]
    exact hlater events hfetched e
      (mem_reverseEventsWithinEachTx.mp (mem_orderEventsForApply.mp he))
  rw [← hid, ← haddress] at hingests
  obtain ⟨actions, hactions, hpath⟩ := path_ingests hc₁ hsorted hsame hingests
  rw [haddress] at hactions
  exact ⟨events, actions, hfetched, hactions, s₁.db, .note hfirst,
    hpath.trans (TransitionSystem.path_singleton.mpr (.note hlast))⟩

end Batch

end Database

end MinaGuard
