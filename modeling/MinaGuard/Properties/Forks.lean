import MinaGuard.Indexer.ForkedIndex
import MinaGuard.Instance.Archive

/-!
# The tables and the forks of the chain

What the tables say, ids aside, is computed from what happened: the vaults that were tracked
and forgotten, the events that were ingested and the forks.  After any number of forks it is
what an indexer says that only ever saw the last chain.
-/

namespace MinaGuard

open Foundations

variable {E : Env} {lib : Backend E} {config : BackendConfig} {as : List IndexAction}

/-- Detection is a rollback to the fork, if it finds one. -/
theorem path_detectAndRollbackReorg (lib : Backend E) (config : BackendConfig)
    (response : Except String (List DaemonBlock)) (db : Database) : (indexSystem lib config).Path db
      ((detectAndRollbackReorg config.indexerMode response db).forkHeight.toList.map .rollback)
      (detectAndRollbackReorg config.indexerMode response db).db := by
  unfold detectAndRollbackReorg
  split
  · rfl
  dsimp only
  split
  · split
    · exact TransitionSystem.path_singleton.mpr (.rollback _)
    · exact TransitionSystem.path_singleton.mpr (.rollback _)
  · rfl

/-- However a database came about, detection takes the blocks above a fork out of its index,
and an undisturbed sync adds what the fetched events mean, in the order of application. -/
theorem synced_index {db : Database} {response : Except String (List DaemonBlock)}
    {s s' : IndexerState} {c : Db.Contract} {ls : List (Option Mark)} {fromHeight toHeight : ℕ}
    {finish readyFromStoredEvents ingested : Bool}
    (hrun : (indexSystem lib config).Run as db)
    (hdetected : s.db = (detectAndRollbackReorg config.indexerMode response db).db)
    (hc : c ∈ s.db.contracts)
    (hlater : ∀ events, some (.fetched c.id c.address events) ∈ ls → ∀ e ∈ events,
      s.db.isRecorded (fingerprintEvent c.address e) = false →
        ∀ row ∈ s.db.contractConfigs, row.contractId = c.id → row.validFromBlock < e.blockHeight)
    (h : (syncSingleContract lib config (.live lib config) c.id c.address fromHeight toHeight
      finish readyFromStoredEvents).Alone s ls s' (.ok (some ingested))) :
    ∃ events actions, some (.fetched c.id c.address events) ∈ ls ∧
      List.Forall₂ (fun e a ↦ ∃ setupFallback,
        a = IndexAction.ingest c.address setupFallback e)
        (orderEventsForApply (reverseEventsWithinEachTx events)) actions ∧
      s'.db.index =
        (as ++ (detectAndRollbackReorg config.indexerMode response db).forkHeight.toList.map
          IndexAction.rollback ++ actions).foldl (Index.next lib config.indexerMode) .empty := by
  have hforked := path_detectAndRollbackReorg lib config response db
  rw [← hdetected] at hforked
  obtain ⟨events, actions, hfetched, hactions, hpath⟩ :=
    Database.path_syncSingleContract hc hlater h
  refine ⟨events, actions, hfetched, hactions, ?_⟩
  rw [(Database.index_run ((hrun.extend hforked).extend hpath)).2]
  simp only [List.foldl_append, List.foldl_cons, List.foldl_nil]
  rfl

namespace Walkthrough

theorem run_tracked : (indexSystem backend backendConfig).Run
    [.track (keyText root) (some 2)] tracked := by
  have hcreate : Database.createContract {} (keyText root) none true (some 2) =
      .ok (1, tracked) := rfl
  exact ⟨{}, rfl, TransitionSystem.path_singleton.mpr (.track hcreate)⟩

def ingested (x : ChainEvent × ℕ) : IndexAction := .ingest (keyText root) none x.1

def ingestAll (db : Database) (xs : List (ChainEvent × ℕ)) : Database :=
  xs.foldl (ingest backend backendConfig 1 (keyText root) none) db

/-- The events can be ingested one after the other. -/
def follows : Database → List (ChainEvent × ℕ) → Bool
  | _, [] => true
  | db, x :: xs =>
      (db.contracts.any fun c ↦ c.id = 1 ∧ c.address = keyText root) &&
        (db.contractConfigs.all fun row ↦
          row.validFromBlock < x.1.blockHeight ∨
            row.validFromBlock = x.1.blockHeight ∧ row.eventOrder < x.2) &&
        follows (ingest backend backendConfig 1 (keyText root) none db x) xs

theorem path_ingestAll {db : Database} {xs : List (ChainEvent × ℕ)} (h : follows db xs = true) :
    (indexSystem backend backendConfig).Path db (xs.map ingested) (ingestAll db xs) := by
  induction xs generalizing db with
  | nil => rfl
  | cons x xs ih =>
      unfold follows at h
      simp only [Bool.and_eq_true, List.any_eq_true, decide_eq_true_eq, List.all_eq_true] at h
      obtain ⟨⟨⟨c, hc, hid, haddress⟩, hbefore⟩, hrest⟩ := h
      have hstep : (indexSystem backend backendConfig).step db
          (.ingest c.address none x.1)
          (ingest backend backendConfig c.id c.address none db (x.1, x.2)) :=
        .ingest hc (fun _ row hrow _ ↦ hbefore row hrow) none
      rw [hid, haddress] at hstep
      exact ⟨_, hstep, ih hrest⟩

/-- The blocks that add an owner are indexed. -/
def indexedAddition : Database := ingestAll tracked (placed addition)

/-- The daemon's best chain leaves that of the index behind height 7. -/
def otherBranch : List DaemonBlock :=
  [⟨some "3NK7", some "3NK6", some 7⟩, ⟨some "3NK8", some "3NK7", some 8⟩,
    ⟨some "3NL9", some "3NK8", some 9⟩, ⟨some "3NL10", some "3NL9", some 10⟩]

/-- It includes the execution one block later. -/
def executedLater : List ArchivedBlock :=
  (archivedBlocks history root [9]).map fun b ↦
    { b with height := 10, stateHash := "3NL10", parentHash := "3NL9" }

theorem executedLater_proved : ∀ b ∈ executedLater, ∀ t ∈ b.transactions, t.Proved := by
  intro b hb t ht
  obtain ⟨b₀, hb₀, rfl⟩ := List.mem_map.mp hb
  exact archivedBlocks_proved _ _ _ b₀ hb₀ t ht

theorem executedLater_hashes : DistinctHashes executedLater :=
  ⟨by decide +kernel, by decide +kernel⟩

theorem executedLater_placed : (orderEventsForApply (executedLater.flatMap fun b ↦
    b.chainEvents backend.base58)).zipIdx = placed executedLater :=
  placed_eq (by decide +kernel) (by decide +kernel)

/-- Detection finds the fork at height 7. -/
theorem detected {db : Database}
    (hheaders : db.blockHeaders = [⟨7, "3NK7", "3NK6"⟩, ⟨9, "3NK9", "3NK8"⟩]) :
    detectAndRollbackReorg backendConfig.indexerMode (.ok otherBranch) db =
      { forkHeight := some 7, db := rollbackAboveFork .full 7 db } := by
  have hchain : fetchBestChainHeaders otherBranch = [⟨7, "3NK7", "3NK6"⟩, ⟨8, "3NK8", "3NK7"⟩,
      ⟨9, "3NL9", "3NK8"⟩, ⟨10, "3NL10", "3NL9"⟩] := by
    unfold fetchBestChainHeaders
    refine (List.mergeSort_of_pairwise ?_).trans (by decide)
    decide
  have hstored : storedInRange db (fetchBestChainHeaders otherBranch) =
      [⟨9, "3NK9", "3NK8"⟩, ⟨7, "3NK7", "3NK6"⟩] := by
    rw [hchain]
    change (List.mergeSort (db.blockHeaders.filter _) _).reverse = _
    rw [hheaders, List.mergeSort_of_pairwise (by decide)]
    decide
  have hsearch : searchFork (chainByHeight (fetchBestChainHeaders otherBranch)) {}
      (storedInRange db (fetchBestChainHeaders otherBranch)) =
      ⟨some 7, some ⟨9, "3NK9", "3NL9"⟩, some 9⟩ := by
    rw [hstored, hchain]
    decide
  unfold detectAndRollbackReorg
  simp only [Except.map]
  rw [hsearch]
  rfl

/-- The tables behind the fork, and what the sync finds there. -/
theorem executedLater_checked : follows tracked (placed addition) = true ∧
    indexedAddition.blockHeaders = [⟨7, "3NK7", "3NK6"⟩, ⟨9, "3NK9", "3NK8"⟩] ∧
    (rollbackAboveFork .full 7 indexedAddition).contracts = tracked.contracts ∧
    (∀ row ∈ (rollbackAboveFork .full 7 indexedAddition).contractConfigs,
      row.validFromBlock < 10) ∧
    (synced 1 root executedLater (rollbackAboveFork .full 7 indexedAddition)).any (fun db ↦
      db.proposalExecutions.length = 1 ∧ db.ownerMemberships.length = 1) = true := by
  decide +kernel

/-- An execution and its owner change are taken back, and indexed from the other branch. -/
theorem executed_later : ∃ db actions,
    synced 1 root executedLater (rollbackAboveFork .full 7 indexedAddition) = some db ∧
    db.proposalExecutions.length = 1 ∧ db.ownerMemberships.length = 1 ∧
    List.Forall₂ (fun e a ↦ ∃ setupFallback,
      a = IndexAction.ingest (keyText root) setupFallback e)
      ((placed executedLater).map Prod.fst) actions ∧
    db.index = (.track (keyText root) (some 2) :: (placed addition).map ingested ++
      .rollback 7 :: actions).foldl (Index.next backend backendConfig.indexerMode) .empty := by
  obtain ⟨hfollows, hheaders, hcontracts, hbelow, hsynced⟩ := executedLater_checked
  obtain ⟨db, hdb, hrows⟩ := (Option.any_eq_true _ _).mp hsynced
  obtain ⟨hexecutions, hmemberships⟩ := of_decide_eq_true hrows
  have hdetected := detected hheaders
  have hrun : (indexSystem backend backendConfig).Run
      (.track (keyText root) (some 2) :: (placed addition).map ingested) indexedAddition :=
    run_tracked.extend (path_ingestAll hfollows)
  have hc : (⟨1, keyText root, none, false, true, some 2, false⟩ : Db.Contract) ∈
      (rollbackAboveFork .full 7 indexedAddition).contracts := by
    rw [hcontracts]
    exact List.mem_cons_self
  have hverified : ((rollbackAboveFork .full 7 indexedAddition).findContract 1).map
      Db.Contract.permissionsVerified = some true := by
    unfold Database.findContract
    rw [hcontracts]
    rfl
  have hwindow : OneRequest executedLater 8 10 :=
    ⟨by decide, by decide, by decide, by decide +kernel⟩
  obtain ⟨ls, _, hquiet, hsync⟩ :=
    alone_sync_window backend backendConfig (keyText root) hverified executedLater_proved
      executedLater_hashes hwindow
  rw [ingestWindow_of_synced executedLater_placed hdb] at hsync
  have hheights : ∀ e ∈ executedLater.flatMap fun b ↦ b.returned backend.base58,
      e.blockHeight = 10 := by decide +kernel
  have hdb₀ := (congrArg ReorgResult.db hdetected).symm
  generalize indexedAddition = db₀ at *
  obtain ⟨events, actions, hfetched, hactions, hindex⟩ := synced_index
    (s := ⟨rollbackAboveFork .full 7 db₀, []⟩) hrun hdb₀ hc
    (fun events hevents e he _ row hrow _ ↦ by
      rw [hheights e (fetched_of_mem hquiet hevents ▸ he)]
      exact hbelow row hrow) hsync
  obtain rfl := fetched_of_mem hquiet hfetched
  rw [reverseEventsWithinEachTx_returned backend.base58 executedLater_hashes,
    ← List.zipIdx_map_fst 0 (orderEventsForApply _), executedLater_placed] at hactions
  refine ⟨db, actions, hdb, hexecutions, hmemberships, hactions, hindex.trans ?_⟩
  rw [hdetected, List.append_assoc]
  rfl

end Walkthrough

/-- However often the chain forked, the index is in its core what an indexer has that saw
nothing of what the forks took back. -/
theorem forked_index {config₀ : BackendConfig} {db db₀ : Database}
    (hmode : config.indexerMode = .full) (hmode₀ : config₀.indexerMode = .full)
    (hrun : (indexSystem lib config).Run as db)
    (hrun₀ : (indexSystem lib config₀).Run ((forkedIndex lib).remaining as) db₀)
    (hchains : ∀ front, front <+: as →
      (forkedIndex lib).Genuine ((forkedIndex lib).remaining front)) :
    db.index.core = db₀.index.core := by
  rw [Database.index_forked hmode hrun hchains, (Database.index_run hrun₀).2, hmode₀]
  rfl

namespace Walkthrough

/-- The events of the root guard at some heights, without those of slots. -/
def ownEvents (heights : List ℕ) : List (ChainEvent × ℕ) :=
  ((windowEvents (archivedBlocks history root heights)).filter fun e ↦
    e.type ≠ "setupOwner" ∧ e.type ≠ "receiver").zipIdx

/-- On the other fork the block is one later. -/
def otherFork (x : ChainEvent × ℕ) : ChainEvent × ℕ :=
  ({ x.1 with blockHeight := x.1.blockHeight + 1, blockHash := "3NL" ++ x.1.blockHash }, x.2)

/-- The execution of a proposal is taken back and made on the other fork. -/
def forked : List IndexAction :=
  .track (keyText root) (some 2) :: (ownEvents [3, 7] ++ ownEvents [9]).map ingested ++
    .rollback 7 :: ((ownEvents [9]).map otherFork).map ingested

/-- The indexer sees the other fork only. -/
def unforked : List IndexAction :=
  .track (keyText root) (some 2) ::
    (ownEvents [3, 7] ++ (ownEvents [9]).map otherFork).map ingested

/-- The history of one chain, checked action by action. -/
def isGenuine (as : List IndexAction) : Bool :=
  (List.range as.length).all fun n ↦
    as[n]?.all ((forkedIndex backend).run (as.take n)).admits

theorem genuine_of_isGenuine {as : List IndexAction} (h : isGenuine as = true) :
    (forkedIndex backend).Genuine as := by
  rintro front a ⟨back, rfl⟩
  have hlast := List.all_eq_true.mp h front.length (by simp)
  rw [List.append_assoc, List.singleton_append, List.getElem?_append_right le_rfl, Nat.sub_self,
    List.take_left] at hlast
  exact hlast

/-- The tables after the rollback to height 7. -/
def rolledBack : Database :=
  rollbackAboveFork .full 7 (ingestAll tracked (ownEvents [3, 7] ++ ownEvents [9]))

theorem forked_checked :
    (forked.inits.all fun front ↦ isGenuine ((forkedIndex backend).remaining front)) = true ∧
      (forkedIndex backend).remaining forked = unforked ∧
      follows tracked (ownEvents [3, 7] ++ ownEvents [9]) = true ∧
      follows rolledBack ((ownEvents [9]).map otherFork) = true ∧
      follows tracked (ownEvents [3, 7] ++ (ownEvents [9]).map otherFork) = true := by
  decide +kernel

theorem forked_genuine : ∀ front, front <+: forked →
    (forkedIndex backend).Genuine ((forkedIndex backend).remaining front) := fun front hfront ↦
  genuine_of_isGenuine
    (List.all_eq_true.mp forked_checked.1 front ((List.mem_inits _ _).mpr hfront))

theorem run_forked : (indexSystem backend backendConfig).Run forked
    (ingestAll rolledBack ((ownEvents [9]).map otherFork)) := by
  obtain ⟨-, -, hxs, hys, -⟩ := forked_checked
  unfold forked
  unfold rolledBack at *
  generalize ownEvents [3, 7] ++ ownEvents [9] = xs at *
  generalize (ownEvents [9]).map otherFork = ys at *
  exact run_tracked.extend ((path_ingestAll hxs).trans ⟨_, .rollback 7, path_ingestAll hys⟩)

theorem run_unforked : (indexSystem backend backendConfig).Run unforked
    (ingestAll tracked (ownEvents [3, 7] ++ (ownEvents [9]).map otherFork)) := by
  obtain ⟨-, -, -, -, hxs⟩ := forked_checked
  unfold unforked
  generalize ownEvents [3, 7] ++ (ownEvents [9]).map otherFork = xs at *
  exact run_tracked.extend (path_ingestAll hxs)

/-- The owner change of the root guard is taken back, and indexed from the other fork. -/
theorem other_fork_indexed :
    (ingestAll rolledBack ((ownEvents [9]).map otherFork)).index.core =
      (ingestAll tracked (ownEvents [3, 7] ++ (ownEvents [9]).map otherFork)).index.core :=
  forked_index rfl rfl run_forked (forked_checked.2.1 ▸ run_unforked) forked_genuine

end Walkthrough

end MinaGuard
