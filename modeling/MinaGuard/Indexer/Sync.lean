import MinaGuard.Foundations.AtomicPrograms
import MinaGuard.Indexer.Apply

/-!
# The indexer's programs

`syncSingleContract`, what it is made of, and the loops that call it, as
programs of atomic database transactions.  Syncs of the tick, of backfills and
of subscriptions run at the same time; any transaction and any request can
fail, and the process can crash between two of them.  Reorg rollback, deletion
of contracts and the polling of submissions are other operations and left out,
and so are logging and the status record.
-/

namespace MinaGuard

open Foundations

inductive DiscoveryBackend where
  | daemon
  | archive
deriving DecidableEq

/-- `BackendConfig`, as far as the indexer reads it here. -/
structure BackendConfig where
  indexerMode : IndexerMode
  discoveryBackend : DiscoveryBackend
  indexStartHeight : ℕ
  minaguardVkHash : Option String

/-- The progress of an unready vault's first scan. -/
structure FirstScan where
  start : ℕ
  next : ℕ
deriving DecidableEq

/-- The database and the memory of the indexer process. -/
structure IndexerState where
  db : Database
  firstScans : InsertionMap ℕ FirstScan

/-- What a sync and a tick leave for others to see: the events a sync fetched,
its normal return, a committed application, a committed record of a failure, a
moved cursor. -/
inductive Mark where
  | fetched (contractId : ℕ) (address : String) (events : List ChainEvent)
  | synced (address : String) (events : List ChainEvent)
  | applied (fingerprint : String)
  | recorded (fingerprint : String)
  | advanced (fromHeight toHeight : ℕ)
deriving DecidableEq

abbrev IndexerProgram := Program IndexerState Thrown Mark

namespace IndexerProgram

/-- A request to the daemon or the archive. -/
def request (α : Type) : IndexerProgram α := .ask α .settle

/-- A read of the database. -/
def query {α : Type} (read : Database → α) : IndexerProgram α :=
  .transaction α none (fun s ↦ .ok (read s.db, s)) .settle

/-- A write to the database, in one transaction. -/
def transact {α : Type} (label : Option Mark) (body : Database → Except Thrown (α × Database)) :
    IndexerProgram α :=
  .transaction α label (fun s ↦ (body s.db).map fun r ↦ (r.1, { s with db := r.2 })) .settle

def execute (label : Option Mark) (body : Database → Except Thrown Database) :
    IndexerProgram Unit :=
  transact label fun db ↦ (body db).map fun db ↦ ((), db)

def mark (label : Mark) : IndexerProgram Unit := Program.mark label (.done ())

/-- A synchronous access to the first-scan map. -/
def scans {α : Type} (f : InsertionMap ℕ FirstScan → α × InsertionMap ℕ FirstScan) :
    IndexerProgram α :=
  .memory α (fun s ↦ let r := f s.firstScans; (r.1, { s with firstScans := r.2 })) .done

end IndexerProgram

open IndexerProgram

/-- `new Error(message)`. -/
def newError (message : String) : Thrown := ⟨.error, "Error", message⟩

/-- `EVENT_QUERY_BLOCK_SPAN`. -/
def eventQueryBlockSpan : ℕ := 5000

/-- The requests of `fetchArchiveEventBlocks`: start, and exclusive end. -/
def queryWindows (fromHeight toHeight : ℕ) : List (ℕ × ℕ) :=
  (List.range ((toHeight - fromHeight) / eventQueryBlockSpan + 1)).map fun i ↦
    let start := fromHeight + i * eventQueryBlockSpan
    (start, min (start + eventQueryBlockSpan) (toHeight + 1))

/-- One request, checked against its window. -/
def fetchWindow (window : ℕ × ℕ) : IndexerProgram (List ArchiveEventBlock) := do
  match ← request (Option (List ArchiveEventBlock)) with
  | none => throw (newError "archive response has no events list")
  | some events =>
      if events.any fun block ↦ block.height < window.1 ∨ window.2 ≤ block.height then
        throw (newError
          "archive response contains an event outside the requested block range")
      else pure events

/-- An archive that does not know `authorizationKind` is reported as such. -/
def rewordAuthorization (error : Thrown) : Thrown :=
  if (error.message.splitOn "authorizationKind").length = 1 then error
  else newError ("The archive endpoint does not report event authorization (" ++
    error.message ++ "). MinaGuard needs an Archive-Node-API that exposes " ++
    "transactionInfo.authorizationKind on events (v0.0.8 or later).")

def fetchArchiveEventBlocks (fromHeight toHeight : ℕ) :
    IndexerProgram (List ArchiveEventBlock) :=
  if toHeight < fromHeight ∨ 2147483647 ≤ toHeight then
    throw (newError "Invalid archive event block range")
  else
    tryCatch
      ((queryWindows fromHeight toHeight).foldlM
        (fun blocks window ↦ do
          let events ← fetchWindow window
          pure (blocks ++ events)) [])
      fun error ↦ throw (rewordAuthorization error)

section Programs

variable {E : Env} (lib : Backend E) (config : BackendConfig)

def fetchDecodedContractEvents (address : String) (fromHeight toHeight : ℕ) :
    IndexerProgram (List ChainEvent) := do
  let blocks ← fetchArchiveEventBlocks fromHeight toHeight
  match decodeContractEvents lib address blocks with
  | .error message => throw (newError message)
  | .ok events => pure events

/-- `fetchVaultSecurityStatus`, as far as it is read here. -/
structure VaultSecurityStatus where
  accountFound : Bool
  safe : Bool

structure DiscoveryCandidate where
  address : String
  deployBlock : ℕ

/-- Where candidates come from in full mode. -/
def discoverCandidates (indexedHeight : ℕ) : IndexerProgram (List DiscoveryCandidate) := do
  if config.discoveryBackend = .archive ∧ config.minaguardVkHash.isSome then
    let _lastDiscovered ← query fun db ↦ db.archiveDiscoveredHeight
    request (List DiscoveryCandidate)
  else
    match ← request (Option ℕ) with
    | none => throw (newError "Daemon bestChain has no height for contract discovery")
    | some daemonHeight =>
        let discoveryWindow := max 1 (min 290 (daemonHeight + 5 - indexedHeight))
        let scanFloor := max config.indexStartHeight (daemonHeight + 1 - discoveryWindow)
        let addrs ← request (List String)
        pure (addrs.map fun address ↦ ⟨address, scanFloor⟩)

/-- What the indexer learns from the daemon and the archive. -/
structure Requests where
  latestHeight : IndexerProgram ℕ
  security : String → IndexerProgram VaultSecurityStatus
  events : String → ℕ → ℕ → IndexerProgram (List ChainEvent)
  candidates : ℕ → IndexerProgram (List DiscoveryCandidate)

/-- Requests that may be answered in any way. -/
def Requests.live : Requests where
  latestHeight := request ℕ
  security := fun _ ↦ request VaultSecurityStatus
  events := fetchDecodedContractEvents lib
  candidates := discoverCandidates config

/-- Writes the event's block header and its EventRaw marker; the first writer
of a header wins, and fingerprints are unique. -/
def recordEvent (db : Database) (contractId : ℕ) (chainEvent : ChainEvent)
    (fingerprint : String) (applyError : Option String) : Except Thrown (ℕ × Database) :=
  let blockHeaders :=
    if chainEvent.blockHash = "" ∨
        (db.blockHeaders.any fun h ↦ h.height = chainEvent.blockHeight) = true then
      db.blockHeaders
    else db.blockHeaders ++
      [⟨chainEvent.blockHeight, chainEvent.blockHash, chainEvent.parentHash⟩]
  if db.isRecorded fingerprint then
    .error (prismaError "P2002" "Unique constraint failed on the fields: (fingerprint)")
  else
    let id := db.nextEventId
    .ok (id, { db with
      blockHeaders
      nextEventId := id + 1
      eventRaws := db.eventRaws ++
        [{ id, contractId := some contractId, blockHeight := chainEvent.blockHeight,
           txHash := chainEvent.txHash, eventType := chainEvent.type,
           payload := chainEvent.event.stringify, fingerprint, applyError }] })

inductive Outcome where
  | applied
  | quarantined
  | duplicate
deriving DecidableEq

/-- Records an event with `applyError` and no state changes. -/
def recordFailedEvent (contractId : ℕ) (chainEvent : ChainEvent) (fingerprint reason : String) :
    IndexerProgram Outcome :=
  tryCatch
    (do
      let _ ← transact (some (.recorded fingerprint)) fun db ↦
        recordEvent db contractId chainEvent fingerprint (some reason)
      pure .quarantined)
    fun recordError ↦ do
      if ← query fun db ↦ db.isRecorded fingerprint then pure .duplicate
      else throw recordError

/-- The transaction of `ingestEvent`: the record and the state changes. -/
def recordAndApply (db : Database) (contractId : ℕ) (chainEvent : ChainEvent)
    (eventOrder : ℕ) (fingerprint : String) (setupFallback : Option OnChainState) :
    Except Thrown Database := do
  let (eventRawId, db) ← recordEvent db contractId chainEvent fingerprint none
  applyEvent lib config.indexerMode db contractId chainEvent eventOrder eventRawId
    setupFallback

/-- The attempts that are left, and the error of the last one. -/
def ingestAttempts (contractId : ℕ) (chainEvent : ChainEvent) (eventOrder : ℕ)
    (fingerprint : String) (setupFallback : Option OnChainState) :
    ℕ → Thrown → IndexerProgram Outcome
  | 0, error => recordFailedEvent contractId chainEvent fingerprint error.reason
  | attempts + 1, _ =>
      tryCatch
        (do
          execute (some (.applied fingerprint)) fun db ↦
            recordAndApply lib config db contractId chainEvent eventOrder fingerprint
              setupFallback
          pure .applied)
        fun attemptError ↦ do
          if ← query fun db ↦ db.isRecorded fingerprint then pure .duplicate
          else if isTransientDbError attemptError then throw attemptError
          else
            ingestAttempts contractId chainEvent eventOrder fingerprint setupFallback attempts
              attemptError

def ingestEvent (contractId : ℕ) (chainEvent : ChainEvent) (eventOrder : ℕ)
    (fingerprint : String) (setupFallback : Option OnChainState) : IndexerProgram Outcome :=
  match chainEvent.decodeError with
  | some message =>
      recordFailedEvent contractId chainEvent fingerprint ("Malformed event: " ++ message)
  | none =>
      ingestAttempts lib config contractId chainEvent eventOrder fingerprint setupFallback 2
        (newError "undefined")

/-- The on-chain config for a setupOwner event that arrives with no config yet. -/
def fetchSetupFallback (contractId : ℕ) : IndexerProgram (Option OnChainState) := do
  if ← query fun db ↦
      ((db.getLatestConfig contractId).bind Db.ContractConfig.threshold).isSome then pure none
  else request (Option OnChainState)

section Syncing

variable (requests : Requests)

/-! ## Syncing one contract -/

/-- Whether the account may be indexed; its verdict is stored. -/
def verifyPermissions (contractId : ℕ) (address : String) : IndexerProgram Bool := do
  let verified ← query fun db ↦
    (db.findContract contractId).map Db.Contract.permissionsVerified
  if verified = some true then pure true
  else
    let security ← requests.security address
    if security.accountFound = false then pure false
    else if security.safe = false then
      execute none fun db ↦ db.updateContract contractId fun c ↦
        { c with ready := false, permissionsVerified := false }
      pure false
    else
      execute none fun db ↦ db.updateContract contractId fun c ↦
        { c with permissionsVerified := true }
      pure true

/-- One pass of the loop over fetched events; `ingested` says whether an event
was applied before. -/
def syncEvent (contractId : ℕ) (address : String) (ingested : Bool)
    (x : ChainEvent × ℕ) : IndexerProgram Bool := do
  let (chainEvent, seq) := x
  let fingerprint := fingerprintEvent address chainEvent
  if ← query fun db ↦ db.isRecorded fingerprint then pure ingested
  else
    let setupFallback ←
      if chainEvent.type = "setupOwner" then fetchSetupFallback contractId else pure none
    let outcome ← ingestEvent lib config contractId chainEvent seq fingerprint setupFallback
    pure (ingested || outcome = .applied)

/-- The last write of a sync: `lastSyncedAt`, and `ready` once an event landed. -/
def finishSync (contractId : ℕ) (ingested readyFromStoredEvents : Bool) :
    IndexerProgram Unit := do
  let stored ←
    if ingested = false ∧ readyFromStoredEvents = true then
      query fun db ↦ db.eventRaws.any fun r ↦ r.contractId = some contractId ∧ r.applyError = none
    else pure false
  execute none fun db ↦ db.updateContract contractId fun c ↦
    if ingested || stored then { c with synced := true, ready := true }
    else { c with synced := true }

/-- Fetches, stores and applies the events of one contract.  Returns whether an
event was applied, or nothing when the account is missing or refused. -/
def syncSingleContract (contractId : ℕ) (address : String) (fromHeight toHeight : ℕ)
    (finish readyFromStoredEvents : Bool) : IndexerProgram (Option Bool) := do
  if ← verifyPermissions requests contractId address then
    let rawEvents ← requests.events address fromHeight toHeight
    mark (.fetched contractId address rawEvents)
    let events := orderEventsForApply (reverseEventsWithinEachTx rawEvents)
    let ingested ← events.zipIdx.foldlM (syncEvent lib config contractId address) false
    if finish then finishSync contractId ingested readyFromStoredEvents
    mark (.synced address rawEvents)
    pure (some ingested)
  else pure none

def getIndexedHeight : IndexerProgram ℕ :=
  query fun db ↦ db.indexedHeight.getD config.indexStartHeight

def backfillContract (contractId : ℕ) (address : String) : IndexerProgram Unit := do
  let indexedHeight ← getIndexedHeight config
  let backfillFrom :=
    if config.indexerMode = .lite ∨ config.discoveryBackend = .archive then
      config.indexStartHeight
    else indexedHeight - 300
  if backfillFrom < indexedHeight then
    let _ ← syncSingleContract lib config requests contractId address backfillFrom indexedHeight
      true false

/-- One candidate; whatever fails is caught and counted. -/
def processCandidate (failureCount : ℕ) (candidate : DiscoveryCandidate) :
    IndexerProgram ℕ :=
  tryCatch
    (do
      if ← query fun db ↦ (db.findContractAt candidate.address).isSome then
        pure failureCount
      else
        let security ← requests.security candidate.address
        if security.safe = false then pure failureCount
        else
          let id ← transact none fun db ↦
            db.createContract candidate.address none true (some candidate.deployBlock)
          backfillContract lib config requests id candidate.address
          pure failureCount)
    fun _ ↦ pure (failureCount + 1)

def processCandidateAddresses (candidates : List DiscoveryCandidate) : IndexerProgram ℕ := do
  let failureCount ← candidates.foldlM (processCandidate lib config requests) 0
  let _ ← query fun db ↦ db.contracts.length
  pure failureCount

/-- `REORG_DETECTION_WINDOW`, also `EVENT_REPLAY_BLOCKS`. -/
def reorgDetectionWindow : ℕ := 290

def discoverContracts (indexedHeight latestHeight : ℕ) : IndexerProgram Unit := do
  let candidates ← requests.candidates indexedHeight
  let failureCount ← processCandidateAddresses lib config requests candidates
  if config.discoveryBackend = .archive ∧ failureCount = 0 then
    execute none fun db ↦ .ok { db with archiveDiscoveredHeight := some latestHeight }

/-- `FIRST_SCAN_STEPS_PER_TICK`. -/
def firstScanStepsPerTick : ℕ := 5

/-- The loop over the steps of one first scan; returns the steps left. -/
def firstScanSteps (contract : Db.Contract) (start latestHeight : ℕ) :
    ℕ → ℕ → IndexerProgram ℕ
  | 0, _ => pure 0
  | steps + 1, next => do
      let toHeight := min (next + eventQueryBlockSpan - 1) latestHeight
      let finish := decide (toHeight = latestHeight)
      match ← syncSingleContract lib config requests contract.id contract.address next toHeight
          finish true with
      | none => pure steps
      | some _ =>
          if finish then
            scans fun m ↦ ((), m.filter fun x ↦ x.1 ≠ contract.id)
            let _ ← query fun db ↦ (db.findContract contract.id).map Db.Contract.ready
            pure steps
          else
            scans fun m ↦ ((), m.set contract.id ⟨start, toHeight + 1⟩)
            firstScanSteps contract start latestHeight steps (toHeight + 1)

/-- One unready contract; the step budget is shared by all of them. -/
def rescanContract (fromHeight latestHeight steps : ℕ) (contract : Db.Contract) :
    IndexerProgram ℕ :=
  if contract.synced then
    let start := max (contract.discoveredAtBlock.getD 0) fromHeight
    if latestHeight < start then pure steps
    else do
      let _ ← syncSingleContract lib config requests contract.id contract.address start
        latestHeight true false
      pure steps
  else
    let start := contract.discoveredAtBlock.getD config.indexStartHeight
    if latestHeight < start then pure steps
    else do
      let scan ← scans fun m ↦
        match m.get? contract.id with
        | some scan => if scan.start = start then (scan, m)
            else (⟨start, start⟩, m.set contract.id ⟨start, start⟩)
        | none => (⟨start, start⟩, m.set contract.id ⟨start, start⟩)
      firstScanSteps lib config requests contract start latestHeight steps scan.next

def rescanUnreadyContracts (fromHeight latestHeight : ℕ) : IndexerProgram Unit := do
  let unready ← query fun db ↦ db.contracts.filter fun c ↦ !c.ready
  let pending := (unready.filter fun c ↦ !c.synced).map Db.Contract.id
  if config.indexerMode = .lite ∧ (unready.any fun c ↦ c.synced) = true then
    let _failedEvents ← query fun db ↦ db.eventRaws.filter fun r ↦ r.applyError ≠ none
  scans fun m ↦ ((), m.filter fun x ↦ x.1 ∈ pending)
  let _ ← unready.foldlM (rescanContract lib config requests fromHeight latestHeight)
    firstScanStepsPerTick

/-- Indexes the ready contracts; the first error stops the tick. -/
def syncKnownContracts (fromHeight toHeight : ℕ) : IndexerProgram Unit := do
  let contracts ← query fun db ↦ db.contracts.filter fun c ↦ c.ready
  contracts.forM fun contract ↦ do
    let _ ← syncSingleContract lib config requests contract.id contract.address fromHeight
      toHeight true false

/-- The guarded part of `tick`: discovery, ingestion, cursor advancement. -/
def indexingLoop : IndexerProgram Unit := do
  let latestHeight ← requests.latestHeight
  let indexedHeight ← getIndexedHeight config
  let fromHeight := max config.indexStartHeight (indexedHeight + 1 - reorgDetectionWindow)
  let toHeight := latestHeight
  if toHeight < indexedHeight ∨ toHeight < fromHeight then
    throw (newError ("Archive tip " ++ decimal toHeight ++ " is below indexed height " ++
      decimal indexedHeight ++ " or replay start " ++ decimal fromHeight ++
      "; indexing paused until the archive catches up or the reorg is investigated."))
  else
    if config.indexerMode = .full then
      discoverContracts lib config requests indexedHeight latestHeight
    rescanUnreadyContracts lib config requests fromHeight latestHeight
    if fromHeight ≤ toHeight then
      syncKnownContracts lib config requests fromHeight toHeight
      execute (some (.advanced indexedHeight toHeight)) fun db ↦
        .ok { db with indexedHeight := some toHeight }

/-- One tick without a reorg; what it throws ends up in the status. -/
def tick : IndexerProgram Unit :=
  tryCatch (indexingLoop lib config requests) fun _ ↦ pure ()

end Syncing

/-- The subscribe route inserts the contract row; its sync is a later one. -/
def subscribe (address : String) (permissionsVerified : Bool) (discoveredAtBlock : ℕ) :
    IndexerProgram Unit := do
  let _ ← transact none fun db ↦
    db.createContract address none permissionsVerified (some discoveredAtBlock)

/-- Where programs run: `tickInProgress` lets one tick run at a time, and any
number of backfills and other syncs run beside it. -/
inductive Slot where
  | tick
  | side (n : ℕ)
deriving DecidableEq

/-- What may start in a slot. -/
inductive Starts : Slot → IndexerProgram Unit → Prop where
  | tick : Starts .tick (tick lib config (.live lib config))
  | sync {n contractId fromHeight toHeight : ℕ} {address : String}
      {finish readyFromStoredEvents : Bool} :
      Starts (.side n) (do
        let _ ← syncSingleContract lib config (.live lib config) contractId address fromHeight
          toHeight finish readyFromStoredEvents)
  | backfill {n contractId : ℕ} {address : String} :
      Starts (.side n) (backfillContract lib config (.live lib config) contractId address)
  | subscribe {n discoveredAtBlock : ℕ} {address : String} {permissionsVerified : Bool} :
      Starts (.side n) (subscribe address permissionsVerified discoveredAtBlock)

/-- The indexer from an empty database; a crash empties its memory. -/
def indexerSystem :
    TransitionSystem (Server Slot IndexerState Thrown Mark) (Happening Slot Mark) :=
  serverSystem (fun s ↦ s = ⟨{}, []⟩) (Starts lib config) fun s ↦ { s with firstScans := [] }

end Programs

end MinaGuard
