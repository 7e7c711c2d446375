import MinaGuard.Foundations.TransitionSystem
import MinaGuard.Indexer.Apply

/-!
# Reported approvals

One proposal row under the statements of three kinds of clients: calls of the
submissions route that report an approval, transactions of the indexer that
record and apply an approval event, and the poll of pending submissions.
Statements see what is committed.  A transaction keeps its own writes back until
it commits, and locks the row from its write on.
-/

namespace MinaGuard

/-- The columns of a proposal row that track the approval reported last. -/
structure ApproveTracking where
  lastApproveTxHash : Option String
  lastApproveError : Option String
deriving DecidableEq

/-- Nothing is reported. -/
def ApproveTracking.cleared : ApproveTracking := ⟨none, none⟩

/-- Whether `applyApprovalEvent` clears the row that it has read. -/
def ApproveTracking.clearedBy (row : ApproveTracking) (chainEvent : ChainEvent) : Bool :=
  chainEvent.txHash ≠ none ∧ row.lastApproveTxHash = chainEvent.txHash ∨
    row.lastApproveError ≠ none

def Db.Proposal.approveTracking (p : Db.Proposal) : ApproveTracking :=
  ⟨p.lastApproveTxHash, p.lastApproveError⟩

/-- A committed `EventRaw` row of the guard. -/
structure ApprovalRow where
  chainEvent : ChainEvent
  fingerprint : String
  applyError : Option String
deriving DecidableEq

/-- An approval of the proposal, complete enough to be applied. -/
def ChainEvent.approves (chainEvent : ChainEvent) (proposalHash : String) : Bool :=
  chainEvent.type = "approval" ∧
    truthy (asString (chainEvent.event.get "proposalHash")) = some proposalHash ∧
    truthy (asString (chainEvent.event.get "approver")) ≠ none

inductive RoutePhase where
  | received
  /-- The row is read, the check with the node is under way. -/
  | verifying
  | written
  /-- The event was found. -/
  | clearing
  | finished
deriving DecidableEq

/-- A call of the submissions route with action `approve`. -/
structure RouteCall where
  txHash : String
  phase : RoutePhase
deriving DecidableEq

inductive TransactionPhase where
  | begun
  | recorded
  | read (row : ApproveTracking)
  | upserted (row : ApproveTracking)
  /-- The row is written and locked. -/
  | cleared
  | finished
deriving DecidableEq

/-- A transaction of `ingestEvent` for an approval event. -/
structure ApprovalTransaction where
  chainEvent : ChainEvent
  fingerprint : String
  phase : TransactionPhase
deriving DecidableEq

structure SubmissionState where
  row : ApproveTracking
  eventRaws : List ApprovalRow
  calls : List RouteCall
  transactions : List ApprovalTransaction
  /-- What the last poll has read. -/
  polled : ApproveTracking
deriving DecidableEq

inductive SubmissionAction where
  | receive (txHash : String)
  | lookup (call : ℕ)
  /-- The transaction is not verified, or the check is refused. -/
  | reject (call : ℕ)
  | write (call : ℕ)
  | check (call : ℕ)
  | clear (call : ℕ)
  | start (chainEvent : ChainEvent) (fingerprint : String)
  | record (transaction : ℕ)
  | read (transaction : ℕ)
  | upsert (transaction : ℕ)
  | clearRow (transaction : ℕ)
  | commit (transaction : ℕ)
  | abort (transaction : ℕ)
  /-- `recordFailedEvent`. -/
  | quarantine (chainEvent : ChainEvent) (fingerprint reason : String)
  | poll
  /-- The poll finds that the transaction it has read about failed. -/
  | fail (reason : String)

namespace SubmissionState

variable (s : SubmissionState)

/-- A transaction that is still open has written the row. -/
def locked : Bool := s.transactions.any fun t ↦ t.phase = .cleared

/-- The event is recorded, or an open transaction has inserted it. -/
def taken (fingerprint : String) : Bool :=
  (s.eventRaws.any fun r ↦ r.fingerprint = fingerprint) ||
    s.transactions.any fun t ↦
      t.fingerprint = fingerprint ∧ t.phase ≠ .begun ∧ t.phase ≠ .finished

def setCall (i : ℕ) (call : RouteCall) (phase : RoutePhase) : SubmissionState :=
  { s with calls := s.calls.set i { call with phase } }

def setTransaction (j : ℕ) (t : ApprovalTransaction) (phase : TransactionPhase) :
    SubmissionState :=
  { s with transactions := s.transactions.set j { t with phase } }

/-- A statement of the call `i`, which must be in a phase. -/
def onCall (i : ℕ) (phase : RoutePhase) (statement : RouteCall → Option SubmissionState) :
    Option SubmissionState :=
  s.calls[i]?.bind fun call ↦ if call.phase = phase then statement call else none

def onTransaction (j : ℕ) (statement : ApprovalTransaction → Option SubmissionState) :
    Option SubmissionState :=
  s.transactions[j]?.bind statement

/-- A repeat of what is recorded ends the call. -/
def lookup (i : ℕ) : Option SubmissionState :=
  s.onCall i .received fun call ↦
    some (s.setCall i call
      (if s.row = ⟨some call.txHash, none⟩ then .finished else .verifying))

def reject (i : ℕ) : Option SubmissionState :=
  s.onCall i .verifying fun call ↦ some (s.setCall i call .finished)

def write (i : ℕ) : Option SubmissionState :=
  s.onCall i .verifying fun call ↦
    if s.locked then none
    else some { s.setCall i call .written with row := ⟨some call.txHash, none⟩ }

/-- `eventRaw.findFirst`. -/
def recordedApproval (txHash : String) : Bool :=
  s.eventRaws.any fun r ↦
    r.chainEvent.txHash = some txHash ∧ r.chainEvent.type = "approval"

def check (i : ℕ) : Option SubmissionState :=
  s.onCall i .written fun call ↦
    some (s.setCall i call (if s.recordedApproval call.txHash then .clearing else .finished))

/-- `updateMany` where the hash is still the reported one. -/
def clear (i : ℕ) : Option SubmissionState :=
  s.onCall i .clearing fun call ↦
    if s.locked then none
    else
      some { s.setCall i call .finished with
        row := if s.row.lastApproveTxHash = some call.txHash then .cleared else s.row }

variable (proposalHash : String)

def record (j : ℕ) : Option SubmissionState :=
  s.onTransaction j fun t ↦
    if t.phase = .begun ∧ ¬s.taken t.fingerprint then some (s.setTransaction j t .recorded)
    else none

def read (j : ℕ) : Option SubmissionState :=
  s.onTransaction j fun t ↦
    if t.phase = .recorded ∧ t.chainEvent.approves proposalHash then
      some (s.setTransaction j t (.read s.row))
    else none

def upsert (j : ℕ) : Option SubmissionState :=
  s.onTransaction j fun t ↦
    match t.phase with
    | .read row => some (s.setTransaction j t (.upserted row))
    | _ => none

def clearRow (j : ℕ) : Option SubmissionState :=
  s.onTransaction j fun t ↦
    match t.phase with
    | .upserted row =>
        if row.clearedBy t.chainEvent ∧ ¬s.locked then some (s.setTransaction j t .cleared)
        else none
    | _ => none

/-- The state when a transaction is committed that leaves `row` behind. -/
def committed (j : ℕ) (t : ApprovalTransaction) (row : ApproveTracking) : SubmissionState :=
  { s.setTransaction j t .finished with
    row := row
    eventRaws := s.eventRaws ++ [⟨t.chainEvent, t.fingerprint, none⟩] }

def commit (j : ℕ) : Option SubmissionState :=
  s.onTransaction j fun t ↦
    match t.phase with
    | .recorded =>
        if t.chainEvent.approves proposalHash then none else some (s.committed j t s.row)
    | .upserted row =>
        if row.clearedBy t.chainEvent then none else some (s.committed j t s.row)
    | .cleared => some (s.committed j t .cleared)
    | _ => none

def abort (j : ℕ) : Option SubmissionState :=
  s.onTransaction j fun t ↦
    if t.phase = .finished then none else some (s.setTransaction j t .finished)

def quarantine (chainEvent : ChainEvent) (fingerprint reason : String) :
    Option SubmissionState :=
  if s.taken fingerprint then none
  else some { s with eventRaws := s.eventRaws ++ [⟨chainEvent, fingerprint, some reason⟩] }

def fail (reason : String) : Option SubmissionState :=
  if truthy s.polled.lastApproveTxHash ≠ none ∧ truthy s.polled.lastApproveError = none ∧
      ¬s.locked then
    some { s with row := { s.row with lastApproveError := some reason } }
  else none

def step (s : SubmissionState) : SubmissionAction → Option SubmissionState
  | .receive txHash => some { s with calls := s.calls ++ [⟨txHash, .received⟩] }
  | .lookup i => s.lookup i
  | .reject i => s.reject i
  | .write i => s.write i
  | .check i => s.check i
  | .clear i => s.clear i
  | .start chainEvent fingerprint =>
      if chainEvent.type = "approval" then
        some { s with transactions := s.transactions ++ [⟨chainEvent, fingerprint, .begun⟩] }
      else none
  | .record j => s.record j
  | .read j => s.read proposalHash j
  | .upsert j => s.upsert j
  | .clearRow j => s.clearRow j
  | .commit j => s.commit proposalHash j
  | .abort j => s.abort j
  | .quarantine chainEvent fingerprint reason => s.quarantine chainEvent fingerprint reason
  | .poll => some { s with polled := s.row }
  | .fail reason => s.fail reason

end SubmissionState

/-- The clients of the row of one proposal, which starts without a report. -/
def submissionSystem (proposalHash : String) :
    Foundations.TransitionSystem SubmissionState SubmissionAction :=
  .ofFunction (fun s ↦ ∃ eventRaws, s = ⟨.cleared, eventRaws, [], [], .cleared⟩)
    (SubmissionState.step proposalHash)

end MinaGuard
