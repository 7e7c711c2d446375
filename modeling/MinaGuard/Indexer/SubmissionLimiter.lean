import MinaGuard.Foundations.InsertionMap
import MinaGuard.Foundations.TransitionSystem
import MinaGuard.Indexer.Payload

/-!
# The submission-check limiter

`createSubmissionCheckLimiter` of `submission-check.ts`.  A call of `run` is one step.
The promise it makes takes three more: a job calls `check`, the check settles, and a
last job does the clean-up.  Other calls and jobs may come between any two of them.
-/

namespace MinaGuard

open Foundations

structure Report where
  proposalId : ℕ
  action : String
  txHash : String

/-- `${proposalId}:${action}:${txHash}` -/
def Report.key (report : Report) : String :=
  decimal report.proposalId ++ ":" ++ report.action ++ ":" ++ report.txHash

structure CheckLimits where
  total : ℕ
  perProposal : ℕ

def defaultCheckLimits : CheckLimits := ⟨16, 2⟩

/-- How far the promise of a check has come.  The outcome `none` is a rejection. -/
inductive CheckPhase where
  | queued
  | checking
  | settled (outcome : Option Bool)
  | finished (outcome : Option Bool)

def CheckPhase.inProgress : CheckPhase → Bool
  | finished _ => false
  | _ => true

structure SubmissionCheck where
  report : Report
  phase : CheckPhase

/-- A call of `run` and what it returned: a check, by its number, or null. -/
structure RunCall where
  report : Report
  answer : Option ℕ

structure SubmissionCheckLimiter where
  running : InsertionMap String ℕ
  perProposal : InsertionMap ℕ ℤ
  total : ℤ
  /-- All checks so far, the oldest first. -/
  checks : List SubmissionCheck
  calls : List RunCall

namespace SubmissionCheckLimiter

def start : SubmissionCheckLimiter := ⟨[], [], 0, [], []⟩

variable (limits : CheckLimits) (s : SubmissionCheckLimiter)

/-- `perProposal.get(proposalId) ?? 0` -/
def forProposal (proposalId : ℕ) : ℤ := (s.perProposal.get? proposalId).getD 0

/-- A new check takes a slot in all three counts. -/
def takeSlot (report : Report) : SubmissionCheckLimiter where
  total := s.total + 1
  perProposal := s.perProposal.set report.proposalId (s.forProposal report.proposalId + 1)
  running := s.running.set report.key s.checks.length
  checks := s.checks ++ [⟨report, .queued⟩]
  calls := s.calls

def run (report : Report) : Option ℕ × SubmissionCheckLimiter :=
  match s.running.get? report.key with
  | some same => (some same, s)
  | none =>
      if s.total ≥ limits.total ∨ s.forProposal report.proposalId ≥ limits.perProposal then
        (none, s)
      else
        (some s.checks.length, s.takeSlot report)

def setPhase (n : ℕ) (check : SubmissionCheck) (phase : CheckPhase) : SubmissionCheckLimiter :=
  { s with checks := s.checks.set n { check with phase } }

/-- The callback of `finally`. -/
def cleanUp (report : Report) : SubmissionCheckLimiter :=
  let left := (s.perProposal.get? report.proposalId).getD 1 - 1
  { s with
    total := s.total - 1
    perProposal :=
      if left > 0 then s.perProposal.set report.proposalId left
      else s.perProposal.erase report.proposalId
    running := s.running.erase report.key }

end SubmissionCheckLimiter

/-- What the event loop does for a check.  Its `check` may throw at once. -/
inductive CheckJob where
  | call (threw : Bool)
  | settle (outcome : Option Bool)
  | cleanUp

def CheckPhase.next : CheckPhase → CheckJob → Option CheckPhase
  | queued, .call threw => some (if threw then settled none else checking)
  | checking, .settle outcome => some (settled outcome)
  | settled outcome, .cleanUp => some (finished outcome)
  | _, _ => none

inductive LimiterAction where
  | run (report : Report)
  | job (n : ℕ) (job : CheckJob)

def SubmissionCheckLimiter.step (limits : CheckLimits) (s : SubmissionCheckLimiter) :
    LimiterAction → Option SubmissionCheckLimiter
  | .run report =>
      let (answer, s') := s.run limits report
      some { s' with calls := s'.calls ++ [⟨report, answer⟩] }
  | .job n job => do
      let check ← s.checks[n]?
      let phase ← check.phase.next job
      let s' := s.setPhase n check phase
      some (if phase.inProgress then s' else s'.cleanUp check.report)

/-- Calls and jobs in any order. -/
def limiterSystem (limits : CheckLimits) :
    TransitionSystem SubmissionCheckLimiter LimiterAction :=
  .ofFunction (· = .start) (SubmissionCheckLimiter.step limits)

end MinaGuard
