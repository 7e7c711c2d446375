import Mathlib.Data.Int.Notation
import MinaGuard.Foundations.InsertionMap
import MinaGuard.Foundations.TransitionSystem

/-!
# The transaction status cache

`createTxStatusCache` of `tx-status-cache.ts`.  A call of `get` runs up to its `await` in
one step.  The settlement of a lookup and the rest of the call that started it are steps
of their own.  The clock is read anew at each of them.
-/

namespace MinaGuard

open Foundations

inductive TxStatus where
  | pending
  | included
  | failed
  | unknown
deriving DecidableEq

structure TxStatusResult where
  status : TxStatus
  reason : Option String

structure TxStatusCacheOptions where
  ttlMs : ℤ
  maxEntries : ℕ

def defaultTxStatusCacheOptions : TxStatusCacheOptions := ⟨5000, 1000⟩

/-- An outcome `none` is a rejection.  It is taken up by the call that started the lookup. -/
inductive LookupPhase where
  | inFlight
  | settled (outcome : Option TxStatusResult) (settledAt : ℤ)
  | takenUp (outcome : Option TxStatusResult) (settledAt now : ℤ)

/-- An entry and its lookup.  It does not expire where `expiresAt` is `none`. -/
structure Lookup where
  hash : String
  phase : LookupPhase
  expiresAt : Option ℤ

structure TxStatusCache where
  /-- Each hash with the number of its lookup. -/
  entries : InsertionMap String ℕ
  /-- All lookups so far, the oldest first. -/
  lookups : List Lookup

/-- Drops the oldest entries.  A map has each key once. -/
def dropOldest (maxEntries : ℕ) : InsertionMap String ℕ → InsertionMap String ℕ
  | [] => []
  | oldest :: entries =>
      if (oldest :: entries).length > maxEntries then dropOldest maxEntries entries
      else oldest :: entries

namespace TxStatusCache

def empty : TxStatusCache := ⟨[], []⟩

variable (options : TxStatusCacheOptions) (s : TxStatusCache)

/-- `expiresAt > now()` -/
def fresh (n : ℕ) (now : ℤ) : Bool :=
  (s.lookups[n]?.bind Lookup.expiresAt).all fun expiresAt ↦ expiresAt > now

/-- A new lookup for a hash without an entry. -/
def startLookup (entries : InsertionMap String ℕ) (hash : String) : ℕ × TxStatusCache :=
  (s.lookups.length,
    { entries := dropOldest options.maxEntries (entries.set hash s.lookups.length)
      lookups := s.lookups ++ [⟨hash, .inFlight, none⟩] })

/-- The lookup whose result the call returns. -/
def get (hash : String) (now : ℤ) : ℕ × TxStatusCache :=
  match s.entries.get? hash with
  | some cached =>
      if s.fresh cached now then (cached, s)
      else s.startLookup options (s.entries.erase hash) hash
  | none => s.startLookup options s.entries hash

def setLookup (n : ℕ) (lookup : Lookup) : TxStatusCache :=
  { s with lookups := s.lookups.set n lookup }

/-- `if (entries.get(hash) === entry) entries.delete(hash)` -/
def forget (hash : String) (n : ℕ) : TxStatusCache :=
  if s.entries.get? hash = some n then { s with entries := s.entries.erase hash } else s

/-- What follows the `await` of the call that started lookup `n`. -/
def takeUp (n : ℕ) (lookup : Lookup) (outcome : Option TxStatusResult) (settledAt now : ℤ) :
    TxStatusCache :=
  let phase := .takenUp outcome settledAt now
  match outcome with
  | some result =>
      if result.status = .unknown then
        (s.setLookup n { lookup with phase }).forget lookup.hash n
      else
        s.setLookup n { lookup with phase, expiresAt := some (now + options.ttlMs) }
  | none => (s.setLookup n { lookup with phase }).forget lookup.hash n

end TxStatusCache

inductive TxStatusCacheAction where
  | get (hash : String) (now : ℤ)
  | settle (n : ℕ) (outcome : Option TxStatusResult) (now : ℤ)
  | takeUp (n : ℕ) (now : ℤ)

namespace TxStatusCache

variable (options : TxStatusCacheOptions) (s : TxStatusCache)

def settle (n : ℕ) (outcome : Option TxStatusResult) (now : ℤ) (lookup : Lookup) :
    Option TxStatusCache :=
  match lookup.phase with
  | .inFlight => some (s.setLookup n { lookup with phase := .settled outcome now })
  | _ => none

def resume (n : ℕ) (now : ℤ) (lookup : Lookup) : Option TxStatusCache :=
  match lookup.phase with
  | .settled outcome settledAt => some (s.takeUp options n lookup outcome settledAt now)
  | _ => none

def step : TxStatusCacheAction → Option TxStatusCache
  | .get hash now => some (s.get options hash now).2
  | .settle n outcome now => s.lookups[n]?.bind (s.settle n outcome now)
  | .takeUp n now => s.lookups[n]?.bind (s.resume options n now)

end TxStatusCache

/-- Calls and settlements in any order, under any clock. -/
def txStatusCacheSystem (options : TxStatusCacheOptions) :
    TransitionSystem TxStatusCache TxStatusCacheAction :=
  .ofFunction (· = .empty) (TxStatusCache.step options)

end MinaGuard
