import MinaGuard.Foundations.InsertionMap
import MinaGuard.Foundations.TransitionSystem
import MinaGuard.Indexer.Database

/-!
# The list of contracts, page by page

The route `/api/contracts` and `fetchContracts` of the UI, which reads one page after the
other while contracts are discovered, removed and changed.
-/

namespace MinaGuard

open Foundations

/-- A contract with its time of discovery, in milliseconds. -/
structure DiscoveredContract extends Db.Contract where
  discoveredAt : ℕ

/-- The first moment of the year 10000. -/
def cursorDateEnd : ℕ := 253402300800000

/-- The largest `INTEGER` of the database. -/
def maxDbInt : ℕ := 2147483647

/-- A date of the query, counted as absent after the year 9999. -/
def optionalCursorDate (date : ℕ) : Option ℕ := if date < cursorDateEnd then some date else none

def optionalCursorId (id : ℕ) : Option ℕ := if id ≤ maxDbInt then some id else none

/-- The row comes after the cursor, if there is one. -/
def afterCursor (beforeDiscoveredAt beforeId : Option ℕ) (row : DiscoveredContract) : Bool :=
  match beforeDiscoveredAt, beforeId with
  | some date, some id => row.discoveredAt < date ∨ row.discoveredAt = date ∧ row.id < id
  | _, _ => true

def discoveredFirst (a b : DiscoveredContract) : Bool :=
  b.discoveredAt < a.discoveredAt ∨ b.discoveredAt = a.discoveredAt ∧ b.id ≤ a.id

def listContracts (rows : List DiscoveredContract) (limit : ℕ)
    (beforeDiscoveredAt beforeId : Option ℕ) : List DiscoveredContract :=
  ((rows.filter fun row ↦ row.ready ∧ row.permissionsVerified ∧
    afterCursor beforeDiscoveredAt beforeId row).mergeSort discoveredFirst).take limit

/-- An element of the response; older backends leave out what the cursor needs. -/
structure ContractItem where
  address : String
  permissionsVerified : Bool
  discoveredAt : Option ℕ
  id : Option ℕ

/-- Where the page after this element starts. -/
def ContractItem.cursor (item : ContractItem) : Option (ℕ × ℕ) :=
  match item.discoveredAt, item.id with
  | some discoveredAt, some id => some (discoveredAt, id)
  | _, _ => none

structure ContractSummary where
  address : String
  permissionsVerified : Bool
  discoveredAt : ℕ
deriving DecidableEq

def toContractSummary (item : ContractItem) : ContractSummary :=
  ⟨item.address, item.permissionsVerified, item.discoveredAt.getD 0⟩

def contractsPageLimit : ℕ := 200

def contractsMaxPages : ℕ := 50

/-- How the reading came to its end. -/
inductive FetchEnd where
  | failed
  | finished
  | pageCap
deriving DecidableEq

structure ContractsFetch where
  page : ℕ
  contracts : InsertionMap String ContractSummary
  cursor : Option (ℕ × ℕ)
  ended : Option FetchEnd

namespace ContractsFetch

def start : ContractsFetch := ⟨0, [], none, none⟩

def keepContract (contracts : InsertionMap String ContractSummary) (item : ContractItem) :
    InsertionMap String ContractSummary :=
  let contract := toContractSummary item
  if contracts.has contract.address then contracts else contracts.set contract.address contract

/-- One round of the loop, `none` for a page that could not be read. -/
def readPage (fetch : ContractsFetch) : Option (List ContractItem) → ContractsFetch
  | none => { fetch with ended := some .failed }
  | some data =>
      let contracts := data.foldl keepContract fetch.contracts
      if data.length ≠ contractsPageLimit ∨ contracts.length = fetch.contracts.length then
        { fetch with contracts, ended := some .finished }
      else
        match data.getLast?.bind ContractItem.cursor with
        | none => { fetch with contracts, ended := some .finished }
        | some cursor =>
            { page := fetch.page + 1
              contracts
              cursor := some cursor
              ended := if fetch.page + 1 < contractsMaxPages then none else some .pageCap }

/-- What `fetchContracts` returns. -/
def result (fetch : ContractsFetch) : Option (List ContractSummary) :=
  fetch.ended.map fun ended ↦ if ended = .failed then [] else fetch.contracts.values

end ContractsFetch

structure ContractTable where
  rows : List DiscoveredContract
  /-- The sequence that ids come from. -/
  nextId : ℕ
  clock : ℕ

def DiscoveredContract.toItem (row : DiscoveredContract) : ContractItem :=
  ⟨row.address, row.permissionsVerified, some row.discoveredAt, some row.id⟩

structure ContractListing where
  table : ContractTable
  fetch : ContractsFetch

inductive ListingAction where
  /-- A new row, with the time of the clock and the next id. -/
  | discover (contract : Db.Contract) (now : ℕ)
  | remove (id : ℕ)
  /-- New columns for a row, which keeps its address and its time. -/
  | update (contract : Db.Contract)
  | read (failed : Bool)

namespace ContractTable

variable (t : ContractTable)

def discover (contract : Db.Contract) (now : ℕ) : Option ContractTable :=
  if t.clock ≤ now ∧ now < cursorDateEnd ∧ t.nextId ≤ maxDbInt ∧
      ∀ row ∈ t.rows, row.address ≠ contract.address then
    some ⟨t.rows ++ [⟨{ contract with id := t.nextId }, now⟩], t.nextId + 1, now⟩
  else none

def remove (id : ℕ) : ContractTable := { t with rows := t.rows.filter fun row ↦ row.id ≠ id }

def updateRow (contract : Db.Contract) (row : DiscoveredContract) : DiscoveredContract :=
  if row.id = contract.id then { row with toContract := { contract with address := row.address } }
  else row

def update (contract : Db.Contract) : ContractTable :=
  { t with rows := t.rows.map (updateRow contract) }

end ContractTable

namespace ContractListing

variable (s : ContractListing)

/-- The response to the next request of the client. -/
def page : List ContractItem :=
  (listContracts s.table.rows contractsPageLimit
    (s.fetch.cursor.bind fun cursor ↦ optionalCursorDate cursor.1)
    (s.fetch.cursor.bind fun cursor ↦ optionalCursorId cursor.2)).map DiscoveredContract.toItem

def step : ListingAction → Option ContractListing
  | .discover contract now => (s.table.discover contract now).map fun table ↦ { s with table }
  | .remove id => some { s with table := s.table.remove id }
  | .update contract => some { s with table := s.table.update contract }
  | .read failed =>
      if s.fetch.ended = none then
        some { s with fetch := s.fetch.readPage (if failed then none else some s.page) }
      else none

end ContractListing

/-- A client that starts to read the contracts of a table. -/
def contractListingSystem (table : ContractTable) :
    TransitionSystem ContractListing ListingAction :=
  .ofFunction (· = ⟨table, .start⟩) ContractListing.step

end MinaGuard
