import MinaGuard.Clients.EventRebuild
import MinaGuard.Foundations.TiedPages
import MinaGuard.Indexer.Database

/-!
# The events of a vault, page by page

The route of the raw events and `fetchAllEvents` of the UI.
-/

namespace MinaGuard

open Foundations

/-- A stored event with the time it was written, in milliseconds. -/
structure StoredEvent extends Db.EventRaw where
  createdAt : ℕ
deriving DecidableEq

structure EventStore where
  contracts : List Db.Contract
  events : List StoredEvent

structure EventsQuery where
  fromBlock : Option ℕ
  toBlock : Option ℕ
  limit : ℕ
  offset : ℕ

def clampedInt (min max value : ℕ) : ℕ := Nat.max min (Nat.min max value)

/-- The query as `eventsQuerySchema` reads it. -/
def eventsQuery (fromBlock toBlock : Option ℕ) (limit offset : ℕ) : EventsQuery :=
  ⟨fromBlock, toBlock, clampedInt 1 500 limit, clampedInt 0 50000 offset⟩

/-- An event of the response, its payload a text or an object. -/
structure EventItem where
  eventType : String
  payload : String ⊕ Payload
  blockHeight : Option ℕ

inductive RequestFault where
  | rejected (message : String)
  | status (code : ℕ)

inductive EventsReply where
  | fault (fault : RequestFault)
  | notArray
  | batch (items : List EventItem)

def StoredEvent.toItem (event : StoredEvent) : EventItem :=
  ⟨event.eventType, .inl event.payload, some event.blockHeight⟩

/-- The columns of `orderBy`. -/
def StoredEvent.orderKey (event : StoredEvent) : ℕ ×ₗ ℕ :=
  toLex (event.blockHeight, event.createdAt)

namespace EventStore

variable (db : EventStore)

def inRange (fromBlock toBlock : Option ℕ) (blockHeight : ℕ) : Bool :=
  (∀ block ∈ fromBlock, block ≤ blockHeight) ∧ ∀ block ∈ toBlock, blockHeight ≤ block

def matching (contractId : ℕ) (fromBlock toBlock : Option ℕ) : List StoredEvent :=
  db.events.filter fun event ↦
    event.contractId = some contractId ∧ inRange fromBlock toBlock event.blockHeight

def findContract (address : String) : Option Db.Contract :=
  db.contracts.find? fun contract ↦ contract.address = address

/-- The response; `sort` is how this query of the database orders its rows. -/
def listEvents (sort : List StoredEvent → List StoredEvent) (address : String)
    (query : EventsQuery) : EventsReply :=
  match db.findContract address with
  | none => .fault (.status 404)
  | some contract =>
      if contract.ready ∧ contract.permissionsVerified then
        .batch ((page (sort (db.matching contract.id query.fromBlock query.toBlock)) query.limit
          query.offset).map StoredEvent.toItem)
      else .fault (.status 404)

end EventStore

def eventsPageLimit : ℕ := 500

def maxEventsOffset : ℕ := 50000

section Client

variable (safeParseJson : String → Payload)

def EventItem.toIndexed (item : EventItem) : IndexedEvent where
  eventType := item.eventType
  payload := item.payload.elim safeParseJson id
  blockHeight := item.blockHeight

/-- The loop, from an offset on; `request` says what the request for a page comes back with. -/
def fetchEventsFrom (request : ℕ → EventsReply) (events : List IndexedEvent) (offset : ℕ) :
    Except String (List IndexedEvent) :=
  if maxEventsOffset < offset then
    .error "Event history exceeds the backend pagination limit"
  else
    match request offset with
    | .fault (.rejected message) => .error message
    | .fault (.status code) =>
        .error s!"Could not fetch vault events ({code}); retry shortly."
    | .notArray => .error "Invalid vault events response"
    | .batch batch =>
        let events := events ++ batch.map (EventItem.toIndexed safeParseJson)
        if batch.length < eventsPageLimit then .ok events
        else fetchEventsFrom request events (offset + eventsPageLimit)
termination_by maxEventsOffset + 1 - offset
decreasing_by
  unfold eventsPageLimit
  omega

def fetchAllEvents (request : ℕ → EventsReply) : Except String (List IndexedEvent) :=
  (fetchEventsFrom safeParseJson request [] 0).map List.reverse

end Client

/-- Where a request goes: it fails, or the route answers with an order of its own. -/
def EventStore.reply (db : EventStore) (sorts : ℕ → List StoredEvent → List StoredEvent)
    (faults : ℕ → Option RequestFault) (address : String) (fromBlock : Option ℕ) (offset : ℕ) :
    EventsReply :=
  match faults offset with
  | some fault => .fault fault
  | none =>
      db.listEvents (sorts offset) address (eventsQuery fromBlock none eventsPageLimit offset)

end MinaGuard
