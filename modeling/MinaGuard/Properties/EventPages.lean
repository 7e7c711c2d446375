import MinaGuard.Clients.EventPages

/-!
# Which histories are read whole

The pages are cut from orders that only agree on block and time.  So the client has every
event exactly if no page ends between two events that are tied.
-/

namespace MinaGuard

open Foundations

section Loop

variable {safeParseJson : String → Payload} {request request' : ℕ → EventsReply}

theorem fetchEventsFrom_of_le {offset : ℕ} (h : offset ≤ maxEventsOffset)
    {events : List IndexedEvent} {batch : List EventItem} (hreply : request offset = .batch batch) :
    fetchEventsFrom safeParseJson request events offset =
      if batch.length < eventsPageLimit then
        .ok (events ++ batch.map (EventItem.toIndexed safeParseJson))
      else fetchEventsFrom safeParseJson request
        (events ++ batch.map (EventItem.toIndexed safeParseJson)) (offset + eventsPageLimit) := by
  rw [fetchEventsFrom, if_neg (Nat.not_lt_of_le h), hreply]

theorem fetchEventsFrom_of_fault {offset : ℕ} {fault : RequestFault} {events : List IndexedEvent}
    (hreply : request offset = .fault fault) :
    ∃ message, fetchEventsFrom safeParseJson request events offset = .error message := by
  rw [fetchEventsFrom, hreply]
  split
  · exact ⟨_, rfl⟩
  · cases fault with
    | rejected message => exact ⟨_, rfl⟩
    | status code => exact ⟨_, rfl⟩

/-- What is returned in spite of faults is what is returned without them. -/
theorem fetchEventsFrom_of_faults
    (h : ∀ offset, request offset = request' offset ∨ ∃ fault, request offset = .fault fault)
    {events result : List IndexedEvent} {offset : ℕ}
    (hresult : fetchEventsFrom safeParseJson request events offset = .ok result) :
    fetchEventsFrom safeParseJson request' events offset = .ok result := by
  rcases h offset with hsame | ⟨fault, hfault⟩
  · by_cases hle : offset ≤ maxEventsOffset
    · rw [fetchEventsFrom, if_neg (Nat.not_lt_of_le hle), hsame] at hresult
      rw [fetchEventsFrom, if_neg (Nat.not_lt_of_le hle)]
      split at hresult
      · cases hresult
      · cases hresult
      · cases hresult
      · dsimp only at hresult ⊢
        split at hresult
        · next hshort =>
            rw [if_pos hshort]
            exact hresult
        · next hshort =>
            rw [if_neg hshort]
            exact fetchEventsFrom_of_faults h hresult
    · rw [fetchEventsFrom, if_pos (Nat.lt_of_not_le hle)] at hresult
      cases hresult
  · obtain ⟨message, hmessage⟩ : ∃ message,
        fetchEventsFrom safeParseJson request events offset = .error message :=
      fetchEventsFrom_of_fault hfault
    rw [hmessage] at hresult
    cases hresult
termination_by maxEventsOffset + 1 - offset
decreasing_by
  unfold eventsPageLimit
  omega

theorem fetchAllEvents_of_faults
    (h : ∀ offset, request offset = request' offset ∨ ∃ fault, request offset = .fault fault)
    {result : List IndexedEvent} (hresult : fetchAllEvents safeParseJson request = .ok result) :
    fetchAllEvents safeParseJson request' = .ok result := by
  unfold fetchAllEvents at hresult ⊢
  cases hfetch : fetchEventsFrom safeParseJson request [] 0 with
  | error message =>
      rw [hfetch] at hresult
      cases hresult
  | ok events =>
      rw [fetchEventsFrom_of_faults h hfetch]
      rw [hfetch] at hresult
      exact hresult

theorem fetchAllEvents_of_fault {fault : RequestFault} (hreply : request 0 = .fault fault)
    (result : List IndexedEvent) : fetchAllEvents safeParseJson request ≠ .ok result := by
  obtain ⟨message, hmessage⟩ : ∃ message,
      fetchEventsFrom safeParseJson request [] 0 = .error message :=
    fetchEventsFrom_of_fault hreply
  unfold fetchAllEvents
  rw [hmessage]
  exact (nomatch ·)

section Orders

variable {orders : ℕ → List StoredEvent} {count : ℕ} {i : ℕ} {events : List IndexedEvent}

/-- An event as the client returns it. -/
def StoredEvent.toIndexed (safeParseJson : String → Payload) (event : StoredEvent) :
    IndexedEvent := event.toItem.toIndexed safeParseJson

def AnswersPages (request : ℕ → EventsReply) (orders : ℕ → List StoredEvent) : Prop :=
  ∀ i, i * eventsPageLimit ≤ maxEventsOffset → request (i * eventsPageLimit) =
    .batch ((page (orders i) eventsPageLimit (i * eventsPageLimit)).map StoredEvent.toItem)

theorem fetchEventsFrom_page (hanswers : AnswersPages request orders)
    (hlength : (orders i).length = count) (hle : i * eventsPageLimit ≤ maxEventsOffset) :
    fetchEventsFrom safeParseJson request events (i * eventsPageLimit) =
      if count < (i + 1) * eventsPageLimit then
        .ok (events ++ (page (orders i) eventsPageLimit (i * eventsPageLimit)).map
          (StoredEvent.toIndexed safeParseJson))
      else fetchEventsFrom safeParseJson request
        (events ++ (page (orders i) eventsPageLimit (i * eventsPageLimit)).map
          (StoredEvent.toIndexed safeParseJson)) ((i + 1) * eventsPageLimit) := by
  have hpage : (page (orders i) eventsPageLimit (i * eventsPageLimit)).length < eventsPageLimit ↔
      count < (i + 1) * eventsPageLimit := by
    unfold page
    rw [List.length_take, List.length_drop, hlength, Nat.succ_mul]
    unfold eventsPageLimit
    omega
  rw [fetchEventsFrom_of_le hle (hanswers i hle), List.length_map, List.map_map, ← Nat.succ_mul]
  exact if_congr hpage rfl rfl

/-- The client reads the pages from number `i` on, each cut from an order of its own. -/
theorem fetchEventsFrom_orders (hanswers : AnswersPages request orders)
    (hlength : ∀ i, (orders i).length = count) (hcount : count ≤ maxEventsOffset) {rest : ℕ}
    (hi : i + rest = count / eventsPageLimit) :
    fetchEventsFrom safeParseJson request events (i * eventsPageLimit) =
      .ok (events ++ ((List.range (rest + 1)).flatMap fun j ↦
        page (orders (i + j)) eventsPageLimit ((i + j) * eventsPageLimit)).map
          (StoredEvent.toIndexed safeParseJson)) := by
  have hlimit : 0 < eventsPageLimit := by decide
  have hbelow {i : ℕ} (h : i ≤ count / eventsPageLimit) : i * eventsPageLimit ≤ count :=
    (Nat.le_div_iff_mul_le hlimit).mp h
  induction rest generalizing i events with
  | zero =>
      -- the last page is not full
      have hshort : count < (i + 1) * eventsPageLimit := by
        rw [← Nat.div_lt_iff_lt_mul hlimit, ← hi]
        exact Nat.lt_succ_self _
      rw [fetchEventsFrom_page hanswers (hlength i) ((hbelow hi.le).trans hcount), if_pos hshort,
        List.range_one, List.flatMap_singleton]
      rfl
  | succ rest ih =>
      have hfull : (i + 1) * eventsPageLimit ≤ count := hbelow (by omega)
      have hpages : List.range (rest + 1 + 1) = 0 :: (List.range (rest + 1)).map Nat.succ :=
        List.range_succ_eq_map
      have hshift (j : ℕ) : i + 1 + j = i + (j + 1) := by omega
      rw [fetchEventsFrom_page hanswers (hlength i) ((hbelow (by omega)).trans hcount),
        if_neg (Nat.not_lt_of_le hfull), ih (by omega), List.append_assoc, ← List.map_append,
        hpages, List.flatMap_cons, List.flatMap_map]
      simp only [Nat.add_zero, hshift]

end Orders

end Loop

namespace EventStore

variable (db : EventStore) (address : String) (fromBlock : Option ℕ)

/-- The route has events for this address. -/
def Served : Prop :=
  ∃ contract ∈ db.findContract address,
    contract.ready = true ∧ contract.permissionsVerified = true

/-- The stored events that match the query of the client. -/
def history : List StoredEvent :=
  match db.findContract address with
  | none => []
  | some contract => db.matching contract.id fromBlock none

/-- Each query of the database orders its rows as `orderBy` says, tied rows in any order. -/
def OrdersRows (sorts : ℕ → List StoredEvent → List StoredEvent) : Prop :=
  ∀ offset rows, SortedBy StoredEvent.orderKey rows (sorts offset rows)

variable {db address fromBlock} {sorts : ℕ → List StoredEvent → List StoredEvent}
  {safeParseJson : String → Payload}

theorem reply_of_unserved (h : ¬ db.Served address) (faults : ℕ → Option RequestFault)
    (offset : ℕ) : ∃ fault, db.reply sorts faults address fromBlock offset = .fault fault := by
  unfold reply listEvents
  cases faults offset with
  | some fault => exact ⟨fault, rfl⟩
  | none =>
      cases hfind : db.findContract address with
      | none => exact ⟨_, rfl⟩
      | some contract => exact ⟨_, if_neg fun hready ↦ h ⟨contract, hfind, hready⟩⟩

theorem answers_of_served (h : db.Served address) :
    AnswersPages (db.reply sorts (fun _ ↦ none) address fromBlock) fun i ↦
      sorts (i * eventsPageLimit) (db.history address fromBlock) := by
  intro i hle
  obtain ⟨contract, hfind, hready⟩ := h
  have hquery : eventsQuery fromBlock none eventsPageLimit (i * eventsPageLimit) =
      ⟨fromBlock, none, eventsPageLimit, i * eventsPageLimit⟩ := by
    unfold eventsQuery clampedInt
    rw [show Nat.min 50000 (i * eventsPageLimit) = i * eventsPageLimit from Nat.min_eq_right hle]
    exact congrArg (EventsQuery.mk _ _ _) (Nat.max_eq_right (Nat.zero_le _))
  unfold reply listEvents history
  rw [hquery, hfind]
  exact if_pos hready

/-- Without faults the client returns what is on the pages. -/
theorem fetchAllEvents_eq (h : db.Served address) (hsorts : OrdersRows sorts)
    (hcount : (db.history address fromBlock).length ≤ maxEventsOffset) :
    fetchAllEvents safeParseJson (db.reply sorts (fun _ ↦ none) address fromBlock) =
      .ok ((readPages (fun i ↦ sorts (i * eventsPageLimit) (db.history address fromBlock))
        eventsPageLimit ((db.history address fromBlock).length / eventsPageLimit + 1)).map
          (StoredEvent.toIndexed safeParseJson)).reverse := by
  have hloop : fetchEventsFrom safeParseJson (db.reply sorts (fun _ ↦ none) address fromBlock) []
      (0 * eventsPageLimit) = _ :=
    fetchEventsFrom_orders (answers_of_served h) (fun i ↦ (hsorts _ _).perm.length_eq) hcount
      (Nat.zero_add _)
  rw [Nat.zero_mul, List.nil_append] at hloop
  unfold fetchAllEvents
  rw [hloop]
  simp only [Nat.zero_add]
  rfl

theorem history_le_pages (n : ℕ) : n ≤ (n / eventsPageLimit + 1) * eventsPageLimit := by
  unfold eventsPageLimit
  omega

theorem fetchAllEvents_perm (htogether : db.Served address → TiesTogether StoredEvent.orderKey
      (StoredEvent.toIndexed safeParseJson) (db.history address fromBlock) eventsPageLimit)
    (hcount : (db.history address fromBlock).length ≤ maxEventsOffset) (hsorts : OrdersRows sorts)
    {faults : ℕ → Option RequestFault} {events : List IndexedEvent}
    (h : fetchAllEvents safeParseJson (db.reply sorts faults address fromBlock) = .ok events) :
    events.Perm ((db.history address fromBlock).map (StoredEvent.toIndexed safeParseJson)) := by
  by_cases hserved : db.Served address
  · have hclean : fetchAllEvents safeParseJson
        (db.reply sorts (fun _ ↦ none) address fromBlock) = .ok events := by
      refine fetchAllEvents_of_faults (fun offset ↦ ?_) h
      unfold reply
      cases faults offset with
      | some fault => exact .inr ⟨fault, rfl⟩
      | none => exact .inl rfl
    rw [fetchAllEvents_eq hserved hsorts hcount] at hclean
    cases hclean
    have hread := map_readPages_perm (by decide : 0 < eventsPageLimit) (htogether hserved)
      (fun i ↦ hsorts (i * eventsPageLimit) _)
      ((db.history address fromBlock).length / eventsPageLimit + 1)
    have hall := hsorts (((db.history address fromBlock).length / eventsPageLimit + 1) *
      eventsPageLimit) (db.history address fromBlock)
    rw [List.take_of_length_le (hall.perm.length_eq.trans_le (history_le_pages _))] at hread
    exact (List.reverse_perm _).trans (hread.trans (hall.perm.map _))
  · obtain ⟨fault, hfault⟩ : ∃ fault, db.reply sorts faults address fromBlock 0 = .fault fault :=
      reply_of_unserved hserved faults 0
    exact absurd h (fetchAllEvents_of_fault hfault events)

/-- A database that orders `rows` anew for the pages from `m` on. -/
def switchingSorts (rows order order' : List StoredEvent) (m offset : ℕ)
    (given : List StoredEvent) : List StoredEvent :=
  if given = rows then if offset / eventsPageLimit < m then order else order'
  else given.mergeSort fun a b ↦ b.orderKey ≤ a.orderKey

theorem ordersRows_switchingSorts {rows order order' : List StoredEvent}
    (h : SortedBy StoredEvent.orderKey rows order)
    (h' : SortedBy StoredEvent.orderKey rows order') (m : ℕ) :
    OrdersRows (switchingSorts rows order order' m) := by
  intro offset given
  unfold switchingSorts
  split
  · next heq =>
      rw [heq]
      split
      · exact h
      · exact h'
  · exact sortedBy_mergeSort _ given

theorem exists_orders_incomplete (hserved : db.Served address)
    (hcount : (db.history address fromBlock).length ≤ maxEventsOffset)
    (htorn : ¬ TiesTogether StoredEvent.orderKey (StoredEvent.toIndexed safeParseJson)
      (db.history address fromBlock) eventsPageLimit) :
    ∃ sorts events, OrdersRows sorts ∧
      fetchAllEvents safeParseJson (db.reply sorts (fun _ ↦ none) address fromBlock) = .ok events ∧
      ¬ events.Perm ((db.history address fromBlock).map (StoredEvent.toIndexed safeParseJson)) := by
  have hlimit : 0 < eventsPageLimit := by decide
  obtain ⟨m, order, order', horder, horder', hlose⟩ := exists_orders_lose hlimit htorn
  have hsorts := ordersRows_switchingSorts horder horder' m
  have hpages : (fun i ↦ switchingSorts (db.history address fromBlock) order order' m
      (i * eventsPageLimit) (db.history address fromBlock)) =
        fun i ↦ if i < m then order else order' := by
    funext i
    refine (if_pos rfl).trans ?_
    rw [Nat.mul_div_cancel i hlimit]
  refine ⟨_, _, hsorts, fetchAllEvents_eq hserved hsorts hcount, fun hperm ↦ ?_⟩
  rw [hpages] at hperm
  exact hlose _ (history_le_pages _) ((List.reverse_perm _).symm.trans hperm)

end EventStore

open EventStore

/-- The client returns every matching event exactly once, whatever order each query picks for
tied rows, exactly if no page of a vault that is served ends between two tied events that
differ. -/
theorem all_events_fetched_iff (db : EventStore) (address : String) (fromBlock : Option ℕ)
    (safeParseJson : String → Payload)
    (hcount : (db.history address fromBlock).length ≤ 50000) :
    (∀ sorts, OrdersRows sorts → ∀ faults events,
      fetchAllEvents safeParseJson (db.reply sorts faults address fromBlock) = .ok events →
        events.Perm ((db.history address fromBlock).map (StoredEvent.toIndexed safeParseJson))) ↔
    (db.Served address → TiesTogether StoredEvent.orderKey (StoredEvent.toIndexed safeParseJson)
      (db.history address fromBlock) eventsPageLimit) := by
  constructor
  · intro hcomplete hserved
    by_contra htorn
    obtain ⟨sorts, events, hsorts, hevents, hlost⟩ :=
      exists_orders_incomplete hserved hcount htorn
    exact hlost (hcomplete sorts hsorts _ events hevents)
  · intro htogether sorts hsorts faults events hevents
    exact fetchAllEvents_perm htogether hcount hsorts hevents

namespace Walkthrough

def servedVault : Db.Contract where
  id := 1
  address := "B62qVault"
  parent := none
  ready := true
  permissionsVerified := true
  discoveredAtBlock := some 5
  synced := true

def storedEvent (id blockHeight createdAt : ℕ) (eventType : String) : StoredEvent where
  id := id
  contractId := some 1
  blockHeight := blockHeight
  txHash := some "5Ju"
  eventType := eventType
  payload := "{}"
  fingerprint := decimal id
  applyError := none
  createdAt := createdAt

/-- A proposal and its first approval, written together. -/
def oldestEvents : List StoredEvent :=
  [storedEvent 1 5 1000 "proposal", storedEvent 2 5 1000 "approval"]

/-- Later events, no two at the same time. -/
def laterEvents (n : ℕ) : List StoredEvent :=
  (List.range n).map fun i ↦ storedEvent (i + 3) (i + 6) (i + 1001) "execution"

/-- A vault with `n` later events. -/
def eventHistory (n : ℕ) : EventStore := ⟨[servedVault], oldestEvents ++ laterEvents n⟩

theorem eventHistory_served (n : ℕ) : (eventHistory n).Served "B62qVault" :=
  ⟨servedVault, rfl, rfl, rfl⟩

theorem history_eventHistory (n : ℕ) :
    (eventHistory n).history "B62qVault" none = oldestEvents ++ laterEvents n := by
  have hmatching : (eventHistory n).matching 1 none none = oldestEvents ++ laterEvents n := by
    refine List.filter_eq_self.mpr fun event hevent ↦ ?_
    rcases List.mem_append.mp hevent with hevent | hevent
    · rcases List.mem_pair.mp hevent with rfl | rfl
      · rfl
      · rfl
    · obtain ⟨i, -, rfl⟩ := List.mem_map.mp hevent
      rfl
  exact hmatching

theorem length_history {n : ℕ} (hn : n ≤ 49998) :
    ((eventHistory n).history "B62qVault" none).length ≤ 50000 := by
  have htwo : oldestEvents.length = 2 := rfl
  rw [history_eventHistory, laterEvents, List.length_append, List.length_map, List.length_range,
    htwo]
  omega

theorem orderKey_lt_of_later {n : ℕ} {event : StoredEvent} (h : event ∈ laterEvents n) :
    toLex (5, 1000) < event.orderKey := by
  obtain ⟨i, -, rfl⟩ := List.mem_map.mp h
  exact Prod.Lex.toLex_lt_toLex.mpr (.inl (Nat.lt_add_left i (by decide)))

/-- The two oldest events come after the later ones. -/
theorem firstPlace_oldest (n : ℕ) :
    firstPlace StoredEvent.orderKey (oldestEvents ++ laterEvents n) (toLex (5, 1000)) = n := by
  have hlater : (laterEvents n).countP (fun event ↦ toLex (5, 1000) < event.orderKey) = n := by
    rw [List.countP_eq_length.mpr fun event hevent ↦ decide_eq_true (orderKey_lt_of_later hevent),
      laterEvents, List.length_map, List.length_range]
  have hzero : oldestEvents.countP (fun event ↦ toLex (5, 1000) < event.orderKey) = 0 := rfl
  rw [firstPlace, List.countP_append, hlater, hzero, Nat.zero_add]

theorem endPlace_oldest (n : ℕ) :
    endPlace StoredEvent.orderKey (oldestEvents ++ laterEvents n) (toLex (5, 1000)) = n + 2 := by
  have htied : ((oldestEvents ++ laterEvents n).filter fun event ↦
      event.orderKey = toLex (5, 1000)) = oldestEvents := by
    have hlater : ((laterEvents n).filter fun event ↦
        event.orderKey = toLex (5, 1000)) = [] := by
      refine List.filter_eq_nil_iff.mpr fun event hevent ↦ ?_
      rw [decide_eq_true_eq]
      exact (orderKey_lt_of_later hevent).ne'
    rw [List.filter_append, hlater, List.append_nil]
    rfl
  rw [endPlace_eq, firstPlace_oldest, htied]
  rfl

/-- Behind a full page of later events the two oldest are on the second page. -/
theorem oldest_together (safeParseJson : String → Payload) :
    TiesTogether StoredEvent.orderKey (StoredEvent.toIndexed safeParseJson)
      (oldestEvents ++ laterEvents 500) eventsPageLimit := by
  intro x hx
  rcases List.mem_append.mp hx with hx | hx
  · have hkey : x.orderKey = toLex (5, 1000) := by
      rcases List.mem_pair.mp hx with rfl | rfl
      · rfl
      · rfl
    rw [hkey, firstPlace_oldest, endPlace_oldest]
    exact .inl (by decide)
  · -- no event is tied with a later one
    refine .inr fun y hy hkey ↦ ?_
    rcases List.mem_append.mp hy with hy | hy
    · have hlt := orderKey_lt_of_later hx
      rcases List.mem_pair.mp hy with rfl | rfl
      · exact absurd hkey hlt.ne
      · exact absurd hkey hlt.ne
    · obtain ⟨i, -, rfl⟩ := List.mem_map.mp hx
      obtain ⟨j, -, rfl⟩ := List.mem_map.mp hy
      have hheight : j + 6 = i + 6 := congrArg Prod.fst (toLex.injective hkey)
      rw [Nat.add_right_cancel hheight]

theorem two_pages_read :
    ((eventHistory 500).history "B62qVault" none).length ≤ 50000 ∧
      ∀ sorts, OrdersRows sorts → ∀ faults events,
        fetchAllEvents (fun _ ↦ []) ((eventHistory 500).reply sorts faults "B62qVault" none) =
          .ok events →
        events.Perm ((oldestEvents ++ laterEvents 500).map
          (StoredEvent.toIndexed fun _ ↦ [])) := by
  have hcount := length_history (by decide : 500 ≤ 49998)
  refine ⟨hcount, ?_⟩
  rw [← history_eventHistory]
  refine (all_events_fetched_iff _ "B62qVault" none _ hcount).mpr fun _ ↦ ?_
  rw [history_eventHistory]
  exact oldest_together _

/-- With one event less the first page ends between them. -/
theorem oldest_torn (safeParseJson : String → Payload) :
    ¬ TiesTogether StoredEvent.orderKey (StoredEvent.toIndexed safeParseJson)
      (oldestEvents ++ laterEvents 499) eventsPageLimit := by
  intro htogether
  rcases htogether (storedEvent 1 5 1000 "proposal") List.mem_cons_self with hplace | halike
  · have hkey : (storedEvent 1 5 1000 "proposal").orderKey = toLex (5, 1000) := rfl
    rw [hkey, firstPlace_oldest, endPlace_oldest] at hplace
    exact absurd hplace (by decide)
  · have hmem : storedEvent 2 5 1000 "approval" ∈ oldestEvents ++ laterEvents 499 :=
      List.mem_cons_of_mem _ List.mem_cons_self
    have hsame := halike _ hmem rfl
    have htype : "approval" = "proposal" := congrArg IndexedEvent.eventType hsame
    revert htype
    decide

theorem oldest_event_lost :
    ((eventHistory 499).history "B62qVault" none).length ≤ 50000 ∧
      ∃ sorts events, OrdersRows sorts ∧ fetchAllEvents (fun _ ↦ [])
          ((eventHistory 499).reply sorts (fun _ ↦ none) "B62qVault" none) = .ok events ∧
        ¬ events.Perm (((eventHistory 499).history "B62qVault" none).map
          (StoredEvent.toIndexed fun _ ↦ [])) := by
  have hcount := length_history (by decide : 499 ≤ 49998)
  refine ⟨hcount, exists_orders_incomplete (eventHistory_served 499) hcount ?_⟩
  rw [history_eventHistory]
  exact oldest_torn _

end Walkthrough

end MinaGuard
