import MinaGuard.Indexer.ContractRows

/-!
# What the indexer's programs promise each other

Every atomic step of a sync or a tick has one of few effects on the database:
it records and applies an event that it fetched, it records the failure of one,
it moves the cursor, or it changes nothing that is derived from events.  A
program may rely on rows never disappearing, and a tick on the cursor staying
where it is.  From that
alone a sync that returns has a row for every event it fetched, whoever wrote
the row, and a tick moves the cursor only when its syncs have returned.
-/

namespace MinaGuard

open Foundations IndexerProgram

/-- The event is recorded for the contract at this address. -/
def Database.Recorded (db : Database) (address : String) (e : ChainEvent) : Prop :=
  db.isRecorded (fingerprintEvent address e) = true

/-- The contract has a row with this id and address. -/
def Database.HasContract (db : Database) (contractId : ℕ) (address : String) : Prop :=
  ∃ c ∈ db.contracts, c.id = contractId ∧ c.address = address

/-- No row of the event log disappears or changes, and contracts keep their rows. -/
structure Database.Grows (db db' : Database) : Prop where
  eventRaws : ∃ rows, db'.eventRaws = db.eventRaws ++ rows
  contracts {contractId : ℕ} {address : String} :
    db.HasContract contractId address → db'.HasContract contractId address

/-- Identity and parent link of a contract row. -/
def Db.Contract.link (c : Db.Contract) : ℕ × String × Option String :=
  (c.id, c.address, c.parent)

/-- Nothing derived from events changes.  A new contract row has no parent. -/
structure Database.Untouched (db db' : Database) : Prop where
  contractConfigs : db'.contractConfigs = db.contractConfigs
  ownerMemberships : db'.ownerMemberships = db.ownerMemberships
  proposals : db'.proposals = db.proposals
  proposalReceivers : db'.proposalReceivers = db.proposalReceivers
  approvals : db'.approvals = db.approvals
  proposalExecutions : db'.proposalExecutions = db.proposalExecutions
  contracts : ∃ new, db'.contracts.map Db.Contract.link =
    db.contracts.map Db.Contract.link ++ new ∧ ∀ x ∈ new, x.2.2 = none

/-- The program has fetched the event for the contract, and it has this place in the
order of application.  A tick asks for the contracts that have a row. -/
structure Fetched (slot : Slot) (tr : List Mark) (db : Database) (contractId : ℕ)
    (address : String) (x : ChainEvent × ℕ) : Prop where
  fetched : ∃ events, .fetched contractId address events ∈ tr ∧
    x ∈ (orderEventsForApply (reverseEventsWithinEachTx events)).zipIdx
  contract : slot = .tick → db.HasContract contractId address

section Effects

variable {E : Env} (lib : Backend E) (config : BackendConfig) (slot : Slot)

/-- What a step that leaves this mark does to the database, after the marks `tr`. -/
def Effect (tr : List Mark) (l : Option Mark) (db db' : Database) : Prop :=
  match l with
  | some (.applied fingerprint) => ∃ contractId address chainEvent eventOrder setupFallback,
      Fetched slot tr db contractId address (chainEvent, eventOrder) ∧
        chainEvent.decodeError = none ∧ fingerprint = fingerprintEvent address chainEvent ∧
        recordAndApply lib config db contractId chainEvent eventOrder fingerprint
          setupFallback = .ok db'
  | some (.recorded fingerprint) => ∃ contractId address chainEvent eventOrder reason id,
      Fetched slot tr db contractId address (chainEvent, eventOrder) ∧
        fingerprint = fingerprintEvent address chainEvent ∧
        recordEvent db contractId chainEvent fingerprint (some reason) = .ok (id, db')
  | some (.advanced _ toHeight) => db' = { db with indexedHeight := some toHeight }
  | some (.fetched _ _ _) => db' = db
  | some (.synced _ _) => db' = db
  | none => db'.eventRaws = db.eventRaws ∧ db'.blockHeaders = db.blockHeaders ∧
      db'.indexedHeight = db.indexedHeight ∧ db.Untouched db'

end Effects

namespace Database

variable {db db₁ db₂ : Database} {contractId id : ℕ} {chainEvent : ChainEvent}
  {fingerprint : String} {applyError : Option String}

theorem Grows.refl (db : Database) : Grows db db := ⟨⟨[], (List.append_nil _).symm⟩, id⟩

theorem Grows.trans (h : Grows db db₁) (h' : Grows db₁ db₂) : Grows db db₂ := by
  obtain ⟨rows, hrows⟩ := h.eventRaws
  obtain ⟨rows', hrows'⟩ := h'.eventRaws
  exact ⟨⟨rows ++ rows', by rw [hrows', hrows, List.append_assoc]⟩,
    fun hhas ↦ h'.contracts (h.contracts hhas)⟩

theorem isRecorded_of_append {rows : List Db.EventRaw}
    (hrows : db₁.eventRaws = db.eventRaws ++ rows) (hrec : db.isRecorded fingerprint = true) :
    db₁.isRecorded fingerprint = true := by
  rw [isRecorded_iff] at hrec ⊢
  rw [hrows, List.map_append]
  exact List.mem_append_left _ hrec

theorem Grows.isRecorded (h : Grows db db₁) (hrec : db.isRecorded fingerprint = true) :
    db₁.isRecorded fingerprint = true := by
  obtain ⟨rows, hrows⟩ := h.eventRaws
  exact isRecorded_of_append hrows hrec

theorem Keeps.hasContract {touched : ℕ → Prop} {address : String} (h : Keeps touched db db₁)
    (hhas : db.HasContract contractId address) : db₁.HasContract contractId address := by
  obtain ⟨c, hc, rfl, rfl⟩ := hhas
  obtain ⟨c', hc', hevolves⟩ := h.row hc
  exact ⟨c', hc', hevolves.id, hevolves.address⟩

theorem Untouched.hasContract {address : String} (h : Untouched db db₁)
    (hhas : db.HasContract contractId address) : db₁.HasContract contractId address := by
  obtain ⟨c, hc, rfl, rfl⟩ := hhas
  obtain ⟨new, hlinks, -⟩ := h.contracts
  have hmem : c.link ∈ db₁.contracts.map Db.Contract.link := by
    rw [hlinks]
    exact List.mem_append_left _ (List.mem_map_of_mem hc)
  obtain ⟨c', hc', hlink⟩ := List.mem_map.mp hmem
  exact ⟨c', hc', congrArg Prod.fst hlink, congrArg (Prod.fst ∘ Prod.snd) hlink⟩

theorem Untouched.refl (db : Database) : Untouched db db where
  contractConfigs := rfl
  ownerMemberships := rfl
  proposals := rfl
  proposalReceivers := rfl
  approvals := rfl
  proposalExecutions := rfl
  contracts := ⟨[], (List.append_nil _).symm, fun _ hx ↦ absurd hx List.not_mem_nil⟩

end Database

/-- What recording writes: one row, under a fingerprint that was free, and a
header only at the event's height. -/
theorem recordEvent_ok {db db' : Database} {contractId id : ℕ} {chainEvent : ChainEvent}
    {fingerprint : String} {applyError : Option String}
    (h : recordEvent db contractId chainEvent fingerprint applyError = .ok (id, db')) :
    db.isRecorded fingerprint = false ∧ db.Untouched db' ∧
      db'.indexedHeight = db.indexedHeight ∧
      (∃ row, db'.eventRaws = db.eventRaws ++ [row] ∧ row.fingerprint = fingerprint ∧
        row.applyError = applyError) ∧
      ∃ headers, db'.blockHeaders = db.blockHeaders ++ headers ∧
        ∀ x ∈ headers, x.height = chainEvent.blockHeight := by
  unfold recordEvent at h
  dsimp only at h
  split at h
  · cases h
  next hfree =>
    cases h
    refine ⟨Bool.eq_false_iff.mpr hfree, ⟨rfl, rfl, rfl, rfl, rfl, rfl, ?_⟩, rfl,
      ⟨_, rfl, rfl, rfl⟩, ?_⟩
    · exact ⟨[], (List.append_nil _).symm, fun _ hx ↦ absurd hx List.not_mem_nil⟩
    · split
      · exact ⟨[], (List.append_nil _).symm, fun _ hx ↦ absurd hx List.not_mem_nil⟩
      · refine ⟨_, rfl, fun x hx ↦ ?_⟩
        rw [List.mem_singleton.mp hx]

section Effects

variable {E : Env} {lib : Backend E} {config : BackendConfig} {slot : Slot}
  {tr : List Mark} {db db' : Database} {contractId eventOrder : ℕ} {chainEvent : ChainEvent}
  {fingerprint : String} {setupFallback : Option OnChainState} {l : Option Mark}

/-- The record and the state changes are one transaction. -/
theorem recordAndApply_ok
    (h : recordAndApply lib config db contractId chainEvent eventOrder fingerprint
      setupFallback = .ok db') :
    db.isRecorded fingerprint = false ∧ db'.indexedHeight = db.indexedHeight ∧
      ∃ row, db'.eventRaws = db.eventRaws ++ [row] ∧ row.fingerprint = fingerprint ∧
        row.applyError = none := by
  unfold recordAndApply at h
  obtain ⟨⟨id, db₁⟩, hrecord, happly⟩ := except_bind_ok h
  obtain ⟨hfree, -, hcursor, ⟨row, hrows, hfp, herror⟩, -⟩ := recordEvent_ok hrecord
  have hsame := applyEvent_sameRecord happly
  exact ⟨hfree, hsame.indexedHeight.trans hcursor, row,
    hsame.eventRaws.trans hrows, hfp, herror⟩

theorem updateContract_effect {f : Db.Contract → Db.Contract} (hf : ∀ x, (f x).link = x.link)
    (h : db.updateContract contractId f = .ok db') : Effect lib config slot tr none db db' := by
  rw [updateContract_ok h]
  refine ⟨rfl, rfl, rfl, rfl, rfl, rfl, rfl, rfl, rfl, [], ?_, fun _ hx ↦ absurd hx
    List.not_mem_nil⟩
  rw [List.append_nil, List.map_map]
  apply List.map_congr_left
  intro x _
  rw [Function.comp_apply]
  split
  · exact hf x
  · rfl

theorem createContract_effect {address : String} {verified : Bool}
    {discoveredAtBlock : Option ℕ} {id : ℕ}
    (h : db.createContract address none verified discoveredAtBlock = .ok (id, db')) :
    Effect lib config slot tr none db db' := by
  obtain ⟨-, -, rfl⟩ := createContract_ok h
  refine ⟨rfl, rfl, rfl, rfl, rfl, rfl, rfl, rfl, rfl, [_], List.map_append, ?_⟩
  intro x hx
  rw [List.mem_singleton.mp hx]
  rfl

theorem Effect.grows (h : Effect lib config slot tr l db db') : db.Grows db' := by
  unfold Effect at h
  split at h
  · obtain ⟨_, _, _, _, _, -, -, -, happly⟩ := h
    obtain ⟨-, -, row, hrows, -⟩ := recordAndApply_ok happly
    have hkeeps : db.Keeps (fun _ ↦ False) db' := recordAndApply_keeps happly
    exact ⟨⟨[row], hrows⟩, hkeeps.hasContract⟩
  · obtain ⟨_, _, _, _, _, _, -, -, hrecord⟩ := h
    obtain ⟨-, huntouched, -, ⟨row, hrows, -⟩, -⟩ := recordEvent_ok hrecord
    exact ⟨⟨[row], hrows⟩, huntouched.hasContract⟩
  · rw [h]
    exact ⟨⟨[], (List.append_nil _).symm⟩, id⟩
  · rw [h]
    exact .refl db
  · rw [h]
    exact .refl db
  · exact ⟨⟨[], by rw [h.1, List.append_nil]⟩, h.2.2.2.hasContract⟩

/-- Only an advance moves the cursor. -/
theorem Effect.indexedHeight (h : Effect lib config slot tr l db db')
    (hl : ∀ c t, l ≠ some (.advanced c t)) : db'.indexedHeight = db.indexedHeight := by
  unfold Effect at h
  split at h
  · obtain ⟨_, _, _, _, _, -, -, -, happly⟩ := h
    exact (recordAndApply_ok happly).2.1
  · obtain ⟨_, _, _, _, _, _, -, -, hrecord⟩ := h
    exact (recordEvent_ok hrecord).2.2.1
  · exact absurd rfl (hl _ _)
  · rw [h]
  · rw [h]
  · exact h.2.2.1

end Effects

/-! ## Promises -/

section Promises

variable {E : Env} (lib : Backend E) (config : BackendConfig) (slot : Slot)

/-- The cursor, or where it starts. -/
def cursor (db : Database) : ℕ := db.indexedHeight.getD config.indexStartHeight

/-- Every event fetched so far above height `c` is recorded, apart from the
`pending` ones. -/
def Covered (c : ℕ) (pending : String → ChainEvent → Prop) (tr : List Mark) (db : Database) :
    Prop :=
  ∀ contractId address events, .fetched contractId address events ∈ tr →
    ∀ e ∈ events, c < e.blockHeight → db.Recorded address e ∨ pending address e

/-- No event is pending. -/
def nothing : String → ChainEvent → Prop := fun _ _ ↦ False

/-- What a step promises: its effect, a row for every event of a sync that
returns, and a cursor that moves past recorded events only. -/
def Promise (tr : List Mark) (l : Option Mark) (s s' : IndexerState) : Prop :=
  Effect lib config slot tr l s.db s'.db ∧
    (∀ address events, l = some (.synced address events) →
      ∀ e ∈ events, s.db.Recorded address e) ∧
    ∀ c t, l = some (.advanced c t) → slot = .tick ∧ c = cursor config s.db ∧
      Covered c nothing tr s.db

/-- What a program may rely on. -/
def Rely (s s' : IndexerState) : Prop :=
  s.db.Grows s'.db ∧ (slot = .tick → s'.db.indexedHeight = s.db.indexedHeight)

/-- A step without obligations beyond its effect. -/
def isPlain (l : Option Mark) : Prop :=
  (∀ address events, l ≠ some (.synced address events)) ∧ ∀ c t, l ≠ some (.advanced c t)

/-- What a program may have learnt, and nobody changes. -/
inductive Fact where
  | recorded (fingerprint : String)
  | contract (contractId : ℕ) (address : String)
  | fetched (contractId : ℕ) (address : String) (events : List ChainEvent)

def Fact.Holds (tr : List Mark) (db : Database) : Fact → Prop
  | recorded fingerprint => db.isRecorded fingerprint = true
  | contract contractId address => db.HasContract contractId address
  | fetched contractId address events => .fetched contractId address events ∈ tr

/-- What holds between two steps of a program: coverage, the facts that it knows, and
in a tick the cursor it has read. -/
structure Between (c : ℕ) (pending : String → ChainEvent → Prop) (known : List Fact)
    (tr : List Mark) (s : IndexerState) : Prop where
  covered : Covered c pending tr s.db
  known : ∀ fact ∈ known, fact.Holds tr s.db
  cursor_eq : slot = .tick → cursor config s.db = c

variable {lib config slot}

theorem Promise.of_plain {tr : List Mark} {l : Option Mark} {s s' : IndexerState}
    (hplain : isPlain l) (h : Effect lib config slot tr l s.db s'.db) :
    Promise lib config slot tr l s s' :=
  ⟨h, fun _ _ hl ↦ absurd hl (hplain.1 _ _), fun _ _ hl ↦ absurd hl (hplain.2 _ _)⟩

theorem effect_none_refl (tr : List Mark) (db : Database) :
    Effect lib config slot tr none db db :=
  ⟨rfl, rfl, rfl, .refl db⟩

theorem Rely.refl (s : IndexerState) : Rely slot s s := ⟨.refl s.db, fun _ ↦ rfl⟩

theorem Rely.trans {s₁ s₂ s₃ : IndexerState} (h : Rely slot s₁ s₂) (h' : Rely slot s₂ s₃) :
    Rely slot s₁ s₃ :=
  ⟨h.1.trans h'.1, fun hslot ↦ (h'.2 hslot).trans (h.2 hslot)⟩

/-- What one program promises is what the others rely on. -/
theorem Promise.rely {i j : Slot} {tr : List Mark} {l : Option Mark} {s s' : IndexerState}
    (hij : i ≠ j) (h : Promise lib config i tr l s s') : Rely j s s' := by
  refine ⟨h.1.grows, fun hj ↦ h.1.indexedHeight fun c t hl ↦ ?_⟩
  obtain ⟨hi, -⟩ := h.2.2 c t hl
  exact hij (hi.trans hj.symm)

variable {c : ℕ} {pending : String → ChainEvent → Prop} {known : List Fact} {tr : List Mark}
  {s s' : IndexerState}

theorem Fact.Holds.rely {fact : Fact} (h : fact.Holds tr s.db) (hR : Rely slot s s') :
    fact.Holds tr s'.db := by
  cases fact with
  | recorded fingerprint => exact hR.1.isRecorded h
  | contract contractId address => exact hR.1.contracts h
  | fetched contractId address events => exact h

theorem Fact.Holds.mark {fact : Fact} {db : Database} (h : fact.Holds tr db) (m : Mark) :
    fact.Holds (tr ++ [m]) db := by
  cases fact with
  | recorded fingerprint => exact h
  | contract contractId address => exact h
  | fetched contractId address events => exact List.mem_append_left _ h

theorem Between.rely (h : Between config slot c pending known tr s) (hR : Rely slot s s') :
    Between config slot c pending known tr s' where
  covered := fun contractId address events hmem e he hc ↦
    (h.covered contractId address events hmem e he hc).imp_left hR.1.isRecorded
  known := fun fact hfact ↦ (h.known fact hfact).rely hR
  cursor_eq := fun hslot ↦ by
    rw [← h.cursor_eq hslot]
    unfold cursor
    rw [hR.2 hslot]

/-- A mark that is no fetch asks for nothing. -/
theorem Between.mark {m : Mark}
    (hm : ∀ contractId address events, m ≠ .fetched contractId address events)
    (h : Between config slot c pending known tr s) :
    Between config slot c pending known (tr ++ [m]) s where
  covered := by
    intro contractId address events hmem e he hc
    rcases List.mem_append.mp hmem with hmem | hmem
    · exact h.covered contractId address events hmem e he hc
    · exact absurd (List.mem_singleton.mp hmem).symm (hm contractId address events)
  known := fun fact hfact ↦ (h.known fact hfact).mark m
  cursor_eq := h.cursor_eq

/-- Another fact. -/
theorem Between.cons (fact : Fact) (h : Between config slot c pending known tr s)
    (hfact : fact.Holds tr s.db) : Between config slot c pending (fact :: known) tr s where
  covered := h.covered
  known := List.forall_mem_cons.mpr ⟨hfact, h.known⟩
  cursor_eq := h.cursor_eq

theorem Between.subset {less : List Fact} (h : Between config slot c pending known tr s)
    (hsub : less ⊆ known) : Between config slot c pending less tr s where
  covered := h.covered
  known := fun fact hfact ↦ h.known fact (hsub hfact)
  cursor_eq := h.cursor_eq

theorem Effect.keeps {l : Option Mark} (hl : ∀ c t, l ≠ some (.advanced c t))
    (h : Effect lib config slot tr l s.db s'.db) : Rely slot s s' :=
  ⟨h.grows, fun _ ↦ h.indexedHeight hl⟩

variable {α : Type} {Q : List Mark → IndexerState → Except Thrown α → Prop}

variable (lib config slot) in
/-- The program keeps its promises, and ends in `Q` if it ends. -/
abbrev Ensures (p : IndexerProgram α) (Q : List Mark → IndexerState → Except Thrown α → Prop)
    (tr : List Mark) (s : IndexerState) : Prop :=
  p.Meets (Rely slot) (Promise lib config slot) Q tr s

theorem ensures_request (h : ∀ s₁, Rely slot s s₁ → ∀ r, Q tr s₁ r) :
    Ensures lib config slot (request α) Q tr s :=
  Program.Meets.ask h

theorem ensures_query {read : Database → α}
    (h : ∀ s₁, Rely slot s s₁ → Q tr s₁ (.ok (read s₁.db)) ∧ ∀ e, Q tr s₁ (.error e)) :
    Ensures lib config slot (query read) Q tr s := by
  apply Program.Meets.transaction
  intro s₁ hR
  obtain ⟨hok, herror⟩ := h s₁ hR
  refine ⟨?_, herror⟩
  intro a s₂ hbody
  cases hbody
  rw [Option.toList_none, List.append_nil]
  exact ⟨.of_plain ⟨nofun, nofun⟩ (effect_none_refl _ _), hok, herror⟩

/-- A plain write keeps what holds between steps. -/
theorem ensures_transact {label : Option Mark} {body : Database → Except Thrown (α × Database)}
    (hplain : isPlain label)
    (hfetched : ∀ contractId address events, label ≠ some (.fetched contractId address events))
    (heffect : ∀ s, Between config slot c pending known tr s → ∀ a db',
      body s.db = .ok (a, db') → Effect lib config slot tr label s.db db')
    (hI : Between config slot c pending known tr s)
    (h : ∀ tr' s', Between config slot c pending known tr' s' →
      (∀ a db, body db = .ok (a, s'.db) → Q tr' s' (.ok a)) ∧ ∀ e, Q tr' s' (.error e)) :
    Ensures lib config slot (transact label body) Q tr s := by
  apply Program.Meets.transaction
  intro s₁ hR
  have hI₁ := hI.rely hR
  refine ⟨?_, (h tr s₁ hI₁).2⟩
  intro a s₂ hbody
  cases hdb : body s₁.db with
  | error e =>
      simp only [hdb, Except.map] at hbody
      cases hbody
  | ok r =>
      simp only [hdb, Except.map, Except.ok.injEq, Prod.mk.injEq] at hbody
      obtain ⟨rfl, rfl⟩ := hbody
      have heff := heffect s₁ hI₁ r.1 r.2 hdb
      have hI₂ : Between config slot c pending known (tr ++ label.toList)
          { s₁ with db := r.2 } := by
        have heff₁ : Effect lib config slot tr label s₁.db
            ({ s₁ with db := r.2 } : IndexerState).db := heff
        have hkept : Between config slot c pending known tr { s₁ with db := r.2 } :=
          hI₁.rely (heff₁.keeps hplain.2)
        cases label with
        | none =>
            rw [Option.toList_none, List.append_nil]
            exact hkept
        | some m =>
            exact hkept.mark fun contractId address events hm ↦
              hfetched contractId address events (hm ▸ rfl)
      obtain ⟨hok, herror⟩ := h _ _ hI₂
      exact ⟨.of_plain hplain heff, hok r.1 s₁.db hdb, herror⟩

theorem ensures_scans
    {f : InsertionMap ℕ FirstScan → α × InsertionMap ℕ FirstScan}
    (hI : Between config slot c pending known tr s)
    (h : ∀ s' a, Between config slot c pending known tr s' → Q tr s' (.ok a)) :
    Ensures lib config slot (scans f) Q tr s := by
  apply Program.Meets.memory
  intro s₁ hR
  exact ⟨.of_plain ⟨nofun, nofun⟩ (effect_none_refl _ _), h _ _
    ⟨(hI.rely hR).1, (hI.rely hR).2, (hI.rely hR).3⟩⟩

theorem ensures_execute {label : Option Mark} {body : Database → Except Thrown Database}
    {Q : List Mark → IndexerState → Except Thrown Unit → Prop} (hplain : isPlain label)
    (hfetched : ∀ contractId address events, label ≠ some (.fetched contractId address events))
    (heffect : ∀ s, Between config slot c pending known tr s → ∀ db',
      body s.db = .ok db' → Effect lib config slot tr label s.db db')
    (hI : Between config slot c pending known tr s)
    (h : ∀ tr' s', Between config slot c pending known tr' s' →
      (∀ db, body db = .ok s'.db → Q tr' s' (.ok ())) ∧ ∀ e, Q tr' s' (.error e)) :
    Ensures lib config slot (execute label body) Q tr s := by
  have hmap {db db' : Database} {u : Unit}
      (hbody : (body db).map (fun db ↦ ((), db)) = .ok (u, db')) : body db = .ok db' := by
    cases hdb : body db with
    | error e =>
        rw [hdb] at hbody
        cases hbody
    | ok db₁ =>
        rw [hdb] at hbody
        cases hbody
        rfl
  refine ensures_transact hplain hfetched
    (fun s hs _ db' hbody ↦ heffect s hs db' (hmap hbody)) hI ?_
  intro tr' s' hI'
  obtain ⟨hok, herror⟩ := h tr' s' hI'
  exact ⟨fun _ db hbody ↦ hok db (hmap hbody), herror⟩

/-! ## Ingesting one event -/

variable {contractId eventOrder : ℕ} {address fingerprint reason : String}
  {chainEvent : ChainEvent}

/-- What a program knows when it ingests an event. -/
structure Offers (slot : Slot) (known : List Fact) (contractId : ℕ) (address : String)
    (x : ChainEvent × ℕ) : Prop where
  fetched : ∃ events, .fetched contractId address events ∈ known ∧
    x ∈ (orderEventsForApply (reverseEventsWithinEachTx events)).zipIdx
  contract : slot = .tick → .contract contractId address ∈ known

theorem Offers.mono {x : ChainEvent × ℕ} {more : List Fact}
    (h : Offers slot known contractId address x) (hsub : known ⊆ more) :
    Offers slot more contractId address x where
  fetched := by
    obtain ⟨events, hmem, hx⟩ := h.fetched
    exact ⟨events, hsub hmem, hx⟩
  contract := fun hslot ↦ hsub (h.contract hslot)

theorem Offers.holds {x : ChainEvent × ℕ} (h : Offers slot known contractId address x)
    (hI : Between config slot c pending known tr s) :
    Fetched slot tr s.db contractId address x where
  fetched := by
    obtain ⟨events, hmem, hx⟩ := h.fetched
    exact ⟨events, hI.known _ hmem, hx⟩
  contract := fun hslot ↦ hI.known _ (h.contract hslot)

variable (config slot c pending known) in
/-- The end of a program that leaves a row under the fingerprint, unless it
throws. -/
def LeavesRow (fingerprint : String) (tr : List Mark) (s : IndexerState)
    (r : Except Thrown α) : Prop :=
  Between config slot c pending known tr s ∧ ∀ a, r = .ok a → s.db.isRecorded fingerprint = true

/-- After a failed transaction: a row that is there counts as written. -/
theorem leavesRow_recheck {p : IndexerProgram Outcome}
    (hI : Between config slot c pending known tr s)
    (hp : ∀ s₁, Between config slot c pending known tr s₁ →
      Ensures lib config slot p (LeavesRow config slot c pending known fingerprint) tr s₁) :
    Ensures lib config slot
      (do if ← query fun db ↦ db.isRecorded fingerprint then pure .duplicate else p)
      (LeavesRow config slot c pending known fingerprint) tr s := by
  apply Program.Meets.bind
  apply ensures_query
  intro s₁ hR
  refine ⟨?_, fun _ ↦ ⟨hI.rely hR, nofun⟩⟩
  dsimp only
  split
  next hrec => exact ⟨hI.rely hR, fun _ _ ↦ hrec⟩
  next => exact hp s₁ (hI.rely hR)

section Event

variable (hoffers : Offers slot known contractId address (chainEvent, eventOrder))
  (hfingerprint : fingerprint = fingerprintEvent address chainEvent)

include hoffers hfingerprint

theorem recordFailedEvent_ensures (hI : Between config slot c pending known tr s) :
    Ensures lib config slot (recordFailedEvent contractId chainEvent fingerprint reason)
      (LeavesRow config slot c pending known fingerprint) tr s := by
  unfold recordFailedEvent
  apply Program.Meets.tryCatch
  apply Program.Meets.bind
  refine ensures_transact ⟨nofun, nofun⟩ nofun (fun s hs id db' hbody ↦
    ⟨contractId, address, chainEvent, eventOrder, reason, id, hoffers.holds hs, hfingerprint,
      hbody⟩) hI ?_
  intro tr' s' hI'
  refine ⟨?_, ?_⟩
  · intro id db hbody
    obtain ⟨-, -, -, ⟨row, hrows, hfp, -⟩, -⟩ := recordEvent_ok hbody
    refine ⟨hI', fun _ _ ↦ ?_⟩
    rw [Database.isRecorded_iff, hrows, List.map_append]
    exact List.mem_append_right _ (by simp [hfp])
  · intro e
    apply leavesRow_recheck hI'
    intro s₁ hI₁
    exact ⟨hI₁, nofun⟩

theorem ingestAttempts_ensures {attempts : ℕ} {setupFallback : Option OnChainState}
    {error : Thrown} (hdecode : chainEvent.decodeError = none)
    (hI : Between config slot c pending known tr s) :
    Ensures lib config slot
      (ingestAttempts lib config contractId chainEvent eventOrder fingerprint setupFallback
        attempts error)
      (LeavesRow config slot c pending known fingerprint) tr s := by
  induction attempts generalizing tr s error with
  | zero => exact recordFailedEvent_ensures hoffers hfingerprint hI
  | succ attempts ih =>
      unfold ingestAttempts
      apply Program.Meets.tryCatch
      apply Program.Meets.bind
      refine ensures_execute ⟨nofun, nofun⟩ nofun (fun s hs db' hbody ↦
        ⟨contractId, address, chainEvent, eventOrder, setupFallback, hoffers.holds hs, hdecode,
          hfingerprint, hbody⟩) hI ?_
      intro tr' s' hI'
      refine ⟨?_, ?_⟩
      · intro db hbody
        obtain ⟨-, -, row, hrows, hfp, -⟩ := recordAndApply_ok hbody
        refine ⟨hI', fun _ _ ↦ ?_⟩
        rw [Database.isRecorded_iff, hrows, List.map_append]
        exact List.mem_append_right _ (by simp [hfp])
      · intro e
        apply leavesRow_recheck hI'
        intro s₁ hI₁
        split
        · exact ⟨hI₁, nofun⟩
        · exact ih hI₁

theorem ingestEvent_ensures {setupFallback : Option OnChainState}
    (hI : Between config slot c pending known tr s) :
    Ensures lib config slot
      (ingestEvent lib config contractId chainEvent eventOrder fingerprint setupFallback)
      (LeavesRow config slot c pending known fingerprint) tr s := by
  unfold ingestEvent
  split
  · exact recordFailedEvent_ensures hoffers hfingerprint hI
  · next hdecode => exact ingestAttempts_ensures hoffers hfingerprint hdecode hI

end Event

theorem fetchSetupFallback_ensures (hI : Between config slot c pending known tr s) :
    Ensures lib config slot (fetchSetupFallback contractId)
      (fun tr s _ ↦ Between config slot c pending known tr s) tr s := by
  unfold fetchSetupFallback
  apply Program.Meets.bind
  apply ensures_query
  intro s₁ hR
  refine ⟨?_, fun e ↦ hI.rely hR⟩
  dsimp only
  split
  · exact hI.rely hR
  · exact ensures_request fun s₂ hR' _ ↦ (hI.rely hR).rely hR'

theorem syncEvent_ensures {ingested : Bool} {x : ChainEvent × ℕ}
    (hoffers : Offers slot known contractId address x)
    (hI : Between config slot c pending known tr s) :
    Ensures lib config slot (syncEvent lib config contractId address ingested x)
      (LeavesRow config slot c pending known (fingerprintEvent address x.1)) tr s := by
  unfold syncEvent
  apply Program.Meets.bind
  apply ensures_query
  intro s₁ hR
  have hI₁ := hI.rely hR
  refine ⟨?_, fun e ↦ ⟨hI₁, nofun⟩⟩
  dsimp only
  split
  next hrec => exact ⟨hI₁, fun _ _ ↦ hrec⟩
  next =>
    have hingest {tr : List Mark} {s : IndexerState} {setupFallback : Option OnChainState}
        (hI : Between config slot c pending known tr s) :
        Ensures lib config slot (do
            let outcome ← ingestEvent lib config contractId x.1 x.2
              (fingerprintEvent address x.1) setupFallback
            pure (ingested || outcome = .applied))
          (LeavesRow config slot c pending known (fingerprintEvent address x.1)) tr s := by
      apply Program.Meets.bind
      refine (ingestEvent_ensures hoffers rfl hI).mono ?_
      intro tr s r hr
      cases r with
      | error e => exact ⟨hr.1, nofun⟩
      | ok outcome => exact ⟨hr.1, fun _ _ ↦ hr.2 outcome rfl⟩
    split
    · apply Program.Meets.bind
      refine (fetchSetupFallback_ensures hI₁).mono ?_
      intro tr s r hr
      cases r with
      | error e => exact ⟨hr, nofun⟩
      | ok setupFallback => exact hingest hr
    · exact Program.Meets.bind (hingest hI₁)

variable {fromHeight toHeight : ℕ}

theorem verifyPermissions_ensures (hI : Between config slot c pending known tr s) :
    Ensures lib config slot (verifyPermissions (.live lib config) contractId address)
      (fun tr s _ ↦ Between config slot c pending known tr s) tr s := by
  have hupdate {f : Db.Contract → Db.Contract} {b : Bool} {tr : List Mark}
      {s : IndexerState} (hf : ∀ x, (f x).link = x.link)
      (hI : Between config slot c pending known tr s) :
      Ensures lib config slot (do
          execute none fun db ↦ db.updateContract contractId f
          pure b)
        (fun tr s _ ↦ Between config slot c pending known tr s) tr s := by
    apply Program.Meets.bind
    refine ensures_execute ⟨nofun, nofun⟩ nofun (fun s hs db' hbody ↦ ?_) hI
      fun tr' s' hI' ↦ ⟨fun _ _ ↦ hI', fun _ ↦ hI'⟩
    exact updateContract_effect hf hbody
  unfold verifyPermissions
  apply Program.Meets.bind
  apply ensures_query
  intro s₁ hR
  have hI₁ := hI.rely hR
  refine ⟨?_, fun _ ↦ hI₁⟩
  dsimp only
  split
  · exact hI₁
  · apply Program.Meets.bind
    apply ensures_request
    intro s₂ hR' r
    have hI₂ := hI₁.rely hR'
    cases r with
    | error e => exact hI₂
    | ok security =>
        dsimp only
        split
        · exact hI₂
        · split
          · exact hupdate (fun _ ↦ rfl) hI₂
          · exact hupdate (fun _ ↦ rfl) hI₂

theorem finishSync_ensures {ingested readyFromStoredEvents : Bool}
    (hI : Between config slot c pending known tr s) :
    Ensures lib config slot (finishSync contractId ingested readyFromStoredEvents)
      (fun tr s _ ↦ Between config slot c pending known tr s) tr s := by
  have hupdate {stored : Bool} {tr : List Mark} {s : IndexerState}
      (hI : Between config slot c pending known tr s) :
      Ensures lib config slot (execute none fun db ↦ db.updateContract contractId fun c ↦
          if ingested || stored then { c with synced := true, ready := true }
          else { c with synced := true })
        (fun tr s _ ↦ Between config slot c pending known tr s) tr s := by
    refine ensures_execute ⟨nofun, nofun⟩ nofun (fun s hs db' hbody ↦ ?_) hI
      fun tr' s' hI' ↦ ⟨fun _ _ ↦ hI', fun _ ↦ hI'⟩
    refine updateContract_effect (fun x ↦ ?_) hbody
    split <;> rfl
  unfold finishSync
  split
  · apply Program.Meets.bind
    apply ensures_query
    intro s₁ hR
    exact ⟨hupdate (hI.rely hR), fun _ ↦ hI.rely hR⟩
  · exact Program.Meets.bind (hupdate hI)

/-- Only blocks of the asked range come back. -/
theorem fetchArchiveEventBlocks_ensures (hI : Between config slot c pending known tr s) :
    Ensures lib config slot (fetchArchiveEventBlocks fromHeight toHeight)
      (fun tr s r ↦ Between config slot c pending known tr s ∧
        ∀ blocks, r = .ok blocks → ∀ block ∈ blocks, block.height ≤ toHeight) tr s := by
  unfold fetchArchiveEventBlocks
  split
  · exact ⟨hI, nofun⟩
  · apply Program.Meets.tryCatch
    refine Program.Meets.foldlM
      (fun _ blocks tr s ↦ Between config slot c pending known tr s ∧
        ∀ block ∈ blocks, block.height ≤ toHeight) ?_ ?_ ⟨hI, nofun⟩
    · rintro front window back hwindows blocks tr s ⟨hI, hblocks⟩
      have hend : window.2 ≤ toHeight + 1 := by
        have hmem : window ∈ queryWindows fromHeight toHeight := by rw [hwindows]; simp
        obtain ⟨i, -, rfl⟩ := List.mem_map.mp hmem
        exact min_le_right _ _
      unfold fetchWindow
      apply Program.Meets.bind
      apply Program.Meets.bind
      apply ensures_request
      intro s₁ hR r
      have hI₁ := hI.rely hR
      cases r with
      | error e => exact ⟨hI₁, nofun⟩
      | ok answer =>
          cases answer with
          | none => exact ⟨hI₁, nofun⟩
          | some events =>
              dsimp only
              split
              · exact ⟨hI₁, nofun⟩
              next hinside =>
                refine ⟨hI₁, fun block hblock ↦ ?_⟩
                rcases List.mem_append.mp hblock with hblock | hblock
                · exact hblocks block hblock
                · by_contra hlt
                  refine hinside (List.any_eq_true.mpr ⟨block, hblock, ?_⟩)
                  exact decide_eq_true (Or.inr (by omega))
    · rintro blocks tr s ⟨hI, hblocks⟩
      refine ⟨hI, fun blocks' hblocks' ↦ ?_⟩
      cases hblocks'
      exact hblocks

theorem fetchDecodedContractEvents_ensures (hI : Between config slot c pending known tr s) :
    Ensures lib config slot (fetchDecodedContractEvents lib address fromHeight toHeight)
      (fun tr s r ↦ Between config slot c pending known tr s ∧
        ∀ events, r = .ok events → ∀ e ∈ events, e.blockHeight ≤ toHeight) tr s := by
  unfold fetchDecodedContractEvents
  apply Program.Meets.bind
  refine (fetchArchiveEventBlocks_ensures hI).mono ?_
  rintro tr s r ⟨hI, hblocks⟩
  cases r with
  | error e => exact ⟨hI, nofun⟩
  | ok blocks =>
      dsimp only
      split
      · exact ⟨hI, nofun⟩
      next events hevents =>
        refine ⟨hI, fun events' heq e he ↦ ?_⟩
        cases heq
        obtain ⟨block, hblock, raw, -, hdecode⟩ := mem_decodeContractEvents hevents he
        rw [decodeContractEvent_blockHeight hdecode]
        exact hblocks blocks rfl block hblock

/-- The fetched events of one sync. -/
def awaiting (address : String) (events : List ChainEvent) : String → ChainEvent → Prop :=
  fun a e ↦ a = address ∧ e ∈ events

/-- Fetching makes the fetched events pending. -/
theorem Between.fetch {events : List ChainEvent} (hI : Between config slot c nothing known tr s) :
    Between config slot c (awaiting address events) (.fetched contractId address events :: known)
      (tr ++ [.fetched contractId address events]) s where
  covered := by
    intro id a es hmem e he hc
    rcases List.mem_append.mp hmem with hmem | hmem
    · exact Or.inl ((hI.covered id a es hmem e he hc).resolve_right False.elim)
    · cases List.mem_singleton.mp hmem
      exact Or.inr ⟨rfl, he⟩
  known := List.forall_mem_cons.mpr ⟨List.mem_append_right _ List.mem_cons_self,
    fun fact hfact ↦ (hI.known fact hfact).mark _⟩
  cursor_eq := hI.cursor_eq

/-- Once they are recorded, or if they lie at or below `c`, none is pending. -/
theorem Between.settle {events : List ChainEvent}
    (hI : Between config slot c (awaiting address events) known tr s)
    (h : ∀ e ∈ events, c < e.blockHeight → s.db.Recorded address e) :
    Between config slot c nothing known tr s where
  covered := by
    intro contractId a es hmem e he hc
    rcases hI.covered contractId a es hmem e he hc with hrec | ⟨rfl, he⟩
    · exact Or.inl hrec
    · exact Or.inl (h e he hc)
  known := hI.known
  cursor_eq := hI.cursor_eq

/-- The events have rows. -/
def recordedFacts (address : String) (xs : List (ChainEvent × ℕ)) : List Fact :=
  xs.map fun x ↦ .recorded (fingerprintEvent address x.1)

theorem Between.learn {front : List (ChainEvent × ℕ)} {x : ChainEvent × ℕ}
    (hI : Between config slot c pending (recordedFacts address front ++ known) tr s)
    (hrec : s.db.Recorded address x.1) :
    Between config slot c pending (recordedFacts address (front ++ [x]) ++ known) tr s := by
  refine (hI.cons (.recorded (fingerprintEvent address x.1)) hrec).subset ?_
  unfold recordedFacts
  rw [List.map_append, List.map_singleton, List.append_assoc, List.singleton_append]
  exact fun fact hfact ↦ List.perm_middle.subset hfact

/-- The loop runs over all fetched events, in another order. -/
theorem Between.recorded_of_loop {rawEvents : List ChainEvent}
    (hI : Between config slot c pending (recordedFacts address
      (orderEventsForApply (reverseEventsWithinEachTx rawEvents)).zipIdx ++ known) tr s) :
    ∀ e ∈ rawEvents, s.db.Recorded address e := by
  intro e he
  refine hI.known (.recorded (fingerprintEvent address e))
    (List.mem_append_left _ (List.mem_map.mpr ?_))
  have hmem : e ∈ (orderEventsForApply (reverseEventsWithinEachTx rawEvents)).zipIdx.map
      Prod.fst := by
    rw [List.zipIdx_map_fst]
    exact mem_orderEventsForApply.mpr (mem_reverseEventsWithinEachTx.mpr he)
  obtain ⟨x, hx, rfl⟩ := List.mem_map.mp hmem
  exact ⟨x, hx, rfl⟩

/-- A sync that ends when all of its events are recorded leaves nothing pending. -/
theorem markSynced_ensures {rawEvents : List ChainEvent} {ingested : Bool}
    (hI : Between config slot c (awaiting address rawEvents) (recordedFacts address
      (orderEventsForApply (reverseEventsWithinEachTx rawEvents)).zipIdx ++
        .fetched contractId address rawEvents :: known) tr s) :
    Ensures lib config slot (do
        mark (.synced address rawEvents)
        pure (some ingested))
      (fun tr s r ↦ (∀ b, r = .ok b → Between config slot c nothing known tr s) ∧
        (toHeight ≤ c → Between config slot c nothing known tr s)) tr s := by
  have hforget : known ⊆ recordedFacts address
      (orderEventsForApply (reverseEventsWithinEachTx rawEvents)).zipIdx ++
        Fact.fetched contractId address rawEvents :: known := fun fact hfact ↦
    List.mem_append_right _ (List.mem_cons_of_mem _ hfact)
  apply Program.Meets.bind
  apply Program.Meets.mark
  intro s₁ hR
  have hI₁ := hI.rely hR
  have hall := hI₁.recorded_of_loop
  have hsettled : Between config slot c nothing known (tr ++ [.synced address rawEvents]) s₁ :=
    ((hI₁.subset hforget).settle fun e he _ ↦ hall e he).mark nofun
  refine ⟨⟨rfl, ?_, nofun⟩, fun _ _ ↦ hsettled, fun _ ↦ hsettled⟩
  intro a es heq
  cases heq
  exact hall

/-- What a sync does with the events it has fetched. -/
theorem ingestFetched_ensures {finish readyFromStoredEvents : Bool}
    {rawEvents : List ChainEvent}
    (hcontract : slot = .tick → .contract contractId address ∈ known)
    (hI : Between config slot c nothing known tr s)
    (hheights : ∀ e ∈ rawEvents, e.blockHeight ≤ toHeight) :
    Ensures lib config slot (do
        mark (.fetched contractId address rawEvents)
        let ingested ← (orderEventsForApply
          (reverseEventsWithinEachTx rawEvents)).zipIdx.foldlM
            (syncEvent lib config contractId address) false
        if finish then finishSync contractId ingested readyFromStoredEvents
        mark (.synced address rawEvents)
        pure (some ingested))
      (fun tr s r ↦ (∀ b, r = .ok b → Between config slot c nothing known tr s) ∧
        (toHeight ≤ c → Between config slot c nothing known tr s)) tr s := by
  have hforget {xs : List (ChainEvent × ℕ)} : known ⊆ recordedFacts address xs ++
      Fact.fetched contractId address rawEvents :: known := fun fact hfact ↦
    List.mem_append_right _ (List.mem_cons_of_mem _ hfact)
  -- an error in the loop leaves the events pending; they matter only above `c`
  have hbelow {tr : List Mark} {s : IndexerState} (hle : toHeight ≤ c)
      (hI : Between config slot c (awaiting address rawEvents) known tr s) :
      Between config slot c nothing known tr s :=
    hI.settle fun e he hc ↦ absurd (hheights e he) (by omega)
  apply Program.Meets.bind
  apply Program.Meets.mark
  intro s₁ hR
  refine ⟨.of_plain ⟨nofun, nofun⟩ rfl, ?_⟩
  dsimp only
  apply Program.Meets.bind
  refine Program.Meets.foldlM
    (fun front _ tr s ↦ Between config slot c (awaiting address rawEvents)
      (recordedFacts address front ++ .fetched contractId address rawEvents :: known) tr s) ?_ ?_
      (hI.rely hR).fetch
  · intro front x back hsplit ingested tr s hI
    have hoffers : Offers slot
        (recordedFacts address front ++ .fetched contractId address rawEvents :: known)
        contractId address x := by
      refine ⟨⟨rawEvents, List.mem_append_right _ List.mem_cons_self, ?_⟩,
        fun hslot ↦ hforget (hcontract hslot)⟩
      rw [hsplit]
      exact List.mem_append_right _ List.mem_cons_self
    refine (syncEvent_ensures hoffers hI).mono ?_
    rintro tr s r ⟨hI, hrow⟩
    cases r with
    | error e => exact ⟨nofun, fun hle ↦ hbelow hle (hI.subset hforget)⟩
    | ok ingested => exact hI.learn (hrow ingested rfl)
  · intro ingested tr s hI
    dsimp only
    split
    · apply Program.Meets.bind
      refine (finishSync_ensures hI).mono ?_
      intro tr s r hI
      cases r with
      | error e => exact ⟨nofun, fun hle ↦ hbelow hle (hI.subset hforget)⟩
      | ok _ => exact markSynced_ensures hI
    · exact markSynced_ensures hI

/-- A sync that returns leaves nothing pending; one whose window ends at `c`
adds no obligation whether it returns or not. -/
theorem syncSingleContract_ensures {finish readyFromStoredEvents : Bool}
    (hcontract : slot = .tick → .contract contractId address ∈ known)
    (hI : Between config slot c nothing known tr s) :
    Ensures lib config slot
      (syncSingleContract lib config (.live lib config) contractId address fromHeight toHeight
        finish readyFromStoredEvents)
      (fun tr s r ↦ (∀ b, r = .ok b → Between config slot c nothing known tr s) ∧
        (toHeight ≤ c → Between config slot c nothing known tr s)) tr s := by
  unfold syncSingleContract
  apply Program.Meets.bind
  refine (verifyPermissions_ensures hI).mono ?_
  intro tr s r hI
  cases r with
  | error e => exact ⟨nofun, fun _ ↦ hI⟩
  | ok verified =>
      dsimp only
      split
      swap
      · exact ⟨fun _ _ ↦ hI, fun _ ↦ hI⟩
      apply Program.Meets.bind
      refine (fetchDecodedContractEvents_ensures hI).mono ?_
      rintro tr s r ⟨hI, hheights⟩
      cases r with
      | error e => exact ⟨nofun, fun _ ↦ hI⟩
      | ok rawEvents =>
          dsimp only
          exact ingestFetched_ensures hcontract hI (hheights rawEvents rfl)

/-! ## The callers -/

/-- In a tick a backfill ends at the cursor the tick has read, so whatever it
fetched, it asks for nothing. -/
theorem backfillContract_ensures
    (hcontract : slot = .tick → .contract contractId address ∈ known)
    (hI : Between config slot c nothing known tr s) :
    Ensures lib config slot (backfillContract lib config (.live lib config) contractId address)
      (fun tr s r ↦ (∀ u, r = .ok u → Between config slot c nothing known tr s) ∧
        (slot = .tick → Between config slot c nothing known tr s)) tr s := by
  unfold backfillContract getIndexedHeight
  apply Program.Meets.bind
  apply ensures_query
  intro s₁ hR
  have hI₁ := hI.rely hR
  refine ⟨?_, fun _ ↦ ⟨nofun, fun _ ↦ hI₁⟩⟩
  dsimp only
  generalize (if config.indexerMode = .lite ∨ config.discoveryBackend = .archive then
    config.indexStartHeight
    else s₁.db.indexedHeight.getD config.indexStartHeight - 300) = backfillFrom
  split
  · apply Program.Meets.bind
    refine (syncSingleContract_ensures hcontract hI₁).mono ?_
    rintro tr s r ⟨hok, hbelow⟩
    have htick (hslot : slot = .tick) : Between config slot c nothing known tr s :=
      hbelow (hI₁.cursor_eq hslot).le
    cases r with
    | error e => exact ⟨nofun, htick⟩
    | ok b => exact ⟨fun _ _ ↦ hok b rfl, htick⟩
  · exact ⟨fun _ _ ↦ hI₁, fun _ ↦ hI₁⟩

section Tick

/-- The rows of the contracts, as facts. -/
def rowFacts (contracts : List Db.Contract) : List Fact :=
  contracts.map fun c ↦ .contract c.id c.address

theorem Between.rows {contracts : List Db.Contract} (hI : Between config slot c pending known tr s)
    (hsub : contracts ⊆ s.db.contracts) :
    Between config slot c pending (rowFacts contracts ++ known) tr s where
  covered := hI.covered
  known := List.forall_mem_append.mpr ⟨List.forall_mem_map.mpr fun c hc ↦
    ⟨c, hsub hc, rfl, rfl⟩, hI.known⟩
  cursor_eq := hI.cursor_eq

theorem mem_rowFacts {contracts : List Db.Contract} {contract : Db.Contract}
    (h : contract ∈ contracts) :
    .contract contract.id contract.address ∈ rowFacts contracts ++ known :=
  List.mem_append_left _ (List.mem_map_of_mem h)

variable (hI : Between config .tick c nothing known tr s)
include hI

theorem processCandidate_ensures {failureCount : ℕ} {candidate : DiscoveryCandidate} :
    Ensures lib config .tick (processCandidate lib config (.live lib config) failureCount candidate)
      (fun tr s _ ↦ Between config .tick c nothing known tr s) tr s := by
  unfold processCandidate
  apply Program.Meets.tryCatch
  apply Program.Meets.bind
  apply ensures_query
  intro s₁ hR
  have hI₁ := hI.rely hR
  refine ⟨?_, fun _ ↦ hI₁⟩
  dsimp only
  split
  · exact hI₁
  · apply Program.Meets.bind
    apply ensures_request
    intro s₂ hR' r
    have hI₂ := hI₁.rely hR'
    cases r with
    | error e => exact hI₂
    | ok security =>
        dsimp only
        split
        · exact hI₂
        · apply Program.Meets.bind
          refine ensures_transact ⟨nofun, nofun⟩ nofun
            (fun s hs id db' hbody ↦ createContract_effect hbody) hI₂ ?_
          intro tr' s' hI'
          refine ⟨fun id db hbody ↦ ?_, fun _ ↦ hI'⟩
          have hcreated : s'.db.HasContract id candidate.address := by
            obtain ⟨-, rfl, hdb⟩ := createContract_ok hbody
            rw [hdb]
            exact ⟨_, List.mem_append_right _ List.mem_cons_self, rfl, rfl⟩
          apply Program.Meets.bind
          refine (backfillContract_ensures (fun _ ↦ List.mem_cons_self)
            (hI'.cons (.contract id candidate.address) hcreated)).mono ?_
          rintro tr s r ⟨-, htick⟩
          cases r with
          | error e => exact (htick rfl).subset (List.subset_cons_self _ _)
          | ok u => exact (htick rfl).subset (List.subset_cons_self _ _)

theorem discoverContracts_ensures {indexedHeight latestHeight : ℕ} :
    Ensures lib config .tick
      (discoverContracts lib config (.live lib config) indexedHeight latestHeight)
      (fun tr s _ ↦ Between config .tick c nothing known tr s) tr s := by
  have hcandidates : Ensures lib config .tick (discoverCandidates config indexedHeight)
      (fun tr s _ ↦ Between config .tick c nothing known tr s) tr s := by
    unfold discoverCandidates
    split
    · apply Program.Meets.bind
      apply ensures_query
      intro s₁ hR
      refine ⟨?_, fun _ ↦ hI.rely hR⟩
      exact ensures_request fun s₂ hR' _ ↦ (hI.rely hR).rely hR'
    · apply Program.Meets.bind
      apply ensures_request
      intro s₁ hR r
      have hI₁ := hI.rely hR
      cases r with
      | error e => exact hI₁
      | ok answer =>
          cases answer with
          | none => exact hI₁
          | some daemonHeight =>
              apply Program.Meets.bind
              apply ensures_request
              intro s₂ hR' r
              cases r with
              | error e => exact hI₁.rely hR'
              | ok addrs => exact hI₁.rely hR'
  unfold discoverContracts processCandidateAddresses
  apply Program.Meets.bind
  refine hcandidates.mono ?_
  intro tr s r hI
  cases r with
  | error e => exact hI
  | ok candidates =>
      apply Program.Meets.bind
      apply Program.Meets.bind
      refine Program.Meets.foldlM
        (fun _ _ tr s ↦ Between config .tick c nothing known tr s) ?_ ?_ hI
      · intro _ candidate _ _ failureCount tr s hI
        refine (processCandidate_ensures hI).mono ?_
        intro tr s r hI
        cases r with
        | error e => exact hI
        | ok count => exact hI
      · intro failureCount tr s hI
        apply Program.Meets.bind
        apply ensures_query
        intro s₁ hR
        have hI₁ := hI.rely hR
        refine ⟨?_, fun _ ↦ hI₁⟩
        change Ensures lib config .tick (if _ then _ else _) _ _ _
        split
        · refine ensures_execute ⟨nofun, nofun⟩ nofun (fun s hs db' hbody ↦ ?_) hI₁
            fun tr' s' hI' ↦ ⟨fun _ _ ↦ hI', fun _ ↦ hI'⟩
          cases hbody
          exact ⟨rfl, rfl, rfl, ⟨rfl, rfl, rfl, rfl, rfl, rfl,
            (Database.Untouched.refl s.db).contracts⟩⟩
        · exact hI₁

theorem firstScanSteps_ensures {contract : Db.Contract} {start latestHeight steps next : ℕ}
    (hcontract : .contract contract.id contract.address ∈ known) :
    Ensures lib config .tick
      (firstScanSteps lib config (.live lib config) contract start latestHeight steps next)
      (fun tr s r ↦ ∀ left, r = .ok left → Between config .tick c nothing known tr s) tr s := by
  induction steps generalizing tr s next with
  | zero => exact fun _ _ ↦ hI
  | succ steps ih =>
      unfold firstScanSteps
      dsimp only
      apply Program.Meets.bind
      refine (syncSingleContract_ensures (fun _ ↦ hcontract) hI).mono ?_
      rintro tr s r ⟨hok, -⟩
      cases r with
      | error e => exact nofun
      | ok result =>
          have hI := hok result rfl
          cases result with
          | none => exact fun _ _ ↦ hI
          | some ingested =>
              dsimp only
              split
              · apply Program.Meets.bind
                refine ensures_scans hI fun s' _ hI' ↦ ?_
                apply Program.Meets.bind
                apply ensures_query
                intro s₁ hR
                exact ⟨fun _ _ ↦ hI'.rely hR, fun _ ↦ nofun⟩
              · apply Program.Meets.bind
                exact ensures_scans hI fun s' _ hI' ↦ ih hI'

theorem rescanContract_ensures {contract : Db.Contract} {fromHeight latestHeight steps : ℕ}
    (hcontract : .contract contract.id contract.address ∈ known) :
    Ensures lib config .tick
      (rescanContract lib config (.live lib config) fromHeight latestHeight steps contract)
      (fun tr s r ↦ ∀ left, r = .ok left → Between config .tick c nothing known tr s) tr s := by
  unfold rescanContract
  dsimp only
  split
  · split
    · exact fun _ _ ↦ hI
    · apply Program.Meets.bind
      refine (syncSingleContract_ensures (fun _ ↦ hcontract) hI).mono ?_
      rintro tr s r ⟨hok, -⟩
      cases r with
      | error e =>
          intro left hleft
          cases hleft
      | ok result => exact fun _ _ ↦ hok result rfl
  · split
    · exact fun _ _ ↦ hI
    · apply Program.Meets.bind
      exact ensures_scans hI fun s' _ hI' ↦ firstScanSteps_ensures hI' hcontract

theorem rescanUnreadyContracts_ensures {fromHeight latestHeight : ℕ} :
    Ensures lib config .tick
      (rescanUnreadyContracts lib config (.live lib config) fromHeight latestHeight)
      (fun tr s r ↦ ∀ u, r = .ok u → Between config .tick c nothing known tr s) tr s := by
  have hloop {contracts : List Db.Contract} {tr : List Mark} {s : IndexerState}
      (hI : Between config .tick c nothing (rowFacts contracts ++ known) tr s) :
      Ensures lib config .tick (do
          scans fun m ↦ ((), m.filter fun x ↦
            x.1 ∈ (contracts.filter fun c ↦ !c.synced).map Db.Contract.id)
          let _ ← contracts.foldlM
            (rescanContract lib config (.live lib config) fromHeight latestHeight)
            firstScanStepsPerTick)
        (fun tr s r ↦ ∀ u, r = .ok u → Between config .tick c nothing known tr s) tr s := by
    apply Program.Meets.bind
    refine ensures_scans hI fun s' _ hI' ↦ ?_
    apply Program.Meets.bind
    refine Program.Meets.foldlM
      (fun _ _ tr s ↦ Between config .tick c nothing (rowFacts contracts ++ known) tr s) ?_ ?_ hI'
    · intro front contract back hsplit steps tr s hI
      have hmem : contract ∈ contracts := by
        rw [hsplit]
        exact List.mem_append_right _ List.mem_cons_self
      refine (rescanContract_ensures hI (mem_rowFacts hmem)).mono ?_
      intro tr s r hr
      cases r with
      | error e => exact nofun
      | ok left => exact hr left rfl
    · exact fun _ tr s hI _ _ ↦ hI.subset (List.subset_append_right _ _)
  unfold rescanUnreadyContracts
  apply Program.Meets.bind
  apply ensures_query
  intro s₁ hR
  have hI₁ := (hI.rely hR).rows
    (@List.filter_sublist _ (fun c ↦ !c.ready) s₁.db.contracts).subset
  refine ⟨?_, fun _ ↦ nofun⟩
  dsimp only
  split
  · apply Program.Meets.bind
    apply ensures_query
    intro s₂ hR'
    exact ⟨hloop (hI₁.rely hR'), fun _ ↦ nofun⟩
  · exact hloop hI₁

theorem syncKnownContracts_ensures {fromHeight toHeight : ℕ} :
    Ensures lib config .tick (syncKnownContracts lib config (.live lib config) fromHeight toHeight)
      (fun tr s r ↦ ∀ u, r = .ok u → Between config .tick c nothing known tr s) tr s := by
  unfold syncKnownContracts
  apply Program.Meets.bind
  apply ensures_query
  intro s₁ hR
  have hI₁ := (hI.rely hR).rows
    (@List.filter_sublist _ (fun c ↦ c.ready) s₁.db.contracts).subset
  refine ⟨?_, fun _ ↦ nofun⟩
  refine Program.Meets.forM (fun tr s ↦ Between config .tick c nothing
    (rowFacts (s₁.db.contracts.filter fun c ↦ c.ready) ++ known) tr s) ?_ ?_ hI₁
  · intro contract hcontract tr s hI
    apply Program.Meets.bind
    refine (syncSingleContract_ensures (fun _ ↦ mem_rowFacts hcontract) hI).mono ?_
    rintro tr s r ⟨hok, -⟩
    cases r with
    | error e => exact nofun
    | ok result => exact hok result rfl
  · exact fun tr s hI _ _ ↦ hI.subset (List.subset_append_right _ _)

end Tick

/-- The end of a tick, after discovery. -/
theorem advance_ensures {fromHeight toHeight : ℕ}
    (hI : Between config .tick c nothing known tr s) :
    Ensures lib config .tick (do
        rescanUnreadyContracts lib config (.live lib config) fromHeight toHeight
        if fromHeight ≤ toHeight then
          syncKnownContracts lib config (.live lib config) fromHeight toHeight
          execute (some (.advanced c toHeight)) fun db ↦
            .ok { db with indexedHeight := some toHeight })
      (fun _ _ _ ↦ True) tr s := by
  apply Program.Meets.bind
  refine (rescanUnreadyContracts_ensures hI).mono ?_
  intro tr s r hr
  cases r with
  | error e => trivial
  | ok u =>
      dsimp only
      split
      · apply Program.Meets.bind
        refine (syncKnownContracts_ensures (hr u rfl)).mono ?_
        intro tr s r hr
        cases r with
        | error e => trivial
        | ok u =>
            apply Program.Meets.transaction
            intro s₁ hR
            have hI₁ := (hr u rfl).rely hR
            refine ⟨?_, fun _ ↦ trivial⟩
            intro a s₂ hbody
            cases hbody
            refine ⟨⟨rfl, nofun, ?_⟩, trivial, fun _ ↦ trivial⟩
            intro c' t heq
            cases heq
            exact ⟨rfl, (hI₁.cursor_eq rfl).symm, hI₁.covered⟩
      · trivial

/-- A tick advances the cursor it has read, past events that are recorded. -/
theorem tick_ensures (s : IndexerState) :
    Ensures lib config .tick (tick lib config (.live lib config)) (fun _ _ _ ↦ True) [] s := by
  unfold tick
  apply Program.Meets.tryCatch
  suffices hloop : Ensures lib config .tick (indexingLoop lib config (.live lib config))
      (fun _ _ _ ↦ True) [] s by
    refine hloop.mono fun tr s r _ ↦ ?_
    cases r with
    | error e => trivial
    | ok u => trivial
  unfold indexingLoop
  apply Program.Meets.bind
  apply ensures_request
  intro s₁ _ r
  cases r with
  | error e => trivial
  | ok latestHeight =>
      unfold getIndexedHeight
      apply Program.Meets.bind
      apply ensures_query
      intro s₂ _
      refine ⟨?_, fun _ ↦ trivial⟩
      have hI : Between config .tick (cursor config s₂.db) nothing [] [] s₂ :=
        ⟨nofun, nofun, fun _ ↦ rfl⟩
      dsimp only
      split
      · trivial
      · split
        · apply Program.Meets.bind
          refine (discoverContracts_ensures hI).mono ?_
          intro tr s r hI
          cases r with
          | error e => trivial
          | ok _ => exact advance_ensures hI
        · exact advance_ensures hI

end Promises

end MinaGuard
