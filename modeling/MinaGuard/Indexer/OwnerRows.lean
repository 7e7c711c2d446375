import MinaGuard.Indexer.Fingerprints
import MinaGuard.Indexer.OwnerRoutes
import MinaGuard.Indexer.Snapshots
import MinaGuard.Vault.OwnerWords

/-!
# Membership rows

While the events of a vault are applied in order, its membership rows say what the
events say about the owners.  No event about owners fails: its numbers fit their
columns, and the setup comes first, so that the configuration is known.
-/

namespace MinaGuard

open Foundations

section Values

variable {E : Env} {lib : Backend E}

theorem asNumber_fieldText {x : Fp} (h : x.val ≤ 2 ^ 53) :
    asNumber (some (.string (fieldText x))) = some x.val := by
  unfold asNumber asString
  dsimp only
  rw [if_neg (fieldText_ne_empty x)]
  exact columnNumber_decimal h

theorem truthy_toBase58 (B : Base58 E) (k : PublicKey) :
    truthy (some (B.toBase58 k)) = some (B.toBase58 k) := if_neg (B.toBase58_ne_empty k)

theorem fieldText_eq_one {x : Fp} : fieldText x = "1" ↔ x = 1 := by
  have hone : fieldText 1 = "1" := by decide
  rw [← hone, fieldText_injective.eq_iff]

end Values

namespace ChainEvent

def isOwnerType (e : ChainEvent) : Bool :=
  e.type = "setup" ∨ e.type = "setupOwner" ∨ e.type = "ownerChange"

/-- What the event says about an address: whether it is an owner from now on. -/
def ownerWord? {E : Env} (lib : Backend E) (e : ChainEvent) : Option (String × Bool) :=
  match asString (e.event.get "owner") with
  | none => none
  | some owner =>
      if e.type = "setupOwner" then
        if owner = emptyPublicKey lib then none else some (owner, true)
      else if e.type = "ownerChange" then
        some (owner, asString (e.event.get "added") = some "1")
      else none

/-- The guard emitted the event, in a transaction with a plain hash. -/
def Emitted {E : Env} (lib : Backend E) (e : ChainEvent) (event : Event) : Prop :=
  ∃ b info, TransactionInfo.PlainHash info ∧
    e = ArchivedBlock.chainEvent b lib.base58 info event

variable {E : Env} {lib : Backend E} {e : ChainEvent} {event : Event}

@[simp] theorem type_chainEvent (b : ArchivedBlock) (B : Base58 E) (info : TransactionInfo) :
    (b.chainEvent B info event).type = event.name := rfl

theorem Emitted.type (h : Emitted lib e event) : e.type = event.name := by
  obtain ⟨b, info, -, rfl⟩ := h
  rfl

theorem Emitted.decodeError (h : Emitted lib e event) : e.decodeError = none := by
  obtain ⟨b, info, -, rfl⟩ := h
  rfl

theorem Emitted.isOwnerType (h : Emitted lib e event) :
    e.isOwnerType = event.isOwnerEvent := by
  unfold ChainEvent.isOwnerType
  rw [h.type]
  cases event <;> rfl

theorem Emitted.ownerWord? (h : Emitted lib e event) :
    e.ownerWord? lib =
      event.ownerWord?.map fun w ↦ (lib.base58.toBase58 w.1, w.2) := by
  obtain ⟨b, info, -, rfl⟩ := h
  cases event with
  | setupOwner k index =>
      change (if lib.base58.toBase58 k = lib.base58.emptyKey then none
        else some (lib.base58.toBase58 k, true)) = Option.map _ (if _ then none else _)
      by_cases hk : k = PublicKey.empty
      · rw [if_pos hk, if_pos (lib.base58.toBase58_eq_emptyKey.mpr hk)]
        rfl
      · rw [if_neg hk, if_neg (mt lib.base58.toBase58_eq_emptyKey.mp hk)]
        rfl
  | ownerChange hash k added numOwners commitment nonce =>
      have hadded : decide (some (fieldText added) = some "1") = decide (added = 1) := by
        rw [decide_eq_decide, Option.some.injEq, fieldText_eq_one]
      exact congrArg (fun word ↦ some (lib.base58.toBase58 k, word)) hadded
  | _ => rfl

end ChainEvent

/-- The events of a vault about its owners, in order. -/
structure OwnerEvents {E : Env} (lib : Backend E) (address : String) (all : List ChainEvent) :
    Prop where
  emitted : ∀ e ∈ all, ∃ event, e.Emitted lib event ∧ event.isOwnerEvent = true ∧
    event.Small (2 ^ 31 - 1)
  distinct : (all.map (fingerprintEvent address)).Nodup
  ordered : all.Pairwise fun a b ↦ applyKey a ≤ applyKey b
  first : ∀ e rest, all = e :: rest → e.type = "setup"

namespace Database

/-- The membership rows of a contract, oldest first. -/
def membershipsOf (db : Database) (contractId : ℕ) : List Db.OwnerMembership :=
  db.ownerMemberships.filter fun m ↦ m.contractId = contractId

/-- `ownerMembership.create`. -/
def createMembership (db : Database) (m : Db.OwnerMembership) : Database :=
  { db with ownerMemberships := db.ownerMemberships ++ [m] }

/-- The threshold is known. -/
def HasThreshold (db : Database) (contractId : ℕ) : Prop :=
  ((db.getLatestConfig contractId).bind Db.ContractConfig.threshold).isSome

end Database

/-- The row is one of the contract, written for the place, and says the word. -/
structure Db.OwnerMembership.Says (m : Db.OwnerMembership) (contractId height order : ℕ)
    (word : String × Bool) : Prop where
  contractId : m.contractId = contractId
  validFromBlock : m.validFromBlock = height
  eventOrder : m.eventOrder = order
  word : m.word = word

section Mirror

variable {E : Env} (lib : Backend E) (config : BackendConfig) (contractId : ℕ) (address : String)
  (all : List ChainEvent)

/-- The rows of the contract say what the events so far say, and are all for earlier
places. -/
structure OwnersMirrored (db : Database) (done : List ChainEvent) (height order : ℕ) : Prop where
  contract : contractId ∈ db.contracts.map Db.Contract.id
  words : (db.membershipsOf contractId).map Db.OwnerMembership.word =
    done.filterMap (ChainEvent.ownerWord? lib)
  ordered : (db.membershipsOf contractId).Pairwise fun a b ↦ membershipLe b a = true
  before : ∀ m ∈ db.membershipsOf contractId,
    Precedes m.validFromBlock m.eventOrder height order
  snapshots : db.SnapshotsBefore contractId height order
  threshold : done ≠ [] → db.HasThreshold contractId
  recorded : ∀ e ∈ all, db.isRecorded (fingerprintEvent address e) = true → e ∈ done

variable {lib config contractId address all} {db db' : Database} {done : List ChainEvent}
  {height order : ℕ}

namespace OwnersMirrored

theorem mono (h : OwnersMirrored lib contractId address all db done height order)
    {height' order' : ℕ} (hle : height < height' ∨ height = height' ∧ order ≤ order') :
    OwnersMirrored lib contractId address all db done height' order' where
  contract := h.contract
  words := h.words
  ordered := h.ordered
  before := fun m hm ↦ by
    have hbefore := h.before m hm
    unfold Precedes at *
    omega
  snapshots := h.snapshots.mono hle
  threshold := h.threshold
  recorded := h.recorded

/-- An event that writes no membership. -/
theorem snapshot (h : OwnersMirrored lib contractId address all db done height order)
    {done' : List ChainEvent} (hadds : db.AddsSnapshot contractId height order db')
    (hwords : done'.filterMap (ChainEvent.ownerWord? lib) =
      done.filterMap (ChainEvent.ownerWord? lib))
    (hthreshold : done' ≠ [] → db'.HasThreshold contractId)
    (hrecorded : ∀ e ∈ all, db'.isRecorded (fingerprintEvent address e) = true → e ∈ done') :
    OwnersMirrored lib contractId address all db' done' height (order + 1) := by
  have hrows : db'.membershipsOf contractId = db.membershipsOf contractId := by
    unfold Database.membershipsOf
    rw [hadds.ownerMemberships]
  have hlater : OwnersMirrored lib contractId address all db done height (order + 1) :=
    h.mono (.inr ⟨rfl, Nat.le_succ order⟩)
  exact
    { contract := hadds.contracts _ h.contract
      words := by rw [hrows, h.words, hwords]
      ordered := hrows ▸ h.ordered
      before := hrows ▸ hlater.before
      snapshots := hadds.snapshotsBefore h.snapshots
      threshold := hthreshold
      recorded := hrecorded }

/-- An event that writes a membership, and then maybe a snapshot. -/
theorem membership (h : OwnersMirrored lib contractId address all db done height order)
    {db₁ : Database} {e : ChainEvent} {m : Db.OwnerMembership} {word : String × Bool}
    (hm : m.Says contractId height order word) (hword : e.ownerWord? lib = some word)
    (hadds : (db.createMembership m).AddsSnapshot contractId height order db₁)
    (hthreshold : db₁.HasThreshold contractId)
    (hrecorded : ∀ e' ∈ all, db₁.isRecorded (fingerprintEvent address e') = true →
      e' ∈ done ++ [e]) :
    OwnersMirrored lib contractId address all db₁ (done ++ [e]) height (order + 1) := by
  have hheight := hm.validFromBlock
  have horder := hm.eventOrder
  have hrows : db₁.membershipsOf contractId = db.membershipsOf contractId ++ [m] := by
    have hsingle : [m].filter (fun m ↦ m.contractId = contractId) = [m] :=
      List.filter_cons_of_pos (decide_eq_true hm.contractId)
    unfold Database.membershipsOf
    rw [hadds.ownerMemberships, Database.createMembership, List.filter_append, hsingle]
  exact
    { contract := hadds.contracts _ h.contract
      words := by
        rw [hrows, List.map_append, h.words, List.filterMap_append,
          List.filterMap_cons_some hword, ← hm.word]
        rfl
      ordered := by
        rw [hrows, List.pairwise_append]
        refine ⟨h.ordered, List.pairwise_singleton _ _, fun a ha b hb ↦ ?_⟩
        obtain rfl := List.mem_singleton.mp hb
        have hbefore := h.before a ha
        unfold Precedes at hbefore
        unfold membershipLe
        rw [decide_eq_true_iff]
        omega
      before := by
        rw [hrows]
        refine List.forall_mem_append.mpr ⟨?_, List.forall_mem_singleton.mpr ?_⟩
        · intro a ha
          have hbefore := h.before a ha
          unfold Precedes at *
          omega
        · exact .inr ⟨hheight, by omega⟩
      snapshots := hadds.snapshotsBefore ⟨h.snapshots.fits, h.snapshots.before⟩
      threshold := fun _ ↦ hthreshold
      recorded := hrecorded }

end OwnersMirrored

end Mirror

/-! ## Applying an event about owners -/

/-- The numbers that change fit their columns. -/
structure ContractConfigChanges.Fits (changes : ContractConfigChanges) : Prop where
  threshold : ∀ n, changes.threshold = some n → n < 2 ^ 31
  numOwners : ∀ n, changes.numOwners = some n → n < 2 ^ 31
  nonce : ∀ n, changes.nonce = some n → n < 2 ^ 31
  parentNonce : ∀ n, changes.parentNonce = some n → n < 2 ^ 31
  configNonce : ∀ n, changes.configNonce = some n → n < 2 ^ 31

theorem ContractConfigChanges.Fits.overlay {changes : ContractConfigChanges}
    {latest : Option Db.ContractConfig} {contractId height order : ℕ} {sourceEventId : Option ℕ}
    (h : changes.Fits) (hlatest : ∀ row, latest = some row → row.Fits) :
    (changes.overlay latest contractId height order sourceEventId).Fits := by
  have hcolumn {x y : Option ℕ} (hx : ∀ n, x = some n → n < 2 ^ 31)
      (hy : ∀ n, y = some n → n < 2 ^ 31) (n : ℕ) (h : (x <|> y) = some n) : n < 2 ^ 31 := by
    cases x with
    | none => exact hy n h
    | some m => exact hx n h
  have hbind {f : Db.ContractConfig → Option ℕ}
      (hf : ∀ row : Db.ContractConfig, row.Fits → ∀ n, f row = some n → n < 2 ^ 31) (n : ℕ)
      (h : latest.bind f = some n) : n < 2 ^ 31 := by
    obtain ⟨row, hrow, hn⟩ := Option.bind_eq_some_iff.mp h
    exact hf row (hlatest row hrow) n hn
  exact
    { threshold := hcolumn h.threshold (hbind fun _ hrow ↦ hrow.threshold)
      numOwners := hcolumn h.numOwners (hbind fun _ hrow ↦ hrow.numOwners)
      nonce := hcolumn h.nonce (hbind fun _ hrow ↦ hrow.nonce)
      parentNonce := hcolumn h.parentNonce (hbind fun _ hrow ↦ hrow.parentNonce)
      configNonce := hcolumn h.configNonce (hbind fun _ hrow ↦ hrow.configNonce) }

section Apply

variable {E : Env} {lib : Backend E} {mode : IndexerMode} {db : Database}
  {contractId height order sourceEventId : ℕ} {b : ArchivedBlock} {info : TransactionInfo}
  {setupFallback : Option OnChainState}

theorem Database.SnapshotsBefore.latest_fits (h : db.SnapshotsBefore contractId height order)
    (row : Db.ContractConfig) (hrow : db.getLatestConfig contractId = some row) : row.Fits := by
  obtain ⟨hmem, hcontract⟩ := Database.getLatestConfig_mem hrow
  exact h.fits row hmem hcontract

theorem maxOwners_lt : maxOwners < 2 ^ 31 := by decide

/-- A number of at most the limit is written as it is. -/
theorem asNumber_small {x : Fp} {n : ℕ} (hx : x.val ≤ n) (hn : n < 2 ^ 31) :
    asNumber (some (.string (fieldText x))) = some x.val :=
  asNumber_fieldText (hx.trans (hn.le.trans (by decide)))

theorem applySetupEvent_eq_ok (hcontract : contractId ∈ db.contracts.map Db.Contract.id)
    (hsnapshots : db.SnapshotsBefore contractId b.height order)
    {commitment threshold numOwners : Fp} {parent : PublicKey}
    (hsmall : (Event.setup commitment threshold numOwners parent).Small (2 ^ 31 - 1)) :
    ∃ db', applyEvent lib mode db contractId
        (b.chainEvent lib.base58 info (.setup commitment threshold numOwners parent)) order
        sourceEventId setupFallback = .ok db' ∧ db'.HasThreshold contractId := by
  obtain ⟨row, hrow, hid⟩ := List.mem_map.mp hcontract
  obtain ⟨hthreshold, hnumOwners⟩ := hsmall
  have hfind : ∃ c, db.findContract contractId = some c :=
    Option.isSome_iff_exists.mp (List.find?_isSome.mpr ⟨row, hrow, decide_eq_true hid⟩)
  obtain ⟨c, hfind⟩ := hfind
  have hupdate (f : Db.Contract → Db.Contract) : db.updateContract contractId f =
      .ok { db with
        contracts := db.contracts.map fun c ↦ if c.id = contractId then f c else c } := by
    unfold Database.updateContract
    rw [hfind]
  have hchanges : ContractConfigChanges.Fits
      { threshold := some threshold.val
        numOwners := some numOwners.val
        nonce := some 0
        parentNonce := some 0
        configNonce := some 0
        ownersCommitment := some (fieldText commitment)
        childMultiSigEnabled := some true } := by
    have hlt := maxOwners_lt
    refine ⟨?_, ?_, ?_, ?_, ?_⟩ <;> rintro n hn <;> obtain rfl := Option.some.inj hn
    · exact hthreshold.trans_lt hlt
    · exact hnumOwners.trans_lt hlt
    · decide
    · decide
    · decide
  have hthreshold' : asNumber ((b.chainEvent lib.base58 info
      (.setup commitment threshold numOwners parent)).event.get "threshold") =
      some threshold.val := asNumber_small hthreshold maxOwners_lt
  have hnumOwners' : asNumber ((b.chainEvent lib.base58 info
      (.setup commitment threshold numOwners parent)).event.get "numOwners") =
      some numOwners.val := asNumber_small hnumOwners maxOwners_lt
  change ∃ db', applySetupEvent lib db contractId _ order sourceEventId = .ok db' ∧ _
  unfold applySetupEvent
  simp only [hupdate, hthreshold', hnumOwners']
  refine ⟨_, appendContractConfigSnapshot_of_fits (hchanges.overlay hsnapshots.latest_fits), ?_⟩
  unfold Database.HasThreshold
  rw [hsnapshots.getLatestConfig_concat rfl rfl rfl rfl]
  rfl

theorem applySetupOwnerEvent_eq_ok {k : PublicKey} {index : Fp} (hne : k ≠ PublicKey.empty)
    (hsmall : (Event.setupOwner k index).Small (2 ^ 31 - 1))
    (hthreshold : db.HasThreshold contractId) :
    ∃ m, applyEvent lib mode db contractId (b.chainEvent lib.base58 info (.setupOwner k index))
        order sourceEventId setupFallback = .ok (db.createMembership m) ∧
      m.Says contractId b.height order (lib.base58.toBase58 k, true) := by
  have hlength : ¬((lib.base58.toBase58 k).length < 10 ∨
      lib.base58.toBase58 k = emptyPublicKey lib) := by
    have hlong := lib.base58.length_toBase58 k
    have hkey := mt lib.base58.toBase58_eq_emptyKey.mp hne
    exact not_or.mpr ⟨by omega, hkey⟩
  have howner : truthy (asString ((b.chainEvent lib.base58 info
      (.setupOwner k index)).event.get "owner")) = some (lib.base58.toBase58 k) :=
    truthy_toBase58 lib.base58 k
  have hindex : intColumn (asNumber ((b.chainEvent lib.base58 info
      (.setupOwner k index)).event.get "index")) = .ok (some index.val) := by
    change intColumn (asNumber (some (.string (fieldText index)))) = _
    rw [asNumber_small hsmall maxOwners_lt]
    exact if_pos (lt_of_le_of_lt hsmall maxOwners_lt)
  refine ⟨⟨contractId, lib.base58.toBase58 k, "added", some index.val, b.height, order,
    some sourceEventId⟩, ?_, rfl, rfl, rfl, rfl⟩
  change applySetupOwnerEvent lib db contractId _ order sourceEventId setupFallback = _
  unfold applySetupOwnerEvent
  simp only [howner, hindex, if_neg hlength]
  exact if_pos hthreshold

theorem applySetupOwnerEvent_empty {index : Fp} :
    applyEvent lib mode db contractId
        (b.chainEvent lib.base58 info (.setupOwner PublicKey.empty index)) order sourceEventId
        setupFallback = .ok db := by
  have howner : truthy (asString ((b.chainEvent lib.base58 info
      (.setupOwner PublicKey.empty index)).event.get "owner")) = some (emptyPublicKey lib) :=
    truthy_toBase58 lib.base58 PublicKey.empty
  change applySetupOwnerEvent lib db contractId _ order sourceEventId setupFallback = _
  unfold applySetupOwnerEvent
  simp only [howner]
  exact if_pos (.inr trivial)

theorem applyOwnerChangeEvent_eq_ok (hsnapshots : db.SnapshotsBefore contractId b.height order)
    {hash added numOwners commitment nonce : Fp} {k : PublicKey}
    (hsmall : (Event.ownerChange hash k added numOwners commitment nonce).Small (2 ^ 31 - 1)) :
    ∃ m db', applyEvent lib mode db contractId
        (b.chainEvent lib.base58 info (.ownerChange hash k added numOwners commitment nonce))
        order sourceEventId setupFallback = .ok db' ∧
      (db.createMembership m).AddsSnapshot contractId b.height order db' ∧
      m.Says contractId b.height order (lib.base58.toBase58 k, decide (added = 1)) := by
  obtain ⟨hnumOwners, hnonce⟩ := hsmall
  have howner : truthy (asString ((b.chainEvent lib.base58 info
      (.ownerChange hash k added numOwners commitment nonce)).event.get "owner")) =
      some (lib.base58.toBase58 k) := truthy_toBase58 lib.base58 k
  have hadded : (asString ((b.chainEvent lib.base58 info
      (.ownerChange hash k added numOwners commitment nonce)).event.get "added") = some "1") =
      (added = 1) := by
    change (some (fieldText added) = some "1") = _
    rw [Option.some.injEq, fieldText_eq_one]
  have hnumOwners' : asNumber ((b.chainEvent lib.base58 info
      (.ownerChange hash k added numOwners commitment nonce)).event.get "newNumOwners") =
      some numOwners.val := asNumber_small hnumOwners maxOwners_lt
  have hnonce' : asNumber ((b.chainEvent lib.base58 info
      (.ownerChange hash k added numOwners commitment nonce)).event.get "configNonce") =
      some nonce.val := asNumber_small hnonce (by decide)
  have hchanges : ContractConfigChanges.Fits
      { numOwners := some numOwners.val
        configNonce := some nonce.val
        ownersCommitment := some (fieldText commitment) } := by
    have hlt := maxOwners_lt
    refine ⟨nofun, ?_, nofun, nofun, ?_⟩ <;> rintro n hn <;> obtain rfl := Option.some.inj hn
    · exact hnumOwners.trans_lt hlt
    · omega
  let m : Db.OwnerMembership :=
    { contractId, eventOrder := order, address := lib.base58.toBase58 k
      action := if added = 1 then "added" else "removed", index := none
      validFromBlock := b.height, sourceEventId := some sourceEventId }
  have hlater : (db.createMembership m).SnapshotsBefore contractId b.height order :=
    ⟨hsnapshots.fits, hsnapshots.before⟩
  have happend : appendContractConfigSnapshot (db.createMembership m) contractId b.height order
      (some sourceEventId) _ = .ok _ :=
    appendContractConfigSnapshot_of_fits (hchanges.overlay hlater.latest_fits)
  refine ⟨m, _, ?_, .of_append happend, rfl, rfl, rfl, ?_⟩
  · change applyOwnerChangeEvent db contractId _ order sourceEventId = _
    unfold applyOwnerChangeEvent
    simp only [howner, hadded, hnumOwners', hnonce']
    rw [if_neg (by simp)]
    exact happend
  · refine Prod.ext rfl ?_
    change decide ((if added = 1 then "added" else "removed") = "added") = _
    by_cases hone : added = 1
    · rw [if_pos hone]
      simp [hone]
    · rw [if_neg hone]
      simp [hone]

end Apply

/-- The event log has at most one row more, under the fingerprint. -/
def Database.Logs (fingerprint : String) (db db' : Database) : Prop :=
  db'.isRecorded fingerprint = true ∧
    (∀ f, db.isRecorded f = true → db'.isRecorded f = true) ∧
    ∀ f, db'.isRecorded f = true → db.isRecorded f = true ∨ f = fingerprint

theorem Database.Logs.of_append {fingerprint : String} {db db' : Database} {row : Db.EventRaw}
    (hrows : db'.eventRaws = db.eventRaws ++ [row]) (hrow : row.fingerprint = fingerprint) :
    Logs fingerprint db db' := by
  have hmem (f : String) : db'.isRecorded f = true ↔ db.isRecorded f = true ∨ f = fingerprint := by
    rw [isRecorded_iff, isRecorded_iff, hrows, List.map_append, List.mem_append,
      List.map_singleton, List.mem_singleton, hrow]
  exact ⟨(hmem _).mpr (.inr rfl), fun f hf ↦ (hmem f).mpr (.inl hf), fun f ↦ (hmem f).mp⟩

section Ingest

variable {E : Env} {lib : Backend E} {config : BackendConfig} {contractId : ℕ} {address : String}
  {setupFallback : Option OnChainState} {db : Database} {e : ChainEvent} {order : ℕ}

/-- Recording an event leaves the tables alone. -/
theorem recordEvent_tables {db' : Database} {id : ℕ} {fingerprint : String}
    {applyError : Option String}
    (h : recordEvent db contractId e fingerprint applyError = .ok (id, db')) :
    db'.ownerMemberships = db.ownerMemberships ∧ db'.contractConfigs = db.contractConfigs ∧
      ∀ c ∈ db.contracts.map Db.Contract.id, c ∈ db'.contracts.map Db.Contract.id := by
  obtain ⟨-, huntouched, -⟩ := recordEvent_ok h
  refine ⟨huntouched.ownerMemberships, huntouched.contractConfigs, fun c hc ↦ ?_⟩
  obtain ⟨new, hlinks, -⟩ := huntouched.contracts
  have hids := congrArg (List.map Prod.fst) hlinks
  rw [List.map_append, List.map_map, List.map_map] at hids
  change db'.contracts.map Db.Contract.id = db.contracts.map Db.Contract.id ++ _ at hids
  rw [hids]
  exact List.mem_append_left _ hc

variable (lib config contractId address setupFallback db order) in
/-- An event that decodes is recorded and applied, or only recorded. -/
theorem ingest_cases (hdecode : e.decodeError = none) :
    db.isRecorded (fingerprintEvent address e) = true ∧
        ingest lib config contractId address setupFallback db (e, order) = db ∨
      db.isRecorded (fingerprintEvent address e) = false ∧ ∃ id db₁,
        recordEvent db contractId e (fingerprintEvent address e) none = .ok (id, db₁) ∧
        ((∃ db', applyEvent lib config.indexerMode db₁ contractId e order id setupFallback =
            .ok db' ∧
          ingest lib config contractId address setupFallback db (e, order) = db') ∨
        ∃ error reason id', applyEvent lib config.indexerMode db₁ contractId e order id
            setupFallback = .error error ∧
          recordEvent db contractId e (fingerprintEvent address e) (some reason) =
            .ok (id', ingest lib config contractId address setupFallback db (e, order))) := by
  cases hrecorded : db.isRecorded (fingerprintEvent address e) with
  | true =>
      left
      refine ⟨rfl, ?_⟩
      unfold ingest
      dsimp only
      rw [if_pos hrecorded]
  | false =>
      right
      have hrecord (applyError : Option String) : ∃ id db₁,
          recordEvent db contractId e (fingerprintEvent address e) applyError = .ok (id, db₁) := by
        cases h : recordEvent db contractId e (fingerprintEvent address e) applyError with
        | ok r => exact ⟨r.1, r.2, rfl⟩
        | error error =>
            rw [recordEvent_error h] at hrecorded
            cases hrecorded
      obtain ⟨id, db₁, hdb₁⟩ := hrecord none
      refine ⟨rfl, id, db₁, hdb₁, ?_⟩
      have hingest : ingest lib config contractId address setupFallback db (e, order) =
          applyOrFail lib config contractId db e order (fingerprintEvent address e)
            setupFallback := by
        unfold ingest
        dsimp only
        rw [if_neg (by rw [hrecorded]; exact Bool.false_ne_true), hdecode]
      have hboth : recordAndApply lib config db contractId e order (fingerprintEvent address e)
          setupFallback =
            applyEvent lib config.indexerMode db₁ contractId e order id setupFallback := by
        unfold recordAndApply
        rw [hdb₁]
        rfl
      rw [hingest]
      unfold applyOrFail
      rw [hboth]
      cases happly : applyEvent lib config.indexerMode db₁ contractId e order id
          setupFallback with
      | ok db' => exact .inl ⟨db', rfl, rfl⟩
      | error error =>
          obtain ⟨id', db₂, hdb₂⟩ := hrecord (some error.reason)
          refine .inr ⟨error, error.reason, id', rfl, ?_⟩
          unfold recordFailure
          simp only [hdb₂]

variable (lib config contractId address setupFallback db order) in
/-- Ingesting an event records it, and nothing else. -/
theorem ingest_logs (hdecode : e.decodeError = none) :
    db.Logs (fingerprintEvent address e)
      (ingest lib config contractId address setupFallback db (e, order)) := by
  rcases ingest_cases lib config contractId address setupFallback db order hdecode with
    ⟨hrecorded, hsame⟩ | ⟨-, id, db₁, hrecord, h⟩
  · rw [hsame]
    exact ⟨hrecorded, fun _ hf ↦ hf, fun _ ↦ .inl⟩
  · rcases h with ⟨db', happly, hdb'⟩ | ⟨error, reason, id', -, hfailed⟩
    · obtain ⟨-, -, -, ⟨row, hrows, hrow, -⟩, -⟩ := recordEvent_ok hrecord
      rw [hdb']
      exact .of_append ((applyEvent_sameRecord happly).eventRaws.trans hrows) hrow
    · obtain ⟨-, -, -, ⟨row, hrows, hrow, -⟩, -⟩ := recordEvent_ok hfailed
      exact .of_append hrows hrow

variable {all done : List ChainEvent} {height : ℕ} {event : Event}

/-- Other events leave the owners alone, whatever becomes of them. -/
theorem OwnersMirrored.ingest_plain
    (h : OwnersMirrored lib contractId address all db done e.blockHeight order)
    (hall : OwnerEvents lib address all) (hemitted : e.Emitted lib event)
    (hplain : event.isOwnerEvent = false) :
    OwnersMirrored lib contractId address all
      (ingest lib config contractId address setupFallback db (e, order)) done e.blockHeight
      (order + 1) := by
  have hrecorded : ∀ e' ∈ all, (ingest lib config contractId address setupFallback db
      (e, order)).isRecorded (fingerprintEvent address e') = true → e' ∈ done := by
    intro e' he' hrec
    rcases (ingest_logs lib config contractId address setupFallback db order
        hemitted.decodeError).2.2 _ hrec with hold | hsame
    · exact h.recorded e' he' hold
    · obtain ⟨event', hemitted', howner, -⟩ := hall.emitted e' he'
      obtain ⟨b, info, hinfo, rfl⟩ := hemitted
      obtain ⟨b', info', hinfo', rfl⟩ := hemitted'
      rw [fingerprintEvent_inj hinfo' hinfo hsame, hplain] at howner
      cases howner
  have hadds : db.AddsSnapshot contractId e.blockHeight order
      (ingest lib config contractId address setupFallback db (e, order)) := by
    rcases ingest_cases lib config contractId address setupFallback db order
      hemitted.decodeError with ⟨-, hsame⟩ | ⟨-, id, db₁, hrecord, h⟩
    · rw [hsame]
      exact .of_same rfl rfl fun _ hc ↦ hc
    · rcases h with ⟨db', happly, hdb'⟩ | ⟨error, reason, id', -, hfailed⟩
      · obtain ⟨howners, hconfigs, hcontracts⟩ := recordEvent_tables hrecord
        rw [hdb']
        have htype := hemitted.isOwnerType.trans hplain
        obtain ⟨-, hslot, hchange⟩ :
            e.type ≠ "setup" ∧ e.type ≠ "setupOwner" ∧ e.type ≠ "ownerChange" := by
          simpa [ChainEvent.isOwnerType] using htype
        exact (applyEvent_addsSnapshot hslot hchange happly).after howners hconfigs hcontracts
      · obtain ⟨howners, hconfigs, hcontracts⟩ := recordEvent_tables hfailed
        exact .of_same howners hconfigs hcontracts
  exact h.snapshot hadds rfl (fun hne ↦ hadds.threshold_isSome h.snapshots (h.threshold hne))
    hrecorded

/-- Applying an event about owners succeeds, and the rows then say what it says. -/
theorem OwnersMirrored.exists_applyEvent
    (h : OwnersMirrored lib contractId address all db done e.blockHeight order)
    (mode : IndexerMode) (sourceEventId : ℕ) (setupFallback : Option OnChainState)
    {db₁ : Database} (howners : db₁.ownerMemberships = db.ownerMemberships)
    (hconfigs : db₁.contractConfigs = db.contractConfigs)
    (hcontracts : ∀ c ∈ db.contracts.map Db.Contract.id, c ∈ db₁.contracts.map Db.Contract.id)
    (hemitted : e.Emitted lib event) (howner : event.isOwnerEvent = true)
    (hsmall : event.Small (2 ^ 31 - 1))
    (hstarted : e.type ≠ "setup" → db.HasThreshold contractId) :
    ∃ db', applyEvent lib mode db₁ contractId e order sourceEventId setupFallback = .ok db' ∧
      ((∀ e' ∈ all, db'.isRecorded (fingerprintEvent address e') = true → e' ∈ done ++ [e]) →
        OwnersMirrored lib contractId address all db' (done ++ [e]) e.blockHeight
          (order + 1)) := by
  have hsnapshots : db₁.SnapshotsBefore contractId e.blockHeight order :=
    ⟨hconfigs ▸ h.snapshots.fits, hconfigs ▸ h.snapshots.before⟩
  have hknown (hne : e.type ≠ "setup") : db₁.HasThreshold contractId := by
    have hthreshold := hstarted hne
    unfold Database.HasThreshold Database.getLatestConfig at *
    rwa [hconfigs]
  have hnone (hword : e.ownerWord? lib = none) :
      (done ++ [e]).filterMap (ChainEvent.ownerWord? lib) =
        done.filterMap (ChainEvent.ownerWord? lib) := by
    rw [List.filterMap_append, List.filterMap_cons_none hword]
    exact List.append_nil _
  have hword := hemitted.ownerWord?
  obtain ⟨b, info, -, rfl⟩ := hemitted
  cases event with
  | setup commitment threshold numOwners parent =>
      obtain ⟨db', happly, hthreshold⟩ : ∃ db', applyEvent lib mode db₁ contractId
          (b.chainEvent lib.base58 info (.setup commitment threshold numOwners parent)) order
          sourceEventId setupFallback = .ok db' ∧ db'.HasThreshold contractId :=
        applySetupEvent_eq_ok (hcontracts _ h.contract) hsnapshots hsmall
      have hadds := (applyEvent_addsSnapshot (by simp [Event.name]) (by simp [Event.name])
        happly).after howners hconfigs hcontracts
      exact ⟨db', happly, h.snapshot hadds (hnone hword) fun _ ↦ hthreshold⟩
  | setupOwner k index =>
      have hthreshold := hknown (by simp [Event.name])
      by_cases hk : k = PublicKey.empty
      · subst hk
        rw [applySetupOwnerEvent_empty]
        refine ⟨db₁, rfl, h.snapshot (.of_same howners hconfigs hcontracts) (hnone ?_)
          fun _ ↦ hthreshold⟩
        rw [hword]
        rfl
      · obtain ⟨m, happly, hm⟩ : ∃ m, applyEvent lib mode db₁ contractId
            (b.chainEvent lib.base58 info (.setupOwner k index)) order sourceEventId
            setupFallback = .ok (db₁.createMembership m) ∧
          m.Says contractId b.height order (lib.base58.toBase58 k, true) :=
          applySetupOwnerEvent_eq_ok hk hsmall hthreshold
        refine ⟨_, happly, h.membership hm ?_
          (.of_same (congrArg (· ++ [m]) howners) hconfigs hcontracts) hthreshold⟩
        rw [hword, Event.ownerWord?, if_neg hk]
        rfl
  | ownerChange hash k added numOwners commitment nonce =>
      obtain ⟨m, db', happly, hadds, hm⟩ : ∃ m db', applyEvent lib mode db₁ contractId
          (b.chainEvent lib.base58 info (.ownerChange hash k added numOwners commitment nonce))
          order sourceEventId setupFallback = .ok db' ∧
        (db₁.createMembership m).AddsSnapshot contractId b.height order db' ∧
        m.Says contractId b.height order (lib.base58.toBase58 k, decide (added = 1)) :=
        applyOwnerChangeEvent_eq_ok hsnapshots hsmall
      have hthreshold := hadds.threshold_isSome ⟨hsnapshots.fits, hsnapshots.before⟩
        (hknown (by simp [Event.name]))
      exact ⟨db', happly, h.membership hm hword
        (hadds.after (congrArg (· ++ [m]) howners) hconfigs hcontracts) hthreshold⟩
  | _ => cases howner

/-- An event about owners is applied. -/
theorem OwnersMirrored.ingest_owner
    (h : OwnersMirrored lib contractId address all db done e.blockHeight order)
    (hall : OwnerEvents lib address all) (hemitted : e.Emitted lib event)
    (hinit : done ++ [e] <+: all) :
    OwnersMirrored lib contractId address all
      (ingest lib config contractId address setupFallback db (e, order)) (done ++ [e])
      e.blockHeight (order + 1) := by
  have he : e ∈ all := hinit.subset (List.mem_append_right _ (List.mem_singleton_self e))
  have hnodup : ((done ++ [e]).map (fingerprintEvent address)).Nodup :=
    hall.distinct.sublist (hinit.sublist.map _)
  have hfree : ¬db.isRecorded (fingerprintEvent address e) = true := by
    intro hrec
    have hdone := h.recorded e he hrec
    rw [List.map_append] at hnodup
    exact (List.nodup_append.mp hnodup).2.2 _ (List.mem_map_of_mem hdone) _
      (List.mem_map_of_mem (List.mem_singleton_self e)) rfl
  have hrecorded : ∀ e' ∈ all, (ingest lib config contractId address setupFallback db
      (e, order)).isRecorded (fingerprintEvent address e') = true → e' ∈ done ++ [e] := by
    intro e' he' hrec
    rcases (ingest_logs lib config contractId address setupFallback db order
        hemitted.decodeError).2.2 _ hrec with hold | hsame
    · exact List.mem_append_left _ (h.recorded e' he' hold)
    · rw [List.inj_on_of_nodup_map hall.distinct he' he hsame]
      exact List.mem_append_right _ (List.mem_singleton_self e)
  have hstarted (hne : e.type ≠ "setup") : db.HasThreshold contractId := by
    refine h.threshold ?_
    rintro rfl
    obtain ⟨rest, hrest⟩ := hinit
    exact hne (hall.first e rest hrest.symm)
  obtain ⟨event', hemitted', howner, hsmall⟩ := hall.emitted e he
  obtain rfl : event = event' := by
    obtain ⟨b, info, hinfo, rfl⟩ := hemitted
    obtain ⟨b', info', hinfo', heq⟩ := hemitted'
    exact fingerprintEvent_inj hinfo hinfo' (congrArg (fingerprintEvent address) heq)
  obtain ⟨hrec, -⟩ | ⟨-, id, db₁, hrecord, hcases⟩ :=
    ingest_cases lib config contractId address setupFallback db order hemitted.decodeError
  · exact absurd hrec hfree
  · obtain ⟨howners, hconfigs, hcontracts⟩ := recordEvent_tables hrecord
    obtain ⟨db', happly, hafter⟩ := h.exists_applyEvent config.indexerMode id setupFallback
      howners hconfigs hcontracts hemitted howner hsmall hstarted
    have hdb' : ingest lib config contractId address setupFallback db (e, order) = db' := by
      rcases hcases with ⟨db₂, happly', hdb₂⟩ | ⟨error, -, -, happly', -⟩
      · rw [hdb₂]
        exact Except.ok.inj (happly'.symm.trans happly)
      · rw [happly] at happly'
        cases happly'
    rw [hdb'] at hrecorded ⊢
    exact hafter hrecorded

end Ingest

end MinaGuard
