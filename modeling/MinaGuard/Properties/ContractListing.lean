import Mathlib.Data.Prod.Lex
import MinaGuard.Clients.ContractListing
import MinaGuard.Foundations.Keyset

/-!
# The pages of the contract list lose nothing

New contracts come before the cursor, so the contracts after it only get fewer while the
client reads.  A page that is full moves the cursor past it, any other has all that is left.
-/

namespace MinaGuard

open Foundations

namespace DiscoveredContract

/-- The order of discovery. -/
def key (row : DiscoveredContract) : ℕ ×ₗ ℕ := toLex (row.discoveredAt, row.id)

def listed (row : DiscoveredContract) : Prop :=
  row.ready = true ∧ row.permissionsVerified = true

/-- What the client keeps of a listed contract. -/
def summary (row : DiscoveredContract) : ContractSummary :=
  ⟨row.address, row.permissionsVerified, row.discoveredAt⟩

end DiscoveredContract

open DiscoveredContract (key)

theorem discoveredFirst_eq : discoveredFirst = fun a b ↦ decide (key b ≤ key a) := by
  funext a b
  unfold discoveredFirst key
  rw [decide_eq_decide, Prod.Lex.toLex_le_toLex]

theorem afterCursor_iff {date id : ℕ} {row : DiscoveredContract} :
    afterCursor (some date) (some id) row = true ↔ key row < toLex (date, id) := by
  unfold afterCursor key
  dsimp only
  rw [decide_eq_true_eq, Prod.Lex.toLex_lt_toLex]

section Pages

variable {rows : List DiscoveredContract} {limit : ℕ} {row : DiscoveredContract}

/-- The listed rows that the cursor has not passed. -/
def remaining (rows : List DiscoveredContract) (cursor : Option (ℕ × ℕ)) :
    List DiscoveredContract :=
  rows.filter fun row ↦ row.ready ∧ row.permissionsVerified ∧
    afterCursor (cursor.map Prod.fst) (cursor.map Prod.snd) row

theorem listContracts_eq (cursor : Option (ℕ × ℕ)) :
    listContracts rows limit (cursor.map Prod.fst) (cursor.map Prod.snd) =
      keysetPage key (remaining rows cursor) limit := by
  unfold listContracts keysetPage remaining
  rw [discoveredFirst_eq]

theorem mem_remaining_none : row ∈ remaining rows none ↔ row ∈ rows ∧ row.listed := by
  unfold remaining DiscoveredContract.listed
  rw [List.mem_filter, decide_eq_true_eq]
  exact and_congr_right' ⟨fun h ↦ ⟨h.1, h.2.1⟩, fun h ↦ ⟨h.1, h.2, rfl⟩⟩

theorem mem_remaining_some {cursor : ℕ × ℕ} :
    row ∈ remaining rows (some cursor) ↔ row ∈ rows ∧ row.listed ∧ key row < toLex cursor := by
  unfold remaining DiscoveredContract.listed
  rw [List.mem_filter, decide_eq_true_eq, Option.map_some, Option.map_some, afterCursor_iff,
    and_assoc]

end Pages

namespace ContractTable

structure WellFormed (t : ContractTable) : Prop where
  ids : (t.rows.map fun row ↦ row.id).Nodup
  addresses : (t.rows.map fun row ↦ row.address).Nodup
  id_lt : ∀ row ∈ t.rows, row.id < t.nextId
  discovered_le : ∀ row ∈ t.rows, row.discoveredAt ≤ t.clock
  clock_lt : t.clock < cursorDateEnd
  nextId_le : t.nextId ≤ maxDbInt + 1

/-- What a change of the table can do.  A row is an old one or newer than all before. -/
structure Moves (t t' : ContractTable) : Prop where
  wellFormed : t'.WellFormed
  clock_le : t.clock ≤ t'.clock
  nextId_le : t.nextId ≤ t'.nextId
  rows : ∀ row' ∈ t'.rows,
    (∃ row ∈ t.rows, row.id = row'.id ∧ row.address = row'.address ∧
      row.discoveredAt = row'.discoveredAt) ∨
    t.nextId ≤ row'.id ∧ t.clock ≤ row'.discoveredAt

variable {t t' : ContractTable}

theorem WellFormed.keys (h : t.WellFormed) : (t.rows.map key).Nodup := by
  refine List.Nodup.of_map (fun k : ℕ ×ₗ ℕ ↦ (ofLex k).2) ?_
  rw [List.map_map]
  exact h.ids

theorem WellFormed.discover (h : t.WellFormed) {contract : Db.Contract} {now : ℕ}
    (hdiscover : t.discover contract now = some t') : t.Moves t' := by
  unfold ContractTable.discover at hdiscover
  split at hdiscover
  · next hguard =>
      obtain ⟨hclock, hdate, hid, haddress⟩ := hguard
      obtain rfl := Option.some.inj hdiscover
      refine ⟨⟨?_, ?_, ?_, ?_, hdate, Nat.succ_le_succ hid⟩, hclock, Nat.le_succ _, ?_⟩
      · rw [List.map_append, List.nodup_append]
        refine ⟨h.ids, List.nodup_singleton _, ?_⟩
        rintro a ha b hb rfl
        obtain ⟨row, hrow, rfl⟩ := List.mem_map.mp ha
        exact absurd (h.id_lt row hrow) (List.mem_singleton.mp hb ▸ lt_irrefl _)
      · rw [List.map_append, List.nodup_append]
        refine ⟨h.addresses, List.nodup_singleton _, ?_⟩
        rintro a ha b hb rfl
        obtain ⟨row, hrow, rfl⟩ := List.mem_map.mp ha
        exact haddress row hrow (List.mem_singleton.mp hb)
      · intro row hrow
        rcases List.mem_append.mp hrow with hrow | hrow
        · exact Nat.lt_succ_of_lt (h.id_lt row hrow)
        · rw [List.mem_singleton.mp hrow]
          exact Nat.lt_succ_self _
      · intro row hrow
        rcases List.mem_append.mp hrow with hrow | hrow
        · exact (h.discovered_le row hrow).trans hclock
        · rw [List.mem_singleton.mp hrow]
      · intro row hrow
        rcases List.mem_append.mp hrow with hrow | hrow
        · exact .inl ⟨row, hrow, rfl, rfl, rfl⟩
        · rw [List.mem_singleton.mp hrow]
          exact .inr ⟨le_rfl, hclock⟩
  · cases hdiscover

theorem WellFormed.remove (h : t.WellFormed) (id : ℕ) : t.Moves (t.remove id) where
  wellFormed :=
    { ids := h.ids.sublist (List.filter_sublist.map _)
      addresses := h.addresses.sublist (List.filter_sublist.map _)
      id_lt := fun row hrow ↦ h.id_lt row (List.mem_of_mem_filter hrow)
      discovered_le := fun row hrow ↦ h.discovered_le row (List.mem_of_mem_filter hrow)
      clock_lt := h.clock_lt
      nextId_le := h.nextId_le }
  clock_le := le_rfl
  nextId_le := le_rfl
  rows := fun row hrow ↦ .inl ⟨row, List.mem_of_mem_filter hrow, rfl, rfl, rfl⟩

theorem updateRow_keeps (contract : Db.Contract) (row : DiscoveredContract) :
    (updateRow contract row).id = row.id ∧ (updateRow contract row).address = row.address ∧
      (updateRow contract row).discoveredAt = row.discoveredAt := by
  unfold updateRow
  split
  · next hid => exact ⟨hid.symm, rfl, rfl⟩
  · exact ⟨rfl, rfl, rfl⟩

theorem WellFormed.update (h : t.WellFormed) (contract : Db.Contract) :
    t.Moves (t.update contract) where
  wellFormed :=
    { ids := by
        refine (congrArg List.Nodup ?_).mpr h.ids
        exact List.map_map.trans
          (List.map_congr_left fun row _ ↦ (updateRow_keeps contract row).1)
      addresses := by
        refine (congrArg List.Nodup ?_).mpr h.addresses
        exact List.map_map.trans
          (List.map_congr_left fun row _ ↦ (updateRow_keeps contract row).2.1)
      id_lt := by
        intro row hrow
        obtain ⟨old, hold, rfl⟩ := List.mem_map.mp hrow
        rw [(updateRow_keeps contract old).1]
        exact h.id_lt old hold
      discovered_le := by
        intro row hrow
        obtain ⟨old, hold, rfl⟩ := List.mem_map.mp hrow
        rw [(updateRow_keeps contract old).2.2]
        exact h.discovered_le old hold
      clock_lt := h.clock_lt
      nextId_le := h.nextId_le }
  clock_le := le_rfl
  nextId_le := le_rfl
  rows := by
    intro row hrow
    obtain ⟨old, hold, rfl⟩ := List.mem_map.mp hrow
    obtain ⟨hid, haddress, hdate⟩ := updateRow_keeps contract old
    exact .inl ⟨old, hold, hid.symm, haddress.symm, hdate.symm⟩

end ContractTable

namespace ContractListing

variable {s t : ContractListing}

/-- A step changes the table, or reads a page. -/
theorem step_cases (hwf : s.table.WellFormed) {a : ListingAction} (h : s.step a = some t) :
    s.table.Moves t.table ∧ t.fetch = s.fetch ∧ (∀ failed, a ≠ .read failed) ∨
    ∃ failed, a = .read failed ∧ s.fetch.ended = none ∧
      t = { s with fetch := s.fetch.readPage (if failed then none else some s.page) } := by
  cases a with
  | discover contract now =>
      obtain ⟨table, htable, rfl⟩ := Option.map_eq_some_iff.mp h
      exact .inl ⟨hwf.discover htable, rfl, fun _ h ↦ by cases h⟩
  | remove id =>
      obtain rfl := Option.some.inj h
      exact .inl ⟨hwf.remove id, rfl, fun _ h ↦ by cases h⟩
  | update contract =>
      obtain rfl := Option.some.inj h
      exact .inl ⟨hwf.update contract, rfl, fun _ h ↦ by cases h⟩
  | read failed =>
      unfold step at h
      dsimp only at h
      split at h
      · next hended => exact .inr ⟨failed, rfl, hended, (Option.some.inj h).symm⟩
      · cases h

/-- The cursor has passed the row. -/
def Passed (cursor : Option (ℕ × ℕ)) (row : DiscoveredContract) : Prop :=
  ∃ c ∈ cursor, ¬key row < toLex c

theorem mem_remaining {rows : List DiscoveredContract} {cursor : Option (ℕ × ℕ)}
    {row : DiscoveredContract} :
    row ∈ remaining rows cursor ↔ row ∈ rows ∧ row.listed ∧ ¬Passed cursor row := by
  cases cursor with
  | none =>
      rw [mem_remaining_none]
      simp [Passed]
  | some c =>
      rw [mem_remaining_some]
      simp [Passed]

/-- The entry of a listed contract. -/
def entryOf (row : DiscoveredContract) : String × ContractSummary :=
  (row.address, ⟨row.address, true, row.discoveredAt⟩)

/-- The contract with this id was there, ready and verified, in all states of the run. -/
def ListedThroughout (table : ContractTable) (as : List ListingAction) (id : ℕ) : Prop :=
  ∀ front s, front <+: as → (contractListingSystem table).Run front s →
    ∃ row ∈ s.table.rows, row.id = id ∧ row.listed

/-- While the client reads: `steady` holds of the ids listed all the time. -/
structure Reading (steady : ℕ → Prop) (s : ContractListing) : Prop where
  cursor_old : ∀ c ∈ s.fetch.cursor, c.1 ≤ s.table.clock ∧ c.2 < s.table.nextId
  first : s.fetch.cursor = none → s.fetch.contracts = []
  passed : ∀ row ∈ s.table.rows, row.address ∈ s.fetch.contracts.keys →
    Passed s.fetch.cursor row
  kept : ∀ row ∈ s.table.rows, steady row.id → Passed s.fetch.cursor row →
    entryOf row ∈ s.fetch.contracts

def Complete (steady : ℕ → Prop) (s : ContractListing) : Prop :=
  ∀ row ∈ s.table.rows, steady row.id → entryOf row ∈ s.fetch.contracts

structure Invariant (steady : ℕ → Prop) (s : ContractListing) : Prop where
  wellFormed : s.table.WellFormed
  nodup : s.fetch.contracts.keys.Nodup
  entries : ∀ entry ∈ s.fetch.contracts, entry.2.address = entry.1
  reading : s.fetch.ended = none → s.Reading steady
  finished : s.fetch.ended = some .finished → s.Complete steady

variable {steady : ℕ → Prop}

/-- New rows come before the cursor, the others stay where they were. -/
theorem Invariant.moved (h : s.Invariant steady) (hmoves : s.table.Moves t.table)
    (hfetch : t.fetch = s.fetch)
    (hsteady : ∀ id, steady id → ∃ row ∈ s.table.rows, row.id = id) : t.Invariant steady := by
  have hkey {row row' : DiscoveredContract} (hid : row.id = row'.id)
      (hdate : row.discoveredAt = row'.discoveredAt) : key row' = key row := by
    unfold key
    rw [hid, hdate]
  have hold (row' : DiscoveredContract) (hrow' : row' ∈ t.table.rows) (hsteady' : steady row'.id) :
      ∃ row ∈ s.table.rows, row.id = row'.id ∧ row.address = row'.address ∧
        row.discoveredAt = row'.discoveredAt := by
    refine (hmoves.rows row' hrow').resolve_right fun hnew ↦ ?_
    obtain ⟨row, hrow, hid⟩ := hsteady _ hsteady'
    have hlt := h.wellFormed.id_lt row hrow
    omega
  have hentry {row row' : DiscoveredContract} (haddress : row.address = row'.address)
      (hdate : row.discoveredAt = row'.discoveredAt) : entryOf row' = entryOf row := by
    unfold entryOf
    rw [haddress, hdate]
  refine ⟨hmoves.wellFormed, hfetch ▸ h.nodup, hfetch ▸ h.entries, ?_, ?_⟩
  · rw [hfetch]
    intro hended
    have hreading := h.reading hended
    refine ⟨?_, hfetch ▸ hreading.first, ?_, ?_⟩
    · rw [hfetch]
      intro c hc
      obtain ⟨hclock, hid⟩ := hreading.cursor_old c hc
      exact ⟨hclock.trans hmoves.clock_le, hid.trans_le hmoves.nextId_le⟩
    · rw [hfetch]
      intro row' hrow' hmem
      rcases hmoves.rows row' hrow' with ⟨row, hrow, hid, haddress, hdate⟩ | ⟨hid, hdate⟩
      · unfold Passed
        rw [hkey hid hdate]
        exact hreading.passed row hrow (haddress ▸ hmem)
      · cases hcursor : s.fetch.cursor with
        | none =>
            rw [hreading.first hcursor] at hmem
            cases hmem
        | some c =>
            obtain ⟨hclock, hnext⟩ := hreading.cursor_old c hcursor
            refine ⟨c, rfl, fun hlt ↦ ?_⟩
            rcases Prod.Lex.toLex_lt_toLex.mp hlt with hlt | ⟨heq, hlt⟩
            · exact absurd hlt (not_lt.mpr (hclock.trans hdate))
            · exact absurd hlt (not_lt.mpr (hnext.le.trans hid))
    · rw [hfetch]
      intro row' hrow' hsteady' hpassed
      obtain ⟨row, hrow, hid, haddress, hdate⟩ := hold row' hrow' hsteady'
      rw [hentry haddress hdate]
      unfold Passed at hpassed
      rw [hkey hid hdate] at hpassed
      exact hreading.kept row hrow (hid ▸ hsteady') hpassed
  · rw [hfetch]
    intro hended row' hrow' hsteady'
    obtain ⟨row, hrow, hid, haddress, hdate⟩ := hold row' hrow' hsteady'
    rw [hfetch, hentry haddress hdate]
    exact h.finished hended row hrow (hid ▸ hsteady')

/-! ## Reading a page -/

theorem foldl_keepContract {contracts : InsertionMap String ContractSummary}
    {rows : List DiscoveredContract} (hnodup : (rows.map fun row ↦ row.address).Nodup)
    (hnew : ∀ row ∈ rows, row.address ∉ contracts.keys) :
    (rows.map DiscoveredContract.toItem).foldl ContractsFetch.keepContract contracts =
      contracts ++ rows.map fun row ↦ (row.address, row.summary) := by
  induction rows generalizing contracts with
  | nil => rw [List.map_nil, List.map_nil, List.append_nil, List.foldl_nil]
  | cons row rows ih =>
      obtain ⟨hrow, hrest⟩ := List.nodup_cons.mp hnodup
      have hnot := hnew row List.mem_cons_self
      have hkeep : ContractsFetch.keepContract contracts row.toItem =
          contracts ++ [(row.address, row.summary)] := by
        have haddress : (toContractSummary row.toItem).address = row.address := rfl
        unfold ContractsFetch.keepContract
        dsimp only
        rw [haddress, if_neg (mt InsertionMap.has_iff.mp hnot), InsertionMap.set_of_not_mem hnot]
        rfl
      rw [List.map_cons, List.foldl_cons, hkeep, ih hrest, List.append_assoc]
      · rfl
      · intro other hother hmem
        rw [InsertionMap.keys, List.map_append, List.mem_append] at hmem
        rcases hmem with hmem | hmem
        · exact hnew other (List.mem_cons_of_mem _ hother) hmem
        · exact hrow (List.mem_map.mpr ⟨other, hother, List.mem_singleton.mp hmem⟩)

/-- The rows of the next page. -/
def pageRows (s : ContractListing) : List DiscoveredContract :=
  keysetPage key (remaining s.table.rows s.fetch.cursor) contractsPageLimit

theorem Reading.page_eq (h : s.Reading steady) (hwf : s.table.WellFormed) :
    s.page = s.pageRows.map DiscoveredContract.toItem := by
  have hdate : (s.fetch.cursor.bind fun cursor ↦ optionalCursorDate cursor.1) =
      s.fetch.cursor.map Prod.fst := by
    cases hcursor : s.fetch.cursor with
    | none => rfl
    | some c => exact if_pos ((h.cursor_old c hcursor).1.trans_lt hwf.clock_lt)
  have hid : (s.fetch.cursor.bind fun cursor ↦ optionalCursorId cursor.2) =
      s.fetch.cursor.map Prod.snd := by
    cases hcursor : s.fetch.cursor with
    | none => rfl
    | some c =>
        have hlt := (h.cursor_old c hcursor).2.trans_le hwf.nextId_le
        exact if_pos (Nat.lt_succ_iff.mp hlt)
  unfold page pageRows
  rw [hdate, hid, listContracts_eq]

theorem mem_pageRows {row : DiscoveredContract} (h : row ∈ s.pageRows) :
    row ∈ s.table.rows ∧ row.listed ∧ ¬Passed s.fetch.cursor row :=
  mem_remaining.mp (mem_of_mem_keysetPage key h)

theorem entryOf_eq {row : DiscoveredContract} (h : row.listed) :
    entryOf row = (row.address, row.summary) := by
  unfold entryOf DiscoveredContract.summary
  rw [h.2]

/-- What the client has after a page. -/
theorem Invariant.contracts_eq (h : s.Invariant steady) (hended : s.fetch.ended = none) :
    s.page.foldl ContractsFetch.keepContract s.fetch.contracts =
      s.fetch.contracts ++ s.pageRows.map fun row ↦ (row.address, row.summary) := by
  have hreading := h.reading hended
  rw [hreading.page_eq h.wellFormed]
  refine foldl_keepContract ?_ fun row hrow hmem ↦ ?_
  · exact nodup_map_keysetPage key _ (h.wellFormed.addresses.sublist (List.filter_sublist.map _))
  · obtain ⟨hrows, -, hnot⟩ := mem_pageRows hrow
    exact hnot (hreading.passed row hrows hmem)

section ReadPage

variable {contracts : InsertionMap String ContractSummary}
  (hcontracts : contracts =
    s.fetch.contracts ++ s.pageRows.map fun row ↦ (row.address, row.summary))

include hcontracts

theorem Invariant.nodup_contracts (h : s.Invariant steady) (hended : s.fetch.ended = none) :
    contracts.keys.Nodup := by
  rw [hcontracts, InsertionMap.keys, List.map_append, List.map_map, List.nodup_append]
  refine ⟨h.nodup, ?_, ?_⟩
  · exact nodup_map_keysetPage key _ (h.wellFormed.addresses.sublist (List.filter_sublist.map _))
  · rintro a ha b hb rfl
    obtain ⟨row, hrow, rfl⟩ := List.mem_map.mp hb
    obtain ⟨hrows, -, hnot⟩ := mem_pageRows hrow
    exact hnot ((h.reading hended).passed row hrows ha)

theorem Invariant.entries_contracts (h : s.Invariant steady) :
    ∀ entry ∈ contracts, entry.2.address = entry.1 := by
  rw [hcontracts]
  intro entry hentry
  rcases List.mem_append.mp hentry with hentry | hentry
  · exact h.entries entry hentry
  · obtain ⟨row, -, rfl⟩ := List.mem_map.mp hentry
    rfl

/-- A listed row that the page does not come before is in it, or was passed before. -/
theorem Invariant.entry_mem (h : s.Invariant steady) (hended : s.fetch.ended = none)
    (hsteady : ∀ id, steady id → ∃ row ∈ s.table.rows, row.id = id ∧ row.listed)
    {row : DiscoveredContract} (hrow : row ∈ s.table.rows) (hid : steady row.id)
    (hpage : row ∈ remaining s.table.rows s.fetch.cursor → row ∈ s.pageRows) :
    entryOf row ∈ contracts := by
  rw [hcontracts, List.mem_append]
  have hlisted : row.listed := by
    obtain ⟨same, hsame, heq, hlisted⟩ := hsteady _ hid
    rwa [← List.inj_on_of_nodup_map h.wellFormed.ids hsame hrow heq]
  by_cases hpassed : Passed s.fetch.cursor row
  · exact .inl ((h.reading hended).kept row hrow hid hpassed)
  · right
    rw [entryOf_eq hlisted]
    exact List.mem_map_of_mem (hpage (mem_remaining.mpr ⟨hrow, hlisted, hpassed⟩))

/-- The cursor moves to the last row of a full page. -/
theorem Invariant.reading_next (h : s.Invariant steady) (hended : s.fetch.ended = none)
    (hsteady : ∀ id, steady id → ∃ row ∈ s.table.rows, row.id = id ∧ row.listed)
    {last : DiscoveredContract} (hlast : s.pageRows.getLast? = some last) (page : ℕ)
    (ended : Option FetchEnd) :
    Reading steady { s with
      fetch := ⟨page, contracts, some (last.discoveredAt, last.id), ended⟩ } := by
  obtain ⟨hlastrows, -, hlastnot⟩ := mem_pageRows (List.mem_of_getLast? hlast)
  have hreading := h.reading hended
  refine ⟨?_, (nomatch ·), ?_, ?_⟩
  · rintro _ ⟨⟩
    exact ⟨h.wellFormed.discovered_le last hlastrows, h.wellFormed.id_lt last hlastrows⟩
  · intro row hrow hmem
    refine ⟨_, rfl, ?_⟩
    change ¬key row < key last
    change row.address ∈ contracts.keys at hmem
    rw [hcontracts, InsertionMap.keys, List.map_append, List.map_map, List.mem_append] at hmem
    rcases hmem with hmem | hmem
    · obtain ⟨c, hc, hnot⟩ := hreading.passed row hrow hmem
      refine fun hlt ↦ hlastnot ⟨c, hc, fun hlast ↦ hnot (hlt.trans hlast)⟩
    · obtain ⟨same, hsame, haddress⟩ := List.mem_map.mp hmem
      obtain rfl := List.inj_on_of_nodup_map h.wellFormed.addresses (mem_pageRows hsame).1 hrow
        haddress
      exact not_lt.mpr (le_of_mem_keysetPage key hlast hsame)
  · rintro row hrow hid ⟨_, ⟨⟩, hnot⟩
    refine h.entry_mem hcontracts hended hsteady hrow hid fun hremaining ↦ ?_
    by_contra hpage
    refine hnot (lt_of_notMem_keysetPage key ?_ hlast hremaining hpage)
    exact h.wellFormed.keys.sublist (List.filter_sublist.map _)

end ReadPage

/-- A page of another length than the limit is short; one without a new address is empty. -/
theorem Invariant.short_page (h : s.Invariant steady) (hended : s.fetch.ended = none)
    {contracts : InsertionMap String ContractSummary}
    (hcontracts : contracts =
      s.fetch.contracts ++ s.pageRows.map fun row ↦ (row.address, row.summary))
    (hstop : s.page.length ≠ contractsPageLimit ∨ contracts.length = s.fetch.contracts.length) :
    s.pageRows.length < contractsPageLimit := by
  have hle : s.pageRows.length ≤ contractsPageLimit := length_keysetPage_le key _ _
  rw [(h.reading hended).page_eq h.wellFormed, List.length_map, hcontracts, List.length_append,
    List.length_map] at hstop
  rcases hstop with hne | heq
  · exact lt_of_le_of_ne hle hne
  · have hzero : s.pageRows.length = 0 := by omega
    rw [hzero]
    decide

theorem Invariant.read (h : s.Invariant steady) (hended : s.fetch.ended = none)
    (hsteady : ∀ id, steady id → ∃ row ∈ s.table.rows, row.id = id ∧ row.listed) (failed : Bool) :
    Invariant steady
      { s with fetch := s.fetch.readPage (if failed then none else some s.page) } := by
  cases failed with
  | true => exact ⟨h.wellFormed, h.nodup, h.entries, (nomatch ·), (nomatch ·)⟩
  | false =>
      have hcontracts := h.contracts_eq hended
      have hnodup := h.nodup_contracts hcontracts hended
      have hentries := h.entries_contracts hcontracts
      have hcursor : (s.page.getLast?.bind ContractItem.cursor) =
          s.pageRows.getLast?.map fun row ↦ (row.discoveredAt, row.id) := by
        rw [(h.reading hended).page_eq h.wellFormed, List.getLast?_map]
        cases s.pageRows.getLast? <;> rfl
      rw [if_neg Bool.false_ne_true]
      unfold ContractsFetch.readPage
      dsimp only
      rw [hcursor]
      split
      · next hstop =>
          refine ⟨h.wellFormed, hnodup, hentries, (nomatch ·), fun _ row hrow hid ↦ ?_⟩
          refine h.entry_mem hcontracts hended hsteady hrow hid fun hremaining ↦ ?_
          exact mem_keysetPage_of_length_lt key (h.short_page hended hcontracts hstop) hremaining
      · next hgo =>
          cases hlast : s.pageRows.getLast? with
          | none =>
              -- a full page is not empty
              rw [List.getLast?_eq_none_iff] at hlast
              rw [(h.reading hended).page_eq h.wellFormed, hlast] at hgo
              exact absurd (.inl (by decide)) hgo
          | some last =>
              refine ⟨h.wellFormed, hnodup, hentries, fun _ ↦ ?_, fun hfinished ↦ ?_⟩
              · exact h.reading_next hcontracts hended hsteady hlast _ _
              · dsimp only [Option.map_some] at hfinished
                split at hfinished <;> cases hfinished

end ContractListing

open ContractListing

theorem listedThroughout_concat {table : ContractTable} {as : List ListingAction}
    {a : ListingAction} {id : ℕ} (h : ListedThroughout table (as ++ [a]) id) :
    ListedThroughout table as id := fun front s hfront hrun ↦
  h front s (hfront.trans (List.prefix_append as [a])) hrun

theorem ContractListing.invariant {table : ContractTable} (hwf : table.WellFormed)
    {as : List ListingAction} {s : ContractListing}
    (h : (contractListingSystem table).Run as s) : s.Invariant (ListedThroughout table as) := by
  refine TransitionSystem.Run.invariant
    (fun as s ↦ s.Invariant (ListedThroughout table as)) ?_ ?_ h
  · rintro _ rfl
    refine ⟨hwf, List.nodup_nil, fun entry hentry ↦ (nomatch hentry), fun _ ↦ ?_, (nomatch ·)⟩
    refine ⟨fun c hc ↦ (nomatch hc), fun _ ↦ rfl, ?_, ?_⟩
    · intro row _ hmem
      cases hmem
    · rintro row _ _ ⟨c, hc, -⟩
      cases hc
  · intro as s a t hrun hs hstep
    -- what is listed until after the step was listed before it
    have hweak : s.Invariant (ListedThroughout table (as ++ [a])) :=
      { hs with
        reading := fun hended ↦
          { hs.reading hended with
            kept := fun row hrow hid ↦
              (hs.reading hended).kept row hrow (listedThroughout_concat hid) }
        finished := fun hended row hrow hid ↦
          hs.finished hended row hrow (listedThroughout_concat hid) }
    have hnow (id : ℕ) (hid : ListedThroughout table (as ++ [a]) id) :
        ∃ row ∈ s.table.rows, row.id = id ∧ row.listed :=
      hid as s (List.prefix_append as [a]) hrun
    rcases step_cases hs.wellFormed hstep with ⟨hmoves, hfetch, -⟩ | ⟨failed, rfl, hended, rfl⟩
    · refine hweak.moved hmoves hfetch fun id hid ↦ ?_
      obtain ⟨row, hrow, hrowid, -⟩ := hnow id hid
      exact ⟨row, hrow, hrowid⟩
    · exact hweak.read hended hnow failed

/-! ## The reading ends -/

def ListingAction.isRead : ListingAction → Bool
  | read _ => true
  | _ => false

theorem ContractsFetch.readPage_page (fetch : ContractsFetch) (data : Option (List ContractItem))
    (h : (fetch.readPage data).ended = none) :
    (fetch.readPage data).page = fetch.page + 1 ∧ fetch.page + 1 < contractsMaxPages := by
  unfold readPage at h ⊢
  split at h
  · cases h
  · dsimp only at h ⊢
    split at h
    · cases h
    · next hgo =>
        rw [if_neg hgo]
        split at h
        · cases h
        · next hcursor =>
            dsimp only at h ⊢
            split at h
            · next hlt => exact ⟨rfl, hlt⟩
            · cases h

/-- The pages of a reading client are the reads; no client reads after the last page. -/
theorem ContractListing.reads {table : ContractTable} (hwf : table.WellFormed)
    {as : List ListingAction} {s : ContractListing}
    (h : (contractListingSystem table).Run as s) :
    as.countP ListingAction.isRead ≤ contractsMaxPages ∧
      (s.fetch.ended = none →
        as.countP ListingAction.isRead = s.fetch.page ∧ s.fetch.page < contractsMaxPages) := by
  refine TransitionSystem.Run.invariant (fun as s ↦
    as.countP ListingAction.isRead ≤ contractsMaxPages ∧
      (s.fetch.ended = none → as.countP ListingAction.isRead = s.fetch.page ∧
        s.fetch.page < contractsMaxPages)) ?_ ?_ h
  · rintro _ rfl
    exact ⟨Nat.zero_le _, fun _ ↦ ⟨rfl, (by decide : 0 < contractsMaxPages)⟩⟩
  · rintro as s a t hrun ⟨hle, hpage⟩ hstep
    rw [List.countP_append, List.countP_singleton]
    rcases step_cases (ContractListing.invariant hwf hrun).wellFormed hstep with
      ⟨-, hfetch, hnot⟩ | ⟨failed, rfl, hended, rfl⟩
    · have hno : a.isRead = false := by
        cases a with
        | read failed => exact absurd rfl (hnot failed)
        | _ => rfl
      rw [hno, hfetch]
      exact ⟨hle, hpage⟩
    · obtain ⟨hcount, hlt⟩ := hpage hended
      refine ⟨?_, fun hnone ↦ ?_⟩
      · rw [hcount]
        exact hlt
      · obtain ⟨hnext, hlast⟩ := s.fetch.readPage_page _ hnone
        rw [hcount]
        exact ⟨hnext.symm, hnext.symm ▸ hlast⟩

/-- Whatever is discovered, removed or changed between the pages: the contracts that are
listed all the time are returned exactly once, no address twice, and at most fifty pages
are read, after which, if not before, the client returns. -/
theorem contract_pages_lose_nothing {table : ContractTable} (hwf : table.WellFormed)
    {as : List ListingAction} {s : ContractListing}
    (h : (contractListingSystem table).Run as s) :
    (∀ result ∈ s.fetch.result, (result.map ContractSummary.address).Nodup) ∧
    (s.fetch.ended = some .finished → ∀ id, ListedThroughout table as id →
      ∃ row ∈ s.table.rows, row.id = id ∧ ∃ result ∈ s.fetch.result, row.summary ∈ result ∧
        result.countP (fun contract ↦ contract.address = row.address) = 1) ∧
    as.countP ListingAction.isRead ≤ contractsMaxPages ∧
    (as.countP ListingAction.isRead = contractsMaxPages → s.fetch.ended ≠ none) ∧
    (s.fetch.ended = none → ∀ failed, ∃ t, s.step (.read failed) = some t) := by
  have hs := ContractListing.invariant hwf h
  obtain ⟨hle, hpage⟩ := ContractListing.reads hwf h
  have haddresses : s.fetch.contracts.values.map ContractSummary.address =
      s.fetch.contracts.keys := by
    unfold InsertionMap.values InsertionMap.keys
    rw [List.map_map]
    exact List.map_congr_left fun entry hentry ↦ hs.entries entry hentry
  refine ⟨?_, ?_, hle, ?_, ?_⟩
  · intro result hresult
    obtain ⟨ended, -, rfl⟩ := Option.map_eq_some_iff.mp hresult
    split
    · exact List.nodup_nil
    · rw [haddresses]
      exact hs.nodup
  · intro hfinished id hid
    obtain ⟨row, hrow, rfl, hlisted⟩ := hid as s (List.prefix_refl as) h
    have hmem : row.summary ∈ s.fetch.contracts.values := by
      have hentry := hs.finished hfinished row hrow hid
      rw [entryOf_eq hlisted] at hentry
      exact List.mem_map_of_mem hentry
    refine ⟨row, hrow, rfl, s.fetch.contracts.values, ?_, hmem, ?_⟩
    · unfold ContractsFetch.result
      rw [hfinished]
      rfl
    · have hcount := List.count_eq_one_of_mem (haddresses ▸ hs.nodup)
        (List.mem_map_of_mem (f := ContractSummary.address) hmem)
      rw [List.count_eq_countP, List.countP_map] at hcount
      exact hcount
  · intro hall hended
    obtain ⟨hcount, hlt⟩ := hpage hended
    omega
  · intro hended failed
    exact ⟨_, if_pos hended⟩

namespace Walkthrough

def vault (n : ℕ) : DiscoveredContract where
  id := n
  address := decimal n
  parent := none
  ready := true
  permissionsVerified := true
  discoveredAtBlock := some 5
  synced := true
  discoveredAt := 1000 + n

/-- One vault more than a page holds, the latest first. -/
def vaultTable : ContractTable := ⟨(List.range' 1 201).reverse.map vault, 202, 2000⟩

/-- Between the two pages a vault is discovered and another one is removed. -/
def listingActions : List ListingAction :=
  [.read false, .discover (vault 202).toContract 3000, .remove 100, .read false]

theorem mem_vaultTable {row : DiscoveredContract} :
    row ∈ vaultTable.rows ↔ ∃ n, 1 ≤ n ∧ n ≤ 201 ∧ vault n = row := by
  change row ∈ (List.range' 1 201).reverse.map vault ↔ _
  simp only [List.mem_map, List.mem_reverse, List.mem_range'_1]
  exact exists_congr fun n ↦
    ⟨fun ⟨⟨hpos, hlt⟩, hrow⟩ ↦ ⟨hpos, by omega, hrow⟩,
      fun ⟨hpos, hle, hrow⟩ ↦ ⟨⟨hpos, by omega⟩, hrow⟩⟩

theorem vaultTable_wellFormed : vaultTable.WellFormed where
  ids := by
    change (((List.range' 1 201).reverse.map vault).map fun row ↦ row.id).Nodup
    rw [List.map_map]
    exact (List.nodup_reverse.mpr List.nodup_range').map fun _ _ h ↦ h
  addresses := by
    change (((List.range' 1 201).reverse.map vault).map fun row ↦ row.address).Nodup
    rw [List.map_map]
    exact (List.nodup_reverse.mpr List.nodup_range').map decimal_injective
  id_lt := by
    intro row hrow
    obtain ⟨n, -, hle, rfl⟩ := mem_vaultTable.mp hrow
    exact Nat.lt_succ_of_le hle
  discovered_le := by
    intro row hrow
    obtain ⟨n, -, hle, rfl⟩ := mem_vaultTable.mp hrow
    change 1000 + n ≤ 2000
    omega
  clock_lt := by decide
  nextId_le := by decide

/-- The vaults that stay are in the table. -/
def KeepsVaults (s : ContractListing) : Prop :=
  ∀ n, 1 ≤ n → n ≤ 201 → n ≠ 100 → vault n ∈ s.table.rows

theorem keepsVaults_run {front : List ListingAction} {s : ContractListing}
    (hfront : front <+: listingActions) (h : (contractListingSystem vaultTable).Run front s) :
    KeepsVaults s := by
  have hinvariant : (∀ a ∈ front, a ∈ listingActions) → KeepsVaults s := by
    refine TransitionSystem.Run.invariant
      (fun as s ↦ (∀ a ∈ as, a ∈ listingActions) → KeepsVaults s) ?_ ?_ h
    · rintro _ rfl _ n hpos hle -
      exact mem_vaultTable.mpr ⟨n, hpos, hle, rfl⟩
    · intro as s a t _ ih hstep hactions
      obtain ⟨has, ha⟩ := List.forall_mem_append.mp hactions
      have hs := ih has
      have hread (hstep : s.step (.read false) = some t) : KeepsVaults t := by
        obtain ⟨-, ht⟩ := Option.ite_none_right_eq_some.mp hstep
        rw [← Option.some.inj ht]
        exact hs
      have ha := ha a (List.mem_singleton_self a)
      simp only [listingActions, List.mem_cons, List.not_mem_nil, or_false] at ha
      rcases ha with rfl | rfl | rfl | rfl
      · exact hread hstep
      · obtain ⟨table, htable, rfl⟩ := Option.map_eq_some_iff.mp hstep
        obtain ⟨-, htable⟩ := Option.ite_none_right_eq_some.mp htable
        rw [← Option.some.inj htable]
        exact fun n hpos hle hne ↦ List.mem_append_left _ (hs n hpos hle hne)
      · obtain rfl := Option.some.inj hstep
        exact fun n hpos hle hne ↦ List.mem_filter.mpr ⟨hs n hpos hle hne, decide_eq_true hne⟩
      · exact hread hstep
  exact hinvariant fun a ha ↦ hfront.subset ha

theorem vaults_listed_throughout {n : ℕ} (hpos : 1 ≤ n) (hle : n ≤ 201) (hne : n ≠ 100) :
    ListedThroughout vaultTable listingActions n := fun _ _ hfront hrun ↦
  ⟨vault n, keepsVaults_run hfront hrun n hpos hle hne, rfl, rfl, rfl⟩

theorem readPage_full (fetch : ContractsFetch) {data : List ContractItem}
    {contracts : InsertionMap String ContractSummary} {cursor : ℕ × ℕ}
    (hcontracts : data.foldl ContractsFetch.keepContract fetch.contracts = contracts)
    (hfull : data.length = contractsPageLimit)
    (hnew : contracts.length ≠ fetch.contracts.length)
    (hcursor : data.getLast?.bind ContractItem.cursor = some cursor) :
    fetch.readPage (some data) = ⟨fetch.page + 1, contracts, some cursor,
      if fetch.page + 1 < contractsMaxPages then none else some .pageCap⟩ := by
  unfold ContractsFetch.readPage
  dsimp only
  rw [hcontracts, hcursor, if_neg (not_or.mpr ⟨not_not.mpr hfull, hnew⟩)]

theorem readPage_short (fetch : ContractsFetch) {data : List ContractItem}
    (hshort : data.length ≠ contractsPageLimit) :
    fetch.readPage (some data) =
      { fetch with
        contracts := data.foldl ContractsFetch.keepContract fetch.contracts
        ended := some .finished } := if_pos (Or.inl hshort)

/-- The first page. -/
def firstPage : List DiscoveredContract := (List.range' 2 200).reverse.map vault

theorem rows_vaultTable : vaultTable.rows = firstPage ++ [vault 1] := by
  change (1 :: List.range' 2 200).reverse.map vault = _
  rw [List.reverse_cons, List.map_append]
  rfl

theorem listContracts_vaultTable : listContracts vaultTable.rows 200 none none = firstPage := by
  have hall : (vaultTable.rows.filter fun row ↦ row.ready ∧ row.permissionsVerified ∧
      afterCursor none none row) = vaultTable.rows := by
    refine List.filter_eq_self.mpr fun row hrow ↦ ?_
    obtain ⟨n, -, -, rfl⟩ := mem_vaultTable.mp hrow
    rfl
  have hsorted : vaultTable.rows.Pairwise fun a b ↦ discoveredFirst a b = true := by
    refine List.pairwise_map.mpr (List.pairwise_reverse.mpr ?_)
    refine (List.pairwise_lt_range' 1).imp fun hlt ↦ decide_eq_true (Or.inl ?_)
    exact Nat.add_lt_add_left hlt 1000
  unfold listContracts
  rw [hall, List.mergeSort_of_pairwise hsorted, rows_vaultTable]
  refine List.take_left' ?_
  rw [firstPage, List.length_map, List.length_reverse, List.length_range']

/-- What the client has after it. -/
def firstContracts : InsertionMap String ContractSummary :=
  firstPage.map fun row ↦ (row.address, row.summary)

theorem length_firstPage : firstPage.length = 200 := by
  rw [firstPage, List.length_map, List.length_reverse, List.length_range']

theorem getLast?_firstPage : firstPage.getLast? = some (vault 2) := by
  have hsplit : firstPage = ((List.range' 3 199).reverse.map vault) ++ [vault 2] := by
    change (2 :: List.range' 3 199).reverse.map vault = _
    rw [List.reverse_cons, List.map_append]
    rfl
  rw [hsplit, List.getLast?_concat]

theorem first_read : ContractListing.step ⟨vaultTable, .start⟩ (.read false) =
    some ⟨vaultTable, 1, firstContracts, some (1002, 2), none⟩ := by
  have hpage : ContractListing.page ⟨vaultTable, .start⟩ =
      firstPage.map DiscoveredContract.toItem := by
    rw [← listContracts_vaultTable]
    rfl
  have hnodup : (firstPage.map fun row ↦ row.address).Nodup := by
    rw [firstPage, List.map_map]
    exact (List.nodup_reverse.mpr List.nodup_range').map decimal_injective
  have hcontracts := @foldl_keepContract [] _ hnodup fun _ _ ↦ List.not_mem_nil
  rw [List.nil_append] at hcontracts
  have hlength : firstContracts.length = 200 := by
    rw [firstContracts, List.length_map, length_firstPage]
  have hfull : (firstPage.map DiscoveredContract.toItem).length = contractsPageLimit := by
    rw [List.length_map, length_firstPage, contractsPageLimit]
  have hcursor : (firstPage.map DiscoveredContract.toItem).getLast?.bind ContractItem.cursor =
      some (1002, 2) := by
    rw [List.getLast?_map, getLast?_firstPage]
    rfl
  have hfetch := readPage_full .start hcontracts hfull (hlength ▸ by decide) hcursor
  change some (ContractListing.mk vaultTable (ContractsFetch.start.readPage (some
    (ContractListing.page ⟨vaultTable, .start⟩)))) = _
  rw [hpage, hfetch]
  rfl

/-- The vault discovered between the pages, before the cursor. -/
def lateVault : DiscoveredContract := ⟨(vault 202).toContract, 3000⟩

def laterTable : ContractTable :=
  ⟨(vaultTable.rows ++ [lateVault]).filter fun row ↦ row.id ≠ 100, 203, 3000⟩

theorem mem_laterTable {row : DiscoveredContract} (h : row ∈ laterTable.rows) :
    row ∈ vaultTable.rows ∨ row = lateVault := by
  dsimp only [laterTable] at h
  rw [List.mem_filter, List.mem_append, List.mem_singleton] at h
  exact h.1

theorem discovered : vaultTable.discover (vault 202).toContract 3000 =
    some ⟨vaultTable.rows ++ [lateVault], 203, 3000⟩ := by
  refine if_pos ⟨by decide, by decide, by decide, fun row hrow ↦ ?_⟩
  obtain ⟨n, -, hle, rfl⟩ := mem_vaultTable.mp hrow
  exact fun haddress ↦ absurd (decimal_injective haddress) (by omega)

/-- Only the first vault is left for the second page. -/
theorem remaining_laterTable : remaining laterTable.rows (some (1002, 2)) = [vault 1] := by
  have hpage : remaining (firstPage.filter fun row ↦ row.id ≠ 100) (some (1002, 2)) = [] := by
    refine List.filter_eq_nil_iff.mpr fun row hrow ↦ ?_
    obtain ⟨n, hn, rfl⟩ := List.mem_map.mp (List.mem_of_mem_filter hrow)
    have hle := (List.mem_range'_1.mp (List.mem_reverse.mp hn)).1
    have hnot : ¬((vault n).discoveredAt < 1002 ∨
        (vault n).discoveredAt = 1002 ∧ (vault n).id < 2) := by
      change ¬(1000 + n < 1002 ∨ 1000 + n = 1002 ∧ n < 2)
      omega
    simp only [Option.map_some, afterCursor, decide_eq_true_eq]
    exact fun h ↦ hnot h.2.2
  have hrest : remaining ([vault 1, lateVault].filter fun row ↦ row.id ≠ 100) (some (1002, 2)) =
      [vault 1] := rfl
  have happend (front back : List DiscoveredContract) :
      remaining (front ++ back) (some (1002, 2)) =
        remaining front (some (1002, 2)) ++ remaining back (some (1002, 2)) :=
    List.filter_append front back
  rw [laterTable, rows_vaultTable, List.append_assoc, List.filter_append, happend, hpage]
  exact hrest

theorem second_read : ContractListing.step
    ⟨laterTable, 1, firstContracts, some (1002, 2), none⟩ (.read false) =
    some ⟨laterTable, 1, firstContracts ++ [((vault 1).address, (vault 1).summary)],
      some (1002, 2), some .finished⟩ := by
  have hpage : ContractListing.page ⟨laterTable, 1, firstContracts, some (1002, 2), none⟩ =
      [(vault 1).toItem] := by
    change (listContracts laterTable.rows 200 ((some (1002, 2)).map Prod.fst)
      ((some (1002, 2)).map Prod.snd)).map _ = _
    rw [listContracts_eq (some (1002, 2)), remaining_laterTable, keysetPage,
      List.mergeSort_singleton]
    rfl
  have haddress : (vault 1).address ∉ firstContracts.keys := by
    rw [InsertionMap.keys, firstContracts, List.map_map]
    intro hmem
    obtain ⟨row, hrow, haddress⟩ := List.mem_map.mp hmem
    obtain ⟨n, hn, rfl⟩ := List.mem_map.mp hrow
    have hle := (List.mem_range'_1.mp (List.mem_reverse.mp hn)).1
    exact absurd (decimal_injective haddress) (by omega)
  have hcontracts : [(vault 1).toItem].foldl ContractsFetch.keepContract firstContracts =
      firstContracts ++ [((vault 1).address, (vault 1).summary)] :=
    @foldl_keepContract _ [vault 1] (List.nodup_singleton _)
      fun row hrow ↦ List.mem_singleton.mp hrow ▸ haddress
  change some (ContractListing.mk laterTable (ContractsFetch.readPage _ (some
    (ContractListing.page ⟨laterTable, 1, firstContracts, some (1002, 2), none⟩)))) = _
  rw [hpage, readPage_short _ (by decide : [(vault 1).toItem].length ≠ contractsPageLimit)]
  dsimp only
  rw [hcontracts]

theorem vaults_listed_once : ∃ s, (contractListingSystem vaultTable).Run listingActions s ∧
    s.fetch.ended = some .finished ∧
    ∀ n, 1 ≤ n → n ≤ 201 → n ≠ 100 → ∃ result ∈ s.fetch.result,
      result.countP (fun contract ↦ contract.address = decimal n) = 1 := by
  have hdiscover : ContractListing.step ⟨vaultTable, 1, firstContracts, some (1002, 2), none⟩
      (.discover (vault 202).toContract 3000) =
      some ⟨⟨vaultTable.rows ++ [lateVault], 203, 3000⟩, 1, firstContracts,
        some (1002, 2), none⟩ := by
    rw [ContractListing.step, discovered, Option.map_some]
  have hrun : (contractListingSystem vaultTable).Run listingActions _ :=
    ⟨_, rfl, _, first_read, _, hdiscover, _, rfl, _, second_read, rfl⟩
  refine ⟨_, hrun, rfl, fun n hpos hle hne ↦ ?_⟩
  obtain ⟨row, hrow, hid, result, hresult, -, hcount⟩ :=
    (contract_pages_lose_nothing vaultTable_wellFormed hrun).2.1 rfl n
      (vaults_listed_throughout hpos hle hne)
  have haddress : row.address = decimal n := by
    rcases mem_laterTable hrow with hrow | rfl
    · obtain ⟨m, -, -, rfl⟩ := mem_vaultTable.mp hrow
      exact congrArg decimal hid
    · have hlate : lateVault.id = 202 := rfl
      omega
  exact ⟨result, hresult, haddress ▸ hcount⟩

end Walkthrough

end MinaGuard
