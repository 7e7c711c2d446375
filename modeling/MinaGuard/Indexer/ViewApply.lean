import MinaGuard.Indexer.ViewSpec

/-!
# Applying an event does what the event means

On tables with keys, an event that comes after the snapshots of its vault is applied
exactly if it has a meaning, and then the tables say what it means.
-/

namespace MinaGuard

open Foundations

namespace IndexView

variable {i : IndexView} {address : String} {v : VaultView}

theorem alter_modify (i : IndexView) (address : String) (f : VaultView → VaultView)
    (g : VaultView → Option VaultView) :
    (i.modify address f).alter address g = i.alter address fun v ↦ g (f v) := by
  unfold modify alter
  rw [Function.update_self, Option.bind_map]
  simp only [Function.update_idem]
  rfl

theorem alter_some (h : i address = some v) (f : VaultView → VaultView) :
    (i.alter address fun v ↦ some (f v)) = some (i.modify address f) := by
  unfold modify alter
  rw [h]
  rfl

theorem modify_congr (h : i address = some v) {f g : VaultView → VaultView} (hfg : f v = g v) :
    i.modify address f = i.modify address g := by
  unfold modify
  rw [h, Option.map_some, Option.map_some, hfg]

theorem alter_congr (h : i address = some v) {f g : VaultView → Option VaultView}
    (hfg : f v = g v) : i.alter address f = i.alter address g := by
  unfold alter
  rw [h, Option.bind_some, Option.bind_some, hfg]

theorem modify_id (h : i address = some v) {f : VaultView → VaultView} (hf : f v = v) :
    i.modify address f = i := by
  unfold modify
  rw [h, Option.map_some, hf, ← h, Function.update_eq_self]

end IndexView

theorem VaultView.snapshot_eq (v : VaultView) (height : ℕ) (changes : ContractConfigChanges) :
    v.snapshot height changes = if (changes.filledFrom v.config).fits then
      some { v with configs := v.configs ++ [(height, changes.filledFrom v.config)] }
      else none := rfl

theorem VaultView.amend_none {v : VaultView} {proposalHash : String}
    (h : v.proposals proposalHash = none) (g : ProposalView → ProposalView) :
    v.amend proposalHash g = v := by
  unfold amend setProposal
  rw [h, Option.map_none, ← h, Function.update_eq_self]

theorem VaultView.amend_congr {v : VaultView} {proposalHash : String} {p : ProposalView}
    (h : v.proposals proposalHash = some p) {g g' : ProposalView → ProposalView}
    (hg : g p = g' p) : v.amend proposalHash g = v.amend proposalHash g' := by
  unfold amend
  rw [h, Option.map_some, Option.map_some, hg]

namespace Database

variable {db db' : Database} {c : Db.Contract}

/-- The snapshots of a contract are in order. -/
def Chronological (db : Database) : Prop :=
  ∀ contractId, (db.contractConfigs.filter fun row ↦ row.contractId = contractId).Pairwise
    fun row row' ↦ Precedes row.validFromBlock row.eventOrder row'.validFromBlock row'.eventOrder

/-- Keys are unique, and snapshots are in order. -/
structure Sound (db : Database) : Prop extends WellKeyed db where
  chronological : db.Chronological

theorem foldl_laterConfig {rows : List Db.ContractConfig}
    (h : rows.Pairwise fun row row' ↦
      Precedes row.validFromBlock row.eventOrder row'.validFromBlock row'.eventOrder) :
    rows.foldl laterConfig none = rows.getLast? := by
  induction rows using List.reverseRecOn with
  | nil => rfl
  | append_singleton rows row ih =>
      obtain ⟨hrows, -, hlast⟩ := List.pairwise_append.mp h
      rw [List.foldl_concat, ih hrows, List.getLast?_concat]
      cases hbest : rows.getLast? with
      | none => rfl
      | some best =>
          have hprecedes := hlast best (List.mem_of_getLast? hbest) row (List.mem_singleton_self _)
          unfold Precedes at hprecedes
          exact if_pos (by omega)

/-- The latest snapshot is the last. -/
theorem Chronological.config (h : db.Chronological) (c : Db.Contract) :
    (db.vaultView c).config = (db.getLatestConfig c.id).map Db.ContractConfig.columns := by
  unfold VaultView.config vaultView getLatestConfig
  rw [foldl_laterConfig (h c.id), List.getLast?_map, Option.map_map]
  rfl

theorem columns_overlay (changes : ContractConfigChanges) (latest : Option Db.ContractConfig)
    (contractId validFromBlock eventOrder : ℕ) (sourceEventId : Option ℕ) :
    (changes.overlay latest contractId validFromBlock eventOrder sourceEventId).columns =
      changes.filledFrom (latest.map Db.ContractConfig.columns) := by
  cases latest <;> rfl

theorem fits_columns_iff (row : Db.ContractConfig) : row.columns.fits = true ↔ row.Fits := by
  have hcolumn (n : Option ℕ) :
      (n.all fun n ↦ decide (n < 2 ^ 31)) = true ↔ ∀ k, n = some k → k < 2 ^ 31 := by
    cases n <;> simp
  unfold ContractConfigChanges.fits
  simp only [List.all_cons, List.all_nil, Bool.and_true, Bool.and_eq_true, hcolumn]
  exact ⟨fun ⟨h₁, h₂, h₃, h₄, h₅⟩ ↦ ⟨h₁, h₂, h₃, h₄, h₅⟩,
    fun ⟨h₁, h₂, h₃, h₄, h₅⟩ ↦ ⟨h₁, h₂, h₃, h₄, h₅⟩⟩

/-- The error of a number that does not fit its column. -/
def outOfRange : Thrown := prismaError "P2020" "Value out of range for the type."

/-- A write that succeeds leaves tables that say so; one without a meaning fails. -/
def Means (result : Except Thrown Database) (meaning : Option IndexView) : Prop :=
  match result with
  | .ok db => meaning = some db.indexView ∧ db.Sound
  | .error error => meaning = none ∧ error = outOfRange

/-- The snapshots of the contract come before the place. -/
def ConfigsBefore (db : Database) (contractId height order : ℕ) : Prop :=
  ∀ row ∈ db.contractConfigs, row.contractId = contractId →
    Precedes row.validFromBlock row.eventOrder height order

theorem ConfigsBefore.congr {height order : ℕ} {contractId : ℕ}
    (h : db.ConfigsBefore contractId height order)
    (hconfigs : db'.contractConfigs = db.contractConfigs) :
    db'.ConfigsBefore contractId height order := fun row hrow ↦ h row (hconfigs ▸ hrow)

theorem Chronological.congr (h : db.Chronological)
    (hconfigs : db'.contractConfigs = db.contractConfigs) : db'.Chronological := fun contractId ↦ by
  rw [hconfigs]
  exact h contractId

theorem Chronological.concat (h : db.Chronological) {row : Db.ContractConfig}
    (hbefore : ∀ row' ∈ db.contractConfigs, row'.contractId = row.contractId →
      Precedes row'.validFromBlock row'.eventOrder row.validFromBlock row.eventOrder)
    (hrows : db'.contractConfigs = db.contractConfigs ++ [row]) : db'.Chronological := by
  intro contractId
  rw [hrows, filter_concat_group]
  by_cases hcontract : row.contractId = contractId
  · rw [if_pos hcontract]
    refine List.pairwise_append.mpr ⟨h contractId, List.pairwise_singleton _ _, ?_⟩
    intro row' hrow' last hlast
    obtain rfl := List.mem_singleton.mp hlast
    obtain ⟨hmem, hsame⟩ := List.mem_filter.mp hrow'
    exact hbefore row' hmem ((of_decide_eq_true hsame).trans hcontract.symm)
  · rw [if_neg hcontract, List.append_nil]
    exact h contractId

theorem intColumn_error {n : Option ℕ} {error : Thrown} (h : intColumn n = .error error) :
    error = outOfRange := by
  cases n with
  | none => cases h
  | some k =>
      unfold intColumn at h
      dsimp only at h
      split at h
      · cases h
      · exact (Except.error.inj h).symm

/-- A snapshot fails only for a number that does not fit. -/
theorem appendContractConfigSnapshot_error {contractId height order : ℕ}
    {sourceEventId : Option ℕ} {changes : ContractConfigChanges} {error : Thrown}
    (h : appendContractConfigSnapshot db contractId height order sourceEventId changes =
      .error error) : error = outOfRange := by
  have hbind {α : Type} {n : Option ℕ} {f : Option ℕ → Except Thrown α}
      (h : (intColumn n >>= f) = .error error) :
      error = outOfRange ∨ ∃ m, f m = .error error := by
    cases hn : intColumn n with
    | error error' =>
        rw [hn] at h
        exact .inl (Except.error.inj h ▸ intColumn_error hn)
    | ok m =>
        rw [hn] at h
        exact .inr ⟨m, h⟩
  unfold appendContractConfigSnapshot at h
  rcases hbind h with rfl | ⟨_, h⟩
  · rfl
  rcases hbind h with rfl | ⟨_, h⟩
  · rfl
  rcases hbind h with rfl | ⟨_, h⟩
  · rfl
  rcases hbind h with rfl | ⟨_, h⟩
  · rfl
  rcases hbind h with rfl | ⟨_, h⟩
  · rfl
  · cases h

/-- A snapshot that comes after the others. -/
theorem means_appendContractConfigSnapshot (h : db.Sound) (hc : c ∈ db.contracts)
    {height order : ℕ} (hbefore : db.ConfigsBefore c.id height order)
    (sourceEventId : Option ℕ) (changes : ContractConfigChanges) :
    Means (appendContractConfigSnapshot db c.id height order sourceEventId changes)
      (db.indexView.alter c.address fun v ↦ v.snapshot height changes) := by
  have hcolumns := columns_overlay changes (db.getLatestConfig c.id) c.id height order
    sourceEventId
  rw [← h.chronological.config] at hcolumns
  have hmeaning : (db.indexView.alter c.address fun v ↦ v.snapshot height changes) =
      if (changes.filledFrom (db.vaultView c).config).fits then
        some (db.indexView.modify c.address fun v ↦ { v with
          configs := v.configs ++ [(height, changes.filledFrom (db.vaultView c).config)] })
      else none := by
    unfold IndexView.alter IndexView.modify
    rw [h.indexView hc, Option.bind_some, VaultView.snapshot_eq]
    by_cases hfits : (changes.filledFrom (db.vaultView c).config).fits = true
    · rw [if_pos hfits, if_pos hfits]
      rfl
    · rw [if_neg hfits, if_neg hfits]
      rfl
  rw [hmeaning]
  cases hresult : appendContractConfigSnapshot db c.id height order sourceEventId changes with
  | ok db₁ =>
      have hrow := appendContractConfigSnapshot_fits hresult
      rw [← fits_columns_iff, hcolumns] at hrow
      have hdb := appendContractConfigSnapshot_ok hresult
      refine ⟨?_, ?_, h.chronological.concat (fun row ↦ hbefore row) (by rw [hdb])⟩
      · rw [if_pos hrow, indexView_addConfig h.toWellKeyed hc rfl hdb, hcolumns]
        rfl
      · rw [hdb]
        exact h.addConfig (h.contractsBelow c hc)
  | error e =>
      refine ⟨if_neg fun hfits ↦ ?_, appendContractConfigSnapshot_error hresult⟩
      rw [← hcolumns, fits_columns_iff] at hfits
      rw [appendContractConfigSnapshot_of_fits hfits] at hresult
      cases hresult

/-! ## One handler after the other -/

section Handlers

variable {E : Env} {lib : Backend E} {e : ChainEvent} {order sourceEventId : ℕ}

theorem Sound.of_sameConfigs (h : db.Sound) (hkeyed : db'.WellKeyed)
    (hconfigs : db'.contractConfigs = db.contractConfigs) : db'.Sound :=
  ⟨hkeyed, h.chronological.congr hconfigs⟩

/-- Nothing is written. -/
theorem Means.same (h : db.Sound) (hc : c ∈ db.contracts) {f : VaultView → Option VaultView}
    (hf : f (db.vaultView c) = some (db.vaultView c)) :
    Means (.ok db) (db.indexView.alter c.address f) := by
  refine ⟨?_, h⟩
  unfold IndexView.alter
  rw [h.indexView hc, Option.bind_some, hf, Option.map_some, ← h.indexView hc,
    Function.update_eq_self]

/-- A write before that changes what is known of the vault. -/
theorem Means.after {result : Except Thrown Database} {f : VaultView → VaultView}
    {g : VaultView → Option VaultView}
    (hview : db'.indexView = db.indexView.modify c.address f)
    (h : Means result (db'.indexView.alter c.address g)) :
    Means result (db.indexView.alter c.address fun v ↦ g (f v)) := by
  rwa [hview, IndexView.alter_modify] at h

/-- A write and nothing more. -/
theorem Means.of_modify (hc : c ∈ db.contracts) (h : db.Sound) {f : VaultView → VaultView}
    {g : VaultView → Option VaultView} (hsound : db'.Sound)
    (hview : db'.indexView = db.indexView.modify c.address f)
    (hg : g (db.vaultView c) = some (f (db.vaultView c))) :
    Means (.ok db') (db.indexView.alter c.address g) := by
  refine ⟨?_, hsound⟩
  rw [hview, ← IndexView.alter_some (h.indexView hc) f]
  exact IndexView.alter_congr (h.indexView hc) hg

theorem WellKeyed.updateContract_eq (h : db.WellKeyed) (hc : c ∈ db.contracts)
    (f : Db.Contract → Db.Contract) :
    db.updateContract c.id f =
      .ok { db with contracts := db.contracts.map fun c' ↦ if c'.id = c.id then f c' else c' } := by
  unfold Database.updateContract
  rw [h.findContract hc]

theorem means_applySetupEvent (h : db.Sound) (hc : c ∈ db.contracts)
    (hbefore : db.ConfigsBefore c.id e.blockHeight order) :
    Means (applySetupEvent lib db c.id e order sourceEventId)
      (db.indexView.alter c.address fun v ↦ v.setUp lib e) := by
  unfold applySetupEvent VaultView.setUp
  dsimp only
  generalize hparent : (if asString (e.event.get "parent") = none ∨
    asString (e.event.get "parent") = some (emptyPublicKey lib) then none
    else asString (e.event.get "parent")) = parent
  let f : Db.Contract → Db.Contract := fun c ↦ { c with parent := parent }
  have hupdate := h.updateContract_eq hc f
  have hkept : ∀ c, (f c).id = c.id ∧ (f c).address = c.address := fun _ ↦ ⟨rfl, rfl⟩
  have hview := indexView_updateContract h.toWellKeyed hc hkept rfl hupdate
  have hsound := h.of_sameConfigs (h.updateContract hkept hupdate) rfl
  have hmem : f c ∈ db.contracts.map fun c' ↦ if c'.id = c.id then f c' else c' :=
    List.mem_map.mpr ⟨c, hc, if_pos rfl⟩
  rw [hupdate]
  exact Means.after hview
    (means_appendContractConfigSnapshot (c := f c) hsound hmem (hbefore.congr rfl) _ _)

theorem intColumn_eq_error {n : Option ℕ} (h : ¬(n.all fun n ↦ decide (n < 2 ^ 31)) = true) :
    intColumn n = .error outOfRange := by
  cases n with
  | none => exact absurd rfl h
  | some k => exact if_neg fun hlt ↦ h (decide_eq_true hlt)

/-- The meaning is that of what the vault is known to be. -/
theorem Means.congr (h : db.Sound) (hc : c ∈ db.contracts) {result : Except Thrown Database}
    {f g : VaultView → Option VaultView} (hfg : f (db.vaultView c) = g (db.vaultView c))
    (hmeans : Means result (db.indexView.alter c.address g)) :
    Means result (db.indexView.alter c.address f) := by
  rwa [IndexView.alter_congr (h.indexView hc) hfg]

theorem means_applySetupOwnerEvent (h : db.Sound) (hc : c ∈ db.contracts)
    (hbefore : db.ConfigsBefore c.id e.blockHeight order) (setupFallback : Option OnChainState) :
    Means (applySetupOwnerEvent lib db c.id e order sourceEventId setupFallback)
      (db.indexView.alter c.address fun v ↦ v.setUpOwner lib e setupFallback) := by
  unfold applySetupOwnerEvent VaultView.setUpOwner
  dsimp only
  cases howner : truthy (asString (e.event.get "owner")) with
  | none => exact .same h hc rfl
  | some owner =>
      dsimp only
      by_cases hshort : owner.length < 10 ∨ owner = emptyPublicKey lib
      · simp only [if_pos hshort]
        exact .same h hc rfl
      simp only [if_neg hshort]
      by_cases hindex : (asNumber (e.event.get "index")).all (fun n ↦ decide (n < 2 ^ 31)) = true
      · have hcolumn : intColumn (asNumber (e.event.get "index")) =
            .ok (asNumber (e.event.get "index")) :=
          intColumn_eq_ok fun k hk ↦ by simpa [hk] using hindex
        rw [hcolumn]
        simp only [hindex, if_true]
        have hview := indexView_addMembership h.toWellKeyed hc (m := ⟨c.id, owner, "added",
          asNumber (e.event.get "index"), e.blockHeight, order, some sourceEventId⟩) rfl rfl
        have hsound := h.of_sameConfigs (h.addMembership (m := ⟨c.id, owner, "added",
          asNumber (e.event.get "index"), e.blockHeight, order, some sourceEventId⟩)
          (h.contractsBelow c hc)) rfl
        have hthreshold : (db.vaultView c).config.bind ContractConfigChanges.threshold =
            (db.getLatestConfig c.id).bind Db.ContractConfig.threshold := by
          rw [h.chronological.config, Option.bind_map]
          rfl
        change Means (if ((db.getLatestConfig c.id).bind Db.ContractConfig.threshold).isSome = true
          then _ else _) _
        by_cases hknown : ((db.getLatestConfig c.id).bind Db.ContractConfig.threshold).isSome
        · rw [if_pos hknown]
          refine .of_modify hc h hsound hview ?_
          change (if ((db.vaultView c).config.bind ContractConfigChanges.threshold).isSome then _
            else _) = _
          rw [hthreshold, if_pos hknown]
        · rw [if_neg hknown]
          cases setupFallback with
          | none =>
              refine .of_modify hc h hsound hview ?_
              exact ite_self _
          | some state =>
              refine .congr h hc (g := fun v ↦ (v.record ⟨e.blockHeight, owner, "added",
                asNumber (e.event.get "index")⟩).snapshot e.blockHeight _) ?_
                (.after hview (means_appendContractConfigSnapshot hsound hc
                  (hbefore.congr rfl) _ _))
              change (if ((db.vaultView c).config.bind ContractConfigChanges.threshold).isSome
                then _ else _) = _
              rw [hthreshold, if_neg hknown]
      · rw [intColumn_eq_error hindex]
        simp only [hindex]
        unfold IndexView.alter
        rw [h.indexView hc]
        exact ⟨rfl, rfl⟩

theorem means_applyOwnerChangeEvent (h : db.Sound) (hc : c ∈ db.contracts)
    (hbefore : db.ConfigsBefore c.id e.blockHeight order) :
    Means (applyOwnerChangeEvent db c.id e order sourceEventId)
      (db.indexView.alter c.address fun v ↦ v.changeOwner e) := by
  unfold applyOwnerChangeEvent VaultView.changeOwner
  dsimp only
  cases howner : truthy (asString (e.event.get "owner")) with
  | none => exact .same h hc rfl
  | some owner =>
      dsimp only
      generalize (if asString (e.event.get "added") = some "1" then "added" else "removed") =
        action
      have hview := indexView_addMembership h.toWellKeyed hc (m := ⟨c.id, owner, action, none,
        e.blockHeight, order, some sourceEventId⟩) rfl rfl
      have hsound := h.of_sameConfigs (h.addMembership (m := ⟨c.id, owner, action, none,
        e.blockHeight, order, some sourceEventId⟩) (h.contractsBelow c hc)) rfl
      split
      · exact .of_modify hc h hsound hview rfl
      · exact .after hview
          (means_appendContractConfigSnapshot hsound hc (hbefore.congr rfl) _ _)

theorem means_applyThresholdChangeEvent (h : db.Sound) (hc : c ∈ db.contracts)
    (hbefore : db.ConfigsBefore c.id e.blockHeight order) :
    Means (applyThresholdChangeEvent db c.id e order sourceEventId)
      (db.indexView.alter c.address fun v ↦ v.changeThreshold e) := by
  unfold applyThresholdChangeEvent VaultView.changeThreshold
  dsimp only
  cases asNumber (e.event.get "newThreshold") with
  | none => exact .same h hc rfl
  | some _ => exact means_appendContractConfigSnapshot h hc hbefore _ _

theorem means_applyDelegateEvent (h : db.Sound) (hc : c ∈ db.contracts)
    (hbefore : db.ConfigsBefore c.id e.blockHeight order) :
    Means (applyDelegateEvent db c.id e order sourceEventId)
      (db.indexView.alter c.address fun v ↦ v.changeDelegate e) := by
  unfold applyDelegateEvent VaultView.changeDelegate
  cases asString (e.event.get "delegate") with
  | none => exact .same h hc rfl
  | some _ => exact means_appendContractConfigSnapshot h hc hbefore _ _

theorem means_applyEnableChildMultiSigEvent (h : db.Sound) (hc : c ∈ db.contracts)
    (hbefore : db.ConfigsBefore c.id e.blockHeight order) :
    Means (applyEnableChildMultiSigEvent db c.id e order sourceEventId)
      (db.indexView.alter c.address fun v ↦ v.enableChildMultiSig e) := by
  unfold applyEnableChildMultiSigEvent VaultView.enableChildMultiSig
  dsimp only
  cases asNumber (e.event.get "enabled") with
  | none => exact .same h hc rfl
  | some _ => exact means_appendContractConfigSnapshot h hc hbefore _ _

/-! ## Proposals -/

/-- What belongs to one proposal of the vault is written. -/
theorem ChangesProposal.means (h : db.Sound) (hc : c ∈ db.contracts) {p : Db.Proposal}
    (hfind : db.findProposal c.id p.proposalHash = some p) {g : ProposalView → ProposalView}
    (hchanges : ChangesProposal p.id g db db') (g' : ProposalView → ProposalView)
    (hkeyed : db'.WellKeyed) (hg : g (db.proposalView p) = g' (db.proposalView p)) :
    db'.indexView = (db.indexView.modify c.address fun v ↦ v.amend p.proposalHash g') ∧
      db'.Sound := by
  obtain ⟨hp, hcontract, -⟩ := findProposal_mem hfind
  refine ⟨?_, h.of_sameConfigs hkeyed hchanges.same.configs⟩
  rw [hchanges.indexView h.toWellKeyed hc hp hcontract]
  refine IndexView.modify_congr (h.indexView hc) (VaultView.amend_congr ?_ hg)
  change (db.findProposal c.id p.proposalHash).map db.proposalView = _
  rw [hfind, Option.map_some]

/-- The vault has no such proposal. -/
theorem Means.unknown (h : db.Sound) (hc : c ∈ db.contracts) {proposalHash : String}
    (hnone : db.findProposal c.id proposalHash = none) (g : ProposalView → ProposalView) :
    Means (.ok db) (some (db.indexView.modify c.address fun v ↦ v.amend proposalHash g)) := by
  refine ⟨congrArg some (IndexView.modify_id (h.indexView hc) (VaultView.amend_none ?_ g)), h⟩
  change (db.findProposal c.id proposalHash).map db.proposalView = none
  rw [hnone, Option.map_none]

theorem Means.ignored (h : db.Sound) (hc : c ∈ db.contracts) {f : VaultView → VaultView}
    (hf : f (db.vaultView c) = db.vaultView c) :
    Means (.ok db) (some (db.indexView.modify c.address f)) :=
  ⟨congrArg some (IndexView.modify_id (h.indexView hc) hf), h⟩

theorem means_applyApprovalEvent (h : db.Sound) (hc : c ∈ db.contracts) :
    Means (applyApprovalEvent db c.id e order)
      (some (db.indexView.modify c.address fun v ↦ v.approve e)) := by
  unfold applyApprovalEvent VaultView.approve
  dsimp only
  cases truthy (asString (e.event.get "proposalHash")) with
  | none => exact .ignored h hc rfl
  | some proposalHash =>
      cases truthy (asString (e.event.get "approver")) with
      | none => exact .ignored h hc rfl
      | some approver =>
          dsimp only
          cases hfind : db.findProposal c.id proposalHash with
          | none => exact .unknown h hc hfind _
          | some p =>
              obtain ⟨hp, -, rfl⟩ := findProposal_mem hfind
              dsimp only
              generalize hrow : Db.Approval.mk p.id approver
                (asString (e.event.get "approvalCount")) e.blockHeight order = row
              have hid : row.proposalId = p.id := by rw [← hrow]
              have hchanges : ChangesProposal _ _ db _ := .upsertApproval row hid
              have hkeyed := h.upsertApproval (hid ▸ h.proposalsBelow p hp)
              split
              · obtain ⟨hview, hsound⟩ := (hchanges.trans (.updateProposal (r := id)
                  (f := fun p ↦ { p with lastApproveTxHash := none, lastApproveError := none })
                  (fun _ ↦ ⟨rfl, rfl⟩) fun _ ↦ rfl)).means h hc hfind
                  (fun p ↦ p.approve approver (asString (e.event.get "approvalCount"))
                    e.blockHeight) (hkeyed.updateProposal p.id fun _ ↦ ⟨rfl, rfl⟩)
                  (by rw [← hrow]; rfl)
                exact ⟨congrArg some hview.symm, hsound⟩
              · obtain ⟨hview, hsound⟩ := hchanges.means h hc hfind
                  (fun p ↦ p.approve approver (asString (e.event.get "approvalCount"))
                    e.blockHeight) hkeyed (by rw [← hrow])
                exact ⟨congrArg some hview.symm, hsound⟩

theorem means_applyReceiverEvent (h : db.Sound) (hc : c ∈ db.contracts) :
    Means (applyReceiverEvent lib db c.id e.event)
      (some (db.indexView.modify c.address fun v ↦ v.receive lib e)) := by
  unfold applyReceiverEvent VaultView.receive
  dsimp only
  cases truthy (asString (e.event.get "proposalHash")) with
  | none => exact .ignored h hc rfl
  | some proposalHash =>
  cases truthy (asString (e.event.get "receiver")) with
  | none => exact .ignored h hc rfl
  | some address =>
  cases truthy (asString (e.event.get "amount")) with
  | none => exact .ignored h hc rfl
  | some amount =>
  dsimp only
  by_cases hempty : address = emptyPublicKey lib
  · simp only [if_pos hempty]
    exact .ignored h hc rfl
  simp only [if_neg hempty]
  cases hfind : db.findProposal c.id proposalHash with
  | none => exact .unknown h hc hfind _
  | some p =>
      obtain ⟨hp, -, rfl⟩ := findProposal_mem hfind
      dsimp only
      generalize hrow : Db.ProposalReceiver.mk p.id
        (db.proposalReceivers.filter fun r ↦ r.proposalId = p.id).length address amount = row
      have hid : row.proposalId = p.id := by rw [← hrow]
      have hidx : row.idx = (db.proposalReceivers.filter fun r ↦ r.proposalId = p.id).length := by
        rw [← hrow]
      obtain ⟨hcreate, hkeyed⟩ := h.createReceiver_eq hp row hid hidx
      have hchanges : ChangesProposal _ _ db _ := .createReceiver row hid
      have hfirst : (db.proposalView p).receivers = [] ↔
          (db.proposalReceivers.filter fun r ↦ r.proposalId = p.id).length = 0 := by
        unfold proposalView
        rw [List.map_eq_nil_iff, List.length_eq_zero_iff]
      rw [hcreate]
      change Means (.ok (if _ then _ else _)) _
      split
      next htarget =>
        obtain ⟨hview, hsound⟩ := (hchanges.trans (.updateProposal
          (r := fun row ↦ { row with toAddress := some address })
          (f := fun p ↦ { p with toAddress := some address })
          (fun _ ↦ ⟨rfl, rfl⟩) fun _ ↦ rfl)).means h hc hfind
          (fun p ↦ p.receive address amount) (hkeyed.updateProposal p.id fun _ ↦ ⟨rfl, rfl⟩) (by
            rw [ProposalView.receive, if_pos ⟨hfirst.mpr htarget.1, htarget.2⟩, ← hrow])
        exact ⟨congrArg some hview.symm, hsound⟩
      next htarget =>
        obtain ⟨hview, hsound⟩ := hchanges.means h hc hfind
          (fun p ↦ p.receive address amount) hkeyed (by
            rw [ProposalView.receive, if_neg fun hboth ↦
              htarget ⟨hfirst.mp hboth.1, hboth.2⟩, ← hrow])
        exact ⟨congrArg some hview.symm, hsound⟩

theorem upsertProposal_view (lib : Backend E) (e : ChainEvent) (h : db.Sound)
    (hc : c ∈ db.contracts) (proposalHash : String) :
    (upsertProposal lib db c.id proposalHash e).indexView =
        (db.indexView.modify c.address fun v ↦ v.propose lib proposalHash e) ∧
      (upsertProposal lib db c.id proposalHash e).Sound := by
  have hproposals : (db.vaultView c).proposals proposalHash =
      (db.findProposal c.id proposalHash).map db.proposalView := rfl
  unfold upsertProposal
  cases hfind : db.findProposal c.id proposalHash with
  | some p =>
      obtain ⟨hp, -, rfl⟩ := findProposal_mem hfind
      have hchanges : ChangesProposal p.id (fun q ↦ q.describe lib e) db
          (db.updateProposal p.id fun q ↦ q.describe lib e) :=
        .updateProposal (r := fun row ↦ row.describe lib e) (fun _ ↦ ⟨rfl, rfl⟩) fun _ ↦ rfl
      obtain ⟨hview, hsound⟩ := hchanges.means h hc hfind (fun q ↦ q.describe lib e)
        (h.updateProposal p.id fun _ ↦ ⟨rfl, rfl⟩) rfl
      refine ⟨hview.trans (IndexView.modify_congr (h.indexView hc) ?_), hsound⟩
      unfold VaultView.amend VaultView.propose
      rw [hproposals, hfind]
      rfl
  | none =>
      dsimp only
      generalize hrow : (Db.Proposal.blank db.nextProposalId c.id proposalHash
        (asString (e.event.get "proposer")) e.blockHeight).describe lib e = row
      have hid : row.id = db.nextProposalId := by rw [← hrow]; rfl
      have hcontract : row.contractId = c.id := by rw [← hrow]; rfl
      have hhash : row.proposalHash = proposalHash := by rw [← hrow]; rfl
      have hcontent : (ProposalView.mk row.content [] (fun _ ↦ none) none) =
          .start lib proposalHash e := by
        rw [← hrow]
        rfl
      rw [← hhash] at hfind
      refine ⟨(indexView_addProposal h.toWellKeyed hc hcontract hid hfind rfl).trans
        (IndexView.modify_congr (h.indexView hc) ?_),
        h.of_sameConfigs (h.addProposal hid (hcontract ▸ h.contractsBelow c hc)
          (hcontract ▸ hfind)) rfl⟩
      unfold VaultView.propose
      rw [hproposals, ← hhash, hfind, hcontent, hhash]
      rfl

theorem means_subscribeChild (h : db.Sound) (hc : c ∈ db.contracts) (mode : IndexerMode) :
    Means (subscribeChild lib mode db c.id e)
      (some (db.indexView.subscribeChild lib mode c.address e)) := by
  unfold subscribeChild IndexView.subscribeChild
  dsimp only
  split
  · cases asNullableAddress lib (asString (e.event.get "childAccount")) with
    | none => exact ⟨rfl, h⟩
    | some child =>
        dsimp only
        rw [h.findContract hc]
        have hview : db.indexView child = (db.findContractAt child).map db.vaultView := rfl
        cases hchild : db.findContractAt child with
        | some c' =>
            rw [hview, hchild]
            exact ⟨rfl, h⟩
        | none =>
            rw [hview, hchild]
            change Means ((db.createContract child (some c.address) false
              (some e.blockHeight)).map Prod.snd) _
            cases hcreate : db.createContract child (some c.address) false
                (some e.blockHeight) with
            | error error =>
                unfold createContract at hcreate
                rw [hchild] at hcreate
                cases hcreate
            | ok r =>
                have hdb : db.createContract child (some c.address) false
                    (some e.blockHeight) = .ok (r.1, r.2) := hcreate
                obtain ⟨-, -, hrows⟩ := createContract_ok hdb
                exact ⟨congrArg some (indexView_createContract h.toWellKeyed hdb).symm,
                  h.of_sameConfigs (h.createContract hdb) (by rw [hrows])⟩
  · exact ⟨rfl, h⟩

theorem means_applyProposalEvent (h : db.Sound) (hc : c ∈ db.contracts) (mode : IndexerMode)
    {proposalHash : String}
    (hhash : truthy (asString (e.event.get "proposalHash")) = some proposalHash) :
    Means (applyProposalEvent lib mode db c.id e)
      (some ((db.indexView.modify c.address fun v ↦ v.propose lib proposalHash e).subscribeChild
        lib mode c.address e)) := by
  obtain ⟨hview, hsound⟩ := upsertProposal_view lib e h hc proposalHash
  rw [← upsertProposal_sameVaults.contracts] at hc
  unfold applyProposalEvent
  rw [hhash, ← hview]
  exact means_subscribeChild hsound hc mode

theorem markExecutedRow_view (lib : Backend E) (e : ChainEvent) (order : ℕ) (h : db.Sound)
    (hc : c ∈ db.contracts) {p : Db.Proposal}
    (hfind : db.findProposal c.id p.proposalHash = some p) :
    (markExecutedRow lib db p e order).indexView =
        (db.indexView.modify c.address fun v ↦
          v.amend p.proposalHash fun p ↦ p.markExecuted lib e) ∧
      (markExecutedRow lib db p e order).Sound := by
  obtain ⟨hp, -, -⟩ := findProposal_mem hfind
  have hchanges : ChangesProposal p.id _ db _ :=
    .upsertProposalExecution ⟨p.id, e.blockHeight, e.txHash, order⟩ rfl
  have hkeyed : (db.upsertProposalExecution ⟨p.id, e.blockHeight, e.txHash, order⟩).WellKeyed :=
    h.upsertProposalExecution (h.proposalsBelow p hp)
  have hmemo : ChangesProposal p.id (fun v ↦ { v with row := { v.row with
      executionMemoHash := some (executionMemoHash lib e.txMemo) } })
      (db.upsertProposalExecution ⟨p.id, e.blockHeight, e.txHash, order⟩)
      (markExecutedRow lib db p e order) :=
    .updateProposal (r := fun row ↦ { row with
      executionMemoHash := some (executionMemoHash lib e.txMemo) }) (fun _ ↦ ⟨rfl, rfl⟩)
      fun _ ↦ rfl
  exact (hchanges.trans hmemo).means h hc hfind (fun p ↦ p.markExecuted lib e)
    (hkeyed.updateProposal p.id fun _ ↦ ⟨rfl, rfl⟩) rfl

/-- The parent and its proposal are found in the tables as they are known. -/
theorem remoteProposal_view (h : db.Sound) (hc : c ∈ db.contracts) (proposalHash : String) :
    (remoteProposal db c.id proposalHash = none ∧
        db.indexView.remoteProposal (db.vaultView c) proposalHash = none) ∨
      ∃ c' ∈ db.contracts, ∃ p, db.findProposal c'.id proposalHash = some p ∧
        remoteProposal db c.id proposalHash = some p ∧
        db.indexView.remoteProposal (db.vaultView c) proposalHash =
          some (c'.address, db.proposalView p) := by
  have htables : remoteProposal db c.id proposalHash =
      (truthy c.parent).bind fun parent ↦ (db.findContractAt parent).bind fun c' ↦
        db.findProposal c'.id proposalHash := by
    unfold remoteProposal
    rw [h.findContract hc]
    rfl
  have hknown : db.indexView.remoteProposal (db.vaultView c) proposalHash =
      (truthy c.parent).bind fun parent ↦ ((db.findContractAt parent).map db.vaultView).bind
        fun v ↦ (v.proposals proposalHash).bind fun p ↦ some (parent, p) := rfl
  rw [htables, hknown]
  cases truthy c.parent with
  | none => exact .inl ⟨rfl, rfl⟩
  | some parent =>
      rw [Option.bind_some, Option.bind_some]
      cases hfound : db.findContractAt parent with
      | none => exact .inl ⟨rfl, rfl⟩
      | some c' =>
          obtain ⟨hc', rfl⟩ := findContractAt_mem hfound
          rw [Option.map_some, Option.bind_some, Option.bind_some]
          change (_ ∧ ((db.findProposal c'.id proposalHash).map db.proposalView).bind _ = none) ∨
            ∃ c'' ∈ db.contracts, ∃ p, _ ∧ _ ∧
              ((db.findProposal c'.id proposalHash).map db.proposalView).bind _ = _
          cases hp : db.findProposal c'.id proposalHash with
          | none => exact .inl ⟨rfl, rfl⟩
          | some p => exact .inr ⟨c', hc', p, hp, rfl, rfl⟩

theorem means_applyExecutionEvent (h : db.Sound) (hc : c ∈ db.contracts)
    (hbefore : db.ConfigsBefore c.id e.blockHeight order) :
    Means (applyExecutionEvent lib db c.id e order)
      (db.indexView.execute lib c.address e (db.vaultView c)) := by
  unfold applyExecutionEvent IndexView.execute
  cases truthy (asString (e.event.get "proposalHash")) with
  | none => exact ⟨rfl, h⟩
  | some proposalHash =>
  have hproposals : (db.vaultView c).proposals proposalHash =
      (db.findProposal c.id proposalHash).map db.proposalView := rfl
  dsimp only
  rw [hproposals]
  cases hfind : db.findProposal c.id proposalHash with
  | some p =>
      obtain ⟨hp, -, rfl⟩ := findProposal_mem hfind
      obtain ⟨hview, hsound⟩ := markExecutedRow_view lib e order h hc hfind
      have hnonce : (db.proposalView p).row.nonce = p.nonce := rfl
      unfold VaultView.execute
      dsimp only [Option.map_some]
      rw [hnonce]
      cases p.nonce.bind columnNumber with
      | none => exact .of_modify hc h hsound hview rfl
      | some nonce =>
          exact .after hview
            (means_appendContractConfigSnapshot hsound hc (hbefore.congr rfl) _ _)
  | none =>
      rw [Option.map_none]
      dsimp only
      rcases remoteProposal_view h hc proposalHash with
        ⟨hremote, hmeaning⟩ | ⟨c', hc', p, hp, hremote, hmeaning⟩
      · rw [hremote, hmeaning]
        exact ⟨rfl, h⟩
      · obtain ⟨-, -, rfl⟩ := findProposal_mem hp
        obtain ⟨hview, hsound⟩ := markExecutedRow_view lib e order h hc' hp
        rw [hremote, hmeaning]
        have hnonce : (db.proposalView p).row.nonce = p.nonce := rfl
        dsimp only
        rw [hnonce, ← hview]
        cases p.nonce.bind columnNumber with
        | none => exact ⟨rfl, hsound⟩
        | some nonce =>
            exact means_appendContractConfigSnapshot hsound hc (hbefore.congr rfl) _ _

/-- Applying an event does what it means, or fails with no meaning. -/
theorem means_applyEvent (h : db.Sound) (hc : c ∈ db.contracts)
    (hbefore : db.ConfigsBefore c.id e.blockHeight order) (mode : IndexerMode)
    (setupFallback : Option OnChainState) :
    Means (applyEvent lib mode db c.id e order sourceEventId setupFallback)
      (db.indexView.apply lib mode c.address e setupFallback) := by
  unfold applyEvent IndexView.apply
  generalize e.type = type
  split
  · exact means_applySetupEvent h hc hbefore
  · exact means_applySetupOwnerEvent h hc hbefore setupFallback
  · cases hhash : truthy (asString (e.event.get "proposalHash")) with
    | none =>
        unfold applyProposalEvent
        rw [hhash]
        exact ⟨rfl, h⟩
    | some proposalHash => exact means_applyProposalEvent h hc mode hhash
  · exact means_applyApprovalEvent h hc
  · rw [h.indexView hc, Option.bind_some]
    exact means_applyExecutionEvent h hc hbefore
  · exact means_applyEnableChildMultiSigEvent h hc hbefore
  · exact means_applyReceiverEvent h hc
  · exact means_applyOwnerChangeEvent h hc hbefore
  · exact means_applyThresholdChangeEvent h hc hbefore
  · exact means_applyDelegateEvent h hc hbefore
  · refine ⟨?_, h⟩
    simp [*]

end Handlers

end Database

end MinaGuard
