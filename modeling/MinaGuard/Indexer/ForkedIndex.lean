import MinaGuard.Indexer.IndexRuns
import MinaGuard.Indexer.Orphans

/-!
# The index of a chain that forks

In full mode a rollback commutes with what happened at or below the fork and takes back what
happened above it.  So an index is a machine of which the history may fork.
-/

namespace MinaGuard

open Foundations

namespace Index

variable {E : Env} {lib : Backend E} {i j : Index} {address : String} {e : ChainEvent} {F : ℤ}
  {v : VaultView} {a : IndexAction}

theorem isKept_congr (h : i.vaults.discovered = j.vaults.discovered) :
    i.isKept .full F = j.isKept .full F := by
  funext b
  have hb : (i.vaults b).map VaultView.discoveredAtBlock =
      (j.vaults b).map VaultView.discoveredAtBlock := congrFun h b
  have hany (k : Index) : k.isKept .full F b =
      ((k.vaults b).map VaultView.discoveredAtBlock).any fun d ↦ !d.any (isAbove F) := by
    rw [Option.any_map]
    unfold isKept VaultView.isOrphaned
    simp
  rw [hany, hany, hb]

/-- The vault of the event is kept, and so is the event. -/
theorem rollback_record {vaults : IndexView} {fingerprint : String} {applyError : Option String}
    (hv : i.vaults address = some v) (hkept : v.isOrphaned F .full = false)
    (hdiscovered : vaults.discovered = i.vaults.discovered)
    (hheight : isAbove F e.blockHeight = false) :
    rollback .full { i.record address e fingerprint applyError with vaults } F =
      { (i.rollback .full F).record address e fingerprint applyError with
        vaults := vaults.rollback .full F } := by
  have hisKept : isKept .full { i.record address e fingerprint applyError with vaults } F =
      i.isKept .full F := isKept_congr hdiscovered
  have hhere : i.isKept .full F address = true := by
    unfold isKept
    rw [hv, Option.any_some, hkept]
    rfl
  have hheader : ((i.headers.filter fun h ↦ !isAbove F h.height).any
      fun h ↦ h.height = e.blockHeight) = i.headers.any fun h ↦ h.height = e.blockHeight := by
    rw [List.any_filter]
    refine List.any_congr rfl fun h ↦ ?_
    by_cases hh : h.height = e.blockHeight
    · simp [hh, hheight]
    · simp [hh]
  unfold rollback
  rw [hisKept, Index.mk.injEq]
  refine ⟨?_, rfl, ?_⟩
  · unfold record
    dsimp only
    rw [hheader]
    split
    · rfl
    · rw [List.filter_append, List.filter_cons_of_pos (by simp [hheight]), List.filter_nil]
  · unfold record
    dsimp only
    rw [List.filter_append, List.filter_cons_of_pos (by simp [hheight]), List.filter_nil,
      List.map_append, List.map_singleton, Option.filter_some_pos hhere]

/-- The event is taken back. -/
theorem drop_record {vaults : IndexView} {fingerprint : String} {applyError : Option String}
    (hdiscovered : vaults.discovered = i.vaults.discovered)
    (hheight : isAbove F e.blockHeight = true) :
    rollback .full { i.record address e fingerprint applyError with vaults } F =
      { i.rollback .full F with vaults := vaults.rollback .full F } := by
  have hisKept : isKept .full { i.record address e fingerprint applyError with vaults } F =
      i.isKept .full F := isKept_congr hdiscovered
  unfold rollback
  rw [hisKept, Index.mk.injEq]
  refine ⟨?_, rfl, ?_⟩
  · unfold record
    dsimp only
    split
    · rfl
    · rw [List.filter_append, List.filter_cons_of_neg (by simp [hheight]), List.filter_nil,
        List.append_nil]
  · unfold record
    dsimp only
    rw [List.filter_append, List.filter_cons_of_neg (by simp [hheight]), List.filter_nil,
      List.append_nil]

theorem isRecorded_of_rollback {fingerprint : String}
    (h : (i.rollback .full F).isRecorded fingerprint = true) : i.isRecorded fingerprint = true := by
  obtain ⟨x, hx, hfingerprint⟩ := List.any_eq_true.mp h
  obtain ⟨y, hy, rfl⟩ := List.mem_map.mp hx
  exact List.any_eq_true.mpr ⟨y, List.mem_of_mem_filter hy, hfingerprint⟩

/-- What is known of an event of the chain. -/
structure Admits (i : Index) (address : String) (e : ChainEvent) : Prop where
  recorded : ∀ x ∈ i.log, x.fingerprint = fingerprintEvent address e →
    x.blockHeight = e.blockHeight
  fresh : i.isRecorded (fingerprintEvent address e) = false → ∃ v,
    i.vaults address = some v ∧
    v.discoveredAtBlock.all (fun n ↦ n ≤ e.blockHeight) = true ∧
    v.configs.all (fun x ↦ x.1 ≤ e.blockHeight) = true ∧
    (e.decodeError = none → i.admitsEvent address e v = true)

theorem Admits.of_admits {setupFallback : Option OnChainState}
    (h : i.admits (.ingest address setupFallback e) = true) : i.Admits address e := by
  unfold admits at h
  obtain ⟨hrecorded, hfresh⟩ := Bool.and_eq_true_iff.mp h
  refine ⟨fun x hx heq ↦ ?_, fun hnew ↦ ?_⟩
  · have hentry := of_decide_eq_true (List.all_eq_true.mp hrecorded x hx)
    exact hentry.resolve_left fun hne ↦ hne heq
  · rw [hnew, Bool.false_or] at hfresh
    cases hv : i.vaults address with
    | none => rw [hv] at hfresh; cases hfresh
    | some v =>
    simp only [hv, Option.any_some, Bool.and_eq_true, Bool.or_eq_true] at hfresh
    refine ⟨v, rfl, hfresh.1.1, hfresh.1.2, fun hdecode ↦ hfresh.2.resolve_left ?_⟩
    rw [hdecode]
    exact Bool.false_ne_true

theorem Admits.recorded_of_rollback (h : i.Admits address e)
    (hheight : isAbove F e.blockHeight = false) :
    (i.rollback .full F).isRecorded (fingerprintEvent address e) =
      i.isRecorded (fingerprintEvent address e) := by
  rw [Bool.eq_iff_iff]
  refine ⟨isRecorded_of_rollback, fun hrecorded ↦ ?_⟩
  obtain ⟨x, hx, hfingerprint⟩ := List.any_eq_true.mp hrecorded
  have hbelow := h.recorded x hx (of_decide_eq_true hfingerprint)
  refine List.any_eq_true.mpr ⟨_, List.mem_map_of_mem (List.mem_filter.mpr ⟨hx, ?_⟩),
    hfingerprint⟩
  rw [hbelow, hheight]
  rfl

theorem rollback_ingest {setupFallback : Option OnChainState} (h : i.Admits address e)
    (hheight : isAbove F e.blockHeight = false) :
    (i.ingest lib .full address setupFallback e).rollback .full F =
      (i.rollback .full F).ingest lib .full address setupFallback e := by
  unfold ingest
  dsimp only
  rw [h.recorded_of_rollback hheight]
  cases hnew : i.isRecorded (fingerprintEvent address e) with
  | true => rfl
  | false =>
  obtain ⟨v, hv, hdiscovered, hconfigs, hadmits⟩ := h.fresh hnew
  have hkept := VaultView.not_isOrphaned hdiscovered hheight
  simp only [Bool.false_eq_true, if_false]
  cases hdecode : e.decodeError with
  | some message => exact rollback_record hv hkept rfl hheight
  | none =>
      have hvaults : (i.rollback .full F).vaults = i.vaults.rollback .full F := rfl
      dsimp only
      rw [hvaults, ← rollback_apply hv hdiscovered hconfigs (hadmits hdecode) hheight]
      cases happly : i.vaults.apply lib .full address e setupFallback with
      | none => exact rollback_record hv hkept rfl hheight
      | some vaults => exact rollback_record hv hkept (IndexView.discovered_apply happly) hheight

theorem drop_ingest {setupFallback : Option OnChainState} (h : i.Admits address e)
    (hheight : isAbove F e.blockHeight = true) :
    ((i.ingest lib .full address setupFallback e).rollback .full F).core =
      (i.rollback .full F).core := by
  unfold ingest
  dsimp only
  cases hnew : i.isRecorded (fingerprintEvent address e) with
  | true => rfl
  | false =>
  obtain ⟨v, hv, -, -, hadmits⟩ := h.fresh hnew
  simp only [Bool.false_eq_true, if_false]
  cases hdecode : e.decodeError with
  | some message => exact congrArg core (drop_record rfl hheight)
  | none =>
      dsimp only
      cases happly : i.vaults.apply lib .full address e setupFallback with
      | none => exact congrArg core (drop_record rfl hheight)
      | some vaults =>
          dsimp only
          rw [drop_record (IndexView.discovered_apply happly) hheight]
          refine core_ext rfl rfl (drop_apply hv (hadmits hdecode) hheight (fun htype ↦ ?_) happly)
          have hunset := hadmits hdecode
          unfold admitsEvent at hunset
          simp only [htype, Bool.not_eq_true'] at hunset
          rw [Bool.eq_false_iff] at hunset ⊢
          exact fun hset ↦ hunset (isSetUp_of_rollback hset)

/-- Vaults are replaced of which the log says nothing. -/
theorem rollback_vaults {vaults : IndexView} (h : ∀ x ∈ i.log, ∀ b, x.vault = some b →
      isKept .full { i with vaults } F b = i.isKept .full F b) :
    rollback .full { i with vaults } F =
      { i.rollback .full F with vaults := vaults.rollback .full F } := by
  unfold rollback
  rw [Index.mk.injEq]
  refine ⟨rfl, rfl, List.map_congr_left fun x hx ↦ congrArg (fun vault ↦ { x with vault }) ?_⟩
  cases hb : x.vault with
  | none => rfl
  | some b => rw [Option.filter_some, Option.filter_some, h x (List.mem_of_mem_filter hx) b hb]

theorem rollback_track {discoveredAtBlock : Option ℕ} (hnew : i.vaults address = none)
    (hlog : ∀ x ∈ i.log, x.vault ≠ some address) :
    (i.track address discoveredAtBlock).rollback .full F =
      if discoveredAtBlock.any (isAbove F) then i.rollback .full F
      else (i.rollback .full F).track address discoveredAtBlock := by
  have hnew' : (i.rollback .full F).vaults address = none := by
    unfold rollback IndexView.rollback
    dsimp only
    rw [hnew]
    rfl
  have horphaned : (VaultView.new none discoveredAtBlock).isOrphaned F .full =
      discoveredAtBlock.any (isAbove F) := by
    unfold VaultView.isOrphaned VaultView.new
    simp
  unfold track
  rw [hnew, hnew']
  dsimp only
  rw [rollback_vaults fun x hx b hb ↦ ?_]
  · split
    next habove =>
      have hvaults : IndexView.rollback .full F
          (Function.update i.vaults address (some (.new none discoveredAtBlock))) =
          i.vaults.rollback .full F := by
        funext a
        unfold IndexView.rollback
        by_cases ha : a = address
        · rw [ha, Function.update_self, hnew, Option.filter_some_neg (by simp [horphaned, habove])]
          rfl
        · rw [Function.update_of_ne ha]
      rw [hvaults]
      rfl
    next hbelow =>
      rw [IndexView.rollback_update (horphaned.trans (Bool.eq_false_iff.mpr hbelow))]
      rfl
  · have hne : b ≠ address := fun heq ↦ hlog x hx (heq ▸ hb)
    unfold isKept
    dsimp only
    rw [Function.update_of_ne hne]

theorem isSetUp_of_isSetUpBy {height : ℕ} (h : i.isSetUpBy address height = true) :
    i.isSetUp address = true := by
  obtain ⟨x, hx, hentry⟩ := List.any_eq_true.mp h
  exact List.any_eq_true.mpr ⟨x, hx, decide_eq_true (of_decide_eq_true hentry).1⟩

/-- A setup below the fork is kept with its vault. -/
theorem isSetUp_rollback (hv : i.vaults address = some v) (hkept : v.isOrphaned F .full = false)
    (hset : i.isSetUpBy address e.blockHeight = true)
    (hheight : isAbove F e.blockHeight = false) :
    (i.rollback .full F).isSetUp address = true := by
  obtain ⟨x, hx, hentry⟩ := List.any_eq_true.mp hset
  obtain ⟨⟨hvault, htype, herror⟩, hle⟩ := of_decide_eq_true hentry
  have hhere : i.isKept .full F address = true := by
    unfold isKept
    rw [hv, Option.any_some, hkept]
    rfl
  have hbelow : isAbove F x.blockHeight = false := isAbove_of_le hle hheight
  refine List.any_eq_true.mpr ⟨_, List.mem_map_of_mem (List.mem_filter.mpr ⟨hx, ?_⟩),
    decide_eq_true ⟨?_, htype, herror⟩⟩
  · rw [hbelow]
    rfl
  · dsimp only
    rw [hvault, Option.filter_some_pos hhere]

theorem Admits.isSetUpBy (h : i.Admits address e)
    (hnew : i.isRecorded (fingerprintEvent address e) = false) (hdecode : e.decodeError = none)
    (htype : e.type = "execution") : ∃ v, i.vaults address = some v ∧
      v.discoveredAtBlock.all (fun n ↦ n ≤ e.blockHeight) = true ∧
      i.isSetUpBy address e.blockHeight = true := by
  obtain ⟨v, hv, hdiscovered, -, hadmits⟩ := h.fresh hnew
  have hset := hadmits hdecode
  unfold admitsEvent at hset
  simp only [htype, Bool.and_eq_true] at hset
  exact ⟨v, hv, hdiscovered, hset.1⟩

theorem safe_of_admits (h : i.admits a = true) : i.Safe a := by
  cases a with
  | ingest address setupFallback e =>
      intro hnew hdecode htype
      obtain ⟨v, -, -, hset⟩ := (Admits.of_admits h).isSetUpBy hnew hdecode htype
      exact isSetUp_of_isSetUpBy hset
  | _ => trivial

theorem safe_rollback (h : i.admits a = true) (hbelow : a.isAbove F = false) :
    (i.rollback .full F).Safe a := by
  cases a with
  | ingest address setupFallback e =>
      intro hnew hdecode htype
      have hadmits := Admits.of_admits h
      rw [hadmits.recorded_of_rollback hbelow] at hnew
      obtain ⟨v, hv, hdiscovered, hset⟩ := hadmits.isSetUpBy hnew hdecode htype
      exact isSetUp_rollback hv (VaultView.not_isOrphaned hdiscovered hbelow) hset hbelow
  | _ => trivial

/-- Whether an action is safe shows in the core. -/
theorem safe_congr (h : i.core = j.core) (hsafe : i.Safe a) : j.Safe a := by
  have hlog : i.log = j.log := (Index.mk.inj h).2.2
  have hset : j.isSetUp = i.isSetUp := by
    unfold isSetUp
    rw [hlog]
  have hrecorded : j.isRecorded = i.isRecorded := by
    unfold isRecorded
    rw [hlog]
  unfold Safe at *
  rw [hset, hrecorded]
  exact hsafe

theorem keep_next (h : i.admits a = true) (hbelow : a.isAbove F = false) :
    (i.next lib .full a).rollback .full F = (i.rollback .full F).next lib .full a := by
  cases a with
  | track address discoveredAtBlock =>
      unfold admits at h
      simp only [Bool.and_eq_true, Option.isNone_iff_eq_none, List.all_eq_true,
        decide_eq_true_eq] at h
      refine (rollback_track h.1 h.2).trans (if_neg ?_)
      exact Bool.eq_false_iff.mp hbelow
  | untrack address => cases h
  | ingest address setupFallback e => exact rollback_ingest (Admits.of_admits h) hbelow
  | rollback forkHeight => cases h
  | note => rfl

theorem drop_next (h : i.admits a = true) (habove : a.isAbove F = true) :
    ((i.next lib .full a).rollback .full F).core = (i.rollback .full F).core := by
  cases a with
  | track address discoveredAtBlock =>
      unfold admits at h
      simp only [Bool.and_eq_true, Option.isNone_iff_eq_none, List.all_eq_true,
        decide_eq_true_eq] at h
      exact congrArg core ((rollback_track h.1 h.2).trans (if_pos habove))
  | ingest address setupFallback e => exact drop_ingest (Admits.of_admits h) habove
  | _ => cases habove

theorem next_congr (h : i.core = j.core) (hsafe : i.Safe a) :
    (i.next lib .full a).core = (j.next lib .full a).core := by
  rw [core_next hsafe, h, ← core_next (safe_congr h hsafe)]

end Index

/-- The fork, if the action is a rollback. -/
def IndexAction.fork : IndexAction → Option ℤ
  | .rollback forkHeight => some forkHeight
  | _ => none

/-- An index in full mode, up to its core. -/
def forkedIndex {E : Env} (lib : Backend E) : ForkedMachine Index IndexAction ℤ where
  init := .empty
  next := Index.next lib .full
  fork := IndexAction.fork
  rollback := fun forkHeight i ↦ i.rollback .full forkHeight
  isAbove := IndexAction.isAbove
  same := Setoid.ker Index.core
  admits := fun i a ↦ i.admits a = true
  safe := Index.Safe
  next_fork := fun {_ a _} h ↦ by
    cases a with
    | rollback forkHeight =>
        cases h
        rfl
    | _ => cases h
  keep := fun h hbelow ↦ congrArg Index.core (Index.keep_next h hbelow)
  drop := Index.drop_next
  safe_of_admits := Index.safe_of_admits
  safe_rollback := Index.safe_rollback
  next_congr := Index.next_congr
  rollback_congr := fun {_ _ forkHeight} h ↦
    (Index.core_rollback forkHeight).trans
      ((congrArg (fun k ↦ (k.rollback .full forkHeight).core) h).trans
        (Index.core_rollback forkHeight).symm)
  rollback_init := rfl

/-- The index after forks is in its core what the actions that remain lead to. -/
theorem Database.index_forked {E : Env} {lib : Backend E} {config : BackendConfig}
    {db : Database} {as : List IndexAction} (hmode : config.indexerMode = .full)
    (hrun : (indexSystem lib config).Run as db)
    (hchains : ∀ front, front <+: as →
      (forkedIndex lib).Genuine ((forkedIndex lib).remaining front)) :
    db.index.core = ((forkedIndex lib).run ((forkedIndex lib).remaining as)).core := by
  rw [(index_run hrun).2, hmode]
  exact ForkedMachine.run_same hchains

end MinaGuard
