import MinaGuard.Indexer.FirstScans
import MinaGuard.Instance.Keys

/-!
# Fairness of first scans

A tick advances every due scan of a safe contract, or spends its five steps on
others, just when no refused address takes a step in front of a safe contract
for which nothing is left.  Five subscribed addresses without an account are
enough to keep every later contract waiting for ever.
-/

namespace MinaGuard

open Foundations IndexerProgram

section Fairness

variable {E : Env} (lib : Backend E) (config : BackendConfig)

/-- The steps the first scan of a contract still needs. -/
def stepsLeftOf (tip : ℕ) (s : IndexerState) (id : ℕ) : ℕ :=
  match s.db.findContract id with
  | some c => stepsLeft config tip s.firstScans c
  | none => 0

/-- The steps by which a tick at this tip advanced the scan of a contract. -/
def stepsTaken (tip : ℕ) (s s' : IndexerState) (id : ℕ) : ℕ :=
  stepsLeftOf config tip s id - stepsLeftOf config tip s' id

/-- Every first scan of an existing safe account advances, unless all steps of
the tick advanced others. -/
def EveryScanAdvances (view : ChainView) (s s' : IndexerState) : Prop :=
  ∀ c ∈ s.db.contracts, c.ready = false → c.synced = false →
    (view.security c.address).accountFound = true → (view.security c.address).safe = true →
    scanStart config c ≤ view.latestHeight →
      0 < stepsTaken config view.latestHeight s s' c.id ∨
        ((s.db.contracts.filter fun d ↦ d.id ≠ c.id).map fun d ↦
          stepsTaken config view.latestHeight s s' d.id).sum = firstScanStepsPerTick

/-- No refused address takes a step in front of a safe contract that the steps
do not reach. -/
def RefusedSpareSafe (view : ChainView) (s : IndexerState) : Prop :=
  ∀ front b mid c back, s.db.contracts = front ++ b :: (mid ++ c :: back) →
    isDue config view.latestHeight b = true → view.refuses b = true →
    isDue config view.latestHeight c = true → view.isSafe c.address = true →
    spent config view s.firstScans front < firstScanStepsPerTick →
      spent config view s.firstScans (front ++ b :: mid) < firstScanStepsPerTick

/-- Ticks without failures on a fixed set of contracts. -/
def tickSystem : TransitionSystem IndexerState ChainView where
  init := fun s ↦ s.db.Keyed
  step := fun s view s' ↦ FaultFreeTick lib config view s s' ∧
    s'.db.contracts.map Db.Contract.id = s.db.contracts.map Db.Contract.id

/-- The steps all first scans need up to a tip. -/
def work (tip : ℕ) (s : IndexerState) : ℕ :=
  (s.db.contracts.map (stepsLeft config tip s.firstScans)).sum

/-- When ticks are fair, and what follows for runs of fair ticks: a scan is
finished after as many as there was work. -/
structure FairFirstScans : Prop where
  keyed : ∀ {as : List (Happening Slot Mark)} {S : Server Slot IndexerState Thrown Mark},
    (indexerSystem lib config).Run as S → S.store.db.Keyed
  tick : ∀ {view : ChainView} {s s' : IndexerState}, s.db.Keyed →
    FaultFreeTick lib config view s s' →
      (EveryScanAdvances config view s s' ↔ RefusedSpareSafe config view s)
  finish : ∀ {views : List ChainView} {s s' : IndexerState} {tip : ℕ} {c : Db.Contract},
    s.db.Keyed →
    ((tickSystem lib config).restrict fun s view ↦ RefusedSpareSafe config view s).Path s views
      s' →
    c ∈ s.db.contracts →
    (∀ view ∈ views, view.isSafe c.address = true ∧ scanStart config c ≤ view.latestHeight ∧
      view.latestHeight ≤ tip) →
    work config tip s ≤ views.length →
      ∃ c' ∈ s'.db.contracts, c'.id = c.id ∧ c'.synced = true

end Fairness

section Proofs

variable {E : Env} {lib : Backend E} {config : BackendConfig} {view : ChainView}
  {scans scans' : InsertionMap ℕ FirstScan} {s s' : IndexerState} {c d : Db.Contract}
  {tip n budget : ℕ} {l l' : List Db.Contract}

/-- The steps a list of contracts gets from a budget. -/
def advancedSteps (config : BackendConfig) (view : ChainView)
    (scans : InsertionMap ℕ FirstScan) : ℕ → List Db.Contract → ℕ
  | _, [] => 0
  | budget, c :: l => granted config view scans budget c +
      advancedSteps config view scans (budget - scanCost config view scans c) l

/-- The steps it spends on refused addresses. -/
def wastedSteps (config : BackendConfig) (view : ChainView)
    (scans : InsertionMap ℕ FirstScan) : ℕ → List Db.Contract → ℕ
  | _, [] => 0
  | budget, c :: l =>
      (if isDue config view.latestHeight c && view.refuses c then min 1 budget else 0) +
        wastedSteps config view scans (budget - scanCost config view scans c) l

theorem scanCost_split (config : BackendConfig) (view : ChainView)
    (scans : InsertionMap ℕ FirstScan) (budget : ℕ) (c : Db.Contract) :
    granted config view scans budget c +
        (if isDue config view.latestHeight c && view.refuses c then min 1 budget else 0) =
      min (scanCost config view scans c) budget := by
  unfold granted scanCost
  cases isDue config view.latestHeight c <;> cases view.refuses c <;> simp

/-- Every step is taken or wasted. -/
theorem advanced_add_wasted (config : BackendConfig) (view : ChainView)
    (scans : InsertionMap ℕ FirstScan) (budget : ℕ) (l : List Db.Contract) :
    advancedSteps config view scans budget l + wastedSteps config view scans budget l =
      min (spent config view scans l) budget := by
  induction l generalizing budget with
  | nil => simp [advancedSteps, wastedSteps, spent]
  | cons c l ih =>
      have hrest := ih (budget - scanCost config view scans c)
      have hhead := scanCost_split config view scans budget c
      rw [advancedSteps, wastedSteps, spent_cons]
      omega

theorem advancedSteps_append (budget : ℕ) (l l' : List Db.Contract) :
    advancedSteps config view scans budget (l ++ l') = advancedSteps config view scans budget l +
      advancedSteps config view scans (budget - spent config view scans l) l' := by
  induction l generalizing budget with
  | nil => simp [advancedSteps, spent]
  | cons c l ih =>
      rw [List.cons_append, advancedSteps, advancedSteps, ih, spent_cons, Nat.sub_sub,
        Nat.add_assoc]

/-- A step is wasted just if it reaches a refused address. -/
theorem wastedSteps_pos : 0 < wastedSteps config view scans budget l ↔
    ∃ front b back, l = front ++ b :: back ∧ isDue config view.latestHeight b = true ∧
      view.refuses b = true ∧ spent config view scans front < budget := by
  induction l generalizing budget with
  | nil =>
      refine iff_of_false (lt_irrefl 0) ?_
      rintro ⟨front, b, back, hl, -⟩
      simp at hl
  | cons c l ih =>
      rw [wastedSteps, Nat.add_pos_iff_pos_or_pos, ih]
      constructor
      · rintro (hhead | ⟨front, b, back, rfl, hdue, hrefuses, hlt⟩)
        · split at hhead
          next hc =>
            obtain ⟨hdue, hrefuses⟩ := Bool.and_eq_true_iff.mp hc
            refine ⟨[], c, l, rfl, hdue, hrefuses, ?_⟩
            exact hhead.trans_le (Nat.min_le_right 1 budget)
          next => exact absurd hhead (lt_irrefl 0)
        · refine ⟨c :: front, b, back, rfl, hdue, hrefuses, ?_⟩
          rw [spent_cons]
          omega
      · rintro ⟨front, b, back, hl, hdue, hrefuses, hlt⟩
        cases front with
        | nil =>
            cases hl
            refine Or.inl ?_
            rw [hdue, hrefuses, Bool.and_self, if_pos rfl]
            exact lt_min Nat.one_pos hlt
        | cons x front =>
            obtain ⟨rfl, rfl⟩ := List.cons.inj hl
            refine Or.inr ⟨front, b, back, rfl, hdue, hrefuses, ?_⟩
            rw [spent_cons] at hlt
            omega

theorem sum_eq_advancedSteps {taken : Db.Contract → ℕ}
    (h : ∀ front c back, l = front ++ c :: back →
      taken c = granted config view scans (budget - spent config view scans front) c) :
    (l.map taken).sum = advancedSteps config view scans budget l := by
  induction l generalizing budget with
  | nil => rfl
  | cons c l ih =>
      rw [List.map_cons, List.sum_cons, advancedSteps, h [] c l rfl]
      refine congrArg (_ + ·) (ih fun front d back hl ↦ ?_)
      rw [h (c :: front) d back (by rw [hl, List.cons_append]), spent_cons, Nat.sub_sub]

theorem stepsLeft_unsynced (hc : c.synced = false) :
    stepsLeft config tip scans c = stepsBetween (scanNext config scans c) tip := by
  rw [stepsLeft, hc, if_neg Bool.false_ne_true]

theorem stepsLeft_synced (hc : c.synced = true) : stepsLeft config tip scans c = 0 := by
  rw [stepsLeft, if_pos hc]

/-- Steps that end at or below the tip. -/
theorem stepsBetween_add {next : ℕ} (h : n ≤ (tip - next) / eventQueryBlockSpan) :
    stepsBetween (next + n * eventQueryBlockSpan) tip + n = stepsBetween next tip := by
  unfold stepsBetween
  rw [← Nat.sub_sub, Nat.mul_comm, Nat.sub_mul_div]
  omega

/-- A scan that goes on has ended its steps below the tip. -/
theorem Advances.le_of_unsynced (h : Advances config tip n scans scans' c d)
    (hd : d.synced = false) : n ≤ (tip - scanNext config scans c) / eventQueryBlockSpan := by
  have hle := h.le
  have hne : n ≠ stepsLeft config tip scans c := fun heq ↦ by
    rw [h.done.mpr heq] at hd
    cases hd
  rw [stepsLeft_unsynced (h.unsynced hd)] at hle hne
  unfold stepsBetween at hle hne
  omega

theorem Advances.stepsLeft_add (h : Advances config tip n scans scans' c d) :
    stepsLeft config tip scans' d + n = stepsLeft config tip scans c := by
  cases hd : d.synced with
  | true => rw [← h.done.mp hd, stepsLeft_synced hd, Nat.zero_add]
  | false =>
      rw [stepsLeft_unsynced hd, h.next hd, stepsLeft_unsynced (h.unsynced hd)]
      exact stepsBetween_add (h.le_of_unsynced hd)

/-- Seen from a later tip, the scan has come as far. -/
theorem Advances.stepsLeft_le (h : Advances config tip n scans scans' c d) {later : ℕ}
    (hlater : tip ≤ later) :
    stepsLeft config later scans' d + n ≤ stepsLeft config later scans c := by
  have hmono : (tip - scanNext config scans c) / eventQueryBlockSpan ≤
      (later - scanNext config scans c) / eventQueryBlockSpan :=
    Nat.div_le_div_right (Nat.sub_le_sub_right hlater _)
  cases hd : d.synced with
  | true =>
      rw [stepsLeft_synced hd, Nat.zero_add, h.done.mp hd]
      unfold stepsLeft
      split
      · exact le_rfl
      · exact Nat.add_le_add_right hmono 1
  | false =>
      rw [stepsLeft_unsynced hd, h.next hd, stepsLeft_unsynced (h.unsynced hd)]
      exact (stepsBetween_add ((h.le_of_unsynced hd).trans hmono)).le

theorem stepsLeftOf_eq (hkeyed : s.db.Keyed) (hc : c ∈ s.db.contracts) :
    stepsLeftOf config tip s c.id = stepsLeft config tip s.firstScans c := by
  rw [stepsLeftOf, hkeyed.findContract hc]

/-! ## One tick -/

/-- The steps a contract takes in a tick are those it is granted. -/
theorem FaultFreeTick.stepsTaken_eq (hkeyed : s.db.Keyed)
    (h : FaultFreeTick lib config view s s') {front back : List Db.Contract}
    (hrows : s.db.contracts = front ++ c :: back) :
    stepsTaken config view.latestHeight s s' c.id = granted config view s.firstScans
      (firstScanStepsPerTick - spent config view s.firstScans front) c := by
  obtain ⟨hkeeps, hadvances⟩ := h.advances hkeyed
  obtain ⟨d, hd, hadvances⟩ := hadvances front c back hrows
  have hc : c ∈ s.db.contracts := hrows ▸ List.mem_append_right _ List.mem_cons_self
  have hafter : stepsLeftOf config view.latestHeight s' c.id =
      stepsLeft config view.latestHeight s'.firstScans d := by
    rw [← hadvances.id, stepsLeftOf_eq (hkeeps.keyed hkeyed) hd]
  rw [stepsTaken, stepsLeftOf_eq hkeyed hc, hafter, ← hadvances.stepsLeft_add,
    Nat.add_sub_cancel_left]

theorem FaultFreeTick.sum_stepsTaken (hkeyed : s.db.Keyed)
    (h : FaultFreeTick lib config view s s') :
    (s.db.contracts.map fun d ↦ stepsTaken config view.latestHeight s s' d.id).sum =
      advancedSteps config view s.firstScans firstScanStepsPerTick s.db.contracts :=
  sum_eq_advancedSteps fun _ _ _ hrows ↦ h.stepsTaken_eq hkeyed hrows

/-- The steps of the others are all but its own. -/
theorem sum_others (taken : ℕ → ℕ) (hkeyed : s.db.Keyed) (hc : c ∈ s.db.contracts) :
    taken c.id + ((s.db.contracts.filter fun d ↦ d.id ≠ c.id).map fun d ↦ taken d.id).sum =
      (s.db.contracts.map fun d ↦ taken d.id).sum := by
  obtain ⟨front, back, hrows⟩ := List.append_of_mem hc
  have hdistinct := hkeyed.distinct
  rw [hrows, List.map_append, List.map_cons, List.nodup_middle] at hdistinct
  obtain ⟨hfresh, -⟩ := List.nodup_cons.mp hdistinct
  have hkeep (l : List Db.Contract) (hl : ∀ d ∈ l, d ∈ front ∨ d ∈ back) :
      (l.filter fun d ↦ d.id ≠ c.id) = l := by
    refine List.filter_eq_self.mpr fun d hd ↦ decide_eq_true fun heq ↦ hfresh ?_
    rw [← heq, ← List.map_append]
    exact List.mem_map_of_mem (List.mem_append.mpr (hl d hd))
  rw [hrows, List.filter_append, List.filter_cons_of_neg (by simp),
    hkeep front fun _ h ↦ Or.inl h, hkeep back fun _ h ↦ Or.inr h]
  simp only [List.map_append, List.map_cons, List.sum_append, List.sum_cons]
  omega

theorem isDue_iff : isDue config tip c = true ↔
    c.ready = false ∧ c.synced = false ∧ scanStart config c ≤ tip := by
  simp [isDue, and_assoc]

theorem ChainView.isSafe_iff {address : String} : view.isSafe address = true ↔
    (view.security address).accountFound = true ∧ (view.security address).safe = true := by
  simp [ChainView.isSafe]

/-- A safe contract gets what is left of the budget. -/
theorem granted_safe (hdue : isDue config view.latestHeight c = true)
    (hsafe : view.isSafe c.address = true) :
    granted config view scans budget c =
      min (stepsLeft config view.latestHeight scans c) budget := by
  simp [granted, hdue, ChainView.refuses, hsafe]

theorem FaultFreeTick.fair_iff (hkeyed : s.db.Keyed) (h : FaultFreeTick lib config view s s') :
    EveryScanAdvances config view s s' ↔ RefusedSpareSafe config view s := by
  have hall := h.sum_stepsTaken hkeyed
  constructor
  · intro hfair front b mid c back hrows hb hrefused hc hsafe hfront
    by_contra hspent
    have hsplit : s.db.contracts = (front ++ b :: mid) ++ c :: back := by
      rw [hrows, List.append_assoc, List.cons_append]
    have hmem : c ∈ s.db.contracts := hsplit ▸ List.mem_append_right _ List.mem_cons_self
    have hnone : stepsTaken config view.latestHeight s s' c.id = 0 := by
      rw [h.stepsTaken_eq hkeyed hsplit, granted_safe hc hsafe,
        Nat.sub_eq_zero_of_le (Nat.le_of_not_lt hspent), Nat.min_zero]
    obtain ⟨hready, hsynced, hstart⟩ := isDue_iff.mp hc
    obtain ⟨hfound, hcanonical⟩ := ChainView.isSafe_iff.mp hsafe
    have hothers := sum_others (stepsTaken config view.latestHeight s s') hkeyed hmem
    -- the others took all five steps, so none was wasted
    have hfive := (hfair c hmem hready hsynced hfound hcanonical hstart).resolve_left
      (by rw [hnone]; exact lt_irrefl 0)
    have htotal := advanced_add_wasted config view s.firstScans firstScanStepsPerTick
      s.db.contracts
    have hwasted := wastedSteps_pos.mpr
      ⟨front, b, mid ++ c :: back, hrows, hb, hrefused, hfront⟩
    omega
  · intro hspare c hmem hready hsynced hfound hcanonical hstart
    obtain ⟨front, back, hrows⟩ := List.append_of_mem hmem
    have hdue := isDue_iff.mpr ⟨hready, hsynced, hstart⟩
    have hsafe := ChainView.isSafe_iff.mpr ⟨hfound, hcanonical⟩
    have htaken := h.stepsTaken_eq hkeyed hrows
    rw [granted_safe hdue hsafe] at htaken
    have hleft : 0 < stepsLeft config view.latestHeight s.firstScans c := by
      rw [stepsLeft_unsynced hsynced]
      exact stepsBetween_pos
    have hothers := sum_others (stepsTaken config view.latestHeight s s') hkeyed hmem
    by_cases hspent : spent config view s.firstScans front < firstScanStepsPerTick
    · left
      omega
    · right
      have hnowaste : wastedSteps config view s.firstScans firstScanStepsPerTick front = 0 := by
        refine Nat.eq_zero_of_not_pos fun hpos ↦ hspent ?_
        obtain ⟨before, b, mid, rfl, hb, hrefused, hlt⟩ := wastedSteps_pos.mp hpos
        exact hspare before b mid c back (by rw [hrows, List.append_assoc, List.cons_append]) hb
          hrefused hdue hsafe hlt
      have hfront := advanced_add_wasted config view s.firstScans firstScanStepsPerTick front
      have htotal := advanced_add_wasted config view s.firstScans firstScanStepsPerTick
        s.db.contracts
      have happend : advancedSteps config view s.firstScans firstScanStepsPerTick
          s.db.contracts = advancedSteps config view s.firstScans firstScanStepsPerTick front +
            advancedSteps config view s.firstScans
              (firstScanStepsPerTick - spent config view s.firstScans front) (c :: back) := by
        rw [hrows, advancedSteps_append]
      omega

/-- A fair tick leaves less work, unless the contract is stamped. -/
theorem FaultFreeTick.work_le (hkeyed : s.db.Keyed) (h : FaultFreeTick lib config view s s')
    (hids : s'.db.contracts.map Db.Contract.id = s.db.contracts.map Db.Contract.id)
    (htip : view.latestHeight ≤ tip) :
    work config tip s' +
      advancedSteps config view s.firstScans firstScanStepsPerTick s.db.contracts ≤
      work config tip s := by
  obtain ⟨⟨f, new, hkeeps⟩, hadvances⟩ := h.advances hkeyed
  have hkeyed' := hkeeps.keyed hkeyed
  obtain rfl : new = [] := by
    have hlength := congrArg List.length hids
    simp only [hkeeps.rows, List.length_map, List.length_append] at hlength
    exact List.length_eq_zero_iff.mp (by omega)
  have hrows : s'.db.contracts = s.db.contracts.map f := by
    rw [hkeeps.rows, List.append_nil]
  rw [work, work, hrows, List.map_map, ← h.sum_stepsTaken hkeyed, ← List.sum_map_add]
  refine List.sum_le_sum fun c hc ↦ ?_
  obtain ⟨front, back, hsplit⟩ := List.append_of_mem hc
  obtain ⟨d, hd, hadvances⟩ := hadvances front c back hsplit
  have hfc : f c ∈ s'.db.contracts := hrows ▸ List.mem_map_of_mem hc
  obtain rfl : d = f c :=
    hkeyed'.unique hfc hd (hadvances.id.trans (hkeeps.evolves c hc).id.symm)
  rw [h.stepsTaken_eq hkeyed hsplit]
  exact hadvances.stepsLeft_le htip

theorem FaultFreeTick.advancedSteps_pos (hkeyed : s.db.Keyed)
    (h : FaultFreeTick lib config view s s') (hfair : EveryScanAdvances config view s s')
    (hc : c ∈ s.db.contracts) (hsynced : c.synced = false)
    (hsafe : view.isSafe c.address = true) (hstart : scanStart config c ≤ view.latestHeight) :
    0 < advancedSteps config view s.firstScans firstScanStepsPerTick s.db.contracts := by
  have hready : c.ready = false := Bool.eq_false_iff.mpr fun hready ↦ by
    rw [hkeyed.ready c hc hready] at hsynced
    cases hsynced
  obtain ⟨hfound, hcanonical⟩ := ChainView.isSafe_iff.mp hsafe
  have hothers := sum_others (stepsTaken config view.latestHeight s s') hkeyed hc
  rw [h.sum_stepsTaken hkeyed] at hothers
  rcases hfair c hc hready hsynced hfound hcanonical hstart with htaken | hfive
  · omega
  · rw [← hothers, hfive]
    exact Nat.add_pos_right _ (Nat.succ_pos 4)

/-- As long as a contract waits, each fair tick does some of the work. -/
theorem work_of_waiting {views : List ChainView} (hkeyed : s.db.Keyed)
    (hpath : ((tickSystem lib config).restrict fun s view ↦ RefusedSpareSafe config view s).Path
      s views s')
    (hc : c ∈ s.db.contracts)
    (hviews : ∀ view ∈ views, view.isSafe c.address = true ∧
      scanStart config c ≤ view.latestHeight ∧ view.latestHeight ≤ tip) :
    ∃ c' ∈ s'.db.contracts, c'.id = c.id ∧ (c.synced = true → c'.synced = true) ∧
      (c'.synced = false → 0 < work config tip s' ∧
        work config tip s' + views.length ≤ work config tip s) := by
  induction views generalizing s c with
  | nil =>
      obtain rfl := TransitionSystem.path_nil.mp hpath
      refine ⟨c, hc, rfl, id, fun hsynced ↦ ⟨?_, le_rfl⟩⟩
      refine (?_ : 0 < stepsLeft config tip s.firstScans c).trans_le
        (List.single_le_sum (fun _ _ ↦ Nat.zero_le _) _ (List.mem_map_of_mem hc))
      rw [stepsLeft_unsynced hsynced]
      exact stepsBetween_pos
  | cons view views ih =>
      obtain ⟨s₁, ⟨hspare, htick, hids⟩, hrest⟩ := TransitionSystem.path_cons.mp hpath
      obtain ⟨hkeeps, -⟩ := htick.advances hkeyed
      obtain ⟨c₁, hc₁, hevolves⟩ := hkeeps.row hc
      obtain ⟨hsafe, hstart, htip⟩ := hviews view List.mem_cons_self
      have hstart₁ : scanStart config c₁ = scanStart config c := by
        rw [scanStart, scanStart, hevolves.discoveredAtBlock]
      obtain ⟨c', hc', hid, hstamp, hwork⟩ := ih (hkeeps.keyed hkeyed) hrest hc₁ fun v hv ↦ by
        rw [hevolves.address, hstart₁]
        exact hviews v (List.mem_cons_of_mem view hv)
      refine ⟨c', hc', hid.trans hevolves.id, fun hc ↦ hstamp (hevolves.synced hc),
        fun hwaiting ↦ ?_⟩
      obtain ⟨hpos, hle⟩ := hwork hwaiting
      refine ⟨hpos, ?_⟩
      have hdone := htick.work_le hkeyed hids htip
      -- the contract waited in this tick too
      have hsynced : c.synced = false := Bool.eq_false_iff.mpr fun hsynced ↦ by
        rw [hstamp (hevolves.synced hsynced)] at hwaiting
        cases hwaiting
      have hsteps := htick.advancedSteps_pos hkeyed ((htick.fair_iff hkeyed).mpr hspare) hc
        hsynced hsafe hstart
      rw [List.length_cons]
      omega

theorem fair_first_scans : FairFirstScans lib config where
  keyed := run_keyed
  tick := fun hkeyed h ↦ h.fair_iff hkeyed
  finish := by
    intro views s s' tip c hkeyed hpath hc hviews hlength
    obtain ⟨c', hc', hid, -, hwork⟩ := work_of_waiting hkeyed hpath hc hviews
    refine ⟨c', hc', hid, ?_⟩
    cases hsynced : c'.synced with
    | true => rfl
    | false =>
        obtain ⟨hpos, hle⟩ := hwork hsynced
        omega

end Proofs

section Starvation

variable {E : Env} {lib : Backend E} {config : BackendConfig} {view : ChainView}
  {s : IndexerState} {c : Db.Contract}

/-- A step on a missing account is spent, and changes nothing. -/
theorem alone_missing {start steps next : ℕ}
    (hrow : (s.db.findContract c.id).map Db.Contract.permissionsVerified = some false)
    (hmissing : (view.security c.address).accountFound = false) :
    (firstScanSteps lib config view.requests c start view.latestHeight (steps + 1) next).Alone s
      [none] s (.ok steps) := by
  have hverify : (verifyPermissions view.requests c.id c.address).Alone s [none] s
      (.ok false) := by
    refine .commit rfl ?_
    change Program.Alone s (if (s.db.findContract c.id).map Db.Contract.permissionsVerified =
      some true then _ else _) _ _ _
    rw [hrow, if_neg (by decide)]
    change Program.Alone s (if (view.security c.address).accountFound = false then _ else _) _ _ _
    rw [if_pos hmissing]
    exact .done
  have hsync {toHeight : ℕ} {finish : Bool} :
      (syncSingleContract lib config view.requests c.id c.address next toHeight finish true).Alone
        s ([none] ++ []) s (.ok none) := by
    unfold syncSingleContract
    exact hverify.bind .done
  unfold firstScanSteps
  exact hsync.bind .done

/-- An account that exists and is safe is found so. -/
theorem alone_found {db : Database}
    (hrow : (s.db.findContract c.id).map Db.Contract.permissionsVerified = some false)
    (hfound : (view.security c.address).accountFound = true)
    (hsafe : (view.security c.address).safe = true)
    (hupdate : s.db.updateContract c.id (fun x ↦ { x with permissionsVerified := true }) =
      .ok db) :
    (verifyPermissions view.requests c.id c.address).Alone s [none, none] { s with db := db }
      (.ok true) := by
  refine .commit rfl ?_
  change Program.Alone s (if (s.db.findContract c.id).map Db.Contract.permissionsVerified =
    some true then _ else _) _ _ _
  rw [hrow, if_neg (by decide)]
  change Program.Alone s (if (view.security c.address).accountFound = false then _ else
    if (view.security c.address).safe = false then _ else _) _ _ _
  rw [hfound, hsafe, if_neg (by decide), if_neg (by decide)]
  have hstore : (execute none fun db ↦ db.updateContract c.id fun x ↦
      { x with permissionsVerified := true }).Alone s [none] { s with db := db } (.ok ()) := by
    refine .commit (b := ()) ?_ .done
    simp only [hupdate, Except.map]
  exact hstore.bind .done

/-- In lite mode a tick is the rescan, then the sync of what is ready. -/
theorem lite_tick {s₁ : IndexerState} {fromHeight : ℕ} {ls : List (Option Mark)}
    (hmode : config.indexerMode = .lite)
    (hfrom : max config.indexStartHeight (cursor config s.db + 1 - reorgDetectionWindow) =
      fromHeight)
    (htip : ¬(view.latestHeight < cursor config s.db ∨ view.latestHeight < fromHeight))
    (hrescan : (rescanUnreadyContracts lib config view.requests fromHeight
      view.latestHeight).Alone s ls s₁ (.ok ()))
    (hnone : (s₁.db.contracts.filter fun c ↦ c.ready) = []) :
    FaultFreeTick lib config view s
      { s₁ with db := { s₁.db with indexedHeight := some view.latestHeight } } := by
  have hknown : (syncKnownContracts lib config view.requests fromHeight
      view.latestHeight).Alone s₁ [none] s₁ (.ok ()) := by
    refine .commit rfl ?_
    change Program.Alone s₁ (forM (s₁.db.contracts.filter fun c ↦ c.ready) _) _ _ _
    rw [hnone]
    exact .done
  have hdone : (execute (some (.advanced (cursor config s.db) view.latestHeight)) fun db ↦
      .ok { db with indexedHeight := some view.latestHeight }).Alone s₁
      [some (.advanced (cursor config s.db) view.latestHeight)]
      { s₁ with db := { s₁.db with indexedHeight := some view.latestHeight } } (.ok ()) :=
    .commit rfl .done
  subst hfrom
  refine ⟨none :: (ls ++ ([none] ++
    [some (.advanced (cursor config s.db) view.latestHeight)])), .commit rfl ?_⟩
  change Program.Alone s (if view.latestHeight < cursor config s.db ∨
    view.latestHeight < max config.indexStartHeight
      (cursor config s.db + 1 - reorgDetectionWindow) then _ else _) _ _ _
  rw [if_neg htip]
  change Program.Alone s (if config.indexerMode = .full then _ else _) _ _ _
  rw [if_neg (by rw [hmode]; decide)]
  refine hrescan.bind ?_
  change Program.Alone s₁ (if max config.indexStartHeight
    (cursor config s.db + 1 - reorgDetectionWindow) ≤ view.latestHeight then _ else _) _ _ _
  rw [if_pos (Nat.le_of_not_lt fun h ↦ htip (Or.inr h))]
  exact hknown.bind hdone

end Starvation

namespace Walkthrough

def subscriptions : BackendConfig := ⟨.lite, .archive, 0, none⟩

def subscription (id : ℕ) (key : PublicKey) : Db.Contract :=
  ⟨id, keyText key, none, false, false, some 2, false⟩

/-- Only the root guard has an account. -/
def rootDeployed : ChainView where
  latestHeight := 10
  security := fun address ↦
    if address = keyText root then ⟨true, true⟩ else ⟨false, false⟩
  events := fun _ _ _ ↦ []
  candidates := fun _ ↦ []

theorem root_security : rootDeployed.security (keyText root) = ⟨true, true⟩ := by
  simp only [rootDeployed, if_pos]

theorem missing {key : PublicKey} (h : keyText key ≠ keyText root) :
    (rootDeployed.security (keyText key)).accountFound = false := by
  simp only [rootDeployed, if_neg h]

theorem alone_missing_subscription (key : PublicKey) {s : IndexerState} {id steps : ℕ}
    (hrow : (s.db.findContract id).map Db.Contract.permissionsVerified = some false)
    (hkey : keyText key ≠ keyText root) :
    (firstScanSteps backend subscriptions rootDeployed.requests (subscription id key) 2 10
      (steps + 1) 2).Alone s [none] s (.ok steps) :=
  alone_missing (c := subscription id key) hrow (missing hkey)

theorem order_nil : orderEventsForApply (reverseEventsWithinEachTx []) = [] := by
  decide +kernel

theorem alone_no_events {s : IndexerState} :
    ((orderEventsForApply (reverseEventsWithinEachTx [])).zipIdx.foldlM
      (syncEvent backend subscriptions 2 (keyText root)) false).Alone s [] s (.ok false) := by
  rw [order_nil]
  exact .done

/-- An address without an account is subscribed before the root guard. -/
def paired : IndexerState where
  db := { contracts := [subscription 1 child, subscription 2 root], nextContractId := 3 }
  firstScans := []

/-- The first scan of the root guard is finished, and found no event. -/
def pairScanned (indexedHeight : Option ℕ) : IndexerState where
  db :=
    { contracts := [subscription 1 child,
        { subscription 2 root with permissionsVerified := true, synced := true }]
      nextContractId := 3
      indexedHeight }
  firstScans := [(1, ⟨2, 2⟩)]

/-- One of the five steps goes to the missing account, the next to the root guard. -/
theorem tick_paired :
    FaultFreeTick backend subscriptions rootDeployed paired (pairScanned (some 10)) := by
  have hverify := @alone_found rootDeployed ⟨paired.db, [(1, ⟨2, 2⟩), (2, ⟨2, 2⟩)]⟩
    (subscription 2 root) _ rfl (congrArg VaultSecurityStatus.accountFound root_security)
    (congrArg VaultSecurityStatus.safe root_security) rfl
  have hsync : (syncSingleContract backend subscriptions rootDeployed.requests 2 (keyText root)
      2 10 true true).Alone ⟨paired.db, [(1, ⟨2, 2⟩), (2, ⟨2, 2⟩)]⟩
      ([none, none] ++ some (.fetched 2 (keyText root) []) ::
        ([] ++ [none, none, some (.synced (keyText root) [])]))
      ⟨(pairScanned none).db, [(1, ⟨2, 2⟩), (2, ⟨2, 2⟩)]⟩ (.ok (some false)) := by
    unfold syncSingleContract
    exact hverify.bind (.mark (alone_no_events.bind (.commit rfl (.commit rfl (.mark .done)))))
  have hsteps : (firstScanSteps backend subscriptions rootDeployed.requests (subscription 2 root)
      2 10 4 2).Alone ⟨paired.db, [(1, ⟨2, 2⟩), (2, ⟨2, 2⟩)]⟩
      (([none, none] ++ some (.fetched 2 (keyText root) []) ::
        ([] ++ [none, none, some (.synced (keyText root) [])])) ++ [none, none])
      (pairScanned none) (.ok 3) := by
    unfold firstScanSteps
    exact hsync.bind (.memory (.commit rfl .done))
  have hscans : (paired.db.contracts.foldlM
      (rescanContract backend subscriptions rootDeployed.requests 0 10)
      firstScanStepsPerTick).Alone paired _ (pairScanned none) (.ok 3) :=
    .bind (.memory (alone_missing_subscription child rfl (by decide +kernel)))
      (.bind (.memory hsteps) .done)
  obtain ⟨ls, hrescan⟩ : ∃ ls, (rescanUnreadyContracts backend subscriptions
      rootDeployed.requests 0 10).Alone paired ls (pairScanned none) (.ok ()) :=
    ⟨_, .commit rfl (.memory (hscans.bind (f := fun _ ↦ pure ()) .done))⟩
  exact @lite_tick _ backend subscriptions rootDeployed paired (pairScanned none) 0 ls rfl
    (by decide) (by decide) hrescan rfl

/-- A later tick tries the missing account again. -/
theorem tick_pairScanned : FaultFreeTick backend subscriptions rootDeployed
    (pairScanned (some 10)) (pairScanned (some 10)) := by
  have hverify : (verifyPermissions rootDeployed.requests 2 (keyText root)).Alone
      (pairScanned (some 10)) [none] (pairScanned (some 10)) (.ok true) :=
    .commit rfl .done
  have hsync : (syncSingleContract backend subscriptions rootDeployed.requests 2 (keyText root)
      2 10 true false).Alone (pairScanned (some 10))
      ([none] ++ some (.fetched 2 (keyText root) []) ::
        ([] ++ [none, some (.synced (keyText root) [])]))
      (pairScanned (some 10)) (.ok (some false)) := by
    unfold syncSingleContract
    exact hverify.bind (.mark (alone_no_events.bind (.commit rfl (.mark .done))))
  have hscans : ((pairScanned (some 10)).db.contracts.foldlM
      (rescanContract backend subscriptions rootDeployed.requests 0 10)
      firstScanStepsPerTick).Alone (pairScanned (some 10)) _ (pairScanned (some 10)) (.ok 4) :=
    .bind (.memory (alone_missing_subscription child rfl (by decide +kernel)))
      (.bind (hsync.bind .done) .done)
  obtain ⟨ls, hrescan⟩ : ∃ ls, (rescanUnreadyContracts backend subscriptions
      rootDeployed.requests 0 10).Alone (pairScanned (some 10)) ls (pairScanned (some 10))
      (.ok ()) :=
    ⟨_, .commit rfl (.commit rfl (.memory (hscans.bind (f := fun _ ↦ pure ()) .done)))⟩
  exact @lite_tick _ backend subscriptions rootDeployed (pairScanned (some 10))
    (pairScanned (some 10)) 0 ls rfl (by decide) (by decide) hrescan rfl

/-- The missing account leaves enough steps. -/
theorem paired_spares {s : IndexerState} (hs : s = paired ∨ s = pairScanned (some 10)) :
    RefusedSpareSafe subscriptions rootDeployed s := by
  intro front b mid c back hrows _ _ _ _ _
  have htwo : s.db.contracts.length = 2 := by rcases hs with rfl | rfl <;> rfl
  have hlength := congrArg List.length hrows
  simp only [htwo, List.length_append, List.length_cons] at hlength
  obtain rfl : front = [] := List.length_eq_zero_iff.mp (by omega)
  obtain rfl : mid = [] := List.length_eq_zero_iff.mp (by omega)
  rcases hs with rfl | rfl
  · obtain ⟨rfl, -⟩ := List.cons.inj hrows
    decide +kernel
  · obtain ⟨rfl, -⟩ := List.cons.inj hrows
    decide +kernel

theorem paired_scan_finishes : ∃ c ∈ (pairScanned (some 10)).db.contracts,
    c.id = 2 ∧ c.synced = true := by
  have hkeyed : paired.db.Keyed :=
    ⟨by decide, by simp [paired, subscription], by simp [paired, subscription]⟩
  have hpath : ((tickSystem backend subscriptions).restrict fun s view ↦
      RefusedSpareSafe subscriptions view s).Path paired [rootDeployed, rootDeployed]
      (pairScanned (some 10)) :=
    ⟨_, ⟨paired_spares (.inl rfl), tick_paired, rfl⟩,
      TransitionSystem.path_singleton.mpr ⟨paired_spares (.inr rfl), tick_pairScanned, rfl⟩⟩
  refine @FairFirstScans.finish _ backend subscriptions fair_first_scans _ _ _ 10
    (subscription 2 root) hkeyed hpath (by simp [paired]) ?_ (by decide)
  intro view hview
  obtain rfl : view = rootDeployed := by simpa using hview
  exact ⟨by simp [ChainView.isSafe, rootDeployed, subscription], by decide, le_rfl⟩

/-- Five addresses without an account are subscribed before the root guard. -/
def subscribed (indexedHeight : Option ℕ) : Database where
  contracts := [subscription 1 child, subscription 2 ownerA, subscription 3 ownerB,
    subscription 4 ownerC, subscription 5 ⟨1, false⟩, subscription 6 root]
  indexedHeight
  nextContractId := 7

/-- Every scan is waiting for its first step. -/
def waiting : InsertionMap ℕ FirstScan :=
  [(1, ⟨2, 2⟩), (2, ⟨2, 2⟩), (3, ⟨2, 2⟩), (4, ⟨2, 2⟩), (5, ⟨2, 2⟩), (6, ⟨2, 2⟩)]

def starved : IndexerState := ⟨subscribed (some 10), waiting⟩

/-- The five steps go to the five missing accounts, in the first tick and in
every later one. -/
theorem tick_starved {indexedHeight : Option ℕ} {m : InsertionMap ℕ FirstScan}
    (hheight : indexedHeight = none ∨ indexedHeight = some 10) (hm : m = [] ∨ m = waiting) :
    FaultFreeTick backend subscriptions rootDeployed ⟨subscribed indexedHeight, m⟩ starved := by
  have hscans : ((subscribed indexedHeight).contracts.foldlM
      (rescanContract backend subscriptions rootDeployed.requests 0 10)
      firstScanStepsPerTick).Alone ⟨subscribed indexedHeight, m⟩
      ([none, none] ++ ([none, none] ++ ([none, none] ++ ([none, none] ++ ([none, none] ++
        ([none] ++ [])))))) ⟨subscribed indexedHeight, waiting⟩ (.ok 0) := by
    rcases hm with rfl | rfl
    all_goals
      refine .bind (.memory (alone_missing_subscription child rfl (by decide +kernel))) ?_
      refine .bind (.memory (alone_missing_subscription ownerA rfl (by decide +kernel))) ?_
      refine .bind (.memory (alone_missing_subscription ownerB rfl (by decide +kernel))) ?_
      refine .bind (.memory (alone_missing_subscription ownerC rfl (by decide +kernel))) ?_
      refine .bind (.memory (alone_missing_subscription ⟨1, false⟩ rfl (by decide +kernel))) ?_
      exact .bind (.memory .done) .done
  have hkept : (m.filter fun x ↦ x.1 ∈ [1, 2, 3, 4, 5, 6]) = m := by
    rcases hm with rfl | rfl <;> rfl
  rw [← hkept] at hscans
  obtain ⟨ls, hrescan⟩ : ∃ ls, (rescanUnreadyContracts backend subscriptions
      rootDeployed.requests 0 10).Alone ⟨subscribed indexedHeight, m⟩ ls
      ⟨subscribed indexedHeight, waiting⟩ (.ok ()) :=
    ⟨_, .commit rfl (.memory (hscans.bind (f := fun _ ↦ pure ()) .done))⟩
  have htip : ¬(10 < cursor subscriptions (subscribed indexedHeight) ∨
      10 < max 0 (cursor subscriptions (subscribed indexedHeight) + 1 - reorgDetectionWindow)) := by
    rcases hheight with rfl | rfl <;> decide
  have hfrom : max 0 (cursor subscriptions (subscribed indexedHeight) + 1 -
      reorgDetectionWindow) = 0 := by
    rcases hheight with rfl | rfl <;> decide
  rw [hfrom] at htip
  exact @lite_tick _ backend subscriptions rootDeployed ⟨subscribed indexedHeight, m⟩
    ⟨subscribed indexedHeight, waiting⟩ 0 ls rfl hfrom htip hrescan rfl

theorem five_missing_accounts_starve :
    (subscribed none).Keyed ∧
      FaultFreeTick backend subscriptions rootDeployed ⟨subscribed none, []⟩ starved ∧
      ¬EveryScanAdvances subscriptions rootDeployed ⟨subscribed none, []⟩ starved ∧
      ∀ n, (tickSystem backend subscriptions).Path starved (List.replicate n rootDeployed)
        starved := by
  have hroot : subscription 6 root ∈ (subscribed none).contracts := by
    simp [subscribed]
  refine ⟨⟨?_, ?_, ?_⟩, tick_starved (Or.inl rfl) (Or.inl rfl), fun hfair ↦ ?_, fun n ↦ ?_⟩
  · decide
  · simp [subscribed, subscription]
  · simp [subscribed, subscription]
  · have := hfair _ hroot rfl rfl
      (by simp [subscription, rootDeployed]) (by simp [subscription, rootDeployed]) (by decide)
    revert this
    decide +kernel
  · induction n with
    | zero => rfl
    | succ n ih => exact ⟨starved, ⟨tick_starved (Or.inr rfl) (Or.inr rfl), rfl⟩, ih⟩

end Walkthrough

end MinaGuard
