import MinaGuard.Clients.JsValue
import MinaGuard.Foundations.Tiles
import MinaGuard.Indexer.Sync

/-!
# Ranges of blocks

`fetchArchiveEventBlocks` asks for an inclusive range in half-open pieces, and
a first scan goes to the tip in steps of its own.  The pieces and the steps
tile what they are taken from.
-/

namespace MinaGuard

open Foundations

theorem heightsLeft_lt {toHeight start : ℕ} (h : start ≤ toHeight) :
    toHeight + 1 - (start + eventQueryBlockSpan) < toHeight + 1 - start :=
  Nat.sub_lt_sub_left (Nat.lt_succ_of_le h) (Nat.lt_add_of_pos_right (Nat.succ_pos _))

/-- The end of the request that starts at `start`. -/
def rangeEnd (toHeight start : ℕ) : ℕ := min (start + eventQueryBlockSpan) (toHeight + 1)

/-- `event?.blockInfo?.height` is no safe integer in the range. -/
def outsideRange (range : ℕ × ℕ) (event : JsValue) : Bool :=
  let height := (event.get "blockInfo").get "height"
  match height.isNumber? with
  | none => true
  | some q => !height.isSafeInteger || q < range.1 || range.2 ≤ q

/-- The events of an answer, unless one is outside the range. -/
def answeredEvents (range : ℕ × ℕ) (data : JsValue) : Except Thrown (List JsValue) :=
  match (data.get "events").isArray? with
  | none => .error (newError "archive response has no events list")
  | some events =>
      if events.any (outsideRange range) then
        .error (newError "archive response contains an event outside the requested block range")
      else .ok events

/-- The ranges that the loop goes through from `start` on. -/
def blockRanges (toHeight start : ℕ) : List (ℕ × ℕ) :=
  if start ≤ toHeight then
    (start, rangeEnd toHeight start) :: blockRanges toHeight (start + eventQueryBlockSpan)
  else []
termination_by toHeight + 1 - start
decreasing_by exact heightsLeft_lt ‹_›

section Requests

variable (archive : ℕ × ℕ → Except Thrown JsValue)

/-- The loop over the ranges, with the blocks so far: what it asks for, and its result. -/
def fetchRanges : List (ℕ × ℕ) → List JsValue → List (ℕ × ℕ) × Except Thrown (List JsValue)
  | [], blocks => ([], .ok blocks)
  | range :: ranges, blocks =>
      match (archive range).bind (answeredEvents range) with
      | .error error => ([range], .error error)
      | .ok events =>
          let rest := fetchRanges ranges (blocks ++ events)
          (range :: rest.1, rest.2)

/-- `fetchArchiveEventBlocks`, with the requests it makes and any answers to them. -/
def fetchEventBlocks (fromHeight toHeight : ℕ) :
    List (ℕ × ℕ) × Except Thrown (List JsValue) :=
  if toHeight < fromHeight ∨ 2147483647 ≤ toHeight then
    ([], .error (newError "Invalid archive event block range"))
  else
    let fetched := fetchRanges archive (blockRanges toHeight fromHeight) []
    (fetched.1, fetched.2.mapError rewordAuthorization)

end Requests

/-- The last block of the step that starts at `next`. -/
def stepEnd (tip next : ℕ) : ℕ := min (next + eventQueryBlockSpan - 1) tip

/-- The steps of a first scan from `next`, each with the tip at its time, until one reaches it. -/
def scanSteps : List ℕ → ℕ → List (ℕ × ℕ)
  | [], _ => []
  | tip :: tips, next =>
      (next, stepEnd tip next) ::
        if stepEnd tip next = tip then [] else scanSteps tips (stepEnd tip next + 1)

variable {toHeight start : ℕ}

theorem blockRanges_of_le (h : start ≤ toHeight) :
    blockRanges toHeight start =
      (start, rangeEnd toHeight start) :: blockRanges toHeight (start + eventQueryBlockSpan) := by
  rw [blockRanges, if_pos h]

theorem blockRanges_of_lt (h : toHeight < start) : blockRanges toHeight start = [] := by
  rw [blockRanges, if_neg (not_le.mpr h)]

theorem lt_rangeEnd (h : start ≤ toHeight) : start < rangeEnd toHeight start := by
  unfold rangeEnd eventQueryBlockSpan
  omega

theorem rangeEnd_le : rangeEnd toHeight start ≤ start + eventQueryBlockSpan := min_le_left _ _

/-- What is left after a request is what the next one starts with. -/
theorem rangeEnd_cases (toHeight start : ℕ) :
    rangeEnd toHeight start = start + eventQueryBlockSpan ∧
        start + eventQueryBlockSpan ≤ toHeight ∨
      rangeEnd toHeight start = toHeight + 1 ∧ toHeight < start + eventQueryBlockSpan := by
  unfold rangeEnd
  omega

theorem blockRanges_tiles (h : start ≤ toHeight) :
    Tiles start (toHeight + 1) (blockRanges toHeight start) := by
  induction hn : toHeight + 1 - start using Nat.strong_induction_on generalizing start with
  | _ n ih =>
      subst hn
      rw [blockRanges_of_le h]
      rcases rangeEnd_cases toHeight start with ⟨hend, hle⟩ | ⟨hend, hlt⟩
      · refine .cons (lt_rangeEnd h) ?_
        rw [hend]
        exact ih _ (heightsLeft_lt h) hle rfl
      · rw [blockRanges_of_lt hlt, hend]
        exact .cons (Nat.lt_succ_of_le h) (.nil _)

theorem sub_le_of_mem_blockRanges {range : ℕ × ℕ} (h : range ∈ blockRanges toHeight start) :
    range.2 - range.1 ≤ eventQueryBlockSpan := by
  induction hn : toHeight + 1 - start using Nat.strong_induction_on generalizing start with
  | _ n ih =>
      subst hn
      by_cases hle : start ≤ toHeight
      · rw [blockRanges_of_le hle] at h
        rcases List.mem_cons.mp h with rfl | h
        · exact Nat.sub_le_iff_le_add'.mpr rangeEnd_le
        · exact ih _ (heightsLeft_lt hle) h rfl
      · rw [blockRanges_of_lt (not_le.mp hle)] at h
        cases h

/-- The requests of the indexer program. -/
theorem queryWindows_eq (h : start ≤ toHeight) :
    queryWindows start toHeight = blockRanges toHeight start := by
  induction hn : toHeight + 1 - start using Nat.strong_induction_on generalizing start with
  | _ n ih =>
      subst hn
      rw [blockRanges_of_le h]
      unfold queryWindows
      rw [List.range_succ_eq_map, List.map_cons, Nat.zero_mul, Nat.add_zero]
      refine congrArg _ ?_
      by_cases hle : start + eventQueryBlockSpan ≤ toHeight
      · have hdiv : (toHeight - start) / eventQueryBlockSpan =
            (toHeight - (start + eventQueryBlockSpan)) / eventQueryBlockSpan + 1 := by
          unfold eventQueryBlockSpan at *
          omega
        have hrest := ih _ (heightsLeft_lt h) hle rfl
        rw [← hrest, hdiv, List.map_map]
        unfold queryWindows
        refine List.map_congr_left fun i _ ↦ ?_
        have hstart : start + (i + 1) * eventQueryBlockSpan =
            start + eventQueryBlockSpan + i * eventQueryBlockSpan := by
          rw [Nat.add_mul, Nat.one_mul, Nat.add_assoc,
            Nat.add_comm eventQueryBlockSpan]
        simp only [Function.comp_apply, Nat.succ_eq_add_one, hstart]
      · have hzero : (toHeight - start) / eventQueryBlockSpan = 0 := by
          unfold eventQueryBlockSpan at *
          omega
        rw [hzero, blockRanges_of_lt (not_le.mp hle)]
        rfl

variable {archive : ℕ × ℕ → Except Thrown JsValue}

/-- A good answer to a request, and its events. -/
def Delivers (archive : ℕ × ℕ → Except Thrown JsValue) (range : ℕ × ℕ) (events : List JsValue) :
    Prop :=
  ∃ data, archive range = .ok data ∧ (data.get "events").isArray? = some events ∧
    ∀ e ∈ events, outsideRange range e = false

/-- An answer with an event outside its range is refused. -/
theorem answeredEvents_ok {range : ℕ × ℕ} {data : JsValue} {events : List JsValue} :
    answeredEvents range data = .ok events ↔
      (data.get "events").isArray? = some events ∧ ∀ e ∈ events, outsideRange range e = false := by
  unfold answeredEvents
  cases (data.get "events").isArray? with
  | none => simp
  | some found =>
      by_cases hany : found.any (outsideRange range) = true
      · simp only [hany, if_true]
        refine ⟨nofun, fun ⟨hsame, hall⟩ ↦ ?_⟩
        obtain ⟨e, he, hout⟩ := List.any_eq_true.mp hany
        rw [Option.some.inj hsame] at he
        rw [hall e he] at hout
        cases hout
      · have hnone : ∀ e ∈ found, outsideRange range e = false := by simpa using hany
        simp only [hany, Bool.false_eq_true, if_false, Except.ok.injEq, Option.some.injEq]
        exact ⟨fun hsame ↦ ⟨hsame, hsame ▸ hnone⟩, fun h ↦ h.1⟩

theorem delivers_iff {range : ℕ × ℕ} {events : List JsValue} :
    Delivers archive range events ↔ (archive range).bind (answeredEvents range) = .ok events := by
  unfold Delivers
  cases archive range with
  | error error => exact ⟨nofun, nofun⟩
  | ok data =>
      simp only [Except.ok.injEq, exists_eq_left']
      exact answeredEvents_ok.symm

section Loop

variable {range : ℕ × ℕ} {ranges front back : List (ℕ × ℕ)}

theorem exists_error (h : ¬∃ events, Delivers archive range events) :
    ∃ error, (archive range).bind (answeredEvents range) = .error error := by
  cases hanswer : (archive range).bind (answeredEvents range) with
  | error error => exact ⟨error, rfl⟩
  | ok events => exact absurd ⟨events, delivers_iff.mpr hanswer⟩ h

/-- With good answers all requests go out, and the result has all of the events. -/
theorem fetchRanges_of_delivers {answers : ℕ × ℕ → List JsValue}
    (h : ∀ range ∈ ranges, Delivers archive range (answers range)) (blocks : List JsValue) :
    fetchRanges archive ranges blocks = (ranges, .ok (blocks ++ ranges.flatMap answers)) := by
  induction ranges generalizing blocks with
  | nil =>
      rw [List.flatMap_nil, List.append_nil]
      rfl
  | cons range ranges ih =>
      have hrange := delivers_iff.mp (h range List.mem_cons_self)
      have hrest := ih (fun other hother ↦ h other (List.mem_cons_of_mem _ hother))
        (blocks ++ answers range)
      unfold fetchRanges
      rw [hrange]
      dsimp only
      rw [hrest, List.flatMap_cons, List.append_assoc]

/-- The first request without a good answer is the last one. -/
theorem fetchRanges_of_fails (hfront : ∀ r ∈ front, ∃ events, Delivers archive r events)
    {error : Thrown} (hfails : (archive range).bind (answeredEvents range) = .error error)
    (blocks : List JsValue) :
    fetchRanges archive (front ++ range :: back) blocks = (front ++ [range], .error error) := by
  induction front generalizing blocks with
  | nil =>
      rw [List.nil_append, List.nil_append]
      unfold fetchRanges
      rw [hfails]
  | cons r front ih =>
      obtain ⟨events, hevents⟩ := hfront r List.mem_cons_self
      have hrest := ih (fun r hr ↦ hfront r (List.mem_cons_of_mem _ hr)) (blocks ++ events)
      rw [List.cons_append, List.cons_append]
      unfold fetchRanges
      rw [delivers_iff.mp hevents]
      dsimp only
      rw [hrest]

theorem fetchRanges_of_mem (hrange : range ∈ ranges) (h : ¬∃ events, Delivers archive range events)
    (blocks : List JsValue) :
    ∃ error, (fetchRanges archive ranges blocks).2 = .error error := by
  obtain ⟨error, hfails⟩ := exists_error h
  induction ranges generalizing blocks with
  | nil => cases hrange
  | cons r ranges ih =>
      unfold fetchRanges
      cases hanswer : (archive r).bind (answeredEvents r) with
      | error error => exact ⟨error, rfl⟩
      | ok events =>
          rcases List.mem_cons.mp hrange with rfl | hrange
          · rw [hfails] at hanswer
            cases hanswer
          · exact ih hrange (blocks ++ events)

end Loop

/-- A step reaches the tip, or a whole span further. -/
theorem stepEnd_cases (tip next : ℕ) :
    stepEnd tip next = tip ∧ tip < next + eventQueryBlockSpan ∨
      stepEnd tip next + 1 = next + eventQueryBlockSpan ∧ stepEnd tip next < tip := by
  unfold stepEnd eventQueryBlockSpan
  omega

/-- One step is one request. -/
theorem blockRanges_step {tip next : ℕ} (h : next ≤ tip) :
    blockRanges (stepEnd tip next) next = [(next, stepEnd tip next + 1)] := by
  have hle : next ≤ stepEnd tip next := by
    unfold stepEnd eventQueryBlockSpan
    omega
  have hlt : stepEnd tip next < next + eventQueryBlockSpan := by
    unfold stepEnd eventQueryBlockSpan
    omega
  have hend : rangeEnd (stepEnd tip next) next = stepEnd tip next + 1 := by
    unfold rangeEnd
    omega
  rw [blockRanges_of_le hle, blockRanges_of_lt hlt, hend]

/-- The half-open ranges of some steps. -/
def stepRanges (steps : List (ℕ × ℕ)) : List (ℕ × ℕ) := steps.map fun step ↦ (step.1, step.2 + 1)

/-- The steps tile from their start to the tip that one reaches, or else a span for each. -/
theorem scanSteps_tiles {tips : List ℕ} {next : ℕ} (hmono : tips.Pairwise (· ≤ ·))
    (hstart : ∀ tip ∈ tips, next ≤ tip) :
    (∃ tip ∈ tips, Tiles next (tip + 1) (stepRanges (scanSteps tips next))) ∨
      Tiles next (next + tips.length * eventQueryBlockSpan) (stepRanges (scanSteps tips next)) ∧
        ∀ tip ∈ tips.getLast?, next + tips.length * eventQueryBlockSpan ≤ tip := by
  induction tips generalizing next with
  | nil =>
      refine .inr ⟨?_, nofun⟩
      rw [List.length_nil, Nat.zero_mul, Nat.add_zero]
      exact .nil next
  | cons tip tips ih =>
      obtain ⟨hhead, htail⟩ := List.pairwise_cons.mp hmono
      have hle : next ≤ tip := hstart tip List.mem_cons_self
      have hstep : next < stepEnd tip next + 1 := by
        unfold stepEnd eventQueryBlockSpan
        omega
      rw [scanSteps]
      rcases stepEnd_cases tip next with ⟨hend, -⟩ | ⟨hend, hlt⟩
      · rw [if_pos hend, hend]
        rw [hend] at hstep
        exact .inl ⟨tip, List.mem_cons_self, .cons hstep (.nil _)⟩
      · have hbelow : ∀ later ∈ tips, stepEnd tip next + 1 ≤ later :=
          fun later hlater ↦ Nat.succ_le_of_lt (hlt.trans_le (hhead later hlater))
        have hlength : stepEnd tip next + 1 + tips.length * eventQueryBlockSpan =
            next + (tip :: tips).length * eventQueryBlockSpan := by
          rw [hend, List.length_cons, Nat.add_mul, Nat.one_mul, Nat.add_assoc,
            Nat.add_comm eventQueryBlockSpan]
        rw [if_neg hlt.ne]
        rcases ih htail hbelow with ⟨later, hlater, htiles⟩ | ⟨htiles, hlast⟩
        · exact .inl ⟨later, List.mem_cons_of_mem _ hlater, .cons hstep htiles⟩
        · rw [hlength] at htiles hlast
          refine .inr ⟨.cons hstep htiles, ?_⟩
          cases tips with
          | nil =>
              rintro _ ⟨⟩
              rw [← hlength, List.length_nil, Nat.zero_mul]
              exact hlt
          | cons later tips =>
              rw [List.getLast?_cons_cons]
              exact hlast

/-- Every step of a scan is one request. -/
theorem blockRanges_of_mem_scanSteps {tips : List ℕ} {next : ℕ} (hmono : tips.Pairwise (· ≤ ·))
    (hstart : ∀ tip ∈ tips, next ≤ tip) {step : ℕ × ℕ} (h : step ∈ scanSteps tips next) :
    blockRanges step.2 step.1 = [(step.1, step.2 + 1)] := by
  induction tips generalizing next with
  | nil => cases h
  | cons tip tips ih =>
      obtain ⟨hhead, htail⟩ := List.pairwise_cons.mp hmono
      rw [scanSteps] at h
      rcases List.mem_cons.mp h with rfl | h
      · exact blockRanges_step (hstart tip List.mem_cons_self)
      · split at h
        · cases h
        · refine ih htail (fun later hlater ↦ ?_) h
          rcases stepEnd_cases tip next with ⟨hend, -⟩ | ⟨-, hlt⟩
          · contradiction
          · exact Nat.succ_le_of_lt (hlt.trans_le (hhead later hlater))

/-- With the tip at rest, a scan ends at the tip. -/
theorem scanSteps_replicate {tip start n : ℕ} (h : start ≤ tip)
    (hn : (tip - start) / eventQueryBlockSpan < n) :
    Tiles start (tip + 1) (stepRanges (scanSteps (List.replicate n tip) start)) := by
  have hsame : ∀ later ∈ List.replicate n tip, later = tip := fun _ ↦ List.eq_of_mem_replicate
  have hmono : (List.replicate n tip).Pairwise (· ≤ ·) :=
    List.pairwise_replicate.mpr (.inr le_rfl)
  have hstart : ∀ later ∈ List.replicate n tip, start ≤ later :=
    fun later hlater ↦ hsame later hlater ▸ h
  rcases scanSteps_tiles hmono hstart with ⟨later, hlater, htiles⟩ | ⟨-, hlast⟩
  · rwa [hsame later hlater] at htiles
  · have hle := hlast tip (by
      rw [List.getLast?_replicate, if_neg (Nat.ne_zero_of_lt hn)]
      rfl)
    rw [List.length_replicate] at hle
    rw [Nat.div_lt_iff_lt_mul (by decide)] at hn
    omega

end MinaGuard
