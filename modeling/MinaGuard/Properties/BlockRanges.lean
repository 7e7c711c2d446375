import MinaGuard.Indexer.BlockRanges

/-!
# No block is asked for twice or left out

The requests for an inclusive range of blocks, and the steps of a first scan,
have every block of the range in exactly one of them.
-/

namespace MinaGuard

open Foundations

theorem countP_stepRanges (steps : List (ℕ × ℕ)) (height : ℕ) :
    (stepRanges steps).countP (fun range ↦ range.1 ≤ height ∧ height < range.2) =
      steps.countP fun step ↦ step.1 ≤ height ∧ height ≤ step.2 := by
  unfold stepRanges
  rw [List.countP_map]
  refine List.countP_congr fun step _ ↦ ?_
  simp

theorem isChain_of_stepRanges {steps : List (ℕ × ℕ)}
    (h : (stepRanges steps).IsChain fun a b ↦ a.2 = b.1) :
    steps.IsChain fun a b ↦ a.2 + 1 = b.1 :=
  List.isChain_map _ |>.mp h

theorem fetchEventBlocks_eq {fromHeight toHeight : ℕ} (hle : fromHeight ≤ toHeight)
    (hlt : toHeight < 2147483647) (archive : ℕ × ℕ → Except Thrown JsValue) :
    fetchEventBlocks archive fromHeight toHeight =
      ((fetchRanges archive (blockRanges toHeight fromHeight) []).1,
        (fetchRanges archive (blockRanges toHeight fromHeight) []).2.mapError
          rewordAuthorization) := by
  unfold fetchEventBlocks
  rw [if_neg (not_or.mpr ⟨not_lt.mpr hle, not_le.mpr hlt⟩)]

/-- An answer with a block outside the request delivers nothing. -/
theorem not_delivers_of_outsideRange {archive : ℕ × ℕ → Except Thrown JsValue} {range : ℕ × ℕ}
    {data e : JsValue} {events : List JsValue} (hdata : archive range = .ok data)
    (hevents : (data.get "events").isArray? = some events) (he : e ∈ events)
    (hout : outsideRange range e = true) : ¬∃ events, Delivers archive range events := by
  rintro ⟨events', data', hdata', hevents', hinside⟩
  obtain rfl := Except.ok.inj (hdata.symm.trans hdata')
  obtain rfl := Option.some.inj (hevents.symm.trans hevents')
  rw [hinside e he] at hout
  cases hout

/-- Where the steps of a scan end. -/
theorem exists_scanSteps_end {start : ℕ} {tips : List ℕ} (hmono : tips.Pairwise (· ≤ ·))
    (hstart : ∀ tip ∈ tips, start ≤ tip) :
    ∃ next, Tiles start next (stepRanges (scanSteps tips start)) ∧
      ((∃ tip ∈ tips, next = tip + 1) ∨ next = start + tips.length * eventQueryBlockSpan) := by
  rcases scanSteps_tiles hmono hstart with ⟨tip, htip, htiles⟩ | ⟨htiles, -⟩
  · exact ⟨_, htiles, .inl ⟨tip, htip, rfl⟩⟩
  · exact ⟨_, htiles, .inr rfl⟩

/-- Requests are half-open, not empty, at most a span long and consecutive; each block of
the range is asked for once.  With good answers all of them go out and the result has all
events in order; otherwise the first request without a good answer is the last one and
fails the fetch, as a block outside its request does.  The steps of a first scan are one
request each and partition the blocks up to the tip that one reaches. -/
theorem block_ranges_partition {fromHeight toHeight : ℕ} (hle : fromHeight ≤ toHeight)
    (hlt : toHeight < 2147483647) (archive : ℕ × ℕ → Except Thrown JsValue) {start : ℕ}
    {tips : List ℕ} (hmono : tips.Pairwise (· ≤ ·)) (hstart : ∀ tip ∈ tips, start ≤ tip) :
    ((∀ range ∈ blockRanges toHeight fromHeight,
        range.1 < range.2 ∧ range.2 - range.1 ≤ eventQueryBlockSpan) ∧
      (blockRanges toHeight fromHeight).IsChain (fun a b ↦ a.2 = b.1) ∧
      (blockRanges toHeight fromHeight).Pairwise
        (fun a b ↦ Disjoint (Set.Ico a.1 a.2) (Set.Ico b.1 b.2)) ∧
      (∀ height, (blockRanges toHeight fromHeight).countP
        (fun range ↦ range.1 ≤ height ∧ height < range.2) =
          if fromHeight ≤ height ∧ height ≤ toHeight then 1 else 0) ∧
      (blockRanges toHeight fromHeight).length =
        (toHeight - fromHeight) / eventQueryBlockSpan + 1 ∧
      queryWindows fromHeight toHeight = blockRanges toHeight fromHeight) ∧
    ((∀ answers, (∀ range ∈ blockRanges toHeight fromHeight,
          Delivers archive range (answers range)) →
        fetchEventBlocks archive fromHeight toHeight =
          (blockRanges toHeight fromHeight,
            .ok ((blockRanges toHeight fromHeight).flatMap answers))) ∧
      (∀ front range back, blockRanges toHeight fromHeight = front ++ range :: back →
        (∀ r ∈ front, ∃ events, Delivers archive r events) →
        (¬∃ events, Delivers archive range events) →
          (fetchEventBlocks archive fromHeight toHeight).1 = front ++ [range] ∧
          ∃ error, (fetchEventBlocks archive fromHeight toHeight).2 = .error error) ∧
      ∀ range ∈ blockRanges toHeight fromHeight, ∀ data events e, archive range = .ok data →
        (data.get "events").isArray? = some events → e ∈ events → outsideRange range e = true →
          ∃ error, (fetchEventBlocks archive fromHeight toHeight).2 = .error error) ∧
    (∀ step ∈ scanSteps tips start,
      step.1 ≤ step.2 ∧ blockRanges step.2 step.1 = [(step.1, step.2 + 1)]) ∧
    (scanSteps tips start).IsChain (fun a b ↦ a.2 + 1 = b.1) ∧
    (∃ next, (∀ height, (scanSteps tips start).countP
        (fun step ↦ step.1 ≤ height ∧ height ≤ step.2) =
          if start ≤ height ∧ height < next then 1 else 0) ∧
      ((∃ tip ∈ tips, next = tip + 1) ∨ next = start + tips.length * eventQueryBlockSpan)) ∧
    ∀ tip n, tips = List.replicate n tip → (tip - start) / eventQueryBlockSpan < n →
      ∀ height, (scanSteps tips start).countP (fun step ↦ step.1 ≤ height ∧ height ≤ step.2) =
        if start ≤ height ∧ height ≤ tip then 1 else 0 := by
  have htiles := blockRanges_tiles hle
  have hfetch := fetchEventBlocks_eq hle hlt archive
  obtain ⟨next, hsteps, hnext⟩ := exists_scanSteps_end hmono hstart
  refine ⟨⟨?_, htiles.isChain, htiles.pairwise_disjoint, ?_, ?_, queryWindows_eq hle⟩,
    ⟨?_, ?_, ?_⟩, ?_, ?_, ?_, ?_⟩
  · exact fun range hrange ↦ ⟨(htiles.bounds hrange).2.1, sub_le_of_mem_blockRanges hrange⟩
  · intro height
    rw [htiles.countP_mem]
    simp only [Nat.lt_succ_iff]
  · rw [← queryWindows_eq hle]
    unfold queryWindows
    rw [List.length_map, List.length_range]
  · intro answers hanswers
    rw [hfetch, fetchRanges_of_delivers hanswers, List.nil_append]
    rfl
  · intro front range back hsplit hfront hrange
    obtain ⟨error, hfails⟩ := exists_error hrange
    rw [hfetch, hsplit, fetchRanges_of_fails hfront hfails]
    exact ⟨rfl, _, rfl⟩
  · intro range hrange data events e hdata hevents he hout
    obtain ⟨error, herror⟩ :=
      fetchRanges_of_mem hrange (not_delivers_of_outsideRange hdata hevents he hout) []
    rw [hfetch, herror]
    exact ⟨_, rfl⟩
  · intro step hstep
    have hrange : (step.1, step.2 + 1) ∈ stepRanges (scanSteps tips start) :=
      List.mem_map_of_mem hstep
    exact ⟨Nat.lt_succ_iff.mp (hsteps.bounds hrange).2.1,
      blockRanges_of_mem_scanSteps hmono hstart hstep⟩
  · exact isChain_of_stepRanges hsteps.isChain
  · refine ⟨next, fun height ↦ ?_, hnext⟩
    rw [← countP_stepRanges, hsteps.countP_mem]
  · rintro tip n rfl hn height
    have hn' : n ≠ 0 := Nat.ne_zero_of_lt hn
    have htip : start ≤ tip := hstart tip (List.mem_replicate.mpr ⟨hn', rfl⟩)
    rw [← countP_stepRanges, (scanSteps_replicate htip hn).countP_mem]
    simp only [Nat.lt_succ_iff]

namespace Walkthrough

/-- An archive with an event in the last block of each request, and one block too far in
the request from block 5000 on. -/
def archive (range : ℕ × ℕ) : Except Thrown JsValue :=
  let height : ℕ := if range.1 = 5000 then range.2 else range.2 - 1
  .ok (.object [("events", .array [.object [("blockInfo",
    .object [("height", .number height)])]])])

/-- Of three requests the second is answered wrongly and is the last one, and a scan goes
in three steps. -/
theorem blocks_asked_once :
    (blockRanges 12000 0).length = 3 ∧
      (blockRanges 12000 0).countP (fun range ↦ range.1 ≤ 5000 ∧ 5000 < range.2) = 1 ∧
      (fetchEventBlocks archive 0 12000).1 = [(0, 5000), (5000, 10000)] ∧
      (scanSteps [12000, 12000, 12000] 7).countP
        (fun step ↦ step.1 ≤ 12000 ∧ 12000 ≤ step.2) = 1 := by
  have hmono : [12000, 12000, 12000].Pairwise (· ≤ ·) := by decide
  have hstart : ∀ tip ∈ [12000, 12000, 12000], 7 ≤ tip := by decide
  obtain ⟨⟨-, -, -, hcount, hlength, -⟩, ⟨-, hstops, -⟩, -, -, -, hscan⟩ :=
    block_ranges_partition (Nat.zero_le 12000) (by decide) archive hmono hstart
  have hranges : blockRanges 12000 0 = [(0, 5000)] ++ (5000, 10000) :: [(10000, 12001)] := by
    rw [blockRanges_of_le (by decide), blockRanges_of_le (by decide),
      blockRanges_of_le (by decide), blockRanges_of_lt (by decide)]
    rfl
  refine ⟨hlength, hcount 5000, ?_, hscan 12000 3 rfl (by decide) 12000⟩
  refine (hstops [(0, 5000)] (5000, 10000) _ hranges ?_ ?_).1
  · rintro range hrange
    obtain rfl := List.mem_singleton.mp hrange
    refine ⟨_, _, rfl, rfl, fun e he ↦ ?_⟩
    obtain rfl := List.mem_singleton.mp he
    decide +kernel
  · rintro ⟨events, data, hdata, hevents, hinside⟩
    obtain rfl := Except.ok.inj hdata
    obtain rfl := Option.some.inj hevents
    exact absurd (hinside _ List.mem_cons_self) (by decide +kernel)

end Walkthrough

end MinaGuard
