import Mathlib.Algebra.Order.BigOperators.Group.List
import Mathlib.Tactic.Linarith
import MinaGuard.Foundations.Splitting
import MinaGuard.Foundations.Tasks
import MinaGuard.Indexer.SubmissionLimiter

/-!
# Slots of the submission-check limiter

The counts of the limiter all say how many checks are in progress.  A check is in
progress until its clean-up, which frees its slots.
-/

namespace MinaGuard

open Foundations

/-- Reports with actions such as the route takes are told apart by their keys. -/
theorem Report.key_injective {r r' : Report} (hr : ':' ∉ r.action.toList)
    (hr' : ':' ∉ r'.action.toList) (h : r.key = r'.key) : r = r' := by
  obtain ⟨id, action, hash⟩ := r
  obtain ⟨id', action', hash'⟩ := r'
  have hcolon : ":".toList = [':'] := rfl
  have hlist := congrArg String.toList h
  unfold key at hlist
  simp only [String.toList_append, hcolon, List.append_assoc, List.cons_append] at hlist
  have hid (k : ℕ) : ':' ∉ (decimal k).toList := fun hmem ↦
    absurd (isDigit_of_mem_decimal hmem) (by decide)
  obtain ⟨hids, hrest⟩ := append_cons_inj (hid id) (hid id') hlist
  obtain ⟨haction, hhash⟩ := append_cons_inj hr hr' hrest
  obtain rfl := decimal_injective (String.toList_injective hids)
  obtain rfl := String.toList_injective haction
  obtain rfl := String.toList_injective hhash
  rfl

def SubmissionCheck.countsFor (proposalId : ℕ) (check : SubmissionCheck) : Bool :=
  check.phase.inProgress && check.report.proposalId == proposalId

namespace SubmissionCheckLimiter

variable {limits : CheckLimits} {s t : SubmissionCheckLimiter} {n m : ℕ} {key : String}

/-- Check `n` is in progress, for a report with this key. -/
def InProgress (s : SubmissionCheckLimiter) (n : ℕ) (key : String) : Prop :=
  ∃ check, s.checks[n]? = some check ∧ check.phase.inProgress = true ∧ check.report.key = key

/-- One call made the check.  Since then it answers the calls for its report, and
no others. -/
def SharedBy (s : SubmissionCheckLimiter) (n : ℕ) (key : String) : Prop :=
  ∃ earlier first later, s.calls = earlier ++ first :: later ∧
    (∀ call ∈ earlier, call.answer ≠ some n) ∧
    first.answer = some n ∧ first.report.key = key ∧
    ∀ call ∈ later, call.answer = some n ↔ call.report.key = key

def Idle (s : SubmissionCheckLimiter) : Prop :=
  s.total = 0 ∧ s.running = [] ∧ s.perProposal = []

structure Invariant (limits : CheckLimits) (s : SubmissionCheckLimiter) : Prop where
  nodup : s.running.keys.Nodup
  nodupProposals : s.perProposal.keys.Nodup
  running_iff {key : String} {n : ℕ} : s.running.get? key = some n ↔ s.InProgress n key
  total_eq : s.total = s.running.length
  total_le : s.total ≤ limits.total
  sum_eq : s.perProposal.values.sum = s.total
  counter_eq (p : ℕ) : s.forProposal p = s.checks.countP (SubmissionCheck.countsFor p)
  counter_le (p : ℕ) : s.forProposal p ≤ limits.perProposal
  counter_pos (p : ℕ) (count : ℤ) : s.perProposal.get? p = some count → 0 < count
  answered : ∀ call ∈ s.calls, ∀ n ∈ call.answer, n < s.checks.length
  shared {n : ℕ} {key : String} : s.InProgress n key → s.SharedBy n key

theorem InProgress.lt (h : s.InProgress n key) : n < s.checks.length := by
  obtain ⟨check, hcheck, -⟩ := h
  exact (List.getElem?_eq_some_iff.mp hcheck).1

theorem InProgress.key_unique {key' : String} (h : s.InProgress n key)
    (h' : s.InProgress n key') : key' = key := by
  obtain ⟨check, hcheck, -, rfl⟩ := h
  obtain ⟨check', hcheck', -, rfl⟩ := h'
  rw [Option.some.inj (hcheck'.symm.trans hcheck)]

theorem SharedBy.concat (h : s.SharedBy n key) {call : RunCall}
    (hcalls : t.calls = s.calls ++ [call])
    (hcall : call.answer = some n ↔ call.report.key = key) : t.SharedBy n key := by
  obtain ⟨earlier, first, later, hs, hearlier, hanswer, hkey, hlater⟩ := h
  refine ⟨earlier, first, later ++ [call], ?_, hearlier, hanswer, hkey, ?_⟩
  · rw [hcalls, hs, List.append_assoc, List.cons_append]
  · intro c hc
    rcases List.mem_append.mp hc with hc | hc
    · exact hlater c hc
    · obtain rfl := List.mem_singleton.mp hc
      exact hcall

/-- A call finds its check, is refused, or is admitted. -/
theorem run_cases (limits : CheckLimits) (s : SubmissionCheckLimiter) (report : Report) :
    (∃ same, s.running.get? report.key = some same ∧ s.run limits report = (some same, s)) ∨
    (s.running.get? report.key = none ∧
      (s.total ≥ limits.total ∨ s.forProposal report.proposalId ≥ limits.perProposal) ∧
      s.run limits report = (none, s)) ∨
    (s.running.get? report.key = none ∧ s.total < limits.total ∧
      s.forProposal report.proposalId < limits.perProposal ∧
      s.run limits report = (some s.checks.length, s.takeSlot report)) := by
  unfold run
  cases hsame : s.running.get? report.key with
  | some same => exact .inl ⟨same, rfl, rfl⟩
  | none =>
      by_cases hfull : s.total ≥ limits.total ∨
        s.forProposal report.proposalId ≥ limits.perProposal
      · exact .inr (.inl ⟨rfl, hfull, if_pos hfull⟩)
      · obtain ⟨htotal, hproposal⟩ := not_or.mp hfull
        exact .inr (.inr ⟨rfl, not_le.mp htotal, not_le.mp hproposal, if_neg hfull⟩)

theorem Invariant.logged (h : s.Invariant limits) (call : RunCall)
    (hcall : call.answer = s.running.get? call.report.key) :
    Invariant limits { s with calls := s.calls ++ [call] } where
  __ := h
  answered := by
    intro c hc n hn
    rcases List.mem_append.mp hc with hc | hc
    · exact h.answered c hc n hn
    · obtain rfl := List.mem_singleton.mp hc
      exact (h.running_iff.mp (hcall.symm.trans hn)).lt
  shared := by
    intro n key hprogress
    refine (h.shared hprogress).concat rfl ?_
    constructor
    · intro hanswer
      exact hprogress.key_unique (h.running_iff.mp (hcall.symm.trans hanswer))
    · intro hkey
      rw [hcall, hkey]
      exact h.running_iff.mpr hprogress

theorem inProgress_takeSlot {report : Report} :
    (s.takeSlot report).InProgress n key ↔
      s.InProgress n key ∨ n = s.checks.length ∧ report.key = key := by
  unfold InProgress takeSlot
  dsimp only
  simp only [getElem?_concat_iff]
  constructor
  · rintro ⟨check, hcheck | ⟨hn, rfl⟩, hphase, hkey⟩
    · exact .inl ⟨check, hcheck, hphase, hkey⟩
    · exact .inr ⟨hn, hkey⟩
  · rintro (⟨check, hcheck, hphase, hkey⟩ | ⟨hn, hkey⟩)
    · exact ⟨check, .inl hcheck, hphase, hkey⟩
    · exact ⟨_, .inr ⟨hn, rfl⟩, rfl, hkey⟩

theorem forProposal_takeSlot (report : Report) (p : ℕ) :
    (s.takeSlot report).forProposal p =
      s.forProposal p + if report.proposalId = p then 1 else 0 := by
  unfold forProposal takeSlot
  by_cases hp : report.proposalId = p
  · subst hp
    rw [if_pos rfl, InsertionMap.get?_set_self]
    rfl
  · rw [if_neg hp, InsertionMap.get?_set_of_ne (Ne.symm hp), add_zero]

theorem Invariant.admitted (h : s.Invariant limits) {report : Report}
    (hnew : s.running.get? report.key = none) (htotal : s.total < limits.total)
    (hproposal : s.forProposal report.proposalId < limits.perProposal) :
    Invariant limits { s.takeSlot report with
      calls := s.calls ++ [⟨report, some s.checks.length⟩] } := by
  have hkey : report.key ∉ s.running.keys := by
    rw [InsertionMap.mem_keys_iff_get?, hnew]
    simp
  have hcounter (p : ℕ) := forProposal_takeSlot (s := s) report p
  refine {
    nodup := InsertionMap.nodup_keys_set h.nodup
    nodupProposals := InsertionMap.nodup_keys_set h.nodupProposals
    running_iff := ?_, total_eq := ?_, total_le := Int.add_one_le_of_lt htotal, sum_eq := ?_
    counter_eq := ?_, counter_le := ?_, counter_pos := ?_, answered := ?_, shared := ?_ }
  · intro key n
    refine Iff.trans ?_ inProgress_takeSlot.symm
    rw [← h.running_iff]
    change (s.running.set report.key s.checks.length).get? key = some n ↔ _
    by_cases heq : report.key = key
    · subst heq
      rw [InsertionMap.get?_set_self, hnew]
      simp [eq_comm]
    · rw [InsertionMap.get?_set_of_ne (Ne.symm heq)]
      simp [heq]
  · change s.total + 1 = ((s.running.set report.key s.checks.length).length : ℤ)
    rw [InsertionMap.set_of_not_mem hkey, List.length_append, h.total_eq]
    rfl
  · have hsum := InsertionMap.sum_values_set (m := s.perProposal) (k := report.proposalId)
      (v := s.forProposal report.proposalId + 1)
    rw [h.sum_eq] at hsum
    change (s.perProposal.set _ _).values.sum = s.total + 1
    unfold forProposal at hsum ⊢
    linarith
  · intro p
    refine (hcounter p).trans ?_
    rw [h.counter_eq]
    change _ = (List.countP _ (s.checks ++ [⟨report, .queued⟩]) : ℤ)
    rw [List.countP_append, List.countP_singleton]
    simp [SubmissionCheck.countsFor, CheckPhase.inProgress]
  · intro p
    refine (hcounter p).trans_le ?_
    split
    · next hp => exact hp ▸ Int.add_one_le_of_lt hproposal
    · exact (add_zero _).trans_le (h.counter_le p)
  · intro p count hcount
    change (s.perProposal.set _ _).get? p = some count at hcount
    by_cases hp : p = report.proposalId
    · subst hp
      rw [InsertionMap.get?_set_self] at hcount
      obtain rfl := Option.some.inj hcount
      rw [h.counter_eq]
      omega
    · rw [InsertionMap.get?_set_of_ne hp] at hcount
      exact h.counter_pos p count hcount
  · intro call hcall n hn
    change n < (s.checks ++ [_]).length
    rw [List.length_append]
    rcases List.mem_append.mp hcall with hcall | hcall
    · exact Nat.lt_add_right _ (h.answered call hcall n hn)
    · obtain rfl := List.mem_singleton.mp hcall
      obtain rfl := Option.some.inj hn
      exact Nat.lt_add_one _
  · intro n key hprogress
    rcases inProgress_takeSlot.mp hprogress with hold | ⟨rfl, rfl⟩
    · refine (h.shared hold).concat rfl ⟨?_, ?_⟩
      · intro hanswer
        exact absurd (Option.some.inj hanswer) hold.lt.ne'
      · rintro rfl
        cases hnew.symm.trans (h.running_iff.mpr hold)
    · refine ⟨s.calls, _, [], rfl, ?_, rfl, rfl, by simp⟩
      exact fun call hcall hanswer ↦ (h.answered call hcall _ hanswer).false

/-! ## Jobs -/

theorem CheckPhase.next_cases {phase phase' : CheckPhase} {job : CheckJob}
    (h : phase.next job = some phase') :
    phase.inProgress = true ∧
      (phase'.inProgress = true ∨
        ∃ outcome, phase = .settled outcome ∧ phase' = .finished outcome) := by
  unfold CheckPhase.next at h
  split at h
  · obtain rfl := Option.some.inj h
    refine ⟨rfl, .inl ?_⟩
    split <;> rfl
  · obtain rfl := Option.some.inj h
    exact ⟨rfl, .inl rfl⟩
  · next outcome =>
      obtain rfl := Option.some.inj h
      exact ⟨rfl, .inr ⟨outcome, rfl, rfl⟩⟩
  · cases h

section Jobs

variable {check : SubmissionCheck} {phase : CheckPhase}

theorem inProgress_setPhase (hcheck : s.checks[n]? = some check) :
    (s.setPhase n check phase).InProgress m key ↔
      m = n ∧ phase.inProgress = true ∧ check.report.key = key ∨ m ≠ n ∧ s.InProgress m key := by
  unfold InProgress setPhase
  dsimp only
  simp only [getElem?_set_iff hcheck]
  constructor
  · rintro ⟨check', ⟨rfl, rfl⟩ | ⟨hm, hcheck'⟩, hphase, hkey⟩
    · exact .inl ⟨rfl, hphase, hkey⟩
    · exact .inr ⟨hm, check', hcheck', hphase, hkey⟩
  · rintro (⟨rfl, hphase, hkey⟩ | ⟨hm, check', hcheck', hphase, hkey⟩)
    · exact ⟨_, .inl ⟨rfl, rfl⟩, hphase, hkey⟩
    · exact ⟨check', .inr ⟨hm, hcheck'⟩, hphase, hkey⟩

/-- A job other than the clean-up leaves the counts as they are. -/
theorem Invariant.moved (h : s.Invariant limits) (hcheck : s.checks[n]? = some check)
    (hold : check.phase.inProgress = true) (hnew : phase.inProgress = true) :
    (s.setPhase n check phase).Invariant limits := by
  have hprogress {m : ℕ} {key : String} :
      (s.setPhase n check phase).InProgress m key ↔ s.InProgress m key := by
    rw [inProgress_setPhase hcheck]
    constructor
    · rintro (⟨rfl, -, hkey⟩ | ⟨-, hm⟩)
      · exact ⟨check, hcheck, hold, hkey⟩
      · exact hm
    · intro hm
      by_cases heq : m = n
      · subst heq
        exact .inl ⟨rfl, hnew, hm.key_unique ⟨check, hcheck, hold, rfl⟩⟩
      · exact .inr ⟨heq, hm⟩
  exact {
    h with
    running_iff := h.running_iff.trans hprogress.symm
    counter_eq := by
      intro p
      refine (h.counter_eq p).trans ?_
      have hcount := countP_set_add (b := { check with phase })
        (p := SubmissionCheck.countsFor p) hcheck
      unfold SubmissionCheck.countsFor at hcount
      dsimp only at hcount
      rw [hold, hnew] at hcount
      exact congrArg Nat.cast (Nat.add_right_cancel hcount).symm
    answered := by
      intro call hcall i hi
      refine (h.answered call hcall i hi).trans_eq ?_
      exact List.length_set.symm
    shared := fun hm ↦ h.shared (hprogress.mp hm) }

/-- The counter of a check in progress is there to be lowered. -/
theorem Invariant.exists_counter (h : s.Invariant limits) (hcheck : s.checks[n]? = some check)
    (hold : check.phase.inProgress = true) :
    ∃ count, s.perProposal.get? check.report.proposalId = some count ∧ 0 < count := by
  have hmem : 0 < s.checks.countP (SubmissionCheck.countsFor check.report.proposalId) :=
    List.countP_pos_iff.mpr ⟨check, List.mem_of_getElem? hcheck, by
      simp [SubmissionCheck.countsFor, hold]⟩
  have hcounter := h.counter_eq check.report.proposalId
  unfold forProposal at hcounter
  cases hget : s.perProposal.get? check.report.proposalId with
  | none =>
      rw [hget, Option.getD_none] at hcounter
      omega
  | some count => exact ⟨count, rfl, h.counter_pos _ _ hget⟩

/-- The clean-up lowers the counter of its proposal and drops it at zero. -/
theorem cleanUp_perProposal {report : Report} {count : ℤ} (hnodup : s.perProposal.keys.Nodup)
    (hcount : s.perProposal.get? report.proposalId = some count) (hpos : 0 < count) :
    (s.cleanUp report).perProposal.keys.Nodup ∧
    (s.cleanUp report).perProposal.values.sum = s.perProposal.values.sum - 1 ∧
    (∀ p, (s.cleanUp report).forProposal p =
      s.forProposal p - if report.proposalId = p then 1 else 0) ∧
    ∀ p c, (s.cleanUp report).perProposal.get? p = some c →
      s.perProposal.get? p = some c ∨ 0 < c := by
  unfold cleanUp forProposal
  rw [hcount, Option.getD_some]
  dsimp only
  split
  · next hleft =>
      have hsum := InsertionMap.sum_values_set (m := s.perProposal) (k := report.proposalId)
        (v := count - 1)
      rw [hcount, Option.getD_some] at hsum
      refine ⟨InsertionMap.nodup_keys_set hnodup, by linarith, ?_, ?_⟩
      · intro p
        by_cases hp : report.proposalId = p
        · subst hp
          rw [InsertionMap.get?_set_self, hcount, if_pos rfl]
          rfl
        · rw [InsertionMap.get?_set_of_ne (Ne.symm hp), if_neg hp, sub_zero]
      · intro p c hc
        by_cases hp : p = report.proposalId
        · subst hp
          rw [InsertionMap.get?_set_self] at hc
          exact .inr (Option.some.inj hc ▸ hleft)
        · rw [InsertionMap.get?_set_of_ne hp] at hc
          exact .inl hc
  · next hleft =>
      obtain rfl : count = 1 := by omega
      have hsum := InsertionMap.sum_values_erase (k := report.proposalId) hnodup
      rw [hcount, Option.getD_some] at hsum
      refine ⟨InsertionMap.nodup_keys_erase hnodup, by linarith, ?_, ?_⟩
      · intro p
        by_cases hp : report.proposalId = p
        · subst hp
          rw [InsertionMap.get?_erase_self, hcount, if_pos rfl]
          rfl
        · rw [InsertionMap.get?_erase_of_ne (Ne.symm hp), if_neg hp, sub_zero]
      · intro p c hc
        by_cases hp : p = report.proposalId
        · subst hp
          rw [InsertionMap.get?_erase_self] at hc
          cases hc
        · rw [InsertionMap.get?_erase_of_ne hp] at hc
          exact .inl hc

theorem Invariant.cleaned (h : s.Invariant limits) (hcheck : s.checks[n]? = some check)
    (hold : check.phase.inProgress = true) (hnew : phase.inProgress = false) :
    ((s.setPhase n check phase).cleanUp check.report).Invariant limits := by
  have hself : s.InProgress n check.report.key := ⟨check, hcheck, hold, rfl⟩
  have hrunning := h.running_iff.mpr hself
  have hprogress {m : ℕ} {key : String} :
      ((s.setPhase n check phase).cleanUp check.report).InProgress m key ↔
        m ≠ n ∧ s.InProgress m key := by
    refine (inProgress_setPhase hcheck).trans ?_
    simp [hnew]
  obtain ⟨count, hcount, hpos⟩ := h.exists_counter hcheck hold
  obtain ⟨hnodup, hsum, hcounter, hget⟩ := cleanUp_perProposal
    (s := s.setPhase n check phase) h.nodupProposals hcount hpos
  refine {
    nodup := InsertionMap.nodup_keys_erase h.nodup
    nodupProposals := hnodup
    running_iff := ?_, total_eq := ?_, total_le := (Int.sub_le_self _ one_pos.le).trans h.total_le
    sum_eq := hsum.trans (congrArg (· - 1) h.sum_eq)
    counter_eq := ?_, counter_le := ?_, counter_pos := ?_, answered := ?_, shared := ?_ }
  · intro key m
    rw [hprogress]
    change (s.running.erase check.report.key).get? key = some m ↔ _
    by_cases hkey : key = check.report.key
    · subst hkey
      rw [InsertionMap.get?_erase_self, ← h.running_iff, hrunning]
      simp [eq_comm]
    · rw [InsertionMap.get?_erase_of_ne hkey, h.running_iff]
      refine ⟨fun hm ↦ ⟨?_, hm⟩, And.right⟩
      rintro rfl
      exact hkey (hself.key_unique hm)
  · have hlength := InsertionMap.length_erase h.nodup
      (InsertionMap.mem_keys_iff_get?.mpr ⟨n, hrunning⟩)
    have htotal := h.total_eq
    change s.total - 1 = ((s.running.erase check.report.key).length : ℤ)
    omega
  · intro p
    refine (hcounter p).trans ?_
    have hcountP := countP_set_add (b := { check with phase }) (p := SubmissionCheck.countsFor p)
      hcheck
    have hchecks := h.counter_eq p
    simp only [SubmissionCheck.countsFor, hold, hnew, Bool.true_and, Bool.false_and,
      Bool.false_eq_true, if_false, add_zero, beq_iff_eq] at hcountP
    change s.forProposal p - _ = ((s.checks.set n { check with phase }).countP _ : ℤ)
    rw [hchecks]
    unfold SubmissionCheck.countsFor at hcountP ⊢
    rw [← hcountP]
    split <;> simp
  · intro p
    refine (hcounter p).trans_le ?_
    have hle := h.counter_le p
    change s.forProposal p - _ ≤ _
    split <;> linarith
  · intro p c hc
    exact (hget p c hc).elim (h.counter_pos p c) id
  · intro call hcall i hi
    exact (h.answered call hcall i hi).trans_eq List.length_set.symm
  · exact fun hm ↦ h.shared (hprogress.mp hm).2

end Jobs

theorem invariant_start : start.Invariant limits where
  nodup := List.nodup_nil
  nodupProposals := List.nodup_nil
  running_iff := by
    intro key n
    constructor
    · intro h
      cases h
    · rintro ⟨check, h, -⟩
      cases h
  total_eq := rfl
  total_le := Int.natCast_nonneg _
  sum_eq := rfl
  counter_eq _ := rfl
  counter_le _ := Int.natCast_nonneg _
  counter_pos _ _ h := by cases h
  answered _ h := by cases h
  shared := by
    rintro n key ⟨check, h, -⟩
    cases h

theorem step_run (report : Report) :
    s.step limits (.run report) = some { (s.run limits report).2 with
      calls := (s.run limits report).2.calls ++ [⟨report, (s.run limits report).1⟩] } := rfl

theorem step_job {job : CheckJob} (h : s.step limits (.job n job) = some t) :
    ∃ check phase, s.checks[n]? = some check ∧ check.phase.next job = some phase ∧
      t = if phase.inProgress then s.setPhase n check phase
        else (s.setPhase n check phase).cleanUp check.report := by
  obtain ⟨check, hcheck, hrest⟩ := Option.bind_eq_some_iff.mp h
  obtain ⟨phase, hphase, hnext⟩ := Option.bind_eq_some_iff.mp hrest
  exact ⟨check, phase, hcheck, hphase, (Option.some.inj hnext).symm⟩

theorem Invariant.step (h : s.Invariant limits) {a : LimiterAction}
    (hstep : s.step limits a = some t) : t.Invariant limits := by
  cases a with
  | run report =>
      rcases run_cases limits s report with ⟨same, hsame, hrun⟩ | ⟨hnone, -, hrun⟩ |
        ⟨hnone, htotal, hproposal, hrun⟩
      · rw [step_run, hrun] at hstep
        obtain rfl := Option.some.inj hstep
        exact h.logged ⟨report, some same⟩ hsame.symm
      · rw [step_run, hrun] at hstep
        obtain rfl := Option.some.inj hstep
        exact h.logged ⟨report, none⟩ hnone.symm
      · rw [step_run, hrun] at hstep
        obtain rfl := Option.some.inj hstep
        exact h.admitted hnone htotal hproposal
  | job n job =>
      obtain ⟨check, phase, hcheck, hphase, rfl⟩ := step_job hstep
      obtain ⟨hold, hnew | ⟨outcome, -, rfl⟩⟩ := CheckPhase.next_cases hphase
      · rw [if_pos hnew]
        exact h.moved hcheck hold hnew
      · exact h.cleaned hcheck hold rfl

theorem invariant {as : List LimiterAction} (h : (limiterSystem limits).Run as s) :
    s.Invariant limits := by
  refine TransitionSystem.Run.invariant (fun _ ↦ Invariant limits) ?_ ?_ h
  · rintro _ rfl
    exact invariant_start
  · exact fun _ _ _ _ _ hs hstep ↦ hs.step hstep

/-! ## The last clean-up -/

/-- The `check` of every admitted report has come to its end. -/
def AllSettled (s : SubmissionCheckLimiter) : Prop :=
  ∀ check ∈ s.checks, ∃ outcome, check.phase = .settled outcome ∨ check.phase = .finished outcome

theorem Invariant.idle (h : s.Invariant limits)
    (hdone : ∀ check ∈ s.checks, check.phase.inProgress = false) : s.Idle := by
  have hrunning : s.running = [] := by
    rw [List.eq_nil_iff_forall_not_mem]
    rintro ⟨key, n⟩ hmem
    obtain ⟨check, hcheck, hprogress, -⟩ :=
      h.running_iff.mp (InsertionMap.get?_of_mem h.nodup hmem)
    rw [hdone check (List.mem_of_getElem? hcheck)] at hprogress
    cases hprogress
  have htotal : s.total = 0 := by
    rw [h.total_eq, hrunning]
    rfl
  refine ⟨htotal, hrunning, ?_⟩
  rw [List.eq_nil_iff_forall_not_mem]
  rintro ⟨p, count⟩ hmem
  have hget := InsertionMap.get?_of_mem h.nodupProposals hmem
  have hcounter := h.counter_eq p
  unfold forProposal at hcounter
  have hnone : s.checks.countP (SubmissionCheck.countsFor p) = 0 := by
    rw [List.countP_eq_zero]
    intro check hcheck
    simp [SubmissionCheck.countsFor, hdone check hcheck]
  rw [hget, Option.getD_some, hnone] at hcounter
  exact (h.counter_pos p count hget).ne' hcounter

theorem step_cleanUp {s : SubmissionCheckLimiter} {check : SubmissionCheck} {outcome : Option Bool}
    (hcheck : s.checks[n]? = some check) (hphase : check.phase = .settled outcome) :
    s.step limits (.job n .cleanUp) =
      some ((s.setPhase n check (.finished outcome)).cleanUp check.report) := by
  refine Option.bind_eq_some_iff.mpr ⟨check, hcheck, ?_⟩
  refine Option.bind_eq_some_iff.mpr ⟨.finished outcome, ?_, rfl⟩
  rw [hphase]
  rfl

/-- Either a clean-up is due, or nothing is counted any more. -/
theorem Invariant.idle_or_cleanUp (h : s.Invariant limits) (hsettled : s.AllSettled) :
    s.Idle ∨ ∃ n t, s.step limits (.job n .cleanUp) = some t := by
  by_cases hdue : ∃ check ∈ s.checks, ∃ outcome, check.phase = .settled outcome
  · obtain ⟨check, hmem, outcome, hphase⟩ := hdue
    obtain ⟨n, hn⟩ := List.getElem?_of_mem hmem
    exact .inr ⟨n, _, step_cleanUp hn hphase⟩
  · refine .inl (h.idle fun check hcheck ↦ ?_)
    obtain ⟨outcome, hphase | hphase⟩ := hsettled check hcheck
    · exact absurd ⟨check, hcheck, outcome, hphase⟩ hdue
    · rw [hphase]
      rfl

theorem cleanUp_step (hsettled : s.AllSettled)
    (hstep : s.step limits (.job n .cleanUp) = some t) :
    t.AllSettled ∧ t.total = s.total - 1 := by
  obtain ⟨check, phase, hcheck, hnext, rfl⟩ := step_job hstep
  obtain ⟨outcome, hphase | hphase⟩ := hsettled check (List.mem_of_getElem? hcheck)
  · rw [hphase] at hnext
    obtain rfl := Option.some.inj hnext
    refine ⟨fun check' hmem ↦ ?_, rfl⟩
    rcases List.mem_or_eq_of_mem_set hmem with hmem | rfl
    · exact hsettled check' hmem
    · exact ⟨outcome, .inr rfl⟩
  · rw [hphase] at hnext
    cases hnext

theorem cleanUps_path (hsettled : s.AllSettled) {as : List LimiterAction}
    (has : ∀ a ∈ as, ∃ n, a = .job n .cleanUp) (hpath : (limiterSystem limits).Path s as t) :
    t.AllSettled ∧ t.total + as.length = s.total := by
  induction as generalizing s with
  | nil =>
      obtain rfl := hpath
      exact ⟨hsettled, add_zero _⟩
  | cons a as ih =>
      obtain ⟨m, hstep, hrest⟩ := hpath
      obtain ⟨n, rfl⟩ := has a List.mem_cons_self
      obtain ⟨hm, htotal⟩ := cleanUp_step hsettled hstep
      obtain ⟨ht, hlength⟩ := ih hm (fun a ha ↦ has a (List.mem_cons_of_mem _ ha)) hrest
      refine ⟨ht, ?_⟩
      rw [List.length_cons]
      omega

end SubmissionCheckLimiter

/-- Between any two steps the counts agree with the checks in progress and stay within the
limits, each running report has one check that answers all its calls, only a full limit
refuses a report, and when every check has settled the clean-ups free every slot. -/
theorem submission_checks_limited (limits : CheckLimits) {as : List LimiterAction}
    {s : SubmissionCheckLimiter} (h : (limiterSystem limits).Run as s) :
    (s.total = s.running.length ∧ s.total = s.perProposal.values.sum ∧ s.total ≤ limits.total) ∧
    (∀ p count, s.perProposal.get? p = some count → 1 ≤ count ∧ count ≤ limits.perProposal) ∧
    (∀ key, key ∈ s.running.keys ↔ ∃! n, s.InProgress n key) ∧
    (∀ n key, s.InProgress n key → s.SharedBy n key) ∧
    (∀ report report' : Report, ':' ∉ report.action.toList → ':' ∉ report'.action.toList →
      report.key = report'.key → report = report') ∧
    (∀ report, (s.run limits report).1 = none → report.key ∉ s.running.keys ∧
      (s.total = limits.total ∨ s.forProposal report.proposalId = limits.perProposal)) ∧
    ((∀ check ∈ s.checks, check.phase.inProgress = false) → s.Idle) ∧
    (s.AllSettled → ∀ cleanUps t, (∀ a ∈ cleanUps, ∃ n, a = .job n .cleanUp) →
      (limiterSystem limits).Path s cleanUps t → t.total + cleanUps.length = s.total ∧
        (t.Idle ∨ ∃ n u, t.step limits (.job n .cleanUp) = some u)) := by
  have hs := SubmissionCheckLimiter.invariant h
  refine ⟨⟨hs.total_eq, hs.sum_eq.symm, hs.total_le⟩, ?_, ?_, fun _ _ ↦ hs.shared,
    fun _ _ ↦ Report.key_injective, ?_, hs.idle, ?_⟩
  · intro p count hcount
    refine ⟨hs.counter_pos p count hcount, ?_⟩
    have hle := hs.counter_le p
    unfold SubmissionCheckLimiter.forProposal at hle
    rwa [hcount] at hle
  · intro key
    rw [InsertionMap.mem_keys_iff_get?]
    constructor
    · rintro ⟨n, hn⟩
      refine ⟨n, hs.running_iff.mp hn, fun m hm ↦ ?_⟩
      exact Option.some.inj ((hs.running_iff.mpr hm).symm.trans hn)
    · rintro ⟨n, hn, -⟩
      exact ⟨n, hs.running_iff.mpr hn⟩
  · intro report hnull
    rcases SubmissionCheckLimiter.run_cases limits s report with ⟨same, -, hrun⟩ |
      ⟨hnone, hfull, -⟩ | ⟨-, -, -, hrun⟩
    · rw [hrun] at hnull
      cases hnull
    · refine ⟨?_, hfull.imp (hs.total_le.antisymm ·) ((hs.counter_le _).antisymm ·)⟩
      rw [InsertionMap.mem_keys_iff_get?, hnone]
      simp
    · rw [hrun] at hnull
      cases hnull
  · intro hsettled cleanUps t hall hpath
    obtain ⟨ht, htotal⟩ := SubmissionCheckLimiter.cleanUps_path hsettled hall hpath
    exact ⟨htotal, (SubmissionCheckLimiter.invariant (h.extend hpath)).idle_or_cleanUp ht⟩

namespace Walkthrough

def approvalReport (proposalId : ℕ) : Report := ⟨proposalId, "approve", "5Ju"⟩

/-- Two reports share a check, whose clean-up comes after another proposal's report. -/
def reportActions : List LimiterAction :=
  [.run (approvalReport 1), .run (approvalReport 1), .job 0 (.call false),
    .job 0 (.settle (some true)), .run (approvalReport 2), .job 0 .cleanUp]

def afterReports : SubmissionCheckLimiter where
  running := [("2:approve:5Ju", 1)]
  perProposal := [(2, 1)]
  total := 1
  checks := [⟨approvalReport 1, .finished (some true)⟩, ⟨approvalReport 2, .queued⟩]
  calls := [⟨approvalReport 1, some 0⟩, ⟨approvalReport 1, some 0⟩, ⟨approvalReport 2, some 1⟩]

theorem one_slot_taken :
    (limiterSystem defaultCheckLimits).Run reportActions afterReports ∧
      (∃! n, afterReports.InProgress n "2:approve:5Ju") ∧
      afterReports.SharedBy 1 "2:approve:5Ju" := by
  have hrun : (limiterSystem defaultCheckLimits).Run reportActions afterReports :=
    ⟨.start, rfl, TransitionSystem.path_ofFunction.mpr rfl⟩
  obtain ⟨-, -, hkeys, hshared, -⟩ := submission_checks_limited defaultCheckLimits hrun
  have hone := (hkeys "2:approve:5Ju").mp (List.mem_singleton_self _)
  exact ⟨hrun, hone, hshared 1 _ ⟨_, rfl, rfl, rfl⟩⟩

end Walkthrough

end MinaGuard
