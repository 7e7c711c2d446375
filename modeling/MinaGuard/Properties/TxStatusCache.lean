import MinaGuard.Foundations.Tasks
import MinaGuard.Indexer.TxStatusCache

/-!
# What the transaction status cache serves

A new lookup gets the last place in the map, so the oldest entry is that of the oldest
lookup.  It is dropped only for entries of later lookups, as many as there may be.
-/

namespace MinaGuard

open Foundations

/-- The outcome is forgotten: a rejection, or a status the node did not tell. -/
def Failed (outcome : Option TxStatusResult) : Prop :=
  ∀ result ∈ outcome, result.status = .unknown

/-- The outcome of the promise and when it settled, once it has. -/
def LookupPhase.settlement? : LookupPhase → Option (Option TxStatusResult × ℤ)
  | inFlight => none
  | settled outcome settledAt => some (outcome, settledAt)
  | takenUp outcome settledAt _ => some (outcome, settledAt)

/-- A call at `now` may be given the lookup. -/
def LookupPhase.Servable (ttlMs now : ℤ) : LookupPhase → Prop
  | takenUp outcome _ takenUpAt => ¬Failed outcome ∧ now < takenUpAt + ttlMs
  | _ => True

def LookupPhase.expiry (ttlMs : ℤ) : LookupPhase → Option ℤ
  | takenUp (some result) _ now => if result.status = .unknown then none else some (now + ttlMs)
  | _ => none

theorem dropOldest_eq (maxEntries : ℕ) (entries : InsertionMap String ℕ) :
    dropOldest maxEntries entries = entries.drop (entries.length - maxEntries) := by
  induction entries with
  | nil => exact List.drop_nil.symm
  | cons oldest entries ih =>
      unfold dropOldest
      split
      · next hsize =>
          rw [List.length_cons] at hsize ⊢
          rw [Nat.sub_add_comm (Nat.le_of_lt_succ hsize), List.drop_succ_cons, ih]
      · next hsize =>
          rw [Nat.sub_eq_zero_of_le (not_lt.mp hsize), List.drop_zero]

theorem length_dropOldest_le (maxEntries : ℕ) (entries : InsertionMap String ℕ) :
    (dropOldest maxEntries entries).length ≤ maxEntries := by
  rw [dropOldest_eq, List.length_drop]
  omega

theorem dropOldest_sublist (maxEntries : ℕ) (entries : InsertionMap String ℕ) :
    List.Sublist (dropOldest maxEntries entries) entries := by
  rw [dropOldest_eq]
  exact List.drop_sublist _ _

/-- What is dropped leaves a full map of later entries. -/
theorem mem_dropOldest_or {maxEntries : ℕ} {entries : InsertionMap String ℕ}
    (hsorted : entries.Pairwise fun a b ↦ a.2 < b.2) {entry : String × ℕ}
    (hentry : entry ∈ entries) :
    entry ∈ dropOldest maxEntries entries ∨
      (dropOldest maxEntries entries).length = maxEntries ∧
        ∀ later ∈ dropOldest maxEntries entries, entry.2 < later.2 := by
  rw [dropOldest_eq]
  rw [← List.take_append_drop (entries.length - maxEntries) entries] at hentry hsorted
  rcases List.mem_append.mp hentry with hfront | hback
  · refine .inr ⟨?_, fun later hlater ↦ (List.pairwise_append.mp hsorted).2.2 _ hfront _ hlater⟩
    have hpos : 0 < entries.length - maxEntries := by
      by_contra hzero
      rw [Nat.eq_zero_of_not_pos hzero, List.take_zero] at hfront
      cases hfront
    rw [List.length_drop]
    omega
  · exact .inl hback

namespace TxStatusCache

variable {options : TxStatusCacheOptions} {s t : TxStatusCache} {n : ℕ} {lookup : Lookup}

/-- The map is full of entries of lookups that started after lookup `n`. -/
def FullOfNewer (options : TxStatusCacheOptions) (s : TxStatusCache) (n : ℕ) : Prop :=
  n < s.lookups.length ∧ s.entries.length = options.maxEntries ∧
    ∀ entry ∈ s.entries, n < entry.2

structure Invariant (options : TxStatusCacheOptions) (s : TxStatusCache) : Prop where
  nodup : s.entries.keys.Nodup
  sorted : s.entries.Pairwise fun a b ↦ a.2 < b.2
  length_le : s.entries.length ≤ options.maxEntries
  entry {hash : String} {n : ℕ} : (hash, n) ∈ s.entries →
    ∃ lookup, s.lookups[n]? = some lookup ∧ lookup.hash = hash ∧
      ∀ outcome settledAt now, lookup.phase = .takenUp outcome settledAt now → ¬Failed outcome
  expiry {n : ℕ} {lookup : Lookup} : s.lookups[n]? = some lookup →
    lookup.expiresAt = lookup.phase.expiry options.ttlMs

theorem invariant_empty : empty.Invariant options where
  nodup := List.nodup_nil
  sorted := List.Pairwise.nil
  length_le := Nat.zero_le _
  entry h := by cases h
  expiry h := by cases h

theorem Invariant.fresh_of_inFlight (h : s.Invariant options)
    (hlookup : s.lookups[n]? = some lookup) (hphase : lookup.phase = .inFlight) (now : ℤ) :
    s.fresh n now = true := by
  have hexpiry := h.expiry hlookup
  rw [hphase] at hexpiry
  unfold fresh
  rw [hlookup, Option.bind_some, hexpiry]
  rfl

/-- A call is given the fresh entry of its hash or starts a lookup. -/
theorem get_cases (options : TxStatusCacheOptions) (s : TxStatusCache) (hash : String) (now : ℤ) :
    (∃ cached, s.entries.get? hash = some cached ∧ s.fresh cached now = true ∧
      s.get options hash now = (cached, s)) ∨
    (∀ cached, s.entries.get? hash = some cached → s.fresh cached now = false) ∧
      s.get options hash now = s.startLookup options (s.entries.erase hash) hash := by
  unfold get
  cases hget : s.entries.get? hash with
  | none =>
      have hnone : hash ∉ s.entries.keys := by
        rw [InsertionMap.mem_keys_iff_get?, hget]
        simp
      refine .inr ⟨by simp, ?_⟩
      rw [InsertionMap.erase_of_not_mem hnone]
  | some cached =>
      by_cases hfresh : s.fresh cached now = true
      · exact .inl ⟨cached, rfl, hfresh, if_pos hfresh⟩
      · refine .inr ⟨?_, if_neg hfresh⟩
        rintro _ ⟨⟩
        exact Bool.eq_false_iff.mpr hfresh

section Start

variable {hash : String}

theorem mem_entries_startLookup {entry : String × ℕ} :
    entry ∈ (s.entries.erase hash).set hash s.lookups.length ↔
      entry ∈ s.entries ∧ entry.1 ≠ hash ∨ entry = (hash, s.lookups.length) := by
  have hnew : hash ∉ (s.entries.erase hash).keys := by
    rw [InsertionMap.keys_erase]
    simp
  rw [InsertionMap.set_of_not_mem hnew, List.mem_append, List.mem_singleton, InsertionMap.erase,
    List.mem_filter, decide_eq_true_iff]

theorem Invariant.lt_length (h : s.Invariant options) {entry : String × ℕ}
    (hentry : entry ∈ s.entries) : entry.2 < s.lookups.length := by
  obtain ⟨lookup, hlookup, -⟩ := h.entry hentry
  exact (List.getElem?_eq_some_iff.mp hlookup).1

theorem Invariant.sorted_startLookup (h : s.Invariant options) :
    ((s.entries.erase hash).set hash s.lookups.length).Pairwise fun a b ↦ a.2 < b.2 := by
  have hnew : hash ∉ (s.entries.erase hash).keys := by
    rw [InsertionMap.keys_erase]
    simp
  rw [InsertionMap.set_of_not_mem hnew, List.pairwise_append]
  refine ⟨h.sorted.sublist List.filter_sublist, List.pairwise_singleton _ _, ?_⟩
  rintro entry hentry last hlast
  obtain rfl := List.mem_singleton.mp hlast
  exact h.lt_length (InsertionMap.mem_of_mem_erase hentry)

theorem Invariant.entry_startLookup (h : s.Invariant options) {key : String}
    (hmem : (key, n) ∈ (s.entries.erase hash).set hash s.lookups.length) :
    ∃ lookup, (s.lookups ++ [⟨hash, .inFlight, none⟩])[n]? = some lookup ∧ lookup.hash = key ∧
      ∀ outcome settledAt now, lookup.phase = .takenUp outcome settledAt now →
        ¬Failed outcome := by
  rcases mem_entries_startLookup.mp hmem with ⟨hold, -⟩ | heq
  · obtain ⟨lookup, hlookup, hrest⟩ := h.entry hold
    exact ⟨lookup, getElem?_concat_iff.mpr (.inl hlookup), hrest⟩
  · obtain ⟨rfl, rfl⟩ := Prod.mk.inj heq
    refine ⟨_, getElem?_concat_iff.mpr (.inr ⟨rfl, rfl⟩), rfl, ?_⟩
    intro outcome settledAt now hphase
    cases hphase

/-- An entry is kept, or dropped for the entries of later lookups. -/
theorem Invariant.kept_or_dropped (h : s.Invariant options) {key : String}
    (hmem : (key, n) ∈ (s.entries.erase hash).set hash s.lookups.length) :
    (key, n) ∈ (s.startLookup options (s.entries.erase hash) hash).2.entries ∨
      (s.startLookup options (s.entries.erase hash) hash).2.FullOfNewer options n := by
  refine (mem_dropOldest_or h.sorted_startLookup hmem).imp_right fun hfull ↦ ⟨?_, hfull⟩
  obtain ⟨lookup, hlookup, -⟩ := h.entry_startLookup hmem
  exact (List.getElem?_eq_some_iff.mp hlookup).1

theorem Invariant.started (h : s.Invariant options) :
    (s.startLookup options (s.entries.erase hash) hash).2.Invariant options := by
  have hsub := dropOldest_sublist options.maxEntries
    ((s.entries.erase hash).set hash s.lookups.length)
  refine {
    nodup := (InsertionMap.nodup_keys_set (InsertionMap.nodup_keys_erase h.nodup)).sublist
      (hsub.map Prod.fst)
    sorted := h.sorted_startLookup.sublist hsub
    length_le := length_dropOldest_le _ _
    entry := fun hmem ↦ h.entry_startLookup (hsub.subset hmem)
    expiry := fun hlookup ↦ ?_ }
  rcases getElem?_concat_iff.mp hlookup with hold | ⟨rfl, rfl⟩
  · exact h.expiry hold
  · rfl

end Start

theorem Invariant.get (h : s.Invariant options) (hash : String) (now : ℤ) :
    (s.get options hash now).2.Invariant options := by
  rcases get_cases options s hash now with ⟨cached, -, -, hget⟩ | ⟨-, hget⟩
  · rw [hget]
    exact h
  · rw [hget]
    exact h.started

section Settlements

/-- A lookup moves on; its entry may leave the map. -/
theorem Invariant.moved (h : s.Invariant options) (changed : Lookup)
    (hlookup : s.lookups[n]? = some lookup)
    (hhash : changed.hash = lookup.hash)
    (hexpiry : changed.expiresAt = changed.phase.expiry options.ttlMs)
    {entries : InsertionMap String ℕ} (hsub : List.Sublist entries s.entries)
    (hserved : (lookup.hash, n) ∈ entries → ∀ outcome settledAt now,
      changed.phase = .takenUp outcome settledAt now → ¬Failed outcome) :
    Invariant options { s.setLookup n changed with entries := entries } where
  nodup := h.nodup.sublist (hsub.map Prod.fst)
  sorted := h.sorted.sublist hsub
  length_le := hsub.length_le.trans h.length_le
  entry := by
    intro key i hmem
    obtain ⟨old, hold, rfl, hrest⟩ := h.entry (hsub.subset hmem)
    by_cases hi : i = n
    · subst hi
      obtain rfl := Option.some.inj (hold.symm.trans hlookup)
      exact ⟨changed, (getElem?_set_iff hlookup).mpr (.inl ⟨rfl, rfl⟩), hhash, hserved hmem⟩
    · exact ⟨old, (getElem?_set_iff hlookup).mpr (.inr ⟨hi, hold⟩), rfl, hrest⟩
  expiry := by
    intro i other hother
    rcases (getElem?_set_iff hlookup).mp hother with ⟨-, rfl⟩ | ⟨-, hold⟩
    · exact hexpiry
    · exact h.expiry hold

/-- The entry of a failed lookup is gone, whether or not it was still there. -/
theorem Invariant.forgotten (h : s.Invariant options) (changed : Lookup)
    (hlookup : s.lookups[n]? = some lookup) (hhash : changed.hash = lookup.hash)
    (hexpiry : changed.expiresAt = changed.phase.expiry options.ttlMs) :
    ((s.setLookup n changed).forget lookup.hash n).Invariant options := by
  unfold forget
  split
  · refine h.moved changed hlookup hhash hexpiry List.filter_sublist fun hmem ↦ ?_
    exact absurd (List.mem_filter.mp hmem).2 (by simp)
  · next hget =>
      refine h.moved changed hlookup hhash hexpiry (List.Sublist.refl _) fun hmem ↦ ?_
      exact absurd (InsertionMap.get?_of_mem h.nodup hmem) hget

theorem Invariant.settled (h : s.Invariant options) (hlookup : s.lookups[n]? = some lookup)
    {outcome : Option TxStatusResult} {now : ℤ}
    (hsettle : s.settle n outcome now lookup = some t) : t.Invariant options := by
  unfold settle at hsettle
  split at hsettle
  · next hphase =>
      obtain rfl := Option.some.inj hsettle
      have hexpiry := h.expiry hlookup
      rw [hphase] at hexpiry
      refine h.moved { lookup with phase := .settled outcome now } hlookup rfl hexpiry
        (List.Sublist.refl _) ?_
      intro _ outcome settledAt now hdone
      cases hdone
  · cases hsettle

theorem Invariant.resumed (h : s.Invariant options) (hlookup : s.lookups[n]? = some lookup)
    {now : ℤ} (hresume : s.resume options n now lookup = some t) : t.Invariant options := by
  unfold resume at hresume
  split at hresume
  · next outcome settledAt hphase =>
      obtain rfl := Option.some.inj hresume
      have hexpiry := h.expiry hlookup
      rw [hphase] at hexpiry
      cases outcome with
      | none => exact h.forgotten _ hlookup rfl hexpiry
      | some result =>
          unfold takeUp
          dsimp only
          split
          · next hunknown =>
              exact h.forgotten _ hlookup rfl (hexpiry.trans (if_pos hunknown).symm)
          · next hknown =>
              refine h.moved ⟨lookup.hash, .takenUp (some result) settledAt now,
                some (now + options.ttlMs)⟩ hlookup rfl (if_neg hknown).symm
                (List.Sublist.refl _) ?_
              rintro - outcome settledAt' now' hdone hfailed
              obtain ⟨rfl, -, -⟩ := LookupPhase.takenUp.inj hdone
              exact hknown (hfailed result rfl)
  · cases hresume

end Settlements

theorem Invariant.step (h : s.Invariant options) {a : TxStatusCacheAction}
    (hstep : s.step options a = some t) : t.Invariant options := by
  cases a with
  | get hash now =>
      obtain rfl := Option.some.inj hstep
      exact h.get hash now
  | settle n outcome now =>
      obtain ⟨lookup, hlookup, hsettle⟩ := Option.bind_eq_some_iff.mp hstep
      exact h.settled hlookup hsettle
  | takeUp n now =>
      obtain ⟨lookup, hlookup, hresume⟩ := Option.bind_eq_some_iff.mp hstep
      exact h.resumed hlookup hresume

theorem invariant {as : List TxStatusCacheAction} (h : (txStatusCacheSystem options).Run as s) :
    s.Invariant options := by
  refine TransitionSystem.Run.invariant (fun _ ↦ Invariant options) ?_ ?_ h
  · rintro _ rfl
    exact invariant_empty
  · exact fun _ _ _ _ _ hs hstep ↦ hs.step hstep

/-! ## Answers -/

/-- A lookup that settled, or was taken up. -/
structure MovesOn (lookup changed : Lookup) : Prop where
  hash : changed.hash = lookup.hash
  phase : changed.phase ≠ .inFlight
  settlement : ∀ settlement, lookup.phase.settlement? = some settlement →
    changed.phase.settlement? = some settlement

theorem takeUp_cases (options : TxStatusCacheOptions) (s : TxStatusCache) (n : ℕ)
    (lookup : Lookup) (outcome : Option TxStatusResult) (settledAt now : ℤ) :
    ∃ expiresAt,
      (s.takeUp options n lookup outcome settledAt now).lookups =
        s.lookups.set n ⟨lookup.hash, .takenUp outcome settledAt now, expiresAt⟩ ∧
      ((s.takeUp options n lookup outcome settledAt now).entries = s.entries ∨
        s.entries.get? lookup.hash = some n ∧
          (s.takeUp options n lookup outcome settledAt now).entries =
            s.entries.erase lookup.hash) := by
  have hforget (u : TxStatusCache) :
      (u.forget lookup.hash n).lookups = u.lookups ∧
        ((u.forget lookup.hash n).entries = u.entries ∨
          u.entries.get? lookup.hash = some n ∧
            (u.forget lookup.hash n).entries = u.entries.erase lookup.hash) := by
    unfold forget
    split
    · next hget => exact ⟨rfl, .inr ⟨hget, rfl⟩⟩
    · exact ⟨rfl, .inl rfl⟩
  unfold takeUp
  cases outcome with
  | none => exact ⟨_, hforget _⟩
  | some result =>
      dsimp only
      split
      · exact ⟨_, hforget _⟩
      · exact ⟨_, rfl, .inl rfl⟩

/-- A step changes nothing, starts a lookup, or moves one on, whose entry may leave the
map. -/
theorem step_cases {a : TxStatusCacheAction} (hstep : s.step options a = some t) :
    t = s ∨
    (∃ hash now, (∀ cached, s.entries.get? hash = some cached → s.fresh cached now = false) ∧
      t = (s.startLookup options (s.entries.erase hash) hash).2) ∨
    ∃ n lookup changed, s.lookups[n]? = some lookup ∧ MovesOn lookup changed ∧
      t.lookups = s.lookups.set n changed ∧
      (t.entries = s.entries ∨
        s.entries.get? lookup.hash = some n ∧ t.entries = s.entries.erase lookup.hash) := by
  cases a with
  | get hash now =>
      obtain rfl := Option.some.inj hstep
      rcases get_cases options s hash now with ⟨cached, -, -, hget⟩ | ⟨hstale, hget⟩
      · exact .inl (congrArg Prod.snd hget)
      · exact .inr (.inl ⟨hash, now, hstale, congrArg Prod.snd hget⟩)
  | settle n outcome now =>
      obtain ⟨lookup, hlookup, hsettle⟩ := Option.bind_eq_some_iff.mp hstep
      unfold settle at hsettle
      split at hsettle
      · next hphase =>
          obtain rfl := Option.some.inj hsettle
          refine .inr (.inr ⟨n, lookup, { lookup with phase := .settled outcome now }, hlookup,
            ⟨rfl, by simp, ?_⟩, rfl, .inl rfl⟩)
          rw [hphase]
          intro _ hnone
          cases hnone
      · cases hsettle
  | takeUp n now =>
      obtain ⟨lookup, hlookup, hresume⟩ := Option.bind_eq_some_iff.mp hstep
      unfold resume at hresume
      split at hresume
      · next outcome settledAt hphase =>
          obtain rfl := Option.some.inj hresume
          obtain ⟨expiresAt, hlookups, hentries⟩ :=
            takeUp_cases options s n lookup outcome settledAt now
          refine .inr (.inr ⟨n, lookup, ⟨lookup.hash, .takenUp outcome settledAt now, expiresAt⟩,
            hlookup, ⟨rfl, by simp, ?_⟩, hlookups, hentries⟩)
          rw [hphase]
          exact fun _ ↦ id
      · cases hresume

/-- A lookup keeps its hash and, once it has one, its outcome. -/
def Keeps (s t : TxStatusCache) : Prop :=
  ∀ (n : ℕ) (lookup : Lookup), s.lookups[n]? = some lookup → ∃ later, t.lookups[n]? = some later ∧
    later.hash = lookup.hash ∧ ∀ settlement, lookup.phase.settlement? = some settlement →
      later.phase.settlement? = some settlement

theorem keeps_step {a : TxStatusCacheAction} (hstep : s.step options a = some t) : s.Keeps t := by
  intro i old hold
  rcases step_cases hstep with rfl | ⟨hash, now, -, rfl⟩ |
    ⟨n, lookup, changed, hlookup, hmoves, ht, -⟩
  · exact ⟨old, hold, rfl, fun _ ↦ id⟩
  · exact ⟨old, getElem?_concat_iff.mpr (.inl hold), rfl, fun _ ↦ id⟩
  · rw [ht]
    by_cases hi : i = n
    · subst hi
      obtain rfl := Option.some.inj (hold.symm.trans hlookup)
      exact ⟨changed, (getElem?_set_iff hlookup).mpr (.inl ⟨rfl, rfl⟩), hmoves.hash,
        hmoves.settlement⟩
    · exact ⟨old, (getElem?_set_iff hlookup).mpr (.inr ⟨hi, hold⟩), rfl, fun _ ↦ id⟩

theorem keeps_path {as : List TxStatusCacheAction}
    (hpath : (txStatusCacheSystem options).Path s as t) : s.Keeps t := by
  induction as generalizing s with
  | nil =>
      obtain rfl := hpath
      exact fun _ lookup hlookup ↦ ⟨lookup, hlookup, rfl, fun _ ↦ id⟩
  | cons a as ih =>
      obtain ⟨m, hstep, hrest⟩ := hpath
      intro n lookup hlookup
      obtain ⟨next, hnext, hhash, hkept⟩ := keeps_step hstep n lookup hlookup
      obtain ⟨last, hlast, hhash', hkept'⟩ := ih hrest n next hnext
      exact ⟨last, hlast, hhash'.trans hhash, fun outcome ho ↦ hkept' outcome (hkept outcome ho)⟩

theorem Invariant.servable (h : s.Invariant options) {hash : String} {now : ℤ}
    {s' : TxStatusCache} (hget : s.get options hash now = (n, s')) :
    ∃ lookup, s'.lookups[n]? = some lookup ∧ lookup.hash = hash ∧
      lookup.phase.Servable options.ttlMs now := by
  rcases get_cases options s hash now with ⟨cached, hcached, hfresh, hs⟩ | ⟨-, hs⟩
  · obtain ⟨rfl, rfl⟩ := Prod.mk.inj (hs.symm.trans hget)
    obtain ⟨lookup, hlookup, hhash, hserved⟩ := h.entry (InsertionMap.mem_of_get? hcached)
    refine ⟨lookup, hlookup, hhash, ?_⟩
    cases hphase : lookup.phase with
    | inFlight => trivial
    | settled outcome settledAt => trivial
    | takenUp outcome settledAt takenUpAt =>
        have hknown := hserved outcome settledAt takenUpAt hphase
        refine ⟨hknown, ?_⟩
        have hexpiry := h.expiry hlookup
        unfold fresh at hfresh
        rw [hlookup, Option.bind_some, hexpiry, hphase] at hfresh
        cases outcome with
        | none => exact absurd (fun _ hr ↦ by cases hr) hknown
        | some result =>
            have hstatus : result.status ≠ .unknown := fun hunknown ↦
              hknown fun _ hr ↦ Option.some.inj hr ▸ hunknown
            rw [LookupPhase.expiry, if_neg hstatus] at hfresh
            exact of_decide_eq_true hfresh
  · obtain ⟨rfl, rfl⟩ := Prod.mk.inj (hs.symm.trans hget)
    exact ⟨_, getElem?_concat_iff.mpr (.inr ⟨rfl, rfl⟩), rfl, trivial⟩

theorem Invariant.not_served (h : s.Invariant options) (hlookup : s.lookups[n]? = some lookup)
    {outcome : Option TxStatusResult} {settledAt takenUpAt : ℤ}
    (hphase : lookup.phase = .takenUp outcome settledAt takenUpAt) (hfailed : Failed outcome)
    {hash : String} {now : ℤ} (hn : (s.get options hash now).1 = n) : False := by
  rcases get_cases options s hash now with ⟨cached, -, -, hget⟩ | ⟨-, hget⟩
  · obtain rfl : cached = n := (congrArg Prod.fst hget).symm.trans hn
    obtain ⟨served, hserved, -, hservable⟩ := h.servable hget
    obtain rfl := Option.some.inj (hserved.symm.trans hlookup)
    rw [hphase] at hservable
    exact hservable.1 hfailed
  · obtain rfl : s.lookups.length = n := (congrArg Prod.fst hget).symm.trans hn
    exact absurd (List.getElem?_eq_some_iff.mp hlookup).1 (lt_irrefl _)

/-- At some point of a run the map was full of entries of later lookups. -/
def Displaced (options : TxStatusCacheOptions) (as : List TxStatusCacheAction)
    (s : TxStatusCache) (n : ℕ) : Prop :=
  ∃ bs cs u, as = bs ++ cs ∧ (txStatusCacheSystem options).Run bs u ∧
    (txStatusCacheSystem options).Path u cs s ∧ u.FullOfNewer options n

theorem Displaced.extend {as bs : List TxStatusCacheAction} (h : Displaced options as s n)
    (hpath : (txStatusCacheSystem options).Path s bs t) : Displaced options (as ++ bs) t n := by
  obtain ⟨front, back, u, rfl, hrun, hrest, hfull⟩ := h
  exact ⟨front, back ++ bs, u, List.append_assoc _ _ _, hrun, hrest.trans hpath, hfull⟩

/-- The entry of a lookup in flight leaves the map only for later ones. -/
theorem Invariant.remembered_step (h : s.Invariant options) {a : TxStatusCacheAction}
    (hstep : s.step options a = some t) (hlookup : t.lookups[n]? = some lookup)
    (hphase : lookup.phase = .inFlight) :
    s.lookups[n]? = some lookup ∧ (lookup.hash, n) ∉ s.entries ∨
      (lookup.hash, n) ∈ t.entries ∨ t.FullOfNewer options n := by
  rcases step_cases hstep with rfl | ⟨hash, now, hstale, rfl⟩ |
    ⟨m, moved, changed, hmoved, hmoves, ht, hentries⟩
  · by_cases hmem : (lookup.hash, n) ∈ t.entries
    · exact .inr (.inl hmem)
    · exact .inl ⟨hlookup, hmem⟩
  · rcases getElem?_concat_iff.mp hlookup with hold | ⟨rfl, rfl⟩
    · by_cases hmem : (lookup.hash, n) ∈ s.entries
      · refine .inr (h.kept_or_dropped (mem_entries_startLookup.mpr (.inl ⟨hmem, ?_⟩)))
        -- in flight its entry is fresh, so its hash would not have been looked up
        rintro rfl
        have hfalse := hstale n (InsertionMap.get?_of_mem h.nodup hmem)
        rw [h.fresh_of_inFlight hold hphase now] at hfalse
        cases hfalse
      · exact .inl ⟨hold, hmem⟩
    · exact .inr (h.kept_or_dropped (mem_entries_startLookup.mpr (.inr rfl)))
  · rw [ht] at hlookup
    rcases (getElem?_set_iff hmoved).mp hlookup with ⟨-, rfl⟩ | ⟨hne, hold⟩
    · exact absurd hphase hmoves.phase
    · by_cases hmem : (lookup.hash, n) ∈ s.entries
      · refine .inr (.inl ?_)
        rcases hentries with hsame | ⟨hget, herased⟩
        · rwa [hsame]
        · rw [herased]
          refine List.mem_filter.mpr ⟨hmem, decide_eq_true fun hkey ↦ hne ?_⟩
          have hother := InsertionMap.get?_of_mem h.nodup hmem
          dsimp only at hkey hother
          rw [hkey, hget] at hother
          exact (Option.some.inj hother).symm
      · exact .inl ⟨hold, hmem⟩

theorem remembered {as : List TxStatusCacheAction} (h : (txStatusCacheSystem options).Run as s) :
    ∀ n lookup, s.lookups[n]? = some lookup → lookup.phase = .inFlight →
      (lookup.hash, n) ∈ s.entries ∨ Displaced options as s n := by
  refine TransitionSystem.Run.invariant (fun as s ↦ ∀ n lookup, s.lookups[n]? = some lookup →
    lookup.phase = .inFlight → (lookup.hash, n) ∈ s.entries ∨ Displaced options as s n) ?_ ?_ h
  · rintro _ rfl n lookup hlookup
    cases hlookup
  · intro as s a t hrun ih hstep n lookup hlookup hphase
    have hlast : (txStatusCacheSystem options).Path s [a] t :=
      TransitionSystem.path_singleton.mpr hstep
    rcases (invariant hrun).remembered_step hstep hlookup hphase with ⟨hold, hgone⟩ | hmem | hfull
    · exact .inr (((ih n lookup hold hphase).resolve_left hgone).extend hlast)
    · exact .inl hmem
    · exact .inr ⟨as ++ [a], [], t, (List.append_nil _).symm, hrun.step hstep, rfl, hfull⟩

/-- Entries are of before the step, or of a lookup that starts in it. -/
theorem mem_entries_of_step {a : TxStatusCacheAction} (hstep : s.step options a = some t)
    {entry : String × ℕ} (hentry : entry ∈ t.entries) :
    entry ∈ s.entries ∨ entry.2 = s.lookups.length := by
  rcases step_cases hstep with rfl | ⟨hash, now, -, rfl⟩ | ⟨n, lookup, changed, -, -, -, hentries⟩
  · exact .inl hentry
  · have hmem := (dropOldest_sublist options.maxEntries _).subset hentry
    exact (mem_entries_startLookup.mp hmem).imp And.left (congrArg Prod.snd)
  · rcases hentries with hsame | ⟨-, herased⟩
    · exact .inl (hsame ▸ hentry)
    · rw [herased] at hentry
      exact .inl (InsertionMap.mem_of_mem_erase hentry)

/-- What was dropped does not come back. -/
theorem Displaced.notMem {as : List TxStatusCacheAction} (h : Displaced options as s n) :
    ∀ entry ∈ s.entries, entry.2 ≠ n := by
  obtain ⟨-, cs, u, -, -, hpath, hstarted, -, hnewer⟩ := h
  have hlater := hpath.preserves
    (fun u ↦ n < u.lookups.length ∧ ∀ entry ∈ u.entries, entry.2 ≠ n) ?_
    ⟨hstarted, fun entry hentry ↦ (hnewer entry hentry).ne'⟩
  · exact hlater.2
  · rintro u a v ⟨hlt, hgone⟩ hstep
    obtain ⟨later, hlater, -⟩ := keeps_step hstep n _ (List.getElem?_eq_getElem hlt)
    refine ⟨(List.getElem?_eq_some_iff.mp hlater).1, fun entry hentry ↦ ?_⟩
    rcases mem_entries_of_step hstep hentry with hold | hnew
    · exact hgone entry hold
    · omega

/-- A lookup in flight is shared exactly if its entry was not dropped. -/
theorem shared_iff {as : List TxStatusCacheAction} (h : (txStatusCacheSystem options).Run as s)
    (hlookup : s.lookups[n]? = some lookup) (hphase : lookup.phase = .inFlight) :
    (∀ now, s.get options lookup.hash now = (n, s)) ↔ ¬Displaced options as s n := by
  have hs := invariant h
  constructor
  · intro hshared hdisplaced
    have hn := congrArg Prod.fst (hshared 0)
    rcases get_cases options s lookup.hash 0 with ⟨cached, hcached, -, hget⟩ | ⟨-, hget⟩
    · rw [hget] at hn
      exact hdisplaced.notMem _ (InsertionMap.mem_of_get? hcached) hn
    · rw [hget] at hn
      have hlt := (List.getElem?_eq_some_iff.mp hlookup).1
      exact absurd hn hlt.ne'
  · intro hnot now
    have hmem := (remembered h n lookup hlookup hphase).resolve_right hnot
    unfold get
    rw [InsertionMap.get?_of_mem hs.nodup hmem]
    exact if_pos (hs.fresh_of_inFlight hlookup hphase now)

/-- Every answer has not settled yet, or within the time to live. -/
def ServesRecent (options : TxStatusCacheOptions) (s : TxStatusCache) : Prop :=
  ∀ hash now n s', s.get options hash now = (n, s') → ∀ lookup outcome settledAt,
    s'.lookups[n]? = some lookup → lookup.phase.settlement? = some (outcome, settledAt) →
      now ≤ settledAt + options.ttlMs

/-- No call is given a lookup that has failed before it. -/
def HidesFailures (options : TxStatusCacheOptions) (s : TxStatusCache) : Prop :=
  ∀ n lookup outcome settledAt, s.lookups[n]? = some lookup →
    lookup.phase.settlement? = some (outcome, settledAt) → Failed outcome →
      ∀ hash now, (s.get options hash now).1 ≠ n

/-- Every further call shares a lookup in flight. -/
def SharesInFlight (options : TxStatusCacheOptions) (s : TxStatusCache) : Prop :=
  ∀ n lookup, s.lookups[n]? = some lookup → lookup.phase = .inFlight →
    ∀ now, s.get options lookup.hash now = (n, s)

end TxStatusCache

/-- The cache stays within its size.  A call gets the result of a lookup for its hash that
is in flight, or settled so recently that nobody has taken it up, or was taken up with a
known status within the time to live.  A lookup in flight is shared unless the map has
once been full of entries of later lookups. -/
theorem tx_status_cache_serves (options : TxStatusCacheOptions) {as : List TxStatusCacheAction}
    {s : TxStatusCache} (h : (txStatusCacheSystem options).Run as s) :
    s.entries.length ≤ options.maxEntries ∧
    (∀ hash now n s', s.get options hash now = (n, s') → ∃ lookup, s'.lookups[n]? = some lookup ∧
      lookup.hash = hash ∧ lookup.phase.Servable options.ttlMs now) ∧
    (∀ n lookup outcome settledAt takenUpAt, s.lookups[n]? = some lookup →
      lookup.phase = .takenUp outcome settledAt takenUpAt → Failed outcome →
      ∀ hash now, (s.get options hash now).1 ≠ n) ∧
    (∀ n lookup, s.lookups[n]? = some lookup → lookup.phase = .inFlight →
      ((∀ now, s.get options lookup.hash now = (n, s)) ↔
        ¬TxStatusCache.Displaced options as s n)) ∧
    (∀ bs t, (txStatusCacheSystem options).Path s bs t → s.Keeps t) := by
  have hs := TxStatusCache.invariant h
  refine ⟨hs.length_le, fun _ _ _ _ ↦ hs.servable, ?_, ?_, fun _ _ ↦ TxStatusCache.keeps_path⟩
  · intro n lookup outcome settledAt takenUpAt hlookup hphase hfailed hash now hn
    exact hs.not_served hlookup hphase hfailed hn
  · exact fun n lookup ↦ TxStatusCache.shared_iff h

namespace Walkthrough

/-- Room for one hash. -/
def smallCache : TxStatusCacheOptions := ⟨5000, 1⟩

def secondHash : TxStatusCache where
  entries := [("b", 1)]
  lookups := [⟨"a", .inFlight, none⟩, ⟨"b", .inFlight, none⟩]

/-- A lookup for one hash that settled just now. -/
def justSettled (outcome : Option TxStatusResult) : TxStatusCache where
  entries := [("a", 0)]
  lookups := [⟨"a", .settled outcome 1, none⟩]

/-- A second hash takes the place of the first, whose next call starts a second lookup.  And
until the call that started a lookup has gone on, the outcome is in the map: a failure, or
a status from longer ago than the time to live. -/
theorem lookup_dropped_and_failure_served :
    ((txStatusCacheSystem smallCache).Run [.get "a" 0, .get "b" 1] secondHash ∧
      ¬secondHash.SharesInFlight smallCache) ∧
    ((txStatusCacheSystem smallCache).Run [.get "a" 0, .settle 0 (some ⟨.unknown, none⟩) 1]
        (justSettled (some ⟨.unknown, none⟩)) ∧
      ¬(justSettled (some ⟨.unknown, none⟩)).HidesFailures smallCache) ∧
    ((txStatusCacheSystem smallCache).Run [.get "a" 0, .settle 0 (some ⟨.pending, none⟩) 1]
        (justSettled (some ⟨.pending, none⟩)) ∧
      ¬(justSettled (some ⟨.pending, none⟩)).ServesRecent smallCache) := by
  have hrun (outcome : Option TxStatusResult) :
      (txStatusCacheSystem smallCache).Run [.get "a" 0, .settle 0 outcome 1]
        (justSettled outcome) := ⟨_, rfl, TransitionSystem.path_ofFunction.mpr rfl⟩
  refine ⟨⟨⟨_, rfl, TransitionSystem.path_ofFunction.mpr rfl⟩, ?_⟩, ⟨hrun _, ?_⟩, hrun _, ?_⟩
  · intro hshares
    have hsame := congrArg Prod.fst (hshares 0 _ rfl rfl 2)
    exact absurd hsame (by decide)
  · intro hhides
    exact hhides 0 _ (some ⟨.unknown, none⟩) 1 rfl rfl (fun _ hr ↦ Option.some.inj hr ▸ rfl)
      "a" 2 rfl
  · intro hrecent
    exact absurd (hrecent "a" 6000 0 _ rfl _ _ _ rfl rfl) (by decide)

/-- The lookup for `"b"` fails and makes room for `"c"`. -/
def freedPlace : TxStatusCache where
  entries := [("a", 0), ("c", 2)]
  lookups :=
    [⟨"a", .inFlight, none⟩, ⟨"b", .takenUp (some ⟨.unknown, none⟩) 2 3, none⟩,
      ⟨"c", .inFlight, none⟩]

/-- With room for two, the third hash takes the place of the one that failed, and every
further call for the first shares its lookup. -/
theorem lookup_shared :
    (txStatusCacheSystem ⟨5000, 2⟩).Run
      [.get "a" 0, .get "b" 1, .settle 1 (some ⟨.unknown, none⟩) 2, .takeUp 1 3, .get "c" 4]
      freedPlace ∧
    ∀ now, (TxStatusCache.get ⟨5000, 2⟩ freedPlace "a" now).1 = 0 := by
  have hrun : (txStatusCacheSystem ⟨5000, 2⟩).Run
      [.get "a" 0, .get "b" 1, .settle 1 (some ⟨.unknown, none⟩) 2, .takeUp 1 3, .get "c" 4]
      freedPlace := ⟨_, rfl, TransitionSystem.path_ofFunction.mpr rfl⟩
  obtain ⟨-, -, -, hshared, -⟩ := tx_status_cache_serves ⟨5000, 2⟩ hrun
  refine ⟨hrun, fun now ↦ congrArg Prod.fst ((hshared 0 _ rfl rfl).mpr (fun hdisplaced ↦ ?_) now)⟩
  exact hdisplaced.notMem ("a", 0) (List.mem_cons_self) rfl

end Walkthrough

end MinaGuard
