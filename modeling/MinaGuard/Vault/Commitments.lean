import MinaGuard.Vault.State

/-!
# The state a vault is committed to

Each phase determines the app state of the account: the owner list as a chain,
the logs as Merkle maps and counters.  Recording one event rewrites exactly one
leaf of exactly one map, which is the form in which the circuits update roots.

A leaf of the approval map shows the number of voters as long as that number
is small; the second half reads votes off such a leaf.
-/

namespace MinaGuard

open Foundations

namespace Vault

variable (E : Env) (v : Vault)

/-- The keys that voted on a proposal hash, in the order of their votes. -/
def voters (h : Fp) : List PublicKey :=
  v.votes.filterMap fun x ↦ if E.proposalHash x.1 = h then some x.2 else none

def approvalMap (h : Fp) : Fp :=
  if h ∈ v.executed.map E.proposalHash then executedMarker
  else if v.voters E h = [] then 0
  else proposedMarker + ((v.voters E h).length : Fp)

def nullifierMap (κ : Fp) : Fp :=
  if ∃ x ∈ v.votes, E.voteNullifierKey (E.proposalHash x.1) x.2 = κ then 1 else 0

def childExecutionMap (h : Fp) : Fp :=
  if h ∈ v.childExecuted.map E.proposalHash then executedMarker else 0

def encode : GuardState where
  ownersCommitment := computeOwnerChain E v.owners
  threshold := v.threshold
  numOwners := v.owners.length
  nonce := v.executed.length
  voteNullifierRoot := E.merkleMap.getRoot (v.nullifierMap E)
  approvalRoot := E.merkleMap.getRoot (v.approvalMap E)
  configNonce := v.configNonce
  parent := v.parent
  parentNonce := v.childExecuted.length
  childExecutionRoot := E.merkleMap.getRoot (v.childExecutionMap E)
  childMultiSigEnabled := toField v.enabled
  reservedConfigHash := 0

end Vault

/-- The app state of an account in a phase. -/
def Phase.encode (E : Env) : Phase → GuardState
  | .vacant => GuardState.zero
  | .reserved parent configHash =>
      { GuardState.zero with parent := parent, reservedConfigHash := configHash }
  | .active v => v.encode E

namespace Vault

variable {E : Env} {v : Vault} {p : TransactionProposal} {k : PublicKey}

theorem mem_voters {h : Fp} :
    k ∈ v.voters E h ↔ ∃ p, (p, k) ∈ v.votes ∧ E.proposalHash p = h := by
  unfold voters
  rw [List.mem_filterMap]
  constructor
  · rintro ⟨⟨p, k'⟩, hmem, hsome⟩
    by_cases hp : E.proposalHash p = h
    · obtain rfl : k' = k := by simpa [hp] using hsome
      exact ⟨p, hmem, hp⟩
    · simp [hp] at hsome
  · rintro ⟨p, hmem, hp⟩
    exact ⟨(p, k), hmem, by simp [hp]⟩

theorem voters_vote (h : Fp) :
    (v.vote p k).voters E h =
      v.voters E h ++ if E.proposalHash p = h then [k] else [] := by
  unfold voters vote
  rw [List.filterMap_append]
  by_cases hp : E.proposalHash p = h <;> simp [hp]

theorem voters_vote_self :
    (v.vote p k).voters E (E.proposalHash p) = v.voters E (E.proposalHash p) ++ [k] := by
  rw [voters_vote, if_pos rfl]

theorem voters_vote_of_ne {h : Fp} (hne : E.proposalHash p ≠ h) :
    (v.vote p k).voters E h = v.voters E h := by
  rw [voters_vote, if_neg hne, List.append_nil]

theorem nullifierMap_vote :
    (v.vote p k).nullifierMap E =
      Function.update (v.nullifierMap E) (E.voteNullifierKey (E.proposalHash p) k) 1 := by
  funext κ
  unfold nullifierMap vote
  by_cases hκ : κ = E.voteNullifierKey (E.proposalHash p) k
  · subst hκ
    rw [Function.update_self, if_pos]
    exact ⟨(p, k), List.mem_append_right _ (List.mem_singleton_self _), rfl⟩
  · rw [Function.update_of_ne hκ]
    simp only [List.mem_append, List.mem_singleton, or_and_right, exists_or,
      exists_eq_left, Ne.symm hκ, or_false]

theorem approvalMap_vote (hfresh : E.proposalHash p ∉ v.executed.map E.proposalHash) :
    (v.vote p k).approvalMap E =
      Function.update (v.approvalMap E) (E.proposalHash p)
        (proposedMarker + ((v.voters E (E.proposalHash p)).length + 1 : ℕ)) := by
  funext h
  unfold approvalMap
  by_cases hh : h = E.proposalHash p
  · subst hh
    have hvoted : v.voters E (E.proposalHash p) ++ [k] ≠ [] := by simp
    change (if E.proposalHash p ∈ v.executed.map E.proposalHash then _ else _) = _
    rw [Function.update_self, voters_vote_self, List.length_append,
      List.length_singleton, if_neg hfresh, if_neg hvoted]
  · rw [Function.update_of_ne hh, voters_vote_of_ne (Ne.symm hh)]
    rfl

theorem approvalMap_execute :
    (v.execute p).approvalMap E =
      Function.update (v.approvalMap E) (E.proposalHash p) executedMarker := by
  funext h
  unfold approvalMap execute
  by_cases hh : h = E.proposalHash p
  · subst hh
    rw [Function.update_self, if_pos (by simp)]
  · rw [Function.update_of_ne hh]
    have hmem : h ∈ (v.executed ++ [p]).map E.proposalHash ↔
        h ∈ v.executed.map E.proposalHash := by
      rw [List.map_append, List.mem_append, List.map_singleton, List.mem_singleton]
      exact or_iff_left hh
    simp only [hmem]
    rfl

theorem childExecutionMap_executeChild :
    (v.executeChild p).childExecutionMap E =
      Function.update (v.childExecutionMap E) (E.proposalHash p) executedMarker := by
  funext h
  unfold childExecutionMap executeChild
  by_cases hh : h = E.proposalHash p
  · subst hh
    rw [Function.update_self, if_pos (by simp)]
  · rw [Function.update_of_ne hh]
    have hmem : h ∈ (v.childExecuted ++ [p]).map E.proposalHash ↔
        h ∈ v.childExecuted.map E.proposalHash := by
      rw [List.map_append, List.mem_append, List.map_singleton, List.mem_singleton]
      exact or_iff_left hh
    simp only [hmem]

end Vault

/-! The corresponding writes to the app state. -/

section Encode

variable {E : Env} {v : Vault} {p : TransactionProposal} {k : PublicKey} {root voteRoot : Fp}

theorem Vault.encode_vote
    (hvotes : voteRoot = E.merkleMap.getRoot ((v.vote p k).nullifierMap E))
    (hroot : root = E.merkleMap.getRoot ((v.vote p k).approvalMap E)) :
    { v.encode E with voteNullifierRoot := voteRoot, approvalRoot := root } =
      (v.vote p k).encode E := by
  rw [hvotes, hroot]
  rfl

theorem Vault.encode_execute
    (hroot : root = E.merkleMap.getRoot ((v.execute p).approvalMap E)) :
    { v.encode E with nonce := (v.encode E).nonce + 1, approvalRoot := root } =
      (v.execute p).encode E := by
  have hnonce : (((v.executed ++ [p]).length : ℕ) : Fp) = (v.executed.length : Fp) + 1 := by
    simp
  rw [hroot]
  unfold encode
  simp only [execute, hnonce]
  rfl

theorem Vault.encode_executeChild
    (hroot : root = E.merkleMap.getRoot ((v.executeChild p).childExecutionMap E)) :
    { v.encode E with
      parentNonce := (v.encode E).parentNonce + 1, childExecutionRoot := root } =
      (v.executeChild p).encode E := by
  have hnonce :
      (((v.childExecuted ++ [p]).length : ℕ) : Fp) = (v.childExecuted.length : Fp) + 1 := by
    simp
  rw [hroot]
  unfold encode
  simp only [executeChild, hnonce]
  rfl

theorem Vault.encode_govern (owners : List PublicKey) (threshold : ℕ) :
    { v.encode E with
      ownersCommitment := computeOwnerChain E owners
      threshold := threshold
      numOwners := owners.length
      configNonce := (v.encode E).configNonce + 1 } =
      (v.govern owners threshold).encode E := by
  have hnonce : ((v.configNonce + 1 : ℕ) : Fp) = (v.configNonce : Fp) + 1 := by
    simp
  unfold encode
  simp only [govern, hnonce]
  rfl

theorem Vault.encode_disable :
    { v.encode E with
      configNonce := (v.encode E).configNonce + 1, childMultiSigEnabled := 0 } =
      (v.setEnabled false).encode E := by
  have hnonce : ((v.configNonce + 1 : ℕ) : Fp) = (v.configNonce : Fp) + 1 := by
    simp
  unfold encode
  simp only [setEnabled, Bool.false_eq_true, if_false, hnonce]
  rfl

theorem Vault.encode_enable :
    { v.encode E with childMultiSigEnabled := 1 } = (v.setEnabled true).encode E := rfl

end Encode

theorem executedMarker_ne_natCast {n : ℕ} (hn : n + 1 < fieldOrder) :
    executedMarker ≠ (n : Fp) := by
  intro h
  have hzero : ((n + 1 : ℕ) : Fp) = 0 := by
    rw [Nat.cast_add, ← h]
    simp [executedMarker]
  exact natCast_ne_zero (Nat.succ_pos n) hn hzero

theorem executedMarker_ne_zero : executedMarker ≠ 0 := by
  simpa using executedMarker_ne_natCast (n := 0) (by decide)

theorem proposedMarker_add (n : ℕ) : proposedMarker + (n : Fp) = ((n + 1 : ℕ) : Fp) := by
  rw [Nat.cast_add, Nat.cast_one, add_comm]
  rfl

theorem small_lt_fieldOrder {n : ℕ} (hn : n ≤ maxOwners) : n + 3 < fieldOrder := by
  have hmax : maxOwners + 3 < fieldOrder := by decide
  omega

/-- The value of a leaf that counts `n` voters. -/
theorem val_proposedMarker_add {n : ℕ} (hn : n ≤ maxOwners) :
    (proposedMarker + (n : Fp)).val = n + 1 := by
  have hlt := small_lt_fieldOrder hn
  rw [proposedMarker_add, val_natCast_of_lt (by omega)]

theorem val_proposedMarker : proposedMarker.val = 1 := val_one

namespace Vault

variable {E : Env} {v : Vault} {h count : Fp}

theorem nullifierMap_eq_zero {κ : Fp} (hzero : v.nullifierMap E κ = 0)
    {p : TransactionProposal} {k : PublicKey}
    (hκ : E.voteNullifierKey (E.proposalHash p) k = κ) : (p, k) ∉ v.votes := by
  intro hmem
  unfold nullifierMap at hzero
  rw [if_pos ⟨(p, k), hmem, hκ⟩] at hzero
  exact one_ne_zero hzero

theorem childExecutionMap_eq_zero (hzero : v.childExecutionMap E h = 0) :
    h ∉ v.childExecuted.map E.proposalHash := by
  intro hmem
  unfold childExecutionMap at hzero
  rw [if_pos hmem] at hzero
  exact executedMarker_ne_zero hzero

theorem approvalMap_eq_executedMarker (hfew : (v.voters E h).length ≤ maxOwners) :
    v.approvalMap E h = executedMarker ↔ h ∈ v.executed.map E.proposalHash := by
  have hlt := small_lt_fieldOrder hfew
  unfold approvalMap
  split
  · exact iff_of_true rfl ‹_›
  · split
    · exact iff_of_false executedMarker_ne_zero.symm ‹_›
    · rw [proposedMarker_add]
      exact iff_of_false (executedMarker_ne_natCast (by omega)).symm ‹_›

/-- An empty leaf: nobody voted, and nothing was executed. -/
theorem approvalMap_eq_zero (hfew : (v.voters E h).length ≤ maxOwners)
    (hzero : v.approvalMap E h = 0) :
    h ∉ v.executed.map E.proposalHash ∧ v.voters E h = [] := by
  have hlt := small_lt_fieldOrder hfew
  unfold approvalMap at hzero
  split at hzero
  · exact absurd hzero executedMarker_ne_zero
  · split at hzero
    · exact ⟨‹_›, ‹_›⟩
    · rw [proposedMarker_add] at hzero
      exact absurd hzero (natCast_ne_zero (Nat.succ_pos _) (by omega))

/-- A pending leaf shows how many keys voted, and somebody did. -/
theorem approvalMap_eq_count (hleaf : v.approvalMap E h = count)
    (hexecuted : count ≠ executedMarker) (hproposed : proposedMarker.val ≤ count.val) :
    h ∉ v.executed.map E.proposalHash ∧ v.voters E h ≠ [] ∧
      count = proposedMarker + ((v.voters E h).length : Fp) := by
  unfold approvalMap at hleaf
  split at hleaf
  · exact absurd hleaf.symm hexecuted
  · split at hleaf
    · rw [← hleaf, val_zero, val_proposedMarker] at hproposed
      omega
    · exact ⟨‹_›, ‹_›, hleaf.symm⟩

/-- A count that passes the threshold check shows enough voters. -/
theorem threshold_le_voters (hfew : (v.voters E h).length ≤ maxOwners)
    {threshold : ℕ} (hthreshold : threshold ≤ maxOwners)
    (hcount : count = proposedMarker + ((v.voters E h).length : Fp))
    (henough : ((threshold : Fp) + proposedMarker).val ≤ count.val) :
    threshold ≤ (v.voters E h).length := by
  rw [hcount, add_comm, val_proposedMarker_add hthreshold,
    val_proposedMarker_add hfew] at henough
  omega

end Vault

end MinaGuard
