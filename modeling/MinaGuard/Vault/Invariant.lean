import MinaGuard.Contract.MethodSpec
import MinaGuard.Vault.Commitments
import Mathlib.Data.Fintype.List
import Mathlib.Data.ZMod.Basic

/-!
# The invariant of an active vault

Every vote on record belongs to a proposal that passed the rules of `propose`,
and as long as the configuration it was cast in is the current one, the voter
is a current owner.  This is what a leaf of the approval map stands for when an
execution only reads a count.

Counters do not wrap.  Distinct executed proposals have distinct nonzero hashes,
so there are fewer of them than field elements, and every other counter is
bounded by their number.
-/

namespace MinaGuard

open Foundations

variable {E : Env} {T : Transcript E}

namespace Transcript

theorem proposalHash_inj {p q : TransactionProposal}
    (hp : E.proposalInput p ∈ T.hashed) (hq : E.proposalInput q ∈ T.hashed)
    (h : E.proposalHash p = E.proposalHash q) : p = q :=
  Env.proposalInput_injective (T.hash_injOn hp hq h)

theorem proposalHash_ne_zero {p : TransactionProposal}
    (hp : E.proposalInput p ∈ T.hashed) : E.proposalHash p ≠ 0 :=
  T.hash_ne_zero _ hp

theorem voteNullifierKey_inj {h h' : Fp} {k k' : PublicKey}
    (hk : Env.voteNullifierInput h k ∈ T.hashed)
    (hk' : Env.voteNullifierInput h' k' ∈ T.hashed)
    (heq : E.voteNullifierKey h k = E.voteNullifierKey h' k') : h = h' ∧ k = k' :=
  Env.voteNullifierInput_injective (T.hash_injOn hk hk' heq)

/-- The links of an owner chain, as pairs, have their inputs in the transcript. -/
def Links (T : Transcript E) : Set (Fp × PublicKey) :=
  {q | Env.ownerLinkInput q.1 q.2 ∈ T.hashed}

theorem links_of_chainInputs {owners : List PublicKey}
    (h : ∀ q ∈ ownerChainInputs E owners, q ∈ T.hashed) :
    ∀ q ∈ Chain.inputs E.ownerChainLink E.initialOwnerChain owners, q ∈ T.Links :=
  fun _ hq ↦ h _ (List.mem_map_of_mem hq)

/-- The commitment determines the owner list. -/
theorem computeOwnerChain_inj {owners owners' : List PublicKey}
    (h : ∀ q ∈ ownerChainInputs E owners, q ∈ T.hashed)
    (h' : ∀ q ∈ ownerChainInputs E owners', q ∈ T.hashed)
    (heq : computeOwnerChain E owners = computeOwnerChain E owners') :
    owners = owners' := by
  refine Chain.digest_inj (S := T.Links) ?_ ?_ (links_of_chainInputs h)
    (links_of_chainInputs h') heq
  · intro q hq q' hq' hlink
    obtain ⟨hd, hk⟩ := Env.ownerLinkInput_injective (T.hash_injOn hq hq' hlink)
    exact Prod.ext hd hk
  · intro q hq hseed
    have hinput := T.hash_injOn hq T.initialOwnerChain_mem hseed
    simp [Env.ownerLinkInput] at hinput

theorem computeOwnerChain_ne_zero {owners : List PublicKey}
    (h : ∀ q ∈ ownerChainInputs E owners, q ∈ T.hashed) :
    computeOwnerChain E owners ≠ 0 := by
  by_cases hnil : owners = []
  · subst hnil
    exact T.hash_ne_zero _ T.initialOwnerChain_mem
  · obtain ⟨q, hq, hval⟩ :=
      Chain.digest_mem_image E.ownerChainLink E.initialOwnerChain hnil
    rw [computeOwnerChain, hval]
    exact T.hash_ne_zero _ (links_of_chainInputs h q hq)

end Transcript

/-- Governance that can neither lock the vault nor lose track of its owners. -/
structure Governed (E : Env) (owners : List PublicKey) (threshold : ℕ) : Prop where
  coherent : OwnersCoherent E owners
  threshold_pos : 0 < threshold
  threshold_le : threshold ≤ owners.length
  length_le : owners.length ≤ maxOwners

namespace Vault

/-- The vote of `k` on `p` counts at a guard `this` with the given parent, owners
and configuration number. -/
structure OnRecord (T : Transcript E) (this parent : PublicKey) (owners : List PublicKey)
    (configNonce : ℕ) (p : TransactionProposal) (k : PublicKey) : Prop where
  hashed : E.proposalInput p ∈ T.hashed
  nullifier : Env.voteNullifierInput (E.proposalHash p) k ∈ T.hashed
  rules : ProposalRules E p
  guard : p.guardAddress = this
  root : p.destination = destinationRemote → parent = PublicKey.empty
  epoch : p.configNonce.val ≤ configNonce
  owner : p.configNonce.val = configNonce → k ∈ owners

/-- `p` may have been executed on the child `this` for its parent. -/
structure ForChild (T : Transcript E) (this parent : PublicKey)
    (p : TransactionProposal) : Prop where
  hashed : E.proposalInput p ∈ T.hashed
  remote : p.destination = destinationRemote
  lifecycle : p.txType ≠ TxType.createChild
  child : p.childAccount = this
  guard : p.guardAddress = parent

structure Invariant (T : Transcript E) (this : PublicKey) (v : Vault) : Prop where
  governed : Governed E v.owners v.threshold
  chained : ∀ q ∈ ownerChainInputs E v.owners, q ∈ T.hashed
  parent_ne : v.parent ≠ PublicKey.empty → v.parent ≠ this
  votes : ∀ x ∈ v.votes, OnRecord T this v.parent v.owners v.configNonce x.1 x.2
  votes_nodup : v.votes.Nodup
  voters_le : ∀ h, (v.voters E h).length ≤ maxOwners
  executed_local : ∀ p ∈ v.executed, p.destination = destinationLocal
  executed_voted : ∀ p ∈ v.executed, ∃ k, (p, k) ∈ v.votes
  executed_nonce : ∀ i (hi : i < v.executed.length),
    v.executed[i].nonce = ((i + 1 : ℕ) : Fp)
  executed_nodup : v.executed.Nodup
  childExecuted : ∀ p ∈ v.childExecuted, ForChild T this v.parent p
  childExecuted_nodup : v.childExecuted.Nodup
  configNonce_le : v.configNonce ≤ v.executed.length + v.childExecuted.length
  approvals_mem : v.approvalMap E ∈ T.maps
  nullifiers_mem : v.nullifierMap E ∈ T.maps
  childExecutions_mem : v.childExecutionMap E ∈ T.maps

/-- A duplicate-free list of nonzero field elements is shorter than the order. -/
theorem length_lt_fieldOrder {l : List Fp} (hnodup : l.Nodup) (hne : ∀ x ∈ l, x ≠ 0) :
    l.length < fieldOrder := by
  have hcons : (0 :: l).Nodup :=
    List.nodup_cons.mpr ⟨fun hmem ↦ hne 0 hmem rfl, hnodup⟩
  have hcard := hcons.length_le_card
  rw [ZMod.card, List.length_cons] at hcard
  omega

namespace Invariant

variable {this : PublicKey} {v : Vault}

theorem executed_hashed (h : v.Invariant T this) {p : TransactionProposal}
    (hp : p ∈ v.executed) : E.proposalInput p ∈ T.hashed := by
  obtain ⟨k, hk⟩ := h.executed_voted p hp
  exact (h.votes _ hk).hashed

/-- No hash is executed twice, here or for the parent. -/
theorem executedHashes_nodup (h : v.Invariant T this) :
    ((v.executed ++ v.childExecuted).map E.proposalHash).Nodup := by
  have hhashed : ∀ p ∈ v.executed ++ v.childExecuted, E.proposalInput p ∈ T.hashed := by
    intro p hp
    rcases List.mem_append.mp hp with hp | hp
    · exact h.executed_hashed hp
    · exact (h.childExecuted p hp).hashed
  have hnodup : (v.executed ++ v.childExecuted).Nodup := by
    apply List.Nodup.append h.executed_nodup h.childExecuted_nodup
    intro p hp hp'
    have hlocal := h.executed_local p hp
    have hremote := (h.childExecuted p hp').remote
    exact destinationLocal_ne_remote (hlocal.symm.trans hremote)
  exact List.Nodup.map_on
    (fun p hp q hq heq ↦ T.proposalHash_inj (hhashed p hp) (hhashed q hq) heq) hnodup

theorem executions_lt (h : v.Invariant T this) :
    v.executed.length + v.childExecuted.length < fieldOrder := by
  have hlt := length_lt_fieldOrder h.executedHashes_nodup ?_
  · simpa using hlt
  · intro x hx
    obtain ⟨p, hp, rfl⟩ := List.mem_map.mp hx
    rcases List.mem_append.mp hp with hp | hp
    · exact T.proposalHash_ne_zero (h.executed_hashed hp)
    · exact T.proposalHash_ne_zero (h.childExecuted p hp).hashed

theorem val_configNonce (h : v.Invariant T this) :
    (v.configNonce : Fp).val = v.configNonce :=
  val_natCast_of_lt (h.configNonce_le.trans_lt h.executions_lt)

theorem val_nonce (h : v.Invariant T this) :
    (v.executed.length : Fp).val = v.executed.length :=
  val_natCast_of_lt ((Nat.le_add_right _ _).trans_lt h.executions_lt)

theorem val_parentNonce (h : v.Invariant T this) :
    (v.childExecuted.length : Fp).val = v.childExecuted.length :=
  val_natCast_of_lt ((Nat.le_add_left _ _).trans_lt h.executions_lt)

theorem val_threshold (h : v.Invariant T this) :
    (v.threshold : Fp).val = v.threshold := by
  have hlt := small_lt_fieldOrder (h.governed.threshold_le.trans h.governed.length_le)
  exact val_natCast_of_lt (by omega)

theorem val_numOwners (h : v.Invariant T this) :
    (v.owners.length : Fp).val = v.owners.length := by
  have hlt := small_lt_fieldOrder h.governed.length_le
  exact val_natCast_of_lt (by omega)

theorem voted_eq (h : v.Invariant T this) {p q : TransactionProposal} {k : PublicKey}
    (hp : E.proposalInput p ∈ T.hashed) (hq : (q, k) ∈ v.votes)
    (heq : E.proposalHash q = E.proposalHash p) : (p, k) ∈ v.votes := by
  obtain rfl := T.proposalHash_inj (h.votes _ hq).hashed hp heq
  exact hq

end Invariant

/-- Distinct votes on one hash are by distinct keys. -/
theorem voters_nodup {v : Vault} (hhashed : ∀ x ∈ v.votes, E.proposalInput x.1 ∈ T.hashed)
    (hnodup : v.votes.Nodup) (h : Fp) : (v.voters E h).Nodup := by
  unfold voters
  apply List.pairwise_filterMap.mpr
  apply hnodup.imp_of_mem
  rintro ⟨p, k⟩ ⟨q, k'⟩ hp hq hne a ha b hb heq
  by_cases hph : E.proposalHash p = h
  · by_cases hqh : E.proposalHash q = h
    · obtain rfl : k = a := by simpa [hph] using ha
      obtain rfl : k' = b := by simpa [hqh] using hb
      have hpq := T.proposalHash_inj (hhashed _ hp) (hhashed _ hq) (hph.trans hqh.symm)
      exact hne (Prod.ext hpq heq)
    · simp [hqh] at hb
  · simp [hph] at ha

namespace Invariant

variable {this : PublicKey} {v : Vault}

theorem voters_nodup (h : v.Invariant T this) (hash : Fp) : (v.voters E hash).Nodup :=
  Vault.voters_nodup (fun x hx ↦ (h.votes x hx).hashed) h.votes_nodup hash

/-- Whoever voted on a proposal of the current configuration is an owner. -/
theorem voters_owners (h : v.Invariant T this) {p : TransactionProposal}
    (hp : E.proposalInput p ∈ T.hashed) (hcurrent : p.configNonce = (v.configNonce : Fp))
    {k : PublicKey} (hk : k ∈ v.voters E (E.proposalHash p)) : k ∈ v.owners := by
  obtain ⟨q, hq, heq⟩ := mem_voters.mp hk
  have hvote := h.votes _ (h.voted_eq hp hq heq)
  apply hvote.owner
  rw [hcurrent, h.val_configNonce]

end Invariant

/-! ## Every event keeps the invariant -/

namespace Invariant

variable {this : PublicKey} {v : Vault} {p : TransactionProposal}

theorem fresh {parent : PublicKey} {owners : List PublicKey} {threshold : ℕ}
    (hgoverned : Governed E owners threshold)
    (hchained : ∀ q ∈ ownerChainInputs E owners, q ∈ T.hashed)
    (hparent : parent ≠ PublicKey.empty → parent ≠ this) :
    (Vault.fresh parent owners threshold).Invariant T this where
  governed := hgoverned
  chained := hchained
  parent_ne := hparent
  votes := fun x hx ↦ absurd hx List.not_mem_nil
  votes_nodup := List.nodup_nil
  voters_le := fun _ ↦ Nat.zero_le _
  executed_local := fun p hp ↦ absurd hp List.not_mem_nil
  executed_voted := fun p hp ↦ absurd hp List.not_mem_nil
  executed_nonce := fun i hi ↦ absurd hi (Nat.not_lt_zero i)
  executed_nodup := List.nodup_nil
  childExecuted := fun p hp ↦ absurd hp List.not_mem_nil
  childExecuted_nodup := List.nodup_nil
  configNonce_le := le_rfl
  approvals_mem := T.emptyMap_mem
  nullifiers_mem := by
    have hempty : (Vault.fresh parent owners threshold).nullifierMap E = fun _ ↦ 0 := by
      funext κ
      simp [nullifierMap, Vault.fresh]
    rw [hempty]
    exact T.emptyMap_mem
  childExecutions_mem := T.emptyMap_mem

/-- The voters on one hash share a configuration, and so they all fit among
the owners it had. -/
theorem vote {k : PublicKey} (h : v.Invariant T this)
    (hrecord : OnRecord T this v.parent v.owners v.configNonce p k)
    (hcurrent : p.configNonce = (v.configNonce : Fp)) (hnew : (p, k) ∉ v.votes)
    (happrovals : (v.vote p k).approvalMap E ∈ T.maps)
    (hnullifiers : (v.vote p k).nullifierMap E ∈ T.maps) :
    (v.vote p k).Invariant T this := by
  have hvotes : ∀ x ∈ (v.vote p k).votes,
      OnRecord T this v.parent v.owners v.configNonce x.1 x.2 := by
    intro x hx
    rcases List.mem_append.mp hx with hx | hx
    · exact h.votes x hx
    · rw [List.mem_singleton.mp hx]
      exact hrecord
  have hnodup : (v.vote p k).votes.Nodup := by
    apply List.Nodup.append h.votes_nodup (List.nodup_singleton _)
    intro x hx hx'
    rw [List.mem_singleton.mp hx'] at hx
    exact hnew hx
  have hvoters : ∀ hash, ((v.vote p k).voters E hash).length ≤ maxOwners := by
    intro hash
    by_cases hp : E.proposalHash p = hash
    · subst hp
      have hsub : (v.vote p k).voters E (E.proposalHash p) ⊆ v.owners := by
        intro k' hk'
        rw [voters_vote_self, List.mem_append, List.mem_singleton] at hk'
        rcases hk' with hk' | rfl
        · exact h.voters_owners hrecord.hashed hcurrent hk'
        · apply hrecord.owner
          rw [hcurrent, h.val_configNonce]
      have hdistinct := Vault.voters_nodup (fun x hx ↦ (hvotes x hx).hashed) hnodup
        (E.proposalHash p)
      exact (hdistinct.subperm hsub).length_le.trans h.governed.length_le
    · rw [voters_vote_of_ne hp]
      exact h.voters_le hash
  exact
    { governed := h.governed
      chained := h.chained
      parent_ne := h.parent_ne
      votes := hvotes
      votes_nodup := hnodup
      voters_le := hvoters
      executed_local := h.executed_local
      executed_voted := fun q hq ↦
        (h.executed_voted q hq).imp fun _ hk ↦ List.mem_append_left _ hk
      executed_nonce := h.executed_nonce
      executed_nodup := h.executed_nodup
      childExecuted := h.childExecuted
      childExecuted_nodup := h.childExecuted_nodup
      configNonce_le := h.configNonce_le
      approvals_mem := happrovals
      nullifiers_mem := hnullifiers
      childExecutions_mem := h.childExecutions_mem }

theorem execute (h : v.Invariant T this) (hlocal : p.destination = destinationLocal)
    (hvoted : ∃ k, (p, k) ∈ v.votes)
    (hnonce : p.nonce = ((v.executed.length + 1 : ℕ) : Fp)) (hnew : p ∉ v.executed)
    (happrovals : (v.execute p).approvalMap E ∈ T.maps) :
    (v.execute p).Invariant T this := by
  have hlen : (v.execute p).executed.length = v.executed.length + 1 := by
    simp [Vault.execute]
  refine
    { governed := h.governed
      chained := h.chained
      parent_ne := h.parent_ne
      votes := h.votes
      votes_nodup := h.votes_nodup
      voters_le := h.voters_le
      executed_local := ?_
      executed_voted := ?_
      executed_nonce := ?_
      executed_nodup := ?_
      childExecuted := h.childExecuted
      childExecuted_nodup := h.childExecuted_nodup
      configNonce_le := ?_
      approvals_mem := happrovals
      nullifiers_mem := h.nullifiers_mem
      childExecutions_mem := h.childExecutions_mem }
  · intro q hq
    rcases List.mem_append.mp hq with hq | hq
    · exact h.executed_local q hq
    · rw [List.mem_singleton.mp hq]
      exact hlocal
  · intro q hq
    rcases List.mem_append.mp hq with hq | hq
    · exact h.executed_voted q hq
    · rw [List.mem_singleton.mp hq]
      exact hvoted
  · intro i hi
    rcases Nat.lt_or_ge i v.executed.length with hold | hlast
    · have hget : (v.execute p).executed[i] = v.executed[i] :=
        List.getElem_append_left hold
      rw [hget]
      exact h.executed_nonce i hold
    · obtain rfl : i = v.executed.length := by omega
      have hget : (v.execute p).executed[v.executed.length] = p := by
        simp [Vault.execute]
      rw [hget]
      exact hnonce
  · apply List.Nodup.append h.executed_nodup (List.nodup_singleton _)
    intro q hq hq'
    rw [List.mem_singleton.mp hq'] at hq
    exact hnew hq
  · have hle := h.configNonce_le
    change v.configNonce ≤ (v.execute p).executed.length + v.childExecuted.length
    omega

/-- New governance expires every vote on record. -/
theorem govern {owners : List PublicKey} {threshold : ℕ} (h : v.Invariant T this)
    (hlt : v.configNonce < v.executed.length + v.childExecuted.length)
    (hgoverned : Governed E owners threshold)
    (hchained : ∀ q ∈ ownerChainInputs E owners, q ∈ T.hashed) :
    (v.govern owners threshold).Invariant T this := by
  refine
    { governed := hgoverned
      chained := hchained
      parent_ne := h.parent_ne
      votes := ?_
      votes_nodup := h.votes_nodup
      voters_le := h.voters_le
      executed_local := h.executed_local
      executed_voted := h.executed_voted
      executed_nonce := h.executed_nonce
      executed_nodup := h.executed_nodup
      childExecuted := h.childExecuted
      childExecuted_nodup := h.childExecuted_nodup
      configNonce_le := hlt
      approvals_mem := h.approvals_mem
      nullifiers_mem := h.nullifiers_mem
      childExecutions_mem := h.childExecutions_mem }
  intro x hx
  have hvote := h.votes x hx
  have hepoch := hvote.epoch
  exact { hvote with
    epoch := hepoch.trans (Nat.le_succ _)
    owner := fun heq ↦ absurd (heq ▸ hepoch) (Nat.not_succ_le_self _) }

theorem executeChild (h : v.Invariant T this) (hchild : ForChild T this v.parent p)
    (hnew : p ∉ v.childExecuted)
    (hmap : (v.executeChild p).childExecutionMap E ∈ T.maps) :
    (v.executeChild p).Invariant T this := by
  have hlen : (v.executeChild p).childExecuted.length = v.childExecuted.length + 1 := by
    simp [Vault.executeChild]
  refine
    { governed := h.governed
      chained := h.chained
      parent_ne := h.parent_ne
      votes := h.votes
      votes_nodup := h.votes_nodup
      voters_le := h.voters_le
      executed_local := h.executed_local
      executed_voted := h.executed_voted
      executed_nonce := h.executed_nonce
      executed_nodup := h.executed_nodup
      childExecuted := ?_
      childExecuted_nodup := ?_
      configNonce_le := ?_
      approvals_mem := h.approvals_mem
      nullifiers_mem := h.nullifiers_mem
      childExecutions_mem := hmap }
  · intro q hq
    rcases List.mem_append.mp hq with hq | hq
    · exact h.childExecuted q hq
    · rw [List.mem_singleton.mp hq]
      exact hchild
  · apply List.Nodup.append h.childExecuted_nodup (List.nodup_singleton _)
    intro q hq hq'
    rw [List.mem_singleton.mp hq'] at hq
    exact hnew hq
  · have hle := h.configNonce_le
    change v.configNonce ≤ v.executed.length + (v.executeChild p).childExecuted.length
    omega

theorem enable (h : v.Invariant T this) : (v.setEnabled true).Invariant T this :=
  { h with }

/-- Disabling opens a configuration with the same governance. -/
theorem disable (h : v.Invariant T this)
    (hlt : v.configNonce < v.executed.length + v.childExecuted.length) :
    (v.setEnabled false).Invariant T this :=
  { h.govern hlt h.governed h.chained with }

end Invariant

end Vault

end MinaGuard
