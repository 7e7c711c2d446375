import MinaGuard.Contract.Effects
import MinaGuard.Contract.HonestProver
import MinaGuard.Vault.History

/-!
# Ballots that succeed

As long as its owners can sign, a guard can bring any valid proposal to a full
vote: an owner who has not voted proposes or approves, one after the other.
Votes change two roots of the guard and nothing else, so the ballot stays open
until everybody has voted.
-/

namespace MinaGuard

open Foundations

variable {E : Env} {T : Transcript E} {guards : Set PublicKey}

/-- The key can sign every message. -/
def Env.CanSign (E : Env) (k : PublicKey) : Prop :=
  ∀ message, ∃ signature, E.verify signature k message = true

/-- The transcript has room for a ballot of `owners` on `p`: it lists what their
votes hash, and the maps and witnesses that the votes and an execution lead to. -/
structure Transcript.Covers (T : Transcript E) (p : TransactionProposal)
    (owners : List PublicKey) : Prop where
  hashed : E.proposalInput p ∈ T.hashed
  nullifiers : ∀ k ∈ owners, Env.voteNullifierInput (E.proposalHash p) k ∈ T.hashed
  votes : ∀ map ∈ T.maps, ∀ k ∈ owners,
    Function.update map (E.voteNullifierKey (E.proposalHash p) k) 1 ∈ T.maps
  counts : ∀ map ∈ T.maps, ∀ n ≤ maxOwners,
    Function.update map (E.proposalHash p) (proposedMarker + (n : Fp)) ∈ T.maps
  executed : ∀ map ∈ T.maps, Function.update map (E.proposalHash p) executedMarker ∈ T.maps
  opens : ∀ map ∈ T.maps, ∀ κ,
    (κ = E.proposalHash p ∨ ∃ k ∈ owners, κ = E.voteNullifierKey (E.proposalHash p) k) →
      ∃ w ∈ T.witnesses,
        E.merkleMap.computeRootAndKey w (map κ) = (E.merkleMap.getRoot map, κ)

namespace Vault

variable {v : Vault} {this : PublicKey} {p : TransactionProposal} {k : PublicKey}

theorem Invariant.nullifierMap_of_fresh (h : v.Invariant T this)
    (hp : E.proposalInput p ∈ T.hashed)
    (hk : Env.voteNullifierInput (E.proposalHash p) k ∈ T.hashed) (hfresh : (p, k) ∉ v.votes) :
    v.nullifierMap E (E.voteNullifierKey (E.proposalHash p) k) = 0 := by
  apply if_neg
  rintro ⟨⟨q, k'⟩, hq, hkey⟩
  obtain ⟨hhash, rfl⟩ := T.voteNullifierKey_inj (h.votes _ hq).nullifier hk hkey
  exact hfresh (h.voted_eq hp hq hhash)

theorem approvalMap_of_pending (hpending : E.proposalHash p ∉ v.executed.map E.proposalHash) :
    v.approvalMap E (E.proposalHash p) =
      if v.voters E (E.proposalHash p) = [] then 0
      else proposedMarker + ((v.voters E (E.proposalHash p)).length : Fp) :=
  if_neg hpending

/-- Whoever has not voted leaves room for one more vote. -/
theorem Invariant.voters_lt (h : v.Invariant T this) (hp : E.proposalInput p ∈ T.hashed)
    (hcurrent : p.configNonce = (v.configNonce : Fp)) (hk : k ∈ v.owners)
    (hfresh : (p, k) ∉ v.votes) :
    (v.voters E (E.proposalHash p)).length < v.owners.length := by
  have hnew : k ∉ v.voters E (E.proposalHash p) := by
    intro hmem
    obtain ⟨q, hq, heq⟩ := mem_voters.mp hmem
    exact hfresh (h.voted_eq hp hq heq)
  have hnodup := List.nodup_cons.mpr ⟨hnew, h.voters_nodup (E.proposalHash p)⟩
  have hsub : k :: v.voters E (E.proposalHash p) ⊆ v.owners :=
    List.cons_subset.mpr ⟨hk, fun _ hvoter ↦ h.voters_owners hp hcurrent hvoter⟩
  exact (hnodup.subperm hsub).length_le

/-- When all owners have voted, the guard approves. -/
theorem Invariant.approvedBy (h : v.Invariant T this) (hcovers : T.Covers p v.owners)
    (hguard : p.guardAddress = this) (hcurrent : p.configNonce = (v.configNonce : Fp))
    (hpending : E.proposalHash p ∉ v.executed.map E.proposalHash)
    (hall : ∀ k ∈ v.owners, (p, k) ∈ v.votes) :
    ∃ w ∈ T.witnesses, ∃ count, ApprovedBy E p this (v.encode E) w count := by
  have hsub : v.owners ⊆ v.voters E (E.proposalHash p) :=
    fun k hk ↦ mem_voters.mpr ⟨p, hall k hk, rfl⟩
  have hfew := h.voters_le (E.proposalHash p)
  have hlen : v.owners.length ≤ (v.voters E (E.proposalHash p)).length :=
    (h.governed.coherent.nodup.subperm hsub).length_le
  have hpos := h.governed.threshold_pos
  have henough := h.governed.threshold_le
  have hvoters : v.voters E (E.proposalHash p) ≠ [] := by
    intro hnil
    rw [hnil, List.length_nil] at hlen
    omega
  obtain ⟨w, hw, hopens⟩ := hcovers.opens _ h.approvals_mem _ (Or.inl rfl)
  rw [approvalMap_of_pending hpending, if_neg hvoters] at hopens
  have hval := val_proposedMarker_add hfew
  have hthreshold := val_proposedMarker_add (henough.trans h.governed.length_le)
  have hlt := small_lt_fieldOrder hfew
  refine ⟨w, hw, proposedMarker + ((v.voters E (E.proposalHash p)).length : Fp), ?_⟩
  exact
    { initialized := T.computeOwnerChain_ne_zero h.chained
      configNonce := hcurrent
      guard := hguard
      root := by rw [hopens]; rfl
      key := by rw [hopens]
      notExecuted := by
        rw [proposedMarker_add]
        exact (executedMarker_ne_natCast (by omega)).symm
      proposed := by
        rw [hval, val_proposedMarker]
        omega
      threshold := by
        change ((v.threshold : Fp) + proposedMarker).val ≤ _
        rw [add_comm, hthreshold, hval]
        omega }

end Vault

/-- `p` can be voted on at the guard `g`, whose vault is `v`. -/
structure Ballot (E : Env) (L : Ledger) (g : PublicKey) (v : Vault)
    (p : TransactionProposal) : Prop where
  rules : ProposalRules E p
  threshold : p.txType = TxType.changeThreshold → p.data.val ≤ v.owners.length
  guard : p.guardAddress = g
  current : p.configNonce = (v.configNonce : Fp)
  enabled : v.parent = PublicKey.empty ∨ v.enabled = true
  root : p.destination = destinationRemote → v.parent = PublicKey.empty
  pending : E.proposalHash p ∉ v.executed.map E.proposalHash
  fresh : FreshNonce p g (L.state g).nonce (L.state (nonceAuthority p g))
  unexpired : p.expirySlot = 0
  slot_lt : L.slot < 2 ^ 32

section Vote

variable {as : List (Action E)} {L L' : Ledger} {g : PublicKey} {v : Vault}
  {p : TransactionProposal} {k : PublicKey}

theorem Ballot.inTime (h : Ballot E L g v p) :
    L.slot ≤ lastSlot p ∧ p.expirySlot.val < 2 ^ 32 := by
  have hlt := h.slot_lt
  rw [lastSlot, h.unexpired, if_pos rfl]
  exact ⟨by omega, by decide⟩

theorem Ballot.destination (h : Ballot E L g v p) : DestinationRules p v.parent := by
  rcases h.rules.target with ⟨-, hlocal, hchild⟩ | ⟨-, hremote, hchild⟩
  · exact Or.inl ⟨hlocal, hchild⟩
  · exact Or.inr ⟨hremote, hchild, h.root hremote⟩

/-- The checks of a vote hold, with witnesses for the committed maps. -/
theorem Ballot.voteChecks (h : Ballot E L g v p) (hstate : L.state g = v.encode E)
    (hv : v.Invariant T g) (hcovers : T.Covers p v.owners) (hk : k ∈ v.owners)
    (hfresh : (p, k) ∉ v.votes) :
    ∃ vw ∈ T.witnesses, ∃ aw ∈ T.witnesses,
      VoteChecks E g (L.state g) (L.state (nonceAuthority p g)) L.slot p k
        (ownerWitness v.owners) vw aw (v.approvalMap E (E.proposalHash p)) := by
  obtain ⟨vw, hvw, hvote⟩ := hcovers.opens _ hv.nullifiers_mem _ (Or.inr ⟨k, hk, rfl⟩)
  obtain ⟨aw, haw, happroval⟩ := hcovers.opens _ hv.approvals_mem _ (Or.inl rfl)
  rw [hv.nullifierMap_of_fresh hcovers.hashed (hcovers.nullifiers k hk) hfresh] at hvote
  have hpresent := presentKeys_ownerWitness hv.governed.length_le
  refine ⟨vw, hvw, aw, haw, ?_⟩
  exact
    { enabled := by
        rw [hstate]
        exact h.enabled.imp_right Vault.toField_eq_one.mpr
      initialized := by
        rw [hstate]
        exact T.computeOwnerChain_ne_zero hv.chained
      member := by rwa [hpresent]
      owners := by
        rw [hpresent, hstate]
        rfl
      configNonce := by
        rw [hstate]
        exact h.current
      guard := h.guard
      destination := by
        rw [hstate]
        exact h.destination
      inTime := h.inTime.1
      fresh := h.fresh
      voteRoot := by
        rw [hvote, hstate]
        rfl
      voteKey := by rw [hvote]
      root := by
        rw [happroval, hstate]
        rfl
      key := by rw [happroval] }

/-- A vote is recorded in a transcript that covers the ballot. -/
theorem recorded_vote {m : MethodCall E} {vw aw : E.MerkleMapWitness} {n : ℕ} {count : Fp}
    (hv : v.Invariant T g) (hcovers : T.Covers p v.owners) (hk : k ∈ v.owners)
    (hvw : vw ∈ T.witnesses) (haw : aw ∈ T.witnesses) (hn : n ≤ maxOwners)
    (hinputs : m.hashInputs = E.proposalInput p ::
      Env.voteNullifierInput (E.proposalHash p) k :: ownerChainInputs E v.owners)
    (hwitnesses : m.witnesses = [vw, aw])
    (hwrites : m.mapWrites = [⟨vw, 0, 1⟩, ⟨aw, count, proposedMarker + (n : Fp)⟩])
    (hvote : (E.merkleMap.computeRootAndKey vw 0).2 = E.voteNullifierKey (E.proposalHash p) k)
    (hkey : (E.merkleMap.computeRootAndKey aw count).2 = E.proposalHash p) :
    m.Recorded T := by
  refine ⟨?_, ?_, ?_⟩
  · rw [hinputs]
    exact List.forall_mem_cons.mpr ⟨hcovers.hashed,
      List.forall_mem_cons.mpr ⟨hcovers.nullifiers k hk, hv.chained⟩⟩
  · rw [hwitnesses]
    exact List.forall_mem_cons.mpr ⟨hvw, List.forall_mem_singleton.mpr haw⟩
  · rw [hwrites]
    refine List.forall_mem_cons.mpr ⟨?_, List.forall_mem_singleton.mpr ?_⟩
    · intro map hmap _
      rw [hvote]
      exact hcovers.votes map hmap k hk
    · intro map hmap _
      rw [hkey]
      exact hcovers.counts map hmap n hn

/-- The call with which `k` votes: the first vote proposes. -/
theorem Ballot.exists_call (h : Ballot E L g v p) (hstate : L.state g = v.encode E)
    (hv : v.Invariant T g) (hcovers : T.Covers p v.owners) (hk : k ∈ v.owners)
    (hfresh : (p, k) ∉ v.votes) (hsign : E.CanSign k) :
    ∃ m : MethodCall E, m.vote? = some (p, k) ∧ m.Signs E (E.proposalHash p) k ∧
      m.Recorded T ∧ m.Succeeds L g := by
  obtain ⟨vw, hvw, aw, haw, hchecks⟩ := h.voteChecks hstate hv hcovers hk hfresh
  have hpresent := presentKeys_ownerWitness hv.governed.length_le
  have hfew := hv.voters_le (E.proposalHash p)
  rw [Vault.approvalMap_of_pending h.pending] at hchecks
  by_cases hvoters : v.voters E (E.proposalHash p) = []
  · rw [if_pos hvoters] at hchecks
    obtain ⟨signature, hsig⟩ :=
      hsign [E.proposalSigningMessage (E.proposalHash p) .propose]
    have hthreshold : p.txType = TxType.changeThreshold →
        p.data.val ≤ (L.state g).numOwners.val := by
      intro htype
      rw [hstate]
      exact (h.threshold htype).trans hv.val_numOwners.ge
    refine ⟨.propose p (ownerWitness v.owners) k signature vw aw, rfl, ⟨rfl, rfl, hsig⟩, ?_,
      propose_succeeds hchecks h.rules hthreshold h.inTime.2 hsig⟩
    apply recorded_vote (n := 1) hv hcovers hk hvw haw (by decide) _ rfl _ hchecks.voteKey
      hchecks.key
    · rw [MethodCall.hashInputs, hpresent]
    · simp [MethodCall.mapWrites]
  · rw [if_neg hvoters] at hchecks
    obtain ⟨signature, hsig⟩ :=
      hsign [E.proposalSigningMessage (E.proposalHash p) .approve]
    have hroom := hv.voters_lt hcovers.hashed h.current hk hfresh
    have hlt := small_lt_fieldOrder hfew
    refine ⟨.approveProposal p signature k (ownerWitness v.owners) aw
      (proposedMarker + ((v.voters E (E.proposalHash p)).length : Fp)) vw, rfl,
      ⟨rfl, rfl, hsig⟩, ?_,
      approveProposal_succeeds hchecks ?_ ?_ h.inTime.2 hsig⟩
    · apply recorded_vote (n := (v.voters E (E.proposalHash p)).length + 1) hv hcovers hk hvw
        haw (hroom.trans_le hv.governed.length_le) _ rfl _ hchecks.voteKey hchecks.key
      · rw [MethodCall.hashInputs, hpresent]
      · simp only [MethodCall.mapWrites, Nat.cast_add, Nat.cast_one, add_assoc]
    · rw [proposedMarker_add]
      exact (executedMarker_ne_natCast (by omega)).symm
    · rw [val_proposedMarker_add hfew, val_proposedMarker]
      omega

/-- Only the two roots of the guard change, so the ballot stays open. -/
theorem Ballot.vote (h : Ballot E L g v p) {m : MethodCall E} {F : Forest}
    (hstate : L.state g = v.encode E) (hstate' : L'.state g = (v.vote p k).encode E)
    (hcall : CallStep T guards L g m F L') : Ballot E L' g (v.vote p k) p := by
  have hfields : ∀ x ∈ nonceAuthorityFields (L.state (nonceAuthority p g)),
      x.Holds (L'.state (nonceAuthority p g)) := by
    have hread {s s' : GuardState} (howners : s.ownersCommitment = s'.ownersCommitment)
        (hparent : s.parent = s'.parent) (hnonce : s.parentNonce = s'.parentNonce) :
        ∀ x ∈ nonceAuthorityFields s, x.Holds s' := by
      simp [nonceAuthorityFields, StateValue.Holds, howners, hparent, hnonce]
    by_cases ha : nonceAuthority p g = g
    · rw [ha, hstate, hstate']
      exact hread rfl rfl rfl
    · rw [hcall.state_other ha]
      exact hread rfl rfl rfl
  exact
    { h with
      fresh := by
        rw [hstate']
        have hfresh := h.fresh.congr hfields
        rw [hstate] at hfresh
        exact hfresh
      slot_lt := hcall.included.slot_eq ▸ h.slot_lt }

/-- A vote moves no money. -/
theorem balance_of_vote {m : MethodCall E} {F : Forest}
    (step : LedgerStep T guards L (.call g m F) L') (hm : m.vote? = some (p, k))
    (b : PublicKey) : (L'.account b).balance = (L.account b).balance := by
  cases step with
  | @call _ P _ _ _ _ proved included =>
      have heffects := MethodCall.effects proved (Forest.included_of_apply included)
      have hpays : m.payments P.address (L.state P.address) P.balance = [] := by
        cases m with
        | propose => rfl
        | approveProposal => rfl
        | _ => cases hm
      have hdebit := heffects.debit
      have hcredited := heffects.credited b
      rw [hpays] at hdebit hcredited
      have hdebit : F.self.debit = 0 := hdebit
      have hcredited : F.credited b = 0 := hcredited
      have hsettled := Forest.settled_of_apply included
      by_cases hb : b = F.self.publicKey
      · subst hb
        have hself := hsettled.self
        omega
      · rw [hsettled.other b hb, hcredited, add_zero]

/-- What a ballot leaves: the same vault with more votes, all other accounts and all
balances as they were. -/
structure Polled (E : Env) (L L' : Ledger) (g : PublicKey) (v w : Vault) : Prop where
  vault : w = { v with votes := w.votes }
  votes : v.votes ⊆ w.votes
  other : ∀ b, b ≠ g → L'.state b = L.state b
  balance : ∀ b, (L'.account b).balance = (L.account b).balance

theorem Ballot.exists_vote (h : Ballot E L g v p) (run : (ledgerSystem T guards).Run as L)
    (hg : g ∈ guards) (hreplay : replay g as = .active v) (hcovers : T.Covers p v.owners)
    (hk : k ∈ v.owners) (hfresh : (p, k) ∉ v.votes) (hsign : E.CanSign k) :
    ∃ m F L', m.vote? = some (p, k) ∧ m.Signs E (E.proposalHash p) k ∧
      LedgerStep T guards L (.call g m F) L' ∧
      replay g (as ++ [.call g m F]) = .active (v.vote p k) ∧
      Ballot E L' g (v.vote p k) p ∧ Polled E L L' g v (v.vote p k) := by
  obtain ⟨hstate, hv⟩ := Run.invariant run hg hreplay
  obtain ⟨m, hm, hsigned, hrecorded, F, L', hprove, happly⟩ :=
    h.exists_call hstate hv hcovers hk hfresh hsign
  have step : LedgerStep T guards L (.call g m F) L' :=
    @LedgerStep.call _ _ _ _ _ (L.prover g) m F hg hrecorded hprove happly
  have hvote : v.next m = v.vote p k := by
    cases m with
    | propose =>
        cases hm
        rfl
    | approveProposal =>
        cases hm
        rfl
    | _ => cases hm
  obtain ⟨hnext, hstate'⟩ := Run.state_call run step hreplay
  rw [hvote] at hnext hstate'
  refine ⟨m, F, L', hm, hsigned, step, hnext, h.vote hstate hstate' step.call_inv, ?_⟩
  exact
    { vault := rfl
      votes := List.subset_append_left _ _
      other := fun b hb ↦ step.call_inv.state_other hb
      balance := balance_of_vote step hm }

end Vote

section Poll

variable {as : List (Action E)} {L : Ledger} {g : PublicKey} {v : Vault}
  {p : TransactionProposal}

/-- Votes on `p`, each signed by a key of `owners`. -/
def VotesOn (g : PublicKey) (p : TransactionProposal) (owners : List PublicKey)
    (bs : List (Action E)) : Prop :=
  ∀ act ∈ bs, ∃ m F, act = .call g m F ∧
    ∃ k ∈ owners, m.vote? = some (p, k) ∧ m.Signs E (E.proposalHash p) k

/-- Whoever of `keys` has not voted yet votes, one after the other. -/
theorem Ballot.exists_poll (keys : List PublicKey) (hkeys : keys ⊆ v.owners)
    (h : Ballot E L g v p) (run : (ledgerSystem T guards).Run as L) (hg : g ∈ guards)
    (hreplay : replay g as = .active v) (hcovers : T.Covers p v.owners)
    (hsign : ∀ k ∈ v.owners, E.CanSign k) :
    ∃ bs L' w, (ledgerSystem T guards).Path L bs L' ∧ VotesOn g p v.owners bs ∧
      replay g (as ++ bs) = .active w ∧ Ballot E L' g w p ∧ Polled E L L' g v w ∧
      ∀ k ∈ keys, (p, k) ∈ w.votes := by
  induction keys generalizing as L v with
  | nil =>
      refine ⟨[], L, v, rfl, fun act hact ↦ absurd hact List.not_mem_nil, ?_, h, ?_,
        fun k hk ↦ absurd hk List.not_mem_nil⟩
      · rw [List.append_nil]
        exact hreplay
      · exact ⟨rfl, fun _ hx ↦ hx, fun _ _ ↦ rfl, fun _ ↦ rfl⟩
  | cons k keys ih =>
      obtain ⟨hk, hrest⟩ := List.cons_subset.mp hkeys
      by_cases hvoted : (p, k) ∈ v.votes
      · obtain ⟨bs, L', w, path, hvotes, hw, hballot, hpolled, hall⟩ :=
          ih hrest h run hreplay hcovers hsign
        exact ⟨bs, L', w, path, hvotes, hw, hballot, hpolled,
          List.forall_mem_cons.mpr ⟨hpolled.votes hvoted, hall⟩⟩
      · obtain ⟨m, F, L₁, hm, hsigned, step, hnext, hopen, hone⟩ :=
          h.exists_vote run hg hreplay hcovers hk hvoted (hsign k hk)
        obtain ⟨bs, L', w, path, hvotes, hw, hballot, hpolled, hall⟩ :=
          ih (v := v.vote p k) hrest hopen (run.step (S := ledgerSystem T guards) step) hnext
            hcovers hsign
        refine ⟨.call g m F :: bs, L', w, ⟨L₁, step, path⟩, ?_, ?_, hballot, ?_, ?_⟩
        · exact List.forall_mem_cons.mpr ⟨⟨m, F, rfl, k, hk, hm, hsigned⟩, hvotes⟩
        · rwa [← List.append_cons as] at hw
        · exact
            { vault := hpolled.vault
              votes := fun x hx ↦ hpolled.votes (hone.votes hx)
              other := fun b hb ↦ (hpolled.other b hb).trans (hone.other b hb)
              balance := fun b ↦ (hpolled.balance b).trans (hone.balance b) }
        · refine List.forall_mem_cons.mpr ⟨hpolled.votes ?_, hall⟩
          exact List.mem_append_right _ (List.mem_singleton_self _)

end Poll

end MinaGuard
