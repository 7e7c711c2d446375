import MinaGuard.Properties.Creation
import MinaGuard.Properties.Funds
import MinaGuard.Vault.Ballots

/-!
# Nobody is locked out

Whatever happened before, the next nonce of a guard is free, and a proposal
with it has not been executed.  So the owners of a guard can always bring a
governance change to a vote and execute it, and the owners of a parent can
always take money back from a child.
-/

namespace MinaGuard

open Foundations

variable {E : Env} {T : Transcript E} {guards : Set PublicKey}
  {as : List (Action E)} {L L' : Ledger} {g c : PublicKey} {v : Vault}
  {p : TransactionProposal}

/-- A counter that has passed a value does not come back to its successor. -/
theorem next_ne_of_le {x y : Fp} (hpos : 0 < y.val) (hle : y.val ≤ x.val) : x + 1 ≠ y := by
  intro heq
  have hpred : x = ((y.val - 1 : ℕ) : Fp) := by
    rw [Nat.cast_sub hpos, ZMod.natCast_zmod_val, ← heq, Nat.cast_one, add_sub_cancel_right]
  have hval := val_natCast_le (y.val - 1)
  rw [← hpred] at hval
  omega

theorem not_executed_of_next (run : (ledgerSystem T guards).Run as L) (hg : g ∈ guards)
    (hnonce : p.nonce = (L.state g).nonce + 1) : p ∉ localExecutions g as := by
  intro hmem
  obtain ⟨m, hm, hexec⟩ := List.mem_filterMap.mp hmem
  obtain ⟨F, hact⟩ := mem_callsOn.mp hm
  obtain ⟨_, _, s, s', -, run₀, step, path⟩ := run.exists_step hact
  obtain ⟨heq, hval⟩ := (LedgerStep.call_inv step).local_nonce (Run.refines run₀ hg) hexec
  have hle := (Run.counters_le (run₀.step step) hg path).2.1
  exact next_ne_of_le (by omega) hle (hnonce.symm.trans heq)

theorem not_childExecuted_of_next (run : (ledgerSystem T guards).Run as L) (hg : g ∈ guards)
    (hnonce : p.nonce = (L.state g).parentNonce + 1) : p ∉ childExecutions g as := by
  intro hmem
  obtain ⟨m, hm, hexec⟩ := List.mem_filterMap.mp hmem
  obtain ⟨F, hact⟩ := mem_callsOn.mp hm
  obtain ⟨_, _, s, s', -, run₀, step, path⟩ := run.exists_step hact
  obtain ⟨heq, hval⟩ := (LedgerStep.call_inv step).child_nonce (Run.refines run₀ hg) hexec
  have hle := (Run.counters_le (run₀.step step) hg path).2.2
  exact next_ne_of_le (by omega) hle (hnonce.symm.trans heq)

/-- One more proposal than those executed still has its own hash, so the counter
has room. -/
theorem Transcript.length_succ_lt (T : Transcript E) {l : List TransactionProposal}
    (hnodup : (l.map E.proposalHash).Nodup) (hl : ∀ q ∈ l, E.proposalInput q ∈ T.hashed)
    (hp : E.proposalInput p ∈ T.hashed) (hnew : E.proposalHash p ∉ l.map E.proposalHash) :
    l.length + 1 < fieldOrder := by
  have hlt := Vault.length_lt_fieldOrder (List.nodup_cons.mpr ⟨hnew, hnodup⟩) ?_
  · simpa using hlt
  · intro x hx
    rcases List.mem_cons.mp hx with rfl | hx
    · exact T.proposalHash_ne_zero hp
    · obtain ⟨q, hq, rfl⟩ := List.mem_map.mp hx
      exact T.proposalHash_ne_zero (hl q hq)

theorem Transcript.hash_not_mem (T : Transcript E) {l : List TransactionProposal}
    (hl : ∀ q ∈ l, E.proposalInput q ∈ T.hashed) (hp : E.proposalInput p ∈ T.hashed)
    (hnew : p ∉ l) : E.proposalHash p ∉ l.map E.proposalHash := by
  intro hmem
  obtain ⟨q, hq, heq⟩ := List.mem_map.mp hmem
  exact hnew (T.proposalHash_inj (hl q hq) hp heq ▸ hq)

theorem greaterThan_next {n : ℕ} {x : Fp} (hn : n + 1 < fieldOrder)
    (hx : x = (n : Fp) + 1) : greaterThan x (n : Fp) := by
  have hcast : x = ((n + 1 : ℕ) : Fp) := by
    rw [hx, Nat.cast_add, Nat.cast_one]
  unfold greaterThan
  rw [hcast, val_natCast_of_lt hn, val_natCast_of_lt (by omega)]
  exact Nat.lt_succ_self n

namespace Tables

variable (t : Tables) {owners : List PublicKey}

theorem lookup_map_self {α β : Type} [DecidableEq α] (f : α → β) {l : List α} {x : α}
    (hx : x ∈ l) : (l.map fun y ↦ (y, f y)).lookup x = some (f x) := by
  induction l with
  | nil => exact absurd hx List.not_mem_nil
  | cons y l ih =>
      rw [List.map_cons, List.lookup_cons]
      by_cases hxy : x = y
      · subst hxy
        simp
      · rw [beq_false_of_ne hxy]
        exact ih ((List.mem_cons.mp hx).resolve_left hxy)

/-- Every listed key of every map has a witness. -/
theorem exists_opening {map : Fp → Fp} {κ : Fp} (hκ : κ ∈ t.keys) :
    ∃ w ∈ t.transcript.witnesses, t.env.merkleMap.computeRootAndKey w (map κ) =
      (t.env.merkleMap.getRoot map, κ) := by
  refine ⟨⟨t.keys.map fun κ' ↦ (κ', map κ'), κ⟩, hκ, ?_⟩
  refine Prod.ext (tableRoot_congr ?_) rfl
  intro κ' hκ'
  by_cases hne : κ' = κ
  · subst hne
    exact Function.update_self _ _ _
  · rw [Function.update_of_ne hne]
    change ((t.keys.map fun x ↦ (x, map x)).lookup κ').getD 0 = map κ'
    rw [lookup_map_self map hκ']
    rfl

/-- A ballot whose inputs and keys are listed is covered. -/
theorem covers (hp : t.env.proposalInput p ∈ t.inputs)
    (hnullifiers : ∀ k ∈ owners,
      Env.voteNullifierInput (t.env.proposalHash p) k ∈ t.inputs)
    (hkey : t.env.proposalHash p ∈ t.keys)
    (hkeys : ∀ k ∈ owners, t.env.voteNullifierKey (t.env.proposalHash p) k ∈ t.keys) :
    t.transcript.Covers p owners where
  hashed := hp
  nullifiers := hnullifiers
  votes := fun map hmap k hk ↦ t.update_mem_maps hmap (hkeys k hk) (by decide)
  counts := by
    intro map hmap n hn
    apply t.update_mem_maps hmap hkey
    have hval := val_proposedMarker_add hn
    have hmax : maxOwners = 20 := rfl
    unfold leafDigit
    split
    · decide
    · omega
  executed := fun map hmap ↦ t.update_mem_maps hmap hkey (by decide)
  opens := by
    rintro map - κ (rfl | ⟨k, hk, rfl⟩)
    · exact t.exists_opening hkey
    · exact t.exists_opening (hkeys k hk)

end Tables

/-- The next proposal the guard `g` can execute itself. -/
def nextLocal (g : PublicKey) (s : GuardState) (txType data : Fp)
    (receivers : List Receiver) : TransactionProposal where
  receivers := receiverSlots receivers
  tokenId := nativeTokenId
  txType := txType
  data := data
  memoHash := 0
  nonce := s.nonce + 1
  configNonce := s.configNonce
  expirySlot := 0
  guardAddress := g
  destination := destinationLocal
  childAccount := PublicKey.empty

theorem nextLocal_ballot {txType data : Fp} {receivers : List Receiver}
    (run : (ledgerSystem T guards).Run as L) (hg : g ∈ guards)
    (hreplay : replay g as = .active v)
    (henabled : v.parent = PublicKey.empty ∨ v.enabled = true) (hslot : L.slot < 2 ^ 32)
    (hcovers : T.Covers (nextLocal g (L.state g) txType data receivers) v.owners)
    (hrules : ProposalRules E (nextLocal g (L.state g) txType data receivers))
    (hthreshold : txType = TxType.changeThreshold → data.val ≤ v.owners.length) :
    Ballot E L g v (nextLocal g (L.state g) txType data receivers) := by
  obtain ⟨hstate, hv⟩ := Run.invariant run hg hreplay
  have hlog : v.executed = localExecutions g as := by
    have heq := Run.executed_eq run hg
    rw [hreplay] at heq
    exact heq
  have hpending : E.proposalHash (nextLocal g (L.state g) txType data receivers) ∉
      v.executed.map E.proposalHash := by
    apply T.hash_not_mem (fun q hq ↦ hv.executed_hashed hq) hcovers.hashed
    rw [hlog]
    exact not_executed_of_next run hg rfl
  have hroom := T.length_succ_lt hv.executed_hash_nodup (fun q hq ↦ hv.executed_hashed hq)
    hcovers.hashed hpending
  have hlocal : ¬isRemoteNonCreate (nextLocal g (L.state g) txType data receivers) :=
    fun hremote ↦ destinationLocal_ne_remote hremote.1
  exact
    { rules := hrules
      threshold := hthreshold
      guard := rfl
      current := by
        change (L.state g).configNonce = _
        rw [hstate]
        rfl
      enabled := henabled
      root := fun hremote ↦ absurd hremote destinationLocal_ne_remote
      pending := hpending
      fresh := by
        refine ⟨Or.inl hlocal, Or.inl hlocal, Or.inl ⟨rfl, ?_⟩⟩
        rw [hstate]
        exact greaterThan_next hroom rfl
      unexpired := rfl
      slot_lt := hslot }

/-- When all owners have voted on the next LOCAL proposal, it can be executed. -/
theorem Ballot.exists_localChecks (h : Ballot E L g v p)
    (run : (ledgerSystem T guards).Run as L) (hg : g ∈ guards)
    (hreplay : replay g as = .active v) (hcovers : T.Covers p v.owners)
    (hsign : ∀ k ∈ v.owners, E.CanSign k) (hdest : p.destination = destinationLocal)
    (hnonce : p.nonce = (L.state g).nonce + 1) :
    ∃ bs L' w, (ledgerSystem T guards).Path L bs L' ∧ VotesOn g p v.owners bs ∧
      replay g (as ++ bs) = .active w ∧ Ballot E L' g w p ∧ Polled E L L' g v w ∧
      ∃ aw ∈ T.witnesses, ∃ count, LocalChecks E g (L'.state g) L'.slot p aw count := by
  obtain ⟨bs, L', w, path, hvotes, hw, hopen, hpolled, hall⟩ :=
    h.exists_poll v.owners (List.Subset.refl _) run hg hreplay hcovers hsign
  obtain ⟨hstate, -⟩ := Run.invariant run hg hreplay
  obtain ⟨hstate', hinvariant⟩ := Run.invariant (run.extend path) hg hw
  have hvault := hpolled.vault
  have howners : w.owners = v.owners := by rw [hvault]
  rw [← howners] at hcovers hall
  obtain ⟨aw, haw, count, happroved⟩ :=
    hinvariant.approvedBy hcovers hopen.guard hopen.current hopen.pending hall
  refine ⟨bs, L', w, path, hvotes, hw, hopen, hpolled, aw, haw, count, ?_⟩
  rw [hstate']
  exact
    { enabled := hopen.enabled.imp_right Vault.toField_eq_one.mpr
      destination := hdest
      approved := happroved
      inTime := hopen.inTime.1
      nonce := by
        rw [hnonce, hstate, hvault]
        rfl }

theorem mem_receiverSlots_nil {r : Receiver} (hr : r ∈ (receiverSlots []).toList) :
    r = Receiver.empty := by
  unfold receiverSlots at hr
  rw [toList_padded (Nat.zero_le _)] at hr
  exact List.eq_of_mem_replicate hr

theorem toList_receiverSlots_singleton (r : Receiver) :
    (receiverSlots [r]).toList = r :: List.replicate (maxReceivers - 1) Receiver.empty :=
  toList_padded (l := [r]) (Nat.succ_le_of_lt (by decide)) _

/-! ## Changing the threshold -/

/-- The proposal to make `n` the threshold of `g`. -/
def changeThresholdTo (g : PublicKey) (s : GuardState) (n : ℕ) : TransactionProposal :=
  nextLocal g s TxType.changeThreshold (n : Fp) []

theorem changeThresholdTo_rules (s : GuardState) {n : ℕ} (hpos : 0 < (n : Fp).val) :
    ProposalRules E (changeThresholdTo g s n) where
  tokenId := rfl
  target := Or.inl ⟨Or.inr (Or.inl rfl), rfl, rfl⟩
  onCurve := fun r hr hne ↦ absurd (congrArg Receiver.address (mem_receiverSlots_nil hr)) hne
  padding := fun r hr _ ↦ congrArg Receiver.amount (mem_receiverSlots_nil hr)
  amounts := fun _ r hr ↦ congrArg Receiver.amount (mem_receiverSlots_nil hr)
  single := fun _ r hr ↦
    congrArg Receiver.address (mem_receiverSlots_nil (List.mem_of_mem_drop hr))
  slot0_empty := fun _ ↦ rfl
  slot0_owner := fun htype ↦ absurd htype
    (show ¬(TxType.changeThreshold = TxType.addOwner ∨
      TxType.changeThreshold = TxType.removeOwner) by decide)
  data_unused := fun hnot ↦ absurd (Or.inl rfl) hnot
  data_addOwner := fun htype ↦
    absurd htype (show TxType.changeThreshold ≠ TxType.addOwner by decide)
  data_threshold := fun _ ↦ hpos
  data_enabled := fun htype ↦
    absurd htype (show TxType.changeThreshold ≠ TxType.enableChildMultiSig by decide)

/-- An execution is recorded in a transcript that covers the ballot. -/
theorem recorded_localExecution {owners : List PublicKey} {m : MethodCall E}
    {w : E.MerkleMapWitness} {count : Fp} (hcovers : T.Covers p owners)
    (hw : w ∈ T.witnesses)
    (hkey : (E.merkleMap.computeRootAndKey w count).2 = E.proposalHash p)
    (hinputs : m.hashInputs = [E.proposalInput p]) (hwitnesses : m.witnesses = [w])
    (hwrites : m.mapWrites = [⟨w, count, executedMarker⟩]) : m.Recorded T := by
  refine ⟨?_, ?_, ?_⟩
  · rw [hinputs]
    exact List.forall_mem_singleton.mpr hcovers.hashed
  · rw [hwitnesses]
    exact List.forall_mem_singleton.mpr hw
  · rw [hwrites]
    refine List.forall_mem_singleton.mpr ?_
    intro map hmap _
    rw [hkey]
    exact hcovers.executed map hmap

theorem exists_thresholdChange (run : (ledgerSystem T guards).Run as L) (hg : g ∈ guards)
    (hreplay : replay g as = .active v)
    (henabled : v.parent = PublicKey.empty ∨ v.enabled = true) (hslot : L.slot < 2 ^ 32)
    (hsign : ∀ k ∈ v.owners, E.CanSign k) {n : ℕ} (hpos : 1 ≤ n) (hle : n ≤ v.owners.length)
    (hcovers : T.Covers (changeThresholdTo g (L.state g) n) v.owners) :
    ∃ bs w count F L', (ledgerSystem T guards).Path L
        (bs ++ [.call g (.executeThresholdChange (changeThresholdTo g (L.state g) n) w count n)
          F]) L' ∧
      VotesOn g (changeThresholdTo g (L.state g) n) v.owners bs ∧
      (L'.state g).threshold = (n : Fp) ∧
      (L'.state g).ownersCommitment = (L.state g).ownersCommitment ∧
      (L'.state g).numOwners = (L.state g).numOwners := by
  obtain ⟨hstate, hv⟩ := Run.invariant run hg hreplay
  have hsmall := small_lt_fieldOrder (hle.trans hv.governed.length_le)
  have hval : (n : Fp).val = n := val_natCast_of_lt (by omega)
  have hvalpos : 0 < (n : Fp).val := by omega
  have hballot : Ballot E L g v (changeThresholdTo g (L.state g) n) :=
    nextLocal_ballot run hg hreplay henabled hslot hcovers
      (changeThresholdTo_rules _ hvalpos) fun _ ↦ hval.trans_le hle
  obtain ⟨bs, L₁, w, path, hvotes, hw, hopen, hpolled, aw, haw, count, hchecks⟩ :=
    hballot.exists_localChecks run hg hreplay hcovers hsign rfl rfl
  obtain ⟨hstate₁, hinvariant₁⟩ := Run.invariant (run.extend path) hg hw
  have howners : w.owners = v.owners := by rw [hpolled.vault]
  have hnum : (n : Fp).val ≤ (L₁.state g).numOwners.val := by
    rw [hstate₁, hval]
    exact hle.trans (howners ▸ hinvariant₁.val_numOwners.ge)
  obtain ⟨F, L₂, hprove, happly⟩ := executeThresholdChange_succeeds hchecks rfl rfl
    hvalpos hnum hopen.inTime.2
  have step : LedgerStep T guards L₁ (.call g (.executeThresholdChange
      (changeThresholdTo g (L.state g) n) aw count (n : Fp)) F) L₂ :=
    @LedgerStep.call _ _ _ _ _ (L₁.prover g) _ F hg
      (recorded_localExecution hcovers haw hchecks.approved.key rfl rfl rfl) hprove happly
  obtain ⟨-, hstate₂⟩ := Run.state_call (run.extend path) step hw
  refine ⟨bs, aw, count, F, L₂, path.trans (TransitionSystem.path_singleton.mpr step),
    hvotes, ?_, ?_, ?_⟩
  · rw [hstate₂]
    change (((n : Fp).val : ℕ) : Fp) = _
    rw [hval]
  · rw [hstate₂, hstate]
    change computeOwnerChain E w.owners = computeOwnerChain E v.owners
    rw [howners]
  · rw [hstate₂, hstate]
    change ((w.owners.length : ℕ) : Fp) = ((v.owners.length : ℕ) : Fp)
    rw [howners]

/-- The proposal to put `key` in front of the owners of `g`. -/
def addOwnerTo (E : Env) (g : PublicKey) (s : GuardState) (key : PublicKey)
    (owners : List PublicKey) : TransactionProposal :=
  nextLocal g s TxType.addOwner (computeOwnerChain E (key :: owners)) [⟨key, 0⟩]

/-- No `insertAfter`: in front of all owners. -/
def inFront : PublicKeyOption := ⟨false, PublicKey.empty⟩

theorem insertOwner_inFront (key : PublicKey) (owners : List PublicKey) :
    insertOwner inFront key owners = key :: owners := by
  simp [insertOwner, inFront]

theorem addOwnerTo_rules (s : GuardState) {key : PublicKey} {owners : List PublicKey}
    (hne : key ≠ PublicKey.empty) (hcurve : E.onCurve key = true)
    (hdata : computeOwnerChain E (key :: owners) ≠ 0) :
    ProposalRules E (addOwnerTo E g s key owners) := by
  have hslots : ∀ r ∈ (addOwnerTo E g s key owners).receivers.toList,
      r = ⟨key, 0⟩ ∨ r = Receiver.empty := by
    intro r hr
    change r ∈ (receiverSlots [⟨key, 0⟩]).toList at hr
    rw [toList_receiverSlots_singleton] at hr
    exact (List.mem_cons.mp hr).imp_right List.eq_of_mem_replicate
  have htype : TxType.addOwner ≠ TxType.changeThreshold ∧
      TxType.addOwner ≠ TxType.enableChildMultiSig ∧ ¬isRemoteType TxType.addOwner := by
    decide
  exact
    { tokenId := rfl
      target := Or.inl ⟨Or.inr (Or.inr (Or.inl rfl)), rfl, rfl⟩
      onCurve := by
        intro r hr hfull
        rcases hslots r hr with rfl | rfl
        · exact hcurve
        · exact absurd rfl hfull
      padding := by
        intro r hr _
        rcases hslots r hr with rfl | rfl <;> rfl
      amounts := by
        intro _ r hr
        rcases hslots r hr with rfl | rfl <;> rfl
      single := by
        intro _ r hr
        change r ∈ (receiverSlots [⟨key, 0⟩]).toList.drop 1 at hr
        rw [toList_receiverSlots_singleton] at hr
        rw [List.eq_of_mem_replicate hr]
        rfl
      slot0_empty := fun h ↦ absurd h (not_or.mpr ⟨htype.1, htype.2.2⟩)
      slot0_owner := fun _ ↦ hne
      data_unused := fun hnot ↦ absurd (Or.inr (Or.inr (Or.inr (Or.inr rfl)))) hnot
      data_addOwner := fun _ ↦ hdata
      data_threshold := fun h ↦ absurd h htype.1
      data_enabled := fun h ↦ absurd h htype.2.1 }

theorem removeOwner_of_new {key : PublicKey} {owners : List PublicKey}
    (hnew : ∀ o ∈ owners, o.x ≠ key.x) : removeOwner key owners = owners := by
  apply List.filter_eq_self.mpr
  intro o ho
  simpa using fun heq : o = key ↦ hnew o ho (congrArg PublicKey.x heq)

theorem exists_ownerAdded (run : (ledgerSystem T guards).Run as L) (hg : g ∈ guards)
    (hreplay : replay g as = .active v)
    (henabled : v.parent = PublicKey.empty ∨ v.enabled = true) (hslot : L.slot < 2 ^ 32)
    (hsign : ∀ k ∈ v.owners, E.CanSign k) {key : PublicKey} (hroom : v.owners.length < maxOwners)
    (hne : key ≠ PublicKey.empty) (hcurve : E.onCurve key = true)
    (hnew : ∀ o ∈ v.owners, o.x ≠ key.x)
    (hchained : ∀ q ∈ ownerChainInputs E (key :: v.owners), q ∈ T.hashed)
    (hcovers : T.Covers (addOwnerTo E g (L.state g) key v.owners) v.owners) :
    ∃ bs w count F L', (ledgerSystem T guards).Path L
        (bs ++ [.call g (.executeOwnerChange (addOwnerTo E g (L.state g) key v.owners) w count
          (ownerWitness v.owners) inFront) F]) L' ∧
      VotesOn g (addOwnerTo E g (L.state g) key v.owners) v.owners bs ∧
      (L'.state g).ownersCommitment = computeOwnerChain E (key :: v.owners) ∧
      (L'.state g).numOwners = (L.state g).numOwners + 1 ∧
      (L'.state g).threshold = (L.state g).threshold := by
  obtain ⟨hstate, hv⟩ := Run.invariant run hg hreplay
  have hballot : Ballot E L g v (addOwnerTo E g (L.state g) key v.owners) :=
    nextLocal_ballot run hg hreplay henabled hslot hcovers
      (addOwnerTo_rules _ hne hcurve (T.computeOwnerChain_ne_zero hchained))
      fun htype ↦ absurd htype (by decide)
  obtain ⟨bs, L₁, w, path, hvotes, hw, hopen, hpolled, aw, haw, count, hchecks⟩ :=
    hballot.exists_localChecks run hg hreplay hcovers hsign rfl rfl
  obtain ⟨hstate₁, hinvariant₁⟩ := Run.invariant (run.extend path) hg hw
  have howners : w.owners = v.owners := by rw [hpolled.vault]
  have hthreshold : w.threshold = v.threshold := by rw [hpolled.vault]
  have hpresent := presentKeys_ownerWitness hv.governed.length_le
  have hadd : addOwnerToCommitment E (L₁.state g).ownersCommitment key (ownerWitness v.owners)
      inFront = (computeOwnerChain E (key :: v.owners), true) := by
    obtain ⟨hchain, hvalid⟩ := addOwnerToCommitment_spec (E := E) (L₁.state g).ownersCommitment
      key (ownerWitness v.owners) inFront
    rw [hpresent] at hchain hvalid
    rw [insertOwner_inFront] at hchain
    refine Prod.ext hchain (hvalid.mpr ⟨hnew, fun hsome ↦ absurd hsome (by decide), ?_⟩)
    rw [hstate₁, ← howners]
    rfl
  have hnum : ((L₁.state g).numOwners + 1).val = v.owners.length + 1 := by
    have hsmall := small_lt_fieldOrder hv.governed.length_le
    have hcast : (L₁.state g).numOwners + 1 = ((v.owners.length + 1 : ℕ) : Fp) := by
      rw [hstate₁, ← howners, Nat.cast_add, Nat.cast_one]
      rfl
    rw [hcast, val_natCast_of_lt (by omega)]
  have hge : (L₁.state g).threshold.val ≤ ((L₁.state g).numOwners + 1).val := by
    have hle := hv.governed.threshold_le
    have hval := hinvariant₁.val_threshold
    rw [hnum, hstate₁]
    change (w.threshold : Fp).val ≤ _
    rw [hval, hthreshold]
    omega
  obtain ⟨F, L₂, hprove, happly⟩ := executeOwnerChange_succeeds hchecks rfl hadd hge
    (hnum.trans_le hroom) hopen.inTime.2
  have hrecorded : (MethodCall.executeOwnerChange (addOwnerTo E g (L.state g) key v.owners) aw
      count (ownerWitness v.owners) inFront).Recorded T := by
    refine ⟨?_, List.forall_mem_singleton.mpr haw, List.forall_mem_singleton.mpr ?_⟩
    · have hslot0 : (addOwnerTo E g (L.state g) key v.owners).slot0.address = key := rfl
      simp only [MethodCall.hashInputs, hpresent, hslot0, insertOwner_inFront,
        removeOwner_of_new hnew, List.cons_append, List.forall_mem_cons,
        List.forall_mem_append]
      exact ⟨hcovers.hashed, ⟨hv.chained, hchained⟩, hv.chained⟩
    · intro map hmap _
      rw [hchecks.approved.key]
      exact hcovers.executed map hmap
  have step : LedgerStep T guards L₁ (.call g (.executeOwnerChange
      (addOwnerTo E g (L.state g) key v.owners) aw count (ownerWitness v.owners) inFront) F)
        L₂ :=
    @LedgerStep.call _ _ _ _ _ (L₁.prover g) _ F hg hrecorded hprove happly
  obtain ⟨-, hstate₂⟩ := Run.state_call (run.extend path) step hw
  have hnext : w.next (.executeOwnerChange (addOwnerTo E g (L.state g) key v.owners) aw count
      (ownerWitness v.owners) inFront) =
      (w.execute (addOwnerTo E g (L.state g) key v.owners)).govern (key :: v.owners)
        w.threshold := by
    have hafter : w.ownersAfter (addOwnerTo E g (L.state g) key v.owners) inFront =
        key :: v.owners := by
      have htype : (addOwnerTo E g (L.state g) key v.owners).txType = TxType.addOwner := rfl
      rw [Vault.ownersAfter, if_pos htype, howners]
      exact insertOwner_inFront key v.owners
    rw [← hafter]
    rfl
  rw [hnext] at hstate₂
  refine ⟨bs, aw, count, F, L₂, path.trans (TransitionSystem.path_singleton.mpr step),
    hvotes, ?_, ?_, ?_⟩
  · rw [hstate₂]
    rfl
  · rw [hstate₂]
    change (((key :: v.owners).length : ℕ) : Fp) = (L.state g).numOwners + 1
    rw [List.length_cons, Nat.cast_add, Nat.cast_one, hstate]
    rfl
  · rw [hstate₂]
    change ((w.threshold : ℕ) : Fp) = (L.state g).threshold
    rw [hthreshold, hstate]
    rfl

/-- A guard whose owners can sign is never locked: they can set every threshold they
can meet, and take in everybody who is not an owner. -/
theorem no_lockout (run : (ledgerSystem T guards).Run as L) (hg : g ∈ guards)
    (hinit : (L.state g).ownersCommitment ≠ 0)
    (henabled : (L.state g).parent = PublicKey.empty ∨ (L.state g).childMultiSigEnabled = 1)
    (hslot : L.slot < 2 ^ 32) (hempty : E.onCurve PublicKey.empty = false) :
    ∃ owners, CommitsOwners T (L.state g).ownersCommitment owners ∧
      ((∀ k ∈ owners, E.CanSign k) →
        (∀ n, 1 ≤ n → n ≤ (L.state g).numOwners.val →
          T.Covers (changeThresholdTo g (L.state g) n) owners →
            ∃ bs w count F L', (ledgerSystem T guards).Path L
                (bs ++ [.call g (.executeThresholdChange (changeThresholdTo g (L.state g) n) w
                  count n) F]) L' ∧
              VotesOn g (changeThresholdTo g (L.state g) n) owners bs ∧
              (L'.state g).threshold = (n : Fp) ∧
              (L'.state g).ownersCommitment = (L.state g).ownersCommitment ∧
              (L'.state g).numOwners = (L.state g).numOwners) ∧
        ∀ key, (L.state g).numOwners.val < maxOwners → E.onCurve key = true →
          (∀ o ∈ owners, o.x ≠ key.x) →
          (∀ q ∈ ownerChainInputs E (key :: owners), q ∈ T.hashed) →
          T.Covers (addOwnerTo E g (L.state g) key owners) owners →
            ∃ bs w count F L', (ledgerSystem T guards).Path L
                (bs ++ [.call g (.executeOwnerChange (addOwnerTo E g (L.state g) key owners) w
                  count (ownerWitness owners) inFront) F]) L' ∧
              VotesOn g (addOwnerTo E g (L.state g) key owners) owners bs ∧
              (L'.state g).ownersCommitment = computeOwnerChain E (key :: owners) ∧
              (L'.state g).numOwners = (L.state g).numOwners + 1 ∧
              (L'.state g).threshold = (L.state g).threshold) := by
  obtain ⟨v, hreplay, hstate, hv⟩ := Run.active run hg hinit
  have hnum : (L.state g).numOwners.val = v.owners.length := by
    rw [hstate]
    exact hv.val_numOwners
  have hopen : v.parent = PublicKey.empty ∨ v.enabled = true := by
    rw [hstate] at henabled
    exact henabled.imp_right Vault.toField_eq_one.mp
  refine ⟨v.owners, ⟨by rw [hstate]; rfl, hv.chained⟩, fun hsign ↦ ⟨?_, ?_⟩⟩
  · intro n hpos hle hcovers
    exact exists_thresholdChange run hg hreplay hopen hslot hsign hpos (hnum ▸ hle) hcovers
  · intro key hroom hcurve hnew hchained hcovers
    have hne : key ≠ PublicKey.empty := by
      rintro rfl
      rw [hempty] at hcurve
      cases hcurve
    exact exists_ownerAdded run hg hreplay hopen hslot hsign (hnum ▸ hroom) hne hcurve hnew
      hchained hcovers

namespace Walkthrough

theorem canSign (k : PublicKey) : tables.env.CanSign k :=
  fun message ↦ ⟨(k, message), decide_eq_true rfl⟩

theorem commits_setUp :
    CommitsOwners tables.transcript (setUp.ledger.state root).ownersCommitment
      [ownerA, ownerB] :=
  ⟨by decide +kernel, show ∀ q ∈ ownerChainInputs tables.env [ownerA, ownerB],
    q ∈ tables.inputs by decide +kernel⟩

/-- Both owners together can lower the threshold or take a third owner in. -/
theorem root_not_locked :
    (∃ bs w count F L', system.Path setUp.ledger
        (bs ++ [.call root (.executeThresholdChange lowerThreshold w count 1) F]) L' ∧
      (L'.state root).threshold = 1) ∧
      ∃ bs w count F L', system.Path setUp.ledger
          (bs ++ [.call root (.executeOwnerChange addOwnerFirst w count
            (ownerWitness [ownerA, ownerB]) inFront) F]) L' ∧
        (L'.state root).ownersCommitment = 29 := by
  have run : system.Run (Book.actions emptyBook [(root, setupRoot, setUp)]) setUp.ledger :=
    Book.run_of_plays setUp_plays
  obtain ⟨owners, howners, hopen⟩ := no_lockout run
    (g := root) List.mem_cons_self (by decide +kernel) (by decide +kernel) (by decide)
    (by decide +kernel)
  obtain rfl := howners.unique commits_setUp
  obtain ⟨hthreshold, hadd⟩ := hopen fun k _ ↦ canSign k
  have hlower : changeThresholdTo root (setUp.ledger.state root) 1 = lowerThreshold := by
    decide +kernel
  have hfirst : addOwnerTo tables.env root (setUp.ledger.state root) ownerC
      [ownerA, ownerB] = addOwnerFirst := by decide +kernel
  constructor
  · have hcovers : tables.transcript.Covers (changeThresholdTo root (setUp.ledger.state root) 1)
        [ownerA, ownerB] := by
      rw [hlower]
      exact tables.covers (by decide +kernel) (by decide +kernel) (by decide +kernel)
        (by decide +kernel)
    obtain ⟨bs, w, count, F, L', path, -, hthreshold, -⟩ :=
      hthreshold 1 le_rfl (by decide +kernel) hcovers
    rw [hlower] at path
    exact ⟨bs, w, count, F, L', path, hthreshold⟩
  · have hcovers : tables.transcript.Covers (addOwnerTo tables.env root
        (setUp.ledger.state root) ownerC [ownerA, ownerB]) [ownerA, ownerB] := by
      rw [hfirst]
      exact tables.covers (by decide +kernel) (by decide +kernel) (by decide +kernel)
        (by decide +kernel)
    have hchained : ∀ q ∈ ownerChainInputs tables.env [ownerC, ownerA, ownerB],
        q ∈ tables.inputs := by decide +kernel
    obtain ⟨bs, w, count, F, L', path, -, howners, -⟩ :=
      hadd ownerC (by decide +kernel) (by decide +kernel) (by decide +kernel) hchained hcovers
    rw [hfirst] at path
    refine ⟨bs, w, count, F, L', path, howners.trans ?_⟩
    decide +kernel

end Walkthrough

/-! ## Taking money back from a child -/

/-- The proposal to reclaim `amount` from the child `c`. -/
def reclaimFrom (L : Ledger) (c : PublicKey) (amount : UInt64) : TransactionProposal where
  receivers := receiverSlots []
  tokenId := nativeTokenId
  txType := TxType.reclaimChild
  data := amountValue amount
  memoHash := 0
  nonce := (L.state c).parentNonce + 1
  configNonce := (L.state (L.state c).parent).configNonce
  expirySlot := 0
  guardAddress := (L.state c).parent
  destination := destinationRemote
  childAccount := c

theorem reclaimFrom_rules {amount : UInt64} (hc : c ≠ PublicKey.empty) :
    ProposalRules E (reclaimFrom L c amount) where
  tokenId := rfl
  target := Or.inr ⟨Or.inr (Or.inl rfl), rfl, hc⟩
  onCurve := fun r hr hne ↦ absurd (congrArg Receiver.address (mem_receiverSlots_nil hr)) hne
  padding := fun r hr _ ↦ congrArg Receiver.amount (mem_receiverSlots_nil hr)
  amounts := fun _ r hr ↦ congrArg Receiver.amount (mem_receiverSlots_nil hr)
  single := fun _ r hr ↦
    congrArg Receiver.address (mem_receiverSlots_nil (List.mem_of_mem_drop hr))
  slot0_empty := fun _ ↦ rfl
  slot0_owner := fun htype ↦ absurd htype
    (show ¬(TxType.reclaimChild = TxType.addOwner ∨
      TxType.reclaimChild = TxType.removeOwner) by decide)
  data_unused := fun hnot ↦ absurd (Or.inr (Or.inr (Or.inl rfl))) hnot
  data_addOwner := fun htype ↦
    absurd htype (show TxType.reclaimChild ≠ TxType.addOwner by decide)
  data_threshold := fun htype ↦
    absurd htype (show TxType.reclaimChild ≠ TxType.changeThreshold by decide)
  data_enabled := fun htype ↦
    absurd htype (show TxType.reclaimChild ≠ TxType.enableChildMultiSig by decide)

/-- An initialized child was created by a proposal that named it, and a proposal
never names the empty key. -/
theorem Run.child_ne_empty (run : (ledgerSystem T guards).Run as L) (hc : c ∈ guards)
    (hinit : (L.state c).ownersCommitment ≠ 0) (hchild : (L.state c).parent ≠ PublicKey.empty)
    (hparent : (L.state c).parent ∈ guards) : c ≠ PublicKey.empty := by
  revert hinit hchild hparent
  refine TransitionSystem.Run.invariant (fun _ L ↦ (L.state c).ownersCommitment ≠ 0 →
    (L.state c).parent ≠ PublicKey.empty → (L.state c).parent ∈ guards →
      c ≠ PublicKey.empty) ?_ ?_ run
  · intro L hzero hinit
    rw [hzero c hc] at hinit
    exact absurd rfl hinit
  · intro as L act L' run ih step hinit hchild hparent
    have href := Run.refines run hc
    have href' := Run.refines (run.step step) hc
    rcases replay_step c as act with hsame | ⟨m, F, rfl, hnext⟩
    · rw [hsame] at href'
      rw [href'.state, ← href.state] at hinit hchild hparent
      exact ih hinit hchild hparent
    · have hcall := LedgerStep.call_inv step
      cases hph : replay c as with
      | active v =>
          rw [hnext, hph] at href'
          have hsameParent : (L'.state c).parent = (L.state c).parent := by
            rw [href'.state, href.state, hph]
            exact (v.later_next m).parent
          rw [hsameParent] at hchild hparent
          have hv := (Run.invariant run hc hph).2
          refine ih ?_ hchild hparent
          rw [href.state, hph]
          exact T.computeOwnerChain_ne_zero hv.chained
      | vacant =>
          rw [hnext, hph] at href'
          rw [href'.state] at hinit hchild
          cases m with
          | setup => exact absurd rfl hchild
          | _ => exact absurd rfl hinit
      | reserved a config =>
          obtain ⟨t, n, o, p, w, count, F₂, hact⟩ := Run.created_by run hc hph step hinit
          cases hact
          have hremote := hcall.remoteExecution (p := p) href rfl
          have hsameParent : (L.state c).parent = (L'.state c).parent := by
            rw [href'.state, hnext, hph, href.state, hph]
            rfl
          obtain ⟨v, -, hv, happroves⟩ :=
            hremote.approves (Run.refines run (hsameParent ▸ hparent))
          obtain ⟨k, hk⟩ := happroves.voted
          rcases (hv.votes _ hk).rules.target with ⟨-, hlocal, -⟩ | ⟨-, -, hne⟩
          · exact absurd (hlocal.symm.trans hremote.remote) destinationLocal_ne_remote
          · rw [← hremote.child]
            exact hne

/-- The next REMOTE nonce of a child is free: the reclaim was not executed, and its
leaf is empty. -/
theorem reclaimFrom_pending {amount : UInt64} (run : (ledgerSystem T guards).Run as L)
    (hc : c ∈ guards) {u : Vault} (hreplay : replay c as = .active u)
    (hp : E.proposalInput (reclaimFrom L c amount) ∈ T.hashed) :
    E.proposalHash (reclaimFrom L c amount) ∉ u.childExecuted.map E.proposalHash ∧
      u.childExecuted.length + 1 < fieldOrder := by
  obtain ⟨-, hu⟩ := Run.invariant run hc hreplay
  have hlog : u.childExecuted = childExecutions c as := by
    have heq := Run.childExecuted_eq run hc
    rw [hreplay] at heq
    exact heq
  have hhashed : ∀ q ∈ u.childExecuted, E.proposalInput q ∈ T.hashed :=
    fun q hq ↦ (hu.childExecuted q hq).hashed
  have hpending : E.proposalHash (reclaimFrom L c amount) ∉
      u.childExecuted.map E.proposalHash := by
    apply T.hash_not_mem hhashed hp
    rw [hlog]
    exact not_childExecuted_of_next run hc rfl
  exact ⟨hpending, T.length_succ_lt hu.childExecuted_hash_nodup hhashed hp hpending⟩

theorem reclaimFrom_ballot {amount : UInt64} (run : (ledgerSystem T guards).Run as L)
    (hc : c ∈ guards) (hparent : (L.state c).parent ∈ guards)
    (hinit : (L.state c).ownersCommitment ≠ 0) (hne : c ≠ PublicKey.empty)
    (hslot : L.slot < 2 ^ 32) {v : Vault}
    (hv : replay (L.state c).parent as = .active v) (hroot : v.parent = PublicKey.empty)
    (hcovers : T.Covers (reclaimFrom L c amount) v.owners) :
    Ballot E L (L.state c).parent v (reclaimFrom L c amount) := by
  obtain ⟨u, hu, hstate, -⟩ := Run.active run hc hinit
  obtain ⟨hstateP, hinvariant⟩ := Run.invariant run hparent hv
  obtain ⟨-, hroom⟩ := reclaimFrom_pending run hc hu hcovers.hashed
  have hremote : isRemoteNonCreate (reclaimFrom L c amount) :=
    ⟨rfl, show TxType.reclaimChild ≠ TxType.createChild by decide⟩
  exact
    { rules := reclaimFrom_rules hne
      threshold := fun htype ↦
        absurd htype (show TxType.reclaimChild ≠ TxType.changeThreshold by decide)
      guard := rfl
      current := by
        change (L.state (L.state c).parent).configNonce = _
        rw [hstateP]
        rfl
      enabled := Or.inl hroot
      root := fun _ ↦ hroot
      pending := hinvariant.not_executed_of_remote hcovers.hashed rfl
      fresh := by
        have hauthority : nonceAuthority (reclaimFrom L c amount) (L.state c).parent = c :=
          if_pos hremote
        rw [hauthority]
        refine ⟨Or.inr hinit, Or.inr rfl, Or.inr (Or.inl ⟨hremote, ?_⟩)⟩
        rw [hstate]
        apply greaterThan_next hroom
        change (L.state c).parentNonce + 1 = _
        rw [hstate]
        rfl
      unexpired := rfl
      slot_lt := hslot }

/-- The owners of a parent can take back what a child has, whatever the owners of
the child did. -/
theorem parent_recovery (run : (ledgerSystem T guards).Run as L) (hc : c ∈ guards)
    (hparent : (L.state c).parent ∈ guards) (hinit : (L.state c).ownersCommitment ≠ 0)
    (hchild : (L.state c).parent ≠ PublicKey.empty) (hslot : L.slot < 2 ^ 32) :
    ∃ owners, CommitsOwners T (L.state (L.state c).parent).ownersCommitment owners ∧
      ((∀ k ∈ owners, E.CanSign k) →
        ∀ amount : UInt64, amount.toNat ≤ (L.account c).balance →
          T.Covers (reclaimFrom L c amount) owners →
            ∃ bs pw cw count F L', (ledgerSystem T guards).Path L
                (bs ++ [.call c (.executeReclaimToParent (reclaimFrom L c amount) pw count cw
                  amount) F]) L' ∧
              VotesOn (L.state c).parent (reclaimFrom L c amount) owners bs ∧
              (L'.account c).balance + amount.toNat = (L.account c).balance ∧
              (L'.account (L.state c).parent).balance =
                (L.account (L.state c).parent).balance + amount.toNat) := by
  obtain ⟨hpinit, hroot⟩ := Run.parent_root run hc hchild hparent
  obtain ⟨v, hv, hstateP, hinvariant⟩ := Run.active run hparent hpinit
  obtain ⟨u, hu, hstate, huinv⟩ := Run.active run hc hinit
  have hne := Run.child_ne_empty run hc hinit hchild hparent
  have hself : (L.state c).parent ≠ c := CallStep.parent_ne (Run.refines run hc) hchild
  refine ⟨v.owners, ⟨by rw [hstateP]; rfl, hinvariant.chained⟩, ?_⟩
  intro hsign amount hamount hcovers
  have hvroot : v.parent = PublicKey.empty := by
    rw [hstateP] at hroot
    exact hroot
  obtain ⟨bs, L₁, w, path, hvotes, hw, hopen, hpolled, hall⟩ :=
    (reclaimFrom_ballot run hc hparent hinit hne hslot hv hvroot hcovers).exists_poll v.owners
      (List.Subset.refl _) run hparent hv hcovers hsign
  have howners : w.owners = v.owners := by rw [hpolled.vault]
  obtain ⟨hstate₁, hinvariant₁⟩ := Run.invariant (run.extend path) hparent hw
  have hcovers₁ : T.Covers (reclaimFrom L c amount) w.owners := howners ▸ hcovers
  obtain ⟨pw, hpw, count, happroved⟩ := hinvariant₁.approvedBy hcovers₁ hopen.guard
    hopen.current hopen.pending (howners ▸ hall)
  -- the ballot left the child alone
  have hsame : L₁.state c = L.state c := hpolled.other c hself.symm
  obtain ⟨hpending, -⟩ := reclaimFrom_pending run hc hu hcovers.hashed
  obtain ⟨cw, hcw, hopens⟩ := hcovers.opens _ huinv.childExecutions_mem _ (Or.inl rfl)
  have hleaf : u.childExecutionMap E (E.proposalHash (reclaimFrom L c amount)) = 0 :=
    if_neg hpending
  rw [hleaf] at hopens
  have hchecks : RemoteChecks E c (L₁.state c) (L₁.state (L₁.state c).parent) L₁.slot
      (reclaimFrom L c amount) pw count cw := by
    rw [hsame, hstate₁]
    exact
      { initialized := hinit
        destination := rfl
        child := rfl
        isChild := hchild
        approved := happroved
        inTime := hopen.inTime.1
        root := by
          rw [hopens, hstate]
          rfl
        key := by rw [hopens]
        nonce := rfl }
  obtain ⟨F, L₂, hprove, happly⟩ := executeReclaimToParent_succeeds hchecks
    (hsame.symm ▸ hself) rfl rfl (hamount.trans (hpolled.balance c).ge) hopen.inTime.2
  have hrecorded : (MethodCall.executeReclaimToParent (reclaimFrom L c amount) pw count cw
      amount).Recorded T := by
    refine ⟨List.forall_mem_singleton.mpr hcovers.hashed,
      List.forall_mem_cons.mpr ⟨hpw, List.forall_mem_singleton.mpr hcw⟩,
      List.forall_mem_singleton.mpr ?_⟩
    intro map hmap _
    rw [hopens]
    exact hcovers.executed map hmap
  have step : LedgerStep T guards L₁ (.call c (.executeReclaimToParent
      (reclaimFrom L c amount) pw count cw amount) F) L₂ :=
    @LedgerStep.call _ _ _ _ _ (L₁.prover c) _ F hc hrecorded hprove happly
  have hspends := spends (run.extend path) step
  have hpaid : F.outflow = amount.toNat := hspends.amount.trans (val_amountValue amount)
  have hbalance := hspends.balance
  have hcredited := hspends.toParent trivial (L.state c).parent
  rw [hsame, if_pos rfl, hpaid] at hcredited
  rw [hpaid, hpolled.balance] at hbalance
  have hother := (Forest.settled_of_apply happly).other (L.state c).parent
    (step.call_inv.pins.publicKey.symm ▸ hself)
  rw [hcredited, hpolled.balance] at hother
  exact ⟨bs, pw, cw, count, F, L₂,
    path.trans (TransitionSystem.path_singleton.mpr step), hvotes, hbalance, hother⟩

namespace Walkthrough

def childFunded : Book := childCreated.credit child 20

theorem run_childFunded :
    system.Run (Book.actions emptyBook [(root, setupRoot, setUp)] ++
        [.call child reserveChild (setUp.forest child reserveChild)] ++
        Book.actions childReserved beforeCreate ++
        [.call child executeCreate (createApproved.forest child executeCreate)] ++
        [.deposit child 20]) childFunded.ledger := by
  have hfunded : childFunded.ledger = childCreated.ledger.credit child 20 :=
    childCreated.ledger_credit child 20
  rw [hfunded]
  exact (((((Book.run_of_plays setUp_plays).step (Book.step_of_plays reserve_plays)).extend
    (Book.path_of_plays beforeCreate_plays)).step (Book.step_of_plays create_plays)).step
      .deposit)

/-- The owners of the root take five of the twenty back. -/
theorem five_recovered :
    ∃ bs pw cw count F L', system.Path childFunded.ledger
        (bs ++ [.call child (.executeReclaimToParent reclaimFive pw count cw 5) F]) L' ∧
      (L'.account child).balance = 15 ∧ (L'.account root).balance = 5 := by
  have hparent : (childFunded.ledger.state child).parent = root := by decide +kernel
  obtain ⟨owners, howners, hopen⟩ := parent_recovery run_childFunded
    (c := child) (List.mem_cons_of_mem _ List.mem_cons_self)
    (by rw [hparent]; exact List.mem_cons_self) (by decide +kernel) (by decide +kernel)
    (by decide)
  have hsame : (childFunded.ledger.state
      (childFunded.ledger.state child).parent).ownersCommitment =
        (setUp.ledger.state root).ownersCommitment := by decide +kernel
  rw [hsame] at howners
  obtain rfl := howners.unique commits_setUp
  have hfive : reclaimFrom childFunded.ledger child 5 = reclaimFive := by decide +kernel
  have hcovers : tables.transcript.Covers (reclaimFrom childFunded.ledger child 5)
      [ownerA, ownerB] := by
    rw [hfive]
    exact tables.covers (by decide +kernel) (by decide +kernel) (by decide +kernel)
      (by decide +kernel)
  have hbalance : (childFunded.ledger.account child).balance = 20 := by decide +kernel
  have hroot : (childFunded.ledger.account root).balance = 0 := by decide +kernel
  have hval : UInt64.toNat 5 = 5 := rfl
  obtain ⟨bs, pw, cw, count, F, L', path, -, hchild, hrootPaid⟩ :=
    hopen (fun k _ ↦ canSign k) 5 (by rw [hbalance, hval]; omega) hcovers
  rw [hfive] at path
  rw [hbalance, hval] at hchild
  rw [hparent, hroot, hval] at hrootPaid
  exact ⟨bs, pw, cw, count, F, L', path, by omega, hrootPaid⟩

end Walkthrough

end MinaGuard
