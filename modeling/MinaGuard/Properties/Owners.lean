import MinaGuard.Clients.OwnerFlow
import MinaGuard.Instance.Keys

/-!
# Owner lists on chain and off

With a chain hash free of collisions, the owner-list circuits accept exactly
the witnesses that carry the committed list, and compute what the owner store
computes.  The positions the clients search for an addition are the positions
the circuit accepts.
-/

namespace MinaGuard

open Foundations

variable {E : Env} {T : Transcript E}

theorem removeOwner_ne_nil {owners : List PublicKey} {owner : PublicKey} :
    removeOwner owner owners ≠ [] ↔ ∃ pk ∈ owners, pk ≠ owner := by
  unfold removeOwner
  rw [← List.length_pos_iff, List.length_pos_iff_exists_mem]
  simp only [List.mem_filter, decide_eq_true_eq]

/-- The remove circuit also accepts whatever it may. -/
theorem removeOwnerFromCommitment_valid {commitment : Fp} {owner : PublicKey}
    {witness : OwnerWitness} :
    (removeOwnerFromCommitment E commitment owner witness).2 = true ↔
      owner ∈ presentKeys witness.toList ∧
        computeOwnerChain E (presentKeys witness.toList) = commitment ∧
        ∃ pk ∈ presentKeys witness.toList, pk ≠ owner := by
  rw [← removeOwner_ne_nil]
  constructor
  · exact (removeOwnerFromCommitment_spec commitment owner witness).2
  · rintro ⟨hmem, hchain, hne⟩
    have hslots : (presentKeys witness.toList).length ≤ maxOwners := by
      have hle := List.length_filterMap_le
        (fun o : PublicKeyOption ↦ if o.isSome then some o.value else none) witness.toList
      rwa [witness.length_toList] at hle
    have hlength : (removeOwner owner (presentKeys witness.toList)).length ≤ maxOwners :=
      List.length_filter_le _ _ |>.trans hslots
    have hval : ((removeOwner owner (presentKeys witness.toList)).length : Fp).val =
        (removeOwner owner (presentKeys witness.toList)).length :=
      val_natCast_of_lt (hlength.trans_lt (by decide))
    have hpos := List.length_pos_of_ne_nil hne
    simp only [removeOwnerFromCommitment, removeOwner_foldl, Bool.false_or, zero_add,
      Bool.and_eq_true, decide_eq_true_eq]
    refine ⟨⟨hmem, hchain⟩, ?_⟩
    unfold greaterThan
    rw [hval]
    simpa using hpos

/-- The owner-list circuits are the operations on the committed list. -/
theorem owner_circuits_refine (B : Base58 E) {owners : List PublicKey}
    (hlen : owners.length ≤ maxOwners) (hx : owners.Pairwise fun a b ↦ a.x ≠ b.x)
    (hhashed : ∀ q ∈ ownerChainInputs E owners, q ∈ T.hashed) :
    (∀ (w : OwnerWitness) (k : PublicKey),
      (∀ q ∈ ownerChainInputs E (presentKeys w.toList), q ∈ T.hashed) →
      (assertOwnerMembership E (computeOwnerChain E owners) k w = .ok () ↔
        presentKeys w.toList = owners ∧ k ∈ owners) ∧
      (∀ after : PublicKeyOption,
        ((addOwnerToCommitment E (computeOwnerChain E owners) k w after).2 = true ↔
          presentKeys w.toList = owners ∧ (∀ pk ∈ owners, pk.x ≠ k.x) ∧
            (after.isSome = true → after.value ∈ owners)) ∧
        ((addOwnerToCommitment E (computeOwnerChain E owners) k w after).2 = true →
          ∃ store, OwnerStore.insertAfter B ⟨owners⟩ k
              (if after.isSome then some after.value else none) = .ok store ∧
            (addOwnerToCommitment E (computeOwnerChain E owners) k w after).1 =
              store.getCommitment E)) ∧
      ((removeOwnerFromCommitment E (computeOwnerChain E owners) k w).2 = true ↔
        presentKeys w.toList = owners ∧ k ∈ owners ∧ ∃ pk ∈ owners, pk ≠ k) ∧
      ((removeOwnerFromCommitment E (computeOwnerChain E owners) k w).2 = true →
        (removeOwnerFromCommitment E (computeOwnerChain E owners) k w).1 =
            computeOwnerChain E (owners.erase k) ∧
          (OwnerStore.remove B ⟨owners⟩ k).owners = owners.erase k)) ∧
    ∀ (slots : SetupOwnersInput) (n : Fp),
      computeSetupOwnersChain E slots n = computeOwnerChain E (slots.toList.take n.val) := by
  have hnodup : owners.Nodup := hx.imp fun hne heq ↦ hne (congrArg PublicKey.x heq)
  refine ⟨fun w k hw ↦ ?_, computeSetupOwnersChain_eq⟩
  have hlist : computeOwnerChain E (presentKeys w.toList) = computeOwnerChain E owners ↔
      presentKeys w.toList = owners :=
    ⟨T.computeOwnerChain_inj hw hhashed, fun h ↦ by rw [h]⟩
  have hremove : (removeOwnerFromCommitment E (computeOwnerChain E owners) k w).2 = true ↔
      presentKeys w.toList = owners ∧ k ∈ owners ∧ ∃ pk ∈ owners, pk ≠ k := by
    rw [removeOwnerFromCommitment_valid, hlist]
    constructor
    · rintro ⟨hmem, rfl, hother⟩
      exact ⟨rfl, hmem, hother⟩
    · rintro ⟨rfl, hmem, hother⟩
      exact ⟨hmem, rfl, hother⟩
  have hadd (after : PublicKeyOption) :
      (addOwnerToCommitment E (computeOwnerChain E owners) k w after).2 = true ↔
        presentKeys w.toList = owners ∧ (∀ pk ∈ owners, pk.x ≠ k.x) ∧
          (after.isSome = true → after.value ∈ owners) := by
    rw [(addOwnerToCommitment_spec _ k w after).2, hlist]
    constructor
    · rintro ⟨hnew, hpos, rfl⟩
      exact ⟨rfl, hnew, hpos⟩
    · rintro ⟨rfl, hnew, hpos⟩
      exact ⟨hnew, hpos, rfl⟩
  refine ⟨?_, fun after ↦ ⟨hadd after, fun hvalid ↦ ?_⟩, hremove, fun hvalid ↦ ?_⟩
  · rw [assertOwnerMembership_ok, hlist]
    constructor
    · rintro ⟨hmem, rfl⟩
      exact ⟨rfl, hmem⟩
    · rintro ⟨rfl, hmem⟩
      exact ⟨hmem, rfl⟩
  · obtain ⟨hpresent, -, hpos⟩ := (hadd after).mp hvalid
    refine ⟨_, OwnerStore.insertAfter_eq B ⟨owners⟩ hnodup hpos, ?_⟩
    rw [(addOwnerToCommitment_spec _ k w after).1, hpresent]
    rfl
  · obtain ⟨hpresent, -, -⟩ := hremove.mp hvalid
    rw [(removeOwnerFromCommitment_spec _ k w).1, hpresent, OwnerStore.remove_eq,
      removeOwner_eq_erase hnodup]
    exact ⟨rfl, rfl⟩

namespace Walkthrough

theorem twoOwners_recorded :
    ∀ q ∈ ownerChainInputs tables.env [ownerA, ownerB], q ∈ tables.transcript.hashed := by
  have hall : ∀ q ∈ ownerChainInputs tables.env [ownerA, ownerB], q ∈ tables.inputs := by
    decide +kernel
  exact hall

theorem twoOwners_refine :
    assertOwnerMembership tables.env (computeOwnerChain tables.env [ownerA, ownerB]) ownerB
        (ownerWitness [ownerA, ownerB]) = .ok () ↔
      presentKeys (ownerWitness [ownerA, ownerB]).toList = [ownerA, ownerB] ∧
        ownerB ∈ [ownerA, ownerB] :=
  ((owner_circuits_refine (T := tables.transcript) base58 (by decide) (by decide)
    twoOwners_recorded).1 (ownerWitness [ownerA, ownerB]) ownerB twoOwners_recorded).1

end Walkthrough

/-- The clients find the position of an addition, and refuse exactly the
additions that the circuit accepts at no position. -/
theorem add_owner_flow (B : Base58 E) {owners : List PublicKey}
    (hlen : owners.length < maxOwners) (hx : owners.Pairwise fun a b ↦ a.x ≠ b.x)
    (hhashed : ∀ q ∈ ownerChainInputs E owners, q ∈ T.hashed) :
    (∀ k : PublicKey, (∀ pk ∈ owners, pk.x ≠ k.x) →
      (∀ i ≤ owners.length, ∀ q ∈ ownerChainInputs E (owners.insertIdx i k), q ∈ T.hashed) →
      (∀ i ≤ owners.length, ∀ p : TransactionProposal, p.txType = TxType.addOwner →
        p.slot0.address = k → p.data = computeOwnerChain E (owners.insertIdx i k) →
        OwnerStore.insertPositionFor B ⟨owners⟩ k (fieldText p.data) = some i ∧
        assertExecutableAddOwnerData B p ⟨owners⟩ = .ok () ∧
        ∃ after, approvedInsertAfter B ⟨owners⟩ k p.data = .ok after ∧
          addOwnerToCommitment E (computeOwnerChain E owners) k
            (OwnerStore.getWitness ⟨owners⟩) after = (p.data, true)) ∧
      ∃ i ≤ owners.length, OwnerStore.commitmentWithSortedAdd B ⟨owners⟩ k =
        computeOwnerChain E (owners.insertIdx i k)) ∧
    ∀ p : TransactionProposal, p.txType = TxType.addOwner →
      (assertExecutableAddOwnerData B p ⟨owners⟩ = .ok () →
        ∃ after, approvedInsertAfter B ⟨owners⟩ p.slot0.address p.data = .ok after ∧
          addOwnerToCommitment E (computeOwnerChain E owners) p.slot0.address
            (OwnerStore.getWitness ⟨owners⟩) after = (p.data, true)) ∧
      (assertExecutableAddOwnerData B p ⟨owners⟩ ≠ .ok () →
        ∀ (w : OwnerWitness) (after : PublicKeyOption),
          (∀ q ∈ ownerChainInputs E (presentKeys w.toList), q ∈ T.hashed) →
          ¬((addOwnerToCommitment E (computeOwnerChain E owners) p.slot0.address w after).2 =
              true ∧
            (addOwnerToCommitment E (computeOwnerChain E owners) p.slot0.address w after).1 =
              p.data)) := by
  have hnodup : owners.Nodup := hx.imp fun hne heq ↦ hne (congrArg PublicKey.x heq)
  -- a position with the right chain is one the circuit accepts
  have hposition {k : PublicKey} {data : Fp} {i : ℕ} (hnew : ∀ pk ∈ owners, pk.x ≠ k.x)
      (hi : OwnerStore.insertPositionFor B ⟨owners⟩ k (fieldText data) = some i) :
      ∃ after, approvedInsertAfter B ⟨owners⟩ k data = .ok after ∧
        addOwnerToCommitment E (computeOwnerChain E owners) k
          (OwnerStore.getWitness ⟨owners⟩) after = (data, true) := by
    obtain ⟨hle, hchain⟩ := OwnerStore.insertPositionFor_some B ⟨owners⟩ hi
    refine ⟨markerAt owners i, OwnerStore.approvedInsertAfter_eq B ⟨owners⟩ hi, ?_⟩
    have hpresent : presentKeys (OwnerStore.getWitness ⟨owners⟩).toList = owners :=
      presentKeys_ownerWitness hlen.le
    obtain ⟨hfirst, hsecond⟩ := addOwnerToCommitment_spec (E := E)
      (computeOwnerChain E owners) k (OwnerStore.getWitness ⟨owners⟩) (markerAt owners i)
    rw [hpresent] at hfirst hsecond
    apply Prod.ext
    · rw [hfirst, insertOwner_markerAt hnodup hle, hchain]
    · exact hsecond.mpr ⟨hnew, markerAt_mem hle, rfl⟩
  refine ⟨fun k hnew hinserted ↦ ⟨?_, ?_⟩, fun p htype ↦ ⟨fun haccept ↦ ?_, ?_⟩⟩
  · intro i hi p htype hk hdata
    have hnotMem : k ∉ owners := fun hmem ↦ hnew k hmem rfl
    obtain ⟨j, hj⟩ := OwnerStore.insertPositionFor_isSome B ⟨owners⟩ (E := E) hi hdata.symm
    obtain ⟨hjle, hchain⟩ := OwnerStore.insertPositionFor_some B ⟨owners⟩ hj
    have hlists := T.computeOwnerChain_inj (hinserted j hjle) (hinserted i hi)
      (hchain.trans hdata)
    obtain rfl := insertIdx_inj hnotMem hjle hi hlists
    refine ⟨hj, ?_, hposition hnew hj⟩
    rw [assertExecutableAddOwnerData_ok B htype, hk]
    exact ⟨hnew, j, hj⟩
  · obtain ⟨i, hi, hsorted⟩ := @OwnerStore.addSorted_eq _ B ⟨owners⟩ k
    refine ⟨i, hi, ?_⟩
    unfold OwnerStore.commitmentWithSortedAdd OwnerStore.getCommitment
    rw [hsorted]
  · obtain ⟨hnew, i, hi⟩ := (assertExecutableAddOwnerData_ok B htype).mp haccept
    exact hposition hnew hi
  · rintro hrefuse w after hw ⟨hvalid, hdata⟩
    obtain ⟨hfirst, hsecond⟩ := addOwnerToCommitment_spec (E := E)
      (computeOwnerChain E owners) p.slot0.address w after
    obtain ⟨hnew, hpos, hchain⟩ := hsecond.mp hvalid
    have hpresent := T.computeOwnerChain_inj hw hhashed hchain
    rw [hpresent] at hfirst hnew hpos
    obtain ⟨i, hi, hinsert⟩ := @insertOwner_eq_insertIdx _ p.slot0.address hnodup _ hpos
    rw [hinsert, hdata] at hfirst
    exact hrefuse ((assertExecutableAddOwnerData_ok B htype).mpr
      ⟨hnew, OwnerStore.insertPositionFor_isSome B ⟨owners⟩ hi hfirst.symm⟩)

namespace Walkthrough

/-- The third owner is added behind the two others. -/
theorem thirdOwner_flow :
    OwnerStore.insertPositionFor base58 ⟨[ownerA, ownerB]⟩ ownerC (fieldText addOwnerC.data) =
        some 2 ∧
      assertExecutableAddOwnerData base58 addOwnerC ⟨[ownerA, ownerB]⟩ = .ok () ∧
      ∃ after, approvedInsertAfter base58 ⟨[ownerA, ownerB]⟩ ownerC addOwnerC.data =
          .ok after ∧
        addOwnerToCommitment tables.env (computeOwnerChain tables.env [ownerA, ownerB])
          ownerC (OwnerStore.getWitness ⟨[ownerA, ownerB]⟩) after = (addOwnerC.data, true) := by
  have hall : ∀ i ≤ 2, ∀ q ∈ ownerChainInputs tables.env ([ownerA, ownerB].insertIdx i ownerC),
      q ∈ tables.inputs := by decide +kernel
  exact ((add_owner_flow (T := tables.transcript) base58
    (by decide) (by decide) twoOwners_recorded).1 ownerC (by decide) hall).1 2 le_rfl addOwnerC
    rfl rfl (by decide +kernel)

end Walkthrough

end MinaGuard
