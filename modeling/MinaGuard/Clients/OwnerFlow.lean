import MinaGuard.Clients.RebuildOwners

/-!
# Adding an owner from a client

The parts of `OwnerStore` behind ADD_OWNER, and the two helpers that the web
worker and the offline CLI share.  The clients look for the position of the new
key by its chain; the circuit takes the key in front of it.
-/

namespace MinaGuard

open Foundations

variable {E : Env} (B : Base58 E)

namespace OwnerStore

variable (store : OwnerStore)

/-- Insert owner after the given key, in front when there is none. -/
def insertAfter (owner : PublicKey) : Option PublicKey → Except String OwnerStore
  | none => .ok ⟨owner :: store.owners⟩
  | some afterOwner =>
      match store.owners.findIdx? fun o ↦ B.toBase58 o = B.toBase58 afterOwner with
      | none => .error "afterOwner not found"
      | some idx => .ok ⟨store.owners.insertIdx (idx + 1) owner⟩

def hasOwnerWithSameX (owner : PublicKey) : Bool := store.owners.any fun o ↦ o.x = owner.x

def commitmentWithSortedAdd (owner : PublicKey) : Fp :=
  (store.addSorted B owner).getCommitment E

def getWitness : OwnerWitness := ownerWitness store.owners

end OwnerStore

/-- The key in front of the position whose chain equals the approved `data`. -/
def approvedInsertAfter (ownerStore : OwnerStore) (target : PublicKey) (data : Fp) :
    Except String PublicKeyOption :=
  match ownerStore.insertPositionFor B target (fieldText data) with
  | none =>
      .error ("No position in the current owner list produces this addOwner proposal's " ++
        "approved owner commitment; it can never execute.")
  | some 0 => .ok ⟨false, PublicKey.empty⟩
  | some (position + 1) => .ok ⟨true, (ownerStore.owners[position]?).getD PublicKey.empty⟩

/-- Refuses to sign an ADD_OWNER proposal that can never execute. -/
def assertExecutableAddOwnerData (proposal : TransactionProposal) (ownerStore : OwnerStore) :
    Check :=
  if proposal.txType ≠ TxType.addOwner then pure ()
  else do
    let target := proposal.slot0.address
    assertFalse (ownerStore.hasOwnerWithSameX target = true)
      ("addOwner target is already an owner or the negation of one (same key holder); " ++
        "the proposal can never execute, approval refused")
    assertFalse (ownerStore.insertPositionFor B target (fieldText proposal.data) = none)
      ("addOwner proposal data matches no position in the current owner list; it can " ++
        "never execute, approval refused")

theorem assertExecutableAddOwnerData_ok {p : TransactionProposal} {store : OwnerStore}
    (htype : p.txType = TxType.addOwner) {u : Unit} :
    assertExecutableAddOwnerData B p store = .ok u ↔
      (∀ o ∈ store.owners, o.x ≠ p.slot0.address.x) ∧
        ∃ i, store.insertPositionFor B p.slot0.address (fieldText p.data) = some i := by
  unfold assertExecutableAddOwnerData
  rw [if_neg (not_not.mpr htype)]
  simp only [Check.bind_ok, Check.assertFalse_ok, exists_and_left, exists_const,
    OwnerStore.hasOwnerWithSameX, List.any_eq_true, decide_eq_true_eq, not_exists, not_and,
    Option.ne_none_iff_exists', Ne]

section Positions

variable {owners : List PublicKey} {owner : PublicKey} {i : ℕ}

/-- The key that marks position `i`: the one in front of it. -/
def markerAt (owners : List PublicKey) : ℕ → PublicKeyOption
  | 0 => ⟨false, PublicKey.empty⟩
  | i + 1 => ⟨true, (owners[i]?).getD PublicKey.empty⟩

theorem flatMap_marked_of_notMem {marked : PublicKey} (h : marked ∉ owners) :
    (owners.flatMap fun pk ↦ if true = true ∧ pk = marked then [pk, owner] else [pk]) =
      owners := by
  induction owners with
  | nil => rfl
  | cons pk owners ih =>
      have hne : pk ≠ marked := fun heq ↦ h (heq ▸ List.mem_cons_self)
      rw [List.flatMap_cons, ih fun hmem ↦ h (List.mem_cons_of_mem pk hmem),
        if_neg (fun hpk ↦ hne hpk.2)]
      rfl

/-- In a list without repetitions, inserting behind a key is inserting at the
next position. -/
theorem insertOwner_getElem (hnodup : owners.Nodup) (hi : i < owners.length) :
    insertOwner ⟨true, owners[i]⟩ owner owners = owners.insertIdx (i + 1) owner := by
  have hsplit : owners = owners.take i ++ owners[i] :: owners.drop (i + 1) := by
    rw [← List.drop_eq_getElem_cons hi, List.take_append_drop]
  have hnodup' := hnodup
  rw [hsplit] at hnodup'
  obtain ⟨-, htail, hdisjoint⟩ := List.nodup_append.mp hnodup'
  have hfront : owners[i] ∉ owners.take i := fun hmem ↦
    hdisjoint _ hmem _ List.mem_cons_self rfl
  have hback : owners[i] ∉ owners.drop (i + 1) := (List.nodup_cons.mp htail).1
  rw [insertIdx_eq_take_drop _ _ hi]
  have hinsert : insertOwner ⟨true, owners[i]⟩ owner owners =
      owners.flatMap fun pk ↦ if true = true ∧ pk = owners[i] then [pk, owner] else [pk] := rfl
  rw [hinsert]
  generalize owners[i] = marked at hsplit hfront hback ⊢
  conv_lhs => rw [hsplit]
  rw [List.flatMap_append, List.flatMap_cons, flatMap_marked_of_notMem hfront,
    flatMap_marked_of_notMem hback, if_pos ⟨rfl, rfl⟩]
  have htake : owners.take (i + 1) = owners.take i ++ [marked] := by
    conv_lhs => rw [hsplit]
    have hlength : (owners.take i).length = i := List.length_take_of_le hi.le
    rw [List.take_append, hlength, Nat.add_sub_cancel_left,
      List.take_of_length_le (hlength.le.trans (Nat.le_succ i))]
    rfl
  rw [htake]
  simp

/-- Inserting at a position is inserting behind its marker. -/
theorem insertOwner_markerAt (hnodup : owners.Nodup) (hi : i ≤ owners.length) :
    insertOwner (markerAt owners i) owner owners = owners.insertIdx i owner := by
  cases i with
  | zero => simp [insertOwner, markerAt]
  | succ i =>
      have hlt : i < owners.length := hi
      rw [markerAt, List.getElem?_eq_getElem hlt]
      exact insertOwner_getElem hnodup hlt

theorem markerAt_mem (hi : i ≤ owners.length) (hsome : (markerAt owners i).isSome = true) :
    (markerAt owners i).value ∈ owners := by
  cases i with
  | zero => cases hsome
  | succ i =>
      have hlt : i < owners.length := hi
      rw [markerAt, List.getElem?_eq_getElem hlt]
      exact List.getElem_mem hlt

/-- Every insertion the circuit accepts is at some position. -/
theorem insertOwner_eq_insertIdx (hnodup : owners.Nodup) {insertAfter : PublicKeyOption}
    (hpos : insertAfter.isSome = true → insertAfter.value ∈ owners) :
    ∃ i ≤ owners.length, insertOwner insertAfter owner owners = owners.insertIdx i owner := by
  obtain ⟨isSome, marked⟩ := insertAfter
  cases isSome with
  | false => exact ⟨0, Nat.zero_le _, by simp [insertOwner]⟩
  | true =>
      obtain ⟨i, hi, rfl⟩ := List.getElem_of_mem (hpos rfl)
      exact ⟨i + 1, hi, insertOwner_getElem hnodup hi⟩

theorem insertIdx_inj (hnew : owner ∉ owners) {j : ℕ} (hi : i ≤ owners.length)
    (hj : j ≤ owners.length) (h : owners.insertIdx i owner = owners.insertIdx j owner) :
    i = j := by
  have hidx {n : ℕ} (hn : n ≤ owners.length) :
      (owners.insertIdx n owner).idxOf owner = n := by
    have hfront : owner ∉ owners.take n := fun hmem ↦ hnew (List.mem_of_mem_take hmem)
    rw [insertIdx_eq_take_drop _ _ hn, List.idxOf_append_of_notMem hfront,
      List.idxOf_cons_self, List.length_take_of_le hn]
    rfl
  rw [← hidx hi, h, hidx hj]

end Positions

namespace OwnerStore

variable (store : OwnerStore) {owner : PublicKey}

theorem approvedInsertAfter_eq {data : Fp} {i : ℕ}
    (h : store.insertPositionFor B owner (fieldText data) = some i) :
    approvedInsertAfter B store owner data = .ok (markerAt store.owners i) := by
  unfold approvedInsertAfter
  rw [h]
  cases i <;> rfl

/-- The client inserts where the circuit does. -/
theorem insertAfter_eq (hnodup : store.owners.Nodup) {after : PublicKeyOption}
    (hpos : after.isSome = true → after.value ∈ store.owners) :
    store.insertAfter B owner (if after.isSome then some after.value else none) =
      .ok ⟨insertOwner after owner store.owners⟩ := by
  obtain ⟨isSome, marked⟩ := after
  cases isSome with
  | false => simp [insertAfter, insertOwner]
  | true =>
      have hmem : marked ∈ store.owners := hpos rfl
      have hsome : (store.owners.findIdx? fun o ↦ B.toBase58 o = B.toBase58 marked).isSome := by
        rw [List.findIdx?_isSome, List.any_eq_true]
        exact ⟨marked, hmem, by simp⟩
      obtain ⟨idx, hidx⟩ := Option.isSome_iff_exists.mp hsome
      obtain ⟨hlt, heq, -⟩ := List.findIdx?_eq_some_iff_getElem.mp hidx
      obtain rfl : store.owners[idx] = marked := by
        simpa [B.toBase58_injective.eq_iff] using heq
      rw [if_pos rfl, insertAfter, hidx]
      exact congrArg (fun owners ↦ Except.ok (OwnerStore.mk owners))
        (insertOwner_getElem hnodup hlt).symm

/-- Adding in base58 order is adding at some position. -/
theorem addSorted_eq : ∃ i ≤ store.owners.length,
    (store.addSorted B owner).owners = store.owners.insertIdx i owner := by
  unfold addSorted sortedIndex
  cases hidx : store.owners.findIdx? _ with
  | none =>
      refine ⟨store.owners.length, le_rfl, ?_⟩
      rw [insertIdx_eq_take_drop _ _ le_rfl, List.take_length, List.drop_length]
  | some idx =>
      obtain ⟨hlt, -⟩ := List.findIdx?_eq_some_iff_getElem.mp hidx
      exact ⟨idx, hlt.le, rfl⟩

end OwnerStore

end MinaGuard
