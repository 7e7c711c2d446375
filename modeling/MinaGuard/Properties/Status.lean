import MinaGuard.Clients.RebuildMaps
import MinaGuard.Indexer.ProposalRecord
import MinaGuard.Instance.Keys
import MinaGuard.Properties.DeadProposals

/-!
# The status of a proposal is sound

A proposal that the API calls expired or invalidated is dead, although the
snapshots of its guard and its target may be old ones of different ages, and
although numbers are compared as doubles.
-/

namespace MinaGuard

open Foundations

variable {E : Env} {B : Base58 E} {T : Transcript E} {guards : Set PublicKey}
  {as : List (Action E)} {L : Ledger} {p : TransactionProposal}

/-- The row has the columns of the proposal. -/
structure Db.Proposal.Describes (row : Db.Proposal) (B : Base58 E) (p : TransactionProposal) :
    Prop where
  txType : row.txType = some (fieldText p.txType)
  nonce : row.nonce = some (fieldText p.nonce)
  configNonce : row.configNonce = some (fieldText p.configNonce)
  expirySlot : row.expirySlot = some (fieldText p.expirySlot)
  destination : row.destination = normalizeDestination (some (fieldText p.destination))
  childAccount : p.childAccount ≠ PublicKey.empty →
    row.childAccount = some (B.toBase58 p.childAccount)

/-- The event of a proposal describes it. -/
theorem describe_describes {lib : Backend E} {chainEvent : ChainEvent} {k : PublicKey}
    (h : chainEvent.event = .payload ((proposalEvent E p k).payload lib.base58))
    (row : Db.Proposal) : (row.describe lib chainEvent).Describes lib.base58 p := by
  have hget (key : String) : chainEvent.event.get key =
      ((proposalEvent E p k).components.lookup key).map fun v ↦
        .string (serializeValue lib.base58 v) := by
    rw [h]
    exact lookup_toSerializableObject lib.base58 _ key
  have hchild : asString (chainEvent.event.get "childAccount") =
      some (lib.base58.toBase58 p.childAccount) := congrArg asString (hget "childAccount")
  exact
    { txType := congrArg asString (hget "txType")
      nonce := congrArg asString (hget "nonce")
      configNonce := congrArg asString (hget "configNonce")
      expirySlot := congrArg asString (hget "expirySlot")
      destination := congrArg (fun v ↦ normalizeDestination (asString v)) (hget "destination")
      childAccount := fun hne ↦ by
        change asNullableAddress lib (asString (chainEvent.event.get "childAccount")) = _
        rw [hchild]
        unfold asNullableAddress truthy
        dsimp only
        rw [if_neg (lib.base58.toBase58_ne_empty _)]
        exact if_neg (lib.base58.toBase58_eq_emptyKey.not.mpr hne) }

/-- The snapshot has the counters of a state, where it has any. -/
structure Db.ContractConfig.Mirrors (row : Db.ContractConfig) (s : GuardState) : Prop where
  nonce : ∀ n, row.nonce = some n → n = s.nonce.val ∧ n < 2 ^ 31
  parentNonce : ∀ n, row.parentNonce = some n → n = s.parentNonce.val ∧ n < 2 ^ 31
  configNonce : ∀ n, row.configNonce = some n → n = s.configNonce.val ∧ n < 2 ^ 31

/-- A state that a run passed through on its way to `L`, or `L` itself. -/
def Past (T : Transcript E) (guards : Set PublicKey) (L M : Ledger) : Prop :=
  ∃ as bs, (ledgerSystem T guards).Run as M ∧ (ledgerSystem T guards).Path M bs L

/-- What is indexed of the guard of a proposal and of its target was true once. -/
structure Indexed (B : Base58 E) (T : Transcript E) (guards : Set PublicKey) (L : Ledger)
    (db : Database) (proposal : Db.Proposal) (p : TransactionProposal) : Prop where
  describes : proposal.Describes B p
  guard : ∀ row, db.getLatestConfig proposal.contractId = some row →
    ∃ M, Past T guards L M ∧ row.Mirrors (M.state p.guardAddress)
  target : isRemoteNonCreate p → ∀ child,
    db.findContractAt (B.toBase58 p.childAccount) = some child →
      child.ready = true → child.permissionsVerified = true → p.childAccount ∈ guards ∧
        ∀ row, db.getLatestConfig child.id = some row →
          ∃ M, Past T guards L M ∧ row.Mirrors (M.state p.childAccount)

section Labels

variable {db : Database} {proposal : Db.Proposal} {latestSlot : ℕ}

theorem isExpired_iff : isExpired proposal latestSlot = true ↔
    ∃ expiry, finiteNumber (proposal.expirySlot.getD "0") = some expiry ∧ 0 < expiry ∧
      expiry < latestSlot := by
  unfold isExpired
  cases finiteNumber (proposal.expirySlot.getD "0") <;> simp

theorem proposalStatus_expired (h : proposalStatus db proposal latestSlot = .expired) :
    isExpired proposal latestSlot = true := by
  unfold proposalStatus deriveStatus at h
  split at h
  · cases h
  · split at h
    · assumption
    · split at h <;> cases h

theorem proposalStatus_invalidated (h : proposalStatus db proposal latestSlot = .invalidated) :
    ∃ reason, proposalInvalidReason db proposal = some reason := by
  unfold proposalStatus deriveStatus at h
  split at h
  · cases h
  · split at h
    · cases h
    · split at h
      · next hne => exact Option.ne_none_iff_exists'.mp hne
      · cases h

theorem toContractState_bind {config : Option Db.ContractConfig} {f : ContractState → Option ℕ}
    {n : ℕ} (h : (toContractState config).bind f = some n) :
    ∃ row, config = some row ∧ f ⟨row.nonce, row.parentNonce, row.configNonce⟩ = some n := by
  cases config with
  | none => cases h
  | some row => exact ⟨row, rfl, h⟩

/-- Where the target of a proposal is known from. -/
theorem proposalChildState_bind {f : ContractState → Option ℕ} {n : ℕ}
    (h : (proposalChildState db proposal).bind f = some n) :
    proposal.destination = some "remote" ∧ proposal.txType ≠ some "5" ∧
      ∃ address child row, truthy proposal.childAccount = some address ∧
        db.findContractAt address = some child ∧ child.ready = true ∧
        child.permissionsVerified = true ∧ db.getLatestConfig child.id = some row ∧
        f ⟨row.nonce, row.parentNonce, row.configNonce⟩ = some n := by
  unfold proposalChildState at h
  split at h
  · next htarget =>
      refine ⟨htarget.1, htarget.2, ?_⟩
      rw [Option.bind_assoc] at h
      obtain ⟨address, haddress, h⟩ := Option.bind_eq_some_iff.mp h
      unfold resolveChildState at h
      split at h
      · cases h
      · next child hchild =>
          split at h
          · cases h
          · next hready =>
              rw [not_or, not_not, not_not] at hready
              obtain ⟨row, hrow, hn⟩ := toContractState_bind h
              exact ⟨address, child, row, haddress, hchild, hready.1, hready.2, hrow, hn⟩
  · cases h

theorem isConfigStale_iff {parent : Option ContractState} :
    isConfigStale proposal parent = true ↔ ∃ current parsed,
      parent.bind ContractState.configNonce = some current ∧
      proposal.configNonce.bind finiteNumber = some parsed ∧ parsed < current := by
  unfold isConfigStale
  cases parent.bind ContractState.configNonce with
  | none => simp
  | some current => cases proposal.configNonce.bind finiteNumber <;> simp

/-- The three ways to be invalidated. -/
theorem proposalInvalidReason_some {reason : InvalidReason}
    (h : proposalInvalidReason db proposal = some reason) :
    (∃ row current parsed, db.getLatestConfig proposal.contractId = some row ∧
      row.configNonce = some current ∧
      proposal.configNonce.bind finiteNumber = some parsed ∧ parsed < current) ∨
    ∃ parsed, proposal.nonce.bind finiteNumber = some parsed ∧ proposal.txType ≠ some "5" ∧
      ((proposal.destination ≠ some "remote" ∧
        ∃ row nonce, db.getLatestConfig proposal.contractId = some row ∧
          row.nonce = some nonce ∧ parsed ≤ nonce) ∨
      ∃ nonce, (proposalChildState db proposal).bind ContractState.parentNonce = some nonce ∧
        parsed ≤ nonce) := by
  unfold proposalInvalidReason deriveInvalidReason at h
  split at h
  · next hstale =>
      obtain ⟨current, parsed, hcurrent, hparsed, hlt⟩ := isConfigStale_iff.mp hstale
      obtain ⟨row, hrow, hnonce⟩ := toContractState_bind hcurrent
      exact Or.inl ⟨row, current, parsed, hrow, hnonce, hparsed, hlt⟩
  · right
    split at h
    · cases h
    · next htype =>
        split at h
        · cases h
        · next parsed hparsed =>
            refine ⟨parsed, hparsed, htype, ?_⟩
            dsimp only at h
            by_cases hremote : proposal.destination = some "remote"
            · rw [if_pos hremote] at h
              split at h
              · cases h
              · next nonce hnonce =>
                  exact Or.inr ⟨nonce, hnonce, (Option.ite_none_right_eq_some.mp h).1⟩
            · rw [if_neg hremote] at h
              split at h
              · cases h
              · next nonce hnonce =>
                  obtain ⟨row, hrow, hn⟩ := toContractState_bind hnonce
                  exact Or.inl ⟨hremote, row, nonce, hrow, hn,
                    (Option.ite_none_right_eq_some.mp h).1⟩

end Labels

/-- The proposal is recorded on chain: its first vote is `propose`. -/
def RecordedOnChain (as : List (Action E)) (p : TransactionProposal) : Prop :=
  ∃ g m F k, .call g m F ∈ as ∧ m.vote? = some (p, k)

theorem RecordedOnChain.checked (h : RecordedOnChain as p)
    (run : (ledgerSystem T guards).Run as L) :
    p.guardAddress ∈ guards ∧ ∃ parent, DestinationRules p parent := by
  obtain ⟨g, m, F, k, hmem, hm⟩ := h
  obtain ⟨_, _, M, M', -, -, hstep, -⟩ := run.exists_step hmem
  have hcall := LedgerStep.call_inv hstep
  obtain ⟨P, rfl, hprove⟩ := hcall.proved
  obtain ⟨_, _, _, _, hchecks, -⟩ := MethodCall.voteChecks hm hprove hcall.included
  exact ⟨hchecks.guard ▸ hcall.guard, _, hchecks.destination⟩

theorem Db.Proposal.Describes.remote_iff {row : Db.Proposal} (h : row.Describes B p)
    {parent : PublicKey} (hrules : DestinationRules p parent) :
    row.destination = some "remote" ↔ p.destination = destinationRemote := by
  rw [h.destination]
  rcases hrules with ⟨hlocal, -⟩ | ⟨hremote, -⟩
  · rw [hlocal]
    exact iff_of_false (by decide +kernel) destinationLocal_ne_remote
  · rw [hremote]
    exact iff_of_true (by decide +kernel) rfl

theorem Past.dead {M : Ledger} (h : Past T guards L M) (hguard : p.guardAddress ∈ guards)
    (hdead : Dead guards M p) : Dead guards L p := by
  obtain ⟨_, _, run, path⟩ := h
  exact hdead.later run hguard path

variable {db : Database} {proposal : Db.Proposal} {latestSlot : ℕ}

/-- A proposal that is invalidated is dead. -/
theorem Indexed.dead_of_invalidated (h : Indexed B T guards L db proposal p)
    (hguard : p.guardAddress ∈ guards) {parent : PublicKey} (hrules : DestinationRules p parent)
    {reason : InvalidReason} (hreason : proposalInvalidReason db proposal = some reason) :
    Dead guards L p := by
  have hexact {column : Option String} {x : Fp} {parsed : ℚ} {n : ℕ}
      (hcolumn : column = some (fieldText x)) (hparsed : column.bind finiteNumber = some parsed)
      (hle : parsed ≤ n) (hn : n < 2 ^ 31) : parsed = x.val := by
    have hsmall : (n : ℚ) < 2 ^ 53 := by exact_mod_cast hn.trans (by decide)
    rw [hcolumn] at hparsed
    exact eq_of_finiteNumber_decimal hparsed (hle.trans_lt hsmall)
  rcases proposalInvalidReason_some hreason with
    ⟨row, current, parsed, hrow, hcurrent, hparsed, hlt⟩ |
      ⟨parsed, hparsed, htype, ⟨hlocal, row, nonce, hrow, hnonce, hle⟩ | ⟨nonce, hnonce, hle⟩⟩
  · obtain ⟨M, hpast, hmirrors⟩ := h.guard row hrow
    obtain ⟨hval, hsmall⟩ := hmirrors.configNonce current hcurrent
    have heq := hexact h.describes.configNonce hparsed hlt.le hsmall
    rw [heq, Nat.cast_lt] at hlt
    exact hpast.dead hguard (.configuration (hval ▸ hlt))
  · obtain ⟨M, hpast, hmirrors⟩ := h.guard row hrow
    obtain ⟨hval, hsmall⟩ := hmirrors.nonce nonce hnonce
    have heq := hexact h.describes.nonce hparsed hle hsmall
    have hdestination : p.destination = destinationLocal := by
      have hnot := (h.describes.remote_iff hrules).not.mp hlocal
      rcases hrules with ⟨hdest, -⟩ | ⟨hremote, -⟩
      · exact hdest
      · exact absurd hremote hnot
    rw [heq, Nat.cast_le] at hle
    exact hpast.dead hguard (.localNonce hdestination (hval ▸ hle))
  · obtain ⟨hremote, -, address, child, row, haddress, hchild, hready, hverified, hrow, hn⟩ :=
      proposalChildState_bind hnonce
    have htarget : isRemoteNonCreate p := by
      refine ⟨(h.describes.remote_iff hrules).mp hremote, fun hcreate ↦ htype ?_⟩
      rw [h.describes.txType, hcreate]
      decide +kernel
    have hne : p.childAccount ≠ PublicKey.empty := by
      rcases hrules with ⟨hdest, -⟩ | ⟨-, hne, -⟩
      · exact absurd (hdest.symm.trans htarget.1) destinationLocal_ne_remote
      · exact hne
    have hkey : B.toBase58 p.childAccount = address := by
      rw [h.describes.childAccount hne] at haddress
      exact Option.some.inj (Option.ite_none_left_eq_some.mp haddress).2
    rw [← hkey] at hchild
    obtain ⟨hmem, hmirror⟩ := h.target htarget child hchild hready hverified
    obtain ⟨M, hpast, hmirrors⟩ := hmirror row hrow
    obtain ⟨hval, hsmall⟩ := hmirrors.parentNonce nonce hn
    have heq := hexact h.describes.nonce hparsed hle hsmall
    rw [heq, Nat.cast_le] at hle
    exact hpast.dead hguard (.childNonce htarget hmem (hval ▸ hle))

theorem Indexed.dead_of_expired (h : Indexed B T guards L db proposal p)
    (hslot : latestSlot ≤ L.slot) (hsmall : latestSlot < 2 ^ 32)
    (hexpired : isExpired proposal latestSlot = true) : Dead guards L p := by
  obtain ⟨expiry, hexpiry, hpos, hlt⟩ := isExpired_iff.mp hexpired
  rw [h.describes.expirySlot] at hexpiry
  have hslots : (latestSlot : ℚ) < 2 ^ 53 := by exact_mod_cast hsmall.trans (by decide)
  have heq := eq_of_finiteNumber_decimal hexpiry (hlt.trans hslots)
  rw [heq, Nat.cast_lt] at hlt
  refine .expired ?_ (hlt.trans_le hslot)
  rintro hzero
  rw [heq, hzero, ZMod.val_zero, Nat.cast_zero] at hpos
  exact lt_irrefl 0 hpos

/-- A proposal that is called expired or invalidated is never approved or executed
again, and one that can be executed is called neither. -/
theorem proposalStatus_sound (run : (ledgerSystem T guards).Run as L)
    (hrecorded : RecordedOnChain as p) (h : Indexed B T guards L db proposal p)
    (latestSlot : UInt32) (hslot : latestSlot.toNat ≤ L.slot) :
    (proposalStatus db proposal latestSlot.toNat = .expired ∨
        proposalStatus db proposal latestSlot.toNat = .invalidated →
      ∀ bs L' a m F L'', (ledgerSystem T guards).Path L bs L' →
        LedgerStep T guards L' (.call a m F) L'' → m.proposal? ≠ some p) ∧
    ((∃ a m F L', LedgerStep T guards L (.call a m F) L' ∧
        (m.localExecution? = some p ∨ m.remoteExecution? = some p)) →
      proposalStatus db proposal latestSlot.toNat ≠ .expired ∧
        proposalStatus db proposal latestSlot.toNat ≠ .invalidated) := by
  obtain ⟨hguard, parent, hrules⟩ := hrecorded.checked run
  have hdead : proposalStatus db proposal latestSlot.toNat = .expired ∨
      proposalStatus db proposal latestSlot.toNat = .invalidated → Dead guards L p := by
    rintro (hlabel | hlabel)
    · exact h.dead_of_expired hslot latestSlot.toNat_lt (proposalStatus_expired hlabel)
    · obtain ⟨reason, hreason⟩ := proposalStatus_invalidated hlabel
      exact h.dead_of_invalidated hguard hrules hreason
  refine ⟨?_, ?_⟩
  · intro hlabel bs L' a m F L'' path step hm
    exact (live_of_call (run.extend path) step hm).not_dead ((hdead hlabel).later run hguard path)
  · rintro ⟨a, m, F, L', step, hm⟩
    have hlive : Live guards L p := by
      rcases hm with hm | hm
      · exact live_of_localExecution run step hm
      · exact live_of_remoteExecution run step hm
    exact ⟨fun hlabel ↦ hlive.not_dead (hdead (Or.inl hlabel)),
      fun hlabel ↦ hlive.not_dead (hdead (Or.inr hlabel))⟩

namespace Walkthrough

/-- The row of the proposal that creates the child. -/
def createChildRow : Db.Proposal where
  __ := Db.Proposal.blank 1 1 "6" (some (keyText ownerA)) 3
  txType := some "5"
  nonce := some "0"
  configNonce := some "0"
  expirySlot := some "0"
  destination := some "remote"
  childAccount := some (keyText child)

/-- The snapshot that follows the addition of an owner. -/
def addedConfig : Db.ContractConfig where
  contractId := 1
  validFromBlock := 9
  eventOrder := 0
  sourceEventId := none
  threshold := some 2
  numOwners := some 3
  nonce := some 1
  parentNonce := some 0
  configNonce := some 1
  delegate := none
  childMultiSigEnabled := some true
  ownersCommitment := some "4"

def addedDatabase : Database where
  contractConfigs := [addedConfig]
  proposals := [createChildRow]

theorem createChild_indexed : Indexed base58 tables.transcript {a | a ∈ Walkthrough.guards}
    added.ledger addedDatabase createChildRow createChild where
  describes :=
    { txType := by decide +kernel
      nonce := by decide +kernel
      configNonce := by decide +kernel
      expirySlot := by decide +kernel
      destination := by decide +kernel
      childAccount := fun _ ↦ rfl }
  guard := by
    intro row hrow
    obtain rfl : addedConfig = row := Option.some.inj hrow
    refine ⟨added.ledger, ⟨_, [], run_added, rfl⟩, ?_, ?_, ?_⟩
    all_goals
      rintro n hn
      obtain rfl := Option.some.inj hn
      decide +kernel
  target := fun htarget ↦ absurd rfl htarget.2

theorem createChild_invalidated :
    proposalStatus addedDatabase createChildRow 10 = .invalidated ∧
      ∀ bs L' a m F L'', system.Path added.ledger bs L' → system.step L' (.call a m F) L'' →
        m.proposal? ≠ some createChild := by
  have hstatus : proposalStatus addedDatabase createChildRow 10 = .invalidated := by
    decide +kernel
  have hrecorded : RecordedOnChain (actionsBeforeAdd ++ [add]) createChild :=
    ⟨root, proposeCreate, _, ownerA, List.mem_append_left _ (List.mem_of_getElem? (i := 2) rfl),
      rfl⟩
  exact ⟨hstatus, (proposalStatus_sound run_added hrecorded createChild_indexed 10
    (by decide +kernel)).1 (Or.inr hstatus)⟩

end Walkthrough

end MinaGuard
