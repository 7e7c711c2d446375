import MinaGuard.Clients.ChildConfigSpec
import MinaGuard.Contract.HonestProver
import MinaGuard.Instance.Keys

/-!
# SubVault reservations

From a configuration that the offline CLI accepts for a proposal, through the
reservation on chain and its events, to the bundles that approve and execute the
creation: all hash one owner list in one order.
-/

namespace MinaGuard

open Foundations

variable {E : Env}

/-- A bundle that approves or executes a CREATE_CHILD proposal with this
configuration and data. -/
structure CarriesConfig (bundle : JsValue) (config : ChildConfig) (data : Fp) : Prop where
  txType : requireTxType ((bundle.get "proposal").get "txType") = .ok .createChild
  childAddress : (bundle.get "childAddress").strictEq .undefined = true ∨
    (bundle.get "childAddress").strictEq ((bundle.get "proposal").get "childAccount") = true
  owners : bundle.get "childOwners" = .array (config.owners.map .string)
  threshold : bundle.get "childThreshold" = .number config.threshold
  data : (bundle.get "proposal").get "data" = .string (fieldText data)

/-- A bundle with the configuration of a proposal is accepted. -/
theorem assertCreateChildBundleConfig_ok {B : Base58 E} {slots : List PublicKey} {threshold : ℕ}
    (h : Announced E slots threshold) {bundle : JsValue}
    (hbundle : CarriesConfig bundle ⟨slots.map B.toBase58, threshold⟩
      (E.childConfigHash (computeOwnerChain E slots) threshold slots.length)) :
    assertCreateChildBundleConfig B bundle = .ok (some ⟨slots.map B.toBase58, threshold⟩) := by
  have haddress : ¬(¬(bundle.get "childAddress").strictEq .undefined = true ∧
      ¬(bundle.get "childAddress").strictEq
        ((bundle.get "proposal").get "childAccount") = true) := by
    rw [not_and_or, not_not, not_not]
    exact hbundle.childAddress
  have hdata : (((bundle.get "proposal").get "data").orElse (.string "")).strictEq
      (.string (fieldText (E.childConfigHash (computeOwnerChain E slots) threshold
        slots.length))) = true := by
    rw [hbundle.data]
    exact decide_eq_true rfl
  have hchecked : checkedChildConfigHash B (bundle.get "childOwners")
      (bundle.get "childThreshold") .reserved =
        .ok ⟨⟨slots.map B.toBase58, threshold⟩,
          E.childConfigHash (computeOwnerChain E slots) threshold slots.length⟩ := by
    rw [hbundle.owners, hbundle.threshold]
    exact checkedChildConfigHash_announced h .reserved
  unfold assertCreateChildBundleConfig
  dsimp only
  refine Check.bind_ok.mpr ⟨_, hbundle.txType, ?_⟩
  rw [if_neg (not_not.mpr rfl), if_neg haddress]
  exact Check.bind_ok.mpr ⟨_, hchecked, if_neg (not_not.mpr hdata)⟩

/-- The way of a configuration through the parties: `slots` are the owners as
reserved, `data` is the signed hash. -/
structure RoundTrip (B : Base58 E) (input : JsValue) (config : ChildConfig)
    (L : Ledger) (parent child : PublicKey) (proposalHash : Fp) (ownerStore : OwnerStore)
    (slots : List PublicKey) (data : Fp) (F : Forest) (L' : Ledger) : Prop where
  /-- The call that the CLI builds. -/
  call : reserveForParentCall B input parent proposalHash =
    .ok (.reserveForParent parent proposalHash config.threshold slots.length (setupInput slots))
  proved : (MethodCall.reserveForParent parent proposalHash config.threshold slots.length
    (setupInput slots) : MethodCall E).prove (L.prover child) = .ok F
  included : F.apply L = some L'
  signed : buildProposalDataField B .createChild input ownerStore = .ok data
  /-- Nobody is lost or added. -/
  perm : (slots.map B.toBase58).Perm config.owners
  /-- The web client reads the slots back from the events. -/
  parsed : ∀ delivered : List (ℕ × Event), (delivered.map Prod.snd).Perm F.self.events →
    parseChildConfigFromEvents B (delivered.map (indexed B)) (B.toBase58 child) =
      .ok (some ⟨slots.map B.toBase58, config.threshold⟩)
  webHash : ∃ commitment,
    computeCreateChildConfigHash B ⟨slots.map B.toBase58, config.threshold⟩ true =
      .ok ⟨commitment, fieldText data⟩
  cliHash : checkedChildConfigHash B (.array ((slots.map B.toBase58).map .string))
    (.number config.threshold) .reserved =
      .ok ⟨⟨slots.map B.toBase58, config.threshold⟩, data⟩
  accepted : ∀ bundle, CarriesConfig bundle ⟨slots.map B.toBase58, config.threshold⟩ data →
    assertCreateChildBundleConfig B bundle =
      .ok (some ⟨slots.map B.toBase58, config.threshold⟩)
  setupCall : ∀ bundle, CarriesConfig bundle ⟨slots.map B.toBase58, config.threshold⟩ data →
    ∀ (p : TransactionProposal) (w : E.MerkleMapWitness) (count : Fp),
      executeSetupChildCall B bundle p w count =
        .ok (.executeSetupChild config.threshold slots.length (setupInput slots) p w count)
  /-- The two checks of `executeSetupChild` against the hash of its arguments. -/
  dataCheck : data = E.childConfigHash
    (computeSetupOwnersChain E (setupInput slots) slots.length) config.threshold slots.length
  reservedCheck : (L'.state child).reservedConfigHash = E.childConfigHash
    (computeSetupOwnersChain E (setupInput slots) slots.length) config.threshold slots.length

/-- An accepted configuration is reserved for any initialized root, and every
later reading of it gives the slots and the hash of the reservation. -/
theorem reservation_roundtrip {B : Base58 E} (hcanonical : B.Canonical) {input : JsValue}
    {config : ChildConfig} (haccepted : assertCreateChildProposeConfig B input = .ok (some config))
    {contractAddress : JsValue} {parent : PublicKey}
    (hparent : publicKeyOf B contractAddress = .ok parent) {L : Ledger} {child : PublicKey}
    (hdeployed : L.Deployed child) (hinit : (L.state parent).ownersCommitment ≠ 0)
    (hroot : (L.state parent).parent = PublicKey.empty) (proposalHash : Fp)
    (ownerStore : OwnerStore) :
    ∃ slots data F L',
      RoundTrip B input config L parent child proposalHash ownerStore slots data F L' := by
  obtain ⟨owners, howners, hthreshold, hannounced, hconfig, hhash⟩ :=
    assertCreateChildProposeConfig_ok hcanonical haccepted
  have hmax : maxOwners < fieldOrder := by decide
  have hperm := sortedStore_perm B owners
  have hslots := hannounced.perm hperm
  have hread : ((owners.map B.toBase58).map JsValue.string).mapM (publicKeyOf B) =
      .ok owners := by
    rw [List.map_map]
    exact Check.mapM_map_ok fun k hk ↦
      publicKeyOf_toBase58 B (hannounced.coherent.onCurve k hk)
  have hcall : reserveForParentCall B input parent proposalHash =
      .ok (.reserveForParent parent proposalHash (config.threshold : Fp) (owners.length : Fp)
        (setupInput (sortedStore B owners).owners)) := by
    unfold reserveForParentCall
    rw [howners]
    dsimp only [JsValue.isArray?]
    rw [hread, hthreshold, List.length_map, List.length_map]
    rfl
  generalize (sortedStore B owners).owners = slots at hperm hslots hhash hcall
  rw [← hperm.length_eq] at hhash hcall
  have hsetup : computeSetupOwnersChain E (setupInput slots) (slots.length : Fp) =
      computeOwnerChain E slots := by
    rw [computeSetupOwnersChain_eq, setupOwners_setupInput hslots.length_le]
  have hvalid : assertValidInitialGovernance (config.threshold : Fp) (slots.length : Fp) =
      .ok () := by
    have hle := hslots.length_le.trans_lt hmax
    rw [assertValidInitialGovernance_ok, val_natCast_of_lt (hslots.threshold_le.trans_lt hle),
      val_natCast_of_lt hle]
    exact ⟨hslots.threshold_pos, hslots.threshold_le, hslots.length_le⟩
  obtain ⟨text, -, htext⟩ := publicKeyOf_ok B hparent
  have hcurve := hcanonical.onCurve htext
  have hne : parent ≠ PublicKey.empty := by
    rintro rfl
    rw [B.empty_not_onCurve] at hcurve
    cases hcurve
  obtain ⟨F, L', hprove, happly⟩ := reserveForParent_succeeds hdeployed hne hcurve hinit hroot
    proposalHash hvalid (assertCoherentSetupOwners_setupInput hslots.coherent hslots.length_le)
  have hcircuit := MethodCall.prove_ok.mp hprove
  have hspec := reserveForParent_spec hcircuit (Forest.included_of_apply happly)
  have hevents := (reserveForParent_effects hcircuit).events
  obtain ⟨-, -, -, -, -, -, -, -, hstate⟩ := hspec
  rw [hsetup] at hevents hstate
  have hdata : buildProposalDataField B .createChild input ownerStore =
      .ok (E.childConfigHash (computeOwnerChain E slots) config.threshold slots.length) := by
    unfold buildProposalDataField
    dsimp only
    rw [hhash]
    exact parseField_fieldText _
  have hsame := hperm.map B.toBase58
  have hreadSlots : (slots.map B.toBase58).mapM (fun address ↦
      publicKeyOf B (.string address)) = .ok slots :=
    Check.mapM_map_ok fun k hk ↦ publicKeyOf_toBase58 B (hslots.coherent.onCurve k hk)
  refine ⟨slots, _, F, L',
    { call := hcall
      proved := hprove
      included := happly
      signed := hdata
      perm := hconfig ▸ hsame
      parsed := fun delivered hdelivered ↦
        parseChildConfigFromEvents_reservation hslots (hevents ▸ hdelivered)
      webHash := ⟨fieldText (computeOwnerChain E slots), ?_⟩
      cliHash := checkedChildConfigHash_announced hslots .reserved
      accepted := fun bundle hbundle ↦ assertCreateChildBundleConfig_ok hslots hbundle
      setupCall := fun bundle hbundle p w count ↦ ?_
      dataCheck := by rw [hsetup]
      reservedCheck := by
        rw [hsetup]
        exact congrArg GuardState.reservedConfigHash hstate }⟩
  · unfold computeCreateChildConfigHash
    rw [hreadSlots, List.length_map]
    rfl
  · unfold executeSetupChildCall
    rw [assertCreateChildBundleConfig_ok hslots hbundle, hbundle.owners, hbundle.threshold,
      JsValue.toFp_natCast]
    dsimp only [JsValue.isArray?]
    change (do
      let owners ← (slots.map B.toBase58).mapM fun address ↦ publicKeyOf B (.string address)
      _) = _
    rw [hreadSlots, List.length_map, List.length_map]
    rfl

namespace Walkthrough

/-- A bundle that announces two owners against their sorted order; the hash is that of the
sorted list. -/
def createChildInput : JsValue :=
  .object
    [("txType", .string "createChild"),
      ("childOwners", .array [.string (keyText ownerA), .string (keyText ownerB)]),
      ("childThreshold", .number 2),
      ("createChildConfigHash", .string "40")]

theorem createChild_roundtrip : ∃ slots data F L',
    RoundTrip base58 createChildInput ⟨[keyText ownerA, keyText ownerB], 2⟩
      (Book.mk [entry root rootState] 10).ledger root child 6 ⟨[ownerA, ownerB]⟩ slots data F L' :=
  reservation_roundtrip (fun _ _ h ↦ Tables.keyText_of_base58 h)
    (by decide +kernel) (publicKeyOf_toBase58 base58 (by decide +kernel)) ⟨rfl, rfl⟩
    (by decide +kernel) (by decide +kernel) 6 ⟨[ownerA, ownerB]⟩

end Walkthrough

end MinaGuard
