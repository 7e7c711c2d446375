import MinaGuard.Contract.Ledger
import Mathlib.Data.Nat.Digits.Lemmas

/-!
# Environments given by tables

An environment for finitely many inputs: the sponge looks digests up, the root
of a Merkle map encodes the leaves at finitely many keys, a signature is the
message with the key that signed it, and curve points come with their
ordinates.  Every such environment has a transcript, so the theorems about
runs are about something, and runs in it can be computed.
-/

namespace MinaGuard

open Foundations

/-- An affine point of the Pallas curve. -/
structure CurvePoint where
  x : Fp
  y : Fp
  onCurve : y ^ 2 = x ^ 3 + 5

namespace CurvePoint

def compressed (q : CurvePoint) : PublicKey := ⟨q.x, decide (q.y.val % 2 = 1)⟩

/-- `Group.generator`. -/
def generator : CurvePoint where
  x := 1
  y := 12418654782883325593414442427049395787963493412651469444558597405572177144507
  onCurve := by decide +kernel

end CurvePoint

/-- The inputs, keys and points an environment knows. -/
structure Tables where
  inputs : List HashInput
  keys : List Fp
  points : List CurvePoint
  few_inputs : inputs.length < fieldOrder
  few_keys : keys.length ≤ 50
  start_mem : ("owner-chain", []) ∈ inputs

/-- The marker of an executed proposal is the digit zero. -/
def leafDigit (v : Fp) : ℕ := if v = executedMarker then 0 else v.val + 1

theorem leafDigit_injective : Function.Injective leafDigit := by
  intro v w h
  unfold leafDigit at h
  split at h
  · split at h
    · rename_i hv hw
      exact hv.trans hw.symm
    · omega
  · split at h
    · omega
    · exact ZMod.val_injective _ (Nat.succ_injective h)

def leafDigits (keys : List Fp) (m : Fp → Fp) : List ℕ := keys.map fun κ ↦ leafDigit (m κ)

/-- The root of a map whose leaves are small; zero for any other. -/
def tableRoot (keys : List Fp) (m : Fp → Fp) : Fp :=
  if ∀ d ∈ leafDigits keys m, d < 32 then
    ((Nat.ofDigits 32 (leafDigits keys m) + 1 : ℕ) : Fp)
  else 0

section Roots

variable {keys : List Fp} {m m' : Fp → Fp}

theorem tableRoot_congr (h : ∀ κ ∈ keys, m κ = m' κ) : tableRoot keys m = tableRoot keys m' := by
  have hdigits : leafDigits keys m = leafDigits keys m' := by
    apply List.map_congr_left
    intro κ hκ
    rw [h κ hκ]
  unfold tableRoot
  rw [hdigits]

theorem ofDigits_leafDigits_lt (hkeys : keys.length ≤ 50)
    (hsmall : ∀ d ∈ leafDigits keys m, d < 32) :
    Nat.ofDigits 32 (leafDigits keys m) + 1 < fieldOrder := by
  have hlt := Nat.ofDigits_lt_base_pow_length (by omega) hsmall
  have hpow : 32 ^ (leafDigits keys m).length ≤ 32 ^ 50 := by
    apply Nat.pow_le_pow_right (by omega)
    rw [leafDigits, List.length_map]
    exact hkeys
  have hmax : 32 ^ 50 < fieldOrder := by decide
  omega

theorem tableRoot_ne_zero (hkeys : keys.length ≤ 50)
    (hsmall : ∀ d ∈ leafDigits keys m, d < 32) : tableRoot keys m ≠ 0 := by
  unfold tableRoot
  rw [if_pos hsmall]
  exact natCast_ne_zero (Nat.succ_pos _) (ofDigits_leafDigits_lt hkeys hsmall)

/-- A root that is not zero determines the leaves. -/
theorem leaf_eq_of_tableRoot (hkeys : keys.length ≤ 50) (hne : tableRoot keys m ≠ 0)
    (h : tableRoot keys m = tableRoot keys m') {κ : Fp} (hκ : κ ∈ keys) : m κ = m' κ := by
  have hsmall : ∀ d ∈ leafDigits keys m, d < 32 := by
    by_contra hlarge
    exact hne (if_neg hlarge)
  have hsmall' : ∀ d ∈ leafDigits keys m', d < 32 := by
    by_contra hlarge
    rw [h] at hne
    exact hne (if_neg hlarge)
  have hlen : (leafDigits keys m).length = (leafDigits keys m').length := by
    simp only [leafDigits, List.length_map]
  unfold tableRoot at h
  rw [if_pos hsmall, if_pos hsmall'] at h
  have hnum := natCast_inj (ofDigits_leafDigits_lt hkeys hsmall)
    (ofDigits_leafDigits_lt hkeys hsmall') h
  have hdigits := Nat.ofDigits_inj_of_len_eq (by omega) hlen hsmall hsmall'
    (Nat.succ_injective hnum)
  exact leafDigit_injective (List.map_inj_left.mp hdigits κ hκ)

end Roots

/-- A Merkle witness: the nonzero leaves, and the key it opens. -/
structure Opening where
  leaves : List (Fp × Fp)
  key : Fp
deriving DecidableEq

def Opening.map (w : Opening) (κ : Fp) : Fp := (w.leaves.lookup κ).getD 0

namespace Tables

variable (t : Tables)

def env : Env where
  Signature := PublicKey × List Fp
  MerkleMapWitness := Opening
  hashWithPrefix := fun tag absorbed ↦ ((t.inputs.idxOf (tag, absorbed) + 1 : ℕ) : Fp)
  merkleMap :=
    { getRoot := tableRoot t.keys
      computeRootAndKey := fun w v ↦
        (tableRoot t.keys (Function.update w.map w.key v), w.key) }
  verify := fun signature key message ↦ decide (signature = (key, message))
  onCurve := fun key ↦ (CurvePoint.generator :: t.points).any fun q ↦ decide (q.x = key.x)
  generator := CurvePoint.generator.compressed
  generator_onCurve := by
    apply List.any_eq_true.mpr
    exact ⟨_, List.mem_cons_self, decide_eq_true rfl⟩
  networkDomainName := .testnet

/-- The maps with small leaves, all of them at known keys. -/
def maps : Set (Fp → Fp) :=
  {m | (∀ κ ∉ t.keys, m κ = 0) ∧ ∀ d ∈ leafDigits t.keys m, d < 32}

theorem leaf_eq {m m' : Fp → Fp} (hm : m' ∈ t.maps)
    (h : tableRoot t.keys m = tableRoot t.keys m') {κ : Fp} (hκ : κ ∈ t.keys) :
    m κ = m' κ := by
  apply leaf_eq_of_tableRoot t.few_keys _ h hκ
  rw [h]
  exact tableRoot_ne_zero t.few_keys hm.2

theorem binding : t.env.merkleMap.Binding t.maps {w | Opening.key w ∈ t.keys} where
  getRoot_injOn := by
    intro m hm m' hm' h
    funext κ
    by_cases hκ : κ ∈ t.keys
    · exact t.leaf_eq hm' h hκ
    · rw [hm.1 κ hκ, hm'.1 κ hκ]
  opens := by
    intro w hw m hm v h
    have hleaf := t.leaf_eq hm h hw
    rw [Function.update_self] at hleaf
    exact hleaf.symm
  writes := by
    intro w hw m hm v v' h
    refine Prod.ext (tableRoot_congr ?_) rfl
    intro κ hκ
    change Function.update (Opening.map w) (Opening.key w) v' κ =
      Function.update m (Opening.key w) v' κ
    have hleaf := t.leaf_eq hm h hκ
    by_cases hkey : κ = Opening.key w
    · subst hkey
      rw [Function.update_self, Function.update_self]
    · rw [Function.update_of_ne hkey] at hleaf
      rw [Function.update_of_ne hkey, Function.update_of_ne hkey]
      exact hleaf

theorem update_mem_maps {m : Fp → Fp} (hm : m ∈ t.maps) {κ v : Fp} (hκ : κ ∈ t.keys)
    (hv : leafDigit v < 32) : Function.update m κ v ∈ t.maps := by
  refine ⟨?_, ?_⟩
  · intro κ' hκ'
    have hne : κ' ≠ κ := fun heq ↦ hκ' (heq ▸ hκ)
    rw [Function.update_of_ne hne]
    exact hm.1 κ' hκ'
  · intro d hd
    obtain ⟨κ', hκ', rfl⟩ := List.mem_map.mp hd
    by_cases heq : κ' = κ
    · subst heq
      rwa [Function.update_self]
    · rw [Function.update_of_ne heq]
      exact hm.2 _ (List.mem_map_of_mem hκ')

theorem digest_lt {q : HashInput} (hq : q ∈ t.inputs) :
    t.inputs.idxOf q + 1 < fieldOrder := by
  have hidx := List.idxOf_lt_length_of_mem hq
  have hfew := t.few_inputs
  omega

def transcript : Transcript t.env where
  hashed := {q | q ∈ t.inputs}
  maps := t.maps
  witnesses := {w | Opening.key w ∈ t.keys}
  hash_injOn := by
    intro q hq q' hq' h
    have hidx := natCast_inj (t.digest_lt hq) (t.digest_lt hq') h
    exact (List.idxOf_inj hq).mp (Nat.succ_injective hidx)
  hash_ne_zero := fun _ hq ↦ natCast_ne_zero (Nat.succ_pos _) (t.digest_lt hq)
  binding := t.binding
  getRoot_ne_zero := fun _ hm ↦ tableRoot_ne_zero t.few_keys hm.2
  initialOwnerChain_mem := t.start_mem
  emptyMap_mem := by
    have hdigit : leafDigit 0 < 32 := by decide
    refine ⟨fun _ _ ↦ rfl, ?_⟩
    intro d hd
    obtain ⟨_, _, rfl⟩ := List.mem_map.mp hd
    exact hdigit

/-- The witness with all known leaves. -/
def mapWitness (m : Fp → Fp) (κ : Fp) : t.env.MerkleMapWitness :=
  Opening.mk (t.keys.map fun key ↦ (key, m key)) κ

theorem opens_mapWitness : t.env.merkleMap.Opens t.mapWitness := by
  intro m κ
  refine Prod.ext (tableRoot_congr ?_) rfl
  intro key hkey
  change Function.update (Opening.map (t.mapWitness m κ)) κ (m κ) key = m key
  by_cases heq : key = κ
  · subst heq
    rw [Function.update_self]
  · rw [Function.update_of_ne heq]
    unfold Opening.map mapWitness
    rw [List.lookup_graph m hkey, Option.getD_some]

/-- Everything the call uses is in the tables. -/
def Lists (m : MethodCall t.env) : Prop :=
  (∀ q ∈ m.hashInputs, q ∈ t.inputs) ∧ (∀ w ∈ m.witnesses, Opening.key w ∈ t.keys) ∧
    ∀ x ∈ m.mapWrites, Opening.key x.witness ∈ t.keys ∧ leafDigit x.newValue < 32

instance (m : MethodCall t.env) : Decidable (t.Lists m) := by
  unfold Lists; infer_instance

theorem recorded_of_lists {m : MethodCall t.env} (h : t.Lists m) :
    m.Recorded t.transcript := by
  obtain ⟨hinputs, hwitnesses, hwrites⟩ := h
  refine ⟨hinputs, hwitnesses, ?_⟩
  intro x hx map hmap _
  obtain ⟨hkey, hsmall⟩ := hwrites x hx
  exact t.update_mem_maps hmap hkey hsmall

end Tables

end MinaGuard
