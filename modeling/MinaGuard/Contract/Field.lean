import Mathlib.Data.ZMod.Basic

/-!
# The native field

o1js `Field` elements are residues modulo the order of the Pallas base field.
Equality and arithmetic are modular; the comparison gadgets compare canonical
representatives.
-/

namespace MinaGuard

/-- `Field.ORDER`. -/
def fieldOrder : ℕ :=
  28948022309329048855892746252171976963363056481941560715954676764349967630337

/-- An o1js `Field`. -/
abbrev Fp := ZMod fieldOrder

instance : NeZero fieldOrder := ⟨by decide⟩

instance : Fact (1 < fieldOrder) := ⟨by decide⟩

instance : LawfulBEq Fp := inferInstance

/-- `a.lessThan(b)`, also behind `assertLessThan`. -/
def lessThan (a b : Fp) : Prop := a.val < b.val

/-- `a.lessThanOrEqual(b)`. -/
def lessThanOrEqual (a b : Fp) : Prop := a.val ≤ b.val

/-- `a.greaterThan(b)`. -/
def greaterThan (a b : Fp) : Prop := b.val < a.val

/-- `a.greaterThanOrEqual(b)`. -/
def greaterThanOrEqual (a b : Fp) : Prop := b.val ≤ a.val

instance (a b : Fp) : Decidable (lessThan a b) :=
  inferInstanceAs (Decidable (a.val < b.val))

instance (a b : Fp) : Decidable (lessThanOrEqual a b) :=
  inferInstanceAs (Decidable (a.val ≤ b.val))

instance (a b : Fp) : Decidable (greaterThan a b) :=
  inferInstanceAs (Decidable (b.val < a.val))

instance (a b : Fp) : Decidable (greaterThanOrEqual a b) :=
  inferInstanceAs (Decidable (b.val ≤ a.val))

/-- `Bool.toField()`. -/
def toField (b : Bool) : Fp := if b then 1 else 0

/-- `UInt64.value`. -/
def amountValue (amount : UInt64) : Fp := (amount.toNat : Fp)

theorem two_pow_64_lt_fieldOrder : 2 ^ 64 < fieldOrder := by decide

theorem val_natCast_of_lt {n : ℕ} (h : n < fieldOrder) : (n : Fp).val = n :=
  ZMod.val_cast_of_lt h

theorem val_natCast_le (n : ℕ) : (n : Fp).val ≤ n := by
  rw [ZMod.val_natCast]
  exact Nat.mod_le _ _

@[simp] theorem val_zero : (0 : Fp).val = 0 := ZMod.val_zero

@[simp] theorem val_one : (1 : Fp).val = 1 := ZMod.val_one fieldOrder

/-- Casts of numbers below the order are distinct. -/
theorem natCast_inj {m n : ℕ} (hm : m < fieldOrder) (hn : n < fieldOrder)
    (h : (m : Fp) = (n : Fp)) : m = n := by
  have hval := congrArg ZMod.val h
  rwa [val_natCast_of_lt hm, val_natCast_of_lt hn] at hval

theorem natCast_ne_zero {n : ℕ} (hpos : 0 < n) (hn : n < fieldOrder) :
    (n : Fp) ≠ 0 := by
  intro h
  have hzero := natCast_inj hn (Nat.pos_of_neZero fieldOrder) (by simpa using h)
  omega

theorem toField_injective : Function.Injective toField := by
  intro a b h
  cases a <;> cases b <;> simp_all [toField]

theorem val_amountValue (amount : UInt64) : (amountValue amount).val = amount.toNat :=
  val_natCast_of_lt (amount.toNat_lt.trans two_pow_64_lt_fieldOrder)

theorem amountValue_injective : Function.Injective amountValue := by
  intro a b h
  have hval := congrArg ZMod.val h
  rw [val_amountValue, val_amountValue] at hval
  exact UInt64.toNat_inj.mp hval

end MinaGuard
