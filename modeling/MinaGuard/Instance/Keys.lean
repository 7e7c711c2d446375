import MinaGuard.Indexer.Memo
import MinaGuard.Instance.Book

/-!
# Texts for the keys of a table

A stand-in for the base58 form of keys: a prefix, the parity and the abscissa
in decimal.
-/

namespace MinaGuard

/-- The text of a key. -/
def keyText (k : PublicKey) : String :=
  String.ofList ("B62q-point-".toList ++ (if k.isOdd then '1' else '0') :: (decimal k.x.val).toList)

/-- The key of a text that `keyText` wrote. -/
def keyOfText (text : String) : Option PublicKey :=
  match text.toList.drop 11 with
  | [] => none
  | parity :: digits => (ofDecimal (String.ofList digits)).map fun n : ℕ ↦ ⟨(n : Fp), parity = '1'⟩

theorem toList_keyText (k : PublicKey) :
    (keyText k).toList =
      "B62q-point-".toList ++ (if k.isOdd then '1' else '0') :: (decimal k.x.val).toList :=
  String.toList_ofList

theorem keyOfText_keyText (k : PublicKey) : keyOfText (keyText k) = some k := by
  have hdrop : (keyText k).toList.drop 11 =
      (if k.isOdd then '1' else '0') :: (decimal k.x.val).toList := by
    rw [toList_keyText]
    exact List.drop_left' (by decide)
  have hodd : decide ((if k.isOdd then '1' else '0') = '1') = k.isOdd := by
    cases k.isOdd <;> rfl
  unfold keyOfText
  rw [hdrop]
  simp only [String.ofList_toList, ofDecimal_decimal, Option.map_some, ZMod.natCast_zmod_val,
    hodd]

/-- The texts, for an environment where zero is no abscissa. -/
def Tables.base58 (t : Tables) (hempty : t.env.onCurve PublicKey.empty = false) :
    Base58 t.env where
  toBase58 := keyText
  fromBase58 := fun text ↦
    (keyOfText text).bind fun k ↦ if t.env.onCurve k ∧ keyText k = text then some k else none
  toBase58_injective := by
    intro k k' h
    have hdecoded := congrArg keyOfText h
    rwa [keyOfText_keyText, keyOfText_keyText, Option.some.injEq] at hdecoded
  length_toBase58 := by
    intro k
    have hprefix : "B62q-point-".toList.length = 11 := by decide
    rw [← String.length_toList, toList_keyText, List.length_append, List.length_cons, hprefix]
    omega
  fromBase58_toBase58 := by
    intro k
    simp only [keyOfText_keyText, Option.bind_some, and_true]
  empty_not_onCurve := hempty

/-- No other text decodes. -/
theorem Tables.keyText_of_base58 {t : Tables} {hempty : t.env.onCurve PublicKey.empty = false}
    {text : String} {k : PublicKey} (h : (t.base58 hempty).fromBase58 text = some k) :
    keyText k = text := by
  obtain ⟨k', -, hk⟩ := Option.bind_eq_some_iff.mp h
  obtain ⟨⟨-, htext⟩, hsame⟩ := Option.ite_none_right_eq_some.mp hk
  rw [← Option.some.inj hsame, htext]

namespace Walkthrough

def base58 : Base58 tables.env := tables.base58 (by decide +kernel)

/-- No transaction of the walkthrough has a memo, so nothing else is called. -/
def backend : Backend tables.env where
  base58 := base58
  sha256 := fun _ ↦ []
  decodeText := fun _ ↦ ""
  checkError := fun _ ↦ ""

end Walkthrough

end MinaGuard
