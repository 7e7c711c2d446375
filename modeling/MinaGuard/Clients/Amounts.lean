import MinaGuard.Clients.Summary

/-!
# Amounts in the proposal form

`parseMinaToNanomina` and `formatNanominaAsMina` of `ProposalForm.tsx` and the
`formatMina` of the UI.  Digits without superfluous zeros in front are those of their
value, so what the text functions do to digits is arithmetic.
-/

namespace MinaGuard

/-- `text.replace(/^0+(?=\d)/, '')`. -/
def stripLeadingZeros : List Char → List Char
  | '0' :: c :: rest =>
      if c.isDigit then stripLeadingZeros (c :: rest) else '0' :: c :: rest
  | text => text

/-- `text || '0'`. -/
def orZero (text : List Char) : List Char := if text = [] then ['0'] else text

/-- `/^\d+(\.\d*)?$/`. -/
def isDecimalText (value : List Char) : Bool :=
  let rest := value.dropWhile Char.isDigit
  value.takeWhile Char.isDigit ≠ [] ∧
    (rest = [] ∨ rest.head? = some '.' ∧ rest.tail.all Char.isDigit)

structure ParsedAmount where
  nanomina : String
  truncated : Bool
deriving DecidableEq

def parseMinaToNanomina (value : String) : Option ParsedAmount :=
  if isDecimalText value.toList then
    let parts := value.toList.splitOn '.'
    let whole := parts.headD []
    let frac := parts.getD 1 []
    let truncated := decide (frac.length > 9)
    let kept := frac.take 9
    let fracTrimmed := kept ++ List.replicate (9 - kept.length) '0'
    let amount := orZero (stripLeadingZeros (whole ++ fracTrimmed))
    if parseBigInt (String.ofList amount) = some 0 then none
    else some ⟨String.ofList amount, truncated⟩
  else none

def formatNanominaAsMina (value : String) : String :=
  let normalized := orZero (stripLeadingZeros value.toList)
  let whole :=
    if normalized.length > 9 then normalized.take (normalized.length - 9) else ['0']
  let frac :=
    if normalized.length > 9 then normalized.drop (normalized.length - 9)
    else List.replicate (9 - normalized.length) '0' ++ normalized
  let trimmedFrac := frac.rdropWhile (· = '0')
  if trimmedFrac = [] then String.ofList whole
  else String.ofList (whole ++ '.' :: trimmedFrac)

/-- `formatMina` of the UI, where `BigInt` may throw. -/
def Ui.formatMina (nanomina : Option String) : String :=
  match nanomina with
  | none => "0"
  | some text =>
      if text = "" then "0"
      else
        match parseBigInt text with
        | some n => nanoText n
        | none => "0"

section Digits

variable {digits : List Char}

/-- The number that a list of digits stands for. -/
abbrev digitsValue (digits : List Char) : ℕ := Nat.ofDigitChars 10 digits 0

theorem digitsValue_append (front back : List Char) :
    digitsValue (front ++ back) = digitsValue front * 10 ^ back.length + digitsValue back := by
  rw [digitsValue, Nat.ofDigitChars_append, Nat.ofDigitChars_eq_ofDigitChars_zero, Nat.mul_comm]

theorem digitsValue_replicate_zero (k : ℕ) : digitsValue (List.replicate k '0') = 0 := by
  rw [digitsValue, Nat.ofDigitChars_replicate_zero, Nat.mul_zero]

theorem digitsValue_lt (h : ∀ c ∈ digits, c.isDigit = true) :
    digitsValue digits < 10 ^ digits.length := by
  induction digits using List.reverseRecOn with
  | nil => exact Nat.one_pos
  | append_singleton digits c ih =>
      have hfront := ih fun d hd ↦ h d (List.mem_append_left _ hd)
      obtain ⟨hc, -⟩ := digitChar_of_isDigit (h c (by simp))
      have hvalue : digitsValue [c] = c.toNat - 48 := by
        rw [digitsValue, Nat.ofDigitChars_cons, Nat.ofDigitChars_nil]
        exact Nat.zero_add _
      rw [digitsValue_append, hvalue, List.length_append, List.length_singleton, pow_one,
        Nat.pow_succ]
      omega

/-- What is left are the digits of the value. -/
theorem stripLeadingZeros_eq (h : ∀ c ∈ digits, c.isDigit = true) (hne : digits ≠ []) :
    stripLeadingZeros digits = Nat.toDigits 10 (digitsValue digits) := by
  induction digits with
  | nil => exact absurd rfl hne
  | cons d rest ih =>
      by_cases hd : d = '0'
      · subst hd
        cases rest with
        | nil => rfl
        | cons c rest =>
            rw [stripLeadingZeros, if_pos (h c (by simp)),
              ih (fun e he ↦ h e (List.mem_cons_of_mem _ he)) (List.cons_ne_nil _ _)]
            exact congrArg (Nat.toDigits 10) (by
              rw [digitsValue, digitsValue, Nat.ofDigitChars_cons]; rfl)
      · have hkeep : stripLeadingZeros (d :: rest) = d :: rest := by
          unfold stripLeadingZeros
          split
          · next heq => exact absurd (List.cons.inj heq).1 hd
          · rfl
        rw [hkeep]
        exact (toDigits_ofDigitChars hd h).symm

theorem orZero_stripLeadingZeros (h : ∀ c ∈ digits, c.isDigit = true) (hne : digits ≠ []) :
    String.ofList (orZero (stripLeadingZeros digits)) = decimal (digitsValue digits) := by
  rw [stripLeadingZeros_eq h hne, orZero, if_neg Nat.toDigits_ne_nil]
  exact Nat.repr_eq_ofList_toDigits.symm

theorem length_stripLeadingZeros_le (digits : List Char) :
    (stripLeadingZeros digits).length ≤ digits.length := by
  fun_induction stripLeadingZeros digits with
  | case1 c rest hc ih => exact ih.trans (Nat.le_succ _)
  | case2 c rest hc => exact le_rfl
  | case3 text htext => exact le_rfl

/-- The zeros in front can be put back. -/
theorem replicate_append_stripLeadingZeros (digits : List Char) :
    List.replicate (digits.length - (stripLeadingZeros digits).length) '0' ++
      stripLeadingZeros digits = digits := by
  fun_induction stripLeadingZeros digits with
  | case1 c rest hc ih =>
      have hle := length_stripLeadingZeros_le (c :: rest)
      rw [List.length_cons, Nat.sub_add_comm hle, List.replicate_succ, List.cons_append, ih]
  | case2 c rest hc =>
      rw [Nat.sub_self]
      rfl
  | case3 text htext =>
      rw [Nat.sub_self]
      rfl

end Digits

/-- Digits, and after a point any more of them. -/
structure DecimalText (value whole frac : List Char) : Prop where
  whole_ne : whole ≠ []
  whole_digits : ∀ c ∈ whole, c.isDigit = true
  frac_digits : ∀ c ∈ frac, c.isDigit = true
  value_eq : value = whole ∧ frac = [] ∨ value = whole ++ '.' :: frac

theorem isDecimalText_iff {value : List Char} :
    isDecimalText value = true ↔ ∃ whole frac, DecimalText value whole frac := by
  have hpoint : Char.isDigit '.' = false := rfl
  unfold isDecimalText
  dsimp only
  rw [decide_eq_true_eq]
  constructor
  · rintro ⟨hne, hrest⟩
    have hsplit := List.takeWhile_append_dropWhile (p := Char.isDigit) (l := value)
    have hdigits : ∀ c ∈ value.takeWhile Char.isDigit, c.isDigit = true :=
      fun _ hc ↦ List.mem_takeWhile_imp hc
    rcases hrest with hnil | ⟨hhead, htail⟩
    · rw [hnil, List.append_nil] at hsplit
      exact ⟨_, [], hne, hdigits, by simp, .inl ⟨hsplit.symm, rfl⟩⟩
    · refine ⟨_, _, hne, hdigits, List.all_eq_true.mp htail, .inr ?_⟩
      rw [List.cons_head?_tail hhead]
      exact hsplit.symm
  · rintro ⟨whole, frac, hne, hwhole, hfrac, ⟨rfl, rfl⟩ | rfl⟩
    · rw [List.takeWhile_eq_self_iff.mpr hwhole, List.dropWhile_eq_nil_iff.mpr hwhole]
      exact ⟨hne, .inl rfl⟩
    · rw [List.takeWhile_append_of_pos hwhole, List.dropWhile_append_of_pos hwhole,
        List.takeWhile_cons_of_neg (by simp [hpoint]),
        List.dropWhile_cons_of_neg (by simp [hpoint]), List.append_nil]
      exact ⟨hne, .inr ⟨rfl, List.all_eq_true.mpr hfrac⟩⟩

theorem point_notMem {digits : List Char} (h : ∀ c ∈ digits, c.isDigit = true) :
    '.' ∉ digits := fun hmem ↦ absurd (h '.' hmem) (by decide)

namespace DecimalText

variable {value whole frac : List Char}

theorem splitOn (h : DecimalText value whole frac) :
    (value.splitOn '.').headD [] = whole ∧ (value.splitOn '.').getD 1 [] = frac := by
  have hnone {digits : List Char} (hd : ∀ c ∈ digits, c.isDigit = true) :
      ∀ c ∈ digits, (c == '.') = false := fun c hc ↦
    beq_false_of_ne fun heq ↦ point_notMem hd (heq ▸ hc)
  rw [List.splitOn_eq_splitOnP]
  rcases h.value_eq with ⟨rfl, rfl⟩ | rfl
  · rw [List.splitOnP_eq_singleton (hnone h.whole_digits)]
    exact ⟨rfl, rfl⟩
  · rw [List.splitOnP_append_cons_of_forall_mem (hnone h.whole_digits) _ (by decide),
      List.splitOnP_eq_singleton (hnone h.frac_digits)]
    exact ⟨rfl, rfl⟩

end DecimalText

/-- The digits behind the point, cut or filled up to nine. -/
def ninePlaces (frac : List Char) : List Char :=
  frac.take 9 ++ List.replicate (9 - (frac.take 9).length) '0'

theorem isDigit_of_mem_ninePlaces {frac : List Char} (h : ∀ c ∈ frac, c.isDigit = true) :
    ∀ c ∈ ninePlaces frac, c.isDigit = true := by
  intro c hc
  rcases List.mem_append.mp hc with hc | hc
  · exact h c (List.mem_of_mem_take hc)
  · rw [List.eq_of_mem_replicate hc]
    rfl

theorem length_ninePlaces (frac : List Char) : (ninePlaces frac).length = 9 := by
  rw [ninePlaces, List.length_append, List.length_replicate]
  have hle := List.length_take_le 9 frac
  omega

/-- What the form sends for a decimal text. -/
theorem parseMinaToNanomina_eq {value : String} {whole frac : List Char}
    (h : DecimalText value.toList whole frac) :
    parseMinaToNanomina value =
      if digitsValue whole * 10 ^ 9 + digitsValue (ninePlaces frac) = 0 then none
      else some ⟨decimal (digitsValue whole * 10 ^ 9 + digitsValue (ninePlaces frac)),
        decide (9 < frac.length)⟩ := by
  obtain ⟨hwhole, hfrac⟩ := h.splitOn
  have hdigits : ∀ c ∈ whole ++ ninePlaces frac, c.isDigit = true := by
    intro c hc
    exact (List.mem_append.mp hc).elim (h.whole_digits c)
      (isDigit_of_mem_ninePlaces h.frac_digits c)
  have hamount := orZero_stripLeadingZeros hdigits (by simp [h.whole_ne])
  rw [digitsValue_append, length_ninePlaces] at hamount
  unfold ninePlaces at hamount ⊢
  unfold parseMinaToNanomina
  rw [if_pos (isDecimalText_iff.mpr ⟨whole, frac, h⟩)]
  dsimp only
  rw [hwhole, hfrac, hamount, parseBigInt_decimal]
  exact if_congr (Option.some_inj.trans Int.natCast_eq_zero) rfl rfl

theorem parseMinaToNanomina_of_some {value : String} {amount : ParsedAmount}
    (h : parseMinaToNanomina value = some amount) :
    ∃ whole frac, DecimalText value.toList whole frac := by
  by_contra hnone
  unfold parseMinaToNanomina at h
  rw [if_neg (mt isDecimalText_iff.mp hnone)] at h
  cases h

/-- Cutting at nine places rounds down. -/
theorem digitsValue_ninePlaces {frac : List Char} (h : ∀ c ∈ frac, c.isDigit = true) :
    digitsValue (ninePlaces frac) = digitsValue frac * 10 ^ 9 / 10 ^ frac.length := by
  rw [ninePlaces, digitsValue_append, digitsValue_replicate_zero, Nat.add_zero,
    List.length_replicate]
  rcases le_total frac.length 9 with hshort | hlong
  · rw [List.take_of_length_le hshort, Nat.eq_div_iff_mul_eq_left (by positivity)]
    · rw [Nat.mul_assoc, ← Nat.pow_add, Nat.sub_add_cancel hshort]
    · refine Dvd.dvd.mul_left (pow_dvd_pow 10 hshort) _
  · have hlength : (frac.take 9).length = 9 := List.length_take_of_le hlong
    have hfrac : digitsValue frac =
        digitsValue (frac.take 9) * 10 ^ (frac.length - 9) + digitsValue (frac.drop 9) := by
      conv_lhs => rw [← List.take_append_drop 9 frac]
      rw [digitsValue_append, List.length_drop]
    have hrest : digitsValue (frac.drop 9) < 10 ^ (frac.length - 9) := by
      rw [← List.length_drop]
      exact digitsValue_lt fun c hc ↦ h c (List.mem_of_mem_drop hc)
    have hpow : 10 ^ frac.length = 10 ^ (frac.length - 9) * 10 ^ 9 := by
      rw [← Nat.pow_add, Nat.sub_add_cancel hlong]
    rw [hlength, Nat.sub_self, pow_zero, Nat.mul_one, hpow,
      Nat.mul_div_mul_right _ _ (by positivity), hfrac, Nat.add_comm,
      Nat.add_mul_div_right _ _ (by positivity), Nat.div_eq_of_lt hrest, Nat.zero_add]

theorem formatMina_decimal (n : ℕ) : Ui.formatMina (some (decimal n)) = nanoText n := by
  unfold Ui.formatMina
  dsimp only
  rw [if_neg (decimal_ne_empty n), parseBigInt_decimal]

theorem fractionText_eq_nil_iff {n : ℕ} (h : n < 10 ^ 9) :
    fractionText (decimal n) = [] ↔ n = 0 := by
  constructor
  · intro hnil
    have hvalue := fractionText_toDigits h
    rw [hnil, List.nil_append] at hvalue
    exact hvalue.symm.trans (digitsValue_replicate_zero _)
  · rintro rfl
    rfl

/-- The last nine digits, filled up with zeros, and what stands before them. -/
theorem cut_toDigits (n : ℕ) :
    (if (Nat.toDigits 10 n).length > 9 then
        (Nat.toDigits 10 n).take ((Nat.toDigits 10 n).length - 9) else ['0']) =
      (decimal (n / 10 ^ 9)).toList ∧
    (if (Nat.toDigits 10 n).length > 9 then
        (Nat.toDigits 10 n).drop ((Nat.toDigits 10 n).length - 9)
      else List.replicate (9 - (Nat.toDigits 10 n).length) '0' ++ Nat.toDigits 10 n).rdropWhile
        (· = '0') = fractionText (decimal (n % 10 ^ 9)) := by
  have hdecimal (k : ℕ) : (decimal k).toList = Nat.toDigits 10 k := Nat.toList_repr
  unfold fractionText
  rw [hdecimal, hdecimal]
  by_cases hlong : (Nat.toDigits 10 n).length > 9
  · rw [if_pos hlong, if_pos hlong]
    generalize hdigits : Nat.toDigits 10 n = digits at hlong
    have hall : ∀ c ∈ digits, c.isDigit = true := fun c hc ↦
      Nat.isDigit_of_mem_toDigits (by decide) (by decide) (hdigits ▸ hc)
    have hn : digitsValue digits = n := by
      rw [← hdigits]
      exact Nat.ofDigitChars_ten_toDigits
    have hback : (digits.drop (digits.length - 9)).length = 9 := by
      rw [List.length_drop]
      omega
    have hbackall : ∀ c ∈ digits.drop (digits.length - 9), c.isDigit = true := fun c hc ↦
      hall c (List.mem_of_mem_drop hc)
    have hbackne : digits.drop (digits.length - 9) ≠ [] := by
      rw [← List.length_pos_iff, hback]
      exact Nat.succ_pos 8
    have hlt := digitsValue_lt hbackall
    have hvalue := digitsValue_append (digits.take (digits.length - 9))
      (digits.drop (digits.length - 9))
    rw [List.take_append_drop, hback, hn] at hvalue
    rw [hback] at hlt
    have hdiv : n / 10 ^ 9 = digitsValue (digits.take (digits.length - 9)) := by
      omega
    have hmod : n % 10 ^ 9 = digitsValue (digits.drop (digits.length - 9)) := by
      omega
    rw [hdiv, hmod]
    constructor
    · have hpos : 0 < n := by
        by_contra hzero
        rw [Nat.eq_zero_of_not_pos hzero, Nat.toDigits_zero] at hdigits
        rw [← hdigits] at hlong
        exact absurd hlong (by decide)
      obtain ⟨c, rest, hhead, hc⟩ := toDigits_head hpos
      obtain ⟨k, hk⟩ := Nat.exists_eq_succ_of_ne_zero (Nat.sub_ne_zero_of_lt hlong)
      have hfront : digits.take (digits.length - 9) = c :: rest.take k := by
        rw [hk, ← hdigits, hhead, List.take_succ_cons]
      rw [hfront]
      refine (toDigits_ofDigitChars hc ?_).symm
      rw [← hfront]
      exact fun d hd ↦ hall d (List.mem_of_mem_take hd)
    · have hpad := replicate_append_stripLeadingZeros (digits.drop (digits.length - 9))
      rw [stripLeadingZeros_eq hbackall hbackne, hback] at hpad
      rw [hpad]
  · have hlt : n < 10 ^ 9 :=
      (Nat.length_toDigits_le_iff (by decide) (by decide)).mp (not_lt.mp hlong)
    rw [if_neg hlong, if_neg hlong, Nat.div_eq_of_lt hlt, Nat.mod_eq_of_lt hlt]
    exact ⟨rfl, rfl⟩

theorem formatNanominaAsMina_decimal (n : ℕ) : formatNanominaAsMina (decimal n) = nanoText n := by
  have hdigits : (decimal n).toList = Nat.toDigits 10 n := Nat.toList_repr
  have hnormal : orZero (stripLeadingZeros (decimal n).toList) = Nat.toDigits 10 n := by
    have hne : (decimal n).toList ≠ [] := hdigits ▸ Nat.toDigits_ne_nil
    rw [stripLeadingZeros_eq (fun _ ↦ isDigit_of_mem_decimal) hne, hdigits, digitsValue,
      Nat.ofDigitChars_ten_toDigits, orZero, if_neg Nat.toDigits_ne_nil]
  obtain ⟨hwhole, hfrac⟩ := cut_toDigits n
  apply String.toList_inj.mp
  rw [toList_nanoText]
  unfold formatNanominaAsMina
  dsimp only
  rw [hnormal, hwhole, hfrac]
  by_cases hzero : n % 10 ^ 9 = 0
  · rw [if_pos ((fractionText_eq_nil_iff (Nat.mod_lt n (by decide))).mpr hzero), if_pos hzero,
      String.toList_ofList, List.append_nil]
  · rw [if_neg (mt (fractionText_eq_nil_iff (Nat.mod_lt n (by decide))).mp hzero), if_neg hzero,
      String.toList_ofList]

theorem length_fractionText_le {n : ℕ} (h : n < 10 ^ 9) :
    (fractionText (decimal n)).length ≤ 9 := by
  have hdigits : (decimal n).toList = Nat.toDigits 10 n := Nat.toList_repr
  have hle := Nat.toDigits_length 10 n 9 (by decide) h
  refine (List.rdropWhile_prefix _ _).length_le.trans ?_
  rw [List.length_append, List.length_replicate, hdigits]
  omega

theorem isDigit_of_mem_fractionText {n : ℕ} {c : Char} (hc : c ∈ fractionText (decimal n)) :
    c.isDigit = true := by
  rcases List.mem_append.mp ((List.rdropWhile_prefix _ _).subset hc) with hc | hc
  · rw [List.eq_of_mem_replicate hc]
    rfl
  · exact isDigit_of_mem_decimal hc

/-- Nine places lose nothing of an amount in nanomina. -/
theorem parseMinaToNanomina_nanoText {n : ℕ} (hn : 0 < n) :
    parseMinaToNanomina (nanoText n) = some ⟨decimal n, false⟩ := by
  have hdigits : (decimal (n / 10 ^ 9)).toList = Nat.toDigits 10 (n / 10 ^ 9) := Nat.toList_repr
  have hne : (decimal (n / 10 ^ 9)).toList ≠ [] := hdigits ▸ Nat.toDigits_ne_nil
  have hwhole : digitsValue (decimal (n / 10 ^ 9)).toList = n / 10 ^ 9 := by
    rw [hdigits]
    exact Nat.ofDigitChars_ten_toDigits
  have hlt := Nat.mod_lt n (y := 10 ^ 9) (by decide)
  -- the digits behind the point
  obtain ⟨frac, htext, hvalue, hlength⟩ : ∃ frac,
      DecimalText (nanoText n).toList (decimal (n / 10 ^ 9)).toList frac ∧
      digitsValue (ninePlaces frac) = n % 10 ^ 9 ∧ frac.length ≤ 9 := by
    rw [toList_nanoText]
    by_cases hzero : n % 10 ^ 9 = 0
    · rw [if_pos hzero, List.append_nil, hzero]
      exact ⟨[], ⟨hne, fun _ ↦ isDigit_of_mem_decimal, by simp, .inl ⟨rfl, rfl⟩⟩, rfl, by simp⟩
    · rw [if_neg hzero]
      refine ⟨_, ⟨hne, fun _ ↦ isDigit_of_mem_decimal, fun _ ↦ isDigit_of_mem_fractionText,
        .inr rfl⟩, ?_, length_fractionText_le hlt⟩
      rw [ninePlaces, List.take_of_length_le (length_fractionText_le hlt)]
      exact fractionText_toDigits hlt
  rw [parseMinaToNanomina_eq htext, hwhole, hvalue, Nat.div_add_mod', if_neg hn.ne',
    decide_eq_false (not_lt.mpr hlength)]

end MinaGuard
