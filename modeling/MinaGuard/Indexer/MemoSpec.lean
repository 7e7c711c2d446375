import Mathlib.Data.Nat.Digits.Lemmas
import MinaGuard.Foundations.Utf8
import MinaGuard.Indexer.Memo

/-!
# Memo texts and their content

A memo text is a number in base 58.  `base58Decode` gives its bytes back, and
`decodeTxMemo` takes exactly the texts that Mina writes for some content.
-/

namespace MinaGuard

open Foundations

/-- The base58 text of bytes: a `1` for each zero byte in front, then the digits
of their number. -/
def base58Encode (bytes : List ℕ) : String :=
  let zeros := bytes.takeWhile fun byte ↦ byte = 0
  String.ofList (List.replicate zeros.length '1' ++
    (Nat.digits 58 (Nat.ofDigits 256 bytes.reverse)).reverse.map fun digit ↦
      base58Alphabet.getD digit '1')

/-- Version, tag, length and content of a user memo. -/
def memoData (content : List ℕ) : List ℕ :=
  0x14 :: 0x01 :: content.length :: (content ++ List.replicate (32 - content.length) 0)

/-- The text of a user memo. -/
def encodeTxMemo (sha256 : List ℕ → List ℕ) (content : List ℕ) : String :=
  base58Encode (memoData content ++ (sha256 (sha256 (memoData content))).take 4)

/-- The little-endian bytes of a number; zero has one. -/
def toBytes (n : ℕ) : List ℕ := if n = 0 then [0] else Nat.digits 256 n

theorem addDigit_digits (n carry : ℕ) :
    addDigit (Nat.digits 256 n) carry = Nat.digits 256 (58 * n + carry) := by
  induction n using Nat.strong_induction_on generalizing carry with
  | _ n ih =>
      rcases Nat.eq_zero_or_pos n with rfl | hn
      · rw [Nat.digits_zero, Nat.mul_zero, Nat.zero_add]
        rfl
      · have hlength : base58Alphabet.length = 58 := by decide
        have hdigits : Nat.digits 256 n = n % 256 :: Nat.digits 256 (n / 256) :=
          Nat.digits_def' (by decide) hn
        have hnext : Nat.digits 256 (58 * n + carry) =
            (58 * n + carry) % 256 :: Nat.digits 256 ((58 * n + carry) / 256) :=
          Nat.digits_def' (by decide) (by omega)
        rw [hdigits, hnext]
        unfold addDigit
        dsimp only
        rw [hlength, ih (n / 256) (by omega)]
        congr 1
        · omega
        · congr 1
          omega

theorem addDigit_toBytes {n digit : ℕ} (hdigit : digit < 58) :
    addDigit (toBytes n) digit = toBytes (58 * n + digit) := by
  unfold toBytes
  by_cases hn : n = 0
  · subst hn
    rw [if_pos rfl]
    change digit % 256 :: Nat.digits 256 (digit / 256) = _
    rw [Nat.mod_eq_of_lt (by omega), Nat.div_eq_of_lt (by omega), Nat.digits_zero]
    by_cases hzero : digit = 0
    · subst hzero
      rfl
    · rw [if_neg (by omega), Nat.mul_zero, Nat.zero_add,
        Nat.digits_of_lt 256 digit hzero (by omega)]
  · rw [if_neg hn, if_neg (by omega), addDigit_digits]

theorem idxOf?_getD {digit : ℕ} (h : digit < 58) :
    base58Alphabet.idxOf? (base58Alphabet.getD digit '1') = some digit := by
  have hall : ∀ d < 58, base58Alphabet.idxOf? (base58Alphabet.getD d '1') = some d := by
    decide +kernel
  exact hall digit h

theorem getD_of_idxOf? {c : Char} {digit : ℕ} (h : base58Alphabet.idxOf? c = some digit) :
    digit < 58 ∧ base58Alphabet.getD digit '1' = c := by
  obtain ⟨hlt, hget, -⟩ := List.idxOf?_eq_some_iff.mp h
  have hlength : base58Alphabet.length = 58 := by decide
  refine ⟨hlength ▸ hlt, ?_⟩
  rw [List.getD_eq_getElem?_getD, List.getElem?_eq_getElem hlt, hget]
  rfl

/-- Characters read as digits. -/
theorem decodeDigits {chars : List Char} (n : ℕ) {bytes : List ℕ} :
    chars.foldlM (fun bytes char ↦
      match base58Alphabet.idxOf? char with
      | some idx => Except.ok (addDigit bytes idx)
      | none => .error ("Invalid base58 character: " ++ String.singleton char)) (toBytes n) =
        .ok bytes ↔
      ∃ digits : List ℕ, (∀ d ∈ digits, d < 58) ∧
        chars = digits.map (fun d ↦ base58Alphabet.getD d '1') ∧
        bytes = toBytes (digits.foldl (fun n d ↦ 58 * n + d) n) := by
  induction chars generalizing n with
  | nil =>
      constructor
      · intro h
        exact ⟨[], by simp, rfl, (Except.ok.inj h).symm⟩
      · rintro ⟨digits, -, hchars, rfl⟩
        rw [List.map_eq_nil_iff.mp hchars.symm]
        rfl
  | cons c chars ih =>
      rw [List.foldlM_cons]
      cases hc : base58Alphabet.idxOf? c with
      | none =>
          refine iff_of_false nofun ?_
          rintro ⟨digits, hlt, hchars, -⟩
          cases digits with
          | nil => cases hchars
          | cons d digits =>
              obtain ⟨rfl, -⟩ := List.cons.inj hchars
              rw [idxOf?_getD (hlt d List.mem_cons_self)] at hc
              cases hc
      | some digit =>
          obtain ⟨hdigit, hchar⟩ := getD_of_idxOf? hc
          have hstep : (Except.ok (addDigit (toBytes n) digit) : Except String (List ℕ)) =
              .ok (toBytes (58 * n + digit)) := congrArg Except.ok (addDigit_toBytes hdigit)
          dsimp only
          rw [hstep]
          refine (ih _).trans ?_
          constructor
          · rintro ⟨digits, hlt, rfl, hbytes⟩
            exact ⟨digit :: digits, List.forall_mem_cons.mpr ⟨hdigit, hlt⟩,
              by rw [List.map_cons, hchar], hbytes⟩
          · rintro ⟨digits, hlt, hchars, hbytes⟩
            cases digits with
            | nil => cases hchars
            | cons d digits =>
                obtain ⟨rfl, hrest⟩ := List.cons.inj hchars
                obtain rfl : d = digit := by
                  rw [idxOf?_getD (hlt d List.mem_cons_self)] at hc
                  exact Option.some.inj hc
                exact ⟨digits, fun x hx ↦ hlt x (List.mem_cons_of_mem _ hx), hrest, hbytes⟩

/-- Digits from the first, as a number. -/
theorem foldl_digits (digits : List ℕ) :
    digits.foldl (fun n d ↦ 58 * n + d) 0 = Nat.ofDigits 58 digits.reverse := by
  induction digits using List.reverseRecOn with
  | nil => rfl
  | append_singleton digits d ih =>
      rw [List.foldl_append, List.foldl_cons, List.foldl_nil, ih, List.reverse_append,
        List.reverse_singleton, List.singleton_append, Nat.ofDigits_cons]
      omega

theorem base58Decode_ok {text : String} {raw : List ℕ} :
    base58Decode text = .ok raw ↔
      ∃ digits : List ℕ, (∀ d ∈ digits, d < 58) ∧
        text.toList = digits.map (fun d ↦ base58Alphabet.getD d '1') ∧
        raw = List.replicate (text.toList.takeWhile fun char ↦ char = '1').length 0 ++
          (toBytes (Nat.ofDigits 58 digits.reverse)).reverse := by
  unfold base58Decode
  constructor
  · intro h
    obtain ⟨bytes, hbytes, hraw⟩ := Check.bind_ok.mp h
    obtain ⟨digits, hlt, hchars, rfl⟩ := (decodeDigits 0).mp hbytes
    refine ⟨digits, hlt, hchars, ?_⟩
    rw [← foldl_digits, ← Check.pure_ok.mp hraw, List.reverse_append, List.reverse_replicate]
  · rintro ⟨digits, hlt, hchars, rfl⟩
    refine Check.bind_ok.mpr ⟨_, (decodeDigits 0).mpr ⟨digits, hlt, hchars, rfl⟩, ?_⟩
    refine Check.pure_ok.mpr ?_
    rw [foldl_digits, List.reverse_append, List.reverse_replicate]

theorem digit_char_eq_one {d : ℕ} (hd : d < 58) :
    base58Alphabet.getD d '1' = '1' ↔ d = 0 := by
  constructor
  · intro h
    have hindex := idxOf?_getD hd
    rw [h] at hindex
    exact (Option.some.inj hindex).symm
  · rintro rfl
    rfl

theorem takeWhile_ones {digits : List ℕ} (hlt : ∀ d ∈ digits, d < 58)
    (hhead : digits.head? ≠ some 0) :
    ((digits.map fun d ↦ base58Alphabet.getD d '1').takeWhile fun char ↦ char = '1') = [] := by
  cases digits with
  | nil => rfl
  | cons d digits =>
      rw [List.map_cons, List.takeWhile_cons_of_neg]
      rw [decide_eq_true_iff, digit_char_eq_one (hlt d List.mem_cons_self)]
      rintro rfl
      exact hhead rfl

theorem takeWhile_zeros {raw : List ℕ} (hhead : raw.head? ≠ some 0) :
    (raw.takeWhile fun byte ↦ byte = 0) = [] := by
  cases raw with
  | nil => rfl
  | cons b raw =>
      rw [List.takeWhile_cons_of_neg]
      rw [decide_eq_true_iff]
      rintro rfl
      exact hhead rfl

/-- The number of bytes that start with no zero has these bytes. -/
theorem digits_of_bytes {raw : List ℕ} (hbytes : ∀ b ∈ raw, b < 256) (hne : raw ≠ [])
    (hhead : raw.head? ≠ some 0) :
    Nat.digits 256 (Nat.ofDigits 256 raw.reverse) = raw.reverse := by
  refine Nat.digits_ofDigits 256 (by decide) _ (fun b hb ↦ hbytes b (List.mem_reverse.mp hb)) ?_
  intro hrev hzero
  rw [List.getLast_reverse] at hzero
  exact hhead (by rw [List.head?_eq_some_head hne, hzero])

theorem base58Decode_encode {raw : List ℕ} (hbytes : ∀ b ∈ raw, b < 256) (hne : raw ≠ [])
    (hhead : raw.head? ≠ some 0) : base58Decode (base58Encode raw) = .ok raw := by
  have hdigits := digits_of_bytes hbytes hne hhead
  set n := Nat.ofDigits 256 raw.reverse with hn
  have hpos : n ≠ 0 := by
    intro hzero
    rw [hzero, Nat.digits_zero] at hdigits
    exact hne (List.reverse_eq_nil_iff.mp hdigits.symm)
  have hzeros := takeWhile_zeros hhead
  have htext : (base58Encode raw).toList =
      (Nat.digits 58 n).reverse.map fun d ↦ base58Alphabet.getD d '1' := by
    unfold base58Encode
    dsimp only
    rw [hzeros, String.toList_ofList, List.length_nil, List.replicate_zero, List.nil_append]
  have hlt : ∀ d ∈ (Nat.digits 58 n).reverse, d < 58 :=
    fun d hd ↦ Nat.digits_lt_base (by decide) (List.mem_reverse.mp hd)
  have hfirst : (Nat.digits 58 n).reverse.head? ≠ some 0 := by
    rw [List.head?_reverse, List.getLast?_eq_some_getLast (Nat.digits_ne_nil_iff_ne_zero.mpr hpos)]
    intro h
    exact Nat.getLast_digit_ne_zero 58 hpos (Option.some.inj h)
  refine base58Decode_ok.mpr ⟨_, hlt, htext, ?_⟩
  rw [htext, takeWhile_ones hlt hfirst, List.reverse_reverse, Nat.ofDigits_digits]
  unfold toBytes
  rw [if_neg hpos, hdigits, List.reverse_reverse]
  rfl

/-- A text of more than one byte that starts with no zero byte is the one that is
written for these bytes. -/
theorem base58Encode_decode {text : String} {raw : List ℕ} (h : base58Decode text = .ok raw)
    (hlength : 1 < raw.length) (hhead : raw.head? ≠ some 0) :
    text = base58Encode raw ∧ ∀ b ∈ raw, b < 256 := by
  obtain ⟨digits, hlt, htext, hraw⟩ := base58Decode_ok.mp h
  have hones : (text.toList.takeWhile fun char ↦ char = '1') = [] := by
    rw [← List.length_eq_zero_iff]
    by_contra hcount
    obtain ⟨k, hk⟩ := Nat.exists_eq_succ_of_ne_zero hcount
    rw [hk, List.replicate_succ] at hraw
    exact hhead (by rw [hraw]; rfl)
  rw [hones, List.length_nil, List.replicate_zero, List.nil_append] at hraw
  set n := Nat.ofDigits 58 digits.reverse with hn
  have hpos : n ≠ 0 := by
    intro hzero
    rw [hraw, hzero] at hlength
    exact absurd hlength (by decide)
  have hbytes : raw = (Nat.digits 256 n).reverse := by
    rw [hraw]
    unfold toBytes
    rw [if_neg hpos]
  have hne : digits ≠ [] := by
    rintro rfl
    exact hpos rfl
  have hfirst : digits.head hne ≠ 0 := by
    obtain ⟨d, rest, rfl⟩ := List.exists_cons_of_ne_nil hne
    rintro hzero
    rw [List.head_cons] at hzero
    rw [htext, List.map_cons, List.takeWhile_cons_of_pos] at hones
    · cases hones
    · rw [hzero]
      rfl
  have hdigits : Nat.digits 58 n = digits.reverse := by
    refine Nat.digits_ofDigits 58 (by decide) _ (fun d hd ↦ hlt d (List.mem_reverse.mp hd)) ?_
    intro hrev
    rwa [List.getLast_reverse]
  have hzeros : (raw.takeWhile fun byte ↦ byte = 0) = [] := takeWhile_zeros hhead
  constructor
  · refine String.toList_inj.mp ?_
    unfold base58Encode
    dsimp only
    rw [hzeros, String.toList_ofList, List.length_nil, List.replicate_zero, List.nil_append,
      hbytes, List.reverse_reverse, Nat.ofDigits_digits, hdigits, List.reverse_reverse, htext]
  · intro b hb
    rw [hbytes] at hb
    exact Nat.digits_lt_base (by decide) (List.mem_reverse.mp hb)

/-! ## User memos -/

/-- What the hash function is relied on for. -/
structure HashesToBytes (sha256 : List ℕ → List ℕ) : Prop where
  length : ∀ bytes, (sha256 bytes).length = 32
  lt : ∀ bytes, ∀ b ∈ sha256 bytes, b < 256

/-- Bytes that fit into a memo. -/
structure IsContent (content : List ℕ) : Prop where
  length : content.length ≤ 32
  lt : ∀ b ∈ content, b < 256

variable {sha256 : List ℕ → List ℕ} {content content' : List ℕ}

theorem length_memoData (h : IsContent content) : (memoData content).length = 35 := by
  have hlength := h.length
  simp only [memoData, List.length_cons, List.length_append, List.length_replicate]
  omega

theorem memoData_lt (h : IsContent content) : ∀ b ∈ memoData content, b < 256 := by
  have hlength := h.length
  intro b hb
  simp only [memoData, List.mem_cons, List.mem_append] at hb
  rcases hb with rfl | rfl | rfl | hb | hb
  · decide
  · decide
  · omega
  · exact h.lt b hb
  · rw [List.eq_of_mem_replicate hb]
    decide

/-- The bytes of a memo text. -/
def memoBytes (sha256 : List ℕ → List ℕ) (content : List ℕ) : List ℕ :=
  memoData content ++ (sha256 (sha256 (memoData content))).take 4

theorem base58Decode_encodeTxMemo (hsha : HashesToBytes sha256) (h : IsContent content) :
    base58Decode (encodeTxMemo sha256 content) = .ok (memoBytes sha256 content) := by
  refine base58Decode_encode ?_ (List.cons_ne_nil _ _) nofun
  intro b hb
  rcases List.mem_append.mp hb with hb | hb
  · exact memoData_lt h b hb
  · exact hsha.lt _ b (List.mem_of_mem_take hb)

theorem length_memoBytes (hsha : HashesToBytes sha256) (h : IsContent content) :
    (memoBytes sha256 content).length = 39 := by
  unfold memoBytes
  rw [List.length_append, length_memoData h, List.length_take, hsha.length]
  rfl

theorem take_memoBytes (h : IsContent content) :
    (memoBytes sha256 content).take 35 = memoData content := List.take_left' (length_memoData h)

theorem drop_memoBytes (h : IsContent content) :
    (memoBytes sha256 content).drop 35 = (sha256 (sha256 (memoData content))).take 4 :=
  List.drop_left' (length_memoData h)

/-- The content is part of the data. -/
theorem content_eq (content : List ℕ) :
    (((memoData content).drop 1).drop 2).take (((memoData content).drop 1).getD 1 0) =
      content := by
  change (content ++ List.replicate (32 - content.length) 0).take content.length = content
  rw [List.take_left]

theorem encodeTxMemo_injective (hsha : HashesToBytes sha256) (h : IsContent content)
    (h' : IsContent content') (heq : encodeTxMemo sha256 content = encodeTxMemo sha256 content') :
    content = content' := by
  have hdecoded := base58Decode_encodeTxMemo hsha h
  rw [heq, base58Decode_encodeTxMemo hsha h'] at hdecoded
  have hbytes : memoBytes sha256 content' = memoBytes sha256 content := Except.ok.inj hdecoded
  have hdata := congrArg (List.take 35) hbytes
  unfold memoBytes at hdata
  rw [List.take_left' (length_memoData h), List.take_left' (length_memoData h')] at hdata
  rw [← content_eq content, ← hdata, content_eq content']

/-- Data with the marks of a user memo, padded with zeros, is that of its content. -/
theorem eq_memoData {data : List ℕ} (hlength : data.length = 35) (hversion : data[0]? = some 0x14)
    (htag : (data.drop 1)[0]? = some 0x01) (hcontent : (data.drop 1).getD 1 0 ≤ 32)
    (hpadding : ∀ b ∈ (data.drop 1).drop (2 + (data.drop 1).getD 1 0), b = 0) :
    data = memoData (((data.drop 1).drop 2).take ((data.drop 1).getD 1 0)) := by
  obtain ⟨version, data, rfl⟩ := List.exists_cons_of_length_eq_add_one hlength
  have hlength₁ : data.length = 34 := Nat.succ_injective hlength
  obtain ⟨tag, data, rfl⟩ := List.exists_cons_of_length_eq_add_one hlength₁
  have hlength₂ : data.length = 33 := Nat.succ_injective hlength₁
  obtain ⟨length, rest, rfl⟩ := List.exists_cons_of_length_eq_add_one hlength₂
  have hrest : rest.length = 32 := Nat.succ_injective hlength₂
  obtain rfl : version = 0x14 := Option.some.inj hversion
  obtain rfl : tag = 0x01 := Option.some.inj htag
  change length ≤ 32 at hcontent
  have hdrop : rest.drop length = List.replicate (32 - length) 0 := by
    refine List.eq_replicate_iff.mpr ⟨by rw [List.length_drop, hrest], ?_⟩
    intro b hb
    refine hpadding b ?_
    change b ∈ (1 :: length :: rest).drop (2 + length)
    rw [Nat.add_comm, List.drop_succ_cons, List.drop_succ_cons]
    exact hb
  have htake : (rest.take length).length = length := by
    rw [List.length_take, hrest]
    omega
  change _ = memoData (rest.take length)
  unfold memoData
  rw [htake, ← hdrop, List.take_append_drop]

variable {E : Env} {lib : Backend E}

/-- A text is accepted exactly if it is the memo of some content. -/
theorem decodeTxMemo_ok (hsha : HashesToBytes lib.sha256) {memo text : String} :
    decodeTxMemo lib memo = .ok text ↔
      ∃ content, IsContent content ∧ memo = encodeTxMemo lib.sha256 content ∧
        text = lib.decodeText content := by
  constructor
  · intro h
    obtain ⟨raw, hraw, h⟩ := Check.bind_ok.mp h
    obtain ⟨hlength, h⟩ := Check.guard_ok.mp h
    obtain ⟨hversion, h⟩ := Check.guard_ok.mp h
    obtain ⟨hchecksum, h⟩ := Check.guard_ok.mp h
    obtain ⟨htag, h⟩ := Check.guard_ok.mp h
    obtain ⟨hcontent, h⟩ := Check.guard_ok.mp h
    obtain ⟨hpadding, h⟩ := Check.guard_ok.mp h
    have htext : lib.decodeText _ = text := Except.ok.inj h
    rw [ne_eq, not_not] at hlength hversion hchecksum htag
    have hpayload : (raw.take 35).length = 35 := by
      rw [List.length_take, hlength]
      rfl
    have hhead : raw.head? ≠ some 0 := by
      rw [List.head?_eq_getElem?, hversion]
      decide
    obtain ⟨hmemo, hlt⟩ := base58Encode_decode hraw (by omega) hhead
    have hdata : raw.take 35 = _ := eq_memoData hpayload
      (by rw [List.getElem?_take_of_lt (by decide), hversion]) htag (by omega)
      (by
        intro b hb
        by_contra hne
        exact hpadding (List.any_eq_true.mpr ⟨b, hb, decide_eq_true hne⟩))
    set content := (((raw.take 35).drop 1).drop 2).take (((raw.take 35).drop 1).getD 1 0)
      with hcontents
    refine ⟨content, ⟨?_, ?_⟩, ?_, htext.symm⟩
    · exact (List.length_take_le _ _).trans (by omega)
    · intro b hb
      exact hlt b (List.mem_of_mem_take (List.mem_of_mem_drop (List.mem_of_mem_drop
        (List.mem_of_mem_take hb))))
    · unfold encodeTxMemo
      rw [hmemo, ← hdata, ← hchecksum, List.take_append_drop]
  · rintro ⟨content, hcontent, rfl, rfl⟩
    have htake : (memoBytes lib.sha256 content).take 35 = _ := take_memoBytes hcontent
    have hdrop : (memoBytes lib.sha256 content).drop 35 = _ := drop_memoBytes hcontent
    refine Check.bind_ok.mpr ⟨_, base58Decode_encodeTxMemo hsha hcontent, ?_⟩
    refine Check.guard_ok.mpr ⟨not_not.mpr (length_memoBytes hsha hcontent), ?_⟩
    refine Check.guard_ok.mpr ⟨not_not.mpr rfl, ?_⟩
    refine Check.guard_ok.mpr ⟨not_not.mpr (by rw [htake, hdrop]), ?_⟩
    dsimp only
    rw [htake]
    refine Check.guard_ok.mpr ⟨not_not.mpr rfl, ?_⟩
    refine Check.guard_ok.mpr ⟨Nat.not_lt.mpr hcontent.length, ?_⟩
    refine Check.guard_ok.mpr
      ⟨?_, congrArg (fun c ↦ Except.ok (lib.decodeText c)) (content_eq content)⟩
    intro hany
    obtain ⟨b, hb, hne⟩ := List.any_eq_true.mp hany
    change b ∈ (1 :: content.length :: (content ++ List.replicate (32 - content.length) 0)).drop
      (2 + content.length) at hb
    rw [Nat.add_comm, List.drop_succ_cons, List.drop_succ_cons, List.drop_left] at hb
    exact of_decide_eq_true hne (List.eq_of_mem_replicate hb)

end MinaGuard
