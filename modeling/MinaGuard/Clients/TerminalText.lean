import MinaGuard.Clients.JsText

/-!
# Text for a terminal

`terminal-safe.ts` of the offline CLI: characters that a terminal acts on, or that
reorder text, are shown by their code points.
-/

namespace MinaGuard

/-- `[\p{Cc}\p{Cf}\p{Zl}\p{Zp}]`, as ranges of code points. -/
def terminalUnsafe : List (ℕ × ℕ) :=
  [(0x0, 0x1F), (0x7F, 0x9F), (0xAD, 0xAD), (0x600, 0x605), (0x61C, 0x61C), (0x6DD, 0x6DD),
    (0x70F, 0x70F), (0x890, 0x891), (0x8E2, 0x8E2), (0x180E, 0x180E), (0x200B, 0x200F),
    (0x2028, 0x202E), (0x2060, 0x2064), (0x2066, 0x206F), (0xFEFF, 0xFEFF), (0xFFF9, 0xFFFB),
    (0x110BD, 0x110BD), (0x110CD, 0x110CD), (0x13430, 0x1343F), (0x1BCA0, 0x1BCA3),
    (0x1D173, 0x1D17A), (0xE0001, 0xE0001), (0xE0020, 0xE007F)]

def isTerminalUnsafe (c : Char) : Bool :=
  terminalUnsafe.any fun range ↦ range.1 ≤ c.toNat ∧ c.toNat ≤ range.2

/-- The code point in hexadecimal, between braces. -/
def escapeChar (c : Char) : List Char :=
  if isTerminalUnsafe c then
    "\\u\x7b".toList ++ (Nat.toDigits 16 c.toNat).map Char.toUpper ++ "\x7d".toList
  else [c]

def escapeTerminalText (input : String) : String :=
  String.ofList (input.toList.flatMap escapeChar)

example : escapeTerminalText "x\t5" = "x\\u\x7b9\x7d5" := by decide

/-- Nothing in the text is escaped. -/
def TerminalSafe (text : String) : Prop := ∀ c ∈ text.toList, isTerminalUnsafe c = false

instance (text : String) : Decidable (TerminalSafe text) :=
  List.decidableBAll (fun c ↦ isTerminalUnsafe c = false) text.toList

theorem toList_escapeTerminalText (input : String) :
    (escapeTerminalText input).toList = input.toList.flatMap escapeChar := String.toList_ofList

theorem escapeTerminalText_append (a b : String) :
    escapeTerminalText (a ++ b) = escapeTerminalText a ++ escapeTerminalText b := by
  apply String.toList_inj.mp
  rw [toList_escapeTerminalText, String.toList_append, String.toList_append,
    toList_escapeTerminalText, toList_escapeTerminalText, List.flatMap_append]

variable {text plain : String}

theorem TerminalSafe.append {a b : String} (ha : TerminalSafe a) (hb : TerminalSafe b) :
    TerminalSafe (a ++ b) := by
  intro c hc
  rw [String.toList_append] at hc
  exact (List.mem_append.mp hc).elim (ha c) (hb c)

theorem TerminalSafe.escape (h : TerminalSafe text) : escapeTerminalText text = text := by
  apply String.toList_inj.mp
  rw [toList_escapeTerminalText]
  refine Eq.trans (List.flatMap_congr fun c hc ↦ ?_)
    (List.flatMap_pure_eq_map id _ |>.trans (List.map_id _))
  exact if_neg (Bool.eq_false_iff.mp (h c hc))

/-- What is escaped leaves a backslash. -/
theorem backslash_mem_escape (h : ¬TerminalSafe text) :
    '\\' ∈ (escapeTerminalText text).toList := by
  obtain ⟨c, hc, hunsafe⟩ : ∃ c ∈ text.toList, isTerminalUnsafe c ≠ false := by
    simpa [TerminalSafe] using h
  rw [toList_escapeTerminalText]
  refine List.mem_flatMap.mpr ⟨c, hc, ?_⟩
  unfold escapeChar
  rw [if_pos (by simpa using hunsafe)]
  simp

/-- A text without a backslash is shown for itself only. -/
theorem escapeTerminalText_eq_iff (hplain : '\\' ∉ plain.toList) :
    escapeTerminalText text = plain ↔ TerminalSafe text ∧ text = plain := by
  constructor
  · intro heq
    have hsafe : TerminalSafe text := by
      by_contra hunsafe
      exact hplain (heq ▸ backslash_mem_escape hunsafe)
    exact ⟨hsafe, hsafe.escape.symm.trans heq⟩
  · rintro ⟨hsafe, rfl⟩
    exact hsafe.escape

theorem isTerminalUnsafe_of_le {c : Char} (hlow : 32 ≤ c.toNat) (hhigh : c.toNat ≤ 126) :
    isTerminalUnsafe c = false := by
  simp only [isTerminalUnsafe, terminalUnsafe, List.any_cons, List.any_nil, Bool.or_false,
    Bool.or_eq_false_iff, decide_eq_false_iff_not]
  omega

/-- Blanks only are cut off. -/
theorem mem_trimmed {c : Char} {chars : List Char} (hc : c ∈ chars)
    (hspace : isWhiteSpace c = false) : c ∈ trimmed chars := by
  have hkeep {l : List Char} (hl : c ∈ l) : c ∈ l.dropWhile isWhiteSpace := by
    rw [← List.takeWhile_append_dropWhile (p := isWhiteSpace) (l := l)] at hl
    refine (List.mem_append.mp hl).resolve_left fun htake ↦ ?_
    rw [List.mem_takeWhile_imp htake] at hspace
    cases hspace
  unfold trimmed
  exact List.mem_reverse.mpr (hkeep (List.mem_reverse.mpr (hkeep hc)))

/-- No number has a backslash. -/
theorem backslash_notMem_of_parseBigInt {n : ℤ} (h : parseBigInt text = some n) :
    '\\' ∉ text.toList := by
  intro hmem
  have htrimmed := mem_trimmed hmem (by decide)
  have hnone {radix : ℕ} {digits : List Char} (hdigits : '\\' ∈ digits) :
      ofDigits radix digits = none := ofDigits_eq_none ⟨'\\', hdigits, le_of_eq rfl⟩
  unfold parseBigInt at h
  dsimp only at h
  generalize trimmed text.toList = chars at h htrimmed
  rw [if_neg (List.ne_nil_of_mem htrimmed), if_neg fun hall ↦
    absurd (List.all_eq_true.mp hall _ htrimmed) (by decide)] at h
  split at h
  · rw [hnone ((List.mem_cons.mp htrimmed).resolve_left (by decide))] at h
    cases h
  · rw [hnone ((List.mem_cons.mp htrimmed).resolve_left (by decide))] at h
    cases h
  · next mark digits =>
      rcases List.mem_cons.mp ((List.mem_cons.mp htrimmed).resolve_left (by decide)) with
        rfl | hdigits
      · cases h
      · rw [hnone hdigits, hnone hdigits, hnone hdigits] at h
        split at h
        · cases h
        · split at h
          · cases h
          · split at h <;> cases h
  · cases h

/-- A number is read from what is shown exactly if nothing of it is escaped. -/
theorem parseBigInt_escape {n : ℤ} :
    parseBigInt (escapeTerminalText text) = some n ↔
      TerminalSafe text ∧ parseBigInt text = some n := by
  constructor
  · intro h
    have hsafe : TerminalSafe text := by
      by_contra hunsafe
      exact backslash_notMem_of_parseBigInt h (backslash_mem_escape hunsafe)
    rw [hsafe.escape] at h
    exact ⟨hsafe, h⟩
  · rintro ⟨hsafe, h⟩
    rwa [hsafe.escape]

end MinaGuard
