/-!
# Characters and texts

Documents are cut at blanks. A blank is any character with the Unicode property White_Space,
so a no-break space separates two words just as a line break does, while U+001C to U+001F,
which are control characters only, do not. A numeral is a run of ASCII digits. Leading zeros are
allowed; the empty run is no numeral.

* `isBlank` — membership in the table of White_Space ranges; it contains every character
  that `Char.isWhitespace` accepts (`isBlank_of_isWhitespace`).
* `isControl` — the control characters U+0000 to U+001F and U+007F to U+009F.
* `trim` — a text without the blanks at its two ends.
* `decimal?` reads a numeral, `decimalBelow?` also asks for a value below a bound: such a numeral
  is a run of digits, not empty, with a value below the bound (`decimalBelow?_eq_some`), and the
  decimal representation of a number is one for it (`decimalBelow?_repr`).
-/

namespace Songsheet.Text

/-! ## Blanks and control characters -/

/-- Whether a character is in one of some ranges of code points, both ends included. -/
def inRanges (ranges : List (Nat × Nat)) (c : Char) : Bool :=
  ranges.any fun range => range.1 ≤ c.toNat && c.toNat ≤ range.2

/-- The ranges of code points with the property White_Space. -/
def blankRanges : List (Nat × Nat) :=
  [(0x0009, 0x000D), (0x0020, 0x0020), (0x0085, 0x0085), (0x00A0, 0x00A0), (0x1680, 0x1680),
   (0x2000, 0x200A), (0x2028, 0x2029), (0x202F, 0x202F), (0x205F, 0x205F), (0x3000, 0x3000)]

/-- A character that separates words. -/
def isBlank (c : Char) : Bool :=
  inRanges blankRanges c

theorem isBlank_of_isWhitespace (c : Char) (h : c.isWhitespace) : isBlank c := by
  simp only [Char.isWhitespace, Bool.or_eq_true, decide_eq_true_eq] at h
  rcases h with ((rfl | rfl) | rfl) | rfl <;> decide

/-- The printable characters of ASCII, apart from the space, are no blanks. -/
theorem isBlank_of_printable {c : Char} (hl : 0x21 ≤ c.toNat) (hu : c.toNat ≤ 0x7E) :
    isBlank c = false := by
  simp [isBlank, inRanges, blankRanges]
  omega

theorem isBlank_slash : isBlank '/' = false := by decide

theorem ne_slash_of_isBlank {c : Char} (h : isBlank c) : c ≠ '/' := by
  intro hc
  rw [hc, isBlank_slash] at h
  cases h

/-- A control character: U+0000 to U+001F or U+007F to U+009F. -/
def isControl (c : Char) : Bool :=
  c.toNat ≤ 0x1F || (0x7F ≤ c.toNat && c.toNat ≤ 0x9F)

/-- The characters of a text between its leading and its trailing blanks. -/
def trimmed (text : List Char) : List Char :=
  ((text.dropWhile isBlank).reverse.dropWhile isBlank).reverse

/-- A text without the blanks at its two ends. -/
def trim (text : String) : String :=
  String.ofList (trimmed text.toList)

/-! ## Numerals -/

/-- The value that a run of digits adds to the digits before it. -/
def digitsValue (before : Nat) (digits : List Char) : Nat :=
  digits.foldl (fun n d => 10 * n + (d.toNat - '0'.toNat)) before

/-- The number that a numeral stands for. -/
def decimal? (text : String) : Option Nat :=
  let digits := text.toList
  if !digits.isEmpty && digits.all Char.isDigit then some (digitsValue 0 digits) else none

/-- The number that a numeral stands for, if it is below `bound`. -/
def decimalBelow? (bound : Nat) (text : String) : Option Nat :=
  (decimal? text).filter (· < bound)

theorem decimalBelow?_lt {bound n : Nat} {text : String} (h : decimalBelow? bound text = some n) :
    n < bound := by
  simpa using (Option.filter_eq_some_iff.1 h).2

theorem decimalBelow?_eq_some {bound n : Nat} {text : String} :
    decimalBelow? bound text = some n ↔
      text.toList ≠ [] ∧ (∀ c ∈ text.toList, c.isDigit) ∧ digitsValue 0 text.toList = n ∧
        n < bound := by
  simp only [decimalBelow?, Option.filter_eq_some_iff, decimal?, Option.ite_none_right_eq_some,
    Option.some.injEq, Bool.and_eq_true, Bool.not_eq_true', List.isEmpty_eq_false_iff,
    List.all_eq_true, decide_eq_true_eq, and_assoc, ne_eq]

/-- A numeral begins with a digit, whatever stands behind it. -/
theorem exists_digit_of_decimalBelow? {bound n : Nat} {text : String}
    (h : decimalBelow? bound text = some n) (behind : List Char) :
    ∃ first, (text.toList ++ behind).head? = some first ∧ first.isDigit := by
  obtain ⟨hne, hdigits, -, -⟩ := decimalBelow?_eq_some.1 h
  obtain ⟨first, others, hfirst⟩ := List.exists_cons_of_ne_nil hne
  exact ⟨first, by rw [hfirst]; rfl, hdigits first (by simp [hfirst])⟩

theorem decimalBelow?_repr {bound n : Nat} (h : n < bound) : decimalBelow? bound n.repr = some n := by
  rw [decimalBelow?_eq_some, Nat.toList_repr]
  refine ⟨Nat.toDigits_ne_nil, ?_, ?_, h⟩
  · intro c hc
    exact Nat.isDigit_of_mem_toDigits (by decide) (by decide) hc
  · show Nat.ofDigitChars 10 (Nat.toDigits 10 n) 0 = n
    exact Nat.ofDigitChars_toDigits (by decide) (by decide)

end Songsheet.Text

namespace Songsheet

theorem isBlank_of_isDigit {c : Char} (h : c.isDigit) : Text.isBlank c = false := by
  simp only [Char.isDigit, Bool.and_eq_true, decide_eq_true_eq, UInt32.le_iff_toNat_le,
    ge_iff_le] at h
  obtain ⟨hl, hu⟩ := h
  change 48 ≤ c.toNat at hl
  change c.toNat ≤ 57 at hu
  exact Text.isBlank_of_printable (by omega) (by omega)

/-- No comment begins or ends with a digit. -/
theorem ne_of_isDigit {c : Char} (h : c.isDigit) : c ≠ '/' ∧ c ≠ '*' := by
  constructor
  · rintro rfl
    cases h
  · rintro rfl
    cases h

end Songsheet
