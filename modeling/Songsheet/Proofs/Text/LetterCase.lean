import Songsheet.Pitch
import Songsheet.Text

/-!
# Letter case

The letters of ASCII come in two cases, and nothing else has a case here. Most classes of characters
that decide where a word ends hold a letter in both cases or in neither, and a pitch key means the
same in both.

* `SameLetter`, `SameLetters` — two characters, or two texts, that are the same up to case.
* `CaseBlind` — a class of characters that does not tell the cases apart: blanks, digits, key
  characters, and every single character that is no letter.
* `Pitch.ofSpelling?_congr` — spellings that are the same up to case mean the same.
-/

namespace Songsheet

variable {p q : Char → Bool} {x x' y : Char}

/-! ## Characters -/

/-- An upper-case letter stands 32 places in front of the same letter in lower case; every other
character stays as it is. -/
theorem toLower_cases (x : Char) :
    x.toLower = x ∨ 65 ≤ x.toNat ∧ x.toNat ≤ 90 ∧ x.toLower.toNat = x.toNat + 32 := by
  unfold Char.toLower
  split
  · rename_i h
    simp only [ge_iff_le, UInt32.le_iff_toNat_le] at h
    obtain ⟨hl, hu⟩ := h
    change 65 ≤ x.toNat at hl
    change x.toNat ≤ 90 at hu
    refine .inr ⟨hl, hu, ?_⟩
    show (x.val + 32).toNat = x.toNat + 32
    rw [UInt32.toNat_add]
    exact Nat.mod_eq_of_lt (show x.toNat + 32 < 2 ^ 32 by omega)
  · exact .inl rfl

theorem toUpper_cases (x : Char) :
    x.toUpper = x ∧ ¬ (97 ≤ x.toNat ∧ x.toNat ≤ 122) ∨
      97 ≤ x.toNat ∧ x.toNat ≤ 122 ∧ x.toUpper.toNat + 32 = x.toNat := by
  unfold Char.toUpper
  split
  · rename_i h
    simp only [UInt32.le_iff_toNat_le] at h
    obtain ⟨hl, hu⟩ := h
    change 97 ≤ x.toNat at hl
    change x.toNat ≤ 122 at hu
    refine .inr ⟨hl, hu, ?_⟩
    show (x.val + (65 - 97)).toNat + 32 = x.toNat
    rw [UInt32.toNat_add]
    have hshift : ((65 - 97 : UInt32)).toNat = 2 ^ 32 - 32 := by decide
    rw [hshift, Char.toNat_val]
    omega
  · rename_i h
    simp only [UInt32.le_iff_toNat_le] at h
    exact .inl ⟨rfl, h⟩

/-- Going to upper case undoes going to lower case. -/
theorem toUpper_toLower (x : Char) : x.toLower.toUpper = x.toUpper := by
  rcases toLower_cases x with h | ⟨hl, hu, h⟩
  · rw [h]
  · apply Char.toNat_inj.1
    rcases toUpper_cases x with ⟨hx, -⟩ | ⟨hx, -⟩
    · rcases toUpper_cases x.toLower with ⟨-, hno⟩ | ⟨-, -, hlower⟩
      · omega
      · rw [hx]
        omega
    · omega

/-- The same character, up to the case of a letter. -/
def SameLetter (x x' : Char) : Prop := x.toLower = x'.toLower

instance : Decidable (SameLetter x x') := inferInstanceAs (Decidable (_ = _))

theorem SameLetter.toUpper_eq (h : SameLetter x x') : x.toUpper = x'.toUpper := by
  rw [← toUpper_toLower x, ← toUpper_toLower x', h]

/-! ## Classes of characters -/

/-- A class of characters that holds a letter in both cases or in neither. -/
def CaseBlind (p : Char → Bool) : Prop := ∀ x : Char, p x.toLower = p x

theorem CaseBlind.eq (h : CaseBlind p) (hx : SameLetter x x') : p x = p x' := by
  rw [← h x, ← h x', hx]

theorem CaseBlind.not (h : CaseBlind p) : CaseBlind fun x => !p x :=
  fun x => congrArg (!·) (h x)

theorem CaseBlind.or (hp : CaseBlind p) (hq : CaseBlind q) : CaseBlind fun x => p x || q x := by
  intro x
  show (p x.toLower || q x.toLower) = (p x || q x)
  rw [hp x, hq x]

/-- A class that is told by code points has to be asked at the letters only. -/
theorem caseBlind_of_toNat {r : Nat → Bool} (hp : ∀ x : Char, p x = r x.toNat)
    (hr : ∀ n, 65 ≤ n → n ≤ 90 → r (n + 32) = r n) : CaseBlind p := by
  intro x
  rcases toLower_cases x with h | ⟨hl, hu, h⟩
  · rw [h]
  · rw [hp, hp, h, hr _ hl hu]

theorem caseBlind_beq (hy : y.toNat < 65 ∨ 122 < y.toNat) : CaseBlind (· == y) := by
  apply caseBlind_of_toNat (r := (· == y.toNat))
  · intro x
    rw [Bool.eq_iff_iff, beq_iff_eq, beq_iff_eq, Char.toNat_inj]
  · intro n hl hu
    rw [Bool.eq_iff_iff, beq_iff_eq, beq_iff_eq]
    omega

/-- A character that is no letter is the same in no other case. -/
theorem SameLetter.eq_iff (h : SameLetter x x') (hy : y.toNat < 65 ∨ 122 < y.toNat) :
    x = y ↔ x' = y := by
  have hbeq := (caseBlind_beq hy).eq h
  rwa [Bool.eq_iff_iff, beq_iff_eq, beq_iff_eq] at hbeq

theorem caseBlind_isDigit : CaseBlind Char.isDigit := by
  apply caseBlind_of_toNat (r := fun n => decide (48 ≤ n) && decide (n ≤ 57))
  · intro x
    rfl
  · intro n hl hu
    rw [Bool.eq_iff_iff]
    simp
    omega

theorem caseBlind_isBlank : CaseBlind Text.isBlank := by
  apply caseBlind_of_toNat
    (r := fun n => Text.blankRanges.any fun range => range.1 ≤ n && n ≤ range.2)
  · intro x
    rfl
  · intro n hl hu
    rw [Bool.eq_iff_iff]
    simp [Text.blankRanges]
    omega

theorem caseBlind_isKeyChar : CaseBlind isKeyChar := by
  have hletter : CaseBlind fun x => ('A' ≤ x && x ≤ 'G') || ('a' ≤ x && x ≤ 'g') := by
    apply caseBlind_of_toNat (r := fun n =>
      decide (65 ≤ n) && decide (n ≤ 71) || decide (97 ≤ n) && decide (n ≤ 103))
    · intro x
      rfl
    · intro n hl hu
      rw [Bool.eq_iff_iff]
      simp
      omega
  exact ((hletter.or (caseBlind_beq (by decide))).or (caseBlind_beq (by decide))).or
    (caseBlind_beq (by decide))

/-! ## Spellings -/

/-- The same text, up to the case of letters. -/
def SameLetters (text text' : List Char) : Prop := text.map Char.toLower = text'.map Char.toLower

theorem sameLetters_cons {text text' : List Char} :
    SameLetters (x :: text) (x' :: text') ↔ SameLetter x x' ∧ SameLetters text text' :=
  List.cons_eq_cons

theorem SameLetters.eq_nil_iff {text text' : List Char} (h : SameLetters text text') :
    text = [] ↔ text' = [] := by
  rw [← List.map_eq_nil_iff (f := Char.toLower), h, List.map_eq_nil_iff]

namespace Pitch

variable {s s' : String}

theorem ofSpelling?_letter (hs : s.toList = [x]) :
    ofSpelling? s = if x = '~' then some .rest else ofLetter? x.toUpper := by
  simp only [ofSpelling?, hs]

/-- The second character is the accidental, and nothing may follow it. -/
theorem ofSpelling?_accidental {text : List Char} (hs : s.toList = x :: y :: text) :
    ofSpelling? s =
      if y = '#' ∧ text = [] then (ofLetter? x.toUpper).map sharp
      else if y = '\'' ∧ text = [] then (ofLetter? x.toUpper).map flat
      else none := by
  cases text with
  | nil => simp only [ofSpelling?, hs, and_true]
  | cons z text => simp only [ofSpelling?, hs, reduceCtorEq, and_false, if_false]

/-- Spellings that are the same up to case mean the same. -/
theorem ofSpelling?_congr (h : SameLetters s.toList s'.toList) :
    ofSpelling? s = ofSpelling? s' := by
  rcases hs : s.toList with _ | ⟨x, _ | ⟨y, text⟩⟩ <;>
    rcases hs' : s'.toList with _ | ⟨x', _ | ⟨y', text'⟩⟩ <;>
    simp [hs, hs', SameLetters] at h
  · unfold ofSpelling?
    rw [hs, hs']
  · have hrest := SameLetter.eq_iff h (y := '~') (by decide)
    simp only [ofSpelling?_letter hs, ofSpelling?_letter hs', hrest, SameLetter.toUpper_eq h]
  · obtain ⟨hx, hy, htext⟩ := h
    have hsharp := SameLetter.eq_iff hy (y := '#') (by decide)
    have hflat := SameLetter.eq_iff hy (y := '\'') (by decide)
    simp only [ofSpelling?_accidental hs, ofSpelling?_accidental hs', hsharp, hflat,
      SameLetters.eq_nil_iff htext, SameLetter.toUpper_eq hx]

end Pitch

end Songsheet
