import Songsheet.Proofs.Text.LetterCase

/-!
# The chromatic rule

Twenty-two spellings have a meaning, and arithmetic says which: a letter stands some semitones above
C, an accidental moves it by one semitone up or down, and the classes are counted around the octave.
So `B#` is C and `C'` is B, and all spellings of a class share its name.

* `naturals`, `accidentals`, `Spells` — the rule: which spelling stands for which pitch.
* `spellings` — all spellings as a table, the display names in front.
* `ofSpelling?_eq_some_iff` — the spellings that are understood are those of the rule.
* `ofSpelling?_eq_lookup` — looking a spelling up in the table comes to the same.
* `ofSpelling?_chromatic` — the two together, with the display names.
-/

namespace Songsheet.Pitch

variable {s : String} {p q : Pitch} {x letter : Char} {semitones shift : Int}
  {accidental : List Char}

/-! ## The rule -/

/-- The letters, with the semitones by which each stands above C. -/
def naturals : List (Char × Int) :=
  [('C', 0), ('D', 2), ('E', 4), ('F', 5), ('G', 7), ('A', 9), ('B', 11)]

/-- What may follow a letter, with the semitones by which it moves the letter. -/
def accidentals : List (List Char × Int) :=
  [([], 0), (['#'], 1), (['\''], -1)]

/-- What a spelling stands for: `~` for the rest, and a letter in either case with an accidental or
none for the class that their semitones come to, counted around the octave from C. -/
inductive Spells : String → Pitch → Prop
  | rest : Spells "~" .rest
  | pitched {s : String} {p : Pitch} {letter first : Char} {semitones shift : Int}
      {accidental : List Char} (natural : (letter, semitones) ∈ naturals)
      (moved : (accidental, shift) ∈ accidentals) (case : first = letter ∨ first = letter.toLower)
      (text : s.toList = first :: accidental)
      (number : (p.number : Int) = 1 + (semitones + shift) % 12) : Spells s p

/-- Every spelling with its pitch, the display names first and in the order of their numbers. -/
def spellings : List (String × Pitch) :=
  [("~", .rest), ("C", .c), ("C#", .cSharp), ("D", .d), ("D#", .dSharp), ("E", .e), ("F", .f),
    ("F#", .fSharp), ("G", .g), ("G#", .gSharp), ("A", .a), ("A#", .aSharp), ("B", .b),
    ("B#", .c), ("D'", .cSharp), ("E'", .dSharp), ("F'", .e), ("E#", .f), ("G'", .fSharp),
    ("A'", .gSharp), ("B'", .aSharp), ("C'", .b)]

/-! ## Pitches by their numbers -/

theorem number_inj : p.number = q.number ↔ p = q := by
  constructor
  · intro h
    have hq := ofNumber?_number q
    rw [← h, ofNumber?_number] at hq
    exact Option.some.inj hq
  · rintro rfl
    rfl

/-- What an accidental makes of a pitch. -/
def moved (shift : Int) (p : Pitch) : Pitch :=
  if shift = 1 then p.sharp else if shift = -1 then p.flat else p

/-- An accidental moves a class around the octave. -/
theorem number_moved (hp : p ≠ .rest) (hnumber : (p.number : Int) = 1 + semitones)
    (ha : (accidental, shift) ∈ accidentals) :
    ((p.moved shift).number : Int) = 1 + (semitones + shift) % 12 := by
  obtain rfl : semitones = p.number - 1 := by omega
  simp only [accidentals, List.mem_cons, Prod.mk.injEq, List.not_mem_nil, or_false] at ha
  obtain ⟨-, rfl⟩ | ⟨-, rfl⟩ | ⟨-, rfl⟩ := ha
  all_goals cases p <;> first | exact absurd rfl hp | rfl

/-! ## Letters -/

/-- Every character is the upper case or the lower case of its upper case. -/
theorem eq_toUpper_or (x : Char) : x = x.toUpper ∨ x = x.toUpper.toLower := by
  rcases toUpper_cases x with ⟨hx, -⟩ | ⟨hl, hu, hupper⟩
  · exact .inl hx.symm
  · refine .inr (Char.toNat_inj.1 ?_)
    unfold Char.toLower
    split
    · show x.toNat = (x.toUpper.val + 32).toNat
      rw [UInt32.toNat_add, Char.toNat_val]
      exact hupper.symm.trans (Nat.mod_eq_of_lt (show x.toUpper.toNat + 32 < 2 ^ 32 by omega)).symm
    · rename_i hno
      simp only [ge_iff_le, UInt32.le_iff_toNat_le] at hno
      exact absurd ⟨show 65 ≤ x.toUpper.toNat by omega, show x.toUpper.toNat ≤ 90 by omega⟩ hno

/-- Both cases of a letter of the rule have that letter as their upper case. -/
theorem toUpper_of_natural (natural : (letter, semitones) ∈ naturals)
    (case : x = letter ∨ x = letter.toLower) : x.toUpper = letter := by
  have hboth : ∀ natural ∈ naturals,
      natural.1.toUpper = natural.1 ∧ natural.1.toLower.toUpper = natural.1 := by decide
  obtain ⟨hupper, hlower⟩ := hboth _ natural
  rcases case with rfl | rfl
  · exact hupper
  · exact hlower

/-- A letter of the rule means the class of its semitones. -/
theorem ofLetter?_of_natural (natural : (letter, semitones) ∈ naturals) :
    ∃ q, ofLetter? letter = some q ∧ q ≠ .rest ∧ (q.number : Int) = 1 + semitones := by
  have hall : ∀ natural ∈ naturals, ∃ q ∈ all,
      ofLetter? natural.1 = some q ∧ q ≠ .rest ∧ (q.number : Int) = 1 + natural.2 := by decide
  obtain ⟨q, -, hq⟩ := hall _ natural
  exact ⟨q, hq⟩

/-- The letters with a meaning are those of the rule. -/
theorem exists_natural (h : ofLetter? x = some p) : ∃ semitones, (x, semitones) ∈ naturals := by
  have hmem : x ∈ naturals.map Prod.fst := by
    unfold ofLetter? at h
    split at h
    all_goals first | decide | cases h
  obtain ⟨⟨letter, semitones⟩, hnatural, rfl⟩ := List.mem_map.1 hmem
  exact ⟨semitones, hnatural⟩

/-! ## Spellings -/

/-- A letter with an accidental, or without one, means the pitch of the letter, moved. -/
theorem ofSpelling?_of_accidental (ha : (accidental, shift) ∈ accidentals)
    (hs : s.toList = x :: accidental) (hx : accidental = [] → x ≠ '~') :
    ofSpelling? s = (ofLetter? x.toUpper).map (moved shift) := by
  simp only [accidentals, List.mem_cons, Prod.mk.injEq, List.not_mem_nil, or_false] at ha
  obtain ⟨rfl, rfl⟩ | ⟨rfl, rfl⟩ | ⟨rfl, rfl⟩ := ha
  · rw [ofSpelling?_letter hs, if_neg (hx rfl)]
    exact Option.map_id'.symm
  · rw [ofSpelling?_accidental hs]
    rfl
  · rw [ofSpelling?_accidental hs]
    rfl

/-- Behind the first character of a spelling with a meaning, an accidental or nothing stands. -/
theorem exists_accidental (h : ofSpelling? s = some p) :
    ∃ x accidental shift, s.toList = x :: accidental ∧ (accidental, shift) ∈ accidentals := by
  rcases hs : s.toList with _ | ⟨x, _ | ⟨y, text⟩⟩
  · unfold ofSpelling? at h
    rw [hs] at h
    cases h
  · exact ⟨x, [], 0, rfl, by decide⟩
  · rw [ofSpelling?_accidental hs] at h
    split at h
    · rename_i hsharp
      obtain ⟨rfl, rfl⟩ := hsharp
      exact ⟨x, ['#'], 1, rfl, by decide⟩
    split at h
    · rename_i hflat
      obtain ⟨rfl, rfl⟩ := hflat
      exact ⟨x, ['\''], -1, rfl, by decide⟩
    · cases h

/-- The spellings with a meaning are those of the rule, and it is the meaning that they have. -/
theorem ofSpelling?_eq_some_iff : ofSpelling? s = some p ↔ Spells s p := by
  constructor
  · intro h
    by_cases hs : s = "~"
    · subst hs
      obtain rfl := Option.some.inj ((by decide : ofSpelling? "~" = some .rest).symm.trans h)
      exact .rest
    obtain ⟨x, accidental, shift, htext, hmoved⟩ := exists_accidental h
    have hx : accidental = [] → x ≠ '~' := by
      rintro rfl rfl
      exact hs (String.toList_inj.1 htext)
    rw [ofSpelling?_of_accidental hmoved htext hx] at h
    obtain ⟨q, hq, rfl⟩ := Option.map_eq_some_iff.1 h
    obtain ⟨semitones, hnatural⟩ := exists_natural hq
    obtain ⟨q', hq', hrest, hnumber⟩ := ofLetter?_of_natural hnatural
    obtain rfl := Option.some.inj (hq.symm.trans hq')
    exact .pitched hnatural hmoved (eq_toUpper_or x) htext (number_moved hrest hnumber hmoved)
  · intro h
    cases h with
    | rest => decide
    | @pitched _ _ letter first semitones shift accidental natural hmoved case text number =>
      have hupper := toUpper_of_natural natural case
      obtain ⟨q, hq, hrest, hnumber⟩ := ofLetter?_of_natural natural
      have hfirst : accidental = [] → first ≠ '~' := by
        rintro - rfl
        rw [← hupper] at hq
        cases hq
      rw [ofSpelling?_of_accidental hmoved text hfirst, hupper, hq, Option.map_some,
        Option.some.injEq, ← number_inj, ← Int.ofNat_inj, number]
      exact number_moved hrest hnumber hmoved

/-! ## The table -/

/-- Two spellings are the same up to the case of letters. -/
def sameSpelling (s s' : String) : Bool :=
  s.toList.map Char.toLower == s'.toList.map Char.toLower

/-- The pitch of the first spelling of the table that is the same up to the case of letters. -/
def lookup (s : String) : Option Pitch :=
  (spellings.find? fun row => sameSpelling row.1 s).map (·.2)

/-- Every spelling of the rule is in the table, up to the case of its letter. -/
theorem exists_row (h : Spells s p) : ∃ row ∈ spellings, sameSpelling row.1 s := by
  cases h with
  | rest => exact ⟨("~", .rest), by decide, by decide⟩
  | @pitched _ _ letter first semitones shift accidental natural hmoved case text number =>
    have hall : ∀ natural ∈ naturals, ∀ moved ∈ accidentals, ∃ row ∈ spellings,
        row.1.toList.map Char.toLower = (natural.1 :: moved.1).map Char.toLower ∧
          natural.1.toLower.toLower = natural.1.toLower := by decide
    obtain ⟨row, hrow, hsame, hlower⟩ := hall _ natural _ hmoved
    refine ⟨row, hrow, ?_⟩
    rw [sameSpelling, beq_iff_eq, hsame, text, List.map_cons, List.map_cons]
    rcases case with rfl | rfl
    · rfl
    · rw [hlower]

/-- Looking a spelling up in the table comes to the same as the rule. -/
theorem ofSpelling?_eq_lookup (s : String) : ofSpelling? s = lookup s := by
  unfold lookup
  cases hfind : spellings.find? fun row => sameSpelling row.1 s with
  | some row =>
    have hmeans : ∀ row ∈ spellings, ofSpelling? row.1 = some row.2 := by decide
    have hfound : sameSpelling row.1 s = true := by simpa using List.find?_some hfind
    have hsame : SameLetters row.1.toList s.toList := beq_iff_eq.1 hfound
    rw [Option.map_some, ← ofSpelling?_congr hsame, hmeans row (List.mem_of_find?_eq_some hfind)]
  | none =>
    rw [Option.map_none, Option.eq_none_iff_forall_ne_some]
    intro p hp
    obtain ⟨row, hrow, hsame⟩ := exists_row (ofSpelling?_eq_some_iff.1 hp)
    exact List.find?_eq_none.1 hfind row hrow hsame

/-- Each display name stands in the table at the number of its pitch. -/
theorem spellings_number (p : Pitch) : spellings[p.number]? = some (p.name, p) := by
  cases p <;> rfl

theorem name_injective : Function.Injective name := by
  intro p q h
  have hq := ofSpelling?_name q
  rw [← h, ofSpelling?_name] at hq
  exact Option.some.inj hq

/-- **Spellings follow the chromatic rule.** A spelling means a pitch exactly if it does by the rule:
`~` is the rest, and a letter in either case with `#`, with `'` or alone is the class that the
semitones come to around the octave. Every other spelling means nothing. Looking a spelling up in the
table, whatever its case, comes to the same, and the display name of a pitch stands in the table at its
number. Each display name means its own pitch, so spellings have one display name exactly if they mean
the same. -/
theorem ofSpelling?_chromatic :
    (∀ (s : String) (p : Pitch), ofSpelling? s = some p ↔ Spells s p) ∧
    (∀ s : String, ofSpelling? s = none ↔ ¬ ∃ p, Spells s p) ∧
    (∀ s : String, ofSpelling? s = lookup s) ∧
    (∀ p : Pitch, spellings[p.number]? = some (p.name, p)) ∧
    (∀ p : Pitch, ofSpelling? p.name = some p) ∧
    ∀ s s' : String, (ofSpelling? s).map name = (ofSpelling? s').map name ↔
      ofSpelling? s = ofSpelling? s' := by
  refine ⟨fun s p => ofSpelling?_eq_some_iff, fun s => ?_, ofSpelling?_eq_lookup, spellings_number,
    ofSpelling?_name, fun s s' => (Option.map_injective name_injective).eq_iff⟩
  rw [Option.eq_none_iff_forall_ne_some, not_exists]
  exact forall_congr' fun p => not_congr ofSpelling?_eq_some_iff

example : ofSpelling? "c'" = some .b ∧ ofSpelling? "B#" = some .c ∧ ofSpelling? "C##" = none := by
  decide

end Songsheet.Pitch
