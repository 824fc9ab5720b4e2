/-!
# Pitch classes

A pitch is a rest or one of the twelve chromatic classes. Each has a number, from 0 for the
rest to 12 for B, and one display name. It may be spelled in several ways: a letter with no
accidental, with `#` (a semitone up) or with `'` (a semitone down), in either case.

* `Pitch.number` and `Pitch.ofNumber?` — the numbering and its inverse (`ofNumber?_number`).
* `Pitch.name` — the display name.
* `Pitch.ofSpelling?` — what a spelling means; every display name spells its own pitch
  (`ofSpelling?_name`).
* `isKeyChar` — the characters that continue a pitch key.
-/

namespace Songsheet

/-- A rest or a chromatic pitch class. -/
inductive Pitch where
  | rest | c | cSharp | d | dSharp | e | f | fSharp | g | gSharp | a | aSharp | b
  deriving DecidableEq, Repr

namespace Pitch

/-- Every pitch, in the order of their numbers. -/
def all : List Pitch :=
  [.rest, .c, .cSharp, .d, .dSharp, .e, .f, .fSharp, .g, .gSharp, .a, .aSharp, .b]

/-- The place of a pitch in the chromatic order, the rest being 0 and C being 1. -/
def number : Pitch → Nat
  | .rest => 0 | .c => 1 | .cSharp => 2 | .d => 3 | .dSharp => 4 | .e => 5 | .f => 6
  | .fSharp => 7 | .g => 8 | .gSharp => 9 | .a => 10 | .aSharp => 11 | .b => 12

theorem number_lt (p : Pitch) : p.number < 13 := by
  cases p <;> decide

/-- The pitch with a given number. -/
def ofNumber? (n : Nat) : Option Pitch :=
  all[n]?

@[simp] theorem ofNumber?_number (p : Pitch) : ofNumber? p.number = some p := by
  cases p <;> rfl

/-- The display name: a letter, with `#` where the class has no letter of its own. -/
def name : Pitch → String
  | .rest => "~" | .c => "C" | .cSharp => "C#" | .d => "D" | .dSharp => "D#" | .e => "E"
  | .f => "F" | .fSharp => "F#" | .g => "G" | .gSharp => "G#" | .a => "A" | .aSharp => "A#"
  | .b => "B"

/-- The pitch of an upper-case letter. -/
def ofLetter? : Char → Option Pitch
  | 'C' => some .c | 'D' => some .d | 'E' => some .e | 'F' => some .f | 'G' => some .g
  | 'A' => some .a | 'B' => some .b | _ => none

/-- The class a semitone above; a rest stays a rest. -/
def sharp : Pitch → Pitch
  | .rest => .rest | .c => .cSharp | .cSharp => .d | .d => .dSharp | .dSharp => .e | .e => .f
  | .f => .fSharp | .fSharp => .g | .g => .gSharp | .gSharp => .a | .a => .aSharp
  | .aSharp => .b | .b => .c

/-- The class a semitone below; a rest stays a rest. -/
def flat : Pitch → Pitch
  | .rest => .rest | .c => .b | .cSharp => .c | .d => .cSharp | .dSharp => .d | .e => .dSharp
  | .f => .e | .fSharp => .f | .g => .fSharp | .gSharp => .g | .a => .gSharp | .aSharp => .a
  | .b => .aSharp

@[simp] theorem flat_sharp (p : Pitch) : p.sharp.flat = p := by
  cases p <;> rfl

@[simp] theorem sharp_flat (p : Pitch) : p.flat.sharp = p := by
  cases p <;> rfl

/-- What a spelling means: `~` alone is the rest, else a letter in either case is followed by
nothing, by `#` or by `'`. -/
def ofSpelling? (spelling : String) : Option Pitch :=
  match spelling.toList with
  | [letter] => if letter = '~' then some .rest else ofLetter? letter.toUpper
  | [letter, accidental] =>
    if accidental = '#' then (ofLetter? letter.toUpper).map sharp
    else if accidental = '\'' then (ofLetter? letter.toUpper).map flat
    else none
  | _ => none

@[simp] theorem ofSpelling?_name (p : Pitch) : ofSpelling? p.name = some p := by
  cases p <;> decide

end Pitch

/-- A character that continues a pitch key: a letter from A to G in either case, an accidental
or the rest sign. -/
def isKeyChar (c : Char) : Bool :=
  ('A' ≤ c && c ≤ 'G') || ('a' ≤ c && c ≤ 'g') || c == '#' || c == '\'' || c == '~'

end Songsheet
