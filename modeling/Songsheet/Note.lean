import Songsheet.Pitch

/-!
# Notes

A note is a pitch, an octave and a duration. Durations count whole bars and 256ths of a bar,
each in one byte, so that a whole note packs into a 32-bit word.

* `Duration.ofRatio` — the duration of `num/den` bars, rounded down to a 256th of a bar; it is
  refused for a zero denominator and for 256 bars or more.
* `Duration.decimal` — a duration in bars as an exact decimal.
* `Note.word` and `Note.ofWord?` — the packing and its inverse (`ofWord?_word`).
* `Note.display` — the text of a note; a rest shows no octave.
* `WrittenNote.sounding` — the note that a written note stands for behind another one; `sounding`
  — those of several written notes, each behind the one before.
-/

namespace Songsheet

/-! ## Durations -/

/-- Whole bars and 256ths of a bar. -/
structure Duration where
  bars : UInt8
  fraction : UInt8
  deriving DecidableEq, Repr

namespace Duration

/-- The number of parts into which a bar is divided. -/
def partsPerBar : Nat := 256

/-- The length in 256ths of a bar. -/
def parts (d : Duration) : Nat :=
  partsPerBar * d.bars.toNat + d.fraction.toNat

theorem parts_lt (d : Duration) : d.parts < 65536 := by
  have hb := d.bars.toNat_lt
  have hf := d.fraction.toNat_lt
  simp only [parts, partsPerBar]
  omega

/-- Why a ratio is no duration. -/
inductive Fault where
  | zeroDenominator
  | tooLong
  deriving DecidableEq, Repr

/-- The duration of `num/den` bars: the whole bars of the ratio, and what is left of it in
256ths of a bar, rounded down. -/
def ofRatio (num den : Nat) : Except Fault Duration :=
  if den = 0 then .error .zeroDenominator
  else if 256 ≤ num / den then .error .tooLong
  else .ok ⟨UInt8.ofNat (num / den), UInt8.ofNat (partsPerBar * num / den % partsPerBar)⟩

/-- The length in bars as an exact decimal, with at least one digit after the point and no
further trailing zero: a 256th is 0.00390625, so eight places always suffice. -/
def decimal (d : Duration) : String :=
  let places := (Nat.toDigits 10 (100000000 + d.fraction.toNat * 390625)).tail
  let shown := (places.reverse.dropWhile (· == '0')).reverse
  toString d.bars.toNat ++ "." ++ (if shown.isEmpty then "0" else String.ofList shown)

end Duration

/-! ## Notes -/

/-- A pitch in an octave, held for a duration. -/
structure Note where
  pitch : Pitch
  octave : UInt8
  duration : Duration
  deriving DecidableEq, Repr

namespace Note

/-- The note that stands for no note: a rest of octave 0 and no length. -/
def empty : Note := ⟨.rest, 0, ⟨0, 0⟩⟩

/-- Whether a note stands for no note. -/
def isEmpty (n : Note) : Bool :=
  n == empty

@[simp] theorem isEmpty_iff (n : Note) : n.isEmpty = true ↔ n = empty := by
  simp [isEmpty]

/-- The note whose octave and duration the first note of a document inherits: middle C, an
eighth of a bar long. -/
def middleC : Note := ⟨.c, 4, ⟨0, 32⟩⟩

/-- The note as a number: from the low byte up the pitch, the octave, the bars and the
fraction. -/
def value (n : Note) : Nat :=
  n.pitch.number + 0x100 * n.octave.toNat + 0x10000 * n.duration.bars.toNat
    + 0x1000000 * n.duration.fraction.toNat

theorem value_lt (n : Note) : n.value < UInt32.size := by
  have hp := n.pitch.number_lt
  have ho := n.octave.toNat_lt
  have hb := n.duration.bars.toNat_lt
  have hf := n.duration.fraction.toNat_lt
  simp only [value, UInt32.size]
  omega

/-- The note packed into a word. -/
def word (n : Note) : UInt32 :=
  UInt32.ofNat n.value

theorem word_toNat (n : Note) : n.word.toNat = n.value := by
  simp only [word, UInt32.toNat_ofNat']
  exact Nat.mod_eq_of_lt n.value_lt

/-- The note that a word packs, if its low byte numbers a pitch. -/
def ofWord? (w : UInt32) : Option Note :=
  let n := w.toNat
  (Pitch.ofNumber? (n % 0x100)).map fun pitch =>
    ⟨pitch, UInt8.ofNat (n / 0x100 % 0x100),
      ⟨UInt8.ofNat (n / 0x10000 % 0x100), UInt8.ofNat (n / 0x1000000 % 0x100)⟩⟩

theorem ofWord?_word (n : Note) : ofWord? n.word = some n := by
  have hp := n.pitch.number_lt
  have ho := n.octave.toNat_lt
  have hb := n.duration.bars.toNat_lt
  have hf := n.duration.fraction.toNat_lt
  have h0 : n.value % 0x100 = n.pitch.number := by simp only [value]; omega
  have h1 : n.value / 0x100 % 0x100 = n.octave.toNat := by simp only [value]; omega
  have h2 : n.value / 0x10000 % 0x100 = n.duration.bars.toNat := by simp only [value]; omega
  have h3 : n.value / 0x1000000 % 0x100 = n.duration.fraction.toNat := by
    simp only [value]; omega
  simp [ofWord?, word_toNat, h0, h1, h2, h3]

/-- The text of a note: its name, its octave unless it is a rest, and its duration. -/
def display (n : Note) : String :=
  let octave := if n.pitch = .rest then "" else toString n.octave.toNat
  n.pitch.name ++ octave ++ "[" ++ toString n.duration.bars.toNat ++ ","
    ++ toString n.duration.fraction.toNat ++ "]"

end Note

/-! ## Written notes

A note as it is written may leave out its octave and its duration, each on its own. What it
leaves out is inherited from the note before it, so that what a note sounds like depends on
all notes before it but on nothing else. -/

/-- A note as it is written: a pitch, and an octave and a duration that may be missing. -/
structure WrittenNote where
  pitch : Pitch
  octave : Option UInt8
  duration : Option Duration
  deriving DecidableEq, Repr

/-- The note that a written note stands for behind `previous`. -/
def WrittenNote.sounding (w : WrittenNote) (previous : Note) : Note :=
  ⟨w.pitch, w.octave.getD previous.octave, w.duration.getD previous.duration⟩

/-- The notes that written notes stand for, the first of them behind `previous`. -/
def sounding (previous : Note) : List WrittenNote → List Note
  | [] => []
  | w :: ws => w.sounding previous :: sounding (w.sounding previous) ws

@[simp] theorem length_sounding (previous : Note) (ws : List WrittenNote) :
    (sounding previous ws).length = ws.length := by
  induction ws generalizing previous with
  | nil => rfl
  | cons w ws ih => simp [sounding, ih]

end Songsheet
