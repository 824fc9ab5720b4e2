import Songsheet.Json
import Songsheet.Note
import Songsheet.Text

/-!
# Notes as JSON

A note is an object of four fields, none of which may be missing or stand twice; other fields
are passed over. A list of the four values in order is a note too.

* `Note.toJson` — the text of a note.
* `Note.ofJson?` — the note that a text gives.
-/

namespace Songsheet.Note

/-- The JSON text of a note. -/
def toJson (n : Note) : String :=
  "\x7b\"pitch\":\"" ++ n.pitch.name ++ "\",\"octave\":" ++ toString n.octave.toNat
    ++ ",\"bars\":" ++ toString n.duration.bars.toNat
    ++ ",\"bar_fraction\":" ++ toString n.duration.fraction.toNat ++ "\x7d"

/-- The pitch with a given name. -/
def pitchOfName? (name : String) : Option Pitch :=
  Pitch.all.find? (·.name == name)

/-- A pitch is given by its name, or by an object whose only field is named so and null. -/
def pitch? : Json → Option Pitch
  | .text (some name) => pitchOfName? name
  | .object [(some name, .null)] => pitchOfName? name
  | _ => none

/-- A number of one byte, written in digits alone. -/
def byte? : Json → Option UInt8
  | .number numeral => (Text.decimalBelow? 256 numeral).map UInt8.ofNat
  | _ => none

/-- The values of the fields read so far. -/
structure Fields where
  pitch : Option Pitch
  octave : Option UInt8
  bars : Option UInt8
  fraction : Option UInt8

/-- Takes in a value for a field that has none yet. -/
def setOnce {α : Type} (old new : Option α) : Option (Option α) :=
  if old.isSome then none else new.map some

/-- Takes in one field. -/
def Fields.add (f : Fields) : Option String × Json → Option Fields
  | (none, _) => none
  | (some key, v) =>
    if key = "pitch" then (setOnce f.pitch (pitch? v)).map ({ f with pitch := · })
    else if key = "octave" then (setOnce f.octave (byte? v)).map ({ f with octave := · })
    else if key = "bars" then (setOnce f.bars (byte? v)).map ({ f with bars := · })
    else if key = "bar_fraction" then
      (setOnce f.fraction (byte? v)).map ({ f with fraction := · })
    else some f

/-- The note that the values of the fields give. -/
def Fields.note? (f : Fields) : Option Note := do
  return ⟨← f.pitch, ← f.octave, ⟨← f.bars, ← f.fraction⟩⟩

/-- The note that a value gives. -/
def ofValue? : Json → Option Note
  | .object fields => do (← fields.foldlM Fields.add ⟨none, none, none, none⟩).note?
  | .list [p, o, b, f] => do return ⟨← pitch? p, ← byte? o, ⟨← byte? b, ← byte? f⟩⟩
  | _ => none

/-- The note that a text gives. -/
def ofJson? (text : String) : Option Note := do
  ofValue? (← Json.parse? text)

end Songsheet.Note
