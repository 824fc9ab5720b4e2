import Songsheet.Note
import Songsheet.Yaml.Node

/-!
# Track libraries

What a document defines: its tracks and its note sequences, each in the order of definition.

* `Library.addTrack`, `Library.addSequence` — add at the end and answer with the index.
* `Library.sequenceIndex?` — the index that was noted for a label when it was first added.
* `Library.summary` — a library for the eye: the tracks with their channels, and the sequences with
  their notes.
* `Library.toYaml` — the YAML text of a library, its fields with their names and in their order.
-/

namespace Songsheet

/-- A labelled list of notes. -/
structure NoteSequence where
  label : String
  notes : List Note
  deriving DecidableEq, Repr

/-- A labelled track: its name, its tempo in beats per minute, and for each of its channels
the labels of the sequences to play. -/
structure Track where
  label : String
  name : String
  tempo : UInt32
  channels : List (List String)
  deriving DecidableEq, Repr

/-- A track that has only its label yet. -/
def Track.ofLabel (label : String) : Track := ⟨label, "", 0, []⟩

/-- The tracks and the sequences of a document, and for each label of a sequence the index under
which it was first added. -/
structure Library where
  tracks : List Track
  sequences : List NoteSequence
  index : List (String × Nat)
  deriving DecidableEq, Repr

namespace Library

/-- A library that holds nothing. -/
def empty : Library := ⟨[], [], []⟩

/-- Adds a track; the answer is its index. -/
def addTrack (l : Library) (t : Track) : Nat × Library :=
  (l.tracks.length, { l with tracks := l.tracks ++ [t] })

/-- The index with a label noted, unless one is noted already. -/
def noteIndex (index : List (String × Nat)) (label : String) (place : Nat) :
    List (String × Nat) :=
  match index.lookup label with
  | some _ => index
  | none => index ++ [(label, place)]

/-- Adds a sequence; the answer is its index. A repeated label keeps pointing at its first
sequence. -/
def addSequence (l : Library) (s : NoteSequence) : Nat × Library :=
  (l.sequences.length,
    { l with
      sequences := l.sequences ++ [s]
      index := noteIndex l.index s.label l.sequences.length })

/-- Changes one track. -/
def modifyTrack (l : Library) (index : Nat) (f : Track → Track) : Library :=
  { l with tracks := l.tracks.modify index f }

/-- The sequence at an index. -/
def sequence? (l : Library) (index : Nat) : Option NoteSequence :=
  l.sequences[index]?

/-- The label of the sequence at an index. -/
def sequenceLabel? (l : Library) (index : Nat) : Option String :=
  (l.sequence? index).map (·.label)

/-- The index that is noted for a label. -/
def sequenceIndex? (l : Library) (label : String) : Option Nat :=
  l.index.lookup label

/-- The sequence at the index that is noted for a label. -/
def sequenceByLabel? (l : Library) (label : String) : Option NoteSequence :=
  (l.sequenceIndex? label).bind l.sequence?

end Library

/-! ## Libraries in short -/

/-- A line for each channel of a track. -/
def Track.channelLines (t : Track) : List String :=
  t.channels.zipIdx.map fun (labels, i) =>
    "  channel " ++ toString i ++ ": " ++ " ".intercalate labels ++ "\n"

/-- A track in short: an empty line, a heading and the channels. -/
def Track.summary (t : Track) : String :=
  "\n--- Track @" ++ t.label ++ ": " ++ t.name ++ " (" ++ toString t.tempo.toNat ++ " BPM) ---\n"
    ++ String.join t.channelLines

/-- A sequence in short: its label and its notes. -/
def NoteSequence.summary (s : NoteSequence) : String :=
  "  $" ++ s.label ++ ": " ++ " ".intercalate (s.notes.map Note.display) ++ "\n"

/-- A library in short. -/
def Library.summary (l : Library) : String :=
  "Tracks: " ++ toString l.tracks.length ++ "\n" ++ String.join (l.tracks.map Track.summary)
    ++ "\nSequences: " ++ toString l.sequences.length ++ "\n"
    ++ String.join (l.sequences.map NoteSequence.summary)

/-! ## Libraries as YAML -/

/-- A note as a mapping. -/
def Note.toNode (n : Note) : Yaml.Node :=
  .mapping [("pitch", .text n.pitch.name), ("octave", .number n.octave.toNat),
    ("bars", .number n.duration.bars.toNat),
    ("bar_fraction", .number n.duration.fraction.toNat)]

/-- A sequence as a mapping. -/
def NoteSequence.toNode (s : NoteSequence) : Yaml.Node :=
  .mapping [("label", .text s.label), ("notes", .list (s.notes.map Note.toNode))]

/-- A track as a mapping. -/
def Track.toNode (t : Track) : Yaml.Node :=
  .mapping [("label", .text t.label), ("name", .text t.name), ("bpm", .number t.tempo.toNat),
    ("channels", .list (t.channels.map fun labels => .list (labels.map .text)))]

/-- A library as a mapping. -/
def Library.toNode (l : Library) : Yaml.Node :=
  .mapping [("tracks", .list (l.tracks.map Track.toNode)),
    ("sequences", .list (l.sequences.map NoteSequence.toNode))]

/-- The YAML text of a library. -/
def Library.toYaml (l : Library) : String :=
  l.toNode.document

end Songsheet
