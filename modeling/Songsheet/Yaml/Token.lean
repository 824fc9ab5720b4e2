import Songsheet.Yaml.Scalar

/-!
# YAML tokens

The words of a YAML text: marks, scalars and the starts and ends of block collections, which
no character marks but which show in how lines are indented.

* `Place.next` — lines and columns; any line break starts a line, and both count from 0.
* `Spot.run`, `Spot.past?` — reading on by a run of characters or by one.
* `Folding` — the text of a scalar that goes over several lines: one line break becomes a
  space, and of several the first is dropped.
-/

namespace Songsheet.Yaml

/-- The octets of a tag. They need not be those of a text. -/
abbrev Octets := List UInt8

/-- How a scalar is written. -/
inductive Style where
  | plain
  | quoted
  | literal
  | folded
  deriving DecidableEq, Repr

/-- A word of a YAML text. A tag is written as a handle, which may be missing, and what stands
behind it. -/
inductive Token where
  | version (major minor : Nat)
  | tagHandle (handle : String) (start : Octets)
  | documentStart
  | documentEnd
  | sequenceStart
  | mappingStart
  | blockEnd
  | entry
  | key
  | value
  | flowSequenceStart
  | flowSequenceEnd
  | flowMappingStart
  | flowMappingEnd
  | flowEntry
  | anchor (name : String)
  | alias (name : String)
  | tag (handle : String) (suffix : Octets)
  | scalar (style : Style) (text : String)
  deriving DecidableEq, Repr

/-! ## Places -/

/-- Where a character stands: its line, its column and the number of characters before it. -/
structure Place where
  line : Nat
  column : Nat
  offset : Nat
  deriving DecidableEq, Repr

/-- The place behind a character. -/
def Place.next (p : Place) (c : Char) : Place :=
  if isBreak c then ⟨p.line + 1, 0, p.offset + 1⟩ else ⟨p.line, p.column + 1, p.offset + 1⟩

/-- The place behind a stretch of text. -/
def Place.after (p : Place) (text : List Char) : Place :=
  text.foldl Place.next p

/-- A text to be read and where it begins. -/
structure Spot where
  rest : List Char
  place : Place
  deriving Repr

/-- The spot behind the first characters of a text. -/
def Spot.skip (s : Spot) (count : Nat) : Spot :=
  ⟨s.rest.drop count, s.place.after (s.rest.take count)⟩

/-- The longest run of characters of a class, and the spot behind it. -/
def Spot.run (s : Spot) (ofClass : Char → Bool) : List Char × Spot :=
  let run := s.rest.takeWhile ofClass
  (run, s.skip run.length)

/-- The spot behind a character that must be the next one. -/
def Spot.past? (s : Spot) (c : Char) : Option Spot :=
  if s.rest.head? = some c then some (s.skip 1) else none

/-- Whether a blank or the end of the text follows. -/
def Spot.atBlank (s : Spot) : Bool := isBlankOrEnd s.rest.head?

/-- A space or a tab. -/
def isSpace (c : Char) : Bool := c == ' ' || c == '\t'

/-- Whether a text begins with the mark of a document. -/
def isDocumentMark : List Char → Bool
  | '-' :: '-' :: '-' :: rest => isBlankOrEnd rest.head?
  | '.' :: '.' :: '.' :: rest => isBlankOrEnd rest.head?
  | _ => false

/-! ## Folding lines -/

/-- What has been read of a scalar, the last character first: its text, the spaces behind it,
and the line breaks behind these. The first break is missing where it was escaped. -/
structure Folding where
  text : List Char
  spaces : List Char
  first : Option (Option Char)
  breaks : List Char
  deriving Repr

namespace Folding

/-- A scalar of which nothing has been read. -/
def empty : Folding := ⟨[], [], none, []⟩

/-- Whether the last characters are spaces or line breaks. -/
def isPending (f : Folding) : Bool :=
  !f.spaces.isEmpty || f.first.isSome

/-- Reads a space or a tab; those at the beginning of a line do not count. -/
def space (f : Folding) (c : Char) : Folding :=
  if f.first.isSome then f else { f with spaces := c :: f.spaces }

/-- Reads a line break. -/
def lineBreak (f : Folding) (c : Char) : Folding :=
  if f.first.isSome then { f with breaks := c :: f.breaks }
  else { f with spaces := [], first := some (some c) }

/-- The scalar with the spaces and line breaks at its end taken into its text. -/
def settle (f : Folding) : Folding :=
  match f.first with
  | none => ⟨f.spaces ++ f.text, [], none, []⟩
  | some none => ⟨f.breaks ++ f.text, [], none, []⟩
  | some (some c) =>
    if c ≠ '\n' then ⟨f.breaks ++ c :: f.text, [], none, []⟩
    else if f.breaks.isEmpty then ⟨' ' :: f.text, [], none, []⟩
    else ⟨f.breaks ++ f.text, [], none, []⟩

/-- Reads a line break that is escaped and so leaves no trace. -/
def escapedBreak (f : Folding) : Folding :=
  { f.settle with first := some none }

/-- Reads a character of the text. -/
def push (f : Folding) (c : Char) : Folding :=
  { f.settle with text := c :: f.settle.text }

/-- The text, without the spaces and line breaks at its end. -/
def result (f : Folding) : String := String.ofList f.text.reverse

/-- The text with all that was read. -/
def fullResult (f : Folding) : String := f.settle.result

end Folding

end Songsheet.Yaml
