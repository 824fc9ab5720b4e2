import Songsheet.Note
import Songsheet.SourcePath
import Songsheet.Token

/-!
# Diagnostics

A diagnostic says what is wrong, in which source and where. What is wrong is a `Cause`, which
carries the facts; its kind and its wording are functions of it, so that they are settled in
one place.

* `Cause.kind`, `Cause.message` — the class and the wording of a cause.
* `Cause.reportedAt` — the diagnostic of a cause at a place, in no source yet.
* `Diagnostic.inSource` — names the source, unless one is named already: the innermost source
  that meets a diagnostic keeps it (`inSource_inSource`).
* `Diagnostic.display` — the one-line text of a diagnostic.
-/

namespace Songsheet

/-! ## Sites and kinds -/

/-- A place in a source. -/
structure Site where
  source : SourcePath
  position : Position
  deriving DecidableEq, Repr

/-- The classes of causes. -/
inductive DiagnosticKind where
  | sourceNotFound
  | unterminatedInclude
  | unterminatedQuote
  | unterminatedComment
  | invalidLabelName
  | duplicateLabel
  | undefinedLabel
  | missingTrackContext
  | unknownAttribute
  | malformedNumber
  | malformedDurationClause
  | trailingCharactersAfterNote
  | unexpectedToken
  | includeCycle
  | includeDepthExceeded
  deriving DecidableEq, Repr

namespace DiagnosticKind

/-- Every class of causes. -/
def all : List DiagnosticKind :=
  [.sourceNotFound, .unterminatedInclude, .unterminatedQuote, .unterminatedComment,
   .invalidLabelName, .duplicateLabel, .undefinedLabel, .missingTrackContext,
   .unknownAttribute, .malformedNumber, .malformedDurationClause,
   .trailingCharactersAfterNote, .unexpectedToken, .includeCycle, .includeDepthExceeded]

/-- The name of a class, as diagnostics show it. -/
def name : DiagnosticKind → String
  | .sourceNotFound => "SourceNotFound"
  | .unterminatedInclude => "UnterminatedInclude"
  | .unterminatedQuote => "UnterminatedQuote"
  | .unterminatedComment => "UnterminatedComment"
  | .invalidLabelName => "InvalidLabelName"
  | .duplicateLabel => "DuplicateLabel"
  | .undefinedLabel => "UndefinedLabel"
  | .missingTrackContext => "MissingTrackContext"
  | .unknownAttribute => "UnknownAttribute"
  | .malformedNumber => "MalformedNumber"
  | .malformedDurationClause => "MalformedDurationClause"
  | .trailingCharactersAfterNote => "TrailingCharactersAfterNote"
  | .unexpectedToken => "UnexpectedToken"
  | .includeCycle => "IncludeCycle"
  | .includeDepthExceeded => "IncludeDepthExceeded"

/-- The class with a given name. -/
def ofName? (name : String) : Option DiagnosticKind :=
  all.find? (·.name == name)

theorem ofName?_name (kind : DiagnosticKind) : ofName? kind.name = some kind := by
  cases kind <;> decide

end DiagnosticKind

/-! ## Causes -/

/-- One of the two numbers of a duration clause. -/
inductive LengthPart where
  | numerator
  | denominator
  deriving DecidableEq, Repr

/-- How a diagnostic names a part of a duration clause. -/
def LengthPart.describe : LengthPart → String
  | .numerator => "length numerator"
  | .denominator => "length denominator"

/-- What is wrong. -/
inductive Cause where
  /-- A source could not be read. -/
  | unreadableSource (path : SourcePath) (reason : String)
  /-- No `>` closes an include. -/
  | unterminatedInclude
  /-- No quotation mark closes a quoted text. -/
  | unterminatedQuote
  /-- No `*/` closes a block comment. -/
  | unterminatedComment
  /-- A word stands where a label must stand and is none. -/
  | invalidLabel (word : String)
  /-- A label is defined a second time. -/
  | duplicateLabel (label : String) (first : Site)
  /-- A referenced label is never defined. -/
  | undefinedLabel (label : String)
  /-- A referenced label names a track. -/
  | trackLabel (label : String)
  /-- An attribute stands where no track is being defined. -/
  | missingTrack
  /-- No attribute has this name. -/
  | unknownAttribute (name : String)
  /-- The beats per minute of a track are no 32-bit number. -/
  | invalidTempo (digits : String)
  /-- An octave does not fit a byte. -/
  | octaveOutOfRange (digits : String)
  /-- A number of a duration clause does not fit 32 bits. -/
  | lengthTooLarge (part : LengthPart) (digits : String)
  /-- A duration clause lacks one of its numbers. -/
  | expectedLength (part : LengthPart) (found : TokenKind)
  /-- A duration clause lacks one of its marks. -/
  | expectedMark (mark found : TokenKind)
  /-- The ratio of a duration clause is no duration. -/
  | invalidDuration (numerator denominator : Nat) (fault : Duration.Fault)
  /-- A note is not followed by a blank. -/
  | trailingCharacters (found : TokenKind)
  /-- A note does not begin with a key. -/
  | expectedKey (found : TokenKind)
  /-- No directive begins with this token. -/
  | expectedDirective (found : TokenKind)
  /-- A text that must be quoted is not. -/
  | expectedQuote (found : Option Char)
  /-- An include leads back to a source that is being read; the chain ends with it. -/
  | includeCycle (chain : List SourcePath)
  /-- Includes are nested too deeply. -/
  | includeTooDeep (path : SourcePath) (limit : Nat)
  /-- A cause that a user of the library words itself. -/
  | stated (kind : DiagnosticKind) (message : String)
  deriving DecidableEq, Repr

namespace Cause

/-- The class of a cause. -/
def kind : Cause → DiagnosticKind
  | .unreadableSource .. => .sourceNotFound
  | .unterminatedInclude => .unterminatedInclude
  | .unterminatedQuote => .unterminatedQuote
  | .unterminatedComment => .unterminatedComment
  | .invalidLabel _ => .invalidLabelName
  | .duplicateLabel .. => .duplicateLabel
  | .undefinedLabel _ | .trackLabel _ => .undefinedLabel
  | .missingTrack => .missingTrackContext
  | .unknownAttribute _ => .unknownAttribute
  | .invalidTempo _ | .octaveOutOfRange _ | .lengthTooLarge .. => .malformedNumber
  | .expectedLength .. | .expectedMark .. | .invalidDuration .. => .malformedDurationClause
  | .trailingCharacters _ => .trailingCharactersAfterNote
  | .expectedKey _ | .expectedDirective _ | .expectedQuote _ => .unexpectedToken
  | .includeCycle _ => .includeCycle
  | .includeTooDeep .. => .includeDepthExceeded
  | .stated kind _ => kind

/-- The wording of a cause. -/
def message : Cause → String
  | .unreadableSource path reason => "cannot read " ++ path.text ++ ": " ++ reason
  | .unterminatedInclude => "expected >"
  | .unterminatedQuote => "expected end quote"
  | .unterminatedComment => "block comment is never closed"
  | .invalidLabel word => "invalid label name: '" ++ word ++ "'"
  | .duplicateLabel label first =>
    "label " ++ label ++ " is not unique (first defined at " ++ first.source.text ++ ":"
      ++ toString first.position.line ++ ")"
  | .undefinedLabel label => "label " ++ label ++ " is undefined"
  | .trackLabel label => "label " ++ label ++ " names a track, not a sequence"
  | .missingTrack => "no track specified"
  | .unknownAttribute name => "unknown attribute: " ++ name
  | .invalidTempo digits => "invalid integer for bpm: '" ++ digits ++ "'"
  | .octaveOutOfRange digits => "octave out of range: " ++ digits
  | .lengthTooLarge part digits => part.describe ++ " too large: " ++ digits
  | .expectedLength part found => "expected " ++ part.describe ++ ", got " ++ found.describe
  | .expectedMark mark found => "expected " ++ mark.describe ++ ", got " ++ found.describe
  | .invalidDuration num _ .zeroDenominator => "zero denominator in " ++ toString num ++ "/0"
  | .invalidDuration num den .tooLong =>
    toString num ++ "/" ++ toString den ++ " is longer than 255 bars"
  | .trailingCharacters found =>
    "unexpected characters after note definition: " ++ found.describe
  | .expectedKey found => "expected key, got " ++ found.describe
  | .expectedDirective found => "unexpected " ++ found.describe ++ ", expected a directive"
  | .expectedQuote none => "expected opening quote, got end of input"
  | .expectedQuote (some c) => "expected opening quote, got '" ++ String.singleton c ++ "'"
  | .includeCycle chain => "include cycle: " ++ " -> ".intercalate (chain.map (·.text))
  | .includeTooDeep path limit =>
    "including " ++ path.text ++ " exceeds the maximum include depth of " ++ toString limit
  | .stated _ message => message

end Cause

/-! ## Diagnostics -/

/-- What is wrong, in which source if that is known, and where. -/
structure Diagnostic where
  cause : Cause
  source : Option SourcePath
  position : Position
  deriving DecidableEq, Repr

/-- A cause at a place, in no source yet. -/
def Cause.reportedAt (cause : Cause) (position : Position) : Diagnostic :=
  ⟨cause, none, position⟩

/-- A cause at a place of a known source. -/
def Cause.reportedIn (cause : Cause) (site : Site) : Diagnostic :=
  ⟨cause, some site.source, site.position⟩

namespace Diagnostic

/-- The class of what is wrong. -/
def kind (d : Diagnostic) : DiagnosticKind := d.cause.kind

/-- The wording of what is wrong. -/
def message (d : Diagnostic) : String := d.cause.message

/-- Names the source of a diagnostic, unless one is named already. -/
def inSource (d : Diagnostic) (path : SourcePath) : Diagnostic :=
  { d with source := some (d.source.getD path) }

@[simp] theorem inSource_inSource (d : Diagnostic) (p q : SourcePath) :
    (d.inSource p).inSource q = d.inSource p := by
  simp [inSource]

@[simp] theorem inSource_cause (d : Diagnostic) (p : SourcePath) :
    (d.inSource p).cause = d.cause := rfl

@[simp] theorem inSource_position (d : Diagnostic) (p : SourcePath) :
    (d.inSource p).position = d.position := rfl

/-- The text of a diagnostic: its source if known, line, column, class and wording. -/
def display (d : Diagnostic) : String :=
  (match d.source with
    | some path => path.text ++ ":"
    | none => "")
  ++ toString d.position.line ++ ":" ++ toString d.position.column ++ ": " ++ d.kind.name
  ++ ": " ++ d.message

end Diagnostic

end Songsheet
