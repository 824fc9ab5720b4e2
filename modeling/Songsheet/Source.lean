import Songsheet.SourcePath

/-!
# Where sources come from

A `Provider` gives the text of a source, or says why it cannot. The faults and their wordings
stand here; `Shelf` is the provider of sources that are held in memory under their normalized
paths.
-/

namespace Songsheet

/-- Why a source cannot be read. -/
inductive ReadFault where
  /-- Nothing is held in memory under this path. -/
  | noSource (path : SourcePath)
  /-- Nothing stands at the path. -/
  | missing
  /-- The path leads through something that is no directory. -/
  | notDirectory
  /-- The path leads to a directory. -/
  | isDirectory
  /-- The path or one of its names is too long. -/
  | nameTooLong
  /-- The path holds the character U+0000. -/
  | nulInName
  /-- What stands at the path is no UTF-8 text. -/
  | notText
  /-- Any other failure, in the words of the system. -/
  | other (message : String)
  deriving DecidableEq, Repr

namespace ReadFault

/-- The wording of a fault. -/
def message : ReadFault → String
  | .noSource path => "no source named " ++ path.text
  | .missing => "No such file or directory (os error 2)"
  | .notDirectory => "Not a directory (os error 20)"
  | .isDirectory => "Is a directory (os error 21)"
  | .nameTooLong => "File name too long (os error 36)"
  | .nulInName => "file name contained an unexpected NUL byte"
  | .notText => "stream did not contain valid UTF-8"
  | .other message => message

/-- The class of a fault. -/
def name : ReadFault → String
  | .noSource _ | .missing => "NotFound"
  | .notDirectory => "NotADirectory"
  | .isDirectory => "IsADirectory"
  | .nameTooLong => "InvalidFilename"
  | .nulInName => "InvalidInput"
  | .notText => "InvalidData"
  | .other _ => "Other"

end ReadFault

/-- Gives the text of a source. -/
abbrev Provider := SourcePath → Except ReadFault String

/-- Sources held in memory, each under its normalized path; the newest comes first. -/
structure Shelf where
  sources : List (SourcePath × String)
  deriving DecidableEq, Repr

namespace Shelf

/-- A shelf without sources. -/
def empty : Shelf := ⟨[]⟩

/-- Puts a source on the shelf, in place of an older one of the same normalized path. -/
def insert (s : Shelf) (path : SourcePath) (text : String) : Shelf :=
  ⟨(path.normalize, text) :: s.sources.filter (·.1 != path.normalize)⟩

/-- The text of the source with the same normalized path. -/
def read (s : Shelf) : Provider := fun path =>
  match s.sources.find? (·.1 == path.normalize) with
  | some (_, text) => .ok text
  | none => .error (.noSource path)

end Shelf

end Songsheet
