import Songsheet.Command.Perform

/-!
# The program

Runs `perform` on the files of the machine. All that is decided is decided elsewhere; here
files are read, steps of reading are taken one after the other, and texts are printed.
-/

namespace Songsheet.Main

/-- The fault that a failure of the system shows. -/
def faultOf : IO.Error → ReadFault
  | .noFileOrDirectory .. => .missing
  | .inappropriateType _ _ "not a directory" => .notDirectory
  | .inappropriateType .. => .isDirectory
  | .invalidArgument _ _ "name too long" => .nameTooLong
  | .invalidArgument _ _ "string contains NUL bytes" => .nulInName
  | .permissionDenied .. => .other "Permission denied (os error 13)"
  | e => .other (toString e)

/-- The text of a file of the machine. -/
def readText (path : SourcePath) : IO (Except ReadFault String) := do
  try
    match String.fromUTF8? (← IO.FS.readBinFile path.text) with
    | some text => return .ok text
    | none => return .error .notText
  catch e => return .error (faultOf e)

/-- Reads a document on from a state. -/
partial def readOn (o : Options) (s : Document.State) : IO (Except Diagnostic Draft) := do
  match s.step o with
  | .finished draft => return .ok draft
  | .failed d _ => return .error d
  | .next t => readOn o t
  | .wanted path mark t =>
    match ← readText path with
    | .ok text => readOn o (t.enter path text)
    | .error fault => return .error (t.unreadable path mark fault)

/-- Parses a document of the machine. -/
def parseFile (o : Options) (root : SourcePath) : IO (Except Diagnostic Library) := do
  let path := root.normalize
  match ← readText path with
  | .error fault => return .error (Document.unreadableRoot path fault)
  | .ok text =>
    match ← readOn o (.start path text) with
    | .ok draft => return Document.conclude draft
    | .error d => return .error d

/-- The machine that the program runs on. -/
def machine : IO (World IO) := do
  let home := (← IO.getEnv "HOME").filter (· != "")
  return ⟨readText, parseFile, home.map (⟨·⟩)⟩

end Songsheet.Main

/-- Performs what the command line asks for. -/
def main (words : List String) : IO UInt32 := do
  let output ← Songsheet.perform (← Songsheet.Main.machine) words
  IO.print output.stdout
  IO.eprint output.stderr
  return output.exitCode
