import Songsheet.Command
import Songsheet.Document.Run
import Songsheet.Library
import Songsheet.Options

/-!
# Performing requests

What the program prints, and with which code it ends: 0 if all is well, 1 if a file is no good
and 2 if the command line makes no sense. How files are read is left to a `World`, so that the
same program runs on a disk of the machine and on one that is only described.

* `perform` — the output for a command line.
* `World.ofProvider` — the world in which a provider gives every text.
-/

namespace Songsheet

/-- What a run of the program leaves behind. -/
structure Output where
  exitCode : UInt32
  stdout : String
  stderr : String
  deriving DecidableEq, Repr

namespace Output

/-- All went well. -/
def success (text : String) : Output := ⟨0, text, ""⟩

/-- A file is no good. -/
def failure (text : String) : Output := ⟨1, "", text ++ "\n"⟩

end Output

/-- How files are read and documents parsed, and the user's home directory. -/
structure World (m : Type → Type) where
  read : SourcePath → m (Except ReadFault String)
  parse : Options → SourcePath → m (Except Diagnostic Library)
  home : Option SourcePath

/-- The world in which a provider gives every text. -/
def World.ofProvider (read : Provider) (home : Option SourcePath) : World Id :=
  ⟨read, Document.parse read, home⟩

/-- The name and the version of the program. -/
def versionText : String := "noteseq 0.1.0\n"

/-- How the program is used. -/
def usageText : String :=
  "Parse and inspect note sequence documents\n\n" ++
  "Usage: noteseq [--config FILE] parse FILE [--format summary|yaml]\n" ++
  "       noteseq [--config FILE] check FILE\n" ++
  "       noteseq [--config FILE] tokenize FILE\n"

/-- A library in a format. -/
def Library.show (l : Library) : Format → String
  | .summary => l.summary
  | .yaml => l.toYaml

/-- That a file has been checked, with what it holds. -/
def Library.verdict (l : Library) (file : SourcePath) : String :=
  file.text ++ ": ok (" ++ toString l.tracks.length ++ " tracks, "
    ++ toString l.sequences.length ++ " sequences)\n"

/-- The line of a token in a listing. -/
def Token.line (t : Token) : String :=
  toString t.position.line ++ ":" ++ toString t.position.column ++ "\t" ++ t.kind.literal ++ "\n"

/-- The output for a parsed document. -/
def libraryOutput (text : Library → String) : Except Diagnostic Library → Output
  | .ok l => .success (text l)
  | .error d => .failure ("Parse error: " ++ d.display)

/-- The output for the tokens of a text. -/
def tokenOutput (file : SourcePath) : Except ReadFault String → Output
  | .error fault => .failure ("Error reading " ++ file.text ++ ": " ++ fault.message)
  | .ok text =>
    match Reading.tokens (.ofText text) with
    | .ok tokens _ => .success (String.join (tokens.map Token.line))
    | .error d _ => .failure (d.inSource file).display

section

variable {m : Type → Type} [Monad m]

/-- Loads the options from the file that the user names, or else from the home directory. -/
def loadOptions (w : World m) : Option SourcePath → m (Except Output Options)
  | some path => do
    match Options.ofSource (← w.read path) with
    | .ok o => return .ok o
    | .error fault =>
      return .error (.failure ("Error reading config " ++ path.text ++ ": " ++ fault.message))
  | none =>
    match w.home with
    | none => return .ok .standard
    | some home => do
      match Options.ofSource (← w.read (Options.homeFile home)) with
      | .ok o => return .ok o
      | .error _ => return .ok .standard

/-- Performs a task on a file. -/
def performTask (w : World m) (o : Options) (file : SourcePath) : Task → m Output
  | .parse format => do
    return libraryOutput (·.show format) (← w.parse o file)
  | .check => do
    return libraryOutput (·.verdict file) (← w.parse o file)
  | .tokenize => do
    return tokenOutput file (← w.read file)

/-- The output for a command line. -/
def perform (w : World m) (words : List String) : m Output :=
  match Request.ofWords? words with
  | none => return ⟨2, "", usageText⟩
  | some .version => return .success versionText
  | some .help => return .success usageText
  | some (.perform task file config) => do
    match ← loadOptions w config with
    | .error output => return output
    | .ok o => performTask w o file task

end

end Songsheet
