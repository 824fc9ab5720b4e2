import Songsheet.SourcePath

/-!
# The command line

The program is given a task and the file to do it on, and perhaps options. Words are read from
left to right; `--version` and `--help` are answered as soon as they are met, and the first
word that does not fit ends the reading.

* `CommandLine.take` — takes in one word.
* `Request.ofWords?` — what a command line asks for, if it can be understood.
-/

namespace Songsheet

/-! ## Requests -/

/-- How a library is shown. -/
inductive Format where
  | summary
  | yaml
  deriving DecidableEq, Repr

/-- The format with a given name. -/
def Format.ofName? : String → Option Format
  | "summary" => some .summary
  | "yaml" => some .yaml
  | _ => none

/-- What is to be done with a file. -/
inductive Task where
  | parse (format : Format)
  | check
  | tokenize
  deriving DecidableEq, Repr

/-- What a command line asks for. -/
inductive Request where
  | version
  | help
  | perform (task : Task) (file : SourcePath) (config : Option SourcePath)
  deriving DecidableEq, Repr

/-! ## Words -/

/-- The names of the tasks; `help` is about another task. -/
inductive TaskName where
  | parse
  | check
  | tokenize
  | help
  deriving DecidableEq, Repr

/-- The task with a given name. -/
def TaskName.ofName? : String → Option TaskName
  | "parse" => some .parse
  | "check" => some .check
  | "tokenize" => some .tokenize
  | "help" => some .help
  | _ => none

/-- The options that take a value. -/
inductive ValuedOption where
  | config
  | format
  deriving DecidableEq, Repr

/-- What a word looks like: the end of the options, an option by name with a value behind an
equals sign if there is one, options by letters, or none of these. -/
inductive Word where
  | endOfOptions
  | named (name : String) (value : Option String)
  | letters (text : List Char)
  | operand (text : String)
  deriving DecidableEq, Repr

/-- What a word looks like. A hyphen alone is no option. -/
def Word.ofString (word : String) : Word :=
  match word.toList with
  | ['-', '-'] => .endOfOptions
  | '-' :: '-' :: rest =>
    let name := String.ofList (rest.takeWhile (· != '='))
    match rest.dropWhile (· != '=') with
    | _ :: value => .named name (some (String.ofList value))
    | [] => .named name none
  | '-' :: c :: rest => .letters (c :: rest)
  | _ => .operand word

/-! ## Reading a command line -/

/-- What has been read of a command line: the task, the options file named before the task and
behind it, the format, the file, the option whose value comes next, and whether all further
words are operands. -/
structure CommandLine where
  task : Option TaskName
  outerConfig : Option String
  innerConfig : Option String
  format : Option Format
  file : Option String
  pending : Option ValuedOption
  optionsEnded : Bool
  deriving DecidableEq, Repr

namespace CommandLine

/-- A command line of which nothing has been read. -/
def start : CommandLine := ⟨none, none, none, none, none, none, false⟩

/-- Why reading ends before the last word: an answer is due at once, or the line makes no
sense. -/
inductive End where
  | answer (r : Request)
  | refusal
  deriving DecidableEq, Repr

/-- A step of reading. -/
abbrev Taken := Except End CommandLine

/-- Gives a value to an option that has none yet. -/
def setOption (l : CommandLine) (option : ValuedOption) (value : String) : Taken :=
  match option with
  | .config =>
    if value = "" then .error .refusal
    else if l.task.isNone then
      if l.outerConfig.isSome then .error .refusal else .ok { l with outerConfig := some value }
    else if l.innerConfig.isSome then .error .refusal
    else .ok { l with innerConfig := some value }
  | .format =>
    if l.format.isSome then .error .refusal
    else match Format.ofName? value with
      | some f => .ok { l with format := some f }
      | none => .error .refusal

/-- Takes in an option with a value, which is on the same word or will be the next one. -/
def takeValued (l : CommandLine) (option : ValuedOption) : Option String → Taken
  | some value => l.setOption option value
  | none => .ok { l with pending := some option }

/-- Takes in an option by its name. -/
def takeNamed (l : CommandLine) (name : String) (value : Option String) : Taken :=
  match l.task, name, value with
  | some .help, _, _ => .error .refusal
  | _, "config", _ => l.takeValued .config value
  | some .parse, "format", _ => l.takeValued .format value
  | none, "version", none => .error (.answer .version)
  | _, "help", none => .error (.answer .help)
  | _, _, _ => .error .refusal

/-- Takes in options by their letters, the first of which decides. -/
def takeLetters (l : CommandLine) (letters : List Char) : Taken :=
  match l.task, letters with
  | some .help, _ => .error .refusal
  | none, 'V' :: _ => .error (.answer .version)
  | _, 'h' :: _ => .error (.answer .help)
  | _, _ => .error .refusal

/-- Takes in a word that is no option: the task, and then the file. -/
def takeOperand (l : CommandLine) (text : String) : Taken :=
  match l.task with
  | none =>
    match TaskName.ofName? text with
    | some task => .ok { l with task := some task }
    | none => .error .refusal
  | some task =>
    if l.file.isSome || text == "" then .error .refusal
    else if task = .help ∧ (TaskName.ofName? text).isNone then .error .refusal
    else .ok { l with file := some text }

/-- Takes in one word. -/
def take (l : CommandLine) (word : String) : Taken :=
  match l.pending, Word.ofString word with
  | some option, .operand value => { l with pending := none }.setOption option value
  | some _, _ => .error .refusal
  | none, shape =>
    if l.optionsEnded then l.takeOperand word
    else match shape with
      | .endOfOptions =>
        if l.task.isNone then .error .refusal else .ok { l with optionsEnded := true }
      | .named name value => l.takeNamed name value
      | .letters text => l.takeLetters text
      | .operand text => l.takeOperand text

/-- What a command line asks for when all of it has been read. -/
def request? (l : CommandLine) : Option Request :=
  let perform (task : Task) : Option Request :=
    l.file.map fun file => .perform task ⟨file⟩ ((l.innerConfig.or l.outerConfig).map (⟨·⟩))
  match l.pending, l.task with
  | none, some .parse => perform (.parse (l.format.getD .summary))
  | none, some .check => perform .check
  | none, some .tokenize => perform .tokenize
  | none, some .help => some .help
  | _, _ => none

end CommandLine

/-- What a command line asks for, if it can be understood. -/
def Request.ofWords? (words : List String) : Option Request :=
  match words.foldlM CommandLine.take .start with
  | .ok l => l.request?
  | .error (.answer r) => some r
  | .error .refusal => none

end Songsheet
