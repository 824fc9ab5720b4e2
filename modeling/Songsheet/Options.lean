import Songsheet.Source
import Songsheet.Yaml.Event.Reader
import Songsheet.Yaml.Node

/-!
# Options

The limits that are kept while includes are followed. They are written as a mapping of two fields;
read from a mapping, a missing field takes its standard value and an unknown one is passed over,
but a field may not stand twice. Options are read from a file that the user names, or else from the
file `.noteseq/config.yaml` in the user's home directory. A fault of a named file is reported; the
file in the home directory need not be there, and is passed over if it is no good.

* `Options.toYaml` — the text of options.
* `Options.ofYaml?` — the options that a text gives; a text without content gives the standard
  ones.
* `Options.ofSource` — the options that a file gives.
-/

namespace Songsheet

/-- How deep includes may be nested, the root source being at depth 0, and whether a source
that includes itself, directly or through others, is refused on sight. With the second off, a
cycle goes on until the first stops it. -/
structure Options where
  maxIncludeDepth : Nat
  detectIncludeCycles : Bool
  deriving DecidableEq, Repr

namespace Options

/-- The limits that hold where nothing else is said. -/
def standard : Options := ⟨32, true⟩

/-! ## Options as YAML -/

/-- The YAML text of options. -/
def toYaml (o : Options) : String :=
  (Yaml.Node.mapping [("max_include_depth", .number o.maxIncludeDepth),
    ("detect_include_cycles", .bool o.detectIncludeCycles)]).document

/-- The values of the fields read so far. -/
structure Fields where
  depth : Option Nat
  cycles : Option Bool

/-- Whether a scalar may stand for a value of a standard kind: a plain one may, and a literal
block that is tagged as of this kind. -/
def mayBe (kind : String) (s : Yaml.Scalar) : Bool :=
  match s.style with
  | .plain => true
  | .literal => s.tag == some (Yaml.standardTag kind)
  | _ => false

/-- A depth is a scalar that stands for a number of 64 bits. -/
def depth? (s : Yaml.Scalar) : Option Nat :=
  if mayBe "int" s then Yaml.natBelow? UInt64.size s.text else none

/-- A flag is a scalar that stands for a truth value. -/
def flag? (s : Yaml.Scalar) : Option Bool :=
  if mayBe "bool" s then Yaml.bool? s.text else none

/-- Takes in one field; a key must be a scalar. -/
def Fields.add (f : Fields) (key value : Option Yaml.Scalar) : Option Fields := do
  let name := (← key).text
  if name = "max_include_depth" then
    if f.depth.isSome then none else return { f with depth := some (← depth? (← value)) }
  else if name = "detect_include_cycles" then
    if f.cycles.isSome then none else return { f with cycles := some (← flag? (← value)) }
  else return f

/-- Takes in fields, given as keys and values by turns. -/
def Fields.addAll (f : Fields) : List (Option Yaml.Scalar) → Option Fields
  | key :: value :: rest => (f.add key value).bind (·.addAll rest)
  | _ => some f

/-- The options that fields give. -/
def ofFields (f : Fields) : Options :=
  ⟨f.depth.getD standard.maxIncludeDepth, f.cycles.getD standard.detectIncludeCycles⟩

/-- The options that the events of a document give. -/
def ofEvents? (events : List (Yaml.Event Nat)) : Option Options :=
  match events with
  | [] => some standard
  | [.scalar _ s] => if s.style = .plain ∧ s.text = "" then some standard else none
  | .mappingStart _ :: inside =>
    let anchored := Yaml.anchored events
    let scalars := (Yaml.Event.outermost inside).map fun e => (e.target anchored).scalar?
    (Fields.addAll ⟨none, none⟩ scalars).map ofFields
  | _ => none

/-- The options that a text gives. -/
def ofYaml? (text : String) : Option Options := do
  ofEvents? (← Yaml.numbered? (← Yaml.events? text))

/-! ## Where options come from -/

/-- Why options cannot be loaded. -/
inductive LoadFault where
  | unreadable (fault : ReadFault)
  | malformed
  deriving DecidableEq, Repr

namespace LoadFault

/-- The class of a fault. -/
def name : LoadFault → String
  | .unreadable fault => fault.name
  | .malformed => "InvalidData"

/-- The wording of a fault. -/
def message : LoadFault → String
  | .unreadable fault => fault.message
  | .malformed => "these are no options"

end LoadFault

/-- The options that the text of a file gives. -/
def ofSource : Except ReadFault String → Except LoadFault Options
  | .error fault => .error (.unreadable fault)
  | .ok text =>
    match ofYaml? text with
    | some o => .ok o
    | none => .error .malformed

/-- The options file of a home directory. -/
def homeFile (home : SourcePath) : SourcePath :=
  ⟨home.text ++ "/.noteseq/config.yaml"⟩

end Options

end Songsheet
