import Songsheet.Yaml.Token

/-!
# YAML events

A walk over a value meets a scalar or an alias as one event, and a list or a mapping as an
event at its start and one at its end, with the events of what it holds between them: of the
items in order, or of each key and its value.

* `Event.outermost` — of the events of some values, those with which the values begin.
* `Event.target` — the event with which the value begins that an event stands for.
* `numbered?` — events with numbers for names; a name must be given before an alias uses it.
* `anchored` — the values of a document that aliases may stand for, the last first.
-/

namespace Songsheet.Yaml

/-- A scalar: how it is written, the tag in front of it and its text. -/
structure Scalar where
  style : Style
  tag : Option Octets
  text : String
  deriving DecidableEq, Repr

/-- The scalar that stands where nothing was written. -/
def Scalar.blank : Scalar := ⟨.plain, none, ""⟩

/-- A step of a walk over a value. The start of a value carries its anchor, if it has one. -/
inductive Event (Name : Type) where
  | alias (name : Name)
  | scalar (anchor : Option Name) (scalar : Scalar)
  | listStart (anchor : Option Name)
  | listEnd
  | mappingStart (anchor : Option Name)
  | mappingEnd
  deriving DecidableEq, Repr

namespace Event

variable {Name : Type}

/-- The event of a value that was not written. -/
def blank : Event Name := .scalar none .blank

/-- The anchor of the value that begins with an event. -/
def anchor? : Event Name → Option Name
  | .scalar anchor _ => anchor
  | .listStart anchor => anchor
  | .mappingStart anchor => anchor
  | _ => none

/-- Whether an event is the start of a list or a mapping. -/
def isStart : Event Name → Bool
  | .listStart _ => true
  | .mappingStart _ => true
  | _ => false

/-- Whether an event is the end of a list or a mapping. -/
def isEnd : Event Name → Bool
  | .listEnd => true
  | .mappingEnd => true
  | _ => false

/-- The outermost events so far, the last first, and how deep the next event lies. -/
structure Outline (Name : Type) where
  found : List (Event Name)
  depth : Nat

/-- Takes in one event. -/
def Outline.add (o : Outline Name) (e : Event Name) : Outline Name :=
  if e.isEnd then { o with depth := o.depth - 1 }
  else
    { found := if o.depth = 0 then e :: o.found else o.found
      depth := if e.isStart then o.depth + 1 else o.depth }

/-- The events with which values begin, of these the ones that lie in no other. -/
def outermost (events : List (Event Name)) : List (Event Name) :=
  (events.foldl Outline.add ⟨[], 0⟩).found.reverse

/-- The event with which the value begins that an event stands for: an alias stands for the
first of some values that has its name for an anchor. -/
def target [DecidableEq Name] (anchored : List (Event Name)) (e : Event Name) : Event Name :=
  match e with
  | .alias name => (anchored.find? fun a => a.anchor? = some name).getD e
  | _ => e

/-- The scalar that an event is. -/
def scalar? : Event Name → Option Scalar
  | .scalar _ s => some s
  | _ => none

end Event

/-! ## Anchors

A name may be given to several values. Each time a name is given, it gets a number: how many
different names have been given before, the name itself counted if it was among them. An alias
takes the number that its name has where the alias stands. Different names may so come to
share a number, and an alias stands for the last value in the whole document with its number. -/

/-- The numbers of the names given so far, each name once. -/
abbrev Numbers := List (String × Nat)

namespace Event

/-- Gives a name. -/
def give (name : String) : StateM Numbers Nat :=
  fun numbers => (numbers.length, (name, numbers.length) :: numbers.eraseP (·.1 == name))

/-- An event with numbers for names. -/
def number? : Event String → StateT Numbers Option (Event Nat)
  | .alias name => fun numbers => (numbers.lookup name).map fun n => (.alias n, numbers)
  | .scalar anchor s => return .scalar (← anchor.mapM lift) s
  | .listStart anchor => return .listStart (← anchor.mapM lift)
  | .listEnd => return .listEnd
  | .mappingStart anchor => return .mappingStart (← anchor.mapM lift)
  | .mappingEnd => return .mappingEnd
where
  /-- Gives a name, which cannot fail. -/
  lift (name : String) : StateT Numbers Option Nat := fun numbers => some (give name numbers)

end Event

/-- The events of a document with numbers for names. -/
def numbered? (events : List (Event String)) : Option (List (Event Nat)) :=
  (events.mapM Event.number?).run' []

/-- The events with which values with an anchor begin, the last first. -/
def anchored (events : List (Event Nat)) : List (Event Nat) :=
  (events.filter fun e => e.anchor?.isSome).reverse

end Songsheet.Yaml
