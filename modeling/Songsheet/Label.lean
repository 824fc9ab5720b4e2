import Songsheet.Diagnostic

/-!
# Labels

Tracks and sequences are named by labels, which share one name space. A label may be used
before it is defined, and channels may name sequences only.

* `isLabel` — the words that are labels.
* `Registry` — the definitions and the first reference to each label, in the order in which
  they were met.
* `Registry.define` — refuses a label that is defined already, under either kind.
* `Registry.undefined`, `Registry.check` — the references that no sequence answers, and the
  verdict on them.
-/

namespace Songsheet

/-- A label is an ASCII letter followed by ASCII letters, digits and underscores. -/
def isLabel (word : String) : Bool :=
  match word.toList with
  | [] => false
  | first :: rest => first.isAlpha && rest.all fun c => c.isAlphanum || c == '_'

theorem toList_ne_nil_of_isLabel {word : String} (h : isLabel word) : word.toList ≠ [] := by
  intro hn
  simp [isLabel, hn] at h

/-- What a label names. -/
inductive LabelKind where
  | track
  | sequence
  deriving DecidableEq, Repr

/-- A label, what it names and where it is defined. -/
structure Definition where
  label : String
  kind : LabelKind
  site : Site
  deriving DecidableEq, Repr

/-- A label and where it is first used. -/
structure Reference where
  label : String
  site : Site
  deriving DecidableEq, Repr

/-- The definitions and the first references of a document, each in order. -/
structure Registry where
  definitions : List Definition
  references : List Reference
  deriving DecidableEq, Repr

namespace Registry

/-- A registry that has met nothing yet. -/
def empty : Registry := ⟨[], []⟩

/-- The definition of a label. -/
def definition? (r : Registry) (label : String) : Option Definition :=
  r.definitions.find? (·.label == label)

/-- Whether a label names a sequence. -/
def namesSequence (r : Registry) (label : String) : Bool :=
  match r.definition? label with
  | some d => d.kind == .sequence
  | none => false

/-- Adds a definition; a label that is defined already is refused, with the place of its first
definition. -/
def define (r : Registry) (label : String) (kind : LabelKind) (site : Site) :
    Except Diagnostic Registry :=
  match r.definition? label with
  | some first => .error ((Cause.duplicateLabel label first.site).reportedIn site)
  | none => .ok { r with definitions := r.definitions ++ [⟨label, kind, site⟩] }

/-- Notes a reference, unless the label has been referenced before. -/
def refer (r : Registry) (label : String) (site : Site) : Registry :=
  if r.references.any (·.label == label) then r
  else { r with references := r.references ++ [⟨label, site⟩] }

/-- Notes several references to labels of one source. -/
def referAll (r : Registry) (references : List Reference) : Registry :=
  references.foldl (fun r reference => r.refer reference.label reference.site) r

/-- The references that no sequence answers, in the order in which they were first met. -/
def undefined (r : Registry) : List Reference :=
  r.references.filter fun reference => !r.namesSequence reference.label

/-- Why a reference to a label that names no sequence is refused. -/
def refusal (r : Registry) (label : String) : Cause :=
  if (r.definition? label).isSome then .trackLabel label else .undefinedLabel label

/-- Accepts if a sequence answers every reference, and else reports the first that none
does. -/
def check (r : Registry) : Except Diagnostic Unit :=
  match r.undefined with
  | [] => .ok ()
  | reference :: _ => .error ((r.refusal reference.label).reportedIn reference.site)

theorem check_eq_ok_iff (r : Registry) : r.check = .ok () ↔ r.undefined = [] := by
  unfold check
  split <;> simp_all

end Registry

end Songsheet
