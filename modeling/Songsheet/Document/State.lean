import Songsheet.Directive
import Songsheet.Options
import Songsheet.Source

/-!
# Reading a document step by step

A document is a root source and all that it includes. While an included source is read, the
sources above it are suspended right behind their includes; what has been defined so far is
shared by all of them. One step reads one token and, if it is the mark of a directive, the
directive. An include is not followed here: the step asks for the text of the source, so that
whoever runs the steps decides where texts come from.

* `State.step` — one step.
* `State.enter` — goes on in an included source.
* `Moved`, `Resumed` — how a step that goes on changes the state (`step_next`), and what holds
  when it asks for a source (`step_wanted`).
-/

namespace Songsheet.Document

/-! ## States -/

/-- A source that is being read. -/
structure OpenSource where
  path : SourcePath
  cursor : Cursor
  deriving DecidableEq, Repr

/-- The source that is being read, those that wait for it with the innermost first, and what
they have defined. -/
structure State where
  current : OpenSource
  suspended : List OpenSource
  draft : Draft
  deriving DecidableEq, Repr

/-- What a step comes to. -/
inductive Step where
  /-- The document has been read. -/
  | finished (draft : Draft)
  /-- Something is wrong, which showed in the state `s`. -/
  | failed (d : Diagnostic) (s : State)
  /-- Reading goes on. -/
  | next (s : State)
  /-- The include at `mark` needs the text of the source `path`. -/
  | wanted (path : SourcePath) (mark : Position) (s : State)
  deriving DecidableEq, Repr

namespace State

/-- The state in which the reading of a document begins. -/
def start (path : SourcePath) (text : String) : State :=
  ⟨⟨path, .ofText text⟩, [], .empty⟩

/-- The sources being read, from the root to the innermost. -/
def active (s : State) : List OpenSource :=
  (s.current :: s.suspended).reverse

/-- The paths of the sources being read, from the root to the innermost. -/
def activePaths (s : State) : List SourcePath :=
  s.active.map (·.path)

/-- The state with the current source read up to a cursor. -/
def moveTo (s : State) (c : Cursor) : State :=
  { s with current := { s.current with cursor := c } }

/-- The state that goes on in an included source. -/
def enter (s : State) (path : SourcePath) (text : String) : State :=
  ⟨⟨path, .ofText text⟩, s.current :: s.suspended, s.draft⟩

/-! ## Steps -/

/-- Fails, naming the current source. -/
def fail (s : State) (d : Diagnostic) : Step :=
  .failed (d.inSource s.current.path) s

/-- Reads a directive in the current source. -/
def stepDirective (s : State) (directive : Reading Draft) : Step :=
  match directive s.current.cursor with
  | .ok draft c => .next { s.moveTo c with draft }
  | .error d c => (s.moveTo c).fail d

/-- Reads the path of an include behind its mark. -/
def readPath (s : State) (mark : Position) : Reading SourcePath := do
  match ← Reading.through '>' with
  | some target => return s.current.path.resolve (Text.trim target)
  | none => Reading.fail .unterminatedInclude mark

/-- Why a source may not be included here, if it may not. -/
def refusal? (s : State) (o : Options) (path : SourcePath) : Option Cause :=
  if o.detectIncludeCycles && s.activePaths.any (·.same path) then
    some (.includeCycle (s.activePaths ++ [path]))
  else if o.maxIncludeDepth < s.suspended.length + 1 then
    some (.includeTooDeep path o.maxIncludeDepth)
  else none

/-- Reads the include whose mark stands at `mark`. -/
def stepInclude (s : State) (o : Options) (mark : Position) : Step :=
  match s.readPath mark s.current.cursor with
  | .error d c => (s.moveTo c).fail d
  | .ok path c =>
    match s.refusal? o path with
    | some cause => (s.moveTo c).fail (cause.reportedAt mark)
    | none => .wanted path mark (s.moveTo c)

/-- Reads on behind a token. -/
def stepToken (s : State) (o : Options) (token : Token) : Step :=
  match token.kind with
  | .blank => .next s
  | .endOfText =>
    match s.suspended with
    | [] => .finished s.draft
    | waiting :: others => .next ⟨waiting, others, s.draft⟩
  | .includeMark => s.stepInclude o token.position
  | .trackMark => s.stepDirective (s.draft.readTrack s.current.path)
  | .sequenceMark => s.stepDirective (s.draft.readSequence s.current.path)
  | .attributeMark => s.stepDirective (s.draft.readAttribute s.current.path token.position)
  | found => s.fail ((Cause.expectedDirective found).reportedAt token.position)

/-- Reads one token and what belongs to it. -/
def step (s : State) (o : Options) : Step :=
  match Reading.nextToken s.current.cursor with
  | .error d c => (s.moveTo c).fail d
  | .ok token c => (s.moveTo c).stepToken o token

/-- Reports that the source asked for by the include at `mark` cannot be read. -/
def unreadable (s : State) (path : SourcePath) (mark : Position) (fault : ReadFault) :
    Diagnostic :=
  ((Cause.unreadableSource path fault.message).reportedAt mark).inSource s.current.path

end State

/-! ## How steps change the state -/

/-- The current source has been read further, and the others still wait. -/
def Moved (s t : State) : Prop :=
  t.current.path = s.current.path ∧ t.suspended = s.suspended ∧
    s.current.cursor.Reaches t.current.cursor

/-- The source that waited for the current one is current again. -/
def Resumed (s t : State) : Prop :=
  s.suspended = t.current :: t.suspended ∧ t.draft = s.draft

theorem moved_moveTo {s : State} {c : Cursor} (h : s.current.cursor.Reaches c) :
    Moved s (s.moveTo c) :=
  ⟨rfl, rfl, h⟩

theorem Moved.trans {s t u : State} (hst : Moved s t) (htu : Moved t u) : Moved s u :=
  ⟨htu.1.trans hst.1, htu.2.1.trans hst.2.1, hst.2.2.trans htu.2.2⟩

namespace State

theorem forward_readPath (s : State) (mark : Position) : (s.readPath mark).Forward := by
  refine Reading.forward_bind (Reading.forward_through '>') fun target => ?_
  split
  · exact Reading.forward_pure _
  · exact Reading.forward_fail _ _

theorem stepDirective_next {s t : State} {directive : Reading Draft} (hd : directive.Forward)
    (h : s.stepDirective directive = .next t) : Moved s t := by
  unfold stepDirective at h
  split at h
  · rename_i draft c hc
    simp only [Step.next.injEq] at h
    subst h
    exact ⟨rfl, rfl, hd.ok hc⟩
  · simp [fail] at h

theorem stepDirective_ne_wanted {s t : State} {directive : Reading Draft} {path : SourcePath}
    {mark : Position} : s.stepDirective directive ≠ .wanted path mark t := by
  unfold stepDirective
  split <;> simp [fail]

theorem stepInclude_ne_next {s t : State} {o : Options} {mark : Position} :
    s.stepInclude o mark ≠ .next t := by
  unfold stepInclude
  split
  · simp [fail]
  · split <;> simp [fail]

theorem stepInclude_wanted {s t : State} {o : Options} {mark mark' : Position}
    {path : SourcePath} (h : s.stepInclude o mark = .wanted path mark' t) :
    Moved s t ∧ s.suspended.length + 1 ≤ o.maxIncludeDepth := by
  unfold stepInclude at h
  split at h
  · simp [fail] at h
  · rename_i path' c hc
    split at h
    · simp [fail] at h
    · rename_i hr
      simp only [Step.wanted.injEq] at h
      obtain ⟨rfl, rfl, rfl⟩ := h
      refine ⟨moved_moveTo ((s.forward_readPath mark).ok hc), ?_⟩
      unfold refusal? at hr
      split at hr
      · simp at hr
      · split at hr
        · simp at hr
        · omega

/-- A step that goes on has read the current source further, by at least one character, or
has resumed the source that waited for it. -/
theorem step_next {s t : State} {o : Options} (h : s.step o = .next t) :
    (Moved s t ∧ t.current.cursor.rest.length < s.current.cursor.rest.length) ∨
      Resumed s t := by
  unfold step at h
  split at h
  · simp [fail] at h
  · rename_i token c hc
    have hmove := moved_moveTo (Reading.forward_nextToken.ok hc)
    have hless : token.kind ≠ .endOfText →
        (s.moveTo c).current.cursor.rest.length < s.current.cursor.rest.length :=
      Reading.length_of_nextToken hc
    have further : token.kind ≠ .endOfText → Moved (s.moveTo c) t →
        Moved s t ∧ t.current.cursor.rest.length < s.current.cursor.rest.length := by
      intro hk hm
      have := hm.2.2.length_le
      have := hless hk
      exact ⟨hmove.trans hm, by omega⟩
    unfold stepToken at h
    split at h
    · rename_i hk
      simp only [Step.next.injEq] at h
      subst h
      exact .inl (further (by simp [hk]) ⟨rfl, rfl, .refl _⟩)
    · split at h
      · simp at h
      · rename_i waiting others hs
        simp only [Step.next.injEq] at h
        subst h
        exact .inr ⟨hs, rfl⟩
    · exact absurd h stepInclude_ne_next
    · rename_i hk
      exact .inl (further (by simp [hk]) (stepDirective_next (Draft.forward_readTrack _ _) h))
    · rename_i hk
      exact .inl (further (by simp [hk])
        (stepDirective_next (Draft.forward_readSequence _ _) h))
    · rename_i hk
      exact .inl (further (by simp [hk])
        (stepDirective_next (Draft.forward_readAttribute _ _ _) h))
    · simp [fail] at h

/-- A step that asks for a source has read the current one further, by at least one character,
and leaves room for one more source. -/
theorem step_wanted {s t : State} {o : Options} {path : SourcePath} {mark : Position}
    (h : s.step o = .wanted path mark t) :
    Moved s t ∧ t.current.cursor.rest.length < s.current.cursor.rest.length ∧
      s.suspended.length + 1 ≤ o.maxIncludeDepth := by
  unfold step at h
  split at h
  · simp [fail] at h
  · rename_i token c hc
    have hmove := moved_moveTo (Reading.forward_nextToken.ok hc)
    have hless : token.kind ≠ .endOfText →
        (s.moveTo c).current.cursor.rest.length < s.current.cursor.rest.length :=
      Reading.length_of_nextToken hc
    unfold stepToken at h
    split at h
    · simp at h
    · split at h <;> simp at h
    · rename_i hk
      obtain ⟨hm, hroom⟩ := stepInclude_wanted h
      have := hm.2.2.length_le
      have := hless (by simp [hk])
      exact ⟨hmove.trans hm, by omega, hroom⟩
    · exact absurd h stepDirective_ne_wanted
    · exact absurd h stepDirective_ne_wanted
    · exact absurd h stepDirective_ne_wanted
    · simp [fail] at h

end State

end Songsheet.Document
