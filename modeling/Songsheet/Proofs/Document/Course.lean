import Songsheet.Proofs.Document.Lockstep

/-!
# The course of a source

However often a source is entered, and whatever has been defined by then, its text is taken in the
same stretches: one turn reads blanks, a directive or an include, and stops where the same turn
always stops. So of two places at which turns begin in one source, one lies ahead of the other. Only
a turn that fails may stop short of the place where it stops otherwise, and it is the last one.

* `Advances` — a turn in a source goes on from one cursor to the next; it does so in one way
  (`advances_rightUnique`), and so far as the directive at its mark (`directive_of_advances`).
* `Course` — any number of such turns; `Course.compare` — two places of one course are the same, or
  one is ahead of the other.
* `OnCourse` — a source has followed its course from the start of its text; `Leads.onCourse` — so
  has each source that is being read.
* `Advances.of_passage` — a turn that fails stops no later than it does otherwise.
-/

namespace Songsheet.Document

open Reading

variable {read : Provider} {o : Options} {s t : State} {source path : SourcePath} {text : String}
  {c d e next : Cursor}

/-! ## Turns in one source -/

/-- In a source, a turn that begins at the first cursor and does not fail stops at the second. -/
inductive Advances (source : SourcePath) (c : Cursor) : Cursor → Prop
  | blank {p : Position} {d : Cursor} (token : nextToken c = .ok ⟨.blank, p⟩ d) :
      Advances source c d
  | directive {mark : Token} {d e : Cursor} {x : Directive} (token : nextToken c = .ok mark d)
      (reads : directive source mark.kind d = .ok x e) : Advances source c e
  | target {p : Position} {d e : Cursor} {target : String}
      (token : nextToken c = .ok ⟨.includeMark, p⟩ d)
      (names : through '>' d = .ok (some target) e) : Advances source c e

/-- Any number of turns in one source. -/
def Course (source : SourcePath) : Cursor → Cursor → Prop :=
  Relation.ReflTransGen (Advances source)

theorem not_directs {x : Directive} {kind : TokenKind}
    (hkind : kind ≠ .trackMark ∧ kind ≠ .sequenceMark ∧ kind ≠ .attributeMark) :
    directive source kind c ≠ .ok x d := by
  intro h
  rcases mark_of_directive h with hmark | hmark | hmark
  · exact hkind.1 hmark
  · exact hkind.2.1 hmark
  · exact hkind.2.2 hmark

theorem advances_rightUnique (source : SourcePath) : Relator.RightUnique (Advances source) := by
  intro c d e hd he
  cases hd with
  | blank token =>
    cases he with
    | blank token' => exact (EStateM.Result.ok.inj (token.symm.trans token')).2
    | directive token' reads' =>
      obtain ⟨rfl, rfl⟩ := EStateM.Result.ok.inj (token.symm.trans token')
      exact absurd reads' (not_directs (by simp))
    | target token' names' => cases token.symm.trans token'
  | directive token reads =>
    cases he with
    | blank token' =>
      obtain ⟨rfl, rfl⟩ := EStateM.Result.ok.inj (token.symm.trans token')
      exact absurd reads (not_directs (by simp))
    | directive token' reads' =>
      obtain ⟨rfl, rfl⟩ := EStateM.Result.ok.inj (token.symm.trans token')
      exact (EStateM.Result.ok.inj (reads.symm.trans reads')).2
    | target token' names' =>
      obtain ⟨rfl, rfl⟩ := EStateM.Result.ok.inj (token.symm.trans token')
      exact absurd reads (not_directs (by simp))
  | target token names =>
    cases he with
    | blank token' => cases token.symm.trans token'
    | directive token' reads' =>
      obtain ⟨rfl, rfl⟩ := EStateM.Result.ok.inj (token.symm.trans token')
      exact absurd reads' (not_directs (by simp))
    | target token' names' =>
      obtain ⟨-, rfl⟩ := EStateM.Result.ok.inj (token.symm.trans token')
      exact (EStateM.Result.ok.inj (names.symm.trans names')).2

theorem Advances.reaches (h : Advances source c d) : c.Reaches d := by
  cases h with
  | blank token => exact forward_nextToken.ok token
  | directive token reads =>
    exact (forward_nextToken.ok token).trans ((forward_directive _ _).ok reads)
  | target token names => exact (forward_nextToken.ok token).trans ((forward_through '>').ok names)

/-- Where a turn begins with the mark of a directive, it goes on if the directive can be read. -/
theorem directive_of_advances {mark : Token} (h : Advances source c next)
    (token : nextToken c = .ok mark d) (directs : mark.kind.Directs) :
    ∃ x, directive source mark.kind d = .ok x next := by
  obtain ⟨hblank, -, hinclude⟩ := directs
  cases h with
  | blank token' =>
    obtain ⟨rfl, rfl⟩ := EStateM.Result.ok.inj (token.symm.trans token')
    exact absurd rfl hblank
  | directive token' reads =>
    obtain ⟨rfl, rfl⟩ := EStateM.Result.ok.inj (token.symm.trans token')
    exact ⟨_, reads⟩
  | target token' names =>
    obtain ⟨rfl, rfl⟩ := EStateM.Result.ok.inj (token.symm.trans token')
    exact absurd rfl hinclude

theorem label_of_advances {p : Position} {label : String} (h : Advances source c next)
    (token : nextToken c = .ok ⟨.trackMark, p⟩ d) (labelled : definedLabel d = .ok label e) :
    e = next := by
  obtain ⟨x, h⟩ := directive_of_advances h token (by simp [TokenKind.Directs])
  obtain ⟨found, hlabel, -⟩ := directive_trackMark_eq_ok.1 h
  exact (EStateM.Result.ok.inj (labelled.symm.trans hlabel)).2

theorem notes_of_advances {p : Position} {label : String} (h : Advances source c next)
    (token : nextToken c = .ok ⟨.sequenceMark, p⟩ d) (labelled : definedLabel d = .ok label e) :
    ∃ written, notes e = .ok written next := by
  obtain ⟨x, h⟩ := directive_of_advances h token (by simp [TokenKind.Directs])
  obtain ⟨found, f, written, hlabel, hnotes, -⟩ := directive_sequenceMark_eq_ok.1 h
  obtain ⟨-, rfl⟩ := EStateM.Result.ok.inj (labelled.symm.trans hlabel)
  exact ⟨written, hnotes⟩

theorem attribute_of_advances {p : Position} (h : Advances source c next)
    (token : nextToken c = .ok ⟨.attributeMark, p⟩ d) :
    ∃ value, trackAttribute source d = .ok value next := by
  obtain ⟨x, h⟩ := directive_of_advances h token (by simp [TokenKind.Directs])
  obtain ⟨value, hvalue, -⟩ := directive_attributeMark_eq_ok.1 h
  exact ⟨value, hvalue⟩

theorem Course.reaches (h : Course source c d) : c.Reaches d := by
  induction h with
  | refl => exact .refl c
  | tail _ hadvances ih => exact ih.trans hadvances.reaches

/-- Two places of one course are the same, or one is ahead of the other. -/
theorem Course.compare (hd : Course source c d) (he : Course source c e) :
    d = e ∨ (∃ next, Advances source d next ∧ Course source next e) ∨
      ∃ next, Advances source e next ∧ Course source next d := by
  rcases hd.total_of_right_unique (advances_rightUnique source) he with hde | hed
  · rcases hde.cases_head with hsame | hahead
    · exact .inl hsame
    · exact .inr (.inl hahead)
  · rcases hed.cases_head with hsame | hahead
    · exact .inl hsame.symm
    · exact .inr (.inr hahead)

/-! ## The course of each source -/

/-- A source that is being read has followed its course from the start of its text. -/
def OnCourse (read : Provider) (x : OpenSource) : Prop :=
  ∃ text, read x.path = .ok text ∧ Course x.path (.ofText text) x.cursor

theorem OnCourse.advance {x : OpenSource} (h : OnCourse read x) (hx : Advances x.path x.cursor d) :
    OnCourse read ⟨x.path, d⟩ := by
  obtain ⟨text, hread, hcourse⟩ := h
  exact ⟨text, hread, hcourse.tail hx⟩

theorem through_of_readPath {mark : Position} (h : s.readPath mark c = .ok path d) :
    ∃ target, through '>' c = .ok (some target) d := by
  obtain ⟨target, htarget, -⟩ := State.readPath_eq_ok.1 h
  refine ⟨String.ofList target, ?_⟩
  rw [through_of_text htarget.first htarget.text, htarget.past_eq]

theorem Goes.onCourse (h : Goes read o s t) (hs : ∀ x ∈ s.stack, OnCourse read x) :
    ∀ x ∈ t.stack, OnCourse read x := by
  have hcurrent := hs s.current (List.mem_cons_self ..)
  have hsuspended : ∀ x ∈ s.suspended, OnCourse read x := fun x hx =>
    hs x (List.mem_cons_of_mem _ hx)
  cases goes_iff.1 h with
  | blank token => exact List.forall_mem_cons.2 ⟨hcurrent.advance (.blank token), hsuspended⟩
  | directive token reads obeys =>
    exact List.forall_mem_cons.2 ⟨hcurrent.advance (.directive token reads), hsuspended⟩
  | resume token waits =>
    rw [waits] at hsuspended
    exact hsuspended
  | @enter p c d path text token reads allowed found =>
    obtain ⟨target, names⟩ := through_of_readPath reads
    exact List.forall_mem_cons.2 ⟨⟨text, found, .refl⟩,
      List.forall_mem_cons.2 ⟨hcurrent.advance (.target token names), hsuspended⟩⟩

/-- Each source on the stack has followed its course, if the first one has. -/
theorem Leads.onCourse (h : Leads read o (.start path text) t) (hread : read path = .ok text) :
    OnCourse read t.current := by
  have hstack : ∀ x ∈ t.stack, OnCourse read x := by
    induction h with
    | refl => exact List.forall_mem_cons.2 ⟨⟨text, hread, .refl⟩, by simp [State.start]⟩
    | tail _ hgo ih => exact hgo.onCourse ih
  exact hstack t.current (List.mem_cons_self ..)

/-- Two places in one source at which turns begin. -/
theorem OnCourse.compare {x y : OpenSource} (hx : OnCourse read x) (hy : OnCourse read y)
    (hpath : x.path = y.path) :
    x.cursor = y.cursor ∨
      (∃ next, Advances x.path x.cursor next ∧ next.Reaches y.cursor) ∨
      ∃ next, Advances x.path y.cursor next ∧ next.Reaches x.cursor := by
  obtain ⟨text, hread, hcourse⟩ := hx
  obtain ⟨text', hread', hcourse'⟩ := hy
  rw [← hpath] at hread' hcourse'
  obtain rfl := Except.ok.inj (hread.symm.trans hread')
  rcases hcourse.compare hcourse' with hsame | ⟨next, hnext, hahead⟩ | ⟨next, hnext, hbehind⟩
  · exact .inl hsame
  · exact .inr (.inl ⟨next, hnext, hahead.reaches⟩)
  · exact .inr (.inr ⟨next, hnext, hbehind.reaches⟩)

/-! ## Turns that fail -/

/-- Of two readings in sequence, the second one may fail early or not be begun. -/
theorem reaches_of_bind {α β : Type} {r : Reading α} {f : α → Reading β}
    (hleft : cursorLeft (r c) = d) (hd : d.Reaches e)
    (hf : ∀ a, (cursorLeft (f a d)).Reaches e) : (cursorLeft ((r >>= f) c)).Reaches e := by
  rw [bind_apply]
  cases hr : r c with
  | error fault d' =>
    rw [hr] at hleft
    obtain rfl : d' = d := hleft
    exact hd
  | ok a d' =>
    rw [hr] at hleft
    obtain rfl : d' = d := hleft
    exact hf a

/-- A directive that is refused has not been read further than it would be otherwise. -/
theorem reaches_of_readDirective {draft : Draft} {mark : Token} {x : Directive}
    (h : directive source mark.kind c = .ok x d) :
    (cursorLeft (draft.readDirective source mark c)).Reaches d := by
  obtain ⟨kind, p⟩ := mark
  obtain ⟨rfl⟩ | ⟨rfl⟩ | ⟨rfl⟩ := mark_of_directive h
  · obtain ⟨label, hlabel, -⟩ := directive_trackMark_eq_ok.1 h
    show (cursorLeft (draft.readTrack source c)).Reaches d
    exact reaches_of_bind (cursorLeft_readLabel hlabel) (.refl d) fun _ => .refl d
  · obtain ⟨label, e, written, hlabel, hnotes, -⟩ := directive_sequenceMark_eq_ok.1 h
    show (cursorLeft (draft.readSequence source c)).Reaches d
    apply reaches_of_bind (cursorLeft_readLabel hlabel) (forward_notes.ok hnotes)
    intro labels
    exact reaches_of_bind (congrArg cursorLeft hnotes) (.refl d) fun _ => .refl d
  · obtain ⟨value, hvalue, -⟩ := directive_attributeMark_eq_ok.1 h
    show (cursorLeft (draft.readAttribute source p c)).Reaches d
    unfold Draft.readAttribute
    cases draft.track with
    | none => exact (forward_trackAttribute source).ok hvalue
    | some index => exact reaches_of_bind (congrArg cursorLeft hvalue) (.refl d) fun _ => .refl d

/-- A turn that fails stops no later than it does otherwise. -/
theorem Advances.of_passage (h : Advances s.current.path s.current.cursor d) :
    (cursorLeft (s.passage s.current.cursor)).Reaches d := by
  cases h with
  | blank token =>
    rw [State.passage, bind_apply, token]
    exact .refl _
  | @directive mark c d x token reads =>
    have directs : mark.kind.Directs := by
      rcases mark_of_directive reads with h | h | h <;> simp [TokenKind.Directs, h]
    rw [State.cursorLeft_passage token directs]
    exact reaches_of_readDirective reads
  | @target p c d target token names =>
    rw [State.passage_of_include token, bind_apply, State.readPath, bind_apply, names]
    exact .refl _

end Songsheet.Document
