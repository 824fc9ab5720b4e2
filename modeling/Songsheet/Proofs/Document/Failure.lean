import Songsheet.Proofs.Document.Include
import Songsheet.Proofs.Label
import Songsheet.Proofs.Reading.Faults

/-!
# How readings fail

A turn fails in the state in which it begins: at a token or a directive that cannot be read, at an
attribute without a track, or at an include that is not closed, that is refused, or that the provider
does not answer. Whatever it is, the diagnostic names the source that is being read. A document fails
where its reading does, and otherwise for a reference that no sequence answers.

* `State.turn_of_directive`, `State.turn_of_include` — a turn at a directive, and at an include.
* `Failure` — the ways in which a turn fails, one constructor for each; a turn fails with a
  diagnostic exactly in one of them (`turn_eq_stop_error_iff`).
* `Failure.source_eq`, `Failure.passes` — what is reported stands in the source that is being read,
  at a place that is still to come or is passed by the turn.
* `parseText_eq_error`, `parse_eq_error` — with which diagnostics a document fails;
  `parse_of_outcome` evaluates a document that fails after few turns.
-/

namespace Songsheet

/-! ## Directives -/

namespace Draft

/-- Reads into a draft what a token begins: a directive behind its mark, and nothing behind any
other token. -/
def readDirective (draft : Draft) (source : SourcePath) (mark : Token) : Reading Draft :=
  match mark.kind with
  | .trackMark => draft.readTrack source
  | .sequenceMark => draft.readSequence source
  | .attributeMark => draft.readAttribute source mark.position
  | found => Reading.fail (.expectedDirective found) mark.position

variable {draft : Draft} {source : SourcePath} {mark : Token} {start : Cursor}

theorem confined_readDirective (hmark : start.Passes mark.position)
    (htrack : mark.kind = .attributeMark → draft.track ≠ none) :
    Reading.Confined source start (fun _ => True) (draft.readDirective source mark) := by
  unfold readDirective
  split
  · exact confined_readTrack
  · exact confined_readSequence
  · rename_i hkind
    obtain ⟨i, hi⟩ := Option.ne_none_iff_exists'.1 (htrack hkind)
    exact confined_readAttribute hi
  · exact Reading.confined_fail rfl hmark

theorem readDirective_of_track_eq_none (hkind : mark.kind = .attributeMark)
    (htrack : draft.track = none) :
    draft.readDirective source mark = Reading.fail .missingTrack mark.position := by
  rw [readDirective, hkind]
  simp only
  rw [readAttribute, htrack]

end Draft

/-- A token that neither ends a stretch of text nor includes a source begins a directive, or
something should that does not. -/
def TokenKind.Directs (kind : TokenKind) : Prop :=
  kind ≠ .blank ∧ kind ≠ .endOfText ∧ kind ≠ .includeMark

namespace Document

variable {read : Provider} {o : Options} {s t : State} {d e : Diagnostic} {p : Position}
  {c c' : Cursor} {mark : Token} {path : SourcePath} {text : String}

/-! ## Turns at a token -/

theorem State.stepToken_of_directs (h : mark.kind.Directs) :
    s.stepToken o mark = s.stepDirective (s.draft.readDirective s.current.path mark) := by
  obtain ⟨hblank, hend, hinclude⟩ := h
  obtain ⟨kind, p⟩ := mark
  cases kind with
  | blank | endOfText | includeMark => contradiction
  | _ => rfl

theorem State.turn_of_faulty (h : Reading.nextToken s.current.cursor = .error e c) :
    s.turn read o = .stop (.error (e.inSource s.current.path)) := by
  rw [turn, step, h]
  rfl

/-- At a directive a turn fails as the directive does. -/
theorem State.turn_of_directive (token : Reading.nextToken s.current.cursor = .ok mark c)
    (directs : mark.kind.Directs) :
    s.turn read o = match s.draft.readDirective s.current.path mark c with
      | .ok draft d => .go { s.moveTo d with draft }
      | .error e _ => .stop (.error (e.inSource s.current.path)) := by
  have hstep : s.step o =
      (s.moveTo c).stepDirective (s.draft.readDirective s.current.path mark) := by
    rw [step_of_token token, stepToken_of_directs directs]
    rfl
  have hreads : s.draft.readDirective s.current.path mark (s.moveTo c).current.cursor =
      s.draft.readDirective s.current.path mark c := rfl
  rw [turn, hstep, stepDirective, hreads]
  cases s.draft.readDirective s.current.path mark c with
  | ok draft d => rfl
  | error e d => rfl

/-- At an include a turn reads the path, asks whether the source is refused, and asks the provider
for it, in this order. -/
theorem State.turn_of_include
    (token : Reading.nextToken s.current.cursor = .ok ⟨.includeMark, p⟩ c) :
    s.turn read o = match s.readPath p c with
      | .error e _ => .stop (.error (e.inSource s.current.path))
      | .ok path d => match s.refusal? o path with
        | some cause => .stop (.error ((cause.reportedAt p).inSource s.current.path))
        | none => match read path with
          | .error fault => .stop (.error (s.unreadable path p fault))
          | .ok text => .go ((s.moveTo d).enter path text) := by
  have hstep : s.step o = (s.moveTo c).stepInclude o p := step_of_token token
  have hreads : (s.moveTo c).readPath p (s.moveTo c).current.cursor = s.readPath p c := rfl
  rw [turn, hstep, stepInclude, hreads]
  cases s.readPath p c with
  | error e d => rfl
  | ok path d =>
    simp only [refusal?_moveTo]
    cases s.refusal? o path with
    | some cause => rfl
    | none => rfl

/-! ## The ways in which a turn fails -/

/-- What is wrong with the token at which a state stands, or with the directive that it begins. -/
inductive Faulty (s : State) : Diagnostic → Prop
  | token {e : Diagnostic} {c : Cursor}
      (fails : Reading.nextToken s.current.cursor = .error e c) : Faulty s e
  | directive {mark : Token} {c d : Cursor} {e : Diagnostic}
      (token : Reading.nextToken s.current.cursor = .ok mark c) (directs : mark.kind.Directs)
      (described : mark.kind = .attributeMark → s.draft.track ≠ none)
      (fails : s.draft.readDirective s.current.path mark c = .error e d) : Faulty s e

/-- The ways in which a turn fails in the state `s`. -/
inductive Failure (read : Provider) (o : Options) (s : State) : Diagnostic → Prop
  | faulty {e : Diagnostic} (wrong : Faulty s e) : Failure read o s (e.inSource s.current.path)
  | missing {p : Position} {c : Cursor}
      (token : Reading.nextToken s.current.cursor = .ok ⟨.attributeMark, p⟩ c)
      (undescribed : s.draft.track = none) :
      Failure read o s ((Cause.missingTrack.reportedAt p).inSource s.current.path)
  | unclosed {p : Position} {c : Cursor}
      (token : Reading.nextToken s.current.cursor = .ok ⟨.includeMark, p⟩ c)
      (unclosed : '>' ∉ c.rest) :
      Failure read o s ((Cause.unterminatedInclude.reportedAt p).inSource s.current.path)
  | refused {p : Position} {c d : Cursor} {path : SourcePath} {cause : Cause}
      (token : Reading.nextToken s.current.cursor = .ok ⟨.includeMark, p⟩ c)
      (reads : s.readPath p c = .ok path d) (refused : s.refusal? o path = some cause) :
      Failure read o s ((cause.reportedAt p).inSource s.current.path)
  | unreadable {p : Position} {c d : Cursor} {path : SourcePath} {fault : ReadFault}
      (token : Reading.nextToken s.current.cursor = .ok ⟨.includeMark, p⟩ c)
      (reads : s.readPath p c = .ok path d) (allowed : s.refusal? o path = none)
      (absent : read path = .error fault) : Failure read o s (s.unreadable path p fault)

theorem Failure.of_include (token : Reading.nextToken s.current.cursor = .ok ⟨.includeMark, p⟩ c)
    (h : s.turn read o = .stop (.error d)) : Failure read o s d := by
  rw [State.turn_of_include token] at h
  cases reads : s.readPath p c with
  | error e d =>
    obtain ⟨unclosed, rfl, -⟩ := State.readPath_eq_error.1 reads
    rw [reads] at h
    obtain rfl := Except.error.inj (Turn.stop.inj h)
    exact .unclosed token unclosed
  | ok path d =>
    simp only [reads] at h
    cases refused : s.refusal? o path with
    | some cause =>
      rw [refused] at h
      obtain rfl := Except.error.inj (Turn.stop.inj h)
      exact .refused token reads refused
    | none =>
      simp only [refused] at h
      cases absent : read path with
      | error fault =>
        rw [absent] at h
        obtain rfl := Except.error.inj (Turn.stop.inj h)
        exact .unreadable token reads refused absent
      | ok text =>
        rw [absent] at h
        cases h

theorem Failure.of_directive (token : Reading.nextToken s.current.cursor = .ok mark c)
    (directs : mark.kind.Directs) (h : s.turn read o = .stop (.error d)) :
    Failure read o s d := by
  rw [State.turn_of_directive token directs] at h
  cases fails : s.draft.readDirective s.current.path mark c with
  | ok draft d =>
    rw [fails] at h
    cases h
  | error e d =>
    rw [fails] at h
    obtain rfl := Except.error.inj (Turn.stop.inj h)
    by_cases described : mark.kind = .attributeMark → s.draft.track ≠ none
    · exact .faulty (.directive token directs described fails)
    · obtain ⟨hkind, undescribed⟩ : mark.kind = .attributeMark ∧ s.draft.track = none := by
        simpa using described
      rw [Draft.readDirective_of_track_eq_none hkind undescribed] at fails
      obtain ⟨rfl, -⟩ := EStateM.Result.error.inj fails
      obtain ⟨kind, p⟩ := mark
      obtain rfl : kind = .attributeMark := hkind
      exact .missing token undescribed

theorem Faulty.turn (h : Faulty s e) :
    s.turn read o = .stop (.error (e.inSource s.current.path)) := by
  cases h with
  | token fails => exact State.turn_of_faulty fails
  | directive token directs described fails => rw [State.turn_of_directive token directs, fails]

/-- A turn fails with a diagnostic exactly in one of the ways. -/
theorem turn_eq_stop_error_iff : s.turn read o = .stop (.error d) ↔ Failure read o s d := by
  constructor
  · intro h
    cases token : Reading.nextToken s.current.cursor with
    | error e c =>
      rw [State.turn_of_faulty token] at h
      obtain rfl := Except.error.inj (Turn.stop.inj h)
      exact .faulty (.token token)
    | ok mark c =>
      obtain ⟨kind, p⟩ := mark
      cases kind with
      -- blanks and the end of a source that was included do not fail
      | blank => exact absurd h (Move.blank token).goes.not_stop
      | endOfText =>
        cases hs : s.suspended with
        | nil => cases h.symm.trans (turn_eq_stop_ok_iff.2 ⟨p, c, token, hs, rfl⟩)
        | cons waiting others => exact absurd h (Move.resume token hs).goes.not_stop
      | includeMark => exact .of_include token h
      | _ => exact .of_directive token ⟨by simp, by simp, by simp⟩ h
  · intro h
    cases h with
    | faulty wrong => exact wrong.turn
    | missing token undescribed =>
      rw [State.turn_of_directive token ⟨by simp, by simp, by simp⟩,
        Draft.readDirective_of_track_eq_none rfl undescribed]
      rfl
    | @unclosed p c token unclosed =>
      have reads : s.readPath p c = _ := State.readPath_eq_error.2 ⟨unclosed, rfl, rfl⟩
      rw [State.turn_of_include token, reads]
    | refused token reads refused =>
      rw [State.turn_of_include token, reads]
      simp only [refused]
    | unreadable token reads allowed absent =>
      rw [State.turn_of_include token, reads]
      simp only [allowed, absent]

/-! ## What is reported -/

/-- A token stands behind the comments in front of it. -/
theorem passes_of_token (token : Reading.nextToken s.current.cursor = .ok mark c) :
    s.current.cursor.Reaches c ∧ s.current.cursor.Passes mark.position := by
  have hconfined : Reading.Confined s.current.path s.current.cursor _ Reading.nextToken :=
    Reading.confined_nextToken
  have hread := hconfined _ (.refl s.current.cursor)
  rwa [token] at hread

theorem Faulty.about (h : Faulty s e) : e.About s.current.path s.current.cursor := by
  cases h with
  | token fails => exact Reading.confined_nextToken.error (.refl _) fails
  | directive token directs described fails =>
    obtain ⟨hc, hplace⟩ := passes_of_token token
    exact (Draft.confined_readDirective hplace described).error hc fails

/-- The source of a failure is the one that is being read. -/
theorem Failure.source_eq (h : Failure read o s d) : d.source = some s.current.path := by
  cases h with
  | faulty wrong =>
    rename_i e
    cases hsource : e.source with
    | none => simp [Diagnostic.inSource, hsource]
    | some path =>
      obtain rfl := wrong.about.named path hsource
      simp [Diagnostic.inSource, hsource]
  | missing | unclosed | refused | unreadable => rfl

/-- The place of a failure is one that the turn passes. -/
theorem Failure.passes (h : Failure read o s d) : s.current.cursor.Passes d.position := by
  cases h with
  | faulty wrong => exact wrong.about.place
  | missing token | unclosed token | refused token | unreadable token =>
    exact (passes_of_token token).2

/-! ## The classes of failures -/

/-- What a failure says of the state in which it shows, for each class that is not about the text of
a source alone: no turn fails for a reference. -/
def Failure.Shows (read : Provider) (o : Options) (s : State) (d : Diagnostic) :
    DiagnosticKind → Prop
  | .missingTrackContext => s.draft.track = none ∧
      ∃ p c, Reading.nextToken s.current.cursor = .ok ⟨.attributeMark, p⟩ c ∧
        d = ⟨.missingTrack, some s.current.path, p⟩
  | .unterminatedInclude =>
      ∃ p c, Reading.nextToken s.current.cursor = .ok ⟨.includeMark, p⟩ c ∧ '>' ∉ c.rest ∧
        d = ⟨.unterminatedInclude, some s.current.path, p⟩
  | .includeCycle => o.detectIncludeCycles ∧
      ∃ p c path c', Reading.nextToken s.current.cursor = .ok ⟨.includeMark, p⟩ c ∧
        s.readPath p c = .ok path c' ∧ (∃ q ∈ s.activePaths, q.same path) ∧
        d = ⟨.includeCycle (s.activePaths ++ [path]), some s.current.path, p⟩
  | .includeDepthExceeded => o.maxIncludeDepth < s.suspended.length + 1 ∧
      ∃ p c path c', Reading.nextToken s.current.cursor = .ok ⟨.includeMark, p⟩ c ∧
        s.readPath p c = .ok path c' ∧
        (o.detectIncludeCycles → ∀ q ∈ s.activePaths, q.same path = false) ∧
        d = ⟨.includeTooDeep path o.maxIncludeDepth, some s.current.path, p⟩
  | .sourceNotFound =>
      ∃ p c path c' fault, Reading.nextToken s.current.cursor = .ok ⟨.includeMark, p⟩ c ∧
        s.readPath p c = .ok path c' ∧ s.refusal? o path = none ∧ read path = .error fault ∧
        d = ⟨.unreadableSource path fault.message, some s.current.path, p⟩
  | .undefinedLabel => False
  | _ => True

theorem Failure.shows (h : Failure read o s d) : Shows read o s d d.kind := by
  cases h with
  | @faulty e wrong =>
    -- what shows in the text of a source alone is of none of the other classes
    have hfault := wrong.about.ofText
    show Shows read o s _ e.kind
    generalize e.kind = kind at hfault
    cases kind with
    | sourceNotFound | unterminatedInclude | undefinedLabel | missingTrackContext | includeCycle
      | includeDepthExceeded => cases hfault
    | _ => trivial
  | missing token undescribed => exact ⟨undescribed, _, _, token, rfl⟩
  | unclosed token unclosed => exact ⟨_, _, token, unclosed, rfl⟩
  | refused token reads refused =>
    rcases State.refusal?_eq_some_iff.1 refused with ⟨hdetect, hsame, rfl⟩ | ⟨hother, hdepth, rfl⟩
    · exact ⟨hdetect, _, _, _, _, token, reads, hsame, rfl⟩
    · exact ⟨hdepth, _, _, _, _, token, reads, hother, rfl⟩
  | unreadable token reads allowed absent =>
    exact ⟨_, _, _, _, _, token, reads, allowed, absent, rfl⟩

/-! ## Documents that fail -/

theorem conclude_eq_error {draft : Draft} :
    conclude draft = .error d ↔ draft.labels.check = .error d := by
  unfold conclude
  cases draft.labels.check with
  | error e => simp [bind, Except.bind]
  | ok => simp [bind, Except.bind, pure, Except.pure]

/-- A text fails where its reading does, or it is read to its end and fails for a reference. -/
theorem parseText_eq_error :
    parseText read o path text = .error d ↔
      (∃ s, Leads read o (.start path text) s ∧ Failure read o s d) ∨
      ∃ e, Leads read o (.start path text) e ∧ e.turn read o = .stop (.ok e.draft) ∧
        e.draft.labels.check = .error d := by
  have hstart : (State.start path text).suspended.length ≤ o.maxIncludeDepth := Nat.zero_le _
  have hsplit : parseText read o path text = .error d ↔
      run read o (.start path text) hstart = .error d ∨
      ∃ draft, run read o (.start path text) hstart = .ok draft ∧
        draft.labels.check = .error d := by
    unfold parseText
    cases run read o (.start path text) hstart with
    | error e => simp [bind, Except.bind]
    | ok draft => simp [bind, Except.bind, conclude_eq_error]
  rw [hsplit, run_eq_iff_leads]
  simp only [turn_eq_stop_error_iff, run_eq_iff_leads]
  constructor
  · rintro (hfails | ⟨draft, ⟨e, hlead, hends⟩, hcheck⟩)
    · exact .inl hfails
    · obtain ⟨_, _, _, _, rfl⟩ := turn_eq_stop_ok_iff.1 hends
      exact .inr ⟨e, hlead, hends, hcheck⟩
  · rintro (hfails | ⟨e, hlead, hends, hcheck⟩)
    · exact .inl hfails
    · exact .inr ⟨e.draft, ⟨e, hlead, hends⟩, hcheck⟩

theorem parse_eq_error {root : SourcePath} :
    parse read o root = .error d ↔
      (∃ fault, read root.normalize = .error fault ∧ d = unreadableRoot root.normalize fault) ∨
      ∃ text, read root.normalize = .ok text ∧
        parseText read o root.normalize text = .error d := by
  unfold parse
  cases read root.normalize with
  | error fault => simp [eq_comm]
  | ok text => simp

/-- What is not reported for a reference is reported by the turn that fails. -/
theorem exists_failure_of_parseText (h : parseText read o path text = .error d)
    (hlabel : d.kind ≠ .undefinedLabel) :
    ∃ s, Leads read o (.start path text) s ∧ Failure read o s d := by
  rcases parseText_eq_error.1 h with hfails | ⟨e, -, -, hcheck⟩
  · exact hfails
  · exact absurd (Registry.kind_of_check hcheck) hlabel

theorem exists_failure_of_parse {root : SourcePath} (h : parse read o root = .error d)
    (hlabel : d.kind ≠ .undefinedLabel) (hsource : d.kind ≠ .sourceNotFound) :
    ∃ text s, read root.normalize = .ok text ∧ Leads read o (.start root.normalize text) s ∧
      Failure read o s d := by
  rcases parse_eq_error.1 h with ⟨fault, -, rfl⟩ | ⟨text, hread, htext⟩
  · exact absurd rfl hsource
  · obtain ⟨s, hlead, hfails⟩ := exists_failure_of_parseText htext hlabel
    exact ⟨text, s, hread, hlead, hfails⟩

/-- What a document comes to if a turn stops so. -/
def Turn.outcome? : Turn → Option (Except Diagnostic Library)
  | .stop (.ok draft) => some (conclude draft)
  | .stop (.error d) => some (.error d)
  | .go _ => none

theorem parse_of_read {root : SourcePath} (hread : read root.normalize = .ok text) :
    parse read o root = parseText read o root.normalize text := by
  rw [parse, hread]

/-- A document that is read to its end comes to what the references make of it. -/
theorem parseText_of_leads (hlead : Leads read o (.start path text) s)
    (hends : s.turn read o = .stop (.ok s.draft)) :
    parseText read o path text = conclude s.draft := by
  have hstart : (State.start path text).suspended.length ≤ o.maxIncludeDepth := Nat.zero_le _
  have hrun : run read o (.start path text) hstart = .ok s.draft :=
    (run_eq_iff_leads hstart).2 ⟨s, hlead, hends⟩
  rw [parseText, hrun]
  rfl

/-- A bound on the number of turns makes the outcome of a root source a matter of evaluation. -/
theorem parse_of_outcome (n : Nat) {root : SourcePath} {outcome : Except Diagnostic Library}
    (hread : read root.normalize = .ok text)
    (h : ((State.start root.normalize text).turns read o n).outcome? = some outcome) :
    parse read o root = outcome := by
  have hstart : (State.start root.normalize text).suspended.length ≤ o.maxIncludeDepth :=
    Nat.zero_le _
  rw [parse_of_read hread]
  cases hturns : (State.start root.normalize text).turns read o n with
  | go t => simp [hturns, Turn.outcome?] at h
  | stop stopped =>
    rw [parseText, run_of_turns hstart hturns]
    rw [hturns] at h
    cases stopped with
    | error d => exact Option.some.inj h
    | ok draft => exact Option.some.inj h

/-- Two sources that include each other. -/
def ring : Shelf := ⟨[
  (⟨"ring"⟩, "/* outer */< parts/inner >"),
  (⟨"parts/inner"⟩, "<../ring>")]⟩

theorem parse_ring : parse ring.read ⟨2, true⟩ ⟨"ring"⟩ =
    .error ⟨.includeCycle [⟨"ring"⟩, ⟨"parts/inner"⟩, ⟨"ring"⟩], some ⟨"parts/inner"⟩, ⟨1, 1⟩⟩ := by
  have hread : ring.read (SourcePath.mk "ring").normalize =
      .ok "/* outer */< parts/inner >" := by decide +kernel
  exact parse_of_outcome 3 hread (by decide +kernel)

end Document

end Songsheet
