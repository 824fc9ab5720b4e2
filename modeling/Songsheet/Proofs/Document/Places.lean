import Songsheet.Proofs.Document.Citations
import Songsheet.Proofs.Document.Stack

/-!
# Where diagnostics point

A diagnostic names a source and a place in it. Both can be trusted: the source has been entered, and
the place is that of a character of its text or of its end. All but the reports on references are
about the source that is being read when the reading fails; and what is wrong with an include is
reported at its mark.

* `Opened` — a source that was entered on the way, with its text; each source on the stack was
  opened, and its cursor stands in its text (`Leads.opened`).
* `PointsInto` — what a diagnostic that is reported behind a state says is true of the reading.
* `errors_point_into_sources` — all diagnostics do.
-/

namespace Songsheet

/-- The classes of causes that are about an include. -/
def DiagnosticKind.ofInclude : DiagnosticKind → Bool
  | .sourceNotFound | .unterminatedInclude | .includeCycle | .includeDepthExceeded => true
  | _ => false

namespace Document

variable {read : Provider} {o : Options} {s t u : State} {path : SourcePath} {text : String}
  {d : Diagnostic} {source : OpenSource} {found : List Reference}

/-! ## Sources that were entered -/

/-- On the way from `s` to `t`, the source `path` was entered and had the text `text`; the way itself
may begin with it. -/
def Opened (read : Provider) (o : Options) (s t : State) (path : SourcePath) (text : String) : Prop :=
  ∃ e, Leads read o s e ∧ Leads read o e t ∧ e.current = ⟨path, .ofText text⟩ ∧
    (e = s ∨ ∃ u, Leads read o s u ∧ Enters read o u e)

/-- Each source on the stack was opened, and its cursor stands in its text. -/
theorem Leads.opened (h : Leads read o (.start path text) t) (hsource : source ∈ t.stack) :
    ∃ text', Opened read o (.start path text) t source.path text' ∧
      (Cursor.ofText text').Reaches source.cursor := by
  obtain ⟨front, back, ht⟩ := List.append_of_mem hsource
  obtain ⟨e, text', hopened⟩ := h.exists_opened ht
  refine ⟨text', ⟨e, hopened.reached.leads, hopened.since.leads, hopened.current, ?_⟩,
    hopened.cursor⟩
  rcases hopened.entered with rfl | ⟨u, hreached, henters⟩
  · exact .inl rfl
  · exact .inr ⟨u, hreached.leads, henters⟩

/-! ## Diagnostics and their places -/

/-- A diagnostic that is reported on the way from `s` points to a place in a source that was opened.
Unless it is about a reference, this is the source that is being read in the state that fails; and if
it is about an include, its place is that of the mark at which this state stands. -/
def PointsInto (read : Provider) (o : Options) (s : State) (d : Diagnostic) : Prop :=
  ∃ t path text, Leads read o s t ∧ Opened read o s t path text ∧ d.source = some path ∧
    IsPlaceIn text d.position ∧
    (d.kind ≠ .undefinedLabel → t.turn read o = .stop (.error d) ∧ t.current.path = path ∧
      (Cursor.ofText text).Reaches t.current.cursor) ∧
    (d.kind.ofInclude → IsPlaceOf '<' text d.position ∧
      ∃ c, Reading.nextToken t.current.cursor = .ok ⟨.includeMark, d.position⟩ c)

/-- What a failing turn reports about an include stands at the mark of one. -/
theorem Failure.token_of_include (h : Failure read o t d) (hkind : d.kind.ofInclude) :
    ∃ c, Reading.nextToken t.current.cursor = .ok ⟨.includeMark, d.position⟩ c := by
  have hshows := h.shows
  cases hd : d.kind with
  | unterminatedInclude =>
    rw [hd] at hshows
    obtain ⟨p, c, token, -, rfl⟩ := hshows
    exact ⟨c, token⟩
  | includeCycle =>
    rw [hd] at hshows
    obtain ⟨-, p, c, path, c', token, -, -, rfl⟩ := hshows
    exact ⟨c, token⟩
  | includeDepthExceeded =>
    rw [hd] at hshows
    obtain ⟨-, p, c, path, c', token, -, -, rfl⟩ := hshows
    exact ⟨c, token⟩
  | sourceNotFound =>
    rw [hd] at hshows
    obtain ⟨p, c, path, c', fault, token, -, -, -, rfl⟩ := hshows
    exact ⟨c, token⟩
  | _ =>
    rw [hd] at hkind
    cases hkind

theorem Failure.pointsInto (h : Failure read o t d) (hlead : Leads read o (.start path text) t) :
    PointsInto read o (.start path text) d := by
  obtain ⟨text', hopened, hreaches⟩ := hlead.opened (List.mem_cons_self .. : t.current ∈ t.stack)
  have hplace : (Cursor.ofText text').Passes d.position := hreaches.trans_passes h.passes
  refine ⟨t, t.current.path, text', hlead, hopened, h.source_eq, Cursor.passes_ofText.1 hplace,
    fun _ => ⟨turn_eq_stop_error_iff.2 h, rfl, hreaches⟩, fun hkind => ?_⟩
  obtain ⟨c, token⟩ := h.token_of_include hkind
  obtain ⟨comments, e, -, he, hposition, hrest⟩ := Reading.exists_mark (x := '<') rfl token
  have hmark := Cursor.isPlaceOf_of_reaches (hreaches.trans he) hrest
  rw [hposition] at hmark
  exact ⟨hmark, c, token⟩

/-- The site of a reference that is cited is one that some turn on the way passes in the source that
is then being read. -/
theorem Citations.exists_of_mem (h : Citations read o s found t) {r : Reference} (hr : r ∈ found) :
    ∃ u, Leads read o s u ∧ Leads read o u t ∧ r.site.source = u.current.path ∧
      u.current.cursor.Passes r.site.position := by
  induction h with
  | start => simp at hr
  | silent before goes cites ih =>
    obtain ⟨u, hu, hlead, hsite⟩ := ih hr
    exact ⟨u, hu, hlead.tail goes, hsite⟩
  | cites before goes cites ih =>
    rcases List.mem_append.1 hr with hr | hr
    · obtain ⟨u, hu, hlead, hsite⟩ := ih hr
      exact ⟨u, hu, hlead.tail goes, hsite⟩
    · obtain ⟨-, _, c, d, -, -, hc, hfound, -⟩ := cites
      obtain ⟨e, back, he, hsite, -⟩ := hfound.exists_of_mem hr
      refine ⟨_, before.leads, .single goes, by rw [hsite], ?_⟩
      rw [hsite]
      exact (hc.trans he).passes

/-- A report on a reference points to the reference. -/
theorem pointsInto_of_check {items : List Item}
    (hfound : Citations read o (.start path text) found t) (h : Unanswered items found d) :
    PointsInto read o (.start path text) d := by
  have hkind := h.kind_eq
  cases h with
  | @intro front back r split answered unanswered =>
    -- the source of the reference was being read when it was cited
    obtain ⟨u, hu, hlead, hsource, hpasses⟩ := hfound.exists_of_mem (r := r) (by simp [split])
    obtain ⟨text', hopened, hreaches⟩ := hu.opened (List.mem_cons_self .. : u.current ∈ u.stack)
    refine ⟨u, u.current.path, text', hu, hopened, congrArg some hsource,
      Cursor.passes_ofText.1 (hreaches.trans_passes hpasses), fun hother => absurd hkind hother,
      fun hinclude => ?_⟩
    rw [hkind] at hinclude
    cases hinclude

theorem pointsInto_of_parseText (h : parseText read o path text = .error d) :
    PointsInto read o (.start path text) d := by
  rcases parseText_eq_error.1 h with ⟨s, hlead, hfails⟩ | ⟨e, hlead, hends, hcheck⟩
  · exact hfails.pointsInto hlead
  · obtain ⟨items, htrail⟩ := exists_trail hlead
    obtain ⟨found, hfound⟩ := exists_citations hlead
    exact pointsInto_of_check hfound ((check_eq_error_iff htrail hfound).1 hcheck)

/-- **Diagnostics point into their sources.** Where a document fails, either its root source cannot
be read, and then this is reported at line 0 and column 0 of that source; or the diagnostic names a
source that the reading has entered, and its line and column are those of a character of the text of
this source or of its end. Unless it is about a reference, this source is the one that is being read
when the reading fails; and what is wrong with an include is reported at the `<` of the include. The
same is true of a text that is given without a provider, as far as sources are entered. -/
theorem errors_point_into_sources (read : Provider) (o : Options) :
    (∀ root d, parse read o root = .error d →
      (∃ fault, read root.normalize = .error fault ∧ d.kind = .sourceNotFound ∧
        d.source = some root.normalize ∧ d.position = ⟨0, 0⟩) ∨
      ∃ text, read root.normalize = .ok text ∧
        PointsInto read o (.start root.normalize text) d) ∧
    ∀ path text d, parseText read o path text = .error d →
      PointsInto read o (.start path text) d := by
  constructor
  · intro root d h
    rcases parse_eq_error.1 h with ⟨fault, hread, rfl⟩ | ⟨text, hread, htext⟩
    · exact .inl ⟨fault, hread, rfl, rfl, rfl⟩
    · exact .inr ⟨text, hread, pointsInto_of_parseText htext⟩
  · intro path text d h
    exact pointsInto_of_parseText h

/-- A song that includes a track, whose channel plays a sequence that nobody defines. -/
def unheard : Shelf := ⟨[
  (⟨"song"⟩, "<parts>"),
  (⟨"parts"⟩, "@lead: %channel riff")]⟩

theorem read_unheard : unheard.read (SourcePath.mk "song").normalize = .ok "<parts>" := by
  decide +kernel

theorem parse_unheard : parse unheard.read ⟨2, true⟩ ⟨"song"⟩ =
    .error ⟨.undefinedLabel "riff", some ⟨"parts"⟩, ⟨1, 17⟩⟩ :=
  parse_of_outcome 10 read_unheard (by decide +kernel)

theorem errors_point_into_ring :
    parse ring.read ⟨2, true⟩ ⟨"ring"⟩ =
        .error ⟨.includeCycle [⟨"ring"⟩, ⟨"parts/inner"⟩, ⟨"ring"⟩], some ⟨"parts/inner"⟩, ⟨1, 1⟩⟩ ∧
      (∃ t text, Opened ring.read ⟨2, true⟩ (.start ⟨"ring"⟩ "/* outer */< parts/inner >") t
          ⟨"parts/inner"⟩ text ∧
        t.current.path = ⟨"parts/inner"⟩ ∧ IsPlaceOf '<' text ⟨1, 1⟩ ∧
        ∃ c, Reading.nextToken t.current.cursor = .ok ⟨.includeMark, ⟨1, 1⟩⟩ c) ∧
      parseText unheard.read ⟨2, true⟩ ⟨"song"⟩ "<parts>" =
        .error ⟨.undefinedLabel "riff", some ⟨"parts"⟩, ⟨1, 17⟩⟩ ∧
      ∃ t text, Opened unheard.read ⟨2, true⟩ (.start ⟨"song"⟩ "<parts>") t ⟨"parts"⟩ text ∧
        IsPlaceIn text ⟨1, 17⟩ := by
  have hring : (SourcePath.mk "ring").normalize = ⟨"ring"⟩ := by decide +kernel
  have hsong : (SourcePath.mk "song").normalize = ⟨"song"⟩ := by decide +kernel
  have hunheard := (parse_of_read read_unheard).symm.trans parse_unheard
  rw [hsong] at hunheard
  refine ⟨parse_ring, ?_, hunheard, ?_⟩
  · obtain ⟨points, -⟩ := errors_point_into_sources ring.read ⟨2, true⟩
    rcases points _ _ parse_ring with
      ⟨fault, -, hkind, -⟩ | ⟨root, hread, t, path, text, -, hopened, hsource, -, hcurrent, hmark⟩
    · cases hkind
    have hroot : ring.read ⟨"ring"⟩ = .ok "/* outer */< parts/inner >" := by decide +kernel
    rw [hring] at hread hopened
    obtain rfl := Except.ok.inj (hread.symm.trans hroot)
    obtain rfl := Option.some.inj hsource
    obtain ⟨-, hpath, -⟩ := hcurrent (by simp [Diagnostic.kind, Cause.kind])
    obtain ⟨hplace, c, token⟩ := hmark rfl
    exact ⟨t, text, hopened, hpath, hplace, c, token⟩
  · obtain ⟨-, given⟩ := errors_point_into_sources unheard.read ⟨2, true⟩
    obtain ⟨t, path, text, -, hopened, hsource, hplace, -⟩ := given _ _ _ hunheard
    obtain rfl := Option.some.inj hsource
    exact ⟨t, text, hopened, hplace⟩

end Document

end Songsheet
