import Songsheet.Document.State
import Songsheet.Proofs.Cursor
import Songsheet.Proofs.Reading

/-!
# What readings complain of

What is wrong with a text shows at a place of the text. So a reading that fails reports a place that
it has passed, names no other source, and leaves some causes to others: that a source cannot be
included, that an attribute has no track, and that no sequence answers a reference.

* `DiagnosticKind.ofText` — the classes of causes that readings report.
* `Diagnostic.About` — a diagnostic of such a class that points into the text behind a cursor.
* `Reading.Confined` — a reading that reports only such diagnostics, with what is known of its
  value; it is closed under sequencing.
* `Reading.confined_nextToken`, `Draft.confined_readTrack`, `Draft.confined_readSequence`,
  `Draft.confined_readAttribute` — tokens and directives are read so, unless the directive is an
  attribute and no track is described.
-/

namespace Songsheet

/-- The classes of causes that show in the text of a source alone. -/
def DiagnosticKind.ofText : DiagnosticKind → Bool
  | .sourceNotFound | .unterminatedInclude | .undefinedLabel | .missingTrackContext
  | .includeCycle | .includeDepthExceeded => false
  | _ => true

/-- The diagnostic is about the text of a source behind a cursor: its cause shows in the text, it
points there, and it names no other source. -/
structure Diagnostic.About (e : Diagnostic) (source : SourcePath) (start : Cursor) : Prop where
  ofText : e.kind.ofText
  place : start.Passes e.position
  named : ∀ path ∈ e.source, path = source

namespace Reading

variable {α β : Type} {source : SourcePath} {start c : Cursor} {e : Diagnostic} {p : Position}
  {P : α → Prop} {Q : β → Prop} {token : Token}

/-- Wherever behind `start` the reading begins, it stays behind `start`, its value satisfies `P`,
and what it reports is about the text there. -/
def Confined (source : SourcePath) (start : Cursor) (P : α → Prop) (r : Reading α) : Prop :=
  ∀ c, start.Reaches c → match r c with
    | .ok a d => start.Reaches d ∧ P a
    | .error e _ => e.About source start

theorem Confined.error {r : Reading α} {d : Cursor} (hr : Confined source start P r)
    (hc : start.Reaches c) (h : r c = .error e d) : e.About source start := by
  have hr := hr c hc
  rw [h] at hr
  exact hr

theorem confined_pure {a : α} (ha : P a) : Confined source start P (pure a) :=
  fun _ hc => ⟨hc, ha⟩

theorem confined_bind {r : Reading α} {f : α → Reading β} (hr : Confined source start P r)
    (hf : ∀ a, P a → Confined source start Q (f a)) : Confined source start Q (r >>= f) := by
  intro c hc
  have hr := hr c hc
  rw [bind_apply]
  cases h : r c with
  | ok a d =>
    rw [h] at hr
    exact hf a hr.2 d hr.1
  | error e d =>
    rw [h] at hr
    exact hr

theorem about_reportedAt {cause : Cause} (h : cause.kind.ofText) (hp : start.Passes p) :
    (cause.reportedAt p).About source start :=
  ⟨h, hp, by simp [Cause.reportedAt]⟩

/-- Failing with a cause of the text is confined to places that are passed. -/
theorem confined_fail {cause : Cause} (h : cause.kind.ofText) (hp : start.Passes p) :
    Confined source start P (fail cause p) :=
  fun _ _ => about_reportedAt h hp

theorem confined_position : Confined source start start.Passes position :=
  fun _ hc => ⟨hc, hc.passes⟩

/-- A reading that never fails is confined. -/
theorem Forward.confined {r : Reading α} (hr : r.Forward) (hok : ∀ c, ∃ a d, r c = .ok a d) :
    Confined source start (fun _ => True) r := by
  intro c hc
  obtain ⟨a, d, h⟩ := hok c
  rw [h]
  exact ⟨hc.trans (hr.ok h), trivial⟩

theorem confined_peek? : Confined source start (fun _ => True) peek? :=
  forward_peek?.confined fun _ => ⟨_, _, rfl⟩

theorem confined_run (within : Char → Bool) : Confined source start (fun _ => True) (run within) :=
  (forward_run within).confined fun _ => ⟨_, _, rfl⟩

theorem confined_drop : Confined source start (fun _ => True) drop :=
  forward_drop.confined fun _ => ⟨_, _, rfl⟩

/-! ## Tokens -/

/-- A comment that is never closed is reported where it opens. -/
theorem confined_skip (blank : Char → Bool) : Confined source start (fun _ => True) (skip blank) := by
  intro c hc
  have hwhole := Gap.whole_gapAt blank c.rest
  unfold skip
  cases hgap : gapAt blank c.rest with
  | upTo skipped rest =>
    rw [hgap] at hwhole
    exact ⟨hc.trans (Cursor.reaches_past hwhole.symm), trivial⟩
  | unclosed before comment =>
    rw [hgap] at hwhole
    have hopens : start.Passes (c.position.after before) :=
      (hc.trans (Cursor.reaches_past hwhole.symm)).passes
    exact about_reportedAt rfl hopens

/-- A quoted text that does not open or is never closed is reported where it should begin. -/
theorem confined_quotedText : Confined source start (fun _ => True) quotedText := by
  intro c hc
  cases h : quotedText c with
  | ok value d => exact ⟨hc.trans (forward_quotedText.ok h), trivial⟩
  | error e d =>
    unfold quotedText at h
    split at h
    · split at h
      · cases h
      · obtain ⟨rfl, -⟩ := EStateM.Result.error.inj h
        exact about_reportedAt rfl hc.passes
    · obtain ⟨rfl, -⟩ := EStateM.Result.error.inj h
      exact about_reportedAt rfl hc.passes

theorem confined_key : Confined source start (fun _ => True) key := by
  refine forward_key.confined fun c => ?_
  unfold key
  split <;> exact ⟨_, _, rfl⟩

theorem confined_kindFrom (first : Char) :
    Confined source start (fun _ => True) (kindFrom first) := by
  unfold kindFrom
  split
  · exact confined_bind (confined_skip _) fun _ _ => confined_pure trivial
  split
  · exact confined_bind (confined_run _) fun _ _ => confined_pure trivial
  split
  · exact confined_bind confined_quotedText fun _ _ => confined_pure trivial
  split
  · exact confined_bind confined_drop fun _ _ => confined_pure trivial
  split
  · exact confined_bind confined_drop fun _ _ => confined_pure trivial
  · exact confined_bind confined_key fun _ _ => confined_pure trivial

theorem confined_nextToken :
    Confined source start (fun token => start.Passes token.position) nextToken := by
  refine confined_bind (confined_skip _) fun _ _ => confined_bind confined_position fun p hp =>
    confined_bind confined_peek? fun next _ => ?_
  cases next with
  | none => exact confined_pure hp
  | some first => exact confined_bind (confined_kindFrom first) fun _ _ => confined_pure hp

/-! ## Notes -/

theorem confined_lengthPart (part : LengthPart) :
    Confined source start (fun _ => True) (lengthPart part) := by
  refine confined_bind confined_nextToken fun token htoken => ?_
  split
  · split
    · exact confined_pure trivial
    · exact confined_fail rfl htoken
  · exact confined_fail rfl htoken

theorem confined_mark (expected : TokenKind) :
    Confined source start (fun _ => True) (mark expected) := by
  refine confined_bind confined_nextToken fun token htoken => ?_
  split
  · exact confined_pure trivial
  · exact confined_fail rfl htoken

theorem confined_durationClause (hp : start.Passes p) :
    Confined source start (fun _ => True) (durationClause p) := by
  refine confined_bind (confined_lengthPart _) fun num _ => confined_bind (confined_mark _)
    fun _ _ => confined_bind (confined_lengthPart _) fun den _ => confined_bind (confined_mark _)
      fun _ _ => ?_
  split
  · exact confined_pure trivial
  · exact confined_fail rfl hp

theorem confined_octaveAt (htoken : start.Passes token.position) :
    Confined source start (fun x => start.Passes x.2.position) (octaveAt token) := by
  unfold octaveAt
  split
  · split
    · exact confined_bind confined_nextToken fun _ hnext => confined_pure hnext
    · exact confined_fail rfl htoken
  · exact confined_pure htoken

theorem confined_durationAt (htoken : start.Passes token.position) :
    Confined source start (fun x => start.Passes x.2.position) (durationAt token) := by
  unfold durationAt
  split
  · exact confined_bind (confined_durationClause htoken) fun _ _ =>
      confined_bind confined_nextToken fun _ hnext => confined_pure hnext
  · exact confined_pure htoken

theorem confined_noteEnd (htoken : start.Passes token.position) :
    Confined source start (fun _ => True) (noteEnd token) := by
  unfold noteEnd
  split
  · exact confined_pure trivial
  · exact confined_pure trivial
  · exact confined_fail rfl htoken

theorem confined_noteTail (pitch : Pitch) :
    Confined source start (fun _ => True) (noteTail pitch) :=
  confined_bind confined_nextToken fun _ hfirst =>
    confined_bind (confined_octaveAt hfirst) fun _ hsecond =>
      confined_bind (confined_durationAt hsecond) fun _ hlast =>
        confined_bind (confined_noteEnd hlast) fun _ _ => confined_pure trivial

theorem confined_noteFrom (htoken : start.Passes token.position) :
    Confined source start (fun _ => True) (noteFrom token) := by
  unfold noteFrom
  split
  · exact confined_pure trivial
  · exact confined_bind (confined_noteTail _) fun _ _ => confined_pure trivial
  · exact confined_fail rfl htoken

theorem confined_writtenNote : Confined source start (fun _ => True) writtenNote :=
  confined_bind (confined_skip _) fun _ _ =>
    confined_bind confined_nextToken fun _ htoken => confined_noteFrom htoken

theorem confined_notes : Confined source start (fun _ => True) notes := by
  intro c hc
  fun_induction notes c with
  | case1 c e d hg => exact (confined_skip _).error hc hg
  | case2 c _ d hg _ => exact ⟨hc.trans (forward_skipGap.ok hg), trivial⟩
  | case3 c _ d hg first hp hk e d' hn =>
    exact confined_writtenNote.error (hc.trans (forward_skipGap.ok hg)) hn
  | case4 c _ d hg first hp hk d' hn =>
    exact ⟨(hc.trans (forward_skipGap.ok hg)).trans (forward_writtenNote.ok hn), trivial⟩
  | case5 c _ d hg first hp hk w d' hn e d'' hns ih =>
    have ih := ih ((hc.trans (forward_skipGap.ok hg)).trans (forward_writtenNote.ok hn))
    rw [hns] at ih
    exact ih
  | case6 c _ d hg first hp hk w d' hn ws d'' hns ih =>
    have ih := ih ((hc.trans (forward_skipGap.ok hg)).trans (forward_writtenNote.ok hn))
    rw [hns] at ih
    exact ⟨ih.1, trivial⟩
  | case7 c _ d hg first hp hk => exact ⟨hc.trans (forward_skipGap.ok hg), trivial⟩

/-! ## Directives -/

theorem confined_definedLabel : Confined source start (fun _ => True) definedLabel := by
  refine confined_bind confined_position fun p hp => confined_bind (confined_run _)
    fun _ _ => ?_
  split
  · exact confined_pure trivial
  · exact confined_fail rfl hp

theorem confined_reference (site : SourcePath) :
    Confined source start (fun _ => True) (reference site) := by
  refine confined_bind confined_position fun p hp => confined_bind (confined_run _)
    fun _ _ => ?_
  split
  · exact confined_bind (confined_skip _) fun _ _ => confined_pure trivial
  · exact confined_fail rfl hp

theorem confined_references (site : SourcePath) :
    Confined source start (fun _ => True) (references site) := by
  intro c hc
  fun_induction references site c with
  | case1 c e d hr => exact (confined_reference site).error hc hr
  | case2 c r d hr hm e d' hd ih =>
    have ih := ih (hc.trans ((forward_reference site).ok hr))
    rw [hd] at ih
    exact ih
  | case3 c r d hr hm rs d' hd ih =>
    have ih := ih (hc.trans ((forward_reference site).ok hr))
    rw [hd] at ih
    exact ⟨ih.1, trivial⟩
  | case4 c r d hr hm => exact ⟨hc.trans ((forward_reference site).ok hr), trivial⟩

theorem confined_tempo : Confined source start (fun _ => True) tempo := by
  refine confined_bind confined_position fun p hp => confined_bind (confined_run _)
    fun _ _ => ?_
  split
  · exact confined_pure trivial
  · exact confined_fail rfl hp

theorem confined_attributeValue (site : SourcePath) (kind : AttributeName) :
    Confined source start (fun _ => True) (attributeValue site kind) := by
  cases kind with
  | name => exact confined_bind confined_quotedText fun _ _ => confined_pure trivial
  | tempo => exact confined_bind confined_tempo fun _ _ => confined_pure trivial
  | channel => exact confined_bind (confined_references site) fun _ _ => confined_pure trivial

theorem confined_trackAttribute (site : SourcePath) :
    Confined source start (fun _ => True) (trackAttribute site) := by
  refine confined_bind confined_position fun p hp => confined_bind (confined_run _) fun _ _ =>
    confined_bind (confined_skip _) fun _ _ => ?_
  split
  · exact confined_attributeValue _ _
  · exact confined_fail rfl hp

end Reading

namespace Draft

variable {draft : Draft} {source : SourcePath} {start : Cursor}

/-- A label that is defined already is reported in the source, at its own place. -/
theorem confined_readLabel (kind : LabelKind) :
    Reading.Confined source start (fun _ => True) (draft.readLabel source kind) := by
  refine Reading.confined_bind Reading.confined_position fun p hp =>
    Reading.confined_bind Reading.confined_definedLabel fun label _ =>
      Reading.confined_bind (P := fun _ => True) ?_ fun _ _ => Reading.confined_pure trivial
  intro c hc
  unfold Registry.define
  cases draft.labels.definition? label with
  | none => exact ⟨hc, trivial⟩
  | some first => exact ⟨rfl, hp, by simp [Cause.reportedIn]⟩

theorem confined_readTrack :
    Reading.Confined source start (fun _ => True) (draft.readTrack source) :=
  Reading.confined_bind (confined_readLabel _) fun _ _ => Reading.confined_pure trivial

theorem confined_readSequence :
    Reading.Confined source start (fun _ => True) (draft.readSequence source) :=
  Reading.confined_bind (confined_readLabel _) fun _ _ =>
    Reading.confined_bind Reading.confined_notes fun _ _ => Reading.confined_pure trivial

theorem confined_readAttribute {mark : Position} {i : Nat} (h : draft.track = some i) :
    Reading.Confined source start (fun _ => True) (draft.readAttribute source mark) := by
  rw [readAttribute, h]
  exact Reading.confined_bind (Reading.confined_trackAttribute _) fun _ _ =>
    Reading.confined_pure trivial

end Draft

end Songsheet
