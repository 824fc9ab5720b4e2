import Songsheet.Proofs.Note.Grammar
import Songsheet.Proofs.Note.LetterCase

/-!
# The loop over the notes of a sequence

The notes of a sequence are read in a loop: behind a gap it looks at one character, and if that is a
key character it asks for a note. The reader of a note looks for itself. It skips a gap, reads a
token and has an answer for every kind of it, the end of the text among them; where it met that end,
the octave and the duration that later notes inherit would be lost. It never does.

* `AsksAt`, `StopsAt`, `Rounds` — where the loop asks for a note, where it stops, and its rounds.
* `AsksAt.takesKey` — wherever the loop asks for a note, the reader takes a key.
* `rounds_of_notes`, `rounds_of_notes_error`, `notes_of_rounds` — a run of notes is read by such
  rounds, also if it fails.
* `Expects` — a reading that does not meet a token it has no use for.
* `Draft.readSequence_by_rounds` — what the loop asks for, does and leaves, for every sequence.
-/

namespace Songsheet

namespace Reading

variable {α β : Type} {previous n : Note} {ns : List Note} {ws : List WrittenNote}
  {c d e f g k : Cursor} {x : Diagnostic}

/-! ## Rounds -/

/-- Behind the gap at `c` a key character is next, at `g`: there the loop asks for a note. -/
structure AsksAt (c g : Cursor) : Prop where
  gap : skipGap c = .ok () g
  begins : g.peek?.any isKeyChar

/-- Behind the gap at `c` no key character is next, at `d`: there the loop stops. -/
structure StopsAt (c d : Cursor) : Prop where
  gap : skipGap c = .ok () d
  ends : d.peek?.any isKeyChar = false

/-- Rounds of the loop, behind a given note: each asks for one note, behind the note before. -/
inductive Rounds : Note → Cursor → List Note → Cursor → Prop
  | nothing {previous : Note} {c : Cursor} : Rounds previous c [] c
  | round {previous n : Note} {c g d k : Cursor} {ns : List Note} (asks : AsksAt c g)
      (reads : note previous g = .ok n d) (others : Rounds n d ns k) :
      Rounds previous c (n :: ns) k

/-! ## What a note is asked for -/

/-- From `g` up to `e` the reader of a note takes a key: its own gap is empty, its token is the
whole key, and so it goes on with what may follow a key. If a note is read, it has been written; it
is not the empty note that stands for the end of the text. -/
structure TakesKey (previous : Note) (g : Cursor) (key : String) (e : Cursor) : Prop where
  isKey : IsKey key
  gap : skipGap g = .ok () g
  token : nextToken g = .ok ⟨.key key, g.position⟩ e
  taken : g.rest = key.toList ++ e.rest
  whole : ∀ x, e.rest.head? = some x → isKeyChar x = false
  goesOn : note previous g =
    (do return (← noteTail ((Pitch.ofSpelling? key).getD .rest)).sounding previous) e
  written : ∀ n d, note previous g = .ok n d →
    ∃ w, writtenNote g = .ok (some w) d ∧ n = w.sounding previous

/-- Wherever the loop asks for a note, the reader takes a key. -/
theorem AsksAt.takesKey (h : AsksAt c g) (previous : Note) :
    ∃ key e, TakesKey previous g key e := by
  obtain ⟨first, hp, hfirst⟩ := (Option.any_eq_true _ _).1 h.begins
  obtain ⟨hrun, hwhole, htaken, -⟩ := run_eq_ok.1 (rfl : run isKeyChar g = .ok _ _)
  have htoken := nextToken_of_isKeyChars h.begins rfl
  have hkey : IsKey (String.ofList (g.rest.takeWhile isKeyChar)) := by
    refine ⟨?_, hrun⟩
    obtain ⟨others, hrest⟩ := List.head?_eq_some_iff.1 hp
    simp [hrest, hfirst]
  refine ⟨_, _, hkey, skipGap_of_isKeyChar hp hfirst, htoken, htaken, hwhole, ?_, fun n d hn => ?_⟩
  · rw [note, bind_apply, writtenNote_of_key h.begins htoken, bind_apply, bind_apply]
    cases noteTail _ _ <;> rfl
  · rcases note_eq_ok.1 hn with ⟨hnone, -⟩ | hw
    · exact absurd hnone (writtenNote_ne_none hp hfirst)
    · exact hw

/-! ## Runs of notes -/

/-- What rounds have read is the beginning of a run of notes, and behind it the run goes on. -/
theorem notes_of_rounds (h : Rounds previous c ns k) :
    ∃ ws, ns = sounding previous ws ∧
      notes c = (notes >>= fun others => pure (ws ++ others) : Reading (List WrittenNote)) k := by
  induction h with
  | @nothing previous c =>
    refine ⟨[], rfl, ?_⟩
    rw [bind_apply]
    cases notes c <;> rfl
  | @round previous n c g d k ns asks reads others ih =>
    obtain ⟨key, e, htakes⟩ := asks.takesKey previous
    obtain ⟨w, hw, rfl⟩ := htakes.written n d reads
    obtain ⟨ws, rfl, hws⟩ := ih
    refine ⟨w :: ws, rfl, ?_⟩
    rw [notes_of_written asks.gap asks.begins hw, bind_apply, hws, bind_apply, bind_apply]
    cases notes k <;> rfl

/-- A run of notes that is read to its end is read by rounds, one for each note. -/
theorem rounds_of_notes (previous : Note) (h : notes c = .ok ws d) :
    ∃ k, Rounds previous c (sounding previous ws) k ∧ StopsAt k d := by
  fun_induction notes c generalizing ws previous with
  | case1 c e d₀ hg => cases h
  | case2 c u d₀ hg hp =>
    obtain ⟨rfl, rfl⟩ := EStateM.Result.ok.inj h
    exact ⟨c, .nothing, hg, by rw [hp]; rfl⟩
  | case3 c u d₀ hg first hp hk e d₁ hn => cases h
  | case4 c u d₀ hg first hp hk d₁ hn => exact absurd hn (writtenNote_ne_none hp hk)
  | case5 c u d₀ hg first hp hk w d₁ hn e d₂ hns ih => cases h
  | case6 c u d₀ hg first hp hk w d₁ hn others d₂ hns ih =>
    obtain ⟨rfl, rfl⟩ := EStateM.Result.ok.inj h
    obtain ⟨k, hrounds, hstop⟩ := ih (w.sounding previous) hns
    exact ⟨k, .round ⟨hg, by rw [hp]; exact hk⟩ (note_eq_ok.2 (.inr ⟨w, hn, rfl⟩)) hrounds, hstop⟩
  | case7 c u d₀ hg first hp hk =>
    obtain ⟨rfl, rfl⟩ := EStateM.Result.ok.inj h
    exact ⟨c, .nothing, hg, by rw [hp]; simpa using hk⟩

/-- A run of notes that fails is read by rounds up to where a gap or a note fails. -/
theorem rounds_of_notes_error (previous : Note) (h : notes c = .error x d) :
    ∃ ns k, Rounds previous c ns k ∧
      (skipGap k = .error x d ∨ ∃ g, AsksAt k g ∧ note (ns.getLastD previous) g = .error x d) := by
  fun_induction notes c generalizing previous with
  | case1 c e d₀ hg =>
    obtain ⟨rfl, rfl⟩ := EStateM.Result.error.inj h
    exact ⟨[], c, .nothing, .inl hg⟩
  | case2 c u d₀ hg hp => cases h
  | case3 c u d₀ hg first hp hk e d₁ hn =>
    obtain ⟨rfl, rfl⟩ := EStateM.Result.error.inj h
    exact ⟨[], c, .nothing, .inr ⟨d₀, ⟨hg, by rw [hp]; exact hk⟩, bind_eq_error.2 (.inl hn)⟩⟩
  | case4 c u d₀ hg first hp hk d₁ hn => cases h
  | case5 c u d₀ hg first hp hk w d₁ hn e d₂ hns ih =>
    obtain ⟨rfl, rfl⟩ := EStateM.Result.error.inj h
    obtain ⟨ns, k, hrounds, hfails⟩ := ih (w.sounding previous) hns
    refine ⟨w.sounding previous :: ns, k,
      .round ⟨hg, by rw [hp]; exact hk⟩ (note_eq_ok.2 (.inr ⟨w, hn, rfl⟩)) hrounds, ?_⟩
    rw [List.getLastD_cons]
    exact hfails
  | case6 c u d₀ hg first hp hk w d₁ hn others d₂ hns ih => cases h
  | case7 c u d₀ hg first hp hk => cases h

theorem notes_of_stopsAt (h : StopsAt c d) : notes c = .ok [] d := by
  refine notes_of_stop h.gap fun y hy => ?_
  have hends := h.ends
  rw [hy] at hends
  exact hends

theorem notes_of_gap_error (h : skipGap c = .error x d) : notes c = .error x d := by
  rw [notes_eq, bind_apply, h]

theorem notes_of_note_error (h : AsksAt c g) (hn : note previous g = .error x d) :
    notes c = .error x d := by
  have hw : writtenNote g = .error x d := by
    rcases bind_eq_error.1 hn with hw | ⟨w, e, -, hpure⟩
    · exact hw
    · cases w <;> cases hpure
  rw [notes_eq, bind_apply, h.gap]
  refine (notesFrom_of_isKeyChar h.begins).trans ?_
  rw [bind_apply, hw]

/-! ## Tokens that are expected -/

/-- A reading that never fails with a token that it has no use for. -/
def Expects (r : Reading α) : Prop :=
  ∀ c x d, r c = .error x d → x.kind ≠ .unexpectedToken

theorem expects_pure (a : α) : Expects (pure a) := by
  intro c x d h
  cases h

theorem expects_fail {cause : Cause} {p : Position} (h : cause.kind ≠ .unexpectedToken) :
    Expects (fail cause p : Reading α) := by
  intro c x d hfail
  obtain ⟨rfl, -⟩ := EStateM.Result.error.inj hfail
  exact h

theorem expects_bind {r : Reading α} {f : α → Reading β} (hr : Expects r)
    (hf : ∀ a, Expects (f a)) : Expects (r >>= f) := by
  intro c x d h
  rcases bind_eq_error.1 h with h | ⟨a, e, -, h⟩
  · exact hr c x d h
  · exact hf a e x d h

theorem expects_skip (blank : Char → Bool) : Expects (skip blank) := by
  intro c x d h
  obtain ⟨before, comment, -, rfl, -⟩ := skip_eq_error.1 h
  exact DiagnosticKind.noConfusion

/-- A token may fail to end, but it may be any. -/
theorem expects_nextToken : Expects nextToken := by
  intro c x d h
  rcases nextToken_eq_error.1 h with hcomment | ⟨e, first, -, hp, hkind⟩
  · exact expects_skip _ c x d hcomment
  · rcases kindFrom_eq_error.1 hkind with ⟨-, hgap⟩ | ⟨rfl, hquote⟩
    · exact expects_skip _ e x d hgap
    · obtain ⟨form, hform⟩ := List.head?_eq_some_iff.1 hp
      obtain ⟨-, rfl, -⟩ := (quotedText_eq_error hform).1 hquote
      exact DiagnosticKind.noConfusion

theorem expects_lengthPart (part : LengthPart) : Expects (lengthPart part) := by
  refine expects_bind expects_nextToken fun token => ?_
  split
  · split
    · exact expects_pure _
    · exact expects_fail DiagnosticKind.noConfusion
  · exact expects_fail DiagnosticKind.noConfusion

theorem expects_mark (expected : TokenKind) : Expects (mark expected) := by
  refine expects_bind expects_nextToken fun token => ?_
  split
  · exact expects_pure ()
  · exact expects_fail DiagnosticKind.noConfusion

theorem expects_durationClause (start : Position) : Expects (durationClause start) := by
  refine expects_bind (expects_lengthPart _) fun num => expects_bind (expects_mark _) fun _ =>
    expects_bind (expects_lengthPart _) fun den => expects_bind (expects_mark _) fun _ => ?_
  split
  · exact expects_pure _
  · exact expects_fail DiagnosticKind.noConfusion

theorem expects_octaveAt (token : Token) : Expects (octaveAt token) := by
  unfold octaveAt
  split
  · split
    · exact expects_bind expects_nextToken fun _ => expects_pure _
    · exact expects_fail DiagnosticKind.noConfusion
  · exact expects_pure _

theorem expects_durationAt (token : Token) : Expects (durationAt token) := by
  unfold durationAt
  split
  · exact expects_bind (expects_durationClause _) fun _ =>
      expects_bind expects_nextToken fun _ => expects_pure _
  · exact expects_pure _

theorem expects_noteEnd (token : Token) : Expects (noteEnd token) := by
  unfold noteEnd
  split
  · exact expects_pure ()
  · exact expects_pure ()
  · exact expects_fail DiagnosticKind.noConfusion

theorem expects_noteTail (pitch : Pitch) : Expects (noteTail pitch) :=
  expects_bind expects_nextToken fun _ => expects_bind (expects_octaveAt _) fun _ =>
    expects_bind (expects_durationAt _) fun _ => expects_bind (expects_noteEnd _) fun _ =>
      expects_pure _

/-- Where the loop asks for a note, what is found is expected. -/
theorem AsksAt.expects (h : AsksAt c g) (hn : note previous g = .error x d) :
    x.kind ≠ .unexpectedToken := by
  obtain ⟨key, e, htakes⟩ := h.takesKey previous
  rw [htakes.goesOn, bind_pure_eq_error] at hn
  exact expects_noteTail _ e x d hn

theorem expects_notes : Expects notes := by
  intro c x d h
  obtain ⟨ns, k, -, hgap | ⟨g, hasks, hn⟩⟩ := rounds_of_notes_error .empty h
  · exact expects_skip _ k x d hgap
  · exact hasks.expects hn

end Reading

/-! ## Sequences -/

namespace Draft

open Reading

variable {draft : Draft} {source : SourcePath} {c d : Cursor}

/-- A word may be no label, and a label may be defined twice. -/
theorem expects_readLabel (kind : LabelKind) : Expects (draft.readLabel source kind) := by
  have hlabel : Expects definedLabel := by
    refine expects_bind (fun _ _ _ h => by cases h) fun start =>
      expects_bind (fun _ _ _ h => by cases h) fun text => ?_
    split
    · exact expects_pure _
    · exact expects_fail DiagnosticKind.noConfusion
  refine expects_bind (fun _ _ _ h => by cases h) fun start => expects_bind hlabel fun label =>
    expects_bind ?_ fun _ => expects_pure _
  intro c x d h
  unfold Registry.define at h
  cases hdefined : draft.labels.definition? label with
  | none =>
    rw [hdefined] at h
    cases h
  | some first =>
    rw [hdefined] at h
    obtain ⟨rfl, -⟩ := EStateM.Result.error.inj h
    exact DiagnosticKind.noConfusion

theorem expects_readSequence : Expects (draft.readSequence source) :=
  expects_bind (expects_readLabel _) fun _ => expects_bind expects_notes fun _ => expects_pure _

theorem readSequence_of_label {labels : Registry} {label : String} {f : Cursor}
    (h : draft.readLabel source .sequence c = .ok (labels, label) f) :
    draft.readSequence source c =
      (do return draft.addSequence labels label (← notes) : Reading Draft) f := by
  rw [readSequence, bind_apply, h]

/-- A sequence is read exactly if the loop makes some rounds and then stops: the notes are those of
the rounds, and the last of them is the one that later notes inherit from. -/
theorem readSequence_eq_ok_iff {draft' : Draft} :
    draft.readSequence source c = .ok draft' d ↔
      ∃ labels label f ns k, draft.readLabel source .sequence c = .ok (labels, label) f ∧
        Rounds draft.lastNote f ns k ∧ StopsAt k d ∧
        draft' = ⟨(draft.library.addSequence ⟨label, ns.filter fun n => !n.isEmpty⟩).2, labels,
          none, ns.getLastD draft.lastNote⟩ := by
  constructor
  · intro h
    obtain ⟨⟨labels, label⟩, f, hlabel, h⟩ := bind_eq_ok.1 h
    obtain ⟨ws, d, hnotes, hpure⟩ := bind_eq_ok.1 h
    obtain ⟨rfl, rfl⟩ := pure_eq_ok.1 hpure
    obtain ⟨k, hrounds, hstop⟩ := rounds_of_notes draft.lastNote hnotes
    exact ⟨labels, label, f, _, k, hlabel, hrounds, hstop, rfl⟩
  · rintro ⟨labels, label, f, ns, k, hlabel, hrounds, hstop, rfl⟩
    obtain ⟨ws, rfl, hnotes⟩ := notes_of_rounds hrounds
    rw [readSequence_of_label hlabel, bind_apply, hnotes, bind_apply, notes_of_stopsAt hstop]
    simp only [List.append_nil]
    rfl

/-- A sequence fails exactly if its label does, or a gap or a note behind some rounds. -/
theorem readSequence_eq_error_iff {x : Diagnostic} :
    draft.readSequence source c = .error x d ↔
      draft.readLabel source .sequence c = .error x d ∨
      ∃ labels label f ns k, draft.readLabel source .sequence c = .ok (labels, label) f ∧
        Rounds draft.lastNote f ns k ∧
        (skipGap k = .error x d ∨
          ∃ g, AsksAt k g ∧ note (ns.getLastD draft.lastNote) g = .error x d) := by
  constructor
  · intro h
    rcases bind_eq_error.1 h with hlabel | ⟨⟨labels, label⟩, f, hlabel, h⟩
    · exact .inl hlabel
    · obtain ⟨ns, k, hrounds, hfails⟩ :=
        rounds_of_notes_error draft.lastNote (bind_pure_eq_error.1 h)
      exact .inr ⟨labels, label, f, ns, k, hlabel, hrounds, hfails⟩
  · rintro (hlabel | ⟨labels, label, f, ns, k, hlabel, hrounds, hfails⟩)
    · exact bind_eq_error.2 (.inl hlabel)
    · obtain ⟨ws, -, hnotes⟩ := notes_of_rounds hrounds
      have hk : notes k = .error x d := by
        rcases hfails with hgap | ⟨g, hasks, hn⟩
        · exact notes_of_gap_error hgap
        · exact notes_of_note_error hasks hn
      rw [readSequence_of_label hlabel, bind_apply, hnotes, bind_apply, hk]

/-- What rounds read before the loop stops are notes as they are written, one for each round. -/
theorem notesText_of_rounds {previous : Note} {f k : Cursor} {ns : List Note}
    (hrounds : Rounds previous f ns k) (hstop : StopsAt k d) :
    ∃ forms rest, NotesText forms f.rest rest ∧ GapText Text.isBlank rest d.rest ∧
      ns = sounding previous (forms.map NoteForm.written) ∧ ns.length = forms.length := by
  obtain ⟨ws, rfl, hnotes⟩ := notes_of_rounds hrounds
  rw [bind_apply, notes_of_stopsAt hstop] at hnotes
  obtain ⟨⟨forms, rest, hforms, htext, hgap⟩, -⟩ := notesText_of_notes hnotes
  rw [List.append_nil] at hforms
  subst hforms
  exact ⟨forms, rest, htext, hgap, rfl, by simp⟩

/-- **The loop and the reader of notes agree.** Wherever the loop over the notes of a sequence asks
for a note, behind any number of notes, the reader takes a key: it meets neither the end of the text
nor a token that is no key. The sequence is read exactly if the loop makes some rounds and then
stops behind a gap where no key character is next; it makes one round for each note that is written,
and later notes inherit from the last of them. It fails exactly if its label does, or a gap or a note
behind some rounds, and never for a token that was not expected. -/
theorem readSequence_by_rounds (draft : Draft) (source : SourcePath) (c : Cursor) :
    (∀ labels label f ns k, draft.readLabel source .sequence c = .ok (labels, label) f →
      Rounds draft.lastNote f ns k →
      (∀ g, AsksAt k g → ∃ key e, TakesKey (ns.getLastD draft.lastNote) g key e) ∧
      ∀ d, StopsAt k d →
        ∃ forms rest, NotesText forms f.rest rest ∧ GapText Text.isBlank rest d.rest ∧
          ns = sounding draft.lastNote (forms.map NoteForm.written) ∧ ns.length = forms.length) ∧
    (∀ draft' d, draft.readSequence source c = .ok draft' d ↔
      ∃ labels label f ns k, draft.readLabel source .sequence c = .ok (labels, label) f ∧
        Rounds draft.lastNote f ns k ∧ StopsAt k d ∧
        draft' = ⟨(draft.library.addSequence ⟨label, ns.filter fun n => !n.isEmpty⟩).2, labels,
          none, ns.getLastD draft.lastNote⟩) ∧
    (∀ x d, draft.readSequence source c = .error x d ↔
      draft.readLabel source .sequence c = .error x d ∨
      ∃ labels label f ns k, draft.readLabel source .sequence c = .ok (labels, label) f ∧
        Rounds draft.lastNote f ns k ∧
        (skipGap k = .error x d ∨
          ∃ g, AsksAt k g ∧ note (ns.getLastD draft.lastNote) g = .error x d)) ∧
    ∀ x d, draft.readSequence source c = .error x d → x.kind ≠ .unexpectedToken :=
  ⟨fun _ _ _ _ _ _ hrounds =>
      ⟨fun _ hasks => hasks.takesKey _, fun _ hstop => notesText_of_rounds hrounds hstop⟩,
    fun _ _ => readSequence_eq_ok_iff, fun _ _ => readSequence_eq_error_iff,
    fun x d h => expects_readSequence c x d h⟩

/-- The second of two notes stands for no note, and a mark follows: the loop asks for both of them
and for no third. A note with a letter directly behind it fails for this letter. -/
theorem readSequence_by_rounds_of_silence :
    (∃ key e, TakesKey ⟨.c, 4, ⟨0, 32⟩⟩ ⟨"~0[0/1] @".toList, ⟨1, 7⟩⟩ key e) ∧
    (∃ ns k forms rest, Rounds .middleC ⟨" C4 ~0[0/1] @".toList, ⟨1, 3⟩⟩ ns k ∧
      StopsAt k ⟨['@'], ⟨1, 15⟩⟩ ∧ ns.getLastD .middleC = .empty ∧
      NotesText forms " C4 ~0[0/1] @".toList rest ∧ ns.length = forms.length) ∧
    ∃ x d, Draft.empty.readSequence ⟨"song"⟩ (.ofText "a: C4x") = .error x d ∧
      x.kind ≠ .unexpectedToken := by
  have hlabel : Draft.empty.readLabel ⟨"song"⟩ .sequence (.ofText "a: C4 ~0[0/1] @") =
      .ok (⟨[⟨"a", .sequence, ⟨⟨"song"⟩, ⟨1, 1⟩⟩⟩], []⟩, "a") ⟨" C4 ~0[0/1] @".toList, ⟨1, 3⟩⟩ := by
    decide +kernel
  obtain ⟨hloop, hreads, -⟩ :=
    readSequence_by_rounds .empty ⟨"song"⟩ (.ofText "a: C4 ~0[0/1] @")
  refine ⟨?_, ?_, ?_⟩
  · have hfirst : AsksAt ⟨" C4 ~0[0/1] @".toList, ⟨1, 3⟩⟩ ⟨"C4 ~0[0/1] @".toList, ⟨1, 4⟩⟩ :=
      ⟨by decide +kernel, by decide⟩
    have hnote : note .middleC ⟨"C4 ~0[0/1] @".toList, ⟨1, 4⟩⟩ =
        .ok ⟨.c, 4, ⟨0, 32⟩⟩ ⟨"~0[0/1] @".toList, ⟨1, 7⟩⟩ := by
      decide +kernel
    obtain ⟨hasks, -⟩ := hloop _ _ _ [⟨.c, 4, ⟨0, 32⟩⟩] ⟨"~0[0/1] @".toList, ⟨1, 7⟩⟩ hlabel
      (.round hfirst hnote .nothing)
    exact hasks _ ⟨by decide +kernel, by decide⟩
  · have hnotes : notes ⟨" C4 ~0[0/1] @".toList, ⟨1, 3⟩⟩ =
        .ok [⟨.c, some 4, none⟩, ⟨.rest, some 0, some ⟨0, 0⟩⟩] ⟨['@'], ⟨1, 15⟩⟩ := by
      decide +kernel
    have hread := (readSequence_of_label hlabel).trans (bind_eq_ok.2 ⟨_, _, hnotes, rfl⟩)
    obtain ⟨labels, label, f, ns, k, hlabel', hrounds, hstop, hdraft⟩ := (hreads _ _).1 hread
    obtain ⟨-, rfl⟩ := EStateM.Result.ok.inj (hlabel.symm.trans hlabel')
    obtain ⟨forms, rest, htext, -, -, hlength⟩ := (hloop _ _ _ ns k hlabel hrounds).2 _ hstop
    exact ⟨ns, k, forms, rest, hrounds, hstop, (congrArg Draft.lastNote hdraft).symm, htext,
      hlength⟩
  · have hlabel : Draft.empty.readLabel ⟨"song"⟩ .sequence (.ofText "a: C4x") =
        .ok (⟨[⟨"a", .sequence, ⟨⟨"song"⟩, ⟨1, 1⟩⟩⟩], []⟩, "a") ⟨" C4x".toList, ⟨1, 3⟩⟩ := by
      decide +kernel
    have hnotes : notes ⟨" C4x".toList, ⟨1, 3⟩⟩ =
        .error ((Cause.trailingCharacters (.key "x")).reportedAt ⟨1, 6⟩) ⟨[], ⟨1, 7⟩⟩ := by
      decide +kernel
    have hread := (readSequence_of_label hlabel).trans (bind_pure_eq_error.2 hnotes)
    obtain ⟨-, -, -, hkind⟩ := readSequence_by_rounds .empty ⟨"song"⟩ (.ofText "a: C4x")
    exact ⟨_, _, hread, hkind _ _ hread⟩

end Draft

end Songsheet
