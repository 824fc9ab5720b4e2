import Songsheet.Proofs.Note.Comment
import Songsheet.Proofs.Reading.Recased

/-!
# Keys in another case

A run of notes is read in the same way whatever the case of the letters in its keys. A key ends with
the last of its key characters, and whether one follows decides also whether the run goes on; neither
depends on case, and no more does what a key means. Where a key begins, the note in front of it has
already been read, so it must not matter to that note either.

* `KeyStands` — where a note of a run has its key.
* `InKeyOrBehind` — a place in a key of a run, or behind what is read of the run; what one note makes
  of it (`InKeyOrBehind.behind_note`).
* `matches_writtenNote_recased`, `matches_notes_recased` — a note, and a run of notes.
-/

namespace Songsheet.Reading

variable {site : List Char → Prop} {c c' d e f g g' k k' n : Cursor} {place : List Char}
  {spelling : String} {p : Position}

/-! ## Keys of a run -/

theorem nextNote_rightUnique : Relator.RightUnique NextNote := by
  intro c d d' ⟨e, _, _, hskip, _, _, hw⟩ ⟨e', _, _, hskip', _, _, hw'⟩
  obtain ⟨-, rfl⟩ := EStateM.Result.ok.inj (hskip.symm.trans hskip')
  exact (EStateM.Result.ok.inj (hw.symm.trans hw')).2

/-- From one cursor up to the other the key of a note stands, in the run of notes behind `c`. -/
def KeyStands (c g e : Cursor) : Prop :=
  ∃ k spelling p, NotesUpTo c k ∧ skipGap k = .ok () g ∧ g.peek?.any isKeyChar ∧
    nextToken g = .ok ⟨.key spelling, p⟩ e

theorem writtenNote_of_key (begins : g.peek?.any isKeyChar)
    (token : nextToken g = .ok ⟨.key spelling, p⟩ e) :
    writtenNote g =
      (noteTail ((Pitch.ofSpelling? spelling).getD .rest) >>= fun w => pure (some w) :
        Reading (Option WrittenNote)) e := by
  rw [writtenNote_of_isKeyChar begins, bind_apply, token]
  rfl

/-- The first note of a run is a key and what may follow it. -/
theorem nextNote_iff (gap : skipGap c = .ok () g) (begins : g.peek?.any isKeyChar)
    (token : nextToken g = .ok ⟨.key spelling, p⟩ e) :
    NextNote c n ↔ ∃ w, noteTail ((Pitch.ofSpelling? spelling).getD .rest) e = .ok w n := by
  have hnote := writtenNote_of_key begins token
  constructor
  · intro ⟨g', _, w, hskip, _, _, hw⟩
    obtain ⟨-, rfl⟩ := EStateM.Result.ok.inj (gap.symm.trans hskip)
    obtain ⟨w', n', htail, hpure⟩ := bind_eq_ok.1 (hnote.symm.trans hw)
    obtain ⟨-, rfl⟩ := pure_eq_ok.1 hpure
    exact ⟨w', htail⟩
  · intro ⟨w, htail⟩
    obtain ⟨first, hp, hfirst⟩ := (Option.any_eq_true _ _).1 begins
    exact ⟨g, first, w, gap, hp, hfirst,
      hnote.trans (bind_eq_ok.2 ⟨w, n, htail, pure_eq_ok.2 ⟨rfl, rfl⟩⟩)⟩

/-- A run of notes that begins with a key goes on with what may follow the key. -/
theorem notes_of_key (gap : skipGap c = .ok () g) (begins : g.peek?.any isKeyChar)
    (token : nextToken g = .ok ⟨.key spelling, p⟩ e) :
    notes c = (noteTail ((Pitch.ofSpelling? spelling).getD .rest) >>= fun w =>
      notesBehind (some w)) e := by
  rw [notes_eq, bind_apply, gap]
  refine (notesFrom_of_isKeyChar begins).trans ?_
  rw [bind_apply, writtenNote_of_key begins token, bind_apply, bind_apply]
  cases noteTail ((Pitch.ofSpelling? spelling).getD .rest) e <;> rfl

theorem KeyStands.reaches (h : KeyStands c g e) : c.Reaches g := by
  obtain ⟨k, _, _, others, gap, -, -⟩ := h
  exact (NotesUpTo.reaches others).trans (forward_skipGap.ok gap)

/-- A run of notes is read beyond each of its keys. -/
theorem KeyStands.reaches_of_notes (h : KeyStands c g e) : e.Reaches (cursorLeft (notes c)) := by
  obtain ⟨k, spelling, p, others, gap, begins, token⟩ := h
  induction others using Relation.ReflTransGen.head_induction_on with
  | refl =>
    rw [notes_of_key gap begins token]
    exact forward_bind (forward_noteTail _) (fun w => forward_notesBehind (some w)) e
  | head hnext _ ih =>
    obtain ⟨w, hnotes⟩ := notes_of_nextNote hnext
    rw [hnotes, cursorLeft_bind_pure]
    exact ih

/-! ## Places in a run -/

/-- A place, told by the text from there on, is in the key of a note of a run, or the reading of the
run stops in front of it. -/
def InKeyOrBehind (c : Cursor) (place : List Char) : Prop :=
  (∃ g e, KeyStands c g e ∧ place <:+ g.rest ∧ e.rest.length < place.length) ∨
    place <:+ (cursorLeft (notes c)).rest

namespace InKeyOrBehind

/-- Such a place is not in the gap in front of a run. -/
theorem behind_gap (h : InKeyOrBehind c place) : place <:+ (cursorLeft (skipGap c)).rest := by
  rcases h with ⟨g, e, ⟨k, spelling, p, others, gap, -, -⟩, hplace, -⟩ | hplace
  · rcases others.cases_head with rfl | ⟨d, hnext, hothers⟩
    · rw [gap]
      exact hplace
    · obtain ⟨f, _, _, hskip, _, _, hw⟩ := hnext
      have hreaches := (forward_writtenNote.ok hw).trans
        ((NotesUpTo.reaches hothers).trans (forward_skipGap.ok gap))
      rw [hskip]
      exact hplace.trans hreaches.suffix
  · rw [notes_eq] at hplace
    exact hplace.trans (reaches_bind (fun _ => forward_bind forward_peek? forward_notesFrom) c).suffix

/-- If such a place is behind the key of the first note, it is behind the note. -/
theorem behind_tail (h : InKeyOrBehind c place) (gap : skipGap c = .ok () g)
    (begins : g.peek?.any isKeyChar) (token : nextToken g = .ok ⟨.key spelling, p⟩ e)
    (hplace : place <:+ e.rest) :
    place <:+ (cursorLeft (noteTail ((Pitch.ofSpelling? spelling).getD .rest) e)).rest := by
  rcases h with ⟨g', e', ⟨k, _, _, others, gap', -, token'⟩, hin, hless⟩ | hin
  · rcases others.cases_head with rfl | ⟨n, hnext, hothers⟩
    · obtain ⟨-, rfl⟩ := EStateM.Result.ok.inj (gap.symm.trans gap')
      obtain ⟨-, rfl⟩ := EStateM.Result.ok.inj (token.symm.trans token')
      exact absurd hplace.length_le (Nat.not_le_of_lt hless)
    · obtain ⟨w, htail⟩ := (nextNote_iff gap begins token).1 hnext
      rw [htail]
      exact hin.trans ((NotesUpTo.reaches hothers).trans (forward_skipGap.ok gap')).suffix
  · rw [notes_of_key gap begins token] at hin
    exact hin.trans (reaches_bind (fun w => forward_notesBehind (some w)) e).suffix

/-- Behind the first note such a place is in a key of the other notes, or behind them. -/
theorem behind_note (h : InKeyOrBehind c place) (hnext : NextNote c n) (hplace : place <:+ n.rest) :
    InKeyOrBehind n place := by
  rcases h with ⟨g, e, ⟨k, spelling, p, others, gap, begins, token⟩, hin, hless⟩ | hin
  · rcases others.cases_head with rfl | ⟨n', hnext', hothers⟩
    · obtain ⟨w, htail⟩ := (nextNote_iff gap begins token).1 hnext
      have hbeyond := ((forward_noteTail _).ok htail).length_le
      have hlength := hplace.length_le
      omega
    · obtain rfl := nextNote_rightUnique hnext hnext'
      exact .inl ⟨g, e, ⟨k, spelling, p, hothers, gap, begins, token⟩, hin, hless⟩
  · obtain ⟨w, hnotes⟩ := notes_of_nextNote hnext
    rw [hnotes, cursorLeft_bind_pure] at hin
    exact .inr hin

end InKeyOrBehind

/-! ## Notes with keys in another case -/

section Run

variable (hsite : ∀ place, site place → place <:+ c.rest → InKeyOrBehind c place)
include hsite

theorem matches_skipGap_recased (h : RecasedAt site c c') :
    Matches .sharp Eq (RecasedAt site) (skipGap c) (skipGap c') := by
  obtain ⟨tail, tail', hstop, htails, hpair, hfirst⟩ := h.exists_tails
  have hread := (Pairing.abreast_skipGap (b := .sharp) hstop).result c c' hpair
  refine (hread ?_).mono (fun _ _ hw => hw) fun _ _ hd => hd.recasedAt htails
  rcases hfirst with rfl | ⟨hhere, hbehind⟩
  · exact List.nil_suffix
  · exact (hsite tail hhere hbehind).behind_gap

/-- The first note of a run is read in the same way whatever the case of the letters in its key. -/
theorem matches_writtenNote_recased (gap : skipGap c = .ok () g) (begins : g.peek?.any isKeyChar)
    (h : RecasedAt site g g') :
    Matches .sharp Eq (RecasedAt site) (writtenNote g) (writtenNote g') := by
  have begins' : g'.peek?.any isKeyChar := (h.rest.any_eq caseBlind_isKeyChar).symm.trans begins
  obtain ⟨spelling, e, hread⟩ : ∃ spelling e, run isKeyChar g = .ok spelling e := ⟨_, _, rfl⟩
  obtain ⟨spelling', e', hread', hsame, he⟩ := h.run caseBlind_isKeyChar hread
  have token := nextToken_of_isKeyChars begins hread
  rw [writtenNote_of_key begins token,
    writtenNote_of_key begins' (nextToken_of_isKeyChars begins' hread'),
    ← Pitch.ofSpelling?_congr hsame]
  -- what follows the key is the same up to the next letter that differs, which is behind the note
  obtain ⟨tail, tail', hstop, htails, hpair, hfirst⟩ := he.exists_tails
  have hwithin : tail <:+
      (cursorLeft (noteTail ((Pitch.ofSpelling? spelling).getD .rest) e)).rest := by
    rcases hfirst with rfl | ⟨hhere, hbehind⟩
    · exact List.nil_suffix
    · have hreaches := (forward_skipGap.ok gap).trans (forward_nextToken.ok token)
      exact (hsite tail hhere (hbehind.trans hreaches.suffix)).behind_tail gap begins token hbehind
  have hnote := (Pairing.reads_noteTail (Pairing.abreast_nextToken (b := .sharp) hstop)
    ((Pitch.ofSpelling? spelling).getD .rest)).result e e' hpair hwithin
  apply hnote.bind
  intro w n w' n' _ hw hn
  exact ⟨congrArg some hw, hn.recasedAt htails⟩

end Run

/-- A run of notes is read in the same way whatever the case of the letters in its keys. -/
theorem matches_notes_recased
    (hsite : ∀ place, site place → place <:+ c.rest → InKeyOrBehind c place)
    (h : RecasedAt site c c') : Matches .sharp Eq (RecasedAt site) (notes c) (notes c') := by
  induction hlength : c.rest.length using Nat.strongRecOn generalizing c c' with
  | ind length ih =>
    rw [notes_eq]
    apply (matches_skipGap_recased hsite h).bind
    intro _ g _ g' gap _ hg
    show Matches _ _ _ (notesFrom g.peek? g) (notesFrom g'.peek? g')
    have hkey : g.peek?.any isKeyChar = g'.peek?.any isKeyChar :=
      hg.rest.any_eq caseBlind_isKeyChar
    by_cases begins : g.peek?.any isKeyChar
    · rw [notesFrom_of_isKeyChar begins, notesFrom_of_isKeyChar (hkey ▸ begins)]
      apply (matches_writtenNote_recased hsite gap begins hg).bind
      intro w n w' n' hw hsame hn
      subst hsame
      obtain ⟨first, hp, hfirst⟩ := (Option.any_eq_true _ _).1 begins
      cases w with
      | none => exact absurd hw (writtenNote_ne_none hp hfirst)
      | some w =>
        have hnext : NextNote c n := ⟨g, first, w, gap, hp, hfirst, hw⟩
        have hless := length_of_writtenNote hp hfirst hw
        have hgap := (forward_skipGap.ok gap).length_le
        have hothers : ∀ place, site place → place <:+ n.rest → InKeyOrBehind n place :=
          fun place hhere hplace =>
            (hsite place hhere (hplace.trans hnext.reaches.suffix)).behind_note hnext hplace
        apply (ih n.rest.length (by omega) hothers hn rfl).bind
        intro ws d ws' d' _ hws hd
        exact ⟨congrArg (w :: ·) hws, hd⟩
    · unfold notesFrom
      rw [← hkey, if_neg begins]
      exact ⟨rfl, hg⟩

end Songsheet.Reading
