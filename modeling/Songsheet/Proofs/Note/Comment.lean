import Songsheet.Proofs.Note.Text
import Songsheet.Proofs.Token.Comment

/-!
# Comments directly behind notes

A note ends where the next token is a blank or the end of the text, and comments in front of a token
are skipped. So a block comment that is put directly behind a note, without a blank between them,
changes nothing: the note is read as before, and the notes behind it as well.

* `NoteSpelled` — a note is spelled from one cursor up to another, with nothing read ahead.
* `NotesUpTo` — notes of a run lead from one cursor to another.
* `commentSite_of_noteSpelled` — behind the tokens of a note a comment may be put.
* `matches_notes_commented` — a run of notes with a comment behind one of them.
-/

namespace Songsheet.Reading

variable {c c' d e f g : Cursor} {t s : Token} {back body : List Char}

/-! ## Notes as they are spelled -/

/-- From one cursor up to the other the octave of a note is spelled, if it has one. -/
inductive OctaveSpelled (c : Cursor) : Cursor → Prop
  | absent : OctaveSpelled c c
  | given {p : Position} {d : Cursor} {digits : String} {n : Nat}
      (token : nextToken c = .ok ⟨.number digits, p⟩ d)
      (value : Text.decimalBelow? UInt8.size digits = some n) : OctaveSpelled c d

/-- From one cursor up to the other the duration clause of a note is spelled, if it has one. -/
inductive DurationSpelled (c : Cursor) : Cursor → Prop
  | absent : DurationSpelled c c
  | given {p : Position} {d e : Cursor} {duration : Duration}
      (token : nextToken c = .ok ⟨.openBracket, p⟩ d)
      (clause : durationClause p d = .ok duration e) : DurationSpelled c e

/-- From one cursor up to the other a note is spelled: a key, an octave or none, and a duration
clause or none. -/
def NoteSpelled (c e : Cursor) : Prop :=
  ∃ key p d f, nextToken c = .ok ⟨.key key, p⟩ d ∧ OctaveSpelled d f ∧ DurationSpelled f e

/-- One more note of a run, behind its gap. -/
def NextNote (c d : Cursor) : Prop :=
  ∃ e first w, skipGap c = .ok () e ∧ e.peek? = some first ∧ isKeyChar first ∧
    writtenNote e = .ok (some w) d

/-- Any number of notes of a run stand between two cursors. -/
def NotesUpTo : Cursor → Cursor → Prop :=
  Relation.ReflTransGen NextNote

theorem OctaveSpelled.reaches (h : OctaveSpelled c d) : c.Reaches d := by
  cases h with
  | absent => exact .refl c
  | given token value => exact forward_nextToken.ok token

theorem DurationSpelled.reaches (h : DurationSpelled c d) : c.Reaches d := by
  cases h with
  | absent => exact .refl c
  | given token clause =>
    exact (forward_nextToken.ok token).trans ((forward_durationClause _).ok clause)

theorem NoteSpelled.reaches (h : NoteSpelled c e) : c.Reaches e := by
  obtain ⟨key, p, d, f, token, octave, duration⟩ := h
  exact (forward_nextToken.ok token).trans (octave.reaches.trans duration.reaches)

theorem NoteSpelled.length_lt (h : NoteSpelled c e) : e.rest.length < c.rest.length := by
  obtain ⟨key, p, d, f, token, octave, duration⟩ := h
  have hless := length_of_nextToken token (by simp)
  have hbehind := (octave.reaches.trans duration.reaches).length_le
  omega

/-- A note begins in the same way whatever follows it. -/
theorem NoteSpelled.lookAlike {front after : List Char} (h : NoteSpelled c e)
    (hk : c.peek?.any isKeyChar) (hc : c.rest = front ++ e.rest) :
    LookAlike (front ++ e.rest) (front ++ after) := by
  apply LookAlike.of_front
  · rintro rfl
    have hless := h.length_lt
    rw [hc] at hless
    exact Nat.lt_irrefl _ hless
  · rintro rfl
    rw [Cursor.peek?, hc] at hk
    exact absurd hk (by simp [isKeyChar_slash])

theorem NextNote.reaches (h : NextNote c d) : c.Reaches d := by
  obtain ⟨e, first, w, gap, -, -, note⟩ := h
  exact (forward_skipGap.ok gap).trans (forward_writtenNote.ok note)

theorem NotesUpTo.reaches (h : NotesUpTo c d) : c.Reaches d := by
  induction h with
  | refl => exact .refl c
  | tail _ note ih => exact ih.trans note.reaches

/-! ## The token behind a note -/

/-- Behind its key and octave, a note is read beyond its duration clause. -/
theorem reaches_of_durationSpelled {duration : Option Duration} (h : DurationSpelled c e)
    (ht : nextToken c = .ok t d) (hd : durationAt t d = .ok (duration, s) f) : e.Reaches f := by
  cases h with
  | absent => exact (forward_nextToken.ok ht).trans ((forward_durationAt t).ok hd)
  | given token clause =>
    obtain ⟨rfl, rfl⟩ := EStateM.Result.ok.inj (ht.symm.trans token)
    rcases durationAt_eq_ok.1 hd with ⟨found, e', -, hfound, -, hnext⟩ | ⟨hk, -⟩
    · obtain ⟨-, rfl⟩ := EStateM.Result.ok.inj (clause.symm.trans hfound)
      exact forward_nextToken.ok hnext
    · exact absurd rfl hk

/-- Behind its key, a note is read beyond its duration clause. -/
theorem reaches_of_noteTail {pitch : Pitch} {w : WrittenNote} (hoctave : OctaveSpelled c d)
    (hduration : DurationSpelled d e) (h : noteTail pitch c = .ok w f) : e.Reaches f := by
  obtain ⟨first, c₁, octave, second, c₂, duration, last, hfirst, hread, hbehind, -, -⟩ :=
    noteTail_eq_ok.1 h
  rcases octaveAt_eq_ok.1 hread with ⟨digits, n, hk, -, -, hsecond⟩ | ⟨hk, -, rfl, rfl⟩
  · cases hoctave with
    | absent =>
      -- the numeral that is read would be no part of the note
      cases hduration with
      | absent => exact (forward_noteTail pitch).ok h
      | given token clause =>
        obtain ⟨rfl, rfl⟩ := EStateM.Result.ok.inj (hfirst.symm.trans token)
        cases hk
    | given token value =>
      obtain ⟨rfl, rfl⟩ := EStateM.Result.ok.inj (hfirst.symm.trans token)
      exact reaches_of_durationSpelled hduration hsecond hbehind
  · cases hoctave with
    | absent => exact reaches_of_durationSpelled hduration hfirst hbehind
    | given token value =>
      obtain ⟨rfl, rfl⟩ := EStateM.Result.ok.inj (hfirst.symm.trans token)
      exact absurd rfl (hk _)

/-- A note is read beyond where it is spelled. -/
theorem NoteSpelled.reaches_of_writtenNote {first : Char} {w : Option WrittenNote}
    (h : NoteSpelled c e) (hp : c.peek? = some first) (hk : isKeyChar first)
    (hw : writtenNote c = .ok w d) : e.Reaches d := by
  obtain ⟨key, p, c₁, c₂, token, octave, duration⟩ := h
  cases w with
  | none => exact absurd hw (writtenNote_ne_none hp hk)
  | some w =>
    obtain ⟨c₀, t, c₃, spelling, hskip, ht, -, htail⟩ := writtenNote_eq_some.1 hw
    obtain ⟨-, rfl⟩ := EStateM.Result.ok.inj ((skipGap_of_isKeyChar hp hk).symm.trans hskip)
    obtain ⟨rfl, rfl⟩ := EStateM.Result.ok.inj (token.symm.trans ht)
    exact reaches_of_noteTail octave duration htail

/-! ## Comments behind the tokens of a note -/

theorem CommentSite.behind_token (reads : nextToken c = .ok t d) (hslash : t.kind ≠ .slash)
    (hgap : ¬ t.kind.IsGap) (behind : CommentSite back d) : CommentSite back c :=
  .token reads (fun _ => ⟨hslash, fun _ => hgap⟩) behind

theorem commentSite_of_lengthPart {part : LengthPart} {n : Nat} (h : lengthPart part c = .ok n d)
    (behind : CommentSite back d) : CommentSite back c := by
  obtain ⟨t, digits, ht, hk, -⟩ := lengthPart_eq_ok.1 h
  exact behind.behind_token ht (by simp [hk]) (by simp [hk, TokenKind.IsGap])

theorem length_of_lengthPart {part : LengthPart} {n : Nat} (h : lengthPart part c = .ok n d) :
    d.rest.length < c.rest.length := by
  obtain ⟨t, digits, ht, hk, -⟩ := lengthPart_eq_ok.1 h
  exact length_of_nextToken ht (by simp [hk])

theorem commentSite_of_durationClause {p : Position} {duration : Duration}
    (h : durationClause p c = .ok duration d) (hd : d.rest = back) : CommentSite back c := by
  obtain ⟨n, m, c₁, c₂, c₃, hn, hslash, hm, hclose, -⟩ := durationClause_eq_ok.1 h
  obtain ⟨t, ht, hk⟩ := mark_eq_ok.1 hslash
  obtain ⟨t', ht', hk'⟩ := mark_eq_ok.1 hclose
  have hthird : CommentSite back c₃ :=
    .behind_token ht' (by simp [hk']) (by simp [hk', TokenKind.IsGap]) (.here hd)
  have hsecond : CommentSite back c₂ := commentSite_of_lengthPart hm hthird
  -- a number stands between the slash and the comment
  have hless : back.length < c₂.rest.length :=
    Nat.lt_of_le_of_lt hthird.suffix.length_le (length_of_lengthPart hm)
  have hfirst : CommentSite back c₁ :=
    .token ht (fun hrest => absurd (hrest ▸ hless) (Nat.lt_irrefl _)) hsecond
  exact commentSite_of_lengthPart hn hfirst

/-- Directly behind a note a comment may be put. -/
theorem commentSite_of_noteSpelled (h : NoteSpelled c e) (he : e.rest = back) :
    CommentSite back c := by
  obtain ⟨key, p, d, f, token, octave, duration⟩ := h
  have hduration : CommentSite back f := by
    cases duration with
    | absent => exact .here he
    | given token clause =>
      exact .behind_token token (by simp) (by simp [TokenKind.IsGap])
        (commentSite_of_durationClause clause he)
  have hoctave : CommentSite back d := by
    cases octave with
    | absent => exact hduration
    | given token value =>
      exact hduration.behind_token token (by simp) (by simp [TokenKind.IsGap])
  exact hoctave.behind_token token (by simp) (by simp [TokenKind.IsGap])

/-! ## Runs of notes -/

/-- A comment in front of a gap belongs to it. -/
theorem skipGap_comment (hbody : ¬ ['*', '/'] <:+: body)
    (hc : c.rest = blockComment body ++ back) :
    ∃ front, skipGap c = skipGap (c.past front back) := by
  have hgap : GapText Text.isBlank c.rest back :=
    hc ▸ (commentsText_blockComment hbody back).mono (by simp)
  obtain ⟨front, hfront⟩ := hgap.gapAt_eq (fun _ h => h) Text.isBlank_slash
  exact ⟨front, skip_behind hfront⟩

/-- Notes in front of which a comment is put. -/
theorem matches_notes_comment (hbody : ¬ ['*', '/'] <:+: body) (hc : c.rest = back)
    (hc' : c'.rest = blockComment body ++ back) :
    Matches .blind Eq SameRest (notes c) (notes c') := by
  obtain ⟨front, hfront⟩ := skipGap_comment hbody hc'
  have hnotes : notes c' = notes (c'.past front back) := by
    rw [notes_eq, bind_apply, bind_apply, hfront]
  rw [hnotes]
  exact (Pairing.reads_notes readsParts_sameRest.tokens readsParts_sameRest.gaps
    readsParts_sameRest.peeks).matches_sameRest hc

theorem notesFrom_of_isKeyChar (h : c.peek?.any isKeyChar) :
    notesFrom c.peek? c = (writtenNote >>= notesBehind) c := by
  unfold notesFrom
  rw [if_pos h]

theorem writtenNote_of_isKeyChar (h : c.peek?.any isKeyChar) :
    writtenNote c = (nextToken >>= noteFrom) c := by
  obtain ⟨first, hp, hk⟩ := (Option.any_eq_true _ _).1 h
  rw [writtenNote, bind_apply, skipGap_of_isKeyChar hp hk]

/-- Behind a note that has been read the others are read. -/
theorem notes_of_written {w : WrittenNote} (gap : skipGap c = .ok () g)
    (begins : g.peek?.any isKeyChar) (hw : writtenNote g = .ok (some w) d) :
    notes c = (notes >>= fun others => pure (w :: others) : Reading (List WrittenNote)) d := by
  rw [notes_eq, bind_apply, gap]
  refine (notesFrom_of_isKeyChar begins).trans ?_
  rw [bind_apply, hw, ← notes_eq]
  rfl

/-- Behind the first note of a run the others are read. -/
theorem notes_of_nextNote (hnext : NextNote c d) :
    ∃ w, notes c = (notes >>= fun others => pure (w :: others) : Reading (List WrittenNote)) d := by
  obtain ⟨e, first, w, hskip, hp, hfirst, hw⟩ := hnext
  exact ⟨w, notes_of_written hskip ((Option.any_eq_true _ _).2 ⟨first, hp, hfirst⟩) hw⟩

/-- A run of notes is read beyond where each of them is spelled. -/
theorem reaches_of_notes {ws : List WrittenNote} (hchain : NotesUpTo c f)
    (hgap : skipGap f = .ok () g) (hk : g.peek?.any isKeyChar) (hnote : NoteSpelled g e)
    (h : notes c = .ok ws d) : e.Reaches d := by
  induction hchain using Relation.ReflTransGen.head_induction_on generalizing ws with
  | refl =>
    obtain ⟨first, hp, hfirst⟩ := (Option.any_eq_true _ _).1 hk
    rw [notes_eq, bind_apply, hgap] at h
    obtain ⟨w, f₁, hw, hbehind⟩ := bind_eq_ok.1 ((notesFrom_of_isKeyChar hk).symm.trans h)
    exact (hnote.reaches_of_writtenNote hp hfirst hw).trans ((forward_notesBehind w).ok hbehind)
  | head hnext _ ih =>
    obtain ⟨w, hnotes⟩ := notes_of_nextNote hnext
    obtain ⟨others, _, hothers, hpure⟩ := bind_eq_ok.1 (hnotes.symm.trans h)
    obtain ⟨-, rfl⟩ := pure_eq_ok.1 hpure
    exact ih hothers

section Run

variable {front : List Char} (hbody : ¬ ['*', '/'] <:+: body) (hk : g.peek?.any isKeyChar)
  (hnote : NoteSpelled g e) (he : e.rest = back)
include hbody hk hnote he

/-- A note with a comment directly behind it, and the notes behind that. -/
theorem matches_notesFrom_commented (hk' : c'.peek?.any isKeyChar)
    (hpair : Abreast .blind back (blockComment body ++ back) g c') :
    Matches .blind Eq SameRest (notesFrom g.peek? g) (notesFrom c'.peek? c') := by
  have hnext : (Pairing.commented (blockComment body) back).ReadsTokens := commented_nextToken hbody
  have hread : (Pairing.commented (blockComment body) back).Reads Eq (nextToken >>= noteFrom)
      (nextToken >>= noteFrom) :=
    hnext.bind (fun _ => ⟨rfl, rfl⟩) fun _ _ ht => Pairing.reads_noteFrom hnext ht
  have hwritten := hread.result g c' (.inr ⟨hpair, commentSite_of_noteSpelled hnote he⟩) trivial
  rw [← writtenNote_of_isKeyChar hk, ← writtenNote_of_isKeyChar hk'] at hwritten
  rw [notesFrom_of_isKeyChar hk, notesFrom_of_isKeyChar hk']
  apply hwritten.bind
  intro w d w' d' hw hsame hd
  subst hsame
  obtain ⟨first, hp, hfirst⟩ := (Option.any_eq_true _ _).1 hk
  cases w with
  | none => exact absurd hw (writtenNote_ne_none hp hfirst)
  | some w =>
    have hbehind : Matches .blind Eq SameRest (notes d) (notes d') := by
      rcases hd with hsame | ⟨habreast, hsite⟩
      · exact (Pairing.reads_notes readsParts_sameRest.tokens readsParts_sameRest.gaps
          readsParts_sameRest.peeks).matches_sameRest hsame
      · -- the note was read no further than it is spelled
        have hreaches := hnote.reaches_of_writtenNote hp hfirst hw
        have hshorter : d.rest <:+ back := he ▸ hreaches.suffix
        have hd : d.rest = back := hshorter.eq_of_length_le hsite.suffix.length_le
        exact matches_notes_comment hbody hd (habreast.rest_eq hd)
    apply hbehind.bind
    intro ws f ws' f' _ hws hf
    exact ⟨congrArg (w :: ·) hws, hf⟩

/-- A run of notes, with a comment directly behind one of them. -/
theorem matches_notes_commented (hrest : g.rest = front ++ back) (hchain : NotesUpTo c f)
    (hgap : skipGap f = .ok () g)
    (hpair : Abreast .blind (front ++ back) (front ++ (blockComment body ++ back)) c c') :
    Matches .blind Eq SameRest (notes c) (notes c') := by
  have hlook : LookAlike (front ++ back) (front ++ (blockComment body ++ back)) :=
    he ▸ hnote.lookAlike hk (he ▸ hrest)
  have hparts := Pairing.readsParts_abreast (b := .blind) hlook
  have hpeeks : ∀ d d', Abreast .blind (front ++ back) (front ++ (blockComment body ++ back)) d d' →
      d.peek?.any isKeyChar = d'.peek?.any isKeyChar :=
    fun d d' hd => hparts.peeks d d' hd isKeyChar fun _ => isBlank_of_isKeyChar
  induction hchain using Relation.ReflTransGen.head_induction_on generalizing c' with
  | refl =>
    rw [notes_eq]
    apply hparts.gaps.bind_ok hpair hgap (hrest ▸ List.suffix_rfl)
    intro _ g' _ hpair'
    have hrest' : g'.rest = front ++ (blockComment body ++ back) := hpair'.rest_eq hrest
    exact matches_notesFrom_commented hbody hk hnote he (hpeeks g g' hpair' ▸ hk)
      ⟨⟨front, hrest, hrest'⟩, rfl⟩
  | @head c d hnext hchain ih =>
    obtain ⟨c₁, first, w, hskip, hp, hfirst, hw⟩ := hnext
    have hd : front ++ back <:+ d.rest :=
      hrest ▸ ((NotesUpTo.reaches hchain).trans (forward_skipGap.ok hgap)).suffix
    rw [notes_eq]
    apply hparts.gaps.bind_ok hpair hskip (hd.trans (forward_writtenNote.ok hw).suffix)
    intro _ c₁' _ hpair'
    have hkey : c₁.peek?.any isKeyChar := (Option.any_eq_true _ _).2 ⟨first, hp, hfirst⟩
    show Matches .blind Eq SameRest (notesFrom c₁.peek? c₁) (notesFrom c₁'.peek? c₁')
    rw [notesFrom_of_isKeyChar hkey, notesFrom_of_isKeyChar (hpeeks c₁ c₁' hpair' ▸ hkey)]
    apply (Pairing.reads_writtenNote hparts.tokens hparts.gaps).bind_ok hpair' hw hd
    intro w' d' hsame hpair''
    subst hsame
    apply (ih hpair'').bind
    intro ws f ws' f' _ hws hf
    exact ⟨congrArg (w :: ·) hws, hf⟩

end Run

end Songsheet.Reading
