import Songsheet.Proofs.Directive.Replace
import Songsheet.Proofs.Token.Text

/-!
# The text of notes

How a note is spelled: a key, an octave or none, a duration clause or none, with comments between
these, and a blank or the end of the text behind it. The reader of notes accepts exactly such texts.

* `NoteForm` — a note as it is spelled, with its key; `NoteForm.written` is what it says.
* `NoteText`, `NotesText` — the texts of a note and of several notes.
* `ClauseText`, `parts_of_clauseText` — a duration clause with any two numbers, and its reading.
* `tailText_of_noteTail`, `noteTail_of_tailText` — what is read behind a key is of this form, and
  what is of this form is read.
* `notesText_of_notes`, `notes_of_notesText` — the same for the notes of a sequence.
-/

namespace Songsheet

variable {text rest after : List Char}

/-! ## Durations -/

/-- A ratio is a duration if it is defined and stays below 256 bars. -/
theorem Duration.ofRatio_eq_ok {num den : Nat} {d : Duration} :
    Duration.ofRatio num den = .ok d ↔
      den ≠ 0 ∧ num < 256 * den ∧
        d = ⟨UInt8.ofNat (num / den), UInt8.ofNat (256 * num / den % 256)⟩ := by
  unfold Duration.ofRatio
  by_cases hden : den = 0
  · simp [hden]
  · have hshort : 256 ≤ num / den ↔ ¬ num < 256 * den := by
      rw [Nat.le_div_iff_mul_le (Nat.pos_of_ne_zero hden), Nat.not_lt]
    by_cases hnum : num < 256 * den
    · simp [hden, hshort, hnum, Duration.partsPerBar, eq_comm]
    · simp [hden, hshort, hnum]

/-! ## The forms of notes -/

/-- A note as it is spelled: its key, and an octave and a duration that may be missing. -/
structure NoteForm where
  key : String
  octave : Option UInt8
  duration : Option Duration
  deriving DecidableEq, Repr

namespace NoteForm

/-- The pitch that the key spells; a key that spells none is a rest. -/
def pitch (f : NoteForm) : Pitch :=
  (Pitch.ofSpelling? f.key).getD .rest

/-- What a note says, whatever its key looks like. -/
def written (f : NoteForm) : WrittenNote :=
  ⟨f.pitch, f.octave, f.duration⟩

end NoteForm

/-- A numeral for an octave and the comments behind it, or nothing. -/
inductive OctaveText : Option UInt8 → List Char → List Char → Prop
  | absent {rest : List Char} : OctaveText none rest rest
  | given {digits : String} {n : Nat} {text rest : List Char}
      (value : Text.decimalBelow? UInt8.size digits = some n)
      (comments : CommentsText text rest) :
      OctaveText (some (UInt8.ofNat n)) (digits.toList ++ text) rest

/-- A duration clause such as `[3/2]` and the comments behind it, or nothing. -/
inductive DurationText : Option Duration → List Char → List Char → Prop
  | absent {rest : List Char} : DurationText none rest rest
  | given {num den : String} {n m : Nat} {t₁ t₂ t₃ t₄ rest : List Char}
      (numerator : Text.decimalBelow? UInt32.size num = some n)
      (denominator : Text.decimalBelow? UInt32.size den = some m)
      (defined : m ≠ 0) (short : n < 256 * m)
      (opening : CommentsText t₁ (num.toList ++ t₂))
      (slash : CommentsText t₂ ('/' :: (den.toList ++ t₃)))
      (closing : CommentsText t₃ (']' :: t₄)) (comments : CommentsText t₄ rest) :
      DurationText (some ⟨UInt8.ofNat (n / m), UInt8.ofNat (256 * n / m % 256)⟩) ('[' :: t₁) rest

/-- A duration clause behind its opening bracket, whatever its two numbers are. -/
def ClauseText (n m : Nat) (text rest : List Char) : Prop :=
  ∃ num den t₁ t₂, Text.decimalBelow? UInt32.size num = some n ∧
    Text.decimalBelow? UInt32.size den = some m ∧ CommentsText text (num.toList ++ t₁) ∧
    CommentsText t₁ ('/' :: (den.toList ++ t₂)) ∧ CommentsText t₂ (']' :: rest)

/-- What follows a key: comments, an octave or none and a duration or none, and then the word ends. -/
def TailText (octave : Option UInt8) (duration : Option Duration) (text rest : List Char) : Prop :=
  ∃ t₁ t₂, CommentsText text t₁ ∧ OctaveText octave t₁ t₂ ∧ DurationText duration t₂ rest ∧
    WordEnd rest

/-- A note: its key and what follows it. -/
def NoteText (f : NoteForm) (text rest : List Char) : Prop :=
  ∃ tail, text = f.key.toList ++ tail ∧ TailText f.octave f.duration tail rest

/-- A key that is made of key characters only. -/
def IsKey (key : String) : Prop :=
  key.toList ≠ [] ∧ ∀ c ∈ key.toList, isKeyChar c

theorem IsKey.isKeyToken {key : String} (h : IsKey key) : Reading.IsKeyToken key := by
  obtain ⟨first, others, hfirst⟩ := List.exists_cons_of_ne_nil h.1
  have hk : ∀ x ∈ first :: others, isKeyChar x := hfirst ▸ h.2
  exact ⟨first, others, hfirst, Reading.keyStart_of_isKeyChar (hk first (by simp)),
    fun x hx => hk x (by simp [hx])⟩

theorem Reading.IsKeyToken.isKey {key : String} {first : Char} (h : IsKeyToken key)
    (hhead : key.toList.head? = some first) (hk : isKeyChar first) : IsKey key := by
  obtain ⟨x, others, hx, -, hothers⟩ := h
  obtain rfl : x = first := by simpa [hx] using hhead
  refine ⟨by simp [hx], fun y hy => ?_⟩
  rw [hx, List.mem_cons] at hy
  rcases hy with rfl | hy
  · exact hk
  · exact hothers y hy

/-- Notes with gaps in front of them. -/
inductive NotesText : List NoteForm → List Char → List Char → Prop
  | nothing {rest : List Char} : NotesText [] rest rest
  | note {f : NoteForm} {others : List NoteForm} {text t₁ t₂ rest : List Char}
      (gap : GapText Text.isBlank text t₁) (key : IsKey f.key) (note : NoteText f t₁ t₂)
      (behind : NotesText others t₂ rest) : NotesText (f :: others) text rest

/-! ## Reading durations -/

namespace Reading

variable {c d : Cursor} {t : Token}

theorem durationClause_eq_ok {start : Position} {duration : Duration} :
    durationClause start c = .ok duration d ↔
      ∃ n m c₁ c₂ c₃, lengthPart .numerator c = .ok n c₁ ∧ mark .slash c₁ = .ok () c₂ ∧
        lengthPart .denominator c₂ = .ok m c₃ ∧ mark .closeBracket c₃ = .ok () d ∧
        Duration.ofRatio n m = .ok duration := by
  simp only [durationClause, bind_eq_ok]
  constructor
  · intro h
    obtain ⟨n, c₁, hn, _, c₂, hslash, m, c₃, hm, _, c₄, hclose, h⟩ := h
    cases hratio : Duration.ofRatio n m with
    | error fault =>
      simp only [hratio] at h
      exact absurd h fail_ne_ok
    | ok found =>
      simp only [hratio] at h
      obtain ⟨rfl, rfl⟩ := pure_eq_ok.1 h
      exact ⟨n, m, c₁, c₂, c₃, hn, hslash, hm, hclose, hratio⟩
  · intro h
    obtain ⟨n, m, c₁, c₂, c₃, hn, hslash, hm, hclose, hratio⟩ := h
    refine ⟨n, c₁, hn, (), c₂, hslash, m, c₃, hm, (), d, hclose, ?_⟩
    simp only [hratio]
    rfl

theorem commentsText_of_lengthPart {part : LengthPart} {n : Nat} (h : lengthPart part c = .ok n d) :
    ∃ digits, Text.decimalBelow? UInt32.size digits = some n ∧
      CommentsText c.rest (digits.toList ++ d.rest) := by
  obtain ⟨t, digits, ht, hk, hn⟩ := lengthPart_eq_ok.1 h
  exact ⟨digits, hn, commentsText_of_number ht hk⟩

theorem lengthPart_of_commentsText {digits : String} {n : Nat} (part : LengthPart)
    (hn : Text.decimalBelow? UInt32.size digits = some n)
    (hcomments : CommentsText c.rest (digits.toList ++ rest))
    (hrest : ∀ x, rest.head? = some x → x.isDigit = false) :
    ∃ d, lengthPart part c = .ok n d ∧ d.rest = rest := by
  obtain ⟨p, d, hd, hdrest⟩ := nextToken_of_number hcomments hn hrest
  exact ⟨d, lengthPart_eq_ok.2 ⟨_, digits, hd, rfl, hn⟩, hdrest⟩

theorem mark_of_commentsText {x : Char} {kind : TokenKind} (hx : TokenKind.ofMark? x = some kind)
    (hcomments : CommentsText c.rest (x :: rest))
    (hslash : x = '/' → ∀ y, rest.head? = some y → y ≠ '/' ∧ y ≠ '*') :
    ∃ d, mark kind c = .ok () d ∧ d.rest = rest := by
  obtain ⟨p, d, hd, hdrest⟩ := nextToken_of_markText hx hcomments hslash
  exact ⟨d, mark_eq_ok.2 ⟨_, hd, rfl⟩, hdrest⟩

/-- No digit follows where comments lead to something else. -/
theorem noDigit_of_commentsText (h : CommentsText text rest)
    (hrest : ∀ x, rest.head? = some x → x.isDigit = false) :
    ∀ x, text.head? = some x → x.isDigit = false :=
  h.head?_of_stop (by simp) (by decide) hrest

theorem durationText_of_durationClause {start : Position} {duration : Duration}
    (h : durationClause start c = .ok duration d) (hcomments : CommentsText d.rest rest) :
    DurationText (some duration) ('[' :: c.rest) rest := by
  obtain ⟨n, m, c₁, c₂, c₃, hn, hslash, hm, hclose, hratio⟩ := durationClause_eq_ok.1 h
  obtain ⟨num, hnum, hopening⟩ := commentsText_of_lengthPart hn
  obtain ⟨t, ht, hk⟩ := mark_eq_ok.1 hslash
  obtain ⟨den, hden, hbehind⟩ := commentsText_of_lengthPart hm
  obtain ⟨t', ht', hk'⟩ := mark_eq_ok.1 hclose
  obtain ⟨hdefined, hshort, rfl⟩ := Duration.ofRatio_eq_ok.1 hratio
  -- behind the slash no comment can begin
  have hnone : c₂.rest = den.toList ++ c₃.rest :=
    hbehind.eq_of_head? fun hhead => (head?_of_slash ht hk '/' hhead).1 rfl
  have hslash : CommentsText c₁.rest ('/' :: c₂.rest) := commentsText_of_mark (by rw [hk]; rfl) ht
  have hclosing : CommentsText c₃.rest (']' :: d.rest) :=
    commentsText_of_mark (by rw [hk']; rfl) ht'
  rw [hnone] at hslash
  exact .given hnum hden hdefined hshort hopening hslash hclosing hcomments

/-- The four parts of a duration clause are read one after the other. -/
theorem parts_of_clauseText {n m : Nat} (h : ClauseText n m c.rest rest) :
    ∃ c₁ c₂ c₃ d, lengthPart .numerator c = .ok n c₁ ∧ mark .slash c₁ = .ok () c₂ ∧
      lengthPart .denominator c₂ = .ok m c₃ ∧ mark .closeBracket c₃ = .ok () d ∧
      d.rest = rest := by
  obtain ⟨num, den, t₁, t₂, hnum, hden, opening, slash, closing⟩ := h
  have hden₀ : ∀ x, (den.toList ++ t₂).head? = some x → x ≠ '/' ∧ x ≠ '*' := by
    intro x hx
    obtain ⟨first, hfirst, hdigit⟩ := Text.exists_digit_of_decimalBelow? hden t₂
    obtain rfl : first = x := Option.some.inj (hfirst.symm.trans hx)
    exact ne_of_isDigit hdigit
  have hnum₀ : ∀ x, t₁.head? = some x → x.isDigit = false :=
    noDigit_of_commentsText slash (by rintro x ⟨⟩; decide)
  have hden₁ : ∀ x, t₂.head? = some x → x.isDigit = false :=
    noDigit_of_commentsText closing (by rintro x ⟨⟩; decide)
  obtain ⟨c₁, hn, hc₁⟩ := lengthPart_of_commentsText .numerator hnum opening hnum₀
  obtain ⟨c₂, hslash, hc₂⟩ := mark_of_commentsText (x := '/') rfl (hc₁ ▸ slash) fun _ => hden₀
  have hbehind : CommentsText c₂.rest (den.toList ++ t₂) := hc₂ ▸ .nothing
  obtain ⟨c₃, hm, hc₃⟩ := lengthPart_of_commentsText .denominator hden hbehind hden₁
  obtain ⟨d, hclose, hd⟩ := mark_of_commentsText (x := ']') rfl (hc₃ ▸ closing) (by simp)
  exact ⟨c₁, c₂, c₃, d, hn, hslash, hm, hclose, hd⟩

theorem durationClause_of_durationText {duration : Duration} (start : Position)
    (h : DurationText (some duration) ('[' :: text) rest) (hc : c.rest = text) :
    ∃ d, durationClause start c = .ok duration d ∧ CommentsText d.rest rest := by
  cases h with
  | @given num den n m _ t₂ t₃ t₄ _ hnum hden hdefined hshort opening slash closing comments =>
    obtain ⟨c₁, c₂, c₃, d, hn, hslash, hm, hclose, hd⟩ :=
      parts_of_clauseText ⟨num, den, t₂, t₃, hnum, hden, hc ▸ opening, slash, closing⟩
    exact ⟨d, durationClause_eq_ok.2 ⟨n, m, c₁, c₂, c₃, hn, hslash, hm, hclose,
      Duration.ofRatio_eq_ok.2 ⟨hdefined, hshort, rfl⟩⟩, hd ▸ comments⟩

/-! ## Reading what follows a key -/

/-- The token `t` has been read from `c` on, and a duration clause or the end of the word follows. -/
theorem durationText_of_durationAt {duration : Option Duration} {s : Token} {b : Cursor}
    (ht : nextToken b = .ok t c) (h : durationAt t c = .ok (duration, s) d) (hs : s.kind.IsGap) :
    ∃ middle rest, CommentsText b.rest middle ∧ DurationText duration middle rest ∧ WordEnd rest ∧
      BehindGap rest d.rest := by
  rcases durationAt_eq_ok.1 h with ⟨found, e, hk, hfound, rfl, hnext⟩ | ⟨-, rfl, rfl, rfl⟩
  · obtain ⟨rest, hcomments, hend, hgap⟩ := commentsText_of_gap hnext hs
    have hopening : CommentsText b.rest ('[' :: c.rest) := commentsText_of_mark (by rw [hk]; rfl) ht
    exact ⟨_, rest, hopening, durationText_of_durationClause hfound hcomments, hend, hgap⟩
  · obtain ⟨rest, hcomments, hend, hgap⟩ := commentsText_of_gap ht hs
    exact ⟨rest, rest, hcomments, .absent, hend, hgap⟩

theorem tailText_of_noteTail {pitch : Pitch} {w : WrittenNote} (h : noteTail pitch c = .ok w d) :
    w.pitch = pitch ∧
      ∃ rest, TailText w.octave w.duration c.rest rest ∧ BehindGap rest d.rest := by
  obtain ⟨first, c₁, octave, second, c₂, duration, last, hfirst, hoctave, hduration, hlast, rfl⟩ :=
    noteTail_eq_ok.1 h
  refine ⟨rfl, ?_⟩
  rcases octaveAt_eq_ok.1 hoctave with ⟨digits, n, hk, hn, rfl, hnext⟩ | ⟨-, rfl, rfl, rfl⟩
  · obtain ⟨middle, rest, hcomments, htext, hend, hgap⟩ :=
      durationText_of_durationAt hnext hduration hlast
    exact ⟨rest, ⟨_, middle, commentsText_of_number hfirst hk, .given hn hcomments, htext, hend⟩,
      hgap⟩
  · obtain ⟨middle, rest, hcomments, htext, hend, hgap⟩ :=
      durationText_of_durationAt hfirst hduration hlast
    exact ⟨rest, ⟨middle, middle, hcomments, .absent, htext, hend⟩, hgap⟩

/-- In front of a duration clause or the end of the word, the next token is read, and behind it the
clause or the end. -/
theorem durationAt_of_durationText {duration : Option Duration} {middle : List Char}
    (hcomments : CommentsText c.rest middle) (h : DurationText duration middle rest)
    (hend : WordEnd rest) (hgap : BehindGap rest after) :
    ∃ t c₁ s d, nextToken c = .ok t c₁ ∧ (∀ digits, t.kind ≠ .number digits) ∧
      durationAt t c₁ = .ok (duration, s) d ∧ s.kind.IsGap ∧ d.rest = after := by
  cases duration with
  | none =>
    cases h with
    | absent =>
      obtain ⟨t, d, ht, hk, hd⟩ := nextToken_of_wordEnd hcomments hend hgap
      have hother : (∀ digits, t.kind ≠ .number digits) ∧ t.kind ≠ .openBracket := by
        rcases hk with hk | hk <;> simp [hk]
      exact ⟨t, d, t, d, ht, hother.1, durationAt_eq_ok.2 (.inr ⟨hother.2, rfl, rfl, rfl⟩), hk, hd⟩
  | some found =>
    obtain ⟨text, rfl⟩ : ∃ text, middle = '[' :: text := by
      cases h with
      | given => exact ⟨_, rfl⟩
    obtain ⟨p, c₁, ht, hc₁⟩ := nextToken_of_markText (x := '[') rfl hcomments (by simp)
    obtain ⟨e, hclause, he⟩ := durationClause_of_durationText p h hc₁
    obtain ⟨s, d, hs, hk, hd⟩ := nextToken_of_wordEnd he hend hgap
    exact ⟨_, c₁, s, d, ht, by simp, durationAt_eq_ok.2 (.inl ⟨found, e, rfl, hclause, rfl, hs⟩),
      hk, hd⟩

theorem noDigit_of_durationText {duration : Option Duration} {middle : List Char}
    (h : DurationText duration middle rest) (hend : WordEnd rest) :
    ∀ x, middle.head? = some x → x.isDigit = false := by
  cases h with
  | absent => exact hend.stops fun _ => isBlank_of_isDigit
  | given => rintro x ⟨⟩; decide

theorem noteTail_of_tailText {octave : Option UInt8} {duration : Option Duration} (pitch : Pitch)
    (h : TailText octave duration c.rest rest) (hgap : BehindGap rest after) :
    ∃ d, noteTail pitch c = .ok ⟨pitch, octave, duration⟩ d ∧ d.rest = after := by
  obtain ⟨t₁, t₂, hcomments, hoctave, hduration, hend⟩ := h
  cases hoctave with
  | absent =>
    obtain ⟨t, c₁, s, d, ht, hk, hduration', hs, hd⟩ :=
      durationAt_of_durationText hcomments hduration hend hgap
    exact ⟨d, noteTail_eq_ok.2 ⟨t, c₁, none, t, c₁, duration, s, ht,
      octaveAt_eq_ok.2 (.inr ⟨hk, rfl, rfl, rfl⟩), hduration', hs, rfl⟩, hd⟩
  | @given digits n text _ value comments =>
    have hstop : ∀ x, text.head? = some x → x.isDigit = false :=
      noDigit_of_commentsText comments (noDigit_of_durationText hduration hend)
    obtain ⟨p, c₁, ht₁, hc₁⟩ := nextToken_of_number hcomments value hstop
    obtain ⟨t, c₂, s, d, ht, -, hduration', hs, hd⟩ :=
      durationAt_of_durationText (hc₁ ▸ comments) hduration hend hgap
    exact ⟨d, noteTail_eq_ok.2 ⟨_, c₁, _, t, c₂, duration, s, ht₁,
      octaveAt_eq_ok.2 (.inl ⟨digits, n, rfl, value, rfl, ht⟩), hduration', hs, rfl⟩, hd⟩

/-! ## Reading notes -/

theorem isKeyChar_of_isDigit {x : Char} (h : x.isDigit) : isKeyChar x = false := by
  rw [Bool.eq_false_iff]
  intro hk
  have hdigit := (keyStart_of_isKeyChar hk).plain.2.1
  rw [h] at hdigit
  cases hdigit

/-- What follows a key does not go on with it. -/
theorem noKey_of_tailText {octave : Option UInt8} {duration : Option Duration}
    (h : TailText octave duration text rest) : ∀ x, text.head? = some x → isKeyChar x = false := by
  obtain ⟨t₁, t₂, hcomments, hoctave, hduration, hend⟩ := h
  refine hcomments.head?_of_stop (by simp) (by decide) ?_
  cases hoctave with
  | absent =>
    cases hduration with
    | absent => exact hend.stops fun _ => isBlank_of_isKeyChar
    | given => rintro x ⟨⟩; decide
  | given value comments =>
    intro x hx
    obtain ⟨first, hfirst, hdigit⟩ := Text.exists_digit_of_decimalBelow? value _
    obtain rfl : first = x := Option.some.inj (hfirst.symm.trans hx)
    exact isKeyChar_of_isDigit hdigit

/-- What is read as a note is the text of one, with a gap in front of it and behind it. -/
theorem noteText_of_some {w : WrittenNote} (h : writtenNote c = .ok (some w) d) :
    ∃ f text rest, f.written = w ∧ GapText Text.isBlank c.rest text ∧ IsKeyToken f.key ∧
      NoteText f text rest ∧ BehindGap rest d.rest := by
  obtain ⟨e, t, c₁, key, he, ht, hkey, htail⟩ := writtenNote_eq_some.1 h
  obtain ⟨htoken, hcomments⟩ := commentsText_of_key ht hkey
  have hgap : GapText Text.isBlank c.rest (key.toList ++ c₁.rest) :=
    (skipGap_eq_ok he).gapText.trans (hcomments.mono (by simp))
  obtain ⟨hpitch, rest, htext, hbehind⟩ := tailText_of_noteTail htail
  refine ⟨⟨key, w.octave, w.duration⟩, _, rest, ?_, hgap, htoken, ⟨c₁.rest, rfl, htext⟩, hbehind⟩
  show (⟨(Pitch.ofSpelling? key).getD .rest, w.octave, w.duration⟩ : WrittenNote) = w
  rw [← hpitch]

/-- Behind the gap in front of a note its key begins. -/
theorem behindGap_of_isKeyToken {f : NoteForm} (hgap : GapText Text.isBlank text after)
    (hkey : IsKeyToken f.key) (h : NoteText f after rest) : BehindGap text after := by
  obtain ⟨tail, rfl, -⟩ := h
  obtain ⟨first, others, hfirst, hstart, -⟩ := hkey
  refine hgap.behindGap (fun _ h => h) (behindGap_of_head?_eq (c := first) ?_ ?_)
  · rw [hfirst]
    rfl
  · exact ⟨hstart.plain.1, hstart.ne_slash⟩

theorem writtenNote_of_isKeyToken {f : NoteForm} (hfront : GapText Text.isBlank c.rest text)
    (hkey : IsKeyToken f.key) (h : NoteText f text rest) (hgap : BehindGap rest after) :
    ∃ d, writtenNote c = .ok (some f.written) d ∧ d.rest = after := by
  obtain ⟨e, he, herest⟩ := skipGap_of_behindGap (behindGap_of_isKeyToken hfront hkey h)
  obtain ⟨tail, hrest, htail⟩ := h
  obtain ⟨p, c₁, ht, hc₁⟩ := nextToken_of_key (c := e) hkey (noKey_of_tailText htail)
    (herest.trans hrest ▸ .nothing)
  obtain ⟨d, hd, hdrest⟩ := noteTail_of_tailText f.pitch (hc₁ ▸ htail) hgap
  exact ⟨d, writtenNote_eq_some.2 ⟨e, _, c₁, f.key, he, ht, rfl, hd⟩, hdrest⟩

/-- Where a key character comes first, what is read is the text of a note and the gap behind it. -/
theorem noteText_of_writtenNote {first : Char} {w : WrittenNote} (hp : c.peek? = some first)
    (hk : isKeyChar first) (h : writtenNote c = .ok (some w) d) :
    ∃ f rest, f.written = w ∧ IsKey f.key ∧ NoteText f c.rest rest ∧ BehindGap rest d.rest := by
  obtain ⟨f, text, rest, hw, hfront, hkey, hnote, hgap⟩ := noteText_of_some h
  -- no gap stands in front of a key character
  obtain rfl : text = c.rest := (behindGap_of_isKeyToken hfront hkey hnote).unique
    (behindGap_of_head?_eq hp (inner_isKeyChar.head hk))
  refine ⟨f, rest, hw, hkey.isKey ?_ hk, hnote, hgap⟩
  obtain ⟨tail, hrest, -⟩ := hnote
  obtain ⟨x, others, hx, -, -⟩ := hkey
  rw [Cursor.peek?, hrest, hx] at hp
  rw [hx]
  exact hp

theorem writtenNote_of_noteText {f : NoteForm} (hkey : IsKey f.key) (h : NoteText f c.rest rest)
    (hgap : BehindGap rest after) :
    ∃ d, writtenNote c = .ok (some f.written) d ∧ d.rest = after :=
  writtenNote_of_isKeyToken .nothing hkey.isKeyToken h hgap

end Reading

/-! ## Notes with gaps in front of them -/

theorem head?_of_noteText {f : NoteForm} (hkey : IsKey f.key) (h : NoteText f text rest) :
    ∃ first, text.head? = some first ∧ isKeyChar first := by
  obtain ⟨tail, rfl, -⟩ := h
  obtain ⟨first, others, hfirst⟩ := List.exists_cons_of_ne_nil hkey.1
  exact ⟨first, by rw [hfirst]; rfl, hkey.2 first (by simp [hfirst])⟩

theorem behindGap_of_noteText {f : NoteForm} {t : List Char} (hgap : GapText Text.isBlank text t)
    (hkey : IsKey f.key) (h : NoteText f t rest) : BehindGap text t :=
  Reading.behindGap_of_isKeyToken hgap hkey.isKeyToken h

namespace NotesText

variable {forms : List NoteForm}

/-- A longer gap may stand in front of notes; where there are none, it stands in front of the rest. -/
theorem behind_gap {t : List Char} (h : NotesText forms t rest)
    (hgap : GapText Text.isBlank text t) :
    ∃ rest', NotesText forms text rest' ∧ GapText Text.isBlank rest' rest := by
  cases h with
  | nothing => exact ⟨text, .nothing, hgap⟩
  | note gap key note behind => exact ⟨rest, .note (hgap.trans gap) key note behind, .nothing⟩

theorem exists_behindGap (h : NotesText forms text rest) (hrest : BehindGap rest after) :
    ∃ opening, BehindGap text opening := by
  cases h with
  | nothing => exact ⟨after, hrest⟩
  | note gap key note behind => exact ⟨_, behindGap_of_noteText gap key note⟩

end NotesText

namespace Reading

variable {c d : Cursor} {forms : List NoteForm}

/-- What is read as the notes of a sequence is the text of notes and the gap behind them, and what
follows begins neither with a gap nor with a key character. -/
theorem notesText_of_notes {written : List WrittenNote} (h : notes c = .ok written d) :
    (∃ forms rest, forms.map NoteForm.written = written ∧ NotesText forms c.rest rest ∧
      GapText Text.isBlank rest d.rest) ∧
      gapAt Text.isBlank d.rest = .upTo [] d.rest ∧
      ∀ x, d.rest.head? = some x → isKeyChar x = false := by
  fun_induction notes c generalizing written with
  | case1 c e d₀ hg => simp at h
  | case2 c u d₀ hg hp =>
    obtain ⟨rfl, rfl⟩ := EStateM.Result.ok.inj h
    have hgap := skipGap_eq_ok hg
    refine ⟨⟨[], c.rest, rfl, .nothing, hgap.gapText⟩, hgap.gapAt_rest, fun x hx => ?_⟩
    rw [Cursor.peek?, hx] at hp
    simp at hp
  | case3 c u d₀ hg first hp hk e d₁ hn => simp at h
  | case4 c u d₀ hg first hp hk d₁ hn => exact absurd hn (writtenNote_ne_none hp hk)
  | case5 c u d₀ hg first hp hk w d₁ hn e d₂ hns ih => simp at h
  | case6 c u d₀ hg first hp hk w d₁ hn others d₂ hns ih =>
    obtain ⟨rfl, rfl⟩ := EStateM.Result.ok.inj h
    obtain ⟨⟨forms, rest, rfl, hforms, hrest⟩, hstop⟩ := ih hns
    obtain ⟨f, behind, rfl, hkey, hnote, hgap⟩ := noteText_of_writtenNote hp hk hn
    -- the gap behind this note stands in front of the next one
    obtain ⟨rest', hforms', hrest'⟩ := hforms.behind_gap hgap.gapText
    exact ⟨⟨f :: forms, rest', rfl, .note (skipGap_eq_ok hg).gapText hkey hnote hforms',
      hrest'.trans hrest⟩, hstop⟩
  | case7 c u d₀ hg first hp hk =>
    obtain ⟨rfl, rfl⟩ := EStateM.Result.ok.inj h
    have hgap := skipGap_eq_ok hg
    refine ⟨⟨[], c.rest, rfl, .nothing, hgap.gapText⟩, hgap.gapAt_rest, fun x hx => ?_⟩
    obtain rfl : first = x := Option.some.inj (hp.symm.trans hx)
    simpa using hk

/-- The text of notes is read in full where no key follows it, also if a part of the gap in front of
them has been taken before. -/
theorem notes_of_notesText (h : NotesText forms text rest) (hrest : BehindGap rest after)
    (hstop : ∀ x, after.head? = some x → isKeyChar x = false)
    (hc : ∀ opening, BehindGap text opening → BehindGap c.rest opening) :
    ∃ d, notes c = .ok (forms.map NoteForm.written) d ∧ d.rest = after := by
  induction h generalizing c with
  | nothing =>
    obtain ⟨d, hd, hdrest⟩ := skipGap_of_behindGap (hc after hrest)
    refine ⟨d, notes_of_stop hd fun x hx => ?_, hdrest⟩
    rw [Cursor.peek?, hdrest] at hx
    exact hstop x hx
  | @note f others text t₁ t₂ rest gap key note behind ih =>
    obtain ⟨e, he, herest⟩ := skipGap_of_behindGap (hc t₁ (behindGap_of_noteText gap key note))
    obtain ⟨first, hfirst, hk⟩ := head?_of_noteText key note
    obtain ⟨opening, hopening⟩ := behind.exists_behindGap hrest
    obtain ⟨c₁, hw, hc₁⟩ := writtenNote_of_noteText key (c := e) (herest ▸ note) hopening
    obtain ⟨d, hd, hdrest⟩ := ih (c := c₁) hrest fun other hother => by
      obtain rfl := hopening.unique hother
      exact hc₁ ▸ hopening.idem
    have hp : e.peek? = some first := by rw [Cursor.peek?, herest, hfirst]
    exact ⟨d, notes_of_note he hp hk hw hd, hdrest⟩

end Reading

end Songsheet
