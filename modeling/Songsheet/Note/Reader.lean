import Songsheet.Note
import Songsheet.Text
import Songsheet.Token.Reader

/-!
# Reading notes

A note is written as a key, an octave and a duration clause such as `C#4[3/2]`. The octave and
the clause may be left out, each on its own, and are then those of the note before. A key that
spells no pitch is a rest. A note ends at a blank or at the end of the text.

* `Reading.durationClause` — reads a duration behind its opening bracket.
* `Reading.writtenNote` — reads one note as it is written; `Reading.note` reads it behind a
  given note.
* `length_of_writtenNote` — where a key character is next, a note that is read takes it.
-/

namespace Songsheet.Reading

/-! ## Duration clauses -/

/-- Reads one of the two numbers of a duration clause. -/
def lengthPart (part : LengthPart) : Reading Nat := do
  let token ← nextToken
  match token.kind with
  | .number digits =>
    match Text.decimalBelow? UInt32.size digits with
    | some n => return n
    | none => fail (.lengthTooLarge part digits) token.position
  | found => fail (.expectedLength part found) token.position

/-- Reads a given mark of a duration clause. -/
def mark (expected : TokenKind) : Reading Unit := do
  let token ← nextToken
  if token.kind = expected then return ()
  else fail (.expectedMark expected token.kind) token.position

/-- Reads a duration behind its opening bracket, which stands at `start`: two numbers with a
slash between them and a closing bracket. -/
def durationClause (start : Position) : Reading Duration := do
  let num ← lengthPart .numerator
  mark .slash
  let den ← lengthPart .denominator
  mark .closeBracket
  match Duration.ofRatio num den with
  | .ok duration => return duration
  | .error fault => fail (.invalidDuration num den fault) start

/-! ## Notes -/

/-- The octave that `token` writes, if it does, and the token behind it. -/
def octaveAt (token : Token) : Reading (Option UInt8 × Token) :=
  match token.kind with
  | .number digits =>
    match Text.decimalBelow? UInt8.size digits with
    | some n => do return (some (UInt8.ofNat n), ← nextToken)
    | none => fail (.octaveOutOfRange digits) token.position
  | _ => pure (none, token)

/-- The duration of the clause that `token` opens, if it opens one, and the token behind it. -/
def durationAt (token : Token) : Reading (Option Duration × Token) :=
  match token.kind with
  | .openBracket => do
    let duration ← durationClause token.position
    return (some duration, ← nextToken)
  | _ => pure (none, token)

/-- Checks that `token` may follow a note: a blank or the end of the text. -/
def noteEnd (token : Token) : Reading Unit :=
  match token.kind with
  | .blank | .endOfText => pure ()
  | found => fail (.trailingCharacters found) token.position

/-- Reads what may follow a key: an octave, a duration clause, and then a blank or the end. -/
def noteTail (pitch : Pitch) : Reading WrittenNote := do
  let first ← nextToken
  let (octave, second) ← octaveAt first
  let (duration, last) ← durationAt second
  noteEnd last
  return ⟨pitch, octave, duration⟩

/-- Reads a note that begins with `token`; at the end of the text there is none. -/
def noteFrom (token : Token) : Reading (Option WrittenNote) :=
  match token.kind with
  | .endOfText => pure none
  | .key spelling => do return some (← noteTail ((Pitch.ofSpelling? spelling).getD .rest))
  | found => fail (.expectedKey found) token.position

/-- Reads one note as it is written, behind a gap, if there is one before the end. -/
def writtenNote : Reading (Option WrittenNote) := do
  skipGap
  noteFrom (← nextToken)

/-- Reads one note behind a given note. Where the text ends before a key, the answer is the
empty note. -/
def note (previous : Note) : Reading Note := do
  match ← writtenNote with
  | some w => return w.sounding previous
  | none => return .empty

/-! ## Moving on and progress -/

theorem forward_lengthPart (part : LengthPart) : Forward (lengthPart part) := by
  refine forward_bind forward_nextToken fun token => ?_
  split
  · split
    · exact forward_pure _
    · exact forward_fail _ _
  · exact forward_fail _ _

theorem forward_mark (expected : TokenKind) : Forward (mark expected) := by
  refine forward_bind forward_nextToken fun token => ?_
  split
  · exact forward_pure _
  · exact forward_fail _ _

theorem forward_durationClause (start : Position) : Forward (durationClause start) := by
  refine forward_bind (forward_lengthPart _) fun num => forward_bind (forward_mark _) fun _ =>
    forward_bind (forward_lengthPart _) fun den => forward_bind (forward_mark _) fun _ => ?_
  split
  · exact forward_pure _
  · exact forward_fail _ _

theorem forward_octaveAt (token : Token) : Forward (octaveAt token) := by
  unfold octaveAt
  split
  · split
    · exact forward_bind forward_nextToken fun _ => forward_pure _
    · exact forward_fail _ _
  · exact forward_pure _

theorem forward_durationAt (token : Token) : Forward (durationAt token) := by
  unfold durationAt
  split
  · exact forward_bind (forward_durationClause _) fun _ =>
      forward_bind forward_nextToken fun _ => forward_pure _
  · exact forward_pure _

theorem forward_noteEnd (token : Token) : Forward (noteEnd token) := by
  unfold noteEnd
  split
  · exact forward_pure _
  · exact forward_pure _
  · exact forward_fail _ _

theorem forward_noteTail (pitch : Pitch) : Forward (noteTail pitch) :=
  forward_bind forward_nextToken fun _ => forward_bind (forward_octaveAt _) fun _ =>
    forward_bind (forward_durationAt _) fun _ => forward_bind (forward_noteEnd _) fun _ =>
      forward_pure _

theorem forward_noteFrom (token : Token) : Forward (noteFrom token) := by
  unfold noteFrom
  split
  · exact forward_pure _
  · exact forward_bind (forward_noteTail _) fun _ => forward_pure _
  · exact forward_fail _ _

theorem forward_writtenNote : Forward writtenNote :=
  forward_bind forward_skipGap fun _ => forward_bind forward_nextToken fun token =>
    forward_noteFrom token

theorem forward_note (previous : Note) : Forward (note previous) := by
  refine forward_bind forward_writtenNote fun w => ?_
  cases w with
  | some w => exact forward_pure _
  | none => exact forward_pure _

theorem isKeyChar_slash : isKeyChar '/' = false := by decide

/-- No key character is a blank. -/
theorem isBlank_of_isKeyChar {c : Char} (h : isKeyChar c) : Text.isBlank c = false := by
  simp only [isKeyChar, Bool.or_eq_true, Bool.and_eq_true, decide_eq_true_eq, beq_iff_eq,
    Char.le_def, UInt32.le_iff_toNat_le] at h
  rcases h with (((⟨hl, hu⟩ | ⟨hl, hu⟩) | rfl) | rfl) | rfl
  · change 65 ≤ c.toNat at hl
    change c.toNat ≤ 71 at hu
    exact Text.isBlank_of_printable (by omega) (by omega)
  · change 97 ≤ c.toNat at hl
    change c.toNat ≤ 103 at hu
    exact Text.isBlank_of_printable (by omega) (by omega)
  all_goals decide

theorem skip_apply_of_peek? {blank : Char → Bool} {c : Cursor} {first : Char}
    (hc : c.peek? = some first) (hb : blank first = false) (hs : first ≠ '/') :
    skip blank c = .ok () c := by
  obtain ⟨rest, position⟩ := c
  cases rest with
  | nil => simp [Cursor.peek?] at hc
  | cons x rest =>
    have hx : x = first := by simpa [Cursor.peek?] using hc
    subst hx
    have hg := gapAt_cons hb hs rest
    simp [skip, hg, Cursor.past]

/-- Where a key character is next, the next token is no end of the text, and its gap is
empty. -/
theorem nextToken_of_isKeyChar {c d : Cursor} {first : Char} {t : Token}
    (hc : c.peek? = some first) (hk : isKeyChar first) (ht : nextToken c = .ok t d) :
    t.kind ≠ .endOfText := by
  have hs : first ≠ '/' := by
    rintro rfl
    simp [isKeyChar_slash] at hk
  have hsc : skipComments c = .ok () c := skip_apply_of_peek? hc rfl hs
  rw [nextToken_apply, hsc] at ht
  dsimp only at ht
  rw [hc] at ht
  dsimp only at ht
  split at ht
  · simp at ht
  · rename_i kind d' hkf
    simp only [EStateM.Result.ok.injEq] at ht
    rw [← ht.1]
    exact kindFrom_ne_endOfText hkf

theorem skipGap_of_isKeyChar {c : Cursor} {first : Char} (hc : c.peek? = some first)
    (hk : isKeyChar first) : skipGap c = .ok () c := by
  refine skip_apply_of_peek? hc (isBlank_of_isKeyChar hk) ?_
  rintro rfl
  simp [isKeyChar_slash] at hk

/-- Where a key character is next, a note that is read takes at least that character. -/
theorem length_of_writtenNote {c d : Cursor} {first : Char} {w : Option WrittenNote}
    (hc : c.peek? = some first) (hk : isKeyChar first) (h : writtenNote c = .ok w d) :
    d.rest.length < c.rest.length := by
  rw [writtenNote, bind_apply, skipGap_of_isKeyChar hc hk] at h
  dsimp only at h
  rw [bind_apply] at h
  cases ht : nextToken c with
  | error e d' => rw [ht] at h; simp at h
  | ok t d' =>
    rw [ht] at h
    have := length_of_nextToken ht (nextToken_of_isKeyChar hc hk ht)
    have := ((forward_noteFrom t).ok h).length_le
    omega

/-! ## A note alone -/

/-- The note that a text begins with, behind the note that a document begins with. -/
def noteOfText (text : String) : Except Diagnostic Note :=
  match note .middleC (.ofText text) with
  | .ok n _ => .ok n
  | .error d _ => .error d

end Songsheet.Reading
