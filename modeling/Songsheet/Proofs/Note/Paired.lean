import Songsheet.Proofs.Note
import Songsheet.Proofs.Reading.Paired

/-!
# Notes in pairs

A note is put together of tokens and gaps, and asks for nothing else. So two readings of notes come
to the same under every pairing under which tokens and gaps do.

* `Pairing.ReadsTokens`, `Pairing.ReadsGaps` — what is asked of a pairing.
* `reads_durationClause`, `reads_noteFrom` — the parts of a note, from tokens alone.
* `notes_eq`, `reads_notes` — a run of notes is one note after another, each behind a gap.
-/

namespace Songsheet.Reading

namespace Pairing

variable {P : Pairing}

/-- Tokens are read in pairs. -/
def ReadsTokens (P : Pairing) : Prop :=
  P.Reads (TokensAlike P.blur) nextToken nextToken

/-- Gaps are read in pairs. -/
def ReadsGaps (P : Pairing) : Prop :=
  P.Reads Eq skipGap skipGap

/-- No class of characters to which no blank belongs tells the next characters apart. -/
def PeeksAlike (P : Pairing) : Prop :=
  ∀ c c', P.pair c c' → ∀ p : Char → Bool, (∀ x, p x → Text.isBlank x = false) →
    c.peek?.any p = c'.peek?.any p

/-! ## Duration clauses -/

theorem reads_lengthPart (hnext : P.ReadsTokens) (part : LengthPart) :
    P.Reads Eq (lengthPart part) (lengthPart part) := by
  apply hnext.bind fun _ => ⟨rfl, rfl⟩
  intro t t' ⟨hkind, hplace⟩
  rw [← hkind]
  split
  · split
    · exact reads_pure rfl
    · exact reads_fail hplace
  · exact reads_fail hplace

theorem reads_mark (hnext : P.ReadsTokens) (expected : TokenKind) :
    P.Reads Eq (mark expected) (mark expected) := by
  apply hnext.bind fun _ => ⟨rfl, rfl⟩
  intro t t' ⟨hkind, hplace⟩
  rw [← hkind]
  split
  · exact reads_pure rfl
  · exact reads_fail hplace

theorem reads_durationClause (hnext : P.ReadsTokens) {start start' : Position}
    (hstart : P.blur.see start = P.blur.see start') :
    P.Reads Eq (durationClause start) (durationClause start') := by
  apply (reads_lengthPart hnext _).bind_eq
  intro num
  apply (reads_mark hnext _).bind_eq
  intro _
  apply (reads_lengthPart hnext _).bind_eq
  intro den
  apply (reads_mark hnext _).bind_eq
  intro _
  split
  · exact reads_pure rfl
  · exact reads_fail hstart

/-! ## One note -/

/-- A value and the token behind it, both alike. -/
def WithToken {α : Type} (b : Blur) (x x' : α × Token) : Prop :=
  x.1 = x'.1 ∧ TokensAlike b x.2 x'.2

theorem reads_octaveAt (hnext : P.ReadsTokens) {t t' : Token} (h : TokensAlike P.blur t t') :
    P.Reads (WithToken P.blur) (octaveAt t) (octaveAt t') := by
  unfold octaveAt
  rw [← h.1]
  split
  · split
    · exact hnext.map (fun _ _ ht => ⟨rfl, ht⟩) fun _ => ⟨rfl, rfl⟩
    · exact reads_fail h.2
  · exact reads_pure ⟨rfl, h⟩

theorem reads_durationAt (hnext : P.ReadsTokens) {t t' : Token} (h : TokensAlike P.blur t t') :
    P.Reads (WithToken P.blur) (durationAt t) (durationAt t') := by
  unfold durationAt
  rw [← h.1]
  split
  · apply (reads_durationClause hnext h.2).bind_eq
    intro duration
    exact hnext.map (fun _ _ ht => ⟨rfl, ht⟩) fun _ => ⟨rfl, rfl⟩
  · exact reads_pure ⟨rfl, h⟩

theorem reads_noteEnd {t t' : Token} (h : TokensAlike P.blur t t') :
    P.Reads Eq (noteEnd t) (noteEnd t') := by
  unfold noteEnd
  rw [← h.1]
  split
  · exact reads_pure rfl
  · exact reads_pure rfl
  · exact reads_fail h.2

theorem reads_noteTail (hnext : P.ReadsTokens) (pitch : Pitch) :
    P.Reads Eq (noteTail pitch) (noteTail pitch) := by
  apply hnext.bind fun _ => ⟨rfl, rfl⟩
  intro first first' hfirst
  apply (reads_octaveAt hnext hfirst).bind fun _ => ⟨rfl, rfl, rfl⟩
  intro ⟨octave, second⟩ ⟨octave', second'⟩ ⟨hoctave, hsecond⟩
  obtain rfl : octave = octave' := hoctave
  apply (reads_durationAt hnext hsecond).bind fun _ => ⟨rfl, rfl, rfl⟩
  intro ⟨duration, last⟩ ⟨duration', last'⟩ ⟨hduration, hlast⟩
  obtain rfl : duration = duration' := hduration
  apply (reads_noteEnd hlast).bind_eq
  intro _
  exact reads_pure rfl

theorem reads_noteFrom (hnext : P.ReadsTokens) {t t' : Token} (h : TokensAlike P.blur t t') :
    P.Reads Eq (noteFrom t) (noteFrom t') := by
  unfold noteFrom
  rw [← h.1]
  split
  · exact reads_pure rfl
  · apply (reads_noteTail hnext _).bind_eq
    intro w
    exact reads_pure rfl
  · exact reads_fail h.2

theorem reads_writtenNote (hnext : P.ReadsTokens) (hgap : P.ReadsGaps) :
    P.Reads Eq writtenNote writtenNote := by
  apply hgap.bind_eq
  intro _
  exact hnext.bind (fun _ => ⟨rfl, rfl⟩) fun _ _ ht => reads_noteFrom hnext ht

end Pairing

/-! ## Runs of notes -/

/-- A note and the notes behind it; behind the end of the text there are none. -/
def notesBehind : Option WrittenNote → Reading (List WrittenNote)
  | some w => do return w :: (← notes)
  | none => pure []

/-- The notes behind a gap, where `next` is the next character. -/
def notesFrom (next : Option Char) : Reading (List WrittenNote) :=
  if next.any isKeyChar then do notesBehind (← writtenNote) else pure []

theorem notes_eq : notes = (do
    skipGap
    notesFrom (← peek?)) := by
  funext c
  conv => lhs; rw [notes]
  rw [bind_apply]
  cases hgap : skipGap c with
  | error e d => rfl
  | ok _ d =>
    simp only [bind_apply, peek?, notesFrom]
    cases hp : d.peek? with
    | none => rfl
    | some first =>
      simp only [Option.any_some]
      by_cases hk : isKeyChar first
      · rw [dif_pos hk, if_pos hk, bind_apply]
        cases hnote : writtenNote d with
        | error e d' => rfl
        | ok w d' =>
          cases w with
          | none => rfl
          | some w =>
            simp only [notesBehind, bind_apply]
            cases notes d' <;> rfl
      · rw [dif_neg hk, if_neg hk]
        rfl

theorem forward_notesBehind (w : Option WrittenNote) : (notesBehind w).Forward := by
  cases w with
  | some w => exact forward_bind forward_notes fun _ => forward_pure _
  | none => exact forward_pure _

theorem forward_notesFrom (next : Option Char) : (notesFrom next).Forward := by
  unfold notesFrom
  split
  · exact forward_bind forward_writtenNote forward_notesBehind
  · exact forward_pure _

/-- Runs of notes are read in pairs: each note is shorter than the run it begins. -/
theorem Pairing.reads_notes {P : Pairing} (hnext : P.ReadsTokens) (hgap : P.ReadsGaps)
    (hpeek : P.PeeksAlike) : P.Reads Eq notes notes where
  forward := forward_notes
  result := by
    intro c c' hpair hwithin
    induction hlength : c.rest.length using Nat.strongRecOn generalizing c c' with
    | ind n ih =>
      rw [notes_eq] at hwithin ⊢
      refine matches_bind (hgap.result c c' hpair)
        (fun _ => forward_bind forward_peek? forward_notesFrom) ?_ hwithin
      intro _ d _ d' hskip _ hpair hwithin
      have hpeeked : Matches P.blur (fun x x' => x.any isKeyChar = x'.any isKeyChar) P.pair
          (peek? d) (peek? d') :=
        ⟨hpeek d d' hpair isKeyChar fun _ => isBlank_of_isKeyChar, hpair⟩
      refine matches_bind (fun _ => hpeeked) forward_notesFrom ?_ hwithin
      intro next f next' f' hf hkey hpair hwithin
      obtain ⟨rfl, rfl⟩ := EStateM.Result.ok.inj hf
      unfold notesFrom at hwithin ⊢
      rw [← hkey]
      by_cases hmore : d.peek?.any isKeyChar
      · rw [if_pos hmore] at hwithin ⊢
        refine matches_bind ((reads_writtenNote hnext hgap).result d f' hpair)
          forward_notesBehind ?_ hwithin
        intro w e w' e' hnote hw hpair hwithin
        obtain rfl : w = w' := hw
        cases w with
        | none => exact ⟨rfl, hpair⟩
        | some w =>
          obtain ⟨first, hfirst, hk⟩ := (Option.any_eq_true _ _).1 hmore
          have hgap := (forward_skipGap.ok hskip).length_le
          have hless := length_of_writtenNote hfirst hk hnote
          refine matches_bind (E := Eq) (fun hwithin => ?_) (fun _ => forward_pure _) ?_ hwithin
          · exact ih e.rest.length (by omega) e e' hpair hwithin rfl
          · intro ws g ws' g' _ hws hpair _
            exact ⟨congrArg (w :: ·) hws, hpair⟩
      · rw [if_neg hmore]
        exact ⟨rfl, hpair⟩

end Songsheet.Reading
