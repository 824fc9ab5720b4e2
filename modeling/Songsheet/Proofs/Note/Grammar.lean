import Songsheet.Proofs.Note.Text

/-!
# The grammar of notes

A note on its own, behind a given note: which texts are read as one, what is left of them, and which
note they stand for. A text in which nothing but a gap is left stands for the empty note.

* `writtenNote_eq_none` — no note is read exactly where the text ends behind a gap.
* `note_eq_ok_iff` — the notes that are read are exactly those of the grammar.
-/

namespace Songsheet.Reading

variable {c d : Cursor} {rest : List Char}

theorem writtenNote_eq_none :
    writtenNote c = .ok none d ↔
      ∃ e t, skipGap c = .ok () e ∧ nextToken e = .ok t d ∧ t.kind = .endOfText := by
  simp only [writtenNote, bind_eq_ok]
  constructor
  · rintro ⟨_, e, he, t, c₁, ht, hnone⟩
    cases hk : t.kind with
    | endOfText =>
      simp only [noteFrom, hk, pure_eq_ok] at hnone
      obtain ⟨-, rfl⟩ := hnone
      exact ⟨e, t, he, ht, hk⟩
    | key spelling =>
      simp only [noteFrom, hk, bind_eq_ok, pure_eq_ok] at hnone
      obtain ⟨w, c₂, -, hw, -⟩ := hnone
      cases hw
    | _ => simp [noteFrom, hk, fail] at hnone
  · rintro ⟨e, t, he, ht, hk⟩
    refine ⟨(), e, he, t, d, ht, ?_⟩
    simp only [noteFrom, hk]
    rfl

/-- There is no note exactly where nothing but a gap is left. -/
theorem writtenNote_none_iff :
    (∃ d, writtenNote c = .ok none d ∧ d.rest = rest) ↔
      GapText Text.isBlank c.rest [] ∧ rest = [] := by
  constructor
  · rintro ⟨d, h, rfl⟩
    obtain ⟨e, t, he, ht, hk⟩ := writtenNote_eq_none.1 h
    obtain ⟨hnil, hcomments⟩ := rest_of_nextToken_end ht hk
    have hbehind : GapText Text.isBlank e.rest [] :=
      (gapText_of_gapAt hcomments).mono (by simp)
    exact ⟨(skipGap_eq_ok he).gapText.trans hbehind, hnil⟩
  · rintro ⟨hgap, rfl⟩
    obtain ⟨e, he, herest⟩ := skipGap_of_behindGap
      (hgap.behindGap (fun _ h => h) ⟨[], by rw [gapAt]⟩)
    have hend : gapAt (fun _ => false) e.rest = .upTo [] [] := by rw [herest, gapAt]
    exact ⟨_, writtenNote_eq_none.2 ⟨e, _, he, nextToken_of_end hend, rfl⟩, rfl⟩

theorem note_eq_ok {previous n : Note} :
    note previous c = .ok n d ↔
      writtenNote c = .ok none d ∧ n = .empty ∨
      ∃ w, writtenNote c = .ok (some w) d ∧ n = w.sounding previous := by
  simp only [note, bind_eq_ok]
  constructor
  · rintro ⟨w, e, hw, hn⟩
    cases w with
    | none =>
      obtain ⟨rfl, rfl⟩ := pure_eq_ok.1 hn
      exact .inl ⟨hw, rfl⟩
    | some w =>
      obtain ⟨rfl, rfl⟩ := pure_eq_ok.1 hn
      exact .inr ⟨w, hw, rfl⟩
  · rintro (⟨hw, rfl⟩ | ⟨w, hw, rfl⟩)
    · exact ⟨none, d, hw, rfl⟩
    · exact ⟨some w, d, hw, rfl⟩

/-- **The notes that are read are those of the grammar.** Either nothing but a gap is left, and the
answer is the empty note; or behind a gap a key stands, as long as it can be, and behind it an
octave and a duration clause that may be missing, with comments between them, and then a blank or
the end of the text. The gap at the start of what follows is taken with the note. A key that spells
no pitch is a rest, and what the note leaves out is that of the previous note. -/
theorem note_eq_ok_iff {previous n : Note} :
    (∃ d, note previous c = .ok n d ∧ d.rest = rest) ↔
      (GapText Text.isBlank c.rest [] ∧ n = .empty ∧ rest = []) ∨
      ∃ (f : NoteForm) (behind tail : List Char),
        GapText Text.isBlank c.rest (f.key.toList ++ behind) ∧ KeyText f.key behind ∧
        TailText f.octave f.duration behind tail ∧ BehindGap tail rest ∧
        n = ⟨(Pitch.ofSpelling? f.key).getD .rest, f.octave.getD previous.octave,
          f.duration.getD previous.duration⟩ := by
  constructor
  · rintro ⟨d, h, rfl⟩
    rcases note_eq_ok.1 h with ⟨hw, rfl⟩ | ⟨w, hw, rfl⟩
    · obtain ⟨hgap, hnil⟩ := writtenNote_none_iff.1 ⟨d, hw, rfl⟩
      exact .inl ⟨hgap, rfl, hnil⟩
    · obtain ⟨f, _, tail, rfl, hgap, hkey, ⟨behind, rfl, htail⟩, hbehind⟩ := noteText_of_some hw
      have hkeyText := keyText_iff.2 ⟨hkey, noKey_of_tailText htail⟩
      exact .inr ⟨f, behind, tail, hgap, hkeyText, htail, hbehind, rfl⟩
  · rintro (⟨hgap, rfl, rfl⟩ | ⟨f, behind, tail, hgap, hkey, htail, hbehind, rfl⟩)
    · obtain ⟨d, hw, hd⟩ := writtenNote_none_iff.2 ⟨hgap, rfl⟩
      exact ⟨d, note_eq_ok.2 (.inl ⟨hw, rfl⟩), hd⟩
    · have hopens := (keyText_iff.1 hkey).1
      obtain ⟨d, hw, hd⟩ := writtenNote_of_isKeyToken hgap hopens ⟨behind, rfl, htail⟩ hbehind
      exact ⟨d, note_eq_ok.2 (.inr ⟨f.written, hw, rfl⟩), hd⟩

end Songsheet.Reading
