import Songsheet.Proofs.Token.Tiling

/-!
# Quoted texts are read as they are written

Between its quotation marks a quoted text has each of its own quotation marks twice. Which mark
closes it is only told from the character behind that mark, so runs of marks of any length have to
be taken apart in one way and no other.

* `enclosed` — the written form, told character by character; `cons_quoted` says that it is the form
  that is read.
* `quotedText_exact` — a quoted text is read exactly if its written form stands there, and otherwise
  it is never closed.
-/

namespace Songsheet

/-! ## The written form -/

/-- A text with each of its quotation marks written twice. -/
def doubled (text : List Char) : List Char :=
  text.flatMap fun x => if x = '"' then ['"', '"'] else [x]

/-- A text between quotation marks, with its own quotation marks written twice. -/
def enclosed (text : List Char) : List Char :=
  '"' :: (doubled text ++ ['"'])

theorem quoted_eq (text : List Char) : quoted text = doubled text ++ ['"'] := by
  induction text with
  | nil => rfl
  | cons x text ih =>
    have hdoubled : doubled (x :: text) =
        (if x = '"' then ['"', '"'] else [x]) ++ doubled text := by
      rw [doubled, List.flatMap_cons]
      rfl
    rw [hdoubled, List.append_assoc, ← ih, quoted]
    split <;> rfl

theorem cons_quoted (text : List Char) : '"' :: quoted text = enclosed text := by
  rw [quoted_eq, enclosed]

/-! ## Reading it back -/

namespace Reading

variable {c d : Cursor} {x : Diagnostic}

theorem quotedText_eq_ok_enclosed {text : String} :
    quotedText c = .ok text d ↔
      c.rest = enclosed text.toList ++ d.rest ∧ d.rest.head? ≠ some '"' ∧
        d = c.past (enclosed text.toList) d.rest := by
  rw [quotedText_eq_ok, cons_quoted]
  tauto

/-- A text is never closed exactly if every written form in front of it goes on with a quotation
mark. -/
theorem unquoted?_eq_none_enclosed {form : List Char} :
    unquoted? form = none ↔
      ∀ text rest, '"' :: form = enclosed text ++ rest → rest.head? = some '"' := by
  rw [unquoted?_eq_none]
  refine forall₂_congr fun text rest => ?_
  rw [← cons_quoted, List.cons_append, List.cons.injEq, and_iff_right rfl]

/-- **Quoted texts are read as they are written.** A text is read exactly if its written form is
what is taken and what is left does not go on with a quotation mark. Behind an opening mark reading
fails exactly if there is no such text; then the opening mark is reported, and nothing is left. -/
theorem quotedText_exact (c : Cursor) :
    (∀ text d, quotedText c = .ok text d ↔
      c.rest = enclosed text.toList ++ d.rest ∧ d.rest.head? ≠ some '"' ∧
        d = c.past (enclosed text.toList) d.rest) ∧
    ∀ form, c.rest = '"' :: form → ∀ x d, quotedText c = .error x d ↔
      (¬ ∃ text rest, c.rest = enclosed text ++ rest ∧ rest.head? ≠ some '"') ∧
        x = Cause.unterminatedQuote.reportedAt c.position ∧ d = c.past c.rest [] := by
  refine ⟨fun text d => quotedText_eq_ok_enclosed, fun form hform x d => ?_⟩
  rw [quotedText_eq_error hform, unquoted?_eq_none_enclosed, ← hform]
  refine and_congr_left fun _ => ?_
  push Not
  rfl

/-- Three marks in a row are a mark of the text and the closing one, and a line may break in between;
two marks at the end close nothing. -/
theorem quotedText_runs_of_marks :
    quotedText (.ofText "\"\"\"/*\n\"\"\" b") =
        .ok "\"/*\n\"" ⟨" b".toList, ⟨2, 4⟩⟩ ∧
      ∃ d, quotedText (.ofText "\"a\"\"") =
        .error (Cause.unterminatedQuote.reportedAt .start) d := by
  obtain ⟨hread, -⟩ := quotedText_exact (.ofText "\"\"\"/*\n\"\"\" b")
  obtain ⟨-, hopen⟩ := quotedText_exact (.ofText "\"a\"\"")
  refine ⟨(hread _ _).2 ⟨by decide, by decide, by decide⟩, _,
    (hopen ['a', '"', '"'] rfl _ _).2 ⟨?_, rfl, rfl⟩⟩
  rintro ⟨text, rest, hform, hrest⟩
  have hnone := unquoted?_eq_none_enclosed.1 (by decide : unquoted? ['a', '"', '"'] = none)
  exact hrest (hnone text rest hform)

end Reading

end Songsheet
