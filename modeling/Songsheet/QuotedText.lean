import Songsheet.Reading

/-!
# Quoted texts

A quoted text stands between quotation marks, and a quotation mark inside it is written twice.

* `quoted` — the written form of a text, without the opening mark.
* `unquoted?` — reads such a form; reading takes back writing (`unquoted?_quoted`), and what is
  read was written (`quoted_of_unquoted?`).
* `Reading.quotedText` — reads a quoted text with its opening mark.
-/

namespace Songsheet

/-! ## The written form -/

/-- A text with each quotation mark doubled, and the closing mark. -/
def quoted : List Char → List Char
  | [] => ['"']
  | c :: text => if c = '"' then '"' :: '"' :: quoted text else c :: quoted text

/-- The text of a written form and what follows its closing mark. -/
def unquoted? : List Char → Option (List Char × List Char)
  | [] => none
  | '"' :: '"' :: form => (unquoted? form).map fun (text, rest) => ('"' :: text, rest)
  | c :: form =>
    if c = '"' then some ([], form)
    else (unquoted? form).map fun (text, rest) => (c :: text, rest)

theorem unquoted?_quoted (text rest : List Char) (h : rest.head? ≠ some '"') :
    unquoted? (quoted text ++ rest) = some (text, rest) := by
  induction text with
  | nil =>
    cases rest with
    | nil => simp [quoted, unquoted?]
    | cons r rest =>
      have hr : r ≠ '"' := by simpa using h
      simp [quoted, unquoted?, hr]
  | cons c text ih =>
    by_cases hc : c = '"'
    · simp [quoted, unquoted?, hc, ih]
    · simp [quoted, unquoted?, hc, ih]

theorem quoted_of_unquoted? {form text rest : List Char}
    (h : unquoted? form = some (text, rest)) :
    form = quoted text ++ rest ∧ rest.head? ≠ some '"' := by
  fun_induction unquoted? form generalizing text with
  | case1 => simp at h
  | case2 form ih =>
    simp only [Option.map_eq_some_iff, Prod.mk.injEq, Prod.exists] at h
    obtain ⟨t, r, ht, rfl, rfl⟩ := h
    exact ⟨by simp [quoted, (ih ht).1], (ih ht).2⟩
  | case3 form hnot =>
    simp only [Option.some.injEq, Prod.mk.injEq] at h
    obtain ⟨rfl, rfl⟩ := h
    refine ⟨by simp [quoted], ?_⟩
    cases form with
    | nil => simp
    | cons d form => simpa using fun hd => hnot form rfl (by rw [hd])
  | case4 c form _ hc ih =>
    simp only [Option.map_eq_some_iff, Prod.mk.injEq, Prod.exists] at h
    obtain ⟨t, r, ht, rfl, rfl⟩ := h
    exact ⟨by simp [quoted, hc, (ih ht).1], (ih ht).2⟩

/-! ## Reading -/

namespace Reading

/-- Reads a quoted text. Anything but a quotation mark in front is refused and not taken; a
text that is never closed is reported at its opening mark, and all the text is then taken. -/
def quotedText : Reading String := fun c =>
  match c.rest with
  | '"' :: form =>
    match unquoted? form with
    | some (text, rest) => .ok (String.ofList text) (c.past ('"' :: quoted text) rest)
    | none => .error (Cause.unterminatedQuote.reportedAt c.position) (c.past c.rest [])
  | found => .error ((Cause.expectedQuote found.head?).reportedAt c.position) c

theorem forward_quotedText : Forward quotedText := by
  intro c
  simp only [quotedText]
  split
  · rename_i form h
    split
    · rename_i text rest hu
      exact Cursor.reaches_past (by rw [h, (quoted_of_unquoted? hu).1]; rfl)
    · exact Cursor.reaches_past (by simp)
  · exact Cursor.Reaches.refl c

end Reading

end Songsheet
