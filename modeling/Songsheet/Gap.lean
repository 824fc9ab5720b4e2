import Songsheet.Reading

/-!
# Gaps

A gap is what may stand between two words: blanks, line comments from `//` to the end of the
line, and block comments from `/*` to the next `*/`. A block comment does not nest, and its
opening star does not close it: `/*/` is still open.

* `gapAt` — splits a text behind the longest gap at its start, or finds a block comment that
  is never closed. Nothing is lost or made up (`Gap.whole_gapAt`).
* `Reading.skipComments` and `Reading.skipGap` — skip comments alone, or comments and blanks.
-/

namespace Songsheet

/-! ## Splitting a text behind its gap -/

/-- How far a gap at the start of a text goes. -/
inductive Gap where
  /-- The gap is `skipped`, and `rest` follows. -/
  | upTo (skipped rest : List Char)
  /-- Behind `before` a block comment opens that is never closed. -/
  | unclosed (before comment : List Char)
  deriving DecidableEq, Repr

namespace Gap

/-- The gap that begins with `front` and goes on like this one. -/
def behind (front : List Char) : Gap → Gap
  | .upTo skipped rest => .upTo (front ++ skipped) rest
  | .unclosed before comment => .unclosed (front ++ before) comment

/-- The text that was split. -/
def whole : Gap → List Char
  | .upTo skipped rest => skipped ++ rest
  | .unclosed before comment => before ++ comment

@[simp] theorem whole_behind (front : List Char) (g : Gap) :
    (g.behind front).whole = front ++ g.whole := by
  cases g <;> simp [behind, whole]

end Gap

/-- Splits what follows a `/*` behind the first `*/`, if there is one. -/
def closeComment? : List Char → Option (List Char × List Char)
  | '*' :: '/' :: rest => some (['*', '/'], rest)
  | c :: text => (closeComment? text).map fun (body, rest) => (c :: body, rest)
  | [] => none

/-- A character that does not close the comment here belongs to it. -/
theorem closeComment?_cons {c : Char} {text : List Char}
    (hopen : ∀ rest, c = '*' → text = '/' :: rest → False) :
    closeComment? (c :: text) =
      (closeComment? text).map fun (body, rest) => (c :: body, rest) := by
  rw [closeComment?]
  exact hopen

theorem append_of_closeComment? {text body rest : List Char}
    (h : closeComment? text = some (body, rest)) : body ++ rest = text := by
  fun_induction closeComment? text generalizing body with
  | case1 r =>
    simp only [Option.some.injEq, Prod.mk.injEq] at h
    obtain ⟨rfl, rfl⟩ := h
    rfl
  | case2 c text _ ih =>
    simp only [Option.map_eq_some_iff, Prod.mk.injEq, Prod.exists] at h
    obtain ⟨b, r, hb, rfl, rfl⟩ := h
    simp [ih hb]
  | case3 => simp at h

theorem length_of_closeComment? {text body rest : List Char}
    (h : closeComment? text = some (body, rest)) : rest.length ≤ text.length := by
  rw [← append_of_closeComment? h, List.length_append]
  omega

theorem length_dropWhile_le (p : Char → Bool) (text : List Char) :
    (text.dropWhile p).length ≤ text.length :=
  (List.dropWhile_sublist p).length_le

/-- Splits a text behind the comments, and the characters in `blank`, at its start. -/
def gapAt (blank : Char → Bool) : List Char → Gap
  | '/' :: '/' :: text =>
    (gapAt blank (text.dropWhile (· != '\n'))).behind
      ('/' :: '/' :: text.takeWhile (· != '\n'))
  | '/' :: '*' :: text =>
    match _h : closeComment? text with
    | some (body, rest) => (gapAt blank rest).behind ('/' :: '*' :: body)
    | none => .unclosed [] ('/' :: '*' :: text)
  | c :: text => if blank c then (gapAt blank text).behind [c] else .upTo [] (c :: text)
  | [] => .upTo [] []
termination_by text => text.length
decreasing_by
  · have := length_dropWhile_le (· != '\n') text
    simp only [List.length_cons]
    omega
  · have := length_of_closeComment? _h
    simp only [List.length_cons]
    omega
  · simp

@[simp] theorem Gap.whole_gapAt (blank : Char → Bool) (text : List Char) :
    (gapAt blank text).whole = text := by
  fun_induction gapAt blank text with
  | case1 text ih => simp [ih]
  | case2 text body rest h ih => simp [ih, append_of_closeComment? h]
  | case3 text h => simp [whole]
  | case4 c text _ _ hc ih => simp [ih]
  | case5 c text _ _ hc => simp [whole]
  | case6 => simp [whole]

theorem append_of_gapAt {blank : Char → Bool} {text skipped rest : List Char}
    (h : gapAt blank text = .upTo skipped rest) : text = skipped ++ rest := by
  rw [← Gap.whole_gapAt blank text, h]
  rfl

/-- Where no comment opens, the gap goes on if the first character is one of it. -/
theorem gapAt_of_noOpening {blank : Char → Bool} {c : Char} {text : List Char}
    (hline : ∀ rest, c = '/' → text = '/' :: rest → False)
    (hblock : ∀ rest, c = '/' → text = '*' :: rest → False) :
    gapAt blank (c :: text) =
      if blank c then (gapAt blank text).behind [c] else .upTo [] (c :: text) := by
  rw [gapAt]
  · exact hline
  · exact hblock

theorem gapAt_cons_of_blank {blank : Char → Bool} {c : Char} (hc : blank c) (hs : c ≠ '/')
    (text : List Char) : gapAt blank (c :: text) = (gapAt blank text).behind [c] := by
  rw [gapAt_of_noOpening (fun _ h _ => hs h) (fun _ h _ => hs h), if_pos hc]

theorem gapAt_cons {blank : Char → Bool} {c : Char} (hc : blank c = false) (hs : c ≠ '/')
    (text : List Char) : gapAt blank (c :: text) = .upTo [] (c :: text) := by
  rw [gapAt_of_noOpening (fun _ h _ => hs h) (fun _ h _ => hs h), if_neg (by simp [hc])]

/-! ## Skipping a gap -/

namespace Reading

/-- Skips comments and the characters in `blank`. An unclosed comment is reported where it
opens, and all the text is then taken. -/
def skip (blank : Char → Bool) : Reading Unit := fun c =>
  match gapAt blank c.rest with
  | .upTo skipped rest => .ok () (c.past skipped rest)
  | .unclosed before _ =>
    .error (Cause.unterminatedComment.reportedAt (c.position.after before)) (c.past c.rest [])

/-- Skips comments. -/
def skipComments : Reading Unit := skip fun _ => false

/-- Skips comments and blanks. -/
def skipGap : Reading Unit := skip Text.isBlank

theorem forward_skip (blank : Char → Bool) : Forward (skip blank) := by
  intro c
  simp only [skip]
  split
  · rename_i skipped rest h
    exact Cursor.reaches_past (append_of_gapAt h)
  · exact Cursor.reaches_past (by simp)

theorem forward_skipComments : Forward skipComments := forward_skip _

theorem forward_skipGap : Forward skipGap := forward_skip _

end Reading

end Songsheet
