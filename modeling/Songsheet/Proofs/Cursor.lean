import Mathlib.Data.List.Induction
import Songsheet.Cursor

/-!
# Lines and columns

A cursor carries the place of its next character from step to step. Told of the whole text, this
place is a matter of counting: the line breaks in front of it, and the characters since the last one
of them.

* `Position.counted` — the place behind some text, by counting; `after_start` says that the cursors
  carry it.
* `IsPlaceIn`, `IsPlaceOf` — the place of an offset of a text, and of a character that stands there.
* `Cursor.Passes` — a place that is met on the way from a cursor to the end of its text.
-/

namespace Songsheet

variable {text : String} {p : Position} {c d e : Cursor}

/-! ## Counting -/

/-- The place behind some text: a line for each line break in it, and a column for each character
since the last line break. -/
def Position.counted (front : List Char) : Position :=
  ⟨1 + front.count '\n', 1 + (front.reverse.takeWhile (· != '\n')).length⟩

theorem Position.counted_concat (front : List Char) (x : Char) :
    counted (front ++ [x]) = (counted front).next x := by
  unfold counted next
  by_cases hx : x = '\n'
  · simp [hx]
    omega
  · simp [hx]
    omega

/-- The place that is carried along is the place that is counted. -/
theorem Position.after_start (front : List Char) : start.after front = counted front := by
  induction front using List.reverseRecOn with
  | nil => rfl
  | append_singleton front x ih =>
    rw [after_append, ih, counted_concat]
    rfl

/-- The place of some offset of a text, which may be its end. -/
def IsPlaceIn (text : String) (p : Position) : Prop :=
  ∃ front back, text.toList = front ++ back ∧ p = .counted front

/-- The place of a character of a text. -/
def IsPlaceOf (x : Char) (text : String) (p : Position) : Prop :=
  ∃ front back, text.toList = front ++ x :: back ∧ p = .counted front

/-! ## Places that are passed -/

namespace Cursor

/-- The place of a character, or of the end, of the text behind a cursor. -/
def Passes (c : Cursor) (p : Position) : Prop :=
  ∃ d, c.Reaches d ∧ d.position = p

theorem Reaches.passes (h : c.Reaches d) : c.Passes d.position :=
  ⟨d, h, rfl⟩

theorem Reaches.trans_passes (h : c.Reaches d) (hp : d.Passes p) : c.Passes p := by
  obtain ⟨e, he, hplace⟩ := hp
  exact ⟨e, h.trans he, hplace⟩

theorem passes_ofText : (ofText text).Passes p ↔ IsPlaceIn text p := by
  constructor
  · intro h
    obtain ⟨d, ⟨front, htext, hplace⟩, rfl⟩ := h
    exact ⟨front, d.rest, htext, by rw [hplace, ← Position.after_start]; rfl⟩
  · intro h
    obtain ⟨front, back, htext, rfl⟩ := h
    exact ⟨_, reaches_past htext, Position.after_start front⟩

/-- What stands next behind a cursor that is reached from the start of a text stands in the text, at
the place of the cursor. -/
theorem isPlaceOf_of_reaches {x : Char} {rest : List Char} (h : (ofText text).Reaches c)
    (hc : c.rest = x :: rest) : IsPlaceOf x text c.position := by
  obtain ⟨front, htext, hplace⟩ := h
  rw [hc] at htext
  exact ⟨front, rest, htext, by rw [hplace, ← Position.after_start]; rfl⟩

/-- Every end of the text behind a cursor has a cursor of its own. -/
theorem exists_reaches_of_suffix {rest : List Char} (h : rest <:+ c.rest) :
    ∃ d, c.Reaches d ∧ d.rest = rest := by
  obtain ⟨front, hfront⟩ := h
  exact ⟨_, reaches_past hfront.symm, rfl⟩

/-- In a text, a cursor is known by what is left to read. -/
theorem Reaches.eq_of_rest (hd : c.Reaches d) (he : c.Reaches e) (h : d.rest = e.rest) : d = e := by
  obtain ⟨front, hfront, hd⟩ := hd
  obtain ⟨other, hother, he⟩ := he
  rw [hfront, h] at hother
  obtain rfl := List.append_cancel_right hother
  obtain ⟨rest, position⟩ := d
  obtain ⟨rest', position'⟩ := e
  simp_all

/-- Of two cursors on the way, the one with less left to read is reached from the other. -/
theorem Reaches.of_suffix (hd : c.Reaches d) (he : c.Reaches e) (h : e.rest <:+ d.rest) :
    d.Reaches e := by
  obtain ⟨f, hf, hrest⟩ := exists_reaches_of_suffix h
  obtain rfl := (hd.trans hf).eq_of_rest he hrest
  exact hf

end Cursor

end Songsheet
