/-!
# Positions and cursors

A cursor stands inside a text: it holds the characters still to come and the line and column
of the first of them. Lines and columns start at 1, and only a line feed starts a new line.

* `Position.after` — the position behind a stretch of text; it composes over `++`
  (`after_append`).
* `Cursor.Reaches` — one cursor is reached from another by reading some text, and its position
  is the position behind exactly that text. Reaching is reflexive and transitive, and never
  makes the text to come longer.
-/

namespace Songsheet

/-! ## Positions -/

/-- A place in a text. -/
structure Position where
  line : Nat
  column : Nat
  deriving DecidableEq, Repr

namespace Position

/-- The place of the first character of a text. -/
def start : Position := ⟨1, 1⟩

/-- The place behind one character. -/
def next (p : Position) (c : Char) : Position :=
  if c = '\n' then ⟨p.line + 1, 1⟩ else ⟨p.line, p.column + 1⟩

/-- The place behind a stretch of text. -/
def after (p : Position) (text : List Char) : Position :=
  text.foldl next p

@[simp] theorem after_nil (p : Position) : p.after [] = p := rfl

@[simp] theorem after_cons (p : Position) (c : Char) (text : List Char) :
    p.after (c :: text) = (p.next c).after text := rfl

@[simp] theorem after_append (p : Position) (front back : List Char) :
    p.after (front ++ back) = (p.after front).after back := by
  simp [after]

end Position

/-! ## Cursors -/

/-- The text still to come and the place of its first character. -/
structure Cursor where
  rest : List Char
  position : Position
  deriving DecidableEq, Repr

namespace Cursor

/-- The cursor at the start of a text. -/
def ofText (text : String) : Cursor := ⟨text.toList, .start⟩

/-- The next character. -/
def peek? (c : Cursor) : Option Char := c.rest.head?

/-- Whether no character is left. -/
def atEnd (c : Cursor) : Bool := c.rest.isEmpty

/-- The cursor behind `read`, with `rest` still to come. -/
def past (c : Cursor) (read rest : List Char) : Cursor :=
  ⟨rest, c.position.after read⟩

/-- The second cursor is reached from the first by reading some text. -/
def Reaches (c d : Cursor) : Prop :=
  ∃ read, c.rest = read ++ d.rest ∧ d.position = c.position.after read

theorem Reaches.refl (c : Cursor) : c.Reaches c :=
  ⟨[], rfl, rfl⟩

theorem Reaches.trans {c d e : Cursor} (hcd : c.Reaches d) (hde : d.Reaches e) : c.Reaches e := by
  obtain ⟨front, hf, pf⟩ := hcd
  obtain ⟨back, hb, pb⟩ := hde
  exact ⟨front ++ back, by rw [hf, hb, List.append_assoc],
    by rw [pb, pf, Position.after_append]⟩

theorem reaches_past {c : Cursor} {read rest : List Char} (h : c.rest = read ++ rest) :
    c.Reaches (c.past read rest) :=
  ⟨read, h, rfl⟩

theorem Reaches.suffix {c d : Cursor} (h : c.Reaches d) : d.rest <:+ c.rest := by
  obtain ⟨read, hr, _⟩ := h
  exact ⟨read, hr.symm⟩

theorem Reaches.length_le {c d : Cursor} (h : c.Reaches d) : d.rest.length ≤ c.rest.length := by
  obtain ⟨read, hr, _⟩ := h
  simp [hr]

/-- What is read on the way over a third cursor is what is read up to it and then behind it. -/
theorem Reaches.split {c d e : Cursor} {front : List Char} (hcd : c.Reaches d) (hde : d.Reaches e)
    (hc : c.rest = front ++ e.rest) :
    ∃ taken back, front = taken ++ back ∧ c.rest = taken ++ d.rest ∧
      d.rest = back ++ e.rest := by
  obtain ⟨taken, htaken, _⟩ := hcd
  obtain ⟨back, hback, _⟩ := hde
  refine ⟨taken, back, ?_, htaken, hback⟩
  rw [htaken, hback, ← List.append_assoc] at hc
  exact (List.append_cancel_right hc).symm

theorem exists_cons_of_peek? {c d : Cursor} {first : Char} {front : List Char}
    (hp : c.peek? = some first) (hc : c.rest = front ++ d.rest)
    (hlt : d.rest.length < c.rest.length) : ∃ tail, front = first :: tail := by
  cases front with
  | nil => simp [hc] at hlt
  | cons x tail =>
    obtain rfl : x = first := by simpa [peek?, hc] using hp
    exact ⟨tail, rfl⟩

end Cursor

end Songsheet
