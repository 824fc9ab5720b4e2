import Songsheet.Diagnostic
import Songsheet.Text

/-!
# Readings

A reading takes a cursor and answers with a value or with a diagnostic, and in both cases with
the cursor that it leaves behind. Readings are put together with `do`.

* The small readings here take a run of characters of one class (`run`), all up to a blank
  (`word`) or all through a closing character (`through`).
* `Reading.Forward` — a reading that only ever moves on through the text; it is closed under
  sequencing, so every reading of the library has it.
-/

namespace Songsheet

/-- A step of reading that may fail; the cursor is kept also then. -/
abbrev Reading (α : Type) := EStateM Diagnostic Cursor α

namespace Reading

variable {α β : Type}

/-- The cursor that a finished reading leaves behind. -/
def cursorLeft : EStateM.Result Diagnostic Cursor α → Cursor
  | .ok _ c => c
  | .error _ c => c

/-! ## Small readings -/

/-- The place of the next character. -/
def position : Reading Position := fun c => .ok c.position c

/-- The next character, which is not taken. -/
def peek? : Reading (Option Char) := fun c => .ok c.peek? c

/-- Fails with a cause found at a place. -/
def fail (cause : Cause) (position : Position) : Reading α :=
  fun c => .error (cause.reportedAt position) c

/-- The outcome of a computation that takes no text. -/
def ofExcept : Except Diagnostic α → Reading α
  | .ok a => fun c => .ok a c
  | .error d => fun c => .error d c

/-- Takes one character, if there is one. -/
def drop : Reading Unit := fun c => .ok () (c.past (c.rest.take 1) (c.rest.drop 1))

/-- Takes the longest run of characters of a class. -/
def run (within : Char → Bool) : Reading String := fun c =>
  let read := c.rest.takeWhile within
  .ok (String.ofList read) (c.past read (c.rest.dropWhile within))

/-- Takes a run of digits, which may be empty. -/
def digits : Reading String := run Char.isDigit

/-- Takes all up to the next blank or the end. -/
def word : Reading String := run fun c => !Text.isBlank c

/-- Takes all through the first `close` and answers with what stands before it. Without a
`close` all the text is taken and there is no answer. -/
def through (close : Char) : Reading (Option String) := fun c =>
  let read := c.rest.takeWhile (· != close)
  match c.rest.dropWhile (· != close) with
  | [] => .ok none (c.past c.rest [])
  | _ :: rest => .ok (some (String.ofList read)) (c.past (read ++ [close]) rest)

/-! ## Moving on -/

/-- A reading that leaves a cursor which is reached from where it began. -/
def Forward (r : Reading α) : Prop :=
  ∀ c : Cursor, c.Reaches (cursorLeft (r c))

theorem Forward.ok {r : Reading α} (hr : r.Forward) {c d : Cursor} {a : α} (h : r c = .ok a d) :
    c.Reaches d := by
  simpa [h, cursorLeft] using hr c

theorem bind_apply (r : Reading α) (f : α → Reading β) (c : Cursor) :
    (r >>= f) c = match r c with
      | .ok a d => f a d
      | .error e d => .error e d := by
  simp only [bind, EStateM.bind]
  cases r c <;> rfl

theorem forward_pure (a : α) : Forward (pure a) :=
  fun c => Cursor.Reaches.refl c

/-- What follows a reading begins where the reading stops. -/
theorem reaches_bind {r : Reading α} {f : α → Reading β} (hf : ∀ a, (f a).Forward) (c : Cursor) :
    (cursorLeft (r c)).Reaches (cursorLeft ((r >>= f) c)) := by
  rw [bind_apply]
  cases r c with
  | ok a d => exact hf a d
  | error e d => exact Cursor.Reaches.refl d

theorem forward_bind {r : Reading α} {f : α → Reading β} (hr : r.Forward)
    (hf : ∀ a, (f a).Forward) : Forward (r >>= f) :=
  fun c => (hr c).trans (reaches_bind hf c)

/-- What is made of an answer takes no more text. -/
theorem cursorLeft_bind_pure (r : Reading α) (f : α → β) (c : Cursor) :
    cursorLeft ((r >>= fun a => pure (f a)) c) = cursorLeft (r c) := by
  rw [bind_apply]
  cases r c <;> rfl

theorem forward_position : Forward position :=
  fun c => Cursor.Reaches.refl c

theorem forward_peek? : Forward peek? :=
  fun c => Cursor.Reaches.refl c

theorem forward_fail (cause : Cause) (p : Position) : (fail cause p : Reading α).Forward :=
  fun c => Cursor.Reaches.refl c

theorem forward_ofExcept (outcome : Except Diagnostic α) : Forward (ofExcept outcome) := by
  intro c
  cases outcome <;> exact Cursor.Reaches.refl c

theorem forward_drop : Forward drop :=
  fun _ => Cursor.reaches_past (List.take_append_drop 1 _).symm

theorem forward_run (within : Char → Bool) : Forward (run within) :=
  fun _ => Cursor.reaches_past List.takeWhile_append_dropWhile.symm

theorem forward_digits : Forward digits := forward_run _

theorem forward_word : Forward word := forward_run _

theorem forward_through (close : Char) : Forward (through close) := by
  intro c
  simp only [through]
  split
  · exact Cursor.reaches_past (by simp)
  · rename_i x rest h
    have hx : x = close := by
      have := List.head_dropWhile_not (p := (· != close)) (l := c.rest) (by simp [h])
      simpa [h] using this
    subst hx
    refine Cursor.reaches_past ?_
    rw [List.append_assoc, List.singleton_append, ← h]
    exact List.takeWhile_append_dropWhile.symm

end Reading

end Songsheet
