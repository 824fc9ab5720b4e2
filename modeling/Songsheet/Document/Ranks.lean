/-!
# Ranks

A nest of at most `n` texts being read, of lengths given from the outermost to the innermost,
is ranked by the vector of these lengths, each plus one, with zeros for the texts that are not
there. Vectors are compared by their first difference. Reading on in a text lowers its rank
whatever is then opened inside it, and so does closing it; since the order is well founded,
a reader of nested texts comes to an end although opening a text adds to what is to be read.

* `Ranks.wellFounded` — the order on vectors is well founded.
* `before_shorter` — a text became shorter, whatever is nested in it.
* `before_closed` — the innermost text was closed.
-/

namespace Songsheet.Document

/-- A vector of `n` ranks. -/
def Ranks : Nat → Type
  | 0 => Unit
  | n + 1 => Nat × Ranks n

namespace Ranks

/-- Vectors compared by their first difference. -/
def Before : (n : Nat) → Ranks n → Ranks n → Prop
  | 0 => fun _ _ => False
  | n + 1 => Prod.Lex (· < ·) (Before n)

theorem wellFounded : (n : Nat) → WellFounded (Before n)
  | 0 => ⟨fun _ => ⟨_, fun _ h => h.elim⟩⟩
  | n + 1 => (Prod.lex Nat.lt_wfRel ⟨Before n, wellFounded n⟩).wf

instance (n : Nat) : WellFoundedRelation (Ranks n) := ⟨Before n, wellFounded n⟩

/-- The ranks of a nest of texts with the given lengths. -/
def ofLengths : (n : Nat) → List Nat → Ranks n
  | 0, _ => ()
  | n + 1, [] => (0, ofLengths n [])
  | n + 1, length :: lengths => (length + 1, ofLengths n lengths)

theorem before_shorter {n : Nat} {outer : List Nat} {x y : Nat} (inner inner' : List Nat)
    (hn : outer.length < n) (hxy : x < y) :
    Before n (ofLengths n (outer ++ x :: inner)) (ofLengths n (outer ++ y :: inner')) := by
  induction outer generalizing n with
  | nil =>
    cases n with
    | zero => simp at hn
    | succ n => exact .left _ _ (by omega)
  | cons length outer ih =>
    cases n with
    | zero => simp at hn
    | succ n => exact .right _ (ih (by simpa using hn))

theorem before_closed {n : Nat} {outer : List Nat} (x : Nat) (hn : outer.length < n) :
    Before n (ofLengths n outer) (ofLengths n (outer ++ [x])) := by
  induction outer generalizing n with
  | nil =>
    cases n with
    | zero => simp at hn
    | succ n => exact .left _ _ (by omega)
  | cons length outer ih =>
    cases n with
    | zero => simp at hn
    | succ n => exact .right _ (ih (by simpa using hn))

end Ranks

end Songsheet.Document
