import Songsheet.Document.Ranks
import Songsheet.Document.State

/-!
# Reading a whole document

`Document.run` takes steps until the document is finished or something is wrong. It needs no
bound on the number of steps: however long the texts are that a provider gives, and even if
every source includes itself, each step lowers the ranks of the nest of sources being read,
which is never deeper than the options allow.

* `Document.run` — from a state to the draft of the document.
* `Document.parse`, `Document.parseText` — the library that a root source defines.
-/

namespace Songsheet.Document

namespace State

/-- How much is left to read in each source, from the root to the innermost. -/
def lengths (s : State) : List Nat :=
  s.active.map (·.cursor.rest.length)

theorem lengths_eq (s : State) :
    s.lengths = s.suspended.reverse.map (·.cursor.rest.length) ++
      [s.current.cursor.rest.length] := by
  simp [lengths, active]

theorem lengths_enter (s : State) (path : SourcePath) (text : String) :
    (s.enter path text).lengths = s.suspended.reverse.map (·.cursor.rest.length) ++
      [s.current.cursor.rest.length, text.toList.length] := by
  simp [lengths, active, enter, Cursor.ofText]

theorem depth_of_step_next {s t : State} {o : Options} {n : Nat} (h : s.step o = .next t)
    (hs : s.suspended.length ≤ n) : t.suspended.length ≤ n := by
  rcases step_next h with ⟨hm, _⟩ | hr
  · rw [hm.2.1]
    exact hs
  · have := congrArg List.length hr.1
    simp only [List.length_cons] at this
    omega

theorem before_of_step_next {s t : State} {o : Options} {n : Nat} (h : s.step o = .next t)
    (hs : s.suspended.length ≤ n) :
    Ranks.Before (n + 1) (Ranks.ofLengths (n + 1) t.lengths)
      (Ranks.ofLengths (n + 1) s.lengths) := by
  rcases step_next h with ⟨hm, hlt⟩ | hr
  · rw [lengths_eq, lengths_eq, hm.2.1]
    exact Ranks.before_shorter [] [] (by simp; omega) hlt
  · have hlen := congrArg List.length hr.1
    simp only [List.length_cons] at hlen
    rw [lengths_eq s, hr.1]
    simp only [lengths, active, List.reverse_cons]
    exact Ranks.before_closed _ (by simp; omega)

theorem depth_of_step_wanted {s t : State} {o : Options} {path : SourcePath} {mark : Position}
    (text : String) (h : s.step o = .wanted path mark t) :
    (t.enter path text).suspended.length ≤ o.maxIncludeDepth := by
  obtain ⟨hm, _, hroom⟩ := step_wanted h
  simp only [enter, List.length_cons, hm.2.1]
  exact hroom

theorem before_of_step_wanted {s t : State} {o : Options} {path : SourcePath}
    {mark : Position} (text : String) (h : s.step o = .wanted path mark t) :
    Ranks.Before (o.maxIncludeDepth + 1)
      (Ranks.ofLengths (o.maxIncludeDepth + 1) (t.enter path text).lengths)
      (Ranks.ofLengths (o.maxIncludeDepth + 1) s.lengths) := by
  obtain ⟨hm, hlt, hroom⟩ := step_wanted h
  rw [lengths_enter, lengths_eq, hm.2.1]
  exact Ranks.before_shorter [text.toList.length] [] (by simp; omega) hlt

end State

/-- Reads on from a state to the end of the document. -/
def run (read : Provider) (o : Options) (s : State)
    (hs : s.suspended.length ≤ o.maxIncludeDepth) : Except Diagnostic Draft :=
  match _h : s.step o with
  | .finished draft => .ok draft
  | .failed d _ => .error d
  | .next t => run read o t (State.depth_of_step_next _h hs)
  | .wanted path mark t =>
    match read path with
    | .error fault => .error (t.unreadable path mark fault)
    | .ok text => run read o (t.enter path text) (State.depth_of_step_wanted text _h)
termination_by Ranks.ofLengths (o.maxIncludeDepth + 1) s.lengths
decreasing_by
  · exact State.before_of_step_next _h hs
  · exact State.before_of_step_wanted text _h

/-- The library of a finished draft, if every reference is answered. -/
def conclude (draft : Draft) : Except Diagnostic Library := do
  draft.labels.check
  return draft.library

/-- The library that a text defines, as the source `path`. -/
def parseText (read : Provider) (o : Options) (path : SourcePath) (text : String) :
    Except Diagnostic Library := do
  conclude (← run read o (.start path text) (Nat.zero_le _))

/-- Reports that the root source cannot be read. -/
def unreadableRoot (root : SourcePath) (fault : ReadFault) : Diagnostic :=
  (Cause.unreadableSource root fault.message).reportedIn ⟨root, ⟨0, 0⟩⟩

/-- The path that stands for a text without a source of its own. -/
def unnamed : SourcePath := ⟨"<input>"⟩

/-- The library that a text without a source of its own defines, within the standard limits. -/
def parseString (read : Provider) (text : String) : Except Diagnostic Library :=
  parseText read .standard unnamed text

/-- The library that a root source defines. -/
def parse (read : Provider) (o : Options) (root : SourcePath) : Except Diagnostic Library :=
  match read root.normalize with
  | .error fault => .error (unreadableRoot root.normalize fault)
  | .ok text => parseText read o root.normalize text

/-- The library that a root source defines, within the standard limits. -/
def parseFile (read : Provider) (root : SourcePath) : Except Diagnostic Library :=
  parse read .standard root

end Songsheet.Document
