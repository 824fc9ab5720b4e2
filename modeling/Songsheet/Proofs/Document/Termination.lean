import Mathlib.Order.WellFounded
import Songsheet.Proofs.Document.Turn

/-!
# Reading comes to an end

An include puts a text of any length in the place of the one being read, so no single count goes
down from turn to turn. What goes down is the vector of ranks of the nested sources: a turn
either reads on in the current source, by at least one character, and may then open a source
behind it, or it closes the current source.

* `Goes.change` — the three ways in which a turn changes the sources that are being read.
* `Goes.before` — each turn lowers the ranks of the sources.
* `reading_terminates` — no run of turns goes on for ever, whatever the provider answers.
-/

namespace Songsheet.Document

variable {read : Provider} {o : Options} {s t : State}

/-- The current source has been read further, by at least one character. -/
def Advanced (s t : State) : Prop :=
  Moved s t ∧ t.current.cursor.rest.length < s.current.cursor.rest.length

/-- The current source has been read further, by at least one character, and a source has been
entered from there. -/
def Entered (s t : State) : Prop :=
  ∃ v path text, Advanced s v ∧ t = v.enter path text

theorem Goes.change (h : Goes read o s t) : Resumed s t ∨ Advanced s t ∨ Entered s t := by
  rcases goes_eq.1 h with hn | ⟨path, mark, v, text, hw, _, rfl⟩
  · rcases State.step_next hn with hadv | hres
    · exact .inr (.inl hadv)
    · exact .inl hres
  · obtain ⟨hm, hlt, _⟩ := State.step_wanted hw
    exact .inr (.inr ⟨v, path, text, ⟨hm, hlt⟩, rfl⟩)

/-- The ranks of the sources that are being read in a state. -/
def State.ranks (o : Options) (s : State) : Ranks (o.maxIncludeDepth + 1) :=
  .ofLengths (o.maxIncludeDepth + 1) s.lengths

theorem Goes.before (h : Goes read o s t) (hs : s.suspended.length ≤ o.maxIncludeDepth) :
    Ranks.Before (o.maxIncludeDepth + 1) (t.ranks o) (s.ranks o) := by
  rcases goes_eq.1 h with hn | ⟨path, mark, v, text, hw, _, rfl⟩
  · exact State.before_of_step_next hn hs
  · exact State.before_of_step_wanted text hw

/-- Where the depth is within the limit, turns cannot go on for ever. -/
theorem exists_not_goes {turns : Nat → State}
    (hs : (turns 0).suspended.length ≤ o.maxIncludeDepth) :
    ∃ n, ¬ Goes read o (turns n) (turns (n + 1)) := by
  by_contra hall
  have hgo : ∀ n, Goes read o (turns n) (turns (n + 1)) := by simpa using hall
  have hdepth : ∀ n, (turns n).suspended.length ≤ o.maxIncludeDepth := by
    intro n
    induction n with
    | zero => exact hs
    | succ n ih => exact (hgo n).depth_le ih
  have hwf := Ranks.wellFounded (o.maxIncludeDepth + 1)
  exact (wellFounded_iff_isEmpty_descending_chain.1 hwf).false
    ⟨fun n => (turns n).ranks o, fun n => (hgo n).before (hdepth n)⟩

theorem depth_le_of_leads_start {path : SourcePath} {text : String}
    (h : Leads read o (.start path text) s) : s.suspended.length ≤ o.maxIncludeDepth :=
  Leads.depth_le h (Nat.zero_le _)

/-- **Termination.** Whatever the provider answers and whatever the options are, the reading of a
text stops after finitely many turns, with what `run` comes to; each turn before that resumes the
source that waits, or reads at least one character of the current source, behind which it may
enter another; and no source is entered deeper than the options allow. -/
theorem reading_terminates (read : Provider) (o : Options) (path : SourcePath) (text : String) :
    (∃ t, Leads read o (.start path text) t ∧
        t.turn read o = .stop (run read o (.start path text) (Nat.zero_le _))) ∧
      (∀ turns : Nat → State, turns 0 = .start path text →
        ∃ n, ¬ Goes read o (turns n) (turns (n + 1))) ∧
      (∀ s, Leads read o (.start path text) s →
        s.suspended.length ≤ o.maxIncludeDepth ∧
          ((∃ outcome, s.turn read o = .stop outcome) ∨
            ∃ t, Goes read o s t ∧ (Resumed s t ∨ Advanced s t ∨ Entered s t))) ∧
      ∀ (c d : Cursor) (token : Token), Reading.nextToken c = .ok token d →
        token.kind ≠ .endOfText → c.Reaches d ∧ d.rest.length < c.rest.length := by
  have hstart : (State.start path text).suspended.length ≤ o.maxIncludeDepth := Nat.zero_le _
  refine ⟨exists_leads_stop read hstart, ?_, ?_, ?_⟩
  · intro turns hzero
    apply exists_not_goes
    rw [hzero]
    exact hstart
  · intro s hlead
    refine ⟨depth_le_of_leads_start hlead, ?_⟩
    cases hturn : s.turn read o with
    | stop outcome => exact .inl ⟨outcome, rfl⟩
    | go t => exact .inr ⟨t, hturn, Goes.change hturn⟩
  · intro c d token htoken hkind
    exact ⟨Reading.forward_nextToken.ok htoken, Reading.length_of_nextToken htoken hkind⟩

end Songsheet.Document
