import Songsheet.Proofs.Document.Flattening
import Songsheet.Proofs.Score.Draft

/-!
# Transcripts

The items that the reading of a document takes, in the order in which it takes them, through all
the sources that it enters: its transcript. A turn takes an item if the text of one lies between the
states before and behind it, whatever the reader makes of it; all other turns leave what has been
defined alone. So the transcript says what the document defines.

* `Takes` — the text of an item lies between two states.
* `Trail` — the items taken on the way from one state to another; `exists_trail` finds them.
* `Trail.records` — along the way the draft follows from the items.
* `library_of_transcript` — the library of a document is that of its transcript.
* `sequences_of_parse` — so its sequences are, and each note has inherited what it leaves out.
-/

namespace Songsheet.Document

variable {read : Provider} {o : Options} {s t u : State} {it : Item} {items before : List Item}

/-! ## Items that are taken -/

/-- From `s` to `t` an item is taken: in the same source, its text stands behind comments and in
front of a gap. -/
def Takes (it : Item) (s t : State) : Prop :=
  t.suspended = s.suspended ∧ ∃ front back, CommentsText s.current.cursor.rest front ∧
    ItemText it front back ∧ GapText Text.isBlank back t.current.cursor.rest

/-- A directive that is read is an item that is taken. -/
theorem exists_takes {mark : TokenKind} {p : Position} {c d : Cursor} {x : Directive}
    (token : Reading.nextToken s.current.cursor = .ok ⟨mark, p⟩ c)
    (reads : Reading.directive s.current.path mark c = .ok x d) (draft : Draft) :
    ∃ it, Takes it s { s.moveTo d with draft := draft } := by
  obtain ⟨m, hm, -⟩ := exists_mark_of_directive reads
  obtain ⟨it, rest, -, htext, hgap, -⟩ := Reading.itemText_of_directive hm reads
  exact ⟨it, rfl, _, rest, Reading.commentsText_of_mark hm token, htext, hgap⟩

/-- What is taken as an item is read and obeyed as one. -/
theorem Goes.obeys (h : Goes read o s t) (htakes : Takes it s t) :
    ∃ x, x.eraseSites = it.directive ∧ s.draft.obey? x = some t.draft := by
  obtain ⟨hstays, front, back, hcomments, htext, hgap⟩ := htakes
  obtain ⟨m, tail, kind, rfl, hm, hslash, hblank⟩ := exists_mark_of_itemText htext
  obtain ⟨p, c, token, hc⟩ :=
    Reading.nextToken_of_markText hm hcomments fun heq => absurd heq hslash
  rcases h.stayed hstays with ⟨p', c', token', rfl⟩ | ⟨mark, c', x, d, draft, token', reads, obeys, rfl⟩
  · -- a blank is no mark
    obtain ⟨heq, -⟩ := EStateM.Result.ok.inj (token.symm.trans token')
    exact absurd (congrArg Token.kind heq) hblank
  · obtain ⟨rfl, rfl⟩ := EStateM.Result.ok.inj (token.symm.trans token')
    -- the directive that is read is an item as well, and it stops where this one does
    obtain ⟨it', rest', -, htext', -, hstop'⟩ := Reading.itemText_of_directive hm reads
    rw [hc] at htext'
    obtain ⟨m₂, tail₂, kind₂, heq, hm₂, hread⟩ := Reading.directive_of_itemText s.current.path htext
      hgap (htext.stops htext' hstop')
    obtain ⟨rfl, rfl⟩ := List.cons.inj heq
    obtain rfl := Option.some.inj (hm.symm.trans hm₂)
    obtain ⟨x₂, d₂, reads₂, hx₂, -⟩ := hread c hc
    obtain ⟨rfl, -⟩ := EStateM.Result.ok.inj (reads.symm.trans reads₂)
    exact ⟨x, hx₂, obeys⟩

/-- Where no item is taken, nothing is defined. -/
theorem Goes.draft_eq (h : Goes read o s t) (hquiet : ∀ it, ¬ Takes it s t) :
    t.draft = s.draft := by
  cases goes_iff.1 h with
  | blank token | resume token waits | enter token reads allowed found => rfl
  | @directive mark c d x draft token reads obeys =>
    obtain ⟨it, htakes⟩ := exists_takes token reads draft
    exact absurd htakes (hquiet it)

/-! ## Trails -/

/-- The items that are taken, turn by turn, on the way from `s` to another state. -/
inductive Trail (read : Provider) (o : Options) (s : State) : List Item → State → Prop
  | start : Trail read o s [] s
  | quiet {items : List Item} {t u : State} (before : Trail read o s items t)
      (goes : Goes read o t u) (takes : ∀ it, ¬ Takes it t u) : Trail read o s items u
  | item {items : List Item} {it : Item} {t u : State} (before : Trail read o s items t)
      (goes : Goes read o t u) (takes : Takes it t u) : Trail read o s (items ++ [it]) u

theorem Trail.leads (h : Trail read o s items t) : Leads read o s t := by
  induction h with
  | start => exact .refl
  | quiet before goes takes ih => exact .tail ih goes
  | item before goes takes ih => exact .tail ih goes

/-- Every way has a trail. -/
theorem exists_trail (h : Leads read o s t) : ∃ items, Trail read o s items t := by
  induction h with
  | refl => exact ⟨[], .start⟩
  | @tail t u _ goes ih =>
    obtain ⟨items, before⟩ := ih
    by_cases htakes : ∃ it, Takes it t u
    · obtain ⟨it, htakes⟩ := htakes
      exact ⟨items ++ [it], .item before goes htakes⟩
    · exact ⟨items, .quiet before goes fun it h => htakes ⟨it, h⟩⟩

/-- Along a trail the draft follows from the items that were taken. -/
theorem Trail.records (h : Trail read o s items t) (hs : s.draft.Records before) :
    t.draft.Records (before ++ items) := by
  induction h with
  | start =>
    rw [List.append_nil]
    exact hs
  | quiet _ goes takes ih =>
    rw [goes.draft_eq takes]
    exact ih
  | @item items it t u _ goes takes ih =>
    obtain ⟨x, hx, hobeys⟩ := goes.obeys takes
    -- sites aside, the item itself is obeyed
    have herased := t.draft.obey?_eraseSites x
    rw [hx, hobeys] at herased
    rw [← List.append_assoc]
    exact Draft.Records.eraseSites_iff.1 ((Draft.Records.eraseSites_iff.2 ih).obey? herased)

/-! ## Transcripts -/

/-- The items that the reading of a root source takes up to its end. -/
def Transcript (read : Provider) (o : Options) (root : SourcePath) (items : List Item) : Prop :=
  ∃ text e, read root.normalize = .ok text ∧
    Trail read o (.start root.normalize text) items e ∧ e.turn read o = .stop (.ok e.draft)

theorem Trail.records_start {path : SourcePath} {text : String}
    (h : Trail read o (.start path text) items t) : t.draft.Records items :=
  h.records Draft.Records.empty

/-- Where a text defines a library, its reading has a trail to the end. -/
theorem exists_trail_of_parseText {path : SourcePath} {text : String} {l : Library}
    (h : parseText read o path text = .ok l) :
    ∃ items e, Trail read o (.start path text) items e ∧ e.turn read o = .stop (.ok e.draft) := by
  obtain ⟨e, draft, hlead, hstop, -⟩ := parseText_eq_ok_iff_leads.1 h
  obtain ⟨items, htrail⟩ := exists_trail hlead
  obtain ⟨_, _, _, _, rfl⟩ := turn_eq_stop_ok_iff.1 hstop
  exact ⟨items, e, htrail, hstop⟩

/-- The library of a text is that of any trail to the end, whose items are sound. -/
theorem library_of_trail {path : SourcePath} {text : String} {l : Library}
    (h : parseText read o path text = .ok l) (htrail : Trail read o (.start path text) items t)
    (hstop : t.turn read o = .stop (.ok t.draft)) :
    Score.Sound items ∧ l = Score.library items := by
  obtain ⟨draft, hrun, hl⟩ := parseText_eq_ok.1 h
  have hend := (run_of_leads (Nat.zero_le _) htrail.leads).trans (run_of_stop _ hstop)
  obtain rfl := Except.ok.inj (hrun.symm.trans hend)
  exact htrail.records_start.conclude_eq_ok.1 hl

theorem exists_transcript {root : SourcePath} {l : Library} (h : parse read o root = .ok l) :
    ∃ items, Transcript read o root items := by
  obtain ⟨text, hread, htext⟩ := parse_eq_ok.1 h
  obtain ⟨items, e, htrail, hstop⟩ := exists_trail_of_parseText htext
  exact ⟨items, text, e, hread, htrail, hstop⟩

/-- The library of a document is that of its transcript, and the transcript is sound. -/
theorem library_of_transcript {root : SourcePath} {l : Library} (h : parse read o root = .ok l)
    (ht : Transcript read o root items) : Score.Sound items ∧ l = Score.library items := by
  obtain ⟨text, hread, htext⟩ := parse_eq_ok.1 h
  obtain ⟨text', e, hread', htrail, hstop⟩ := ht
  obtain rfl := Except.ok.inj (hread.symm.trans hread')
  exact library_of_trail htext htrail hstop

/-! ## What notes inherit

A note that leaves out its octave or its duration inherits it from the note before it, wherever that
stands: in the same sequence, in another one, or in another source. Through the whole reading of a
document the notes are numbered as they are read, those that stand for no note included, and each
inherits from the latest note that says something, or from middle C. -/

/-- **Inheritance.** A document that defines a library has a transcript, and its sequences are those
of the transcript: each holds its own notes in order, less those that stand for no note, and a note
has the pitch of its own key and, each on its own, the latest octave and the latest duration written
up to it in the document. -/
theorem sequences_of_parse {root : SourcePath} {l : Library} (h : parse read o root = .ok l) :
    (∃ items, Transcript read o root items) ∧
      ∀ items, Transcript read o root items → l.sequences = Score.sequences items := by
  refine ⟨exists_transcript h, ?_⟩
  intro items ht
  obtain ⟨-, rfl⟩ := library_of_transcript h ht
  rfl

theorem sequences_duet :
    parse duet.read ⟨2, false⟩ ⟨"song"⟩ = .ok duetLibrary ∧
      (∃ items, Transcript duet.read ⟨2, false⟩ ⟨"song"⟩ items) ∧
        ∀ items, Transcript duet.read ⟨2, false⟩ ⟨"song"⟩ items →
          duetLibrary.sequences = Score.sequences items :=
  ⟨parse_duet, sequences_of_parse parse_duet⟩

/-- The third note stands for no note, but the fourth inherits from it. -/
example : Score.sequences [
      .sequence "a" [⟨"c", some 5, none⟩, ⟨"d", none, some ⟨0, 64⟩⟩, ⟨"~", some 0, some ⟨0, 0⟩⟩],
      .track "t", .sequence "b" [⟨"e", none, none⟩]] =
    [⟨"a", [⟨.c, 5, ⟨0, 32⟩⟩, ⟨.d, 5, ⟨0, 64⟩⟩]⟩, ⟨"b", [⟨.e, 0, ⟨0, 0⟩⟩]⟩] := by
  decide

end Songsheet.Document
