import Mathlib.Control.Monad.Basic
import Mathlib.Logic.Relation
import Songsheet.Document.Run
import Songsheet.Proofs.Directive

/-!
# Turns

Reading a document goes in turns: each takes one step and, for an include, asks the provider for
the source. A turn stops with an outcome or goes on from another state.

* `Leads` — the states that are reached from a state in any number of turns.
* `exists_leads_stop` — `run` is what the last turn stops with (`run_eq_iff_leads`), so a document
  of few turns can be evaluated (`parse_of_turns`).
* `Move` — all that a turn can do when it goes on, one constructor for each way; a turn goes on
  from `s` to `t` exactly if there is a move from `s` to `t` (`goes_iff`).
* `turn_eq_stop_ok_iff` — a turn stops without a fault exactly at the end of the root source.
-/

namespace Songsheet.Document

/-- What a turn comes to: the outcome of all the reading, or a state to go on from. -/
inductive Turn where
  | stop (outcome : Except Diagnostic Draft)
  | go (s : State)
  deriving DecidableEq

/-- One turn: a step, and for an include the reading of the source that it asks for. -/
def State.turn (read : Provider) (o : Options) (s : State) : Turn :=
  match s.step o with
  | .finished draft => .stop (.ok draft)
  | .failed d _ => .stop (.error d)
  | .next t => .go t
  | .wanted path mark t =>
    match read path with
    | .error fault => .stop (.error (t.unreadable path mark fault))
    | .ok text => .go (t.enter path text)

/-- A turn goes on from the first state to the second. -/
def Goes (read : Provider) (o : Options) (s t : State) : Prop :=
  s.turn read o = .go t

/-- Any number of turns go on from the first state to the second. -/
def Leads (read : Provider) (o : Options) : State → State → Prop :=
  Relation.ReflTransGen (Goes read o)

variable {read : Provider} {o : Options} {s t u : State}

theorem Goes.unique (hst : Goes read o s t) (hsu : Goes read o s u) : t = u := by
  rw [Goes, hst] at hsu
  exact Turn.go.inj hsu

theorem Goes.not_stop {outcome : Except Diagnostic Draft} (h : Goes read o s t) :
    s.turn read o ≠ .stop outcome := by
  rw [h]
  simp

theorem goes_eq : Goes read o s t ↔
    s.step o = .next t ∨
      ∃ path mark v text, s.step o = .wanted path mark v ∧ read path = .ok text ∧
        t = v.enter path text := by
  unfold Goes State.turn
  cases s.step o with
  | finished draft => simp
  | failed d v => simp
  | next v => simp
  | wanted path mark v =>
    cases hr : read path with
    | error fault => simp [hr]
    | ok text =>
      simp only [hr, Turn.go.injEq, reduceCtorEq, Step.wanted.injEq, false_or]
      constructor
      · rintro rfl
        exact ⟨path, mark, v, text, ⟨rfl, rfl, rfl⟩, hr, rfl⟩
      · intro h
        obtain ⟨_, _, _, _, ⟨rfl, rfl, rfl⟩, hr', rfl⟩ := h
        rw [hr, Except.ok.injEq] at hr'
        rw [hr']

/-! ## Turns and runs -/

theorem Goes.depth_le (h : Goes read o s t) (hs : s.suspended.length ≤ o.maxIncludeDepth) :
    t.suspended.length ≤ o.maxIncludeDepth := by
  rcases goes_eq.1 h with hn | ⟨path, mark, v, text, hw, _, rfl⟩
  · exact State.depth_of_step_next hn hs
  · exact State.depth_of_step_wanted text hw

theorem Leads.depth_le (h : Leads read o s t) (hs : s.suspended.length ≤ o.maxIncludeDepth) :
    t.suspended.length ≤ o.maxIncludeDepth := by
  induction h with
  | refl => exact hs
  | tail _ hgo ih => exact hgo.depth_le ih

theorem run_of_stop {outcome : Except Diagnostic Draft}
    (hs : s.suspended.length ≤ o.maxIncludeDepth) (h : s.turn read o = .stop outcome) :
    run read o s hs = outcome := by
  rw [run]
  unfold State.turn at h
  split at h <;> split <;> simp_all
  split at h <;> simp_all

theorem run_of_goes (hs : s.suspended.length ≤ o.maxIncludeDepth) (h : Goes read o s t) :
    run read o s hs = run read o t (h.depth_le hs) := by
  rw [run]
  rcases goes_eq.1 h with hn | ⟨path, mark, v, text, hw, hr, rfl⟩
  · split <;> simp_all
  · split <;> simp_all

/-- Turns do not change what the reading comes to. -/
theorem run_of_leads (hs : s.suspended.length ≤ o.maxIncludeDepth) (h : Leads read o s t) :
    run read o s hs = run read o t (h.depth_le hs) := by
  induction h with
  | refl => rfl
  | tail hlead hgo ih => exact ih.trans (run_of_goes (Leads.depth_le hlead hs) hgo)

/-- The reading comes to what some turn stops with. -/
theorem exists_leads_stop (read : Provider) (hs : s.suspended.length ≤ o.maxIncludeDepth) :
    ∃ t, Leads read o s t ∧ t.turn read o = .stop (run read o s hs) := by
  induction s, hs using run.induct read o with
  | case1 s hs draft h =>
    have hstop : s.turn read o = .stop (.ok draft) := by rw [State.turn, h]
    exact ⟨s, .refl, by rw [run_of_stop hs hstop, hstop]⟩
  | case2 s hs d v h =>
    have hstop : s.turn read o = .stop (.error d) := by rw [State.turn, h]
    exact ⟨s, .refl, by rw [run_of_stop hs hstop, hstop]⟩
  | case3 s hs v h ih =>
    have hgo : Goes read o s v := goes_eq.2 (.inl h)
    obtain ⟨t, hlead, hstop⟩ := ih
    exact ⟨t, .head hgo hlead, by rw [hstop, run_of_goes hs hgo]⟩
  | case4 s hs path mark v h fault hr =>
    have hstop : s.turn read o = .stop (.error (v.unreadable path mark fault)) := by
      simp [State.turn, h, hr]
    exact ⟨s, .refl, by rw [run_of_stop hs hstop, hstop]⟩
  | case5 s hs path mark v h text hr ih =>
    have hgo : Goes read o s (v.enter path text) := goes_eq.2 (.inr ⟨_, _, _, _, h, hr, rfl⟩)
    obtain ⟨t, hlead, hstop⟩ := ih
    exact ⟨t, .head hgo hlead, by rw [hstop, run_of_goes hs hgo]⟩

theorem run_eq_iff_leads {outcome : Except Diagnostic Draft}
    (hs : s.suspended.length ≤ o.maxIncludeDepth) :
    run read o s hs = outcome ↔ ∃ t, Leads read o s t ∧ t.turn read o = .stop outcome := by
  constructor
  · rintro rfl
    exact exists_leads_stop read hs
  · intro h
    obtain ⟨t, hlead, hstop⟩ := h
    exact (run_of_leads hs hlead).trans (run_of_stop _ hstop)

/-- What a bounded number of turns comes to. -/
def State.turns (read : Provider) (o : Options) : Nat → State → Turn
  | 0, s => .go s
  | n + 1, s =>
    match s.turn read o with
    | .stop outcome => .stop outcome
    | .go t => t.turns read o n

theorem run_of_turns {n : Nat} {outcome : Except Diagnostic Draft}
    (hs : s.suspended.length ≤ o.maxIncludeDepth) (h : s.turns read o n = .stop outcome) :
    run read o s hs = outcome := by
  induction n generalizing s with
  | zero => simp [State.turns] at h
  | succ n ih =>
    rw [State.turns] at h
    cases ht : s.turn read o with
    | stop other =>
      rw [ht] at h
      rw [run_of_stop hs ht]
      exact Turn.stop.inj h
    | go t =>
      rw [ht] at h
      exact (run_of_goes hs ht).trans (ih _ h)

/-- The source that is read next. -/
def Turn.current? : Turn → Option OpenSource
  | .stop _ => none
  | .go s => some s.current

theorem exists_leads_of_turns (n : Nat) {x : OpenSource}
    (h : (s.turns read o n).current? = some x) : ∃ t, Leads read o s t ∧ t.current = x := by
  induction n generalizing s with
  | zero => exact ⟨s, .refl, Option.some.inj h⟩
  | succ n ih =>
    rw [State.turns] at h
    cases ht : s.turn read o with
    | stop outcome =>
      rw [ht] at h
      cases h
    | go v =>
      rw [ht] at h
      obtain ⟨t, hlead, hcurrent⟩ := ih h
      exact ⟨t, .head ht hlead, hcurrent⟩

/-! ## Outcomes -/

theorem conclude_eq_ok {draft : Draft} {l : Library} :
    conclude draft = .ok l ↔ draft.labels.check = .ok () ∧ l = draft.library := by
  unfold conclude
  cases draft.labels.check with
  | error d => simp [bind, Except.bind]
  | ok => simp [bind, Except.bind, pure, Except.pure, eq_comm]

theorem parseText_eq_ok {path : SourcePath} {text : String} {l : Library} :
    parseText read o path text = .ok l ↔
      ∃ draft, run read o (.start path text) (Nat.zero_le _) = .ok draft ∧
        conclude draft = .ok l := by
  unfold parseText
  cases run read o (.start path text) (Nat.zero_le _) with
  | error d => simp [bind, Except.bind]
  | ok draft => simp [bind, Except.bind]

theorem parse_eq_ok {root : SourcePath} {l : Library} :
    parse read o root = .ok l ↔
      ∃ text, read root.normalize = .ok text ∧
        parseText read o root.normalize text = .ok l := by
  unfold parse
  cases read root.normalize with
  | error fault => simp
  | ok text => simp

/-- A library is the outcome exactly if the reading leads to the end of the root source and every
reference is then answered. -/
theorem parseText_eq_ok_iff_leads {path : SourcePath} {text : String} {l : Library} :
    parseText read o path text = .ok l ↔
      ∃ t draft, Leads read o (.start path text) t ∧ t.turn read o = .stop (.ok draft) ∧
        conclude draft = .ok l := by
  rw [parseText_eq_ok]
  constructor
  · intro h
    obtain ⟨draft, hrun, hl⟩ := h
    obtain ⟨t, hlead, hstop⟩ := (run_eq_iff_leads _).1 hrun
    exact ⟨t, draft, hlead, hstop, hl⟩
  · intro h
    obtain ⟨t, draft, hlead, hstop, hl⟩ := h
    exact ⟨draft, (run_eq_iff_leads _).2 ⟨t, hlead, hstop⟩, hl⟩

/-- The library that a turn stops with. -/
def Turn.library? : Turn → Option Library
  | .stop (.ok draft) => (conclude draft).toOption
  | _ => none

/-- A bound on the number of turns makes the library of a root source a matter of evaluation. -/
theorem parse_of_turns (n : Nat) {root : SourcePath} {text : String} {l : Library}
    (hread : read root.normalize = .ok text)
    (hl : ((State.start root.normalize text).turns read o n).library? = some l) :
    parse read o root = .ok l := by
  cases hturns : (State.start root.normalize text).turns read o n with
  | go t => simp [hturns, Turn.library?] at hl
  | stop outcome =>
    cases outcome with
    | error d => simp [hturns, Turn.library?] at hl
    | ok draft =>
      have hdraft : conclude draft = .ok l := by
        rw [hturns] at hl
        cases hc : conclude draft with
        | error d => simp [Turn.library?, hc, Except.toOption] at hl
        | ok found => simpa [Turn.library?, hc, Except.toOption] using hl
      exact parse_eq_ok.2 ⟨text, hread, parseText_eq_ok.2 ⟨draft, run_of_turns _ hturns, hdraft⟩⟩

/-- A song of two tracks, which share the sequence of an included source. -/
def duet : Shelf := ⟨[
  (⟨"song"⟩,
    "@lead: %name \"Lead\" %channel riff <parts/riff>\n@bass: %bpm 90 %channel riff"),
  (⟨"parts/riff"⟩, "$riff: C4[1/4] e ~0[0/1] // end")]⟩

/-- The library of the song, in which the note that stands for no note is left out. -/
def duetLibrary : Library where
  tracks := [⟨"lead", "Lead", 0, [["riff"]]⟩, ⟨"bass", "", 90, [["riff"]]⟩]
  sequences := [⟨"riff", [⟨.c, 4, ⟨0, 64⟩⟩, ⟨.e, 4, ⟨0, 64⟩⟩]⟩]
  index := [("riff", 0)]

theorem parse_duet : parse duet.read ⟨2, false⟩ ⟨"song"⟩ = .ok duetLibrary := by
  have hread : duet.read (SourcePath.mk "song").normalize = .ok
      "@lead: %name \"Lead\" %channel riff <parts/riff>\n@bass: %bpm 90 %channel riff" := by
    decide +kernel
  exact parse_of_turns 15 hread (by decide +kernel)

/-! ## What a turn can do -/

@[simp] theorem State.activePaths_moveTo (s : State) (c : Cursor) :
    (s.moveTo c).activePaths = s.activePaths := by
  simp [activePaths, active, moveTo]

@[simp] theorem State.refusal?_moveTo (s : State) (c : Cursor) (o : Options)
    (path : SourcePath) : (s.moveTo c).refusal? o path = s.refusal? o path := by
  simp only [refusal?, activePaths_moveTo]
  rfl

/-- The ways in which a turn goes on from the state `s`: it reads blanks, reads a directive and
obeys it, resumes the source that waits, or enters a source that is included. -/
inductive Move (read : Provider) (o : Options) (s : State) : State → Prop
  | blank {p : Position} {c : Cursor}
      (token : Reading.nextToken s.current.cursor = .ok ⟨.blank, p⟩ c) :
      Move read o s (s.moveTo c)
  | directive {mark : Token} {c d : Cursor} {x : Directive} {draft : Draft}
      (token : Reading.nextToken s.current.cursor = .ok mark c)
      (reads : Reading.directive s.current.path mark.kind c = .ok x d)
      (obeys : s.draft.obey? x = some draft) :
      Move read o s { s.moveTo d with draft }
  | resume {p : Position} {c : Cursor} {waiting : OpenSource} {others : List OpenSource}
      (token : Reading.nextToken s.current.cursor = .ok ⟨.endOfText, p⟩ c)
      (waits : s.suspended = waiting :: others) :
      Move read o s ⟨waiting, others, s.draft⟩
  | enter {p : Position} {c d : Cursor} {path : SourcePath} {text : String}
      (token : Reading.nextToken s.current.cursor = .ok ⟨.includeMark, p⟩ c)
      (reads : s.readPath p c = .ok path d)
      (allowed : s.refusal? o path = none)
      (found : read path = .ok text) :
      Move read o s ((s.moveTo d).enter path text)

theorem State.stepDirective_eq_next {directive : Reading Draft} :
    s.stepDirective directive = .next t ↔
      ∃ draft d, directive s.current.cursor = .ok draft d ∧ t = { s.moveTo d with draft } := by
  unfold stepDirective
  split
  · rename_i draft d hd
    simp only [Step.next.injEq, hd, EStateM.Result.ok.injEq]
    constructor
    · rintro rfl
      exact ⟨draft, d, ⟨rfl, rfl⟩, rfl⟩
    · intro h
      obtain ⟨_, _, ⟨rfl, rfl⟩, rfl⟩ := h
      rfl
  · rename_i e d hd
    simp [fail, hd]

theorem State.stepInclude_eq_wanted {mark mark' : Position} {path : SourcePath} :
    s.stepInclude o mark = .wanted path mark' t ↔
      mark' = mark ∧ ∃ d, s.readPath mark s.current.cursor = .ok path d ∧
        s.refusal? o path = none ∧ t = s.moveTo d := by
  unfold stepInclude
  split
  · rename_i e d hd
    simp [fail, hd]
  · rename_i path' d hd
    split
    · rename_i cause hc
      simp only [fail, reduceCtorEq, hd, EStateM.Result.ok.injEq, false_iff]
      intro h
      obtain ⟨_, _, ⟨rfl, _⟩, hr, _⟩ := h
      simp [hc] at hr
    · rename_i hc
      simp only [Step.wanted.injEq, hd, EStateM.Result.ok.injEq]
      constructor
      · intro h
        obtain ⟨rfl, rfl, rfl⟩ := h
        exact ⟨rfl, d, ⟨rfl, rfl⟩, hc, rfl⟩
      · intro h
        obtain ⟨rfl, _, ⟨rfl, rfl⟩, _, rfl⟩ := h
        exact ⟨rfl, rfl, rfl⟩

theorem State.step_of_token {token : Token} {c : Cursor}
    (h : Reading.nextToken s.current.cursor = .ok token c) :
    s.step o = (s.moveTo c).stepToken o token := by
  rw [step, h]

/-- Behind a mark a step goes on exactly if a directive can be read there and is not refused. -/
theorem State.stepToken_eq_next_of_directive {mark : Token} {c d : Cursor} {x : Directive}
    {draft : Draft} (reads : Reading.directive s.current.path mark.kind c = .ok x d)
    (obeys : s.draft.obey? x = some draft) :
    (s.moveTo c).stepToken o mark = .next { s.moveTo d with draft } := by
  obtain ⟨kind, p⟩ := mark
  cases kind with
  | trackMark =>
    exact stepDirective_eq_next.2 ⟨draft, d, Draft.readTrack_eq_ok.2 ⟨x, reads, obeys⟩, rfl⟩
  | sequenceMark =>
    exact stepDirective_eq_next.2 ⟨draft, d, Draft.readSequence_eq_ok.2 ⟨x, reads, obeys⟩, rfl⟩
  | attributeMark =>
    exact stepDirective_eq_next.2
      ⟨draft, d, Draft.readAttribute_eq_ok.2 ⟨x, reads, obeys⟩, rfl⟩
  | _ => simp [Reading.directive, Reading.bind_eq_ok, Reading.fail_ne_ok] at reads

theorem Move.goes (h : Move read o s t) : Goes read o s t := by
  rw [goes_eq]
  cases h with
  | blank token => exact .inl (State.step_of_token token)
  | directive token reads obeys =>
    exact .inl ((State.step_of_token token).trans
      (State.stepToken_eq_next_of_directive reads obeys))
  | resume token waits =>
    refine .inl ((State.step_of_token token).trans ?_)
    simp [State.stepToken, State.moveTo, waits]
  | enter token reads allowed found =>
    have wanted := State.stepInclude_eq_wanted.2
      ⟨rfl, _, reads, (State.refusal?_moveTo ..).trans allowed, rfl⟩
    exact .inr ⟨_, _, _, _, (State.step_of_token token).trans wanted, found, rfl⟩

theorem Move.of_stepToken_next {token : Token} {c : Cursor}
    (ht : Reading.nextToken s.current.cursor = .ok token c)
    (h : (s.moveTo c).stepToken o token = .next t) : Move read o s t := by
  obtain ⟨kind, p⟩ := token
  cases kind with
  | blank =>
    obtain rfl := Step.next.inj h
    exact .blank ht
  | endOfText =>
    simp only [State.stepToken] at h
    split at h
    · simp at h
    · rename_i waiting others hw
      obtain rfl := Step.next.inj h
      exact .resume ht hw
  | includeMark => exact absurd h State.stepInclude_ne_next
  | trackMark =>
    obtain ⟨draft, d, hd, rfl⟩ := State.stepDirective_eq_next.1 h
    obtain ⟨x, reads, obeys⟩ := Draft.readTrack_eq_ok.1 hd
    exact .directive ht reads obeys
  | sequenceMark =>
    obtain ⟨draft, d, hd, rfl⟩ := State.stepDirective_eq_next.1 h
    obtain ⟨x, reads, obeys⟩ := Draft.readSequence_eq_ok.1 hd
    exact .directive ht reads obeys
  | attributeMark =>
    obtain ⟨draft, d, hd, rfl⟩ := State.stepDirective_eq_next.1 h
    obtain ⟨x, reads, obeys⟩ := Draft.readAttribute_eq_ok.1 hd
    exact .directive ht reads obeys
  | _ => simp [State.stepToken, State.fail] at h

theorem Move.of_stepToken_wanted {token : Token} {c : Cursor} {path : SourcePath}
    {mark : Position} {v : State} {text : String}
    (ht : Reading.nextToken s.current.cursor = .ok token c)
    (h : (s.moveTo c).stepToken o token = .wanted path mark v) (hr : read path = .ok text) :
    Move read o s (v.enter path text) := by
  obtain ⟨kind, p⟩ := token
  cases kind with
  | includeMark =>
    obtain ⟨-, d, reads, allowed, rfl⟩ := State.stepInclude_eq_wanted.1 h
    exact .enter ht reads (by simpa using allowed) hr
  | endOfText =>
    simp only [State.stepToken] at h
    split at h <;> simp at h
  | trackMark | sequenceMark | attributeMark => exact absurd h State.stepDirective_ne_wanted
  | _ => simp [State.stepToken, State.fail] at h

/-- A turn goes on exactly by one of the moves. -/
theorem goes_iff : Goes read o s t ↔ Move read o s t := by
  refine ⟨fun h => ?_, Move.goes⟩
  rw [goes_eq, State.step] at h
  cases ht : Reading.nextToken s.current.cursor with
  | error d c => simp [ht, State.fail] at h
  | ok token c =>
    simp only [ht] at h
    rcases h with hn | ⟨path, mark, v, text, hw, hr, rfl⟩
    · exact .of_stepToken_next ht hn
    · exact .of_stepToken_wanted ht hw hr

/-- Behind the mark of a directive that can be read, the next move is to obey it. -/
theorem Move.directive_of_token {mark : Token} {c d : Cursor} {x : Directive}
    (h : Move read o s t) (token : Reading.nextToken s.current.cursor = .ok mark c)
    (reads : Reading.directive s.current.path mark.kind c = .ok x d) :
    ∃ draft, s.draft.obey? x = some draft ∧ t = { s.moveTo d with draft } := by
  have hmark := Reading.mark_of_directive reads
  cases h with
  | blank token' | resume token' waits | enter token' reads' allowed found =>
    obtain ⟨rfl, rfl⟩ := EStateM.Result.ok.inj (token.symm.trans token')
    simp at hmark
  | directive token' reads' obeys =>
    obtain ⟨rfl, rfl⟩ := EStateM.Result.ok.inj (token.symm.trans token')
    obtain ⟨rfl, rfl⟩ := EStateM.Result.ok.inj (reads.symm.trans reads')
    exact ⟨_, obeys, rfl⟩

/-- Behind the mark of an include that can be read, the next move is to enter the source. -/
theorem Move.enter_of_token {p : Position} {c d : Cursor} {path : SourcePath} {text : String}
    (h : Move read o s t)
    (token : Reading.nextToken s.current.cursor = .ok ⟨.includeMark, p⟩ c)
    (reads : s.readPath p c = .ok path d) (found : read path = .ok text) :
    t = (s.moveTo d).enter path text := by
  cases h with
  | blank token' | resume token' waits => simp [token] at token'
  | directive token' reads' obeys =>
    obtain ⟨rfl, rfl⟩ := EStateM.Result.ok.inj (token.symm.trans token')
    have hmark := Reading.mark_of_directive reads'
    simp at hmark
  | enter token' reads' allowed found' =>
    obtain ⟨heq, rfl⟩ := EStateM.Result.ok.inj (token.symm.trans token')
    obtain rfl : p = _ := congrArg Token.position heq
    obtain ⟨rfl, rfl⟩ := EStateM.Result.ok.inj (reads.symm.trans reads')
    obtain rfl := Except.ok.inj (found.symm.trans found')
    rfl

theorem State.stepToken_eq_finished {token : Token} {draft : Draft} :
    s.stepToken o token = .finished draft ↔
      ∃ p, token = ⟨.endOfText, p⟩ ∧ s.suspended = [] ∧ draft = s.draft := by
  obtain ⟨kind, p⟩ := token
  cases kind with
  | endOfText =>
    cases hs : s.suspended <;> simp [stepToken, hs, eq_comm]
  | includeMark =>
    simp only [stepToken, stepInclude]
    split
    · simp [fail]
    · split <;> simp [fail]
  | trackMark | sequenceMark | attributeMark =>
    simp only [stepToken, stepDirective]
    split <;> simp [fail]
  | _ => simp [stepToken, fail]

/-- The reading ends without a fault exactly at the end of the root source. -/
theorem turn_eq_stop_ok_iff {draft : Draft} :
    s.turn read o = .stop (.ok draft) ↔
      ∃ p c, Reading.nextToken s.current.cursor = .ok ⟨.endOfText, p⟩ c ∧
        s.suspended = [] ∧ draft = s.draft := by
  constructor
  · intro h
    have hstep : s.step o = .finished draft := by
      unfold State.turn at h
      cases hs : s.step o with
      | finished e => simpa [hs] using h
      | failed d t => simp [hs] at h
      | next t => simp [hs] at h
      | wanted path mark t => cases hr : read path <;> simp [hs, hr] at h
    cases ht : Reading.nextToken s.current.cursor with
    | error d c => simp [State.step, ht, State.fail] at hstep
    | ok token c =>
      rw [State.step_of_token ht] at hstep
      obtain ⟨p, hk, hs, rfl⟩ := State.stepToken_eq_finished.1 hstep
      exact ⟨p, c, by rw [hk], hs, rfl⟩
  · intro h
    obtain ⟨p, c, ht, hs, rfl⟩ := h
    simp [State.turn, State.step_of_token ht, State.stepToken, State.moveTo, hs]

end Songsheet.Document
