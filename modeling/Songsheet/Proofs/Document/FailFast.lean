import Songsheet.Proofs.Document.Lockstep

/-!
# Failing without reading on

A reading that fails does so without looking at the rest of the text. How far the root source has
been read by then is known from the state in which the fault shows, and no more than two characters
behind this place have been looked at: any text that agrees up to there fails in the same way, and
so does the document, also if the fault shows in a source that was included.

* `FailsIn` — a turn that fails, with the state in which the fault shows.
* `FailsBehind` — the reading of a text fails when so many of its characters have been read.
* `parseText_of_agrees` — the document fails in the same way with any text that agrees.
-/

namespace Songsheet.Document

open Reading

variable {read : Provider} {o : Options} {s t u v : State} {d : Diagnostic} {path : SourcePath}
  {text text' : String} {p : Nat}

/-! ## Turns that fail -/

/-- A turn from `s` fails with a diagnostic, which shows in the state `v`: the step fails there, or
the provider does not give the source that the step asks for. -/
inductive FailsIn (read : Provider) (o : Options) (s : State) : Diagnostic → State → Prop
  | step {d : Diagnostic} {v : State} (fails : s.step o = .failed d v) : FailsIn read o s d v
  | unreadable {wanted : SourcePath} {mark : Position} {fault : ReadFault} {v : State}
      (wants : s.step o = .wanted wanted mark v) (absent : read wanted = .error fault) :
      FailsIn read o s (v.unreadable wanted mark fault) v

theorem turn_eq_stop_error_iff_failsIn :
    s.turn read o = .stop (.error d) ↔ ∃ v, FailsIn read o s d v := by
  constructor
  · intro h
    unfold State.turn at h
    cases hstep : s.step o with
    | finished draft => rw [hstep] at h; cases h
    | next t => rw [hstep] at h; cases h
    | failed e v =>
      rw [hstep] at h
      obtain rfl := Except.error.inj (Turn.stop.inj h)
      exact ⟨v, .step hstep⟩
    | wanted wanted mark v =>
      rw [hstep] at h
      dsimp only at h
      cases hread : read wanted with
      | ok text => rw [hread] at h; cases h
      | error fault =>
        rw [hread] at h
        obtain rfl := Except.error.inj (Turn.stop.inj h)
        exact ⟨v, .unreadable hstep hread⟩
  · intro ⟨v, hfails⟩
    cases hfails with
    | step fails => rw [State.turn, fails]
    | unreadable wants absent =>
      rw [State.turn, wants]
      simp only [absent]

/-- What a step leaves behind when it fails or asks for a source. -/
def Step.left? : Step → Option State
  | .failed _ v => some v
  | .wanted _ _ v => some v
  | _ => none

/-- A step that fails or asks for a source leaves behind what it has read. -/
theorem State.left?_step (h : (s.step o).left? = some v) :
    v = s.moveTo (cursorLeft (s.passage s.current.cursor)) := by
  rw [s.step_eq] at h
  cases hx : s.passage s.current.cursor with
  | error e c =>
    rw [hx] at h
    exact (Option.some.inj h).symm
  | ok x c =>
    rw [hx] at h
    cases x with
    | blank => cases h
    | drafts draft => cases h
    | ending =>
      simp only [stepBy] at h
      split at h <;> cases h
    | names mark path =>
      simp only [stepBy] at h
      split at h <;> exact (Option.some.inj h).symm

theorem FailsIn.left_eq (h : FailsIn read o s d v) :
    v = s.moveTo (cursorLeft (s.passage s.current.cursor)) := by
  cases h with
  | step fails => exact State.left?_step (by rw [fails]; rfl)
  | unreadable wants absent => exact State.left?_step (by rw [wants]; rfl)

/-! ## The root source -/

/-- The root source, as far as it has been read. -/
def State.root (s : State) : OpenSource := s.stack.getLast (List.cons_ne_nil _ _)

theorem State.root_moveTo_of_nil (h : s.suspended = []) (c : Cursor) :
    (s.moveTo c).root = ⟨s.current.path, c⟩ := by
  simp [root, stack, moveTo, h]

theorem State.root_moveTo_of_cons {x : OpenSource} {below : List OpenSource}
    (h : s.suspended = x :: below) (c : Cursor) : (s.moveTo c).root = s.root := by
  simp [root, stack, moveTo, h]

theorem State.root_enter (s : State) (path : SourcePath) (text : String) :
    (s.enter path text).root = s.root := by
  simp [root, stack, enter]

theorem State.exists_stack_eq (s : State) : ∃ front, s.stack = front ++ [s.root] :=
  ⟨_, (List.dropLast_concat_getLast _).symm⟩

theorem State.root_eq {front : List OpenSource} {source : OpenSource}
    (h : s.stack = front ++ [source]) : s.root = source := by
  simp [root, h]

/-- A turn reads on in the root source or leaves it alone. -/
theorem Goes.reaches_root (h : Goes read o s t) : s.root.ReadsOn t.root := by
  obtain ⟨front, hstack⟩ := t.exists_stack_eq
  rcases h.stack hstack with ⟨front', source, hsource, hon⟩ | ⟨henters, -, hnil⟩
  · rw [State.root_eq hsource]
    exact hon
  · cases henters
    cases hnil

theorem Leads.reaches_root (h : Leads read o s t) : s.root.ReadsOn t.root := by
  induction h with
  | refl => exact ⟨rfl, .refl _⟩
  | tail _ hgo ih =>
    exact ⟨ih.path.trans hgo.reaches_root.path, ih.cursor.trans hgo.reaches_root.cursor⟩

/-- Where nothing is suspended, a turn reads the root source. -/
theorem Goes.cursor_root (h : Goes read o s t) (hs : s.suspended = []) :
    t.root.cursor = cursorLeft (s.passage s.current.cursor) := by
  rw [Goes, s.turn_eq] at h
  cases hx : s.passage s.current.cursor with
  | error e c =>
    rw [hx] at h
    cases h
  | ok x c =>
    rw [hx] at h
    have hmoved : (s.moveTo c).root.cursor = c := by
      rw [State.root_moveTo_of_nil hs]
    cases x with
    | blank =>
      obtain rfl := Turn.go.inj h
      exact hmoved
    | drafts draft =>
      obtain rfl := Turn.go.inj h
      exact hmoved
    | ending =>
      simp only [State.turnBy, State.turnAtEnd, hs] at h
      cases h
    | names mark path =>
      simp only [State.turnBy, State.turnAtInclude] at h
      cases hrefused : s.refusal? o path with
      | some cause =>
        rw [hrefused] at h
        cases h
      | none =>
        rw [hrefused] at h
        cases hread : read path with
        | error fault => simp only [hread] at h; cases h
        | ok text =>
          simp only [hread] at h
          obtain rfl := Turn.go.inj h
          rw [State.root_enter]
          exact hmoved

/-! ## Texts that agree -/

/-- The reading of a text fails with a diagnostic when so many characters of it have been read. -/
def FailsBehind (read : Provider) (o : Options) (path : SourcePath) (text : String)
    (d : Diagnostic) (p : Nat) : Prop :=
  ∃ s v, Leads read o (.start path text) s ∧ FailsIn read o s d v ∧
    p + v.root.cursor.rest.length = text.toList.length

/-- The texts that may differ behind a source: those of the root source. -/
def tailOf (tail : List Char) : List OpenSource → List Char
  | [] => tail
  | _ :: _ => []

/-- Sources of one path, read to the same place, with the same texts up to where `tail` and `tail'`
begin in the root source. -/
def Agreeing (tail tail' : List Char) : SourceRelation := fun below x x' =>
  x.path = x'.path ∧ Abreast .sharp (tailOf tail below) (tailOf tail' below) x.cursor x'.cursor

theorem lookAlike_tailOf {tail tail' : List Char} (h : LookAlike tail tail') :
    (below : List OpenSource) → LookAlike (tailOf tail below) (tailOf tail' below)
  | [] => h
  | _ :: _ => .refl []

/-- A turn that stays in front of where texts differ does the same in both. -/
theorem turn_of_agreeing {tail tail' : List Char} {s' : State} (hlook : LookAlike tail tail')
    (h : Counterparts .sharp (Agreeing tail tail') s s')
    (hstay : s.suspended = [] → tail <:+ (cursorLeft (s.passage s.current.cursor)).rest) :
    TurnsAlike .sharp (Agreeing tail tail') (s.turn read o) (s'.turn read o) := by
  have hwithin : tailOf tail s.suspended <:+ (cursorLeft (s.passage s.current.cursor)).rest := by
    cases hs : s.suspended with
    | nil => exact hstay hs
    | cons x below => exact List.nil_suffix
  obtain ⟨hpath, hcursors⟩ := h.current
  have hparts := Pairing.readsParts_abreast (b := .sharp) (lookAlike_tailOf hlook s.suspended)
  apply turn_alike (fun _ _ _ hR => hR.1) h
    ((reads_passage hparts hpath h.draft).result _ _ hcursors hwithin)
  · intro x c c' _ hmoved
    exact ⟨hpath, hmoved⟩
  · intro mark wanted c _
    cases hread : read wanted with
    | error fault => exact .inl ⟨fault, hread, hread⟩
    | ok text => exact .inr ⟨text, text, hread, hread, rfl, abreast_nil_iff.2 ⟨rfl, rfl⟩⟩

/-- A text that agrees with another one a little further than some place is the same up to there,
and begins in the same way behind it. -/
theorem exists_append_of_take {front tail rest : List Char}
    (h : rest.take (front.length + 2) = (front ++ tail).take (front.length + 2)) :
    ∃ tail', rest = front ++ tail' ∧ tail.take 2 = tail'.take 2 := by
  have hfront := congrArg (List.take front.length) h
  have htail := congrArg (List.drop front.length) h
  rw [List.take_take, List.take_take, Nat.min_eq_left (Nat.le_add_right ..), List.take_left'  rfl]
    at hfront
  rw [List.drop_take, List.drop_take, Nat.add_sub_cancel_left, List.drop_left' rfl] at htail
  refine ⟨rest.drop front.length, ?_, htail.symm⟩
  rw [← List.take_append_drop front.length rest, hfront, List.drop_left' rfl]

/-- What a turn that fails has read in the root source. -/
theorem FailsIn.root (h : FailsIn read o s d v) :
    s.root.cursor.Reaches v.root.cursor ∧
      (s.suspended = [] → v.root.cursor = cursorLeft (s.passage s.current.cursor)) := by
  rw [h.left_eq]
  cases hs : s.suspended with
  | nil =>
    rw [State.root_moveTo_of_nil hs]
    have hroot : s.root = s.current := by simp [State.root, State.stack, hs]
    rw [hroot]
    exact ⟨s.forward_passage _, fun _ => rfl⟩
  | cons x below =>
    rw [State.root_moveTo_of_cons hs]
    exact ⟨.refl _, fun hnil => by cases hnil⟩

/-- The documents of texts that agree fail alike. -/
theorem parseText_of_failsBehind (h : FailsBehind read o path text d p)
    (hagree : text'.toList.take (p + 2) = text.toList.take (p + 2)) :
    parseText read o path text' = .error d := by
  obtain ⟨s, v, hlead, hfails, hlength⟩ := h
  obtain ⟨hreaches, hroot⟩ := hfails.root
  have hstop : s.turn read o = .stop (.error d) := turn_eq_stop_error_iff_failsIn.2 ⟨v, hfails⟩
  -- both texts, split where the root source has been read to
  obtain ⟨front, hfront, -⟩ := hlead.reaches_root.cursor.trans hreaches
  have htext : text.toList = front ++ v.root.cursor.rest := hfront
  have hp : p = front.length := by
    rw [htext, List.length_append] at hlength
    omega
  rw [hp, htext] at hagree
  obtain ⟨tail', htext', htails⟩ := exists_append_of_take hagree
  have hlook := LookAlike.of_take htails
  have hstart : Counterparts .sharp (Agreeing v.root.cursor.rest tail')
      (.start path text) (.start path text') :=
    ⟨⟨rfl, ⟨front, htext, htext'⟩, rfl⟩, .nil, rfl⟩
  -- on the way, and in the turn that fails, the root source is not read any further
  obtain ⟨s', hlead', hcounterparts⟩ := hlead.counterpart .refl hstart
    fun u w u' hu hgo hw halike => turn_of_agreeing hlook halike fun hnil => by
      have hwithin := (hw.reaches_root.cursor.trans hreaches).suffix
      rwa [hgo.cursor_root hnil] at hwithin
  have halike : TurnsAlike .sharp (Agreeing v.root.cursor.rest tail') (s.turn read o)
      (s'.turn read o) := turn_of_agreeing hlook hcounterparts fun hnil =>
    (hroot hnil).symm ▸ List.suffix_refl _
  rw [hstop] at halike
  obtain ⟨outcome', hstop', houtcome⟩ := halike.exists_stop
  cases outcome' with
  | ok draft => cases houtcome
  | error d' =>
    have hd : Blur.sharp.diagnostic d = Blur.sharp.diagnostic d' := Except.error.inj houtcome
    rw [Blur.sharp_diagnostic, Blur.sharp_diagnostic] at hd
    subst hd
    exact parseText_eq_error.2 (.inl ⟨s', hlead', turn_eq_stop_error_iff.1 hstop'⟩)

/-- **A document fails fast.** The reading of a text fails only when some number of its characters
has been read, and the document then fails in the same way for every text that agrees with it on two
characters more. -/
theorem parseText_of_agrees (read : Provider) (o : Options) (path : SourcePath) (text : String) :
    (∀ d, run read o (.start path text) (Nat.zero_le _) = .error d ↔
      ∃ p, FailsBehind read o path text d p) ∧
    ∀ d p text', FailsBehind read o path text d p → p + 2 ≤ text.toList.length →
      text'.toList.take (p + 2) = text.toList.take (p + 2) →
      parseText read o path text' = .error d := by
  constructor
  · intro d
    have hstart : (State.start path text).suspended.length ≤ o.maxIncludeDepth := Nat.zero_le _
    show run read o (.start path text) hstart = .error d ↔ _
    rw [run_eq_iff_leads]
    constructor
    · intro ⟨s, hlead, hstop⟩
      obtain ⟨v, hfails⟩ := turn_eq_stop_error_iff_failsIn.1 hstop
      have hle : v.root.cursor.rest.length ≤ text.toList.length :=
        (hlead.reaches_root.cursor.trans hfails.root.1).length_le
      exact ⟨_, s, v, hlead, hfails, Nat.sub_add_cancel hle⟩
    · intro ⟨p, s, v, hlead, hfails, _⟩
      exact ⟨s, hlead, turn_eq_stop_error_iff_failsIn.2 ⟨v, hfails⟩⟩
  · intro d p text' hfails _ hagree
    exact parseText_of_failsBehind hfails hagree

/-- A source whose only sequence has no proper label. -/
def unlabelled : Shelf := ⟨[(⟨"riff"⟩, "$1st: c")]⟩

/-- The reading of a song has just entered this source. -/
def riffEntered : State :=
  ⟨⟨⟨"riff"⟩, .ofText "$1st: c"⟩, [⟨⟨"song"⟩, " $b: c".toList, ⟨1, 7⟩⟩], .empty⟩

theorem parseText_unlabelled :
    FailsBehind unlabelled.read .standard ⟨"song"⟩ "<riff> $b: c"
        ⟨.invalidLabel "1st:", some ⟨"riff"⟩, ⟨1, 2⟩⟩ 6 ∧
      parseText unlabelled.read .standard ⟨"song"⟩ "<riff> $never read" =
        .error ⟨.invalidLabel "1st:", some ⟨"riff"⟩, ⟨1, 2⟩⟩ := by
  have hturn : (State.start ⟨"song"⟩ "<riff> $b: c").turn unlabelled.read .standard =
      .go riffEntered := by
    decide +kernel
  have hfails : riffEntered.step .standard =
      .failed ⟨.invalidLabel "1st:", some ⟨"riff"⟩, ⟨1, 2⟩⟩
        (riffEntered.moveTo ⟨" c".toList, ⟨1, 6⟩⟩) := by
    decide +kernel
  have hbehind : FailsBehind unlabelled.read .standard ⟨"song"⟩ "<riff> $b: c"
      ⟨.invalidLabel "1st:", some ⟨"riff"⟩, ⟨1, 2⟩⟩ 6 :=
    ⟨riffEntered, _, .single hturn, .step hfails, by decide +kernel⟩
  obtain ⟨-, hagrees⟩ := parseText_of_agrees unlabelled.read .standard ⟨"song"⟩ "<riff> $b: c"
  exact ⟨hbehind, hagrees _ _ _ hbehind (by decide +kernel) (by decide +kernel)⟩

end Songsheet.Document
