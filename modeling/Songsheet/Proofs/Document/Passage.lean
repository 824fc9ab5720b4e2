import Songsheet.Proofs.Reading.Abreast

/-!
# What a turn reads

A turn first reads a passage of the current source: blanks, the end of the text, an include or a
directive. What it does with the passage is then a matter of the state and the provider alone. Two
turns whose passages are alike therefore do the same.

* `State.passage` — what a turn reads; `State.turnBy` — what it does with it; `State.turn_eq` — a
  turn is one behind the other, and so is a step (`State.step_eq`).
* `PassagesAlike` — two passages that say the same.
* `reads_passage` — passages are read in pairs where their parts are.
* `State.cursorLeft_passage` — where a turn at a directive stops.
* `matches_passage_of_mark`, `matches_passage_of_sequence`, `matches_passage_of_attribute` — a turn
  at a directive, where what follows its mark is known to match.
-/

namespace Songsheet.Document

open Reading

variable {read : Provider} {o : Options} {s s' : State}

/-! ## Passages -/

/-- What a turn reads of the current source. -/
inductive Passage where
  | blank
  | ending
  /-- An include at `mark`, which names a source. -/
  | names (mark : Position) (path : SourcePath)
  /-- A directive, which makes a draft of the present one. -/
  | drafts (draft : Draft)

/-- Reads what a turn reads. -/
def State.passage (s : State) : Reading Passage := do
  let token ← nextToken
  match token.kind with
  | .blank => return .blank
  | .endOfText => return .ending
  | .includeMark => return .names token.position (← s.readPath token.position)
  | _ => return .drafts (← s.draft.readDirective s.current.path token)

/-- What a turn does at the end of a text. -/
def State.turnAtEnd (s : State) : Turn :=
  match s.suspended with
  | [] => .stop (.ok s.draft)
  | waiting :: others => .go ⟨waiting, others, s.draft⟩

/-- What a turn does with an include that was read up to a cursor. -/
def State.turnAtInclude (read : Provider) (o : Options) (s : State) (c : Cursor) (mark : Position)
    (path : SourcePath) : Turn :=
  match s.refusal? o path with
  | some cause => .stop (.error ((cause.reportedAt mark).inSource s.current.path))
  | none =>
    match read path with
    | .error fault => .stop (.error (s.unreadable path mark fault))
    | .ok text => .go ((s.moveTo c).enter path text)

/-- What a turn does with a passage that was read up to a cursor. -/
def State.turnBy (read : Provider) (o : Options) (s : State) (c : Cursor) : Passage → Turn
  | .blank => .go (s.moveTo c)
  | .ending => s.turnAtEnd
  | .names mark path => s.turnAtInclude read o c mark path
  | .drafts draft => .go { s.moveTo c with draft }

theorem State.passage_of_include {p : Position} {c : Cursor}
    (token : nextToken s.current.cursor = .ok ⟨.includeMark, p⟩ c) :
    s.passage s.current.cursor = (do return .names p (← s.readPath p) : Reading Passage) c := by
  rw [passage, bind_apply, token]

theorem State.passage_of_directive {mark : Token} {c : Cursor}
    (token : nextToken s.current.cursor = .ok mark c) (directs : mark.kind.Directs) :
    s.passage s.current.cursor =
      (do return .drafts (← s.draft.readDirective s.current.path mark) : Reading Passage) c := by
  obtain ⟨hblank, hend, hinclude⟩ := directs
  rw [passage, bind_apply, token]
  obtain ⟨kind, p⟩ := mark
  cases kind with
  | blank | endOfText | includeMark => contradiction
  | _ => rfl

/-- What a step does with a passage that was read up to a cursor. -/
def State.stepBy (o : Options) (s : State) (c : Cursor) : Passage → Step
  | .blank => .next (s.moveTo c)
  | .ending =>
    match s.suspended with
    | [] => .finished s.draft
    | waiting :: others => .next ⟨waiting, others, s.draft⟩
  | .names mark path =>
    match s.refusal? o path with
    | some cause => (s.moveTo c).fail (cause.reportedAt mark)
    | none => .wanted path mark (s.moveTo c)
  | .drafts draft => .next { s.moveTo c with draft }

/-- A step reads a passage, and fails where that does. -/
theorem State.step_eq (s : State) :
    s.step o = match s.passage s.current.cursor with
      | .ok x c => s.stepBy o c x
      | .error e c => (s.moveTo c).fail e := by
  cases token : nextToken s.current.cursor with
  | error e c => rw [step, token, passage, bind_apply, token]
  | ok mark c =>
    rw [step_of_token token]
    by_cases hinclude : mark.kind = .includeMark
    · obtain ⟨kind, p⟩ := mark
      obtain rfl : kind = .includeMark := hinclude
      have hstep : (s.moveTo c).stepToken o ⟨.includeMark, p⟩ = (s.moveTo c).stepInclude o p := rfl
      have hreads : (s.moveTo c).readPath p (s.moveTo c).current.cursor = s.readPath p c := rfl
      rw [hstep, stepInclude, hreads, passage_of_include token, bind_apply]
      cases s.readPath p c with
      | error e d => rfl
      | ok path d =>
        simp only [refusal?_moveTo]
        rfl
    by_cases hgap : mark.kind.IsGap
    · rw [passage, bind_apply, token]
      obtain ⟨kind, p⟩ := mark
      rcases hgap with hblank | hend
      · obtain rfl : kind = .blank := hblank
        rfl
      · obtain rfl : kind = .endOfText := hend
        rfl
    · have directs : mark.kind.Directs :=
        ⟨fun h => hgap (.inl h), fun h => hgap (.inr h), hinclude⟩
      rw [stepToken_of_directs directs, passage_of_directive token directs, bind_apply]
      show (s.moveTo c).stepDirective (s.draft.readDirective s.current.path mark) = _
      have hreads : s.draft.readDirective s.current.path mark (s.moveTo c).current.cursor =
          s.draft.readDirective s.current.path mark c := rfl
      rw [stepDirective, hreads]
      cases s.draft.readDirective s.current.path mark c <;> rfl

/-- A turn reads a passage, and fails where that does. -/
theorem State.turn_eq (s : State) :
    s.turn read o = match s.passage s.current.cursor with
      | .ok x c => s.turnBy read o c x
      | .error e _ => .stop (.error (e.inSource s.current.path)) := by
  rw [turn, s.step_eq]
  cases s.passage s.current.cursor with
  | error e c => rfl
  | ok x c =>
    cases x with
    | blank => rfl
    | drafts draft => rfl
    | ending =>
      simp only [stepBy, turnBy, turnAtEnd]
      cases s.suspended <;> rfl
    | names mark path =>
      simp only [stepBy, turnBy, turnAtInclude]
      cases s.refusal? o path with
      | some cause => rfl
      | none =>
        dsimp only
        cases read path <;> rfl

theorem forward_readDirective (draft : Draft) (source : SourcePath) (mark : Token) :
    (draft.readDirective source mark).Forward := by
  unfold Draft.readDirective
  split
  · exact draft.forward_readTrack source
  · exact draft.forward_readSequence source
  · exact draft.forward_readAttribute source mark.position
  · exact forward_fail _ _

theorem State.forward_passage (s : State) : s.passage.Forward := by
  apply forward_bind forward_nextToken
  intro token
  split
  · exact forward_pure _
  · exact forward_pure _
  · exact forward_bind (s.forward_readPath _) fun _ => forward_pure _
  · exact forward_bind (forward_readDirective _ _ _) fun _ => forward_pure _

/-! ## Passages in pairs -/

/-- Two passages that say the same, up to positions. -/
def PassagesAlike (b : Blur) : Passage → Passage → Prop
  | .blank, .blank => True
  | .ending, .ending => True
  | .names mark path, .names mark' path' => b.see mark = b.see mark' ∧ path = path'
  | .drafts draft, .drafts draft' => draft.Alike b draft'
  | _, _ => False

theorem reads_readPath {P : Pairing} (h : P.ReadsParts) (hpath : s.current.path = s'.current.path)
    {mark mark' : Position} (hmark : P.blur.see mark = P.blur.see mark') :
    P.Reads Eq (s.readPath mark) (s'.readPath mark') := by
  apply h.targets.bind_eq
  intro target
  cases target with
  | none => exact Pairing.reads_fail hmark
  | some target => exact Pairing.reads_pure (by rw [hpath])

/-- Where drafts look the same, passages of the same source are alike if their parts are. -/
theorem reads_passage {P : Pairing} (h : P.ReadsParts) (hpath : s.current.path = s'.current.path)
    (hdraft : s.draft.Alike P.blur s'.draft) :
    P.Reads (PassagesAlike P.blur) s.passage s'.passage := by
  apply h.tokens.bind fun _ => ⟨rfl, rfl⟩
  intro token token' htoken
  rw [← htoken.1]
  split
  · exact Pairing.reads_pure trivial
  · exact Pairing.reads_pure trivial
  · apply (reads_readPath h hpath htoken.2).bind_eq
    intro path
    exact Pairing.reads_pure ⟨htoken.2, rfl⟩
  · rw [← hpath]
    exact (Draft.reads_readDirective h hdraft s.current.path htoken).map (fun _ _ hread => hread)
      fun _ => rfl

/-! ## Directives in front of a place -/

theorem cursorLeft_readLabel {draft : Draft} {source : SourcePath} {kind : LabelKind}
    {label : String} {c d : Cursor} (h : definedLabel c = .ok label d) :
    cursorLeft (draft.readLabel source kind c) = d := by
  have hread : draft.readLabel source kind c =
      (Reading.ofExcept (draft.labels.define label kind ⟨source, c.position⟩) >>= fun labels =>
        pure (labels, label) : Reading (Registry × String)) d := by
    rw [Draft.readLabel, bind_apply]
    show (definedLabel >>= _) c = _
    rw [bind_apply, h]
  rw [hread, bind_apply]
  cases draft.labels.define label kind ⟨source, c.position⟩ <;> rfl

section Turn

variable {source : SourcePath} {c d e : Cursor} {p : Position}

theorem State.cursorLeft_passage {mark : Token} (token : nextToken s.current.cursor = .ok mark d)
    (directs : mark.kind.Directs) :
    cursorLeft (s.passage s.current.cursor) =
      cursorLeft (s.draft.readDirective s.current.path mark d) := by
  rw [passage_of_directive token directs, cursorLeft_bind_pure]

/-- Where the label of a sequence is accepted, a turn stops where the notes do. -/
theorem State.cursorLeft_passage_of_sequence {labels : Registry × String}
    (token : nextToken s.current.cursor = .ok ⟨.sequenceMark, p⟩ c)
    (accepted : s.draft.readLabel s.current.path .sequence c = .ok labels d) :
    cursorLeft (s.passage s.current.cursor) = cursorLeft (notes d) := by
  rw [cursorLeft_passage token (by simp [TokenKind.Directs])]
  show cursorLeft (s.draft.readSequence s.current.path c) = _
  rw [Draft.readSequence, bind_apply, accepted]
  exact cursorLeft_bind_pure _ _ d

/-- Where there is a track to describe, a turn stops where the attribute does. -/
theorem State.cursorLeft_passage_of_attribute
    (token : nextToken s.current.cursor = .ok ⟨.attributeMark, p⟩ d)
    (htrack : s.draft.track ≠ none) :
    cursorLeft (s.passage s.current.cursor) = cursorLeft (trackAttribute s.current.path d) := by
  obtain ⟨index, hindex⟩ := Option.ne_none_iff_exists'.1 htrack
  rw [cursorLeft_passage token (by simp [TokenKind.Directs])]
  show cursorLeft (s.draft.readAttribute s.current.path p d) = _
  rw [Draft.readAttribute, hindex]
  exact cursorLeft_bind_pure _ _ d

theorem passage_of_directive_error {mark : Token} {x : Diagnostic}
    (token : nextToken s.current.cursor = .ok mark d) (directs : mark.kind.Directs)
    (fails : s.draft.readDirective s.current.path mark d = .error x e) :
    s.passage s.current.cursor = .error x e := by
  rw [State.passage_of_directive token directs, bind_apply, fails]

theorem readDirective_of_label_error {draft : Draft} {mark : Token} {x : Diagnostic}
    (defines : mark.kind = .trackMark ∨ mark.kind = .sequenceMark)
    (fails : definedLabel c = .error x e) : draft.readDirective source mark c = .error x e := by
  have hlabel : ∀ kind, draft.readLabel source kind c = .error x e := by
    intro kind
    rw [Draft.readLabel, bind_apply]
    show (definedLabel >>= _) c = _
    rw [bind_apply, fails]
  obtain ⟨kind, p⟩ := mark
  rcases defines with rfl | rfl
  · show draft.readTrack source c = _
    rw [Draft.readTrack, bind_apply, hlabel]
  · show draft.readSequence source c = _
    rw [Draft.readSequence, bind_apply, hlabel]

theorem readDirective_of_attribute_error {draft : Draft} {mark : Token} {x : Diagnostic}
    (describes : mark.kind = .attributeMark) (htrack : draft.track ≠ none)
    (fails : trackAttribute source c = .error x e) :
    draft.readDirective source mark c = .error x e := by
  obtain ⟨kind, p⟩ := mark
  obtain rfl : kind = .attributeMark := describes
  obtain ⟨index, hindex⟩ := Option.ne_none_iff_exists'.1 htrack
  show draft.readAttribute source p c = _
  rw [Draft.readAttribute, hindex]
  show (trackAttribute source >>= _) c = _
  rw [bind_apply, fails]

end Turn

section Abreast

variable {b : Blur} {tail tail' : List Char} {K : Cursor → Cursor → Prop} {c d : Cursor}
  {p : Position} (hstop : StopAlike tail tail') (hpath : s.current.path = s'.current.path)
  (hpair : Abreast b tail tail' s.current.cursor s'.current.cursor)
include hstop hpath hpair

/-- A turn at the mark of a directive, where the directives behind the marks match. -/
theorem matches_passage_of_mark {mark : Token} (token : nextToken s.current.cursor = .ok mark d)
    (directs : mark.kind.Directs) (hd : tail <:+ d.rest)
    (hreads : ∀ mark' d', TokensAlike b mark mark' → Abreast b tail tail' d d' →
      Matches b (Draft.Alike b) K (s.draft.readDirective s.current.path mark d)
        (s'.draft.readDirective s.current.path mark' d')) :
    Matches b (PassagesAlike b) K (s.passage s.current.cursor)
      (s'.passage s'.current.cursor) := by
  obtain ⟨mark', d', token', hmark, habreast⟩ :=
    (Pairing.abreast_nextToken (b := b) hstop).exists_ok hpair token hd
  rw [State.passage_of_directive token directs,
    State.passage_of_directive token' (hmark.1 ▸ directs), ← hpath]
  apply (hreads mark' d' hmark habreast).bind
  intro draft f draft' f' _ halike hf
  exact ⟨halike, hf⟩

variable (hdraft : s.draft.Alike b s'.draft)
include hdraft

/-- A turn at a sequence, where the notes behind its label match if the label is accepted. -/
theorem matches_passage_of_sequence {label : String}
    (token : nextToken s.current.cursor = .ok ⟨.sequenceMark, p⟩ c)
    (labelled : definedLabel c = .ok label d) (hd : tail <:+ d.rest)
    (hnotes : ∀ labels d', s.draft.readLabel s.current.path .sequence c = .ok labels d →
      Abreast b tail tail' d d' → Matches b Eq K (notes d) (notes d')) :
    Matches b (PassagesAlike b) K (s.passage s.current.cursor)
      (s'.passage s'.current.cursor) := by
  apply matches_passage_of_mark hstop hpath hpair token (by simp [TokenKind.Directs])
    (hd.trans (forward_definedLabel.ok labelled).suffix)
  intro mark' c' ⟨hkind, _⟩ habreast
  obtain ⟨kind', p'⟩ := mark'
  obtain rfl : .sequenceMark = kind' := hkind
  show Matches _ _ _ (s.draft.readSequence s.current.path c)
    (s'.draft.readSequence s.current.path c')
  have hwords := Pairing.abreast_run (b := b) hstop (fun x hx => by simpa using hx)
    caseBlind_isBlank.not
  have hlabel := (Draft.reads_readLabel hwords hdraft s.current.path .sequence).result c c'
    habreast (by rw [cursorLeft_readLabel labelled]; exact hd)
  apply hlabel.bind
  intro labels d₁ labels' d' hread hlabels habreast
  obtain ⟨labelled₁, -⟩ := Draft.readLabel_eq_ok.1 hread
  obtain ⟨hfound, rfl⟩ := EStateM.Result.ok.inj (labelled.symm.trans labelled₁)
  apply (hnotes labels d' hread habreast).bind
  intro ws f ws' f' _ hws hf
  subst hws
  obtain ⟨hregistry, hsame⟩ := hlabels
  show Draft.Alike b _ _ ∧ _
  rw [← hsame]
  exact ⟨hdraft.addSequence hregistry _ ws, hf⟩

/-- A turn at an attribute, where the attributes match if they describe a track. -/
theorem matches_passage_of_attribute
    (token : nextToken s.current.cursor = .ok ⟨.attributeMark, p⟩ d) (hd : tail <:+ d.rest)
    (hvalue : s.draft.track ≠ none → ∀ d', Abreast b tail tail' d d' →
      Matches b (AttributesAlike b) K (trackAttribute s.current.path d)
        (trackAttribute s.current.path d')) :
    Matches b (PassagesAlike b) K (s.passage s.current.cursor)
      (s'.passage s'.current.cursor) := by
  apply matches_passage_of_mark hstop hpath hpair token (by simp [TokenKind.Directs]) hd
  intro mark' d' ⟨hkind, hplace⟩ habreast
  obtain ⟨kind', p'⟩ := mark'
  obtain rfl : .attributeMark = kind' := hkind
  show Matches _ _ _ (s.draft.readAttribute s.current.path p d)
    (s'.draft.readAttribute s.current.path p' d')
  unfold Draft.readAttribute
  rw [← hdraft.track]
  cases htrack : s.draft.track with
  | none => exact matches_fail hplace
  | some index =>
    apply (hvalue (by simp [htrack]) d' habreast).bind
    intro value f value' f' _ halike hf
    exact ⟨hdraft.setAttribute halike index, hf⟩

end Abreast

end Songsheet.Document
