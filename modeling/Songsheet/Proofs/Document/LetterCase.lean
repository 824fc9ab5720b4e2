import Songsheet.Proofs.Document.Layout
import Songsheet.Proofs.Note.LetterCase

/-!
# Letter case

In the key of a note and in the name of an attribute the case of letters does not matter. The letters
of such words may stand in another case, any number of them in any of the sources: the library is the
same, or the error is of the same kind at the same place.

Each letter belongs to one turn. A turn in front of it comes to the same because it stops in front of
the mark with which that turn begins. The turn itself takes the same letters in another case, and an
attribute whose name is not known is refused by a message that shows the name, so the errors then
differ in nothing else.

* `FoldedWord`, `InFoldedWord` — the words that a reading meets and whose case does not matter, and the
  places in them; `BehindUnread` — the places behind the mark of an attribute that is not read.
* `CaseFree.locate` — as seen from a turn, such a place is in a word of its own, or the turn stops in
  front of the mark behind which it stands.
* `passage_recased` — what one turn makes of letters in another case.
* `recased_parse` — and what a document does.
-/

namespace Songsheet

theorem AttributeName.ofWord?_congr {word word' : String}
    (h : SameLetters word.toList word'.toList) : ofWord? word = ofWord? word' := by
  unfold ofWord?
  rw [show word.toList.map Char.toLower = word'.toList.map Char.toLower from h]

namespace Document

open Reading

variable {read read' : Provider} {o : Options} {s s' : State} {root source : SourcePath}
  {c c' d d' e f g next : Cursor} {place : List Char} {name label : String} {p : Position}

/-! ## Words whose case does not matter -/

/-- In a turn that begins at `c`, the key of a note or the name of an attribute stands from one cursor
up to the other. -/
inductive FoldedWord (c : Cursor) : Cursor → Cursor → Prop
  | key {p : Position} {d f g e : Cursor} {label : String}
      (token : nextToken c = .ok ⟨.sequenceMark, p⟩ d) (labelled : definedLabel d = .ok label f)
      (stands : KeyStands f g e) : FoldedWord c g e
  | attributeName {p : Position} {d e : Cursor} {name : String}
      (token : nextToken c = .ok ⟨.attributeMark, p⟩ d) (named : word d = .ok name e) :
      FoldedWord c d e

/-- The reading of a root source meets a turn in a source that reads a key or the name of an
attribute, and the place is in this word. A place is told by the text from there on. -/
def InFoldedWord (read : Provider) (o : Options) (root source : SourcePath) (place : List Char) :
    Prop :=
  ∃ text s g e, read root.normalize = .ok text ∧ Leads read o (.start root.normalize text) s ∧
    s.current.path = source ∧ FoldedWord s.current.cursor g e ∧ place <:+ g.rest ∧
    e.rest.length < place.length

/-- In front of the place stands a `%` that the reading of a root source does not get to: each of its
turns in the source stops in front of it. -/
def BehindUnread (read : Provider) (o : Options) (root source : SourcePath) (place : List Char) :
    Prop :=
  ∃ front, ∀ text s, read root.normalize = .ok text →
    Leads read o (.start root.normalize text) s → s.current.path = source →
      '%' :: front ++ place <:+ (cursorLeft (s.passage s.current.cursor)).rest

/-- The place is in a key that the reading of a root source meets, or in the name of an attribute: one
that the reading meets too, or one behind what it gets to. -/
def CaseFree (read : Provider) (o : Options) (root source : SourcePath) (place : List Char) : Prop :=
  InFoldedWord read o root source place ∨ BehindUnread read o root source place

/-- Behind a mark, a text looks alike in front of any other text. -/
theorem exists_front_of_mark {x : Char} {mark : TokenKind} (hx : TokenKind.ofMark? x = some mark)
    (hslash : x ≠ '/') (token : nextToken c = .ok ⟨mark, p⟩ d) (hplace : place <:+ d.rest) :
    ∃ front, c.rest = front ++ place ∧ ∀ after, LookAlike (front ++ place) (front ++ after) := by
  obtain ⟨comments, hgap⟩ := comments_of_mark hx token
  obtain ⟨more, hmore⟩ := hplace
  refine ⟨comments ++ x :: more, ?_, fun after => ?_⟩
  · rw [append_of_gapAt hgap, ← hmore, List.append_assoc, List.cons_append]
  · apply LookAlike.of_front
    · simp
    · intro hfront
      cases comments with
      | nil => exact hslash (List.cons_eq_cons.1 hfront).1
      | cons y comments => simp at hfront

namespace FoldedWord

theorem exists_front (h : FoldedWord c g e) (hplace : place <:+ g.rest) :
    ∃ front, c.rest = front ++ place ∧ ∀ after, LookAlike (front ++ place) (front ++ after) := by
  cases h with
  | key token labelled stands =>
    apply exists_front_of_mark (x := '$') rfl (by decide) token
    exact hplace.trans ((forward_definedLabel.ok labelled).trans stands.reaches).suffix
  | attributeName token named => exact exists_front_of_mark (x := '%') rfl (by decide) token hplace

/-- A turn that reads such a word reads on beyond it. -/
theorem reaches_of_advances (h : FoldedWord c g e) (hnext : Advances source c next) :
    e.Reaches next := by
  cases h with
  | key token labelled stands =>
    obtain ⟨written, hnotes⟩ := notes_of_advances hnext token labelled
    have hreaches := stands.reaches_of_notes
    rw [hnotes] at hreaches
    exact hreaches
  | attributeName token named =>
    obtain ⟨value, h⟩ := attribute_of_advances hnext token
    obtain ⟨text, e₁, e₂, kind, hword, hskip, -, hvalue⟩ := trackAttribute_eq_ok.1 h
    obtain ⟨-, rfl⟩ := EStateM.Result.ok.inj (named.symm.trans hword)
    exact (forward_skipGap.ok hskip).trans ((forward_attributeValue source kind).ok hvalue)

/-- A turn at a sequence has no such words but its keys. -/
theorem keyStands (h : FoldedWord c g e) (token : nextToken c = .ok ⟨.sequenceMark, p⟩ d)
    (labelled : definedLabel d = .ok label f) : KeyStands f g e := by
  cases h with
  | key token' labelled' stands =>
    obtain ⟨-, rfl⟩ := EStateM.Result.ok.inj (token.symm.trans token')
    obtain ⟨-, rfl⟩ := EStateM.Result.ok.inj (labelled.symm.trans labelled')
    exact stands
  | attributeName token' named => cases token.symm.trans token'

/-- A turn at an attribute has no such word but its name. -/
theorem eq_name (h : FoldedWord c g e) (token : nextToken c = .ok ⟨.attributeMark, p⟩ d)
    (named : word d = .ok name f) : g = d ∧ e = f := by
  cases h with
  | key token' labelled stands => cases token.symm.trans token'
  | attributeName token' named' =>
    obtain ⟨-, rfl⟩ := EStateM.Result.ok.inj (token.symm.trans token')
    obtain ⟨-, rfl⟩ := EStateM.Result.ok.inj (named.symm.trans named')
    exact ⟨rfl, rfl⟩

end FoldedWord

/-- As seen from a turn that begins at `c`, the place is in a word of its own. -/
def InOwnWord (c : Cursor) (place : List Char) : Prop :=
  ∃ g e, FoldedWord c g e ∧ place <:+ g.rest ∧ e.rest.length < place.length

/-- A turn stops in front of the place, and so far in front that the text to come looks alike whatever
stands at the place. -/
def State.StopsBefore (s : State) (place : List Char) : Prop :=
  ∃ front, front ++ place <:+ (cursorLeft (s.passage s.current.cursor)).rest ∧
    ∀ after, LookAlike (front ++ place) (front ++ after)

/-- As seen from a turn, a place whose case does not matter is in a word of this turn, or the turn
stops in front of the mark behind which it stands. -/
theorem CaseFree.locate {text : String} (h : CaseFree read o root s.current.path place)
    (hread : read root.normalize = .ok text) (hlead : Leads read o (.start root.normalize text) s)
    (hplace : place <:+ s.current.cursor.rest) :
    InOwnWord s.current.cursor place ∨ s.StopsBefore place := by
  rcases h with ⟨text', t, g, e, hread', hlead', ht, hword, hin, hless⟩ | ⟨front, hunread⟩
  · rcases (hlead.onCourse hread).compare (hlead'.onCourse hread') ht.symm with
      hsame | ⟨next, hnext, hahead⟩ | ⟨next, hnext, hbehind⟩
    · exact .inl ⟨g, e, hsame ▸ hword, hin, hless⟩
    · obtain ⟨front, hfront, hlook⟩ := hword.exists_front hin
      exact .inr ⟨front, (hfront ▸ hahead.suffix).trans hnext.of_passage.suffix, hlook⟩
    · -- the turn would stand behind the word
      have hbeyond := (hword.reaches_of_advances hnext).length_le
      have hlength := hbehind.length_le
      have hshort := hplace.length_le
      omega
  · refine .inr ⟨_, hunread text s hread hlead rfl, fun after => LookAlike.of_front (by simp) ?_⟩
    intro hfront
    simp at hfront

/-! ## Errors of one kind at one place -/

/-- Two diagnostics of one kind, about one place in one source. -/
structure AtOnePlace (x x' : Diagnostic) : Prop where
  kind : x.kind = x'.kind
  source : x.source = x'.source
  position : x.position = x'.position

theorem atOnePlace_of_sharp {x x' : Diagnostic}
    (h : Blur.sharp.diagnostic x = Blur.sharp.diagnostic x') : AtOnePlace x x' := by
  rw [Blur.sharp_diagnostic, Blur.sharp_diagnostic] at h
  subst h
  exact ⟨rfl, rfl, rfl⟩

theorem AtOnePlace.inSource {x x' : Diagnostic} (h : AtOnePlace x x') (path : SourcePath) :
    AtOnePlace (x.inSource path) (x'.inSource path) :=
  ⟨h.kind, congrArg (fun found : Option SourcePath => some (found.getD path)) h.source, h.position⟩

/-- Outcomes that are so related, or errors of one kind at one place. -/
def SameOutcomeAt {α : Type} (E : α → α → Prop) : Except Diagnostic α → Except Diagnostic α → Prop
  | .ok a, .ok a' => E a a'
  | .error x, .error x' => AtOnePlace x x'
  | _, _ => False

theorem SameOutcomeAt.eq_ok {α : Type} {a : α} {x : Except Diagnostic α}
    (h : SameOutcomeAt Eq (.ok a) x) : x = .ok a := by
  cases x with
  | ok a' => exact congrArg Except.ok (Eq.symm h)
  | error e => exact absurd h id

theorem sameOutcomeAt_of_sharp {α β : Type} {F : α → β} {x x' : Except Diagnostic α}
    (h : Blur.sharp.outcome F x = Blur.sharp.outcome F x') :
    SameOutcomeAt (fun a a' => F a = F a') x x' := by
  cases x with
  | ok a =>
    cases x' with
    | ok a' => exact Except.ok.inj h
    | error e' => cases h
  | error e =>
    cases x' with
    | ok a' => cases h
    | error e' => exact atOnePlace_of_sharp (Except.error.inj h)

/-- Both readings have failed, with errors of one kind at one place. -/
def FailAlike {α β : Type} :
    EStateM.Result Diagnostic Cursor α → EStateM.Result Diagnostic Cursor β → Prop
  | .error x _, .error x' _ => AtOnePlace x x'
  | _, _ => False

theorem FailAlike.exists_error {α β : Type} {x : EStateM.Result Diagnostic Cursor α}
    {x' : EStateM.Result Diagnostic Cursor β} (h : FailAlike x x') :
    ∃ e d e' d', x = .error e d ∧ x' = .error e' d' ∧ AtOnePlace e e' := by
  cases x with
  | ok a d => exact absurd h id
  | error e d =>
    cases x' with
    | ok a' d' => exact absurd h id
    | error e' d' => exact ⟨e, d, e', d', rfl, rfl, h⟩

/-! ## One turn -/

section Turn

variable {site : List Char → Prop}
  (hsite : ∀ place, site place → place <:+ s.current.cursor.rest →
    InOwnWord s.current.cursor place ∨ s.StopsBefore place)
include hsite

/-- Behind all the words of a turn whose case does not matter, the texts are the same up to where the
turn stops. -/
theorem exists_tails_behind (hreach : s.current.cursor.Reaches d)
    (hleft : d.Reaches (cursorLeft (s.passage s.current.cursor)))
    (hown : ∀ g e, FoldedWord s.current.cursor g e → d.rest.length ≤ e.rest.length)
    (h : RecasedAt site d d') :
    ∃ tail tail', LookAlike tail tail' ∧ Recased site tail tail' ∧ Abreast .sharp tail tail' d d' ∧
      tail <:+ (cursorLeft (s.passage s.current.cursor)).rest := by
  obtain ⟨tail, tail', -, htails, hpair, hfirst⟩ := h.exists_tails
  rcases hfirst with rfl | ⟨hhere, hbehind⟩
  · cases htails
    exact ⟨[], [], .refl [], .done, hpair, List.nil_suffix⟩
  rcases hsite tail hhere (hbehind.trans hreach.suffix) with
    ⟨g, e, hword, -, hless⟩ | ⟨front, hin, hlook⟩
  · have hlength := hbehind.length_le
    exact absurd (hown g e hword) (by omega)
  · obtain ⟨more, hmore⟩ := hin.trans hleft.suffix
    obtain ⟨⟨before, hd, hd'⟩, hplace⟩ := hpair
    obtain rfl : before = more ++ front := by
      rw [hd, ← List.append_assoc] at hmore
      exact (List.append_cancel_right hmore).symm
    exact ⟨front ++ tail, front ++ tail', hlook tail', htails.append front,
      ⟨⟨more, hmore.symm, by rw [hd', List.append_assoc]⟩, hplace⟩, hin⟩

section Sequence

variable (token : nextToken s.current.cursor = .ok ⟨.sequenceMark, p⟩ d)
  (labelled : definedLabel d = .ok label f)
include token labelled

/-- A place whose case does not matter is behind the label of the sequence. -/
theorem suffix_of_sequence (hhere : site place) (hplace : place <:+ s.current.cursor.rest) :
    place <:+ f.rest := by
  rcases hsite place hhere hplace with ⟨g, e, hword, hin, -⟩ | ⟨front, hin, -⟩
  · exact hin.trans (hword.keyStands token labelled).reaches.suffix
  · rw [State.cursorLeft_passage token (by simp [TokenKind.Directs])] at hin
    have hbehind : f.Reaches (cursorLeft (s.draft.readSequence s.current.path d)) := by
      rw [← cursorLeft_readLabel labelled]
      exact reaches_bind (fun _ => forward_bind forward_notes fun _ => forward_pure _) d
    exact (List.suffix_append ..).trans (hin.trans hbehind.suffix)

/-- As seen from the notes behind a label that is accepted, it is in one of their keys or behind them. -/
theorem inKeyOrBehind {labels : Registry × String}
    (accepted : s.draft.readLabel s.current.path .sequence d = .ok labels f)
    (hhere : site place) (hplace : place <:+ s.current.cursor.rest) : InKeyOrBehind f place := by
  rcases hsite place hhere hplace with ⟨g, e, hword, hin, hless⟩ | ⟨front, hin, -⟩
  · exact .inl ⟨g, e, hword.keyStands token labelled, hin, hless⟩
  · rw [State.cursorLeft_passage_of_sequence token accepted] at hin
    exact .inr ((List.suffix_append ..).trans hin)

end Sequence

section Attribute

variable (token : nextToken s.current.cursor = .ok ⟨.attributeMark, p⟩ d)
include token

/-- A place whose case does not matter is behind the mark of the attribute. -/
theorem suffix_of_attribute (hhere : site place) (hplace : place <:+ s.current.cursor.rest) :
    place <:+ d.rest := by
  rcases hsite place hhere hplace with ⟨g, e, hword, hin, -⟩ | ⟨front, hin, -⟩
  · obtain ⟨rfl, -⟩ := hword.eq_name token rfl
    exact hin
  · rw [State.cursorLeft_passage token (by simp [TokenKind.Directs])] at hin
    exact (List.suffix_append ..).trans (hin.trans (forward_readDirective _ _ _ d).suffix)

variable (htrack : s.draft.track ≠ none) (named : word d = .ok name e)
include htrack named

/-- Behind the name of an attribute, the texts are the same up to where the attribute ends. -/
theorem exists_tails_behind_name (h : RecasedAt site e e') :
    ∃ tail tail', LookAlike tail tail' ∧ Recased site tail tail' ∧ Abreast .sharp tail tail' e e' ∧
      tail <:+ (cursorLeft (trackAttribute s.current.path d)).rest := by
  rw [← State.cursorLeft_passage_of_attribute token htrack]
  apply exists_tails_behind hsite ((forward_nextToken.ok token).trans (forward_word.ok named)) _ _ h
  · rw [State.cursorLeft_passage_of_attribute token htrack, trackAttribute_of_word named]
    apply forward_bind forward_skipGap
    intro _
    cases AttributeName.ofWord? name with
    | some kind => exact forward_attributeValue _ kind
    | none => exact forward_fail _ _
  · intro g e₁ hother
    obtain ⟨-, rfl⟩ := hother.eq_name token named
    exact Nat.le_refl _

variable (h : RecasedAt site d d')
include h

theorem matches_trackAttribute_recased {kind : AttributeName}
    (known : AttributeName.ofWord? name = some kind) :
    Matches .sharp (AttributesAlike .sharp) (RecasedAt site) (trackAttribute s.current.path d)
      (trackAttribute s.current.path d') := by
  obtain ⟨name', e', named', hsame, he⟩ := h.run caseBlind_isBlank.not named
  have known' := known
  rw [AttributeName.ofWord?_congr hsame] at known'
  obtain ⟨tail, tail', hlook, htails, hpair, hwithin⟩ :=
    exists_tails_behind_name hsite token htrack named he
  have hread : trackAttribute s.current.path d =
      (skipGap >>= fun _ => attributeValue s.current.path kind) e := by
    rw [trackAttribute_of_word named]
    simp only [known]
  rw [hread] at hwithin
  rw [hread, trackAttribute_of_word named']
  simp only [known']
  have hmatch := (Pairing.reads_attributeBehind (Pairing.readsParts_abreast (b := .sharp) hlook)
    s.current.path kind).result e e' hpair hwithin
  exact hmatch.mono (fun _ _ hvalue => hvalue) fun _ _ hf => hf.recasedAt htails

/-- An attribute that is not known is refused at the same place. -/
theorem failAlike_trackAttribute_recased (unknown : AttributeName.ofWord? name = none) :
    FailAlike (trackAttribute s.current.path d) (trackAttribute s.current.path d') := by
  obtain ⟨name', e', named', hsame, he⟩ := h.run caseBlind_isBlank.not named
  have unknown' := unknown
  rw [AttributeName.ofWord?_congr hsame] at unknown'
  obtain ⟨tail, tail', hlook, -, hpair, hwithin⟩ :=
    exists_tails_behind_name hsite token htrack named he
  rw [trackAttribute_of_word named] at hwithin
  simp only [unknown] at hwithin
  rw [trackAttribute_of_word named, trackAttribute_of_word named']
  simp only [unknown, unknown']
  have hgap := (Pairing.abreast_skipGap (b := .sharp) hlook.stopAlike).result e e' hpair
    (hwithin.trans (reaches_bind (fun _ => forward_fail _ _) e).suffix)
  rw [bind_apply, bind_apply]
  cases hskip : skipGap e with
  | ok _ f =>
    rw [hskip] at hgap
    obtain ⟨_, f', hskip', -, -⟩ := hgap.exists_ok
    rw [hskip']
    exact ⟨rfl, rfl, h.place⟩
  | error x f =>
    rw [hskip] at hgap
    obtain ⟨x', f', hskip', hx⟩ := hgap.exists_error
    rw [hskip']
    exact atOnePlace_of_sharp hx

end Attribute

variable (hpath : s.current.path = s'.current.path) (hdraft : s.draft.Alike .sharp s'.draft)
  (h : RecasedAt site s.current.cursor s'.current.cursor)
include hpath hdraft h

theorem matches_passage_of_recased_sequence
    (token : nextToken s.current.cursor = .ok ⟨.sequenceMark, p⟩ d)
    (labelled : definedLabel d = .ok label f) :
    Matches .sharp (PassagesAlike .sharp) (RecasedAt site) (s.passage s.current.cursor)
      (s'.passage s'.current.cursor) := by
  have hreach := (forward_nextToken.ok token).trans (forward_definedLabel.ok labelled)
  obtain ⟨tail, tail', hstop, htails, hpair, hfirst⟩ := h.exists_tails
  have hf : tail <:+ f.rest := by
    rcases hfirst with rfl | ⟨hhere, hbehind⟩
    · exact List.nil_suffix
    · exact suffix_of_sequence hsite token labelled hhere hbehind
  apply matches_passage_of_sequence hstop hpath hpair hdraft token labelled hf
  intro labels f' accepted hpair'
  apply matches_notes_recased _ (hpair'.recasedAt htails)
  intro place hhere hplace
  exact inKeyOrBehind hsite token labelled accepted hhere (hplace.trans hreach.suffix)

theorem passage_of_recased_attribute
    (token : nextToken s.current.cursor = .ok ⟨.attributeMark, p⟩ d) :
    Matches .sharp (PassagesAlike .sharp) (RecasedAt site) (s.passage s.current.cursor)
        (s'.passage s'.current.cursor) ∨
      FailAlike (s.passage s.current.cursor) (s'.passage s'.current.cursor) := by
  obtain ⟨name, e, named⟩ : ∃ name e, word d = .ok name e := ⟨_, _, rfl⟩
  obtain ⟨tail, tail', hstop, htails, hpair, hfirst⟩ := h.exists_tails
  have hd : tail <:+ d.rest := by
    rcases hfirst with rfl | ⟨hhere, hbehind⟩
    · exact List.nil_suffix
    · exact suffix_of_attribute hsite token hhere hbehind
  by_cases htrack : s.draft.track = none
  · left
    apply matches_passage_of_attribute hstop hpath hpair hdraft token hd
    intro hdescribed
    exact absurd htrack hdescribed
  cases hkind : AttributeName.ofWord? name with
  | some kind =>
    left
    apply matches_passage_of_attribute hstop hpath hpair hdraft token hd
    intro _ d' hpair'
    exact matches_trackAttribute_recased hsite token htrack named (hpair'.recasedAt htails) hkind
  | none =>
    right
    obtain ⟨⟨kind', p'⟩, d', token', ⟨hmark, -⟩, hpair'⟩ :=
      (Pairing.abreast_nextToken (b := .sharp) hstop).exists_ok hpair token hd
    obtain rfl : .attributeMark = kind' := hmark
    obtain ⟨x, f, x', f', fails, fails', hx⟩ := (failAlike_trackAttribute_recased hsite token
      htrack named (hpair'.recasedAt htails) hkind).exists_error
    rw [passage_of_directive_error token (by simp [TokenKind.Directs])
        (readDirective_of_attribute_error rfl htrack fails),
      passage_of_directive_error token' (by simp [TokenKind.Directs])
        (readDirective_of_attribute_error rfl (hdraft.track ▸ htrack) (hpath ▸ fails'))]
    exact hx

/-- A turn comes to the same with letters in another case, or it does not know an attribute. -/
theorem passage_recased :
    Matches .sharp (PassagesAlike .sharp) (RecasedAt site) (s.passage s.current.cursor)
        (s'.passage s'.current.cursor) ∨
      FailAlike (s.passage s.current.cursor) (s'.passage s'.current.cursor) := by
  by_cases hown : ∃ g e, FoldedWord s.current.cursor g e
  · obtain ⟨g, e, hword⟩ := hown
    cases hword with
    | key token labelled stands =>
      exact .inl (matches_passage_of_recased_sequence hsite hpath hdraft h token labelled)
    | attributeName token named =>
      exact passage_of_recased_attribute hsite hpath hdraft h token
  · left
    obtain ⟨tail, tail', hlook, htails, hpair, hwithin⟩ := exists_tails_behind hsite (.refl _)
      (s.forward_passage _) (fun g e hword => absurd ⟨g, e, hword⟩ hown) h
    have hpassage := (reads_passage (Pairing.readsParts_abreast (b := .sharp) hlook) hpath
      hdraft).result _ _ hpair hwithin
    exact hpassage.mono (fun _ _ hx => hx) fun _ _ hd => hd.recasedAt htails

end Turn

/-! ## Whole documents -/

/-- The turns of two readings in lockstep come to the same, or both stop with errors of one kind at one
place. -/
theorem turn_recased {K : SourcePath → Cursor → Cursor → Prop}
    (hprovide : ∀ path : SourcePath, path.Normal → ProvideAlike read read' (bySource K []) path)
    (h : Counterparts .sharp (bySource K) s s')
    (hpassage : Matches .sharp (PassagesAlike .sharp) (K s.current.path)
        (s.passage s.current.cursor) (s'.passage s'.current.cursor) ∨
      FailAlike (s.passage s.current.cursor) (s'.passage s'.current.cursor)) :
    TurnsAlike .sharp (bySource K) (s.turn read o) (s'.turn read' o) ∨
      ∃ x x', s.turn read o = .stop (.error x) ∧ s'.turn read' o = .stop (.error x') ∧
        AtOnePlace x x' := by
  rcases hpassage with hmatch | hfail
  · exact .inl (turn_alike_bySource hprovide h hmatch)
  · obtain ⟨x, d, x', d', fails, fails', hx⟩ := hfail.exists_error
    refine .inr ⟨_, _, by rw [s.turn_eq, fails], by rw [s'.turn_eq, fails'], ?_⟩
    rw [← h.current.1]
    exact hx.inSource s.current.path

theorem sameOutcomeAt_concluded {x x' : Except Diagnostic Draft}
    (h : SameOutcomeAt (Draft.Alike .sharp) x x') :
    SameOutcomeAt Eq (x >>= conclude) (x' >>= conclude) := by
  cases x with
  | ok draft =>
    cases x' with
    | ok draft' => exact sameOutcomeAt_of_sharp (F := id) (conclude_congr h)
    | error e' => exact absurd h id
  | error e =>
    cases x' with
    | ok draft' => exact absurd h id
    | error e' => exact h

/-- **Letter case never matters.** Two providers either fail for the same reason or give two texts, of
which the second one has letters of the first one in another case, each of them in the key of a note
that the reading of the document meets or in the name of an attribute, whether the reading meets it or
not. Then the document comes to the same library with both, or to an error of the same kind at the same
line and column of the same source. -/
theorem recased_parse (read read' : Provider) (o : Options) (root : SourcePath)
    (hprovide : ∀ path : SourcePath, path.Normal →
      (∃ fault, read path = .error fault ∧ read' path = .error fault) ∨
        ∃ text text', read path = .ok text ∧ read' path = .ok text' ∧
          Recased (CaseFree read o root path) text.toList text'.toList) :
    SameOutcomeAt Eq (parse read o root) (parse read' o root) := by
  have hsources : ∀ path : SourcePath, path.Normal → ProvideAlike read read'
      (bySource (fun path => RecasedAt (CaseFree read o root path)) []) path := by
    intro path hpath
    rcases hprovide path hpath with hfault | ⟨text, text', hread, hread', htext⟩
    · exact .inl hfault
    · exact .inr ⟨text, text', hread, hread', rfl, htext, rfl⟩
  unfold parse
  rcases hsources root.normalize root.normal_normalize with
    ⟨fault, hread, hread'⟩ | ⟨text, text', hread, hread', halike⟩
  · rw [hread, hread']
    exact ⟨rfl, rfl, rfl⟩
  rw [hread, hread']
  apply sameOutcomeAt_concluded
  have hturn : ∀ u u', Leads read o (.start root.normalize text) u →
      Counterparts .sharp (bySource fun path => RecasedAt (CaseFree read o root path)) u u' →
      _ := fun u u' hlead h =>
    turn_recased (o := o) hsources h (passage_recased
      (fun _ hhere hplace => CaseFree.locate hhere hread hlead hplace) h.current.1 h.draft
      h.current.2)
  have hstart : Counterparts .sharp
      (bySource fun path => RecasedAt (CaseFree read o root path))
      (.start root.normalize text) (.start root.normalize text') := ⟨halike, .nil, rfl⟩
  apply run_related (S := SameOutcomeAt (Draft.Alike .sharp)) _ _ hstart
  · intro u v u' hlead hgo h
    rcases hturn u u' hlead h with halike | ⟨x, x', hstop, -⟩
    · exact halike
    · exact absurd hstop hgo.not_stop
  · intro u outcome u' hlead hstop h
    rcases hturn u u' hlead h with halike | ⟨x, x', hstop', hlast, hx⟩
    · rw [hstop] at halike
      obtain ⟨outcome', hlast, houtcome⟩ := halike.exists_stop
      exact ⟨outcome', hlast, sameOutcomeAt_of_sharp houtcome⟩
    · obtain rfl := Turn.stop.inj (hstop.symm.trans hstop')
      exact ⟨_, hlast, hx⟩

/-- A track and a sequence, of which the second note has a key that spells no pitch. -/
def lowerCase : String := "@t:\n%bpm 90\n$a: c# bb"

/-- The same, with some of the letters in upper case. -/
def mixedCase : String := "@t:\n%Bpm 90\n$a: C# bB"

theorem inFoldedWord_bpm :
    InFoldedWord (single lowerCase) .standard ⟨"song"⟩ ⟨"song"⟩
      "bpm 90\n$a: c# bb".toList := by
  obtain ⟨s, hlead, hs⟩ : ∃ s, Leads (single lowerCase) .standard
      (.start (SourcePath.mk "song").normalize lowerCase) s ∧
      s.current = ⟨⟨"song"⟩, ⟨"%bpm 90\n$a: c# bb".toList, ⟨2, 1⟩⟩⟩ :=
    exists_leads_of_turns 2 (by decide +kernel)
  have token : nextToken s.current.cursor =
      .ok ⟨.attributeMark, ⟨2, 1⟩⟩ ⟨"bpm 90\n$a: c# bb".toList, ⟨2, 2⟩⟩ := by
    rw [hs]
    decide +kernel
  have named : word ⟨"bpm 90\n$a: c# bb".toList, ⟨2, 2⟩⟩ =
      .ok "bpm" ⟨" 90\n$a: c# bb".toList, ⟨2, 5⟩⟩ := by decide +kernel
  exact ⟨_, s, _, _, single_root _, hlead, congrArg OpenSource.path hs, .attributeName token named,
    List.suffix_rfl, by decide +kernel⟩

theorem inFoldedWord_keys :
    InFoldedWord (single lowerCase) .standard ⟨"song"⟩ ⟨"song"⟩ "c# bb".toList ∧
      InFoldedWord (single lowerCase) .standard ⟨"song"⟩ ⟨"song"⟩ "b".toList := by
  obtain ⟨s, hlead, hs⟩ : ∃ s, Leads (single lowerCase) .standard
      (.start (SourcePath.mk "song").normalize lowerCase) s ∧
      s.current = ⟨⟨"song"⟩, ⟨"$a: c# bb".toList, ⟨3, 1⟩⟩⟩ :=
    exists_leads_of_turns 4 (by decide +kernel)
  have hpath : s.current.path = ⟨"song"⟩ := congrArg OpenSource.path hs
  have token : nextToken s.current.cursor =
      .ok ⟨.sequenceMark, ⟨3, 1⟩⟩ ⟨"a: c# bb".toList, ⟨3, 2⟩⟩ := by
    rw [hs]
    decide +kernel
  have labelled : definedLabel ⟨"a: c# bb".toList, ⟨3, 2⟩⟩ =
      .ok "a" ⟨" c# bb".toList, ⟨3, 4⟩⟩ := by decide +kernel
  have gap : skipGap ⟨" c# bb".toList, ⟨3, 4⟩⟩ = .ok () ⟨"c# bb".toList, ⟨3, 5⟩⟩ := by
    decide +kernel
  have first : nextToken ⟨"c# bb".toList, ⟨3, 5⟩⟩ =
      .ok ⟨.key "c#", ⟨3, 5⟩⟩ ⟨" bb".toList, ⟨3, 7⟩⟩ := by decide +kernel
  have hnext : NextNote ⟨" c# bb".toList, ⟨3, 4⟩⟩ ⟨"bb".toList, ⟨3, 8⟩⟩ :=
    (nextNote_iff gap (by decide) first).2 ⟨⟨.cSharp, none, none⟩, by decide +kernel⟩
  have second : nextToken ⟨"bb".toList, ⟨3, 8⟩⟩ = .ok ⟨.key "bb", ⟨3, 8⟩⟩ ⟨[], ⟨3, 10⟩⟩ := by
    decide +kernel
  constructor
  · exact ⟨_, s, _, _, single_root _, hlead, hpath,
      .key token labelled ⟨_, _, _, .refl, gap, by decide, first⟩, List.suffix_rfl,
      by decide +kernel⟩
  · exact ⟨_, s, _, _, single_root _, hlead, hpath,
      .key token labelled ⟨_, _, _, .single hnext, by decide +kernel, by decide, second⟩,
      by decide +kernel, by decide +kernel⟩

theorem recased_mixedCase :
    Recased (CaseFree (single lowerCase) .standard ⟨"song"⟩ ⟨"song"⟩) lowerCase.toList
      mixedCase.toList := by
  obtain ⟨hfirst, hsecond⟩ := inFoldedWord_keys
  have hlast : Recased (CaseFree (single lowerCase) .standard ⟨"song"⟩ ⟨"song"⟩)
      "b".toList "B".toList := .letter (.inl hsecond) (by decide) .done
  have hkeys : Recased (CaseFree (single lowerCase) .standard ⟨"song"⟩ ⟨"song"⟩)
      "c# bb".toList "C# bB".toList := .letter (.inl hfirst) (by decide) (hlast.append "# b".toList)
  have hname : Recased (CaseFree (single lowerCase) .standard ⟨"song"⟩ ⟨"song"⟩)
      "bpm 90\n$a: c# bb".toList "Bpm 90\n$a: C# bB".toList :=
    .letter (.inl inFoldedWord_bpm) (by decide) (hkeys.append "pm 90\n$a: ".toList)
  exact hname.append "@t:\n%".toList

theorem parse_mixedCase :
    parse (single mixedCase) .standard ⟨"song"⟩ =
      .ok ⟨[⟨"t", "", 90, []⟩],
        [⟨"a", [⟨.cSharp, 4, ⟨0, 32⟩⟩, ⟨.rest, 4, ⟨0, 32⟩⟩]⟩], [("a", 0)]⟩ := by
  have hlower : parse (single lowerCase) .standard ⟨"song"⟩ =
      .ok ⟨[⟨"t", "", 90, []⟩],
        [⟨"a", [⟨.cSharp, 4, ⟨0, 32⟩⟩, ⟨.rest, 4, ⟨0, 32⟩⟩]⟩], [("a", 0)]⟩ :=
    parse_of_turns 6 (single_root _) (by decide +kernel)
  have h := recased_parse (single lowerCase) (single mixedCase) .standard ⟨"song"⟩ (by
    intro path _
    by_cases hpath : path = ⟨"song"⟩
    · subst hpath
      exact .inr ⟨lowerCase, mixedCase, if_pos rfl, if_pos rfl, recased_mixedCase⟩
    · exact .inl ⟨.missing, if_neg hpath, if_neg hpath⟩)
  rw [hlower] at h
  exact h.eq_ok

end Document

end Songsheet
