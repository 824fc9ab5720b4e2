import Songsheet.Proofs.Directive.Comment
import Songsheet.Proofs.Document.Layout
import Songsheet.Proofs.Note.Comment

/-!
# Comments directly behind the elements of a document

A block comment is put directly behind an element of a document, with no blank between them. Behind a
note it does not matter: the document comes to the same. Behind the label of a definition, the name
of an attribute or a reference it does: these are words, the comment is taken as a part of them, and
if the reading gets there, the document is refused.

* `Element`, `Stands` — the elements behind which a blank may stand, and where a turn reads them.
* `Arrives` — the reading of a document gets to a turn that reads such an element.
* `matches_passage_of_note`, `refused_of_stands` — what a turn at an element makes of the comment.
* `parse_insert_comment` — and what the document does; `not_sameOutcome_of_comment_behind_label` — a
  document that is refused only because of the comment.
-/

namespace Songsheet.Document

open Reading

variable {read read' : Provider} {o : Options} {s s' : State} {root source : SourcePath}
  {front back body : List Char} {c d e g next : Cursor}

/-! ## Elements -/

/-- What a blank may follow in a document. -/
inductive Element where
  | note
  /-- The word that defines a label, with its colon. -/
  | label
  | attributeName
  | reference
  deriving DecidableEq, Repr

/-- The elements that describe a track. -/
def Element.Describes : Element → Prop
  | .attributeName | .reference => True
  | .note | .label => False

/-- How an element is refused that goes on with a comment. What is left of a comment behind its first
blank may open another one, which shows before the name of an attribute is looked up. -/
def Element.Refuses : Element → DiagnosticKind → Prop
  | .note, _ => False
  | .label, kind | .reference, kind => kind = .invalidLabelName
  | .attributeName, kind => kind = .unknownAttribute ∨ kind = .unterminatedComment

/-- In a turn that begins at `c`, an element stands between two cursors. -/
inductive Stands (source : SourcePath) (c : Cursor) : Element → Cursor → Cursor → Prop
  | note {p : Position} {d f k g e : Cursor} {label : String}
      (token : nextToken c = .ok ⟨.sequenceMark, p⟩ d) (labelled : definedLabel d = .ok label f)
      (others : NotesUpTo f k) (gap : skipGap k = .ok () g) (begins : g.peek?.any isKeyChar)
      (spelled : NoteSpelled g e) : Stands source c .note g e
  | label {mark : Token} {d e : Cursor} {label : String} (token : nextToken c = .ok mark d)
      (defines : mark.kind = .trackMark ∨ mark.kind = .sequenceMark)
      (labelled : definedLabel d = .ok label e) : Stands source c .label d e
  | attributeName {p : Position} {d e : Cursor} {name : String} {kind : AttributeName}
      (token : nextToken c = .ok ⟨.attributeMark, p⟩ d) (named : word d = .ok name e)
      (known : AttributeName.ofWord? name = some kind) : Stands source c .attributeName d e
  | reference {p : Position} {d f k g e : Cursor} {name label : String}
      (token : nextToken c = .ok ⟨.attributeMark, p⟩ d) (named : word d = .ok name f)
      (channel : AttributeName.ofWord? name = some .channel) (gap : skipGap f = .ok () k)
      (others : ReferencesUpTo source k g) (last : word g = .ok label e)
      (valid : isLabel label) : Stands source c .reference g e

/-- The reading of a document gets to a turn, which reads an element there. -/
def Arrives (read : Provider) (o : Options) (root source : SourcePath) (element : Element)
    (c : Cursor) : Prop :=
  ∃ text s, read root.normalize = .ok text ∧ Leads read o (.start root.normalize text) s ∧
    s.current = ⟨source, c⟩ ∧ (element.Describes → s.draft.track ≠ none)

variable {element : Element}

namespace Stands

/-- An element is a note or a word. -/
theorem spelled (h : Stands source c element g e) :
    (g.peek?.any isKeyChar ∧ NoteSpelled g e) ∨ ∃ text, word g = .ok text e ∧ IsPlainWord text := by
  cases h with
  | note token labelled others gap begins spelled => exact .inl ⟨begins, spelled⟩
  | label token defines labelled =>
    obtain ⟨text, hword, hlabel⟩ := definedLabel_eq_ok.1 labelled
    exact .inr ⟨text, hword, isPlainWord_of_labelDefinedBy? hlabel⟩
  | attributeName token named known => exact .inr ⟨_, named, isPlainWord_of_ofWord? known⟩
  | reference token named channel gap others last valid =>
    exact .inr ⟨_, last, isPlainWord_of_isLabel valid⟩

theorem lookAlike {after : List Char} (h : Stands source c element g e)
    (hg : g.rest = front ++ e.rest) : LookAlike (front ++ e.rest) (front ++ after) := by
  rcases h.spelled with ⟨begins, hnote⟩ | ⟨text, hword, hplain⟩
  · exact hnote.lookAlike begins hg
  · exact lookAlike_of_word hword hplain hg

theorem length_lt (h : Stands source c element g e) : e.rest.length < g.rest.length := by
  rcases h.spelled with ⟨-, hnote⟩ | ⟨text, hword, hplain⟩
  · exact hnote.length_lt
  · exact length_of_word hword hplain.1

theorem reaches (h : Stands source c element g e) : c.Reaches g := by
  cases h with
  | note token labelled others gap begins spelled =>
    exact (forward_nextToken.ok token).trans ((forward_definedLabel.ok labelled).trans
      (others.reaches.trans (forward_skipGap.ok gap)))
  | label token defines labelled => exact forward_nextToken.ok token
  | attributeName token named known => exact forward_nextToken.ok token
  | reference token named channel gap others last valid =>
    exact (forward_nextToken.ok token).trans ((forward_word.ok named).trans
      ((forward_skipGap.ok gap).trans others.reaches))

theorem covers (h : Stands source c element g e) : g.Reaches e := by
  rcases h.spelled with ⟨-, hnote⟩ | ⟨text, hword, -⟩
  · exact hnote.reaches
  · exact forward_word.ok hword

/-- A turn that reads an element reads on beyond it. -/
theorem reaches_of_advances (h : Stands source c element g e) (hnext : Advances source c next) :
    e.Reaches next := by
  cases h with
  | note token labelled others gap begins spelled =>
    obtain ⟨written, hnotes⟩ := notes_of_advances hnext token labelled
    exact reaches_of_notes others gap begins spelled hnotes
  | @label mark _ _ label token defines labelled =>
    obtain ⟨kind, p⟩ := mark
    rcases defines with rfl | rfl
    · exact label_of_advances hnext token labelled ▸ .refl e
    · obtain ⟨ws, hnotes⟩ := notes_of_advances hnext token labelled
      exact forward_notes.ok hnotes
  | attributeName token named known =>
    obtain ⟨value, h⟩ := attribute_of_advances hnext token
    obtain ⟨text, e₁, e₂, kind, hword, hskip, -, hvalue⟩ := trackAttribute_eq_ok.1 h
    obtain ⟨-, rfl⟩ := EStateM.Result.ok.inj (named.symm.trans hword)
    exact (forward_skipGap.ok hskip).trans ((forward_attributeValue source kind).ok hvalue)
  | reference token named channel gap others last valid =>
    obtain ⟨value, h⟩ := attribute_of_advances hnext token
    obtain ⟨text, e₁, e₂, kind, hword, hskip, hkind, hvalue⟩ := trackAttribute_eq_ok.1 h
    obtain ⟨rfl, rfl⟩ := EStateM.Result.ok.inj (named.symm.trans hword)
    obtain ⟨-, rfl⟩ := EStateM.Result.ok.inj (gap.symm.trans hskip)
    obtain rfl := Option.some.inj (channel.symm.trans hkind)
    obtain ⟨rs, next', hreferences, hpure⟩ := bind_eq_ok.1 hvalue
    obtain ⟨-, rfl⟩ := pure_eq_ok.1 hpure
    exact reaches_of_references others last valid hreferences

end Stands

/-! ## One turn -/

/-- A turn fails in the way in which an element is refused that goes on with a comment. -/
def Element.RefusedAt (element : Element) (s : State) : Prop :=
  ∃ x d, s.passage s.current.cursor = .error x d ∧ element.Refuses x.kind

section Turn

variable {spelling : List Char} (hspelled : g.rest = spelling ++ back) (he : e.rest = back)
include hspelled he

/-- A turn that reads a note comes to the same with a comment directly behind it. -/
theorem matches_passage_of_note (hbody : ¬ ['*', '/'] <:+: body)
    (h : Stands source s.current.cursor .note g e) (hpath : s.current.path = s'.current.path)
    (hdraft : s.draft.Alike .blind s'.draft)
    (hpair : Abreast .blind (spelling ++ back) (spelling ++ (blockComment body ++ back))
      s.current.cursor s'.current.cursor) :
    Matches .blind (PassagesAlike .blind) SameRest (s.passage s.current.cursor)
      (s'.passage s'.current.cursor) := by
  have hlook : LookAlike (spelling ++ back) (spelling ++ (blockComment body ++ back)) :=
    he ▸ h.lookAlike (he ▸ hspelled)
  cases h with
  | @note p d f k _ _ label token labelled others gap begins spelled =>
    have hf : spelling ++ back <:+ f.rest :=
      hspelled ▸ (others.reaches.trans (forward_skipGap.ok gap)).suffix
    apply matches_passage_of_sequence hlook.stopAlike hpath hpair hdraft token labelled hf
    intro _ f' _ hpair'
    exact matches_notes_commented hbody begins spelled he hspelled others gap hpair'

/-- A turn that reads a word refuses it with a comment directly behind it. -/
theorem refused_of_stands (h : Stands s.current.path c element g e) (hword : element ≠ .note)
    (htrack : element.Describes → s.draft.track ≠ none)
    (hpair : Abreast .blind (spelling ++ back) (spelling ++ (blockComment body ++ back)) c
      s.current.cursor) : element.RefusedAt s := by
  have hlook : LookAlike (spelling ++ back) (spelling ++ (blockComment body ++ back)) :=
    he ▸ h.lookAlike (he ▸ hspelled)
  have hparts := Pairing.readsParts_abreast (b := .blind) hlook
  have hwithin : spelling ++ back <:+ g.rest := hspelled ▸ List.suffix_rfl
  cases h with
  | note token labelled others gap begins spelled => exact absurd rfl hword
  | @label mark _ _ label token defines labelled =>
    obtain ⟨mark', d', token', ⟨hkind, -⟩, hpair'⟩ := hparts.tokens.exists_ok hpair token hwithin
    obtain ⟨text, e', fails⟩ :=
      definedLabel_commented labelled (he ▸ hspelled) (hpair'.rest_eq hspelled)
    rw [hkind] at defines
    have directs : mark'.kind.Directs := by
      rcases defines with hmark | hmark <;> simp [TokenKind.Directs, hmark]
    exact ⟨_, e', passage_of_directive_error token' directs
      (readDirective_of_label_error defines fails), rfl⟩
  | attributeName token named known =>
    obtain ⟨mark', d', token', ⟨hkind, -⟩, hpair'⟩ := hparts.tokens.exists_ok hpair token hwithin
    obtain ⟨x, e', fails, hx⟩ :=
      trackAttribute_commented named (he ▸ hspelled) (hpair'.rest_eq hspelled)
    have directs : mark'.kind.Directs := by simp [TokenKind.Directs, ← hkind]
    exact ⟨x, e', passage_of_directive_error token' directs
      (readDirective_of_attribute_error hkind.symm (htrack trivial) fails), hx⟩
  | @reference p d f k _ _ name label token named channel gap others last valid =>
    have hk : spelling ++ back <:+ k.rest := hspelled ▸ others.reaches.suffix
    have hd := hk.trans ((forward_word.ok named).trans (forward_skipGap.ok gap)).suffix
    obtain ⟨mark', d', token', ⟨hkind, -⟩, hpair'⟩ := hparts.tokens.exists_ok hpair token hd
    obtain ⟨text, p', e', fails⟩ := trackAttribute_commented_reference named channel gap others
      last valid hspelled he hpair'
    have directs : mark'.kind.Directs := by simp [TokenKind.Directs, ← hkind]
    exact ⟨_, e', passage_of_directive_error token' directs
      (readDirective_of_attribute_error hkind.symm (htrack trivial) fails), rfl⟩

end Turn

/-! ## Any turn -/

theorem Stands.attribute_of_describes (h : Stands source c element g e)
    (hdescribes : element.Describes) :
    ∃ p d, nextToken c = .ok ⟨.attributeMark, p⟩ d ∧ d.Reaches g := by
  cases h with
  | note token | label token => exact absurd hdescribes id
  | @attributeName p d _ _ _ token named known => exact ⟨p, _, token, .refl _⟩
  | @reference p d _ _ _ _ _ _ token named channel gap others last valid =>
    exact ⟨p, d, token, (forward_word.ok named).trans
      ((forward_skipGap.ok gap).trans others.reaches)⟩

/-- Two cursors in a source: in front of the comment, if it is the source with the comment, and
otherwise, or behind a note with a comment, anywhere with the same text to come. -/
def Facing (element : Element) (source : SourcePath) (spelling body back : List Char)
    (path : SourcePath) (c c' : Cursor) : Prop :=
  SameRest c c' ∧ (path = source → element = .note) ∨
    path = source ∧
      Abreast .blind (spelling ++ back) (spelling ++ (blockComment body ++ back)) c c'

section AnyTurn

variable {spelling : List Char} (hbody : ¬ ['*', '/'] <:+: body)
  (h : Stands source c element g e) (hspelled : g.rest = spelling ++ back) (he : e.rest = back)
include h hspelled he hbody

/-- A turn comes to the same with a comment directly behind an element, or it reads a word and
refuses it. -/
theorem matches_or_refused (hc : OnCourse read ⟨source, c⟩) (hs : OnCourse read s.current)
    (hpair : Counterparts .blind (bySource (Facing element source spelling body back)) s s') :
    Matches .blind (PassagesAlike .blind) (Facing element source spelling body back s.current.path)
        (s.passage s.current.cursor) (s'.passage s'.current.cursor) ∨
      element ≠ .note ∧ s.current = ⟨source, c⟩ ∧ (element.Describes → s.draft.track ≠ none) ∧
        element.RefusedAt s' := by
  have hlook : LookAlike (spelling ++ back) (spelling ++ (blockComment body ++ back)) :=
    he ▸ h.lookAlike (he ▸ hspelled)
  have hdraft := hpair.draft
  obtain ⟨hpath, ⟨hsame, hnote⟩ | ⟨hsource, habreast⟩⟩ := hpair.current
  · left
    have hpassage := (reads_passage readsParts_sameRest hpath hdraft).matches_sameRest hsame
    exact hpassage.mono (fun _ _ hx => hx) fun _ _ hd => .inl ⟨hd, hnote⟩
  -- where the turn stands, as seen from the turn that reads the element
  rcases hs.compare hc hsource with hplace | ⟨next, hnext, hahead⟩ | ⟨next, hnext, hbehind⟩
  · obtain rfl : s.current.cursor = c := hplace
    by_cases hnote : element = .note
    · subst hnote
      left
      have hpassage := matches_passage_of_note hspelled he hbody h hpath hdraft habreast
      exact hpassage.mono (fun _ _ hx => hx) fun _ _ hd => .inl ⟨hd, fun _ => rfl⟩
    by_cases htrack : element.Describes → s.draft.track ≠ none
    · have hstands : Stands s'.current.path s.current.cursor element g e := by
        rw [← hpath, hsource]
        exact h
      refine .inr ⟨hnote, congrArg₂ OpenSource.mk hsource rfl, htrack, ?_⟩
      exact refused_of_stands hspelled he hstands hnote (hdraft.track ▸ htrack) habreast
    · left
      obtain ⟨hdescribes, hnone⟩ := Classical.not_imp.1 htrack
      obtain ⟨p, d, token, hreaches⟩ := h.attribute_of_describes hdescribes
      apply matches_passage_of_attribute hlook.stopAlike hpath habreast hdraft token
        (hspelled ▸ hreaches.suffix)
      intro hdescribed
      exact absurd hdescribed hnone
  · left
    have hwithin : spelling ++ back <:+ (cursorLeft (s.passage s.current.cursor)).rest :=
      hspelled ▸ (hnext.of_passage.trans (hahead.trans h.reaches)).suffix
    have hparts := Pairing.readsParts_abreast (b := .blind) hlook
    have hpassage := (reads_passage hparts hpath hdraft).result _ _ habreast hwithin
    exact hpassage.mono (fun _ _ hx => hx) fun _ _ hd => .inr ⟨hsource, hd⟩
  · -- the turn would stand behind the element
    obtain ⟨before, hbefore, -⟩ := habreast.front
    have hless := h.length_lt
    have hbeyond := (h.reaches_of_advances (hsource ▸ hnext)).length_le
    have hlength := hbehind.length_le
    rw [hbefore, ← hspelled, List.length_append] at hlength
    omega

end AnyTurn

/-! ## A note and a label -/

/-- The first of two notes. -/
theorem stands_note : Stands ⟨"song"⟩ (.ofText "$a: c d") .note ⟨"c d".toList, ⟨1, 5⟩⟩
    ⟨" d".toList, ⟨1, 6⟩⟩ := by
  have token : nextToken (.ofText "$a: c d") =
      .ok ⟨.sequenceMark, ⟨1, 1⟩⟩ ⟨"a: c d".toList, ⟨1, 2⟩⟩ := by decide +kernel
  have labelled : definedLabel ⟨"a: c d".toList, ⟨1, 2⟩⟩ = .ok "a" ⟨" c d".toList, ⟨1, 4⟩⟩ := by
    decide +kernel
  have gap : skipGap ⟨" c d".toList, ⟨1, 4⟩⟩ = .ok () ⟨"c d".toList, ⟨1, 5⟩⟩ := by decide +kernel
  have key : nextToken ⟨"c d".toList, ⟨1, 5⟩⟩ =
      .ok ⟨.key "c", ⟨1, 5⟩⟩ ⟨" d".toList, ⟨1, 6⟩⟩ := by decide +kernel
  exact .note token labelled .refl gap (by decide) ⟨_, _, _, _, key, .absent, .absent⟩

/-- The label of a track. -/
theorem stands_label : Stands ⟨"song"⟩ (.ofText "@t:\n%bpm 120\n") .label
    ⟨"t:\n%bpm 120\n".toList, ⟨1, 2⟩⟩ ⟨"\n%bpm 120\n".toList, ⟨1, 4⟩⟩ := by
  have token : nextToken (.ofText "@t:\n%bpm 120\n") =
      .ok ⟨.trackMark, ⟨1, 1⟩⟩ ⟨"t:\n%bpm 120\n".toList, ⟨1, 2⟩⟩ := by decide +kernel
  have labelled : definedLabel ⟨"t:\n%bpm 120\n".toList, ⟨1, 2⟩⟩ =
      .ok "t" ⟨"\n%bpm 120\n".toList, ⟨1, 4⟩⟩ := by decide +kernel
  exact .label token (.inl rfl) labelled

/-! ## Whole documents -/

/-- A turn that refuses an element ends the reading of the document. -/
theorem parse_of_refusedAt {text : String} (hread : read root.normalize = .ok text)
    (hlead : Leads read o (.start root.normalize text) s) (h : element.RefusedAt s) :
    ∃ x, parse read o root = .error x ∧ x.source = some s.current.path ∧
      element.Refuses x.kind := by
  obtain ⟨x, d, fails, hx⟩ := h
  have hstop : s.turn read o = .stop (.error (x.inSource s.current.path)) := by
    rw [s.turn_eq, fails]
  have hfailure := turn_eq_stop_error_iff.1 hstop
  have htext := parseText_eq_error.2 (.inl ⟨s, hlead, hfailure⟩)
  exact ⟨_, parse_eq_error.2 (.inr ⟨text, hread, htext⟩), hfailure.source_eq, hx⟩

section Document

variable (hread : read source = .ok (.ofList (front ++ back)))
  (hread' : read' source = .ok (.ofList (front ++ (blockComment body ++ back))))
  (hothers : ∀ path : SourcePath, path.Normal → path ≠ source → read' path = read path)
include hread hread' hothers

theorem provideAlike_commented {spelling before : List Char} (hfront : front = before ++ spelling)
    {path : SourcePath} (hnormal : path.Normal) :
    ProvideAlike read read' (bySource (Facing element source spelling body back) []) path := by
  by_cases hpath : path = source
  · subst hpath hfront
    exact .inr ⟨_, _, hread, hread', rfl, .inr ⟨rfl,
      ⟨before, String.toList_ofList.trans (List.append_assoc ..),
        String.toList_ofList.trans (List.append_assoc ..)⟩, rfl⟩⟩
  · have hsame := hothers path hnormal hpath
    cases hfound : read path with
    | error fault => exact .inl ⟨fault, hfound, hsame.trans hfound⟩
    | ok text =>
      exact .inr ⟨text, text, hfound, hsame.trans hfound, rfl, .inl ⟨rfl, fun h => absurd h hpath⟩⟩

end Document

/-- A document that gets to a turn which reads a word is refused there with a comment directly behind
the word, unless it is refused on an earlier visit to the same place. -/
theorem exists_refusedAt {text : String} {s₀ : State} (hbody : ¬ ['*', '/'] <:+: body)
    (h : Stands source c element g e) {spelling : List Char} (hspelled : g.rest = spelling ++ back)
    (he : e.rest = back) (hc : OnCourse read ⟨source, c⟩)
    (hprovide : ∀ path : SourcePath, path.Normal →
      ProvideAlike read read' (bySource (Facing element source spelling body back) []) path)
    (hword : element ≠ .note) (hroot : read root.normalize = .ok text)
    (hlead : Leads read o (.start root.normalize text) s) (hplace : s.current = ⟨source, c⟩)
    (htrack : element.Describes → s.draft.track ≠ none)
    (hstart : Counterparts .blind (bySource (Facing element source spelling body back))
      (.start root.normalize text) s₀) :
    ∃ s', Leads read' o s₀ s' ∧ element.RefusedAt s' ∧ s'.current.path = source := by
  have hreached : (∃ s', Leads read' o s₀ s' ∧
      Counterparts .blind (bySource (Facing element source spelling body back)) s s') ∨
      ∃ s', Leads read' o s₀ s' ∧ element.RefusedAt s' ∧ s'.current.path = source := by
    apply hlead.counterpart_or hstart
    intro u v u' hu _ hpair
    rcases matches_or_refused hbody h hspelled he hc (hu.onCourse hroot) hpair with
      hpassage | ⟨-, hthere, -, hrefused⟩
    · exact .inl (turn_alike_bySource hprovide hpair hpassage)
    · refine .inr ⟨hrefused, ?_⟩
      rw [← hpair.current.1, hthere]
  rcases hreached with ⟨s', hlead', hs⟩ | hearlier
  · obtain ⟨hpath, ⟨-, hnote⟩ | ⟨-, habreast⟩⟩ := hs.current
    · exact absurd (hnote (by rw [hplace])) hword
    · rw [hplace] at hpath habreast
      obtain rfl : source = s'.current.path := hpath
      exact ⟨s', hlead', refused_of_stands hspelled he h hword (hs.draft.track ▸ htrack) habreast,
        rfl⟩
  · exact hearlier

/-- **Comments directly behind elements.** In a source, a block comment is put directly behind an
element, wherever a turn may read one. If it is a note, or if the reading does not get there, the
document comes to the same library, or to an error of the same kind in the same source. If it is a
word that the reading gets to, the document is refused there, because the comment is taken as a part
of the word. -/
theorem parse_insert_comment (read read' : Provider) (o : Options) (root source : SourcePath)
    (element : Element) (front back body : List Char) {c g e : Cursor}
    (hread : read source = .ok (.ofList (front ++ back)))
    (hread' : read' source = .ok (.ofList (front ++ (blockComment body ++ back))))
    (hothers : ∀ path : SourcePath, path.Normal → path ≠ source → read' path = read path)
    (hbody : ¬ ['*', '/'] <:+: body)
    (hcourse : Course source (.ofText (.ofList (front ++ back))) c)
    (hstands : Stands source c element g e) (he : e.rest = back) :
    (element = .note ∨ ¬ Arrives read o root source element c →
      SameOutcome (parse read o root) (parse read' o root)) ∧
    (element ≠ .note → Arrives read o root source element c →
      ∃ x, parse read' o root = .error x ∧ x.source = some source ∧ element.Refuses x.kind) := by
  have hc : OnCourse read ⟨source, c⟩ := ⟨_, hread, hcourse⟩
  obtain ⟨spelling, hspelled, -⟩ := hstands.covers
  obtain ⟨before, hbefore, -⟩ := hcourse.reaches.trans hstands.reaches
  rw [he] at hspelled
  have hfront : front = before ++ spelling := by
    rw [hspelled, ← List.append_assoc] at hbefore
    exact List.append_cancel_right (String.toList_ofList.symm.trans hbefore)
  have hprovide : ∀ path : SourcePath, path.Normal →
      ProvideAlike read read' (bySource (Facing element source spelling body back) []) path :=
    fun path => provideAlike_commented hread hread' hothers hfront
  constructor
  · intro hunread
    refine parse_alike (b := .blind) rfl hprovide ?_
    intro text u u' hroot hlead hu
    rcases matches_or_refused hbody hstands hspelled he hc (hlead.onCourse hroot) hu with
      hpassage | ⟨hword, hplace, htrack, -⟩
    · exact hpassage
    · rcases hunread with hnote | hnever
      · exact absurd hnote hword
      · exact absurd ⟨text, u, hroot, hlead, hplace, htrack⟩ hnever
  · intro hword harrives
    obtain ⟨text, s, hroot, hlead, hplace, htrack⟩ := harrives
    rcases hprovide root.normalize root.normal_normalize with
      ⟨fault, hfault, -⟩ | ⟨_, text', hfound, hroot', hstart⟩
    · rw [hroot] at hfault
      cases hfault
    obtain rfl := Except.ok.inj (hroot.symm.trans hfound)
    have hstates : Counterparts .blind _ (.start root.normalize text)
        (.start root.normalize text') := ⟨hstart, .nil, rfl⟩
    obtain ⟨s', hlead', hs', hsource⟩ := exists_refusedAt hbody hstands hspelled he hc hprovide hword
      hroot hlead hplace htrack hstates
    exact hsource ▸ parse_of_refusedAt hroot' hlead' hs'

/-- A comment directly behind a note changes nothing, and one behind a label is refused. -/
theorem parse_insert_comment_note_label :
    parse (single "$a: c/* < **/ d") .standard ⟨"song"⟩ = .ok twoNotes ∧
      ∃ x, parse (single "@t:/* lead */\n%bpm 120\n") .standard ⟨"song"⟩ = .error x ∧
        x.source = some ⟨"song"⟩ ∧ x.kind = .invalidLabelName := by
  have hothers : ∀ text text' (path : SourcePath), path.Normal → path ≠ ⟨"song"⟩ →
      single text' path = single text path :=
    fun text text' path _ hne => by rw [single, single, if_neg hne, if_neg hne]
  constructor
  · have hplain : parse (single "$a: c d") .standard ⟨"song"⟩ = .ok twoNotes :=
      parse_of_turns 2 (single_root _) (by decide +kernel)
    have h := (parse_insert_comment (single "$a: c d") (single "$a: c/* < **/ d") .standard
      ⟨"song"⟩ ⟨"song"⟩ .note "$a: c".toList " d".toList " < *".toList (by decide +kernel)
      (by decide +kernel) (hothers _ _) (by decide) .refl stands_note rfl).1 (.inl rfl)
    rw [hplain] at h
    exact h.eq_ok
  · have hroot : (SourcePath.mk "song").normalize = ⟨"song"⟩ := by decide +kernel
    have harrives : Arrives (single "@t:\n%bpm 120\n") .standard ⟨"song"⟩ ⟨"song"⟩ .label
        (.ofText "@t:\n%bpm 120\n") :=
      ⟨_, _, single_root _, .refl, congrArg₂ OpenSource.mk hroot rfl, fun h => absurd h id⟩
    exact (parse_insert_comment (single "@t:\n%bpm 120\n") (single "@t:/* lead */\n%bpm 120\n")
      .standard ⟨"song"⟩ ⟨"song"⟩ .label "@t:".toList "\n%bpm 120\n".toList " lead ".toList
      (by decide +kernel) (by decide +kernel) (hothers _ _) (by decide) .refl stands_label rfl).2
      (by decide) harrives

/-- Directly behind a label, a comment turns a document that can be read into one that cannot. -/
theorem not_sameOutcome_of_comment_behind_label :
    ∃ c g e, Course ⟨"song"⟩ (.ofText "@t:\n%bpm 120\n") c ∧ Stands ⟨"song"⟩ c .label g e ∧
      e.rest = "\n%bpm 120\n".toList ∧ WordEnd e.rest ∧
      ¬ SameOutcome (parse (single "@t:\n%bpm 120\n") .standard ⟨"song"⟩)
        (parse (single "@t:/* lead */\n%bpm 120\n") .standard ⟨"song"⟩) := by
  have hplain : parse (single "@t:\n%bpm 120\n") .standard ⟨"song"⟩ =
      .ok ⟨[⟨"t", "", 120, []⟩], [], []⟩ :=
    parse_of_outcome 5 (single_root _) (by decide +kernel)
  have hcommented : parse (single "@t:/* lead */\n%bpm 120\n") .standard ⟨"song"⟩ =
      .error ⟨.invalidLabel "t:/*", some ⟨"song"⟩, ⟨1, 2⟩⟩ :=
    parse_of_outcome 1 (single_root _) (by decide +kernel)
  refine ⟨_, _, _, .refl, stands_label, rfl, ?_, ?_⟩
  · exact .of_beginsBlank ⟨'\n', rfl, by decide⟩
  · rw [hplain, hcommented]
    exact id

end Songsheet.Document
