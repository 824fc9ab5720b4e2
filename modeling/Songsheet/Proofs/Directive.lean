import Songsheet.Document.State
import Songsheet.Proofs.Reading

/-!
# Directives apart from what they do

A directive is read before it is carried out: what stands behind a mark is a `Directive`, and
what it does to the draft is a matter of its own. Reading it asks nothing about what has been
defined before, so that the same text gives the same directive wherever it is met.

* `Reading.definedLabel_eq_ok`, `Reading.trackAttribute_eq_ok` — when labels and attributes are
  read, and as what.
* `Reading.directive` — reads the directive that a mark begins; `Reading.directive_trackMark_eq_ok`
  and its like say when, for each mark.
* `Draft.obey?` — what a directive does to a draft, unless it is refused.
* `Draft.readTrack_eq_ok`, `Draft.readSequence_eq_ok`, `Draft.readAttribute_eq_ok` — reading
  into a draft succeeds exactly if the directive can be read and is not refused.
-/

namespace Songsheet

/-! ## What directives are made of -/

namespace Reading

variable {c d : Cursor}

theorem definedLabel_eq_ok {label : String} :
    definedLabel c = .ok label d ↔
      ∃ text, word c = .ok text d ∧ labelDefinedBy? text = some label := by
  simp only [definedLabel, bind_eq_ok, position_eq_ok]
  constructor
  · intro h
    obtain ⟨_, _, ⟨rfl, rfl⟩, text, e, hword, h⟩ := h
    cases hlabel : labelDefinedBy? text with
    | none =>
      simp only [hlabel] at h
      exact absurd h fail_ne_ok
    | some found =>
      simp only [hlabel] at h
      obtain ⟨rfl, rfl⟩ := pure_eq_ok.1 h
      exact ⟨text, hword, hlabel⟩
  · intro h
    obtain ⟨text, hword, hlabel⟩ := h
    refine ⟨_, _, ⟨rfl, rfl⟩, text, d, hword, ?_⟩
    simp only [hlabel]
    rfl

theorem reference_eq_ok {source : SourcePath} {r : Reference} :
    reference source c = .ok r d ↔
      ∃ e, word c = .ok r.label e ∧ isLabel r.label ∧ skipGap e = .ok () d ∧
        r.site = ⟨source, c.position⟩ := by
  obtain ⟨label, site⟩ := r
  simp only [reference, bind_eq_ok, position_eq_ok]
  constructor
  · intro h
    obtain ⟨_, _, ⟨rfl, rfl⟩, text, e, hword, h⟩ := h
    split at h
    · rename_i hlabel
      simp only [bind_eq_ok, pure_eq_ok, Reference.mk.injEq] at h
      obtain ⟨_, _, hgap, ⟨rfl, rfl⟩, rfl⟩ := h
      exact ⟨e, hword, hlabel, hgap, rfl⟩
    · exact absurd h fail_ne_ok
  · intro h
    obtain ⟨e, hword, hlabel, hgap, rfl⟩ := h
    refine ⟨_, _, ⟨rfl, rfl⟩, label, e, hword, ?_⟩
    rw [if_pos hlabel]
    exact bind_eq_ok.2 ⟨(), d, hgap, rfl⟩

theorem tempo_eq_ok {beats : UInt32} :
    tempo c = .ok beats d ↔
      ∃ numeral n, digits c = .ok numeral d ∧ Text.decimalBelow? UInt32.size numeral = some n ∧
        beats = UInt32.ofNat n := by
  simp only [tempo, bind_eq_ok, position_eq_ok]
  constructor
  · intro h
    obtain ⟨_, _, ⟨rfl, rfl⟩, numeral, e, hdigits, h⟩ := h
    cases hn : Text.decimalBelow? UInt32.size numeral with
    | none =>
      simp only [hn] at h
      exact absurd h fail_ne_ok
    | some n =>
      simp only [hn] at h
      obtain ⟨rfl, rfl⟩ := pure_eq_ok.1 h
      exact ⟨numeral, n, hdigits, hn, rfl⟩
  · intro h
    obtain ⟨numeral, n, hdigits, hn, rfl⟩ := h
    refine ⟨_, _, ⟨rfl, rfl⟩, numeral, d, hdigits, ?_⟩
    simp only [hn]
    rfl

/-- Behind its name, an attribute goes on with a gap; the name is looked up only then. -/
theorem trackAttribute_of_word {source : SourcePath} {text : String} {e : Cursor}
    (h : word c = .ok text e) :
    trackAttribute source c = (do
      skipGap
      match AttributeName.ofWord? text with
      | some kind => attributeValue source kind
      | none => fail (.unknownAttribute text) c.position : Reading Attribute) e := by
  have hbehind (f : String → Reading Attribute) : (word >>= f) c = f text e := by
    rw [bind_apply, h]
  rw [trackAttribute, bind_apply]
  exact hbehind _

theorem trackAttribute_eq_ok {source : SourcePath} {value : Attribute} :
    trackAttribute source c = .ok value d ↔
      ∃ text e₁ e₂ kind, word c = .ok text e₁ ∧ skipGap e₁ = .ok () e₂ ∧
        AttributeName.ofWord? text = some kind ∧ attributeValue source kind e₂ = .ok value d := by
  simp only [trackAttribute, bind_eq_ok, position_eq_ok]
  constructor
  · intro h
    obtain ⟨_, _, ⟨rfl, rfl⟩, text, e₁, hword, _, e₂, hskip, h⟩ := h
    cases hkind : AttributeName.ofWord? text with
    | none =>
      simp only [hkind] at h
      exact absurd h fail_ne_ok
    | some kind =>
      simp only [hkind] at h
      exact ⟨text, e₁, e₂, kind, hword, hskip, hkind, h⟩
  · intro h
    obtain ⟨text, e₁, e₂, kind, hword, hskip, hkind, h⟩ := h
    refine ⟨_, _, ⟨rfl, rfl⟩, text, e₁, hword, (), e₂, hskip, ?_⟩
    simp only [hkind]
    exact h

end Reading

/-! ## Directives -/

/-- A directive as it is read: a label with the place where it is defined, for a sequence its
notes as well, or an attribute. -/
inductive Directive where
  | track (label : String) (site : Site)
  | sequence (label : String) (site : Site) (notes : List WrittenNote)
  | describe (value : Attribute)
  deriving DecidableEq, Repr

/-- Reads the directive that a mark begins; no other token begins one. -/
def Reading.directive (source : SourcePath) (mark : TokenKind) : Reading Directive := do
  let start ← Reading.position
  match mark with
  | .trackMark => return .track (← definedLabel) ⟨source, start⟩
  | .sequenceMark => return .sequence (← definedLabel) ⟨source, start⟩ (← notes)
  | .attributeMark => return .describe (← trackAttribute source)
  | found => Reading.fail (.expectedDirective found) start

theorem Reading.forward_directive (source : SourcePath) (mark : TokenKind) :
    (directive source mark).Forward := by
  refine forward_bind forward_position fun start => ?_
  split
  · exact forward_bind forward_definedLabel fun _ => forward_pure _
  · exact forward_bind forward_definedLabel fun _ => forward_bind forward_notes fun _ =>
      forward_pure _
  · exact forward_bind (forward_trackAttribute _) fun _ => forward_pure _
  · exact forward_fail _ _

theorem Reading.mark_of_directive {source : SourcePath} {mark : TokenKind} {c d : Cursor}
    {x : Directive} (h : directive source mark c = .ok x d) :
    mark = .trackMark ∨ mark = .sequenceMark ∨ mark = .attributeMark := by
  obtain ⟨start, e, _, h⟩ := bind_eq_ok.1 h
  split at h
  · exact .inl rfl
  · exact .inr (.inl rfl)
  · exact .inr (.inr rfl)
  · exact absurd h fail_ne_ok

namespace Reading

variable {source : SourcePath} {c d : Cursor} {x : Directive}

theorem directive_trackMark_eq_ok :
    directive source .trackMark c = .ok x d ↔
      ∃ label, definedLabel c = .ok label d ∧ x = .track label ⟨source, c.position⟩ := by
  simp only [directive, bind_eq_ok, position_eq_ok, pure_eq_ok]
  constructor
  · rintro ⟨_, _, ⟨rfl, rfl⟩, label, _, hlabel, rfl, rfl⟩
    exact ⟨label, hlabel, rfl⟩
  · rintro ⟨label, hlabel, rfl⟩
    exact ⟨_, _, ⟨rfl, rfl⟩, label, d, hlabel, rfl, rfl⟩

theorem directive_sequenceMark_eq_ok :
    directive source .sequenceMark c = .ok x d ↔
      ∃ label e written, definedLabel c = .ok label e ∧ notes e = .ok written d ∧
        x = .sequence label ⟨source, c.position⟩ written := by
  simp only [directive, bind_eq_ok, position_eq_ok, pure_eq_ok]
  constructor
  · rintro ⟨_, _, ⟨rfl, rfl⟩, label, e, hlabel, written, _, hnotes, rfl, rfl⟩
    exact ⟨label, e, written, hlabel, hnotes, rfl⟩
  · rintro ⟨label, e, written, hlabel, hnotes, rfl⟩
    exact ⟨_, _, ⟨rfl, rfl⟩, label, e, hlabel, written, d, hnotes, rfl, rfl⟩

theorem directive_attributeMark_eq_ok :
    directive source .attributeMark c = .ok x d ↔
      ∃ value, trackAttribute source c = .ok value d ∧ x = .describe value := by
  simp only [directive, bind_eq_ok, position_eq_ok, pure_eq_ok]
  constructor
  · rintro ⟨_, _, ⟨rfl, rfl⟩, value, _, hvalue, rfl, rfl⟩
    exact ⟨value, hvalue, rfl⟩
  · rintro ⟨value, hvalue, rfl⟩
    exact ⟨_, _, ⟨rfl, rfl⟩, value, d, hvalue, rfl, rfl⟩

end Reading

/-! ## What directives do -/

namespace Draft

/-- What a directive does to a draft. A label that is defined already is refused, and so is an
attribute where no track is being described. -/
def obey? (draft : Draft) : Directive → Option Draft
  | .track label site =>
    (draft.labels.define label .track site).toOption.map (draft.addTrack · label)
  | .sequence label site notes =>
    (draft.labels.define label .sequence site).toOption.map (draft.addSequence · label notes)
  | .describe value => draft.track.map (draft.setAttribute · value)

theorem obey?_track {draft e : Draft} {label : String} {site : Site} :
    draft.obey? (.track label site) = some e ↔
      ∃ labels, draft.labels.define label .track site = .ok labels ∧
        e = draft.addTrack labels label := by
  rw [obey?]
  cases draft.labels.define label .track site <;> simp [Except.toOption, eq_comm]

theorem obey?_sequence {draft e : Draft} {label : String} {site : Site}
    {notes : List WrittenNote} :
    draft.obey? (.sequence label site notes) = some e ↔
      ∃ labels, draft.labels.define label .sequence site = .ok labels ∧
        e = draft.addSequence labels label notes := by
  rw [obey?]
  cases draft.labels.define label .sequence site <;> simp [Except.toOption, eq_comm]

theorem obey?_describe {draft e : Draft} {value : Attribute} :
    draft.obey? (.describe value) = some e ↔
      ∃ i, draft.track = some i ∧ e = draft.setAttribute i value := by
  rw [obey?]
  cases draft.track <;> simp [eq_comm]

theorem readLabel_eq_ok {draft : Draft} {source : SourcePath} {kind : LabelKind}
    {c d : Cursor} {labels : Registry} {label : String} :
    draft.readLabel source kind c = .ok (labels, label) d ↔
      Reading.definedLabel c = .ok label d ∧
        draft.labels.define label kind ⟨source, c.position⟩ = .ok labels := by
  simp only [readLabel, Reading.bind_eq_ok, Reading.position_eq_ok, Reading.ofExcept_eq_ok,
    Reading.pure_eq_ok, Prod.mk.injEq]
  constructor
  · intro h
    obtain ⟨_, _, ⟨rfl, rfl⟩, _, _, hl, _, _, ⟨hd, rfl⟩, ⟨rfl, rfl⟩, rfl⟩ := h
    exact ⟨hl, hd⟩
  · intro h
    obtain ⟨hl, hd⟩ := h
    exact ⟨_, _, ⟨rfl, rfl⟩, _, _, hl, _, _, ⟨hd, rfl⟩, ⟨rfl, rfl⟩, rfl⟩

theorem readTrack_eq_ok {draft e : Draft} {source : SourcePath} {c d : Cursor} :
    draft.readTrack source c = .ok e d ↔
      ∃ x, Reading.directive source .trackMark c = .ok x d ∧ draft.obey? x = some e := by
  simp only [readTrack, Reading.directive, Reading.bind_eq_ok, Reading.position_eq_ok,
    Reading.pure_eq_ok, Prod.exists, readLabel_eq_ok]
  constructor
  · intro h
    obtain ⟨labels, label, _, ⟨hl, hd⟩, rfl, rfl⟩ := h
    exact ⟨_, ⟨_, _, ⟨rfl, rfl⟩, _, _, hl, rfl, rfl⟩, obey?_track.2 ⟨labels, hd, rfl⟩⟩
  · intro h
    obtain ⟨_, ⟨_, _, ⟨rfl, rfl⟩, label, _, hl, rfl, rfl⟩, ho⟩ := h
    obtain ⟨labels, hd, rfl⟩ := obey?_track.1 ho
    exact ⟨labels, label, _, ⟨hl, hd⟩, rfl, rfl⟩

theorem readSequence_eq_ok {draft e : Draft} {source : SourcePath} {c d : Cursor} :
    draft.readSequence source c = .ok e d ↔
      ∃ x, Reading.directive source .sequenceMark c = .ok x d ∧ draft.obey? x = some e := by
  simp only [readSequence, Reading.directive, Reading.bind_eq_ok, Reading.position_eq_ok,
    Reading.pure_eq_ok, Prod.exists, readLabel_eq_ok]
  constructor
  · intro h
    obtain ⟨labels, label, _, ⟨hl, hd⟩, notes, _, hn, rfl, rfl⟩ := h
    exact ⟨_, ⟨_, _, ⟨rfl, rfl⟩, _, _, hl, _, _, hn, rfl, rfl⟩,
      obey?_sequence.2 ⟨labels, hd, rfl⟩⟩
  · intro h
    obtain ⟨_, ⟨_, _, ⟨rfl, rfl⟩, label, _, hl, notes, _, hn, rfl, rfl⟩, ho⟩ := h
    obtain ⟨labels, hd, rfl⟩ := obey?_sequence.1 ho
    exact ⟨labels, label, _, ⟨hl, hd⟩, notes, _, hn, rfl, rfl⟩

theorem readAttribute_eq_ok {draft e : Draft} {source : SourcePath} {mark : Position}
    {c d : Cursor} :
    draft.readAttribute source mark c = .ok e d ↔
      ∃ x, Reading.directive source .attributeMark c = .ok x d ∧ draft.obey? x = some e := by
  simp only [Reading.directive, Reading.bind_eq_ok, Reading.position_eq_ok, Reading.pure_eq_ok]
  cases ht : draft.track with
  | none =>
    simp only [readAttribute, ht, Reading.fail_ne_ok, false_iff]
    intro h
    obtain ⟨_, ⟨_, _, ⟨rfl, rfl⟩, _, _, _, rfl, rfl⟩, ho⟩ := h
    obtain ⟨i, hi, -⟩ := obey?_describe.1 ho
    simp [ht] at hi
  | some index =>
    simp only [readAttribute, ht, Reading.bind_eq_ok, Reading.pure_eq_ok]
    constructor
    · intro h
      obtain ⟨value, _, hv, rfl, rfl⟩ := h
      exact ⟨_, ⟨_, _, ⟨rfl, rfl⟩, _, _, hv, rfl, rfl⟩, obey?_describe.2 ⟨index, ht, rfl⟩⟩
    · intro h
      obtain ⟨_, ⟨_, _, ⟨rfl, rfl⟩, value, _, hv, rfl, rfl⟩, ho⟩ := h
      obtain ⟨i, hi, rfl⟩ := obey?_describe.1 ho
      obtain rfl : index = i := Option.some.inj (ht.symm.trans hi)
      exact ⟨value, _, hv, rfl, rfl⟩

end Draft

end Songsheet
