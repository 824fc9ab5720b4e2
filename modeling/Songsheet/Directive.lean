import Songsheet.Label
import Songsheet.Library
import Songsheet.Note.Reader

/-!
# Directives

Besides includes a document has three directives: `@label:` begins a track, `%name`, `%bpm`
and `%channel` describe the track that was begun last, and `$label:` begins a sequence, whose
notes follow. What they build is a `Draft`, which outlives the end of each source.

* `Reading.definedLabel`, `Reading.trackAttribute`, `Reading.notes` — what the directives are made
  of.
* `Draft.readTrack`, `Draft.readSequence`, `Draft.readAttribute` — read what follows the mark of a
  directive and add it to the draft.
-/

namespace Songsheet

/-! ## Parts of directives -/

/-- An attribute of a track, with its value. -/
inductive Attribute where
  | name (text : String)
  | tempo (beatsPerMinute : UInt32)
  | channel (references : List Reference)
  deriving DecidableEq, Repr

/-- The attributes that a track may have. -/
inductive AttributeName where
  | name
  | tempo
  | channel
  deriving DecidableEq, Repr

/-- The attribute that a word names; the case of its letters does not matter. -/
def AttributeName.ofWord? (word : String) : Option AttributeName :=
  let lower := word.toList.map Char.toLower
  if lower = "name".toList then some .name
  else if lower = "bpm".toList then some .tempo
  else if lower = "channel".toList then some .channel
  else none

/-- The label that a word such as `melody:` defines. -/
def labelDefinedBy? (word : String) : Option String :=
  let label := String.ofList word.toList.dropLast
  if word.toList.getLast? = some ':' ∧ isLabel label then some label else none

namespace Reading

/-- Reads the word that defines a label. -/
def definedLabel : Reading String := do
  let start ← position
  let text ← word
  match labelDefinedBy? text with
  | some label => return label
  | none => fail (.invalidLabel text) start

/-- Reads one reference to a label and the gap behind it. -/
def reference (source : SourcePath) : Reading Reference := do
  let start ← position
  let label ← word
  if isLabel label then do
    skipGap
    return ⟨label, ⟨source, start⟩⟩
  else fail (.invalidLabel label) start

/-- Whether another reference follows: the next character is an ASCII letter or an
underscore. -/
def moreReferences (c : Cursor) : Bool :=
  c.peek?.any fun next => next.isAlpha || next == '_'

theorem length_of_word {c d : Cursor} {text : String} (h : word c = .ok text d)
    (ht : text.toList ≠ []) : d.rest.length < c.rest.length := by
  simp only [word, run, Cursor.past, EStateM.Result.ok.injEq] at h
  rw [← h.1, String.toList_ofList] at ht
  have hsplit := congrArg List.length
    (List.takeWhile_append_dropWhile (p := fun x => !Text.isBlank x) (l := c.rest))
  have hpos := List.length_pos_iff.2 ht
  rw [List.length_append] at hsplit
  rw [← h.2]
  dsimp only
  omega

theorem reference_apply (source : SourcePath) (c : Cursor) :
    reference source c = match word c with
      | .error e d => .error e d
      | .ok label d =>
        if isLabel label then match skipGap d with
          | .error e d' => .error e d'
          | .ok _ d' => .ok ⟨label, ⟨source, c.position⟩⟩ d'
        else .error ((Cause.invalidLabel label).reportedAt c.position) d := by
  simp only [reference, bind_apply, position]
  cases word c with
  | error e d => rfl
  | ok label d =>
    dsimp only
    split
    · rw [bind_apply]
      cases skipGap d <;> rfl
    · rfl

theorem length_of_reference {source : SourcePath} {c d : Cursor} {r : Reference}
    (h : reference source c = .ok r d) : d.rest.length < c.rest.length := by
  rw [reference_apply] at h
  cases hw : word c with
  | error e d' => rw [hw] at h; simp at h
  | ok label d' =>
    rw [hw] at h
    dsimp only at h
    split at h
    · rename_i hl
      have hlt := length_of_word hw (toList_ne_nil_of_isLabel hl)
      cases hg : skipGap d' with
      | error e d'' => rw [hg] at h; simp at h
      | ok _ d'' =>
        rw [hg] at h
        simp only [EStateM.Result.ok.injEq] at h
        have := (forward_skipGap.ok hg).length_le
        rw [← h.2]
        omega
    · simp at h

/-- Reads the references of a channel: at least one, and on as long as another follows. -/
def references (source : SourcePath) : Reading (List Reference) := fun c =>
  match _h : reference source c with
  | .error e d => .error e d
  | .ok r d =>
    if moreReferences d then match references source d with
      | .error e d' => .error e d'
      | .ok rs d' => .ok (r :: rs) d'
    else .ok [r] d
termination_by c => c.rest.length
decreasing_by exact length_of_reference _h

/-- Reads the tempo of a track. -/
def tempo : Reading UInt32 := do
  let start ← position
  let numeral ← digits
  match Text.decimalBelow? UInt32.size numeral with
  | some n => return UInt32.ofNat n
  | none => fail (.invalidTempo numeral) start

/-- Reads the value of an attribute. -/
def attributeValue (source : SourcePath) : AttributeName → Reading Attribute
  | .name => do return .name (← quotedText)
  | .tempo => do return .tempo (← tempo)
  | .channel => do return .channel (← references source)

/-- Reads an attribute: its name, the gap behind it and its value. -/
def trackAttribute (source : SourcePath) : Reading Attribute := do
  let start ← position
  let text ← word
  skipGap
  match AttributeName.ofWord? text with
  | some kind => attributeValue source kind
  | none => fail (.unknownAttribute text) start

/-- Reads notes as they are written, as long as a key character follows the gap. Where one does, a
note is written or reading it fails (`writtenNote_ne_none`), so that the branch for no note is never
taken; it does not say what a loop over `note` would do there, which is to go on behind a note that
stands for no note. -/
def notes : Reading (List WrittenNote) := fun c =>
  match _hg : skipGap c with
  | .error e d => .error e d
  | .ok _ d =>
    match _hp : d.peek? with
    | none => .ok [] d
    | some first =>
      if _hk : isKeyChar first then match _hn : writtenNote d with
        | .error e d' => .error e d'
        | .ok none d' => .ok [] d'
        | .ok (some w) d' => match notes d' with
          | .error e d'' => .error e d''
          | .ok ws d'' => .ok (w :: ws) d''
      else .ok [] d
termination_by c => c.rest.length
decreasing_by
  have := (forward_skipGap.ok _hg).length_le
  have := length_of_writtenNote _hp _hk _hn
  omega

theorem forward_definedLabel : Forward definedLabel := by
  refine forward_bind forward_position fun _ => forward_bind forward_word fun text => ?_
  split
  · exact forward_pure _
  · exact forward_fail _ _

theorem forward_reference (source : SourcePath) : Forward (reference source) := by
  refine forward_bind forward_position fun _ => forward_bind forward_word fun label => ?_
  split
  · exact forward_bind forward_skipGap fun _ => forward_pure _
  · exact forward_fail _ _

theorem forward_references (source : SourcePath) : Forward (references source) := by
  intro c
  have hr := fun c => forward_reference source c
  fun_induction references source c with
  | case1 c e d h =>
    have := hr c
    rw [h] at this
    exact this
  | case2 c r d h hm e d' hd ih =>
    rw [hd] at ih
    exact ((forward_reference source).ok h).trans ih
  | case3 c r d h hm rs d' hd ih =>
    rw [hd] at ih
    exact ((forward_reference source).ok h).trans ih
  | case4 c r d h hm => exact (forward_reference source).ok h

theorem forward_tempo : Forward tempo := by
  refine forward_bind forward_position fun _ => forward_bind forward_digits fun _ => ?_
  split
  · exact forward_pure _
  · exact forward_fail _ _

theorem forward_attributeValue (source : SourcePath) (kind : AttributeName) :
    Forward (attributeValue source kind) := by
  cases kind
  · exact forward_bind forward_quotedText fun _ => forward_pure _
  · exact forward_bind forward_tempo fun _ => forward_pure _
  · exact forward_bind (forward_references source) fun _ => forward_pure _

theorem forward_trackAttribute (source : SourcePath) : Forward (trackAttribute source) := by
  refine forward_bind forward_position fun _ => forward_bind forward_word fun _ =>
    forward_bind forward_skipGap fun _ => ?_
  split
  · exact forward_attributeValue _ _
  · exact forward_fail _ _

theorem forward_notes : Forward notes := by
  intro c
  fun_induction notes c with
  | case1 c e d h =>
    have hc := forward_skipGap c
    rw [h] at hc
    exact hc
  | case2 c _ d h _ => exact forward_skipGap.ok h
  | case3 c _ d h first _ _ e d' hn =>
    have hd := forward_writtenNote d
    rw [hn] at hd
    exact (forward_skipGap.ok h).trans hd
  | case4 c _ d h first _ _ d' hn =>
    exact (forward_skipGap.ok h).trans (forward_writtenNote.ok hn)
  | case5 c _ d h first _ _ w d' hn e d'' hns ih =>
    rw [hns] at ih
    exact (forward_skipGap.ok h).trans ((forward_writtenNote.ok hn).trans ih)
  | case6 c _ d h first _ _ w d' hn ws d'' hns ih =>
    rw [hns] at ih
    exact (forward_skipGap.ok h).trans ((forward_writtenNote.ok hn).trans ih)
  | case7 c _ d h first _ _ => exact forward_skipGap.ok h

end Reading

/-! ## Drafts -/

/-- What the sources read so far have defined, the track that attributes describe, and the
note whose octave and duration the next note inherits. -/
structure Draft where
  library : Library
  labels : Registry
  track : Option Nat
  lastNote : Note
  deriving DecidableEq, Repr

namespace Draft

/-- The draft of a document of which nothing has been read. -/
def empty : Draft := ⟨.empty, .empty, none, .middleC⟩

/-- Begins a track. -/
def addTrack (draft : Draft) (labels : Registry) (label : String) : Draft :=
  let (index, library) := draft.library.addTrack (.ofLabel label)
  { draft with library, labels, track := some index }

/-- Adds a sequence of the notes that were written for it, less those that stand for no note.
Attributes then describe no track. -/
def addSequence (draft : Draft) (labels : Registry) (label : String)
    (written : List WrittenNote) : Draft :=
  let notes := sounding draft.lastNote written
  let (_, library) := draft.library.addSequence ⟨label, notes.filter fun n => !n.isEmpty⟩
  { library, labels, track := none, lastNote := notes.getLastD draft.lastNote }

/-- Gives an attribute to a track. -/
def setAttribute (draft : Draft) (index : Nat) : Attribute → Draft
  | .name text =>
    { draft with library := draft.library.modifyTrack index ({ · with name := text }) }
  | .tempo beats =>
    { draft with library := draft.library.modifyTrack index ({ · with tempo := beats }) }
  | .channel references =>
    { draft with
      labels := draft.labels.referAll references
      library := draft.library.modifyTrack index fun t =>
        { t with channels := t.channels ++ [references.map (·.label)] } }

/-- Reads the label of a definition and registers it. -/
def readLabel (draft : Draft) (source : SourcePath) (kind : LabelKind) :
    Reading (Registry × String) := do
  let start ← Reading.position
  let label ← Reading.definedLabel
  let labels ← Reading.ofExcept (draft.labels.define label kind ⟨source, start⟩)
  return (labels, label)

/-- Reads what follows an `@`. -/
def readTrack (draft : Draft) (source : SourcePath) : Reading Draft := do
  let (labels, label) ← draft.readLabel source .track
  return draft.addTrack labels label

/-- Reads what follows a `$`. -/
def readSequence (draft : Draft) (source : SourcePath) : Reading Draft := do
  let (labels, label) ← draft.readLabel source .sequence
  let written ← Reading.notes
  return draft.addSequence labels label written

/-- Reads what follows a `%`, which stands at `mark`. -/
def readAttribute (draft : Draft) (source : SourcePath) (mark : Position) : Reading Draft :=
  match draft.track with
  | some index => do
    let value ← Reading.trackAttribute source
    return draft.setAttribute index value
  | none => Reading.fail .missingTrack mark

theorem forward_readLabel (draft : Draft) (source : SourcePath) (kind : LabelKind) :
    (draft.readLabel source kind).Forward :=
  Reading.forward_bind Reading.forward_position fun _ =>
    Reading.forward_bind Reading.forward_definedLabel fun _ =>
      Reading.forward_bind (Reading.forward_ofExcept _) fun _ => Reading.forward_pure _

theorem forward_readTrack (draft : Draft) (source : SourcePath) :
    (draft.readTrack source).Forward :=
  Reading.forward_bind (draft.forward_readLabel source .track) fun _ => Reading.forward_pure _

theorem forward_readSequence (draft : Draft) (source : SourcePath) :
    (draft.readSequence source).Forward :=
  Reading.forward_bind (draft.forward_readLabel source .sequence) fun _ =>
    Reading.forward_bind Reading.forward_notes fun _ => Reading.forward_pure _

theorem forward_readAttribute (draft : Draft) (source : SourcePath) (mark : Position) :
    (draft.readAttribute source mark).Forward := by
  unfold readAttribute
  split
  · exact Reading.forward_bind (Reading.forward_trackAttribute source) fun _ =>
      Reading.forward_pure _
  · exact Reading.forward_fail _ _

end Draft

end Songsheet
