import Songsheet.Proofs.Directive.Text

/-!
# Spelling items

Every item of the right form can be spelled: its text is written out with a blank in front of each
of its parts and a line break behind it. A duration is spelled in 256ths of a bar, which every
duration is a number of, and a quotation mark in a name is doubled.

* `NoteForm.spelled`, `Item.spelled` — the texts.
* `noteText_spelled`, `itemText_spelled` — they are texts of their notes and items.
-/

namespace Songsheet

variable {rest : List Char}

/-! ## Spelling notes -/

namespace NoteForm

/-- The octave of a note in digits, if it is written. -/
def spelledOctave (f : NoteForm) : List Char :=
  match f.octave with
  | none => []
  | some n => n.toNat.repr.toList

/-- The duration of a note in 256ths of a bar, if it is written. -/
def spelledDuration (f : NoteForm) : List Char :=
  match f.duration with
  | none => []
  | some d => '[' :: (d.parts.repr.toList ++ '/' :: (Duration.partsPerBar.repr.toList ++ [']']))

/-- A note as it is spelled. -/
def spelled (f : NoteForm) : List Char :=
  f.key.toList ++ (f.spelledOctave ++ f.spelledDuration)

end NoteForm

/-- The bars and the fraction of a duration, from its 256ths. -/
theorem Duration.ofNat_parts (d : Duration) :
    (⟨UInt8.ofNat (d.parts / 256), UInt8.ofNat (256 * d.parts / 256 % 256)⟩ : Duration) = d := by
  obtain ⟨bars, fraction⟩ := d
  have hf := fraction.toNat_lt
  have hbars : Duration.parts ⟨bars, fraction⟩ / 256 = bars.toNat := by
    simp only [Duration.parts, Duration.partsPerBar]
    omega
  have hfraction : 256 * Duration.parts ⟨bars, fraction⟩ / 256 % 256 = fraction.toNat := by
    simp only [Duration.parts, Duration.partsPerBar]
    omega
  rw [hbars, hfraction, UInt8.ofNat_toNat, UInt8.ofNat_toNat]

theorem octaveText_spelled (f : NoteForm) (rest : List Char) :
    OctaveText f.octave (f.spelledOctave ++ rest) rest := by
  unfold NoteForm.spelledOctave
  cases f.octave with
  | none => exact .absent
  | some n =>
    have htext : OctaveText (some (UInt8.ofNat n.toNat)) (n.toNat.repr.toList ++ rest) rest :=
      .given (Text.decimalBelow?_repr n.toNat_lt) .nothing
    rwa [UInt8.ofNat_toNat] at htext

theorem durationText_spelled (f : NoteForm) (rest : List Char) :
    DurationText f.duration (f.spelledDuration ++ rest) rest := by
  unfold NoteForm.spelledDuration
  cases f.duration with
  | none => exact .absent
  | some d =>
    have hparts : d.parts < UInt32.size := Nat.lt_trans d.parts_lt (by decide)
    have hwhole : Duration.partsPerBar < UInt32.size := by decide
    have htext : DurationText
        (some ⟨UInt8.ofNat (d.parts / 256), UInt8.ofNat (256 * d.parts / 256 % 256)⟩)
        ('[' :: (d.parts.repr.toList ++ '/' :: (Duration.partsPerBar.repr.toList ++ ']' :: rest)))
        rest :=
      .given (Text.decimalBelow?_repr hparts) (Text.decimalBelow?_repr hwhole) (by decide)
        d.parts_lt .nothing .nothing .nothing .nothing
    rw [d.ofNat_parts] at htext
    simpa using htext

theorem noteText_spelled (f : NoteForm) (hrest : WordEnd rest) :
    NoteText f (f.spelled ++ rest) rest := by
  refine ⟨f.spelledOctave ++ (f.spelledDuration ++ rest), by simp [NoteForm.spelled], ?_⟩
  exact ⟨_, _, .nothing, octaveText_spelled f _, durationText_spelled f rest, hrest⟩

/-- A word ends in front of parts that begin with a blank each. -/
theorem wordEnd_spaced {α : Type} (spell : α → List Char) (parts : List α) (hrest : WordEnd rest) :
    WordEnd ((parts.flatMap fun a => ' ' :: spell a) ++ rest) := by
  cases parts with
  | nil => exact hrest
  | cons a parts => exact .of_head rfl (c := ' ') (by decide)

theorem notesText_spelled {forms : List NoteForm} (h : ∀ f ∈ forms, IsKey f.key)
    (hrest : WordEnd rest) :
    NotesText forms ((forms.flatMap fun f => ' ' :: f.spelled) ++ rest) rest := by
  induction forms with
  | nil => exact .nothing
  | cons f forms ih =>
    rw [List.flatMap_cons, List.append_assoc]
    refine .note (.blank (by decide) .nothing) (h f (by simp)) ?_ (ih fun g hg => h g (by simp [hg]))
    exact noteText_spelled f (wordEnd_spaced NoteForm.spelled forms hrest)

/-! ## Spelling items -/

namespace Item

/-- An item that can be spelled: its labels are identifiers, its keys are made of key characters,
and a channel is not empty. -/
def WellFormed : Item → Prop
  | .track label => IsIdentifier label
  | .sequence label forms => IsIdentifier label ∧ ∀ f ∈ forms, IsKey f.key
  | .channel labels => labels ≠ [] ∧ ∀ label ∈ labels, IsIdentifier label
  | .name _ | .tempo _ => True

/-- An item as it is spelled. -/
def spelled : Item → List Char
  | .track label => '@' :: (label.toList ++ [':'])
  | .sequence label forms => '$' :: (label.toList ++ ':' :: forms.flatMap fun f => ' ' :: f.spelled)
  | .name text => '%' :: ("name".toList ++ ' ' :: '"' :: quoted text.toList)
  | .tempo beats => '%' :: ("bpm".toList ++ ' ' :: beats.toNat.repr.toList)
  | .channel labels => '%' :: ("channel".toList ++ labels.flatMap fun label => ' ' :: label.toList)

end Item

theorem attributeText_spelled (kind : AttributeName) (rest : List Char) :
    AttributeText kind (kind.word.toList ++ ' ' :: rest) rest := by
  refine ⟨kind.word.toList, ' ' :: rest, rfl, ?_, ⟨' ', rfl, by decide⟩, .blank (by decide) .nothing⟩
  cases kind <;> decide

theorem referencesText_spelled {label : String} {labels : List String}
    (h : ∀ l ∈ label :: labels, IsIdentifier l) (hrest : WordEnd rest) :
    ReferencesText (label :: labels)
      (label.toList ++ ((labels.flatMap fun l => ' ' :: l.toList) ++ rest)) rest := by
  induction labels generalizing label with
  | nil => exact .last (h label (by simp)) hrest
  | cons other labels ih =>
    have hbehind := ih fun l (hl : l ∈ other :: labels) => h l (List.mem_cons_of_mem _ hl)
    rw [List.flatMap_cons, List.append_assoc]
    exact .more (h label (by simp)) ⟨' ', rfl, by decide⟩ (.blank (by decide) .nothing) hbehind

/-- The spelling of an item, with a line break behind it, is its text. -/
theorem itemText_spelled {it : Item} (h : it.WellFormed) (tail : List Char) :
    ItemText it (it.spelled ++ '\n' :: tail) ('\n' :: tail) := by
  have hbreak : WordEnd ('\n' :: tail) := .of_head rfl (by decide)
  cases it with
  | track label =>
    refine .track ⟨h, ?_, hbreak⟩
    simp
  | sequence label forms =>
    obtain ⟨hlabel, hkeys⟩ := h
    have hend := wordEnd_spaced NoteForm.spelled forms hbreak
    have htext := ItemText.sequence ⟨hlabel, rfl, hend⟩ (notesText_spelled hkeys hbreak)
    simpa [Item.spelled] using htext
  | name text =>
    have hspelled := attributeText_spelled .name ('"' :: (quoted text.toList ++ '\n' :: tail))
    have htext := ItemText.name hspelled (by simp)
    simpa [Item.spelled, AttributeName.word] using htext
  | tempo beats =>
    have hvalue := Text.decimalBelow?_repr beats.toNat_lt
    have hspelled := attributeText_spelled .tempo (beats.toNat.repr.toList ++ '\n' :: tail)
    have htext := ItemText.tempo hspelled hvalue (hbreak.stops fun _ => isBlank_of_isDigit)
    rw [UInt32.ofNat_toNat] at htext
    simpa [Item.spelled, AttributeName.word] using htext
  | channel labels =>
    obtain ⟨hne, hlabels⟩ := h
    obtain ⟨label, others, rfl⟩ := List.exists_cons_of_ne_nil hne
    have hreferences := referencesText_spelled hlabels hbreak
    have htext := ItemText.channel (attributeText_spelled .channel _) hreferences
    simpa [Item.spelled, AttributeName.word] using htext

end Songsheet
