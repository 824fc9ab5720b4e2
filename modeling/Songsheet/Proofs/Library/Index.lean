import Songsheet.Library

/-!
# The index of a library

The index notes for each label where its first sequence stands. It is kept beside the list of
sequences and is never searched for there, so it has to stay in step with the list.

* `Library.Indexed` — the index answers as a search of the list would.
* `indexed_addTrack`, `indexed_addSequence`, `indexed_modifyTrack` — every operation keeps it so.
* `Indexed.sequenceIndex?_label` — where labels are distinct, each sequence is found at its place.
-/

namespace Songsheet.Library

/-- The index of a library answers with the place of the first sequence of each label. -/
def Indexed (l : Library) : Prop :=
  ∀ label, l.sequenceIndex? label = l.sequences.findIdx? (·.label == label)

theorem lookup_noteIndex (index : List (String × Nat)) (label sought : String) (place : Nat) :
    (noteIndex index label place).lookup sought =
      (index.lookup sought).or (if sought = label then some place else none) := by
  unfold noteIndex
  cases hl : index.lookup label with
  | none =>
    rw [List.lookup_append, List.lookup_cons]
    by_cases hs : sought = label
    · simp [hs]
    · simp [beq_false_of_ne hs, hs]
  | some i =>
    by_cases hs : sought = label
    · subst hs
      simp [hl]
    · simp [hs]

theorem indexed_empty : empty.Indexed := by
  intro label
  rfl

theorem indexed_addTrack {l : Library} (h : l.Indexed) (t : Track) :
    (l.addTrack t).2.Indexed :=
  h

theorem indexed_modifyTrack {l : Library} (h : l.Indexed) (i : Nat) (f : Track → Track) :
    (l.modifyTrack i f).Indexed :=
  h

theorem indexed_addSequence {l : Library} (h : l.Indexed) (s : NoteSequence) :
    (l.addSequence s).2.Indexed := by
  intro label
  have hl := h label
  simp only [sequenceIndex?] at hl
  simp only [sequenceIndex?, addSequence, lookup_noteIndex, List.findIdx?_append, hl]
  by_cases hs : label = s.label
  · simp [hs]
  · have hne : ¬ s.label = label := fun h => hs h.symm
    simp [hs, hne]

/-- A sequence with a label is found under it, and it carries the label. -/
theorem Indexed.sequenceByLabel? {l : Library} (h : l.Indexed) {label : String}
    (hl : label ∈ l.sequences.map (·.label)) :
    ∃ s, l.sequenceByLabel? label = some s ∧ s.label = label := by
  have hfind : l.sequenceByLabel? label = l.sequences.find? (·.label == label) := by
    rw [Library.sequenceByLabel?, h, List.find?_eq_bind_findIdx?_getElem?]
    rfl
  obtain ⟨s, hs, hlabel⟩ := List.mem_map.1 hl
  have hsome : (l.sequences.find? (·.label == label)).isSome :=
    List.find?_isSome.2 ⟨s, hs, by simpa using hlabel⟩
  obtain ⟨first, hfirst⟩ := Option.isSome_iff_exists.1 hsome
  exact ⟨first, hfind.trans hfirst, by simpa using List.find?_some hfirst⟩

/-- Where no label is repeated, the index of a label is the place of its one sequence. -/
theorem Indexed.sequenceIndex?_label {l : Library} (h : l.Indexed)
    (hdistinct : (l.sequences.map (·.label)).Nodup) {i : Nat} {s : NoteSequence}
    (hs : l.sequences[i]? = some s) : l.sequenceIndex? s.label = some i := by
  obtain ⟨hi, rfl⟩ := List.getElem?_eq_some_iff.1 hs
  rw [h, List.findIdx?_eq_some_iff_getElem]
  refine ⟨hi, by simp, ?_⟩
  intro j hj
  have hne := List.pairwise_iff_getElem.1 hdistinct j i (by simp; omega) (by simpa using hi) hj
  simpa using hne

end Songsheet.Library
