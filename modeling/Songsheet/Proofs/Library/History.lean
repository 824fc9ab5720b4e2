import Mathlib.Data.List.Induction
import Songsheet.Proofs.Library.Index

/-!
# What a library holds of its history

Tracks and sequences are added to a library in any order, and labels may be repeated. Each list holds
what was added to it, in order, and the index, which is never told of the whole list, finds the first
sequence of each label.

* `ofCalls` — the library behind a history of additions.
* `tracks_ofCalls`, `sequences_ofCalls` — the two lists; `indexed_ofCalls` — the index is in step.
* `Indexed.sequenceIndex?_eq_some_iff`, `Indexed.sequenceIndex?_eq_none_iff` — what an index in step
  says of a label.
* `library_of_calls` — what each addition does, and what the index finds behind any history.
-/

namespace Songsheet.Library

/-! ## Indexes in step -/

section Index

variable {l : Library} {label : String} {i : Nat}

/-- The least index of a sequence with a label. -/
def IsFirst (l : Library) (label : String) (i : Nat) : Prop :=
  (∃ s, l.sequence? i = some s ∧ s.label = label) ∧
    ∀ j < i, ∀ s, l.sequence? j = some s → s.label ≠ label

theorem Indexed.sequenceIndex?_eq_some_iff (h : l.Indexed) :
    l.sequenceIndex? label = some i ↔ l.IsFirst label i := by
  rw [h, List.findIdx?_eq_some_iff_getElem]
  constructor
  · rintro ⟨hi, hlabel, hbefore⟩
    refine ⟨⟨l.sequences[i], List.getElem?_eq_getElem hi, by simpa using hlabel⟩, ?_⟩
    intro j hj s hs
    obtain ⟨hlength, rfl⟩ := List.getElem?_eq_some_iff.1 hs
    simpa using hbefore j hj
  · rintro ⟨⟨s, hs, hlabel⟩, hbefore⟩
    obtain ⟨hi, rfl⟩ := List.getElem?_eq_some_iff.1 hs
    refine ⟨hi, by simpa using hlabel, ?_⟩
    intro j hj
    simpa using hbefore j hj _ (List.getElem?_eq_getElem (Nat.lt_trans hj hi))

theorem Indexed.sequenceIndex?_eq_none_iff (h : l.Indexed) :
    l.sequenceIndex? label = none ↔ ∀ s ∈ l.sequences, s.label ≠ label := by
  rw [h, List.findIdx?_eq_none_iff]
  simp

/-- A sequence with a label is the first one or stands behind it. -/
theorem Indexed.exists_le_of_label (h : l.Indexed) (hi : l.sequenceLabel? i = some label) :
    ∃ j ≤ i, l.sequenceIndex? label = some j := by
  obtain ⟨s, hs, hlabel⟩ := Option.map_eq_some_iff.1 hi
  cases hfound : l.sequenceIndex? label with
  | none =>
    have hmem : s ∈ l.sequences := List.mem_of_getElem? hs
    exact absurd hlabel (h.sequenceIndex?_eq_none_iff.1 hfound s hmem)
  | some j =>
    obtain ⟨-, hbefore⟩ := h.sequenceIndex?_eq_some_iff.1 hfound
    refine ⟨j, ?_, rfl⟩
    by_contra hgreater
    exact hbefore i (by omega) s hs hlabel

end Index

/-! ## Histories -/

/-- What is added to a library. -/
inductive Call where
  | track (t : Track)
  | sequence (s : NoteSequence)
  deriving DecidableEq, Repr

/-- The track of a call, if it adds one. -/
def Call.track? : Call → Option Track
  | .track t => some t
  | .sequence _ => none

/-- The sequence of a call, if it adds one. -/
def Call.sequence? : Call → Option NoteSequence
  | .track _ => none
  | .sequence s => some s

/-- Makes an addition; the answer is the index of what is added. -/
def answer (l : Library) : Call → Nat × Library
  | .track t => l.addTrack t
  | .sequence s => l.addSequence s

/-- The library behind a history. -/
def ofCalls (calls : List Call) : Library :=
  calls.foldl (fun l call => (l.answer call).2) empty

variable {calls : List Call}

theorem ofCalls_concat (calls : List Call) (call : Call) :
    ofCalls (calls ++ [call]) = ((ofCalls calls).answer call).2 := by
  simp [ofCalls]

/-- A library holds the tracks that were added to it. -/
theorem tracks_ofCalls (calls : List Call) :
    (ofCalls calls).tracks = calls.filterMap Call.track? := by
  induction calls using List.reverseRecOn with
  | nil => rfl
  | append_singleton calls call ih =>
    rw [ofCalls_concat, List.filterMap_append, ← ih]
    cases call with
    | track t => rfl
    | sequence s => exact (List.append_nil _).symm

/-- A library holds the sequences that were added to it. -/
theorem sequences_ofCalls (calls : List Call) :
    (ofCalls calls).sequences = calls.filterMap Call.sequence? := by
  induction calls using List.reverseRecOn with
  | nil => rfl
  | append_singleton calls call ih =>
    rw [ofCalls_concat, List.filterMap_append, ← ih]
    cases call with
    | track t => exact (List.append_nil _).symm
    | sequence s => rfl

theorem indexed_answer {l : Library} (h : l.Indexed) (call : Call) : (l.answer call).2.Indexed := by
  cases call with
  | track t => exact indexed_addTrack h t
  | sequence s => exact indexed_addSequence h s

/-- The index is in step behind any history. -/
theorem indexed_ofCalls (calls : List Call) : (ofCalls calls).Indexed := by
  induction calls using List.reverseRecOn with
  | nil => exact indexed_empty
  | append_singleton calls call ih =>
    rw [ofCalls_concat]
    exact indexed_answer ih call

/-! ## The law of the index -/

/-- **A library and its history.** Behind any history a library holds the tracks and the sequences
that were added, in order. One more addition is answered with the number of entries that its list has
had, puts the new one behind them and leaves the other list as it is. The index of a label is the least
index of a sequence with the label, if there is one, and the sequence that is found under the label is
the one that stands there; so no sequence stands in front of the one that is found under its label. -/
theorem library_of_calls (calls : List Call) :
    (ofCalls calls).tracks = calls.filterMap Call.track? ∧
    (ofCalls calls).sequences = calls.filterMap Call.sequence? ∧
    (∀ t : Track, ((ofCalls calls).addTrack t).1 = (ofCalls calls).tracks.length ∧
      ((ofCalls calls).addTrack t).2.tracks = (ofCalls calls).tracks ++ [t] ∧
      ((ofCalls calls).addTrack t).2.sequences = (ofCalls calls).sequences) ∧
    (∀ s : NoteSequence, ((ofCalls calls).addSequence s).1 = (ofCalls calls).sequences.length ∧
      ((ofCalls calls).addSequence s).2.sequences = (ofCalls calls).sequences ++ [s] ∧
      ((ofCalls calls).addSequence s).2.tracks = (ofCalls calls).tracks) ∧
    (∀ (label : String) (i : Nat), (ofCalls calls).sequenceIndex? label = some i ↔
      (∃ s, (ofCalls calls).sequence? i = some s ∧ s.label = label) ∧
        ∀ j < i, ∀ s, (ofCalls calls).sequence? j = some s → s.label ≠ label) ∧
    (∀ label : String, (ofCalls calls).sequenceIndex? label = none ↔
      ∀ s ∈ (ofCalls calls).sequences, s.label ≠ label) ∧
    (∀ (label : String) (i : Nat), (ofCalls calls).sequenceIndex? label = some i →
      ∃ s, (ofCalls calls).sequence? i = some s ∧
        (ofCalls calls).sequenceByLabel? label = some s) ∧
    ∀ (i : Nat) (label : String), (ofCalls calls).sequenceLabel? i = some label →
      ∃ j ≤ i, (ofCalls calls).sequenceIndex? label = some j := by
  have hindexed := indexed_ofCalls calls
  refine ⟨tracks_ofCalls calls, sequences_ofCalls calls, fun t => ⟨rfl, rfl, rfl⟩,
    fun s => ⟨rfl, rfl, rfl⟩, fun label i => hindexed.sequenceIndex?_eq_some_iff,
    fun label => hindexed.sequenceIndex?_eq_none_iff, ?_,
    fun i label => hindexed.exists_le_of_label⟩
  intro label i hfound
  obtain ⟨⟨s, hs, -⟩, -⟩ := hindexed.sequenceIndex?_eq_some_iff.1 hfound
  exact ⟨s, hs, by rw [sequenceByLabel?, hfound, Option.bind_some, hs]⟩

/-- A history in which a label is repeated, also as the label of a track. -/
def medley : List Call :=
  [.sequence ⟨"intro", []⟩, .track (.ofLabel "verse"), .sequence ⟨"verse", [.middleC]⟩,
    .sequence ⟨"intro", [.middleC]⟩, .sequence ⟨"verse", []⟩]

theorem library_of_medley :
    (ofCalls medley).sequenceByLabel? "verse" = some ⟨"verse", [.middleC]⟩ ∧
      ∃ j ≤ 3, (ofCalls medley).sequenceIndex? "verse" = some j := by
  obtain ⟨-, -, -, -, -, -, hfound, hlabel⟩ := library_of_calls medley
  obtain ⟨s, hs, hsequence⟩ := hfound "verse" 1 (by decide)
  obtain rfl := Option.some.inj (hs.symm.trans
    (by decide : (ofCalls medley).sequence? 1 = some ⟨"verse", [.middleC]⟩))
  exact ⟨hsequence, hlabel 3 "verse" (by decide)⟩

end Songsheet.Library
