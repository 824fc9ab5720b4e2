import Songsheet.Proofs.Directive.Spelling
import Songsheet.Proofs.Document.Language

/-!
# Every library has a text

A list of tracks and a list of sequences that could be those of a library are those of one: they
are spelled as a document in which each track stands with all its attributes, each note with its
octave and its duration, and nothing is inherited. The sequences stand behind the tracks, so the
channels refer to labels that are defined later.

* `Score.ofLists` — the items of the document.
* `tracks_ofLists`, `sequences_ofLists`, `sound_ofLists` — what they say, and that they are sound.
* `documentText_spelled` — items that can be spelled have a text.
* `exists_text_of_lists` — the text that defines the two lists.
-/

namespace Songsheet

/-! ## The items of a library -/

/-- A note with its octave and its duration written out. -/
def Note.form (n : Note) : NoteForm :=
  ⟨n.pitch.name, some n.octave, some n.duration⟩

/-- A sequence as an item. -/
def NoteSequence.item (s : NoteSequence) : Item :=
  .sequence s.label (s.notes.map Note.form)

namespace Track

/-- All that is said about a track. -/
def attributes (t : Track) : List Item :=
  .name t.name :: .tempo t.tempo :: t.channels.map .channel

/-- A track with all that is said about it. -/
def items (t : Track) : List Item :=
  .track t.label :: t.attributes

theorem mem_attributes {t : Track} {it : Item} :
    it ∈ t.attributes ↔
      it = .name t.name ∨ it = .tempo t.tempo ∨ ∃ labels ∈ t.channels, .channel labels = it := by
  simp only [attributes, List.mem_cons, List.mem_map]

theorem isAttribute_of_mem (t : Track) : ∀ it ∈ t.attributes, it.isAttribute := by
  intro it hit
  rcases mem_attributes.1 hit with rfl | rfl | ⟨labels, -, rfl⟩ <;> rfl

end Track

namespace Score

variable {front : List Item} {tracks : List Track} {sequences : List NoteSequence}

/-- The items of a library with these tracks and sequences. -/
def ofLists (tracks : List Track) (sequences : List NoteSequence) : List Item :=
  tracks.flatMap Track.items ++ sequences.map NoteSequence.item

theorem mem_ofLists {it : Item} :
    it ∈ ofLists tracks sequences ↔
      (∃ t ∈ tracks, it = .track t.label ∨ it ∈ t.attributes) ∨ ∃ s ∈ sequences, s.item = it := by
  simp only [ofLists, List.mem_append, List.mem_flatMap, Track.items, List.mem_cons, List.mem_map]

/-! ## What the items say -/

/-- Notes that are written out inherit nothing. -/
theorem sounding_form (previous : Note) (notes : List Note) :
    sounding previous ((notes.map Note.form).map NoteForm.written) = notes := by
  induction notes generalizing previous with
  | nil => rfl
  | cons n notes ih =>
    have hfirst : n.form.written.sounding previous = n := by
      simp [Note.form, NoteForm.written, NoteForm.pitch, WrittenNote.sounding]
    rw [List.map_cons, List.map_cons, sounding, ih, hfirst]

/-- Sequences that hold no note which stands for none are added as they are. -/
theorem sequences_append_items (front : List Item)
    (h : ∀ s ∈ sequences, Note.empty ∉ s.notes) :
    Score.sequences (front ++ sequences.map NoteSequence.item) =
      Score.sequences front ++ sequences := by
  induction sequences generalizing front with
  | nil => simp
  | cons s sequences ih =>
    have hnotes : (s.notes.filter fun n => !n.isEmpty) = s.notes := by
      rw [List.filter_eq_self]
      intro n hn
      have hne : n ≠ Note.empty := by
        intro heq
        exact h s (by simp) (heq ▸ hn)
      simpa [Note.isEmpty] using hne
    have hbehind := ih (front ++ [s.item]) fun other hother => h other (by simp [hother])
    rw [NoteSequence.item, sequences_concat_sequence, sounding_form, hnotes,
      List.append_assoc, List.append_assoc] at hbehind
    exact hbehind

theorem sequences_of_tracks (tracks : List Track) :
    Score.sequences (tracks.flatMap Track.items) = [] := by
  have hlabels := labels_cut (tracks.flatMap Track.items) (heard (notes (tracks.flatMap Track.items)))
  have hnone : (tracks.flatMap Track.items).filterMap Item.sequenceLabel? = [] := by
    rw [List.filterMap_eq_nil_iff]
    intro it hit
    obtain ⟨t, -, ht⟩ := List.mem_flatMap.1 hit
    rcases List.mem_cons.1 ht with rfl | ht
    · rfl
    rcases Track.mem_attributes.1 ht with rfl | rfl | ⟨labels, -, rfl⟩ <;> rfl
  rw [hnone] at hlabels
  exact List.map_eq_nil_iff.1 hlabels

theorem sequences_ofLists (tracks : List Track) (h : ∀ s ∈ sequences, Note.empty ∉ s.notes) :
    Score.sequences (ofLists tracks sequences) = sequences := by
  rw [ofLists, sequences_append_items _ h, sequences_of_tracks, List.nil_append]

theorem described_attributes (t : Track) : described t.label t.attributes = t := by
  have hchannels : (t.channels.map Item.channel).filterMap Item.channel? = t.channels := by
    rw [List.filterMap_map]
    exact List.filterMap_some
  have hname : (t.channels.map Item.channel).filterMap Item.name? = [] := by
    rw [List.filterMap_map, List.filterMap_eq_nil_iff]
    intro labels _
    rfl
  have htempo : (t.channels.map Item.channel).filterMap Item.tempo? = [] := by
    rw [List.filterMap_map, List.filterMap_eq_nil_iff]
    intro labels _
    rfl
  simp [described, Track.attributes, List.filterMap_cons, Item.name?, Item.tempo?, Item.channel?,
    hchannels, hname, htempo]

theorem tracks_of_sequences (sequences : List NoteSequence) :
    Score.tracks (sequences.map NoteSequence.item) = [] := by
  induction sequences with
  | nil => rfl
  | cons s sequences ih => exact ih

/-- A document begins with a definition. -/
theorem head?_ofLists (tracks : List Track) (sequences : List NoteSequence) :
    ∀ it, (ofLists tracks sequences).head? = some it → it.isAttribute = false := by
  intro it hit
  cases tracks with
  | cons t tracks =>
    obtain rfl := Option.some.inj hit
    rfl
  | nil =>
    cases sequences with
    | nil => cases hit
    | cons s sequences =>
      obtain rfl := Option.some.inj hit
      rfl

theorem tracks_ofLists (tracks : List Track) (sequences : List NoteSequence) :
    Score.tracks (ofLists tracks sequences) = tracks := by
  induction tracks with
  | nil => exact tracks_of_sequences sequences
  | cons t tracks ih =>
    have hfirst := tracks_concat_track [] t.label t.isAttribute_of_mem
    rw [described_attributes] at hfirst
    have hsplit : ofLists (t :: tracks) sequences = t.items ++ ofLists tracks sequences := by
      rw [ofLists, List.flatMap_cons, List.append_assoc]
      rfl
    rw [hsplit, tracks_append _ (head?_ofLists tracks sequences), ih]
    exact congrArg (· ++ tracks) hfirst

/-! ## The items are sound -/

/-- The labels that items define. -/
theorem definitions_items (t : Track) : definitions t.items = [(.track, t.label)] := by
  have hattributes : definitions t.attributes = [] := by
    rw [definitions, List.filterMap_eq_nil_iff]
    intro it hit
    simpa [Item.isAttribute] using t.isAttribute_of_mem it hit
  rw [Track.items, definitions, List.filterMap_cons]
  exact congrArg ((LabelKind.track, t.label) :: ·) hattributes

theorem legal_append_attributes {attributes : List Item} (h : Legal front)
    (hkind : latestKind? front = some .track) (hall : ∀ it ∈ attributes, it.isAttribute) :
    Legal (front ++ attributes) := by
  induction attributes generalizing front with
  | nil =>
    rw [List.append_nil]
    exact h
  | cons it attributes ih =>
    have hnone : it.definition? = none := by simpa [Item.isAttribute] using hall it (by simp)
    have hallowed : Allowed front it := by
      rw [Allowed, hnone]
      exact hkind
    have hbehind := ih (legal_concat.2 ⟨h, hallowed⟩) (by rw [latestKind?_concat, hnone]; exact hkind)
      fun other hother => hall other (by simp [hother])
    rwa [List.append_assoc] at hbehind

/-- A track with a label of its own may stand behind all that is legal. -/
theorem legal_append_track (h : Legal front) (t : Track)
    (hnew : t.label ∉ (definitions front).map Prod.snd) : Legal (front ++ t.items) := by
  have htrack : Legal (front ++ [.track t.label]) := legal_concat.2 ⟨h, hnew⟩
  have hkind : latestKind? (front ++ [.track t.label]) = some .track := latestKind?_concat front _
  have hwhole := legal_append_attributes htrack hkind t.isAttribute_of_mem
  rwa [List.append_assoc] at hwhole

/-- Parts that define one label each are legal if their labels are distinct. -/
theorem legal_append_parts {α : Type} {parts : List α} (part : α → List Item) (label : α → String)
    (hdefines : ∀ a, (definitions (part a)).map Prod.snd = [label a])
    (hpart : ∀ front a, Legal front → label a ∉ (definitions front).map Prod.snd →
      Legal (front ++ part a))
    (h : Legal front) (hdistinct : ((definitions front).map Prod.snd ++ parts.map label).Nodup) :
    Legal (front ++ parts.flatMap part) := by
  induction parts generalizing front with
  | nil =>
    rw [List.flatMap_nil, List.append_nil]
    exact h
  | cons a parts ih =>
    have hlabels : (definitions (front ++ part a)).map Prod.snd =
        (definitions front).map Prod.snd ++ [label a] := by
      rw [definitions_append, List.map_append, hdefines]
    have hnew : label a ∉ (definitions front).map Prod.snd := by
      intro hmem
      exact (List.nodup_append.1 hdistinct).2.2 _ hmem _ (by simp) rfl
    have hbehind := ih (hpart front a h hnew) (by rw [hlabels, List.append_assoc]; exact hdistinct)
    rw [List.append_assoc] at hbehind
    exact hbehind

theorem labels_of_tracks (tracks : List Track) :
    (definitions (tracks.flatMap Track.items)).map Prod.snd = tracks.map (·.label) := by
  induction tracks with
  | nil => rfl
  | cons t tracks ih =>
    rw [List.flatMap_cons, definitions_append, List.map_append, ih, definitions_items]
    rfl

theorem legal_ofLists
    (hdistinct : (tracks.map (·.label) ++ sequences.map (·.label)).Nodup) :
    Legal (ofLists tracks sequences) := by
  have htracks : Legal ([] ++ tracks.flatMap Track.items) :=
    legal_append_parts Track.items (·.label) (fun t => by rw [definitions_items]; rfl)
      (fun _ t h hnew => legal_append_track h t hnew) legal_nil (List.nodup_append.1 hdistinct).1
  rw [List.nil_append] at htracks
  rw [ofLists, List.map_eq_flatMap]
  exact legal_append_parts (fun s => [NoteSequence.item s]) (·.label) (fun s => rfl)
    (fun _ s h hnew => legal_concat.2 ⟨h, hnew⟩) htracks
    (by rw [labels_of_tracks]; exact hdistinct)

theorem sound_ofLists (hdistinct : (tracks.map (·.label) ++ sequences.map (·.label)).Nodup)
    (hchannels : ∀ t ∈ tracks, ∀ channel ∈ t.channels, ∀ label ∈ channel,
      label ∈ sequences.map (·.label)) : Sound (ofLists tracks sequences) := by
  refine ⟨legal_ofLists hdistinct, ?_⟩
  intro label hlabel
  have hmem : label ∈ sequences.map (·.label) := by
    obtain ⟨it, hit, hlabel⟩ := List.mem_flatMap.1 hlabel
    -- only channels refer to labels
    rcases mem_ofLists.1 hit with ⟨t, ht, rfl | hit⟩ | ⟨s, -, rfl⟩
    · cases hlabel
    · rcases Track.mem_attributes.1 hit with rfl | rfl | ⟨channel, hchannel, rfl⟩
      · cases hlabel
      · cases hlabel
      · exact hchannels t ht channel hchannel label hlabel
    · cases hlabel
  obtain ⟨s, hs, rfl⟩ := List.mem_map.1 hmem
  rw [ofLists, definitions_append, List.mem_append]
  exact .inr (List.mem_filterMap.2 ⟨s.item, List.mem_map_of_mem hs, rfl⟩)

/-! ## The items can be spelled -/

theorem wellFormed_ofLists
    (hlabels : ∀ label ∈ tracks.map (·.label) ++ sequences.map (·.label), IsIdentifier label)
    (hchannels : ∀ t ∈ tracks, ∀ channel ∈ t.channels, channel ≠ [] ∧
      ∀ label ∈ channel, label ∈ sequences.map (·.label)) :
    ∀ it ∈ ofLists tracks sequences, it.WellFormed := by
  have hkey : ∀ p : Pitch, IsKey p.name := by
    intro p
    have hall : p.name.toList.all isKeyChar := by cases p <;> decide
    exact ⟨by cases p <;> decide, List.all_eq_true.1 hall⟩
  intro it hit
  rcases mem_ofLists.1 hit with ⟨t, ht, rfl | hit⟩ | ⟨s, hs, rfl⟩
  · exact hlabels _ (List.mem_append.2 (.inl (List.mem_map_of_mem ht)))
  · rcases Track.mem_attributes.1 hit with rfl | rfl | ⟨channel, hchannel, rfl⟩
    · trivial
    · trivial
    · obtain ⟨hne, hnamed⟩ := hchannels t ht channel hchannel
      exact ⟨hne, fun label hlabel => hlabels _ (List.mem_append.2 (.inr (hnamed label hlabel)))⟩
  · refine ⟨hlabels _ (List.mem_append.2 (.inr (List.mem_map_of_mem hs))), ?_⟩
    intro f hf
    obtain ⟨n, -, rfl⟩ := List.mem_map.1 hf
    exact hkey n.pitch

end Score

namespace Document

/-- Items spelled line by line. -/
def textOf (items : List Item) : String :=
  String.ofList (items.flatMap fun it => it.spelled ++ ['\n'])

/-- Items that can be spelled have a text. -/
theorem documentText_spelled {items : List Item} (h : ∀ it ∈ items, it.WellFormed) :
    DocumentText items (textOf items) := by
  rw [DocumentText, textOf, String.toList_ofList]
  induction items with
  | nil => exact .nothing .nothing
  | cons it items ih =>
    have hbehind := ih fun other hother => h other (by simp [hother])
    rw [List.flatMap_cons, List.append_assoc]
    exact .item .nothing (itemText_spelled (h it (by simp)) _)
      (hbehind.behind_gap (.blank (by decide) .nothing))

/-- **Expressibility.** Tracks and sequences with distinct identifiers for labels, with channels
that are not empty and name sequences of the list, and with no note that stands for none, are the
tracks and the sequences of a text that includes nothing: whatever their names, tempos and notes. -/
theorem exists_text_of_lists {tracks : List Track} {sequences : List NoteSequence}
    (hlabels : ∀ label ∈ tracks.map (·.label) ++ sequences.map (·.label), IsIdentifier label)
    (hdistinct : (tracks.map (·.label) ++ sequences.map (·.label)).Nodup)
    (hchannels : ∀ t ∈ tracks, ∀ channel ∈ t.channels, channel ≠ [] ∧
      ∀ label ∈ channel, label ∈ sequences.map (·.label))
    (hnotes : ∀ s ∈ sequences, Note.empty ∉ s.notes) :
    ∃ text, ∀ read o path, IncludesNothing read o path text ∧
      ∃ l, parseText read o path text = .ok l ∧ l.tracks = tracks ∧ l.sequences = sequences := by
  have htext := documentText_spelled (Score.wellFormed_ofLists hlabels hchannels)
  have hsound := Score.sound_ofLists hdistinct fun t ht channel hc => (hchannels t ht channel hc).2
  refine ⟨textOf (Score.ofLists tracks sequences), ?_⟩
  intro read o path
  obtain ⟨hparse, hnothing⟩ := parseText_of_documentText htext hsound read o path
  exact ⟨hnothing, _, hparse, Score.tracks_ofLists tracks sequences,
    Score.sequences_ofLists tracks hnotes⟩

theorem exists_text_of_duetLibrary :
    ∃ text, ∀ read o path, IncludesNothing read o path text ∧
      ∃ l, parseText read o path text = .ok l ∧ l.tracks = duetLibrary.tracks ∧
        l.sequences = duetLibrary.sequences := by
  have hlabels : ∀ label ∈ duetLibrary.tracks.map (·.label) ++ duetLibrary.sequences.map (·.label),
      isLabel label := by
    decide
  exact exists_text_of_lists (fun label hl => (isLabel_iff label).1 (hlabels label hl))
    (by decide) (by decide) (by decide)

/-- A quotation mark in a name is doubled, and the duration of a note is spelled in 256ths. -/
example : textOf (Score.ofLists [⟨"t", "a\"b", 90, [["s"]]⟩] [⟨"s", [⟨.cSharp, 4, ⟨1, 2⟩⟩]⟩]) =
    "@t:\n%name \"a\"\"b\"\n%bpm 90\n%channel s\n$s: C#4[258/256]\n" := by
  decide +kernel

end Document

end Songsheet
