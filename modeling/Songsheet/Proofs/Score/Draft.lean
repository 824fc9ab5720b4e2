import Songsheet.Proofs.Document.Integrity
import Songsheet.Proofs.Score

/-!
# What a draft keeps of the items

A draft does not remember the items from which it came, but all of it follows from them:
`Draft.Records` says how. An item that may stand behind the others is obeyed, any other is refused,
and the draft of a document that is read to its end is a library exactly if the references are
answered.

* `Records.obeys_iff` — which items are obeyed.
* `Records.obey?` — what an item does to a draft is what it adds to the items.
* `Records.conclude_eq_ok` — which library comes out in the end.
-/

namespace Songsheet.Draft

open Score

/-- The items are legal, and all that the draft keeps follows from them. -/
structure Records (draft : Draft) (items : List Item) : Prop where
  legal : Legal items
  tracks : draft.library.tracks = Score.tracks items
  sequences : draft.library.sequences = Score.sequences items
  index : draft.library.index = ((Score.sequences items).map (·.label)).zipIdx
  track : draft.track =
    if latestKind? items = some .track then some ((Score.tracks items).length - 1) else none
  lastNote : draft.lastNote = (heard (notes items)).getLastD .middleC
  definitions : draft.labels.definitions.map (fun d => (d.kind, d.label)) = Score.definitions items
  references : ∀ label,
    label ∈ draft.labels.references.map (·.label) ↔ label ∈ Score.references items

/-! ## What an attribute changes -/

/-- An attribute leaves all but the tracks and the references as it is. -/
theorem setAttribute_frame (draft : Draft) (i : Nat) (value : Attribute) :
    (draft.setAttribute i value).library.sequences = draft.library.sequences ∧
      (draft.setAttribute i value).library.index = draft.library.index ∧
      (draft.setAttribute i value).track = draft.track ∧
      (draft.setAttribute i value).lastNote = draft.lastNote ∧
      (draft.setAttribute i value).labels.definitions = draft.labels.definitions := by
  cases value with
  | name | tempo => exact ⟨rfl, rfl, rfl, rfl, rfl⟩
  | channel labels => exact ⟨rfl, rfl, rfl, rfl, Registry.definitions_referAll _ labels⟩

theorem tracks_setAttribute {it : Item} {value : Attribute} (draft : Draft) (i : Nat)
    (hit : it.directive = .describe value) :
    (draft.setAttribute i value).library.tracks =
      draft.library.tracks.modify i (describe it) := by
  cases it with
  | track | sequence => cases hit
  | name | tempo =>
    obtain rfl := Directive.describe.inj hit
    rfl
  | channel labels =>
    obtain rfl := Directive.describe.inj hit
    have hlabels : (labels.map fun label => (⟨label, .nowhere⟩ : Reference)).map (·.label) =
        labels := by
      simp [Function.comp_def]
    rw [Draft.setAttribute, hlabels]
    rfl

theorem mem_references_setAttribute {it : Item} {value : Attribute} {label : String}
    (draft : Draft) (i : Nat) (hit : it.directive = .describe value) :
    label ∈ (draft.setAttribute i value).labels.references.map (·.label) ↔
      label ∈ draft.labels.references.map (·.label) ∨ label ∈ it.references := by
  cases it with
  | track | sequence => cases hit
  | name | tempo =>
    obtain rfl := Directive.describe.inj hit
    simp [Draft.setAttribute, Item.references]
  | channel labels =>
    obtain rfl := Directive.describe.inj hit
    rw [Draft.setAttribute, Registry.references_referAll]
    simp [Item.references]

namespace Records

variable {draft e : Draft} {items : List Item} {it : Item}

theorem empty : Draft.empty.Records [] where
  legal := legal_nil
  tracks := rfl
  sequences := rfl
  index := rfl
  track := rfl
  lastNote := rfl
  definitions := rfl
  references := by simp [Draft.empty, Registry.empty, Score.references]

/-- Sites are kept beside what the items say. -/
theorem eraseSites_iff : draft.eraseSites.Records items ↔ draft.Records items := by
  have hdefinitions : draft.eraseSites.labels.definitions.map (fun d => (d.kind, d.label)) =
      draft.labels.definitions.map fun d => (d.kind, d.label) := by
    simp [eraseSites, Registry.eraseSites, Definition.eraseSite]
  have hreferences : draft.eraseSites.labels.references.map (·.label) =
      draft.labels.references.map (·.label) := by
    simp [eraseSites, Registry.eraseSites, Reference.eraseSite]
  constructor
  · intro h
    exact ⟨h.legal, h.tracks, h.sequences, h.index, h.track, h.lastNote, hdefinitions ▸ h.definitions,
      hreferences ▸ h.references⟩
  · intro h
    exact ⟨h.legal, h.tracks, h.sequences, h.index, h.track, h.lastNote, hdefinitions ▸ h.definitions,
      hreferences ▸ h.references⟩

theorem labels (h : draft.Records items) :
    draft.labels.definitions.map (·.label) = (Score.definitions items).map Prod.snd := by
  rw [← h.definitions, List.map_map]
  rfl

/-- Attributes describe the last track there is, if they describe any. -/
theorem track_eq_some {i : Nat} (h : draft.Records items) (hi : draft.track = some i) :
    latestKind? items = some .track ∧ i + 1 = draft.library.tracks.length := by
  rw [h.track, Option.ite_none_right_eq_some] at hi
  obtain ⟨hkind, hi⟩ := hi
  obtain ⟨front, label, attributes, rfl, hattributes⟩ := exists_track hkind
  refine ⟨hkind, ?_⟩
  rw [h.tracks, ← Option.some.inj hi, tracks_concat_track front label hattributes]
  simp

/-- A draft obeys an item exactly if it may stand behind the others. -/
theorem obeys_iff (h : draft.Records items) :
    (∃ e, draft.obey? it.directive = some e) ↔ Allowed items it := by
  cases it with
  | track label =>
    simp only [Item.directive, obey?_track, Registry.define_eq_ok, h.labels]
    constructor
    · rintro ⟨e, labels, ⟨hnew, -⟩, -⟩
      exact hnew
    · intro hnew
      exact ⟨_, _, ⟨hnew, rfl⟩, rfl⟩
  | sequence label forms =>
    simp only [Item.directive, obey?_sequence, Registry.define_eq_ok, h.labels]
    constructor
    · rintro ⟨e, labels, ⟨hnew, -⟩, -⟩
      exact hnew
    · intro hnew
      exact ⟨_, _, ⟨hnew, rfl⟩, rfl⟩
  | name | tempo | channel =>
    have htrack : (∃ i, draft.track = some i) ↔ latestKind? items = some .track := by
      rw [h.track]
      by_cases hkind : latestKind? items = some .track <;> simp [hkind]
    show _ ↔ latestKind? items = some .track
    rw [← htrack]
    simp only [Item.directive, obey?_describe]
    constructor
    · rintro ⟨e, i, hi, -⟩
      exact ⟨i, hi⟩
    · rintro ⟨i, hi⟩
      exact ⟨_, i, hi, rfl⟩

/-! ## One more item -/

theorem definitions_add (h : draft.Records items) {kind : LabelKind} {label : String} {site : Site}
    (hit : it.definition? = some (kind, label)) :
    (draft.labels.add ⟨label, kind, site⟩).definitions.map (fun d => (d.kind, d.label)) =
      Score.definitions (items ++ [it]) := by
  rw [Registry.add, List.map_append, h.definitions, definitions_append]
  simp [Score.definitions, hit]

theorem references_concat (h : draft.Records items) (label : String) :
    label ∈ Score.references (items ++ [it]) ↔
      label ∈ draft.labels.references.map (·.label) ∨ label ∈ it.references := by
  rw [h.references]
  simp [Score.references]

theorem addTrack (h : draft.Records items) {label : String} (site : Site)
    (hnew : Allowed items (.track label)) :
    (draft.addTrack (draft.labels.add ⟨label, .track, site⟩) label).Records
      (items ++ [.track label]) where
  legal := legal_concat.2 ⟨h.legal, hnew⟩
  tracks := by
    rw [tracks_concat_track items label (by simp), ← h.tracks]
    rfl
  sequences := h.sequences.trans (sequences_concat_other items rfl).symm
  index := h.index.trans (by rw [sequences_concat_other items rfl])
  track := by
    rw [latestKind?_concat, tracks_concat_track items label (by simp), ← h.tracks]
    simp [Draft.addTrack, Library.addTrack, Item.definition?]
  lastNote := by
    rw [notes_concat]
    show draft.lastNote = (heard (notes items ++ [])).getLastD .middleC
    rw [List.append_nil]
    exact h.lastNote
  definitions := h.definitions_add rfl
  references := by
    intro other
    rw [h.references_concat]
    simp [Draft.addTrack, Registry.add, Item.references]

/-- The index of a library notes a label that it has not noted before. -/
theorem noteIndex_of_new {labels : List String} {label : String} (h : label ∉ labels) :
    Library.noteIndex labels.zipIdx label labels.length = (labels ++ [label]).zipIdx := by
  have hnone : labels.zipIdx.lookup label = none := by
    rw [List.lookup_eq_none_iff]
    intro entry hentry
    have hmem : entry.1 ∈ labels := List.fst_mem_of_mem_zipIdx hentry
    rw [bne_iff_ne]
    intro heq
    exact h (heq ▸ hmem)
  rw [Library.noteIndex, hnone, List.zipIdx_append]
  simp

theorem addSequence (h : draft.Records items) {label : String} (site : Site)
    {forms : List NoteForm} (hnew : Allowed items (.sequence label forms)) :
    (draft.addSequence (draft.labels.add ⟨label, .sequence, site⟩) label
      (forms.map NoteForm.written)).Records (items ++ [.sequence label forms]) where
  legal := legal_concat.2 ⟨h.legal, hnew⟩
  tracks := by
    rw [tracks_append items (by simp [Item.isAttribute, Item.definition?]), ← h.tracks]
    simp [Draft.addSequence, Library.addSequence, Score.tracks]
  sequences := by
    rw [sequences_concat_sequence, ← h.sequences, ← h.lastNote]
    rfl
  index := by
    have hlabels : label ∉ (Score.sequences items).map (·.label) := by
      intro hmem
      exact hnew (List.mem_map_of_mem (f := Prod.snd) (mem_labels_sequences.1 hmem))
    have hnoted := noteIndex_of_new hlabels
    rw [List.length_map] at hnoted
    rw [sequences_concat_sequence, List.map_append]
    show Library.noteIndex draft.library.index label draft.library.sequences.length = _
    rw [h.index, h.sequences, hnoted]
    rfl
  track := by
    rw [latestKind?_concat]
    simp [Draft.addSequence, Item.definition?]
  lastNote := by
    rw [notes_concat]
    show _ = (heard (notes items ++ forms)).getLastD .middleC
    rw [heard_append, ← h.lastNote]
    simp [Draft.addSequence, List.getLastD_eq_getLast?, h.lastNote]
  definitions := h.definitions_add rfl
  references := by
    intro other
    rw [h.references_concat]
    simp [Draft.addSequence, Registry.add, Item.references]

/-- An attribute is given to the track that was defined last. -/
theorem setAttribute (h : draft.Records items) {i : Nat} (hi : draft.track = some i)
    {value : Attribute} (hit : it.directive = .describe value) :
    (draft.setAttribute i value).Records (items ++ [it]) := by
  obtain ⟨hkind, hlast⟩ := h.track_eq_some hi
  have hattribute := Item.isAttribute_of_directive hit
  obtain ⟨hnone, hsequence, hnotes⟩ := Item.definition?_of_isAttribute hattribute
  obtain ⟨hsequences, hindex, htrack, hlastNote, hdefinitions⟩ := draft.setAttribute_frame i value
  have hallowed : Allowed items it := by
    rw [Allowed, hnone]
    exact hkind
  have htracks : Score.tracks (items ++ [it]) = (Score.tracks items).modify i (describe it) := by
    have hplace : (Score.tracks items).length - 1 = i := by
      rw [← h.tracks]
      omega
    rw [tracks_concat_attribute hkind hattribute, hplace]
  exact {
    legal := legal_concat.2 ⟨h.legal, hallowed⟩
    tracks := by rw [draft.tracks_setAttribute i hit, htracks, h.tracks]
    sequences := by rw [hsequences, sequences_concat_other items hsequence, h.sequences]
    index := by rw [hindex, sequences_concat_other items hsequence, h.index]
    track := by
      rw [htrack, latestKind?_concat, hnone, htracks, List.length_modify]
      exact h.track
    lastNote := by rw [hlastNote, notes_concat, hnotes, List.append_nil, h.lastNote]
    definitions := by
      rw [hdefinitions, h.definitions, definitions_append]
      simp [Score.definitions, hnone]
    references := by
      intro label
      rw [draft.mem_references_setAttribute i hit, h.references_concat] }

/-- What an item does to a draft is what it adds to the items. -/
theorem obey? (h : draft.Records items) (ho : draft.obey? it.directive = some e) :
    e.Records (items ++ [it]) := by
  have hallowed : Allowed items it := h.obeys_iff.1 ⟨e, ho⟩
  cases it with
  | track label =>
    obtain ⟨labels, hd, rfl⟩ := obey?_track.1 ho
    obtain ⟨-, rfl⟩ := Registry.define_eq_ok.1 hd
    exact h.addTrack .nowhere hallowed
  | sequence label forms =>
    obtain ⟨labels, hd, rfl⟩ := obey?_sequence.1 ho
    obtain ⟨-, rfl⟩ := Registry.define_eq_ok.1 hd
    exact h.addSequence .nowhere hallowed
  | name | tempo | channel =>
    obtain ⟨i, hi, rfl⟩ := obey?_describe.1 ho
    exact h.setAttribute hi rfl

/-! ## The end of the document -/

/-- The labels that name sequences are those that the items define so. -/
theorem namesSequence_iff (h : draft.Records items) {label : String} :
    draft.labels.namesSequence label ↔ (.sequence, label) ∈ Score.definitions items := by
  rw [← h.definitions, List.mem_map]
  constructor
  · intro hnames
    obtain ⟨d, hd, hkind, hlabel⟩ := Registry.exists_definition_of_namesSequence hnames
    exact ⟨d, hd, by rw [hkind, hlabel]⟩
  · intro ⟨d, hd, heq⟩
    obtain ⟨hkind, rfl⟩ := Prod.mk.inj heq
    have hdistinct : (draft.labels.definitions.map (·.label)).Nodup := by
      rw [h.labels]
      exact h.legal.distinct
    rw [Registry.namesSequence, Registry.definition?_of_mem hdistinct hd]
    simp [hkind]

/-- Why a reference that no sequence answers is refused: its label may be that of a track. -/
theorem refusal_eq (h : draft.Records items) {label : String}
    (hlabel : (.sequence, label) ∉ Score.definitions items) :
    draft.labels.refusal label =
      if (.track, label) ∈ Score.definitions items then .trackLabel label
      else .undefinedLabel label := by
  have hsome : (draft.labels.definition? label).isSome ↔ (.track, label) ∈ Score.definitions items := by
    rw [Option.isSome_iff_ne_none, Ne, Registry.definition?_eq_none_iff, not_not, h.labels,
      List.mem_map]
    constructor
    · rintro ⟨⟨kind, _⟩, hmem, rfl⟩
      cases kind with
      | track => exact hmem
      | sequence => exact absurd hmem hlabel
    · intro hmem
      exact ⟨_, hmem, rfl⟩
  unfold Registry.refusal
  by_cases htrack : (.track, label) ∈ Score.definitions items
  · rw [if_pos htrack, if_pos (hsome.2 htrack)]
  · rw [if_neg htrack, if_neg (mt hsome.1 htrack)]

/-- The references are answered exactly if the items are sound. -/
theorem check_eq_ok_iff (h : draft.Records items) : draft.labels.check = .ok () ↔ Sound items := by
  have hanswered : draft.labels.check = .ok () ↔
      ∀ label ∈ draft.labels.references.map (·.label), draft.labels.namesSequence label := by
    rw [Registry.check_eq_ok_iff, Registry.undefined, List.filter_eq_nil_iff, List.forall_mem_map]
    simp
  rw [hanswered]
  constructor
  · intro hnames
    refine ⟨h.legal, fun label hlabel => ?_⟩
    exact h.namesSequence_iff.1 (hnames label ((h.references label).2 hlabel))
  · intro hsound label hlabel
    exact h.namesSequence_iff.2 (hsound.answered label ((h.references label).1 hlabel))

theorem library_eq (h : draft.Records items) : draft.library = Score.library items := by
  rw [Score.library, ← h.tracks, ← h.index, ← h.sequences]

/-- The library that comes out in the end is that of the items. -/
theorem conclude_eq_ok (h : draft.Records items) {l : Library} :
    Document.conclude draft = .ok l ↔ Sound items ∧ l = Score.library items := by
  rw [Document.conclude_eq_ok, h.check_eq_ok_iff, h.library_eq]

end Records

end Songsheet.Draft
