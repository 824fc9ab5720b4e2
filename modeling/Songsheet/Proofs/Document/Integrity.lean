import Songsheet.Proofs.Document.Turn
import Songsheet.Proofs.Label
import Songsheet.Proofs.Library.Index

/-!
# Integrity of libraries

What a document defines is kept in three places: the registry of labels, the lists of tracks and
sequences, and the index of the sequences. `Draft.Coherent` says how they agree while a document
is being read; every directive keeps it (`Coherent.obey?`), hence every turn, whichever source it
reads in. Together with the final check on references this makes a `Library.Consistent`
(`consistent_of_parse`).
-/

namespace Songsheet

/-! ## Well-formed directives -/

/-- A directive that can have been read: it defines a label of the right form, and a channel is
not empty. -/
def Directive.WellFormed : Directive → Prop
  | .track label _ => isLabel label
  | .sequence label _ _ => isLabel label
  | .describe (.channel references) => references ≠ []
  | .describe _ => True

namespace Reading

theorem isLabel_of_definedLabel {c d : Cursor} {label : String}
    (h : definedLabel c = .ok label d) : isLabel label := by
  obtain ⟨word, -, hword⟩ := definedLabel_eq_ok.1 h
  simp only [labelDefinedBy?, Option.ite_none_right_eq_some, Option.some.injEq] at hword
  obtain ⟨⟨-, hlabel⟩, rfl⟩ := hword
  exact hlabel

theorem references_ne_nil {source : SourcePath} {c d : Cursor} {found : List Reference}
    (h : references source c = .ok found d) : found ≠ [] := by
  rw [references] at h
  split at h
  · simp at h
  · split at h
    · split at h
      · simp at h
      · obtain ⟨rfl, -⟩ := EStateM.Result.ok.inj h
        simp
    · obtain ⟨rfl, -⟩ := EStateM.Result.ok.inj h
      simp

theorem wellFormed_of_trackAttribute {source : SourcePath} {c d : Cursor} {value : Attribute}
    (h : trackAttribute source c = .ok value d) : (Directive.describe value).WellFormed := by
  obtain ⟨_, _, _, kind, -, -, -, hvalue⟩ := trackAttribute_eq_ok.1 h
  cases kind with
  | name =>
    obtain ⟨_, _, _, hpure⟩ := bind_eq_ok.1 hvalue
    obtain ⟨rfl, -⟩ := pure_eq_ok.1 hpure
    trivial
  | tempo =>
    obtain ⟨_, _, _, hpure⟩ := bind_eq_ok.1 hvalue
    obtain ⟨rfl, -⟩ := pure_eq_ok.1 hpure
    trivial
  | channel =>
    obtain ⟨found, _, hfound, hpure⟩ := bind_eq_ok.1 hvalue
    obtain ⟨rfl, -⟩ := pure_eq_ok.1 hpure
    exact references_ne_nil hfound

theorem wellFormed_of_directive {source : SourcePath} {mark : TokenKind} {c d : Cursor}
    {x : Directive} (h : directive source mark c = .ok x d) : x.WellFormed := by
  obtain ⟨start, _, _, h⟩ := bind_eq_ok.1 h
  split at h
  · obtain ⟨label, _, hl, h⟩ := bind_eq_ok.1 h
    obtain ⟨rfl, -⟩ := pure_eq_ok.1 h
    exact isLabel_of_definedLabel hl
  · obtain ⟨label, _, hl, h⟩ := bind_eq_ok.1 h
    obtain ⟨written, _, _, h⟩ := bind_eq_ok.1 h
    obtain ⟨rfl, -⟩ := pure_eq_ok.1 h
    exact isLabel_of_definedLabel hl
  · obtain ⟨value, _, hv, h⟩ := bind_eq_ok.1 h
    obtain ⟨rfl, -⟩ := pure_eq_ok.1 h
    exact wellFormed_of_trackAttribute hv
  · exact absurd h fail_ne_ok

end Reading

/-! ## Coherence of drafts -/

/-- The labels that a registry defines for things of one kind, in the order of definition. -/
def Registry.labelsOf (r : Registry) (kind : LabelKind) : List String :=
  (r.definitions.filter (·.kind == kind)).map (·.label)

/-- The registry, the library and its index agree. -/
structure Draft.Coherent (draft : Draft) : Prop where
  tracks : draft.library.tracks.map (·.label) = draft.labels.labelsOf .track
  sequences : draft.library.sequences.map (·.label) = draft.labels.labelsOf .sequence
  distinct : (draft.labels.definitions.map (·.label)).Nodup
  labels : ∀ d ∈ draft.labels.definitions, isLabel d.label
  channels : ∀ t ∈ draft.library.tracks, ∀ channel ∈ t.channels,
    channel ≠ [] ∧ ∀ label ∈ channel, label ∈ draft.labels.references.map (·.label)
  notes : ∀ s ∈ draft.library.sequences, Note.empty ∉ s.notes
  indexed : draft.library.Indexed

theorem Registry.labelsOf_add (r : Registry) (kind other : LabelKind) (label : String)
    (site : Site) :
    (r.add ⟨label, kind, site⟩).labelsOf other =
      r.labelsOf other ++ (if kind = other then [label] else []) := by
  unfold labelsOf add
  by_cases h : kind = other <;> simp [h]

/-- The labels of both kinds are all the labels. -/
theorem Registry.labelsOf_perm (r : Registry) :
    (r.labelsOf .track ++ r.labelsOf .sequence).Perm (r.definitions.map (·.label)) := by
  have hkinds : (fun d : Definition => !(d.kind == LabelKind.track)) =
      fun d => d.kind == LabelKind.sequence := by
    funext d
    cases d.kind <;> rfl
  have hperm := List.filter_append_perm (·.kind == LabelKind.track) r.definitions
  rw [hkinds] at hperm
  unfold labelsOf
  rw [← List.map_append]
  exact hperm.map _

/-- Changing one track in place keeps what is true of all tracks. -/
theorem Library.forall_modifyTrack {P : Track → Prop} {l : Library} {f : Track → Track}
    (i : Nat) (h : ∀ t ∈ l.tracks, P t) (hf : ∀ t, P t → P (f t)) :
    ∀ t ∈ (l.modifyTrack i f).tracks, P t := by
  intro t ht
  obtain ⟨j, hj, rfl⟩ := List.getElem_of_mem ht
  simp only [modifyTrack, List.length_modify] at hj ⊢
  rw [List.getElem_modify]
  split
  · exact hf _ (h _ (List.getElem_mem _))
  · exact h _ (List.getElem_mem _)

theorem Library.labels_modifyTrack (l : Library) (f : Track → Track) (i : Nat)
    (hf : ∀ t, (f t).label = t.label) :
    (l.modifyTrack i f).tracks.map (·.label) = l.tracks.map (·.label) := by
  refine List.ext_getElem (by simp [modifyTrack]) fun j hj _ => ?_
  simp only [modifyTrack, List.getElem_map, List.getElem_modify]
  split <;> simp [hf]

namespace Draft.Coherent

variable {draft : Draft}

theorem empty : Draft.empty.Coherent where
  tracks := rfl
  sequences := rfl
  distinct := List.nodup_nil
  labels := by simp [Draft.empty, Registry.empty]
  channels := by simp [Draft.empty, Library.empty]
  notes := by simp [Draft.empty, Library.empty]
  indexed := Library.indexed_empty

theorem distinct_add (h : draft.Coherent) {d : Definition}
    (hnew : d.label ∉ draft.labels.definitions.map (·.label)) :
    ((draft.labels.add d).definitions.map (·.label)).Nodup := by
  rw [Registry.add, List.map_append, List.nodup_append]
  refine ⟨h.distinct, by simp, ?_⟩
  rintro a ha b hb rfl
  obtain rfl : a = d.label := by simpa using hb
  exact hnew ha

theorem labels_add (h : draft.Coherent) {d : Definition} (hlabel : isLabel d.label) :
    ∀ x ∈ (draft.labels.add d).definitions, isLabel x.label := by
  intro x hx
  rcases List.mem_append.1 hx with hx | hx
  · exact h.labels x hx
  · obtain rfl := List.mem_singleton.1 hx
    exact hlabel

theorem addTrack (h : draft.Coherent) {label : String} {site : Site} (hlabel : isLabel label)
    (hnew : label ∉ draft.labels.definitions.map (·.label)) :
    (draft.addTrack (draft.labels.add ⟨label, .track, site⟩) label).Coherent where
  tracks := by
    rw [Draft.addTrack, Registry.labelsOf_add]
    simp [Library.addTrack, Track.ofLabel, h.tracks]
  sequences := by
    rw [Draft.addTrack, Registry.labelsOf_add]
    simp [Library.addTrack, h.sequences]
  distinct := h.distinct_add hnew
  labels := h.labels_add hlabel
  channels := by
    intro t ht channel hc
    rcases List.mem_append.1 ht with ht | ht
    · exact h.channels t ht channel hc
    · obtain rfl := List.mem_singleton.1 ht
      simp [Track.ofLabel] at hc
  notes := h.notes
  indexed := Library.indexed_addTrack h.indexed _

theorem addSequence (h : draft.Coherent) {label : String} {site : Site}
    (hlabel : isLabel label) (written : List WrittenNote)
    (hnew : label ∉ draft.labels.definitions.map (·.label)) :
    (draft.addSequence (draft.labels.add ⟨label, .sequence, site⟩) label written).Coherent where
  tracks := by
    rw [Draft.addSequence, Registry.labelsOf_add]
    simp [Library.addSequence, h.tracks]
  sequences := by
    rw [Draft.addSequence, Registry.labelsOf_add]
    simp [Library.addSequence, h.sequences]
  distinct := h.distinct_add hnew
  labels := h.labels_add hlabel
  channels := h.channels
  notes := by
    intro s hs
    rcases List.mem_append.1 hs with hs | hs
    · exact h.notes s hs
    · obtain rfl := List.mem_singleton.1 hs
      simp
  indexed := Library.indexed_addSequence h.indexed _

/-- An attribute that leaves labels and channels alone keeps the draft coherent. -/
theorem modifyTrack (h : draft.Coherent) (i : Nat) {f : Track → Track}
    (hlabel : ∀ t, (f t).label = t.label) (hchannels : ∀ t, (f t).channels = t.channels) :
    { draft with library := draft.library.modifyTrack i f }.Coherent where
  tracks := (Library.labels_modifyTrack _ f i hlabel).trans h.tracks
  sequences := h.sequences
  distinct := h.distinct
  labels := h.labels
  channels := by
    refine Library.forall_modifyTrack i h.channels fun t ht => ?_
    rw [hchannels]
    exact ht
  notes := h.notes
  indexed := Library.indexed_modifyTrack h.indexed i f

theorem addChannel (h : draft.Coherent) (i : Nat) {references : List Reference}
    (hne : references ≠ []) : (draft.setAttribute i (.channel references)).Coherent where
  tracks := by
    have hlabels := Library.labels_modifyTrack draft.library
      (fun t => { t with channels := t.channels ++ [references.map (·.label)] }) i fun _ => rfl
    simpa [Draft.setAttribute, Registry.labelsOf, hlabels] using h.tracks
  sequences := by
    simpa [Draft.setAttribute, Registry.labelsOf, Library.modifyTrack] using h.sequences
  distinct := by simpa [Draft.setAttribute] using h.distinct
  labels := by simpa [Draft.setAttribute] using h.labels
  channels := by
    -- the older channels keep their references, the new one brings its own
    have hold : ∀ t ∈ draft.library.tracks, ∀ channel ∈ t.channels, channel ≠ [] ∧
        ∀ label ∈ channel,
          label ∈ (draft.labels.referAll references).references.map (·.label) := by
      intro t ht channel hc
      refine ⟨(h.channels t ht channel hc).1, fun label hl => ?_⟩
      exact (Registry.references_referAll ..).2 (.inl ((h.channels t ht channel hc).2 label hl))
    refine Library.forall_modifyTrack i hold fun t ht channel hc => ?_
    rcases List.mem_append.1 hc with hc | hc
    · exact ht channel hc
    · obtain rfl := List.mem_singleton.1 hc
      exact ⟨by simpa using hne, fun label hl => (Registry.references_referAll ..).2 (.inr hl)⟩
  notes := h.notes
  indexed := Library.indexed_modifyTrack h.indexed i _

/-- Every directive that is obeyed keeps the draft coherent. -/
theorem obey? (h : draft.Coherent) {x : Directive} {e : Draft} (hx : x.WellFormed)
    (ho : draft.obey? x = some e) : e.Coherent := by
  cases x with
  | track label site =>
    obtain ⟨labels, hd, rfl⟩ := Draft.obey?_track.1 ho
    obtain ⟨hnew, rfl⟩ := Registry.define_eq_ok.1 hd
    exact h.addTrack hx hnew
  | sequence label site written =>
    obtain ⟨labels, hd, rfl⟩ := Draft.obey?_sequence.1 ho
    obtain ⟨hnew, rfl⟩ := Registry.define_eq_ok.1 hd
    exact h.addSequence hx written hnew
  | describe value =>
    obtain ⟨i, -, rfl⟩ := Draft.obey?_describe.1 ho
    cases value with
    | name text => exact h.modifyTrack i (fun _ => rfl) (fun _ => rfl)
    | tempo beats => exact h.modifyTrack i (fun _ => rfl) (fun _ => rfl)
    | channel references => exact h.addChannel i hx

end Draft.Coherent

namespace Document

variable {read : Provider} {o : Options} {s t : State}

theorem Goes.coherent (h : Goes read o s t) (hs : s.draft.Coherent) : t.draft.Coherent := by
  cases goes_iff.1 h with
  | blank token => exact hs
  | directive token reads obeys => exact hs.obey? (Reading.wellFormed_of_directive reads) obeys
  | resume token waits => exact hs
  | enter token reads allowed found => exact hs

theorem Leads.coherent (h : Leads read o s t) (hs : s.draft.Coherent) : t.draft.Coherent := by
  induction h with
  | refl => exact hs
  | tail _ hgo ih => exact hgo.coherent ih

end Document

/-! ## Consistent libraries -/

/-- Labels are distinct identifiers, channels are not empty and name sequences, the index finds
each sequence at its place, and no sequence holds the note that stands for no note. -/
structure Library.Consistent (l : Library) : Prop where
  distinct : (l.tracks.map (·.label) ++ l.sequences.map (·.label)).Nodup
  identifiers : ∀ label ∈ l.tracks.map (·.label) ++ l.sequences.map (·.label),
    IsIdentifier label
  channels : ∀ t ∈ l.tracks, ∀ channel ∈ t.channels, channel ≠ [] ∧
    ∀ label ∈ channel, ∃ s, l.sequenceByLabel? label = some s ∧ s.label = label
  index : ∀ i s, l.sequences[i]? = some s → l.sequenceIndex? s.label = some i
  notes : ∀ s ∈ l.sequences, Note.empty ∉ s.notes

theorem Draft.Coherent.consistent {draft : Draft} (h : draft.Coherent)
    (hcheck : draft.labels.check = .ok ()) : draft.library.Consistent := by
  have hlabels : draft.library.tracks.map (·.label) ++ draft.library.sequences.map (·.label) =
      draft.labels.labelsOf .track ++ draft.labels.labelsOf .sequence := by
    rw [h.tracks, h.sequences]
  have hperm := draft.labels.labelsOf_perm
  have hdistinct : (draft.library.tracks.map (·.label) ++
      draft.library.sequences.map (·.label)).Nodup := by
    rw [hlabels, hperm.nodup_iff]
    exact h.distinct
  refine ⟨hdistinct, ?_, ?_, ?_, h.notes⟩
  · intro label hl
    rw [hlabels, hperm.mem_iff] at hl
    obtain ⟨d, hd, rfl⟩ := List.mem_map.1 hl
    exact (isLabel_iff _).1 (h.labels d hd)
  · intro t ht channel hc
    obtain ⟨hne, hrefs⟩ := h.channels t ht channel hc
    refine ⟨hne, fun label hl => h.indexed.sequenceByLabel? ?_⟩
    obtain ⟨d, hd, hkind, rfl⟩ := Registry.exists_definition_of_namesSequence
      (Registry.namesSequence_of_check hcheck (hrefs label hl))
    rw [h.sequences]
    exact List.mem_map_of_mem (List.mem_filter.2 ⟨hd, by simpa using hkind⟩)
  · intro i s hs
    exact h.indexed.sequenceIndex?_label (List.nodup_append.1 hdistinct).2.1 hs

namespace Document

variable {read : Provider} {o : Options}

theorem consistent_of_parseText {path : SourcePath} {text : String} {l : Library}
    (h : parseText read o path text = .ok l) : l.Consistent := by
  obtain ⟨t, draft, hlead, hstop, hl⟩ := parseText_eq_ok_iff_leads.1 h
  obtain ⟨_, _, _, _, rfl⟩ := turn_eq_stop_ok_iff.1 hstop
  obtain ⟨hcheck, rfl⟩ := conclude_eq_ok.1 hl
  exact (Leads.coherent hlead Draft.Coherent.empty).consistent hcheck

/-- **Integrity.** Every library that the reading of a root source or of a text comes to is
consistent. -/
theorem consistent_of_parse {l : Library}
    (h : (∃ root, parse read o root = .ok l) ∨
      ∃ path text, parseText read o path text = .ok l) : l.Consistent := by
  rcases h with ⟨root, hroot⟩ | ⟨path, text, htext⟩
  · obtain ⟨text, _, htext⟩ := parse_eq_ok.1 hroot
    exact consistent_of_parseText htext
  · exact consistent_of_parseText htext

theorem consistent_duetLibrary :
    parse duet.read ⟨2, false⟩ ⟨"song"⟩ = .ok duetLibrary ∧ duetLibrary.Consistent :=
  ⟨parse_duet, consistent_of_parse (.inl ⟨⟨"song"⟩, parse_duet⟩)⟩

end Document

end Songsheet
