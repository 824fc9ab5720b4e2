import Mathlib.Data.List.Nodup
import Mathlib.Data.List.TakeWhile
import Songsheet.Proofs.Directive.Text

/-!
# What the items of a document say

The items of a document, in the order in which they are read, say what the document defines, and
they say it without any reading: which labels are defined, which attributes belong to which track,
and which note inherits its octave and its duration from where.

* `Score.heard` — the notes of a document, numbered through all its sequences.
* `Score.sequences`, `Score.tracks`, `Score.library` — what the items define.
* `Score.Legal`, `Score.Sound` — no label is defined twice, and attributes have a track; on top of
  that, every reference is answered.
* `sequences_concat_sequence`, `tracks_concat_track`, `tracks_concat_attribute` — what one more item
  adds.
-/

namespace Songsheet

/-! ## Items one by one -/

namespace Item

/-- What an item defines: its kind and its label. Attributes define nothing. -/
def definition? : Item → Option (LabelKind × String)
  | .track label => some (.track, label)
  | .sequence label _ => some (.sequence, label)
  | _ => none

/-- The label of the sequence that an item defines. -/
def sequenceLabel? : Item → Option String
  | .sequence label _ => some label
  | _ => none

/-- The notes of an item. -/
def notes : Item → List NoteForm
  | .sequence _ forms => forms
  | _ => []

/-- The labels to which an item refers. -/
def references : Item → List String
  | .channel labels => labels
  | _ => []

/-- Whether an item describes a track. -/
def isAttribute (it : Item) : Bool :=
  it.definition?.isNone

def name? : Item → Option String
  | .name text => some text
  | _ => none

def tempo? : Item → Option UInt32
  | .tempo beats => some beats
  | _ => none

def channel? : Item → Option (List String)
  | .channel labels => some labels
  | _ => none

variable {it : Item}

theorem isAttribute_of_directive {value : Attribute} (h : it.directive = .describe value) :
    it.isAttribute := by
  cases it with
  | track | sequence => cases h
  | name | tempo | channel => rfl

/-- An attribute defines nothing and has no notes. -/
theorem definition?_of_isAttribute (h : it.isAttribute) :
    it.definition? = none ∧ it.sequenceLabel? = none ∧ it.notes = [] := by
  cases it with
  | track | sequence => cases h
  | name | tempo | channel => exact ⟨rfl, rfl, rfl⟩

end Item

namespace Score

variable {items front back attributes : List Item} {it : Item} {forms more : List NoteForm}

/-! ## Labels -/

/-- The definitions among the items, in order. -/
def definitions (items : List Item) : List (LabelKind × String) :=
  items.filterMap Item.definition?

/-- What the latest definition defines. -/
def latestKind? (items : List Item) : Option LabelKind :=
  (definitions items).getLast?.map Prod.fst

/-- The labels to which the items refer. -/
def references (items : List Item) : List String :=
  items.flatMap Item.references

/-- An item may stand behind others: a label has not been defined before, and an attribute
describes a track. -/
def Allowed (before : List Item) (it : Item) : Prop :=
  match it.definition? with
  | some (_, label) => label ∉ (definitions before).map Prod.snd
  | none => latestKind? before = some .track

/-- No label is defined twice, and every attribute stands behind the definition of a track, with no
sequence between them. -/
structure Legal (items : List Item) : Prop where
  distinct : ((definitions items).map Prod.snd).Nodup
  described : ∀ front it back, items = front ++ it :: back → it.isAttribute →
    latestKind? front = some .track

/-- Legal items, with a sequence for every reference. -/
structure Sound (items : List Item) : Prop extends Legal items where
  answered : ∀ label ∈ references items, (.sequence, label) ∈ definitions items

/-! ## Notes -/

/-- The notes of all items. -/
def notes (items : List Item) : List NoteForm :=
  items.flatMap Item.notes

/-- What the latest of some notes that answers at all answers, and a default if none does. -/
def latest {α : Type} (answer : NoteForm → Option α) (default : α) (forms : List NoteForm) : α :=
  (forms.filterMap answer).getLastD default

/-- The notes that stand for the notes of a document. The pitch of each is that of its own key; its
octave and its duration are, each on its own, the latest that were written up to this note. -/
def heard (forms : List NoteForm) : List Note :=
  forms.mapIdx fun k f =>
    ⟨f.pitch, latest (·.octave) 4 (forms.take (k + 1)),
      latest (·.duration) ⟨0, 32⟩ (forms.take (k + 1))⟩

/-- Each sequence takes its own of the notes and leaves out those that stand for no note. -/
def cut : List Item → List Note → List NoteSequence
  | [], _ => []
  | it :: items, heard =>
    let behind := cut items (heard.drop it.notes.length)
    match it with
    | .sequence label forms =>
      ⟨label, (heard.take forms.length).filter fun n => !n.isEmpty⟩ :: behind
    | _ => behind

/-- The sequences of a document. -/
def sequences (items : List Item) : List NoteSequence :=
  cut items (heard (notes items))

/-! ## Tracks -/

/-- A track with its attributes: the last name and the last tempo count, and all channels. -/
def described (label : String) (attributes : List Item) : Track where
  label := label
  name := (attributes.filterMap Item.name?).getLastD ""
  tempo := (attributes.filterMap Item.tempo?).getLastD 0
  channels := attributes.filterMap Item.channel?

/-- The tracks of a document: to each belong the attributes between its definition and the next
definition of a track or a sequence. -/
def tracks : List Item → List Track
  | [] => []
  | .track label :: items => described label (items.takeWhile Item.isAttribute) :: tracks items
  | _ :: items => tracks items

/-- The library that the items define. -/
def library (items : List Item) : Library where
  tracks := tracks items
  sequences := sequences items
  index := ((sequences items).map (·.label)).zipIdx

/-! ## One more definition -/

theorem definitions_append (front back : List Item) :
    definitions (front ++ back) = definitions front ++ definitions back :=
  List.filterMap_append

theorem latestKind?_concat (items : List Item) (it : Item) :
    latestKind? (items ++ [it]) =
      match it.definition? with
      | some (kind, _) => some kind
      | none => latestKind? items := by
  unfold latestKind?
  rw [definitions_append]
  cases hd : it.definition? <;> simp [definitions, hd]

theorem legal_nil : Legal [] where
  distinct := List.nodup_nil
  described := by simp

/-- What holds of every entry behind the entries in front of it, with one more entry at the end. -/
theorem forall_split_concat {α : Type} {P : List α → α → Prop} {l : List α} {a : α} :
    (∀ front x back, l ++ [a] = front ++ x :: back → P front x) ↔
      (∀ front x back, l = front ++ x :: back → P front x) ∧ P l a := by
  constructor
  · intro h
    refine ⟨?_, h l a [] rfl⟩
    intro front x back heq
    exact h front x (back ++ [a]) (by simp [heq])
  · rintro ⟨h, ha⟩ front x back heq
    rcases List.eq_nil_or_concat back with rfl | ⟨between, last, rfl⟩
    · obtain ⟨rfl, hlast⟩ := List.append_inj' heq rfl
      obtain rfl : a = x := by simpa using hlast
      exact ha
    · have hcut : l ++ [a] = (front ++ x :: between) ++ [last] := by simp [heq]
      exact h front x between (List.append_inj' hcut rfl).1

theorem legal_iff : Legal items ↔ ((definitions items).map Prod.snd).Nodup ∧
    ∀ front it back, items = front ++ it :: back → it.isAttribute →
      latestKind? front = some .track :=
  ⟨fun h => ⟨h.distinct, h.described⟩, fun h => ⟨h.1, h.2⟩⟩

/-- Items are legal if each of them may stand behind those in front of it. -/
theorem legal_concat : Legal (items ++ [it]) ↔ Legal items ∧ Allowed items it := by
  rw [legal_iff, legal_iff, forall_split_concat, definitions_append, List.map_append, Allowed,
    Item.isAttribute, and_assoc]
  cases hd : it.definition? with
  | none =>
    have hlabels : (definitions [it]).map Prod.snd = [] := by simp [definitions, hd]
    rw [hlabels, List.append_nil]
    simp
  | some d =>
    have hlabels : (definitions [it]).map Prod.snd = [d.2] := by simp [definitions, hd]
    rw [hlabels, ← List.concat_eq_append, List.nodup_concat]
    constructor
    · rintro ⟨⟨hnew, hdistinct⟩, hdescribed, -⟩
      exact ⟨hdistinct, hdescribed, hnew⟩
    · rintro ⟨hdistinct, hdescribed, hnew⟩
      exact ⟨⟨hnew, hdistinct⟩, hdescribed, fun h => by cases h⟩

/-- Items in front of others are legal if all of them are. -/
theorem legal_of_append (h : Legal (front ++ back)) : Legal front := by
  have hdistinct := h.distinct
  rw [definitions_append, List.map_append, List.nodup_append] at hdistinct
  refine ⟨hdistinct.1, ?_⟩
  intro before it behind heq hattribute
  exact h.described before it (behind ++ back) (by simp [heq]) hattribute

/-! ## One more note -/

theorem latest_concat {α : Type} (answer : NoteForm → Option α) (default : α)
    (forms : List NoteForm) (f : NoteForm) :
    latest answer default (forms ++ [f]) = (answer f).getD (latest answer default forms) := by
  unfold latest
  rw [List.filterMap_append]
  cases ha : answer f <;> simp [ha, List.getLastD_eq_getLast?]

@[simp] theorem length_heard (forms : List NoteForm) : (heard forms).length = forms.length := by
  simp [heard]

theorem heard_concat (forms : List NoteForm) (f : NoteForm) :
    heard (forms ++ [f]) = heard forms ++
      [⟨f.pitch, latest (·.octave) 4 (forms ++ [f]), latest (·.duration) ⟨0, 32⟩ (forms ++ [f])⟩] := by
  have hwhole : (forms ++ [f]).take (forms.length + 1) = forms ++ [f] := by
    rw [List.take_of_length_le (by simp)]
  unfold heard
  rw [List.mapIdx_append, List.mapIdx_singleton, Nat.zero_add, hwhole]
  congr 1
  rw [List.mapIdx_eq_mapIdx_iff]
  intro k hk
  rw [List.take_append_of_le_length (by omega)]

/-- The last note carries the octave and the duration that the next one inherits. -/
theorem inherited (forms : List NoteForm) :
    ((heard forms).getLastD .middleC).octave = latest (·.octave) 4 forms ∧
      ((heard forms).getLastD .middleC).duration = latest (·.duration) ⟨0, 32⟩ forms := by
  rcases List.eq_nil_or_concat forms with rfl | ⟨before, f, rfl⟩
  · exact ⟨rfl, rfl⟩
  · rw [List.concat_eq_append, heard_concat, List.getLastD_concat]
    exact ⟨rfl, rfl⟩

/-- Notes sound the same behind the last note as behind all that came before. -/
theorem heard_append (forms more : List NoteForm) :
    heard (forms ++ more) =
      heard forms ++ sounding ((heard forms).getLastD .middleC) (more.map NoteForm.written) := by
  induction more generalizing forms with
  | nil => simp [sounding]
  | cons f more ih =>
    have hsounds : heard (forms ++ [f]) =
        heard forms ++ [f.written.sounding ((heard forms).getLastD .middleC)] := by
      rw [heard_concat, latest_concat, latest_concat, ← (inherited forms).1, ← (inherited forms).2]
      rfl
    have hwhole := ih (forms ++ [f])
    rw [List.append_assoc, hsounds, List.getLastD_concat, List.append_assoc] at hwhole
    exact hwhole

/-! ## One more sequence -/

theorem notes_append (front back : List Item) : notes (front ++ back) = notes front ++ notes back :=
  List.flatMap_append

theorem notes_cons (it : Item) (items : List Item) : notes (it :: items) = it.notes ++ notes items :=
  List.flatMap_cons

theorem notes_concat (items : List Item) (it : Item) :
    notes (items ++ [it]) = notes items ++ it.notes := by
  rw [notes_append, notes_cons]
  simp [notes]

theorem cut_append (front back : List Item) (heard : List Note) :
    cut (front ++ back) heard = cut front heard ++ cut back (heard.drop (notes front).length) := by
  induction front generalizing heard with
  | nil => rfl
  | cons it front ih =>
    have hbehind := ih (heard.drop it.notes.length)
    rw [List.drop_drop, ← List.length_append, ← notes_cons] at hbehind
    cases it <;> simp [cut, hbehind]

/-- Sequences take no more notes than are their own. -/
theorem cut_of_length {heard : List Note} (h : (notes items).length ≤ heard.length)
    (others : List Note) : cut items (heard ++ others) = cut items heard := by
  induction items generalizing heard with
  | nil => rfl
  | cons it items ih =>
    rw [notes_cons, List.length_append] at h
    have hown : it.notes.length ≤ heard.length := by omega
    have hothers : (notes items).length ≤ (heard.drop it.notes.length).length := by
      rw [List.length_drop]
      omega
    have hbehind := ih hothers
    rw [← List.drop_append_of_le_length hown] at hbehind
    cases it with
    | sequence label forms =>
      have hlength : forms.length ≤ heard.length := hown
      simp only [cut, hbehind, List.take_append_of_le_length hlength]
    | track | name | tempo | channel => simpa only [cut] using hbehind

/-- What one more sequence adds: its own notes behind the last note of all. -/
theorem sequences_concat_sequence (items : List Item) (label : String) (forms : List NoteForm) :
    sequences (items ++ [.sequence label forms]) = sequences items ++
      [⟨label, (sounding ((heard (notes items)).getLastD .middleC)
        (forms.map NoteForm.written)).filter fun n => !n.isEmpty⟩] := by
  have hnotes : notes (items ++ [.sequence label forms]) = notes items ++ forms := notes_concat _ _
  unfold sequences
  rw [hnotes, heard_append, cut_append, cut_of_length (by simp), ← length_heard (notes items),
    List.drop_left]
  congr 1
  have hwhole : forms.length = (sounding ((heard (notes items)).getLastD .middleC)
      (forms.map NoteForm.written)).length := by simp
  simp only [cut]
  rw [hwhole, List.take_length]

theorem sequences_concat_other (items : List Item) (h : it.sequenceLabel? = none) :
    sequences (items ++ [it]) = sequences items := by
  unfold sequences
  rw [notes_concat, cut_append]
  cases it with
  | sequence label forms => simp [Item.sequenceLabel?] at h
  | track | name | tempo | channel => simp [cut, Item.notes]

theorem labels_cut (items : List Item) (heard : List Note) :
    (cut items heard).map (·.label) = items.filterMap Item.sequenceLabel? := by
  induction items generalizing heard with
  | nil => rfl
  | cons it items ih => cases it <;> simp [cut, ih, List.filterMap_cons, Item.sequenceLabel?]

/-- The sequences stand in the order of their definitions. -/
theorem mem_labels_sequences {label : String} :
    label ∈ (sequences items).map (·.label) ↔ (.sequence, label) ∈ definitions items := by
  unfold sequences definitions
  rw [labels_cut, List.mem_filterMap, List.mem_filterMap]
  constructor
  · intro ⟨it, hit, hlabel⟩
    refine ⟨it, hit, ?_⟩
    cases it <;> simp_all [Item.sequenceLabel?, Item.definition?]
  · intro ⟨it, hit, hdefinition⟩
    refine ⟨it, hit, ?_⟩
    cases it <;> simp_all [Item.sequenceLabel?, Item.definition?]

/-! ## One more attribute -/

/-- What an attribute changes of the track that it describes. -/
def describe (it : Item) (t : Track) : Track :=
  match it with
  | .name text => { t with name := text }
  | .tempo beats => { t with tempo := beats }
  | .channel labels => { t with channels := t.channels ++ [labels] }
  | _ => t

theorem described_concat (label : String) (attributes : List Item) (it : Item) :
    described label (attributes ++ [it]) = describe it (described label attributes) := by
  cases it <;>
    simp [described, describe, Item.name?, Item.tempo?, Item.channel?, List.getLastD_eq_getLast?]

/-- A definition ends what is said about the track before it. -/
theorem tracks_append (front : List Item)
    (h : ∀ it, back.head? = some it → it.isAttribute = false) :
    tracks (front ++ back) = tracks front ++ tracks back := by
  have hstop : back.takeWhile Item.isAttribute = [] := by
    cases back with
    | nil => rfl
    | cons it back => simp [h it rfl]
  induction front with
  | nil => rfl
  | cons it front ih =>
    have hattributes : (front ++ back).takeWhile Item.isAttribute =
        front.takeWhile Item.isAttribute := by
      rw [List.takeWhile_append, hstop, List.append_nil]
      split
      · rename_i hall
        exact (List.takeWhile_prefix _).eq_of_length hall |>.symm
      · rfl
    cases it <;> simp [tracks, ih, hattributes]

theorem tracks_of_attributes (h : ∀ it ∈ attributes, it.isAttribute) : tracks attributes = [] := by
  induction attributes with
  | nil => rfl
  | cons it attributes ih =>
    have hit := h it (by simp)
    have hbehind := ih fun other hother => h other (by simp [hother])
    cases it <;> first | exact hbehind | simp [Item.isAttribute, Item.definition?] at hit

/-- A track and what is said about it. -/
theorem tracks_concat_track (front : List Item) (label : String)
    (h : ∀ it ∈ attributes, it.isAttribute) :
    tracks (front ++ .track label :: attributes) = tracks front ++ [described label attributes] := by
  rw [tracks_append front (by simp [Item.isAttribute, Item.definition?])]
  have hall : attributes.takeWhile Item.isAttribute = attributes := List.takeWhile_eq_self_iff.2 h
  rw [tracks, hall, tracks_of_attributes h]

/-- Where the latest definition is that of a track, only attributes stand behind it. -/
theorem exists_track (h : latestKind? items = some .track) :
    ∃ front label attributes, items = front ++ .track label :: attributes ∧
      ∀ it ∈ attributes, it.isAttribute := by
  obtain ⟨⟨kind, label⟩, hlast, rfl⟩ := Option.map_eq_some_iff.1 h
  obtain ⟨before, hbefore⟩ := List.getLast?_eq_some_iff.1 hlast
  obtain ⟨front, behind, rfl, -, hbehind⟩ := List.filterMap_eq_append_iff.1 hbefore
  obtain ⟨between, it, attributes, rfl, -, hit, hnone⟩ := List.filterMap_eq_cons_iff.1 hbehind
  have htrack : it = .track label := by
    cases it <;> simp_all [Item.definition?]
  refine ⟨front ++ between, label, attributes, by simp [htrack], ?_⟩
  intro other hother
  have hother := List.filterMap_eq_nil_iff.1 hnone other hother
  simp [Item.isAttribute, hother]

theorem modify_concat {α : Type} (l : List α) (a : α) (f : α → α) :
    (l ++ [a]).modify l.length f = l ++ [f a] := by
  induction l with
  | nil => rfl
  | cons x l ih => simp [ih]

/-- What one more attribute changes: the track that was defined last, and nothing else. -/
theorem tracks_concat_attribute (h : latestKind? items = some .track) (hit : it.isAttribute) :
    tracks (items ++ [it]) = (tracks items).modify ((tracks items).length - 1) (describe it) := by
  obtain ⟨front, label, attributes, rfl, hattributes⟩ := exists_track h
  have hmore : ∀ other ∈ attributes ++ [it], other.isAttribute := by
    intro other hother
    rcases List.mem_append.1 hother with hother | hother
    · exact hattributes other hother
    · rw [List.mem_singleton.1 hother]
      exact hit
  rw [List.append_assoc, List.cons_append, tracks_concat_track front label hmore,
    tracks_concat_track front label hattributes, described_concat, List.length_append]
  exact (modify_concat (tracks front) (described label attributes) (describe it)).symm

end Score

end Songsheet
