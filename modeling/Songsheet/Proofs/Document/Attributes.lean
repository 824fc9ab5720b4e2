import Songsheet.Proofs.Document.Failure
import Songsheet.Proofs.Document.Transcript

/-!
# Attributes and their tracks

Which track an attribute describes is a matter of all sources together: an include may describe the
track of the source that includes it, begin another one, or leave none behind. The draft keeps the
index of the track that is described; the attribute itself is written to the library under it.

* `Leads.last_track` — the index is always that of the last track of the library.
* `turn_eq_missing_iff` — a turn fails for want of a track exactly at an attribute that stands where
  no track is described.
* `attributes_of_document` — every attribute reaches its own track, and none is lost.
-/

namespace Songsheet.Document

variable {read : Provider} {o : Options} {s t : State} {d : Diagnostic} {p : Position} {c : Cursor}
  {items : List Item}

/-! ## The track that is described -/

/-- The track that attributes describe is the last one of the library. -/
theorem Leads.last_track {path : SourcePath} {text : String} {i : Nat}
    (h : Leads read o (.start path text) s) (hi : s.draft.track = some i) :
    i + 1 = s.draft.library.tracks.length := by
  obtain ⟨items, htrail⟩ := exists_trail h
  exact (htrail.records_start.track_eq_some hi).2

/-- No track is described where the latest definition is not that of a track. -/
theorem Trail.track_eq_none_iff {path : SourcePath} {text : String}
    (h : Trail read o (.start path text) items s) :
    s.draft.track = none ↔
      Score.latestKind? items = some .sequence ∨ Score.latestKind? items = none := by
  rw [h.records_start.track]
  cases Score.latestKind? items with
  | none => simp
  | some kind => cases kind <;> simp

/-! ## Failing for want of a track -/

/-- At an attribute, a turn fails for want of a track exactly if none is described. -/
theorem turn_eq_missing_iff
    (ht : Reading.nextToken s.current.cursor = .ok ⟨.attributeMark, p⟩ c) :
    (∃ d, s.turn read o = .stop (.error d) ∧ d.kind = .missingTrackContext) ↔
      s.draft.track = none := by
  constructor
  · intro ⟨d, hturn, hkind⟩
    have hshows := (turn_eq_stop_error_iff.1 hturn).shows
    rw [hkind] at hshows
    exact hshows.1
  · intro htrack
    exact ⟨_, turn_eq_stop_error_iff.2 (.missing ht htrack), rfl⟩

/-! ## Attributes of a whole document -/

/-- A text whose reading fails for want of a track is read up to an attribute, and what is reported
is the place of its mark. -/
theorem exists_attribute_of_parseText {path : SourcePath} {text : String}
    (h : parseText read o path text = .error d) (hkind : d.kind = .missingTrackContext) :
    ∃ items s p c, Trail read o (.start path text) items s ∧
      Reading.nextToken s.current.cursor = .ok ⟨.attributeMark, p⟩ c ∧
      s.turn read o = .stop (.error d) ∧
      d = (Cause.missingTrack.reportedAt p).inSource s.current.path := by
  obtain ⟨s, hlead, hfails⟩ := exists_failure_of_parseText h (by simp [hkind])
  obtain ⟨items, htrail⟩ := exists_trail hlead
  have hshows := hfails.shows
  rw [hkind] at hshows
  obtain ⟨-, p, c, ht, rfl⟩ := hshows
  exact ⟨items, s, p, c, htrail, ht, turn_eq_stop_error_iff.2 hfails, rfl⟩

/-- **Attributes reach their tracks.** In every state that is reached, the track that attributes
describe is the last one of the library. A document that defines a library has a transcript, and its
tracks are those of the transcript: each with its last name, its last tempo and all its channels
among the attributes between its definition and the next one. An attribute is refused for want of a
track exactly where the latest definition before it is that of a sequence or there is none, and
nothing else is ever refused so: a reading that fails for want of a track fails at the mark of an
attribute. -/
theorem attributes_of_document (read : Provider) (o : Options) :
    (∀ path text s i, Leads read o (.start path text) s → s.draft.track = some i →
      i + 1 = s.draft.library.tracks.length) ∧
    (∀ root l, parse read o root = .ok l → (∃ items, Transcript read o root items) ∧
      ∀ items, Transcript read o root items → l.tracks = Score.tracks items) ∧
    (∀ path text items s p c, Trail read o (.start path text) items s →
      Reading.nextToken s.current.cursor = .ok ⟨.attributeMark, p⟩ c →
      ((∃ d, s.turn read o = .stop (.error d) ∧ d.kind = .missingTrackContext) ↔
        Score.latestKind? items = some .sequence ∨ Score.latestKind? items = none)) ∧
    (∀ path text d, parseText read o path text = .error d → d.kind = .missingTrackContext →
      ∃ items s p c, Trail read o (.start path text) items s ∧
        Reading.nextToken s.current.cursor = .ok ⟨.attributeMark, p⟩ c ∧
        s.turn read o = .stop (.error d) ∧
        d = (Cause.missingTrack.reportedAt p).inSource s.current.path) := by
  refine ⟨?_, ?_, ?_, ?_⟩
  · intro path text s i hlead hi
    exact hlead.last_track hi
  · intro root l hparse
    refine ⟨exists_transcript hparse, ?_⟩
    intro items ht
    obtain ⟨-, rfl⟩ := library_of_transcript hparse ht
    rfl
  · intro path text items s p c htrail ht
    rw [turn_eq_missing_iff ht, htrail.track_eq_none_iff]
  · intro path text d h hkind
    exact exists_attribute_of_parseText h hkind

theorem attributes_duet :
    (parse duet.read ⟨2, false⟩ ⟨"song"⟩ = .ok duetLibrary ∧
      ∃ items, Transcript duet.read ⟨2, false⟩ ⟨"song"⟩ items ∧
        duetLibrary.tracks = Score.tracks items) ∧
    ∃ d, (State.start ⟨"song"⟩ "%bpm 90").turn duet.read ⟨2, false⟩ = .stop (.error d) ∧
      d.kind = .missingTrackContext := by
  obtain ⟨-, tracks, missing, -⟩ := attributes_of_document duet.read ⟨2, false⟩
  obtain ⟨⟨items, ht⟩, htracks⟩ := tracks _ _ parse_duet
  obtain ⟨p, c, token, -⟩ := Reading.nextToken_of_markText (x := '%')
    (c := (State.start ⟨"song"⟩ "%bpm 90").current.cursor) rfl .nothing (by simp)
  exact ⟨⟨parse_duet, items, ht, htracks items ht⟩, (missing _ _ _ _ p c .start token).2 (.inr rfl)⟩

/-- Attributes behind a sequence describe nothing, and the name that comes last counts. -/
example : Score.tracks [
      .track "a", .name "A", .channel ["s"], .name "B", .track "b", .sequence "s" [], .tempo 90] =
    [⟨"a", "B", 0, [["s"]]⟩, ⟨"b", "", 0, []⟩] := by
  decide

end Songsheet.Document
