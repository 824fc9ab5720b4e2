import Mathlib.Data.Finset.Card
import Mathlib.Data.Finset.Dedup
import Songsheet.Proofs.Document.Stack

/-!
# Room for all sources

With the check for cycles the sources that are being read are all different. Those that a shelf
gives stand on the shelf, each under its own path, so there are never more of them than the shelf
holds; and a limit on the depth that leaves room for so many refuses none.

* `Shelf.mem_of_read` — what is read under a path in normal form stands on the shelf under it.
* `length_activePaths_le` — no more sources are being read than the shelf holds.
* `depth_suffices` — with the check for cycles, a limit of at least the number of sources never
  shows.
-/

namespace Songsheet

/-- The sources of a shelf stand under normalized paths, and a path in normal form stands for
itself. -/
theorem Shelf.mem_of_read {shelf : Shelf} {path : SourcePath} {text : String}
    (hpath : path.Normal) (h : shelf.read path = .ok text) :
    path ∈ shelf.sources.map Prod.fst := by
  unfold Shelf.read at h
  rw [SourcePath.normal_iff.1 hpath] at h
  cases hfound : shelf.sources.find? (·.1 == path) with
  | none => simp [hfound] at h
  | some entry =>
    obtain rfl : entry.1 = path := by simpa using List.find?_some hfound
    exact List.mem_map_of_mem (List.mem_of_find?_eq_some hfound)

namespace Document

variable {read : Provider} {o : Options} {s : State}

/-- The provider gives the text of every source that is being read, if it gave that of the first. -/
theorem Leads.exists_read {root path : SourcePath} {text : String}
    (h : Leads read o (.start root text) s) (hread : read root = .ok text)
    (hpath : path ∈ s.activePaths) : ∃ text', read path = .ok text' := by
  obtain ⟨source, hsource, rfl⟩ := State.exists_of_mem_activePaths hpath
  obtain ⟨front, back, hs⟩ := List.append_of_mem hsource
  obtain ⟨e, text', hopened⟩ := h.exists_opened hs
  exact ⟨text', hopened.read_eq rfl hread⟩

/-- With the check for cycles, no more sources are being read than stand on the shelf. -/
theorem length_activePaths_le {shelf : Shelf} {root : SourcePath} {text : String}
    (ho : o.detectIncludeCycles) (hread : shelf.read root.normalize = .ok text)
    (h : Leads shelf.read o (.start root.normalize text) s) :
    s.activePaths.length ≤ (shelf.sources.map Prod.fst).toFinset.card := by
  -- the paths are different from each other, and each is that of a source on the shelf
  have hdifferent : s.activePaths.Pairwise fun p q => p.same q = false :=
    h.pairwise ho (List.pairwise_singleton _ _)
  have hnodup : s.activePaths.Nodup := by
    refine hdifferent.imp fun {p q} hsame => ?_
    rintro rfl
    simp [SourcePath.same] at hsame
  have hmem : s.activePaths.toFinset ⊆ (shelf.sources.map Prod.fst).toFinset := by
    intro path hpath
    rw [List.mem_toFinset] at hpath ⊢
    obtain ⟨found, hfound⟩ := h.exists_read hread hpath
    exact Shelf.mem_of_read ((h.normal normal_start).of_mem hpath) hfound
  rw [← List.toFinset_card_of_nodup hnodup]
  exact Finset.card_le_card hmem

/-- **Room for all sources.** With the check for cycles, a limit on the depth that is at least the
number of sources on the shelf never refuses a source, whatever the sources contain. -/
theorem depth_suffices (shelf : Shelf) (o : Options) (root : SourcePath)
    (hdetect : o.detectIncludeCycles)
    (hroom : (shelf.sources.map Prod.fst).toFinset.card ≤ o.maxIncludeDepth) (d : Diagnostic)
    (h : parse shelf.read o root = .error d) : d.kind ≠ .includeDepthExceeded := by
  intro hkind
  obtain ⟨text, s, hread, hlead, hfails⟩ :=
    exists_failure_of_parse h (by simp [hkind]) (by simp [hkind])
  have hshows := hfails.shows
  rw [hkind] at hshows
  obtain ⟨hdeep, -⟩ := hshows
  have hlength : s.activePaths.length = s.suspended.length + 1 := by
    simp [State.activePaths, State.active]
  have hle := length_activePaths_le hdetect hread hlead
  omega

theorem depth_suffices_ring :
    (ring.sources.map Prod.fst).toFinset.card = 2 ∧
      ∃ d, parse ring.read ⟨2, true⟩ ⟨"ring"⟩ = .error d ∧ d.kind ≠ .includeDepthExceeded :=
  ⟨rfl, _, parse_ring, depth_suffices ring ⟨2, true⟩ ⟨"ring"⟩ rfl (by decide) _ parse_ring⟩

end Document

end Songsheet
