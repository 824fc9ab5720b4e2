import Songsheet.Proofs.Document.Course

/-!
# Paths spelled differently

A path may be spelled in many ways that lead to the same place. Where sources are held in memory, it
does not matter under which of its spellings a source is put there or asked for, nor which spelling
an include uses: the library is the same, or the error is of the same kind in the same source.

* `Shelf.ofHistory` — sources put on a shelf one after another; `Shelf.read_ofHistory_eq_ok` — under
  a path the last of them is found that leads to the same place.
* `MeetsInclude` — an include that a reading meets.
* `Respelled` — two texts of a source that differ in the targets of such includes only.
* `matches_of_respelled` — a turn comes to the same in both.
* `respelled_parse` — and so does the document.
-/

namespace Songsheet

/-! ## Sources put on a shelf -/

namespace Shelf

variable {history : List (SourcePath × String)} {shelf : Shelf} {path : SourcePath} {text : String}
  {fault : ReadFault}

/-- Sources put on an empty shelf one after another. -/
def ofHistory (history : List (SourcePath × String)) : Shelf :=
  history.foldl (fun shelf entry => shelf.insert entry.1 entry.2) empty

theorem ofHistory_append (history : List (SourcePath × String)) (entry : SourcePath × String) :
    ofHistory (history ++ [entry]) = (ofHistory history).insert entry.1 entry.2 :=
  List.foldl_append

/-- What was put on the shelf last is found under every path to the same place, and everything else
is found as before. -/
theorem read_insert (shelf : Shelf) (inserted : SourcePath) (text : String) (path : SourcePath) :
    (shelf.insert inserted text).read path =
      if inserted.normalize = path.normalize then .ok text else shelf.read path := by
  unfold insert read
  by_cases hsame : inserted.normalize = path.normalize
  · rw [if_pos hsame, List.find?_cons_of_pos (by simpa using hsame)]
  · have hfind : (shelf.sources.filter (·.1 != inserted.normalize)).find? (·.1 == path.normalize) =
        shelf.sources.find? (·.1 == path.normalize) := by
      rw [List.find?_filter]
      congr 1
      funext entry
      by_cases hentry : entry.1 = path.normalize
      · simp [hentry, Ne.symm hsame]
      · simp [hentry]
    rw [if_neg hsame, List.find?_cons_of_neg (by simpa using hsame)]
    simp only [hfind]

/-- The text was put on the shelf under a path to the same place, and no other one was since. -/
def LastPut (history : List (SourcePath × String)) (path : SourcePath) (text : String) : Prop :=
  ∃ front put back, history = front ++ (put, text) :: back ∧ put.normalize = path.normalize ∧
    ∀ entry ∈ back, entry.1.normalize ≠ path.normalize

theorem lastPut_append {entry : SourcePath × String} :
    LastPut (history ++ [entry]) path text ↔
      if entry.1.normalize = path.normalize then text = entry.2 else LastPut history path text := by
  constructor
  · intro ⟨front, put, back, hsplit, hput, hback⟩
    rcases List.eq_nil_or_concat back with rfl | ⟨others, last, rfl⟩
    · obtain ⟨-, hlast⟩ := List.append_inj' hsplit rfl
      obtain rfl := List.singleton_inj.1 hlast
      rw [if_pos hput]
    · rw [List.concat_eq_append, ← List.cons_append, ← List.append_assoc] at hsplit
      obtain ⟨rfl, hlast⟩ := List.append_inj' hsplit rfl
      obtain rfl := List.singleton_inj.1 hlast
      rw [if_neg (hback entry (by simp))]
      exact ⟨front, put, others, rfl, hput, fun e he => hback e (by simp [he])⟩
  · intro h
    by_cases hsame : entry.1.normalize = path.normalize
    · rw [if_pos hsame] at h
      exact ⟨history, entry.1, [], by rw [h], hsame, by simp⟩
    · rw [if_neg hsame] at h
      obtain ⟨front, put, back, rfl, hput, hback⟩ := h
      refine ⟨front, put, back ++ [entry], by simp, hput, ?_⟩
      intro e he
      rcases List.mem_append.1 he with he | he
      · exact hback e he
      · obtain rfl := List.mem_singleton.1 he
        exact hsame

theorem read_ofHistory_eq_ok :
    (ofHistory history).read path = .ok text ↔ LastPut history path text := by
  induction history using List.reverseRecOn with
  | nil =>
    constructor
    · intro h
      cases h
    · intro ⟨front, put, back, hsplit, _⟩
      simp at hsplit
  | append_singleton history entry ih =>
    rw [ofHistory_append, read_insert, lastPut_append]
    by_cases hsame : entry.1.normalize = path.normalize
    · rw [if_pos hsame, if_pos hsame, Except.ok.injEq, eq_comm]
    · rw [if_neg hsame, if_neg hsame, ih]

theorem read_ofHistory_eq_error :
    (ofHistory history).read path = .error fault ↔
      (∀ entry ∈ history, entry.1.normalize ≠ path.normalize) ∧ fault = .noSource path := by
  induction history using List.reverseRecOn with
  | nil => simp [ofHistory, empty, read, eq_comm]
  | append_singleton history entry ih =>
    rw [ofHistory_append, read_insert, List.forall_mem_append]
    by_cases hsame : entry.1.normalize = path.normalize
    · simp [hsame]
    · rw [if_neg hsame, ih]
      simp [hsame]

end Shelf

namespace Document

open Reading

variable {read : Provider} {o : Options} {root source : SourcePath} {rest rest' : List Char}
  {s s' : State}

/-! ## Targets spelled differently -/

/-- In the reading of a root source, an include of a source is met, behind whose mark this text
stands. -/
def MeetsInclude (read : Provider) (o : Options) (root source : SourcePath) (behind : List Char) :
    Prop :=
  ∃ text s p c, read root.normalize = .ok text ∧ Leads read o (.start root.normalize text) s ∧
    s.current.path = source ∧ nextToken s.current.cursor = .ok ⟨.includeMark, p⟩ c ∧
    c.rest = behind

/-- Two targets that name the same source, as seen from the source that includes it. -/
structure SameTarget (source : SourcePath) (target target' : List Char) : Prop where
  first : '>' ∉ target
  first' : '>' ∉ target'
  named : source.resolve (Text.trim (String.ofList target)) =
    source.resolve (Text.trim (String.ofList target'))

/-- Two texts of a source that differ in the targets of some of its includes, each of which is met. -/
inductive Respelled (met : List Char → Prop) (source : SourcePath) : List Char → List Char → Prop
  | done : Respelled met source [] []
  | keep {rest rest' : List Char} (c : Char) (behind : Respelled met source rest rest') :
      Respelled met source (c :: rest) (c :: rest')
  | target {target target' rest rest' : List Char} (meets : met (target ++ '>' :: rest))
      (same : SameTarget source target target') (behind : Respelled met source rest rest') :
      Respelled met source ('<' :: (target ++ '>' :: rest)) ('<' :: (target' ++ '>' :: rest'))

variable {met : List Char → Prop}

theorem Respelled.append (h : Respelled met source rest rest') (front : List Char) :
    Respelled met source (front ++ rest) (front ++ rest') := by
  induction front with
  | nil => exact h
  | cons c front ih => exact .keep c ih

theorem Respelled.refl (text : List Char) : Respelled met source text text := by
  have h : Respelled met source (text ++ []) (text ++ []) := Respelled.done.append text
  rwa [List.append_nil] at h

/-- The texts are the same, or they are the same up to an include. -/
theorem Respelled.exists_first (h : Respelled met source rest rest') :
    rest = rest' ∨ ∃ front target target' back back',
      rest = front ++ '<' :: (target ++ '>' :: back) ∧
      rest' = front ++ '<' :: (target' ++ '>' :: back') ∧ met (target ++ '>' :: back) ∧
      SameTarget source target target' ∧ Respelled met source back back' := by
  induction h with
  | done => exact .inl rfl
  | keep c behind ih =>
    rcases ih with rfl | ⟨front, target, target', back, back', rfl, rfl, hfirst⟩
    · exact .inl rfl
    · exact .inr ⟨c :: front, target, target', back, back', rfl, rfl, hfirst⟩
  | @target target target' rest rest' meets same behind =>
    exact .inr ⟨[], target, target', rest, rest', rfl, rfl, meets, same, behind⟩

/-! ## One turn -/

section Turn

variable {target back front : List Char} {p : Position} {c d next : Cursor}

/-- Behind the mark of an include, the target is read up to the first `>`. -/
theorem State.passage_of_target (token : nextToken s.current.cursor = .ok ⟨.includeMark, p⟩ d)
    (hfirst : '>' ∉ target) (hd : d.rest = target ++ '>' :: back) :
    s.passage s.current.cursor =
      .ok (.names p (s.current.path.resolve (Text.trim (String.ofList target))))
        (d.past (target ++ ['>']) back) := by
  have hreads : s.readPath p d =
      .ok (s.current.path.resolve (Text.trim (String.ofList target)))
        (d.past (target ++ ['>']) back) :=
    State.readPath_eq_ok.2 ⟨target, ⟨hd, hfirst, rfl⟩, rfl⟩
  rw [passage_of_include token, bind_apply, hreads]
  rfl

/-- The course of a source goes on behind the `>` of an include. -/
theorem Advances.rest_of_target (h : Advances source c next)
    (token : nextToken c = .ok ⟨.includeMark, p⟩ d) (hfirst : '>' ∉ target)
    (hd : d.rest = target ++ '>' :: back) : next.rest = back := by
  have htarget : Advances source c (d.past (target ++ ['>']) back) :=
    .target token (through_of_text hfirst hd)
  rw [advances_rightUnique source h htarget]
  rfl

/-- An include is met in front of another text behind its mark as well. -/
theorem nextToken_of_include {behind : List Char} {c' : Cursor}
    (token : nextToken c = .ok ⟨.includeMark, p⟩ d) (hc : c.rest = front ++ '<' :: d.rest)
    (hc' : c'.rest = front ++ '<' :: behind) :
    ∃ p' d', nextToken c' = .ok ⟨.includeMark, p'⟩ d' ∧ d'.rest = behind := by
  obtain ⟨comments, hgap⟩ := comments_of_mark (x := '<') rfl token
  obtain rfl : front = comments := List.append_cancel_right (hc.symm.trans (append_of_gapAt hgap))
  have hend : LineEnd ('<' :: d.rest) → LineEnd ('<' :: behind) := SameStart.lineEnd (.inl rfl)
  have hgap' : gapAt (fun _ => false) c'.rest = .upTo front ('<' :: behind) := by
    rw [hc', gapAt_append (fun _ h => h) rfl hgap hend, gapAt_cons rfl (by decide),
      Gap.behind_upTo, List.append_nil]
  exact nextToken_of_mark rfl hgap'

end Turn

/-- What a turn reads in a text whose targets are spelled differently: the same, up to places. -/
theorem matches_of_respelled (hcourse : OnCourse read s.current)
    (hpath : s.current.path = s'.current.path) (hdraft : s.draft.Alike .blind s'.draft)
    (h : Respelled (MeetsInclude read o root s.current.path) s.current.path s.current.cursor.rest
      s'.current.cursor.rest) :
    Matches .blind (PassagesAlike .blind)
      (fun c c' => Respelled (MeetsInclude read o root s.current.path) s.current.path c.rest c'.rest)
      (s.passage s.current.cursor) (s'.passage s'.current.cursor) := by
  rcases h.exists_first with
    hrest | ⟨front, target, target', back, back', hc, hc', hmeets, hsame, hback⟩
  · have hread := (reads_passage readsParts_sameRest hpath hdraft).matches_sameRest hrest
    apply hread.mono (fun _ _ hx => hx)
    intro c c' hsame
    rw [show c.rest = c'.rest from hsame]
    exact .refl _
  · obtain ⟨text, t, p, d, hroot, hlead, ht, token, hd⟩ := hmeets
    -- where the turn stands, as seen from the include
    rcases hcourse.compare (hlead.onCourse hroot) ht.symm with
      hplace | ⟨next, hnext, hahead⟩ | ⟨next, hnext, hbehind⟩
    · rw [← hplace] at token
      obtain ⟨p', d', token', hd'⟩ := nextToken_of_include token (hd ▸ hc) hc'
      rw [State.passage_of_target token hsame.first hd,
        State.passage_of_target token' hsame.first' hd', ← hpath, hsame.named]
      exact ⟨⟨rfl, rfl⟩, hback⟩
    · -- the turn stops in front of the include
      have hlook : LookAlike ('<' :: (target ++ '>' :: back)) ('<' :: (target' ++ '>' :: back')) :=
        ⟨.inl rfl, fun hslash => by cases hslash⟩
      have hwithin : '<' :: (target ++ '>' :: back) <:+
          (cursorLeft (s.passage s.current.cursor)).rest := by
        obtain ⟨comments, hgap⟩ := comments_of_mark (x := '<') rfl token
        obtain ⟨read, hread, -⟩ := hnext.of_passage.trans hahead
        rw [hread, append_of_gapAt hgap, hd, ← List.append_assoc]
        exact List.suffix_append _ _
      have hread := (reads_passage (Pairing.readsParts_abreast (b := .blind) hlook) hpath
        hdraft).result _ _ ⟨⟨front, hc, hc'⟩, rfl⟩ hwithin
      apply hread.mono (fun _ _ hx => hx)
      intro c c' ⟨⟨front, hc, hc'⟩, _⟩
      rw [hc, hc']
      exact (Respelled.target ⟨text, t, p, d, hroot, hlead, ht, token, hd⟩ hsame hback).append front
    · -- the turn would stand behind the include
      have hlength := hbehind.length_le
      rw [hnext.rest_of_target token hsame.first hd, hc] at hlength
      simp only [List.length_append, List.length_cons] at hlength
      omega

/-! ## Whole documents -/

/-- A source put on a shelf, and the same source under a path to the same place, with the targets of
includes that are met spelled differently. -/
def EntryRespelled (read : Provider) (o : Options) (root : SourcePath)
    (entry entry' : SourcePath × String) : Prop :=
  entry'.1.normalize = entry.1.normalize ∧
    Respelled (MeetsInclude read o root entry.1.normalize) entry.1.normalize entry.2.toList
      entry'.2.toList

/-- Shelves filled with such sources give texts that differ in spellings only. -/
theorem provide_of_respelled {shelf shelf' : Shelf} {history history' : List (SourcePath × String)}
    (h : List.Forall₂ (EntryRespelled read o root) history history') (hpath : source.Normal)
    (hshelves : ProvideAlike shelf.read shelf'.read (bySource (fun path c c' =>
      Respelled (MeetsInclude read o root path) path c.rest c'.rest) []) source) :
    ProvideAlike (history.foldl (fun shelf entry => shelf.insert entry.1 entry.2) shelf).read
      (history'.foldl (fun shelf entry => shelf.insert entry.1 entry.2) shelf').read
      (bySource (fun path c c' =>
        Respelled (MeetsInclude read o root path) path c.rest c'.rest) []) source := by
  induction h generalizing shelf shelf' with
  | nil => exact hshelves
  | @cons entry entry' history history' hentry _ ih =>
    apply ih
    obtain ⟨hput, htext⟩ := hentry
    unfold ProvideAlike
    rw [Shelf.read_insert, Shelf.read_insert, hput, SourcePath.normal_iff.1 hpath]
    by_cases hsame : entry.1.normalize = source
    · rw [if_pos hsame, if_pos hsame]
      subst hsame
      exact .inr ⟨entry.2, entry'.2, rfl, rfl, rfl, htext⟩
    · rw [if_neg hsame, if_neg hsame]
      exact hshelves

/-- **Paths may be spelled differently.** Under a path, a shelf gives the text that was put there
last under a path to the same place, and otherwise says that nothing is there. Where sources are put
there under other paths to the same places, the root source is asked for under another such path, and
includes that are met name the same sources in another way, the document comes to the same library,
or to an error of the same kind in the same source. -/
theorem respelled_parse (history : List (SourcePath × String)) :
    (∀ path text, (Shelf.ofHistory history).read path = .ok text ↔
      Shelf.LastPut history path text) ∧
    (∀ path fault, (Shelf.ofHistory history).read path = .error fault ↔
      (∀ entry ∈ history, entry.1.normalize ≠ path.normalize) ∧
        fault = .noSource path ∧ fault.name = "NotFound") ∧
    ∀ (o : Options) (root root' : SourcePath) (history' : List (SourcePath × String)),
      root'.normalize = root.normalize →
      List.Forall₂ (EntryRespelled (Shelf.ofHistory history).read o root) history history' →
      SameOutcome (parse (Shelf.ofHistory history).read o root)
        (parse (Shelf.ofHistory history').read o root') := by
  refine ⟨fun path text => Shelf.read_ofHistory_eq_ok, fun path fault => ?_, ?_⟩
  · rw [Shelf.read_ofHistory_eq_error]
    constructor
    · intro ⟨hnone, hfault⟩
      exact ⟨hnone, hfault, hfault ▸ rfl⟩
    · intro ⟨hnone, hfault, _⟩
      exact ⟨hnone, hfault⟩
  · intro o root root' history' hroot hrespelled
    refine parse_alike (b := .blind) (K := fun path c c' =>
      Respelled (MeetsInclude (Shelf.ofHistory history).read o root path) path c.rest c'.rest)
      hroot.symm ?_ ?_
    · intro path hpath
      exact provide_of_respelled hrespelled hpath (.inl ⟨_, rfl, rfl⟩)
    · intro text u u' hread hlead h
      exact matches_of_respelled (hlead.onCourse hread) h.current.1 h.draft h.current.2

/-- A song that includes a part, with paths as short as they can be. -/
def direct : List (SourcePath × String) :=
  [(⟨"song"⟩, "<parts/riff>"), (⟨"parts/riff"⟩, "$a: c")]

/-- The same song and the same part, with other paths to the same places. -/
def winding : List (SourcePath × String) :=
  [(⟨"./song"⟩, "<./parts//riff>"), (⟨"parts/../parts/riff/"⟩, "$a: c")]

theorem entryRespelled_winding :
    List.Forall₂ (EntryRespelled (Shelf.ofHistory direct).read .standard ⟨"song"⟩) direct
      winding := by
  have hsame : SameTarget (SourcePath.mk "song").normalize "parts/riff".toList
      "./parts//riff".toList :=
    ⟨by decide +kernel, by decide +kernel, by decide +kernel⟩
  have hmeets : MeetsInclude (Shelf.ofHistory direct).read .standard ⟨"song"⟩
      (SourcePath.mk "song").normalize ("parts/riff".toList ++ '>' :: []) := by
    have hgap : gapAt (fun _ => false) (Cursor.ofText "<parts/riff>").rest =
        .upTo [] ('<' :: "parts/riff>".toList) := by decide +kernel
    obtain ⟨p, c, token, hc⟩ := nextToken_of_mark rfl hgap
    exact ⟨"<parts/riff>", _, p, c, by decide +kernel, .refl, rfl, token, hc⟩
  exact .cons ⟨by decide +kernel, .target hmeets hsame .done⟩
    (.cons ⟨by decide +kernel, .refl _⟩ .nil)

theorem parse_direct :
    parse (Shelf.ofHistory direct).read .standard ⟨"song"⟩ =
      .ok ⟨[], [⟨"a", [.middleC]⟩], [("a", 0)]⟩ := by
  have hread : (Shelf.ofHistory direct).read (SourcePath.mk "song").normalize =
      .ok "<parts/riff>" := by decide +kernel
  exact parse_of_turns 5 hread (by decide +kernel)

theorem parse_winding :
    parse (Shelf.ofHistory winding).read .standard ⟨"up/../song"⟩ =
      .ok ⟨[], [⟨"a", [.middleC]⟩], [("a", 0)]⟩ := by
  obtain ⟨-, -, hsame⟩ := respelled_parse direct
  have h := hsame .standard ⟨"song"⟩ ⟨"up/../song"⟩ winding (by decide +kernel)
    entryRespelled_winding
  rw [parse_direct] at h
  exact h.eq_ok

end Document

end Songsheet
