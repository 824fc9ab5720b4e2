import Songsheet.Proofs.Cursor
import Songsheet.Proofs.Directive.Replace
import Songsheet.Proofs.Token.Text

/-!
# The text of references

The references of a channel are labels with gaps between them. Each stands at the site of its first
letter, and the reader finds exactly those that the text has, site by site.

* `ReferencesText` — the text of references; `ReferencesAt` is the same with their sites, from one
  cursor to another.
* `ReferencesAt.referencesText`, `exists_referencesAt` — the two agree apart from the sites.
* `Reading.references_eq_ok_iff` — references are read exactly where they stand, with their sites.
-/

namespace Songsheet

variable {source : SourcePath} {found others : List Reference} {c d : Cursor}
  {text rest after : List Char}

/-! ## Words -/

/-- A text that begins with a blank. -/
def BeginsBlank (text : List Char) : Prop :=
  ∃ c, text.head? = some c ∧ Text.isBlank c

theorem WordEnd.of_beginsBlank (h : BeginsBlank text) : WordEnd text := by
  obtain ⟨c, hc, hblank⟩ := h
  exact .of_head hc hblank

/-- A word that ends in front of a gap with something behind it ends in front of a blank. -/
theorem WordEnd.beginsBlank {c : Char} (h : WordEnd text) (hgap : BehindGap text rest)
    (hrest : rest.head? = some c) : BeginsBlank text := by
  cases text with
  | nil =>
    obtain rfl : [] = rest := BehindGap.unique ⟨[], by rw [gapAt]⟩ hgap
    simp at hrest
  | cons x text => exact ⟨x, rfl, h x rfl⟩

/-- No blank belongs to a label. -/
theorem isBlank_of_mem_label {label : String} (h : IsIdentifier label) :
    ∀ c ∈ label.toList, (!Text.isBlank c) = true := by
  have hlabel := (isLabel_iff label).2 h
  intro c hc
  rw [isLabel] at hlabel
  cases hl : label.toList with
  | nil => simp [hl] at hc
  | cons first others =>
    simp only [hl, Bool.and_eq_true, List.all_eq_true, Bool.or_eq_true, Char.isAlphanum,
      beq_iff_eq] at hlabel
    rw [hl, List.mem_cons] at hc
    rcases hc with rfl | hc
    · simp [isBlank_of_isAlpha hlabel.1]
    · rcases hlabel.2 c hc with (halpha | hdigit) | rfl
      · simp [isBlank_of_isAlpha halpha]
      · simp [isBlank_of_isDigit hdigit]
      · decide

theorem exists_letter_of_isIdentifier {label : String} (h : IsIdentifier label) :
    ∃ first others, label.toList = first :: others ∧ first.isAlpha := by
  obtain ⟨first, others, hlabel, hfirst, -⟩ := h
  exact ⟨first, others, hlabel, (isAlpha_iff first).2 hfirst⟩

/-! ## References and their sites -/

/-- References with gaps between them that begin with a blank; the last one ends a word. -/
inductive ReferencesText : List String → List Char → List Char → Prop
  | last {label : String} {rest : List Char} (valid : IsIdentifier label) (ends : WordEnd rest) :
      ReferencesText [label] (label.toList ++ rest) rest
  | more {label : String} {others : List String} {gap text rest : List Char}
      (valid : IsIdentifier label) (space : BeginsBlank gap)
      (between : GapText Text.isBlank gap text) (behind : ReferencesText others text rest) :
      ReferencesText (label :: others) (label.toList ++ gap) rest

/-- References begin with a letter. -/
theorem head?_of_referencesText {labels : List String} (h : ReferencesText labels text rest) :
    ∃ first, text.head? = some first ∧ first.isAlpha := by
  cases h with
  | last valid | more valid =>
    obtain ⟨first, others, hlabel, hletter⟩ := exists_letter_of_isIdentifier valid
    exact ⟨first, by rw [hlabel]; rfl, hletter⟩

/-- From the first cursor to the second stand references with gaps between them, each at the site of
its first letter. -/
inductive ReferencesAt (source : SourcePath) : List Reference → Cursor → Cursor → Prop
  | last {label : String} {c d : Cursor} (valid : IsIdentifier label) (reads : c.Reaches d)
      (spelled : c.rest = label.toList ++ d.rest) (ends : WordEnd d.rest) :
      ReferencesAt source [⟨label, ⟨source, c.position⟩⟩] c d
  | more {label : String} {others : List Reference} {c d e f : Cursor}
      (valid : IsIdentifier label) (reads : c.Reaches d)
      (spelled : c.rest = label.toList ++ d.rest) (space : BeginsBlank d.rest)
      (skips : d.Reaches e) (between : GapText Text.isBlank d.rest e.rest)
      (behind : ReferencesAt source others e f) :
      ReferencesAt source (⟨label, ⟨source, c.position⟩⟩ :: others) c f

namespace ReferencesAt

theorem referencesText (h : ReferencesAt source found c d) :
    ReferencesText (found.map (·.label)) c.rest d.rest := by
  induction h with
  | last valid reads spelled ends =>
    rw [spelled]
    exact .last valid ends
  | more valid reads spelled space skips between behind ih =>
    rw [spelled]
    exact .more valid space between ih

/-- A reference is spelled at its site. -/
theorem exists_of_mem (h : ReferencesAt source found c d) {r : Reference} (hr : r ∈ found) :
    ∃ e back, c.Reaches e ∧ r.site = ⟨source, e.position⟩ ∧ e.rest = r.label.toList ++ back := by
  induction h with
  | @last label c d valid reads spelled ends =>
    obtain rfl := List.mem_singleton.1 hr
    exact ⟨c, d.rest, .refl c, rfl, spelled⟩
  | @more label others c d e f valid reads spelled space skips between behind ih =>
    rcases List.mem_cons.1 hr with rfl | hr
    · exact ⟨c, d.rest, .refl c, rfl, spelled⟩
    · obtain ⟨g, back, hg, hsite, hrest⟩ := ih hr
      exact ⟨g, back, (reads.trans skips).trans hg, hsite, hrest⟩

end ReferencesAt

/-- The references of a text have their sites. -/
theorem exists_referencesAt (source : SourcePath) {labels : List String}
    (h : ReferencesText labels c.rest rest) :
    ∃ found d, ReferencesAt source found c d ∧ found.map (·.label) = labels ∧ d.rest = rest := by
  generalize hc : c.rest = text at h
  induction h generalizing c with
  | @last label rest valid ends =>
    exact ⟨_, _, .last valid (Cursor.reaches_past hc) hc ends, rfl, rfl⟩
  | @more label others gap text rest valid space between behind ih =>
    have hgap : text <:+ (c.past label.toList gap).rest := between.suffix
    obtain ⟨e, hskips, he⟩ := Cursor.exists_reaches_of_suffix hgap
    obtain ⟨found, d, hfound, hlabels, hd⟩ := ih he
    refine ⟨_, d, .more valid (Cursor.reaches_past hc) hc space hskips ?_ hfound, ?_, hd⟩
    · rw [he]
      exact between
    · simp [hlabels]

/-! ## Reading references -/

namespace Reading

theorem word_of_text {word : String} (hword : ∀ x ∈ word.toList, (!Text.isBlank x) = true)
    (hrest : WordEnd rest) (hc : c.rest = word.toList ++ rest) :
    Reading.word c = .ok word (c.past word.toList rest) := by
  have hrun := run_of_text hword (fun x hx => by simp [hrest x hx]) hc
  rw [String.ofList_toList] at hrun
  exact hrun

theorem text_of_word {text : String} (h : word c = .ok text d) :
    c.rest = text.toList ++ d.rest ∧ WordEnd d.rest :=
  ⟨(rest_of_run h).1, isBlank_of_word h⟩

/-- What is read as a channel is the text of references and the gap behind them, and what follows
begins neither with a gap nor with another reference. -/
theorem referencesText_of_references {source : SourcePath} {found : List Reference}
    (h : references source c = .ok found d) :
    (∃ rest, ReferencesText (found.map (·.label)) c.rest rest ∧ BehindGap rest d.rest) ∧
      ∀ x, d.rest.head? = some x → (x.isAlpha || x == '_') = false := by
  fun_induction references source c generalizing found with
  | case1 c e d₀ hr => simp at h
  | case2 c r d₀ hr hm e d₁ hd ih => simp at h
  | case3 c r d₀ hr hm others d₁ hd ih =>
    obtain ⟨rfl, rfl⟩ := EStateM.Result.ok.inj h
    obtain ⟨⟨rest, hothers, hgap⟩, hstop⟩ := ih hd
    obtain ⟨e, hword, hlabel, hskip, -⟩ := reference_eq_ok.1 hr
    obtain ⟨hrest, hend⟩ := text_of_word hword
    obtain ⟨x, hx, -⟩ : ∃ x, d₀.peek? = some x ∧ (x.isAlpha || x == '_') := by
      simpa [moreReferences, Option.any_eq_true] using hm
    have hbetween := skipGap_eq_ok hskip
    refine ⟨⟨rest, ?_, hgap⟩, hstop⟩
    rw [hrest]
    exact .more ((isLabel_iff _).1 hlabel) (hend.beginsBlank hbetween hx) hbetween.gapText hothers
  | case4 c r d₀ hr hm =>
    obtain ⟨rfl, rfl⟩ := EStateM.Result.ok.inj h
    obtain ⟨e, hword, hlabel, hskip, -⟩ := reference_eq_ok.1 hr
    obtain ⟨hrest, hend⟩ := text_of_word hword
    refine ⟨⟨e.rest, ?_, skipGap_eq_ok hskip⟩, fun x hx => ?_⟩
    · rw [hrest]
      exact .last ((isLabel_iff _).1 hlabel) hend
    · rw [moreReferences, Cursor.peek?, hx] at hm
      simpa using hm

/-- A reference is read at its site. -/
theorem reference_of_spelled {label : String} (hvalid : IsIdentifier label)
    (hreads : c.Reaches d) (hspelled : c.rest = label.toList ++ d.rest) (hend : WordEnd d.rest)
    (hgap : BehindGap d.rest rest) :
    ∃ e, reference source c = .ok ⟨label, ⟨source, c.position⟩⟩ e ∧ d.Reaches e ∧
      e.rest = rest := by
  have hword : word c = .ok label d := by
    have htaken := word_of_text (isBlank_of_mem_label hvalid) hend hspelled
    rwa [(Cursor.reaches_past hspelled).eq_of_rest hreads rfl] at htaken
  obtain ⟨e, he, hrest⟩ := skipGap_of_behindGap hgap
  exact ⟨e, reference_eq_ok.2 ⟨d, hword, (isLabel_iff label).2 hvalid, he, rfl⟩,
    forward_skipGap.ok he, hrest⟩

/-- References are read with their sites where nothing goes on with them. -/
theorem references_of_referencesAt (h : ReferencesAt source found c d)
    (hgap : BehindGap d.rest after)
    (hstop : ∀ x, after.head? = some x → (x.isAlpha || x == '_') = false) :
    ∃ e, references source c = .ok found e ∧ e.rest = after := by
  induction h with
  | last valid reads spelled ends =>
    obtain ⟨e, he, -, hrest⟩ := reference_of_spelled valid reads spelled ends hgap
    have hm : moreReferences e = false := by
      rw [moreReferences, Option.any_eq_false]
      intro x hx
      rw [Cursor.peek?, hrest] at hx
      simpa using hstop x hx
    exact ⟨e, references_of_last he hm, hrest⟩
  | @more label others c d e f valid reads spelled space skips between behind ih =>
    obtain ⟨first, hfirst, hletter⟩ := head?_of_referencesText behind.referencesText
    have hself : BehindGap e.rest e.rest :=
      behindGap_of_head?_eq hfirst (inner_reference.head (by simp [hletter]))
    obtain ⟨e', he', hreaches, hrest⟩ := reference_of_spelled valid reads spelled
      (.of_beginsBlank space) (between.behindGap (fun _ h => h) hself)
    obtain rfl := hreaches.eq_of_rest skips hrest
    obtain ⟨g, hg, hafter⟩ := ih hgap
    have hm : moreReferences e' := by
      rw [moreReferences, Cursor.peek?, hfirst]
      simp [hletter]
    exact ⟨g, references_of_more he' hm hg, hafter⟩

/-- What is read as a channel are exactly the references that stand in the text, with their sites,
and the gap behind them, where nothing goes on with them. -/
theorem references_eq_ok_iff :
    (∃ e, references source c = .ok found e ∧ e.rest = after) ↔
      (∃ d, ReferencesAt source found c d ∧ BehindGap d.rest after) ∧
        ∀ x, after.head? = some x → (x.isAlpha || x == '_') = false := by
  constructor
  · rintro ⟨e, h, rfl⟩
    obtain ⟨⟨rest, htext, hgap⟩, hstop⟩ := referencesText_of_references h
    obtain ⟨sited, d, hsited, -, rfl⟩ := exists_referencesAt source htext
    obtain ⟨e', hread, -⟩ := references_of_referencesAt hsited hgap hstop
    -- the references that stand there are those that are read there
    obtain ⟨rfl, -⟩ := EStateM.Result.ok.inj (h.symm.trans hread)
    exact ⟨⟨d, hsited, hgap⟩, hstop⟩
  · rintro ⟨⟨d, hfound, hgap⟩, hstop⟩
    exact references_of_referencesAt hfound hgap hstop

/-- References are read where nothing goes on with them. -/
theorem references_of_referencesText {labels : List String} (source : SourcePath)
    (h : ReferencesText labels text rest) (hgap : BehindGap rest after)
    (hstop : ∀ x, after.head? = some x → (x.isAlpha || x == '_') = false) (hc : c.rest = text) :
    ∃ found d, references source c = .ok found d ∧ found.map (·.label) = labels ∧
      d.rest = after := by
  rw [← hc] at h
  obtain ⟨found, d, hfound, hlabels, rfl⟩ := exists_referencesAt source h
  obtain ⟨e, he, hrest⟩ := references_eq_ok_iff.2 ⟨⟨d, hfound, hgap⟩, hstop⟩
  exact ⟨found, e, he, hlabels, hrest⟩

end Reading

end Songsheet
