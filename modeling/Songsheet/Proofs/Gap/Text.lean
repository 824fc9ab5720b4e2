import Songsheet.Proofs.Gap

/-!
# The text of gaps

How a gap may be written, told without a reader: blanks, line comments and closed block comments,
in any order and any number. A reader takes the longest gap; here a gap may also stop early, so
that a text can be cut behind any of its parts.

* `GapText` — a gap stands at the start of one text, and another text follows it.
* `gapText_of_gapAt`, `GapText.gapAt_eq` — what a reader takes is a gap, and behind any part of a
  gap it goes on with the rest of it.
* `GapText.behindGap` — a part of a gap in front of a text leaves what follows the gap the same.
-/

namespace Songsheet

variable {blank blank' : Char → Bool} {text rest after skipped : List Char}

/-- A gap stands at the start of the first text, and the second text follows. A line comment goes up
to a line break or to the end of all text, and a block comment to the first `*/`. -/
inductive GapText (blank : Char → Bool) : List Char → List Char → Prop
  | nothing {rest : List Char} : GapText blank rest rest
  | blank {c : Char} {text rest : List Char} (space : blank c)
      (behind : GapText blank text rest) : GapText blank (c :: text) rest
  | line {body text rest : List Char} (inside : '\n' ∉ body) (ends : LineEnd text)
      (behind : GapText blank text rest) : GapText blank ('/' :: '/' :: (body ++ text)) rest
  | block {body text rest : List Char} (inside : ¬ ['*', '/'] <:+: body)
      (behind : GapText blank text rest) :
      GapText blank ('/' :: '*' :: (body ++ '*' :: '/' :: text)) rest

/-- Comments alone. -/
abbrev CommentsText : List Char → List Char → Prop := GapText fun _ => false

/-! ## Block comments -/

/-- A block comment is closed by the first star that a slash follows. -/
theorem closeComment?_eq_some {closing : List Char} :
    closeComment? text = some (closing, rest) ↔
      ∃ body, ¬ ['*', '/'] <:+: body ∧ closing = body ++ ['*', '/'] ∧
        text = body ++ '*' :: '/' :: rest := by
  constructor
  · intro h
    fun_induction closeComment? text generalizing closing with
    | case1 tail =>
      obtain ⟨rfl, rfl⟩ := Prod.mk.inj (Option.some.inj h)
      exact ⟨[], by simp, rfl, rfl⟩
    | case2 c text hopen ih =>
      simp only [Option.map_eq_some_iff, Prod.mk.injEq, Prod.exists] at h
      obtain ⟨back, tail, hback, rfl, rfl⟩ := h
      obtain ⟨body, hbody, rfl, rfl⟩ := ih hback
      refine ⟨c :: body, ?_, rfl, rfl⟩
      rw [List.infix_cons_iff]
      rintro (⟨front, hfront⟩ | hinside)
      · -- a star and a slash here would have closed the comment before
        obtain ⟨rfl, rfl⟩ := List.cons.inj hfront
        exact hopen _ rfl rfl
      · exact hbody hinside
    | case3 => simp at h
  · rintro ⟨body, hbody, rfl, rfl⟩
    induction body with
    | nil => rfl
    | cons c body ih =>
      rw [List.infix_cons_iff, not_or] at hbody
      have hstar : ∀ tail, c = '*' → body ++ '*' :: '/' :: rest = '/' :: tail → False := by
        rintro tail rfl hslash
        cases body with
        | nil => simp at hslash
        | cons d body =>
          obtain ⟨rfl, -⟩ := List.cons.inj hslash
          exact hbody.1 ⟨body, rfl⟩
      rw [List.cons_append, closeComment?_cons hstar, ih hbody.2]
      rfl

/-- A block comment that is never closed has no star with a slash behind it. -/
theorem closeComment?_eq_none : closeComment? text = none ↔ ¬ ['*', '/'] <:+: text := by
  fun_induction closeComment? text with
  | case1 tail => simp [List.infix_cons_iff]
  | case2 c text hopen ih =>
    rw [Option.map_eq_none_iff, ih, List.infix_cons_iff, not_or, iff_and_self]
    rintro - ⟨tail, htail⟩
    obtain ⟨rfl, rfl⟩ := List.cons.inj htail
    exact hopen tail rfl rfl
  | case3 => simp

/-! ## Gaps and their reader -/

/-- There is no line break in what stands in front of the first one. -/
theorem not_mem_takeWhile (text : List Char) : '\n' ∉ text.takeWhile (· != '\n') := by
  intro hmem
  have hbreak := List.all_eq_true.1 (List.all_takeWhile (p := (· != '\n'))) _ hmem
  simp at hbreak

/-- What a reader takes for a gap is one. -/
theorem gapText_of_gapAt (h : gapAt blank text = .upTo skipped rest) :
    GapText blank text rest := by
  fun_induction gapAt blank text generalizing skipped with
  | case1 text ih =>
    obtain ⟨back, hback, -⟩ := Gap.behind_eq_upTo.1 h
    rw [← List.takeWhile_append_dropWhile (p := (· != '\n')) (l := text)]
    exact .line (not_mem_takeWhile text) (lineEnd_dropWhile text) (ih hback)
  | case2 text body tail hclose ih =>
    obtain ⟨back, hback, -⟩ := Gap.behind_eq_upTo.1 h
    obtain ⟨inside, hinside, -, rfl⟩ := closeComment?_eq_some.1 hclose
    exact .block hinside (ih hback)
  | case3 text hclose => simp at h
  | case4 c text hline hblock hc ih =>
    obtain ⟨back, hback, -⟩ := Gap.behind_eq_upTo.1 h
    exact .blank hc (ih hback)
  | case5 c text hline hblock hc =>
    obtain ⟨-, rfl⟩ := Gap.upTo.inj h
    exact .nothing
  | case6 =>
    obtain ⟨-, rfl⟩ := Gap.upTo.inj h
    exact .nothing

/-- A comment that is never closed stands behind a gap. -/
theorem gapText_of_unclosed (h : gapAt blank text = .unclosed skipped rest) :
    ∃ body, rest = '/' :: '*' :: body ∧ ¬ ['*', '/'] <:+: body ∧ GapText blank text rest := by
  fun_induction gapAt blank text generalizing skipped with
  | case1 text ih =>
    obtain ⟨back, hback, -⟩ := Gap.behind_eq_unclosed.1 h
    obtain ⟨body, rfl, hopen, hgap⟩ := ih hback
    refine ⟨body, rfl, hopen, ?_⟩
    rw [← List.takeWhile_append_dropWhile (p := (· != '\n')) (l := text)]
    exact .line (not_mem_takeWhile text) (lineEnd_dropWhile text) hgap
  | case2 text body tail hclose ih =>
    obtain ⟨back, hback, -⟩ := Gap.behind_eq_unclosed.1 h
    obtain ⟨inside, hinside, -, rfl⟩ := closeComment?_eq_some.1 hclose
    obtain ⟨body, rfl, hopen, hgap⟩ := ih hback
    exact ⟨body, rfl, hopen, .block hinside hgap⟩
  | case3 text hclose =>
    obtain ⟨-, rfl⟩ := Gap.unclosed.inj h
    exact ⟨text, rfl, closeComment?_eq_none.1 hclose, .nothing⟩
  | case4 c text hline hblock hc ih =>
    obtain ⟨back, hback, -⟩ := Gap.behind_eq_unclosed.1 h
    obtain ⟨body, rfl, hopen, hgap⟩ := ih hback
    exact ⟨body, rfl, hopen, .blank hc hgap⟩
  | case5 c text hline hblock hc => simp at h
  | case6 => simp at h

/-- Behind any part of a gap the reader goes on with the gap at the start of what follows. The
characters that count as blanks may become more. -/
theorem GapText.gapAt_eq (h : GapText blank text rest) (hblank : ∀ c, blank c → blank' c)
    (hslash : blank' '/' = false) :
    ∃ front, gapAt blank' text = (gapAt blank' rest).behind front := by
  induction h with
  | nothing => exact ⟨[], by simp⟩
  | @blank c text rest space behind ih =>
    obtain ⟨front, hfront⟩ := ih
    have hs : c ≠ '/' := by
      rintro rfl
      simp [hblank '/' space] at hslash
    refine ⟨c :: front, ?_⟩
    rw [gapAt_cons_of_blank (hblank c space) hs, hfront, Gap.behind_behind]
    rfl
  | @line body text rest inside ends behind ih =>
    obtain ⟨front, hfront⟩ := ih
    have hbody : ∀ c ∈ body, (c != '\n') = true := by
      intro c hc
      rw [bne_iff_ne]
      rintro rfl
      exact inside hc
    have htake : text.takeWhile (· != '\n') = [] ∧ text.dropWhile (· != '\n') = text := by
      cases text with
      | nil => exact ⟨rfl, rfl⟩
      | cons c text => simp [ends.head rfl]
    refine ⟨'/' :: '/' :: body ++ front, ?_⟩
    rw [gapAt, List.takeWhile_append_of_pos hbody, List.dropWhile_append_of_pos hbody, htake.1,
      htake.2, hfront, Gap.behind_behind, List.append_nil]
  | @block body text rest inside behind ih =>
    obtain ⟨front, hfront⟩ := ih
    have hclose : closeComment? (body ++ '*' :: '/' :: text) = some (body ++ ['*', '/'], text) :=
      closeComment?_eq_some.2 ⟨body, inside, rfl, rfl⟩
    refine ⟨'/' :: '*' :: (body ++ ['*', '/']) ++ front, ?_⟩
    rw [gapAt_block hclose, hfront, Gap.behind_behind]

namespace GapText

theorem trans {middle : List Char} (h : GapText blank text middle)
    (h' : GapText blank middle rest) : GapText blank text rest := by
  induction h with
  | nothing => exact h'
  | blank space behind ih => exact .blank space (ih h')
  | line inside ends behind ih => exact .line inside ends (ih h')
  | block inside behind ih => exact .block inside (ih h')

theorem suffix (h : GapText blank text rest) : rest <:+ text := by
  induction h with
  | nothing => exact List.suffix_rfl
  | @blank c text rest space behind ih => exact ih.trans (List.suffix_cons c text)
  | @line body text rest inside ends behind ih =>
    exact ih.trans ⟨'/' :: '/' :: body, by simp⟩
  | @block body text rest inside behind ih =>
    exact ih.trans ⟨'/' :: '*' :: (body ++ ['*', '/']), by simp⟩

/-- A gap stays one where more characters count as blanks. -/
theorem mono (h : GapText blank text rest) (hblank : ∀ c, blank c → blank' c) :
    GapText blank' text rest := by
  induction h with
  | nothing => exact .nothing
  | blank space behind ih => exact .blank (hblank _ space) ih
  | line inside ends behind ih => exact .line inside ends ih
  | block inside behind ih => exact .block inside ih

/-- Where no more comments follow, a reader takes exactly these. -/
theorem gapAt_upTo (h : GapText blank text rest) (hslash : blank '/' = false)
    (hrest : gapAt blank rest = .upTo [] rest) :
    ∃ front, gapAt blank text = .upTo front rest := by
  obtain ⟨front, hfront⟩ := h.gapAt_eq (fun _ hc => hc) hslash
  rw [hrest, Gap.behind_upTo, List.append_nil] at hfront
  exact ⟨front, hfront⟩

/-- A part of a gap in front of a text leaves what follows the gap the same. -/
theorem behindGap (h : GapText blank text rest) (hblank : ∀ c, blank c → Text.isBlank c)
    (hrest : BehindGap rest after) : BehindGap text after := by
  obtain ⟨front, hfront⟩ := h.gapAt_eq hblank Text.isBlank_slash
  obtain ⟨skipped, hskipped⟩ := hrest
  exact ⟨front ++ skipped, by rw [hfront, hskipped, Gap.behind_upTo]⟩

/-- Where no slash comes first, there are no comments. -/
theorem eq_of_head? (h : CommentsText text rest) (hhead : text.head? ≠ some '/') : text = rest := by
  cases h with
  | nothing => rfl
  | blank space behind => cases space
  | line inside ends behind => exact absurd rfl hhead
  | block inside behind => exact absurd rfl hhead

/-- A character with which no gap begins is kept apart by every gap in front of it. -/
theorem head?_of_stop {p : Char → Bool} (h : GapText blank text rest)
    (hblank : ∀ c, blank c → p c = false) (hslash : p '/' = false)
    (hrest : ∀ c, rest.head? = some c → p c = false) :
    ∀ c, text.head? = some c → p c = false := by
  cases h with
  | nothing => exact hrest
  | blank space behind => rintro c ⟨⟩; exact hblank _ space
  | line inside ends behind => rintro c ⟨⟩; exact hslash
  | block inside behind => rintro c ⟨⟩; exact hslash

end GapText

/-- Where a comment is never closed, a gap stands in front of it, and it is found there. -/
theorem gapAt_eq_unclosed {before comment : List Char} (hslash : blank '/' = false) :
    gapAt blank text = .unclosed before comment ↔
      text = before ++ comment ∧ GapText blank text comment ∧
        ∃ body, comment = '/' :: '*' :: body ∧ ¬ ['*', '/'] <:+: body := by
  constructor
  · intro h
    obtain ⟨body, hbody, hopen, hgap⟩ := gapText_of_unclosed h
    have hwhole := Gap.whole_gapAt blank text
    rw [h] at hwhole
    exact ⟨hwhole.symm, hgap, body, hbody, hopen⟩
  · rintro ⟨hwhole, hgap, body, rfl, hopen⟩
    obtain ⟨front, hfront⟩ := hgap.gapAt_eq (fun _ hc => hc) hslash
    rw [gapAt_openBlock (closeComment?_eq_none.2 hopen)] at hfront
    have hfront' := Gap.whole_gapAt blank text
    rw [hfront, hwhole] at hfront'
    obtain rfl : front = before := by
      simpa [Gap.behind, Gap.whole] using hfront'
    rw [hfront, Gap.behind, List.append_nil]

/-! ## Where no gap begins -/

/-- No gap begins here: there is neither a blank nor the start of a comment. -/
structure NoGap (blank : Char → Bool) (text : List Char) : Prop where
  noBlank : ∀ c, text.head? = some c → blank c = false
  noLine : ¬ ['/', '/'] <+: text
  noBlock : ¬ ['/', '*'] <+: text

theorem gapAt_eq_nil_iff : gapAt blank text = .upTo [] text ↔ NoGap blank text := by
  fun_cases gapAt blank text with
  | case1 text =>
    refine iff_of_false (fun h => ?_) fun h => h.noLine ⟨text, rfl⟩
    obtain ⟨_, -, hnil⟩ := Gap.behind_eq_upTo.1 h
    simp at hnil
  | case2 text body tail hclose =>
    refine iff_of_false (fun h => ?_) fun h => h.noBlock ⟨text, rfl⟩
    obtain ⟨_, -, hnil⟩ := Gap.behind_eq_upTo.1 h
    simp at hnil
  | case3 text hclose => exact iff_of_false (by simp) fun h => h.noBlock ⟨text, rfl⟩
  | case4 c text hline hblock hc =>
    refine iff_of_false (fun h => ?_) fun h => ?_
    · obtain ⟨_, -, hnil⟩ := Gap.behind_eq_upTo.1 h
      simp at hnil
    · simp [h.noBlank c rfl] at hc
  | case5 c text hline hblock hc =>
    refine iff_of_true rfl ⟨?_, ?_, ?_⟩
    · rintro x ⟨⟩
      simpa using hc
    · rintro ⟨tail, htail⟩
      obtain ⟨rfl, rfl⟩ := List.cons.inj htail
      exact hline tail rfl rfl
    · rintro ⟨tail, htail⟩
      obtain ⟨rfl, rfl⟩ := List.cons.inj htail
      exact hblock tail rfl rfl
  | case6 => exact iff_of_true rfl ⟨by simp, by simp, by simp⟩

theorem NoGap.eq_of_gapText (h : NoGap blank text) (hgap : GapText blank text rest) :
    text = rest := by
  cases hgap with
  | nothing => rfl
  | blank space behind => simp [h.noBlank _ rfl] at space
  | line inside ends behind => exact absurd ⟨_, rfl⟩ h.noLine
  | block inside behind => exact absurd ⟨_, rfl⟩ h.noBlock

theorem BehindGap.gapText (h : BehindGap text rest) : GapText Text.isBlank text rest := by
  obtain ⟨skipped, h⟩ := h
  exact gapText_of_gapAt h

end Songsheet
