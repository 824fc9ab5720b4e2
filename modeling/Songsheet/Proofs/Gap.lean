import Songsheet.Gap

/-!
# Gaps in front of other texts

What a gap takes does not depend on what stands behind it, except that a line comment needs a line
break or the end of the text there. So the text behind a gap can be replaced: the gap is the same
and goes on with the gap at the start of the new text (`gapAt_append`).

* `LineEnd` — no text, or one that begins with a line break.
* `BehindGap` — one text is what follows the gap at the start of another.
* `comments_of_behindGap` — a gap is comments alone, or comments and then a run of blanks.
-/

namespace Songsheet

variable {blank blank' : Char → Bool} {text rest after skipped : List Char}

/-! ## Runs of characters -/

/-- A run of characters is the same in front of any text that does not go on with it. -/
theorem takeWhile_run_append {p : Char → Bool} (h : ∀ c, after.head? = some c → p c = false) :
    (text.takeWhile p ++ after).takeWhile p = text.takeWhile p := by
  rw [List.takeWhile_append_of_pos fun c hc => List.all_eq_true.1 List.all_takeWhile c hc]
  cases after with
  | nil => simp
  | cons c after => simp [h c rfl]

theorem dropWhile_run_append {p : Char → Bool} (h : ∀ c, after.head? = some c → p c = false) :
    (text.takeWhile p ++ after).dropWhile p = after := by
  rw [List.dropWhile_append_of_pos fun c hc => List.all_eq_true.1 List.all_takeWhile c hc]
  cases after with
  | nil => rfl
  | cons c after => simp [h c rfl]

/-! ## Gaps with a text in front -/

namespace Gap

@[simp] theorem behind_upTo (front skipped rest : List Char) :
    (upTo skipped rest).behind front = upTo (front ++ skipped) rest := rfl

@[simp] theorem behind_nil (g : Gap) : g.behind [] = g := by
  cases g <;> rfl

@[simp] theorem behind_behind (front back : List Char) (g : Gap) :
    (g.behind back).behind front = g.behind (front ++ back) := by
  cases g <;> simp [behind]

theorem behind_eq_upTo {front : List Char} {g : Gap} :
    g.behind front = .upTo skipped rest ↔
      ∃ back, g = .upTo back rest ∧ skipped = front ++ back := by
  cases g with
  | upTo back rest' =>
    simp only [behind_upTo, upTo.injEq]
    constructor
    · intro h
      obtain ⟨rfl, rfl⟩ := h
      exact ⟨back, ⟨rfl, rfl⟩, rfl⟩
    · intro h
      obtain ⟨_, ⟨rfl, rfl⟩, rfl⟩ := h
      exact ⟨rfl, rfl⟩
  | unclosed before comment => simp [behind]

theorem behind_eq_unclosed {front before comment : List Char} {g : Gap} :
    g.behind front = .unclosed before comment ↔
      ∃ back, g = .unclosed back comment ∧ before = front ++ back := by
  cases g with
  | upTo back rest => simp
  | unclosed back comment' =>
    simp only [behind, unclosed.injEq]
    constructor
    · rintro ⟨rfl, rfl⟩
      exact ⟨back, ⟨rfl, rfl⟩, rfl⟩
    · rintro ⟨_, ⟨rfl, rfl⟩, rfl⟩
      exact ⟨rfl, rfl⟩

end Gap

/-! ## Where a gap ends -/

/-- A block comment in front makes a gap longer. -/
theorem gapAt_block {body : List Char} (h : closeComment? text = some (body, rest)) :
    gapAt blank ('/' :: '*' :: text) = (gapAt blank rest).behind ('/' :: '*' :: body) := by
  rw [gapAt]
  split
  · simp_all
  · simp_all

theorem gapAt_openBlock (h : closeComment? text = none) :
    gapAt blank ('/' :: '*' :: text) = .unclosed [] ('/' :: '*' :: text) := by
  rw [gapAt]
  split
  · simp_all
  · rfl

/-- A text that begins neither with a blank nor with a slash begins with no gap. -/
theorem gapAt_of_head (h : ∀ c, text.head? = some c → blank c = false ∧ c ≠ '/') :
    gapAt blank text = .upTo [] text := by
  cases text with
  | nil => rw [gapAt]
  | cons c text => exact gapAt_cons (h c rfl).1 (h c rfl).2 text

/-- Behind a gap there is no gap. -/
theorem gapAt_rest (h : gapAt blank text = .upTo skipped rest) :
    gapAt blank rest = .upTo [] rest := by
  fun_induction gapAt blank text generalizing skipped with
  | case1 text ih =>
    obtain ⟨back, hback, -⟩ := Gap.behind_eq_upTo.1 h
    exact ih hback
  | case2 text body tail hclose ih =>
    obtain ⟨back, hback, -⟩ := Gap.behind_eq_upTo.1 h
    exact ih hback
  | case3 text hclose => simp at h
  | case4 c text hline hblock hc ih =>
    obtain ⟨back, hback, -⟩ := Gap.behind_eq_upTo.1 h
    exact ih hback
  | case5 c text hline hblock hc =>
    obtain ⟨rfl, rfl⟩ := Gap.upTo.inj h
    rw [gapAt_of_noOpening hline hblock, if_neg hc]
  | case6 =>
    obtain ⟨rfl, rfl⟩ := Gap.upTo.inj h
    rw [gapAt]

/-! ## Other texts behind a gap -/

/-- No text, or one that begins with a line break: here a line comment ends. -/
def LineEnd (text : List Char) : Prop :=
  text = [] ∨ text.head? = some '\n'

theorem lineEnd_dropWhile (text : List Char) : LineEnd (text.dropWhile (· != '\n')) := by
  cases h : text.dropWhile (· != '\n') with
  | nil => exact .inl rfl
  | cons c rest =>
    have hc := List.head_dropWhile_not (p := (· != '\n')) (l := text) (by simp [h])
    exact .inr (by simpa [h] using hc)

theorem LineEnd.append {front : List Char} (h : LineEnd (front ++ rest))
    (hafter : LineEnd rest → LineEnd after) : LineEnd (front ++ after) := by
  cases front with
  | nil => exact hafter h
  | cons c front => exact .inr (by simpa [LineEnd] using h)

theorem LineEnd.head {c : Char} (h : LineEnd text) (hc : text.head? = some c) : c = '\n' := by
  rcases h with rfl | h
  · simp at hc
  · exact Option.some.inj (hc.symm.trans h)

theorem closeComment?_ne_nil {body : List Char} (h : closeComment? text = some (body, rest)) :
    body ≠ [] := by
  rintro rfl
  unfold closeComment? at h
  split at h
  · simp at h
  · simp at h
  · simp at h

/-- What closes a comment closes it in front of any other text. -/
theorem closeComment?_append {body : List Char} (h : closeComment? text = some (body, rest))
    (after : List Char) : closeComment? (body ++ after) = some (body, after) := by
  fun_induction closeComment? text generalizing body with
  | case1 tail =>
    obtain ⟨rfl, rfl⟩ := Prod.mk.inj (Option.some.inj h)
    rfl
  | case2 c text hopen ih =>
    simp only [Option.map_eq_some_iff, Prod.mk.injEq, Prod.exists] at h
    obtain ⟨back, tail, hback, rfl, rfl⟩ := h
    have hstar : ∀ tail, c = '*' → back ++ after = '/' :: tail → False := by
      -- a star and a slash here would have closed the comment before
      rintro tail rfl hslash
      cases back with
      | nil =>
        exact closeComment?_ne_nil hback rfl
      | cons d back =>
        obtain ⟨rfl, -⟩ := List.cons.inj hslash
        exact hopen _ rfl (append_of_closeComment? hback).symm
    rw [List.cons_append, closeComment?_cons hstar, ih hback]
    rfl
  | case3 => simp at h

/-- The text behind a gap replaced by another one: the gap is the same, and goes on with the gap
at the start of the new text. The characters that count as blanks may become more. -/
theorem gapAt_append (hblank : ∀ c, blank c → blank' c) (hslash : blank' '/' = false)
    (h : gapAt blank text = .upTo skipped rest) (hafter : LineEnd rest → LineEnd after) :
    gapAt blank' (skipped ++ after) = (gapAt blank' after).behind skipped := by
  fun_induction gapAt blank text generalizing skipped with
  | case1 text ih =>
    obtain ⟨back, hback, rfl⟩ := Gap.behind_eq_upTo.1 h
    have hline : LineEnd (back ++ after) := by
      have hend := lineEnd_dropWhile text
      rw [append_of_gapAt hback] at hend
      exact hend.append hafter
    have hstop : ∀ c, (back ++ after).head? = some c → (c != '\n') = false := by
      intro c hc
      simp [hline.head hc]
    rw [List.append_assoc, List.cons_append, List.cons_append, gapAt,
      takeWhile_run_append hstop, dropWhile_run_append hstop, ih hback, Gap.behind_behind]
  | case2 text body tail hclose ih =>
    obtain ⟨back, hback, rfl⟩ := Gap.behind_eq_upTo.1 h
    rw [List.append_assoc, List.cons_append, List.cons_append,
      gapAt_block (closeComment?_append hclose (back ++ after)), ih hback, Gap.behind_behind]
  | case3 text hclose => simp at h
  | case4 c text hline hblock hc ih =>
    obtain ⟨back, hback, rfl⟩ := Gap.behind_eq_upTo.1 h
    have hs : c ≠ '/' := by
      rintro rfl
      simp [hblank '/' hc] at hslash
    rw [List.append_assoc, List.singleton_append, gapAt_cons_of_blank (hblank c hc) hs, ih hback,
      Gap.behind_behind]
  | case5 c text hline hblock hc =>
    obtain ⟨rfl, rfl⟩ := Gap.upTo.inj h
    simp
  | case6 =>
    obtain ⟨rfl, rfl⟩ := Gap.upTo.inj h
    simp

/-! ## Gaps of comments and blanks -/

/-- The second text is what follows the gap at the start of the first. -/
def BehindGap (text rest : List Char) : Prop :=
  ∃ skipped, gapAt Text.isBlank text = .upTo skipped rest

theorem BehindGap.unique {other : List Char} (h : BehindGap text rest)
    (ho : BehindGap text other) : rest = other := by
  obtain ⟨skipped, h⟩ := h
  obtain ⟨skipped', h'⟩ := ho
  rw [h, Gap.upTo.injEq] at h'
  exact h'.2

theorem BehindGap.gapAt_rest (h : BehindGap text rest) :
    gapAt Text.isBlank rest = .upTo [] rest := by
  obtain ⟨skipped, h⟩ := h
  exact Songsheet.gapAt_rest h

theorem BehindGap.idem (h : BehindGap text rest) : BehindGap rest rest :=
  ⟨[], h.gapAt_rest⟩

/-- Behind a gap, a text that could only go on with a blank is at its end. -/
theorem eq_nil_of_blank (h : gapAt Text.isBlank rest = .upTo [] rest)
    (hblank : ∀ c, rest.head? = some c → Text.isBlank c) : rest = [] := by
  cases rest with
  | nil => rfl
  | cons c rest =>
    have hc := hblank c rfl
    rw [gapAt_cons_of_blank hc (Text.ne_slash_of_isBlank hc), Gap.behind_eq_upTo] at h
    obtain ⟨_, -, hnil⟩ := h
    simp at hnil

theorem eq_nil_of_lineEnd (h : gapAt Text.isBlank rest = .upTo [] rest) (hend : LineEnd rest) :
    rest = [] := by
  apply eq_nil_of_blank h
  intro c hc
  rw [hend.head hc]
  decide

theorem behindGap_of_head (h : ∀ c, text.head? = some c → Text.isBlank c = false ∧ c ≠ '/') :
    BehindGap text text :=
  ⟨[], gapAt_of_head h⟩

theorem behindGap_cons {c : Char} (hc : Text.isBlank c = false ∧ c ≠ '/') (text : List Char) :
    BehindGap (c :: text) (c :: text) :=
  ⟨[], gapAt_cons hc.1 hc.2 text⟩

theorem behindGap_of_head?_eq {c : Char} (hhead : text.head? = some c)
    (hc : Text.isBlank c = false ∧ c ≠ '/') : BehindGap text text := by
  obtain ⟨tail, rfl⟩ := List.head?_eq_some_iff.1 hhead
  exact behindGap_cons hc tail

/-- A gap in front of a text with a gap. -/
theorem BehindGap.append {after' : List Char} (hblank : ∀ c, blank c → Text.isBlank c)
    (h : gapAt blank text = .upTo skipped rest) (hafter : LineEnd rest → LineEnd after)
    (ha : BehindGap after after') : BehindGap (skipped ++ after) after' := by
  obtain ⟨skipped', ha⟩ := ha
  refine ⟨skipped ++ skipped', ?_⟩
  rw [gapAt_append hblank Text.isBlank_slash h hafter, ha, Gap.behind_upTo]

/-- A line break in front makes a gap longer. -/
theorem BehindGap.line (h : BehindGap text rest) : BehindGap ('\n' :: text) rest := by
  obtain ⟨skipped, h⟩ := h
  exact ⟨'\n' :: skipped, by rw [gapAt_cons_of_blank (by decide) (by decide), h]; rfl⟩

/-- A gap is comments alone, or comments and then a run that begins with a blank. -/
theorem comments_of_behindGap (h : BehindGap text rest) :
    ∃ comments after, gapAt (fun _ => false) text = .upTo comments after ∧
      (after = rest ∨ (∃ c tail, after = c :: tail ∧ Text.isBlank c) ∧ BehindGap after rest) := by
  obtain ⟨skipped, h⟩ := h
  fun_induction gapAt Text.isBlank text generalizing skipped with
  | case1 text ih =>
    obtain ⟨back, hback, -⟩ := Gap.behind_eq_upTo.1 h
    obtain ⟨comments, after, hcomments, hafter⟩ := ih _ hback
    exact ⟨_, after, by rw [gapAt, hcomments, Gap.behind_upTo], hafter⟩
  | case2 text body tail hclose ih =>
    obtain ⟨back, hback, -⟩ := Gap.behind_eq_upTo.1 h
    obtain ⟨comments, after, hcomments, hafter⟩ := ih _ hback
    exact ⟨_, after, by rw [gapAt_block hclose, hcomments, Gap.behind_upTo], hafter⟩
  | case3 text hclose => simp at h
  | case4 c text hline hblock hc ih =>
    refine ⟨[], c :: text, ?_, .inr ⟨⟨c, text, rfl, hc⟩, skipped, ?_⟩⟩
    · rw [gapAt_of_noOpening hline hblock]
      simp
    · rw [gapAt_of_noOpening hline hblock, if_pos hc, h]
  | case5 c text hline hblock hc =>
    obtain ⟨rfl, rfl⟩ := Gap.upTo.inj h
    refine ⟨[], c :: text, ?_, .inl rfl⟩
    rw [gapAt_of_noOpening hline hblock]
    simp
  | case6 =>
    obtain ⟨rfl, rfl⟩ := Gap.upTo.inj h
    exact ⟨[], [], by rw [gapAt], .inl rfl⟩

end Songsheet
