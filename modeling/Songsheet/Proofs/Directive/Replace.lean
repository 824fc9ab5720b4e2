import Songsheet.Proofs.Directive.Site
import Songsheet.Proofs.Label
import Songsheet.Proofs.Note
import Songsheet.Text

/-!
# Directives in front of other texts

A directive ends where no more of it can follow: a list of notes at the first character that
begins no note, a list of references at one that begins no label. The text behind a directive can
therefore be replaced by any other text that begins with a directive behind its gap.

* `Follows` — what a text has to be like to stand in the place of another behind a directive.
* `notes_replace`, `references_replace`, `trackAttribute_replace` — what directives are made of.
* `directive_replace` — a directive in front of another text is the same up to its sites.
-/

namespace Songsheet

variable {rest after after' : List Char}

/-! ## Texts that begin with a directive -/

/-- No text, or one that begins with the mark of a directive other than an include. -/
def AtMark (text : List Char) : Prop :=
  ∀ c, text.head? = some c → c = '@' ∨ c = '$' ∨ c = '%'

/-- The text `after` may stand in the place of `rest` behind a directive: a line may end and a
blank may come where it did before, and behind its gap there is `after'`, which begins with a
directive if it is not empty. -/
structure Follows (rest after after' : List Char) : Prop where
  lineEnd : rest = [] → LineEnd after
  blank : ∀ c, rest.head? = some c → Text.isBlank c → after.head? = some c
  gap : BehindGap after after'
  mark : AtMark after'

/-- A class of characters to which no blank, no slash and no mark belongs. -/
structure Inner (p : Char → Bool) : Prop where
  blank : ∀ c, p c → Text.isBlank c = false
  slash : p '/' = false
  marks : p '@' = false ∧ p '$' = false ∧ p '%' = false

theorem Inner.head {p : Char → Bool} (hp : Inner p) {c : Char} (hc : p c) :
    Text.isBlank c = false ∧ c ≠ '/' := by
  refine ⟨hp.blank c hc, ?_⟩
  rintro rfl
  simp [hp.slash] at hc

theorem AtMark.stops {p : Char → Bool} (h : AtMark after') (hp : Inner p) :
    ∀ c, after'.head? = some c → p c = false := by
  intro c hc
  obtain ⟨hat, hdollar, hpercent⟩ := hp.marks
  rcases h c hc with rfl | rfl | rfl
  · exact hat
  · exact hdollar
  · exact hpercent

theorem AtMark.head (h : AtMark after') :
    ∀ c, after'.head? = some c → Text.isBlank c = false ∧ c ≠ '/' := by
  intro c hc
  rcases h c hc with rfl | rfl | rfl <;> decide

theorem atMark_nil : AtMark [] := by
  simp [AtMark]

theorem AtMark.behindGap (h : AtMark after') : BehindGap after' after' :=
  behindGap_of_head h.head

theorem Follows.stops {p : Char → Bool} (h : Follows rest after after') (hp : Inner p) :
    ∀ c, after.head? = some c → p c = false := by
  intro c hc
  by_cases hblank : Text.isBlank c
  · rw [Bool.eq_false_iff]
    intro hpc
    simp [hp.blank c hpc] at hblank
  by_cases hslash : c = '/'
  · rw [hslash]
    exact hp.slash
  have hsame : BehindGap after after := behindGap_of_head fun x hx => by
    obtain rfl : x = c := Option.some.inj (hx.symm.trans hc)
    exact ⟨by simpa using hblank, hslash⟩
  obtain rfl : after = after' := hsame.unique h.gap
  exact h.mark.stops hp c hc

/-- Where a word ended before a blank or at the end, it does so again. -/
theorem Follows.sameStart (h : Follows rest after after')
    (hstop : ∀ c, rest.head? = some c → Text.isBlank c) : SameStart rest after := by
  cases rest with
  | nil => exact (h.lineEnd rfl).sameStart
  | cons c rest => exact .inl (h.blank c rfl (hstop c rfl))

theorem isBlank_of_isAlpha {c : Char} (h : c.isAlpha) : Text.isBlank c = false := by
  rcases (isAlpha_iff c).1 h with ⟨hl, hu⟩ | ⟨hl, hu⟩
  · change 65 ≤ c.toNat at hl
    change c.toNat ≤ 90 at hu
    exact Text.isBlank_of_printable (by omega) (by omega)
  · change 97 ≤ c.toNat at hl
    change c.toNat ≤ 122 at hu
    exact Text.isBlank_of_printable (by omega) (by omega)

theorem inner_isDigit : Inner Char.isDigit :=
  ⟨fun _ => isBlank_of_isDigit, by decide, by decide⟩

theorem inner_isKeyChar : Inner isKeyChar :=
  ⟨fun _ => Reading.isBlank_of_isKeyChar, by decide, by decide⟩

theorem inner_quote : Inner (· == '"') := by
  refine ⟨fun c hc => ?_, by decide, by decide⟩
  obtain rfl := beq_iff_eq.1 hc
  decide

/-- The characters with which a reference may begin. -/
theorem inner_reference : Inner fun c => c.isAlpha || c == '_' := by
  refine ⟨fun c hc => ?_, by decide, by decide⟩
  rcases Bool.or_eq_true_iff.1 hc with halpha | hunder
  · exact isBlank_of_isAlpha halpha
  · obtain rfl := beq_iff_eq.1 hunder
    decide

namespace Reading

variable {c c' d : Cursor} {front : List Char}

/-! ## Gaps -/

theorem skipGap_eq_ok {u : Unit} (h : skipGap c = .ok u d) : BehindGap c.rest d.rest := by
  obtain ⟨skipped, rest, hgap, rfl⟩ := skip_eq_ok.1 h
  exact ⟨skipped, hgap⟩

theorem skipGap_of_behindGap {rest : List Char} (h : BehindGap c.rest rest) :
    ∃ d, skipGap c = .ok () d ∧ d.rest = rest := by
  obtain ⟨skipped, hgap⟩ := h
  exact ⟨c.past skipped rest, skip_eq_ok.2 ⟨skipped, rest, hgap, rfl⟩, rfl⟩

/-- A gap in front of another text goes on with the gap at the start of that text. -/
theorem skipGap_replace {u : Unit} (h : skipGap c = .ok u d)
    (hend : d.rest = [] → LineEnd after) (hafter : BehindGap after after')
    (hc : c.rest = front ++ d.rest) (hc' : c'.rest = front ++ after) :
    ∃ d', skipGap c' = .ok () d' ∧ d'.rest = after' := by
  obtain ⟨skipped, rest, hgap, rfl⟩ := skip_eq_ok.1 h
  obtain rfl : skipped = front := by
    rw [append_of_gapAt hgap] at hc
    exact List.append_cancel_right hc
  refine skipGap_of_behindGap ?_
  rw [hc']
  exact BehindGap.append (fun _ h => h) hgap
    (fun hline => hend (eq_nil_of_lineEnd (gapAt_rest hgap) hline)) hafter

/-! ## Notes -/

theorem writtenNote_ne_none {first : Char} (hp : c.peek? = some first) (hk : isKeyChar first) :
    writtenNote c ≠ .ok none d := by
  intro h
  obtain ⟨_, e, he, hnote⟩ := bind_eq_ok.1 h
  obtain rfl : c = e := (EStateM.Result.ok.inj ((skipGap_of_isKeyChar hp hk).symm.trans he)).2
  obtain ⟨t, e, ht, hnote⟩ := bind_eq_ok.1 hnote
  have hne := nextToken_of_isKeyChar hp hk ht
  cases hkind : t.kind with
  | endOfText => exact hne hkind
  | key spelling =>
    simp only [noteFrom, hkind, bind_eq_ok, pure_eq_ok] at hnote
    obtain ⟨_, _, -, hnone, -⟩ := hnote
    simp at hnone
  | _ => simp [noteFrom, hkind, fail] at hnote

/-- Where no key character follows the gap, there are no more notes. -/
theorem notes_of_stop (hg : skipGap c = .ok () d)
    (hp : ∀ x, d.peek? = some x → isKeyChar x = false) : notes c = .ok [] d := by
  rw [notes]
  split <;> rename_i heq <;> rw [hg] at heq
  · simp at heq
  · obtain ⟨-, rfl⟩ := EStateM.Result.ok.inj heq
    split
    · rfl
    · rename_i first hfirst
      rw [dif_neg (by simp [hp first hfirst])]

theorem notes_of_note {e c₁ : Cursor} {first : Char} {w : WrittenNote}
    {others : List WrittenNote} (hg : skipGap c = .ok () e) (hp : e.peek? = some first)
    (hk : isKeyChar first) (hw : writtenNote e = .ok (some w) c₁)
    (hn : notes c₁ = .ok others d) : notes c = .ok (w :: others) d := by
  rw [notes]
  split <;> rename_i heq <;> rw [hg] at heq
  · simp at heq
  · obtain ⟨-, rfl⟩ := EStateM.Result.ok.inj heq
    split <;> rename_i hfirst <;> rw [hp] at hfirst
    · simp at hfirst
    · obtain rfl := Option.some.inj hfirst
      rw [dif_pos hk]
      split <;> rename_i hnote <;> rw [hw] at hnote
      · simp at hnote
      · simp at hnote
      · obtain ⟨heq, rfl⟩ := EStateM.Result.ok.inj hnote
        obtain rfl := Option.some.inj heq
        rw [hn]

/-- Where notes are read and no gap is in front, either there are none or a key character comes
first. -/
theorem notes_cases {written : List WrittenNote} (h : notes c = .ok written d)
    (hgap : gapAt Text.isBlank c.rest = .upTo [] c.rest) :
    d.rest = c.rest ∨ ∃ first, c.peek? = some first ∧ isKeyChar first := by
  rw [notes] at h
  split at h
  · simp at h
  · rename_i u e hg
    have hrest : e.rest = c.rest :=
      (skipGap_eq_ok hg).unique ⟨[], hgap⟩
    split at h
    · obtain ⟨-, rfl⟩ := EStateM.Result.ok.inj h
      exact .inl hrest
    · rename_i first hfirst
      by_cases hk : isKeyChar first
      · refine .inr ⟨first, ?_, hk⟩
        rw [Cursor.peek?, ← hrest]
        exact hfirst
      · rw [dif_neg hk] at h
        obtain ⟨-, rfl⟩ := EStateM.Result.ok.inj h
        exact .inl hrest

/-- Where no note begins, the gap is taken and nothing else. -/
theorem notes_stop_replace (hg : skipGap c = .ok () d) (hf : Follows d.rest after after')
    (hc : c.rest = front ++ d.rest)
    (hc' : c'.rest = front ++ after ∨ front = [] ∧ c'.rest = after') :
    ∃ d', notes c' = .ok [] d' ∧ d'.rest = after' := by
  have hskip : ∃ d', skipGap c' = .ok () d' ∧ d'.rest = after' := by
    rcases hc' with hc' | ⟨-, hc'⟩
    · exact skipGap_replace hg hf.lineEnd hf.gap hc hc'
    · exact skipGap_of_behindGap (hc' ▸ hf.gap.idem)
  obtain ⟨d', hd', hrest⟩ := hskip
  refine ⟨d', notes_of_stop hd' fun x hx => ?_, hrest⟩
  rw [Cursor.peek?, hrest] at hx
  exact hf.mark.stops inner_isKeyChar x hx

/-- What comes behind one of some notes is the text behind all of them, or begins with the key of
the next one. -/
theorem behindGap_of_notes {written : List WrittenNote} {back : List Char}
    (h : notes c = .ok written d) (hgap : gapAt Text.isBlank c.rest = .upTo [] c.rest)
    (hback : c.rest = back ++ d.rest) (hafter : BehindGap after after') :
    ∃ rest, BehindGap (back ++ after) rest ∧
      (rest = back ++ after ∨ back = [] ∧ rest = after') := by
  cases back with
  | nil => exact ⟨after', hafter, .inr ⟨rfl, rfl⟩⟩
  | cons x back =>
    refine ⟨x :: back ++ after, behindGap_cons ?_ _, .inl rfl⟩
    rcases notes_cases h hgap with hsame | ⟨key, hkey, hkeychar⟩
    · have hlength := congrArg List.length (hsame.trans hback)
      simp only [List.length_append, List.length_cons] at hlength
      omega
    · obtain rfl : x = key := by simpa [Cursor.peek?, hback] using hkey
      exact inner_isKeyChar.head hkeychar

/-- Notes in front of another text: they are the same, and the gap at the start of the new text is
taken with them. It may have been taken already, if it was all that was left. -/
theorem notes_replace {written : List WrittenNote} (h : notes c = .ok written d)
    (hf : Follows d.rest after after') (hc : c.rest = front ++ d.rest)
    (hc' : c'.rest = front ++ after ∨ front = [] ∧ c'.rest = after') :
    ∃ d', notes c' = .ok written d' ∧ d'.rest = after' := by
  fun_induction notes c generalizing written front c' with
  | case1 c e d₀ hg => simp at h
  | case2 c u d₀ hg hp =>
    obtain ⟨rfl, rfl⟩ := EStateM.Result.ok.inj h
    exact notes_stop_replace hg hf hc hc'
  | case3 c u d₀ hg first hp hk e d₁ hn => simp at h
  | case4 c u d₀ hg first hp hk d₁ hn => exact absurd hn (writtenNote_ne_none hp hk)
  | case5 c u d₀ hg first hp hk w d₁ hn e d₂ hns ih => simp at h
  | case6 c u d₀ hg first hp hk w d₁ hn others d₂ hns ih =>
    obtain ⟨rfl, rfl⟩ := EStateM.Result.ok.inj h
    -- the text is a gap, this note and the other notes
    have hnote := forward_writtenNote.ok hn
    have hnotes := forward_notes.ok hns
    obtain ⟨gap, behind, rfl, hgap, hbehind⟩ :=
      (forward_skipGap.ok hg).split (hnote.trans hnotes) hc
    obtain ⟨note, back, rfl, htaken, hback⟩ := hnote.split hnotes hbehind
    obtain ⟨note, rfl⟩ :=
      Cursor.exists_cons_of_peek? hp htaken (length_of_writtenNote hp hk hn)
    have hc' : c'.rest = gap ++ (first :: note ++ (back ++ after)) := by
      rcases hc' with hc' | ⟨hnil, -⟩
      · simpa using hc'
      · simp at hnil
    have hkey : BehindGap (first :: note ++ (back ++ after)) (first :: note ++ (back ++ after)) :=
      behindGap_cons (inner_isKeyChar.head hk) _
    obtain ⟨e', he', hrest'⟩ := skipGap_replace hg (by simp [htaken]) hkey hgap hc'
    have hp' : e'.peek? = some first := by simp [Cursor.peek?, hrest']
    have hend : d₁.rest = [] → LineEnd (back ++ after) := by
      intro hnil
      rw [hback, List.append_eq_nil_iff] at hnil
      rw [hnil.1]
      exact hf.lineEnd hnil.2
    obtain ⟨rest, hrest, hnext⟩ := behindGap_of_notes hns (gapAt_of_writtenNote hn) hback hf.gap
    obtain ⟨d₁', hn', hd₁'⟩ := writtenNote_replace hn hp hk hp' hend hrest htaken hrest'
    obtain ⟨d', hns', hd'⟩ := ih hns hback (hd₁' ▸ hnext)
    exact ⟨d', notes_of_note he' hp' hk hn' hns', hd'⟩
  | case7 c u d₀ hg first hp hk =>
    obtain ⟨rfl, rfl⟩ := EStateM.Result.ok.inj h
    exact notes_stop_replace hg hf hc hc'

/-! ## References -/

theorem isBlank_of_word {text : String} (h : word c = .ok text d) :
    ∀ x, d.rest.head? = some x → Text.isBlank x := by
  intro x hx
  simpa using run_stops h x hx

theorem reference_replace {source : SourcePath} (source' : SourcePath) {r : Reference}
    (h : reference source c = .ok r d) (hend : d.rest = [] → LineEnd after)
    (hafter : BehindGap after after') (hc : c.rest = front ++ d.rest)
    (hc' : c'.rest = front ++ after) :
    ∃ r' d', reference source' c' = .ok r' d' ∧ r'.label = r.label ∧ d'.rest = after' := by
  obtain ⟨e, hword, hlabel, hskip, -⟩ := reference_eq_ok.1 h
  obtain ⟨taken, gap, rfl, htaken, hgap⟩ :=
    (forward_word.ok hword).split (forward_skipGap.ok hskip) hc
  rw [List.append_assoc] at hc'
  have hstart : SameStart e.rest (gap ++ after) := by
    rw [hgap]
    cases gap with
    | cons x gap => exact .inl rfl
    | nil =>
      -- no gap stands between the word and the rest, so the text has ended
      have hblank := isBlank_of_word hword
      rw [hgap, List.nil_append] at hblank
      have hnil : d.rest = [] := eq_nil_of_blank (skipGap_eq_ok hskip).gapAt_rest hblank
      rw [hnil]
      exact (hend hnil).sameStart
  obtain ⟨_, e', hword', rfl, he'⟩ :=
    steady_word c e c' r.label taken (gap ++ after) hword htaken hc' hstart
  obtain ⟨d', hskip', hd'⟩ := skipGap_replace hskip hend hafter hgap he'
  exact ⟨⟨r.label, ⟨source', c'.position⟩⟩, d',
    reference_eq_ok.2 ⟨e', hword', hlabel, hskip', rfl⟩, rfl, hd'⟩

theorem references_of_last {source : SourcePath} {r : Reference}
    (hr : reference source c = .ok r d) (hm : moreReferences d = false) :
    references source c = .ok [r] d := by
  rw [references]
  split <;> rename_i heq <;> rw [hr] at heq
  · simp at heq
  · obtain ⟨rfl, rfl⟩ := EStateM.Result.ok.inj heq
    rw [hm]
    rfl

theorem references_of_more {source : SourcePath} {e : Cursor} {r : Reference}
    {others : List Reference} (hr : reference source c = .ok r e) (hm : moreReferences e)
    (ho : references source e = .ok others d) : references source c = .ok (r :: others) d := by
  rw [references]
  split <;> rename_i heq <;> rw [hr] at heq
  · simp at heq
  · obtain ⟨rfl, rfl⟩ := EStateM.Result.ok.inj heq
    rw [if_pos hm, ho]

theorem length_of_references {source : SourcePath} {found : List Reference}
    (h : references source c = .ok found d) : d.rest.length < c.rest.length := by
  rw [references] at h
  split at h
  · simp at h
  · rename_i r e hr
    have hlt := length_of_reference hr
    split at h
    · split at h
      · simp at h
      · rename_i others e' ho
        obtain ⟨-, rfl⟩ := EStateM.Result.ok.inj h
        have := ((forward_references source).ok ho).length_le
        omega
    · obtain ⟨-, rfl⟩ := EStateM.Result.ok.inj h
      exact hlt

/-- References in front of another text: they are the same up to their sites, and the gap at the
start of the new text is taken with them. -/
theorem references_replace {source : SourcePath} (source' : SourcePath) {found : List Reference}
    (h : references source c = .ok found d) (hf : Follows d.rest after after')
    (hc : c.rest = front ++ d.rest) (hc' : c'.rest = front ++ after) :
    ∃ found' d', references source' c' = .ok found' d' ∧
      found'.map (·.label) = found.map (·.label) ∧ d'.rest = after' := by
  fun_induction references source c generalizing found front c' with
  | case1 c e d₀ hr => simp at h
  | case2 c r d₀ hr hm e d₁ hd ih => simp at h
  | case3 c r d₀ hr hm others d₁ hd ih =>
    obtain ⟨rfl, rfl⟩ := EStateM.Result.ok.inj h
    obtain ⟨taken, back, rfl, htaken, hback⟩ :=
      ((forward_reference source).ok hr).split ((forward_references source).ok hd) hc
    rw [List.append_assoc] at hc'
    obtain ⟨x, hx, hletter⟩ : ∃ x, d₀.peek? = some x ∧ (x.isAlpha || x == '_') := by
      simpa [moreReferences, Option.any_eq_true] using hm
    obtain ⟨back, rfl⟩ := Cursor.exists_cons_of_peek? hx hback (length_of_references hd)
    have hgap : BehindGap (x :: back ++ after) (x :: back ++ after) :=
      behindGap_cons (inner_reference.head hletter) _
    obtain ⟨r', d₀', hr', hlabel, hd₀'⟩ :=
      reference_replace source' hr (by simp [hback]) hgap htaken hc'
    obtain ⟨others', d', ho', hlabels, hd'⟩ := ih hd hback hd₀'
    have hm' : moreReferences d₀' := by
      simpa [moreReferences, Cursor.peek?, hd₀'] using hletter
    exact ⟨r' :: others', d', references_of_more hr' hm' ho', by simp [hlabel, hlabels], hd'⟩
  | case4 c r d₀ hr hm =>
    obtain ⟨rfl, rfl⟩ := EStateM.Result.ok.inj h
    obtain ⟨r', d', hr', hlabel, hd'⟩ :=
      reference_replace source' hr hf.lineEnd hf.gap hc hc'
    have hm' : moreReferences d' = false := by
      rw [moreReferences, Option.any_eq_false]
      intro x hx
      rw [Cursor.peek?, hd'] at hx
      simpa using hf.mark.stops inner_reference x hx
    exact ⟨[r'], d', references_of_last hr' hm', by simp [hlabel], hd'⟩

/-! ## Attributes -/

/-- The value of an attribute in front of another text. -/
theorem attributeValue_replace {source : SourcePath} (source' : SourcePath) {kind : AttributeName}
    {value : Attribute} (h : attributeValue source kind c = .ok value d)
    (hf : Follows d.rest after after') (hc : c.rest = front ++ d.rest)
    (hc' : c'.rest = front ++ after) :
    ∃ value' d', attributeValue source' kind c' = .ok value' d' ∧
      value'.eraseSites = value.eraseSites ∧ BehindGap d'.rest after' := by
  cases kind with
  | name =>
    obtain ⟨text, e, htext, hpure⟩ := bind_eq_ok.1 h
    obtain ⟨rfl, rfl⟩ := pure_eq_ok.1 hpure
    have hstop : after.head? ≠ some '"' := fun hquote => by
      simpa using hf.stops inner_quote '"' hquote
    obtain ⟨d', htext', hd'⟩ := quotedText_replace htext hc hc' hstop
    exact ⟨.name text, d', bind_eq_ok.2 ⟨text, d', htext', rfl⟩, rfl, hd' ▸ hf.gap⟩
  | tempo =>
    obtain ⟨beats, e, hbeats, hpure⟩ := bind_eq_ok.1 h
    obtain ⟨rfl, rfl⟩ := pure_eq_ok.1 hpure
    obtain ⟨numeral, n, hdigits, hn, hn'⟩ := tempo_eq_ok.1 hbeats
    obtain ⟨d', hdigits', hd'⟩ := run_replace hdigits hc hc' (hf.stops inner_isDigit)
    exact ⟨.tempo beats, d', bind_eq_ok.2
      ⟨beats, d', tempo_eq_ok.2 ⟨numeral, n, hdigits', hn, hn'⟩, rfl⟩, rfl, hd' ▸ hf.gap⟩
  | channel =>
    obtain ⟨found, e, hfound, hpure⟩ := bind_eq_ok.1 h
    obtain ⟨rfl, rfl⟩ := pure_eq_ok.1 hpure
    obtain ⟨found', d', hfound', hlabels, hd'⟩ :=
      references_replace source' hfound hf hc hc'
    exact ⟨.channel found', d', bind_eq_ok.2 ⟨found', d', hfound', rfl⟩,
      congrArg Attribute.channel (map_eraseSite_eq hlabels), hd' ▸ hf.gap.idem⟩

theorem exists_digit_of_tempo {beats : UInt32} (h : tempo c = .ok beats d) :
    ∃ x, c.peek? = some x ∧ x.isDigit := by
  obtain ⟨numeral, n, hdigits, hn, -⟩ := tempo_eq_ok.1 h
  obtain ⟨rfl, rfl⟩ := EStateM.Result.ok.inj hdigits
  cases hrest : c.rest with
  | nil => simp [hrest, Text.decimalBelow?, Text.decimal?] at hn
  | cons x tail =>
    refine ⟨x, by simp [Cursor.peek?, hrest], ?_⟩
    by_cases hx : x.isDigit
    · exact hx
    · simp [hrest, hx, Text.decimalBelow?, Text.decimal?] at hn

theorem exists_letter_of_references {source : SourcePath} {found : List Reference}
    (h : references source c = .ok found d) : ∃ x, c.peek? = some x ∧ x.isAlpha := by
  rw [references] at h
  split at h
  · simp at h
  · rename_i r e hr
    obtain ⟨_, hword, hlabel, -, -⟩ := reference_eq_ok.1 hr
    obtain ⟨hrun, -⟩ := EStateM.Result.ok.inj hword
    rw [← hrun] at hlabel
    cases hrest : c.rest with
    | nil => simp [hrest, isLabel] at hlabel
    | cons x tail =>
      refine ⟨x, by simp [Cursor.peek?, hrest], ?_⟩
      by_cases hb : Text.isBlank x
      · simp [hrest, hb, isLabel] at hlabel
      · simp only [hrest, isLabel, String.toList_ofList, List.takeWhile_cons, hb] at hlabel
        exact (Bool.and_eq_true_iff.1 hlabel).1

/-- The value of an attribute begins with a character that begins no gap. -/
theorem attributeValue_head {source : SourcePath} {kind : AttributeName} {value : Attribute}
    (h : attributeValue source kind c = .ok value d) :
    d.rest.length < c.rest.length ∧
      ∃ x, c.peek? = some x ∧ Text.isBlank x = false ∧ x ≠ '/' := by
  cases kind with
  | name =>
    obtain ⟨text, e, htext, hpure⟩ := bind_eq_ok.1 h
    obtain ⟨rfl, rfl⟩ := pure_eq_ok.1 hpure
    have hquote : c.peek? = some '"' := by
      rw [quotedText] at htext
      split at htext
      · rename_i form hform
        simp [Cursor.peek?, hform]
      · simp at htext
    exact ⟨consumes_quotedText '"' c e text hquote htext, '"', hquote, by decide, by decide⟩
  | tempo =>
    obtain ⟨beats, e, hbeats, hpure⟩ := bind_eq_ok.1 h
    obtain ⟨rfl, rfl⟩ := pure_eq_ok.1 hpure
    obtain ⟨x, hx, hdigit⟩ := exists_digit_of_tempo hbeats
    obtain ⟨numeral, n, hdigits, -, -⟩ := tempo_eq_ok.1 hbeats
    exact ⟨consumes_run hdigit c e numeral hx hdigits, x, hx, inner_isDigit.head hdigit⟩
  | channel =>
    obtain ⟨found, e, hfound, hpure⟩ := bind_eq_ok.1 h
    obtain ⟨rfl, rfl⟩ := pure_eq_ok.1 hpure
    obtain ⟨x, hx, hletter⟩ := exists_letter_of_references hfound
    exact ⟨length_of_references hfound, x, hx, inner_reference.head (by simp [hletter])⟩

theorem trackAttribute_replace {source : SourcePath} (source' : SourcePath) {value : Attribute}
    (h : trackAttribute source c = .ok value d) (hf : Follows d.rest after after')
    (hc : c.rest = front ++ d.rest) (hc' : c'.rest = front ++ after) :
    ∃ value' d', trackAttribute source' c' = .ok value' d' ∧
      value'.eraseSites = value.eraseSites ∧ BehindGap d'.rest after' := by
  obtain ⟨text, e₁, e₂, kind, hword, hskip, hkind, hvalue⟩ := trackAttribute_eq_ok.1 h
  have hgap := forward_skipGap.ok hskip
  have hbehind := (forward_attributeValue source kind).ok hvalue
  obtain ⟨taken, behind, rfl, htaken, hrest⟩ :=
    (forward_word.ok hword).split (hgap.trans hbehind) hc
  obtain ⟨gap, back, rfl, hgap, hback⟩ := hgap.split hbehind hrest
  obtain ⟨hshort, x, hx, hhead⟩ := attributeValue_head hvalue
  obtain ⟨back, rfl⟩ := Cursor.exists_cons_of_peek? hx hback hshort
  have hnogap : BehindGap (x :: back ++ after) (x :: back ++ after) := behindGap_cons hhead _
  have hc' : c'.rest = taken ++ (gap ++ (x :: back ++ after)) := by
    rw [hc']
    simp
  have hstart : SameStart e₁.rest (gap ++ (x :: back ++ after)) := by
    rw [hgap, hback]
    exact (sameStart_of_ne_nil (List.cons_ne_nil x back) d.rest after).append gap
  obtain ⟨_, e₁', hword', rfl, he₁'⟩ := steady_word c e₁ c' text taken _ hword htaken hc' hstart
  obtain ⟨e₂', hskip', he₂'⟩ := skipGap_replace hskip (by simp [hback]) hnogap hgap he₁'
  obtain ⟨value', d', hvalue', herase, hd'⟩ :=
    attributeValue_replace source' hvalue hf hback he₂'
  exact ⟨value', d', trackAttribute_eq_ok.2 ⟨text, e₁', e₂', kind, hword', hskip', hkind, hvalue'⟩,
    herase, hd'⟩

/-! ## Directives -/

theorem steady_definedLabel : Steady Eq definedLabel definedLabel := by
  intro c d c' label front after h hc hc' hs
  obtain ⟨text, hword, hlabel⟩ := definedLabel_eq_ok.1 h
  obtain ⟨_, d', hword', rfl, hd'⟩ := steady_word c d c' text front after hword hc hc' hs
  exact ⟨label, d', definedLabel_eq_ok.2 ⟨text, hword', hlabel⟩, rfl, hd'⟩

/-- A label and the notes behind it, in front of another text. -/
theorem labelledNotes_replace {label : String} {written : List WrittenNote} {e : Cursor}
    (hlabel : definedLabel c = .ok label e) (hnotes : notes e = .ok written d)
    (hf : Follows d.rest after after') (hc : c.rest = front ++ d.rest)
    (hc' : c'.rest = front ++ after) :
    ∃ e' d', definedLabel c' = .ok label e' ∧ notes e' = .ok written d' ∧ d'.rest = after' := by
  obtain ⟨taken, back, rfl, htaken, hback⟩ :=
    (forward_definedLabel.ok hlabel).split (forward_notes.ok hnotes) hc
  rw [List.append_assoc] at hc'
  obtain ⟨text, hword, -⟩ := definedLabel_eq_ok.1 hlabel
  have hs : SameStart e.rest (back ++ after) := by
    have hblank := isBlank_of_word hword
    rw [hback] at hblank ⊢
    cases back with
    | nil => exact hf.sameStart hblank
    | cons y back => exact .inl rfl
  obtain ⟨_, d₁, hlabel', rfl, hd₁⟩ :=
    steady_definedLabel c e c' label taken (back ++ after) hlabel htaken hc' hs
  obtain ⟨d', hnotes', hd'⟩ := notes_replace hnotes hf hback (.inl hd₁)
  exact ⟨d₁, d', hlabel', hnotes', hd'⟩

/-- A directive in front of another text that begins with a directive: it is the same up to its
sites, and at most the gap at the start of the new text is taken with it. -/
theorem directive_replace {source : SourcePath} (source' : SourcePath) {mark : TokenKind}
    {x : Directive} (h : directive source mark c = .ok x d) (hf : Follows d.rest after after')
    (hc : c.rest = front ++ d.rest) (hc' : c'.rest = front ++ after) :
    ∃ x' d', directive source' mark c' = .ok x' d' ∧ x'.eraseSites = x.eraseSites ∧
      BehindGap d'.rest after' := by
  obtain ⟨_, _, hstart, h⟩ := bind_eq_ok.1 h
  obtain ⟨rfl, rfl⟩ := position_eq_ok.1 hstart
  cases mark with
  | trackMark =>
    obtain ⟨label, e, hlabel, hpure⟩ := bind_eq_ok.1 h
    obtain ⟨rfl, rfl⟩ := pure_eq_ok.1 hpure
    obtain ⟨text, hword, -⟩ := definedLabel_eq_ok.1 hlabel
    have hs := hf.sameStart (isBlank_of_word hword)
    obtain ⟨_, d', hlabel', rfl, hd'⟩ :=
      steady_definedLabel c e c' label front after hlabel hc hc' hs
    exact ⟨.track label ⟨source', c'.position⟩, d', bind_eq_ok.2
      ⟨_, c', rfl, bind_eq_ok.2 ⟨label, d', hlabel', rfl⟩⟩, rfl, hd' ▸ hf.gap⟩
  | sequenceMark =>
    obtain ⟨label, e, hlabel, h⟩ := bind_eq_ok.1 h
    obtain ⟨written, e', hnotes, hpure⟩ := bind_eq_ok.1 h
    obtain ⟨rfl, rfl⟩ := pure_eq_ok.1 hpure
    obtain ⟨e', d', hlabel', hnotes', hd'⟩ := labelledNotes_replace hlabel hnotes hf hc hc'
    exact ⟨.sequence label ⟨source', c'.position⟩ written, d', bind_eq_ok.2
      ⟨_, c', rfl, bind_eq_ok.2 ⟨label, e', hlabel', bind_eq_ok.2 ⟨written, d', hnotes', rfl⟩⟩⟩,
      rfl, hd' ▸ hf.gap.idem⟩
  | attributeMark =>
    obtain ⟨value, e, hvalue, hpure⟩ := bind_eq_ok.1 h
    obtain ⟨rfl, rfl⟩ := pure_eq_ok.1 hpure
    obtain ⟨value', d', hvalue', herase, hd'⟩ :=
      trackAttribute_replace source' hvalue hf hc hc'
    exact ⟨.describe value', d', bind_eq_ok.2
      ⟨_, c', rfl, bind_eq_ok.2 ⟨value', d', hvalue', rfl⟩⟩,
      congrArg Directive.describe herase, hd'⟩
  | _ => exact absurd h fail_ne_ok

end Reading

end Songsheet
