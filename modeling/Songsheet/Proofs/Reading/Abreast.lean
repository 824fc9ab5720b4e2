import Songsheet.Proofs.Directive.Paired

/-!
# Readings that stay in front of a place

A reading looks no further than two characters beyond what it takes. So two texts that are the same
up to some place are read in the same way as long as the reading stays in front of this place, if
they begin in the same way behind it: what counts there is the first character, where all blanks are
the same, and behind a slash, which may open a comment, the second one as well.

* `LookAlike` — two texts that begin in the same way; `StopAlike` — what is needed of this for tokens
  and gaps.
* `Pairing.abreast` — two cursors with the same text in front of them, up to where two given texts
  begin; the first reading may not go beyond.
* `Pairing.readsParts_abreast` — tokens, gaps and all else is read in pairs there.
* `SameRest` — the same text is still to come, whatever the places.
-/

namespace Songsheet

variable {rest after : List Char}

/-! ## Texts that begin in the same way -/

/-- A text that begins with a blank. -/
def BlankFirst (text : List Char) : Prop :=
  ∃ c tail, text = c :: tail ∧ Text.isBlank c

theorem not_blankFirst (h : gapAt Text.isBlank rest = .upTo [] rest) : ¬ BlankFirst rest := by
  intro ⟨c, tail, hrest, hc⟩
  subst hrest
  have hnil := eq_nil_of_blank h fun x hx => Option.some.inj hx ▸ hc
  cases hnil

/-- Two texts that begin with the same character, or both with a blank, or both are at their end. -/
def BeginAlike (rest after : List Char) : Prop :=
  rest.head? = after.head? ∨ BlankFirst rest ∧ BlankFirst after

/-- Two texts that begin in the same way, also behind a slash. -/
structure LookAlike (rest after : List Char) : Prop where
  first : BeginAlike rest after
  second : rest.head? = some '/' → BeginAlike rest.tail after.tail

theorem BeginAlike.any_eq (h : BeginAlike rest after) {p : Char → Bool}
    (hp : ∀ x, p x → Text.isBlank x = false) : rest.head?.any p = after.head?.any p := by
  have hblank : ∀ {text}, BlankFirst text → text.head?.any p = false := by
    intro text htext
    obtain ⟨c, tail, rfl, hc⟩ := htext
    cases hpc : p c with
    | false => exact hpc
    | true => exact absurd (hp c hpc) (by simp [hc])
  rcases h with h | ⟨hrest, hafter⟩
  · rw [h]
  · rw [hblank hrest, hblank hafter]

theorem BeginAlike.stopsLike (h : BeginAlike rest after) : StopsLike rest after := by
  intro p hp _ hrest c hc
  have hany := h.any_eq hp
  rw [hc] at hany
  cases hpc : p c with
  | false => rfl
  | true =>
    rw [Option.any_some, hpc] at hany
    obtain ⟨x, hx, hpx⟩ := (Option.any_eq_true _ _).1 hany
    rw [hrest x hx] at hpx
    cases hpx

theorem BeginAlike.eq_nil (h : BeginAlike [] after) : after = [] := by
  rcases h with h | ⟨⟨c, tail, hnil, -⟩, -⟩
  · exact List.head?_eq_none_iff.1 h.symm
  · cases hnil

namespace LookAlike

theorem refl (text : List Char) : LookAlike text text :=
  ⟨.inl rfl, fun _ => .inl rfl⟩

theorem of_take (h : rest.take 2 = after.take 2) : LookAlike rest after := by
  have hhead : ∀ text : List Char, text.head? = (text.take 2).head? := by
    intro text
    cases text <;> rfl
  have htail : ∀ text : List Char, text.tail.head? = (text.take 2).tail.head? := by
    intro text
    match text with
    | [] => rfl
    | [_] => rfl
    | _ :: _ :: _ => rfl
  exact ⟨.inl (by rw [hhead rest, hhead after, h]),
    fun _ => .inl (by rw [htail rest, htail after, h])⟩

theorem append (h : LookAlike rest after) (front : List Char) :
    LookAlike (front ++ rest) (front ++ after) := by
  cases front with
  | nil => exact h
  | cons c front =>
    refine ⟨.inl rfl, fun _ => ?_⟩
    cases front with
    | nil => exact h.first
    | cons d front => exact .inl rfl

/-- A text looks like every other one with the same front, unless this is a slash alone. -/
theorem of_front {front : List Char} (hfront : front ≠ []) (hslash : front ≠ ['/']) :
    LookAlike (front ++ rest) (front ++ after) := by
  obtain ⟨x, others, rfl⟩ := List.exists_cons_of_ne_nil hfront
  refine ⟨.inl rfl, fun hx => ?_⟩
  obtain rfl : x = '/' := Option.some.inj hx
  obtain ⟨y, others, rfl⟩ := List.exists_cons_of_ne_nil
    (l := others) fun hnil => hslash (by rw [hnil])
  exact .inl rfl

/-- Without a gap in front, the first characters are the same. -/
theorem head?_eq (h : LookAlike rest after) (hrest : gapAt Text.isBlank rest = .upTo [] rest) :
    rest.head? = after.head? := by
  rcases h.first with hsame | ⟨hblank, -⟩
  · exact hsame
  · exact absurd hblank (not_blankFirst hrest)

/-- Where the first text begins with no gap, neither does the second. -/
theorem gapAt_eq (h : LookAlike rest after) (hrest : gapAt Text.isBlank rest = .upTo [] rest) :
    gapAt Text.isBlank after = .upTo [] after := by
  have hfirst := h.head?_eq hrest
  cases after with
  | nil => rw [gapAt]
  | cons c after =>
    obtain ⟨tail, rfl⟩ := List.head?_eq_some_iff.1 hfirst
    have hc : Text.isBlank c = false := by
      cases hblank : Text.isBlank c with
      | false => rfl
      | true => exact absurd ⟨c, tail, rfl, hblank⟩ (not_blankFirst hrest)
    by_cases hslash : c = '/'
    · subst hslash
      exact (h.second rfl).stopsLike.gapAt_cons hc hrest
    · exact gapAt_cons hc hslash after

theorem nil_iff (h : LookAlike rest after) (hrest : rest = []) : after = [] := by
  subst hrest
  exact h.first.eq_nil

end LookAlike

/-- Two texts in front of which tokens and gaps stop in the same way. -/
structure StopAlike (rest after : List Char) : Prop where
  stops : StopsLike rest after
  gap : gapAt Text.isBlank rest = .upTo [] rest → gapAt Text.isBlank after = .upTo [] after
  ends : rest = [] → after = []

theorem LookAlike.stopAlike (h : LookAlike rest after) : StopAlike rest after :=
  ⟨h.first.stopsLike, h.gapAt_eq, h.nil_iff⟩

theorem StopAlike.append (h : StopAlike rest after) (front : List Char) :
    StopAlike (front ++ rest) (front ++ after) := by
  cases front with
  | nil => exact h
  | cons c front =>
    refine ⟨h.stops.append _, fun hgap => ?_, fun hnil => by simp at hnil⟩
    have hc : Text.isBlank c = false := by
      cases hblank : Text.isBlank c with
      | false => rfl
      | true => exact absurd ⟨c, _, rfl, hblank⟩ (not_blankFirst hgap)
    exact (h.stops.append front).gapAt_cons hc hgap

/-! ## Cursors abreast -/

namespace Reading

variable {α : Type} {b : Blur} {tail tail' front : List Char} {c c' d : Cursor} {t : Token}

/-- Two cursors with the same text in front of them, up to where `tail` and `tail'` begin, at places
that look the same. -/
structure Abreast (b : Blur) (tail tail' : List Char) (c c' : Cursor) : Prop where
  front : ∃ front, c.rest = front ++ tail ∧ c'.rest = front ++ tail'
  place : b.see c.position = b.see c'.position

/-- Cursors abreast; the first reading may not go beyond where `tail` begins. -/
def Pairing.abreast (b : Blur) (tail tail' : List Char) : Pairing where
  blur := b
  pair := Abreast b tail tail'
  within := fun c => tail <:+ c.rest
  place := Abreast.place
  back := by
    intro c d hreach htail
    exact htail.trans hreach.suffix

/-- Two cursors with the same text in front of them to the end. -/
theorem abreast_nil_iff :
    Abreast b [] [] c c' ↔ c.rest = c'.rest ∧ b.see c.position = b.see c'.position := by
  constructor
  · intro ⟨⟨front, hc, hc'⟩, hplace⟩
    exact ⟨hc.trans hc'.symm, hplace⟩
  · intro ⟨hrest, hplace⟩
    exact ⟨⟨c.rest, by rw [List.append_nil], by rw [List.append_nil, hrest]⟩, hplace⟩

theorem Abreast.past (hplace : b.see c.position = b.see c'.position) (read rest : List Char) :
    Abreast b [] [] (c.past read rest) (c'.past read rest) :=
  abreast_nil_iff.2 ⟨rfl, b.see_after hplace read⟩

/-! ## How readings fail -/

theorem rest_of_skip_error {blank : Char → Bool} {e : Diagnostic}
    (h : skip blank c = .error e d) : d.rest = [] := by
  unfold skip at h
  split at h
  · cases h
  · obtain ⟨-, rfl⟩ := EStateM.Result.error.inj h
    rfl

/-- A quoted text that is never closed takes all of the text. -/
theorem rest_of_quotedText_error {e : Diagnostic} (hquote : c.rest.head? = some '"')
    (h : quotedText c = .error e d) : d.rest = [] := by
  unfold quotedText at h
  split at h
  · split at h
    · cases h
    · obtain ⟨-, rfl⟩ := EStateM.Result.error.inj h
      rfl
  · rename_i hother
    obtain ⟨form, hform⟩ := List.head?_eq_some_iff.1 hquote
    exact absurd hform (hother form)

theorem quotedText_of_other (hquote : c.rest.head? ≠ some '"') :
    quotedText c = .error ((Cause.expectedQuote c.rest.head?).reportedAt c.position) c := by
  unfold quotedText
  split
  · rename_i form hform
    exact absurd (by rw [hform]; rfl) hquote
  · rfl

theorem rest_of_kindFrom_error {first : Char} {e : Diagnostic} (hfirst : c.peek? = some first)
    (h : kindFrom first c = .error e d) : d.rest = [] := by
  rcases kindFrom_eq_error.1 h with ⟨-, hskip⟩ | ⟨rfl, hquoted⟩
  · exact rest_of_skip_error hskip
  · exact rest_of_quotedText_error hfirst hquoted

/-- A token that cannot be read takes all of the text: a comment or a quoted text is not closed. -/
theorem rest_of_nextToken_error {e : Diagnostic} (h : nextToken c = .error e d) : d.rest = [] := by
  rcases nextToken_eq_error.1 h with hskip | ⟨_, first, -, hfirst, hkind⟩
  · exact rest_of_skip_error hskip
  · exact rest_of_kindFrom_error hfirst hkind

/-! ## The same text to the end -/

namespace Pairing

/-- A reading of the same text from places that look the same. -/
theorem reads_same {E : α → α → Prop} {r : Reading α} (hforward : r.Forward)
    (h : ∀ c c', c.rest = c'.rest → b.see c.position = b.see c'.position →
      Matches b E (Abreast b [] []) (r c) (r c')) : (abreast b [] []).Reads E r r where
  forward := hforward
  result := by
    intro c c' hpair _
    obtain ⟨hrest, hplace⟩ := abreast_nil_iff.1 hpair
    exact h c c' hrest hplace

theorem same_run (within : Char → Bool) :
    (abreast b [] []).Reads Eq (run within) (run within) := by
  apply reads_same (forward_run within)
  intro c c' hrest hplace
  unfold run
  rw [← hrest]
  exact ⟨rfl, .past hplace _ _⟩

theorem same_drop : (abreast b [] []).Reads Eq drop drop := by
  apply reads_same forward_drop
  intro c c' hrest hplace
  unfold drop
  rw [← hrest]
  exact ⟨rfl, .past hplace _ _⟩

theorem same_key : (abreast b [] []).Reads Eq key key := by
  apply reads_same forward_key
  intro c c' hrest hplace
  have hpair : Abreast b [] [] c c' := abreast_nil_iff.2 ⟨hrest, hplace⟩
  unfold key
  rw [← hrest]
  cases c.rest with
  | nil => exact ⟨rfl, hpair⟩
  | cons first text => exact ⟨rfl, .past hplace _ _⟩

theorem same_skip (blank : Char → Bool) :
    (abreast b [] []).Reads Eq (skip blank) (skip blank) := by
  apply reads_same (forward_skip blank)
  intro c c' hrest hplace
  unfold skip
  rw [← hrest]
  cases gapAt blank c.rest with
  | upTo skipped rest => exact ⟨rfl, .past hplace _ _⟩
  | unclosed before comment => exact b.diagnostic_reportedAt _ (b.see_after hplace before)

theorem same_quotedText : (abreast b [] []).Reads Eq quotedText quotedText := by
  apply reads_same forward_quotedText
  intro c c' hrest hplace
  unfold quotedText
  rw [← hrest]
  split
  · split
    · exact ⟨rfl, .past hplace _ _⟩
    · exact b.diagnostic_reportedAt _ hplace
  · exact b.diagnostic_reportedAt _ hplace

theorem same_through (close : Char) :
    (abreast b [] []).Reads Eq (through close) (through close) := by
  apply reads_same (forward_through close)
  intro c c' hrest hplace
  unfold through
  rw [← hrest]
  cases c.rest.dropWhile (· != close) with
  | nil => exact ⟨rfl, .past hplace _ _⟩
  | cons x rest => exact ⟨rfl, .past hplace _ _⟩

theorem same_peek? : (abreast b [] []).Reads Eq peek? peek? := by
  apply reads_same forward_peek?
  intro c c' hrest hplace
  exact ⟨congrArg List.head? hrest, abreast_nil_iff.2 ⟨hrest, hplace⟩⟩

theorem same_kindFrom (first : Char) :
    (abreast b [] []).Reads Eq (kindFrom first) (kindFrom first) := by
  unfold kindFrom
  split
  · exact (same_skip _).bind_eq fun _ => reads_pure rfl
  split
  · exact (same_run _).bind_eq fun _ => reads_pure rfl
  split
  · exact same_quotedText.bind_eq fun _ => reads_pure rfl
  split
  · exact same_drop.bind_eq fun _ => reads_pure rfl
  split
  · exact same_drop.bind_eq fun _ => reads_pure rfl
  · exact same_key.bind_eq fun _ => reads_pure rfl

theorem same_nextToken : (abreast b [] []).ReadsTokens := by
  apply (same_skip _).bind_eq
  intro _
  apply reads_position.bind fun _ => rfl
  intro start start' hstart
  apply same_peek?.bind_eq
  intro next
  cases next with
  | none => exact reads_pure ⟨rfl, hstart⟩
  | some first =>
    apply (same_kindFrom first).bind_eq
    intro kind
    exact reads_pure ⟨rfl, hstart⟩

end Pairing

/-! ## Blanks in front of other texts -/

/-- A blank is read in the same way, behind the same comments, in front of any text where it stops in
the same way. -/
theorem nextToken_of_stopAlike {after : List Char} (h : nextToken c = .ok t d)
    (ht : t.kind = .blank) (hc : c.rest = front ++ d.rest) (hc' : c'.rest = front ++ after)
    (hstop : StopAlike d.rest after) :
    ∃ comments d', t.position = c.position.after comments ∧
      nextToken c' = .ok ⟨.blank, c'.position.after comments⟩ d' ∧ d'.rest = after := by
  obtain ⟨comments, first, blanks, hfirst, hcomments, hblanks⟩ := nextToken_eq_blank h ht
  have hfront : front = comments ++ (first :: blanks) := by
    have hwhole := append_of_gapAt hcomments
    rw [hc, ← List.append_assoc] at hwhole
    exact List.append_cancel_right hwhole
  have hcomments' : gapAt (fun _ => false) c'.rest =
      .upTo comments (first :: (blanks ++ after)) := by
    rw [hc', hfront, List.append_assoc, gapAt_append (fun _ h => h) rfl hcomments]
    · rw [List.cons_append, gapAt_cons rfl (Text.ne_slash_of_isBlank hfirst)]
      simp
    · exact SameStart.lineEnd (.inl rfl)
  have hgap := gapAt_rest hblanks
  have hline : LineEnd d.rest → LineEnd after := fun hend =>
    .inl (hstop.ends (eq_nil_of_lineEnd hgap hend))
  obtain ⟨skipped, hskipped⟩ :=
    BehindGap.append (fun _ h => h) hblanks hline ⟨[], hstop.gap hgap⟩
  have hskip : skipGap (c'.past comments (first :: (blanks ++ after))) =
      .ok () ((c'.past comments (first :: (blanks ++ after))).past skipped after) :=
    skip_eq_ok.2 ⟨skipped, after, hskipped, rfl⟩
  exact ⟨comments, _, position_of_nextToken h hcomments,
    nextToken_of_comments hcomments' rfl (kindFrom_eq_blank.2 ⟨hfirst, hskip⟩), rfl⟩

/-! ## The same text up to a place -/

/-- A reading that takes a text in the same way wherever it stops in the same way, and all of the text
where it fails, is read in pairs by two cursors abreast. -/
theorem matches_abreast {E : α → α → Prop} {r : Reading α} (hstop : StopAlike tail tail')
    (hpair : Abreast b tail tail' c c') (hwithin : tail <:+ (cursorLeft (r c)).rest)
    (hsame : (Pairing.abreast b [] []).Reads E r r)
    (herror : ∀ e d, r c = .error e d → d.rest = [])
    (hok : ∀ a d front after, r c = .ok a d → c.rest = front ++ d.rest → c'.rest = front ++ after →
      StopAlike d.rest after → ∃ a' d', r c' = .ok a' d' ∧ E a a' ∧ d'.rest = after) :
    Matches b E (Abreast b tail tail') (r c) (r c') := by
  obtain ⟨⟨front, hc, hc'⟩, hplace⟩ := hpair
  cases h : r c with
  | ok a d =>
    rw [h] at hwithin
    obtain ⟨back, hback⟩ := hwithin
    have hd : d.rest = back ++ tail := hback.symm
    obtain ⟨read, hread, hposition⟩ := hsame.forward.ok h
    have hfront : front = read ++ back := by
      rw [hc, hd, ← List.append_assoc] at hread
      exact List.append_cancel_right hread
    rw [hfront, List.append_assoc] at hc'
    have hafter : StopAlike d.rest (back ++ tail') := hd ▸ hstop.append back
    obtain ⟨a', d', h', ha, hd'⟩ := hok a d read (back ++ tail') h hread hc' hafter
    rw [h']
    refine ⟨ha, ⟨back, hd, hd'⟩, ?_⟩
    -- both have read the same characters
    obtain ⟨read', hread', hposition'⟩ := hsame.forward.ok h'
    rw [hc', ← hd'] at hread'
    obtain rfl : read = read' := List.append_cancel_right hread'
    rw [hposition, hposition']
    exact b.see_after hplace read
  | error e d =>
    rw [h] at hwithin
    have hnil : tail = [] := List.suffix_nil.1 (herror e d h ▸ hwithin)
    have hnil' : tail' = [] := hstop.ends hnil
    subst hnil hnil'
    have hsame := hsame.result c c' ⟨⟨front, hc, hc'⟩, hplace⟩ List.nil_suffix
    rw [h] at hsame
    exact hsame

namespace Pairing

/-- What holds of a reading wherever it succeeds or fails. -/
theorem reads_abreast {E : α → α → Prop} {r : Reading α} (hstop : StopAlike tail tail')
    (hsame : (abreast b [] []).Reads E r r) (herror : ∀ c e d, r c = .error e d → d.rest = [])
    (hok : ∀ c c' a d front after, r c = .ok a d → c.rest = front ++ d.rest →
      c'.rest = front ++ after → StopAlike d.rest after → b.see c.position = b.see c'.position →
      ∃ a' d', r c' = .ok a' d' ∧ E a a' ∧ d'.rest = after) :
    (abreast b tail tail').Reads E r r where
  forward := hsame.forward
  result := by
    intro c c' hpair hwithin
    apply matches_abreast hstop hpair hwithin hsame (herror c)
    intro a d front after h hc hc' hafter
    exact hok c c' a d front after h hc hc' hafter hpair.place

section StopAlike

variable (hstop : StopAlike tail tail')
include hstop

theorem abreast_run {p : Char → Bool} (hp : ∀ x, p x → Text.isBlank x = false)
    (hcase : CaseBlind p) : (abreast b tail tail').Reads Eq (run p) (run p) := by
  apply reads_abreast hstop (same_run p)
  · intro c e d h
    cases h
  · intro c c' text d front after h hc hc' hafter _
    obtain ⟨d', h', hd'⟩ := run_replace h hc hc' (hafter.stops p hp hcase (run_stops h))
    exact ⟨text, d', h', rfl, hd'⟩

theorem abreast_skipGap : (abreast b tail tail').ReadsGaps := by
  apply reads_abreast hstop (same_skip _)
  · intro c e d h
    exact rest_of_skip_error h
  · intro c c' _ d front after h hc hc' hafter _
    have hgap := hafter.gap (skipGap_eq_ok h).gapAt_rest
    obtain ⟨d', h', hd'⟩ :=
      skipGap_replace h (fun hnil => .inl (hafter.ends hnil)) ⟨[], hgap⟩ hc hc'
    exact ⟨(), d', h', rfl, hd'⟩

theorem abreast_nextToken : (abreast b tail tail').ReadsTokens := by
  apply reads_abreast hstop same_nextToken
  · intro c e d h
    exact rest_of_nextToken_error h
  · intro c c' t d front after h hc hc' hafter hplace
    by_cases hgap : t.kind.IsGap
    · rcases hgap with hblank | hend
      · obtain ⟨comments, d', hposition, h', hd'⟩ :=
          nextToken_of_stopAlike h hblank hc hc' hafter
        refine ⟨_, d', h', ⟨hblank, ?_⟩, hd'⟩
        rw [hposition]
        exact b.see_after hplace comments
      · -- at the end of the text nothing is left to differ
        obtain ⟨hnil, -⟩ := rest_of_nextToken_end h hend
        have hsame : c.rest = c'.rest := by rw [hc, hc', hnil, hafter.ends hnil]
        obtain ⟨t', d', h', ht, hd⟩ :=
          same_nextToken.exists_ok (abreast_nil_iff.2 ⟨hsame, hplace⟩) h List.nil_suffix
        refine ⟨t', d', h', ht, ?_⟩
        rw [← (abreast_nil_iff.1 hd).1, hnil, hafter.ends hnil]
    · obtain ⟨comments, d', hposition, h', hd'⟩ :=
        nextToken_of_stopsLike h hgap hc hc' hafter.stops
      refine ⟨_, d', h', ⟨rfl, ?_⟩, hd'⟩
      rw [hposition]
      exact b.see_after hplace comments

end StopAlike

variable (hlook : LookAlike tail tail')
include hlook

theorem abreast_peeks : (abreast b tail tail').PeeksAlike := by
  intro c c' hpair p hp
  obtain ⟨front, hc, hc'⟩ := hpair.front
  have hbegin := (hlook.append front).first
  rw [← hc, ← hc'] at hbegin
  exact hbegin.any_eq hp

/-- A quoted text that is not preceded by a gap. -/
theorem abreast_quotedText (hpair : Abreast b tail tail' c c') (hgap : BehindGap c.rest c.rest)
    (hwithin : tail <:+ (cursorLeft (quotedText c)).rest) :
    Matches b Eq (Abreast b tail tail') (quotedText c) (quotedText c') := by
  by_cases hquote : c.rest.head? = some '"'
  · apply matches_abreast hlook.stopAlike hpair hwithin same_quotedText
    · intro e d h
      exact rest_of_quotedText_error hquote h
    · intro text d front after h hc hc' hafter
      obtain ⟨d', h', hd'⟩ :=
        quotedText_replace h hc hc' (hafter.stops.ne_quote (quotedText_stops h))
      exact ⟨text, d', h', rfl, hd'⟩
  · obtain ⟨front, hc, hc'⟩ := hpair.front
    have hlook' := hlook.append front
    rw [← hc, ← hc'] at hlook'
    have hhead := hlook'.head?_eq hgap.gapAt_rest
    rw [quotedText_of_other hquote, quotedText_of_other (hhead ▸ hquote), hhead]
    exact b.diagnostic_reportedAt _ hpair.place

theorem abreast_through (close : Char) :
    (abreast b tail tail').Reads Eq (through close) (through close) := by
  apply reads_abreast hlook.stopAlike (same_through close)
  · intro c e d h
    unfold through at h
    split at h <;> cases h
  · intro c c' target d front after h hc hc' hafter _
    by_cases hclose : close ∈ c.rest
    · obtain ⟨body, rest, htext, hbody⟩ := List.eq_append_cons_of_mem hclose
      rw [through_of_text hbody htext] at h
      obtain ⟨rfl, rfl⟩ := EStateM.Result.ok.inj h
      have hfront : front = body ++ [close] := by
        rw [htext, List.append_cons] at hc
        exact (List.append_cancel_right hc).symm
      rw [hfront, List.append_assoc] at hc'
      exact ⟨_, _, through_of_text hbody hc', rfl, rfl⟩
    · rw [through_of_not_mem hclose] at h
      obtain ⟨rfl, rfl⟩ := EStateM.Result.ok.inj h
      obtain rfl : after = [] := hafter.ends rfl
      have hsame : c'.rest = c.rest := hc'.trans hc.symm
      have hclose' : close ∉ c'.rest := by
        rw [hsame]
        exact hclose
      exact ⟨_, _, through_of_not_mem hclose', rfl, rfl⟩

theorem readsParts_abreast : (abreast b tail tail').ReadsParts where
  tokens := abreast_nextToken hlook.stopAlike
  gaps := abreast_skipGap hlook.stopAlike
  peeks := abreast_peeks hlook
  words := abreast_run hlook.stopAlike (fun x hx => by simpa using hx) caseBlind_isBlank.not
  digits := abreast_run hlook.stopAlike (fun _ => isBlank_of_isDigit) caseBlind_isDigit
  quotes := fun _ _ => abreast_quotedText hlook
  targets := abreast_through hlook '>'

end Pairing

/-! ## The same text to come -/

/-- The same text is still to come. -/
def SameRest (c c' : Cursor) : Prop := c.rest = c'.rest

theorem sameRest_iff : Abreast .blind [] [] c c' ↔ SameRest c c' := by
  rw [abreast_nil_iff]
  exact and_iff_left rfl

/-- What is read in pairs anyway is read in pairs where the same text is still to come. -/
theorem Pairing.Reads.matches_sameRest {α : Type} {E : α → α → Prop} {r r' : Reading α}
    (h : (Pairing.abreast .blind [] []).Reads E r r') (hrest : SameRest c c') :
    Matches .blind E SameRest (r c) (r' c') :=
  (h.result c c' (sameRest_iff.2 hrest) List.nil_suffix).mono (fun _ _ ha => ha)
    fun _ _ hd => sameRest_iff.1 hd

theorem readsParts_sameRest : (Pairing.abreast .blind [] []).ReadsParts :=
  Pairing.readsParts_abreast (.refl [])

end Reading

end Songsheet
