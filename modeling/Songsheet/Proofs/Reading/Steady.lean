import Songsheet.Proofs.Gap
import Songsheet.Proofs.Reading
import Songsheet.Proofs.Text.LetterCase
import Songsheet.QuotedText

/-!
# Readings in front of other texts

A reading that stops in the middle of a text has looked at no more than the next character. If
the text behind what it takes is replaced by one that begins in the same way, it takes the same
and answers in the same way.

* `SameStart` — two texts that begin in the same way; where the first has ended, the second may
  go on in a new line.
* `Reading.Steady` — a reading that depends only on what it takes, as long as what follows begins
  in the same way; it is closed under sequencing (`steady_bind`).
-/

namespace Songsheet

variable {rest after : List Char}

/-! ## Texts that begin in the same way -/

/-- The second text begins as the first does, or with a line break where the first has ended. -/
def SameStart (rest after : List Char) : Prop :=
  after.head? = rest.head? ∨ rest = [] ∧ after.head? = some '\n'

theorem SameStart.append (h : SameStart rest after) (front : List Char) :
    SameStart (front ++ rest) (front ++ after) := by
  cases front with
  | nil => exact h
  | cons c front => exact .inl rfl

theorem sameStart_of_ne_nil {front : List Char} (hfront : front ≠ []) (rest after : List Char) :
    SameStart (front ++ rest) (front ++ after) := by
  cases front with
  | nil => exact absurd rfl hfront
  | cons c front => exact .inl rfl

theorem LineEnd.sameStart (h : LineEnd after) : SameStart [] after := by
  rcases h with rfl | h
  · exact .inl rfl
  · exact .inr ⟨rfl, h⟩

theorem SameStart.lineEnd (h : SameStart rest after) (hrest : LineEnd rest) : LineEnd after := by
  rcases h with h | ⟨-, h⟩
  · rcases hrest with rfl | hrest
    · exact .inl (List.head?_eq_none_iff.1 h)
    · exact .inr (h.trans hrest)
  · exact .inr h

/-- Where the first text does not go on with a class of characters, neither does the second. -/
theorem SameStart.stops {p : Char → Bool} (h : SameStart rest after) (hp : p '\n' = false)
    (hrest : ∀ c, rest.head? = some c → p c = false) :
    ∀ c, after.head? = some c → p c = false := by
  intro c hc
  rcases h with h | ⟨-, h⟩
  · exact hrest c (h.symm.trans hc)
  · obtain rfl : '\n' = c := Option.some.inj (h.symm.trans hc)
    exact hp

/-- Where the first text does not go on with a class of characters to which no blank belongs, and
each letter in both cases or in neither, the second one does not either. -/
def StopsLike (rest after : List Char) : Prop :=
  ∀ p : Char → Bool, (∀ c, p c → Text.isBlank c = false) → CaseBlind p →
    (∀ c, rest.head? = some c → p c = false) → ∀ c, after.head? = some c → p c = false

theorem SameStart.stopsLike (h : SameStart rest after) : StopsLike rest after := by
  intro p hblank _ hrest
  have hbreak : p '\n' = false := by
    cases hp : p '\n' with
    | false => rfl
    | true => exact absurd (hblank _ hp) (by decide)
  exact h.stops hbreak hrest

theorem StopsLike.append (h : StopsLike rest after) (front : List Char) :
    StopsLike (front ++ rest) (front ++ after) := by
  cases front with
  | nil => exact h
  | cons c front => exact fun _ _ _ hrest => hrest

theorem StopsLike.ne_quote (h : StopsLike rest after) (hrest : rest.head? ≠ some '"') :
    after.head? ≠ some '"' := by
  have hquote : ∀ x, (x == '"') = true → Text.isBlank x = false := by
    intro x hx
    obtain rfl := beq_iff_eq.1 hx
    decide
  intro hafter
  have hstop := h (· == '"') hquote (caseBlind_beq (by decide)) fun x hx => by
    rw [beq_eq_false_iff_ne]
    rintro rfl
    exact hrest hx
  exact absurd (hstop '"' hafter) (by decide)

/-- A text that begins with no gap does not either if its end is replaced. -/
theorem StopsLike.gapAt_cons {blank : Char → Bool} {c : Char} (h : StopsLike rest after)
    (hc : blank c = false) (hgap : gapAt blank (c :: rest) = .upTo [] (c :: rest)) :
    gapAt blank (c :: after) = .upTo [] (c :: after) := by
  by_cases hslash : c = '/'
  · subst hslash
    -- behind a slash, a second one or a star would begin a comment
    have hrest : ∀ x, rest.head? = some x → (x == '/' || x == '*') = false := by
      intro x hx
      obtain ⟨tail, rfl⟩ := List.head?_eq_some_iff.1 hx
      rw [Bool.or_eq_false_iff, beq_eq_false_iff_ne, beq_eq_false_iff_ne]
      constructor
      · rintro rfl
        rw [gapAt] at hgap
        cases hline : gapAt blank (tail.dropWhile (· != '\n')) <;>
          simp [hline, Gap.behind] at hgap
      · rintro rfl
        rw [gapAt] at hgap
        split at hgap
        · rename_i body tail' _
          cases hbody : gapAt blank tail' <;> simp [hbody, Gap.behind] at hgap
        · simp at hgap
    have hblank : ∀ x, (x == '/' || x == '*') = true → Text.isBlank x = false := by
      intro x hx
      rw [Bool.or_eq_true, beq_iff_eq, beq_iff_eq] at hx
      rcases hx with rfl | rfl <;> decide
    have hafter := h _ hblank ((caseBlind_beq (by decide)).or (caseBlind_beq (by decide))) hrest
    have hne : ∀ x, (x == '/' || x == '*') = true → ∀ tail, '/' = '/' → after = x :: tail →
        False := by
      rintro x hx tail - rfl
      simp [hafter x rfl] at hx
    rw [gapAt_of_noOpening (hne '/' rfl) (hne '*' rfl), hc]
    rfl
  · exact Songsheet.gapAt_cons hc hslash after

/-! ## Steady readings -/

namespace Reading

variable {α β γ δ : Type}

/-- Where the first reading succeeds, the second succeeds on the same text with another text
behind it that begins in the same way; it takes the same and answers in the same way. -/
def Steady (E : α → β → Prop) (r : Reading α) (r' : Reading β) : Prop :=
  ∀ (c d c' : Cursor) (a : α) (front after : List Char), r c = .ok a d →
    c.rest = front ++ d.rest → c'.rest = front ++ after → SameStart d.rest after →
      ∃ b d', r' c' = .ok b d' ∧ E a b ∧ d'.rest = after

theorem steady_pure {E : α → β → Prop} {a : α} {b : β} (h : E a b) :
    Steady E (pure a) (pure b) := by
  intro c d c' x front after hr hc hc' hs
  obtain ⟨rfl, rfl⟩ := pure_eq_ok.1 hr
  obtain rfl : front = [] := List.self_eq_append_left.1 hc
  exact ⟨b, c', rfl, h, hc'⟩

theorem steady_fail {E : α → β → Prop} {cause : Cause} {p : Position} {r' : Reading β} :
    Steady E (fail cause p) r' := by
  intro c d c' x front after hr
  exact absurd hr fail_ne_ok

theorem steady_bind {E : α → β → Prop} {F : γ → δ → Prop} {r : Reading α} {r' : Reading β}
    {f : α → Reading γ} {f' : β → Reading δ} (hr : Steady E r r') (hforward : r.Forward)
    (hf : ∀ a b, E a b → Steady F (f a) (f' b)) (hforward' : ∀ a, (f a).Forward) :
    Steady F (r >>= f) (r' >>= f') := by
  intro c d c' x front after h hc hc' hs
  obtain ⟨a, e, hre, hfe⟩ := bind_eq_ok.1 h
  obtain ⟨taken, back, rfl, htaken, hback⟩ := (hforward.ok hre).split ((hforward' a).ok hfe) hc
  rw [List.append_assoc] at hc'
  have hstart : SameStart e.rest (back ++ after) := by
    rw [hback]
    exact hs.append back
  obtain ⟨b, e', hb, hE, he'⟩ := hr c e c' a taken (back ++ after) hre htaken hc' hstart
  obtain ⟨y, d', hy, hF, hd'⟩ := hf a b hE e d e' x back after hfe hback he' hs
  exact ⟨y, d', bind_eq_ok.2 ⟨b, e', hb, hy⟩, hF, hd'⟩

/-! ## Runs of characters and quoted texts -/

/-- A run of characters is read in the same way in front of any text that does not go on with
it. -/
theorem run_replace {within : Char → Bool} {c d c' : Cursor} {text : String}
    {front : List Char} (h : run within c = .ok text d) (hc : c.rest = front ++ d.rest)
    (hc' : c'.rest = front ++ after)
    (hstop : ∀ x, after.head? = some x → within x = false) :
    ∃ d', run within c' = .ok text d' ∧ d'.rest = after := by
  obtain ⟨rfl, rfl⟩ := EStateM.Result.ok.inj h
  have hfront : front = c.rest.takeWhile within := by
    have hsplit := List.takeWhile_append_dropWhile (p := within) (l := c.rest)
    exact (List.append_cancel_right (hsplit.trans hc)).symm
  rw [hfront] at hc'
  refine ⟨c'.past (c.rest.takeWhile within) after, ?_, rfl⟩
  rw [run, hc', takeWhile_run_append hstop, dropWhile_run_append hstop]

theorem run_stops {within : Char → Bool} {c d : Cursor} {text : String}
    (h : run within c = .ok text d) : ∀ x, d.rest.head? = some x → within x = false := by
  obtain ⟨rfl, rfl⟩ := EStateM.Result.ok.inj h
  intro x hx
  have hhead := List.head?_dropWhile_not within c.rest
  simp only [Cursor.past] at hx
  rw [hx] at hhead
  simpa using hhead

theorem steady_run {within : Char → Bool} (hw : within '\n' = false) :
    Steady Eq (run within) (run within) := by
  intro c d c' text front after h hc hc' hs
  obtain ⟨d', h', hd'⟩ := run_replace h hc hc' (hs.stops hw (run_stops h))
  exact ⟨text, d', h', rfl, hd'⟩

theorem steady_word : Steady Eq word word :=
  steady_run (by decide)

/-- A quoted text is read in the same way in front of any text that begins with no quotation
mark. -/
theorem quotedText_replace {c d c' : Cursor} {text : String} {front : List Char}
    (h : quotedText c = .ok text d) (hc : c.rest = front ++ d.rest)
    (hc' : c'.rest = front ++ after) (hstop : after.head? ≠ some '"') :
    ∃ d', quotedText c' = .ok text d' ∧ d'.rest = after := by
  rw [quotedText] at h
  split at h
  · rename_i form hform
    split at h
    · rename_i inside rest hu
      obtain ⟨rfl, rfl⟩ := EStateM.Result.ok.inj h
      obtain ⟨rfl, -⟩ := quoted_of_unquoted? hu
      have hfront : front = '"' :: quoted inside := by
        rw [hform, ← List.cons_append] at hc
        exact (List.append_cancel_right hc).symm
      refine ⟨c'.past ('"' :: quoted inside) after, ?_, rfl⟩
      rw [quotedText, hc', hfront, List.cons_append]
      simp [unquoted?_quoted inside after hstop]
    · simp at h
  · simp at h

theorem quotedText_stops {c d : Cursor} {text : String} (h : quotedText c = .ok text d) :
    d.rest.head? ≠ some '"' := by
  rw [quotedText] at h
  split at h
  · split at h
    · rename_i hu
      obtain ⟨rfl, rfl⟩ := EStateM.Result.ok.inj h
      exact (quoted_of_unquoted? hu).2
    · simp at h
  · simp at h

end Reading

end Songsheet
