import Songsheet.Proofs.Reading.Abreast
import Songsheet.Proofs.Token.Text

/-!
# Texts with letters in another case

A second text has some of the letters of a first one in another case, each at a place where this is
allowed. Up to the first such letter the two texts are the same, and there a reading stops in the same
way in both. A run of a class of characters that does not tell the cases apart takes the same letters,
in whatever case, so a word that is all in such a run may differ, and what follows it is read from the
same place.

* `Recased` — the second text has letters of the first one in another case.
* `RecasedAt` — two cursors at one place of two such texts; `RecasedAt.exists_tails` — they are abreast
  up to the first letter that differs, where both texts stop alike.
* `RecasedAt.run` — runs of characters behind two such cursors; `nextToken_of_isKeyChars` — a key of a
  note is such a run.
-/

namespace Songsheet

variable {site : List Char → Prop} {rest rest' back back' tail tail' : List Char} {x x' : Char}
  {p : Char → Bool}

/-! ## Texts -/

/-- The second text has letters of the first one in another case. A place is told by what stands from
there on. -/
inductive Recased (site : List Char → Prop) : List Char → List Char → Prop
  | done : Recased site [] []
  | keep {rest rest' : List Char} (x : Char) (behind : Recased site rest rest') :
      Recased site (x :: rest) (x :: rest')
  | letter {x x' : Char} {rest rest' : List Char} (here : site (x :: rest)) (same : SameLetter x x')
      (behind : Recased site rest rest') : Recased site (x :: rest) (x' :: rest')

theorem Recased.append (h : Recased site rest rest') (front : List Char) :
    Recased site (front ++ rest) (front ++ rest') := by
  induction front with
  | nil => exact h
  | cons x front ih => exact .keep x ih

theorem Recased.exists_cons (h : Recased site (x :: rest) back) :
    ∃ x' rest', back = x' :: rest' ∧ SameLetter x x' ∧ Recased site rest rest' := by
  cases h with
  | keep _ behind => exact ⟨x, _, rfl, rfl, behind⟩
  | letter _ same behind => exact ⟨_, _, rfl, same, behind⟩

/-- The texts are the same, or they are the same up to a letter that stands in another case. -/
theorem Recased.exists_first (h : Recased site rest rest') :
    rest = rest' ∨ ∃ front x x' back back', rest = front ++ x :: back ∧
      rest' = front ++ x' :: back' ∧ site (x :: back) ∧ SameLetter x x' ∧ x ≠ x' ∧
      Recased site back back' := by
  induction h with
  | done => exact .inl rfl
  | keep x behind ih =>
    rcases ih with rfl | ⟨front, y, y', back, back', rfl, rfl, hfirst⟩
    · exact .inl rfl
    · exact .inr ⟨x :: front, y, y', back, back', rfl, rfl, hfirst⟩
  | @letter x x' rest rest' here same behind ih =>
    by_cases hx : x = x'
    · subst hx
      rcases ih with rfl | ⟨front, y, y', back, back', rfl, rfl, hfirst⟩
      · exact .inl rfl
      · exact .inr ⟨x :: front, y, y', back, back', rfl, rfl, hfirst⟩
    · exact .inr ⟨[], x, x', rest, rest', rfl, rfl, here, same, hx, behind⟩

/-- Only a letter stands in another case. -/
theorem SameLetter.letter (h : SameLetter x x') (hne : x ≠ x') : 65 ≤ x.toNat ∧ x.toNat ≤ 122 := by
  constructor
  · by_contra hsmall
    exact hne ((h.eq_iff (.inl (Nat.lt_of_not_le hsmall))).1 rfl).symm
  · by_contra hlarge
    exact hne ((h.eq_iff (.inr (Nat.lt_of_not_le hlarge))).1 rfl).symm

/-- In front of a letter a reading stops in the same way whatever its case is. -/
theorem SameLetter.stopAlike (h : SameLetter x x') (hne : x ≠ x') (back back' : List Char) :
    StopAlike (x :: back) (x' :: back') := by
  obtain ⟨hl, hu⟩ := h.letter hne
  refine ⟨?_, ?_, fun hnil => by cases hnil⟩
  · intro p _ hp hstop y hy
    obtain rfl : x' = y := Option.some.inj hy
    rw [← hp.eq h]
    exact hstop x rfl
  · intro _
    have hblank : Text.isBlank x' = false := by
      rw [← caseBlind_isBlank.eq h]
      exact Text.isBlank_of_printable (by omega) (by omega)
    have hslash : x' ≠ '/' := by
      intro hx'
      have hx := (h.eq_iff (y := '/') (by decide)).2 hx'
      rw [hx] at hl
      exact absurd hl (by decide)
    exact gapAt_cons hblank hslash back'

theorem Recased.any_eq (h : Recased site rest rest') (hp : CaseBlind p) :
    rest.head?.any p = rest'.head?.any p := by
  cases h with
  | done => rfl
  | keep x behind => rfl
  | letter here same behind => exact hp.eq same

/-- Lines end at the same places. -/
theorem SameLetters.after_eq (h : SameLetters rest rest') (q : Position) :
    q.after rest = q.after rest' := by
  induction rest generalizing rest' q with
  | nil =>
    obtain rfl : rest' = [] := List.map_eq_nil_iff.1 h.symm
    rfl
  | cons x rest ih =>
    obtain _ | ⟨x', rest'⟩ := rest'
    · cases h
    · obtain ⟨hx, hrest⟩ := sameLetters_cons.1 h
      have hnext : q.next x = q.next x' := by
        simp only [Position.next, hx.eq_iff (y := '\n') (by decide)]
      rw [Position.after_cons, Position.after_cons, hnext, ih hrest]

/-- A run of a class that does not tell the cases apart takes the same letters. -/
theorem Recased.split (h : Recased site rest rest') (hp : CaseBlind p) :
    SameLetters (rest.takeWhile p) (rest'.takeWhile p) ∧
      Recased site (rest.dropWhile p) (rest'.dropWhile p) := by
  induction rest generalizing rest' with
  | nil =>
    cases h
    exact ⟨rfl, .done⟩
  | cons x rest ih =>
    obtain ⟨x', rest', rfl, hsame, hbehind⟩ := h.exists_cons
    by_cases hx : p x
    · have hx' : p x' := hp.eq hsame ▸ hx
      rw [List.takeWhile_cons_of_pos hx, List.takeWhile_cons_of_pos hx',
        List.dropWhile_cons_of_pos hx, List.dropWhile_cons_of_pos hx']
      exact ⟨sameLetters_cons.2 ⟨hsame, (ih hbehind).1⟩, (ih hbehind).2⟩
    · have hx' : ¬ p x' := hp.eq hsame ▸ hx
      rw [List.takeWhile_cons_of_neg hx, List.takeWhile_cons_of_neg hx',
        List.dropWhile_cons_of_neg hx, List.dropWhile_cons_of_neg hx']
      exact ⟨rfl, h⟩

/-! ## Cursors -/

namespace Reading

variable {c c' d : Cursor} {text : String}

/-- Two cursors at the same place, with the same text to come but for the case of letters. -/
structure RecasedAt (site : List Char → Prop) (c c' : Cursor) : Prop where
  rest : Recased site c.rest c'.rest
  place : c.position = c'.position

theorem Abreast.recasedAt (h : Abreast .sharp tail tail' c c') (htail : Recased site tail tail') :
    RecasedAt site c c' := by
  obtain ⟨⟨front, hc, hc'⟩, hplace⟩ := h
  refine ⟨?_, hplace⟩
  rw [hc, hc']
  exact htail.append front

/-- The cursors are abreast up to the first letter that stands in another case, if there is one. -/
theorem RecasedAt.exists_tails (h : RecasedAt site c c') :
    ∃ tail tail', StopAlike tail tail' ∧ Recased site tail tail' ∧ Abreast .sharp tail tail' c c' ∧
      (tail = [] ∨ site tail ∧ tail <:+ c.rest) := by
  rcases h.rest.exists_first with
    hsame | ⟨front, x, x', back, back', hc, hc', hsite, hletter, hne, hback⟩
  · exact ⟨[], [], (LookAlike.refl []).stopAlike, .done, abreast_nil_iff.2 ⟨hsame, h.place⟩, .inl rfl⟩
  · exact ⟨_, _, hletter.stopAlike hne back back', .letter hsite hletter hback,
      ⟨⟨front, hc, hc'⟩, h.place⟩, .inr ⟨hsite, hc ▸ List.suffix_append ..⟩⟩

/-- Both cursors take runs of the same letters, in whatever case. -/
theorem RecasedAt.run (h : RecasedAt site c c') (hp : CaseBlind p)
    (hread : Reading.run p c = .ok text d) :
    ∃ text' d', Reading.run p c' = .ok text' d' ∧ SameLetters text.toList text'.toList ∧
      RecasedAt site d d' := by
  obtain ⟨rfl, rfl⟩ := EStateM.Result.ok.inj hread
  obtain ⟨htaken, hbehind⟩ := h.rest.split hp
  refine ⟨_, _, rfl, ?_, hbehind, ?_⟩
  · rw [String.toList_ofList, String.toList_ofList]
    exact htaken
  · show c.position.after _ = c'.position.after _
    rw [← h.place]
    exact htaken.after_eq c.position

/-- Where a key character is next, the next token is the run of key characters. -/
theorem nextToken_of_isKeyChars (hk : c.peek?.any isKeyChar)
    (hread : Reading.run isKeyChar c = .ok text d) :
    nextToken c = .ok ⟨.key text, c.position⟩ d := by
  obtain ⟨first, hp, hfirst⟩ := (Option.any_eq_true _ _).1 hk
  obtain ⟨others, hc⟩ := List.head?_eq_some_iff.1 hp
  have hstart := keyStart_of_isKeyChar hfirst
  have hgap : gapAt (fun _ => false) c.rest = .upTo [] c.rest := by
    rw [hc]
    exact gapAt_cons rfl hstart.ne_slash _
  have hkey : key (c.past [] c.rest) = .ok text d := by
    rw [← hread]
    show key c = _
    unfold key Reading.run
    rw [hc]
    simp only [List.takeWhile_cons_of_pos hfirst, List.dropWhile_cons_of_pos hfirst]
  exact nextToken_of_comments hgap hp
    (kindFrom_eq_ok.2 (.key ⟨hstart.plain, hstart.noMark⟩ hstart.visible hkey))

end Reading

end Songsheet
