import Songsheet.Note.Reader
import Songsheet.Proofs.Token

/-!
# Notes in front of other texts

A note is read one token ahead: it ends with a blank or with the end of the text. So what follows
a note can be replaced by any text that, where the note was the last thing, goes on in a new line;
the gap at the start of the new text is then taken with the end of the note.

* `Ahead` — the token that has been read last, in front of one text and in front of another.
* `noteTail_replace`, `writtenNote_replace` — a note in front of another text.
-/

namespace Songsheet.Reading

variable {c c' d d' : Cursor} {t t' s : Token} {front rest after after' : List Char}

/-! ## Duration clauses -/

theorem lengthPart_eq_ok {part : LengthPart} {n : Nat} :
    lengthPart part c = .ok n d ↔
      ∃ t digits, nextToken c = .ok t d ∧ t.kind = .number digits ∧
        Text.decimalBelow? UInt32.size digits = some n := by
  simp only [lengthPart, bind_eq_ok]
  constructor
  · intro h
    obtain ⟨t, e, ht, hn⟩ := h
    cases hk : t.kind with
    | number digits =>
      simp only [hk] at hn
      cases hm : Text.decimalBelow? UInt32.size digits with
      | some m =>
        simp only [hm] at hn
        obtain ⟨rfl, rfl⟩ := pure_eq_ok.1 hn
        exact ⟨t, digits, ht, hk, hm⟩
      | none =>
        simp only [hm] at hn
        exact absurd hn fail_ne_ok
    | _ =>
      simp only [hk] at hn
      exact absurd hn fail_ne_ok
  · intro h
    obtain ⟨t, digits, ht, hk, hn⟩ := h
    refine ⟨t, d, ht, ?_⟩
    simp only [hk, hn]
    rfl

theorem mark_eq_ok {expected : TokenKind} {u : Unit} :
    mark expected c = .ok u d ↔ ∃ t, nextToken c = .ok t d ∧ t.kind = expected := by
  simp only [mark, bind_eq_ok]
  constructor
  · intro h
    obtain ⟨t, e, ht, hu⟩ := h
    split at hu
    · rename_i hk
      obtain ⟨-, rfl⟩ := pure_eq_ok.1 hu
      exact ⟨t, ht, hk⟩
    · exact absurd hu fail_ne_ok
  · intro h
    obtain ⟨t, ht, hk⟩ := h
    refine ⟨t, d, ht, ?_⟩
    rw [if_pos hk]
    rfl

theorem steady_lengthPart (part : LengthPart) :
    Steady Eq (lengthPart part) (lengthPart part) := by
  intro c d c' n front after h hc hc' hs
  obtain ⟨t, digits, ht, hk, hn⟩ := lengthPart_eq_ok.1 h
  have hgap : ¬ t.kind.IsGap := by simp [TokenKind.IsGap, hk]
  obtain ⟨t', d', ht', hk', hd'⟩ := nextToken_replace ht hgap hc hc' hs
  exact ⟨n, d', lengthPart_eq_ok.2 ⟨t', digits, ht', hk'.trans hk, hn⟩, rfl, hd'⟩

theorem steady_mark {expected : TokenKind} (he : ¬ expected.IsGap) :
    Steady Eq (mark expected) (mark expected) := by
  intro c d c' u front after h hc hc' hs
  obtain ⟨t, ht, rfl⟩ := mark_eq_ok.1 h
  obtain ⟨t', d', ht', hk', hd'⟩ := nextToken_replace ht he hc hc' hs
  exact ⟨(), d', mark_eq_ok.2 ⟨t', ht', hk'⟩, rfl, hd'⟩

theorem forward_ratio (num den : Nat) (start : Position) :
    (match Duration.ofRatio num den with
      | .ok duration => return duration
      | .error fault => fail (.invalidDuration num den fault) start :
        Reading Duration).Forward := by
  split
  · exact forward_pure _
  · exact forward_fail _ _

/-- A duration clause is read in the same way wherever it stands. -/
theorem steady_durationClause (start start' : Position) :
    Steady Eq (durationClause start) (durationClause start') := by
  refine steady_bind (steady_lengthPart _) (forward_lengthPart _) ?_ fun num =>
    forward_bind (forward_mark _) fun _ => forward_bind (forward_lengthPart _) fun den =>
      forward_bind (forward_mark _) fun _ => forward_ratio num den start
  rintro num _ rfl
  refine steady_bind (steady_mark (by simp [TokenKind.IsGap])) (forward_mark _) ?_ fun _ =>
    forward_bind (forward_lengthPart _) fun den =>
      forward_bind (forward_mark _) fun _ => forward_ratio num den start
  rintro - - -
  refine steady_bind (steady_lengthPart _) (forward_lengthPart _) ?_ fun den =>
    forward_bind (forward_mark _) fun _ => forward_ratio num den start
  rintro den _ rfl
  refine steady_bind (steady_mark (by simp [TokenKind.IsGap])) (forward_mark _) ?_ fun _ =>
    forward_ratio num den start
  rintro - - -
  split
  · exact steady_pure rfl
  · exact steady_fail

/-! ## One token ahead -/

/-- Some token can be read next, after which `rest` is still to come. -/
def GoesOn (rest : List Char) (c : Cursor) : Prop :=
  ∃ t d, nextToken c = .ok t d ∧ rest <:+ d.rest

/-- The token `t`, which has been read up to `c`, is the end of a note in front of `rest`, or is
followed by one more token. -/
def LeadsTo (rest : List Char) (t : Token) (c : Cursor) : Prop :=
  t.kind.IsGap ∧ c.rest = rest ∨ ¬ t.kind.IsGap ∧ GoesOn rest c

/-- The tokens `t` and `t'` read up to `c` and `c'` are the same token, with `rest` to come in the
one case and `after` in the other, or both are the end of a note, and `after'` is to come where
`rest` was. -/
inductive Ahead (rest after after' : List Char) (t t' : Token) (c c' : Cursor) : Prop
  | inside {front : List Char} (hk : t'.kind = t.kind) (hgap : ¬ t.kind.IsGap)
      (hc : c.rest = front ++ rest) (hc' : c'.rest = front ++ after)
  | past (hgap : t.kind.IsGap) (hgap' : t'.kind.IsGap) (hc : c.rest = rest)
      (hc' : c'.rest = after')

theorem GoesOn.sameStart (h : GoesOn rest c) (hend : rest = [] → LineEnd after)
    (hc : c.rest = front ++ rest) : SameStart (front ++ rest) (front ++ after) := by
  cases front with
  | cons x front => exact .inl rfl
  | nil =>
    obtain ⟨t, d, ht, hrest⟩ := h
    have hlen := hrest.length_le
    rw [List.nil_append] at hc
    by_cases hk : t.kind = .endOfText
    · obtain ⟨hd, -⟩ := rest_of_nextToken_end ht hk
      rw [hd, List.suffix_nil] at hrest
      subst hrest
      exact (hend rfl).sameStart
    · -- a token before the end would have taken a part of the rest
      have := length_of_nextToken ht hk
      rw [hc] at this
      omega

theorem nextToken_ahead (h : nextToken c = .ok t d) (hs : LeadsTo rest t d)
    (hend : rest = [] → LineEnd after) (hafter : BehindGap after after')
    (hc : c.rest = front ++ rest) (hc' : c'.rest = front ++ after) :
    ∃ t' d', nextToken c' = .ok t' d' ∧ Ahead rest after after' t t' d d' := by
  rcases hs with ⟨hgap, rfl⟩ | ⟨hgap, hon⟩
  · obtain ⟨t', d', ht', hgap', hd'⟩ := nextToken_replace_gap h hgap hc hc' hend hafter
    exact ⟨t', d', ht', .past hgap hgap' rfl hd'⟩
  · obtain ⟨taken, htaken, -⟩ := forward_nextToken.ok h
    obtain ⟨front', hd⟩ : ∃ front', d.rest = front' ++ rest := by
      obtain ⟨_, e, he, front', hrest⟩ := hon
      obtain ⟨taken', htaken', -⟩ := forward_nextToken.ok he
      exact ⟨taken' ++ front', by rw [htaken', ← hrest, List.append_assoc]⟩
    have hfront : front = taken ++ front' := by
      rw [htaken, hd, ← List.append_assoc] at hc
      exact (List.append_cancel_right hc).symm
    have hstart : SameStart d.rest (front' ++ after) := by
      rw [hd]
      exact hon.sameStart hend hd
    rw [hfront, List.append_assoc] at hc'
    obtain ⟨t', d', ht', hk, hd'⟩ := nextToken_replace h hgap htaken hc' hstart
    exact ⟨t', d', ht', .inside hk hgap hd hd'⟩

/-! ## Octaves and durations -/

theorem octaveAt_eq_ok {octave : Option UInt8} :
    octaveAt t c = .ok (octave, s) d ↔
      (∃ digits n, t.kind = .number digits ∧ Text.decimalBelow? UInt8.size digits = some n ∧
        octave = some (UInt8.ofNat n) ∧ nextToken c = .ok s d) ∨
      (∀ digits, t.kind ≠ .number digits) ∧ octave = none ∧ s = t ∧ d = c := by
  unfold octaveAt
  cases hk : t.kind with
  | number digits =>
    cases hn : Text.decimalBelow? UInt8.size digits with
    | none =>
      simp only [hn]
      refine iff_of_false fail_ne_ok ?_
      rintro (⟨digits', n, hd, hn', -⟩ | ⟨hd, -⟩)
      · obtain rfl : digits = digits' := TokenKind.number.inj hd
        exact absurd (hn.symm.trans hn') (by simp)
      · exact hd digits rfl
    | some n =>
      simp only [hn, bind_eq_ok, pure_eq_ok, Prod.mk.injEq]
      constructor
      · intro h
        obtain ⟨_, _, hs, ⟨rfl, rfl⟩, rfl⟩ := h
        exact .inl ⟨digits, n, rfl, hn, rfl, hs⟩
      · rintro (⟨digits', n', hd, hn', rfl, hs⟩ | ⟨hd, -⟩)
        · obtain rfl : digits = digits' := TokenKind.number.inj hd
          obtain rfl : n = n' := Option.some.inj (hn.symm.trans hn')
          exact ⟨s, d, hs, ⟨rfl, rfl⟩, rfl⟩
        · exact absurd rfl (hd digits)
  | _ => simp [pure_eq_ok, eq_comm, and_assoc]

theorem durationAt_eq_ok {duration : Option Duration} :
    durationAt t c = .ok (duration, s) d ↔
      (∃ found e, t.kind = .openBracket ∧ durationClause t.position c = .ok found e ∧
        duration = some found ∧ nextToken e = .ok s d) ∨
      t.kind ≠ .openBracket ∧ duration = none ∧ s = t ∧ d = c := by
  unfold durationAt
  cases hk : t.kind with
  | openBracket =>
    simp only [bind_eq_ok, pure_eq_ok, Prod.mk.injEq]
    constructor
    · intro h
      obtain ⟨found, e, hfound, _, _, hs, ⟨rfl, rfl⟩, rfl⟩ := h
      exact .inl ⟨found, e, trivial, hfound, rfl, hs⟩
    · rintro (⟨found, e, -, hfound, rfl, hs⟩ | ⟨hne, -⟩)
      · exact ⟨found, e, hfound, s, d, hs, ⟨rfl, rfl⟩, rfl⟩
      · exact absurd rfl hne
  | _ => simp [pure_eq_ok, eq_comm, and_assoc]

theorem noteEnd_eq_ok {u : Unit} : noteEnd t c = .ok u d ↔ t.kind.IsGap ∧ d = c := by
  unfold noteEnd
  cases hk : t.kind <;> simp [TokenKind.IsGap, pure_eq_ok, fail, eq_comm]

theorem noteTail_eq_ok {pitch : Pitch} {w : WrittenNote} :
    noteTail pitch c = .ok w d ↔
      ∃ first c₁ octave second c₂ duration last, nextToken c = .ok first c₁ ∧
        octaveAt first c₁ = .ok (octave, second) c₂ ∧
        durationAt second c₂ = .ok (duration, last) d ∧ last.kind.IsGap ∧
        w = ⟨pitch, octave, duration⟩ := by
  simp only [noteTail, bind_eq_ok, pure_eq_ok, noteEnd_eq_ok, Prod.exists]
  constructor
  · intro h
    obtain ⟨first, c₁, hfirst, octave, second, c₂, hoctave, duration, last, c₃, hduration, _, _,
      ⟨hlast, rfl⟩, rfl, rfl⟩ := h
    exact ⟨first, c₁, octave, second, c₂, duration, last, hfirst, hoctave, hduration, hlast, rfl⟩
  · intro h
    obtain ⟨first, c₁, octave, second, c₂, duration, last, hfirst, hoctave, hduration, hlast,
      rfl⟩ := h
    exact ⟨first, c₁, hfirst, octave, second, c₂, hoctave, duration, last, d, hduration, (), d,
      ⟨hlast, rfl⟩, rfl, rfl⟩

theorem leadsTo_of_octaveAt {octave : Option UInt8} (h : octaveAt t c = .ok (octave, s) d)
    (hs : LeadsTo rest s d) : LeadsTo rest t c := by
  rcases octaveAt_eq_ok.1 h with ⟨digits, n, hk, -, -, hnext⟩ | ⟨-, -, rfl, rfl⟩
  · have hrest : rest <:+ d.rest := by
      rcases hs with ⟨-, rfl⟩ | ⟨-, u, e, he, hrest⟩
      · exact List.suffix_refl _
      · obtain ⟨taken, htaken, -⟩ := forward_nextToken.ok he
        exact hrest.trans ⟨taken, htaken.symm⟩
    exact .inr ⟨by simp [TokenKind.IsGap, hk], s, d, hnext, hrest⟩
  · exact hs

theorem goesOn_of_durationClause {start : Position} {duration : Duration}
    (h : durationClause start c = .ok duration d) (hrest : rest <:+ d.rest) : GoesOn rest c := by
  obtain ⟨num, e, hnum, hbehind⟩ := bind_eq_ok.1 h
  obtain ⟨t, digits, ht, -⟩ := lengthPart_eq_ok.1 hnum
  have hforward : e.Reaches d :=
    (forward_bind (forward_mark _) fun _ => forward_bind (forward_lengthPart _) fun den =>
      forward_bind (forward_mark _) fun _ => forward_ratio num den start).ok hbehind
  obtain ⟨taken, htaken, -⟩ := hforward
  exact ⟨t, e, ht, hrest.trans ⟨taken, htaken.symm⟩⟩

theorem leadsTo_of_durationAt {duration : Option Duration}
    (h : durationAt t c = .ok (duration, s) d) (hs : s.kind.IsGap) :
    LeadsTo d.rest t c := by
  rcases durationAt_eq_ok.1 h with ⟨found, e, hk, hfound, -, hnext⟩ | ⟨-, -, rfl, rfl⟩
  · obtain ⟨taken, htaken, -⟩ := forward_nextToken.ok hnext
    exact .inr ⟨by simp [TokenKind.IsGap, hk],
      goesOn_of_durationClause hfound ⟨taken, htaken.symm⟩⟩
  · exact .inl ⟨hs, rfl⟩

theorem octaveAt_ahead {octave : Option UInt8} (h : octaveAt t c = .ok (octave, s) d)
    (hs : LeadsTo rest s d) (hend : rest = [] → LineEnd after) (hafter : BehindGap after after')
    (ha : Ahead rest after after' t t' c c') :
    ∃ s' d', octaveAt t' c' = .ok (octave, s') d' ∧ Ahead rest after after' s s' d d' := by
  rcases octaveAt_eq_ok.1 h with ⟨digits, n, hk, hn, rfl, hnext⟩ | ⟨hk, rfl, rfl, rfl⟩
  · cases ha with
    | past hgap => simp [TokenKind.IsGap, hk] at hgap
    | inside hk' hgap hc hc' =>
      obtain ⟨s', d', hs', ha'⟩ := nextToken_ahead hnext hs hend hafter hc hc'
      exact ⟨s', d', octaveAt_eq_ok.2 (.inl ⟨digits, n, hk'.trans hk, hn, rfl, hs'⟩), ha'⟩
  · refine ⟨t', c', octaveAt_eq_ok.2 (.inr ⟨fun digits hd => ?_, rfl, rfl, rfl⟩), ha⟩
    cases ha with
    | past hgap hgap' => simp [TokenKind.IsGap, hd] at hgap'
    | inside hk' => exact hk digits (hk'.symm.trans hd)

theorem durationAt_ahead {duration : Option Duration}
    (h : durationAt t c = .ok (duration, s) d) (hs : s.kind.IsGap)
    (hend : d.rest = [] → LineEnd after) (hafter : BehindGap after after')
    (ha : Ahead d.rest after after' t t' c c') :
    ∃ s' d', durationAt t' c' = .ok (duration, s') d' ∧ s'.kind.IsGap ∧ d'.rest = after' := by
  rcases durationAt_eq_ok.1 h with ⟨found, e, hk, hfound, rfl, hnext⟩ | ⟨hk, rfl, rfl, rfl⟩
  · cases ha with
    | past hgap => simp [TokenKind.IsGap, hk] at hgap
    | @inside front hk' hgap hc hc' =>
      obtain ⟨taken, back, rfl, htaken, hback⟩ :=
        ((forward_durationClause t.position).ok hfound).split (forward_nextToken.ok hnext) hc
      have hstart : SameStart e.rest (back ++ after) := by
        rw [hback]
        exact GoesOn.sameStart ⟨s, d, hnext, List.suffix_refl _⟩ hend hback
      rw [List.append_assoc] at hc'
      obtain ⟨_, e', hfound', rfl, he'⟩ :=
        steady_durationClause t.position t'.position c e c' found taken (back ++ after) hfound
          htaken hc' hstart
      obtain ⟨s', d', hs', hgap', hd'⟩ := nextToken_replace_gap hnext hs hback he' hend hafter
      exact ⟨s', d', durationAt_eq_ok.2 (.inl ⟨found, e', hk'.trans hk, hfound', rfl, hs'⟩),
        hgap', hd'⟩
  · cases ha with
    | inside hk' hgap => exact absurd hs hgap
    | past hgap hgap' hc hc' =>
      refine ⟨t', c', durationAt_eq_ok.2 (.inr ⟨fun hbracket => ?_, rfl, rfl, rfl⟩), hgap', hc'⟩
      simp [TokenKind.IsGap, hbracket] at hgap'

/-! ## Notes -/

/-- What follows a key is read in the same way in front of another text, with the gap at the start
of that text. -/
theorem noteTail_replace {pitch : Pitch} {w : WrittenNote} (h : noteTail pitch c = .ok w d)
    (hend : d.rest = [] → LineEnd after) (hafter : BehindGap after after')
    (hc : c.rest = front ++ d.rest) (hc' : c'.rest = front ++ after) :
    ∃ d', noteTail pitch c' = .ok w d' ∧ d'.rest = after' := by
  obtain ⟨first, c₁, octave, second, c₂, duration, last, hfirst, hoctave, hduration, hlast, rfl⟩ :=
    noteTail_eq_ok.1 h
  have hsecond : LeadsTo d.rest second c₂ := leadsTo_of_durationAt hduration hlast
  have hleads : LeadsTo d.rest first c₁ := leadsTo_of_octaveAt hoctave hsecond
  obtain ⟨first', c₁', hfirst', ha⟩ := nextToken_ahead hfirst hleads hend hafter hc hc'
  obtain ⟨second', c₂', hoctave', ha⟩ := octaveAt_ahead hoctave hsecond hend hafter ha
  obtain ⟨last', d', hduration', hlast', hd'⟩ := durationAt_ahead hduration hlast hend hafter ha
  exact ⟨d', noteTail_eq_ok.2 ⟨first', c₁', octave, second', c₂', duration, last', hfirst',
    hoctave', hduration', hlast', rfl⟩, hd'⟩

theorem goesOn_of_noteTail {pitch : Pitch} {w : WrittenNote} (h : noteTail pitch c = .ok w d) :
    GoesOn d.rest c := by
  obtain ⟨first, c₁, octave, second, c₂, duration, last, hfirst, hoctave, hduration, -, -⟩ :=
    noteTail_eq_ok.1 h
  obtain ⟨taken, htaken, -⟩ := ((forward_octaveAt first).ok hoctave).trans
    ((forward_durationAt second).ok hduration)
  exact ⟨first, c₁, hfirst, taken, htaken.symm⟩

theorem writtenNote_eq_some {w : WrittenNote} :
    writtenNote c = .ok (some w) d ↔
      ∃ e t c₁ spelling, skipGap c = .ok () e ∧ nextToken e = .ok t c₁ ∧
        t.kind = .key spelling ∧
        noteTail ((Pitch.ofSpelling? spelling).getD .rest) c₁ = .ok w d := by
  simp only [writtenNote, bind_eq_ok]
  constructor
  · intro h
    obtain ⟨_, e, he, t, c₁, ht, hw⟩ := h
    cases hk : t.kind with
    | key spelling =>
      simp only [noteFrom, hk, bind_eq_ok, pure_eq_ok, Option.some.injEq] at hw
      obtain ⟨_, _, hw, rfl, rfl⟩ := hw
      exact ⟨e, t, c₁, spelling, he, ht, hk, hw⟩
    | endOfText => simp [noteFrom, hk, pure_eq_ok] at hw
    | _ => simp [noteFrom, hk, fail] at hw
  · intro h
    obtain ⟨e, t, c₁, spelling, he, ht, hk, hw⟩ := h
    refine ⟨(), e, he, t, c₁, ht, ?_⟩
    simp only [noteFrom, hk, bind_eq_ok, pure_eq_ok]
    exact ⟨w, d, hw, rfl, rfl⟩

/-- Behind a note there is no gap. -/
theorem gapAt_of_writtenNote {w : WrittenNote} (h : writtenNote c = .ok (some w) d) :
    gapAt Text.isBlank d.rest = .upTo [] d.rest := by
  obtain ⟨_, _, c₁, _, -, -, -, htail⟩ := writtenNote_eq_some.1 h
  obtain ⟨first, c₁, octave, second, c₂, duration, last, hfirst, hoctave, hduration, hlast, -⟩ :=
    noteTail_eq_ok.1 htail
  rcases durationAt_eq_ok.1 hduration with ⟨_, e, -, -, -, hnext⟩ | ⟨-, -, rfl, rfl⟩
  · exact gapAt_of_nextToken hnext hlast
  · rcases octaveAt_eq_ok.1 hoctave with ⟨_, _, -, -, -, hnext⟩ | ⟨-, -, rfl, rfl⟩
    · exact gapAt_of_nextToken hnext hlast
    · exact gapAt_of_nextToken hfirst hlast

/-- Where a key character is next, a note is read, and in the same way in front of another text,
with the gap at the start of that text. -/
theorem writtenNote_replace {w : WrittenNote} {first : Char} (h : writtenNote c = .ok (some w) d)
    (hp : c.peek? = some first) (hk : isKeyChar first) (hp' : c'.peek? = some first)
    (hend : d.rest = [] → LineEnd after) (hafter : BehindGap after after')
    (hc : c.rest = front ++ d.rest) (hc' : c'.rest = front ++ after) :
    ∃ d', writtenNote c' = .ok (some w) d' ∧ d'.rest = after' := by
  obtain ⟨e, t, c₁, spelling, he, ht, hkey, htail⟩ := writtenNote_eq_some.1 h
  obtain rfl : c = e := (EStateM.Result.ok.inj ((skipGap_of_isKeyChar hp hk).symm.trans he)).2
  obtain ⟨taken, back, rfl, htaken, hback⟩ :=
    (forward_nextToken.ok ht).split ((forward_noteTail _).ok htail) hc
  rw [List.append_assoc] at hc'
  have hstart : SameStart c₁.rest (back ++ after) := by
    rw [hback]
    exact (goesOn_of_noteTail htail).sameStart hend hback
  have hgap : ¬ t.kind.IsGap := by simp [TokenKind.IsGap, hkey]
  obtain ⟨t', c₁', ht', hkey', hc₁'⟩ := nextToken_replace ht hgap htaken hc' hstart
  obtain ⟨d', htail', hd'⟩ := noteTail_replace htail hend hafter hback hc₁'
  exact ⟨d', writtenNote_eq_some.2
    ⟨c', t', c₁', spelling, skipGap_of_isKeyChar hp' hk, ht', hkey'.trans hkey, htail'⟩, hd'⟩

end Songsheet.Reading
