import Songsheet.Note.Reader
import Songsheet.Proofs.Reading.Steady
import Songsheet.Text

/-!
# Tokens in front of other texts

A token is read in the same way in front of any text that begins in the same way. Blanks and the
end of a text are the exception: in front of another text a gap may become longer, and where one
text has ended the other may go on with a gap. Either way the reading stops behind the gap.

* `nextToken_eq_ok` — a token stands behind the comments in front of it.
* `nextToken_replace` — a token that is not a gap, in front of another text.
* `nextToken_replace_gap` — a gap or the end of the text, in front of another text.
-/

namespace Songsheet

/-- A blank or the end of the text. -/
def TokenKind.IsGap (kind : TokenKind) : Prop :=
  kind = .blank ∨ kind = .endOfText

namespace Reading

variable {c c' d : Cursor} {t : Token} {front after after' : List Char}

/-! ## One token -/

/-- A character that is looked up among the marks: no blank, no digit and no quotation mark. -/
def Plain (first : Char) : Prop :=
  Text.isBlank first = false ∧ first.isDigit = false ∧ first ≠ '"'

/-- The ways in which the kind of a token that begins with `first` is read. -/
inductive KindRead (first : Char) (c d : Cursor) : TokenKind → Prop
  | blank (hb : Text.isBlank first) (skips : skipGap c = .ok () d) : KindRead first c d .blank
  | number {text : String} (hb : Text.isBlank first = false) (hdigit : first.isDigit)
      (reads : digits c = .ok text d) : KindRead first c d (.number text)
  | quoted {text : String} (hquote : first = '"') (reads : quotedText c = .ok text d) :
      KindRead first c d (.quoted text)
  | mark {kind : TokenKind} (hmark : TokenKind.ofMark? first = some kind)
      (takes : drop c = .ok () d) : KindRead first c d kind
  | invalid (plain : Plain first ∧ TokenKind.ofMark? first = none)
      (hcontrol : Text.isControl first) (takes : drop c = .ok () d) :
      KindRead first c d (.invalid first)
  | key {text : String} (plain : Plain first ∧ TokenKind.ofMark? first = none)
      (hcontrol : Text.isControl first = false) (reads : key c = .ok text d) :
      KindRead first c d (.key text)

theorem skip_eq_ok {blank : Char → Bool} {u : Unit} :
    skip blank c = .ok u d ↔
      ∃ skipped rest, gapAt blank c.rest = .upTo skipped rest ∧ d = c.past skipped rest := by
  unfold skip
  cases hgap : gapAt blank c.rest with
  | unclosed before comment => simp
  | upTo skipped rest =>
    simp only [EStateM.Result.ok.injEq, true_and, Gap.upTo.injEq]
    constructor
    · rintro rfl
      exact ⟨skipped, rest, ⟨rfl, rfl⟩, rfl⟩
    · intro h
      obtain ⟨_, _, ⟨rfl, rfl⟩, rfl⟩ := h
      rfl

theorem plain_of_ofMark? {first : Char} {kind : TokenKind}
    (h : TokenKind.ofMark? first = some kind) : Plain first := by
  unfold TokenKind.ofMark? at h
  split at h
  all_goals first | exact ⟨by decide, by decide, by decide⟩ | simp at h

theorem kindRead_of_kindFrom {first : Char} {kind : TokenKind} (h : kindFrom first c = .ok kind d) :
    KindRead first c d kind := by
  unfold kindFrom at h
  split at h
  · rename_i hb
    obtain ⟨_, e, he, hpure⟩ := bind_eq_ok.1 h
    obtain ⟨rfl, rfl⟩ := pure_eq_ok.1 hpure
    exact .blank hb he
  rename_i hb
  split at h
  · rename_i hdigit
    obtain ⟨text, e, he, hpure⟩ := bind_eq_ok.1 h
    obtain ⟨rfl, rfl⟩ := pure_eq_ok.1 hpure
    exact .number (by simpa using hb) hdigit he
  rename_i hdigit
  split at h
  · rename_i hquote
    obtain ⟨text, e, he, hpure⟩ := bind_eq_ok.1 h
    obtain ⟨rfl, rfl⟩ := pure_eq_ok.1 hpure
    exact .quoted hquote he
  rename_i hquote
  have hplain : Plain first := ⟨by simpa using hb, by simpa using hdigit, hquote⟩
  cases hmark : TokenKind.ofMark? first with
  | some found =>
    simp only [hmark] at h
    obtain ⟨_, e, he, hpure⟩ := bind_eq_ok.1 h
    obtain ⟨rfl, rfl⟩ := pure_eq_ok.1 hpure
    exact .mark hmark he
  | none =>
    simp only [hmark] at h
    split at h
    · rename_i hcontrol
      obtain ⟨_, e, he, hpure⟩ := bind_eq_ok.1 h
      obtain ⟨rfl, rfl⟩ := pure_eq_ok.1 hpure
      exact .invalid ⟨hplain, hmark⟩ hcontrol he
    · rename_i hcontrol
      obtain ⟨text, e, he, hpure⟩ := bind_eq_ok.1 h
      obtain ⟨rfl, rfl⟩ := pure_eq_ok.1 hpure
      exact .key ⟨hplain, hmark⟩ (by simpa using hcontrol) he

theorem KindRead.kindFrom {first : Char} {kind : TokenKind} (h : KindRead first c d kind) :
    kindFrom first c = .ok kind d := by
  unfold Reading.kindFrom
  cases h with
  | blank hb skips =>
    rw [if_pos hb]
    exact bind_eq_ok.2 ⟨_, d, skips, rfl⟩
  | number hb hdigit reads =>
    rw [if_neg (by simp [hb]), if_pos hdigit]
    exact bind_eq_ok.2 ⟨_, d, reads, rfl⟩
  | quoted hquote reads =>
    subst hquote
    rw [if_neg (by decide), if_neg (by decide), if_pos rfl]
    exact bind_eq_ok.2 ⟨_, d, reads, rfl⟩
  | mark hmark takes =>
    obtain ⟨hb, hdigit, hquote⟩ := plain_of_ofMark? hmark
    rw [if_neg (by simp [hb]), if_neg (by simp [hdigit]), if_neg hquote, hmark]
    exact bind_eq_ok.2 ⟨_, d, takes, rfl⟩
  | invalid plain hcontrol takes =>
    obtain ⟨⟨hb, hdigit, hquote⟩, hmark⟩ := plain
    rw [if_neg (by simp [hb]), if_neg (by simp [hdigit]), if_neg hquote, hmark]
    simp only [if_pos hcontrol]
    exact bind_eq_ok.2 ⟨_, d, takes, rfl⟩
  | key plain hcontrol reads =>
    obtain ⟨⟨hb, hdigit, hquote⟩, hmark⟩ := plain
    rw [if_neg (by simp [hb]), if_neg (by simp [hdigit]), if_neg hquote, hmark]
    simp only [hcontrol]
    exact bind_eq_ok.2 ⟨_, d, reads, rfl⟩

theorem kindFrom_eq_ok {first : Char} {kind : TokenKind} :
    kindFrom first c = .ok kind d ↔ KindRead first c d kind :=
  ⟨kindRead_of_kindFrom, KindRead.kindFrom⟩

theorem kindFrom_eq_blank {first : Char} :
    kindFrom first c = .ok .blank d ↔ Text.isBlank first ∧ skipGap c = .ok () d := by
  rw [kindFrom_eq_ok]
  constructor
  · intro h
    cases h with
    | blank hb skips => exact ⟨hb, skips⟩
    | mark hmark takes =>
      unfold TokenKind.ofMark? at hmark
      split at hmark <;> simp at hmark
  · intro h
    obtain ⟨hb, skips⟩ := h
    exact .blank hb skips

/-- A token stands behind the comments in front of it, and there the next character tells of
which kind it is. -/
theorem nextToken_eq_ok :
    nextToken c = .ok t d ↔
      ∃ comments e, gapAt (fun _ => false) c.rest = .upTo comments e.rest ∧
        e = c.past comments e.rest ∧ t.position = e.position ∧
        (e.rest = [] ∧ t.kind = .endOfText ∧ d = e ∨
          ∃ first, e.peek? = some first ∧ kindFrom first e = .ok t.kind d) := by
  obtain ⟨kind, p⟩ := t
  rw [nextToken_apply, skipComments]
  constructor
  · intro h
    cases hs : skip (fun _ => false) c with
    | error x e => simp [hs] at h
    | ok u e =>
      obtain ⟨comments, rest, hgap, rfl⟩ := skip_eq_ok.1 hs
      refine ⟨comments, c.past comments rest, hgap, rfl, ?_⟩
      simp only [hs] at h
      cases hp : (c.past comments rest).peek? with
      | none =>
        simp only [hp] at h
        obtain ⟨heq, rfl⟩ := EStateM.Result.ok.inj h
        obtain ⟨rfl, rfl⟩ := Token.mk.inj heq
        exact ⟨rfl, .inl ⟨List.head?_eq_none_iff.1 hp, rfl, rfl⟩⟩
      | some first =>
        simp only [hp] at h
        cases hk : kindFrom first (c.past comments rest) with
        | error x e => simp [hk] at h
        | ok kind' e =>
          simp only [hk] at h
          obtain ⟨heq, rfl⟩ := EStateM.Result.ok.inj h
          obtain ⟨rfl, rfl⟩ := Token.mk.inj heq
          exact ⟨rfl, .inr ⟨first, rfl, hk⟩⟩
  · rintro ⟨comments, e, hgap, he, rfl, hend | ⟨first, hp, hk⟩⟩
    · obtain ⟨hrest, rfl, rfl⟩ := hend
      have hs : skip (fun _ => false) c = .ok () d := skip_eq_ok.2 ⟨comments, _, hgap, he⟩
      have hp : d.peek? = none := List.head?_eq_none_iff.2 hrest
      simp [hs, hp]
    · have hs : skip (fun _ => false) c = .ok () e := skip_eq_ok.2 ⟨comments, _, hgap, he⟩
      simp only [hs, hp, hk]

/-- A token stands behind the comments in front of it. -/
theorem position_of_nextToken {comments rest : List Char} (h : nextToken c = .ok t d)
    (hgap : gapAt (fun _ => false) c.rest = .upTo comments rest) :
    t.position = c.position.after comments := by
  obtain ⟨found, e, hfound, he, hposition, -⟩ := nextToken_eq_ok.1 h
  rw [hfound, Gap.upTo.injEq] at hgap
  rw [hposition, he, hgap.1]
  rfl

/-- What a token leaves is a part of the text behind the comments in front of it. -/
theorem nextToken_of_comments {comments rest : List Char} {kind : TokenKind} {first : Char}
    (hgap : gapAt (fun _ => false) c.rest = .upTo comments rest)
    (hfirst : rest.head? = some first)
    (hk : kindFrom first (c.past comments rest) = .ok kind d) :
    nextToken c = .ok ⟨kind, c.position.after comments⟩ d :=
  nextToken_eq_ok.2 ⟨comments, c.past comments rest, hgap, rfl, rfl, .inr ⟨first, hfirst, hk⟩⟩

theorem nextToken_of_end {comments : List Char}
    (hgap : gapAt (fun _ => false) c.rest = .upTo comments []) :
    nextToken c = .ok ⟨.endOfText, c.position.after comments⟩ (c.past comments []) :=
  nextToken_eq_ok.2 ⟨comments, c.past comments [], hgap, rfl, rfl, .inl ⟨rfl, rfl, rfl⟩⟩

theorem rest_of_nextToken_end (h : nextToken c = .ok t d) (ht : t.kind = .endOfText) :
    d.rest = [] ∧ gapAt (fun _ => false) c.rest = .upTo c.rest [] := by
  obtain ⟨comments, e, hgap, -, -, ⟨hnil, -, rfl⟩ | ⟨first, -, hk⟩⟩ := nextToken_eq_ok.1 h
  · rw [hnil] at hgap
    have hrest := append_of_gapAt hgap
    rw [List.append_nil] at hrest
    exact ⟨hnil, hrest ▸ hgap⟩
  · exact absurd ht (kindFrom_ne_endOfText hk)

/-! ## Tokens that cannot be read -/

/-- Only a gap and a quoted text may fail to end. -/
theorem kindFrom_eq_error {first : Char} {x : Diagnostic} :
    kindFrom first c = .error x d ↔
      Text.isBlank first ∧ skipGap c = .error x d ∨ first = '"' ∧ quotedText c = .error x d := by
  unfold kindFrom
  split
  · rename_i hb
    have hquote : first ≠ '"' := by
      rintro rfl
      revert hb
      decide
    rw [bind_pure_eq_error]
    simp [hb, hquote]
  rename_i hb
  split
  · rename_i hdigit
    have hquote : first ≠ '"' := by
      rintro rfl
      revert hdigit
      decide
    rw [bind_pure_eq_error]
    simp [hb, hquote, digits, run]
  split
  · rename_i hquote
    rw [bind_pure_eq_error, or_iff_right fun h => hb h.1]
    simp [hquote]
  rename_i hquote
  have hkey : ∀ y, key c ≠ .error y d := by
    intro y hy
    unfold key at hy
    split at hy <;> cases hy
  refine iff_of_false (fun h => ?_) (by simp [hb, hquote])
  cases hmark : TokenKind.ofMark? first with
  | some kind =>
    simp only [hmark, bind_pure_eq_error] at h
    cases h
  | none =>
    simp only [hmark] at h
    split at h
    · cases bind_pure_eq_error.1 h
    · exact hkey x (bind_pure_eq_error.1 h)

theorem nextToken_eq_error {x : Diagnostic} :
    nextToken c = .error x d ↔
      skipComments c = .error x d ∨
      ∃ e first, skipComments c = .ok () e ∧ e.peek? = some first ∧
        kindFrom first e = .error x d := by
  rw [nextToken_apply]
  cases skipComments c with
  | error y e => simp
  | ok u e =>
    cases hp : e.peek? with
    | none => simp [hp]
    | some first => cases hk : kindFrom first e <;> simp [hp, hk]

/-! ## Tokens that are no gap -/

theorem drop_replace {u : Unit} (h : drop c = .ok u d) (hne : c.rest ≠ [])
    (hc : c.rest = front ++ d.rest) (hc' : c'.rest = front ++ after) :
    ∃ d', drop c' = .ok () d' ∧ d'.rest = after := by
  obtain ⟨-, rfl⟩ := EStateM.Result.ok.inj h
  obtain ⟨x, tail, hrest⟩ := List.exists_cons_of_ne_nil hne
  have hfront : front = [x] := by
    simp only [Cursor.past, hrest, List.drop_one, List.tail_cons] at hc
    rw [← List.singleton_append] at hc
    exact (List.append_cancel_right hc).symm
  refine ⟨c'.past [x] after, ?_, rfl⟩
  simp [drop, hc', hfront]

theorem key_replace {text : String} (h : key c = .ok text d) (hne : c.rest ≠ [])
    (hc : c.rest = front ++ d.rest) (hc' : c'.rest = front ++ after)
    (hs : StopsLike d.rest after) : ∃ d', key c' = .ok text d' ∧ d'.rest = after := by
  obtain ⟨first, tail, hrest⟩ := List.exists_cons_of_ne_nil hne
  simp only [key, hrest] at h
  obtain ⟨rfl, rfl⟩ := EStateM.Result.ok.inj h
  have hfront : front = first :: tail.takeWhile isKeyChar := by
    have hsplit := List.takeWhile_append_dropWhile (p := isKeyChar) (l := tail)
    rw [hrest, ← congrArg (first :: ·) hsplit, ← List.cons_append] at hc
    exact (List.append_cancel_right hc).symm
  have hstop : ∀ x, after.head? = some x → isKeyChar x = false := by
    refine hs isKeyChar (fun _ => isBlank_of_isKeyChar) caseBlind_isKeyChar fun x hx => ?_
    have hhead := List.head?_dropWhile_not isKeyChar tail
    simp only [Cursor.past] at hx
    rw [hx] at hhead
    simpa using hhead
  refine ⟨c'.past (first :: tail.takeWhile isKeyChar) after, ?_, rfl⟩
  rw [key, hc', hfront, List.cons_append]
  simp only [takeWhile_run_append hstop, dropWhile_run_append hstop]

/-- The kind of a token that is no blank is read in the same way in front of any text that begins
in the same way. -/
theorem kindFrom_replace {first : Char} {kind : TokenKind} (h : kindFrom first c = .ok kind d)
    (hk : kind ≠ .blank) (hne : c.rest ≠ []) (hc : c.rest = front ++ d.rest)
    (hc' : c'.rest = front ++ after) (hs : StopsLike d.rest after) :
    ∃ d', kindFrom first c' = .ok kind d' ∧ d'.rest = after := by
  cases kindFrom_eq_ok.1 h with
  | blank => exact absurd rfl hk
  | number hb hdigit htext =>
    have hstop :=
      hs Char.isDigit (fun _ => isBlank_of_isDigit) caseBlind_isDigit (run_stops htext)
    obtain ⟨d', h', hd'⟩ := run_replace htext hc hc' hstop
    exact ⟨d', kindFrom_eq_ok.2 (.number hb hdigit h'), hd'⟩
  | quoted hquote htext =>
    have hstop := hs.ne_quote (quotedText_stops htext)
    obtain ⟨d', h', hd'⟩ := quotedText_replace htext hc hc' hstop
    exact ⟨d', kindFrom_eq_ok.2 (.quoted hquote h'), hd'⟩
  | mark hmark hdrop =>
    obtain ⟨d', h', hd'⟩ := drop_replace hdrop hne hc hc'
    exact ⟨d', kindFrom_eq_ok.2 (.mark hmark h'), hd'⟩
  | invalid hplain hcontrol hdrop =>
    obtain ⟨d', h', hd'⟩ := drop_replace hdrop hne hc hc'
    exact ⟨d', kindFrom_eq_ok.2 (.invalid hplain hcontrol h'), hd'⟩
  | key hplain hcontrol htext =>
    obtain ⟨d', h', hd'⟩ := key_replace htext hne hc hc' hs
    exact ⟨d', kindFrom_eq_ok.2 (.key hplain hcontrol h'), hd'⟩

/-- A token that is no gap is read in the same way, behind the same comments, in front of any text
that stops whatever the first one stops. -/
theorem nextToken_of_stopsLike (h : nextToken c = .ok t d) (ht : ¬ t.kind.IsGap)
    (hc : c.rest = front ++ d.rest) (hc' : c'.rest = front ++ after)
    (hs : StopsLike d.rest after) :
    ∃ comments d', t.position = c.position.after comments ∧
      nextToken c' = .ok ⟨t.kind, c'.position.after comments⟩ d' ∧ d'.rest = after := by
  obtain ⟨comments, e, hgap, he, hplace, ⟨-, hend, -⟩ | ⟨first, hp, hk⟩⟩ := nextToken_eq_ok.1 h
  · exact absurd (.inr hend) ht
  obtain ⟨taken, htaken, -⟩ := (forward_kindFrom first).ok hk
  have hshort := consumes_kindFrom first e d t.kind hp hk
  obtain ⟨taken, rfl⟩ := Cursor.exists_cons_of_peek? hp htaken hshort
  have hfront : front = comments ++ first :: taken := by
    have hwhole := append_of_gapAt hgap
    rw [htaken, ← List.append_assoc, hc] at hwhole
    exact List.append_cancel_right hwhole
  -- the comments in front are the same, and no comment begins behind them
  have hnone : gapAt (fun _ => false) (first :: (taken ++ after)) =
      .upTo [] (first :: (taken ++ after)) := by
    have hrest := gapAt_rest hgap
    rw [htaken] at hrest
    exact (hs.append taken).gapAt_cons rfl hrest
  have hgap' : gapAt (fun _ => false) c'.rest = .upTo comments (first :: (taken ++ after)) := by
    rw [hc', hfront, List.append_assoc, List.cons_append,
      gapAt_append (fun _ h => h) rfl hgap, hnone]
    · simp
    · rw [htaken]
      exact SameStart.lineEnd (.inl rfl)
  have hrest' : (c'.past comments (first :: (taken ++ after))).rest = (first :: taken) ++ after :=
    rfl
  obtain ⟨d', hk', hd'⟩ :=
    kindFrom_replace hk (fun hb => ht (.inl hb)) (by simp [htaken]) htaken hrest' hs
  refine ⟨comments, d', ?_, nextToken_of_comments hgap' rfl hk', hd'⟩
  rw [hplace, he]
  rfl

/-- A token that is no gap is read in the same way in front of any text that begins in the same
way. -/
theorem nextToken_replace (h : nextToken c = .ok t d) (ht : ¬ t.kind.IsGap)
    (hc : c.rest = front ++ d.rest) (hc' : c'.rest = front ++ after)
    (hs : SameStart d.rest after) :
    ∃ t' d', nextToken c' = .ok t' d' ∧ t'.kind = t.kind ∧ d'.rest = after := by
  obtain ⟨comments, d', -, h', hd'⟩ := nextToken_of_stopsLike h ht hc hc' hs.stopsLike
  exact ⟨_, d', h', rfl, hd'⟩

/-! ## Marks -/

theorem ofMark?_injective {x y : Char} {kind : TokenKind}
    (hx : TokenKind.ofMark? x = some kind) (hy : TokenKind.ofMark? y = some kind) : x = y := by
  unfold TokenKind.ofMark? at hx hy
  split at hx <;> cases hx <;> split at hy <;> first | rfl | cases hy

theorem drop_eq_ok {u : Unit} {x : Char} {tail : List Char} (hc : c.rest = x :: tail) :
    drop c = .ok u d ↔ d = c.past [x] tail := by
  simp [drop, hc, eq_comm]

/-- Behind the comments in front of a mark there is the character of the mark, at its place. -/
theorem exists_mark {x : Char} (hx : TokenKind.ofMark? x = some t.kind)
    (h : nextToken c = .ok t d) :
    ∃ comments e, gapAt (fun _ => false) c.rest = .upTo comments e.rest ∧ c.Reaches e ∧
      e.position = t.position ∧ e.rest = x :: d.rest := by
  obtain ⟨comments, e, hgap, he, hplace, ⟨-, hend, -⟩ | ⟨first, hp, hk⟩⟩ := nextToken_eq_ok.1 h
  · simp [hend, TokenKind.ofMark?] at hx
    split at hx <;> simp at hx
  · have hk := kindFrom_eq_ok.1 hk
    have hreaches : c.Reaches e := by
      rw [he]
      exact Cursor.reaches_past (append_of_gapAt hgap)
    obtain ⟨kind, p⟩ := t
    obtain ⟨tail, hrest⟩ := List.head?_eq_some_iff.1 hp
    cases hk with
    | mark hmark takes =>
      obtain rfl := ofMark?_injective hmark hx
      obtain rfl := (drop_eq_ok hrest).1 takes
      exact ⟨comments, e, hgap, hreaches, hplace.symm, hrest⟩
    | _ =>
      unfold TokenKind.ofMark? at hx
      split at hx <;> simp at hx

theorem comments_of_mark {x : Char} (hx : TokenKind.ofMark? x = some t.kind)
    (h : nextToken c = .ok t d) :
    ∃ comments, gapAt (fun _ => false) c.rest = .upTo comments (x :: d.rest) := by
  obtain ⟨comments, e, hgap, -, -, hrest⟩ := exists_mark hx h
  exact ⟨comments, hrest ▸ hgap⟩

theorem nextToken_of_mark {x : Char} {kind : TokenKind} {tail : List Char}
    (hx : TokenKind.ofMark? x = some kind) {comments : List Char}
    (hgap : gapAt (fun _ => false) c.rest = .upTo comments (x :: tail)) :
    ∃ p d, nextToken c = .ok ⟨kind, p⟩ d ∧ d.rest = tail :=
  ⟨_, _, nextToken_of_comments hgap rfl
    (kindFrom_eq_ok.2 (.mark hx ((drop_eq_ok rfl).2 rfl))), rfl⟩

/-! ## Gaps and the end of the text -/

/-- A blank token is comments, and then a gap that begins with a blank. -/
theorem nextToken_eq_blank (h : nextToken c = .ok t d) (ht : t.kind = .blank) :
    ∃ comments first blanks, Text.isBlank first ∧
      gapAt (fun _ => false) c.rest = .upTo comments (first :: blanks ++ d.rest) ∧
      gapAt Text.isBlank (first :: blanks ++ d.rest) = .upTo (first :: blanks) d.rest := by
  obtain ⟨comments, e, hgap, -, -, ⟨-, hend, -⟩ | ⟨first, hp, hk⟩⟩ := nextToken_eq_ok.1 h
  · simp [ht] at hend
  rw [ht, kindFrom_eq_blank] at hk
  obtain ⟨hb, hskip⟩ := hk
  obtain ⟨skipped, rest, hskipped, rfl⟩ := skip_eq_ok.1 hskip
  have hsplit := append_of_gapAt hskipped
  have hs := Text.ne_slash_of_isBlank hb
  cases hrest : e.rest with
  | nil => simp [Cursor.peek?, hrest] at hp
  | cons x tail =>
    obtain rfl : x = first := by simpa [Cursor.peek?, hrest] using hp
    rw [hrest, gapAt_cons_of_blank hb hs, Gap.behind_eq_upTo] at hskipped
    obtain ⟨blanks, hblanks, rfl⟩ := hskipped
    rw [hsplit] at hgap
    refine ⟨comments, x, blanks, hb, hgap, ?_⟩
    have htail := append_of_gapAt hblanks
    show gapAt Text.isBlank (x :: (blanks ++ rest)) = .upTo (x :: blanks) rest
    rw [gapAt_cons_of_blank hb hs, ← htail, hblanks]
    rfl

/-- A gap or the end of the text leaves no gap behind it. -/
theorem gapAt_of_nextToken (h : nextToken c = .ok t d) (ht : t.kind.IsGap) :
    gapAt Text.isBlank d.rest = .upTo [] d.rest := by
  rcases ht with hblank | hend
  · obtain ⟨comments, first, blanks, -, -, hgap⟩ := nextToken_eq_blank h hblank
    exact gapAt_rest hgap
  · rw [(rest_of_nextToken_end h hend).1, gapAt]

/-- A gap that begins with a blank is read as one blank token. -/
theorem nextToken_of_blank {comments blanks : List Char} {first : Char}
    (hfirst : Text.isBlank first)
    (hgap : gapAt (fun _ => false) c.rest = .upTo comments (first :: blanks))
    (hblanks : BehindGap (first :: blanks) after') :
    ∃ p d, nextToken c = .ok ⟨.blank, p⟩ d ∧ d.rest = after' := by
  obtain ⟨skipped, hskipped⟩ := hblanks
  have hskip : skipGap (c.past comments (first :: blanks)) =
      .ok () ((c.past comments (first :: blanks)).past skipped after') :=
    skip_eq_ok.2 ⟨skipped, after', hskipped, rfl⟩
  exact ⟨_, _, nextToken_of_comments hgap rfl (kindFrom_eq_blank.2 ⟨hfirst, hskip⟩), rfl⟩

/-- A blank in front of another text: the gap at the start of the new text is taken with it. -/
theorem nextToken_replace_blank (h : nextToken c = .ok t d) (ht : t.kind = .blank)
    (hc : c.rest = front ++ d.rest) (hc' : c'.rest = front ++ after)
    (hline : LineEnd d.rest → LineEnd after) (hafter : BehindGap after after') :
    ∃ t' d', nextToken c' = .ok t' d' ∧ t'.kind = .blank ∧ d'.rest = after' := by
  obtain ⟨comments, first, blanks, hfirst, hgap, hblanks⟩ := nextToken_eq_blank h ht
  have hfront : front = comments ++ (first :: blanks) := by
    have hwhole := append_of_gapAt hgap
    rw [hc, ← List.append_assoc] at hwhole
    exact List.append_cancel_right hwhole
  have hgap' : gapAt (fun _ => false) c'.rest = .upTo comments (first :: (blanks ++ after)) := by
    rw [hc', hfront, List.append_assoc, gapAt_append (fun _ h => h) rfl hgap]
    · rw [List.cons_append, gapAt_cons rfl (Text.ne_slash_of_isBlank hfirst)]
      simp
    · exact SameStart.lineEnd (.inl rfl)
  obtain ⟨p, d', h', hd'⟩ := nextToken_of_blank hfirst hgap'
    (BehindGap.append (fun _ h => h) hblanks hline hafter)
  exact ⟨_, d', h', rfl, hd'⟩

/-- A gap or the end of the text, in front of another text: the token is again one of these, and
the gap at the start of the new text is taken with it. -/
theorem nextToken_replace_gap (h : nextToken c = .ok t d) (ht : t.kind.IsGap)
    (hc : c.rest = front ++ d.rest) (hc' : c'.rest = front ++ after)
    (hend : d.rest = [] → LineEnd after) (hafter : BehindGap after after') :
    ∃ t' d', nextToken c' = .ok t' d' ∧ t'.kind.IsGap ∧ d'.rest = after' := by
  have hline : LineEnd d.rest → LineEnd after := fun hd =>
    hend (eq_nil_of_lineEnd (gapAt_of_nextToken h ht) hd)
  rcases ht with hblank | hstop
  · obtain ⟨t', d', h', ht', hd'⟩ := nextToken_replace_blank h hblank hc hc' hline hafter
    exact ⟨t', d', h', .inl ht', hd'⟩
  · obtain ⟨hd, hgap⟩ := rest_of_nextToken_end h hstop
    obtain rfl : c.rest = front := by rw [hc, hd, List.append_nil]
    have hgap' : gapAt (fun _ => false) c'.rest =
        (gapAt (fun _ => false) after).behind c.rest := by
      rw [hc', gapAt_append (fun _ h => h) rfl hgap fun _ => hend hd]
    rcases hend hd with rfl | hhead
    · obtain rfl : [] = after' := BehindGap.unique ⟨[], by rw [gapAt]⟩ hafter
      rw [gapAt, Gap.behind_upTo] at hgap'
      exact ⟨_, _, nextToken_of_end hgap', .inr rfl, rfl⟩
    · obtain ⟨blanks, rfl⟩ := List.head?_eq_some_iff.1 hhead
      rw [gapAt_cons rfl (by decide), Gap.behind_upTo, List.append_nil] at hgap'
      obtain ⟨p, d', h', hd'⟩ := nextToken_of_blank (by decide) hgap' hafter
      exact ⟨_, d', h', .inl rfl, hd'⟩

end Reading

end Songsheet
