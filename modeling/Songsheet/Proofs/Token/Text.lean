import Songsheet.Note.Reader
import Songsheet.Proofs.Gap.Text
import Songsheet.Proofs.Token
import Songsheet.Text

/-!
# The text of tokens

Which token comes next is told from the text alone: comments may stand in front, and a run of digits
or of key characters goes on as far as it can. For each kind of token there is a lemma that finds
its text, named for the text, and one that reads it, named for the reader.

* `WordEnd` — no text, or one that begins with a blank.
* `commentsText_of_number`, `nextToken_of_number` — numerals; likewise for keys and for marks.
* `commentsText_of_gap`, `nextToken_of_wordEnd` — the end of a word and the gap behind it.
-/

namespace Songsheet

variable {text rest after : List Char}

/-- No text, or one that begins with a blank: here a word ends. -/
def WordEnd (text : List Char) : Prop :=
  ∀ c, text.head? = some c → Text.isBlank c

theorem WordEnd.nil : WordEnd [] := by
  intro c hc
  simp at hc

theorem WordEnd.of_head {c : Char} (hhead : text.head? = some c) (hc : Text.isBlank c) :
    WordEnd text := by
  intro x hx
  obtain rfl : c = x := Option.some.inj (hhead.symm.trans hx)
  exact hc

theorem WordEnd.stops {p : Char → Bool} (h : WordEnd rest)
    (hp : ∀ c, p c → Text.isBlank c = false) : ∀ c, rest.head? = some c → p c = false := by
  intro c hc
  rw [Bool.eq_false_iff]
  intro hpc
  have hblank := hp c hpc
  rw [h c hc] at hblank
  cases hblank

/-- Behind a slash that begins no comment there is neither a slash nor a star. -/
theorem gapAt_slash {blank : Char → Bool} (hslash : blank '/' = false) :
    gapAt blank ('/' :: text) = .upTo [] ('/' :: text) ↔
      ∀ c, text.head? = some c → c ≠ '/' ∧ c ≠ '*' := by
  constructor
  · intro h c hc
    obtain ⟨tail, rfl⟩ := List.head?_eq_some_iff.1 hc
    constructor
    · rintro rfl
      rw [gapAt, Gap.behind_eq_upTo] at h
      obtain ⟨_, -, hnil⟩ := h
      simp at hnil
    · rintro rfl
      rw [gapAt] at h
      split at h
      · rw [Gap.behind_eq_upTo] at h
        obtain ⟨_, -, hnil⟩ := h
        simp at hnil
      · simp at h
  · intro h
    have hne : ∀ x, x = '/' ∨ x = '*' → ∀ tail, '/' = '/' → text = x :: tail → False := by
      rintro x hx tail - rfl
      have hhead := h x rfl
      rcases hx with rfl | rfl
      · exact hhead.1 rfl
      · exact hhead.2 rfl
    rw [gapAt_of_noOpening (hne '/' (.inl rfl)) (hne '*' (.inr rfl)), hslash]
    simp

/-- Where no comment begins and no blank stands, no gap begins. -/
theorem gapAt_of_noComment {c : Char} (h : gapAt (fun _ => false) (c :: text) = .upTo [] (c :: text))
    (hc : Text.isBlank c = false) : gapAt Text.isBlank (c :: text) = .upTo [] (c :: text) := by
  by_cases hslash : c = '/'
  · subst hslash
    exact (gapAt_slash hc).2 ((gapAt_slash rfl).1 h)
  · exact gapAt_cons hc hslash text

namespace Reading

variable {c d : Cursor} {t : Token}

/-! ## Runs of characters -/

/-- A run of characters ends where it cannot go on. -/
theorem run_of_append {within : Char → Bool} {body : List Char} (hbody : ∀ x ∈ body, within x)
    (hrest : ∀ x, rest.head? = some x → within x = false) :
    (body ++ rest).takeWhile within = body ∧ (body ++ rest).dropWhile within = rest := by
  rw [List.takeWhile_append_of_pos hbody, List.dropWhile_append_of_pos hbody]
  cases rest with
  | nil => simp
  | cons x rest => simp [hrest x rfl]

/-- A run of characters is taken as a whole where it cannot go on. -/
theorem run_of_text {within : Char → Bool} {body : List Char} (hbody : ∀ x ∈ body, within x)
    (hrest : ∀ x, rest.head? = some x → within x = false) (hc : c.rest = body ++ rest) :
    run within c = .ok (String.ofList body) (c.past body rest) := by
  obtain ⟨htake, hdrop⟩ := run_of_append hbody hrest
  rw [run, hc, htake, hdrop]

/-- Behind a run that has been taken it does not go on. -/
theorem stops_dropWhile (within : Char → Bool) (text : List Char) :
    ∀ x, (text.dropWhile within).head? = some x → within x = false := by
  intro x hx
  have hhead := List.head?_dropWhile_not within text
  simpa [hx] using hhead

theorem run_eq_ok {within : Char → Bool} {text : String} :
    run within c = .ok text d ↔
      (∀ x ∈ text.toList, within x) ∧ (∀ x, d.rest.head? = some x → within x = false) ∧
        c.rest = text.toList ++ d.rest ∧ d = c.past text.toList d.rest := by
  constructor
  · intro h
    obtain ⟨rfl, rfl⟩ := EStateM.Result.ok.inj h
    rw [String.toList_ofList]
    exact ⟨fun x hx => List.all_eq_true.1 List.all_takeWhile x hx, stops_dropWhile within c.rest,
      List.takeWhile_append_dropWhile.symm, rfl⟩
  · rintro ⟨hbody, hrest, hc, hd⟩
    have hrun := run_of_text hbody hrest hc
    rw [String.ofList_toList, ← hd] at hrun
    exact hrun

theorem rest_of_run {within : Char → Bool} {text : String} (h : run within c = .ok text d) :
    c.rest = text.toList ++ d.rest ∧ ∀ x ∈ text.toList, within x := by
  obtain ⟨hbody, -, hc, -⟩ := run_eq_ok.1 h
  exact ⟨hc, hbody⟩

/-! ## Numerals -/

/-- No mark is a numeral or a key. -/
theorem ofMark?_ne_text {x : Char} (text : String) :
    TokenKind.ofMark? x ≠ some (.number text) ∧ TokenKind.ofMark? x ≠ some (.key text) := by
  unfold TokenKind.ofMark?
  constructor
  · split <;> simp
  · split <;> simp

/-- A token that is no gap stands behind the comments in front of it. -/
theorem commentsText_of_token (h : nextToken c = .ok t d) (ht : t.kind ≠ .endOfText) :
    ∃ e first, CommentsText c.rest e.rest ∧ gapAt (fun _ => false) e.rest = .upTo [] e.rest ∧
      e.rest.head? = some first ∧ KindRead first e d t.kind := by
  obtain ⟨comments, e, hgap, -, -, ⟨-, hend, -⟩ | ⟨first, hp, hk⟩⟩ := nextToken_eq_ok.1 h
  · exact absurd hend ht
  · exact ⟨e, first, gapText_of_gapAt hgap, gapAt_rest hgap, hp, kindFrom_eq_ok.1 hk⟩

theorem commentsText_of_number {digits : String} (h : nextToken c = .ok t d)
    (ht : t.kind = .number digits) : CommentsText c.rest (digits.toList ++ d.rest) := by
  obtain ⟨e, first, hcomments, -, -, hread⟩ := commentsText_of_token h (by simp [ht])
  rw [ht] at hread
  cases hread with
  | number hb hdigit reads => rw [← (rest_of_run reads).1]; exact hcomments
  | mark hmark takes => exact absurd hmark (ofMark?_ne_text digits).1

theorem nextToken_of_number {digits : String} {bound n : Nat}
    (hcomments : CommentsText c.rest (digits.toList ++ rest))
    (hn : Text.decimalBelow? bound digits = some n)
    (hrest : ∀ x, rest.head? = some x → x.isDigit = false) :
    ∃ p d, nextToken c = .ok ⟨.number digits, p⟩ d ∧ d.rest = rest := by
  obtain ⟨-, hdigits, -, -⟩ := Text.decimalBelow?_eq_some.1 hn
  obtain ⟨first, hfirst, hdigit⟩ := Text.exists_digit_of_decimalBelow? hn rest
  have hstop : gapAt (fun _ => false) (digits.toList ++ rest) = .upTo [] (digits.toList ++ rest) := by
    obtain ⟨tail, htail⟩ := List.head?_eq_some_iff.1 hfirst
    rw [htail]
    exact gapAt_cons rfl (ne_of_isDigit hdigit).1 tail
  obtain ⟨comments, hgap⟩ := hcomments.gapAt_upTo rfl hstop
  have hreads := run_of_text (c := c.past comments (digits.toList ++ rest)) hdigits hrest rfl
  rw [String.ofList_toList] at hreads
  exact ⟨_, _, nextToken_of_comments hgap hfirst
    (kindFrom_eq_ok.2 (.number (isBlank_of_isDigit hdigit) hdigit hreads)), rfl⟩

/-! ## Marks -/

theorem commentsText_of_mark {x : Char} (hx : TokenKind.ofMark? x = some t.kind)
    (h : nextToken c = .ok t d) : CommentsText c.rest (x :: d.rest) := by
  obtain ⟨comments, hgap⟩ := comments_of_mark hx h
  exact gapText_of_gapAt hgap

/-- The slash of a mark begins no comment. -/
theorem head?_of_slash (h : nextToken c = .ok t d) (ht : t.kind = .slash) :
    ∀ x, d.rest.head? = some x → x ≠ '/' ∧ x ≠ '*' := by
  obtain ⟨comments, hgap⟩ := comments_of_mark (x := '/') (by rw [ht]; rfl) h
  exact (gapAt_slash rfl).1 (gapAt_rest hgap)

theorem nextToken_of_markText {x : Char} {kind : TokenKind} (hx : TokenKind.ofMark? x = some kind)
    (hcomments : CommentsText c.rest (x :: rest))
    (hslash : x = '/' → ∀ y, rest.head? = some y → y ≠ '/' ∧ y ≠ '*') :
    ∃ p d, nextToken c = .ok ⟨kind, p⟩ d ∧ d.rest = rest := by
  have hstop : gapAt (fun _ => false) (x :: rest) = .upTo [] (x :: rest) := by
    by_cases hs : x = '/'
    · rw [hs]
      exact (gapAt_slash rfl).2 (hslash hs)
    · exact gapAt_cons rfl hs rest
  obtain ⟨comments, hgap⟩ := hcomments.gapAt_upTo rfl hstop
  exact nextToken_of_mark hx hgap

/-! ## Keys -/

/-- A character with which a key may begin: it begins no other token and no gap. -/
structure KeyStart (first : Char) : Prop where
  plain : Plain first
  noMark : TokenKind.ofMark? first = none
  visible : Text.isControl first = false

theorem KeyStart.ne_slash {first : Char} (h : KeyStart first) : first ≠ '/' := by
  rintro rfl
  have hmark := h.noMark
  simp [TokenKind.ofMark?] at hmark

/-- The marks are the characters that are tokens by themselves. -/
theorem ofMark?_eq_none {x : Char} :
    TokenKind.ofMark? x = none ↔ x ∉ ['[', ']', '/', '<', '@', '$', '%'] := by
  unfold TokenKind.ofMark?
  split
  case h_8 => simp_all
  all_goals simp

theorem keyStart_iff {x : Char} :
    KeyStart x ↔ Text.isBlank x = false ∧ x.isDigit = false ∧ Text.isControl x = false ∧
      x ∉ ['"', '[', ']', '/', '<', '@', '$', '%'] := by
  constructor
  · rintro ⟨⟨hblank, hdigit, hquote⟩, hmark, hcontrol⟩
    refine ⟨hblank, hdigit, hcontrol, ?_⟩
    rw [List.mem_cons, not_or]
    exact ⟨hquote, ofMark?_eq_none.1 hmark⟩
  · rintro ⟨hblank, hdigit, hcontrol, hother⟩
    rw [List.mem_cons, not_or] at hother
    exact ⟨⟨hblank, hdigit, hother.1⟩, ofMark?_eq_none.2 hother.2, hcontrol⟩

/-- A key as it stands as a token: one character that begins no other token, and the key characters
behind it. -/
def IsKeyToken (key : String) : Prop :=
  ∃ first others, key.toList = first :: others ∧ KeyStart first ∧ ∀ x ∈ others, isKeyChar x

/-- A key and what stands behind it: a character that is no blank, no digit, no control character, no
quotation mark and no other mark, and as many key characters behind it as there are. -/
def KeyText (key : String) (behind : List Char) : Prop :=
  ∃ first others, key.toList = first :: others ∧ Text.isBlank first = false ∧
    first.isDigit = false ∧ Text.isControl first = false ∧
    first ∉ ['"', '[', ']', '/', '<', '@', '$', '%'] ∧ (∀ x ∈ others, isKeyChar x) ∧
    ∀ x, behind.head? = some x → isKeyChar x = false

theorem keyText_iff {key : String} {behind : List Char} :
    KeyText key behind ↔
      IsKeyToken key ∧ ∀ x, behind.head? = some x → isKeyChar x = false := by
  constructor
  · rintro ⟨first, others, hfirst, hblank, hdigit, hcontrol, hother, hothers, hstop⟩
    exact ⟨⟨first, others, hfirst, keyStart_iff.2 ⟨hblank, hdigit, hcontrol, hother⟩, hothers⟩,
      hstop⟩
  · rintro ⟨⟨first, others, hfirst, hstart, hothers⟩, hstop⟩
    obtain ⟨hblank, hdigit, hcontrol, hother⟩ := keyStart_iff.1 hstart
    exact ⟨first, others, hfirst, hblank, hdigit, hcontrol, hother, hothers, hstop⟩

/-- A key is the next character and the key characters behind it. -/
theorem key_eq_ok {key : String} {first : Char} (hfirst : c.rest.head? = some first) :
    Reading.key c = .ok key d ↔
      ∃ others, key.toList = first :: others ∧ (∀ x ∈ others, isKeyChar x) ∧
        (∀ x, d.rest.head? = some x → isKeyChar x = false) ∧ c.rest = key.toList ++ d.rest ∧
        d = c.past key.toList d.rest := by
  obtain ⟨tail, htail⟩ := List.head?_eq_some_iff.1 hfirst
  simp only [Reading.key, htail]
  constructor
  · intro h
    obtain ⟨rfl, rfl⟩ := EStateM.Result.ok.inj h
    rw [String.toList_ofList]
    exact ⟨tail.takeWhile isKeyChar, rfl, fun x hx => List.all_eq_true.1 List.all_takeWhile x hx,
      stops_dropWhile isKeyChar tail, congrArg _ List.takeWhile_append_dropWhile.symm, rfl⟩
  · rintro ⟨others, hkey, hothers, hrest, hc, hd⟩
    rw [hkey, List.cons_append] at hc
    obtain ⟨-, rfl⟩ := List.cons.inj hc
    obtain ⟨htake, hdrop⟩ := run_of_append hothers hrest
    rw [htake, hdrop, ← hkey, String.ofList_toList, ← hd]

theorem commentsText_of_key {key : String} (h : nextToken c = .ok t d) (ht : t.kind = .key key) :
    IsKeyToken key ∧ CommentsText c.rest (key.toList ++ d.rest) := by
  obtain ⟨e, first, hcomments, -, hfirst, hread⟩ := commentsText_of_token h (by simp [ht])
  rw [ht] at hread
  cases hread with
  | key plain hcontrol reads =>
    obtain ⟨others, hkey, hothers, -, hrest, -⟩ := (key_eq_ok hfirst).1 reads
    exact ⟨⟨first, others, hkey, ⟨plain.1, plain.2, hcontrol⟩, hothers⟩, hrest ▸ hcomments⟩
  | mark hmark takes => exact absurd hmark (ofMark?_ne_text key).2

/-- Key characters are letters from A to G, which are neither digits nor control characters, and
three signs. -/
theorem keyStart_of_isKeyChar {c : Char} (h : isKeyChar c) : KeyStart c := by
  have hnat : 65 ≤ c.toNat ∧ c.toNat ≤ 71 ∨ 97 ≤ c.toNat ∧ c.toNat ≤ 103 ∨
      c = '#' ∨ c = '\'' ∨ c = '~' := by
    simp only [isKeyChar, Bool.or_eq_true, Bool.and_eq_true, decide_eq_true_eq, beq_iff_eq,
      Char.le_def, UInt32.le_iff_toNat_le, or_assoc] at h
    exact h
  have hdigit : c.isDigit = false := by
    rcases hnat with hc | hc | rfl | rfl | rfl
    · simp only [Char.isDigit, Bool.and_eq_false_iff, decide_eq_false_iff_not,
        UInt32.le_iff_toNat_le]
      exact .inr fun hle => by change c.toNat ≤ 57 at hle; omega
    · simp only [Char.isDigit, Bool.and_eq_false_iff, decide_eq_false_iff_not,
        UInt32.le_iff_toNat_le]
      exact .inr fun hle => by change c.toNat ≤ 57 at hle; omega
    all_goals decide
  have hcontrol : Text.isControl c = false := by
    rcases hnat with hc | hc | rfl | rfl | rfl
    · simp [Text.isControl]; omega
    · simp [Text.isControl]; omega
    all_goals decide
  have hquote : c ≠ '"' := by
    rintro rfl
    revert h
    decide
  refine ⟨⟨isBlank_of_isKeyChar h, hdigit, hquote⟩, ?_, hcontrol⟩
  unfold TokenKind.ofMark?
  split
  all_goals first | rfl | (revert h; decide)

theorem nextToken_of_key {key : String} (hkey : IsKeyToken key)
    (hrest : ∀ x, rest.head? = some x → isKeyChar x = false)
    (hcomments : CommentsText c.rest (key.toList ++ rest)) :
    ∃ p d, nextToken c = .ok ⟨.key key, p⟩ d ∧ d.rest = rest := by
  obtain ⟨first, others, hfirst, hstart, hothers⟩ := hkey
  have hhead : (key.toList ++ rest).head? = some first := by rw [hfirst]; rfl
  have hstop : gapAt (fun _ => false) (key.toList ++ rest) = .upTo [] (key.toList ++ rest) := by
    rw [hfirst, List.cons_append]
    exact gapAt_cons rfl hstart.ne_slash _
  obtain ⟨comments, hgap⟩ := hcomments.gapAt_upTo rfl hstop
  have hread : Reading.key (c.past comments (key.toList ++ rest)) =
      .ok key ((c.past comments (key.toList ++ rest)).past key.toList rest) :=
    (key_eq_ok hhead).2 ⟨others, hfirst, hothers, hrest, rfl, rfl⟩
  exact ⟨_, _, nextToken_of_comments hgap hhead
    (kindFrom_eq_ok.2 (.key ⟨hstart.plain, hstart.noMark⟩ hstart.visible hread)), rfl⟩

/-! ## Gaps and the end of the text -/

theorem commentsText_of_gap (h : nextToken c = .ok t d) (ht : t.kind.IsGap) :
    ∃ rest, CommentsText c.rest rest ∧ WordEnd rest ∧ BehindGap rest d.rest := by
  rcases ht with hblank | hend
  · obtain ⟨comments, first, blanks, hfirst, hcomments, hblanks⟩ := nextToken_eq_blank h hblank
    exact ⟨first :: blanks ++ d.rest, gapText_of_gapAt hcomments, .of_head rfl hfirst, _, hblanks⟩
  · obtain ⟨hnil, hcomments⟩ := rest_of_nextToken_end h hend
    refine ⟨[], gapText_of_gapAt hcomments, WordEnd.nil, [], ?_⟩
    rw [hnil, gapAt]

theorem nextToken_of_wordEnd (hcomments : CommentsText c.rest rest) (hend : WordEnd rest)
    (hgap : BehindGap rest after) :
    ∃ t d, nextToken c = .ok t d ∧ t.kind.IsGap ∧ d.rest = after := by
  cases rest with
  | nil =>
    obtain rfl : [] = after := BehindGap.unique ⟨[], by rw [gapAt]⟩ hgap
    obtain ⟨comments, hstop⟩ := hcomments.gapAt_upTo rfl (by rw [gapAt])
    exact ⟨_, _, nextToken_of_end hstop, .inr rfl, rfl⟩
  | cons first blanks =>
    have hfirst := hend first rfl
    obtain ⟨comments, hstop⟩ :=
      hcomments.gapAt_upTo rfl (gapAt_cons rfl (Text.ne_slash_of_isBlank hfirst) blanks)
    obtain ⟨p, d, hd, hrest⟩ := nextToken_of_blank hfirst hstop hgap
    exact ⟨_, d, hd, .inl rfl, hrest⟩

end Reading

end Songsheet
