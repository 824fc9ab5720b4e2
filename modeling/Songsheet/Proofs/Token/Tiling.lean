import Songsheet.Proofs.Cursor
import Songsheet.Proofs.Token.Text

/-!
# Tokens tile a text

Every character of a text belongs to one token: to the comments in front of it or to its lexeme. So
the text is the tiles of its tokens, one behind the other. Which lexemes there are is told from the
characters alone, with what follows, since a lexeme goes on as far as it can.

* `Lexeme` — the text of a token of some kind in front of what follows.
* `Tile`, `Tile.Fits`, `Laid` — a token with its text, and tiles laid one behind the other.
* `Unclosed` — a comment or a quoted text that is never closed, and what is reported there.
* `nextToken_eq_ok_iff`, `nextToken_eq_error_iff` — one tile is laid, or one cannot be.
* `tokens_of_laid`, `exists_laid` — tiles that are laid are read, and every text is laid out up to
  its end or up to something that is never closed.
* `tokens_tile` — a text is read exactly if tiles lie on all of it.
-/

namespace Songsheet

/-! ## Lexemes -/

/-- The text of a token of some kind, in front of what follows: a run goes on as far as it can. -/
inductive Lexeme : TokenKind → List Char → List Char → Prop
  | blank {first : Char} {others behind : List Char} (space : Text.isBlank first)
      (run : GapText Text.isBlank (others ++ behind) behind) (ends : NoGap Text.isBlank behind) :
      Lexeme .blank (first :: others) behind
  | number {digits : String} {behind : List Char} (digit : digits.toList ≠ [])
      (run : ∀ x ∈ digits.toList, x.isDigit)
      (ends : ∀ x, behind.head? = some x → x.isDigit = false) :
      Lexeme (.number digits) digits.toList behind
  | key {key : String} {behind : List Char} (text : Reading.KeyText key behind) :
      Lexeme (.key key) key.toList behind
  | quoted {text : String} {behind : List Char} (ends : behind.head? ≠ some '"') :
      Lexeme (.quoted text) ('"' :: quoted text.toList) behind
  | mark {x : Char} {kind : TokenKind} {behind : List Char}
      (mark : TokenKind.ofMark? x = some kind)
      (noComment : x = '/' → ∀ y, behind.head? = some y → y ≠ '/' ∧ y ≠ '*') :
      Lexeme kind [x] behind
  | invalid {x : Char} {behind : List Char} (control : Text.isControl x)
      (visible : Text.isBlank x = false) : Lexeme (.invalid x) [x] behind
  | endOfText : Lexeme .endOfText [] []

namespace Reading

variable {c d : Cursor} {kind : TokenKind} {lexeme behind : List Char}

/-- A quoted text ends with the first quotation mark that no other follows. -/
theorem unquoted?_eq_none {form : List Char} :
    unquoted? form = none ↔
      ∀ text behind, form = quoted text ++ behind → behind.head? = some '"' := by
  constructor
  · rintro h text behind rfl
    by_contra hhead
    rw [unquoted?_quoted text behind hhead] at h
    cases h
  · intro h
    cases hform : unquoted? form with
    | none => rfl
    | some found =>
      obtain ⟨hsplit, hhead⟩ := quoted_of_unquoted? hform
      exact absurd (h found.1 found.2 hsplit) hhead

theorem quotedText_eq_ok {text : String} :
    quotedText c = .ok text d ↔
      d.rest.head? ≠ some '"' ∧ c.rest = '"' :: quoted text.toList ++ d.rest ∧
        d = c.past ('"' :: quoted text.toList) d.rest := by
  unfold quotedText
  constructor
  · intro h
    split at h
    · rename_i form hform
      cases hread : unquoted? form with
      | none => simp [hread] at h
      | some found =>
        simp only [hread] at h
        obtain ⟨rfl, rfl⟩ := EStateM.Result.ok.inj h
        obtain ⟨hsplit, hhead⟩ := quoted_of_unquoted? hread
        rw [String.toList_ofList]
        exact ⟨hhead, by rw [hform, hsplit]; rfl, rfl⟩
    · cases h
  · rintro ⟨hhead, hrest, hd⟩
    rw [hrest]
    simp only [List.cons_append, unquoted?_quoted _ _ hhead, String.ofList_toList]
    rw [← hd]

/-- A control character is no digit, no quotation mark and no mark. -/
theorem plain_of_isControl {x : Char} (hcontrol : Text.isControl x)
    (hblank : Text.isBlank x = false) : Plain x ∧ TokenKind.ofMark? x = none := by
  have hdigit : x.isDigit = false := by
    rw [Bool.eq_false_iff]
    intro hdigit
    simp only [Char.isDigit, Bool.and_eq_true, decide_eq_true_eq, UInt32.le_iff_toNat_le,
      ge_iff_le] at hdigit
    simp only [Text.isControl, Bool.or_eq_true, Bool.and_eq_true, decide_eq_true_eq] at hcontrol
    obtain ⟨hl, hu⟩ := hdigit
    change 48 ≤ x.toNat at hl
    change x.toNat ≤ 57 at hu
    omega
  have hother : x ∉ ['"', '[', ']', '/', '<', '@', '$', '%'] := by
    intro hmem
    have hnone : ['"', '[', ']', '/', '<', '@', '$', '%'].all (!Text.isControl ·) := by decide
    have hx := List.all_eq_true.1 hnone x hmem
    rw [hcontrol] at hx
    cases hx
  rw [List.mem_cons, not_or] at hother
  exact ⟨⟨hblank, hdigit, hother.1⟩, ofMark?_eq_none.2 hother.2⟩

theorem lexeme_of_kindRead {first : Char} (hfirst : c.rest.head? = some first)
    (hgap : NoGap (fun _ => false) c.rest) (h : KindRead first c d kind) :
    ∃ lexeme, lexeme ≠ [] ∧ Lexeme kind lexeme d.rest ∧ c.rest = lexeme ++ d.rest ∧
      d = c.past lexeme d.rest := by
  obtain ⟨tail, htail⟩ := List.head?_eq_some_iff.1 hfirst
  cases h with
  | blank space skips =>
    obtain ⟨skipped, rest, hskip, rfl⟩ := skip_eq_ok.1 skips
    rw [htail, gapAt_cons_of_blank space (Text.ne_slash_of_isBlank space),
      Gap.behind_eq_upTo] at hskip
    obtain ⟨blanks, hblanks, rfl⟩ := hskip
    have hsplit : tail = blanks ++ rest := append_of_gapAt hblanks
    have hends : NoGap Text.isBlank rest := gapAt_eq_nil_iff.1 (gapAt_rest hblanks)
    rw [hsplit] at htail hblanks
    exact ⟨first :: blanks, by simp, .blank space (gapText_of_gapAt hblanks) hends, htail, rfl⟩
  | @number digits _ hdigit reads =>
    obtain ⟨hrun, hends, hrest, hd⟩ := run_eq_ok.1 reads
    have hne : digits.toList ≠ [] := by
      intro hnil
      rw [hrest, hnil] at hfirst
      rw [hends first hfirst] at hdigit
      cases hdigit
    exact ⟨_, hne, .number hne hrun hends, hrest, hd⟩
  | quoted _ reads =>
    obtain ⟨hends, hrest, hd⟩ := quotedText_eq_ok.1 reads
    exact ⟨_, by simp, .quoted hends, hrest, hd⟩
  | mark hmark takes =>
    obtain rfl := (drop_eq_ok htail).1 takes
    refine ⟨[first], by simp, .mark hmark ?_, htail, rfl⟩
    rintro rfl
    rw [htail] at hgap
    exact (gapAt_slash rfl).1 (gapAt_eq_nil_iff.2 hgap)
  | invalid plain hcontrol takes =>
    obtain rfl := (drop_eq_ok htail).1 takes
    exact ⟨[first], by simp, .invalid hcontrol plain.1.1, htail, rfl⟩
  | key plain hcontrol reads =>
    obtain ⟨others, hkey, hothers, hends, hrest, hd⟩ := (key_eq_ok hfirst).1 reads
    have htext : IsKeyToken _ := ⟨first, others, hkey, ⟨plain.1, plain.2, hcontrol⟩, hothers⟩
    exact ⟨_, by simp [hkey], .key (keyText_iff.2 ⟨htext, hends⟩), hrest, hd⟩

theorem kindRead_of_lexeme {lexeme : List Char} (hne : lexeme ≠ [])
    (h : Lexeme kind lexeme d.rest) (hrest : c.rest = lexeme ++ d.rest)
    (hd : d = c.past lexeme d.rest) :
    ∃ first, c.rest.head? = some first ∧ KindRead first c d kind := by
  generalize hbehind : d.rest = behind at h hrest hd
  cases h with
  | @blank first others behind space run ends =>
    obtain ⟨front, hfront⟩ :=
      run.gapAt_upTo Text.isBlank_slash (gapAt_eq_nil_iff.2 ends)
    obtain rfl : others = front := List.append_cancel_right (append_of_gapAt hfront)
    have hskip : gapAt Text.isBlank c.rest = .upTo (first :: others) behind := by
      rw [hrest, List.cons_append, gapAt_cons_of_blank space (Text.ne_slash_of_isBlank space),
        hfront]
      rfl
    exact ⟨first, by rw [hrest]; rfl, .blank space (skip_eq_ok.2 ⟨_, _, hskip, hd⟩)⟩
  | @number digits behind digit run ends =>
    obtain ⟨first, others, hfirst⟩ := List.exists_cons_of_ne_nil digit
    have hdigit : first.isDigit := run first (by simp [hfirst])
    subst hbehind
    refine ⟨first, by rw [hrest, hfirst]; rfl, .number (isBlank_of_isDigit hdigit) hdigit ?_⟩
    exact run_eq_ok.2 ⟨run, ends, hrest, hd⟩
  | quoted ends =>
    subst hbehind
    exact ⟨'"', by rw [hrest]; rfl, .quoted rfl (quotedText_eq_ok.2 ⟨ends, hrest, hd⟩)⟩
  | @mark x _ behind hmark noComment =>
    exact ⟨x, by rw [hrest]; rfl, .mark hmark ((drop_eq_ok hrest).2 hd)⟩
  | @invalid x behind hcontrol hvisible =>
    exact ⟨x, by rw [hrest]; rfl, .invalid (plain_of_isControl hcontrol hvisible) hcontrol
      ((drop_eq_ok hrest).2 hd)⟩
  | key text =>
    subst hbehind
    obtain ⟨⟨first, others, hkey, hstart, hothers⟩, hends⟩ := keyText_iff.1 text
    have hfirst : c.rest.head? = some first := by rw [hrest, hkey]; rfl
    exact ⟨first, hfirst, .key ⟨hstart.plain, hstart.noMark⟩ hstart.visible
      ((key_eq_ok hfirst).2 ⟨others, hkey, hothers, hends, hrest, hd⟩)⟩
  | endOfText => exact absurd rfl hne

/-- Only the end of the text has no lexeme. -/
theorem endOfText_of_lexeme (h : Lexeme kind lexeme behind) (hnil : lexeme = []) :
    kind = .endOfText ∧ behind = [] := by
  cases h with
  | number digit => exact absurd hnil digit
  | key text =>
    obtain ⟨first, others, hfirst, -⟩ := text
    rw [hfirst] at hnil
    cases hnil
  | endOfText => exact ⟨rfl, rfl⟩
  | _ => cases hnil

theorem nil_of_endOfText (h : Lexeme .endOfText lexeme behind) : lexeme = [] ∧ behind = [] := by
  cases h with
  | endOfText => exact ⟨rfl, rfl⟩
  | mark hmark =>
    unfold TokenKind.ofMark? at hmark
    split at hmark <;> simp at hmark

/-- No comment begins with a lexeme. -/
theorem noGap_of_lexeme (h : Lexeme kind lexeme behind) :
    NoGap (fun _ => false) (lexeme ++ behind) := by
  rw [← gapAt_eq_nil_iff]
  cases h with
  | blank space => exact gapAt_cons rfl (Text.ne_slash_of_isBlank space) _
  | number digit run =>
    obtain ⟨first, others, hfirst⟩ := List.exists_cons_of_ne_nil digit
    rw [hfirst]
    exact gapAt_cons rfl (ne_of_isDigit (run first (by simp [hfirst]))).1 _
  | key text =>
    obtain ⟨⟨first, others, hfirst, hstart, -⟩, -⟩ := keyText_iff.1 text
    rw [hfirst]
    exact gapAt_cons rfl hstart.ne_slash _
  | quoted => exact gapAt_cons rfl (by decide) _
  | @mark x _ _ _ noComment =>
    by_cases hx : x = '/'
    · subst hx
      exact (gapAt_slash rfl).2 (noComment rfl)
    · exact gapAt_cons rfl hx _
  | invalid control =>
    refine gapAt_cons rfl ?_ _
    rintro rfl
    revert control
    decide
  | endOfText => rw [List.append_nil, gapAt]

end Reading

/-! ## Tiles -/

/-- A token with the text that belongs to it: the comments in front of it, and its lexeme. -/
structure Tile where
  comments : List Char
  lexeme : List Char
  token : Token
  deriving DecidableEq, Repr

namespace Tile

/-- All the text that belongs to a token. -/
def text (tile : Tile) : List Char :=
  tile.comments ++ tile.lexeme

/-- The text of a tile is comments and the lexeme of its token, in front of what follows. -/
structure Fits (tile : Tile) (behind : List Char) : Prop where
  comments : CommentsText (tile.text ++ behind) (tile.lexeme ++ behind)
  lexeme : Lexeme tile.token.kind tile.lexeme behind

theorem Fits.gapAt_eq {tile : Tile} {behind : List Char} (h : tile.Fits behind) :
    gapAt (fun _ => false) (tile.text ++ behind) = .upTo tile.comments (tile.lexeme ++ behind) := by
  obtain ⟨front, hfront⟩ :=
    h.comments.gapAt_upTo rfl (gapAt_eq_nil_iff.2 (Reading.noGap_of_lexeme h.lexeme))
  have hsplit := append_of_gapAt hfront
  rw [text, List.append_assoc] at hsplit
  obtain rfl : tile.comments = front := List.append_cancel_right hsplit
  exact hfront

end Tile

/-- Tiles that lie one behind the other, behind some text and in front of what follows: each token
stands at the place of the first character of its lexeme. -/
inductive Laid : List Char → List Tile → List Char → Prop
  | nothing {front rest : List Char} : Laid front [] rest
  | tile {front rest : List Char} {tile : Tile} {tiles : List Tile}
      (fits : tile.Fits (tiles.flatMap Tile.text ++ rest))
      (place : tile.token.position = .counted (front ++ tile.comments))
      (behind : Laid (front ++ tile.text) tiles rest) : Laid front (tile :: tiles) rest

/-- The cursor behind some text. -/
def Cursor.behind (front rest : List Char) : Cursor :=
  ⟨rest, .counted front⟩

theorem Position.after_counted (front text : List Char) :
    (counted front).after text = counted (front ++ text) := by
  rw [← after_start, ← after_start, after_append]

theorem Cursor.past_behind {front text read rest : List Char} :
    (Cursor.behind front text).past read rest = Cursor.behind (front ++ read) rest := by
  rw [Cursor.behind, Cursor.behind, Cursor.past, Position.after_counted]

/-- A comment or a quoted text that is never closed, in a text behind `front`: it is reported at its
opening. The comment may stand in a gap; the quoted text stands where a token begins. -/
inductive Unclosed (front text : List Char) : Diagnostic → Prop
  | comment {before body : List Char} (whole : text = before ++ '/' :: '*' :: body)
      (gap : GapText Text.isBlank text ('/' :: '*' :: body)) (opened : ¬ ['*', '/'] <:+: body) :
      Unclosed front text
        (Cause.unterminatedComment.reportedAt (.counted (front ++ before)))
  | quote {before form : List Char} (whole : text = before ++ '"' :: form)
      (comments : CommentsText text ('"' :: form))
      (opened : ∀ inside behind, form = quoted inside ++ behind → behind.head? = some '"') :
      Unclosed front text
        (Cause.unterminatedQuote.reportedAt (.counted (front ++ before)))

namespace Reading

variable {c d : Cursor} {t : Token} {x : Diagnostic} {tiles : List Tile}
  {front text rest lexeme behind : List Char}

/-! ## One tile -/

/-- The next token is read exactly if a tile of it lies on the text. -/
theorem nextToken_eq_ok_iff :
    nextToken (.behind front text) = .ok t d ↔
      ∃ tile rest, tile.token = t ∧ Laid front [tile] rest ∧ text = tile.text ++ rest ∧
        d = .behind (front ++ tile.text) rest := by
  constructor
  · intro h
    obtain ⟨comments, e, hgap, he, hplace, hcase⟩ := nextToken_eq_ok.1 h
    have hcomments := gapText_of_gapAt hgap
    have hwhole : text = comments ++ e.rest := append_of_gapAt hgap
    have hlexeme : ∃ lexeme, Lexeme t.kind lexeme d.rest ∧ e.rest = lexeme ++ d.rest ∧
        d = e.past lexeme d.rest := by
      rcases hcase with ⟨hnil, hend, rfl⟩ | ⟨first, hfirst, hkind⟩
      · refine ⟨[], ?_, rfl, rfl⟩
        rw [hend, hnil]
        exact .endOfText
      · obtain ⟨lexeme, -, hlexeme⟩ := lexeme_of_kindRead hfirst
          (gapAt_eq_nil_iff.1 (gapAt_rest hgap)) (kindFrom_eq_ok.1 hkind)
        exact ⟨lexeme, hlexeme⟩
    obtain ⟨lexeme, hlexeme, hrest, hd⟩ := hlexeme
    rw [he, Cursor.past_behind] at hplace hd
    rw [Cursor.past_behind, List.append_assoc] at hd
    rw [hrest] at hcomments hwhole
    refine ⟨⟨comments, lexeme, t⟩, d.rest, rfl, .tile ⟨?_, hlexeme⟩ hplace .nothing, ?_, hd⟩
    · rw [Tile.text, List.append_assoc]
      exact hwhole ▸ hcomments
    · rw [Tile.text, List.append_assoc]
      exact hwhole
  · rintro ⟨tile, rest, rfl, hlaid, rfl, rfl⟩
    cases hlaid with
    | tile fits place =>
      have hfits : tile.Fits rest := fits
      have hread : Cursor.behind (front ++ tile.text) rest =
          (Cursor.behind (front ++ tile.comments) (tile.lexeme ++ rest)).past tile.lexeme rest := by
        rw [Cursor.past_behind, List.append_assoc]
        rfl
      refine nextToken_eq_ok.2 ⟨tile.comments,
        .behind (front ++ tile.comments) (tile.lexeme ++ rest), hfits.gapAt_eq,
        Cursor.past_behind.symm, place, ?_⟩
      by_cases hnil : tile.lexeme = []
      · obtain ⟨hend, rfl⟩ := endOfText_of_lexeme hfits.lexeme hnil
        refine .inl ⟨by rw [hnil]; rfl, hend, ?_⟩
        rw [hread, hnil, Cursor.past_behind, List.append_nil]
        rfl
      · obtain ⟨first, hfirst, hkind⟩ := kindRead_of_lexeme hnil hfits.lexeme rfl hread
        exact .inr ⟨first, hfirst, hkind.kindFrom⟩

/-! ## Where no tile lies -/

theorem skip_eq_error {blank : Char → Bool} :
    skip blank c = .error x d ↔
      ∃ before comment, gapAt blank c.rest = .unclosed before comment ∧
        x = Cause.unterminatedComment.reportedAt (c.position.after before) ∧
        d = c.past c.rest [] := by
  unfold skip
  cases hgap : gapAt blank c.rest with
  | upTo skipped rest => simp
  | unclosed before comment =>
    simp only [EStateM.Result.error.injEq, Gap.unclosed.injEq]
    constructor
    · rintro ⟨rfl, rfl⟩
      exact ⟨before, comment, ⟨rfl, rfl⟩, rfl, rfl⟩
    · rintro ⟨_, _, ⟨rfl, rfl⟩, rfl, rfl⟩
      exact ⟨rfl, rfl⟩

theorem quotedText_eq_error {form : List Char} (hc : c.rest = '"' :: form) :
    quotedText c = .error x d ↔
      unquoted? form = none ∧ x = Cause.unterminatedQuote.reportedAt c.position ∧
        d = c.past c.rest [] := by
  simp only [quotedText, hc]
  cases unquoted? form with
  | some found => simp
  | none => simp [eq_comm]

theorem skip_of_upTo {blank : Char → Bool} {skipped : List Char}
    (hgap : gapAt blank text = .upTo skipped rest) :
    skip blank (.behind front text) = .ok () (.behind (front ++ skipped) rest) :=
  skip_eq_ok.2 ⟨skipped, rest, hgap, Cursor.past_behind.symm⟩

theorem skip_of_unclosed {blank : Char → Bool} {before comment : List Char}
    (hgap : gapAt blank text = .unclosed before comment) :
    skip blank (.behind front text) =
      .error (Cause.unterminatedComment.reportedAt (.counted (front ++ before)))
        (.behind (front ++ text) []) :=
  skip_eq_error.2 ⟨before, comment, hgap, by rw [Cursor.behind, Position.after_counted],
    Cursor.past_behind.symm⟩

theorem unclosed_of_skip {blank : Char → Bool} (hblank : ∀ y, blank y → Text.isBlank y)
    (hslash : blank '/' = false) (h : skip blank (.behind front text) = .error x d) :
    Unclosed front text x := by
  obtain ⟨before, comment, hgap, rfl, -⟩ := skip_eq_error.1 h
  obtain ⟨hwhole, htext, body, rfl, hopened⟩ := (gapAt_eq_unclosed hslash).1 hgap
  rw [Cursor.behind, Position.after_counted]
  exact .comment hwhole (htext.mono hblank) hopened

/-- What is not closed behind comments is not closed in the whole text. -/
theorem unclosed_of_comments {comments : List Char} (h : Unclosed (front ++ comments) rest x)
    (hcomments : CommentsText (comments ++ rest) rest) : Unclosed front (comments ++ rest) x := by
  cases h with
  | @comment before body whole gap opened =>
    rw [List.append_assoc]
    exact .comment (by rw [whole, List.append_assoc]) ((hcomments.mono (by simp)).trans gap) opened
  | @quote before form whole quoted opened =>
    rw [List.append_assoc]
    exact .quote (by rw [whole, List.append_assoc]) (hcomments.trans quoted) opened

theorem unclosed_of_quotedText (hquote : text.head? = some '"')
    (h : quotedText (.behind front text) = .error x d) : Unclosed front text x := by
  obtain ⟨form, rfl⟩ := List.head?_eq_some_iff.1 hquote
  obtain ⟨hopened, rfl, -⟩ := (quotedText_eq_error rfl).1 h
  have hunclosed : Unclosed front ('"' :: form)
      (Cause.unterminatedQuote.reportedAt (.counted (front ++ []))) :=
    .quote rfl .nothing (unquoted?_eq_none.1 hopened)
  rwa [List.append_nil] at hunclosed

/-- A comment that is never closed is met in front of a token, or in a gap that begins there. -/
theorem nextToken_of_unclosed {before comment : List Char}
    (hgap : gapAt Text.isBlank text = .unclosed before comment) :
    ∃ d, nextToken (.behind front text) =
      .error (Cause.unterminatedComment.reportedAt (.counted (front ++ before))) d := by
  cases hcomments : gapAt (fun _ => false) text with
  | unclosed before' comment' =>
    obtain ⟨hwhole, htext, hopened⟩ := (gapAt_eq_unclosed rfl).1 hcomments
    have hsame : gapAt Text.isBlank text = .unclosed before' comment' :=
      (gapAt_eq_unclosed Text.isBlank_slash).2 ⟨hwhole, htext.mono (by simp), hopened⟩
    obtain ⟨rfl, rfl⟩ := Gap.unclosed.inj (hgap.symm.trans hsame)
    exact ⟨_, nextToken_eq_error.2 (.inl (skip_of_unclosed hcomments))⟩
  | upTo comments rest =>
    have hwhole : text = comments ++ rest := append_of_gapAt hcomments
    obtain ⟨front', hfront⟩ :
        ∃ front', gapAt Text.isBlank text = (gapAt Text.isBlank rest).behind front' :=
      (gapText_of_gapAt hcomments).gapAt_eq (by simp) Text.isBlank_slash
    rw [hgap] at hfront
    obtain ⟨back, hback, rfl⟩ := Gap.behind_eq_unclosed.1 hfront.symm
    obtain rfl : front' = comments := by
      have hrest := Gap.whole_gapAt Text.isBlank rest
      have htext := Gap.whole_gapAt Text.isBlank text
      rw [hback] at hrest
      rw [hgap, hwhole, ← hrest] at htext
      simpa [Gap.whole, List.append_assoc] using htext
    cases rest with
    | nil =>
      rw [gapAt] at hback
      cases hback
    | cons first tail =>
      -- the gap goes on behind the comments, so it goes on with a blank
      have hblank : Text.isBlank first := by
        by_contra hfirst
        rw [gapAt_of_noComment (gapAt_rest hcomments) (by simpa using hfirst)] at hback
        cases hback
      rw [← List.append_assoc]
      exact ⟨_, nextToken_eq_error.2 (.inr ⟨_, first, skip_of_upTo hcomments, rfl,
        kindFrom_eq_error.2 (.inl ⟨hblank, skip_of_unclosed hback⟩)⟩)⟩

theorem nextToken_of_openQuote {before form : List Char}
    (hcomments : CommentsText (before ++ '"' :: form) ('"' :: form))
    (hopened : unquoted? form = none) :
    ∃ d, nextToken (.behind front (before ++ '"' :: form)) =
      .error (Cause.unterminatedQuote.reportedAt (.counted (front ++ before))) d := by
  obtain ⟨before', hgap⟩ := hcomments.gapAt_upTo rfl (gapAt_cons rfl (by decide) form)
  obtain rfl : before = before' := List.append_cancel_right (append_of_gapAt hgap)
  have hquoted := (quotedText_eq_error (c := .behind (front ++ before) ('"' :: form)) rfl).2
    ⟨hopened, rfl, rfl⟩
  exact ⟨_, nextToken_eq_error.2 (.inr ⟨_, '"', skip_of_upTo hgap, rfl,
    kindFrom_eq_error.2 (.inr ⟨rfl, hquoted⟩)⟩)⟩

/-- The next token cannot be read exactly if a comment or a quoted text is never closed there. -/
theorem nextToken_eq_error_iff :
    (∃ d, nextToken (.behind front text) = .error x d) ↔ Unclosed front text x := by
  constructor
  · rintro ⟨d, h⟩
    rcases nextToken_eq_error.1 h with hskip | ⟨e, first, hskip, hfirst, hkind⟩
    · exact unclosed_of_skip (by simp) rfl hskip
    · obtain ⟨comments, rest, hgap, rfl⟩ := skip_eq_ok.1 hskip
      rw [Cursor.past_behind] at hfirst hkind
      obtain rfl : text = comments ++ rest := append_of_gapAt hgap
      refine unclosed_of_comments ?_ (gapText_of_gapAt hgap)
      rcases kindFrom_eq_error.1 hkind with ⟨-, hblanks⟩ | ⟨rfl, hquoted⟩
      · exact unclosed_of_skip (fun _ h => h) Text.isBlank_slash hblanks
      · exact unclosed_of_quotedText hfirst hquoted
  · intro h
    cases h with
    | comment whole gap opened =>
      exact nextToken_of_unclosed
        ((gapAt_eq_unclosed Text.isBlank_slash).2 ⟨whole, gap, _, rfl, opened⟩)
    | quote whole comments opened =>
      subst whole
      exact nextToken_of_openQuote comments (unquoted?_eq_none.2 opened)

/-! ## All tokens -/

/-- Tiles, none of which is the end of the text. -/
def Inside (tiles : List Tile) : Prop :=
  ∀ tile ∈ tiles, tile.token.kind ≠ .endOfText

theorem tokens_of_nextToken (h : nextToken c = .ok t d) (ht : t.kind ≠ .endOfText) :
    tokens c = match tokens d with
      | .error e d' => .error e d'
      | .ok ts d' => .ok (t :: ts) d' := by
  rw [tokens]
  split
  · rename_i e d' h'
    rw [h] at h'
    cases h'
  · rename_i t' d' h'
    obtain ⟨rfl, rfl⟩ := EStateM.Result.ok.inj (h.symm.trans h')
    exact dif_neg ht

theorem tokens_of_end (h : nextToken c = .ok t d) (ht : t.kind = .endOfText) :
    tokens c = .ok [t] d := by
  rw [tokens]
  split
  · rename_i e d' h'
    rw [h] at h'
    cases h'
  · rename_i t' d' h'
    obtain ⟨rfl, rfl⟩ := EStateM.Result.ok.inj (h.symm.trans h')
    rw [dif_pos ht]

theorem tokens_of_error (h : nextToken c = .error x d) : tokens c = .error x d := by
  rw [tokens]
  split
  · rename_i e d' h'
    obtain ⟨rfl, rfl⟩ := EStateM.Result.error.inj (h.symm.trans h')
    rfl
  · rename_i t' d' h'
    rw [h] at h'
    cases h'

/-- Tiles that are laid are read, and what is behind them after them. -/
theorem tokens_of_laid (hlaid : Laid front tiles rest) (hinside : Inside tiles) :
    tokens (.behind front (tiles.flatMap Tile.text ++ rest)) =
      match tokens (.behind (front ++ tiles.flatMap Tile.text) rest) with
      | .error e d => .error e d
      | .ok ts d => .ok (tiles.map Tile.token ++ ts) d := by
  induction hlaid with
  | @nothing front rest =>
    rw [List.flatMap_nil, List.nil_append, List.append_nil]
    cases tokens (.behind front rest) <;> rfl
  | @tile front rest tile tiles fits place behind ih =>
    have hnext : nextToken (.behind front ((tile :: tiles).flatMap Tile.text ++ rest)) =
        .ok tile.token (.behind (front ++ tile.text) (tiles.flatMap Tile.text ++ rest)) :=
      nextToken_eq_ok_iff.2 ⟨tile, _, rfl, .tile fits place .nothing,
        by simp, rfl⟩
    rw [tokens_of_nextToken hnext (hinside tile (by simp)),
      ih fun other hother => hinside other (by simp [hother]), List.flatMap_cons, List.append_assoc]
    cases tokens (.behind (front ++ (tile.text ++ tiles.flatMap Tile.text)) rest) <;> rfl

theorem laid_append {more : List Tile} :
    Laid front (tiles ++ more) rest ↔
      Laid front tiles (more.flatMap Tile.text ++ rest) ∧
        Laid (front ++ tiles.flatMap Tile.text) more rest := by
  induction tiles generalizing front with
  | nil => simpa using fun _ => Laid.nothing
  | cons tile tiles ih =>
    rw [List.cons_append, List.flatMap_cons, ← List.append_assoc]
    constructor
    · intro h
      cases h with
      | tile fits place behind =>
        obtain ⟨hfront, hmore⟩ := ih.1 behind
        rw [List.flatMap_append, List.append_assoc] at fits
        exact ⟨.tile fits place hfront, hmore⟩
    · rintro ⟨h, hmore⟩
      cases h with
      | tile fits place behind =>
        refine .tile ?_ place (ih.2 ⟨behind, hmore⟩)
        rw [List.flatMap_append, List.append_assoc]
        exact fits

/-- Every text is laid out up to a place where the next token is its end or cannot be read. -/
theorem exists_laid (front text : List Char) :
    ∃ tiles rest, text = tiles.flatMap Tile.text ++ rest ∧ Laid front tiles rest ∧ Inside tiles ∧
      ((∃ x d, nextToken (.behind (front ++ tiles.flatMap Tile.text) rest) = .error x d) ∨
        ∃ t d, nextToken (.behind (front ++ tiles.flatMap Tile.text) rest) = .ok t d ∧
          t.kind = .endOfText) := by
  have hnothing : front ++ ([] : List Tile).flatMap Tile.text = front := by simp
  cases hnext : nextToken (.behind front text) with
  | error x d =>
    exact ⟨[], text, rfl, .nothing, by simp [Inside], .inl ⟨x, d, hnothing.symm ▸ hnext⟩⟩
  | ok t d =>
    by_cases hend : t.kind = .endOfText
    · exact ⟨[], text, rfl, .nothing, by simp [Inside], .inr ⟨t, d, hnothing.symm ▸ hnext, hend⟩⟩
    · have hlength := length_of_nextToken hnext hend
      obtain ⟨tile, rest, rfl, hlaid, hwhole, rfl⟩ := nextToken_eq_ok_iff.1 hnext
      obtain ⟨tiles, rest', rfl, htiles, hinside, hstop⟩ := exists_laid (front ++ tile.text) rest
      refine ⟨tile :: tiles, rest', ?_, ?_, ?_, ?_⟩
      · rw [hwhole, List.flatMap_cons, List.append_assoc]
      · cases hlaid with
        | tile fits place => exact .tile fits place htiles
      · intro other hother
        rcases List.mem_cons.1 hother with rfl | hother
        · exact hend
        · exact hinside other hother
      · rw [List.flatMap_cons, ← List.append_assoc]
        exact hstop
termination_by text.length
decreasing_by exact hlength

theorem tokens_eq_ok_iff {ts : List Token} :
    (∃ d, tokens (.behind front text) = .ok ts d) ↔
      ∃ tiles last, text = (tiles ++ [last]).flatMap Tile.text ∧ Laid front (tiles ++ [last]) [] ∧
        Inside tiles ∧ last.token.kind = .endOfText ∧ ts = (tiles ++ [last]).map Tile.token := by
  constructor
  · rintro ⟨d, h⟩
    obtain ⟨tiles, rest, rfl, hlaid, hinside, hstop⟩ := exists_laid front text
    rw [tokens_of_laid hlaid hinside] at h
    rcases hstop with ⟨x, e, hnext⟩ | ⟨t, e, hnext, hend⟩
    · rw [tokens_of_error hnext] at h
      cases h
    · rw [tokens_of_end hnext hend] at h
      obtain ⟨rfl, rfl⟩ := EStateM.Result.ok.inj h
      obtain ⟨last, rest', rfl, hlast, rfl, -⟩ := nextToken_eq_ok_iff.1 hnext
      obtain rfl : rest' = [] := by
        cases hlast with
        | tile fits => exact (nil_of_endOfText (hend ▸ fits.lexeme)).2
      refine ⟨tiles, last, by simp, laid_append.2 ⟨?_, hlast⟩, hinside, hend, by simp⟩
      simpa using hlaid
  · rintro ⟨tiles, last, rfl, hlaid, hinside, hend, rfl⟩
    obtain ⟨htiles, hlast⟩ := laid_append.1 hlaid
    have hnext := nextToken_eq_ok_iff.2 ⟨last, [], rfl, hlast, rfl, rfl⟩
    have hread := tokens_of_laid htiles hinside
    simp only [List.flatMap_cons, List.flatMap_nil, List.append_nil] at hread
    rw [List.append_nil] at hnext
    rw [tokens_of_end hnext hend] at hread
    exact ⟨_, by rw [List.flatMap_append, List.map_append]; simpa using hread⟩

theorem tokens_eq_error_iff :
    (∃ d, tokens (.behind front text) = .error x d) ↔
      ∃ tiles rest, text = tiles.flatMap Tile.text ++ rest ∧ Laid front tiles rest ∧
        Inside tiles ∧ Unclosed (front ++ tiles.flatMap Tile.text) rest x := by
  constructor
  · rintro ⟨d, h⟩
    obtain ⟨tiles, rest, rfl, hlaid, hinside, hstop⟩ := exists_laid front text
    rw [tokens_of_laid hlaid hinside] at h
    rcases hstop with ⟨y, e, hnext⟩ | ⟨t, e, hnext, hend⟩
    · rw [tokens_of_error hnext] at h
      obtain ⟨rfl, rfl⟩ := EStateM.Result.error.inj h
      exact ⟨tiles, rest, rfl, hlaid, hinside, nextToken_eq_error_iff.1 ⟨e, hnext⟩⟩
    · rw [tokens_of_end hnext hend] at h
      cases h
  · rintro ⟨tiles, rest, rfl, hlaid, hinside, hunclosed⟩
    obtain ⟨d, hnext⟩ := nextToken_eq_error_iff.2 hunclosed
    rw [tokens_of_laid hlaid hinside, tokens_of_error hnext]
    exact ⟨d, rfl⟩

/-! ## The tiling -/

theorem gapText_of_blank (h : Lexeme .blank lexeme behind) :
    (∃ first others, lexeme = first :: others ∧ GapText Text.isBlank (lexeme ++ behind) behind) ∧
      NoGap Text.isBlank behind := by
  cases h with
  | blank space run ends => exact ⟨⟨_, _, rfl, .blank space run⟩, ends⟩
  | mark hmark =>
    unfold TokenKind.ofMark? at hmark
    split at hmark <;> simp at hmark

/-- Behind a blank there is no gap left for a second one to begin with. -/
theorem ne_blank_of_fits {tile other : Tile} (h : tile.Fits (other.text ++ behind))
    (hblank : tile.token.kind = .blank) (hother : other.Fits behind) :
    other.token.kind ≠ .blank := by
  intro hblank'
  obtain ⟨-, hends⟩ := gapText_of_blank (hblank ▸ h.lexeme)
  obtain ⟨⟨first, others, hfirst, hgap⟩, -⟩ := gapText_of_blank (hblank' ▸ hother.lexeme)
  have hnil : other.text ++ behind = behind :=
    hends.eq_of_gapText ((hother.comments.mono (by simp)).trans hgap)
  have hlength := congrArg List.length hnil
  rw [Tile.text, hfirst] at hlength
  simp only [List.length_append, List.length_cons] at hlength
  omega

theorem isChain_of_laid (h : Laid front tiles rest) :
    (tiles.map Tile.token).IsChain fun t u => ¬ (t.kind = .blank ∧ u.kind = .blank) := by
  induction h with
  | nothing => exact .nil
  | @tile front rest tile tiles fits place behind ih =>
    cases behind with
    | nothing => exact .singleton _
    | @tile _ _ other more fits' =>
      refine .cons_cons ?_ ih
      rintro ⟨hblank, hblank'⟩
      rw [List.flatMap_cons, List.append_assoc] at fits
      exact ne_blank_of_fits fits hblank fits' hblank'

/-- **Tokens tile the text.** All tokens of a text are read exactly if tiles lie on all of it, of
which the last one and no other is the end of the text: each tile is comments and the lexeme of its
token, and the token stands at the place of the first character of its lexeme. No two blanks follow
each other. The tokens cannot be read exactly if the tiles lead to a comment or a quoted text that
is never closed, and then its opening is reported. -/
theorem tokens_tile {text : String} :
    (∀ ts, (∃ d, tokens (.ofText text) = .ok ts d) ↔
      ∃ tiles last, text.toList = (tiles ++ [last]).flatMap Tile.text ∧
        Laid [] (tiles ++ [last]) [] ∧ (∀ tile ∈ tiles, tile.token.kind ≠ .endOfText) ∧
        last.token.kind = .endOfText ∧ ts = (tiles ++ [last]).map Tile.token ∧
        ts.IsChain fun t u => ¬ (t.kind = .blank ∧ u.kind = .blank)) ∧
    ∀ x, (∃ d, tokens (.ofText text) = .error x d) ↔
      ∃ tiles rest, text.toList = tiles.flatMap Tile.text ++ rest ∧ Laid [] tiles rest ∧
        (∀ tile ∈ tiles, tile.token.kind ≠ .endOfText) ∧
        Unclosed (tiles.flatMap Tile.text) rest x := by
  rw [show Cursor.ofText text = .behind [] text.toList from rfl]
  refine ⟨fun ts => ?_, fun x => tokens_eq_error_iff⟩
  rw [tokens_eq_ok_iff]
  constructor
  · rintro ⟨tiles, last, hwhole, hlaid, hinside, hend, rfl⟩
    exact ⟨tiles, last, hwhole, hlaid, hinside, hend, rfl, isChain_of_laid hlaid⟩
  · rintro ⟨tiles, last, hwhole, hlaid, hinside, hend, hts, -⟩
    exact ⟨tiles, last, hwhole, hlaid, hinside, hend, hts⟩

end Reading

end Songsheet
