import Songsheet.Proofs.Scanner
import Songsheet.Proofs.Token.Comment

/-!
# Scanning agrees with reading

A reading takes a whole run, gap or quoted text at once; a scan takes it one character at a time.
Where both begin at the same place of a text, they come to the same and end at the same place. So a
scan comes to nothing that a reading does not come to: it neither takes a character behind the end
nor goes on for ever.

* `Cursor.scanner` — the scanner that stands where a cursor stands.
* `Scan.Follows` — wherever it begins, a scan comes to what a reading comes to.
* `Scan.follows_repeatedly` — a loop follows a reading if each of its rounds does: the round is the
  last one, or what is read goes on behind it, with less text left.
* `Scan.follows_skipGap`, `Scan.follows_quotedText`, `Scan.follows_nextToken`,
  `Scan.follows_tokens`, `Scan.follows_note` — the scans follow the readings of the same names.
-/

namespace Songsheet

/-- The scanner that stands in a text where a cursor does. -/
def Cursor.scanner (text : List Char) (c : Cursor) : Scanner :=
  ⟨text, text.length - c.rest.length, c.position.line, c.position.column⟩

namespace Scan

variable {α β : Type} {text rest : List Char} {c d : Cursor} {x : Char}

/-! ## Scans that follow readings -/

/-- The outcome of a reading, told of scanners in a text. -/
def told (text : List Char) : EStateM.Result Diagnostic Cursor α → EStateM.Result Halt Scanner α
  | .ok a d => .ok a (d.scanner text)
  | .error x d => .error (.reported x) (d.scanner text)

/-- Wherever a cursor stands in a text, the scan comes to what the reading comes to. -/
def Follows (p : Scan α) (r : Reading α) : Prop :=
  ∀ (text : List Char) (c : Cursor), c.rest <:+ text → p (c.scanner text) = told text (r c)

theorem bind_apply (p : Scan α) (f : α → Scan β) (s : Scanner) :
    (p >>= f) s = match p s with
      | .ok a t => f a t
      | .error halt t => .error halt t := by
  simp only [bind, EStateM.bind]
  cases p s <;> rfl

theorem follows_pure (a : α) : Follows (pure a) (pure a) :=
  fun _ _ _ => rfl

theorem follows_fail (cause : Cause) (p : Position) :
    Follows (fail cause p : Scan α) (Reading.fail cause p) :=
  fun _ _ _ => rfl

theorem follows_position : Follows position Reading.position :=
  fun _ _ _ => rfl

/-- What follows a scan goes on where the reading stops. -/
theorem told_bind {p : Scan α} {r : Reading α} {f : α → Scan β} {g : α → Reading β}
    (hp : p (c.scanner text) = told text (r c))
    (hf : ∀ a d, r c = .ok a d → f a (d.scanner text) = told text (g a d)) :
    (p >>= f) (c.scanner text) = told text ((r >>= g) c) := by
  rw [bind_apply, Reading.bind_apply, hp]
  cases h : r c with
  | ok a d => exact hf a d h
  | error x d => rfl

theorem follows_bind {p : Scan α} {r : Reading α} {f : α → Scan β} {g : α → Reading β}
    (hp : Follows p r) (hr : r.Forward) (hf : ∀ a, Follows (f a) (g a)) :
    Follows (p >>= f) (r >>= g) :=
  fun text c hc => told_bind (hp text c hc) fun a d h => hf a text d ((hr.ok h).suffix.trans hc)

/-! ## Steps -/

theorem getElem?_scanner (hc : c.rest <:+ text) (k : Nat) :
    text[(c.scanner text).index + k]? = c.rest[k]? := by
  obtain ⟨front, rfl⟩ := hc
  have hindex : (c.scanner (front ++ c.rest)).index = front.length := by
    simp [Cursor.scanner]
  rw [hindex, List.getElem?_append_right (by omega), Nat.add_sub_cancel_left]

theorem peek?_scanner (hc : c.rest <:+ text) :
    peek? (c.scanner text) = .ok c.peek? (c.scanner text) := by
  have hfirst := getElem?_scanner hc 0
  rw [Nat.add_zero, ← List.head?_eq_getElem?] at hfirst
  exact congrArg (fun first => EStateM.Result.ok first (c.scanner text)) hfirst

theorem peekNext?_scanner (hc : c.rest <:+ text) :
    peekNext? (c.scanner text) = .ok c.rest[1]? (c.scanner text) :=
  congrArg (fun second => EStateM.Result.ok second (c.scanner text)) (getElem?_scanner hc 1)

theorem atEnd_scanner (hc : c.rest <:+ text) :
    atEnd (c.scanner text) = .ok c.rest.isEmpty (c.scanner text) := by
  have hlength := hc.length_le
  have hend : decide (text.length ≤ text.length - c.rest.length) = c.rest.isEmpty := by
    cases hrest : c.rest with
    | nil => simp
    | cons x rest =>
      rw [hrest, List.length_cons] at hlength
      simp
      omega
  exact congrArg (fun ends => EStateM.Result.ok ends (c.scanner text)) hend

/-- Where a character is next, it is taken. -/
theorem advance_scanner (hc : c.rest <:+ text) (hrest : c.rest = x :: rest) :
    advance (c.scanner text) = .ok x ((c.past [x] rest).scanner text) := by
  have hfirst := getElem?_scanner hc 0
  rw [Nat.add_zero, hrest, List.getElem?_cons_zero] at hfirst
  have hlength := hc.length_le
  rw [hrest, List.length_cons] at hlength
  have hpast : (c.scanner text).past x = (c.past [x] rest).scanner text := by
    unfold Scanner.past Cursor.scanner Cursor.past
    simp only [Position.after_cons, Position.after_nil, Position.next, hrest, List.length_cons]
    split <;> simp <;> omega
  unfold advance
  have hfirst' : (c.scanner text).text[(c.scanner text).index]? = some x := hfirst
  rw [hfirst']
  exact congrArg (EStateM.Result.ok x) hpast

/-! ## Loops -/

/-- What one round of a loop may come to, if the whole loop is to follow a family of readings, one
for each value that may have been gathered. -/
inductive RoundFollows (text : List Char) (reads : β → Reading α) (gathered : β) (c : Cursor) :
    EStateM.Result Halt Scanner (Round β α) → Prop
  | done {a : α} {d : Cursor} (h : reads gathered c = .ok a d) :
      RoundFollows text reads gathered c (.ok (.done a) (d.scanner text))
  | failed {x : Diagnostic} {d : Cursor} (h : reads gathered c = .error x d) :
      RoundFollows text reads gathered c (.error (.reported x) (d.scanner text))
  | again {more : β} {d : Cursor} (suffix : d.rest <:+ c.rest)
      (less : d.rest.length < c.rest.length) (h : reads gathered c = reads more d) :
      RoundFollows text reads gathered c (.ok (.again more) (d.scanner text))

theorem left_scanner (hc : c.rest <:+ text) : (c.scanner text).left = c.rest.length := by
  have hlength := hc.length_le
  simp only [Scanner.left, Cursor.scanner]
  omega

/-- A loop follows what its rounds follow. -/
theorem follows_repeatedly {round : β → Scan (Round β α)} (reads : β → Reading α)
    (h : ∀ text gathered c, c.rest <:+ text →
      RoundFollows text reads gathered c (round gathered (c.scanner text))) (gathered : β) :
    Follows (repeatedly round gathered) (reads gathered) := by
  intro text c hc
  -- a round that is not the last one leaves less text, so it is not the one that goes on for ever
  induction hlength : c.rest.length using Nat.strongRecOn generalizing c gathered with
  | ind length ih =>
    rw [repeatedly]
    have hround := h text gathered c hc
    revert hround
    generalize round gathered (c.scanner text) = outcome
    intro hround
    cases hround with
    | done hread => rw [hread]; rfl
    | failed hread => rw [hread]; rfl
    | @again more d suffix less hread =>
      have hd : d.rest <:+ text := suffix.trans hc
      have hless : (d.scanner text).left < (c.scanner text).left := by
        rw [left_scanner hd, left_scanner hc]
        exact less
      dsimp only
      rw [if_pos hless, hread]
      exact ih d.rest.length (hlength ▸ less) more d hd rfl

/-! ## Runs of characters -/

theorem push_append_ofList (gathered : String) (x : Char) (l : List Char) :
    gathered.push x ++ String.ofList l = gathered ++ String.ofList (x :: l) :=
  String.toList_inj.1 (by simp)

/-- What a run comes to behind what has been gathered before it. -/
def runBehind (within : Char → Bool) (gathered : String) : Reading String := fun c =>
  .ok (gathered ++ String.ofList (c.rest.takeWhile within))
    (c.past (c.rest.takeWhile within) (c.rest.dropWhile within))

theorem follows_takeWhile (within : Char → Bool) (gathered : String) :
    Follows (takeWhile within gathered) (runBehind within gathered) := by
  refine follows_repeatedly (runBehind within) (fun text gathered c hc => ?_) gathered
  obtain ⟨rest, position⟩ := c
  rw [bind_apply, peek?_scanner hc]
  cases rest with
  | nil => exact .done (by simp [runBehind, Cursor.past])
  | cons x rest =>
    show RoundFollows _ _ _ _ ((if within x then _ else _ : Scan _) _)
    by_cases hx : within x
    · rw [if_pos hx, bind_apply, advance_scanner hc rfl]
      refine .again (List.suffix_cons x rest) (Nat.lt_succ_self _) ?_
      simp [runBehind, Cursor.past, hx, push_append_ofList]
    · rw [if_neg hx]
      exact .done (by simp [runBehind, Cursor.past, hx])

theorem follows_run (within : Char → Bool) :
    Follows (takeWhile within "") (Reading.run within) := by
  have hempty : runBehind within "" = Reading.run within := by
    funext c
    simp [runBehind, Reading.run]
  rw [← hempty]
  exact follows_takeWhile within ""

/-- What is read through a closing character, behind what has been gathered before it. -/
def throughBehind (close : Char) (gathered : String) : Reading (Option String) := do
  return (← Reading.through close).map (gathered ++ ·)

theorem follows_through (close : Char) : Follows (through close) (Reading.through close) := by
  have hempty : throughBehind close "" = Reading.through close := by
    simp [throughBehind]
  rw [← hempty]
  refine follows_repeatedly (throughBehind close) (fun text gathered c hc => ?_) ""
  obtain ⟨rest, position⟩ := c
  rw [bind_apply, peek?_scanner hc]
  cases rest with
  | nil => exact .done rfl
  | cons x rest =>
    show RoundFollows _ _ _ _ ((advance >>= _ : Scan _) _)
    rw [bind_apply, advance_scanner hc rfl]
    dsimp only
    by_cases hx : x = close
    · rw [if_pos hx]
      refine .done ?_
      rw [throughBehind, Reading.bind_apply]
      simp only [Reading.through, hx, bne_self_eq_false, List.takeWhile_cons, List.dropWhile_cons]
      simp [pure, EStateM.pure, Cursor.past]
    · rw [if_neg hx]
      refine .again (List.suffix_cons x rest) (Nat.lt_succ_self _) ?_
      rw [throughBehind, throughBehind, Reading.bind_apply, Reading.bind_apply]
      have hx : (x != close) = true := bne_iff_ne.2 hx
      cases hdrop : rest.dropWhile (· != close) with
      | nil => simp [Reading.through, Cursor.past, hx, hdrop, pure, EStateM.pure]
      | cons y tail =>
        simp [Reading.through, Cursor.past, hx, hdrop, push_append_ofList, pure, EStateM.pure]

/-! ## Gaps -/

/-- What is read of a block comment behind its opening. -/
def commentEnd (opening : Position) : Reading Unit := fun c =>
  match closeComment? c.rest with
  | some (body, rest) => .ok () (c.past body rest)
  | none => .error (Cause.unterminatedComment.reportedAt opening) (c.past c.rest [])

theorem follows_closeComment (opening : Position) :
    Follows (closeComment opening) (commentEnd opening) := by
  refine follows_repeatedly (fun _ => commentEnd opening) (fun text _ c hc => ?_) ()
  obtain ⟨rest, position⟩ := c
  rw [bind_apply, atEnd_scanner hc]
  cases rest with
  | nil => exact .failed (by simp [commentEnd, closeComment?, Cursor.past])
  | cons x rest =>
    show RoundFollows _ _ _ _ ((peek? >>= _ : Scan _) _)
    rw [bind_apply, peek?_scanner hc]
    dsimp only
    rw [bind_apply, peekNext?_scanner hc]
    dsimp only
    by_cases hclose : x = '*' ∧ rest.head? = some '/'
    · obtain ⟨rfl, hslash⟩ := hclose
      obtain ⟨tail, rfl⟩ := List.head?_eq_some_iff.1 hslash
      rw [if_pos ⟨rfl, rfl⟩, bind_apply, advance_scanner hc rfl]
      dsimp only
      rw [bind_apply, advance_scanner ((List.suffix_cons _ _).trans hc) rfl]
      exact .done (by simp [commentEnd, closeComment?, Cursor.past])
    · have hopen : ∀ tail, x = '*' → rest = '/' :: tail → False := by
        rintro tail rfl rfl
        exact hclose ⟨rfl, rfl⟩
      rw [if_neg (by simpa [Cursor.peek?, ← List.head?_eq_getElem?] using hclose), bind_apply,
        advance_scanner hc rfl]
      refine .again (List.suffix_cons x rest) (Nat.lt_succ_self _) ?_
      cases hbehind : closeComment? rest with
      | none => simp [commentEnd, closeComment?_cons hopen, Cursor.past, hbehind]
      | some found => simp [commentEnd, closeComment?_cons hopen, Cursor.past, hbehind]

theorem skip_of_noGap {blank : Char → Bool} (hgap : gapAt blank c.rest = .upTo [] c.rest) :
    Reading.skip blank c = .ok () c :=
  Reading.skip_eq_ok.2 ⟨[], c.rest, hgap, rfl⟩

theorem commentFrom_of_ne {second : Option Char} (hline : second ≠ some '/')
    (hblock : second ≠ some '*') : commentFrom second = pure (.done ()) := by
  unfold commentFrom
  split
  · exact absurd rfl hline
  · exact absurd rfl hblock
  · rfl

/-- A line comment is a round of skipping comments. -/
theorem roundFollows_line {body : List Char} (hc : c.rest <:+ text)
    (hrest : c.rest = '/' :: '/' :: body) :
    RoundFollows text (fun _ => Reading.skipComments) () c
      (commentFrom (some '/') (c.scanner text)) := by
  show RoundFollows _ _ _ _ ((takeWhile _ "" >>= _ : Scan _) _)
  rw [bind_apply, follows_run _ text c hc]
  refine .again (List.dropWhile_suffix _) ?_ (Reading.skip_behind ?_)
  · have hless := length_dropWhile_le (· != '\n') body
    simp [Cursor.past, hrest]
    omega
  · rw [hrest, gapAt]
    rfl

/-- A block comment is a round of skipping comments; where it is never closed, they fail with it. -/
theorem roundFollows_block {body : List Char} (hc : c.rest <:+ text)
    (hrest : c.rest = '/' :: '*' :: body) :
    RoundFollows text (fun _ => Reading.skipComments) () c
      (commentFrom (some '*') (c.scanner text)) := by
  have hbody : body <:+ c.rest := hrest ▸ List.suffix_append ['/', '*'] body
  show RoundFollows _ _ _ _ ((position >>= _ : Scan _) _)
  rw [bind_apply, follows_position text c hc]
  show RoundFollows _ _ _ _ ((advance >>= _ : Scan _) _)
  rw [bind_apply, advance_scanner hc hrest]
  dsimp only
  rw [bind_apply, advance_scanner ((List.suffix_cons _ _).trans (hrest ▸ hc)) rfl]
  dsimp only
  rw [bind_apply, follows_closeComment _ _ _ (hbody.trans hc)]
  cases hclose : closeComment? body with
  | none =>
    have hend : commentEnd c.position ((c.past ['/'] ('*' :: body)).past ['*'] body) =
        .error (Cause.unterminatedComment.reportedAt c.position) (c.past c.rest []) := by
      simp [commentEnd, Cursor.past, hclose, hrest]
    rw [hend]
    exact .failed (Reading.skip_eq_error.2 ⟨[], c.rest, hrest ▸ gapAt_openBlock hclose, rfl, rfl⟩)
  | some found =>
    obtain ⟨inside, behind⟩ := found
    have hend : commentEnd c.position ((c.past ['/'] ('*' :: body)).past ['*'] body) =
        .ok () (c.past ('/' :: '*' :: inside) behind) := by
      simp [commentEnd, Cursor.past, hclose]
    have hbehind : behind <:+ body := ⟨inside, append_of_closeComment? hclose⟩
    rw [hend]
    refine .again (hbehind.trans hbody) ?_ (Reading.skip_behind (hrest ▸ gapAt_block hclose))
    have hless := hbehind.length_le
    simp [Cursor.past, hrest]
    omega

/-- What is scanned behind a slash is a round of skipping comments. -/
theorem roundFollows_commentFrom (hc : c.rest <:+ text) (hrest : c.rest = '/' :: rest) :
    RoundFollows text (fun _ => Reading.skipComments) () c
      (commentFrom rest.head? (c.scanner text)) := by
  by_cases hline : rest.head? = some '/'
  · obtain ⟨body, rfl⟩ := List.head?_eq_some_iff.1 hline
    exact roundFollows_line hc hrest
  by_cases hblock : rest.head? = some '*'
  · obtain ⟨body, rfl⟩ := List.head?_eq_some_iff.1 hblock
    exact roundFollows_block hc hrest
  · rw [commentFrom_of_ne hline hblock]
    refine .done (skip_of_noGap (hrest ▸ (gapAt_slash rfl).2 fun x hx => ?_))
    exact ⟨fun h => hline (h ▸ hx), fun h => hblock (h ▸ hx)⟩

theorem follows_skipComments : Follows skipComments Reading.skipComments := by
  refine follows_repeatedly (fun _ => Reading.skipComments) (fun text _ c hc => ?_) ()
  rw [bind_apply, peek?_scanner hc]
  dsimp only
  by_cases hslash : c.peek? = some '/'
  · obtain ⟨rest, hrest⟩ := List.head?_eq_some_iff.1 hslash
    rw [if_pos hslash, bind_apply, peekNext?_scanner hc]
    dsimp only
    rw [hrest, List.getElem?_cons_succ, ← List.head?_eq_getElem?]
    exact roundFollows_commentFrom hc hrest
  · rw [if_neg hslash]
    refine .done (skip_of_noGap (gapAt_of_head fun x hx => ⟨rfl, ?_⟩))
    rintro rfl
    exact hslash hx

/-- A comment that is not closed is found with or without the blanks. -/
theorem skipGap_of_error {x : Diagnostic} (h : Reading.skipComments c = .error x d) :
    Reading.skipGap c = .error x d := by
  obtain ⟨before, comment, hgap, hx, hd⟩ := Reading.skip_eq_error.1 h
  obtain ⟨hwhole, htext, hopened⟩ := (gapAt_eq_unclosed rfl).1 hgap
  exact Reading.skip_eq_error.2 ⟨before, comment,
    (gapAt_eq_unclosed Text.isBlank_slash).2 ⟨hwhole, htext.mono (by simp), hopened⟩, hx, hd⟩

/-- Behind comments the gap goes on. -/
theorem skipGap_of_comments (h : Reading.skipComments c = .ok () d) :
    Reading.skipGap c = Reading.skipGap d ∧ gapAt (fun _ => false) d.rest = .upTo [] d.rest := by
  obtain ⟨comments, rest, hgap, rfl⟩ := Reading.skip_eq_ok.1 h
  refine ⟨Reading.skip_behind ?_, gapAt_rest hgap⟩
  rw [append_of_gapAt hgap]
  exact gapAt_append (fun _ hx => absurd hx (by simp)) Text.isBlank_slash hgap id

theorem follows_skipGap : Follows skipGap Reading.skipGap := by
  refine follows_repeatedly (fun _ => Reading.skipGap) (fun text _ c hc => ?_) ()
  rw [bind_apply, follows_skipComments text c hc]
  cases hcomments : Reading.skipComments c with
  | error x d => exact .failed (skipGap_of_error hcomments)
  | ok u d =>
    obtain ⟨hsame, hstop⟩ := skipGap_of_comments hcomments
    have hsuffix := (Reading.forward_skipComments.ok hcomments).suffix
    show RoundFollows _ _ _ _ ((peek? >>= _ : Scan _) _)
    rw [bind_apply, peek?_scanner (hsuffix.trans hc)]
    obtain ⟨rest, position⟩ := d
    cases rest with
    | nil => exact .done (hsame.trans (skip_of_noGap (gapAt_of_head (by simp))))
    | cons x rest =>
      show RoundFollows _ _ _ _ ((if Text.isBlank x then _ else _ : Scan _) _)
      by_cases hx : Text.isBlank x
      · rw [if_pos hx, bind_apply, advance_scanner (hsuffix.trans hc) rfl]
        refine .again ((List.suffix_cons x rest).trans hsuffix) hsuffix.length_le
          (hsame.trans (Reading.skip_behind ?_))
        exact gapAt_cons_of_blank hx (Text.ne_slash_of_isBlank hx) rest
      · rw [if_neg hx]
        exact .done (hsame.trans (skip_of_noGap (gapAt_of_noComment hstop (by simpa using hx))))

/-! ## Quoted texts -/

/-- What is read of a quoted text behind its opening mark and what has been gathered before. -/
def quoteEnd (opening : Position) (gathered : String) : Reading String := fun c =>
  match unquoted? c.rest with
  | some (text, rest) => .ok (gathered ++ String.ofList text) (c.past (quoted text) rest)
  | none => .error (Cause.unterminatedQuote.reportedAt opening) (c.past c.rest [])

theorem follows_closeQuote (opening : Position) (gathered : String) :
    Follows (closeQuote opening gathered) (quoteEnd opening gathered) := by
  refine follows_repeatedly (quoteEnd opening) (fun text gathered c hc => ?_) gathered
  obtain ⟨rest, position⟩ := c
  rw [bind_apply, peek?_scanner hc]
  cases rest with
  | nil => exact .failed (by simp [quoteEnd, unquoted?, Cursor.past])
  | cons x rest =>
    show RoundFollows _ _ _ _ ((if x = '"' then _ else _ : Scan _) _)
    have hrest : rest <:+ text := (List.suffix_cons x rest).trans hc
    by_cases hx : x = '"'
    · subst hx
      rw [if_pos rfl, bind_apply, advance_scanner hc rfl]
      dsimp only
      rw [bind_apply, peek?_scanner hrest]
      -- the mark has closed the text unless another one follows, which then belongs to it
      show RoundFollows _ _ _ _ ((if rest.head? = some '"' then _ else _ : Scan _) _)
      by_cases hquote : rest.head? = some '"'
      · obtain ⟨form, rfl⟩ := List.head?_eq_some_iff.1 hquote
        rw [if_pos hquote, bind_apply, advance_scanner hrest rfl]
        refine .again (List.suffix_append ['"', '"'] form) (Nat.lt_add_of_pos_right Nat.two_pos) ?_
        cases hread : unquoted? form with
        | none => simp [quoteEnd, unquoted?, hread, Cursor.past]
        | some found => simp [quoteEnd, unquoted?, hread, Cursor.past, quoted, push_append_ofList]
      · rw [if_neg hquote]
        have hread : unquoted? ('"' :: rest) = some ([], rest) := unquoted?_quoted [] rest hquote
        exact .done (by simp [quoteEnd, hread, quoted, Cursor.past])
    · rw [if_neg hx, bind_apply, advance_scanner hc rfl]
      refine .again (List.suffix_cons x rest) (Nat.lt_succ_self _) ?_
      cases hread : unquoted? rest with
      | none => simp [quoteEnd, unquoted?, hx, hread, Cursor.past]
      | some found => simp [quoteEnd, unquoted?, hx, hread, Cursor.past, quoted, push_append_ofList]

theorem follows_quotedText : Follows quotedText Reading.quotedText := by
  intro text c hc
  show (position >>= _ : Scan _) _ = _
  rw [bind_apply, follows_position text c hc]
  show (peek? >>= _ : Scan _) _ = _
  rw [bind_apply, peek?_scanner hc]
  dsimp only
  by_cases hquote : c.peek? = some '"'
  · obtain ⟨form, hrest⟩ := List.head?_eq_some_iff.1 hquote
    have hform : form <:+ text := (List.suffix_cons _ _).trans (hrest ▸ hc)
    rw [if_pos hquote, bind_apply, advance_scanner hc hrest]
    dsimp only
    rw [follows_closeQuote _ _ text _ hform]
    cases hread : unquoted? form with
    | none => simp [quoteEnd, Reading.quotedText, hrest, hread, Cursor.past]
    | some found => simp [quoteEnd, Reading.quotedText, hrest, hread, Cursor.past]
  · have hread : Reading.quotedText c =
        .error ((Cause.expectedQuote c.peek?).reportedAt c.position) c := by
      unfold Reading.quotedText
      split
      · rename_i form hrest
        exact absurd (by rw [Cursor.peek?, hrest]; rfl) hquote
      · rfl
    rw [if_neg hquote, bind_apply, peek?_scanner hc, hread]
    rfl

/-! ## Tokens -/

theorem follows_kindFrom {first : Char} (hc : c.rest <:+ text) (hfirst : c.peek? = some first) :
    kindFrom first (c.scanner text) = told text (Reading.kindFrom first c) := by
  obtain ⟨others, hrest⟩ := List.head?_eq_some_iff.1 hfirst
  have hdrop : Reading.drop c = .ok () (c.past [first] others) := by
    simp [Reading.drop, hrest]
  unfold kindFrom Reading.kindFrom
  by_cases hblank : Text.isBlank first
  · rw [if_pos hblank, if_pos hblank]
    exact follows_bind follows_skipGap Reading.forward_skipGap (fun _ => follows_pure _) text c hc
  rw [if_neg hblank, if_neg hblank]
  by_cases hdigit : first.isDigit
  · rw [if_pos hdigit, if_pos hdigit]
    exact follows_bind (follows_run _) Reading.forward_digits (fun _ => follows_pure _) text c hc
  rw [if_neg hdigit, if_neg hdigit]
  by_cases hquote : first = '"'
  · rw [if_pos hquote, if_pos hquote]
    exact follows_bind follows_quotedText Reading.forward_quotedText (fun _ => follows_pure _)
      text c hc
  rw [if_neg hquote, if_neg hquote]
  cases TokenKind.ofMark? first with
  | some kind =>
    dsimp only
    rw [bind_apply, Reading.bind_apply, advance_scanner hc hrest, hdrop]
    rfl
  | none =>
    dsimp only
    by_cases hcontrol : Text.isControl first
    · rw [if_pos hcontrol, if_pos hcontrol, bind_apply, Reading.bind_apply,
        advance_scanner hc hrest, hdrop]
      rfl
    · have hkey : Reading.key c = runBehind isKeyChar ("".push first) (c.past [first] others) := by
        simp [Reading.key, runBehind, hrest, Cursor.past]
      have hothers : others <:+ text := (List.suffix_cons _ _).trans (hrest ▸ hc)
      rw [if_neg hcontrol, if_neg hcontrol, bind_apply, Reading.bind_apply,
        advance_scanner hc hrest]
      dsimp only
      rw [bind_apply, follows_takeWhile _ _ text _ hothers, hkey]
      rfl

theorem follows_nextToken : Follows nextToken Reading.nextToken := by
  refine follows_bind follows_skipComments Reading.forward_skipComments fun _ =>
    follows_bind follows_position Reading.forward_position fun start => ?_
  intro text c hc
  rw [bind_apply, Reading.bind_apply, peek?_scanner hc, Reading.peek?]
  dsimp only
  cases hfirst : c.peek? with
  | none => rfl
  | some first => exact told_bind (follows_kindFrom hc hfirst) fun _ _ _ => rfl

/-- What is read of all tokens behind those that have been gathered. -/
def tokensBehind (gathered : List Token) : Reading (List Token) := do
  return gathered ++ (← Reading.tokens)

theorem follows_tokens : Follows tokens Reading.tokens := by
  have hempty : tokensBehind [] = Reading.tokens := by
    simp [tokensBehind]
  rw [← hempty]
  refine follows_repeatedly tokensBehind (fun text gathered c hc => ?_) []
  rw [bind_apply, follows_nextToken text c hc]
  cases hnext : Reading.nextToken c with
  | error x d =>
    refine .failed ?_
    rw [tokensBehind, Reading.bind_apply, Reading.tokens_of_error hnext]
  | ok t d =>
    show RoundFollows _ _ _ _ ((if t.kind = .endOfText then _ else _ : Scan _) _)
    by_cases hend : t.kind = .endOfText
    · rw [if_pos hend]
      refine .done ?_
      rw [tokensBehind, Reading.bind_apply, Reading.tokens_of_end hnext hend]
      rfl
    · rw [if_neg hend]
      refine .again (Reading.forward_nextToken.ok hnext).suffix
        (Reading.length_of_nextToken hnext hend) ?_
      rw [tokensBehind, tokensBehind, Reading.bind_apply, Reading.bind_apply,
        Reading.tokens_of_nextToken hnext hend]
      cases Reading.tokens d with
      | ok ts e => simp [pure, EStateM.pure]
      | error x e => rfl

/-! ## Notes -/

theorem follows_lengthPart (part : LengthPart) :
    Follows (lengthPart part) (Reading.lengthPart part) := by
  refine follows_bind follows_nextToken Reading.forward_nextToken fun token => ?_
  cases token.kind with
  | number digits =>
    dsimp only
    cases Text.decimalBelow? UInt32.size digits with
    | some n => exact follows_pure n
    | none => exact follows_fail _ _
  | _ => exact follows_fail _ _

theorem follows_mark (expected : TokenKind) : Follows (mark expected) (Reading.mark expected) := by
  refine follows_bind follows_nextToken Reading.forward_nextToken fun token => ?_
  split
  · exact follows_pure ()
  · exact follows_fail _ _

theorem follows_durationClause (start : Position) :
    Follows (durationClause start) (Reading.durationClause start) := by
  refine follows_bind (follows_lengthPart _) (Reading.forward_lengthPart _) fun num =>
    follows_bind (follows_mark _) (Reading.forward_mark _) fun _ =>
    follows_bind (follows_lengthPart _) (Reading.forward_lengthPart _) fun den =>
    follows_bind (follows_mark _) (Reading.forward_mark _) fun _ => ?_
  cases Duration.ofRatio num den with
  | ok duration => exact follows_pure duration
  | error fault => exact follows_fail _ _

theorem follows_octaveAt (token : Token) :
    Follows (octaveAt token) (Reading.octaveAt token) := by
  unfold octaveAt Reading.octaveAt
  cases token.kind with
  | number digits =>
    dsimp only
    cases Text.decimalBelow? UInt8.size digits with
    | some n =>
      exact follows_bind follows_nextToken Reading.forward_nextToken fun _ => follows_pure _
    | none => exact follows_fail _ _
  | _ => exact follows_pure _

theorem follows_durationAt (token : Token) :
    Follows (durationAt token) (Reading.durationAt token) := by
  unfold durationAt Reading.durationAt
  cases token.kind with
  | openBracket =>
    exact follows_bind (follows_durationClause _) (Reading.forward_durationClause _) fun _ =>
      follows_bind follows_nextToken Reading.forward_nextToken fun _ => follows_pure _
  | _ => exact follows_pure _

theorem follows_noteEnd (token : Token) : Follows (noteEnd token) (Reading.noteEnd token) := by
  unfold noteEnd Reading.noteEnd
  cases token.kind with
  | blank => exact follows_pure ()
  | endOfText => exact follows_pure ()
  | _ => exact follows_fail _ _

theorem follows_noteTail (pitch : Pitch) : Follows (noteTail pitch) (Reading.noteTail pitch) :=
  follows_bind follows_nextToken Reading.forward_nextToken fun first =>
    follows_bind (follows_octaveAt first) (Reading.forward_octaveAt _) fun _ =>
    follows_bind (follows_durationAt _) (Reading.forward_durationAt _) fun _ =>
    follows_bind (follows_noteEnd _) (Reading.forward_noteEnd _) fun _ => follows_pure _

/-- Where neither a comment nor a blank begins, no gap begins. -/
theorem gapAt_of_notBlankFirst (hstop : gapAt (fun _ => false) rest = .upTo [] rest)
    (hblank : ¬ BlankFirst rest) : gapAt Text.isBlank rest = .upTo [] rest := by
  cases rest with
  | nil => exact gapAt_of_head (by simp)
  | cons x rest =>
    exact gapAt_of_noComment hstop (Bool.eq_false_iff.2 fun hx => hblank ⟨x, rest, rfl, hx⟩)

/-- What is read of the first token that is no blank. -/
def firstRead : Reading Token := do
  Reading.skipGap
  Reading.nextToken

theorem forward_firstRead : firstRead.Forward :=
  Reading.forward_bind Reading.forward_skipGap fun _ => Reading.forward_nextToken

theorem firstRead_of_noGap (h : gapAt Text.isBlank c.rest = .upTo [] c.rest) :
    firstRead c = Reading.nextToken c := by
  have hskip : Reading.skipGap c = .ok () c := skip_of_noGap h
  rw [firstRead, Reading.bind_apply, hskip]

/-- Comments in front of the first token change nothing, whether or not it is a blank. -/
theorem firstRead_of_comments (h : Reading.skipComments c = .ok () d) :
    firstRead c = firstRead d ∧ Reading.nextToken c = Reading.nextToken d := by
  obtain ⟨hsame, hstop⟩ := skipGap_of_comments h
  have hnone : Reading.skipComments d = .ok () d := skip_of_noGap hstop
  constructor
  · rw [firstRead, Reading.bind_apply, Reading.bind_apply, hsame]
  · rw [Reading.nextToken_apply, Reading.nextToken_apply, h, hnone]

/-- A token is the first one that is no blank, or it is a blank in front of that one. -/
theorem firstRead_apply (c : Cursor) :
    firstRead c = match Reading.nextToken c with
      | .error x d => .error x d
      | .ok t d => if t.kind = .blank then firstRead d else .ok t d := by
  cases hcomments : Reading.skipComments c with
  | error x d =>
    rw [firstRead, Reading.bind_apply, skipGap_of_error hcomments,
      Reading.nextToken_eq_error.2 (.inl hcomments)]
  | ok u e =>
    obtain ⟨hfirst, hnext⟩ := firstRead_of_comments hcomments
    have hstop := (skipGap_of_comments hcomments).2
    rw [hfirst, hnext]
    by_cases hblank : BlankFirst e.rest
    · -- the blank is the gap, and behind it there is no other
      rw [Reading.nextToken_of_blankFirst hblank, Reading.bind_apply]
      cases hskip : Reading.skipGap e with
      | error x d => rw [firstRead, Reading.bind_apply, hskip]
      | ok u d =>
        obtain ⟨skipped, rest, hgap, rfl⟩ := Reading.skip_eq_ok.1 hskip
        rw [firstRead, Reading.bind_apply, hskip]
        exact (firstRead_of_noGap (gapAt_rest hgap)).symm
    · rw [firstRead_of_noGap (gapAt_of_notBlankFirst hstop hblank)]
      cases htoken : Reading.nextToken e with
      | error x d => rfl
      | ok t d =>
        refine (if_neg fun ht => ?_).symm
        obtain ⟨comments, first, blanks, hfirst, hgap, -⟩ := Reading.nextToken_eq_blank htoken ht
        rw [hstop, Gap.upTo.injEq] at hgap
        exact hblank ⟨first, _, hgap.2, hfirst⟩

theorem follows_firstToken : Follows firstToken firstRead := by
  refine follows_repeatedly (fun _ => firstRead) (fun text _ c hc => ?_) ()
  have hread := firstRead_apply c
  rw [bind_apply, follows_nextToken text c hc]
  cases hnext : Reading.nextToken c with
  | error x d => exact .failed (by rw [hread, hnext])
  | ok t d =>
    rw [hnext] at hread
    show RoundFollows _ _ _ _ ((if t.kind = .blank then _ else _ : Scan _) _)
    by_cases hblank : t.kind = .blank
    · rw [if_pos hblank]
      exact .again (Reading.forward_nextToken.ok hnext).suffix
        (Reading.length_of_nextToken hnext (by simp [hblank])) (hread.trans (if_pos hblank))
    · rw [if_neg hblank]
      exact .done (hread.trans (if_neg hblank))

theorem follows_note (previous : Note) : Follows (note previous) (Reading.note previous) := by
  have hwritten : Reading.writtenNote = firstRead >>= Reading.noteFrom := by
    simp only [Reading.writtenNote, firstRead, bind_assoc]
  unfold Reading.note
  rw [hwritten, bind_assoc]
  refine follows_bind follows_firstToken forward_firstRead fun token => ?_
  unfold Reading.noteFrom
  cases token.kind with
  | endOfText => exact follows_pure _
  | key spelling =>
    dsimp only
    simp only [bind_assoc, pure_bind]
    exact follows_bind (follows_noteTail _) (Reading.forward_noteTail _) fun _ => follows_pure _
  | _ => exact follows_fail _ _

end Scan

end Songsheet
