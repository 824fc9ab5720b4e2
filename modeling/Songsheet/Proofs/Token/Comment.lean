import Songsheet.Proofs.Reading.Crossing
import Songsheet.Proofs.Token.Tiling

/-!
# Comments among tokens

A block comment may be put anywhere between two tokens without changing what is read: in front of a
token it is skipped, a gap goes on with it, and every other token stops in front of it. Only behind a
slash it would begin a line comment, and behind a gap at the end of the text it might stand in one.

* `blockComment`, `nextToken_behind` — a comment in front of a token is skipped.
* `CommentSite` — tokens lead to a place where a comment may be put.
* `Pairing.commented`, `commented_nextToken` — a text with a comment and the text without it are
  read token by token in pairs.
* `tokens_eq`, `Pairing.reads_tokens` — all tokens of a text are read in pairs where each of them is.
* `tokens_insert_comment` — the tokens of a text are those of the text with a comment.
-/

namespace Songsheet

/-- A block comment with the given text inside. -/
def blockComment (body : List Char) : List Char :=
  '/' :: '*' :: (body ++ ['*', '/'])

theorem commentsText_blockComment {body : List Char} (h : ¬ ['*', '/'] <:+: body)
    (text : List Char) : CommentsText (blockComment body ++ text) text := by
  have hblock : CommentsText ('/' :: '*' :: (body ++ '*' :: '/' :: text)) text := .block h .nothing
  simpa [blockComment] using hblock

namespace Reading

variable {b : Blur} {c c' d : Cursor} {t : Token} {kind : TokenKind}
  {front rest after back comment behind lexeme : List Char}

/-! ## Comments in front of a token -/

/-- Behind a part of a gap, the gap is skipped as it is from the start. -/
theorem skip_behind {blank : Char → Bool}
    (hgap : gapAt blank c.rest = (gapAt blank rest).behind front) :
    skip blank c = skip blank (c.past front rest) := by
  have hwhole : c.rest = front ++ rest := by
    rw [← Gap.whole_gapAt blank c.rest, hgap, Gap.whole_behind, Gap.whole_gapAt]
  have hrest : (c.past front rest).rest = rest := rfl
  unfold skip
  rw [hgap, hrest]
  cases gapAt blank rest with
  | upTo skipped rest' => simp [Gap.behind, Cursor.past]
  | unclosed before comment => simp [Gap.behind, Cursor.past, hwhole]

/-- Comments in front of a token are skipped. -/
theorem nextToken_behind (hcomments : CommentsText c.rest rest) :
    ∃ front, nextToken c = nextToken (c.past front rest) := by
  obtain ⟨front, hfront⟩ := hcomments.gapAt_eq (fun _ h => h) rfl
  refine ⟨front, ?_⟩
  rw [nextToken_apply, nextToken_apply, skipComments, skip_behind hfront]

/-! ## Lexemes in front of a comment -/

/-- A token whose lexeme fits in front of another text is read in front of it. -/
theorem nextToken_of_lexeme (h : nextToken c = .ok t d) (ht : t.kind ≠ .endOfText)
    (hc : c.rest = front ++ d.rest) (hc' : c'.rest = front ++ after)
    (hlexeme : ∀ lexeme, Lexeme t.kind lexeme d.rest → Lexeme t.kind lexeme after) :
    ∃ t' d', nextToken c' = .ok t' d' ∧ t'.kind = t.kind ∧ d'.rest = after := by
  obtain ⟨comments, e, hgap, -, -, ⟨-, hend, -⟩ | ⟨first, hfirst, hkind⟩⟩ := nextToken_eq_ok.1 h
  · exact absurd hend ht
  obtain ⟨lexeme, hne, hread, hrest, -⟩ := lexeme_of_kindRead hfirst
    (gapAt_eq_nil_iff.1 (gapAt_rest hgap)) (kindFrom_eq_ok.1 hkind)
  have hread' := hlexeme lexeme hread
  have hfront : front = comments ++ lexeme := by
    have hwhole := append_of_gapAt hgap
    rw [hrest, ← List.append_assoc, hc] at hwhole
    exact List.append_cancel_right hwhole
  have hgap' : gapAt (fun _ => false) c'.rest = .upTo comments (lexeme ++ after) := by
    rw [hc', hfront, List.append_assoc, gapAt_append (fun _ hx => hx) rfl hgap,
      gapAt_eq_nil_iff.2 (noGap_of_lexeme hread'), Gap.behind_upTo, List.append_nil]
    rw [hrest]
    exact (sameStart_of_ne_nil hne d.rest after).lineEnd
  obtain ⟨first', hfirst', hkind'⟩ := kindRead_of_lexeme
    (c := c'.past comments (lexeme ++ after))
    (d := (c'.past comments (lexeme ++ after)).past lexeme after) hne hread' rfl rfl
  exact ⟨_, _, nextToken_of_comments hgap' hfirst' (kindFrom_eq_ok.2 hkind'), rfl, rfl⟩

/-- A lexeme that is neither a gap nor a slash fits in front of a slash. -/
theorem lexeme_before_slash (h : Lexeme kind lexeme behind) (hgap : ¬ kind.IsGap)
    (hslash : kind ≠ .slash) : Lexeme kind lexeme ('/' :: after) := by
  cases h with
  | blank => exact absurd (.inl rfl) hgap
  | number digit run ends => exact .number digit run (by simp)
  | key text => exact .key (keyText_iff.2 ⟨(keyText_iff.1 text).1, by simp [isKeyChar_slash]⟩)
  | quoted ends => exact .quoted (by simp)
  | @mark x _ _ mark noComment =>
    refine .mark mark fun hx => ?_
    subst hx
    exact absurd (Option.some.inj mark).symm hslash
  | invalid control visible => exact .invalid control visible
  | endOfText => exact absurd (.inr rfl) hgap

/-- A token that begins with a slash is the slash. -/
theorem eq_slash_of_kindFrom (h : kindFrom '/' c = .ok kind d) : kind = .slash := by
  have hslash : TokenKind.ofMark? '/' = some .slash := rfl
  cases kindFrom_eq_ok.1 h with
  | blank space skips => exact absurd space (by decide)
  | number _ digit reads => exact absurd digit (by decide)
  | quoted quote reads => exact absurd quote (by decide)
  | mark mark takes => exact (Option.some.inj (hslash.symm.trans mark)).symm
  | invalid plain control takes => exact absurd (hslash.symm.trans plain.2) (by simp)
  | key plain control reads => exact absurd (hslash.symm.trans plain.2) (by simp)

/-! ## Where a comment may be put -/

/-- Tokens lead to a place where a comment may be put: the last of them is no slash, and no gap
either if nothing follows. -/
inductive CommentSite (back : List Char) : Cursor → Prop
  | here {c : Cursor} (rest : c.rest = back) : CommentSite back c
  | token {c d : Cursor} {t : Token} (reads : nextToken c = .ok t d)
      (closed : d.rest = back → t.kind ≠ .slash ∧ (back = [] → ¬ t.kind.IsGap))
      (behind : CommentSite back d) : CommentSite back c

namespace CommentSite

theorem suffix (h : CommentSite back c) : back <:+ c.rest := by
  induction h with
  | here rest => exact rest ▸ List.suffix_rfl
  | token reads closed behind ih => exact ih.trans (forward_nextToken.ok reads).suffix

/-- No slash stands alone in front of the comment. -/
theorem ne_slash (h : CommentSite back c) : c.rest ≠ '/' :: back := by
  intro hslash
  cases h with
  | here rest => simp [rest] at hslash
  | @token c d t reads closed behind =>
    have hback := behind.suffix
    obtain ⟨comments, e, hgap, -, -, ⟨hnil, hend, rfl⟩ | ⟨first, hfirst, hkind⟩⟩ :=
      nextToken_eq_ok.1 reads
    · -- at the end of the text a comment would stand behind a gap
      obtain rfl : back = [] := List.suffix_nil.1 (hnil ▸ hback)
      exact (closed hnil).2 rfl (.inr hend)
    · have he : e.rest <:+ c.rest := ⟨comments, (append_of_gapAt hgap).symm⟩
      have hless := consumes_kindFrom first e d t.kind hfirst hkind
      have hlength : c.rest.length = back.length + 1 := by rw [hslash, List.length_cons]
      have hlonger := hback.length_le
      have hshorter := he.length_le
      rw [Cursor.peek?, he.eq_of_length (by omega), hslash] at hfirst
      obtain rfl : '/' = first := Option.some.inj hfirst
      exact (closed (hback.eq_of_length (by omega)).symm).1 (eq_slash_of_kindFrom hkind)

end CommentSite

/-! ## Token by token -/

/-- A text and the same text with a comment, where tokens lead to the place of the comment, or behind
this place. -/
def Pairing.commented (comment back : List Char) : Pairing where
  blur := .blind
  pair := fun c c' => SameRest c c' ∨
    Abreast .blind back (comment ++ back) c c' ∧ CommentSite back c
  within := fun _ => True
  place := fun _ => rfl
  back := fun _ _ => trivial

/-- A token in front of which the two texts are the same, and behind which a comment may be put. -/
theorem nextToken_commented {body read front : List Char} (hbody : ¬ ['*', '/'] <:+: body)
    (h : nextToken c = .ok t d) (hc : c.rest = read ++ d.rest) (hd : d.rest = front ++ back)
    (hc' : c'.rest = read ++ (front ++ (blockComment body ++ back))) (hslash : front ≠ ['/'])
    (closed : d.rest = back → t.kind ≠ .slash ∧ (back = [] → ¬ t.kind.IsGap)) :
    ∃ t' d', nextToken c' = .ok t' d' ∧ t'.kind = t.kind ∧
      (SameRest d d' ∨ d'.rest = front ++ (blockComment body ++ back)) := by
  by_cases hfront : front = []
  · subst hfront
    rw [List.nil_append] at hd hc' ⊢
    obtain ⟨hmark, hend⟩ := closed hd
    by_cases hgap : t.kind.IsGap
    · have hback : back ≠ [] := fun hnil => hend hnil hgap
      have hblank : t.kind = .blank := hgap.resolve_right fun hstop =>
        hback (hd.symm.trans (rest_of_nextToken_end h hstop).1)
      have hstop := gapAt_of_nextToken h hgap
      have hline : LineEnd d.rest → LineEnd (blockComment body ++ back) := fun hline =>
        absurd (hd.symm.trans (eq_nil_of_lineEnd hstop hline)) hback
      have hafter : BehindGap (blockComment body ++ back) back :=
        (commentsText_blockComment hbody back).behindGap (by simp) ⟨[], hd ▸ hstop⟩
      obtain ⟨t', d', h', ht', hd'⟩ := nextToken_replace_blank h hblank hc hc' hline hafter
      exact ⟨t', d', h', ht'.trans hblank.symm, .inl (hd.trans hd'.symm)⟩
    · obtain ⟨t', d', h', ht', hd'⟩ := nextToken_of_lexeme h (fun hstop => hgap (.inr hstop)) hc hc'
        fun lexeme hlexeme => lexeme_before_slash hlexeme hgap hmark
      exact ⟨t', d', h', ht', .inr hd'⟩
  · -- the texts begin in the same way, also behind a slash
    have hlook : LookAlike d.rest (front ++ (blockComment body ++ back)) :=
      hd ▸ .of_front hfront hslash
    by_cases hblank : t.kind = .blank
    · obtain ⟨comments, d', -, h', hd'⟩ := nextToken_of_stopAlike h hblank hc hc' hlook.stopAlike
      exact ⟨_, d', h', hblank.symm, .inr hd'⟩
    · have hgap : ¬ t.kind.IsGap := by
        rintro (hgap | hend)
        · exact hblank hgap
        · rw [(rest_of_nextToken_end h hend).1] at hd
          exact hfront (List.append_eq_nil_iff.1 hd.symm).1
      obtain ⟨comments, d', -, h', hd'⟩ :=
        nextToken_of_stopsLike h hgap hc hc' hlook.first.stopsLike
      exact ⟨_, d', h', rfl, .inr hd'⟩

theorem commented_nextToken {body : List Char} (hbody : ¬ ['*', '/'] <:+: body) :
    (Pairing.commented (blockComment body) back).ReadsTokens where
  forward := forward_nextToken
  result := by
    intro c c' hpair _
    rcases hpair with hsame | ⟨habreast, hsite⟩
    · exact (readsParts_sameRest.tokens.matches_sameRest hsame).mono (fun _ _ ht => ht)
        fun _ _ => .inl
    cases hsite with
    | here rest =>
      obtain ⟨front, hfront⟩ := nextToken_behind
        (habreast.rest_eq rest ▸ commentsText_blockComment hbody back)
      have hsame : SameRest c (c'.past front back) := rest
      rw [hfront]
      exact (readsParts_sameRest.tokens.matches_sameRest hsame).mono (fun _ _ ht => ht)
        fun _ _ => .inl
    | @token _ d t reads closed behind =>
      obtain ⟨whole, hwhole, hwhole'⟩ := habreast.front
      obtain ⟨read, hread, -⟩ := forward_nextToken.ok reads
      obtain ⟨front, hd⟩ := behind.suffix
      have hsplit : whole = read ++ front := by
        rw [hwhole, ← hd, ← List.append_assoc] at hread
        exact List.append_cancel_right hread
      rw [hsplit, List.append_assoc] at hwhole'
      have hslash : front ≠ ['/'] := by
        rintro rfl
        exact behind.ne_slash hd.symm
      obtain ⟨t', d', h', ht', hrest⟩ :=
        nextToken_commented hbody reads hread hd.symm hwhole' hslash closed
      rw [reads, h']
      refine ⟨⟨ht'.symm, rfl⟩, hrest.imp_right fun hrest => ?_⟩
      exact ⟨⟨⟨front, hd.symm, hrest⟩, rfl⟩, behind⟩

/-! ## All tokens -/

theorem tokens_eq : tokens = (do
    let t ← nextToken
    if t.kind = .endOfText then return [t] else return t :: (← tokens)) := by
  funext c
  rw [bind_apply]
  cases h : nextToken c with
  | error x d => exact tokens_of_error h
  | ok t d =>
    dsimp only
    by_cases hend : t.kind = .endOfText
    · rw [tokens_of_end h hend, if_pos hend]
      rfl
    · rw [tokens_of_nextToken h hend, if_neg hend, bind_apply]
      cases tokens d <;> rfl

/-- All tokens are read in pairs where each of them is: behind a token that is not the last one, less
text is left. -/
theorem Pairing.reads_tokens {P : Pairing} (hnext : P.ReadsTokens) :
    P.Reads (List.Forall₂ (TokensAlike P.blur)) tokens tokens where
  forward := forward_tokens
  result := by
    intro c c' hpair hwithin
    induction hlength : c.rest.length using Nat.strongRecOn generalizing c c' with
    | ind n ih =>
      rw [tokens_eq] at hwithin ⊢
      refine matches_bind (hnext.result c c' hpair) (fun t => ?_) ?_ hwithin
      · split
        · exact forward_pure _
        · exact forward_bind forward_tokens fun _ => forward_pure _
      · intro t d t' d' h ht hpair hwithin
        rw [← ht.1]
        by_cases hend : t.kind = .endOfText
        · rw [if_pos hend, if_pos hend]
          exact ⟨.cons ht .nil, hpair⟩
        · rw [if_neg hend] at hwithin ⊢
          rw [if_neg hend]
          have hless := length_of_nextToken h hend
          refine matches_bind (E := List.Forall₂ (TokensAlike P.blur)) (fun hwithin => ?_)
            (fun _ => forward_pure _) ?_ hwithin
          · exact ih d.rest.length (by omega) d d' hpair hwithin rfl
          · intro ts e ts' e' _ hts hpair _
            exact ⟨.cons ht hts, hpair⟩

theorem map_kind_of_alike {ts ts' : List Token} (h : List.Forall₂ (TokensAlike b) ts ts') :
    ts'.map Token.kind = ts.map Token.kind := by
  induction h with
  | nil => rfl
  | cons ht hts ih => rw [List.map_cons, List.map_cons, ih, ht.1]

/-- The given number of tokens, one after another. -/
def nextTokens : Nat → Reading (List Token)
  | 0 => pure []
  | n + 1 => do
    let t ← nextToken
    return t :: (← nextTokens n)

theorem forward_nextTokens (n : Nat) : (nextTokens n).Forward := by
  induction n with
  | zero => exact forward_pure _
  | succ n ih => exact forward_bind forward_nextToken fun _ => forward_bind ih fun _ => forward_pure _

theorem nextTokens_succ_eq_ok {n : Nat} {read : List Token} :
    nextTokens (n + 1) c = .ok read d ↔
      ∃ t e others, nextToken c = .ok t e ∧ nextTokens n e = .ok others d ∧ read = t :: others := by
  rw [nextTokens, bind_eq_ok]
  constructor
  · rintro ⟨t, e, ht, h⟩
    obtain ⟨others, f, hothers, hpure⟩ := bind_eq_ok.1 h
    obtain ⟨rfl, rfl⟩ := pure_eq_ok.1 hpure
    exact ⟨t, e, others, ht, hothers, rfl⟩
  · rintro ⟨t, e, others, ht, hothers, rfl⟩
    exact ⟨t, e, ht, bind_eq_ok.2 ⟨others, d, hothers, rfl⟩⟩

/-- Tokens that do not reach the end of the text take some of it. -/
theorem length_of_nextTokens {n : Nat} {read : List Token}
    (h : nextTokens (n + 1) c = .ok read d) (hd : d.rest ≠ []) :
    d.rest.length < c.rest.length := by
  obtain ⟨t, e, others, ht, hothers, -⟩ := nextTokens_succ_eq_ok.1 h
  have hsuffix := ((forward_nextTokens n).ok hothers).suffix
  have hend : t.kind ≠ .endOfText := by
    intro hend
    rw [(rest_of_nextToken_end ht hend).1] at hsuffix
    exact hd (List.suffix_nil.1 hsuffix)
  have hless := length_of_nextToken ht hend
  have hle := hsuffix.length_le
  omega

/-- Some tokens, none of which is the end of the text, and the end of the text behind them. -/
theorem tokens_of_nextTokens {n : Nat} {read : List Token} {e : Cursor}
    (h : nextTokens n c = .ok read d) (hinside : ∀ u ∈ read, u.kind ≠ .endOfText)
    (hend : nextToken d = .ok t e) (ht : t.kind = .endOfText) :
    tokens c = .ok (read ++ [t]) e := by
  induction n generalizing c read with
  | zero =>
    obtain ⟨rfl, rfl⟩ := pure_eq_ok.1 h
    exact tokens_of_end hend ht
  | succ n ih =>
    obtain ⟨u, f, others, hu, hothers, rfl⟩ := nextTokens_succ_eq_ok.1 h
    rw [tokens_of_nextToken hu (hinside u (by simp)),
      ih hothers fun w hw => hinside w (by simp [hw])]
    rfl

/-- Some tokens, of which the last one is no slash, lead to a place where a comment may be put. -/
theorem commentSite_of_nextTokens {n : Nat} {read : List Token} (h : nextTokens n c = .ok read d)
    (hd : d.rest = back) (hback : back ≠ []) (hlast : ∀ t ∈ read.getLast?, t.kind ≠ .slash) :
    CommentSite back c := by
  induction n generalizing c read with
  | zero =>
    obtain ⟨-, rfl⟩ := pure_eq_ok.1 h
    exact .here hd
  | succ n ih =>
    obtain ⟨t, e, others, ht, hothers, rfl⟩ := nextTokens_succ_eq_ok.1 h
    refine .token ht (fun he => ⟨?_, fun hnil => absurd hnil hback⟩) (ih hothers fun u hu => ?_)
    · cases n with
      | zero =>
        obtain ⟨rfl, -⟩ := pure_eq_ok.1 hothers
        exact hlast t rfl
      | succ n =>
        have hless := length_of_nextTokens hothers (hd ▸ hback)
        rw [hd, he] at hless
        exact absurd hless (Nat.lt_irrefl _)
    · refine hlast u ?_
      rw [List.getLast?_cons, Option.mem_def.1 hu]
      rfl

/-- **A comment leaves the tokens of a text as they are.** Where some tokens of a text lead to a
place in it, the last of them no slash, a block comment is put in. If all tokens of the text can be
read, so can those of the text with the comment, and they are of the same kinds and carry the same. -/
theorem tokens_insert_comment {u v body : String} {n : Nat} {read ts : List Token}
    (hv : v ≠ "") (hread : nextTokens n (.ofText (u ++ v)) = .ok read c) (hc : c.rest = v.toList)
    (hlast : ∀ t ∈ read.getLast?, t.kind ≠ .slash) (hbody : ¬ ['*', '/'] <:+: body.toList)
    (h : tokens (.ofText (u ++ v)) = .ok ts d) :
    ∃ ts' d', tokens (.ofText (u ++ "/*" ++ body ++ "*/" ++ v)) = .ok ts' d' ∧
      ts'.map Token.kind = ts.map Token.kind := by
  have hsite : CommentSite v.toList (.ofText (u ++ v)) :=
    commentSite_of_nextTokens hread hc (by simpa using hv) hlast
  have hcomment : (u ++ "/*" ++ body ++ "*/" ++ v).toList =
      u.toList ++ (blockComment body.toList ++ v.toList) := by
    simp [blockComment]
  have hpair : (Pairing.commented (blockComment body.toList) v.toList).pair (.ofText (u ++ v))
      (.ofText (u ++ "/*" ++ body ++ "*/" ++ v)) :=
    .inr ⟨⟨⟨u.toList, String.toList_append, hcomment⟩, rfl⟩, hsite⟩
  obtain ⟨ts', d', h', halike, -⟩ :=
    (Pairing.reads_tokens (commented_nextToken hbody)).exists_ok hpair h trivial
  exact ⟨ts', d', h', map_kind_of_alike halike⟩

/-- A comment with a slash, a line break and stars inside, between the octave of a note and its
duration clause. -/
theorem tokens_insert_comment_in_note :
    ∃ ts d, tokens (.ofText "C4/*/\n***/[1/2] D") = .ok ts d ∧
      ts.map Token.kind = [.key "C", .number "4", .openBracket, .number "1", .slash, .number "2",
        .closeBracket, .blank, .key "D", .endOfText] := by
  have hread : nextTokens 2 (.ofText ("C4" ++ "[1/2] D")) =
      .ok [⟨.key "C", ⟨1, 1⟩⟩, ⟨.number "4", ⟨1, 2⟩⟩] ⟨"[1/2] D".toList, ⟨1, 3⟩⟩ := by
    decide +kernel
  have hinside : nextTokens 9 (.ofText ("C4" ++ "[1/2] D")) =
      .ok [⟨.key "C", ⟨1, 1⟩⟩, ⟨.number "4", ⟨1, 2⟩⟩, ⟨.openBracket, ⟨1, 3⟩⟩, ⟨.number "1", ⟨1, 4⟩⟩,
        ⟨.slash, ⟨1, 5⟩⟩, ⟨.number "2", ⟨1, 6⟩⟩, ⟨.closeBracket, ⟨1, 7⟩⟩, ⟨.blank, ⟨1, 8⟩⟩,
        ⟨.key "D", ⟨1, 9⟩⟩] ⟨[], ⟨1, 10⟩⟩ := by
    decide +kernel
  have hend : nextToken ⟨[], ⟨1, 10⟩⟩ = .ok ⟨.endOfText, ⟨1, 10⟩⟩ ⟨[], ⟨1, 10⟩⟩ := by
    decide +kernel
  have hbody : ¬ ['*', '/'] <:+: "/\n**".toList := by decide
  have hcomment : "C4" ++ "/*" ++ "/\n**" ++ "*/" ++ "[1/2] D" = "C4/*/\n***/[1/2] D" := by
    decide +kernel
  rw [← hcomment]
  exact tokens_insert_comment (by decide) hread rfl (by simp) hbody
    (tokens_of_nextTokens hinside (by simp) hend rfl)

end Reading

end Songsheet
