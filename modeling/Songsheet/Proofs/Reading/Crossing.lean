import Songsheet.Proofs.Reading.Abreast
import Songsheet.Proofs.Token.Text

/-!
# Readings that cross a separator

A separator is a gap that begins with a blank. All separators are read alike: the reading stops
behind the gap, as a whole, whatever it was made of. So two texts that differ in one separator are
read in pairs in front of it, and behind it the same text is still to come, provided that the
separator is met where it begins.

* `Separator` — a separator in front of a text.
* `matches_skipGap`, `matches_nextToken` — a separator is crossed, as a gap or as a token.
* `Pairing.crossing` — what is read token by token crosses a separator between two tokens.
* `matches_notes`, `matches_references`, `matches_trackAttribute_name`,
  `matches_trackAttribute_reference` — separators among notes, behind references, and behind the name
  of an attribute.
-/

namespace Songsheet

variable {sep sep' back : List Char}

/-! ## Separators -/

/-- A gap that begins with a blank, in front of a text. -/
structure Separator (sep back : List Char) : Prop where
  first : BlankFirst sep
  gap : GapText Text.isBlank (sep ++ back) back

theorem Separator.blankFirst (h : Separator sep back) : BlankFirst (sep ++ back) := by
  obtain ⟨c, tail, hsep, hc⟩ := h.first
  exact ⟨c, tail ++ back, by rw [hsep]; rfl, hc⟩

/-- All separators begin in the same way. -/
theorem Separator.lookAlike (h : Separator sep back) (h' : Separator sep' back) :
    LookAlike (sep ++ back) (sep' ++ back) := by
  refine ⟨.inr ⟨h.blankFirst, h'.blankFirst⟩, fun hslash => ?_⟩
  obtain ⟨c, tail, hsep, hc⟩ := h.blankFirst
  rw [hsep] at hslash
  exact absurd (Option.some.inj hslash) (Text.ne_slash_of_isBlank hc)

namespace Reading

variable {c c' d e : Cursor} {t : Token} {source : SourcePath}

/-! ## Around a separator -/

/-- The two texts are the same up to a separator, or behind it. -/
def Around (tail tail' : List Char) (c c' : Cursor) : Prop :=
  SameRest c c' ∨ Abreast .blind tail tail' c c'

theorem Abreast.rest_eq {b : Blur} {tail tail' : List Char} (h : Abreast b tail tail' c c')
    (hc : c.rest = tail) : c'.rest = tail' := by
  obtain ⟨front, hfront, hfront'⟩ := h.front
  obtain rfl : front = [] := List.self_eq_append_left.1 (hc.symm.trans hfront)
  exact hfront'

/-! ## Separators that are crossed -/

section Crossed

variable (h : Separator sep back) (h' : Separator sep' back) (hc : c.rest = sep ++ back)
  (hc' : c'.rest = sep' ++ back)
include h h' hc hc'

/-- Behind separators, gaps go on in the same way. -/
theorem matches_skipGap : Matches .blind Eq SameRest (skipGap c) (skipGap c') := by
  obtain ⟨front, hfront⟩ := h.gap.gapAt_eq (fun _ hx => hx) Text.isBlank_slash
  obtain ⟨front', hfront'⟩ := h'.gap.gapAt_eq (fun _ hx => hx) Text.isBlank_slash
  unfold skipGap skip
  rw [hc, hc', hfront, hfront']
  cases gapAt Text.isBlank back with
  | upTo skipped rest => exact ⟨rfl, rfl⟩
  | unclosed before comment => exact Blur.blind.diagnostic_reportedAt _ rfl

omit h h' hc' hc in
/-- Where a blank is next, the next token is the gap. -/
theorem nextToken_of_blankFirst (hblank : BlankFirst c.rest) :
    nextToken c = (do skipGap; return ⟨.blank, c.position⟩ : Reading Token) c := by
  obtain ⟨first, tail, hrest, hfirst⟩ := hblank
  have hpeek : c.peek? = some first := by rw [Cursor.peek?, hrest]; rfl
  have hcomments : skipComments c = .ok () c :=
    skip_apply_of_peek? hpeek rfl (Text.ne_slash_of_isBlank hfirst)
  have hkind : kindFrom first = do
      skipGap
      return .blank :=
    if_pos hfirst
  rw [nextToken_apply, hcomments]
  simp only [hpeek]
  rw [hkind, bind_apply, bind_apply]
  cases skipGap c <;> rfl

theorem matches_nextToken :
    Matches .blind (TokensAlike .blind) SameRest (nextToken c) (nextToken c') := by
  rw [nextToken_of_blankFirst (hc ▸ h.blankFirst), nextToken_of_blankFirst (hc' ▸ h'.blankFirst)]
  apply (matches_skipGap h h' hc hc').bind
  intro _ d _ d' _ _ hd
  exact ⟨⟨rfl, rfl⟩, hd⟩

end Crossed

/-! ## Token by token -/

/-- Any number of tokens stand between two cursors. -/
def Tokens : Cursor → Cursor → Prop :=
  Relation.ReflTransGen fun c d => ∃ t, nextToken c = .ok t d

theorem Tokens.reaches (h : Tokens c d) : c.Reaches d := by
  induction h with
  | refl => exact .refl c
  | tail _ htoken ih =>
    obtain ⟨t, ht⟩ := htoken
    exact ih.trans (forward_nextToken.ok ht)

/-- Before a token the gap ends in front of it, or the gap is the token. -/
theorem skipGap_of_token (h : nextToken c = .ok t d) (hd : d.rest ≠ []) :
    ∃ e, skipGap c = .ok () e ∧ (e = d ∨ nextToken e = .ok t d) := by
  obtain ⟨comments, e, hgap, he, hposition, ⟨hend, -, rfl⟩ | ⟨first, hp, hk⟩⟩ := nextToken_eq_ok.1 h
  · exact absurd hend hd
  obtain ⟨tail, hrest⟩ := List.head?_eq_some_iff.1 hp
  have hbehind : gapAt Text.isBlank c.rest = (gapAt Text.isBlank e.rest).behind comments := by
    rw [append_of_gapAt hgap]
    exact gapAt_append (fun _ hx => absurd hx (by simp)) Text.isBlank_slash hgap id
  cases hblank : Text.isBlank first with
  | true =>
    have hkind : kindFrom first = do
        skipGap
        return .blank :=
      if_pos hblank
    rw [hkind] at hk
    obtain ⟨_, f, hskip, hpure⟩ := bind_eq_ok.1 hk
    obtain ⟨-, rfl⟩ := pure_eq_ok.1 hpure
    obtain ⟨skipped, rest, hskipped, rfl⟩ := skip_eq_ok.1 hskip
    rw [hskipped, Gap.behind_upTo] at hbehind
    refine ⟨_, skip_eq_ok.2 ⟨_, _, hbehind, rfl⟩, .inl ?_⟩
    rw [he]
    simp [Cursor.past]
  | false =>
    have hstop : gapAt Text.isBlank e.rest = .upTo [] e.rest := by
      rw [hrest]
      exact gapAt_of_noComment (hrest ▸ gapAt_rest hgap) hblank
    rw [hstop, Gap.behind_upTo, List.append_nil] at hbehind
    refine ⟨e, skip_eq_ok.2 ⟨comments, e.rest, hbehind, he⟩, .inr ?_⟩
    exact nextToken_eq_ok.2 ⟨[], e, gapAt_rest hgap, rfl, hposition, .inr ⟨first, hp, hk⟩⟩

/-- Cursors in front of separators that begin at a token, or behind them. -/
def Pairing.crossing (tail tail' : List Char) (e : Cursor) : Pairing where
  blur := .blind
  pair := fun c c' => SameRest c c' ∨ Abreast .blind tail tail' c c' ∧ Tokens c e
  within := fun _ => True
  place := fun _ => rfl
  back := fun _ _ => trivial

/-- Any number of references stand between two cursors, each with the gap behind it. -/
def ReferencesUpTo (source : SourcePath) : Cursor → Cursor → Prop :=
  Relation.ReflTransGen fun c d => ∃ r, reference source c = .ok r d

theorem ReferencesUpTo.reaches (h : ReferencesUpTo source c d) : c.Reaches d := by
  induction h with
  | refl => exact .refl c
  | tail _ hreference ih =>
    obtain ⟨r, hr⟩ := hreference
    exact ih.trans ((forward_reference source).ok hr)

section Crossing

variable (h : Separator sep back) (h' : Separator sep' back) (he : e.rest = sep ++ back)
include h h' he

theorem crossing_nextToken : (Pairing.crossing (sep ++ back) (sep' ++ back) e).ReadsTokens where
  forward := forward_nextToken
  result := by
    intro c c' hpair _
    rcases hpair with hsame | ⟨habreast, htokens⟩
    · exact (readsParts_sameRest.tokens.matches_sameRest hsame).mono (fun _ _ ht => ht)
        fun _ _ => .inl
    · rcases htokens.cases_head with rfl | ⟨d, ⟨t, ht⟩, hd⟩
      · exact (matches_nextToken h h' he (habreast.rest_eq he)).mono (fun _ _ ht => ht)
          fun _ _ => .inl
      · have hbefore : sep ++ back <:+ d.rest := he ▸ (Tokens.reaches hd).suffix
        obtain ⟨t', d', ht', hkind, habreast'⟩ :=
          (Pairing.abreast_nextToken (h.lookAlike h').stopAlike).exists_ok habreast ht hbefore
        rw [ht, ht']
        exact ⟨hkind, .inr ⟨habreast', hd⟩⟩

theorem crossing_skipGap : (Pairing.crossing (sep ++ back) (sep' ++ back) e).ReadsGaps where
  forward := forward_skipGap
  result := by
    intro c c' hpair _
    rcases hpair with hsame | ⟨habreast, htokens⟩
    · exact (readsParts_sameRest.gaps.matches_sameRest hsame).mono (fun _ _ ht => ht)
        fun _ _ => .inl
    · rcases htokens.cases_head with rfl | ⟨d, ⟨t, ht⟩, hd⟩
      · exact (matches_skipGap h h' he (habreast.rest_eq he)).mono (fun _ _ ht => ht)
          fun _ _ => .inl
      · have hne : d.rest ≠ [] := by
          obtain ⟨x, tail, hsep, -⟩ := h.blankFirst
          have hbefore : x :: tail <:+ d.rest := hsep ▸ he ▸ (Tokens.reaches hd).suffix
          exact hbefore.ne_nil (List.cons_ne_nil x tail)
        obtain ⟨f, hskip, hf⟩ := skipGap_of_token ht hne
        have htokens' : Tokens f e := by
          rcases hf with rfl | hf
          · exact hd
          · exact .head ⟨t, hf⟩ hd
        have hbefore : sep ++ back <:+ f.rest := he ▸ htokens'.reaches.suffix
        obtain ⟨u, f', hskip', hu, habreast'⟩ :=
          (Pairing.abreast_skipGap (h.lookAlike h').stopAlike).exists_ok habreast hskip hbefore
        rw [hskip, hskip']
        exact ⟨hu, .inr ⟨habreast', htokens'⟩⟩

omit he in
theorem crossing_peeks : (Pairing.crossing (sep ++ back) (sep' ++ back) e).PeeksAlike := by
  intro c c' hpair p hp
  rcases hpair with hsame | ⟨habreast, -⟩
  · rw [Cursor.peek?, Cursor.peek?, hsame]
  · exact Pairing.abreast_peeks (h.lookAlike h') c c' habreast p hp

/-- Separators among notes. -/
theorem matches_notes (hpair : Abreast .blind (sep ++ back) (sep' ++ back) c c')
    (htokens : Tokens c e) :
    Matches .blind Eq (Around (sep ++ back) (sep' ++ back)) (notes c) (notes c') := by
  have hread := Pairing.reads_notes (crossing_nextToken h h' he) (crossing_skipGap h h' he)
    (crossing_peeks h h')
  apply (hread.result c c' (.inr ⟨hpair, htokens⟩) trivial).mono fun _ _ hw => hw
  intro d d' hd
  rcases hd with hsame | ⟨habreast, -⟩
  · exact .inl hsame
  · exact .inr habreast

/-! ## Behind words -/

/-- A word in front of a separator. -/
theorem matches_word {word' : String} (hpair : Abreast .blind (sep ++ back) (sep' ++ back) c c')
    (hword : word c = .ok word' e) :
    Matches .blind Eq (fun d d' => d = e ∧ d'.rest = sep' ++ back) (word c) (word c') := by
  have hbefore : sep ++ back <:+ e.rest := he ▸ List.suffix_refl e.rest
  obtain ⟨found, e', hword', hfound, habreast⟩ :=
    (Pairing.readsParts_abreast (h.lookAlike h')).words.exists_ok hpair hword hbefore
  rw [hword, hword']
  exact ⟨hfound, rfl, habreast.rest_eq he⟩

/-- Behind a reference, a separator is crossed. -/
theorem matches_reference {label : String}
    (hpair : Abreast .blind (sep ++ back) (sep' ++ back) c c') (hword : word c = .ok label e) :
    Matches .blind (ReferencesAlike .blind) SameRest (reference source c) (reference source c') := by
  apply matches_bind_position
  apply (matches_word h h' he hpair hword).bind
  intro found d found' d' _ hfound ⟨hd, hd'⟩
  subst hfound hd
  by_cases hlabel : isLabel found
  · rw [if_pos hlabel, if_pos hlabel]
    apply (matches_skipGap h h' he hd').bind
    intro _ f _ f' _ _ hf
    exact ⟨rfl, hf⟩
  · rw [if_neg hlabel, if_neg hlabel]
    exact matches_fail rfl

/-- Separators behind a reference to which others lead. -/
theorem matches_references {label : String} {g : Cursor}
    (hpair : Abreast .blind (sep ++ back) (sep' ++ back) c c')
    (hchain : ReferencesUpTo source c g) (hword : word g = .ok label e) :
    Matches .blind (ReferenceListsAlike .blind) (Around (sep ++ back) (sep' ++ back))
      (references source c) (references source c') := by
  rw [references_eq]
  induction hchain using Relation.ReflTransGen.head_induction_on generalizing c' with
  | refl =>
    apply (matches_reference h h' he hpair hword).bind
    intro r d r' d' _ hr hd
    have hpeek : moreReferences d = moreReferences d' := by
      rw [moreReferences, moreReferences, Cursor.peek?, Cursor.peek?, hd]
    apply matches_referencesFrom hr hpeek (.inl hd)
    intro _
    have hmore := (Pairing.reads_references readsParts_sameRest source).matches_sameRest hd
    exact hmore.mono (fun _ _ hrs => hrs) fun _ _ => .inl
  | @head c d hreference hchain ih =>
    obtain ⟨r, hr⟩ := hreference
    have hbefore : sep ++ back <:+ d.rest :=
      he ▸ ((ReferencesUpTo.reaches hchain).trans (forward_word.ok hword)).suffix
    have hparts := Pairing.readsParts_abreast (b := .blind) (h.lookAlike h')
    apply (Pairing.reads_reference hparts source).bind_ok hpair hr hbefore
    intro r' d' halike habreast
    have hpeek : moreReferences d = moreReferences d' :=
      Pairing.abreast_peeks (h.lookAlike h') d d' habreast _ inner_reference.blank
    apply matches_referencesFrom halike hpeek (.inr habreast)
    intro _
    have hmore := ih habreast
    rwa [← references_eq] at hmore

/-! ## Attributes -/

/-- A separator behind the name of an attribute. -/
theorem matches_trackAttribute_name {name : String}
    (hpair : Abreast .blind (sep ++ back) (sep' ++ back) c c') (hword : word c = .ok name e) :
    Matches .blind (AttributesAlike .blind) (Around (sep ++ back) (sep' ++ back))
      (trackAttribute source c) (trackAttribute source c') := by
  apply matches_bind_position
  apply (matches_word h h' he hpair hword).bind
  intro found d found' d' _ hfound ⟨hd, hd'⟩
  subst hfound hd
  apply (matches_skipGap h h' he hd').bind
  intro _ f _ f' hskip _ hf
  cases AttributeName.ofWord? found with
  | none => exact matches_fail rfl
  | some kind =>
    have hvalue := Pairing.matches_attributeValue readsParts_sameRest source kind
      (sameRest_iff.2 hf) (skipGap_eq_ok hskip).idem List.nil_suffix
    exact hvalue.mono (fun _ _ hx => hx) fun _ _ hd => .inl (sameRest_iff.1 hd)

/-- A separator behind a reference of a channel. -/
theorem matches_trackAttribute_reference {name label : String} {d f g : Cursor}
    (hpair : Abreast .blind (sep ++ back) (sep' ++ back) c c') (hname : word c = .ok name d)
    (hchannel : AttributeName.ofWord? name = some .channel) (hgap : skipGap d = .ok () f)
    (hchain : ReferencesUpTo source f g) (hword : word g = .ok label e) :
    Matches .blind (AttributesAlike .blind) (Around (sep ++ back) (sep' ++ back))
      (trackAttribute source c) (trackAttribute source c') := by
  have hparts := Pairing.readsParts_abreast (b := .blind) (h.lookAlike h')
  -- up to the references, all stands in front of the separator
  have hf : sep ++ back <:+ f.rest := he ▸ (hchain.reaches.trans (forward_word.ok hword)).suffix
  have hd : sep ++ back <:+ d.rest := hf.trans (forward_skipGap.ok hgap).suffix
  apply matches_bind_position
  apply hparts.words.bind_ok hpair hname hd
  intro found d' hfound hpair
  subst hfound
  apply hparts.gaps.bind_ok hpair hgap hf
  intro _ f' _ hpair
  rw [hchannel]
  apply (matches_references h h' he hpair hchain hword).bind
  intro rs k rs' k' _ hrs hk
  exact ⟨congrArg Attribute.channel hrs, hk⟩

end Crossing

end Reading

end Songsheet
