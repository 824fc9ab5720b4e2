import Songsheet.Proofs.Directive.Text
import Songsheet.Proofs.Token.Comment

/-!
# Comments directly behind words

A word is taken as it stands, up to the next blank. So a comment that is put directly behind a word
is no gap but a part of the word, which is then neither a label nor the name of an attribute.

* `word_commented` — the word goes on with the comment.
* `definedLabel_commented`, `trackAttribute_commented`, `trackAttribute_commented_reference` — the
  definition, the attribute or the channel is refused.
* `reaches_of_references` — a channel is read beyond each of its references.
-/

namespace Songsheet

/-! ## Words without slashes -/

/-- A word in which no slash stands. -/
def IsPlainWord (word : String) : Prop :=
  word.toList ≠ [] ∧ '/' ∉ word.toList

theorem isPlainWord_of_isLabel {word : String} (h : isLabel word) : IsPlainWord word := by
  refine ⟨toList_ne_nil_of_isLabel h, fun hslash => ?_⟩
  obtain ⟨first, others, hword, hfirst, hothers⟩ := (isLabel_iff word).1 h
  rw [hword, List.mem_cons] at hslash
  rcases hslash with rfl | hslash
  · exact absurd ((isAlpha_iff '/').2 hfirst) (by decide)
  · rcases hothers '/' hslash with hletter | hdigit | hunderscore
    · exact absurd ((isAlpha_iff '/').2 hletter) (by decide)
    · exact absurd hdigit (by decide)
    · exact absurd hunderscore (by decide)

theorem isPlainWord_of_labelDefinedBy? {word label : String}
    (h : labelDefinedBy? word = some label) : IsPlainWord word := by
  obtain ⟨hlabel, hword⟩ := labelDefinedBy?_eq_some.1 h
  have hplain := isPlainWord_of_isLabel ((isLabel_iff label).2 hlabel)
  exact ⟨by simp [hword], by simp [hword, hplain.2]⟩

theorem isPlainWord_of_ofWord? {word : String} {kind : AttributeName}
    (h : AttributeName.ofWord? word = some kind) : IsPlainWord word := by
  have hlower := ofWord?_eq_some.1 h
  constructor
  · intro hnil
    rw [hnil] at hlower
    cases kind <;> exact absurd hlower (by decide)
  · intro hslash
    have hmem : '/' ∈ kind.word.toList := hlower ▸ List.mem_map_of_mem (f := Char.toLower) hslash
    cases kind <;> exact absurd hmem (by decide)

namespace Reading

variable {source : SourcePath} {c c' d e f g : Cursor} {front back body : List Char}
  {text name label : String}

/-! ## Words with a comment -/

/-- A comment directly behind a word is a part of the word. -/
theorem word_commented (h : word c = .ok text e) (hc : c.rest = front ++ e.rest)
    (hc' : c'.rest = front ++ (blockComment body ++ back)) :
    ∃ text' e', word c' = .ok text' e' ∧ ¬ IsPlainWord text' := by
  obtain ⟨hrest, hwithin⟩ := rest_of_run h
  obtain rfl : front = text.toList := List.append_cancel_right (hc.symm.trans hrest)
  refine ⟨_, _, rfl, fun hplain => hplain.2 ?_⟩
  rw [hc', List.takeWhile_append_of_pos hwithin]
  simp [blockComment, Text.isBlank_slash]

/-- A plain word begins in the same way whatever follows it. -/
theorem lookAlike_of_word {after : List Char} (h : word c = .ok text e)
    (hplain : IsPlainWord text) (hc : c.rest = front ++ e.rest) :
    LookAlike (front ++ e.rest) (front ++ after) := by
  obtain rfl : front = text.toList :=
    List.append_cancel_right (hc.symm.trans (text_of_word h).1)
  exact .of_front hplain.1 fun hslash => hplain.2 (by simp [hslash])

/-- A label that is defined with a comment directly behind it. -/
theorem definedLabel_commented (h : definedLabel c = .ok label e) (hc : c.rest = front ++ e.rest)
    (hc' : c'.rest = front ++ (blockComment body ++ back)) :
    ∃ text' e', definedLabel c' =
      .error ((Cause.invalidLabel text').reportedAt c'.position) e' := by
  obtain ⟨text, hword, -⟩ := definedLabel_eq_ok.1 h
  obtain ⟨text', e', hword', hother⟩ := word_commented hword hc hc'
  refine ⟨text', e', ?_⟩
  rw [definedLabel, bind_apply]
  show (word >>= _) c' = _
  have hnone : labelDefinedBy? text' = none :=
    Option.eq_none_iff_forall_ne_some.2 fun _ hfound =>
      hother (isPlainWord_of_labelDefinedBy? hfound)
  rw [bind_apply, hword']
  simp only [hnone]
  rfl

/-- A reference with a comment directly behind it. -/
theorem reference_commented (source : SourcePath) (h : word c = .ok label e)
    (hc : c.rest = front ++ e.rest)
    (hc' : c'.rest = front ++ (blockComment body ++ back)) :
    ∃ text' e', reference source c' =
      .error ((Cause.invalidLabel text').reportedAt c'.position) e' := by
  obtain ⟨text', e', hword', hother⟩ := word_commented h hc hc'
  refine ⟨text', e', ?_⟩
  rw [reference_apply, hword']
  exact if_neg fun hlabel => hother (isPlainWord_of_isLabel hlabel)

/-- An attribute with a comment directly behind its name. The comment ends at its first blank, so
that what is left of it may open a comment of its own. -/
theorem trackAttribute_commented (h : word c = .ok name e) (hc : c.rest = front ++ e.rest)
    (hc' : c'.rest = front ++ (blockComment body ++ back)) :
    ∃ x e', trackAttribute source c' = .error x e' ∧
      (x.kind = .unknownAttribute ∨ x.kind = .unterminatedComment) := by
  obtain ⟨text', e', hword', hother⟩ := word_commented h hc hc'
  have hread : trackAttribute source c' = (skipGap >>= fun _ =>
      fail (.unknownAttribute text') c'.position : Reading Attribute) e' := by
    have hnone : AttributeName.ofWord? text' = none :=
      Option.eq_none_iff_forall_ne_some.2 fun _ hkind => hother (isPlainWord_of_ofWord? hkind)
    rw [trackAttribute_of_word hword']
    simp only [hnone]
  rw [hread, bind_apply]
  cases hgap : skipGap e' with
  | ok _ f => exact ⟨_, _, rfl, .inl rfl⟩
  | error x f =>
    obtain ⟨before, comment, -, rfl, -⟩ := skip_eq_error.1 hgap
    exact ⟨_, _, rfl, .inr rfl⟩

/-! ## Channels -/

/-- Where a reference stands, another one is read. -/
theorem moreReferences_of_word (h : word c = .ok label e) (hlabel : isLabel label) :
    moreReferences c := by
  obtain ⟨first, others, hfirst, halpha⟩ :=
    exists_letter_of_isIdentifier ((isLabel_iff label).1 hlabel)
  rw [moreReferences, Cursor.peek?, (text_of_word h).1, hfirst]
  simp [halpha]

theorem references_of_reference {r : Reference} (h : reference source c = .ok r d)
    (hmore : moreReferences d) :
    references source c = (references source >>= fun rs => pure (r :: rs)) d := by
  have hfrom : referencesFrom source r d.peek? = references source >>= fun rs => pure (r :: rs) :=
    if_pos hmore
  conv => lhs; rw [references_eq]
  rw [bind_apply, h]
  exact congrFun hfrom d

/-- References lead to one that is read, so each of them is followed by another one. -/
theorem moreReferences_of_chain (h : ReferencesUpTo source c g) (hword : word g = .ok label e)
    (hlabel : isLabel label) : moreReferences c := by
  rcases h.cases_head with rfl | ⟨d, ⟨r, hr⟩, -⟩
  · exact moreReferences_of_word hword hlabel
  · obtain ⟨f, hfirst, hvalid, -⟩ := reference_eq_ok.1 hr
    exact moreReferences_of_word hfirst hvalid

/-- A channel is read beyond each of its references. -/
theorem reaches_of_references {found : List Reference} (hchain : ReferencesUpTo source c g)
    (hword : word g = .ok label e) (hlabel : isLabel label)
    (h : references source c = .ok found d) : e.Reaches d := by
  induction hchain using Relation.ReflTransGen.head_induction_on generalizing found with
  | refl =>
    rw [references_eq] at h
    obtain ⟨r, f, hr, hbehind⟩ := bind_eq_ok.1 h
    obtain ⟨e', hword', -, hgap, -⟩ := reference_eq_ok.1 hr
    obtain ⟨-, rfl⟩ := EStateM.Result.ok.inj (hword.symm.trans hword')
    exact (forward_skipGap.ok hgap).trans
      ((forward_bind forward_peek? (forward_referencesFrom source r)).ok hbehind)
  | @head c f hreference hchain ih =>
    obtain ⟨r, hr⟩ := hreference
    rw [references_of_reference hr (moreReferences_of_chain hchain hword hlabel)] at h
    obtain ⟨rs, f', hrs, hpure⟩ := bind_eq_ok.1 h
    obtain ⟨-, rfl⟩ := pure_eq_ok.1 hpure
    exact ih hrs

/-- A channel with a comment directly behind one of its references. -/
theorem references_commented (hchain : ReferencesUpTo source c g) (hword : word g = .ok label e)
    (hlabel : isLabel label) (hg : g.rest = front ++ back) (he : e.rest = back)
    (hpair : Abreast .blind (front ++ back) (front ++ (blockComment body ++ back)) c c') :
    ∃ text' p e', references source c' =
      .error ((Cause.invalidLabel text').reportedAt p) e' := by
  have hlook : LookAlike (front ++ back) (front ++ (blockComment body ++ back)) :=
    he ▸ lookAlike_of_word hword (isPlainWord_of_isLabel hlabel) (he ▸ hg)
  induction hchain using Relation.ReflTransGen.head_induction_on generalizing c' with
  | refl =>
    obtain ⟨text', e', hr⟩ :=
      reference_commented source hword (he ▸ hg) (hpair.rest_eq hg)
    refine ⟨text', c'.position, e', ?_⟩
    rw [references_eq, bind_apply, hr]
  | @head c d hreference hchain ih =>
    obtain ⟨r, hr⟩ := hreference
    have hparts := Pairing.readsParts_abreast (b := .blind) hlook
    have hd : front ++ back <:+ d.rest := hg ▸ (ReferencesUpTo.reaches hchain).suffix
    obtain ⟨r', d', hr', -, hpair'⟩ := (Pairing.reads_reference hparts source).exists_ok hpair hr hd
    have hmore : moreReferences d' := by
      have hpeek : moreReferences d = moreReferences d' :=
        hparts.peeks d d' hpair' _ inner_reference.blank
      exact hpeek ▸ moreReferences_of_chain hchain hword hlabel
    obtain ⟨text', p, e', hrs⟩ := ih hpair'
    refine ⟨text', p, e', ?_⟩
    rw [references_of_reference hr' hmore, bind_apply, hrs]

/-- An attribute that is a channel, with a comment directly behind one of its references. -/
theorem trackAttribute_commented_reference (hname : word c = .ok name d)
    (hchannel : AttributeName.ofWord? name = some .channel) (hgap : skipGap d = .ok () f)
    (hchain : ReferencesUpTo source f g) (hword : word g = .ok label e) (hlabel : isLabel label)
    (hg : g.rest = front ++ back) (he : e.rest = back)
    (hpair : Abreast .blind (front ++ back) (front ++ (blockComment body ++ back)) c c') :
    ∃ text' p e', trackAttribute source c' =
      .error ((Cause.invalidLabel text').reportedAt p) e' := by
  have hlook : LookAlike (front ++ back) (front ++ (blockComment body ++ back)) :=
    he ▸ lookAlike_of_word hword (isPlainWord_of_isLabel hlabel) (he ▸ hg)
  have hparts := Pairing.readsParts_abreast (b := .blind) hlook
  have hf : front ++ back <:+ f.rest := hg ▸ hchain.reaches.suffix
  have hd : front ++ back <:+ d.rest := hf.trans (forward_skipGap.ok hgap).suffix
  obtain ⟨name', d', hname', rfl, hpair⟩ := hparts.words.exists_ok hpair hname hd
  obtain ⟨_, f', hgap', -, hpair⟩ := hparts.gaps.exists_ok hpair hgap hf
  obtain ⟨text', p, e', hreferences⟩ := references_commented hchain hword hlabel hg he hpair
  refine ⟨text', p, e', ?_⟩
  rw [trackAttribute, bind_apply]
  show (word >>= _) c' = _
  rw [bind_apply, hname']
  show (skipGap >>= _) d' = _
  rw [bind_apply, hgap']
  simp only [hchannel]
  show (references source >>= _) f' = _
  rw [bind_apply, hreferences]

end Reading

end Songsheet
