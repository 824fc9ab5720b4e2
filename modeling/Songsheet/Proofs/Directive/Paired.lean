import Songsheet.Proofs.Directive.Replace
import Songsheet.Proofs.Document.Failure
import Songsheet.Proofs.Note.Paired

/-!
# Directives in pairs

A directive is put together of tokens, gaps, words, digits and quoted texts. Under a pairing under
which these are read in pairs, two readings of directives come to the same: where the drafts they
begin with look the same, the drafts they end with do.

* `Pairing.ReadsParts` — what is asked of a pairing.
* `reads_definedLabel`, `reads_references`, `reads_trackAttribute` — the parts of directives.
* `Draft.reads_readDirective` — a directive behind its mark.
-/

namespace Songsheet

namespace Reading

/-- What directives and includes are put together of is read in pairs; a quoted text only has to be
where no gap is in front of it. -/
structure Pairing.ReadsParts (P : Pairing) : Prop where
  tokens : P.ReadsTokens
  gaps : P.ReadsGaps
  peeks : P.PeeksAlike
  words : P.Reads Eq word word
  digits : P.Reads Eq digits digits
  quotes : ∀ c c', P.pair c c' → BehindGap c.rest c.rest →
    P.within (cursorLeft (quotedText c)) →
    Matches P.blur Eq P.pair (quotedText c) (quotedText c')
  targets : P.Reads Eq (through '>') (through '>')

/-- Two references to one label, at sites that look the same. -/
def ReferencesAlike (b : Blur) (r r' : Reference) : Prop :=
  r.mapSite b.site = r'.mapSite b.site

/-- References to the same labels in order, at sites that look the same. -/
def ReferenceListsAlike (b : Blur) (rs rs' : List Reference) : Prop :=
  rs.map (Reference.mapSite b.site) = rs'.map (Reference.mapSite b.site)

/-- Two attributes that look the same. -/
def AttributesAlike (b : Blur) (value value' : Attribute) : Prop :=
  value.mapSites b.site = value'.mapSites b.site

/-! ## References -/

/-- A reference and those behind it, where `next` is the next character. -/
def referencesFrom (source : SourcePath) (r : Reference) (next : Option Char) :
    Reading (List Reference) :=
  if next.any fun x => x.isAlpha || x == '_' then do return r :: (← references source)
  else pure [r]

theorem references_eq (source : SourcePath) : references source = (do
    let r ← reference source
    referencesFrom source r (← peek?)) := by
  funext c
  conv => lhs; rw [references]
  rw [bind_apply]
  cases reference source c with
  | error e d => rfl
  | ok r d =>
    simp only [bind_apply, peek?]
    by_cases hmore : moreReferences d
    · have hfrom : referencesFrom source r d.peek? =
          references source >>= fun rs => pure (r :: rs) := if_pos hmore
      rw [if_pos hmore, hfrom, bind_apply]
      cases references source d <;> rfl
    · have hfrom : referencesFrom source r d.peek? = pure [r] := if_neg hmore
      rw [if_neg hmore, hfrom]
      rfl

theorem forward_referencesFrom (source : SourcePath) (r : Reference) (next : Option Char) :
    (referencesFrom source r next).Forward := by
  unfold referencesFrom
  split
  · exact forward_bind (forward_references source) fun _ => forward_pure _
  · exact forward_pure _

section References

variable {b : Blur} {source : SourcePath} {r r' : Reference} {d d' : Cursor}

/-- What follows a reference: others where a letter is next, and otherwise nothing. -/
theorem matches_referencesFrom {K : Cursor → Cursor → Prop} (hr : ReferencesAlike b r r')
    (hpeek : moreReferences d = moreReferences d') (hstop : K d d')
    (hmore : moreReferences d → Matches b (ReferenceListsAlike b) K (references source d)
      (references source d')) :
    Matches b (ReferenceListsAlike b) K ((peek? >>= referencesFrom source r) d)
      ((peek? >>= referencesFrom source r') d') := by
  have hfrom : ∀ (r : Reference) (c : Cursor), (peek? >>= referencesFrom source r) c =
      (if moreReferences c then do return r :: (← references source) else pure [r] :
        Reading (List Reference)) c := fun _ _ => rfl
  rw [hfrom, hfrom, ← hpeek]
  by_cases hnext : moreReferences d
  · rw [if_pos hnext, if_pos hnext]
    apply (hmore hnext).bind
    intro rs e rs' e' _ hrs he
    exact ⟨List.cons_eq_cons.2 ⟨hr, hrs⟩, he⟩
  · rw [if_neg hnext, if_neg hnext]
    exact ⟨List.cons_eq_cons.2 ⟨hr, rfl⟩, hstop⟩

theorem cursorLeft_referencesFrom (hmore : moreReferences d) :
    cursorLeft ((peek? >>= referencesFrom source r) d) = cursorLeft (references source d) := by
  have hfrom : referencesFrom source r d.peek? = references source >>= fun rs => pure (r :: rs) :=
    if_pos hmore
  have hpeek : (peek? >>= referencesFrom source r) d = referencesFrom source r d.peek? d := rfl
  rw [hpeek, hfrom, cursorLeft_bind_pure]

end References

namespace Pairing

variable {P : Pairing}

theorem reads_definedLabel (hwords : P.Reads Eq word word) :
    P.Reads Eq definedLabel definedLabel := by
  apply reads_position.bind fun _ => rfl
  intro start start' hstart
  apply hwords.bind_eq
  intro text
  split
  · exact reads_pure rfl
  · exact reads_fail hstart

theorem reads_reference (h : P.ReadsParts) (source : SourcePath) :
    P.Reads (ReferencesAlike P.blur) (reference source) (reference source) := by
  apply reads_position.bind fun _ => rfl
  intro start start' hstart
  apply h.words.bind_eq
  intro label
  split
  · apply h.gaps.bind_eq
    intro _
    exact reads_pure (congrArg (fun p => Reference.mk label ⟨source, p⟩) hstart)
  · exact reads_fail hstart

/-- Runs of references are read in pairs: each reference is shorter than the run it begins. -/
theorem reads_references (h : P.ReadsParts) (source : SourcePath) :
    P.Reads (ReferenceListsAlike P.blur) (references source) (references source) where
  forward := forward_references source
  result := by
    intro c c' hpair hwithin
    induction hlength : c.rest.length using Nat.strongRecOn generalizing c c' with
    | ind n ih =>
      rw [references_eq] at hwithin ⊢
      refine matches_bind ((reads_reference h source).result c c' hpair)
        (fun r => forward_bind forward_peek? (forward_referencesFrom source r)) ?_ hwithin
      intro r d r' d' hread hr hpair hwithin
      apply matches_referencesFrom hr (h.peeks d d' hpair _ inner_reference.blank) hpair
      intro hmore
      have hless := length_of_reference hread
      apply ih d.rest.length (by omega) d d' hpair _ rfl
      rwa [cursorLeft_referencesFrom hmore] at hwithin

/-! ## Attributes -/

theorem reads_tempo (h : P.ReadsParts) : P.Reads Eq tempo tempo := by
  apply reads_position.bind fun _ => rfl
  intro start start' hstart
  apply h.digits.bind_eq
  intro numeral
  split
  · exact reads_pure rfl
  · exact reads_fail hstart

/-- The value of an attribute, behind the gap that its name leaves. -/
theorem matches_attributeValue (h : P.ReadsParts) (source : SourcePath) (kind : AttributeName)
    {c c' : Cursor} (hpair : P.pair c c') (hgap : BehindGap c.rest c.rest)
    (hwithin : P.within (cursorLeft (attributeValue source kind c))) :
    Matches P.blur (AttributesAlike P.blur) P.pair (attributeValue source kind c)
      (attributeValue source kind c') := by
  cases kind with
  | name =>
    refine matches_bind (h.quotes c c' hpair hgap) (fun _ => forward_pure _) ?_ hwithin
    intro text d text' d' _ htext hpair _
    exact ⟨congrArg (fun x => (Attribute.name x).mapSites P.blur.site) htext, hpair⟩
  | tempo =>
    refine matches_bind ((reads_tempo h).result c c' hpair) (fun _ => forward_pure _) ?_ hwithin
    intro beats d beats' d' _ hbeats hpair _
    exact ⟨congrArg (fun x => (Attribute.tempo x).mapSites P.blur.site) hbeats, hpair⟩
  | channel =>
    refine matches_bind ((reads_references h source).result c c' hpair) (fun _ => forward_pure _)
      ?_ hwithin
    intro found d found' d' _ hfound hpair _
    exact ⟨congrArg Attribute.channel hfound, hpair⟩

/-- The gap behind the name of an attribute, and the value. -/
theorem reads_attributeBehind (h : P.ReadsParts) (source : SourcePath) (kind : AttributeName) :
    P.Reads (AttributesAlike P.blur) (skipGap >>= fun _ => attributeValue source kind)
      (skipGap >>= fun _ => attributeValue source kind) where
  forward := forward_bind forward_skipGap fun _ => forward_attributeValue source kind
  result := by
    intro c c' hpair hwithin
    refine matches_bind (h.gaps.result c c' hpair) (fun _ => forward_attributeValue source kind)
      ?_ hwithin
    intro _ d _ d' hskip _ hpair hwithin
    exact matches_attributeValue h source kind hpair (skipGap_eq_ok hskip).idem hwithin

theorem reads_trackAttribute (h : P.ReadsParts) (source : SourcePath) :
    P.Reads (AttributesAlike P.blur) (trackAttribute source) (trackAttribute source) := by
  apply reads_position.bind fun _ => rfl
  intro start start' hstart
  apply h.words.bind_eq
  intro text
  cases AttributeName.ofWord? text with
  | none =>
    apply h.gaps.bind_eq
    intro _
    exact reads_fail hstart
  | some kind => exact reads_attributeBehind h source kind

end Pairing

end Reading

/-! ## Directives -/

namespace Draft

variable {P : Reading.Pairing} {draft draft' : Draft}

/-- Two drafts that look the same. -/
def Alike (b : Blur) (draft draft' : Draft) : Prop :=
  b.draft draft = b.draft draft'

theorem Alike.labels {b : Blur} (h : draft.Alike b draft') :
    draft.labels.mapSites b.site = draft'.labels.mapSites b.site :=
  congrArg Draft.labels h

theorem Alike.track {b : Blur} (h : draft.Alike b draft') : draft.track = draft'.track := by
  have hsame : b.draft draft = b.draft draft' := h
  show (b.draft draft).track = (b.draft draft').track
  rw [hsame]

theorem Alike.addTrack {b : Blur} {labels labels' : Registry} (h : draft.Alike b draft')
    (hlabels : labels.mapSites b.site = labels'.mapSites b.site) (label : String) :
    (draft.addTrack labels label).Alike b (draft'.addTrack labels' label) := by
  show (b.draft draft).addTrack (labels.mapSites b.site) label =
    (b.draft draft').addTrack (labels'.mapSites b.site) label
  rw [h, hlabels]

theorem Alike.addSequence {b : Blur} {labels labels' : Registry} (h : draft.Alike b draft')
    (hlabels : labels.mapSites b.site = labels'.mapSites b.site) (label : String)
    (written : List WrittenNote) :
    (draft.addSequence labels label written).Alike b
      (draft'.addSequence labels' label written) := by
  show (b.draft draft).addSequence (labels.mapSites b.site) label written =
    (b.draft draft').addSequence (labels'.mapSites b.site) label written
  rw [h, hlabels]

theorem Alike.setAttribute {b : Blur} {value value' : Attribute} (h : draft.Alike b draft')
    (hvalue : Reading.AttributesAlike b value value') (index : Nat) :
    (draft.setAttribute index value).Alike b (draft'.setAttribute index value') := by
  show (draft.setAttribute index value).mapSites b.site =
    (draft'.setAttribute index value').mapSites b.site
  rw [setAttribute_mapSites, setAttribute_mapSites, hvalue]
  exact congrArg (Draft.setAttribute · index _) h

theorem reads_readLabel (hwords : P.Reads Eq Reading.word Reading.word)
    (hdraft : draft.Alike P.blur draft') (source : SourcePath) (kind : LabelKind) :
    P.Reads (fun x x' => x.1.mapSites P.blur.site = x'.1.mapSites P.blur.site ∧ x.2 = x'.2)
      (draft.readLabel source kind) (draft'.readLabel source kind) := by
  apply Reading.Pairing.reads_position.bind fun _ => rfl
  intro start start' hstart
  apply (Reading.Pairing.reads_definedLabel hwords).bind_eq
  intro label
  have hsite : P.blur.site ⟨source, start⟩ = P.blur.site ⟨source, start'⟩ :=
    congrArg (Site.mk source) hstart
  have hdefine := draft.labels.define_blur P.blur label kind ⟨source, start⟩
  rw [hdraft.labels, hsite, Registry.define_blur] at hdefine
  apply (Reading.Pairing.reads_ofExcept hdefine.symm).bind fun _ => rfl
  intro labels labels' hlabels
  exact Reading.Pairing.reads_pure ⟨hlabels, rfl⟩

/-- A directive behind its mark: drafts that look the same before it do so behind it. -/
theorem reads_readDirective (h : P.ReadsParts) (hdraft : draft.Alike P.blur draft')
    (source : SourcePath) {mark mark' : Token} (hmark : Reading.TokensAlike P.blur mark mark') :
    P.Reads (Alike P.blur) (draft.readDirective source mark)
      (draft'.readDirective source mark') := by
  unfold readDirective
  rw [← hmark.1]
  split
  · apply (reads_readLabel h.words hdraft source .track).bind fun _ => ⟨rfl, rfl⟩
    intro ⟨labels, label⟩ ⟨labels', label'⟩ ⟨hlabels, hlabel⟩
    obtain rfl : label = label' := hlabel
    exact Reading.Pairing.reads_pure (hdraft.addTrack hlabels label)
  · apply (reads_readLabel h.words hdraft source .sequence).bind fun _ => ⟨rfl, rfl⟩
    intro ⟨labels, label⟩ ⟨labels', label'⟩ ⟨hlabels, hlabel⟩
    obtain rfl : label = label' := hlabel
    apply (Reading.Pairing.reads_notes h.tokens h.gaps h.peeks).bind_eq
    intro written
    exact Reading.Pairing.reads_pure (hdraft.addSequence hlabels label written)
  · unfold readAttribute
    rw [← hdraft.track]
    split
    · apply (Reading.Pairing.reads_trackAttribute h source).bind fun _ => rfl
      intro value value' hvalue
      exact Reading.Pairing.reads_pure (hdraft.setAttribute hvalue _)
    · exact Reading.Pairing.reads_fail hmark.2
  · exact Reading.Pairing.reads_fail hmark.2

end Draft

end Songsheet
