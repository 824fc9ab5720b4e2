import Songsheet.Proofs.Document.Failure
import Songsheet.Proofs.Document.Transcript

/-!
# References that no sequence answers

A label may be used before it is defined, and in any source, so the references of a document are
checked when all of it has been read. The registry then knows only the first reference to each
label, and definitions apart from references. What the check reports is nevertheless a matter of the
texts alone: of all references in the order in which they stand, through all sources that are
entered, it is the first whose label no sequence has, at its own site.

* `Cites` — the references of a channel stand between two states, each at its site; a turn that
  cites them is the one that reads them (`Goes.obeys_of_cites`).
* `Citations` — the references on the way from one state to another, in order; `exists_citations`
  finds them.
* `Unanswered` — the report on the first of some references that no sequence answers.
* `label_check_exact` — a document fails for a reference exactly so, wherever its definitions stand.
-/

namespace Songsheet.Document

variable {read read' : Provider} {o o' : Options} {s t u e : State} {items items' : List Item}
  {found found' more : List Reference} {d : Diagnostic}

/-! ## Channels that are read -/

/-- From `s` to `t` the references of a channel are cited: in the same source, behind comments, stand
the mark of an attribute, the word for a channel and the references, and a gap behind them. -/
def Cites (found : List Reference) (s t : State) : Prop :=
  t.suspended = s.suspended ∧ ∃ (text : List Char) (c d : Cursor),
    CommentsText s.current.cursor.rest ('%' :: text) ∧ AttributeText .channel text c.rest ∧
      s.current.cursor.Reaches c ∧ ReferencesAt s.current.path found c d ∧
        GapText Text.isBlank d.rest t.current.cursor.rest

/-- A channel is taken as an item exactly if its references are cited. -/
theorem takes_channel_iff {labels : List String} :
    Takes (.channel labels) s t ↔ ∃ found, Cites found s t ∧ found.map (·.label) = labels := by
  constructor
  · rintro ⟨hstays, front, back, hcomments, htext, hgap⟩
    cases htext with
    | @channel _ text behind _ hspelled hreferences =>
      have hbehind : behind <:+ s.current.cursor.rest :=
        (hspelled.suffix.trans (List.suffix_cons _ _)).trans hcomments.suffix
      obtain ⟨c, hc, rfl⟩ := Cursor.exists_reaches_of_suffix hbehind
      obtain ⟨found, d, hfound, hlabels, rfl⟩ := exists_referencesAt s.current.path hreferences
      exact ⟨found, ⟨hstays, text, c, d, hcomments, hspelled, hc, hfound, hgap⟩, hlabels⟩
  · rintro ⟨found, ⟨hstays, text, c, d, hcomments, hspelled, -, hfound, hgap⟩, rfl⟩
    exact ⟨hstays, _, d.rest, hcomments, .channel hspelled hfound.referencesText, hgap⟩

/-- The references that a turn cites are those that it reads and obeys. -/
theorem Goes.obeys_of_cites (h : Goes read o s t) (hcites : Cites found s t) :
    s.draft.obey? (.describe (.channel found)) = some t.draft := by
  obtain ⟨hstays, text, b, e, hcomments, hspelled, hb, hfound, hgap⟩ := hcites
  obtain ⟨p, c, token, rfl⟩ := Reading.nextToken_of_markText (x := '%') rfl hcomments (by simp)
  rcases h.stayed hstays with ⟨p', c', token', rfl⟩ | ⟨mark, c', x, d, draft, token', reads, obeys, rfl⟩
  · -- a blank is no mark
    obtain ⟨heq, -⟩ := EStateM.Result.ok.inj (token.symm.trans token')
    cases congrArg Token.kind heq
  · obtain ⟨rfl, rfl⟩ := EStateM.Result.ok.inj (token.symm.trans token')
    have hreaches : c.Reaches b :=
      (Reading.forward_nextToken.ok token).of_suffix hb hspelled.suffix
    obtain rfl := Reading.directive_of_channel reads hspelled hreaches hfound hgap
    exact obeys

theorem Goes.labels_of_cites (h : Goes read o s t) (hcites : Cites found s t) :
    t.draft.labels = s.draft.labels.referAll found := by
  obtain ⟨i, -, hdraft⟩ := Draft.obey?_describe.1 (h.obeys_of_cites hcites)
  rw [hdraft]
  rfl

/-- Only a channel notes references. -/
theorem references_of_obey? {draft draft' : Draft} {x : Directive}
    (h : draft.obey? x = some draft') (hx : ∀ found, x ≠ .describe (.channel found)) :
    draft'.labels.references = draft.labels.references := by
  cases x with
  | track label site =>
    obtain ⟨labels, hdefine, rfl⟩ := Draft.obey?_track.1 h
    obtain ⟨-, rfl⟩ := Registry.define_eq_ok.1 hdefine
    rfl
  | sequence label site notes =>
    obtain ⟨labels, hdefine, rfl⟩ := Draft.obey?_sequence.1 h
    obtain ⟨-, rfl⟩ := Registry.define_eq_ok.1 hdefine
    rfl
  | describe value =>
    obtain ⟨i, -, rfl⟩ := Draft.obey?_describe.1 h
    cases value with
    | name text | tempo beats => rfl
    | channel found => exact absurd rfl (hx found)

/-- A turn that cites nothing notes no references. -/
theorem Goes.references_eq (h : Goes read o s t) (hsilent : ∀ found, ¬ Cites found s t) :
    t.draft.labels.references = s.draft.labels.references := by
  by_cases htakes : ∃ it, Takes it s t
  · obtain ⟨it, htakes⟩ := htakes
    obtain ⟨x, hx, hobeys⟩ := h.obeys htakes
    refine references_of_obey? hobeys fun found heq => ?_
    -- a channel that is obeyed is a channel of the text
    rw [heq] at hx
    cases it with
    | track | sequence | name | tempo => cases hx
    | channel labels =>
      obtain ⟨sited, hcites, -⟩ := takes_channel_iff.1 htakes
      exact hsilent sited hcites
  · rw [h.draft_eq fun it hit => htakes ⟨it, hit⟩]

/-! ## Citations -/

/-- The references that are cited, turn by turn, on the way from `s` to another state. -/
inductive Citations (read : Provider) (o : Options) (s : State) : List Reference → State → Prop
  | start : Citations read o s [] s
  | silent {found : List Reference} {t u : State} (before : Citations read o s found t)
      (goes : Goes read o t u) (cites : ∀ more, ¬ Cites more t u) : Citations read o s found u
  | cites {found more : List Reference} {t u : State} (before : Citations read o s found t)
      (goes : Goes read o t u) (cites : Cites more t u) : Citations read o s (found ++ more) u

theorem Citations.leads (h : Citations read o s found t) : Leads read o s t := by
  induction h with
  | start => exact .refl
  | silent before goes cites ih => exact .tail ih goes
  | cites before goes cites ih => exact .tail ih goes

/-- On every way references are cited, if perhaps none. -/
theorem exists_citations (h : Leads read o s t) : ∃ found, Citations read o s found t := by
  induction h with
  | refl => exact ⟨[], .start⟩
  | @tail t u _ goes ih =>
    obtain ⟨found, before⟩ := ih
    by_cases hcites : ∃ more, Cites more t u
    · obtain ⟨more, hcites⟩ := hcites
      exact ⟨found ++ more, .cites before goes hcites⟩
    · exact ⟨found, .silent before goes fun more h => hcites ⟨more, h⟩⟩

/-- The first reference with a given property of its label is known to the registry. -/
theorem Citations.find?_references (P : String → Bool) (h : Citations read o s found t)
    (hs : s.draft.labels.references = []) :
    t.draft.labels.references.find? (P ·.label) = found.find? (P ·.label) := by
  induction h with
  | start => rw [hs]
  | silent before goes cites ih =>
    rw [goes.references_eq cites]
    exact ih
  | cites before goes cites ih =>
    rw [goes.labels_of_cites cites, Registry.find?_referAll, List.find?_append, List.find?_append, ih]

/-! ## The check -/

/-- The report on the first of some references that no sequence of the items answers: at its site, in
words that depend on whether its label is that of a track. -/
inductive Unanswered (items : List Item) (found : List Reference) : Diagnostic → Prop
  | intro {front back : List Reference} {r : Reference} (split : found = front ++ r :: back)
      (answered : ∀ x ∈ front, (.sequence, x.label) ∈ Score.definitions items)
      (unanswered : (.sequence, r.label) ∉ Score.definitions items) :
      Unanswered items found
        ⟨if (.track, r.label) ∈ Score.definitions items then .trackLabel r.label
          else .undefinedLabel r.label, some r.site.source, r.site.position⟩

/-- Behind a way from the start of a text, the check reports on the references that were cited. -/
theorem check_eq_error_iff {path : SourcePath} {text : String}
    (htrail : Trail read o (.start path text) items e)
    (hfound : Citations read o (.start path text) found e) :
    e.draft.labels.check = .error d ↔ Unanswered items found d := by
  have hrecords := htrail.records_start
  have hnames : ∀ x : Reference, (!e.draft.labels.namesSequence x.label) = true ↔
      (.sequence, x.label) ∉ Score.definitions items := by
    intro x
    rw [Bool.not_eq_true', ← Bool.not_eq_true, hrecords.namesSequence_iff]
  rw [Registry.check_eq_error]
  have hfind := hfound.find?_references (fun label => !e.draft.labels.namesSequence label) rfl
  rw [hfind]
  constructor
  · intro h
    obtain ⟨r, hr, rfl⟩ := h
    obtain ⟨hunanswered, front, back, hsplit, hfront⟩ := List.find?_eq_some_iff_append.1 hr
    have hlabel := (hnames r).1 hunanswered
    rw [hrecords.refusal_eq hlabel]
    refine .intro hsplit (fun x hx => ?_) hlabel
    have hx := hfront x hx
    simpa [hrecords.namesSequence_iff] using hx
  · intro h
    cases h with
    | @intro front back r split answered unanswered =>
      refine ⟨r, List.find?_eq_some_iff_append.2
        ⟨(hnames r).2 unanswered, front, back, split, fun x hx => ?_⟩, ?_⟩
      · simpa [hrecords.namesSequence_iff] using answered x hx
      · rw [hrecords.refusal_eq unanswered]
        rfl

/-- Where a reference is not answered, there is a first one that is not. -/
theorem exists_unanswered_iff :
    (∃ d, Unanswered items found d) ↔
      ∃ r ∈ found, (.sequence, r.label) ∉ Score.definitions items := by
  constructor
  · rintro ⟨d, ⟨rfl, -, hlabel⟩⟩
    exact ⟨_, by simp, hlabel⟩
  · rintro ⟨r, hr, hlabel⟩
    have hfound : (found.find? fun x => (.sequence, x.label) ∉ Score.definitions items).isSome :=
      List.find?_isSome.2 ⟨r, hr, by simpa using hlabel⟩
    obtain ⟨first, hfirst⟩ := Option.isSome_iff_exists.1 hfound
    obtain ⟨hunanswered, front, back, hsplit, hfront⟩ := List.find?_eq_some_iff_append.1 hfirst
    refine ⟨_, .intro hsplit (fun x hx => ?_) (by simpa using hunanswered)⟩
    simpa using hfront x hx

theorem Unanswered.kind_eq (h : Unanswered items found d) : d.kind = .undefinedLabel := by
  cases h with
  | intro split answered unanswered =>
    show Cause.kind _ = _
    split <;> rfl

/-- Other items that define the same and other references to the same labels have the same one of
the references reported, for the same cause. -/
theorem Unanswered.transfer (h : Unanswered items found d)
    (hdefined : ∀ x, x ∈ Score.definitions items ↔ x ∈ Score.definitions items')
    (hlabels : found.map (·.label) = found'.map (·.label)) :
    ∃ (k : Nat) (r r' : Reference), found[k]? = some r ∧ found'[k]? = some r' ∧
      d = ⟨d.cause, some r.site.source, r.site.position⟩ ∧
      Unanswered items' found' ⟨d.cause, some r'.site.source, r'.site.position⟩ := by
  cases h with
  | @intro front back r split answered unanswered =>
    rw [split, List.map_append, List.map_cons] at hlabels
    -- the other references are split where the labels are
    obtain ⟨front', tail, rfl, hfront, htail⟩ := List.map_eq_append_iff.1 hlabels.symm
    obtain ⟨r', back', rfl, hlabel, -⟩ := List.map_eq_cons_iff.1 htail
    have hlength : front'.length = front.length := by simpa using congrArg List.length hfront
    refine ⟨front.length, r, r', by simp [split], by simp [← hlength], rfl, ?_⟩
    have hreport : Unanswered items' (front' ++ r' :: back') _ := .intro rfl ?_ ?_
    · simp only [hlabel, ← hdefined] at hreport
      exact hreport
    · intro x hx
      have hx : x.label ∈ front.map (·.label) := hfront ▸ List.mem_map_of_mem hx
      obtain ⟨y, hy, hyx⟩ := List.mem_map.1 hx
      rw [← hyx, ← hdefined]
      exact answered y hy
    · rw [hlabel, ← hdefined]
      exact unanswered

/-! ## Documents that are read to their end -/

/-- The reading of a root source takes the items and cites the references, and comes to its end. -/
def Completes (read : Provider) (o : Options) (root : SourcePath) (items : List Item)
    (found : List Reference) : Prop :=
  ∃ text e, read root.normalize = .ok text ∧
    Trail read o (.start root.normalize text) items e ∧
    Citations read o (.start root.normalize text) found e ∧ e.turn read o = .stop (.ok e.draft)

/-- A document that is read to its end fails exactly for the first reference that is not answered. -/
theorem Completes.parse_eq_error_iff {root : SourcePath}
    (h : Completes read o root items found) :
    parse read o root = .error d ↔ Unanswered items found d := by
  obtain ⟨text, e, hread, htrail, hfound, hends⟩ := h
  rw [parse_of_read hread, parseText_of_leads htrail.leads hends, conclude_eq_error,
    check_eq_error_iff htrail hfound]

/-- A document fails for a reference only if it is read to its end. -/
theorem parse_eq_unanswered_iff {root : SourcePath} :
    parse read o root = .error d ∧ d.kind = .undefinedLabel ↔
      ∃ items found, Completes read o root items found ∧ Unanswered items found d := by
  constructor
  · rintro ⟨h, hkind⟩
    rcases parse_eq_error.1 h with ⟨fault, -, rfl⟩ | ⟨text, hread, htext⟩
    · cases hkind
    rcases parseText_eq_error.1 htext with ⟨s, -, hfails⟩ | ⟨e, hlead, hends, hcheck⟩
    · have hshows := hfails.shows
      rw [hkind] at hshows
      exact hshows.elim
    · obtain ⟨items, htrail⟩ := exists_trail hlead
      obtain ⟨found, hfound⟩ := exists_citations hlead
      exact ⟨items, found, ⟨text, e, hread, htrail, hfound, hends⟩,
        (check_eq_error_iff htrail hfound).1 hcheck⟩
  · rintro ⟨items, found, hcompletes, hreport⟩
    exact ⟨hcompletes.parse_eq_error_iff.2 hreport, hreport.kind_eq⟩

theorem Unanswered.message_eq (h : Unanswered items found d) :
    ∃ front r back, found = front ++ r :: back ∧
      (∀ x ∈ front, (.sequence, x.label) ∈ Score.definitions items) ∧
      (.sequence, r.label) ∉ Score.definitions items ∧
      d.source = some r.site.source ∧ d.position = r.site.position ∧
      d.message = "label " ++ r.label ++
        if (.track, r.label) ∈ Score.definitions items then " names a track, not a sequence"
        else " is undefined" := by
  cases h with
  | @intro front back r split answered unanswered =>
    refine ⟨front, r, back, split, answered, unanswered, rfl, rfl, ?_⟩
    show Cause.message _ = _
    split <;> rfl

/-- **The check of references is exact.** A document fails for a reference exactly if it is read to
its end and cites a label that no sequence of any source has. Of the references, in the order in
which they stand through all sources, the first such one is reported, with its own source and place,
and in words that say whether its label is that of a track. Only which labels are defined counts, not
where: of two documents that define the same and cite the same labels, both fail or none does; and if
they cite the labels in the same order, the same one of the references is reported, for the same
cause. -/
theorem label_check_exact (read : Provider) (o : Options) (root : SourcePath) :
    ((∃ d, parse read o root = .error d ∧ d.kind = .undefinedLabel) ↔
      ∃ items found, Completes read o root items found ∧
        ∃ r ∈ found, (.sequence, r.label) ∉ Score.definitions items) ∧
    (∀ items found d, Completes read o root items found → parse read o root = .error d →
      d.kind = .undefinedLabel ∧
      ∃ front r back, found = front ++ r :: back ∧
        (∀ x ∈ front, (.sequence, x.label) ∈ Score.definitions items) ∧
        (.sequence, r.label) ∉ Score.definitions items ∧
        d.source = some r.site.source ∧ d.position = r.site.position ∧
        d.message = "label " ++ r.label ++
          if (.track, r.label) ∈ Score.definitions items then " names a track, not a sequence"
          else " is undefined") ∧
    ∀ items found read' o' root' items' found', Completes read o root items found →
      Completes read' o' root' items' found' →
      (∀ x, x ∈ Score.definitions items ↔ x ∈ Score.definitions items') →
      ((∀ label, label ∈ found.map (·.label) ↔ label ∈ found'.map (·.label)) →
        ((∃ d, parse read o root = .error d) ↔ ∃ d, parse read' o' root' = .error d)) ∧
      (found.map (·.label) = found'.map (·.label) → ∀ d, parse read o root = .error d →
        ∃ (k : Nat) (r r' : Reference), found[k]? = some r ∧ found'[k]? = some r' ∧
          d = ⟨d.cause, some r.site.source, r.site.position⟩ ∧
          parse read' o' root' = .error ⟨d.cause, some r'.site.source, r'.site.position⟩) := by
  refine ⟨?_, ?_, ?_⟩
  · simp only [parse_eq_unanswered_iff, ← exists_unanswered_iff]
    constructor
    · rintro ⟨d, items, found, hcompletes, hreport⟩
      exact ⟨items, found, hcompletes, d, hreport⟩
    · rintro ⟨items, found, hcompletes, d, hreport⟩
      exact ⟨d, items, found, hcompletes, hreport⟩
  · intro items found d hcompletes h
    have hreport := hcompletes.parse_eq_error_iff.1 h
    exact ⟨hreport.kind_eq, hreport.message_eq⟩
  · intro items found read' o' root' items' found' hcompletes hcompletes' hdefined
    constructor
    · intro hlabels
      simp only [hcompletes.parse_eq_error_iff, hcompletes'.parse_eq_error_iff,
        exists_unanswered_iff, hdefined]
      have hexists : ∀ references : List Reference,
          (∃ r ∈ references, (.sequence, r.label) ∉ Score.definitions items') ↔
            ∃ label ∈ references.map (·.label), (.sequence, label) ∉ Score.definitions items' := by
        simp
      simp only [hexists, hlabels]
    · intro hlabels d h
      obtain ⟨k, r, r', hr, hr', hd, hreport⟩ :=
        (hcompletes.parse_eq_error_iff.1 h).transfer hdefined hlabels
      exact ⟨k, r, r', hr, hr', hd, hcompletes'.parse_eq_error_iff.2 hreport⟩

/-- A song whose track plays a sequence of an included source and, by mistake, itself. -/
def misnamed : Shelf := ⟨[
  (⟨"song"⟩, "@lead: %channel riff lead <parts>"),
  (⟨"parts"⟩, "$riff: c")]⟩

theorem parse_misnamed : parse misnamed.read ⟨2, false⟩ ⟨"song"⟩ =
    .error ⟨.trackLabel "lead", some ⟨"song"⟩, ⟨1, 22⟩⟩ := by
  have hread : misnamed.read (SourcePath.mk "song").normalize =
      .ok "@lead: %channel riff lead <parts>" := by decide +kernel
  exact parse_of_outcome 10 hread (by decide +kernel)

theorem label_check_misnamed :
    ∃ items found, Completes misnamed.read ⟨2, false⟩ ⟨"song"⟩ items found ∧
      (∃ front r back, found = front ++ r :: back ∧ r.site = ⟨⟨"song"⟩, ⟨1, 22⟩⟩ ∧
        (.sequence, r.label) ∉ Score.definitions items) ∧
      ∃ k : Nat, ∃ r, found[k]? = some r ∧ r.site = ⟨⟨"song"⟩, ⟨1, 22⟩⟩ := by
  obtain ⟨fails, report, transfer⟩ := label_check_exact misnamed.read ⟨2, false⟩ ⟨"song"⟩
  obtain ⟨items, found, hcompletes, -⟩ := fails.1 ⟨_, parse_misnamed, rfl⟩
  obtain ⟨-, front, ⟨label, site⟩, back, hsplit, -, hlabel, hsource, hplace, -⟩ :=
    report items found _ hcompletes parse_misnamed
  obtain ⟨-, same⟩ := transfer _ _ _ _ _ _ _ hcompletes hcompletes fun _ => Iff.rfl
  obtain ⟨k, ⟨label', site'⟩, -, hr, -, hd, -⟩ := same rfl _ parse_misnamed
  obtain ⟨-, hsource', hplace'⟩ := Diagnostic.mk.inj hd
  have hsite : (⟨⟨"song"⟩, ⟨1, 22⟩⟩ : Site) = site :=
    congrArg₂ Site.mk (Option.some.inj hsource) hplace
  have hsite' : (⟨⟨"song"⟩, ⟨1, 22⟩⟩ : Site) = site' :=
    congrArg₂ Site.mk (Option.some.inj hsource') hplace'
  exact ⟨items, found, hcompletes, ⟨front, _, back, hsplit, hsite.symm, hlabel⟩, k, _, hr,
    hsite'.symm⟩

end Songsheet.Document
