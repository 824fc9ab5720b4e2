import Songsheet.Proofs.Document.Transcript

/-!
# The language of documents

A document without includes is written as items with gaps in front of them and behind. Such a text
defines a library exactly if its items are sound, and the library is that of the items; no other
text defines one, unless its reading includes something.

* `DocumentText` — the text of a document: a gap, and any number of items with gaps behind them.
* `IncludesNothing` — a reading that never enters another source.
* `documentText_of_trail` — what is read to its end is the text of a document.
* `ItemsText.stays` — the text of a document is read to its end, item by item.
* `parseText_iff_documentText` — the two together.
-/

namespace Songsheet.Document

open Score

variable {read : Provider} {o : Options} {s t e f : State} {it : Item}
  {items more before : List Item} {text middle rest : List Char}

/-! ## Texts of items -/

/-- Items with gaps in front of them and behind. -/
inductive ItemsText : List Item → List Char → List Char → Prop
  | nothing {text rest : List Char} (gap : GapText Text.isBlank text rest) : ItemsText [] text rest
  | item {it : Item} {items : List Item} {text t₁ t₂ rest : List Char}
      (gap : GapText Text.isBlank text t₁) (item : ItemText it t₁ t₂)
      (behind : ItemsText items t₂ rest) : ItemsText (it :: items) text rest

/-- A whole text of items. -/
def DocumentText (items : List Item) (text : String) : Prop :=
  ItemsText items text.toList []

/-- The reading of a text never enters another source. -/
def IncludesNothing (read : Provider) (o : Options) (path : SourcePath) (text : String) : Prop :=
  ∀ s, Leads read o (.start path text) s → s.suspended = []

namespace ItemsText

theorem behind_gap (h : ItemsText items middle rest) (hgap : GapText Text.isBlank text middle) :
    ItemsText items text rest := by
  cases h with
  | nothing gap => exact .nothing (hgap.trans gap)
  | item gap item behind => exact .item (hgap.trans gap) item behind

theorem append (h : ItemsText items text middle) (hmore : ItemsText more middle rest) :
    ItemsText (items ++ more) text rest := by
  induction h with
  | nothing gap => exact hmore.behind_gap gap
  | item gap item behind ih => exact .item gap item (ih hmore)

/-- Behind the gap in front of items, the first of them begins, or the text ends. -/
theorem exists_opening (h : ItemsText items text []) :
    ∃ opening, BehindGap text opening ∧ AtMark opening := by
  cases h with
  | nothing gap =>
    exact ⟨[], gap.behindGap (fun _ h => h) atMark_nil.behindGap, atMark_nil⟩
  | @item _ _ _ t₁ _ _ gap item behind =>
    have hmark := atMark_of_itemText item
    exact ⟨t₁, gap.behindGap (fun _ h => h) hmark.behindGap, hmark⟩

end ItemsText

/-! ## What is read is a document -/

/-- Comments in front of what is not one of them are a gap. -/
theorem gapText_of_comments (h : CommentsText text rest) : GapText Text.isBlank text rest :=
  h.mono fun _ hc => by simp at hc

/-- A turn that takes no item, and stays in its source, takes a gap. -/
theorem Goes.gapText (h : Goes read o s t) (hquiet : ∀ it, ¬ Takes it s t)
    (hstays : t.suspended = s.suspended) :
    GapText Text.isBlank s.current.cursor.rest t.current.cursor.rest := by
  rcases h.stayed hstays with ⟨p, c, token, rfl⟩ | ⟨mark, c, x, d, draft, token, reads, -, rfl⟩
  · obtain ⟨rest, hcomments, -, hgap⟩ := Reading.commentsText_of_gap token (.inl rfl)
    exact (gapText_of_comments hcomments).trans hgap.gapText
  · obtain ⟨it, htakes⟩ := exists_takes token reads draft
    exact absurd htakes (hquiet it)

/-- What lies along a trail that stays in its source is the text of the items that were taken. -/
theorem Trail.itemsText (h : Trail read o s items t)
    (hstays : ∀ u, Leads read o s u → u.suspended = []) :
    ItemsText items s.current.cursor.rest t.current.cursor.rest := by
  induction h with
  | start => exact .nothing .nothing
  | @quiet items t u before goes takes ih =>
    have hsame : u.suspended = t.suspended := by
      rw [hstays t before.leads, hstays u (.tail before.leads goes)]
    have hgap := ItemsText.nothing (goes.gapText takes hsame)
    have hwhole := ih.append hgap
    rwa [List.append_nil] at hwhole
  | @item items it t u before goes takes ih =>
    obtain ⟨-, front, back, hcomments, htext, hgap⟩ := takes
    exact ih.append (.item (gapText_of_comments hcomments) htext (.nothing hgap))

/-- A text that is read to its end, and includes nothing, is a document. -/
theorem documentText_of_trail {path : SourcePath} {text : String}
    (h : Trail read o (.start path text) items e) (hstop : e.turn read o = .stop (.ok e.draft))
    (hnothing : IncludesNothing read o path text) : DocumentText items text := by
  obtain ⟨p, c, token, -, -⟩ := turn_eq_stop_ok_iff.1 hstop
  obtain ⟨-, hend⟩ := Reading.rest_of_nextToken_end token rfl
  have hwhole := (h.itemsText hnothing).append
    (.nothing (gapText_of_comments (gapText_of_gapAt hend)))
  rwa [List.append_nil] at hwhole

/-! ## Documents are read -/

/-- Where turns that stay in their source lead to a stop, no other state is ever reached. -/
theorem Stays.suspended_of_leads {outcome : Except Diagnostic Draft} (h : Stays read o s e)
    (hstop : e.turn read o = .stop outcome) (hlead : Leads read o s t) :
    t.suspended = s.suspended := by
  induction h using Relation.ReflTransGen.head_induction_on with
  | refl =>
    rcases hlead.cases_head with rfl | ⟨u, hgo, -⟩
    · rfl
    · exact absurd hstop (Goes.not_stop hgo)
  | head hstep _ ih =>
    rcases hlead.cases_head with rfl | ⟨u, hgo, hrest⟩
    · rfl
    · obtain rfl := hstep.1.unique hgo
      exact (ih hrest).trans hstep.2

/-- An item that may stand behind the others is read and obeyed. -/
theorem exists_goes_item (read : Provider) (o : Options) {opening comments : List Char}
    (hcomments : gapAt (fun _ => false) f.current.cursor.rest = .upTo comments text)
    (item : ItemText it text rest) (hgap : GapText Text.isBlank rest opening)
    (hstop : it.Stops opening) (hdraft : f.draft.Records before) (hallowed : Allowed before it) :
    ∃ g, Goes read o f g ∧ g.suspended = f.suspended ∧ g.draft.Records (before ++ [it]) ∧
      GapText Text.isBlank g.current.cursor.rest opening := by
  obtain ⟨m, tail, mark, rfl, hm, hreads⟩ :=
    Reading.directive_of_itemText f.current.path item hgap hstop
  obtain ⟨p, c, token, hc⟩ := Reading.nextToken_of_mark hm hcomments
  obtain ⟨x, d, reads, hx, hrest⟩ := hreads c hc
  obtain ⟨draft, hobeys⟩ := hdraft.obeys_iff.2 hallowed
  have hsame : x.eraseSites = it.directive.eraseSites := by rw [it.directive_eraseSites, hx]
  have hdrafts : f.draft.eraseSites = f.draft.eraseSites := rfl
  obtain ⟨next, obeys, hnext⟩ := exists_obey? hdrafts hsame hobeys
  refine ⟨{ f.moveTo d with draft := next }, (Move.directive token reads obeys).goes, rfl, ?_, hrest⟩
  -- sites aside, what is obeyed is the item itself
  have hrecords := Draft.Records.eraseSites_iff.2 (hdraft.obey? hobeys)
  rw [← hnext] at hrecords
  exact Draft.Records.eraseSites_iff.1 hrecords

/-- The text of items is read to its end, also if a part of the gap in front of them has been taken
before. -/
theorem ItemsText.stays (read : Provider) (o : Options) (h : ItemsText items text [])
    (hdraft : f.draft.Records before)
    (hlegal : Legal (before ++ items))
    (hf : ∀ opening, BehindGap text opening → BehindGap f.current.cursor.rest opening) :
    ∃ g, Stays read o f g ∧ g.draft.Records (before ++ items) ∧
      BehindGap g.current.cursor.rest [] := by
  generalize hend : ([] : List Char) = rest at h
  induction h generalizing f before with
  | nothing gap =>
    obtain rfl := hend
    rw [List.append_nil]
    exact ⟨f, .refl, hdraft, hf [] (gap.behindGap (fun _ h => h) atMark_nil.behindGap)⟩
  | @item it items text t₁ t₂ rest gap item behind ih =>
    obtain rfl := hend
    have hmark := atMark_of_itemText item
    obtain ⟨g, comments, hstays, hsame, hcomments⟩ := exists_stays_gap read o
      (hf t₁ (gap.behindGap (fun _ h => h) hmark.behindGap)) hmark
    obtain ⟨opening, hopening, hnext⟩ := behind.exists_opening
    have hlegal' : Legal (before ++ [it] ++ items) := by simpa using hlegal
    have hallowed := (legal_concat.1 (legal_of_append hlegal')).2
    rw [← hsame] at hdraft
    obtain ⟨u, hgo, husame, hu, hurest⟩ := exists_goes_item read o hcomments item
      hopening.gapText (it.stops_of_atMark hnext) hdraft hallowed
    obtain ⟨k, hk, hrecords, hkrest⟩ := ih hu hlegal' (fun other hother => by
      obtain rfl := hopening.unique hother
      exact hurest.behindGap (fun _ h => h) hnext.behindGap) rfl
    rw [List.append_assoc] at hrecords
    exact ⟨k, hstays.trans (.head ⟨hgo, husame⟩ hk), hrecords, hkrest⟩

/-- The text of a document with sound items defines their library, from whatever path it is read,
whatever the provider answers and whatever the options are: it includes nothing. -/
theorem parseText_of_documentText {text : String} (h : DocumentText items text)
    (hsound : Sound items) (read : Provider) (o : Options) (path : SourcePath) :
    parseText read o path text = .ok (library items) ∧ IncludesNothing read o path text := by
  obtain ⟨g, hg, hrecords, hrest⟩ := ItemsText.stays (f := .start path text) read o h
    Draft.Records.empty hsound.toLegal fun _ h => h
  rw [List.nil_append] at hrecords
  obtain ⟨e, comments, he, hdraft, hcomments⟩ := exists_stays_gap read o hrest atMark_nil
  have hstays : Stays read o (.start path text) e := hg.trans he
  have hstop : e.turn read o = .stop (.ok e.draft) :=
    turn_eq_stop_ok_iff.2 ⟨_, _, Reading.nextToken_of_end hcomments, hstays.suspended, rfl⟩
  rw [← hdraft] at hrecords
  refine ⟨parseText_eq_ok_iff_leads.2 ⟨e, e.draft, hstays.leads, hstop, ?_⟩, ?_⟩
  · exact hrecords.conclude_eq_ok.2 ⟨hsound, rfl⟩
  · intro s hlead
    exact hstays.suspended_of_leads hstop hlead

/-- **The language.** A text defines a library, and its reading includes nothing, exactly if it is
the text of a document with sound items, and then it defines the library of these items. -/
theorem parseText_iff_documentText {path : SourcePath} {text : String} {l : Library} :
    (parseText read o path text = .ok l ∧ IncludesNothing read o path text) ↔
      ∃ items, DocumentText items text ∧ Sound items ∧ l = library items := by
  constructor
  · intro ⟨h, hnothing⟩
    obtain ⟨items, e, htrail, hstop⟩ := exists_trail_of_parseText h
    have hlibrary := library_of_trail h htrail hstop
    exact ⟨items, documentText_of_trail htrail hstop hnothing, hlibrary⟩
  · intro ⟨items, htext, hsound, hl⟩
    rw [hl]
    exact parseText_of_documentText htext hsound read o path

end Songsheet.Document
