import Songsheet.Proofs.Document.Course
import Songsheet.Proofs.Reading.Crossing

/-!
# Documents laid out differently

How the words of a document are set apart does not matter. Where a reading crosses a separator,
another separator can stand in its place: the library is the same, or the error is of the same kind
in the same source. The same source may be read several times; it is cut in the same way each time,
so that the separator is crossed whenever the reading gets that far.

* `MeetsGap` — where in a turn a gap is skipped.
* `CrossesGap` — somewhere in the reading of a document a gap is crossed.
* `matches_of_meetsGap`, `matches_of_crossesGap` — a turn that meets a separator comes to the same
  with another one, and so do the turns in front of it and behind it.
* `relaid_parse` — and so does the document.
-/

namespace Songsheet.Document

open Reading

variable {read read' : Provider} {o : Options} {s s' : State} {root source : SourcePath}
  {sep sep' back : List Char} {c d e : Cursor}

/-! ## Gaps that are crossed -/

/-- A turn that begins at the first cursor skips gaps where the second one stands: where it begins,
behind the name of an attribute, behind a reference of a channel, and between the tokens of the notes
behind the label of a sequence. -/
inductive MeetsGap (source : SourcePath) (c : Cursor) : Cursor → Prop
  | turn : MeetsGap source c c
  | behindName {p : Position} {d e : Cursor} {name : String}
      (token : nextToken c = .ok ⟨.attributeMark, p⟩ d) (named : word d = .ok name e) :
      MeetsGap source c e
  | behindReference {p : Position} {d e f g k : Cursor} {name label : String}
      (token : nextToken c = .ok ⟨.attributeMark, p⟩ d) (named : word d = .ok name e)
      (channel : AttributeName.ofWord? name = some .channel) (gap : skipGap e = .ok () f)
      (others : ReferencesUpTo source f g) (last : word g = .ok label k) : MeetsGap source c k
  | amongNotes {p : Position} {d e f : Cursor} {label : String}
      (token : nextToken c = .ok ⟨.sequenceMark, p⟩ d) (labelled : definedLabel d = .ok label e)
      (tokens : Tokens e f) : MeetsGap source c f

theorem MeetsGap.reaches (h : MeetsGap source c e) : c.Reaches e := by
  cases h with
  | turn => exact .refl c
  | behindName token named => exact (forward_nextToken.ok token).trans (forward_word.ok named)
  | behindReference token named channel gap others last =>
    exact (forward_nextToken.ok token).trans ((forward_word.ok named).trans
      ((forward_skipGap.ok gap).trans (others.reaches.trans (forward_word.ok last))))
  | amongNotes token labelled tokens =>
    exact (forward_nextToken.ok token).trans
      ((forward_definedLabel.ok labelled).trans tokens.reaches)

/-- In the reading of a root source, a gap of a source is skipped in front of which this text is left:
a turn meets it, and reads on behind where it begins. -/
def CrossesGap (read : Provider) (o : Options) (root source : SourcePath) (rest : List Char) : Prop :=
  ∃ text s e, read root.normalize = .ok text ∧ Leads read o (.start root.normalize text) s ∧
    s.current.path = source ∧ MeetsGap source s.current.cursor e ∧ e.rest = rest ∧
    (cursorLeft (s.passage s.current.cursor)).rest.length < rest.length

/-! ## One turn -/

section Turn

variable (h : Separator sep back) (h' : Separator sep' back)
  (hpath : s.current.path = s'.current.path) (hdraft : s.draft.Alike .blind s'.draft)
  (hpair : Abreast .blind (sep ++ back) (sep' ++ back) s.current.cursor s'.current.cursor)
include h h' hpath hdraft hpair

omit hpath hdraft in
/-- A turn that begins with a separator. -/
theorem matches_passage_of_separator (hc : s.current.cursor.rest = sep ++ back) :
    Matches .blind (PassagesAlike .blind) (Around (sep ++ back) (sep' ++ back))
      (s.passage s.current.cursor) (s'.passage s'.current.cursor) := by
  apply (matches_nextToken h h' hc (hpair.rest_eq hc)).bind
  intro t d t' d' htoken halike hd
  rw [nextToken_of_blankFirst (hc ▸ h.blankFirst)] at htoken
  obtain ⟨_, f, -, hpure⟩ := bind_eq_ok.1 htoken
  obtain ⟨rfl, -⟩ := pure_eq_ok.1 hpure
  obtain ⟨kind', p'⟩ := t'
  obtain rfl : .blank = kind' := halike.1
  exact ⟨trivial, .inl hd⟩

/-- A turn that meets a separator comes to the same with another one. -/
theorem matches_of_meetsGap (hmeets : MeetsGap s.current.path s.current.cursor e)
    (he : e.rest = sep ++ back) :
    Matches .blind (PassagesAlike .blind) (Around (sep ++ back) (sep' ++ back))
      (s.passage s.current.cursor) (s'.passage s'.current.cursor) := by
  cases hmeets with
  | turn => exact matches_passage_of_separator h h' hpair he
  | behindName token named =>
    apply matches_passage_of_attribute (h.lookAlike h').stopAlike hpath hpair hdraft token
    · exact he ▸ (forward_word.ok named).suffix
    · intro _ d' habreast
      exact matches_trackAttribute_name h h' he habreast named
  | behindReference token named channel gap others last =>
    apply matches_passage_of_attribute (h.lookAlike h').stopAlike hpath hpair hdraft token
    · have hreaches := (forward_word.ok named).trans
        ((forward_skipGap.ok gap).trans (others.reaches.trans (forward_word.ok last)))
      exact he ▸ hreaches.suffix
    · intro _ d' habreast
      exact matches_trackAttribute_reference h h' he habreast named channel gap others last
  | amongNotes token labelled tokens =>
    have hd : sep ++ back <:+ _ := he ▸ tokens.reaches.suffix
    apply matches_passage_of_sequence (h.lookAlike h').stopAlike hpath hpair hdraft token labelled hd
    intro _ d' _ habreast
    exact matches_notes h h' he habreast tokens

end Turn

/-- What a turn reads in a source with another separator: the same, in front of the separator, at it
and behind it. -/
theorem matches_of_crossesGap (h : Separator sep back) (h' : Separator sep' back)
    (hpath : s.current.path = s'.current.path) (hdraft : s.draft.Alike .blind s'.draft)
    (hpair : Abreast .blind (sep ++ back) (sep' ++ back) s.current.cursor s'.current.cursor)
    (hcourse : OnCourse read s.current)
    (hcrosses : CrossesGap read o root s.current.path (sep ++ back)) :
    Matches .blind (PassagesAlike .blind) (Around (sep ++ back) (sep' ++ back))
      (s.passage s.current.cursor) (s'.passage s'.current.cursor) := by
  obtain ⟨text, t, e, hroot, hlead, hsource, hmeets, he, hless⟩ := hcrosses
  -- where the turn stands, as seen from the turn that crosses the separator
  rcases hcourse.compare (hlead.onCourse hroot) hsource.symm with
    hplace | ⟨next, hnext, hahead⟩ | ⟨next, hnext, hbehind⟩
  · rw [← hplace] at hmeets
    exact matches_of_meetsGap h h' hpath hdraft hpair hmeets he
  · -- the turn stops in front of the separator
    have hwithin : sep ++ back <:+ (cursorLeft (s.passage s.current.cursor)).rest := by
      rw [← he]
      exact (hnext.of_passage.trans (hahead.trans hmeets.reaches)).suffix
    have hparts := Pairing.readsParts_abreast (b := .blind) (h.lookAlike h')
    have hpassage := (reads_passage hparts hpath hdraft).result _ _ hpair hwithin
    exact hpassage.mono (fun _ _ hx => hx) fun _ _ => .inr
  · -- the turn would stand behind the separator
    obtain ⟨before, hfront, -⟩ := hpair.front
    rw [← hsource] at hnext
    have hlength := hbehind.length_le
    have hleft := hnext.of_passage.length_le
    rw [hfront, List.length_append] at hlength
    omega

/-! ## Whole documents -/

/-- **Separators do not matter.** In a source, a run of blanks and closed comments that begins with a
blank and is crossed by the reading is replaced by another one. Then the document comes to the same
library, or to an error of the same kind in the same source. -/
theorem relaid_parse (read read' : Provider) (o : Options) (root source : SourcePath)
    (front sep sep' back : List Char) (hread : read source = .ok (.ofList (front ++ (sep ++ back))))
    (hread' : read' source = .ok (.ofList (front ++ (sep' ++ back))))
    (hothers : ∀ path : SourcePath, path.Normal → path ≠ source → read' path = read path)
    (hsep : Separator sep back) (hsep' : Separator sep' back)
    (hcrosses : CrossesGap read o root source (sep ++ back)) :
    SameOutcome (parse read o root) (parse read' o root) := by
  refine parse_alike (b := .blind) (K := fun path c c' => SameRest c c' ∨
    path = source ∧ Abreast .blind (sep ++ back) (sep' ++ back) c c') rfl ?_ ?_
  · intro path hnormal
    by_cases hpath : path = source
    · subst hpath
      exact .inr ⟨_, _, hread, hread', rfl,
        .inr ⟨rfl, ⟨front, String.toList_ofList, String.toList_ofList⟩, rfl⟩⟩
    · have hsame := hothers path hnormal hpath
      cases hfound : read path with
      | error fault => exact .inl ⟨fault, hfound, hsame.trans hfound⟩
      | ok text => exact .inr ⟨text, text, hfound, hsame.trans hfound, rfl, .inl rfl⟩
  · intro text u u' hroot hlead hu
    obtain ⟨hpath, hsame | ⟨hsource, hpair⟩⟩ := hu.current
    · have hpassage := (reads_passage readsParts_sameRest hpath hu.draft).matches_sameRest hsame
      exact hpassage.mono (fun _ _ hx => hx) fun _ _ => .inl
    · have hpassage := matches_of_crossesGap hsep hsep' hpath hu.draft hpair (hlead.onCourse hroot)
        (hsource ▸ hcrosses)
      apply hpassage.mono (fun _ _ hx => hx)
      intro c c' haround
      exact haround.imp_right fun habreast => ⟨hsource, habreast⟩

/-- The only source is a song with this text. -/
def single (text : String) : Provider := fun path =>
  if path = ⟨"song"⟩ then .ok text else .error .missing

theorem single_root (text : String) : single text (SourcePath.mk "song").normalize = .ok text :=
  if_pos (by decide +kernel)

/-- A sequence of two notes. -/
def twoNotes : Library :=
  ⟨[], [⟨"a", [⟨.c, 4, ⟨0, 32⟩⟩, ⟨.d, 4, ⟨0, 32⟩⟩]⟩], [("a", 0)]⟩

theorem crossesGap_single :
    CrossesGap (single "$a: c d") .standard ⟨"song"⟩ ⟨"song"⟩ (" ".toList ++ "d".toList) := by
  have hmark : gapAt (fun _ => false) "$a: c d".toList = .upTo [] "$a: c d".toList := by
    decide +kernel
  have token : nextToken (.ofText "$a: c d") =
      .ok ⟨.sequenceMark, ⟨1, 1⟩⟩ ⟨"a: c d".toList, ⟨1, 2⟩⟩ :=
    nextToken_of_comments (c := .ofText "$a: c d") hmark rfl rfl
  have labelled : definedLabel ⟨"a: c d".toList, ⟨1, 2⟩⟩ = .ok "a" ⟨" c d".toList, ⟨1, 4⟩⟩ := rfl
  have hblank : gapAt (fun _ => false) " c d".toList = .upTo [] " c d".toList := by decide +kernel
  have hskip : gapAt Text.isBlank " c d".toList = .upTo [' '] "c d".toList := by decide +kernel
  have blank : nextToken ⟨" c d".toList, ⟨1, 4⟩⟩ =
      .ok ⟨.blank, ⟨1, 4⟩⟩ ⟨"c d".toList, ⟨1, 5⟩⟩ :=
    nextToken_of_comments (c := ⟨" c d".toList, ⟨1, 4⟩⟩) hblank rfl
      (kindFrom_eq_blank.2 ⟨by decide, skip_eq_ok.2 ⟨_, _, hskip, rfl⟩⟩)
  have hkey : gapAt (fun _ => false) "c d".toList = .upTo [] "c d".toList := by decide +kernel
  have key : nextToken ⟨"c d".toList, ⟨1, 5⟩⟩ =
      .ok ⟨.key "c", ⟨1, 5⟩⟩ ⟨" d".toList, ⟨1, 6⟩⟩ :=
    nextToken_of_comments (c := ⟨"c d".toList, ⟨1, 5⟩⟩) hkey rfl rfl
  have tokens : Tokens ⟨" c d".toList, ⟨1, 4⟩⟩ ⟨" d".toList, ⟨1, 6⟩⟩ :=
    .head ⟨_, blank⟩ (.single ⟨_, key⟩)
  exact ⟨"$a: c d", _, _, by decide +kernel, .refl, by decide +kernel,
    .amongNotes token labelled tokens, rfl, by decide +kernel⟩

theorem parse_single : parse (single "$a: c d") .standard ⟨"song"⟩ = .ok twoNotes :=
  parse_of_turns 2 (single_root _) (by decide +kernel)

theorem parse_relaid :
    parse (single "$a: c\n/* < */ // @\nd") .standard ⟨"song"⟩ = .ok twoNotes := by
  have hsep : Separator " ".toList "d".toList :=
    ⟨⟨' ', [], by decide +kernel, by decide⟩, .blank (by decide) .nothing⟩
  have hgap : gapAt Text.isBlank ("\n/* < */ // @\n".toList ++ "d".toList) =
      .upTo "\n/* < */ // @\n".toList "d".toList := by decide +kernel
  have hsep' : Separator "\n/* < */ // @\n".toList "d".toList :=
    ⟨⟨'\n', "/* < */ // @\n".toList, by decide +kernel, by decide⟩, gapText_of_gapAt hgap⟩
  have h := relaid_parse (single "$a: c d") (single "$a: c\n/* < */ // @\nd") .standard ⟨"song"⟩
    ⟨"song"⟩ "$a: c".toList " ".toList "\n/* < */ // @\n".toList "d".toList (by decide +kernel)
    (by decide +kernel) (fun path _ hne => by rw [single, single, if_neg hne, if_neg hne]) hsep hsep'
    crossesGap_single
  rw [parse_single] at h
  exact h.eq_ok

end Songsheet.Document
