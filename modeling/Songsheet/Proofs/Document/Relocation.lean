import Mathlib.Data.List.Find
import Songsheet.Proofs.Directive.Relocation
import Songsheet.Proofs.Document.Nesting
import Songsheet.Proofs.Document.Passage
import Songsheet.Proofs.SourcePath.Join

/-!
# Documents that are moved

A root source and all that it includes can be put into a directory, as long as no include leads out
of where they stand. The same turns are then taken: an include names the source that it named
before, under its new path, and a source that is being read already is still known as such.

* `ProvidesIn` — what is asked of the provider that reads in the directory; `Shelf.providesIn` puts
  a shelf there.
* `State.included?` — the source that is named by the include at which a turn stands.
* `State.relocate`, `TurnRelocated` — states and turns where sources are moved.
* `turn_relocate`, `Leads.relocate`, `run_relocate` — one turn, several turns and a whole reading.
* `Resolves`, `moved_parse` — what is asked of a document, and what it comes to in a directory.
-/

namespace Songsheet

/-! ## Providers of a directory -/

section Provider

variable {read read' : Provider} {d path : SourcePath}

/-- In a directory, a provider gives the texts that another one gives without, and no others. -/
def ProvidesIn (directory : SourcePath) (read read' : Provider) : Prop :=
  ∀ path : SourcePath, path.Inside →
    (read' (directory.join path)).toOption = (read path).toOption

theorem ProvidesIn.eq_ok {text : String} (h : ProvidesIn d read read') (hpath : path.Inside)
    (hread : read path = .ok text) : read' (d.join path) = .ok text := by
  have hgiven := h path hpath
  rw [hread] at hgiven
  cases hread' : read' (d.join path) with
  | error fault' =>
    rw [hread'] at hgiven
    cases hgiven
  | ok text' =>
    rw [hread'] at hgiven
    exact congrArg Except.ok (Option.some.inj hgiven)

theorem ProvidesIn.exists_error {fault : ReadFault} (h : ProvidesIn d read read')
    (hpath : path.Inside) (hread : read path = .error fault) :
    ∃ fault', read' (d.join path) = .error fault' := by
  have hgiven := h path hpath
  rw [hread] at hgiven
  cases hread' : read' (d.join path) with
  | error fault' => exact ⟨fault', rfl⟩
  | ok text' =>
    rw [hread'] at hgiven
    cases hgiven

/-- A shelf with all its sources put into a directory. -/
def Shelf.putInto (shelf : Shelf) (directory : SourcePath) : Shelf :=
  ⟨shelf.sources.map fun entry => (directory.join entry.1, entry.2)⟩

theorem Shelf.providesIn {shelf : Shelf} (hd : d.Normal)
    (hsources : ∀ entry ∈ shelf.sources, entry.1.Inside) :
    ProvidesIn d shelf.read (shelf.putInto d).read := by
  intro path hpath
  have hnormal : (d.join path).normalize = d.join path :=
    SourcePath.normal_iff.1 (SourcePath.normal_join hd hpath)
  have hfind : (shelf.putInto d).sources.find? (·.1 == d.join path) =
      (shelf.sources.find? (·.1 == path)).map fun entry => (d.join entry.1, entry.2) := by
    rw [putInto, List.find?_map]
    congr 1
    apply List.find?_congr
    intro entry hentry
    rw [Bool.eq_iff_iff, Function.comp_apply, beq_iff_eq, beq_iff_eq]
    constructor
    · exact SourcePath.join_injective hd (hsources entry hentry) hpath
    · exact congrArg d.join
  rw [read, read, hnormal, hpath.normal, hfind]
  cases shelf.sources.find? (·.1 == path) <;> rfl

end Provider

namespace Document

open Reading

variable {read read' : Provider} {o : Options} {s t : State} {d root path : SourcePath}
  {mark : Position} {c : Cursor} {move : SourcePath → SourcePath}

/-! ## What includes name -/

/-- The source that is named by the include at which a turn stands. -/
def State.included? (s : State) : Option SourcePath :=
  match s.passage s.current.cursor with
  | .ok (.names _ path) _ => some path
  | _ => none

theorem State.included?_of_passage (h : s.passage s.current.cursor = .ok (.names mark path) c) :
    s.included? = some path := by
  rw [included?, h]

theorem State.included?_of_token {c' : Cursor}
    (token : nextToken s.current.cursor = .ok ⟨.includeMark, mark⟩ c)
    (reads : s.readPath mark c = .ok path c') : s.included? = some path := by
  have hpassage : s.passage s.current.cursor = .ok (.names mark path) c' := by
    rw [passage_of_include token]
    exact bind_eq_ok.2 ⟨path, c', reads, rfl⟩
  exact included?_of_passage hpassage

/-! ## States where sources are moved -/

def OpenSource.relocate (move : SourcePath → SourcePath) (source : OpenSource) : OpenSource :=
  { source with path := move source.path }

def State.relocate (move : SourcePath → SourcePath) (s : State) : State :=
  ⟨s.current.relocate move, s.suspended.map (.relocate move), s.draft.mapSites (.relocate move)⟩

def Passage.relocate (move : SourcePath → SourcePath) : Passage → Passage
  | .names mark path => .names mark (move path)
  | .drafts draft => .drafts (draft.mapSites (.relocate move))
  | passage => passage

theorem State.path_relocate (move : SourcePath → SourcePath) (s : State) :
    (s.relocate move).current.path = move s.current.path := rfl

theorem State.stack_relocate (move : SourcePath → SourcePath) (s : State) :
    (s.relocate move).stack = s.stack.map (.relocate move) := rfl

/-- No source that is being read leads upwards first, nor does one that the next turn names. -/
structure State.Inside (s : State) : Prop where
  stack : ∀ source ∈ s.stack, source.path.Inside
  included : ∀ path, s.included? = some path → path.Inside

theorem State.Inside.current (h : s.Inside) : s.current.path.Inside :=
  h.stack s.current (List.mem_cons_self ..)

/-! ## One turn -/

/-- An include names the same source where both are moved. -/
theorem relocated_readPath (hd : d.Normal) (hs : s.Inside)
    (token : nextToken s.current.cursor = .ok ⟨.includeMark, mark⟩ c) :
    Relocated d.join d.join (s.readPath mark c) ((s.relocate d.join).readPath mark c) := by
  cases reads : s.readPath mark c with
  | error e c' =>
    obtain ⟨hclose, rfl, rfl⟩ := State.readPath_eq_error.1 reads
    rw [State.readPath_eq_error.2 ⟨hclose, rfl, rfl⟩]
    exact Diagnostic.movesTo_self rfl
  | ok path c' =>
    have hpath := hs.included path (State.included?_of_token token reads)
    obtain ⟨target, htarget, hnamed⟩ := State.readPath_eq_ok.1 reads
    rw [hnamed] at hpath
    have hmoved := SourcePath.resolve_join hd hs.current hpath
    rw [← hnamed, ← State.path_relocate d.join] at hmoved
    rw [State.readPath_eq_ok.2 ⟨target, htarget, hmoved.symm⟩]
    exact ⟨rfl, rfl⟩

theorem relocated_passage (hd : d.Normal) (hs : s.Inside) :
    Relocated d.join (.relocate d.join) (s.passage s.current.cursor)
      ((s.relocate d.join).passage s.current.cursor) := by
  refine (relocates_self (fun _ _ => confined_nextToken) s.current.cursor).bind
    fun token c htoken => ?_
  obtain ⟨kind, mark⟩ := token
  cases kind with
  | blank => exact ⟨rfl, rfl⟩
  | endOfText => exact ⟨rfl, rfl⟩
  | includeMark =>
    exact (relocated_readPath hd hs htoken).bind fun _ _ _ => ⟨rfl, rfl⟩
  | _ =>
    exact (s.draft.relocates_readDirective s.current.path _ c).bind fun _ _ _ => ⟨rfl, rfl⟩

/-- In a directory, the same sources are refused, for reasons of the same class. -/
theorem State.refusal?_relocate (hd : d.Normal) (hs : s.Inside) (hpath : path.Inside) :
    ((s.relocate d.join).refusal? o (d.join path)).map Cause.kind =
      (s.refusal? o path).map Cause.kind := by
  have hmet : (s.relocate d.join).activePaths.any (·.same (d.join path)) =
      s.activePaths.any (·.same path) := by
    simp only [activePaths_eq, stack_relocate, List.any_map, List.any_reverse]
    rw [Bool.eq_iff_iff, List.any_eq_true, List.any_eq_true]
    refine exists_congr fun source => and_congr_right fun hsource => ?_
    have hsame := SourcePath.same_join hd (hs.stack source hsource) hpath
    exact iff_of_eq (congrArg (· = true) hsame)
  have hdepth : (s.relocate d.join).suspended.length = s.suspended.length := List.length_map _
  rw [refusal?, refusal?, hmet, hdepth]
  split
  · rfl
  · split <;> rfl

/-- Two turns: both stop, with outcomes of which the second is where the first one is moved, or both
go on, to states of which it is. -/
def TurnRelocated (move : SourcePath → SourcePath) : Turn → Turn → Prop
  | .stop outcome, .stop outcome' =>
    OutcomeRelocated move (.mapSites (.relocate move)) outcome outcome'
  | .go t, .go t' => t' = t.relocate move
  | _, _ => False

theorem TurnRelocated.eq_go {turn' : Turn} (h : TurnRelocated move (.go t) turn') :
    turn' = .go (t.relocate move) := by
  cases turn' with
  | stop outcome' => exact absurd h id
  | go t' => exact congrArg Turn.go h

theorem TurnRelocated.exists_stop {outcome : Except Diagnostic Draft} {turn' : Turn}
    (h : TurnRelocated move (.stop outcome) turn') :
    ∃ outcome', turn' = .stop outcome' ∧
      OutcomeRelocated move (.mapSites (.relocate move)) outcome outcome' := by
  cases turn' with
  | stop outcome' => exact ⟨outcome', rfl, h⟩
  | go t' => exact absurd h id

theorem turnAtEnd_relocate (s : State) :
    TurnRelocated move s.turnAtEnd (s.relocate move).turnAtEnd := by
  obtain ⟨current, suspended, draft⟩ := s
  cases suspended with
  | nil => rfl
  | cons waiting others => rfl

/-- At an include, a source is refused, missing or entered as it is where nothing is moved. -/
theorem turnAtInclude_relocate (hd : d.Normal) (hs : s.Inside) (hpath : path.Inside)
    (hprovide : ProvidesIn d read read') :
    TurnRelocated d.join (s.turnAtInclude read o c mark path)
      ((s.relocate d.join).turnAtInclude read' o c mark (d.join path)) := by
  have hreported : ∀ cause cause' : Cause, cause'.kind = cause.kind →
      ((cause.reportedAt mark).inSource s.current.path).MovesTo d.join
        ((cause'.reportedAt mark).inSource (d.join s.current.path)) :=
    fun _ _ hkind => (Cause.movesTo_reportedAt hkind mark).inSource s.current.path
  have hrefusal := State.refusal?_relocate (o := o) hd hs hpath
  unfold State.turnAtInclude
  cases hrefused : s.refusal? o path with
  | some cause =>
    rw [hrefused] at hrefusal
    obtain ⟨cause', hrefused', hkind⟩ := Option.map_eq_some_iff.1 hrefusal
    rw [hrefused']
    exact hreported cause cause' hkind
  | none =>
    rw [hrefused] at hrefusal
    rw [Option.map_eq_none_iff.1 hrefusal]
    cases found : read path with
    | error fault =>
      obtain ⟨fault', found'⟩ := hprovide.exists_error hpath found
      rw [found']
      exact hreported _ _ rfl
    | ok text =>
      rw [hprovide.eq_ok hpath found]
      rfl

/-- A turn comes to the same where sources are moved into a directory. -/
theorem turn_relocate (hd : d.Normal) (hs : s.Inside)
    (hprovide : ProvidesIn d read read') :
    TurnRelocated d.join (s.turn read o) ((s.relocate d.join).turn read' o) := by
  have hpassage : Relocated d.join (.relocate d.join) (s.passage s.current.cursor)
      ((s.relocate d.join).passage (s.relocate d.join).current.cursor) :=
    relocated_passage hd hs
  rw [s.turn_eq, (s.relocate d.join).turn_eq]
  cases hread : s.passage s.current.cursor with
  | error e c =>
    rw [hread] at hpassage
    obtain ⟨e', c', hread', he⟩ := hpassage.exists_error
    rw [hread']
    exact he.inSource s.current.path
  | ok x c =>
    rw [hread] at hpassage
    rw [hpassage.eq_ok]
    cases x with
    | blank => rfl
    | ending => exact turnAtEnd_relocate s
    | names mark path =>
      have hpath := hs.included path (State.included?_of_passage hread)
      exact turnAtInclude_relocate hd hs hpath hprovide
    | drafts draft => rfl

/-! ## Several turns -/

/-- Where every include on the way names a source inside, so is every source that is being read. -/
theorem Goes.inside (h : Goes read o s t) (hs : s.Inside) :
    ∀ source ∈ t.stack, source.path.Inside := by
  obtain ⟨hcurrent, hsuspended⟩ := List.forall_mem_cons.1 hs.stack
  cases goes_iff.1 h with
  | blank token => exact List.forall_mem_cons.2 ⟨hcurrent, hsuspended⟩
  | directive token reads obeys => exact List.forall_mem_cons.2 ⟨hcurrent, hsuspended⟩
  | resume token waits =>
    rw [waits] at hsuspended
    exact hsuspended
  | enter token reads allowed found =>
    exact List.forall_mem_cons.2 ⟨hs.included _ (State.included?_of_token token reads),
      List.forall_mem_cons.2 ⟨hcurrent, hsuspended⟩⟩

/-- Neither the sources that are being read nor those that are named later on lead upwards first. -/
structure StaysInside (read : Provider) (o : Options) (s : State) : Prop where
  stack : ∀ source ∈ s.stack, source.path.Inside
  included : ∀ t path, Leads read o s t → t.included? = some path → path.Inside

theorem StaysInside.of_leads (h : StaysInside read o s) (hlead : Leads read o s t) : t.Inside := by
  induction hlead with
  | refl => exact ⟨h.stack, fun path => h.included s path .refl⟩
  | @tail u v hlead hgo ih => exact ⟨hgo.inside ih, fun path => h.included v path (hlead.tail hgo)⟩

/-- The same turns are taken where sources are moved into a directory. -/
theorem Leads.relocate (hlead : Leads read o s t) (hd : d.Normal) (hs : StaysInside read o s)
    (hprovide : ProvidesIn d read read') :
    Leads read' o (s.relocate d.join) (t.relocate d.join) := by
  induction hlead with
  | refl => exact .refl
  | @tail u v hlead hgo ih =>
    have hturn := turn_relocate (o := o) hd (hs.of_leads hlead) hprovide
    rw [hgo] at hturn
    exact ih.tail hturn.eq_go

/-- A reading comes to the same where sources are moved into a directory. -/
theorem run_relocate (hd : d.Normal) (hs : StaysInside read o s)
    (hprovide : ProvidesIn d read read')
    (hdepth : s.suspended.length ≤ o.maxIncludeDepth)
    (hdepth' : (s.relocate d.join).suspended.length ≤ o.maxIncludeDepth) :
    OutcomeRelocated d.join (.mapSites (.relocate d.join)) (run read o s hdepth)
      (run read' o (s.relocate d.join) hdepth') := by
  obtain ⟨t, hlead, hstop⟩ := exists_leads_stop read hdepth
  have hturn := turn_relocate (o := o) hd (hs.of_leads hlead) hprovide
  rw [hstop] at hturn
  obtain ⟨outcome', hstop', houtcome⟩ := hturn.exists_stop
  rwa [(run_eq_iff_leads hdepth').2 ⟨_, hlead.relocate hd hs hprovide, hstop'⟩]

/-! ## Whole documents -/

/-- The references of a draft are answered in the same way where sources are moved. -/
theorem conclude_relocate (move : SourcePath → SourcePath) (draft : Draft) :
    OutcomeRelocated move id (conclude draft) (conclude (draft.mapSites (.relocate move))) := by
  have hcheck := draft.labels.check_relocate move
  cases h : draft.labels.check with
  | ok =>
    rw [h] at hcheck
    rw [conclude_eq_ok.2 ⟨h, rfl⟩, conclude_eq_ok.2 ⟨hcheck.eq_ok, rfl⟩]
    rfl
  | error e =>
    rw [h] at hcheck
    obtain ⟨e', h', he⟩ := hcheck.exists_error
    rw [conclude_eq_error.2 h, conclude_eq_error.2 h']
    exact he

theorem parseText_relocate {text : String} (hd : d.Normal)
    (hs : StaysInside read o (.start path text))
    (hprovide : ProvidesIn d read read') :
    OutcomeRelocated d.join id (parseText read o path text)
      (parseText read' o (d.join path) text) := by
  have hrun := run_relocate hd hs hprovide (Nat.zero_le _) (Nat.zero_le _)
  show OutcomeRelocated d.join id (run read o (.start path text) _ >>= conclude)
    (run read' o ((State.start path text).relocate d.join) _ >>= conclude)
  cases h : run read o (.start path text) (Nat.zero_le _) with
  | ok draft =>
    rw [h] at hrun
    rw [hrun.eq_ok]
    exact conclude_relocate d.join draft
  | error e =>
    rw [h] at hrun
    obtain ⟨e', h', he⟩ := hrun.exists_error
    rw [h']
    exact he

/-- What is reported names the source in which it was found. -/
theorem exists_source_of_parse {e : Diagnostic} (h : parse read o root = .error e) :
    ∃ path, e.source = some path := by
  rcases parse_eq_error.1 h with ⟨fault, -, rfl⟩ | ⟨text, -, htext⟩
  · exact ⟨root.normalize, rfl⟩
  rcases parseText_eq_error.1 htext with ⟨s, -, hfails⟩ | ⟨t, -, -, hcheck⟩
  · exact ⟨s.current.path, hfails.source_eq⟩
  · obtain ⟨reference, -, rfl⟩ := Registry.check_eq_error.1 hcheck
    exact ⟨reference.site.source, rfl⟩

/-- In the reading of a root source, an include names a source. -/
def Resolves (read : Provider) (o : Options) (root path : SourcePath) : Prop :=
  ∃ text s, read root.normalize = .ok text ∧ Leads read o (.start root.normalize text) s ∧
    s.included? = some path

/-- The sources that includes name, if the reading stops within a number of turns. -/
def State.includes? (read : Provider) (o : Options) : Nat → State → Option (List SourcePath)
  | 0, _ => none
  | n + 1, s =>
    match s.turn read o with
    | .stop _ => some s.included?.toList
    | .go t => (t.includes? read o n).map (s.included?.toList ++ ·)

theorem Leads.mem_includes? {n : Nat} {paths : List SourcePath} (hlead : Leads read o s t)
    (hpath : t.included? = some path) (h : s.includes? read o n = some paths) : path ∈ paths := by
  induction n generalizing s paths with
  | zero => cases h
  | succ n ih =>
    rw [State.includes?] at h
    rcases hlead.cases_head with rfl | ⟨u, hgo, hlead⟩
    · cases hturn : s.turn read o with
      | stop outcome =>
        rw [hturn] at h
        obtain rfl := Option.some.inj h
        simp [hpath]
      | go u =>
        rw [hturn] at h
        obtain ⟨others, -, rfl⟩ := Option.map_eq_some_iff.1 h
        simp [hpath]
    · have hturn : s.turn read o = .go u := hgo
      rw [hturn] at h
      obtain ⟨others, hothers, rfl⟩ := Option.map_eq_some_iff.1 h
      exact List.mem_append_right _ (ih hlead hothers)

/-- A bound on the number of turns makes the sources that includes name a matter of evaluation. -/
theorem Resolves.mem_of_turns {n : Nat} {text : String} {paths : List SourcePath}
    (h : Resolves read o root path) (hread : read root.normalize = .ok text)
    (hpaths : (State.start root.normalize text).includes? read o n = some paths) :
    path ∈ paths := by
  obtain ⟨text', s, hread', hlead, hpath⟩ := h
  obtain rfl := Except.ok.inj (hread.symm.trans hread')
  exact hlead.mem_includes? hpath hpaths

theorem inside_of_resolves_duet (h : Resolves duet.read ⟨2, false⟩ ⟨"song"⟩ path) :
    path.Inside := by
  have hread : duet.read (SourcePath.mk "song").normalize = .ok
      "@lead: %name \"Lead\" %channel riff <parts/riff>\n@bass: %bpm 90 %channel riff" := by
    decide +kernel
  have hpaths : (State.start (SourcePath.mk "song").normalize
      "@lead: %name \"Lead\" %channel riff <parts/riff>\n@bass: %bpm 90 %channel riff").includes?
      duet.read ⟨2, false⟩ 15 = some [⟨"parts/riff"⟩] := by
    decide +kernel
  obtain rfl := List.mem_singleton.1 (h.mem_of_turns hread hpaths)
  decide +kernel

theorem parse_relocate (hd : d.Normal) (hroot : root.Inside)
    (hinside : ∀ path, Resolves read o root path → path.Inside)
    (hprovide : ProvidesIn d read read') :
    OutcomeRelocated d.join id (parse read o root) (parse read' o (d.join root)) := by
  have hnormal : (d.join root).normalize = d.join root :=
    SourcePath.normal_iff.1 (SourcePath.normal_join hd hroot)
  unfold parse
  rw [hnormal, hroot.normal]
  cases hread : read root with
  | error fault =>
    obtain ⟨fault', hread'⟩ := hprovide.exists_error hroot hread
    rw [hread']
    exact Diagnostic.MovesTo.mk rfl rfl rfl
  | ok text =>
    rw [hprovide.eq_ok hroot hread]
    refine parseText_relocate hd ⟨List.forall_mem_singleton.2 hroot, ?_⟩ hprovide
    intro t path hlead hpath
    refine hinside path ⟨text, t, ?_, ?_, hpath⟩
    · rw [hroot.normal, hread]
    · rwa [hroot.normal]

/-- The same library, or errors of one kind at one line and column, the second of which is reported
in the source of the first one, put into a directory. -/
def SameIn (directory : SourcePath) : Except Diagnostic Library → Except Diagnostic Library → Prop
  | .ok l, .ok l' => l' = l
  | .error e, .error e' => e'.kind = e.kind ∧ e'.position = e.position ∧
      ∃ path, e.source = some path ∧ e'.source = some (directory.join path)
  | _, _ => False

theorem SameIn.eq_ok {l : Library} {y : Except Diagnostic Library} (h : SameIn d (.ok l) y) :
    y = .ok l := by
  cases y with
  | ok l' => exact congrArg Except.ok h
  | error e' => exact absurd h id

/-- **Documents can be moved.** Let the root source, and every source that an include names, have a
relative path that does not lead upwards first, so that no target is absolute. Put into a directory,
be it absolute or somewhere above, and read by a provider that gives there what was given without,
the root source comes to the same library, or to an error of the same kind at the same line and
column, in the source of the same path put into the directory. -/
theorem moved_parse (read read' : Provider) (o : Options) (directory root : SourcePath)
    (hdirectory : directory.Normal) (hroot : root.Inside)
    (hinside : ∀ path, Resolves read o root path → path.Inside)
    (hprovide : ProvidesIn directory read read') :
    SameIn directory (parse read o root) (parse read' o (directory.join root)) := by
  have hmoved := parse_relocate hdirectory hroot hinside hprovide
  cases h : parse read o root with
  | ok l =>
    rw [h] at hmoved
    rw [hmoved.eq_ok]
    rfl
  | error e =>
    rw [h] at hmoved
    obtain ⟨path, hpath⟩ := exists_source_of_parse h
    obtain ⟨e', h', he⟩ := hmoved.exists_error
    rw [h']
    refine ⟨he.kind, he.position, path, hpath, ?_⟩
    rw [he.source, hpath]
    rfl

theorem moved_parse_duet :
    parse duet.read ⟨2, false⟩ ⟨"song"⟩ = .ok duetLibrary ∧
      parse (duet.putInto ⟨"../songs"⟩).read ⟨2, false⟩ ⟨"../songs/song"⟩ = .ok duetLibrary := by
  have hdirectory : (SourcePath.mk "../songs").Normal := SourcePath.normal_iff.2 (by decide +kernel)
  have hsources : ∀ entry ∈ duet.sources, entry.1.Inside := by decide +kernel
  have hmoved := moved_parse duet.read (duet.putInto ⟨"../songs"⟩).read ⟨2, false⟩ ⟨"../songs"⟩
    ⟨"song"⟩ hdirectory (by decide +kernel) (fun _ => inside_of_resolves_duet)
    (Shelf.providesIn hdirectory hsources)
  have hjoin : SourcePath.join ⟨"../songs"⟩ ⟨"song"⟩ = ⟨"../songs/song"⟩ := by decide +kernel
  rw [parse_duet, hjoin] at hmoved
  exact ⟨parse_duet, hmoved.eq_ok⟩

end Document

end Songsheet
