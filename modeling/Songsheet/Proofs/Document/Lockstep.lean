import Songsheet.Proofs.Document.Nesting
import Songsheet.Proofs.Document.Passage
import Songsheet.Proofs.SourcePath

/-!
# Documents read in lockstep

Two documents are read in lockstep if, turn by turn, their stacks hold the same sources and their
drafts look the same. What is asked of two sources that stand at the same place of the stacks is
left open: it is a relation, which may depend on what is below. If the passages that two turns read
are alike and leave sources so related, and if the providers give such sources, the turns come to the
same, and so do the documents.

* `Counterparts` — two states in lockstep.
* `turn_alike` — what is asked of one turn.
* `Leads.counterpart`, `parseText_alike` — what follows for several turns and for a document.
* `SameOutcome` — the same library, or an error of one kind in one source; `parse_alike` — what is
  asked of two providers for this.
-/

namespace Songsheet.Document

open Reading

/-- What is asked of a source and its counterpart, above some sources of the first document. -/
abbrev SourceRelation := List OpenSource → OpenSource → OpenSource → Prop

variable {read read' : Provider} {o : Options} {s s' t e : State} {b : Blur} {R : SourceRelation}
  {path path' : SourcePath} {text text' : String}

/-! ## States in lockstep -/

/-- Two stacks of the same height, with sources so related at each place. -/
inductive Stacks (R : SourceRelation) : List OpenSource → List OpenSource → Prop
  | nil : Stacks R [] []
  | cons {x x' : OpenSource} {below below' : List OpenSource} (top : R below x x')
      (rest : Stacks R below below') : Stacks R (x :: below) (x' :: below')

theorem Stacks.length_eq {below below' : List OpenSource} (h : Stacks R below below') :
    below.length = below'.length := by
  induction h with
  | nil => rfl
  | cons _ _ ih => exact congrArg (· + 1) ih

theorem Stacks.paths_eq (hR : ∀ below x x', R below x x' → x.path = x'.path)
    {below below' : List OpenSource} (h : Stacks R below below') :
    below.map (·.path) = below'.map (·.path) := by
  induction h with
  | nil => rfl
  | cons top _ ih => exact congrArg₂ List.cons (hR _ _ _ top) ih

/-- Two states in lockstep: the stacks are so related, and the drafts look the same. -/
structure Counterparts (b : Blur) (R : SourceRelation) (s s' : State) : Prop where
  current : R s.suspended s.current s'.current
  suspended : Stacks R s.suspended s'.suspended
  draft : s.draft.Alike b s'.draft

/-- Counterparts refuse the same sources, for the same reasons. -/
theorem Counterparts.refusal?_eq (hR : ∀ below x x', R below x x' → x.path = x'.path)
    (h : Counterparts b R s s') (path : SourcePath) : s.refusal? o path = s'.refusal? o path := by
  have hpaths : s.activePaths = s'.activePaths := by
    have hstack := Stacks.paths_eq hR (.cons h.current h.suspended)
    rw [State.activePaths_eq, State.activePaths_eq, List.map_reverse, List.map_reverse]
    exact congrArg List.reverse hstack
  rw [State.refusal?, State.refusal?, hpaths, h.suspended.length_eq]

/-- Both turns stop with outcomes that look the same, or both go on to counterparts. -/
def TurnsAlike (b : Blur) (R : SourceRelation) : Turn → Turn → Prop
  | .stop outcome, .stop outcome' => b.outcome b.draft outcome = b.outcome b.draft outcome'
  | .go t, .go t' => Counterparts b R t t'
  | _, _ => False

theorem TurnsAlike.exists_go {turn' : Turn} (h : TurnsAlike b R (.go t) turn') :
    ∃ t', turn' = .go t' ∧ Counterparts b R t t' := by
  cases turn' with
  | stop outcome' => exact absurd h id
  | go t' => exact ⟨t', rfl, h⟩

theorem TurnsAlike.exists_stop {outcome : Except Diagnostic Draft} {turn' : Turn}
    (h : TurnsAlike b R (.stop outcome) turn') :
    ∃ outcome', turn' = .stop outcome' ∧
      b.outcome b.draft outcome = b.outcome b.draft outcome' := by
  cases turn' with
  | stop outcome' => exact ⟨outcome', rfl, h⟩
  | go t' => exact absurd h id

/-! ## One turn -/

/-- Both providers give a source, and the sources are so related; or both fail in the same way. -/
def ProvideAlike (read read' : Provider) (R : OpenSource → OpenSource → Prop) (path : SourcePath) :
    Prop :=
  (∃ fault, read path = .error fault ∧ read' path = .error fault) ∨
    ∃ text text', read path = .ok text ∧ read' path = .ok text' ∧
      R ⟨path, .ofText text⟩ ⟨path, .ofText text'⟩

/-- At the end of a text, the sources that are taken back are counterparts again. -/
theorem turnAtEnd_alike (h : Counterparts b R s s') : TurnsAlike b R s.turnAtEnd s'.turnAtEnd := by
  have hsuspended := h.suspended
  unfold State.turnAtEnd
  generalize s.suspended = below at hsuspended ⊢
  generalize s'.suspended = below' at hsuspended ⊢
  cases hsuspended with
  | nil => exact congrArg Except.ok h.draft
  | cons top rest => exact ⟨top, rest, h.draft⟩

/-- At an include that names the same source, both turns refuse it, lack it or enter it. -/
theorem turnAtInclude_alike {d d' : Cursor} {mark mark' : Position}
    (hR : ∀ below x x', R below x x' → x.path = x'.path) (h : Counterparts b R s s')
    (hmark : b.see mark = b.see mark')
    (hmoved : R s.suspended ⟨s.current.path, d⟩ ⟨s'.current.path, d'⟩)
    (hprovide : ProvideAlike read read' (R (⟨s.current.path, d⟩ :: s.suspended)) path) :
    TurnsAlike b R (s.turnAtInclude read o d mark path)
      (s'.turnAtInclude read' o d' mark' path) := by
  have hpath := hR _ _ _ h.current
  have hreported : ∀ cause : Cause,
      b.diagnostic ((cause.reportedAt mark).inSource s.current.path) =
        b.diagnostic ((cause.reportedAt mark').inSource s'.current.path) := by
    intro cause
    rw [← hpath]
    exact Blur.diagnostic_inSource (b.diagnostic_reportedAt cause hmark) s.current.path
  unfold State.turnAtInclude
  rw [← h.refusal?_eq hR path]
  cases s.refusal? o path with
  | some cause => exact congrArg Except.error (hreported cause)
  | none =>
    rcases hprovide with ⟨fault, hread, hread'⟩ | ⟨text, text', hread, hread', hnew⟩
    · rw [hread, hread']
      exact congrArg Except.error (hreported _)
    · rw [hread, hread']
      exact ⟨hnew, .cons hmoved h.suspended, h.draft⟩

theorem turnBy_alike {x x' : Passage} {d d' : Cursor}
    (hR : ∀ below x x', R below x x' → x.path = x'.path) (h : Counterparts b R s s')
    (hpassage : PassagesAlike b x x')
    (hmoved : R s.suspended ⟨s.current.path, d⟩ ⟨s'.current.path, d'⟩)
    (hprovide : ∀ mark path, x = .names mark path →
      ProvideAlike read read' (R (⟨s.current.path, d⟩ :: s.suspended)) path) :
    TurnsAlike b R (s.turnBy read o d x) (s'.turnBy read' o d' x') := by
  cases x with
  | blank =>
    cases x' with
    | blank => exact ⟨hmoved, h.suspended, h.draft⟩
    | _ => exact absurd hpassage id
  | ending =>
    cases x' with
    | ending => exact turnAtEnd_alike h
    | _ => exact absurd hpassage id
  | names mark path =>
    cases x' with
    | names mark' path' =>
      obtain ⟨hmark, hnamed⟩ := hpassage
      subst hnamed
      exact turnAtInclude_alike hR h hmark hmoved (hprovide mark path rfl)
    | _ => exact absurd hpassage id
  | drafts draft =>
    cases x' with
    | drafts draft' => exact ⟨hmoved, h.suspended, hpassage⟩
    | _ => exact absurd hpassage id

/-- Two turns of counterparts come to the same if they read passages that are alike and leave sources
that are related, and if the providers give such sources. -/
theorem turn_alike {K : Cursor → Cursor → Prop}
    (hR : ∀ below x x', R below x x' → x.path = x'.path) (h : Counterparts b R s s')
    (hpassage : Matches b (PassagesAlike b) K (s.passage s.current.cursor)
      (s'.passage s'.current.cursor))
    (hmoved : ∀ x d d', s.passage s.current.cursor = .ok x d → K d d' →
      R s.suspended ⟨s.current.path, d⟩ ⟨s'.current.path, d'⟩)
    (hprovide : ∀ mark path d, s.passage s.current.cursor = .ok (.names mark path) d →
      ProvideAlike read read' (R (⟨s.current.path, d⟩ :: s.suspended)) path) :
    TurnsAlike b R (s.turn read o) (s'.turn read' o) := by
  rw [s.turn_eq, s'.turn_eq]
  cases hx : s.passage s.current.cursor with
  | ok x d =>
    rw [hx] at hpassage
    obtain ⟨x', d', hx', hpassage, hd⟩ := hpassage.exists_ok
    rw [hx']
    apply turnBy_alike hR h hpassage (hmoved x d d' hx hd)
    intro mark path hnames
    exact hprovide mark path d (hnames ▸ hx)
  | error e d =>
    rw [hx] at hpassage
    obtain ⟨e', d', hx', he⟩ := hpassage.exists_error
    rw [hx']
    show Except.error _ = Except.error _
    rw [← hR _ _ _ h.current]
    exact congrArg Except.error (Blur.diagnostic_inSource he s.current.path)

/-! ## Several turns -/

/-- On the way to a state, counterparts lead to counterparts, if the turns on the way come to the
same. -/
theorem Leads.counterpart (hlead : Leads read o s t) (hend : Leads read o t e)
    (hs : Counterparts b R s s')
    (hturn : ∀ u v u', Leads read o s u → Goes read o u v → Leads read o v e →
      Counterparts b R u u' → TurnsAlike b R (u.turn read o) (u'.turn read' o)) :
    ∃ t', Leads read' o s' t' ∧ Counterparts b R t t' := by
  induction hlead with
  | refl => exact ⟨s', .refl, hs⟩
  | @tail u v hlead hgo ih =>
    obtain ⟨u', hlead', hu⟩ := ih (.head hgo hend)
    have halike := hturn u v u' hlead hgo hend hu
    rw [hgo] at halike
    obtain ⟨v', hgo', hv⟩ := halike.exists_go
    exact ⟨v', hlead'.tail hgo', hv⟩

/-- Counterparts lead to counterparts as long as the turns on the way come to the same, or to a state
of the second reading at which a turn does not. -/
theorem Leads.counterpart_or {Q : State → Prop} (hlead : Leads read o s t)
    (hs : Counterparts b R s s')
    (hturn : ∀ u v u', Leads read o s u → Goes read o u v → Counterparts b R u u' →
      TurnsAlike b R (u.turn read o) (u'.turn read' o) ∨ Q u') :
    (∃ t', Leads read' o s' t' ∧ Counterparts b R t t') ∨ ∃ u', Leads read' o s' u' ∧ Q u' := by
  induction hlead with
  | refl => exact .inl ⟨s', .refl, hs⟩
  | @tail u v hlead hgo ih =>
    rcases ih with ⟨u', hlead', hu⟩ | hother
    · rcases hturn u v u' hlead hgo hu with halike | hu'
      · rw [hgo] at halike
        obtain ⟨v', hgo', hv⟩ := halike.exists_go
        exact .inl ⟨v', hlead'.tail hgo', hv⟩
      · exact .inr ⟨u', hlead', hu'⟩
    · exact .inr hother

/-- If the turns that go on come to the same, and the last ones stop with outcomes that are so related,
then the readings come to outcomes that are. -/
theorem run_related {S : Except Diagnostic Draft → Except Diagnostic Draft → Prop}
    (hs : s.suspended.length ≤ o.maxIncludeDepth) (hs' : s'.suspended.length ≤ o.maxIncludeDepth)
    (h : Counterparts b R s s')
    (hgo : ∀ u v u', Leads read o s u → Goes read o u v → Counterparts b R u u' →
      TurnsAlike b R (u.turn read o) (u'.turn read' o))
    (hstop : ∀ u outcome u', Leads read o s u → u.turn read o = .stop outcome →
      Counterparts b R u u' → ∃ outcome', u'.turn read' o = .stop outcome' ∧ S outcome outcome') :
    S (run read o s hs) (run read' o s' hs') := by
  obtain ⟨e, hlead, hlast⟩ := exists_leads_stop read hs
  obtain ⟨e', hlead', he⟩ := hlead.counterpart .refl h fun u v u' hu hv _ => hgo u v u' hu hv
  obtain ⟨outcome', hlast', houtcome⟩ := hstop e _ e' hlead hlast he
  rw [(run_eq_iff_leads hs').2 ⟨e', hlead', hlast'⟩]
  exact houtcome

/-- If all turns come to the same, so do the readings. -/
theorem run_alike (hs : s.suspended.length ≤ o.maxIncludeDepth)
    (hs' : s'.suspended.length ≤ o.maxIncludeDepth) (h : Counterparts b R s s')
    (hturn : ∀ u u', Leads read o s u → Counterparts b R u u' →
      TurnsAlike b R (u.turn read o) (u'.turn read' o)) :
    b.outcome b.draft (run read o s hs) = b.outcome b.draft (run read' o s' hs') := by
  apply run_related (S := fun x x' => b.outcome b.draft x = b.outcome b.draft x') hs hs' h
    fun u _ u' hu _ => hturn u u' hu
  intro u outcome u' hu hstop hpair
  have halike := hturn u u' hu hpair
  rw [hstop] at halike
  exact halike.exists_stop

/-! ## Outcomes -/

/-- Readings that look the same are concluded in the same way. -/
theorem concluded_congr {x x' : Except Diagnostic Draft}
    (h : b.outcome b.draft x = b.outcome b.draft x') :
    b.outcome id (x >>= conclude) = b.outcome id (x' >>= conclude) := by
  cases x with
  | ok draft =>
    cases x' with
    | ok draft' => exact conclude_congr (Except.ok.inj h)
    | error e' => cases h
  | error e =>
    cases x' with
    | ok draft' => cases h
    | error e' => exact congrArg Except.error (Except.error.inj h)

/-- If all turns come to the same, so do the documents. -/
theorem parseText_alike (h : Counterparts b R (.start path text) (.start path' text'))
    (hturn : ∀ u u', Leads read o (.start path text) u → Counterparts b R u u' →
      TurnsAlike b R (u.turn read o) (u'.turn read' o)) :
    b.outcome id (parseText read o path text) = b.outcome id (parseText read' o path' text') :=
  concluded_congr (run_alike _ _ h hturn)

/-- The same library, or errors of one kind in one source. -/
def SameOutcome : Except Diagnostic Library → Except Diagnostic Library → Prop
  | .ok l, .ok l' => l = l'
  | .error d, .error d' => d.kind = d'.kind ∧ d.source = d'.source
  | _, _ => False

theorem SameOutcome.eq_ok {l : Library} {y : Except Diagnostic Library}
    (h : SameOutcome (.ok l) y) : y = .ok l := by
  cases y with
  | ok l' => exact congrArg Except.ok (Eq.symm h)
  | error d => exact absurd h id

theorem sameOutcome_of_blur {x y : Except Diagnostic Library} (h : b.outcome id x = b.outcome id y) :
    SameOutcome x y := by
  cases x with
  | ok l =>
    cases y with
    | ok l' => exact Except.ok.inj h
    | error d' => cases h
  | error d =>
    cases y with
    | ok l' => cases h
    | error d' =>
      have hd : b.diagnostic d = b.diagnostic d' := Except.error.inj h
      constructor
      · rw [← b.kind_diagnostic d, ← b.kind_diagnostic d', hd]
      · show (b.diagnostic d).source = (b.diagnostic d').source
        rw [hd]

/-! ## Root sources -/

/-- Sources of one path, whose cursors are related in a way that may depend on the path alone. -/
def bySource (K : SourcePath → Cursor → Cursor → Prop) : SourceRelation := fun _ x x' =>
  x.path = x'.path ∧ K x.path x.cursor x'.cursor

theorem normal_of_passage {mark : Position} {c d : Cursor}
    (h : s.passage c = .ok (.names mark path) d) : path.Normal := by
  obtain ⟨⟨kind, p⟩, e, -, h⟩ := bind_eq_ok.1 h
  cases kind with
  | blank => cases (pure_eq_ok.1 h).1
  | endOfText => cases (pure_eq_ok.1 h).1
  | includeMark =>
    obtain ⟨path', e', hpath, hpure⟩ := bind_eq_ok.1 h
    obtain ⟨-, rfl⟩ := Passage.names.inj (pure_eq_ok.1 hpure).1
    obtain ⟨target, -, rfl⟩ := State.readPath_eq_ok.1 hpath
    exact SourcePath.normal_resolve _ _
  | _ =>
    obtain ⟨draft, e', -, hpure⟩ := bind_eq_ok.1 h
    cases (pure_eq_ok.1 hpure).1

/-- If two providers give sources that are alike, turns that read passages that are alike come to
the same. -/
theorem turn_alike_bySource {K : SourcePath → Cursor → Cursor → Prop}
    (hprovide : ∀ path : SourcePath, path.Normal → ProvideAlike read read' (bySource K []) path)
    (h : Counterparts b (bySource K) s s')
    (hpassage : Matches b (PassagesAlike b) (K s.current.path) (s.passage s.current.cursor)
      (s'.passage s'.current.cursor)) :
    TurnsAlike b (bySource K) (s.turn read o) (s'.turn read' o) := by
  apply turn_alike (fun _ _ _ hR => hR.1) h hpassage
  · intro x d d' _ hmoved
    exact ⟨h.current.1, hmoved⟩
  · intro mark path d hnames
    exact hprovide path (normal_of_passage hnames)

/-- If two providers give sources that are alike, and passages of sources that are alike are, then
root sources of one place come to the same. -/
theorem parse_alike {root root' : SourcePath} {K : SourcePath → Cursor → Cursor → Prop}
    (hroot : root.normalize = root'.normalize)
    (hprovide : ∀ path : SourcePath, path.Normal → ProvideAlike read read' (bySource K []) path)
    (hpassage : ∀ text u u', read root.normalize = .ok text →
      Leads read o (.start root.normalize text) u → Counterparts b (bySource K) u u' →
      Matches b (PassagesAlike b) (K u.current.path) (u.passage u.current.cursor)
        (u'.passage u'.current.cursor)) :
    SameOutcome (parse read o root) (parse read' o root') := by
  unfold parse
  rw [← hroot]
  rcases hprovide root.normalize root.normal_normalize with
    ⟨fault, hread, hread'⟩ | ⟨text, text', hread, hread', halike⟩
  · rw [hread, hread']
    exact ⟨rfl, rfl⟩
  · rw [hread, hread']
    apply sameOutcome_of_blur
    apply parseText_alike ⟨halike, .nil, rfl⟩
    intro u u' hlead h
    exact turn_alike_bySource hprovide h (hpassage text u u' hread hlead h)

end Songsheet.Document
