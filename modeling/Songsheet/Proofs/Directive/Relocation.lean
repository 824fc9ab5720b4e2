import Songsheet.Proofs.Directive.Paired

/-!
# Directives of sources that are moved

Which source a text belongs to shows in sites and in diagnostics, and reading the text asks for
nothing else of it. So where sources are moved, a text is read as before: the sites of what is read
are in the source under its new path, and so is what is reported.

* `Site.relocate`, `Diagnostic.MovesTo` — sites and diagnostics of sources that are moved.
* `Reading.Relocates` — a reading as it is where sources are moved; sequencing keeps this, and a
  reading that names no source is such a reading of itself (`relocates_self`).
* `Registry.define_relocate`, `Registry.check_relocate` — what is answered for labels.
* `Draft.relocates_readDirective` — directives behind their marks.
-/

namespace Songsheet

variable {move : SourcePath → SourcePath}

/-! ## Sites and diagnostics -/

/-- The same place of a source that is moved. -/
def Site.relocate (move : SourcePath → SourcePath) (s : Site) : Site :=
  { s with source := move s.source }

/-- A diagnostic of the same class at the same place, in the source under its new path. -/
structure Diagnostic.MovesTo (move : SourcePath → SourcePath) (e e' : Diagnostic) : Prop where
  kind : e'.kind = e.kind
  position : e'.position = e.position
  source : e'.source = e.source.map move

theorem Diagnostic.movesTo_self {e : Diagnostic} (h : e.source = none) : e.MovesTo move e :=
  ⟨rfl, rfl, by rw [h]; rfl⟩

theorem Diagnostic.MovesTo.inSource {e e' : Diagnostic} (h : e.MovesTo move e')
    (path : SourcePath) : (e.inSource path).MovesTo move (e'.inSource (move path)) := by
  refine ⟨h.kind, h.position, ?_⟩
  show some (e'.source.getD (move path)) = _
  rw [h.source]
  cases hsource : e.source <;> simp [Diagnostic.inSource, hsource]

theorem Cause.movesTo_reportedAt {cause cause' : Cause} (h : cause'.kind = cause.kind)
    (p : Position) : (cause.reportedAt p).MovesTo move (cause'.reportedAt p) :=
  ⟨h, rfl, rfl⟩

theorem Cause.movesTo_reportedIn {cause cause' : Cause} (h : cause'.kind = cause.kind)
    (site : Site) :
    (cause.reportedIn site).MovesTo move (cause'.reportedIn (site.relocate move)) :=
  ⟨h, rfl, rfl⟩

/-! ## Readings -/

namespace Reading

variable {α β γ δ : Type} {c : Cursor} {f : α → β} {g : γ → δ}

/-- Two results: values that `f` relates, behind the same text, or diagnostics of which the second
is where the first one is moved. -/
def Relocated (move : SourcePath → SourcePath) (f : α → β) :
    EStateM.Result Diagnostic Cursor α → EStateM.Result Diagnostic Cursor β → Prop
  | .ok a d, .ok a' d' => a' = f a ∧ d' = d
  | .error e _, .error e' _ => e.MovesTo move e'
  | _, _ => False

/-- From every cursor, the second reading comes to what the first one does, as it is where sources
are moved. -/
def Relocates (move : SourcePath → SourcePath) (f : α → β) (r : Reading α) (r' : Reading β) :
    Prop :=
  ∀ c, Relocated move f (r c) (r' c)

theorem Relocated.eq_ok {a : α} {d : Cursor} {y : EStateM.Result Diagnostic Cursor β}
    (h : Relocated move f (.ok a d) y) : y = .ok (f a) d := by
  cases y with
  | ok a' d' =>
    obtain ⟨rfl, rfl⟩ := h
    rfl
  | error e' d' => exact absurd h id

theorem Relocated.exists_error {e : Diagnostic} {d : Cursor}
    {y : EStateM.Result Diagnostic Cursor β} (h : Relocated move f (.error e d) y) :
    ∃ e' d', y = .error e' d' ∧ e.MovesTo move e' := by
  cases y with
  | ok a' d' => exact absurd h id
  | error e' d' => exact ⟨e', d', rfl, h⟩

theorem Relocated.bind {r : Reading α} {r' : Reading β} {k : α → Reading γ} {k' : β → Reading δ}
    (h : Relocated move f (r c) (r' c))
    (hk : ∀ a d, r c = .ok a d → Relocated move g (k a d) (k' (f a) d)) :
    Relocated move g ((r >>= k) c) ((r' >>= k') c) := by
  rw [bind_apply, bind_apply]
  cases hr : r c with
  | ok a d =>
    rw [hr] at h
    rw [h.eq_ok]
    exact hk a d hr
  | error e d =>
    rw [hr] at h
    obtain ⟨e', d', hr', he⟩ := h.exists_error
    rw [hr']
    exact he

theorem Relocates.bind {r : Reading α} {r' : Reading β} {k : α → Reading γ} {k' : β → Reading δ}
    (h : Relocates move f r r') (hk : ∀ a, Relocates move g (k a) (k' (f a))) :
    Relocates move g (r >>= k) (r' >>= k') :=
  fun c => (h c).bind fun a d _ => hk a d

theorem relocates_pure {a : α} {b : β} (h : b = f a) :
    Relocates move f (pure a) (pure b) :=
  fun _ => ⟨h, rfl⟩

theorem relocates_fail (cause : Cause) (p : Position) :
    Relocates move f (fail cause p) (fail cause p) :=
  fun _ => Diagnostic.movesTo_self rfl

theorem relocates_position : Relocates move id position position :=
  fun _ => ⟨rfl, rfl⟩

/-- What is about the text of any source whatever names no source. -/
theorem source_eq_none {e : Diagnostic} (h : ∀ source, e.About source c) : e.source = none := by
  rw [Option.eq_none_iff_forall_ne_some]
  intro path hpath
  -- a source that is named would have to be both of these
  have hempty : path = ⟨""⟩ := (h ⟨""⟩).named path hpath
  have hroot : path = ⟨"/"⟩ := (h ⟨"/"⟩).named path hpath
  rw [hempty] at hroot
  exact absurd hroot (by decide)

/-- A reading that names no source is the same where sources are moved. -/
theorem relocates_self {r : Reading α} {P : Cursor → α → Prop}
    (hr : ∀ source start, Confined source start (P start) r) : Relocates move id r r := by
  intro c
  cases h : r c with
  | ok a d => exact ⟨rfl, rfl⟩
  | error e d =>
    exact Diagnostic.movesTo_self (source_eq_none fun source => (hr source c).error (.refl c) h)

/-! ## Parts of directives -/

theorem relocates_reference (source : SourcePath) :
    Relocates move (.mapSite (.relocate move)) (reference source) (reference (move source)) := by
  refine relocates_position.bind fun start =>
    (relocates_self fun _ _ => confined_run _).bind fun label => ?_
  simp only [id]
  split
  · exact (relocates_self fun _ _ => confined_skip _).bind fun _ => relocates_pure rfl
  · exact relocates_fail _ _

/-- Each reference is shorter than the run that it begins. -/
theorem relocates_references (source : SourcePath) :
    Relocates move (List.map (.mapSite (.relocate move))) (references source)
      (references (move source)) := by
  intro c
  induction hlength : c.rest.length using Nat.strongRecOn generalizing c with
  | ind n ih =>
    rw [references_eq, references_eq]
    refine (relocates_reference source c).bind fun r d hr =>
      (relocates_self (fun _ _ => confined_peek?) d).bind fun next e hnext => ?_
    obtain ⟨rfl, rfl⟩ := EStateM.Result.ok.inj hnext
    unfold referencesFrom
    simp only [id]
    split
    · have hless := length_of_reference hr
      exact (ih d.rest.length (by omega) d rfl).bind fun _ _ _ => ⟨rfl, rfl⟩
    · exact ⟨rfl, rfl⟩

theorem relocates_attributeValue (source : SourcePath) (kind : AttributeName) :
    Relocates move (.mapSites (.relocate move)) (attributeValue source kind)
      (attributeValue (move source) kind) := by
  cases kind with
  | name => exact (relocates_self fun _ _ => confined_quotedText).bind fun _ => relocates_pure rfl
  | tempo => exact (relocates_self fun _ _ => confined_tempo).bind fun _ => relocates_pure rfl
  | channel => exact (relocates_references source).bind fun _ => relocates_pure rfl

theorem relocates_trackAttribute (source : SourcePath) :
    Relocates move (.mapSites (.relocate move)) (trackAttribute source)
      (trackAttribute (move source)) := by
  refine relocates_position.bind fun start => (relocates_self fun _ _ => confined_run _).bind
    fun text => (relocates_self fun _ _ => confined_skip _).bind fun _ => ?_
  simp only [id]
  split
  · exact relocates_attributeValue source _
  · exact relocates_fail _ _

end Reading

/-! ## Registries -/

/-- Two outcomes: values that `f` relates, or diagnostics of which the second is where the first one
is moved. -/
def OutcomeRelocated {α β : Type} (move : SourcePath → SourcePath) (f : α → β) :
    Except Diagnostic α → Except Diagnostic β → Prop
  | .ok a, .ok a' => a' = f a
  | .error e, .error e' => e.MovesTo move e'
  | _, _ => False

section Outcome

variable {α β : Type} {f : α → β} {x : Except Diagnostic α} {y : Except Diagnostic β}

theorem OutcomeRelocated.eq_ok {a : α} (h : OutcomeRelocated move f (.ok a) y) : y = .ok (f a) := by
  cases y with
  | ok a' => exact congrArg Except.ok h
  | error e' => exact absurd h id

theorem OutcomeRelocated.exists_error {e : Diagnostic} (h : OutcomeRelocated move f (.error e) y) :
    ∃ e', y = .error e' ∧ e.MovesTo move e' := by
  cases y with
  | ok a' => exact absurd h id
  | error e' => exact ⟨e', rfl, h⟩

theorem Reading.relocates_ofExcept (h : OutcomeRelocated move f x y) :
    Relocates move f (ofExcept x) (ofExcept y) := by
  intro c
  cases x with
  | ok a =>
    rw [h.eq_ok]
    exact ⟨rfl, rfl⟩
  | error e =>
    obtain ⟨e', rfl, he⟩ := h.exists_error
    exact he

end Outcome

namespace Registry

variable (move) (r : Registry)

/-- A label that is defined already is reported in the source under its new path. -/
theorem define_relocate (label : String) (kind : LabelKind) (site : Site) :
    OutcomeRelocated move (.mapSites (.relocate move)) (r.define label kind site)
      ((r.mapSites (.relocate move)).define label kind (site.relocate move)) := by
  rw [define, define, definition?_mapSites]
  cases r.definition? label with
  | none => simp [OutcomeRelocated, mapSites, Definition.mapSite]
  | some first =>
    have hkind : (Cause.duplicateLabel label (first.site.relocate move)).kind =
        (Cause.duplicateLabel label first.site).kind := rfl
    exact Cause.movesTo_reportedIn hkind site

/-- A reference that no sequence answers is reported in the source under its new path. -/
theorem check_relocate :
    OutcomeRelocated move id r.check (r.mapSites (.relocate move)).check := by
  rw [check, check, undefined_mapSites]
  cases r.undefined with
  | nil => rfl
  | cons reference others =>
    exact Cause.movesTo_reportedIn (congrArg Cause.kind (refusal_mapSites _ r _)) reference.site

end Registry

/-! ## Directives -/

namespace Draft

variable (draft : Draft) (source : SourcePath)

theorem relocates_readLabel (kind : LabelKind) :
    Reading.Relocates move (Prod.map (.mapSites (.relocate move)) id)
      (draft.readLabel source kind)
      ((draft.mapSites (.relocate move)).readLabel (move source) kind) := by
  refine Reading.relocates_position.bind fun start =>
    (Reading.relocates_self fun _ _ => Reading.confined_definedLabel).bind fun label => ?_
  exact (Reading.relocates_ofExcept (draft.labels.define_relocate move label kind
    ⟨source, start⟩)).bind fun labels => Reading.relocates_pure rfl

theorem relocates_readDirective (mark : Token) :
    Reading.Relocates move (.mapSites (.relocate move)) (draft.readDirective source mark)
      ((draft.mapSites (.relocate move)).readDirective (move source) mark) := by
  unfold readDirective
  split
  · exact (relocates_readLabel draft source .track).bind fun _ => Reading.relocates_pure rfl
  · exact (relocates_readLabel draft source .sequence).bind fun _ =>
      (Reading.relocates_self fun _ _ => Reading.confined_notes).bind fun _ =>
        Reading.relocates_pure rfl
  · have htrack : (draft.mapSites (.relocate move)).track = draft.track := rfl
    unfold readAttribute
    rw [htrack]
    split
    · exact (Reading.relocates_trackAttribute source).bind fun value =>
        Reading.relocates_pure (draft.setAttribute_mapSites _ _ value).symm
    · exact Reading.relocates_fail _ _
  · exact Reading.relocates_fail _ _

end Draft

end Songsheet
