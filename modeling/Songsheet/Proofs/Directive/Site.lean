import Songsheet.Proofs.Directive

/-!
# Directives and the sites they carry

The sites of definitions and references are kept for diagnostics only. Replacing them by others
changes neither which directives are refused nor what the others do; erasing them all is one way of
replacing them.

* `mapSite`, `mapSites` — replaces each site; registries and drafts are built in the same way from
  the new sites (`Registry.referAll_mapSites`, `Draft.setAttribute_mapSites`), and the same
  references stay unanswered (`Registry.undefined_mapSites`).
* `eraseSite`, `eraseSites` — puts one and the same site everywhere.
* `Draft.obey?_eraseSites` — erasing sites commutes with what a directive does.
* `Registry.check_eraseSites` — the final check accepts the same registries without their sites.
-/

namespace Songsheet

/-! ## Sites that are replaced -/

def Definition.mapSite (f : Site → Site) (d : Definition) : Definition := { d with site := f d.site }

def Reference.mapSite (f : Site → Site) (r : Reference) : Reference := { r with site := f r.site }

namespace Registry

variable (f : Site → Site) (r : Registry)

def mapSites : Registry :=
  ⟨r.definitions.map (.mapSite f), r.references.map (.mapSite f)⟩

theorem definition?_mapSites (label : String) :
    (r.mapSites f).definition? label = (r.definition? label).map (.mapSite f) :=
  List.find?_map ..

theorem namesSequence_mapSites (label : String) :
    (r.mapSites f).namesSequence label = r.namesSequence label := by
  rw [namesSequence, definition?_mapSites, namesSequence]
  cases r.definition? label <;> rfl

theorem refusal_mapSites (label : String) : (r.mapSites f).refusal label = r.refusal label := by
  rw [refusal, definition?_mapSites, refusal, Option.isSome_map]

theorem refer_mapSites (label : String) (site : Site) :
    (r.refer label site).mapSites f = (r.mapSites f).refer label (f site) := by
  have hany : (r.mapSites f).references.any (·.label == label) =
      r.references.any (·.label == label) := List.any_map
  rw [refer, refer, hany]
  split
  · rfl
  · simp [mapSites, Reference.mapSite]

theorem referAll_mapSites (references : List Reference) :
    (r.referAll references).mapSites f =
      (r.mapSites f).referAll (references.map (.mapSite f)) := by
  induction references generalizing r with
  | nil => rfl
  | cons reference references ih =>
    have hrefer := r.refer_mapSites f reference.label reference.site
    exact (ih _).trans (by rw [hrefer]; rfl)

/-- The same references stay unanswered. -/
theorem undefined_mapSites : (r.mapSites f).undefined = r.undefined.map (.mapSite f) := by
  simp only [undefined, namesSequence_mapSites]
  exact List.filter_map

end Registry

def Attribute.mapSites (f : Site → Site) : Attribute → Attribute
  | .channel references => .channel (references.map (.mapSite f))
  | value => value

def Draft.mapSites (f : Site → Site) (draft : Draft) : Draft :=
  { draft with labels := draft.labels.mapSites f }

theorem Draft.setAttribute_mapSites (f : Site → Site) (draft : Draft) (index : Nat)
    (value : Attribute) :
    (draft.setAttribute index value).mapSites f =
      (draft.mapSites f).setAttribute index (value.mapSites f) := by
  cases value with
  | name text => rfl
  | tempo beats => rfl
  | channel references =>
    simp [setAttribute, mapSites, Attribute.mapSites, Registry.referAll_mapSites,
      Reference.mapSite, Function.comp_def]

/-! ## Sites that are erased -/

/-- The site that stands for all sites. -/
def Site.nowhere : Site := ⟨⟨""⟩, ⟨0, 0⟩⟩

def Definition.eraseSite (d : Definition) : Definition := { d with site := .nowhere }

def Reference.eraseSite (r : Reference) : Reference := { r with site := .nowhere }

theorem map_eraseSite_eq {found found' : List Reference}
    (h : found'.map (·.label) = found.map (·.label)) :
    found'.map Reference.eraseSite = found.map Reference.eraseSite := by
  have hlabels : ∀ references : List Reference, references.map Reference.eraseSite =
      (references.map (·.label)).map fun label => ⟨label, .nowhere⟩ := by
    intro references
    rw [List.map_map]
    rfl
  rw [hlabels, hlabels, h]

namespace Registry

def eraseSites (r : Registry) : Registry :=
  ⟨r.definitions.map Definition.eraseSite, r.references.map Reference.eraseSite⟩

theorem define_eraseSites (r : Registry) (label : String) (kind : LabelKind) (site : Site) :
    (r.eraseSites.define label kind .nowhere).toOption =
      (r.define label kind site).toOption.map eraseSites := by
  have hdefinition : r.eraseSites.definition? label =
      (r.definition? label).map Definition.eraseSite :=
    r.definition?_mapSites (fun _ => .nowhere) label
  rw [define, hdefinition, define]
  cases r.definition? label with
  | none => simp [eraseSites, Definition.eraseSite, Except.toOption]
  | some first => rfl

/-- The check accepts the same registries without their sites. -/
theorem check_eraseSites (r : Registry) : r.eraseSites.check = .ok () ↔ r.check = .ok () := by
  have hundefined : r.eraseSites.undefined = r.undefined.map Reference.eraseSite :=
    r.undefined_mapSites fun _ => .nowhere
  rw [check_eq_ok_iff, check_eq_ok_iff, hundefined, List.map_eq_nil_iff]

end Registry

/-! ## Directives -/

def Attribute.eraseSites : Attribute → Attribute
  | .channel references => .channel (references.map Reference.eraseSite)
  | value => value

def Directive.eraseSites : Directive → Directive
  | .track label _ => .track label .nowhere
  | .sequence label _ notes => .sequence label .nowhere notes
  | .describe value => .describe value.eraseSites

namespace Draft

def eraseSites (draft : Draft) : Draft := { draft with labels := draft.labels.eraseSites }

theorem setAttribute_eraseSites (draft : Draft) (index : Nat) (value : Attribute) :
    (draft.setAttribute index value).eraseSites =
      draft.eraseSites.setAttribute index value.eraseSites := by
  have hvalue : value.eraseSites = value.mapSites fun _ => .nowhere := by cases value <;> rfl
  rw [hvalue]
  exact draft.setAttribute_mapSites (fun _ => .nowhere) index value

/-- What a directive does, and whether it is refused, has nothing to do with sites. -/
theorem obey?_eraseSites (draft : Draft) (x : Directive) :
    draft.eraseSites.obey? x.eraseSites = (draft.obey? x).map eraseSites := by
  cases x with
  | track label site =>
    have hdefine := draft.labels.define_eraseSites label .track site
    simp only [obey?, Directive.eraseSites, eraseSites, hdefine, Option.map_map]
    rfl
  | sequence label site notes =>
    have hdefine := draft.labels.define_eraseSites label .sequence site
    simp only [obey?, Directive.eraseSites, eraseSites, hdefine, Option.map_map]
    rfl
  | describe value =>
    simp only [obey?, Directive.eraseSites, Option.map_map]
    apply congrArg (draft.track.map ·)
    funext i
    exact (setAttribute_eraseSites draft i value).symm

end Draft

end Songsheet
