import Songsheet.Document.Run
import Songsheet.Proofs.Directive.Site

/-!
# Blurred positions

No decision of a reading depends on where in its source something stands: positions are written into
registries and diagnostics, and nothing asks for them. To compare two readings of texts that are laid
out differently, what they have in common is what is left when positions are blurred. A blur may
keep them, drop them, or do anything in between that goes along with moving on.

* `Blur` — what is left of positions; `Blur.sharp` keeps them and `Blur.blind` drops them.
* `Blur.site`, `Blur.draft`, `Blur.diagnostic`, `Blur.outcome` — what is left of all that carries
  positions.
* `Registry.define_blur`, `Registry.check_blur`, `conclude_blur` — what registries answer when they
  are blurred is what they answer, blurred.
-/

namespace Songsheet

/-- What is left of positions. What is left of a next position depends only on what is left of the
position before it. -/
structure Blur where
  see : Position → Position
  next : ∀ {p q : Position}, see p = see q → ∀ c, see (p.next c) = see (q.next c)

namespace Blur

variable {α β : Type} {b : Blur} {p q : Position}

/-- Keeps positions as they are. -/
def sharp : Blur := ⟨id, fun h c => congrArg (Position.next · c) h⟩

/-- Drops positions: all of them look the same. -/
def blind : Blur := ⟨fun _ => .start, fun _ _ => rfl⟩

theorem see_after (b : Blur) (h : b.see p = b.see q) (text : List Char) :
    b.see (p.after text) = b.see (q.after text) := by
  induction text generalizing p q with
  | nil => exact h
  | cons c text ih => exact ih (b.next h c)

/-! ## Sites and diagnostics -/

def site (b : Blur) (s : Site) : Site := ⟨s.source, b.see s.position⟩

def cause (b : Blur) : Cause → Cause
  | .duplicateLabel label first => .duplicateLabel label (b.site first)
  | cause => cause

def diagnostic (b : Blur) (d : Diagnostic) : Diagnostic :=
  ⟨b.cause d.cause, d.source, b.see d.position⟩

theorem kind_cause (b : Blur) (cause : Cause) : (b.cause cause).kind = cause.kind := by
  cases cause <;> rfl

theorem kind_diagnostic (b : Blur) (d : Diagnostic) : (b.diagnostic d).kind = d.kind :=
  b.kind_cause d.cause

theorem diagnostic_reportedAt (b : Blur) (cause : Cause) (h : b.see p = b.see q) :
    b.diagnostic (cause.reportedAt p) = b.diagnostic (cause.reportedAt q) :=
  congrArg (Diagnostic.mk (b.cause cause) none) h

/-- Naming a source leaves diagnostics that look the same looking the same. -/
theorem diagnostic_inSource {d e : Diagnostic} (h : b.diagnostic d = b.diagnostic e)
    (path : SourcePath) : b.diagnostic (d.inSource path) = b.diagnostic (e.inSource path) :=
  congrArg (Diagnostic.inSource · path) h

/-! ## Drafts and outcomes -/

def draft (b : Blur) (draft : Draft) : Draft := draft.mapSites b.site

/-- What is left of an outcome, where `f` says what is left of a value. -/
def outcome (b : Blur) (f : α → β) : Except Diagnostic α → Except Diagnostic β
  | .ok a => .ok (f a)
  | .error d => .error (b.diagnostic d)

theorem sharp_diagnostic (d : Diagnostic) : sharp.diagnostic d = d := by
  obtain ⟨cause, source, position⟩ := d
  cases cause <;> rfl

end Blur

/-! ## What registries answer -/

variable {b : Blur}

theorem Registry.define_blur (b : Blur) (r : Registry) (label : String) (kind : LabelKind)
    (site : Site) :
    (r.mapSites b.site).define label kind (b.site site) =
      b.outcome (.mapSites b.site) (r.define label kind site) := by
  rw [define, definition?_mapSites, define]
  cases r.definition? label with
  | none => simp [mapSites, Definition.mapSite, Blur.outcome]
  | some first => rfl

theorem Registry.check_blur (b : Blur) (r : Registry) :
    (r.mapSites b.site).check = b.outcome id r.check := by
  rw [check, undefined_mapSites, check]
  cases r.undefined with
  | nil => rfl
  | cons reference others =>
    have hcause : b.cause (r.refusal reference.label) = r.refusal reference.label := by
      rw [refusal]
      split <;> rfl
    simp [refusal_mapSites, Reference.mapSite, Blur.outcome, Blur.diagnostic, Cause.reportedIn,
      Blur.site, hcause]

namespace Document

theorem conclude_blur (b : Blur) (draft : Draft) :
    conclude (b.draft draft) = b.outcome id (conclude draft) := by
  have hcheck := draft.labels.check_blur b
  show (draft.labels.mapSites b.site).check.bind _ = _
  rw [hcheck, conclude]
  cases draft.labels.check with
  | ok => rfl
  | error d => rfl

/-- Drafts that look the same come to outcomes that look the same. -/
theorem conclude_congr {draft draft' : Draft} (h : b.draft draft = b.draft draft') :
    b.outcome id (conclude draft) = b.outcome id (conclude draft') := by
  rw [← conclude_blur, ← conclude_blur, h]

end Document

end Songsheet
