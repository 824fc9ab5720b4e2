import Songsheet.Proofs.Document.Turn

/-!
# Includes

An include is a mark, a target and the first `>` behind it. The target names a source as seen from
the source that includes it. Whether the source is entered depends on the sources that are being
read already: with the check for cycles it must not be one of them, and there must be room for one
more.

* `TargetText` — the target of an include stands between two cursors.
* `State.readPath_eq_ok`, `State.readPath_eq_error` — the path of an include is read up to the first
  `>`; without one, the include is reported at its mark.
* `State.refusal?_eq_none_iff`, `State.refusal?_eq_some_iff` — which sources are refused, and why.
-/

namespace Songsheet

/-! ## Targets -/

/-- From the first cursor to the second, the target of an include is read, up to the first `>` and
through it. -/
structure TargetText (target : List Char) (c d : Cursor) : Prop where
  text : c.rest = target ++ '>' :: d.rest
  first : '>' ∉ target
  place : d.position = c.position.after (target ++ ['>'])

theorem TargetText.past_eq {target : List Char} {c d : Cursor} (h : TargetText target c d) :
    c.past (target ++ ['>']) d.rest = d := by
  rw [Cursor.past, ← h.place]

namespace Reading

variable {c d : Cursor} {close : Char}

theorem through_of_text {body rest : List Char} (hbody : close ∉ body)
    (hc : c.rest = body ++ close :: rest) :
    through close c = .ok (some (String.ofList body)) (c.past (body ++ [close]) rest) := by
  have hkeeps : ∀ x ∈ body, (x != close) = true := by
    intro x hx
    simpa using fun heq : x = close => hbody (heq ▸ hx)
  rw [through, hc, List.takeWhile_append_of_pos hkeeps, List.dropWhile_append_of_pos hkeeps]
  simp

theorem through_of_not_mem (h : close ∉ c.rest) : through close c = .ok none (c.past c.rest []) := by
  have hkeeps : ∀ x ∈ c.rest, (x != close) = true := by
    intro x hx
    simpa using fun heq : x = close => h (heq ▸ hx)
  have hall : (c.rest ++ []).dropWhile (· != close) = [] := List.dropWhile_append_of_pos hkeeps
  rw [List.append_nil] at hall
  rw [through, hall]

end Reading

namespace Document

variable {s : State} {o : Options} {mark : Position} {c d : Cursor} {path : SourcePath}

/-- The path of an include is that of the source that its target names, without the blanks around
it, as seen from the source that is being read. -/
theorem State.readPath_eq_ok :
    s.readPath mark c = .ok path d ↔
      ∃ target, TargetText target c d ∧
        path = s.current.path.resolve (Text.trim (String.ofList target)) := by
  unfold readPath
  rw [Reading.bind_apply]
  constructor
  · intro h
    by_cases hclose : '>' ∈ c.rest
    · obtain ⟨target, rest, htext, hfirst⟩ := List.eq_append_cons_of_mem hclose
      rw [Reading.through_of_text hfirst htext] at h
      obtain ⟨rfl, rfl⟩ := Reading.pure_eq_ok.1 h
      exact ⟨target, ⟨htext, hfirst, rfl⟩, rfl⟩
    · rw [Reading.through_of_not_mem hclose] at h
      exact absurd h Reading.fail_ne_ok
  · intro h
    obtain ⟨target, htarget, rfl⟩ := h
    rw [Reading.through_of_text htarget.first htarget.text]
    exact Reading.pure_eq_ok.2 ⟨rfl, htarget.past_eq⟩

/-- Without a `>`, an include is reported at its mark. -/
theorem State.readPath_eq_error {e : Diagnostic} :
    s.readPath mark c = .error e d ↔
      '>' ∉ c.rest ∧ e = Cause.unterminatedInclude.reportedAt mark ∧ d = c.past c.rest [] := by
  unfold readPath
  rw [Reading.bind_apply]
  by_cases hclose : '>' ∈ c.rest
  · obtain ⟨target, rest, htext, hfirst⟩ := List.eq_append_cons_of_mem hclose
    rw [Reading.through_of_text hfirst htext]
    simp [pure, EStateM.pure, hclose]
  · rw [Reading.through_of_not_mem hclose]
    simp [Reading.fail, hclose, eq_comm]

/-! ## Sources that are refused -/

/-- With the check for cycles, a source that is being read already is refused; any other is refused
where there is no room for it. -/
theorem State.refusal?_eq_some_iff {cause : Cause} :
    s.refusal? o path = some cause ↔
      (o.detectIncludeCycles ∧ (∃ p ∈ s.activePaths, p.same path) ∧
        cause = .includeCycle (s.activePaths ++ [path])) ∨
      ((o.detectIncludeCycles → ∀ p ∈ s.activePaths, p.same path = false) ∧
        o.maxIncludeDepth < s.suspended.length + 1 ∧
        cause = .includeTooDeep path o.maxIncludeDepth) := by
  have hcond : (o.detectIncludeCycles && s.activePaths.any (·.same path)) = true ↔
      o.detectIncludeCycles ∧ ∃ p ∈ s.activePaths, p.same path := by simp
  unfold refusal?
  by_cases hcycle : o.detectIncludeCycles ∧ ∃ p ∈ s.activePaths, p.same path
  · rw [if_pos (hcond.2 hcycle)]
    obtain ⟨hdetect, p, hp, hsame⟩ := hcycle
    constructor
    · intro h
      exact .inl ⟨hdetect, ⟨p, hp, hsame⟩, (Option.some.inj h).symm⟩
    · rintro (⟨-, -, rfl⟩ | ⟨hother, -⟩)
      · rfl
      · rw [hother hdetect p hp] at hsame
        cases hsame
  · rw [if_neg (mt hcond.1 hcycle)]
    have hother : o.detectIncludeCycles → ∀ p ∈ s.activePaths, p.same path = false := by
      simpa using hcycle
    constructor
    · intro h
      obtain ⟨hroom, hcause⟩ := Option.ite_none_right_eq_some.1 h
      exact .inr ⟨hother, hroom, (Option.some.inj hcause).symm⟩
    · rintro (⟨hdetect, hactive, -⟩ | ⟨-, hroom, rfl⟩)
      · exact absurd ⟨hdetect, hactive⟩ hcycle
      · exact if_pos hroom

theorem State.refusal?_eq_none_iff :
    s.refusal? o path = none ↔
      (o.detectIncludeCycles → ∀ p ∈ s.activePaths, p.same path = false) ∧
        s.suspended.length + 1 ≤ o.maxIncludeDepth := by
  rw [Option.eq_none_iff_forall_ne_some]
  constructor
  · intro h
    have hother : o.detectIncludeCycles → ∀ p ∈ s.activePaths, p.same path = false := by
      intro hdetect p hp
      rw [Bool.eq_false_iff]
      exact fun hsame => h _ (refusal?_eq_some_iff.2 (.inl ⟨hdetect, ⟨p, hp, hsame⟩, rfl⟩))
    refine ⟨hother, Nat.le_of_not_lt fun hroom => ?_⟩
    exact h _ (refusal?_eq_some_iff.2 (.inr ⟨hother, hroom, rfl⟩))
  · intro ⟨hother, hroom⟩ cause hcause
    rcases refusal?_eq_some_iff.1 hcause with ⟨hdetect, ⟨p, hp, hsame⟩, -⟩ | ⟨-, hdeep, -⟩
    · rw [hother hdetect p hp] at hsame
      cases hsame
    · omega

end Document

end Songsheet
