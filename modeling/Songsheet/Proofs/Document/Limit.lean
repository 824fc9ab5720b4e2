import Songsheet.Proofs.Document.Failure

/-!
# Raised limits

The limit on the depth is asked for in one place only, at an include, and there it lets a source in
or refuses it. So a limit that is raised lets in all that the lower one did, and what a document
comes to can change only where the lower limit refuses a source.

* `State.refusal?_of_le` — the sources that a raised limit refuses, and why.
* `turn_of_le`, `Leads.of_le`, `run_of_le` — under a raised limit a turn, several turns and a whole
  reading come to the same, unless the lower limit refuses a source.
* `raised_limit` — the outcome of a root source under both limits.
-/

namespace Songsheet.Document

variable {read : Provider} {s t : State} {detect : Bool} {depth deeper : Nat} {α : Type}

/-- A source is refused because includes are nested too deeply. -/
def TooDeep (outcome : Except Diagnostic α) : Prop :=
  ∃ d, outcome = .error d ∧ d.kind = .includeDepthExceeded

/-! ## One turn -/

theorem State.refusal?_of_le (s : State) (detect : Bool) (path : SourcePath)
    (hle : depth ≤ deeper) :
    s.refusal? ⟨deeper, detect⟩ path = s.refusal? ⟨depth, detect⟩ path ∨
      s.refusal? ⟨depth, detect⟩ path = some (.includeTooDeep path depth) := by
  unfold refusal?
  dsimp only
  split
  · exact .inl rfl
  · by_cases hroom : depth < s.suspended.length + 1
    · exact .inr (if_pos hroom)
    · rw [if_neg hroom, if_neg (by omega)]
      exact .inl rfl

/-- Behind any token but the mark of an include, a turn has nothing to do with the options. -/
theorem State.turn_options {token : Token} {c : Cursor} (o o' : Options)
    (h : Reading.nextToken s.current.cursor = .ok token c) (hkind : token.kind ≠ .includeMark) :
    s.turn read o = s.turn read o' := by
  have hstep : s.step o = s.step o' := by
    rw [step_of_token h, step_of_token h]
    obtain ⟨kind, p⟩ := token
    cases kind with
    | includeMark => exact absurd rfl hkind
    | _ => rfl
  rw [turn, turn, hstep]

theorem turn_of_le (read : Provider) (detect : Bool) (s : State) (hle : depth ≤ deeper) :
    s.turn read ⟨deeper, detect⟩ = s.turn read ⟨depth, detect⟩ ∨
      ∃ outcome, s.turn read ⟨depth, detect⟩ = .stop outcome ∧ TooDeep outcome := by
  cases token : Reading.nextToken s.current.cursor with
  | error e c => exact .inl (by rw [State.turn_of_faulty token, State.turn_of_faulty token])
  | ok mark c =>
    by_cases hkind : mark.kind = .includeMark
    · obtain ⟨kind, p⟩ := mark
      obtain rfl : kind = .includeMark := hkind
      rw [State.turn_of_include token, State.turn_of_include token]
      cases s.readPath p c with
      | error e d => exact .inl rfl
      | ok path d =>
        rcases s.refusal?_of_le detect path hle with hsame | hdeep
        · exact .inl (by simp only [hsame])
        · simp only [hdeep]
          exact .inr ⟨_, rfl, _, rfl, rfl⟩
    · exact .inl (State.turn_options _ _ token hkind)

/-! ## Readings -/

theorem Leads.of_le (h : Leads read ⟨depth, detect⟩ s t) (hle : depth ≤ deeper) :
    Leads read ⟨deeper, detect⟩ s t := by
  induction h with
  | refl => exact .refl
  | @tail u v _ hgo ih =>
    rcases turn_of_le read detect u hle with hsame | ⟨outcome, hstop, -⟩
    · exact ih.tail (hsame.trans hgo)
    · exact absurd hstop hgo.not_stop

theorem run_of_le (read : Provider) (detect : Bool) (hle : depth ≤ deeper)
    (hs : s.suspended.length ≤ depth) :
    run read ⟨deeper, detect⟩ s (Nat.le_trans hs hle) = run read ⟨depth, detect⟩ s hs ∨
      TooDeep (run read ⟨depth, detect⟩ s hs) := by
  obtain ⟨t, hlead, hstop⟩ := exists_leads_stop (o := ⟨depth, detect⟩) read hs
  rcases turn_of_le read detect t hle with hsame | ⟨outcome, hrefused, hdeep⟩
  · exact .inl ((run_eq_iff_leads _).2 ⟨t, hlead.of_le hle, hsame.trans hstop⟩)
  · obtain rfl := Turn.stop.inj (hrefused.symm.trans hstop)
    exact .inr hdeep

theorem parseText_of_le (read : Provider) (detect : Bool) (path : SourcePath) (text : String)
    (hle : depth ≤ deeper) :
    parseText read ⟨deeper, detect⟩ path text = parseText read ⟨depth, detect⟩ path text ∨
      TooDeep (parseText read ⟨depth, detect⟩ path text) := by
  unfold parseText
  have hstart : (State.start path text).suspended.length ≤ depth := Nat.zero_le _
  rcases run_of_le read detect hle hstart with hsame | ⟨d, hd, hkind⟩
  · exact .inl (by rw [hsame])
  · exact .inr ⟨d, by rw [hd]; rfl, hkind⟩

theorem parse_of_le (read : Provider) (detect : Bool) (root : SourcePath) (hle : depth ≤ deeper) :
    parse read ⟨deeper, detect⟩ root = parse read ⟨depth, detect⟩ root ∨
      TooDeep (parse read ⟨depth, detect⟩ root) := by
  unfold parse
  cases read root.normalize with
  | error fault => exact .inl rfl
  | ok text => exact parseText_of_le read detect root.normalize text hle

/-- **Raising the limit on the depth is conservative.** What a root source comes to under a limit,
be it a library or a diagnostic, it comes to under every higher limit, unless the lower limit
refuses a source; and where the higher limit refuses a source, the lower one refuses one too. -/
theorem raised_limit (read : Provider) (root : SourcePath) (detect : Bool) (depth deeper : Nat)
    (hle : depth ≤ deeper) :
    ((∀ d, parse read ⟨depth, detect⟩ root = .error d → d.kind ≠ .includeDepthExceeded) →
      parse read ⟨deeper, detect⟩ root = parse read ⟨depth, detect⟩ root) ∧
    ∀ d, parse read ⟨deeper, detect⟩ root = .error d → d.kind = .includeDepthExceeded →
      ∃ e, parse read ⟨depth, detect⟩ root = .error e ∧ e.kind = .includeDepthExceeded := by
  refine ⟨fun hother => ?_, fun d hd hkind => ?_⟩
  · rcases parse_of_le read detect root hle with hsame | ⟨d, hd, hkind⟩
    · exact hsame
    · exact absurd hkind (hother d hd)
  · rcases parse_of_le read detect root hle with hsame | hdeep
    · exact ⟨d, hsame.symm.trans hd, hkind⟩
    · exact hdeep

theorem raised_limit_duet :
    parse duet.read ⟨2, false⟩ ⟨"song"⟩ = .ok duetLibrary ∧
      parse duet.read ⟨5, false⟩ ⟨"song"⟩ = .ok duetLibrary := by
  refine ⟨parse_duet, ?_⟩
  obtain ⟨hsame, -⟩ := raised_limit duet.read ⟨"song"⟩ false 2 5 (by decide)
  rw [hsame (by simp [parse_duet]), parse_duet]

end Songsheet.Document
