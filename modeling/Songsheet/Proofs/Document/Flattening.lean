import Songsheet.Proofs.Directive.Replace
import Songsheet.Proofs.Document.Turn

/-!
# Documents without includes

A document is flattened by putting, in the place of each include that its reading follows, the
flattened text of the source that is entered there and a line break. The text that comes out
includes nothing, and it defines the same library, from whatever path it is read.

* `Flattens` — what the text from a state to the end of the current source flattens to.
* `Flattens.unique` — no state flattens to two texts.
* `exists_flattens` — every reading that succeeds flattens.
* `Flattens.follows` — in a flattened text a directive is followed by what may follow it.
* `Flattens.replay` — the flattened text is read to the same draft, up to the sites in it.
* `parseText_of_flattened` — the library of a document is the library of its flattened text.
-/

namespace Songsheet.Document

variable {read read' : Provider} {o o' : Options} {s t e r f : State}
  {text front after after' : List Char}

/-! ## Flattened texts -/

/-- From `s` to the end of the current source, which is reached in `e`, the text flattens to
`text`. What a turn reads without leaving the source is kept, and so are comments in front of an
include; the include itself gives way to the flattened text of the source that is entered there
and a line break. -/
inductive Flattens (read : Provider) (o : Options) : State → List Char → State → Prop
  | ends {s : State} {p : Position} {c : Cursor}
      (token : Reading.nextToken s.current.cursor = .ok ⟨.endOfText, p⟩ c) :
      Flattens read o s s.current.cursor.rest s
  | reads {s t e : State} {taken text : List Char} (goes : Goes read o s t)
      (stays : t.suspended = s.suspended)
      (takes : s.current.cursor.rest = taken ++ t.current.cursor.rest)
      (behind : Flattens read o t text e) : Flattens read o s (taken ++ text) e
  | includes {s t e r f : State} {p : Position} {c : Cursor} {comments inner outer : List Char}
      (token : Reading.nextToken s.current.cursor = .ok ⟨.includeMark, p⟩ c)
      (takes : s.current.cursor.rest = comments ++ '<' :: c.rest)
      (enters : Goes read o s t) (inside : Flattens read o t inner e)
      (resumes : Goes read o e r) (behind : Flattens read o r outer f) :
      Flattens read o s (comments ++ inner ++ '\n' :: outer) f

/-- What a root source flattens to. -/
def Flattened (read : Provider) (o : Options) (root : SourcePath) (flat : String) : Prop :=
  ∃ text e, read root.normalize = .ok text ∧
    Flattens read o (.start root.normalize text) flat.toList e

/-- At the end of its text, a source that is not the root gives way to the one that waits. -/
theorem Goes.resumed {p : Position} {c : Cursor} (h : Goes read o s t)
    (token : Reading.nextToken s.current.cursor = .ok ⟨.endOfText, p⟩ c) :
    s.suspended = t.current :: t.suspended ∧ t.draft = s.draft := by
  cases goes_iff.1 h with
  | resume token' waits => exact ⟨waits, rfl⟩
  | blank token' | enter token' reads allowed found => simp [token] at token'
  | directive token' reads obeys =>
    obtain ⟨rfl, -⟩ := EStateM.Result.ok.inj (token.symm.trans token')
    simpa using Reading.mark_of_directive reads

/-- Behind the mark of an include, a source is entered. -/
theorem Goes.entered {p : Position} {c : Cursor} (h : Goes read o s t)
    (token : Reading.nextToken s.current.cursor = .ok ⟨.includeMark, p⟩ c) :
    ∃ d : Cursor, c.Reaches d ∧ t.suspended = ⟨s.current.path, d⟩ :: s.suspended ∧
      t.draft = s.draft := by
  cases goes_iff.1 h with
  | @enter _ _ d _ _ token' reads allowed found =>
    obtain ⟨-, rfl⟩ := EStateM.Result.ok.inj (token.symm.trans token')
    exact ⟨d, (s.forward_readPath _).ok reads, rfl, rfl⟩
  | blank token' | resume token' waits => simp [token] at token'
  | directive token' reads obeys =>
    obtain ⟨rfl, -⟩ := EStateM.Result.ok.inj (token.symm.trans token')
    simpa using Reading.mark_of_directive reads

/-- A turn begins at the end of the text or at the mark of an include, or it reads on in the
current source. -/
theorem Goes.reads_on (h : Goes read o s t) :
    (∃ p c, Reading.nextToken s.current.cursor = .ok ⟨.endOfText, p⟩ c) ∨
      (∃ p c, Reading.nextToken s.current.cursor = .ok ⟨.includeMark, p⟩ c) ∨
      t.suspended = s.suspended ∧
        ∃ taken, s.current.cursor.rest = taken ++ t.current.cursor.rest := by
  cases goes_iff.1 h with
  | resume token waits => exact .inl ⟨_, _, token⟩
  | enter token reads allowed found => exact .inr (.inl ⟨_, _, token⟩)
  | blank token =>
    obtain ⟨taken, htaken, -⟩ := Reading.forward_nextToken.ok token
    exact .inr (.inr ⟨rfl, taken, htaken⟩)
  | directive token reads obeys =>
    obtain ⟨taken, htaken, -⟩ := (Reading.forward_nextToken.ok token).trans
      ((Reading.forward_directive _ _).ok reads)
    exact .inr (.inr ⟨rfl, taken, htaken⟩)

/-- A turn at the end of a text leaves the source, and one at the mark of an include enters
another. -/
theorem Goes.stays_ne {p : Position} {c : Cursor} {kind : TokenKind} (h : Goes read o s t)
    (token : Reading.nextToken s.current.cursor = .ok ⟨kind, p⟩ c)
    (hkind : kind = .endOfText ∨ kind = .includeMark) : t.suspended ≠ s.suspended := by
  intro hstays
  rcases hkind with rfl | rfl
  · obtain ⟨hresumed, -⟩ := h.resumed token
    have hlength := congrArg List.length (hresumed.trans (congrArg _ hstays))
    simp at hlength
  · obtain ⟨d, -, hentered, -⟩ := h.entered token
    have hlength := congrArg List.length (hentered.symm.trans hstays)
    simp at hlength

/-- A state flattens to one text only. -/
theorem Flattens.unique {other : List Char} (h : Flattens read o s text e)
    (ho : Flattens read o s other f) : text = other ∧ e = f := by
  induction h generalizing other f with
  | ends token =>
    cases ho with
    | ends token' => exact ⟨rfl, rfl⟩
    | reads goes stays takes behind => exact absurd stays (goes.stays_ne token (.inl rfl))
    | includes token' takes enters inside resumes behind => simp [token] at token'
  | reads goes stays takes behind ih =>
    cases ho with
    | ends token => exact absurd stays (goes.stays_ne token (.inl rfl))
    | reads goes' stays' takes' behind' =>
      obtain rfl := goes.unique goes'
      obtain ⟨rfl, rfl⟩ := ih behind'
      rw [List.append_cancel_right (takes.symm.trans takes')]
      exact ⟨rfl, rfl⟩
    | includes token takes' enters inside resumes behind =>
      obtain rfl := goes.unique enters
      exact absurd stays (goes.stays_ne token (.inr rfl))
  | includes token takes enters inside resumes behind ihinside ihbehind =>
    cases ho with
    | ends token' => simp [token] at token'
    | reads goes stays takes' behind' => exact absurd stays (goes.stays_ne token (.inr rfl))
    | includes token' takes' enters' inside' resumes' behind' =>
      obtain ⟨-, rfl⟩ := EStateM.Result.ok.inj (token.symm.trans token')
      obtain rfl := enters.unique enters'
      obtain ⟨rfl, rfl⟩ := ihinside inside'
      obtain rfl := resumes.unique resumes'
      obtain ⟨rfl, rfl⟩ := ihbehind behind'
      rw [List.append_cancel_right (takes.symm.trans takes')]
      exact ⟨rfl, rfl⟩

/-- The text is read to the end of the source in which it begins. -/
theorem Flattens.leads (h : Flattens read o s text e) :
    Leads read o s e ∧ e.suspended = s.suspended ∧
      ∃ p c, Reading.nextToken e.current.cursor = .ok ⟨.endOfText, p⟩ c := by
  induction h with
  | ends token => exact ⟨.refl, rfl, _, _, token⟩
  | reads goes stays takes behind ih =>
    obtain ⟨hlead, hsuspended, hend⟩ := ih
    exact ⟨.head goes hlead, hsuspended.trans stays, hend⟩
  | includes token takes enters inside resumes behind ihinside ihbehind =>
    obtain ⟨hinside, hsuspended, p, c, hend⟩ := ihinside
    obtain ⟨hbehind, hsuspended', hend'⟩ := ihbehind
    obtain ⟨d, -, hentered, -⟩ := enters.entered token
    obtain ⟨hresumed, -⟩ := resumes.resumed hend
    rw [hsuspended, hentered] at hresumed
    obtain ⟨-, hrest⟩ := List.cons.inj hresumed
    exact ⟨.head enters (hinside.trans (.head resumes hbehind)), hsuspended'.trans hrest.symm,
      hend'⟩

/-! ## Readings that succeed flatten -/

theorem exists_turns {draft : Draft} (hlead : Leads read o s t)
    (hstop : t.turn read o = .stop (.ok draft)) :
    ∃ n, s.turns read o n = .stop (.ok draft) := by
  induction hlead using Relation.ReflTransGen.head_induction_on with
  | refl => exact ⟨1, by rw [State.turns, hstop]⟩
  | head hgo _ ih =>
    obtain ⟨n, hn⟩ := ih
    exact ⟨n + 1, by rw [State.turns, hgo]; exact hn⟩

/-- A reading that succeeds after a number of turns flattens to the end of the current source,
and goes on from there with fewer turns to come. -/
theorem exists_flattens_of_turns {n : Nat} {draft : Draft}
    (h : s.turns read o n = .stop (.ok draft)) :
    ∃ text e m, Flattens read o s text e ∧ m ≤ n ∧ e.turns read o m = .stop (.ok draft) := by
  induction n using Nat.strongRecOn generalizing s with
  | ind n ih =>
    cases n with
    | zero => simp [State.turns] at h
    | succ n =>
      cases hturn : s.turn read o with
      | stop outcome =>
        have hstop := h
        rw [State.turns, hturn] at hstop
        obtain rfl := Turn.stop.inj hstop
        obtain ⟨p, c, token, -, -⟩ := turn_eq_stop_ok_iff.1 hturn
        exact ⟨_, s, n + 1, .ends token, Nat.le_refl _, h⟩
      | go t =>
        have hgo : Goes read o s t := hturn
        have ht : t.turns read o n = .stop (.ok draft) := by
          rw [State.turns, hturn] at h
          exact h
        rcases hgo.reads_on with ⟨p, c, token⟩ | ⟨p, c, token⟩ | ⟨hstays, taken, takes⟩
        · exact ⟨_, s, n + 1, .ends token, Nat.le_refl _, h⟩
        · obtain ⟨comments, hgap⟩ := Reading.comments_of_mark (x := '<') rfl token
          obtain ⟨d, -, hentered, -⟩ := hgo.entered token
          obtain ⟨inner, e, m, hinside, hm, he⟩ := ih n (Nat.lt_succ_self n) ht
          obtain ⟨-, hsuspended, p', c', hend⟩ := hinside.leads
          -- the source that included this one waits, so the next turn resumes it
          cases m with
          | zero => simp [State.turns] at he
          | succ m =>
            obtain ⟨r, hr⟩ : ∃ r, Goes read o e r :=
              ⟨_, goes_iff.2 (.resume hend (hsuspended.trans hentered))⟩
            have hturns : r.turns read o m = .stop (.ok draft) := by
              rw [State.turns, hr] at he
              exact he
            obtain ⟨outer, f, k, hbehind, hk, hf⟩ := ih m (by omega) hturns
            exact ⟨_, f, k, .includes token (append_of_gapAt hgap) hgo hinside hr hbehind,
              by omega, hf⟩
        · obtain ⟨text, e, m, hflat, hm, he⟩ := ih n (Nat.lt_succ_self n) ht
          exact ⟨taken ++ text, e, m, .reads hgo hstays takes hflat, by omega, he⟩

/-- Every reading that succeeds flattens. -/
theorem exists_flattens {draft : Draft} (hlead : Leads read o s t)
    (hstop : t.turn read o = .stop (.ok draft)) : ∃ text e, Flattens read o s text e := by
  obtain ⟨n, hn⟩ := exists_turns hlead hstop
  obtain ⟨text, e, _, hflat, -⟩ := exists_flattens_of_turns hn
  exact ⟨text, e, hflat⟩

/-! ## Flattening by evaluation -/

/-- What the text from a state to the end of the current source flattens to, and the state at that
end, if they are found within a bound on the nesting of turns. -/
def State.flatten? (read : Provider) (o : Options) : Nat → State → Option (List Char × State)
  | 0, _ => none
  | n + 1, s =>
    let left := s.current.cursor.rest
    match Reading.nextToken s.current.cursor, s.turn read o with
    | .ok ⟨.endOfText, _⟩ _, _ => some (left, s)
    | .ok ⟨.includeMark, _⟩ c, .go t =>
      match t.flatten? read o n with
      | none => none
      | some (inner, e) =>
        match e.turn read o with
        | .stop _ => none
        | .go r => (r.flatten? read o n).map fun (outer, f) =>
          (left.take (left.length - (c.rest.length + 1)) ++ inner ++ '\n' :: outer, f)
    | .ok _ _, .go t => (t.flatten? read o n).map fun (text, e) =>
      (left.take (left.length - t.current.cursor.rest.length) ++ text, e)
    | _, _ => none

theorem take_of_append {taken rest : List Char} (h : text = taken ++ rest) :
    text.take (text.length - rest.length) = taken := by
  simp [h]

theorem flattens_of_flatten? {n : Nat} (h : s.flatten? read o n = some (text, e)) :
    Flattens read o s text e := by
  induction n generalizing s text e with
  | zero => simp [State.flatten?] at h
  | succ n ih =>
    rw [State.flatten?] at h
    split at h
    · rename_i p c token
      obtain ⟨rfl, rfl⟩ := Prod.mk.inj (Option.some.inj h)
      exact .ends token
    · rename_i p c t token hgo
      split at h
      · simp at h
      · rename_i inner e' hinner
        split at h
        · simp at h
        · rename_i r hr
          obtain ⟨⟨outer, f⟩, houter, heq⟩ := Option.map_eq_some_iff.1 h
          obtain ⟨rfl, rfl⟩ := Prod.mk.inj heq
          obtain ⟨comments, hgap⟩ := Reading.comments_of_mark (x := '<') rfl token
          have takes := append_of_gapAt hgap
          have hcomments : s.current.cursor.rest.take
              (s.current.cursor.rest.length - (c.rest.length + 1)) = comments :=
            take_of_append takes
          rw [hcomments]
          exact .includes token takes hgo (ih hinner) hr (ih houter)
    · rename_i token c t hend hmark ht hgo
      obtain ⟨⟨rest, f⟩, hrest, heq⟩ := Option.map_eq_some_iff.1 h
      obtain ⟨rfl, rfl⟩ := Prod.mk.inj heq
      have hgo : Goes read o s t := hgo
      rcases hgo.reads_on with ⟨p, _, token'⟩ | ⟨p, _, token'⟩ | ⟨hstays, taken, takes⟩
      · obtain ⟨rfl, -⟩ := EStateM.Result.ok.inj (ht.symm.trans token')
        exact (hend p rfl).elim
      · obtain ⟨rfl, -⟩ := EStateM.Result.ok.inj (ht.symm.trans token')
        exact (hmark p rfl).elim
      · rw [take_of_append takes]
        exact .reads hgo hstays takes (ih hrest)
    · simp at h

/-- The song of `duet` with the included source in the place of its include. -/
def flatDuet : String :=
  "@lead: %name \"Lead\" %channel riff $riff: C4[1/4] e ~0[0/1] // end\n\n@bass: %bpm 90 %channel riff"

theorem flattened_duet : Flattened duet.read ⟨2, false⟩ ⟨"song"⟩ flatDuet := by
  have hread : duet.read (SourcePath.mk "song").normalize = .ok
      "@lead: %name \"Lead\" %channel riff <parts/riff>\n@bass: %bpm 90 %channel riff" := by
    decide +kernel
  have hflat : ((State.start (SourcePath.mk "song").normalize
      "@lead: %name \"Lead\" %channel riff <parts/riff>\n@bass: %bpm 90 %channel riff").flatten?
        duet.read ⟨2, false⟩ 15).map Prod.fst = some flatDuet.toList := by
    decide +kernel
  obtain ⟨⟨text, e⟩, he, rfl⟩ := Option.map_eq_some_iff.1 hflat
  exact ⟨_, e, hread, flattens_of_flatten? he⟩

/-! ## What follows a directive in a flattened text -/

/-- Text in front keeps what follows it where it was. -/
theorem follows_append {rest : List Char} (hfront : front ≠ [])
    (hgap : BehindGap (front ++ after) after') (hmark : AtMark after') :
    Follows (front ++ rest) (front ++ after) after' := by
  obtain ⟨x, tail, rfl⟩ := List.exists_cons_of_ne_nil hfront
  exact ⟨fun hnil => by simp at hnil, fun c hc _ => hc, hgap, hmark⟩

/-- A blank token in front of another text goes on with the gap there. -/
theorem behindGap_of_blank {p : Position} {c d : Cursor} {taken : List Char}
    (token : Reading.nextToken c = .ok ⟨.blank, p⟩ d) (takes : c.rest = taken ++ d.rest)
    (hend : d.rest = [] → LineEnd after) (hafter : BehindGap after after') :
    taken ≠ [] ∧ BehindGap (taken ++ after) after' := by
  obtain ⟨comments, first, blanks, hfirst, hgap, hblanks⟩ := Reading.nextToken_eq_blank token rfl
  have htaken : taken = comments ++ (first :: blanks) := by
    have hwhole := append_of_gapAt hgap
    rw [takes, ← List.append_assoc] at hwhole
    exact List.append_cancel_right hwhole
  have hline : LineEnd d.rest → LineEnd after := fun hd =>
    hend (eq_nil_of_lineEnd (gapAt_rest hblanks) hd)
  refine ⟨by simp [htaken], ?_⟩
  rw [htaken, List.append_assoc]
  exact BehindGap.append (by simp) hgap (SameStart.lineEnd (.inl rfl))
    (BehindGap.append (fun _ h => h) hblanks hline hafter)

/-- Comments in front of an include go on with the gap of what stands in its place. -/
theorem behindGap_of_include {p : Position} {c d : Cursor} {comments : List Char}
    (token : Reading.nextToken c = .ok ⟨.includeMark, p⟩ d)
    (takes : c.rest = comments ++ '<' :: d.rest) (hafter : BehindGap after after') :
    BehindGap (comments ++ after) after' := by
  obtain ⟨comments', hgap⟩ := Reading.comments_of_mark (x := '<') rfl token
  obtain rfl : comments' = comments := by
    rw [takes] at hgap
    exact (List.append_cancel_right (append_of_gapAt hgap)).symm
  have hline : LineEnd ('<' :: d.rest) → LineEnd after := fun hmark => by
    simp [LineEnd] at hmark
  exact BehindGap.append (by simp) hgap hline hafter

/-- The characters that begin directives other than includes. -/
theorem exists_mark_of_directive {source : SourcePath} {mark : TokenKind} {c d : Cursor}
    {x : Directive} (h : Reading.directive source mark c = .ok x d) :
    ∃ m, TokenKind.ofMark? m = some mark ∧ ∀ tail, AtMark (m :: tail) := by
  rcases Reading.mark_of_directive h with rfl | rfl | rfl
  · exact ⟨'@', rfl, fun tail c hc => .inl (Option.some.inj hc).symm⟩
  · exact ⟨'$', rfl, fun tail c hc => .inr (.inl (Option.some.inj hc).symm)⟩
  · exact ⟨'%', rfl, fun tail c hc => .inr (.inr (Option.some.inj hc).symm)⟩

/-- A turn that stays in the current source reads a blank or a directive. -/
theorem Goes.stayed (h : Goes read o s t) (hs : t.suspended = s.suspended) :
    (∃ p c, Reading.nextToken s.current.cursor = .ok ⟨.blank, p⟩ c ∧ t = s.moveTo c) ∨
      ∃ mark c x d draft, Reading.nextToken s.current.cursor = .ok mark c ∧
        Reading.directive s.current.path mark.kind c = .ok x d ∧
        s.draft.obey? x = some draft ∧ t = { s.moveTo d with draft } := by
  cases goes_iff.1 h with
  | blank token => exact .inl ⟨_, _, token, rfl⟩
  | directive token reads obeys => exact .inr ⟨_, _, _, _, _, token, reads, obeys, rfl⟩
  | resume token waits =>
    have hlen := congrArg List.length (waits.symm.trans hs.symm)
    simp at hlen
  | enter token reads allowed found =>
    have hlen := congrArg List.length hs
    simp [State.enter, State.moveTo] at hlen

/-- The text that a directive takes, and the text behind it replaced. -/
theorem behindGap_of_directive {mark : Token} {c d : Cursor} {x : Directive}
    {source : SourcePath} {taken : List Char} {b : Cursor}
    (token : Reading.nextToken b = .ok mark c)
    (reads : Reading.directive source mark.kind c = .ok x d)
    (takes : b.rest = taken ++ d.rest) :
    ∃ m back, TokenKind.ofMark? m = some mark.kind ∧ c.rest = back ++ d.rest ∧ taken ≠ [] ∧
      ∀ after, AtMark (m :: (back ++ after)) ∧
        BehindGap (taken ++ after) (m :: (back ++ after)) := by
  obtain ⟨m, hm, hat⟩ := exists_mark_of_directive reads
  obtain ⟨comments, hgap⟩ := Reading.comments_of_mark hm token
  obtain ⟨back, hback, -⟩ := (Reading.forward_directive _ _).ok reads
  have htaken : taken = comments ++ m :: back := by
    have hwhole := append_of_gapAt hgap
    rw [hback, takes, ← List.cons_append, ← List.append_assoc] at hwhole
    exact List.append_cancel_right hwhole
  refine ⟨m, back, hm, hback, by simp [htaken], fun after => ⟨hat _, ?_⟩⟩
  rw [htaken, List.append_assoc]
  exact BehindGap.append (by simp) hgap (SameStart.lineEnd (.inl rfl)) (hat _).behindGap

/-- In a flattened text, what follows a directive may follow it. -/
theorem Flattens.follows (h : Flattens read o s text e) (hline : LineEnd after)
    (hgap : BehindGap after after') (hmark : AtMark after') :
    ∃ opening, Follows s.current.cursor.rest (text ++ after) opening := by
  induction h generalizing after after' with
  | @ends s p c token =>
    obtain ⟨-, hend⟩ := Reading.rest_of_nextToken_end token rfl
    refine ⟨after', ?_, ?_, BehindGap.append (by simp) hend (fun _ => hline) hgap, hmark⟩
    · show s.current.cursor.rest = [] → LineEnd (s.current.cursor.rest ++ after)
      intro hnil
      rw [hnil]
      exact hline
    · show ∀ c, s.current.cursor.rest.head? = some c → Text.isBlank c →
        (s.current.cursor.rest ++ after).head? = some c
      intro c hc _
      rw [List.head?_append, hc]
      rfl
  | @reads s t e taken text goes stays takes behind ih =>
    obtain ⟨opening, hf⟩ := ih hline hgap hmark
    rw [takes, List.append_assoc]
    rcases goes.stayed stays with ⟨p, c, token, rfl⟩ | ⟨m, c, x, d, draft, token, reads, -, rfl⟩
    · obtain ⟨hne, hbehind⟩ := behindGap_of_blank token takes hf.lineEnd hf.gap
      exact ⟨opening, follows_append hne hbehind hf.mark⟩
    · obtain ⟨m, back, -, -, hne, hbehind⟩ := behindGap_of_directive token reads takes
      exact ⟨_, follows_append hne (hbehind _).2 (hbehind _).1⟩
  | @includes s t e r f p c comments inner outer token takes enters inside resumes behind ihinside
      ihbehind =>
    obtain ⟨opening, houter⟩ := ihbehind hline hgap hmark
    have hbreak : LineEnd ('\n' :: (outer ++ after)) := .inr rfl
    obtain ⟨opening', hinner⟩ := ihinside hbreak houter.gap.line houter.mark
    refine ⟨opening', ?_, ?_, ?_, hinner.mark⟩
    · show s.current.cursor.rest = [] → _
      intro hnil
      simp [takes] at hnil
    · show ∀ x, s.current.cursor.rest.head? = some x → Text.isBlank x →
        (comments ++ inner ++ '\n' :: outer ++ after).head? = some x
      -- a blank can only come first in the comments, which are kept
      intro x hx hblank
      rw [takes] at hx
      cases comments with
      | nil =>
        obtain rfl : '<' = x := Option.some.inj hx
        exact absurd hblank (by decide)
      | cons y comments => exact hx
    · show BehindGap (comments ++ inner ++ '\n' :: outer ++ after) opening'
      rw [List.append_assoc, List.append_assoc]
      exact behindGap_of_include token takes hinner.gap

/-! ## Reading a flattened text -/

/-- Any number of turns in one and the same source. -/
def Stays (read : Provider) (o : Options) : State → State → Prop :=
  Relation.ReflTransGen fun s t => Goes read o s t ∧ t.suspended = s.suspended

theorem Stays.leads (h : Stays read o s t) : Leads read o s t :=
  Relation.ReflTransGen.mono (fun _ _ => And.left) _ _ h

theorem Stays.suspended (h : Stays read o s t) : t.suspended = s.suspended := by
  induction h with
  | refl => rfl
  | tail _ hstep ih => exact hstep.2.trans ih

/-- One turn at most takes the gap in front of a directive or of the end, apart from comments. -/
theorem exists_stays_gap (read : Provider) (o : Options)
    (hgap : BehindGap f.current.cursor.rest after) (hmark : AtMark after) :
    ∃ g comments, Stays read o f g ∧ g.draft = f.draft ∧
      gapAt (fun _ => false) g.current.cursor.rest = .upTo comments after := by
  obtain ⟨comments, rest, hcomments, rfl | ⟨⟨x, blanks, rfl, hx⟩, hblanks⟩⟩ :=
    comments_of_behindGap hgap
  · exact ⟨f, comments, .refl, rfl, hcomments⟩
  · obtain ⟨p, d, token, hd⟩ := Reading.nextToken_of_blank hx hcomments hblanks
    refine ⟨f.moveTo d, [], .single ⟨(Move.blank token).goes, rfl⟩, rfl, ?_⟩
    have hnone : gapAt (fun _ => false) after = .upTo [] after :=
      gapAt_of_head fun c hc => ⟨rfl, (hmark.head c hc).2⟩
    exact hd ▸ hnone

theorem exists_leads_gap (read : Provider) (o : Options)
    (hgap : BehindGap f.current.cursor.rest after) (hmark : AtMark after) :
    ∃ g comments, Leads read o f g ∧ g.suspended = f.suspended ∧ g.draft = f.draft ∧
      gapAt (fun _ => false) g.current.cursor.rest = .upTo comments after := by
  obtain ⟨g, comments, hstays, hdraft, hcomments⟩ := exists_stays_gap read o hgap hmark
  exact ⟨g, comments, hstays.leads, hstays.suspended, hdraft, hcomments⟩

/-- What a directive does in one draft, it does up to sites in another that differs in sites
only. -/
theorem exists_obey? {draft draft' next : Draft} {x x' : Directive}
    (hdraft : draft'.eraseSites = draft.eraseSites) (hx : x'.eraseSites = x.eraseSites)
    (obeys : draft.obey? x = some next) :
    ∃ next', draft'.obey? x' = some next' ∧ next'.eraseSites = next.eraseSites := by
  have h := draft'.obey?_eraseSites x'
  rw [hdraft, hx, draft.obey?_eraseSites x, obeys] at h
  exact Option.map_eq_some_iff.1 h.symm

/-- The flattened text is read wherever it stands, to the same draft up to sites. -/
theorem Flattens.replay (h : Flattens read o s text e) (read' : Provider) (o' : Options)
    (hline : LineEnd after) (hgap : BehindGap after after') (hmark : AtMark after')
    {opening : List Char} (htext : BehindGap (text ++ after) opening)
    (hf : BehindGap f.current.cursor.rest opening)
    (hdraft : f.draft.eraseSites = s.draft.eraseSites) :
    ∃ g, Leads read' o' f g ∧ g.suspended = f.suspended ∧
      g.draft.eraseSites = e.draft.eraseSites ∧ BehindGap g.current.cursor.rest after' := by
  induction h generalizing after after' opening f with
  | @ends s p c token =>
    obtain ⟨-, hend⟩ := Reading.rest_of_nextToken_end token rfl
    obtain rfl : opening = after' :=
      htext.unique (BehindGap.append (by simp) hend (fun _ => hline) hgap)
    exact ⟨f, .refl, rfl, hdraft, hf⟩
  | @reads s t e taken text goes stays takes behind ih =>
    obtain ⟨opening', hfollows⟩ := behind.follows hline hgap hmark
    rw [List.append_assoc] at htext
    rcases goes.stayed stays with ⟨p, c, token, rfl⟩ | ⟨m, c, x, d, draft, token, reads, obeys, rfl⟩
    · -- a blank: the flattened text has the same gap, perhaps a longer one
      obtain ⟨-, hbehind⟩ := behindGap_of_blank token takes hfollows.lineEnd hfollows.gap
      obtain rfl : opening = opening' := htext.unique hbehind
      exact ih hline hgap hmark hfollows.gap hf hdraft
    · -- a directive: it is read and obeyed in the same way
      obtain ⟨mark, back, hm, hback, -, hbehind⟩ := behindGap_of_directive token reads takes
      obtain ⟨hat, hopening⟩ := hbehind (text ++ after)
      obtain rfl : opening = mark :: (back ++ (text ++ after)) := htext.unique hopening
      obtain ⟨g, comments, hlead, hsuspended, hsame, hcomments⟩ := exists_leads_gap read' o' hf hat
      obtain ⟨p', c', token', hc'⟩ := Reading.nextToken_of_mark hm hcomments
      obtain ⟨x', d', reads', hx', hd'⟩ :=
        Reading.directive_replace g.current.path reads hfollows hback hc'
      rw [← hsame] at hdraft
      obtain ⟨draft', obeys', hdraft'⟩ := exists_obey? hdraft hx' obeys
      obtain ⟨k, hlead', hsuspended', hk, hrest⟩ :=
        ih (f := { g.moveTo d' with draft := draft' }) hline hgap hmark hfollows.gap hd' hdraft'
      have hgo : Goes read' o' g { g.moveTo d' with draft := draft' } :=
        (Move.directive token' reads' obeys').goes
      exact ⟨k, hlead.trans (.head hgo hlead'), hsuspended'.trans hsuspended, hk, hrest⟩
  | @includes s t e r f₀ p c comments inner outer token takes enters inside resumes behind ihinside
      ihbehind =>
    obtain ⟨opening₁, houter⟩ := behind.follows hline hgap hmark
    have hnext := houter.gap.line
    obtain ⟨opening₂, hinner⟩ := inside.follows (.inr rfl) hnext houter.mark
    obtain ⟨-, -, p', c', hend⟩ := inside.leads
    obtain ⟨-, hresumed⟩ := resumes.resumed hend
    obtain ⟨_, -, -, hentered⟩ := enters.entered token
    obtain rfl : opening = opening₂ := by
      rw [List.append_assoc, List.append_assoc] at htext
      exact htext.unique (behindGap_of_include token takes hinner.gap)
    obtain ⟨g, hlead, hsuspended, hg, hrest⟩ :=
      ihinside (.inr rfl) hnext houter.mark hinner.gap hf (hdraft.trans (by rw [hentered]))
    obtain ⟨k, hlead', hsuspended', hk, hrest'⟩ :=
      ihbehind hline hgap hmark houter.gap hrest (hg.trans (by rw [hresumed]))
    exact ⟨k, hlead.trans hlead', hsuspended'.trans hsuspended, hk, hrest'⟩

theorem conclude_of_eraseSites {draft draft' : Draft} {l : Library}
    (hdraft : draft'.eraseSites = draft.eraseSites) (hl : conclude draft = .ok l) :
    conclude draft' = .ok l := by
  obtain ⟨hcheck, rfl⟩ := conclude_eq_ok.1 hl
  have hlabels : draft'.labels.eraseSites = draft.labels.eraseSites := congrArg Draft.labels hdraft
  have hlibrary : draft'.eraseSites.library = draft.eraseSites.library :=
    congrArg Draft.library hdraft
  refine conclude_eq_ok.2 ⟨?_, hlibrary.symm⟩
  rw [← Registry.check_eraseSites, hlabels, Registry.check_eraseSites]
  exact hcheck

theorem Flattened.unique {root : SourcePath} {flat other : String}
    (h : Flattened read o root flat) (ho : Flattened read o root other) : flat = other := by
  obtain ⟨text, e, hread, hflat⟩ := h
  obtain ⟨text', e', hread', hother⟩ := ho
  obtain rfl := Except.ok.inj (hread.symm.trans hread')
  exact String.toList_inj.1 (hflat.unique hother).1

/-- **Flattening.** Where a root source defines a library, it has one flattened text, and the
flattened text defines the same library, whatever path it is read from, whatever the provider
answers and whatever the options are: it includes nothing. -/
theorem parseText_of_flattened {root : SourcePath} {l : Library}
    (h : parse read o root = .ok l) :
    (∃ flat, Flattened read o root flat ∧ ∀ other, Flattened read o root other → other = flat) ∧
      ∀ flat, Flattened read o root flat →
        ∀ read' o' path, parseText read' o' path flat = .ok l := by
  obtain ⟨text, hread, htext⟩ := parse_eq_ok.1 h
  obtain ⟨t, draft, hlead, hstop, hl⟩ := parseText_eq_ok_iff_leads.1 htext
  constructor
  · obtain ⟨flat, e, hflat⟩ := exists_flattens hlead hstop
    have hflattened : Flattened read o root (String.ofList flat) :=
      ⟨text, e, hread, by rwa [String.toList_ofList]⟩
    exact ⟨String.ofList flat, hflattened, fun other ho => ho.unique hflattened⟩
  · rintro flat ⟨text', e, hread', hflat⟩ read' o' path
    obtain rfl := Except.ok.inj (hread.symm.trans hread')
    obtain ⟨hlead', hsuspended, p, c, hend⟩ := hflat.leads
    -- both readings of the document end in the same draft
    have hstop' : e.turn read o = .stop (.ok e.draft) :=
      turn_eq_stop_ok_iff.2 ⟨p, c, hend, hsuspended, rfl⟩
    obtain rfl : draft = e.draft := by
      have hrun := (run_of_leads (Nat.zero_le _) hlead).trans (run_of_stop _ hstop)
      rw [run_of_leads (Nat.zero_le _) hlead', run_of_stop _ hstop'] at hrun
      exact (Except.ok.inj hrun).symm
    have hempty : BehindGap [] [] := ⟨[], by rw [gapAt]⟩
    have hmark : AtMark [] := by simp [AtMark]
    obtain ⟨opening, hfollows⟩ := hflat.follows (.inl rfl) hempty hmark
    have hrest : BehindGap (State.start path flat).current.cursor.rest opening := by
      show BehindGap flat.toList opening
      have hgap := hfollows.gap
      rw [List.append_nil] at hgap
      exact hgap
    obtain ⟨g, hg, hgs, hgd, hgr⟩ :=
      hflat.replay read' o' (.inl rfl) hempty hmark hfollows.gap hrest rfl
    obtain ⟨k, comments, hk, hks, hkd, hcomments⟩ := exists_leads_gap read' o' hgr hmark
    have hkstop : k.turn read' o' = .stop (.ok k.draft) :=
      turn_eq_stop_ok_iff.2
        ⟨_, _, Reading.nextToken_of_end hcomments, hks.trans hgs, rfl⟩
    refine parseText_eq_ok_iff_leads.2 ⟨k, k.draft, hg.trans hk, hkstop, ?_⟩
    exact conclude_of_eraseSites (hkd ▸ hgd) hl

theorem parseText_flatDuet :
    Flattened duet.read ⟨2, false⟩ ⟨"song"⟩ flatDuet ∧
      ∀ read o path, parseText read o path flatDuet = .ok duetLibrary :=
  ⟨flattened_duet, (parseText_of_flattened parse_duet).2 flatDuet flattened_duet⟩

end Songsheet.Document
