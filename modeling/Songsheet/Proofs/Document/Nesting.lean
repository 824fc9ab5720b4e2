import Songsheet.Proofs.Document.Turn

/-!
# Nested sources

The sources that are being read form a stack, and what is done in a source does not depend on the
sources below it as long as nothing is refused. So the turns that read a source are made again
wherever the same text is entered under the same path, and a source that enters itself, directly
or through others, enters itself without end.

* `Succeeds` — the reading goes on from a state to an end without a fault.
* `Within` — turns that leave a given stack of suspended sources alone.
* `Within.replay` — such turns are made again above another stack.
* `not_within_itself` — no reading that succeeds enters a source within itself.
* `OpenedAt` — when and how a source on the stack was entered; each source there was, and has been
  read since from the start of its text (`exists_opened`, `Leads.exists_opened`).
-/

namespace Songsheet.Document

variable {read : Provider} {o : Options} {s t u f : State} {base base' : List OpenSource}

/-! ## Readings that succeed -/

/-- The reading goes on from a state to an end without a fault. -/
def Succeeds (read : Provider) (o : Options) (s : State) : Prop :=
  ∃ t draft, Leads read o s t ∧ t.turn read o = .stop (.ok draft)

theorem Succeeds.goes (hs : Succeeds read o s) (h : Goes read o s t) : Succeeds read o t := by
  obtain ⟨u, draft, hlead, hstop⟩ := hs
  rcases hlead.cases_head with rfl | ⟨v, hv, hlead⟩
  · exact absurd hstop h.not_stop
  · obtain rfl := h.unique hv
    exact ⟨u, draft, hlead, hstop⟩

theorem Succeeds.leads (hs : Succeeds read o s) (h : Leads read o s t) : Succeeds read o t := by
  induction h with
  | refl => exact hs
  | tail _ hgo ih => exact ih.goes hgo

/-- Behind any other token than the end of the text, a reading that succeeds has a next move. -/
theorem Succeeds.exists_move {token : Token} {c : Cursor} (hs : Succeeds read o s)
    (ht : Reading.nextToken s.current.cursor = .ok token c) (hk : token.kind ≠ .endOfText) :
    ∃ t, Move read o s t := by
  obtain ⟨u, draft, hlead, hstop⟩ := hs
  rcases hlead.cases_head with rfl | ⟨v, hv, _⟩
  · obtain ⟨p, d, hd, _, _⟩ := turn_eq_stop_ok_iff.1 hstop
    obtain ⟨rfl, -⟩ := EStateM.Result.ok.inj (ht.symm.trans hd)
    exact absurd rfl hk
  · exact ⟨v, goes_iff.1 hv⟩

/-! ## Turns above a stack -/

/-- Turns that leave the suspended sources `base` alone. -/
def Within (read : Provider) (o : Options) (base : List OpenSource) : State → State → Prop :=
  Relation.ReflTransGen fun s t => Goes read o s t ∧ base <:+ t.suspended

theorem Within.leads (h : Within read o base s t) : Leads read o s t :=
  Relation.ReflTransGen.mono (fun _ _ => And.left) _ _ h

theorem Leads.within_nil (h : Leads read o s t) : Within read o [] s t :=
  Relation.ReflTransGen.mono (fun _ _ hgo => ⟨hgo, List.nil_suffix⟩) _ _ h

/-- The second state reads the same as the first, above other suspended sources. -/
def Parallel (base base' : List OpenSource) (s f : State) : Prop :=
  f.current = s.current ∧
    ∃ upper, s.suspended = upper ++ base ∧ f.suspended = upper ++ base'

theorem Parallel.of_current (hc : f.current = s.current) :
    Parallel s.suspended f.suspended s f :=
  ⟨hc, [], rfl, rfl⟩

/-- A turn above a stack is made again above another one, unless it is refused there. -/
theorem Parallel.goes (h : Parallel base base' s f) (hgo : Goes read o s t)
    (hbase : base <:+ t.suspended) (hf : Succeeds read o f) :
    ∃ g, Goes read o f g ∧ Parallel base base' t g := by
  obtain ⟨hc, upper, hs, hfs⟩ := h
  cases goes_iff.1 hgo with
  | @blank p c token =>
    have token' : Reading.nextToken f.current.cursor = .ok ⟨.blank, p⟩ c := by rw [hc, token]
    refine ⟨f.moveTo c, (Move.blank token').goes, ?_, upper, hs, hfs⟩
    simp [State.moveTo, hc]
  | @directive mark c d x draft token reads obeys =>
    have token' : Reading.nextToken f.current.cursor = .ok mark c := by rw [hc, token]
    have hmark : mark.kind ≠ .endOfText := by
      rcases Reading.mark_of_directive reads with h | h | h <;> simp [h]
    obtain ⟨g, hg⟩ := hf.exists_move token' hmark
    refine ⟨g, hg.goes, ?_⟩
    obtain ⟨draft', -, rfl⟩ := hg.directive_of_token token' (by rw [hc]; exact reads)
    exact ⟨by simp [State.moveTo, hc], upper, hs, hfs⟩
  | @resume p c waiting others token waits =>
    obtain ⟨kept, hkept⟩ := hbase
    dsimp only at hkept
    have hupper : upper = waiting :: kept := by
      have hall : upper ++ base = (waiting :: kept) ++ base := by
        rw [← hs, waits, List.cons_append, hkept]
      exact List.append_cancel_right hall
    have token' : Reading.nextToken f.current.cursor = .ok ⟨.endOfText, p⟩ c := by
      rw [hc, token]
    have waits' : f.suspended = waiting :: (kept ++ base') := by rw [hfs, hupper]; rfl
    exact ⟨_, (Move.resume token' waits').goes, rfl, kept, hkept.symm, rfl⟩
  | @enter p c d path text token reads allowed found =>
    have token' : Reading.nextToken f.current.cursor = .ok ⟨.includeMark, p⟩ c := by
      rw [hc, token]
    have reads' : f.readPath p c = .ok path d := by
      rw [State.readPath, hc]
      exact reads
    obtain ⟨g, hg⟩ := hf.exists_move token' (by simp)
    refine ⟨g, hg.goes, ?_⟩
    obtain rfl := hg.enter_of_token token' reads' found
    refine ⟨rfl, ⟨s.current.path, d⟩ :: upper, ?_, ?_⟩
    · simp [State.enter, State.moveTo, hs]
    · simp [State.enter, State.moveTo, hfs, hc]

/-- Turns above a stack are made again above another one. -/
theorem Within.replay (h : Within read o base s t) (hp : Parallel base base' s f)
    (hf : Succeeds read o f) : ∃ g, Leads read o f g ∧ Parallel base base' t g := by
  induction h with
  | refl => exact ⟨f, .refl, hp⟩
  | tail _ hgo ih =>
    obtain ⟨g, hlead, hpar⟩ := ih
    obtain ⟨k, hk, hpar'⟩ := hpar.goes hgo.1 hgo.2 (hf.leads hlead)
    exact ⟨k, hlead.tail hk, hpar'⟩

/-- A reading that succeeds does not come back to where it began while the sources below are
still suspended and others with them: it would come there again and again, each time deeper. -/
theorem not_within_itself (hs : Succeeds read o s)
    (hdepth : s.suspended.length ≤ o.maxIncludeDepth)
    (h : Within read o s.suspended s t) (hc : t.current = s.current) {upper : List OpenSource}
    (ht : t.suspended = upper ++ s.suspended) : upper = [] := by
  by_cases hne : upper = []
  · exact hne
  exfalso
  have hpos : 0 < upper.length := List.length_pos_iff.2 hne
  have deeper : ∀ n, ∃ u, Leads read o s u ∧ u.current = s.current ∧
      n ≤ u.suspended.length := by
    intro n
    induction n with
    | zero => exact ⟨s, .refl, rfl, Nat.zero_le _⟩
    | succ n ih =>
      obtain ⟨u, hlead, hu, hn⟩ := ih
      obtain ⟨g, hg, hcg, kept, hkept, hgs⟩ :=
        h.replay (Parallel.of_current hu) (hs.leads hlead)
      obtain rfl : upper = kept := List.append_cancel_right (ht.symm.trans hkept)
      refine ⟨g, hlead.trans hg, hcg.trans hc, ?_⟩
      rw [hgs, List.length_append]
      omega
  obtain ⟨u, hlead, _, hn⟩ := deeper (o.maxIncludeDepth + 1)
  have := hlead.depth_le hdepth
  omega

/-! ## Where the sources on the stack were entered -/

/-- The sources being read, the innermost first. -/
def State.stack (s : State) : List OpenSource :=
  s.current :: s.suspended

theorem State.activePaths_eq (s : State) : s.activePaths = s.stack.reverse.map (·.path) :=
  rfl

theorem State.suffix_suspended {front back : List OpenSource} {source : OpenSource}
    (h : s.stack = front ++ source :: back) : back <:+ s.suspended := by
  cases front with
  | nil =>
    obtain ⟨-, hback⟩ := List.cons.inj h
    exact ⟨[], hback.symm⟩
  | cons x front =>
    obtain ⟨-, hback⟩ := List.cons.inj h
    exact ⟨front ++ [source], by rw [hback]; simp⟩

/-- The source is the same, perhaps read further. -/
structure OpenSource.ReadsOn (before source : OpenSource) : Prop where
  path : before.path = source.path
  cursor : before.cursor.Reaches source.cursor

/-- How far the innermost source has been read does not matter to where a source stands. -/
theorem exists_split_of_readsOn {x y source : OpenSource} {front back stack : List OpenSource}
    (h : x :: stack = front ++ source :: back) (hyx : y.ReadsOn x) :
    ∃ front' source', y :: stack = front' ++ source' :: back ∧ source'.ReadsOn source := by
  cases front with
  | nil =>
    obtain ⟨rfl, rfl⟩ := List.cons.inj h
    exact ⟨[], y, rfl, hyx⟩
  | cons z front =>
    obtain ⟨rfl, rfl⟩ := List.cons.inj h
    exact ⟨y :: front, source, rfl, rfl, .refl _⟩

/-- A turn enters a source: in `s` it is included and not refused, and its text is found. -/
inductive Enters (read : Provider) (o : Options) (s : State) : State → Prop
  | intro {p : Position} {c d : Cursor} {path : SourcePath} {text : String}
      (token : Reading.nextToken s.current.cursor = .ok ⟨.includeMark, p⟩ c)
      (reads : s.readPath p c = .ok path d) (allowed : s.refusal? o path = none)
      (found : read path = .ok text) : Enters read o s ((s.moveTo d).enter path text)

/-- Each source on the stack behind a turn was there before, if perhaps not read as far, or has
just been entered. -/
theorem Goes.stack (h : Goes read o s t) {front back : List OpenSource} {source : OpenSource}
    (ht : t.stack = front ++ source :: back) :
    (∃ front' source', s.stack = front' ++ source' :: back ∧ source'.ReadsOn source) ∨
      Enters read o s t ∧ t.current = source ∧ t.suspended = back := by
  cases goes_iff.1 h with
  | blank token =>
    exact .inl (exists_split_of_readsOn (y := s.current) ht
      ⟨rfl, Reading.forward_nextToken.ok token⟩)
  | directive token reads obeys =>
    have hreaches := (Reading.forward_nextToken.ok token).trans
      ((Reading.forward_directive _ _).ok reads)
    exact .inl (exists_split_of_readsOn (y := s.current) ht ⟨rfl, hreaches⟩)
  | @resume p c waiting others token waits =>
    refine .inl ⟨s.current :: front, source, ?_, rfl, .refl _⟩
    rw [State.stack, waits]
    exact congrArg (s.current :: ·) ht
  | enter token reads allowed found =>
    cases front with
    | nil =>
      obtain ⟨hcurrent, hsuspended⟩ := List.cons.inj ht
      exact .inr ⟨.intro token reads allowed found, hcurrent, hsuspended⟩
    | cons x front =>
      obtain ⟨-, hrest⟩ := List.cons.inj ht
      have hreaches := (Reading.forward_nextToken.ok token).trans ((s.forward_readPath _).ok reads)
      exact .inl (exists_split_of_readsOn (y := s.current) hrest ⟨rfl, hreaches⟩)

/-- On the way from `s` to `t`, the source was entered in the state `e`, or the way begins there. It
has been read since from the start of its text, and the sources `below` it have been left alone. -/
structure OpenedAt (read : Provider) (o : Options) (s t e : State) (source : OpenSource)
    (text : String) (below : List OpenSource) : Prop where
  reached : Within read o s.suspended s e
  current : e.current = ⟨source.path, .ofText text⟩
  suspended : e.suspended = below
  since : Within read o below e t
  cursor : (Cursor.ofText text).Reaches source.cursor
  entered : e = s ∨ ∃ u, Within read o s.suspended s u ∧ Enters read o u e

/-- The text of a source that was entered is the one that the provider gives, if that is so of the
first source. -/
theorem OpenedAt.read_eq {e : State} {path : SourcePath} {first text : String}
    {source : OpenSource} {below : List OpenSource} (h : OpenedAt read o s t e source text below)
    (hs : s.current = ⟨path, .ofText first⟩) (hread : read path = .ok first) :
    read source.path = .ok text := by
  have hcurrent := h.current
  rcases h.entered with rfl | ⟨u, -, henters⟩
  · rw [hs] at hcurrent
    obtain ⟨rfl, htext⟩ := OpenSource.mk.inj hcurrent
    rw [hread, String.toList_inj.1 (congrArg Cursor.rest htext)]
  · cases henters with
    | intro token reads allowed found =>
      obtain ⟨hpath, htext⟩ := OpenSource.mk.inj hcurrent
      rw [← hpath, found, String.toList_inj.1 (congrArg Cursor.rest htext)]

/-- Each source on the stack was entered at some time with its text, if the first of them all
was, and nothing below it has been touched since. -/
theorem exists_opened {path : SourcePath} {text : String} (hs : s.current = ⟨path, .ofText text⟩)
    (h : Within read o s.suspended s t) {front back : List OpenSource} {source : OpenSource}
    (ht : t.stack = front ++ source :: (back ++ s.suspended)) :
    ∃ e text', OpenedAt read o s t e source text' (back ++ s.suspended) := by
  induction h generalizing front source with
  | refl =>
    have hlen := congrArg List.length ht
    simp only [State.stack, List.length_cons, List.length_append] at hlen
    obtain rfl : front = [] := List.length_eq_zero_iff.1 (by omega)
    obtain rfl : back = [] := List.length_eq_zero_iff.1 (by omega)
    obtain ⟨hsource, -⟩ := List.cons.inj ht
    rw [hs] at hsource
    subst hsource
    exact ⟨s, text, .refl, hs, rfl, .refl, .refl _, .inl rfl⟩
  | @tail u t hlead hgo ih =>
    rcases hgo.1.stack ht with ⟨front', source', hu, hon⟩ | ⟨henters, rfl, hsuspended⟩
    · obtain ⟨e, text', hopened⟩ := ih hu
      have hcurrent := hopened.current
      rw [hon.path] at hcurrent
      exact ⟨e, text', hopened.reached, hcurrent, hopened.suspended,
        hopened.since.tail ⟨hgo.1, State.suffix_suspended ht⟩,
        hopened.cursor.trans hon.cursor, hopened.entered⟩
    · cases henters with
      | intro token reads allowed found =>
        exact ⟨_, _, hlead.tail hgo, rfl, hsuspended, .refl, .refl _,
          .inr ⟨u, hlead, .intro token reads allowed found⟩⟩

/-- From the start of a text, each source on the stack was entered. -/
theorem Leads.exists_opened {path : SourcePath} {text : String}
    (h : Leads read o (.start path text) t) {front back : List OpenSource} {source : OpenSource}
    (ht : t.stack = front ++ source :: back) :
    ∃ e text', OpenedAt read o (.start path text) t e source text' back := by
  have hbase : back ++ (State.start path text).suspended = back := List.append_nil back
  have hwithin : Within read o (State.start path text).suspended (.start path text) t :=
    h.within_nil
  rw [← hbase] at ht
  obtain ⟨e, text', hopened⟩ := Document.exists_opened rfl hwithin ht
  rw [hbase] at hopened
  exact ⟨e, text', hopened⟩

end Songsheet.Document
