import Songsheet.Proofs.Document.Cycle
import Songsheet.Proofs.Document.Failure

/-!
# The stack of sources

A source that includes another one waits behind the include while the other one is read. So the
stack says how the source that is being read was come by: each source on it was included by the one
below, which has not been touched since and will go on from where it was left.

* `Waits` — what the reading knows of two neighbours on the stack; `Leads.waits` proves it of all of
  them, in every state that is reached.
* `Goes.suspended` — a turn leaves the suspended sources alone, puts the current source on top of
  them, or takes the topmost one back as it was left.
* `Goes.activePaths` — so does a turn with the paths of the sources, and only what is not refused is
  put there; with the check for cycles they are pairwise different (`Leads.pairwise`).
* `include_stack` — all of this, and that a cycle is reported as the whole chain of sources.
-/

namespace Songsheet.Document

variable {read : Provider} {o : Options} {s t u : State} {child parent : OpenSource}
  {below : List OpenSource}

/-! ## Neighbours on the stack -/

/-- On the way from `s` to `t`, the source `parent` has included the source `child` and waits for it:
it was read, above the sources `below`, up to an include whose target names `child`, and behind this
include it has been left alone since `child` was entered. -/
inductive Waits (read : Provider) (o : Options) (s t : State) (child parent : OpenSource)
    (below : List OpenSource) : Prop
  | intro {u : State} {p : Position} {c : Cursor} {target : List Char} {text : String}
      (reached : Leads read o s u) (reading : u.current.path = parent.path)
      (above : u.suspended = below)
      (token : Reading.nextToken u.current.cursor = .ok ⟨.includeMark, p⟩ c)
      (behind : TargetText target c parent.cursor)
      (named : child.path = parent.path.resolve (Text.trim (String.ofList target)))
      (found : read child.path = .ok text)
      (enters : Goes read o u ⟨⟨child.path, .ofText text⟩, parent :: below, u.draft⟩)
      (since : Within read o (parent :: below)
        ⟨⟨child.path, .ofText text⟩, parent :: below, u.draft⟩ t)

/-- A source that was entered is waited for as long as it is on the stack. -/
theorem Enters.waits {e : State} {text : String} (h : Enters read o u e) (reached : Leads read o s u)
    (hcurrent : e.current = ⟨child.path, .ofText text⟩) (hsuspended : e.suspended = parent :: below)
    (since : Within read o (parent :: below) e t) : Waits read o s t child parent below := by
  cases h with
  | intro token reads allowed found =>
    obtain ⟨rfl, htext⟩ := OpenSource.mk.inj hcurrent
    obtain rfl := String.toList_inj.1 (congrArg Cursor.rest htext)
    obtain ⟨rfl, rfl⟩ := List.cons.inj hsuspended
    obtain ⟨target, htarget, hnamed⟩ := State.readPath_eq_ok.1 reads
    have goes := (Move.enter token reads allowed found).goes
    exact ⟨reached, rfl, rfl, token, htarget, hnamed, found, goes, since⟩

/-- Of any two neighbours on the stack, the lower one waits for the upper one. -/
theorem Leads.waits {path : SourcePath} {text : String} (h : Leads read o (.start path text) t)
    {front : List OpenSource} (ht : t.stack = front ++ child :: parent :: below) :
    Waits read o (.start path text) t child parent below := by
  obtain ⟨e, text', hopened⟩ := h.exists_opened ht
  rcases hopened.entered with rfl | ⟨u, hreached, henters⟩
  · -- nothing is below the first source
    cases hopened.suspended
  · exact henters.waits hreached.leads hopened.current hopened.suspended hopened.since

/-! ## What a turn does to the stack -/

/-- A turn leaves the suspended sources alone, leaves the current source behind an include for
another one, or takes back, at the end of a text, the source that waits for it. -/
theorem Goes.suspended (h : Goes read o s t) :
    (t.suspended = s.suspended ∧ t.current.path = s.current.path) ∨
      (∃ d : Cursor, s.current.cursor.Reaches d ∧
        t.suspended = ⟨s.current.path, d⟩ :: s.suspended) ∨
      ∃ p c, Reading.nextToken s.current.cursor = .ok ⟨.endOfText, p⟩ c ∧
        s.suspended = t.current :: t.suspended := by
  cases goes_iff.1 h with
  | blank token => exact .inl ⟨rfl, rfl⟩
  | directive token reads obeys => exact .inl ⟨rfl, rfl⟩
  | resume token waits => exact .inr (.inr ⟨_, _, token, waits⟩)
  | enter token reads allowed found =>
    have hd := (Reading.forward_nextToken.ok token).trans ((s.forward_readPath _).ok reads)
    exact .inr (.inl ⟨_, hd, rfl⟩)

/-- A turn keeps the paths of the sources, adds one that is not refused, or gives up the last one. -/
theorem Goes.activePaths (h : Goes read o s t) :
    t.activePaths = s.activePaths ∨
      (∃ path, t.activePaths = s.activePaths ++ [path] ∧ s.refusal? o path = none) ∨
      s.activePaths = t.activePaths ++ [s.current.path] := by
  cases goes_iff.1 h with
  | blank token => exact .inl (s.activePaths_moveTo _)
  | directive token reads obeys => exact .inl (s.activePaths_moveTo _)
  | resume token waits =>
    refine .inr (.inr ?_)
    simp [State.activePaths, State.active, waits]
  | enter token reads allowed found =>
    refine .inr (.inl ⟨_, ?_, allowed⟩)
    simp [State.activePaths, State.active, State.enter, State.moveTo]

/-- With the check for cycles, the paths of the sources stay pairwise different. -/
theorem Leads.pairwise (h : Leads read o s t) (ho : o.detectIncludeCycles)
    (hs : s.activePaths.Pairwise fun p q => p.same q = false) :
    t.activePaths.Pairwise fun p q => p.same q = false := by
  induction h with
  | refl => exact hs
  | tail _ hgo ih =>
    rcases hgo.activePaths with hsame | ⟨path, hadds, hallowed⟩ | hdrops
    · rw [hsame]
      exact ih
    · -- what is not refused has been compared with all that are being read
      obtain ⟨hother, -⟩ := State.refusal?_eq_none_iff.1 hallowed
      rw [hadds, List.pairwise_append]
      refine ⟨ih, List.pairwise_singleton _ _, fun p hp q hq => ?_⟩
      obtain rfl := List.mem_singleton.1 hq
      exact hother ho p hp
    · rw [hdrops, List.pairwise_append] at ih
      exact ih.1

/-! ## Cycles that are reported -/

theorem State.exists_of_mem_activePaths {path : SourcePath} (h : path ∈ s.activePaths) :
    ∃ source ∈ s.stack, source.path = path := by
  simpa [activePaths_eq] using h

theorem State.Normal.of_mem {path : SourcePath} (hs : s.Normal) (h : path ∈ s.activePaths) :
    path.Normal := by
  obtain ⟨source, hsource, rfl⟩ := exists_of_mem_activePaths h
  exact hs source hsource

/-- Where paths are in normal form, a source that is refused because of a cycle is one of those that
are being read. -/
theorem State.mem_activePaths_of_same {p : Position} {c d : Cursor} {path : SourcePath}
    (hs : s.Normal) (reads : s.readPath p c = .ok path d)
    (h : ∃ q ∈ s.activePaths, q.same path) : path ∈ s.activePaths := by
  obtain ⟨q, hq, hsame⟩ := h
  rw [← (hs.of_mem hq).eq_of_same (normal_of_readPath reads) hsame]
  exact hq

theorem normal_start {root : SourcePath} {text : String} :
    (State.start root.normalize text).Normal :=
  List.forall_mem_singleton.2 root.normal_normalize

/-- A document that is refused because of a cycle leads to the include that closes it, and the chain
that is reported is that of all the sources being read there. -/
theorem exists_cycle_of_parse {root : SourcePath} {d : Diagnostic}
    (h : parse read o root = .error d) (hkind : d.kind = .includeCycle) :
    o.detectIncludeCycles ∧
      ∃ text s p c target c', read root.normalize = .ok text ∧
        Leads read o (.start root.normalize text) s ∧ s.turn read o = .stop (.error d) ∧
        Reading.nextToken s.current.cursor = .ok ⟨.includeMark, p⟩ c ∧ TargetText target c c' ∧
        s.current.path.resolve (Text.trim (String.ofList target)) ∈ s.activePaths ∧
        d.message = "include cycle: " ++ " -> ".intercalate ((s.activePaths ++
          [s.current.path.resolve (Text.trim (String.ofList target))]).map (·.text)) := by
  obtain ⟨text, s, hread, hlead, hfails⟩ :=
    exists_failure_of_parse h (by simp [hkind]) (by simp [hkind])
  have hshows := hfails.shows
  rw [hkind] at hshows
  obtain ⟨hdetect, p, c, path, c', token, reads, hsame, rfl⟩ := hshows
  have hmem := State.mem_activePaths_of_same (hlead.normal normal_start) reads hsame
  obtain ⟨target, htarget, rfl⟩ := State.readPath_eq_ok.1 reads
  exact ⟨hdetect, text, s, p, c, target, c', hread, hlead, turn_eq_stop_error_iff.2 hfails, token,
    htarget, hmem, rfl⟩

/-- **The stack of sources.** In every state that the reading of a root source reaches, no more
sources are suspended than the options allow; each source on the stack was included by the one below
it, which waits right behind that include and has been left alone since; no turn touches a suspended
source, but at the end of a text the topmost one goes on as it was left; and with the check for
cycles the paths of the sources are pairwise different. A cycle is reported only with that check, at
an include that names a source which is being read; the chain in the message is that of all sources
being read, from the root on, and the source that is included. -/
theorem include_stack (read : Provider) (o : Options) (root : SourcePath) :
    (∀ text s, Leads read o (.start root.normalize text) s →
      s.suspended.length ≤ o.maxIncludeDepth ∧
      (∀ front child parent below, s.stack = front ++ child :: parent :: below →
        Waits read o (.start root.normalize text) s child parent below) ∧
      (∀ t, Goes read o s t →
        (t.suspended = s.suspended ∧ t.current.path = s.current.path) ∨
        (∃ d : Cursor, s.current.cursor.Reaches d ∧
          t.suspended = ⟨s.current.path, d⟩ :: s.suspended) ∨
        ∃ p c, Reading.nextToken s.current.cursor = .ok ⟨.endOfText, p⟩ c ∧
          s.suspended = t.current :: t.suspended) ∧
      (o.detectIncludeCycles → s.activePaths.Pairwise fun p q => p.same q = false)) ∧
    ∀ d, parse read o root = .error d → d.kind = .includeCycle →
      o.detectIncludeCycles ∧
      ∃ text s p c target c', read root.normalize = .ok text ∧
        Leads read o (.start root.normalize text) s ∧ s.turn read o = .stop (.error d) ∧
        Reading.nextToken s.current.cursor = .ok ⟨.includeMark, p⟩ c ∧ TargetText target c c' ∧
        s.current.path.resolve (Text.trim (String.ofList target)) ∈ s.activePaths ∧
        d.message = "include cycle: " ++ " -> ".intercalate ((s.activePaths ++
          [s.current.path.resolve (Text.trim (String.ofList target))]).map (·.text)) := by
  refine ⟨fun text s hlead => ⟨?_, ?_, ?_, ?_⟩, ?_⟩
  · exact Leads.depth_le hlead (Nat.zero_le _)
  · intro front child parent below hs
    exact hlead.waits hs
  · intro t hgo
    exact hgo.suspended
  · intro ho
    exact hlead.pairwise ho (List.pairwise_singleton _ _)
  · intro d h hkind
    exact exists_cycle_of_parse h hkind

/-- The state in which the inner source of the ring has been entered. -/
def innerOfRing : State :=
  ⟨⟨⟨"parts/inner"⟩, .ofText "<../ring>"⟩, [⟨⟨"ring"⟩, ⟨[], ⟨1, 27⟩⟩⟩], .empty⟩

theorem leads_innerOfRing : Leads ring.read ⟨2, true⟩
    (.start (SourcePath.mk "ring").normalize "/* outer */< parts/inner >") innerOfRing := by
  have hgo : Goes ring.read ⟨2, true⟩
      (.start (SourcePath.mk "ring").normalize "/* outer */< parts/inner >") innerOfRing := by
    unfold Goes
    decide +kernel
  exact .single hgo

theorem include_stack_ring :
    Waits ring.read ⟨2, true⟩
        (.start (SourcePath.mk "ring").normalize "/* outer */< parts/inner >") innerOfRing
        ⟨⟨"parts/inner"⟩, .ofText "<../ring>"⟩ ⟨⟨"ring"⟩, ⟨[], ⟨1, 27⟩⟩⟩ [] ∧
      (∃ d, parse ring.read ⟨2, true⟩ ⟨"ring"⟩ = .error d ∧
        ∃ s : State, ∃ path ∈ s.activePaths,
          d.message = "include cycle: " ++
            " -> ".intercalate ((s.activePaths ++ [path]).map (·.text))) := by
  obtain ⟨stack, cycle⟩ := include_stack ring.read ⟨2, true⟩ ⟨"ring"⟩
  obtain ⟨-, waits, -, -⟩ := stack _ _ leads_innerOfRing
  obtain ⟨-, _, s, _, _, _, _, -, -, -, -, -, hmem, hmessage⟩ := cycle _ parse_ring rfl
  exact ⟨waits [] _ _ _ rfl, _, parse_ring, s, _, hmem, hmessage⟩

end Songsheet.Document
