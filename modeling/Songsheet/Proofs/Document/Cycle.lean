import Songsheet.Proofs.Document.Include
import Songsheet.Proofs.Document.Nesting
import Songsheet.Proofs.SourcePath

/-!
# Cycles of includes

The check for cycles refuses a source that is being read already. It is not needed for the
libraries that are found, only for a better report: a source that is entered within itself is
entered so without end, and the limit on the depth then refuses it anyway.

* `Leads.normal` — all sources are named by paths in normal form, so that paths which are the
  same are equal and stand for the same text.
* `activePaths_pairwise` — a reading that succeeds never has one source active twice.
* `detection_keeps_libraries` — the same libraries are found with the check and without it.
-/

namespace Songsheet.Document

variable {read : Provider} {o o' : Options} {s t : State}

/-! ## Paths in normal form -/

theorem State.normal_of_readPath {mark : Position} {c d : Cursor} {path : SourcePath}
    (h : s.readPath mark c = .ok path d) : path.Normal := by
  obtain ⟨target, -, rfl⟩ := readPath_eq_ok.1 h
  exact SourcePath.normal_resolve s.current.path _

/-- The paths of all sources that are being read are in normal form. -/
def State.Normal (s : State) : Prop :=
  ∀ source ∈ s.stack, source.path.Normal

theorem Goes.normal (h : Goes read o s t) (hs : s.Normal) : t.Normal := by
  have hcurrent : s.current.path.Normal := hs s.current (List.mem_cons_self ..)
  have hsuspended : ∀ source ∈ s.suspended, source.path.Normal := fun source hm =>
    hs source (List.mem_cons_of_mem _ hm)
  cases goes_iff.1 h with
  | blank token => exact List.forall_mem_cons.2 ⟨hcurrent, hsuspended⟩
  | directive token reads obeys => exact List.forall_mem_cons.2 ⟨hcurrent, hsuspended⟩
  | resume token waits =>
    rw [waits] at hsuspended
    exact hsuspended
  | enter token reads allowed found =>
    exact List.forall_mem_cons.2 ⟨State.normal_of_readPath reads,
      List.forall_mem_cons.2 ⟨hcurrent, hsuspended⟩⟩

theorem Leads.normal (h : Leads read o s t) (hs : s.Normal) : t.Normal := by
  induction h with
  | refl => exact hs
  | tail _ hgo ih => exact hgo.normal ih

/-! ## Sources active once -/

/-- In a reading that succeeds, two sources on the stack have different paths: below the upper
one, the lower one was entered with the same text as the upper one. -/
theorem not_same_of_stack {path : SourcePath} {text : String} (hpath : path.Normal)
    (hread : read path = .ok text) (hs : Succeeds read o (.start path text))
    (h : Leads read o (.start path text) t) {front mid back : List OpenSource}
    {a b : OpenSource} (ht : t.stack = front ++ a :: (mid ++ b :: back)) :
    b.path.same a.path = false := by
  rw [Bool.eq_false_iff]
  intro hsame
  have hnormal : t.Normal := h.normal (List.forall_mem_singleton.2 hpath)
  have heq : b.path = a.path :=
    (hnormal b (by simp [ht])).eq_of_same (hnormal a (by simp [ht])) hsame
  have hlower : t.stack = (front ++ a :: mid) ++ b :: back := by simpa using ht
  obtain ⟨e, texte, lower⟩ := h.exists_opened hlower
  have hsince := lower.since
  rw [← lower.suspended] at hsince
  have hupper : t.stack = front ++ a :: ((mid ++ [b]) ++ e.suspended) := by
    rw [lower.suspended]
    simpa using ht
  obtain ⟨f, textf, upper⟩ := exists_opened lower.current hsince hupper
  have hcurrent : f.current = e.current := by
    have hreade := lower.read_eq rfl hread
    have hreadf := upper.read_eq lower.current hreade
    rw [heq, hreadf, Except.ok.injEq] at hreade
    rw [upper.current, lower.current, heq, hreade]
  have hnone := not_within_itself (hs.leads lower.reached.leads)
    (lower.reached.leads.depth_le (Nat.zero_le _)) upper.reached hcurrent upper.suspended
  simp at hnone

theorem pairwise_of_split {α : Type} {R : α → α → Prop} {l : List α}
    (h : ∀ front a mid b back, l = front ++ a :: (mid ++ b :: back) → R a b) :
    l.Pairwise R := by
  rw [List.pairwise_iff_forall_sublist]
  intro a b hab
  obtain ⟨upper, lower, rfl, ha, hb⟩ := List.cons_sublist_iff.1 hab
  obtain ⟨front, after, rfl⟩ := List.append_of_mem ha
  obtain ⟨before, back, rfl⟩ := List.append_of_mem (List.singleton_sublist.1 hb)
  exact h front a (after ++ before) b back (by simp)

/-- A reading that succeeds never has one source active twice. -/
theorem activePaths_pairwise {path : SourcePath} {text : String} (hpath : path.Normal)
    (hread : read path = .ok text) (hs : Succeeds read o (.start path text))
    (h : Leads read o (.start path text) t) :
    t.activePaths.Pairwise fun p q => p.same q = false := by
  rw [State.activePaths_eq, List.pairwise_map, List.pairwise_reverse]
  exact pairwise_of_split fun _ _ _ _ _ ht => not_same_of_stack hpath hread hs h ht

/-! ## Other options -/

/-- A turn goes on in the same way under other options that do not refuse what it enters. -/
theorem Goes.of_allowed (h : Goes read o s t)
    (ho : ∀ path, s.refusal? o path = none → t.activePaths = s.activePaths ++ [path] →
      s.refusal? o' path = none) : Goes read o' s t := by
  rw [goes_iff] at h ⊢
  cases h with
  | blank token => exact .blank token
  | directive token reads obeys => exact .directive token reads obeys
  | resume token waits => exact .resume token waits
  | enter token reads allowed found =>
    refine .enter token reads (ho _ allowed ?_) found
    simp [State.activePaths, State.active, State.enter, State.moveTo]

/-- A library that is found under some options is found under others that refuse nothing of what
the reading enters. -/
theorem parse_of_allowed {root : SourcePath} {text : String} {l : Library}
    (hread : read root.normalize = .ok text) (hl : parse read o root = .ok l)
    (ho : ∀ s t, Leads read o (.start root.normalize text) s → Goes read o s t →
      ∀ path, s.refusal? o path = none → t.activePaths = s.activePaths ++ [path] →
        s.refusal? o' path = none) : parse read o' root = .ok l := by
  obtain ⟨text', hread', hl⟩ := parse_eq_ok.1 hl
  obtain rfl := Except.ok.inj (hread.symm.trans hread')
  obtain ⟨u, draft, hlead, hstop, hconclude⟩ := parseText_eq_ok_iff_leads.1 hl
  refine parse_eq_ok.2 ⟨text, hread, parseText_eq_ok_iff_leads.2
    ⟨u, draft, ?_, turn_eq_stop_ok_iff.2 (turn_eq_stop_ok_iff.1 hstop), hconclude⟩⟩
  clear hstop
  induction hlead with
  | refl => exact .refl
  | tail hlead hgo ih => exact ih.tail (hgo.of_allowed (ho _ _ hlead hgo))

theorem succeeds_of_parse {root : SourcePath} {text : String} {l : Library}
    (hread : read root.normalize = .ok text) (hl : parse read o root = .ok l) :
    Succeeds read o (.start root.normalize text) := by
  obtain ⟨text', hread', hl⟩ := parse_eq_ok.1 hl
  obtain rfl := Except.ok.inj (hread.symm.trans hread')
  obtain ⟨t, draft, hlead, hstop, -⟩ := parseText_eq_ok_iff_leads.1 hl
  exact ⟨t, draft, hlead, hstop⟩

/-- **Cycle detection changes only which error is reported.** A root source defines the same
library with the check for cycles as without it, at any limit on the depth; and when it defines
one without the check, no source has been active twice at any time of the reading. -/
theorem detection_keeps_libraries (read : Provider) (root : SourcePath) (depth : Nat) :
    (∀ l, parse read ⟨depth, true⟩ root = .ok l ↔ parse read ⟨depth, false⟩ root = .ok l) ∧
      ∀ l text s, parse read ⟨depth, false⟩ root = .ok l → read root.normalize = .ok text →
        Leads read ⟨depth, false⟩ (.start root.normalize text) s →
          s.activePaths.Pairwise fun p q => p.same q = false := by
  have hpairwise : ∀ l text s, parse read ⟨depth, false⟩ root = .ok l →
      read root.normalize = .ok text →
        Leads read ⟨depth, false⟩ (.start root.normalize text) s →
          s.activePaths.Pairwise fun p q => p.same q = false := by
    intro l text s hl hread hlead
    exact activePaths_pairwise root.normal_normalize hread (succeeds_of_parse hread hl) hlead
  refine ⟨fun l => ⟨fun hl => ?_, fun hl => ?_⟩, hpairwise⟩
  · obtain ⟨text, hread, _⟩ := parse_eq_ok.1 hl
    refine parse_of_allowed hread hl fun s t _ _ path allowed _ => ?_
    obtain ⟨-, hdepth⟩ := State.refusal?_eq_none_iff.1 allowed
    exact State.refusal?_eq_none_iff.2 ⟨by simp, hdepth⟩
  · obtain ⟨text, hread, _⟩ := parse_eq_ok.1 hl
    refine parse_of_allowed hread hl fun s t hlead hgo path allowed hactive => ?_
    obtain ⟨-, hdepth⟩ := State.refusal?_eq_none_iff.1 allowed
    refine State.refusal?_eq_none_iff.2 ⟨fun _ p hp => ?_, hdepth⟩
    have hall := hpairwise l text t hl hread (hlead.tail hgo)
    rw [hactive, List.pairwise_append] at hall
    exact hall.2.2 p hp path (List.mem_singleton_self _)

theorem parse_duet_detecting : parse duet.read ⟨2, true⟩ ⟨"song"⟩ = .ok duetLibrary :=
  ((detection_keeps_libraries duet.read ⟨"song"⟩ 2).1 duetLibrary).2 parse_duet

end Songsheet.Document
