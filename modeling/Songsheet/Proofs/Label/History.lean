import Mathlib.Data.List.Induction
import Mathlib.Data.List.Nodup
import Songsheet.Proofs.Label

/-!
# What a registry remembers of its history

A registry is told of definitions and references in any order, and some definitions it refuses. What
it remembers of them is the first definition and the first reference of each label, and neither
depends on when the other was met. So its verdict is a matter of two lists, that of the definitions
and that of the references.

* `ofCalls` — the registry behind a history of definitions and references.
* `firstOfEach` — the first entry of each label; `ofCalls_eq` — these are what is remembered.
* `Defines` — a definition of a history that was not refused; `defines_iff` — these are the
  definitions that are remembered.
* `registry_of_calls` — which definitions are refused, which references no sequence answers, and the
  verdict, told of the history.
-/

namespace Songsheet

variable {α : Type}

/-! ## The first of each label -/

/-- The entries that are the first of their label, in order. -/
def firstOfEach (label : α → String) (entries : List α) : List α :=
  entries.eraseDupsBy fun x y => label y == label x

theorem eraseDupsBy_loop_concat (r : α → α → Bool) (entries : List α) (x : α) (found : List α) :
    List.eraseDupsBy.loop r (entries ++ [x]) found =
      if (List.eraseDupsBy.loop r entries found).any (r x) then
        List.eraseDupsBy.loop r entries found
      else List.eraseDupsBy.loop r entries found ++ [x] := by
  induction entries generalizing found with
  | nil =>
    simp only [List.nil_append, List.eraseDupsBy.loop, List.any_reverse]
    cases found.any (r x) <;> simp
  | cons y entries ih =>
    simp only [List.cons_append, List.eraseDupsBy.loop]
    by_cases hold : found.any (r y) = true
    · simp only [hold]
      exact ih found
    · simp only [Bool.eq_false_iff.2 hold]
      exact ih (y :: found)

/-- One more entry is the first of its label, or it is dropped. -/
theorem firstOfEach_concat (label : α → String) (entries : List α) (x : α) :
    firstOfEach label (entries ++ [x]) =
      if (firstOfEach label entries).any (label · == label x) then firstOfEach label entries
      else firstOfEach label entries ++ [x] :=
  eraseDupsBy_loop_concat _ entries x []

example : firstOfEach id ["b", "a", "b", "c", "a"] = ["b", "a", "c"] := by decide

/-- No label is found twice. -/
theorem nodup_firstOfEach (label : α → String) (entries : List α) :
    ((firstOfEach label entries).map label).Nodup := by
  induction entries using List.reverseRecOn with
  | nil => exact List.nodup_nil
  | append_singleton entries x ih =>
    rw [firstOfEach_concat]
    split
    · exact ih
    · rename_i hnew
      rw [List.map_append, List.map_singleton, ← List.concat_eq_append]
      refine List.Nodup.concat (fun hmem => hnew ?_) ih
      obtain ⟨y, hy, hlabel⟩ := List.mem_map.1 hmem
      exact List.any_eq_true.2 ⟨y, hy, beq_iff_eq.2 hlabel⟩

namespace Registry

/-! ## Histories -/

/-- What a registry is told. -/
inductive Call where
  | define (d : Definition)
  | refer (reference : Reference)
  deriving DecidableEq, Repr

/-- The definition of a call, if it is one. -/
def Call.definition? : Call → Option Definition
  | .define d => some d
  | .refer _ => none

/-- The reference of a call, if it is one. -/
def Call.reference? : Call → Option Reference
  | .define _ => none
  | .refer reference => some reference

/-- The definitions of a history, also those that are refused. -/
def definitionsIn (calls : List Call) : List Definition :=
  calls.filterMap Call.definition?

/-- The references of a history, also those to labels that were referenced before. -/
def referencesIn (calls : List Call) : List Reference :=
  calls.filterMap Call.reference?

/-- The registry behind one more call; a definition that is refused changes nothing. -/
def told (r : Registry) : Call → Registry
  | .define d => (r.define d.label d.kind d.site).toOption.getD r
  | .refer reference => r.refer reference.label reference.site

/-- The registry behind a history. -/
def ofCalls (calls : List Call) : Registry :=
  calls.foldl told empty

variable {calls : List Call} {call : Call} {d : Definition}

theorem ofCalls_concat (calls : List Call) (call : Call) :
    ofCalls (calls ++ [call]) = (ofCalls calls).told call := by
  simp [ofCalls]

theorem told_of_ok {r r' : Registry} (h : r.define d.label d.kind d.site = .ok r') :
    r.told (.define d) = r' := by
  rw [told, h]
  rfl

theorem told_of_error {r : Registry} {e : Diagnostic}
    (h : r.define d.label d.kind d.site = .error e) : r.told (.define d) = r := by
  rw [told, h]
  rfl

theorem told_define (r : Registry) (d : Definition) :
    r.told (.define d) =
      if r.definitions.any (·.label == d.label) then r
      else ⟨r.definitions ++ [d], r.references⟩ := by
  have hnone : r.definition? d.label = none ↔ ¬ r.definitions.any (·.label == d.label) := by
    rw [definition?_eq_none_iff]
    simp
  rw [told, define]
  by_cases hold : r.definitions.any (·.label == d.label)
  · obtain ⟨first, hfirst⟩ := Option.ne_none_iff_exists'.1 fun h => hnone.1 h hold
    rw [hfirst, if_pos hold]
    rfl
  · rw [hnone.2 hold, if_neg hold]
    rfl

theorem told_refer (r : Registry) (reference : Reference) :
    r.told (.refer reference) =
      if r.references.any (·.label == reference.label) then r
      else ⟨r.definitions, r.references ++ [reference]⟩ :=
  rfl

/-- **A registry remembers the first of each label.** Definitions and references do not get in each
other's way. -/
theorem ofCalls_eq (calls : List Call) :
    ofCalls calls = ⟨firstOfEach (·.label) (definitionsIn calls),
      firstOfEach (·.label) (referencesIn calls)⟩ := by
  induction calls using List.reverseRecOn with
  | nil => rfl
  | append_singleton calls call ih =>
    rw [ofCalls_concat, ih]
    cases call with
    | define d =>
      have hdefinitions : definitionsIn (calls ++ [.define d]) = definitionsIn calls ++ [d] := by
        simp [definitionsIn, Call.definition?]
      have hreferences : referencesIn (calls ++ [.define d]) = referencesIn calls := by
        simp [referencesIn, Call.reference?]
      rw [told_define, hdefinitions, hreferences, firstOfEach_concat]
      split <;> rfl
    | refer reference =>
      have hdefinitions : definitionsIn (calls ++ [.refer reference]) = definitionsIn calls := by
        simp [definitionsIn, Call.definition?]
      have hreferences : referencesIn (calls ++ [.refer reference]) =
          referencesIn calls ++ [reference] := by
        simp [referencesIn, Call.reference?]
      rw [told_refer, hdefinitions, hreferences, firstOfEach_concat]
      split <;> rfl

/-! ## Definitions that are not refused -/

/-- In a history stands a definition that was not refused when its turn came. -/
def Defines (calls : List Call) (d : Definition) : Prop :=
  ∃ front back r, calls = front ++ .define d :: back ∧
    (ofCalls front).define d.label d.kind d.site = .ok r

theorem defines_concat :
    Defines (calls ++ [call]) d ↔ Defines calls d ∨
      call = .define d ∧ ∃ r, (ofCalls calls).define d.label d.kind d.site = .ok r := by
  constructor
  · rintro ⟨front, back, r, hsplit, hok⟩
    rcases List.eq_nil_or_concat back with rfl | ⟨back, last, rfl⟩
    · obtain ⟨rfl, hcall⟩ := List.append_inj' hsplit rfl
      exact .inr ⟨List.singleton_inj.1 hcall, r, hok⟩
    · rw [List.concat_eq_append, ← List.cons_append, ← List.append_assoc] at hsplit
      obtain ⟨rfl, -⟩ := List.append_inj' hsplit rfl
      exact .inl ⟨front, back, r, rfl, hok⟩
  · rintro (⟨front, back, r, rfl, hok⟩ | ⟨rfl, r, hok⟩)
    · exact ⟨front, back ++ [call], r, by simp, hok⟩
    · exact ⟨calls, [], r, rfl, hok⟩

/-- The definitions that were not refused are those that are remembered. -/
theorem defines_iff : Defines calls d ↔ d ∈ (ofCalls calls).definitions := by
  induction calls using List.reverseRecOn with
  | nil =>
    constructor
    · rintro ⟨front, back, r, hsplit, -⟩
      simp at hsplit
    · intro h
      cases h
  | append_singleton calls call ih =>
    rw [defines_concat, ofCalls_concat, ih]
    cases call with
    | refer reference =>
      rw [told, definitions_refer]
      simp
    | define d' =>
      cases hdefine : (ofCalls calls).define d'.label d'.kind d'.site with
      | error e =>
        rw [told_of_error hdefine]
        refine or_iff_left ?_
        rintro ⟨hsame, r, hok⟩
        obtain rfl := Call.define.inj hsame
        cases hdefine.symm.trans hok
      | ok r =>
        obtain ⟨-, hr⟩ := define_eq_ok.1 hdefine
        rw [told_of_ok hdefine, hr, add, List.mem_append, List.mem_singleton]
        refine or_congr_right ⟨?_, ?_⟩
        · rintro ⟨hsame, -⟩
          exact (Call.define.inj hsame).symm
        · rintro rfl
          exact ⟨rfl, r, hdefine⟩

theorem nodup_ofCalls (calls : List Call) : ((ofCalls calls).definitions.map (·.label)).Nodup := by
  rw [ofCalls_eq]
  exact nodup_firstOfEach _ _

theorem definition?_ofCalls {label : String} :
    (ofCalls calls).definition? label = some d ↔ Defines calls d ∧ d.label = label := by
  rw [defines_iff]
  constructor
  · intro h
    exact ⟨List.mem_of_find?_eq_some h, by simpa using List.find?_some h⟩
  · rintro ⟨hmem, rfl⟩
    exact definition?_of_mem (nodup_ofCalls calls) hmem

theorem define_eq_error {r : Registry} {label : String} {kind : LabelKind} {site : Site}
    {e : Diagnostic} :
    r.define label kind site = .error e ↔ ∃ first, r.definition? label = some first ∧
      e = (Cause.duplicateLabel label first.site).reportedIn site := by
  rw [define]
  cases r.definition? label <;> simp [eq_comm]

theorem namesSequence_ofCalls {label : String} :
    (ofCalls calls).namesSequence label ↔
      ∃ d, Defines calls d ∧ d.label = label ∧ d.kind = .sequence := by
  constructor
  · intro h
    obtain ⟨d, hd, hkind, hlabel⟩ := exists_definition_of_namesSequence h
    exact ⟨d, defines_iff.2 hd, hlabel, hkind⟩
  · rintro ⟨d, hd, hlabel, hkind⟩
    rw [namesSequence, definition?_ofCalls.2 ⟨hd, hlabel⟩]
    exact beq_iff_eq.2 hkind

/-! ## The law of the registry -/

open Classical in
/-- **A registry and its history.** A definition is refused exactly if its label was defined before,
under either kind, and the refusal names the place of that definition; then nothing changes. The
references that no sequence answers are, in order, the first reference to each label that was not
defined for a sequence. The check accepts if there are none, and else reports the first. All of this
depends only on the order of the definitions and on that of the references. -/
theorem registry_of_calls (calls : List Call) :
    (∀ (label : String) (kind : LabelKind) (site : Site) (e : Diagnostic),
      (ofCalls calls).define label kind site = .error e ↔
        ∃ first, Defines calls first ∧ first.label = label ∧
          e = (Cause.duplicateLabel label first.site).reportedIn site) ∧
    (∀ (d : Definition) (e : Diagnostic),
      (ofCalls calls).define d.label d.kind d.site = .error e →
        ofCalls (calls ++ [.define d]) = ofCalls calls) ∧
    (ofCalls calls).undefined =
      (firstOfEach (·.label) (referencesIn calls)).filter (fun reference =>
        ¬ ∃ d, Defines calls d ∧ d.label = reference.label ∧ d.kind = .sequence) ∧
    ((ofCalls calls).check = .ok () ↔ (ofCalls calls).undefined = []) ∧
    (∀ (reference : Reference) (others : List Reference),
      (ofCalls calls).undefined = reference :: others →
        (ofCalls calls).check = .error
          ((if ∃ d, Defines calls d ∧ d.label = reference.label then
              Cause.trackLabel reference.label
            else .undefinedLabel reference.label).reportedIn reference.site)) ∧
    ∀ calls' : List Call, definitionsIn calls' = definitionsIn calls →
      referencesIn calls' = referencesIn calls →
        (ofCalls calls').undefined = (ofCalls calls).undefined ∧
          (ofCalls calls').check = (ofCalls calls).check := by
  refine ⟨?_, ?_, ?_, check_eq_ok_iff _, ?_, ?_⟩
  · intro label kind site e
    simp only [define_eq_error, definition?_ofCalls, and_assoc]
  · intro d e hrefused
    rw [ofCalls_concat, told_of_error hrefused]
  · have hreferences : (ofCalls calls).references =
        firstOfEach (·.label) (referencesIn calls) := by rw [ofCalls_eq]
    rw [undefined, hreferences]
    apply List.filter_congr
    intro reference _
    simp [← namesSequence_ofCalls]
  · intro reference others hundefined
    have hknown : ((ofCalls calls).definition? reference.label).isSome ↔
        ∃ d, Defines calls d ∧ d.label = reference.label := by
      simp only [Option.isSome_iff_exists, definition?_ofCalls]
    simp only [check, hundefined, refusal, hknown]
  · intro calls' hdefinitions hreferences
    have hsame : ofCalls calls' = ofCalls calls := by
      rw [ofCalls_eq, ofCalls_eq, hdefinitions, hreferences]
    rw [hsame]
    exact ⟨rfl, rfl⟩

/-- A place in a song. -/
def songSite (line : Nat) : Site := ⟨⟨"song"⟩, ⟨line, 1⟩⟩

/-- A history in which a sequence is used before it is defined, a track is used as one, and a label is
defined twice. -/
def rehearsal : List Call :=
  [.refer ⟨"verse", songSite 1⟩, .refer ⟨"lead", songSite 2⟩, .define ⟨"lead", .track, songSite 3⟩,
    .refer ⟨"verse", songSite 4⟩, .define ⟨"lead", .sequence, songSite 5⟩,
    .refer ⟨"coda", songSite 6⟩, .define ⟨"verse", .sequence, songSite 7⟩]

/-- The same definitions and the same references, one after the other. -/
def rehearsalInOrder : List Call :=
  (definitionsIn rehearsal).map .define ++ (referencesIn rehearsal).map .refer

theorem registry_of_rehearsal :
    ofCalls (rehearsal ++ [.define ⟨"lead", .sequence, songSite 8⟩]) = ofCalls rehearsal ∧
      (ofCalls rehearsal).check =
        .error ((Cause.trackLabel "lead").reportedIn (songSite 2)) ∧
      (ofCalls rehearsalInOrder).undefined =
        [⟨"lead", songSite 2⟩, ⟨"coda", songSite 6⟩] ∧
      (ofCalls rehearsalInOrder).check = (ofCalls rehearsal).check := by
  obtain ⟨-, hunchanged, -, -, hreport, horder⟩ := registry_of_calls rehearsal
  have hundefined : (ofCalls rehearsal).undefined =
      [⟨"lead", songSite 2⟩, ⟨"coda", songSite 6⟩] := by decide
  have hlead : ∃ d, Defines rehearsal d ∧ d.label = "lead" :=
    ⟨⟨"lead", .track, songSite 3⟩, defines_iff.2 (by decide), rfl⟩
  have hcheck := hreport _ _ hundefined
  rw [if_pos hlead] at hcheck
  obtain ⟨hsame, hverdict⟩ := horder rehearsalInOrder (by decide) (by decide)
  exact ⟨hunchanged ⟨"lead", .sequence, songSite 8⟩
    ((Cause.duplicateLabel "lead" (songSite 3)).reportedIn (songSite 8)) (by decide), hcheck,
    hsame.trans hundefined, hverdict⟩

end Registry

end Songsheet
