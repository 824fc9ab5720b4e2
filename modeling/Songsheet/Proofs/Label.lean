import Songsheet.Label

/-!
# Labels and what a registry remembers of them

* `isLabel_iff` — a label is a word of the form `[A-Za-z][A-Za-z0-9_]*`.
* `Registry.define_eq_ok` — a definition is taken exactly if the label has none yet.
* `Registry.references_referAll` — the labels of references are never forgotten.
* `Registry.check_eq_error` — the check reports the first reference that no sequence answers.
-/

namespace Songsheet

/-! ## The form of a label -/

/-- A letter from A to Z in either case. -/
def IsLetter (c : Char) : Prop :=
  ('A' ≤ c ∧ c ≤ 'Z') ∨ ('a' ≤ c ∧ c ≤ 'z')

/-- A word of the form `[A-Za-z][A-Za-z0-9_]*`. -/
def IsIdentifier (word : String) : Prop :=
  ∃ first rest, word.toList = first :: rest ∧ IsLetter first ∧
    ∀ c ∈ rest, IsLetter c ∨ ('0' ≤ c ∧ c ≤ '9') ∨ c = '_'

theorem isAlpha_iff (c : Char) : c.isAlpha = true ↔ IsLetter c := by
  have hupper : c.isUpper = true ↔ 'A' ≤ c ∧ c ≤ 'Z' := decide_eq_true_iff
  have hlower : c.isLower = true ↔ 'a' ≤ c ∧ c ≤ 'z' := by
    show (decide ('a' ≤ c) && decide (c ≤ 'z')) = true ↔ _
    rw [Bool.and_eq_true, decide_eq_true_iff, decide_eq_true_iff]
  show (c.isUpper || c.isLower) = true ↔ _
  rw [Bool.or_eq_true, hupper, hlower, IsLetter]

theorem isAlphanum_iff (c : Char) :
    c.isAlphanum = true ↔ IsLetter c ∨ ('0' ≤ c ∧ c ≤ '9') := by
  simp only [Char.isAlphanum, Bool.or_eq_true, isAlpha_iff, Char.isDigit, decide_eq_true_eq,
    Bool.and_eq_true, Char.le_def, ge_iff_le]

theorem isLabel_iff (word : String) : isLabel word = true ↔ IsIdentifier word := by
  unfold isLabel IsIdentifier
  cases word.toList with
  | nil => simp
  | cons first rest =>
    simp only [Bool.and_eq_true, List.all_eq_true, Bool.or_eq_true, beq_iff_eq, isAlpha_iff,
      isAlphanum_iff, or_assoc]
    constructor
    · intro h
      obtain ⟨hf, hr⟩ := h
      exact ⟨first, rest, rfl, hf, hr⟩
    · intro h
      obtain ⟨_, _, heq, hf, hr⟩ := h
      obtain ⟨rfl, rfl⟩ := List.cons.inj heq
      exact ⟨hf, hr⟩

/-! ## Definitions -/

namespace Registry

theorem definition?_eq_none_iff {r : Registry} {label : String} :
    r.definition? label = none ↔ label ∉ r.definitions.map (·.label) := by
  simp [definition?]

/-- The registry with one more definition. -/
def add (r : Registry) (d : Definition) : Registry :=
  { r with definitions := r.definitions ++ [d] }

theorem define_eq_ok {r r' : Registry} {label : String} {kind : LabelKind} {site : Site} :
    r.define label kind site = .ok r' ↔
      label ∉ r.definitions.map (·.label) ∧ r' = r.add ⟨label, kind, site⟩ := by
  rw [← definition?_eq_none_iff, define]
  cases r.definition? label with
  | none => simp [add, eq_comm]
  | some first => simp

/-- Where labels are distinct, each definition is found under its label. -/
theorem definition?_of_mem {r : Registry} (hdistinct : (r.definitions.map (·.label)).Nodup)
    {d : Definition} (hd : d ∈ r.definitions) : r.definition? d.label = some d := by
  obtain ⟨front, back, hsplit⟩ := List.append_of_mem hd
  rw [hsplit, List.map_append, List.map_cons, List.nodup_append] at hdistinct
  rw [definition?, List.find?_eq_some_iff_append]
  refine ⟨by simp, front, back, hsplit, fun other hother => ?_⟩
  simpa using hdistinct.2.2 _ (List.mem_map_of_mem hother) _ (List.mem_cons_self ..)

theorem exists_definition_of_namesSequence {r : Registry} {label : String}
    (h : r.namesSequence label) :
    ∃ d ∈ r.definitions, d.kind = .sequence ∧ d.label = label := by
  unfold namesSequence at h
  cases hd : r.definition? label with
  | none => simp [hd] at h
  | some d =>
    rw [hd] at h
    exact ⟨d, List.mem_of_find?_eq_some hd, by simpa using h,
      by simpa using List.find?_some hd⟩

/-! ## References -/

@[simp] theorem definitions_refer (r : Registry) (label : String) (site : Site) :
    (r.refer label site).definitions = r.definitions := by
  unfold refer
  split <;> rfl

theorem references_refer (r : Registry) (label l : String) (site : Site) :
    l ∈ (r.refer label site).references.map (·.label) ↔
      l ∈ r.references.map (·.label) ∨ l = label := by
  unfold refer
  split
  · rename_i h
    obtain ⟨x, hx, heq⟩ := List.any_eq_true.1 h
    have hmem : label ∈ r.references.map (·.label) := by
      rw [← (beq_iff_eq.1 heq : x.label = label)]
      exact List.mem_map_of_mem hx
    constructor
    · exact .inl
    · rintro (h | rfl)
      · exact h
      · exact hmem
  · simp [List.mem_append, eq_comm]

@[simp] theorem definitions_referAll (r : Registry) (references : List Reference) :
    (r.referAll references).definitions = r.definitions := by
  induction references generalizing r with
  | nil => rfl
  | cons reference references ih =>
    exact (ih (r.refer reference.label reference.site)).trans (definitions_refer r _ _)

theorem references_referAll (r : Registry) (references : List Reference) (l : String) :
    l ∈ (r.referAll references).references.map (·.label) ↔
      l ∈ r.references.map (·.label) ∨ l ∈ references.map (·.label) := by
  induction references generalizing r with
  | nil => simp [referAll]
  | cons reference references ih =>
    have h := ih (r.refer reference.label reference.site)
    rw [references_refer] at h
    rw [List.map_cons, List.mem_cons, ← or_assoc]
    exact h

/-- Where the check accepts, a sequence answers every reference. -/
theorem namesSequence_of_check {r : Registry} (h : r.check = .ok ()) {l : String}
    (hl : l ∈ r.references.map (·.label)) : r.namesSequence l := by
  rw [check_eq_ok_iff, undefined, List.filter_eq_nil_iff] at h
  obtain ⟨x, hx, rfl⟩ := List.mem_map.1 hl
  simpa using h x hx

/-- Dropping all but the first reference to each label does not change which reference is the first
with a given property of its label. -/
theorem find?_refer (P : String → Bool) (r : Registry) (label : String) (site : Site) :
    (r.refer label site).references.find? (P ·.label) =
      (r.references ++ [(⟨label, site⟩ : Reference)]).find? (P ·.label) := by
  unfold refer
  split
  · rename_i h
    obtain ⟨x, hx, heq⟩ := List.any_eq_true.1 h
    obtain rfl : x.label = label := by simpa using heq
    rw [List.find?_append]
    by_cases hP : P x.label
    · have hfound : (r.references.find? (P ·.label)).isSome := List.find?_isSome.2 ⟨x, hx, hP⟩
      obtain ⟨y, hy⟩ := Option.isSome_iff_exists.1 hfound
      rw [hy, Option.some_or]
    · simp [hP]
  · rfl

theorem find?_referAll (P : String → Bool) (r : Registry) (references : List Reference) :
    (r.referAll references).references.find? (P ·.label) =
      (r.references ++ references).find? (P ·.label) := by
  induction references generalizing r with
  | nil => simp [referAll]
  | cons reference references ih =>
    have hrest := ih (r.refer reference.label reference.site)
    rw [List.find?_append, find?_refer] at hrest
    rw [List.append_cons, List.find?_append]
    exact hrest

/-- The check reports the first reference that no sequence answers. -/
theorem check_eq_error {r : Registry} {d : Diagnostic} :
    r.check = .error d ↔
      ∃ reference, r.references.find? (!r.namesSequence ·.label) = some reference ∧
        d = (r.refusal reference.label).reportedIn reference.site := by
  have hhead : r.undefined.head? = r.references.find? (!r.namesSequence ·.label) :=
    List.head?_filter
  rw [← hhead, check]
  cases r.undefined with
  | nil => simp
  | cons reference others => simp [eq_comm]

theorem kind_refusal (r : Registry) (label : String) :
    (r.refusal label).kind = .undefinedLabel := by
  unfold refusal
  split <;> rfl

theorem kind_of_check {r : Registry} {d : Diagnostic} (h : r.check = .error d) :
    d.kind = .undefinedLabel := by
  obtain ⟨reference, -, rfl⟩ := check_eq_error.1 h
  exact r.kind_refusal reference.label

end Registry

end Songsheet
