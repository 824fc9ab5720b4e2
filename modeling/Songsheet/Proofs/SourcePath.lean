import Songsheet.SourcePath

/-!
# Normal forms of paths

The names on a route are never empty, hold no slash and are neither `.` nor `..`. The text of a
route is therefore read back part by part, and a normal form is known by its components alone.

* `Route.Proper` — the names of a route are of this kind; every path takes such a route
  (`SourcePath.proper_route`).
* `Route.components_path` — the components of the path of a proper route are those of the route.
* `SourcePath.Normal` — the paths of proper routes; two of them that are the same are equal
  (`Normal.eq_of_same`), includes are resolved to such paths (`normal_resolve`), and normalizing
  leaves them alone (`normal_iff`).
-/

namespace Songsheet

/-! ## Parts between slashes -/

theorem slashParts_of_not_mem {part : List Char} (h : '/' ∉ part) : slashParts part = [part] := by
  induction part with
  | nil => rfl
  | cons c part ih =>
    obtain ⟨hc, hpart⟩ := not_or.1 (mt List.mem_cons.2 h)
    rw [slashParts, if_neg (Ne.symm hc), ih hpart]

theorem slashParts_append {part rest : List Char} (h : '/' ∉ part) :
    slashParts (part ++ '/' :: rest) = part :: slashParts rest := by
  induction part with
  | nil => simp [slashParts]
  | cons c part ih =>
    obtain ⟨hc, hpart⟩ := not_or.1 (mt List.mem_cons.2 h)
    rw [List.cons_append, slashParts, if_neg (Ne.symm hc), ih hpart]

/-- Splitting at slashes takes back joining with slashes. -/
theorem slashParts_intercalate {parts : List (List Char)} (hne : parts ≠ [])
    (h : ∀ part ∈ parts, '/' ∉ part) : slashParts (['/'].intercalate parts) = parts := by
  induction parts with
  | nil => exact absurd rfl hne
  | cons part parts ih =>
    have hpart := h part (List.mem_cons_self ..)
    cases parts with
    | nil => rw [List.intercalate_singleton, slashParts_of_not_mem hpart]
    | cons next parts =>
      have hrest := ih (by simp) fun p hp => h p (List.mem_cons_of_mem _ hp)
      rw [List.intercalate_cons_cons, List.append_assoc, List.singleton_append,
        slashParts_append hpart, hrest]

theorem slashParts_ne_nil (text : List Char) : slashParts text ≠ [] := by
  cases text with
  | nil => simp [slashParts]
  | cons c text =>
    rw [slashParts]
    split
    · simp
    · split <;> simp

theorem not_mem_of_mem_slashParts {text part : List Char} (h : part ∈ slashParts text) :
    '/' ∉ part := by
  induction text generalizing part with
  | nil => simp_all [slashParts]
  | cons c text ih =>
    rw [slashParts] at h
    split at h
    · rcases List.mem_cons.1 h with rfl | h
      · simp
      · exact ih h
    · rename_i hc
      split at h
      · obtain rfl := List.mem_singleton.1 h
        simpa using Ne.symm hc
      · rename_i first rest hparts
        rw [hparts] at ih
        rcases List.mem_cons.1 h with rfl | h
        · simpa [Ne.symm hc] using ih (List.mem_cons_self ..)
        · exact ih (List.mem_cons_of_mem _ h)

/-! ## Proper names -/

/-- A name that stands for itself between two slashes. -/
def IsName (name : String) : Prop :=
  name.toList ≠ [] ∧ name.toList ≠ ['.'] ∧ name.toList ≠ ['.', '.'] ∧ '/' ∉ name.toList

theorem Component.ofPart?_toList {name : String} (h : IsName name) :
    ofPart? name.toList = some (.name name) := by
  obtain ⟨hnil, hdot, hdots, -⟩ := h
  simp [ofPart?, hnil, hdot, hdots]

/-- A component whose name, if it has one, stands for itself. -/
def Component.Proper : Component → Prop
  | .name text => IsName text
  | _ => True

theorem SourcePath.proper_components {p : SourcePath} {c : Component}
    (h : c ∈ p.components) : c.Proper := by
  unfold components at h
  rcases List.mem_append.1 h with h | h
  · split at h <;> simp at h <;> subst h <;> trivial
  · obtain ⟨part, hpart, hc⟩ := List.mem_filterMap.1 h
    have hslash := not_mem_of_mem_slashParts hpart
    unfold Component.ofPart? at hc
    split at hc
    · simp at hc
    · rename_i hempty
      split at hc
      · obtain rfl := Option.some.inj hc
        trivial
      · rename_i hdots
        obtain rfl := Option.some.inj hc
        rw [not_or] at hempty
        simpa [Component.Proper, IsName] using ⟨hempty.1, hempty.2, hdots, hslash⟩

namespace Route

/-- All names of a route stand for themselves. -/
def Proper (r : Route) : Prop :=
  ∀ name ∈ r.names, IsName name

theorem proper_here : here.Proper := by
  simp [Proper, here]

theorem Proper.step {r : Route} (h : r.Proper) {c : Component} (hc : c.Proper) :
    (r.step c).Proper := by
  cases c with
  | root => simp [Route.step, Proper]
  | current => exact h
  | name text =>
    intro name hn
    rcases List.mem_append.1 hn with hn | hn
    · exact h name hn
    · obtain rfl := List.mem_singleton.1 hn
      exact hc
  | parent =>
    obtain ⟨anchor, names⟩ := r
    cases names with
    | cons name names => exact fun n hn => h n (List.dropLast_subset _ hn)
    | nil =>
      cases anchor with
      | root => exact h
      | above levels => exact h

theorem Proper.follow {r : Route} (h : r.Proper) {steps : List Component}
    (hs : ∀ c ∈ steps, c.Proper) : (r.follow steps).Proper := by
  induction steps generalizing r with
  | nil => exact h
  | cons c steps ih =>
    exact ih (h.step (hs c (List.mem_cons_self ..))) fun d hd => hs d (List.mem_cons_of_mem _ hd)

/-! ## The path of a route -/

theorem toList_path (r : Route) :
    r.path.text.toList = match r.anchor with
      | .root => '/' :: ['/'].intercalate (r.names.map String.toList)
      | .above levels =>
        ['/'].intercalate (List.replicate levels ['.', '.'] ++ r.names.map String.toList) := by
  obtain ⟨anchor, names⟩ := r
  cases anchor with
  | root => simp [path, String.toList_intercalate]
  | above levels =>
    simp [path, components, String.toList_intercalate, Component.text, Function.comp_def]

theorem filterMap_names {names : List String} (h : ∀ name ∈ names, IsName name) :
    (names.map String.toList).filterMap Component.ofPart? = names.map .name := by
  induction names with
  | nil => rfl
  | cons name names ih =>
    have hname := Component.ofPart?_toList (h name (List.mem_cons_self ..))
    have hnames := ih fun n hn => h n (List.mem_cons_of_mem _ hn)
    rw [List.map_cons, List.filterMap_cons, hname, hnames, List.map_cons]

theorem not_mem_names {names : List String} (h : ∀ name ∈ names, IsName name) :
    ∀ part ∈ names.map String.toList, '/' ∉ part := by
  intro part hp
  obtain ⟨name, hn, rfl⟩ := List.mem_map.1 hp
  exact (h name hn).2.2.2

/-- Joining and splitting again loses no component; nothing at all becomes one empty part. -/
theorem filterMap_slashParts_intercalate {parts : List (List Char)}
    (h : ∀ part ∈ parts, '/' ∉ part) :
    (slashParts (['/'].intercalate parts)).filterMap Component.ofPart? =
      parts.filterMap Component.ofPart? := by
  cases parts with
  | nil => rfl
  | cons part parts => rw [slashParts_intercalate (by simp) h]

/-- The components of the path of a proper route are those of the route. -/
theorem components_path {r : Route} (h : r.Proper) : r.path.components = r.components := by
  have hslash := not_mem_names h
  have hnames := filterMap_names h
  rw [SourcePath.components, toList_path]
  obtain ⟨anchor, names⟩ := r
  cases anchor with
  | root =>
    have hparts := filterMap_slashParts_intercalate hslash
    cases hs : slashParts (['/'].intercalate (names.map String.toList)) with
    | nil => exact absurd hs (slashParts_ne_nil _)
    | cons part parts =>
      rw [hs, hnames] at hparts
      simp only [slashParts, hs, if_true, List.filterMap_cons, components] at hparts ⊢
      simpa [Component.ofPart?] using hparts
  | above levels =>
    have hparents : (List.replicate levels ['.', '.']).filterMap Component.ofPart? =
        List.replicate levels .parent := by
      simp [Component.ofPart?]
    have hall : ∀ part ∈ List.replicate levels ['.', '.'] ++ names.map String.toList,
        '/' ∉ part ∧ part ≠ [] ∧ part ≠ ['.'] := by
      intro part hp
      rcases List.mem_append.1 hp with hp | hp
      · obtain rfl := List.eq_of_mem_replicate hp
        decide
      · obtain ⟨name, hn, rfl⟩ := List.mem_map.1 hp
        exact ⟨(h name hn).2.2.2, (h name hn).1, (h name hn).2.1⟩
    have hparts := filterMap_slashParts_intercalate fun part hp => (hall part hp).1
    rw [List.filterMap_append, hparents, hnames] at hparts
    dsimp only
    rw [hparts]
    -- no part is empty or a single dot, so nothing stands in front
    cases hp : List.replicate levels ['.', '.'] ++ names.map String.toList with
    | nil => simp [slashParts, components]
    | cons part parts =>
      rw [hp] at hall
      obtain ⟨-, hnil, hdot⟩ := hall part (List.mem_cons_self ..)
      rw [slashParts_intercalate (by simp) fun p hp => (hall p hp).1]
      simp [components, hnil, hdot]

theorem root_mem_components {r : Route} : .root ∈ r.components ↔ r.anchor = .root := by
  obtain ⟨anchor, names⟩ := r
  cases anchor <;> simp [components]

theorem count_parent_names (names : List String) :
    (names.map Component.name).count .parent = 0 := by
  simp [List.count_eq_zero]

/-- A route is known by its components. -/
theorem components_injective {r q : Route} (h : r.components = q.components) : r = q := by
  have hanchor : r.anchor = .root ↔ q.anchor = .root := by
    rw [← root_mem_components, ← root_mem_components, h]
  obtain ⟨anchor, names⟩ := r
  obtain ⟨anchor', names'⟩ := q
  cases anchor with
  | root =>
    obtain rfl : anchor' = .root := by simpa using hanchor
    simpa [components, List.map_inj_right] using h
  | above levels =>
    cases anchor' with
    | root => simp at hanchor
    | above levels' =>
      have hcount := congrArg (List.count .parent) h
      obtain rfl : levels = levels' := by
        simpa [components, count_parent_names] using hcount
      simpa [components, List.map_inj_right] using h

theorem follow_append (r : Route) (front back : List Component) :
    r.follow (front ++ back) = (r.follow front).follow back :=
  List.foldl_append

theorem follow_names (r : Route) (names : List String) :
    r.follow (names.map .name) = { r with names := r.names ++ names } := by
  induction names generalizing r with
  | nil => simp [follow]
  | cons name names ih =>
    show (r.step (.name name)).follow (names.map .name) = _
    rw [ih]
    simp [step]

theorem follow_parents (levels more : Nat) :
    follow ⟨.above levels, []⟩ (List.replicate more .parent) = ⟨.above (levels + more), []⟩ := by
  induction more generalizing levels with
  | zero => rfl
  | succ more ih =>
    show follow ⟨.above (levels + 1), []⟩ (List.replicate more .parent) = _
    rw [ih, Nat.add_right_comm]
    rfl

/-- Following its components, a route is taken again. -/
theorem follow_components (r : Route) : here.follow r.components = r := by
  obtain ⟨anchor, names⟩ := r
  rw [components, follow_append, follow_names]
  cases anchor with
  | root => rfl
  | above levels =>
    have hparents : here.follow (List.replicate levels .parent) = ⟨.above levels, []⟩ := by
      rw [here, follow_parents, Nat.zero_add]
    simp [hparents]

/-- Two paths in normal form that are the same are equal. -/
theorem path_eq_of_same {r q : Route} (hr : r.Proper) (hq : q.Proper)
    (h : r.path.same q.path) : r.path = q.path := by
  rw [SourcePath.same, beq_iff_eq, components_path hr, components_path hq] at h
  rw [components_injective h]

end Route

namespace SourcePath

theorem proper_route (p : SourcePath) : p.route.Proper :=
  Route.proper_here.follow fun _ => proper_components

/-- A path in normal form: the shortest path of some route. -/
def Normal (p : SourcePath) : Prop :=
  ∃ r : Route, r.Proper ∧ p = r.path

theorem Normal.eq_of_same {p q : SourcePath} (hp : p.Normal) (hq : q.Normal)
    (h : p.same q) : p = q := by
  obtain ⟨r, hr, rfl⟩ := hp
  obtain ⟨r', hr', rfl⟩ := hq
  exact Route.path_eq_of_same hr hr' h

theorem normal_normalize (p : SourcePath) : p.normalize.Normal :=
  ⟨p.route, p.proper_route, rfl⟩

/-- The paths in normal form are those that normalizing leaves alone. -/
theorem normal_iff {p : SourcePath} : p.Normal ↔ p.normalize = p := by
  constructor
  · rintro ⟨r, hr, rfl⟩
    rw [normalize, route, Route.components_path hr, Route.follow_components]
  · intro h
    rw [← h]
    exact p.normal_normalize

/-- The path of a source that another one includes is in normal form. -/
theorem normal_resolve (including : SourcePath) (target : String) :
    (including.resolve target).Normal := by
  unfold resolve
  split
  · exact normal_normalize _
  · have hdirectory : (Route.here.follow including.directory).Proper :=
      Route.proper_here.follow fun _ hc => proper_components (List.dropLast_subset _ hc)
    exact ⟨_, hdirectory.follow fun _ => proper_components, rfl⟩

end SourcePath

end Songsheet
