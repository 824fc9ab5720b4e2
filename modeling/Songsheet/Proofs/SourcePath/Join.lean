import Songsheet.Proofs.SourcePath

/-!
# Paths in a directory

A relative path that stays below where it starts can be put into any directory: the names of the one
follow those of the other. Finding an included source commutes with this, as long as the includes
stay below the start as well, since the folding of `..` then never reaches the directory.

* `SourcePath.join` — the path of a source in a directory.
* `SourcePath.Inside` — the paths that stay below where they start; `inside_path` tells them by
  their routes.
* `Route.down`, `join_path` — joining texts is going on by names.
* `resolve_join`, `same_join` — what is included, and which paths are the same, in a directory.
-/

namespace Songsheet

/-! ## Texts between slashes -/

theorem intercalate_append {front back : List (List Char)} (hfront : front ≠ [])
    (hback : back ≠ []) :
    ['/'].intercalate (front ++ back) =
      ['/'].intercalate front ++ '/' :: ['/'].intercalate back := by
  induction front with
  | nil => exact absurd rfl hfront
  | cons part front ih =>
    cases front with
    | nil =>
      obtain ⟨next, others, rfl⟩ := List.exists_cons_of_ne_nil hback
      rw [List.singleton_append, List.intercalate_cons_cons, List.intercalate_singleton,
        List.append_assoc]
      rfl
    | cons next front =>
      rw [List.cons_append, List.cons_append, List.intercalate_cons_cons,
        List.intercalate_cons_cons, ← List.cons_append, ih (by simp)]
      simp only [List.append_assoc]

/-- Parts that are not empty and hold no slash: neither end of their text is a slash. -/
theorem ends_of_intercalate {parts : List (List Char)} (hne : parts ≠ [])
    (h : ∀ part ∈ parts, part ≠ [] ∧ '/' ∉ part) :
    ∃ x y, (['/'].intercalate parts).head? = some x ∧ x ≠ '/' ∧
      (['/'].intercalate parts).getLast? = some y ∧ y ≠ '/' := by
  have hends : ∀ part ∈ parts, ∃ x y, part.head? = some x ∧ x ≠ '/' ∧
      part.getLast? = some y ∧ y ≠ '/' := by
    intro part hpart
    obtain ⟨hpart, hslash⟩ := h part hpart
    refine ⟨part.head hpart, part.getLast hpart, List.head?_eq_some_head hpart, ?_,
      List.getLast?_eq_some_getLast hpart, ?_⟩
    · rintro heq
      exact hslash (heq ▸ List.head_mem hpart)
    · rintro heq
      exact hslash (heq ▸ List.getLast_mem hpart)
  induction parts with
  | nil => exact absurd rfl hne
  | cons part parts ih =>
    obtain ⟨x, y, hx, hx', hy, hy'⟩ := hends part (by simp)
    cases parts with
    | nil =>
      rw [List.intercalate_singleton]
      exact ⟨x, y, hx, hx', hy, hy'⟩
    | cons next parts =>
      obtain ⟨-, z, -, -, hz, hz'⟩ := ih (by simp)
        (fun p hp => h p (List.mem_cons_of_mem _ hp))
        fun p hp => hends p (List.mem_cons_of_mem _ hp)
      refine ⟨x, z, ?_, hx', ?_, hz'⟩
      · rw [List.intercalate_cons_cons, List.append_assoc, List.head?_append, hx]
        rfl
      · rw [List.intercalate_cons_cons, List.getLast?_append, hz]
        rfl

/-! ## Routes that go on by names -/

namespace Route

/-- The route that goes on by some names. -/
def down (r : Route) (names : List String) : Route :=
  { r with names := r.names ++ names }

/-- The slash in front of the path of a route, if there is one. -/
def lead (r : Route) : List Char :=
  match r.anchor with
  | .root => ['/']
  | .above _ => []

/-- What stands between the slashes of the path of a route. -/
def parts (r : Route) : List (List Char) :=
  match r.anchor with
  | .root => r.names.map String.toList
  | .above levels => List.replicate levels ['.', '.'] ++ r.names.map String.toList

theorem toList_path_eq (r : Route) : r.path.text.toList = r.lead ++ ['/'].intercalate r.parts := by
  rw [toList_path, lead, parts]
  cases r.anchor <;> rfl

theorem lead_down (r : Route) (names : List String) : (r.down names).lead = r.lead := rfl

theorem parts_down (r : Route) (names : List String) :
    (r.down names).parts = r.parts ++ names.map String.toList := by
  obtain ⟨anchor, front⟩ := r
  cases anchor <;> simp [parts, down]

theorem Proper.parts {r : Route} (h : r.Proper) : ∀ part ∈ r.parts, part ≠ [] ∧ '/' ∉ part := by
  have hnames : ∀ part ∈ r.names.map String.toList, part ≠ [] ∧ '/' ∉ part := by
    intro part hpart
    obtain ⟨name, hname, rfl⟩ := List.mem_map.1 hpart
    exact ⟨(h name hname).1, (h name hname).2.2.2⟩
  obtain ⟨anchor, names⟩ := r
  cases anchor with
  | root => exact hnames
  | above levels =>
    intro part hpart
    rcases List.mem_append.1 hpart with hpart | hpart
    · obtain rfl := List.eq_of_mem_replicate hpart
      decide
    · exact hnames part hpart

theorem Proper.down {r : Route} (h : r.Proper) {names : List String}
    (hnames : ∀ name ∈ names, IsName name) : (r.down names).Proper := by
  intro name hname
  rcases List.mem_append.1 hname with hname | hname
  · exact h name hname
  · exact hnames name hname

/-- A proper route is known by its path. -/
theorem path_injective {r q : Route} (hr : r.Proper) (hq : q.Proper) (h : r.path = q.path) :
    r = q := by
  refine components_injective ?_
  rw [← components_path hr, ← components_path hq, h]

/-- Once a route has left the levels below its start, it does not come back to them. -/
theorem anchor_of_step {r : Route} {c : Component} (h : (r.step c).anchor = .above 0) :
    r.anchor = .above 0 := by
  cases c with
  | root => simp [step] at h
  | current => exact h
  | name text => exact h
  | parent =>
    obtain ⟨anchor, names⟩ := r
    cases names with
    | cons name names => exact h
    | nil =>
      cases anchor with
      | root => exact h
      | above levels => simp [step] at h

theorem anchor_of_follow {r : Route} {steps : List Component}
    (h : (r.follow steps).anchor = .above 0) : r.anchor = .above 0 := by
  induction steps generalizing r with
  | nil => exact h
  | cons c steps ih => exact anchor_of_step (ih h)

theorem step_down {base r : Route} {c : Component} (h : (r.step c).anchor = .above 0) :
    (base.down r.names).step c = base.down (r.step c).names := by
  cases c with
  | root => simp [step] at h
  | current => rfl
  | name text => simp [step, down]
  | parent =>
    obtain ⟨anchor, names⟩ := r
    cases names with
    | cons name names =>
      obtain ⟨next, others, hnames⟩ :=
        List.exists_cons_of_ne_nil (l := base.names ++ name :: names) (by simp)
      simp only [step, down, hnames]
      rw [← hnames, List.dropLast_append_of_ne_nil (by simp)]
    | nil =>
      cases anchor with
      | root => simp [step] at h
      | above levels => simp [step] at h

/-- A route that stays below its start does not touch the names in front of it. -/
theorem follow_down {base r : Route} {steps : List Component}
    (h : (r.follow steps).anchor = .above 0) :
    (base.down r.names).follow steps = base.down (r.follow steps).names := by
  induction steps generalizing r with
  | nil => rfl
  | cons c steps ih =>
    show ((base.down r.names).step c).follow steps = _
    rw [step_down (anchor_of_follow h), ih h]
    rfl

end Route

/-! ## Joining -/

namespace SourcePath

/-- The path of a source in a directory: an absolute path stands alone, and a slash is put between
the two where the directory does not end with one. -/
def join (directory path : SourcePath) : SourcePath :=
  if path.isAbsolute then path
  else if directory.text.toList.getLast?.all (· == '/') then ⟨directory.text ++ path.text⟩
  else ⟨directory.text ++ "/" ++ path.text⟩

/-- A path that is not empty, relative and in normal form, and does not lead upwards first. -/
structure Inside (p : SourcePath) : Prop where
  nonempty : p.text ≠ ""
  relative : p.isAbsolute = false
  normal : p.normalize = p
  below : p.components.head? ≠ some .parent

instance (p : SourcePath) : Decidable p.Inside :=
  decidable_of_iff (p.text ≠ "" ∧ p.isAbsolute = false ∧ p.normalize = p ∧
    p.components.head? ≠ some .parent)
    ⟨fun h => ⟨h.1, h.2.1, h.2.2.1, h.2.2.2⟩,
      fun h => ⟨h.nonempty, h.relative, h.normal, h.below⟩⟩

variable {d p q : SourcePath} {target : String}

theorem eq_of_toList (h : p.text.toList = q.text.toList) : p = q := by
  obtain ⟨text⟩ := p
  obtain ⟨text'⟩ := q
  exact congrArg SourcePath.mk (String.toList_inj.1 h)

/-- The route of a path that stays below its start has no levels to go up, and some names. -/
theorem inside_path {r : Route} (hr : r.Proper) :
    r.path.Inside ↔ r.anchor = .above 0 ∧ r.names ≠ [] := by
  have hcomponents := Route.components_path hr
  have htext := r.toList_path_eq
  constructor
  · intro h
    obtain ⟨anchor, names⟩ := r
    cases anchor with
    | root =>
      have hrelative := h.relative
      rw [isAbsolute, htext] at hrelative
      simp [Route.lead] at hrelative
    | above levels =>
      have hbelow := h.below
      rw [hcomponents, Route.components] at hbelow
      cases levels with
      | succ levels => simp [List.replicate_succ] at hbelow
      | zero =>
        refine ⟨rfl, ?_⟩
        rintro rfl
        exact h.nonempty rfl
  · intro h
    obtain ⟨hanchor, hne⟩ := h
    have hparts : r.parts = r.names.map String.toList := by simp [Route.parts, hanchor]
    have hlead : r.lead = [] := by simp [Route.lead, hanchor]
    obtain ⟨x, y, hx, hx', -⟩ :=
      ends_of_intercalate (by rw [hparts]; simpa using hne) hr.parts
    refine ⟨?_, ?_, normal_iff.1 ⟨r, hr, rfl⟩, ?_⟩
    · intro hempty
      rw [hlead, List.nil_append, hempty] at htext
      rw [← htext] at hx
      cases hx
    · rw [isAbsolute, htext, hlead, List.nil_append, hx]
      simpa using hx'
    · rw [hcomponents, Route.components, hanchor]
      cases hnames : r.names with
      | nil => simp
      | cons name names => simp

theorem Inside.exists_route (h : p.Inside) :
    ∃ r : Route, r.Proper ∧ p = r.path ∧ r.anchor = .above 0 ∧ r.names ≠ [] := by
  have hpath : p = p.route.path := h.normal.symm
  rw [hpath] at h
  exact ⟨p.route, p.proper_route, hpath, (inside_path p.proper_route).1 h⟩

/-- Putting a path into a directory is going on by its names. -/
theorem join_path {base r : Route} (hbase : base.Proper) (hr : r.Proper)
    (hanchor : r.anchor = .above 0) (hne : r.names ≠ []) :
    base.path.join r.path = (base.down r.names).path := by
  have hparts : r.parts = r.names.map String.toList := by simp [Route.parts, hanchor]
  have hlead : r.lead = [] := by simp [Route.lead, hanchor]
  have htext := r.toList_path_eq
  rw [hlead, List.nil_append, hparts] at htext
  have hrelative := ((inside_path hr).2 ⟨hanchor, hne⟩).relative
  refine eq_of_toList ?_
  rw [Route.toList_path_eq, Route.lead_down, Route.parts_down, join, hrelative,
    if_neg Bool.false_ne_true]
  cases hfront : base.parts with
  | nil =>
    have hbare : base.path.text.toList = base.lead := by
      rw [Route.toList_path_eq, hfront]
      simp
    have hends : base.path.text.toList.getLast?.all (· == '/') = true := by
      rw [hbare, Route.lead]
      cases base.anchor <;> rfl
    rw [if_pos hends, String.toList_append, hbare, htext, List.nil_append]
  | cons part parts =>
    obtain ⟨-, y, -, -, hy, hy'⟩ := ends_of_intercalate (hfront ▸ by simp) hbase.parts
    have hends : base.path.text.toList.getLast?.all (· == '/') = false := by
      rw [Route.toList_path_eq, List.getLast?_append, hy]
      simpa using hy'
    rw [intercalate_append (by simp) (by simpa using hne), ← hfront]
    rw [if_neg (by simp [hends]), String.toList_append, String.toList_append, htext,
      Route.toList_path_eq]
    simp

example : join ⟨"../songs"⟩ ⟨"parts/riff"⟩ = ⟨"../songs/parts/riff"⟩ := by decide +kernel

/-- The directory of a path of a route has all names but the last. -/
theorem directory_path {r : Route} (hr : r.Proper) (hne : r.names ≠ []) :
    r.path.directory = Route.components ⟨r.anchor, r.names.dropLast⟩ := by
  rw [directory, Route.components_path hr, Route.components,
    List.dropLast_append_of_ne_nil (by simpa using hne), ← List.map_dropLast]
  rfl

/-- A path from the root does not come below the start. -/
theorem anchor_ne_above (h : p.isAbsolute) : p.route.anchor ≠ .above 0 := by
  intro hanchor
  obtain ⟨rest, hrest⟩ := List.head?_eq_some_iff.1 (beq_iff_eq.1 h)
  obtain ⟨part, parts, hparts⟩ := List.exists_cons_of_ne_nil (slashParts_ne_nil rest)
  have hroot : p.components = .root :: (slashParts p.text.toList).filterMap Component.ofPart? := by
    rw [components, hrest, slashParts, if_pos rfl, hparts]
    rfl
  rw [route, hroot] at hanchor
  have hstep : (Route.here.step .root).anchor = .above 0 := Route.anchor_of_follow hanchor
  cases hstep

/-- In a directory, the source that another one includes is the one that it includes without. -/
theorem resolve_join (hd : d.Normal) (hp : p.Inside) (htarget : (p.resolve target).Inside) :
    (d.join p).resolve target = d.join (p.resolve target) := by
  obtain ⟨base, hbase, rfl⟩ := hd
  obtain ⟨r, hr, rfl, hanchor, hne⟩ := hp.exists_route
  have hdown : (base.down r.names).Proper := hbase.down hr
  have hstart : Route.here.follow r.path.directory = ⟨.above 0, r.names.dropLast⟩ := by
    rw [directory_path hr hne, hanchor]
    exact Route.follow_components _
  have hstart' : Route.here.follow (base.down r.names).path.directory =
      base.down r.names.dropLast := by
    have hlast : (base.down r.names).names.dropLast = base.names ++ r.names.dropLast :=
      List.dropLast_append_of_ne_nil hne
    rw [directory_path hdown (by simp [Route.down, hne]), hlast]
    exact Route.follow_components _
  rw [join_path hbase hr hanchor hne]
  unfold resolve at htarget ⊢
  by_cases habsolute : (SourcePath.mk target).isAbsolute
  · rw [if_pos habsolute, normalize, inside_path (proper_route _)] at htarget
    exact absurd htarget.1 (anchor_ne_above habsolute)
  · rw [if_neg habsolute, hstart] at htarget
    have hproper : (Route.follow ⟨.above 0, r.names.dropLast⟩ (components ⟨target⟩)).Proper :=
      Route.Proper.follow (fun name hname => hr name (List.dropLast_subset _ hname))
        fun _ => proper_components
    obtain ⟨hend, hnames⟩ := (inside_path hproper).1 htarget
    rw [if_neg habsolute, if_neg habsolute, hstart, hstart', join_path hbase hproper hend hnames,
      ← Route.follow_down hend]

theorem normal_join (hd : d.Normal) (hp : p.Inside) : (d.join p).Normal := by
  obtain ⟨base, hbase, rfl⟩ := hd
  obtain ⟨r, hr, rfl, hanchor, hne⟩ := hp.exists_route
  rw [join_path hbase hr hanchor hne]
  exact ⟨_, hbase.down hr, rfl⟩

theorem join_injective (hd : d.Normal) (hp : p.Inside) (hq : q.Inside) (h : d.join p = d.join q) :
    p = q := by
  obtain ⟨base, hbase, rfl⟩ := hd
  obtain ⟨r, hr, rfl, hanchor, hne⟩ := hp.exists_route
  obtain ⟨r', hr', rfl, hanchor', hne'⟩ := hq.exists_route
  rw [join_path hbase hr hanchor hne, join_path hbase hr' hanchor' hne'] at h
  have hnames := congrArg Route.names (Route.path_injective (hbase.down hr) (hbase.down hr') h)
  obtain ⟨anchor, names⟩ := r
  obtain ⟨anchor', names'⟩ := r'
  obtain rfl : names = names' := List.append_cancel_left hnames
  obtain rfl : anchor = anchor' := hanchor.trans hanchor'.symm
  rfl

theorem Inside.isNormal (h : p.Inside) : p.Normal :=
  normal_iff.2 h.normal

/-- Paths are the same in a directory exactly if they are the same without. -/
theorem same_join (hd : d.Normal) (hp : p.Inside) (hq : q.Inside) :
    (d.join p).same (d.join q) = p.same q := by
  rw [Bool.eq_iff_iff]
  constructor
  · intro h
    rw [join_injective hd hp hq ((normal_join hd hp).eq_of_same (normal_join hd hq) h), same]
    exact beq_self_eq_true _
  · intro h
    rw [hp.isNormal.eq_of_same hq.isNormal h, same]
    exact beq_self_eq_true _

end SourcePath

end Songsheet
