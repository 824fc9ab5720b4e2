import Songsheet.Proofs.SourcePath.Join

/-!
# Where paths lead

In a working directory a path leads to a place, which is found name by name without looking at any
disk. Two paths can lead to the same place in one directory and to different ones in another: this
is where levels above the directory count. The normal form of a path is one of the paths that lead
to the same place everywhere, and there is no other normal form among them.

* `walk` — the place that components lead to, as the names on the way from the root.
* `SourcePath.IsWorkingDirectory`, `SourcePath.locationIn` — the place of a path in a directory.
* `Route.place_follow` — the route of a path leads to where the path leads.
* `Route.eq_of_place` — routes that lead to the same places in all directories are equal.
* `SourcePath.normalize_canonical` — normalizing keeps the place, and one normal form has it.
-/

namespace Songsheet

/-! ## Walking -/

/-- The place one component further: `..` leaves the last directory, and stays at the root; the
root is where a walk starts again. -/
def walkStep (here : List String) : Component → List String
  | .root => []
  | .current => here
  | .parent => here.dropLast
  | .name text => here ++ [text]

/-- The place that some components lead to. -/
def walk (here : List String) (steps : List Component) : List String :=
  steps.foldl walkStep here

theorem walk_append (here : List String) (front back : List Component) :
    walk here (front ++ back) = walk (walk here front) back :=
  List.foldl_append

theorem walk_names (here names : List String) : walk here (names.map .name) = here ++ names := by
  induction names generalizing here with
  | nil => simp [walk]
  | cons name names ih =>
    show walk (here ++ [name]) (names.map .name) = here ++ name :: names
    rw [ih, List.append_assoc, List.singleton_append]

namespace SourcePath

/-- A directory to start from: its path starts at the root and never goes back. -/
structure IsWorkingDirectory (w : SourcePath) : Prop where
  absolute : w.isAbsolute
  plain : .parent ∉ w.components

/-- The place of a path in a working directory. -/
def locationIn (w p : SourcePath) : List String :=
  walk (walk [] w.components) p.components

/-- The components of the directory that holds a source, unless there is none: neither the root nor
the empty path is held by a directory. -/
def parent? (p : SourcePath) : Option (List Component) :=
  match p.components.getLast? with
  | none => none
  | some .root => none
  | some _ => some p.components.dropLast

end SourcePath

/-! ## The place of a route -/

namespace Route

/-- The place that a route leads to: there are no levels above the root. -/
def place (here : List String) (r : Route) : List String :=
  (match r.anchor with
    | .root => []
    | .above levels => here.take (here.length - levels)) ++ r.names

theorem place_here (start : List String) : here.place start = start := by
  simp [place, here]

theorem place_step (start : List String) (r : Route) (c : Component) :
    (r.step c).place start = walkStep (r.place start) c := by
  cases c with
  | root => rfl
  | current => rfl
  | name text => simp [place, step, walkStep, List.append_assoc]
  | parent =>
    obtain ⟨anchor, names⟩ := r
    cases names with
    | cons name names =>
      rw [walkStep, place, place, List.dropLast_append_of_ne_nil (by simp)]
      rfl
    | nil =>
      cases anchor with
      | root => rfl
      | above levels =>
        -- one level less is left, if there is one
        simp only [place, step, walkStep, List.append_nil, List.dropLast_eq_take, List.take_take,
          List.length_take]
        congr 1
        omega

theorem place_follow (start : List String) (r : Route) (steps : List Component) :
    (r.follow steps).place start = walk (r.place start) steps := by
  induction steps generalizing r with
  | nil => rfl
  | cons c steps ih =>
    show ((r.step c).follow steps).place start = walk (walkStep (r.place start) c) steps
    rw [ih, place_step]

theorem place_of_components (start : List String) (steps : List Component) :
    (here.follow steps).place start = walk start steps := by
  rw [place_follow, place_here]

/-- In a directory that is deep enough, a route keeps what is not among its levels. -/
theorem place_replicate {levels k : Nat} (names : List String) (x : String) :
    place (List.replicate k x) ⟨.above levels, names⟩ = List.replicate (k - levels) x ++ names := by
  simp [place, List.take_replicate]

/-- A directory that is deep enough tells a route from the root from any other. -/
theorem exists_place_ne (names names' : List String) (levels : Nat) (x : String) :
    ∃ k, place (List.replicate k x) ⟨.root, names⟩ ≠
      place (List.replicate k x) ⟨.above levels, names'⟩ := by
  refine ⟨levels + names.length + 1, fun h => ?_⟩
  have hlength := congrArg List.length h
  rw [place_replicate] at hlength
  simp [place] at hlength
  omega

/-- Of the names of a directory, two that differ tell how many levels a route goes up. -/
theorem eq_of_place_above {levels levels' : Nat} {names names' : List String} {x y : String}
    (hxy : x ≠ y) (hle : levels ≤ levels')
    (h : ∀ z ∈ [x, y], place (List.replicate levels' z) ⟨.above levels, names⟩ =
      place (List.replicate levels' z) ⟨.above levels', names'⟩) :
    levels = levels' ∧ names = names' := by
  have hnames : ∀ z ∈ [x, y], List.replicate (levels' - levels) z ++ names = names' := by
    intro z hz
    have hplace := h z hz
    rwa [place_replicate, place_replicate, Nat.sub_self, List.replicate_zero,
      List.nil_append] at hplace
  have hx := hnames x (by simp)
  have hy := hnames y (by simp)
  have hsame := List.append_cancel_right (hx.trans hy.symm)
  have hzero : levels' - levels = 0 := (List.replicate_inj.1 hsame).2.resolve_right hxy
  rw [hzero, List.replicate_zero, List.nil_append] at hx
  exact ⟨by omega, hx⟩

/-- Directories of equal names, of any depth and with two different names, tell routes apart. -/
theorem eq_of_place {r q : Route} {x y : String} (hxy : x ≠ y)
    (h : ∀ z ∈ [x, y], ∀ k, r.place (List.replicate k z) = q.place (List.replicate k z)) :
    r = q := by
  have hx := h x (by simp)
  obtain ⟨anchor, names⟩ := r
  obtain ⟨anchor', names'⟩ := q
  cases anchor with
  | root =>
    cases anchor' with
    | root =>
      obtain rfl : names = names' := by simpa [place] using hx 0
      rfl
    | above levels =>
      obtain ⟨k, hk⟩ := exists_place_ne names names' levels x
      exact absurd (hx k) hk
  | above levels =>
    cases anchor' with
    | root =>
      obtain ⟨k, hk⟩ := exists_place_ne names' names levels x
      exact absurd (hx k).symm hk
    | above levels' =>
      rcases Nat.le_total levels levels' with hle | hle
      · obtain ⟨rfl, rfl⟩ := eq_of_place_above hxy hle fun z hz => h z hz levels'
        rfl
      · obtain ⟨rfl, rfl⟩ := eq_of_place_above hxy hle fun z hz => (h z hz levels).symm
        rfl

end Route

/-! ## The place of a path -/

namespace SourcePath

variable {p q w : SourcePath}

theorem locationIn_eq_place (w p : SourcePath) :
    w.locationIn p = p.route.place (walk [] w.components) := by
  rw [route, Route.place_of_components, locationIn]

theorem route_path {r : Route} (hr : r.Proper) : r.path.route = r := by
  rw [route, Route.components_path hr, Route.follow_components]

theorem route_normalize (p : SourcePath) : p.normalize.route = p.route :=
  route_path p.proper_route

/-- For all names that stand for themselves there is a working directory. -/
theorem exists_workingDirectory {names : List String} (h : ∀ name ∈ names, IsName name) :
    ∃ w : SourcePath, w.IsWorkingDirectory ∧ walk [] w.components = names := by
  have hproper : Route.Proper ⟨.root, names⟩ := h
  have hcomponents := Route.components_path hproper
  refine ⟨Route.path ⟨.root, names⟩, ⟨?_, ?_⟩, ?_⟩
  · rw [isAbsolute, Route.toList_path]
    rfl
  · rw [hcomponents]
    simp [Route.components]
  · rw [hcomponents, Route.components, walk_append, walk_names]
    rfl

/-- Paths that lead to the same places in all working directories take the same route. -/
theorem route_eq_iff :
    p.route = q.route ↔ ∀ w : SourcePath, w.IsWorkingDirectory → w.locationIn p = w.locationIn q := by
  constructor
  · intro h w _
    rw [locationIn_eq_place, locationIn_eq_place, h]
  · intro h
    have hplace : ∀ z ∈ ["x", "y"], ∀ k,
        p.route.place (List.replicate k z) = q.route.place (List.replicate k z) := by
      intro z hz k
      have hname : IsName z := by
        have hall : ∀ z ∈ ["x", "y"], z.toList ≠ [] ∧ z.toList ≠ ['.'] ∧ z.toList ≠ ['.', '.'] ∧
            '/' ∉ z.toList := by decide
        exact hall z hz
      have hnames : ∀ name ∈ List.replicate k z, IsName name := by
        intro name hn
        rw [List.eq_of_mem_replicate hn]
        exact hname
      obtain ⟨w, hw, hwalk⟩ := exists_workingDirectory hnames
      have hplaces := h w hw
      rwa [locationIn_eq_place, locationIn_eq_place, hwalk] at hplaces
    exact Route.eq_of_place (by decide) hplace

theorem normalize_eq_iff : p.normalize = q.normalize ↔ p.route = q.route :=
  ⟨Route.path_injective p.proper_route q.proper_route, congrArg Route.path⟩

/-! ## The form of a normal path -/

theorem isAbsolute_path {r : Route} (hr : r.Proper) : r.path.isAbsolute ↔ r.anchor = .root := by
  rw [isAbsolute, Route.toList_path_eq, beq_iff_eq, Route.lead]
  cases hanchor : r.anchor with
  | root => simp
  | above levels =>
    by_cases hparts : r.parts = []
    · simp [hparts]
    · obtain ⟨x, -, hx, hslash, -⟩ := ends_of_intercalate hparts hr.parts
      simpa [hx] using hslash

/-- Between the slashes of a normal path no part is a single dot. -/
theorem dot_not_mem_slashParts {r : Route} (hr : r.Proper) :
    ['.'] ∉ slashParts r.path.text.toList := by
  have hdot : ['.'] ∉ r.parts := by
    have hnames : ['.'] ∉ r.names.map String.toList := by
      intro hmem
      obtain ⟨name, hname, hdot⟩ := List.mem_map.1 hmem
      exact (hr name hname).2.1 hdot
    rw [Route.parts]
    cases r.anchor with
    | root => exact hnames
    | above levels => simpa [List.mem_replicate] using hnames
  have hbehind : ['.'] ∉ slashParts (['/'].intercalate r.parts) := by
    by_cases hparts : r.parts = []
    · simp [hparts, slashParts]
    · rwa [slashParts_intercalate hparts fun part hpart => (hr.parts part hpart).2]
  rw [Route.toList_path_eq, Route.lead]
  cases r.anchor with
  | root => simpa [slashParts] using hbehind
  | above levels => exact hbehind

/-- The root is only met where a path begins. -/
theorem components_of_getLast? (h : p.components.getLast? = some .root) :
    p.components = [.root] := by
  have hparts : Component.root ∉ (slashParts p.text.toList).filterMap Component.ofPart? := by
    intro hmem
    obtain ⟨part, -, hpart⟩ := List.mem_filterMap.1 hmem
    unfold Component.ofPart? at hpart
    split at hpart
    · cases hpart
    · split at hpart <;> cases hpart
  dsimp only [components] at h ⊢
  cases hbehind : (slashParts p.text.toList).filterMap Component.ofPart? with
  | nil =>
    rw [hbehind, List.append_nil] at h
    rw [List.append_nil]
    split at h <;> simp_all
  | cons next others =>
    have hlast : (next :: others).getLast? = some ((next :: others).getLast (by simp)) :=
      List.getLast?_eq_some_getLast (by simp)
    rw [hbehind, List.getLast?_append, hlast, Option.some_or, Option.some.injEq] at h
    rw [hbehind, ← h] at hparts
    exact absurd (List.getLast_mem _) hparts

/-- Where no directory holds a path, the path of an include is found from the working directory. -/
theorem getD_parent? (p : SourcePath) : p.parent?.getD [] = p.directory := by
  rw [parent?, directory]
  split
  · rename_i hlast
    rw [List.getLast?_eq_none_iff.1 hlast]
    rfl
  · rename_i hlast
    rw [components_of_getLast? hlast]
    rfl
  · rfl

/-! ## Normalizing -/

/-- The place of an include: that of the target alone if it is absolute, and otherwise the place
that the target leads to from the directory of the including source. -/
def includedLocation (w including : SourcePath) (target : String) : List String :=
  if (SourcePath.mk target).isAbsolute then w.locationIn ⟨target⟩
  else walk (walk (walk [] w.components) (including.parent?.getD [])) (components ⟨target⟩)

theorem locationIn_resolve (w p : SourcePath) (target : String) :
    w.locationIn (p.resolve target) = w.includedLocation p target := by
  rw [includedLocation, resolve, getD_parent?]
  split
  · rw [locationIn_eq_place, route_normalize, ← locationIn_eq_place]
  · have hproper : (Route.here.follow p.directory).Proper :=
      Route.proper_here.follow fun _ hc => proper_components (List.dropLast_subset _ hc)
    rw [locationIn_eq_place, route_path (hproper.follow fun _ => proper_components),
      Route.place_follow, Route.place_of_components]

/-- **Normal forms are canonical and keep the place.** In every working directory the normal form
of a path leads to where the path leads. It is put together of names alone, behind the root or behind
the levels to go up, and normalizing leaves it as it is. Two paths have one normal form exactly if
they lead to the same place in every working directory. The path of an include is the normal form of
a path that leads to where the target leads from the directory of the including source. -/
theorem normalize_canonical (p q : SourcePath) (target : String) :
    (∀ w : SourcePath, w.IsWorkingDirectory → w.locationIn p.normalize = w.locationIn p) ∧
    ['.'] ∉ slashParts p.normalize.text.toList ∧
    (if p.normalize.isAbsolute then
      ∃ names : List String, p.normalize.components = .root :: names.map .name
    else ∃ (levels : Nat) (names : List String),
      p.normalize.components = List.replicate levels .parent ++ names.map .name) ∧
    p.normalize.normalize = p.normalize ∧
    (p.normalize = q.normalize ↔
      ∀ w : SourcePath, w.IsWorkingDirectory → w.locationIn p = w.locationIn q) ∧
    ∃ s : SourcePath, p.resolve target = s.normalize ∧
      ∀ w : SourcePath, w.IsWorkingDirectory → w.locationIn s = w.includedLocation p target := by
  have hroute := p.proper_route
  refine ⟨fun w _ => ?_, dot_not_mem_slashParts hroute, ?_, normal_iff.1 p.normal_normalize,
    normalize_eq_iff.trans route_eq_iff, p.resolve target,
    (normal_iff.1 (p.normal_resolve target)).symm, fun w _ => locationIn_resolve w p target⟩
  · rw [locationIn_eq_place, locationIn_eq_place, route_normalize]
  · rw [normalize, Route.components_path hroute, Route.components]
    cases hanchor : p.route.anchor with
    | root =>
      rw [if_pos ((isAbsolute_path hroute).2 hanchor)]
      exact ⟨_, rfl⟩
    | above levels =>
      rw [if_neg (by rw [isAbsolute_path hroute, hanchor]; simp)]
      exact ⟨levels, _, rfl⟩

/-- One level is taken back by `..`, and one more leads out of the working directory. -/
theorem normalize_canonical_winding :
    IsWorkingDirectory ⟨"/home/songs"⟩ ∧
      locationIn ⟨"/home/songs"⟩ (normalize ⟨"a/../../x/./y"⟩) = ["home", "x", "y"] ∧
      locationIn ⟨"/home/songs"⟩ ⟨".././x//y"⟩ = ["home", "x", "y"] := by
  have hw : IsWorkingDirectory ⟨"/home/songs"⟩ := ⟨by decide +kernel, by decide +kernel⟩
  obtain ⟨hkeeps, -, -, -, hsame, -⟩ :=
    normalize_canonical ⟨"a/../../x/./y"⟩ ⟨".././x//y"⟩ "z"
  have hplace : locationIn ⟨"/home/songs"⟩ ⟨"a/../../x/./y"⟩ = ["home", "x", "y"] := by
    decide +kernel
  have hnormal : normalize ⟨"a/../../x/./y"⟩ = normalize ⟨".././x//y"⟩ := by decide +kernel
  exact ⟨hw, (hkeeps _ hw).trans hplace, (hsame.1 hnormal _ hw).symm.trans hplace⟩

end SourcePath

end Songsheet
