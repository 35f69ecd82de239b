import Mathlib.Data.List.Infix
import Mathlib.Data.List.Nodup

/-! # Trees of directories, files and symbolic links

A path is the list of names from the root. A tree says what stands at each path; a name has
something under it only where a directory stands. Resolution follows links as POSIX does.
-/

namespace LocalHarness.Library

abbrev FilePath (ν : Type) := List ν

/-- A step of a path that is still to be resolved. -/
inductive PathStep (ν : Type) where
  | up
  | down (name : ν)
  deriving DecidableEq

inductive FileNode (ν φ : Type) where
  | dir
  | file (data : φ)
  | link (absolute : Bool) (steps : List (PathStep ν))
  deriving DecidableEq

def FileNode.isLink {ν φ : Type} : FileNode ν φ → Bool
  | .link _ _ => true
  | _ => false

structure FileTree (ν φ : Type) where
  entries : List (FilePath ν × FileNode ν φ)
  once : (entries.map Prod.fst).Nodup
  /-- The root is a directory that has no entry of its own. -/
  rooted : ∀ entry ∈ entries, entry.1 ≠ []
  parented : ∀ entry ∈ entries, entry.1.dropLast = [] ∨ (entry.1.dropLast, FileNode.dir) ∈ entries

namespace FileTree

variable {ν φ : Type} [DecidableEq ν]

/-- What stands at a path, no link of it followed. -/
def node? (t : FileTree ν φ) (path : FilePath ν) : Option (FileNode ν φ) :=
  if path = [] then some .dir
  else (t.entries.find? fun entry => entry.1 = path).map Prod.snd

/-- The names in a directory, in no particular order. -/
def names (t : FileTree ν φ) (path : FilePath ν) : List ν :=
  t.entries.filterMap fun entry =>
    if entry.1.dropLast = path then entry.1.getLast? else none

/-- A tree without what stands at a path and beneath it. -/
def prune (t : FileTree ν φ) (path : FilePath ν) : FileTree ν φ where
  entries := t.entries.filter fun entry => !path.isPrefixOf entry.1
  once := t.once.sublist (List.Sublist.map _ List.filter_sublist)
  rooted := fun entry member => t.rooted entry (List.mem_filter.mp member).1
  parented := by
    intro entry member
    obtain ⟨inside, kept⟩ := List.mem_filter.mp member
    refine (t.parented entry inside).imp_right fun parent => List.mem_filter.mpr ⟨parent, ?_⟩
    rw [Bool.not_eq_true', ← Bool.not_eq_true, List.isPrefixOf_iff_prefix] at kept ⊢
    exact fun above => kept (above.trans (List.dropLast_prefix _))

/-- A node may be put where a directory has room for it, and not in a directory's own place. -/
structure Fits (t : FileTree ν φ) (path : FilePath ν) : Prop where
  below : path ≠ []
  parent : path.dropLast = [] ∨ (path.dropLast, FileNode.dir) ∈ t.entries
  free : (path, FileNode.dir) ∉ t.entries

def put (t : FileTree ν φ) (path : FilePath ν) (node : FileNode ν φ) (fits : t.Fits path) : FileTree ν φ where
  entries := t.entries.filter (fun entry => entry.1 ≠ path) ++ [(path, node)]
  once := by
    rw [List.map_append, List.nodup_append]
    refine ⟨t.once.sublist (List.Sublist.map _ List.filter_sublist), List.nodup_singleton _, ?_⟩
    intro other member last same
    obtain ⟨entry, kept, rfl⟩ := List.mem_map.mp member
    rw [List.map_singleton, List.mem_singleton] at same
    rintro rfl
    simp [same] at kept
  rooted := by
    intro entry member
    rcases List.mem_append.mp member with old | new
    · exact t.rooted entry (List.mem_filter.mp old).1
    · rw [List.mem_singleton.mp new]
      exact fits.below
  parented := by
    have still : ∀ parent, parent = [] ∨ (parent, FileNode.dir) ∈ t.entries →
        parent = [] ∨ (parent, FileNode.dir) ∈
          t.entries.filter (fun entry => entry.1 ≠ path) ++ [(path, node)] := by
      intro parent
      refine Or.imp_right fun member => List.mem_append_left _ (List.mem_filter.mpr ⟨member, ?_⟩)
      rw [decide_eq_true_eq]
      rintro rfl
      exact fits.free member
    intro entry member
    rcases List.mem_append.mp member with old | new
    · exact still _ (t.parented entry (List.mem_filter.mp old).1)
    · rw [List.mem_singleton.mp new]
      exact still _ fits.parent

instance [DecidableEq φ] (t : FileTree ν φ) (path : FilePath ν) : Decidable (t.Fits path) :=
  decidable_of_iff (path ≠ [] ∧ (path.dropLast = [] ∨ (path.dropLast, FileNode.dir) ∈ t.entries) ∧
      (path, FileNode.dir) ∉ t.entries)
    ⟨fun all => ⟨all.1, all.2.1, all.2.2⟩, fun fits => ⟨fits.below, fits.parent, fits.free⟩⟩

private theorem find?_eq_some {entries : List (FilePath ν × FileNode ν φ)} {path : FilePath ν}
    {node : FileNode ν φ} (once : (entries.map Prod.fst).Nodup) :
    (entries.find? fun entry => entry.1 = path).map Prod.snd = some node ↔ (path, node) ∈ entries := by
  induction entries with
  | nil => simp
  | cons head rest ih =>
      rw [List.map_cons, List.nodup_cons] at once
      by_cases here : head.1 = path
      · have gone : (path, node) ∉ rest := fun member =>
          once.1 (here ▸ List.mem_map_of_mem member)
        rw [List.find?_cons_of_pos (by simpa using here), Option.map_some, Option.some.injEq,
          List.mem_cons, or_iff_left gone, ← here]
        exact ⟨fun same => same ▸ rfl, fun same => same ▸ rfl⟩
      · have other : (path, node) ≠ head := fun same => here (same ▸ rfl)
        rw [List.find?_cons_of_neg (by simpa using here), ih once.2, List.mem_cons, or_iff_right other]

theorem node?_eq_some {t : FileTree ν φ} {path : FilePath ν} {node : FileNode ν φ} (below : path ≠ []) :
    t.node? path = some node ↔ (path, node) ∈ t.entries := by
  rw [node?, if_neg below, find?_eq_some t.once]

@[simp] theorem node?_root (t : FileTree ν φ) : t.node? [] = some .dir := rfl

theorem node?_prune (t : FileTree ν φ) {gone path : FilePath ν} (below : gone ≠ []) :
    (t.prune gone).node? path = if gone <+: path then none else t.node? path := by
  by_cases root : path = []
  · subst root
    rw [if_neg (fun above => below (List.prefix_nil.mp above)), node?_root, node?_root]
  · apply Option.ext
    intro node
    rw [node?_eq_some root, prune, List.mem_filter, Bool.not_eq_true', ← Bool.not_eq_true,
      List.isPrefixOf_iff_prefix]
    by_cases above : gone <+: path
    · simp [above]
    · simp [above, node?_eq_some root]

theorem node?_put (t : FileTree ν φ) {path other : FilePath ν} {node : FileNode ν φ} (fits : t.Fits path) :
    (t.put path node fits).node? other = if other = path then some node else t.node? other := by
  by_cases root : other = []
  · subst root
    rw [if_neg fits.below.symm, node?_root, node?_root]
  · apply Option.ext
    intro found
    rw [node?_eq_some root, put, List.mem_append, List.mem_filter, List.mem_singleton]
    by_cases same : other = path
    · simp [same, eq_comm]
    · simp [same, node?_eq_some root]

/-- What stands somewhere stands in a directory. -/
theorem node?_dropLast {t : FileTree ν φ} {path : FilePath ν} {node : FileNode ν φ} (below : path ≠ [])
    (there : t.node? path = some node) : t.node? path.dropLast = some .dir := by
  rcases t.parented _ ((node?_eq_some below).mp there) with top | inside
  · exact top ▸ t.node?_root
  · by_cases top : path.dropLast = []
    · rw [top, node?_root]
    · exact (node?_eq_some top).mpr inside

/-- Where nothing stands, nothing is beneath. -/
theorem node?_append_none {t : FileTree ν φ} {path : FilePath ν} (none : t.node? path = none)
    (beneath : FilePath ν) : t.node? (path ++ beneath) = Option.none := by
  induction beneath using List.reverseRecOn with
  | nil => rwa [List.append_nil]
  | append_singleton beneath name ih =>
      by_contra some_
      obtain ⟨node, there⟩ := Option.ne_none_iff_exists'.mp some_
      have up := node?_dropLast (by simp) there
      rw [← List.append_assoc, List.dropLast_concat, ih] at up
      cases up

theorem fits_iff {t : FileTree ν φ} {path : FilePath ν} :
    t.Fits path ↔ path ≠ [] ∧ t.node? path.dropLast = some .dir ∧ t.node? path ≠ some .dir := by
  constructor
  · intro fits
    refine ⟨fits.below, ?_, fun dir => fits.free ((node?_eq_some fits.below).mp dir)⟩
    by_cases top : path.dropLast = []
    · rw [top, node?_root]
    · exact (node?_eq_some top).mpr (fits.parent.resolve_left top)
  · rintro ⟨below, parent, free⟩
    refine ⟨below, ?_, fun inside => free ((node?_eq_some below).mpr inside)⟩
    by_cases top : path.dropLast = []
    · exact .inl top
    · exact .inr ((node?_eq_some top).mp parent)

/-! ## Resolution -/

/-- Where a resolution has come to: whether every name it passed was a directory, and whether
    it gave up because links go round. -/
structure Found (ν : Type) where
  path : FilePath ν
  solid : Bool
  round : Bool
  deriving DecidableEq

/-- The steps that are left, taken as they are written. -/
def lexical (path : FilePath ν) : List (PathStep ν) → FilePath ν
  | [] => path
  | .up :: rest => lexical path.dropLast rest
  | .down name :: rest => lexical (path ++ [name]) rest

/-- A step from a path to another that is no link. -/
def Found.onto (t : FileTree ν φ) (found : Found ν) (path : FilePath ν) : Found ν where
  path := path
  solid := found.solid && (match t.node? found.path with
    | some .dir => true
    | _ => false)
  round := false

/-- Resolution of the steps from a resolved directory; `expand` resolves the target of a link. -/
def follow (t : FileTree ν φ) (expand : FilePath ν → Found ν → List (PathStep ν) → Found ν) (found : Found ν) :
    List (PathStep ν) → Found ν
  | [] => found
  | .up :: rest => follow t expand (found.onto t found.path.dropLast) rest
  | .down name :: rest =>
      match t.node? (found.path ++ [name]) with
      | some (.link absolute steps) =>
          let target := expand (found.path ++ [name])
            { found with path := if absolute then [] else found.path } steps
          if target.round then { target with path := lexical target.path rest }
          else follow t expand target rest
      | _ => follow t expand (found.onto t (found.path ++ [name])) rest

/-- Resolution inside the links of a trail, of which none is entered twice. -/
def resolveIn (t : FileTree ν φ) : Nat → List (FilePath ν) → Found ν → List (PathStep ν) → Found ν
  | 0, _, found, steps =>
      follow t (fun link start _ => { start with path := link, round := true }) found steps
  | depth + 1, trail, found, steps =>
      follow t (fun link start target =>
        if link ∈ trail then { start with path := link, round := true }
        else resolveIn t depth (link :: trail) start target) found steps

/-- Where a path leads. No trail is longer than the tree has entries. -/
def resolve (t : FileTree ν φ) (path : FilePath ν) : Found ν :=
  resolveIn t (t.entries.length + 1) [] ⟨[], true, false⟩ (path.map .down)

/-- `os.path.realpath`, of a path that need not exist. -/
def realpath (t : FileTree ν φ) (path : FilePath ν) : FilePath ν :=
  (t.resolve path).path

/-- What a path leads to, links followed. -/
def stat (t : FileTree ν φ) (path : FilePath ν) : Option (FileNode ν φ) :=
  if (t.resolve path).solid && !(t.resolve path).round then t.node? (t.realpath path) else none

def isDir (t : FileTree ν φ) (path : FilePath ν) : Bool :=
  match t.stat path with
  | some .dir => true
  | _ => false

def isFile (t : FileTree ν φ) (path : FilePath ν) : Bool :=
  match t.stat path with
  | some (.file _) => true
  | _ => false

/-- The entry a path names: its directory resolved, itself not followed. -/
def place (t : FileTree ν φ) (path : FilePath ν) : FilePath ν :=
  match path.getLast? with
  | some name => t.realpath path.dropLast ++ [name]
  | none => []

def lstat (t : FileTree ν φ) (path : FilePath ν) : Option (FileNode ν φ) :=
  if (t.resolve path.dropLast).solid && !(t.resolve path.dropLast).round then t.node? (t.place path)
  else none

def isSymlink (t : FileTree ν φ) (path : FilePath ν) : Bool :=
  (t.lstat path).any FileNode.isLink

/-- No name on the path is a link. -/
def Plain (t : FileTree ν φ) (path : FilePath ν) : Prop :=
  ∀ above, above <+: path → (t.node? above).any FileNode.isLink = false

theorem follow_plain {t : FileTree ν φ} {expand : FilePath ν → Found ν → List (PathStep ν) → Found ν} {found : Found ν}
    {names : List ν} (plain : t.Plain (found.path ++ names)) :
    (follow t expand found (names.map .down)).path = found.path ++ names := by
  induction names generalizing found with
  | nil => simp [follow]
  | cons name rest ih =>
      have step : found.path ++ [name] <+: found.path ++ name :: rest :=
        (List.prefix_append_right_inj found.path).mpr (List.prefix_append [name] rest)
      have here := plain _ step
      have later : (follow t expand (found.onto t (found.path ++ [name])) (rest.map .down)).path =
          found.path ++ name :: rest := by
        rw [ih (by simpa [Found.onto] using plain)]
        simp [Found.onto]
      rw [List.map_cons, follow]
      split
      next absolute steps linked =>
        rw [linked] at here
        cases here
      next => exact later

/-- A path without links leads to itself. -/
theorem realpath_plain {t : FileTree ν φ} {path : FilePath ν} (plain : t.Plain path) :
    t.realpath path = path := by
  rw [realpath, resolve, resolveIn]
  exact follow_plain plain

/-- Above a directory are directories. -/
theorem node?_above {t : FileTree ν φ} {path above : FilePath ν} (dir : t.node? path = some .dir)
    (up : above <+: path) : t.node? above = some .dir := by
  obtain ⟨beneath, rfl⟩ := up
  induction beneath using List.reverseRecOn with
  | nil => rwa [List.append_nil] at dir
  | append_singleton beneath name ih =>
      have parent := node?_dropLast (by simp) dir
      rw [← List.append_assoc, List.dropLast_concat] at parent
      exact ih parent

theorem follow_dirs {t : FileTree ν φ} {expand : FilePath ν → Found ν → List (PathStep ν) → Found ν}
    {here : FilePath ν} {names : List ν}
    (dirs : ∀ above, above <+: here ++ names → t.node? above = some .dir) :
    follow t expand ⟨here, true, false⟩ (names.map .down) = ⟨here ++ names, true, false⟩ := by
  induction names generalizing here with
  | nil => simp [follow]
  | cons name rest ih =>
      have shape : here ++ name :: rest = here ++ [name] ++ rest := by simp
      have this := dirs here (List.prefix_append _ _)
      have next := dirs (here ++ [name]) (shape ▸ List.prefix_append _ _)
      rw [List.map_cons, follow, next, shape]
      dsimp only
      rw [Found.onto, this]
      exact ih fun above up => dirs above (shape ▸ up)

/-- A link is found where it stands. -/
theorem isSymlink_of_node {t : FileTree ν φ} {path : FilePath ν}
    (linked : (t.node? path).any FileNode.isLink = true) : t.isSymlink path = true := by
  obtain ⟨node, there⟩ : ∃ node, t.node? path = some node := by
    cases found : t.node? path with
    | none => rw [found] at linked; cases linked
    | some node => exact ⟨node, rfl⟩
  by_cases root : path = []
  · subst root
    rw [node?_root] at linked
    cases linked
  · have parent := node?_dropLast root there
    have found : t.resolve path.dropLast = ⟨path.dropLast, true, false⟩ := by
      rw [resolve, resolveIn]
      exact follow_dirs fun above up => node?_above parent up
    have place : t.place path = path := by
      obtain ⟨name, last⟩ := Option.ne_none_iff_exists'.mp (mt List.getLast?_eq_none_iff.mp root)
      rw [place, last]
      dsimp only
      rw [realpath, found, List.dropLast_append_getLast? name last]
    rw [isSymlink, lstat, found, place]
    exact linked

theorem Plain.of_prefix {t : FileTree ν φ} {path above : FilePath ν} (plain : t.Plain path)
    (up : above <+: path) : t.Plain above :=
  fun higher upper => plain higher (upper.trans up)

theorem Plain.concat {t : FileTree ν φ} {path : FilePath ν} {name : ν} (plain : t.Plain path)
    (here : (t.node? (path ++ [name])).any FileNode.isLink = false) : t.Plain (path ++ [name]) := by
  intro above up
  rcases List.prefix_concat_iff.mp up with rfl | higher
  · exact here
  · exact plain above higher

/-- A path without links names its own place. -/
theorem place_plain {t : FileTree ν φ} {path : FilePath ν} (plain : t.Plain path) : t.place path = path := by
  rw [place]
  cases last : path.getLast? with
  | none => rw [List.getLast?_eq_none_iff.mp last]
  | some name =>
      have shape := List.dropLast_append_getLast? name last
      dsimp only
      rw [realpath_plain (plain.of_prefix (List.dropLast_prefix path)), shape]

end FileTree

end LocalHarness.Library
