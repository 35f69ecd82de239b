import LocalHarness.Evals.SandboxCalls

/-! # Where a call reaches

Every path a call opens is the root or under it, with no link on the way. The links of a tree are
not followed, but a listing asks of each entry whether it is a directory, and of a link that is to
ask of what it leads to.
-/

namespace LocalHarness.Evals.Sandbox

open LocalHarness.Library

variable {os : Os} {box : Box} {w w0 : World}

/-- The root or a path under it, no link on the way. -/
structure Inside (box : Box) (tree : Tree) (path : Path) : Prop where
  below : box.root <+: path
  plain : tree.Plain path

theorem Inside.root (plain : w.tree.Plain box.root) : Inside box w.tree box.root :=
  ⟨List.prefix_refl _, plain⟩

/-- Above a path inside, as far as the root, is inside. -/
theorem Inside.dropLast {tree : Tree} {path : Path} (inside : Inside box tree path)
    (apart : path ≠ box.root) : Inside box tree path.dropLast := by
  obtain ⟨names, rfl⟩ := inside.below
  have some_ : names ≠ [] := fun none => apart (by rw [none, List.append_nil])
  refine ⟨?_, inside.plain.of_prefix (List.dropLast_prefix _)⟩
  rw [List.dropLast_append_of_ne_nil some_]
  exact List.prefix_append _ _

/-- What a call has done so far: what it made of the tree, and that it touched only what it may. -/
structure Kept (w0 : World) (trees : Tree → Prop) (may : Deed × Path → Prop) (w : World) : Prop where
  tree : trees w.tree
  touched : ∃ new, w.touched = new ++ w0.touched ∧ ∀ touch ∈ new, may touch

variable {trees : Tree → Prop} {may : Deed × Path → Prop}

theorem Kept.start (tree : trees w.tree) : Kept w trees may w :=
  ⟨tree, [], rfl, List.forall_mem_nil _⟩

theorem Kept.touch (kept : Kept w0 trees may w) {touch : Deed × Path} {tree : Tree}
    (good : trees tree) (allowed : may touch) :
    Kept w0 trees may ⟨tree, touch :: w.touched⟩ := by
  obtain ⟨-, new, shape, all⟩ := kept
  exact ⟨good, touch :: new, by rw [shape, List.cons_append], List.forall_mem_cons.mpr ⟨allowed, all⟩⟩

/-! ## The system -/

theorem refuse_from {α : Type} {gives : α → World → Prop} (why : Str)
    (kept : Kept w0 trees may w) : From w (refuse why) (Kept w0 trees may) gives :=
  .throw kept

theorem isSymlink_from (os : Os) (path : Path) (kept : Kept w0 trees may w) :
    From w (isSymlink os path) (Kept w0 trees may) fun _ w' => w' = w := by
  have run := isSymlink_looks os w path
  exact ⟨by rw [run]; exact kept, fun _ _ => by rw [run]⟩

/-- What is looked at is what the path leads to. -/
theorem look_from {α : Type} {op : Op} {deed : Deed} {get : Tree → Path → Option α} {path : Path}
    (kept : Kept w0 trees may w) (allowed : may (deed, w.tree.realpath path)) :
    From w (look os op deed get path) (Kept w0 trees may) fun _ w' => w'.tree = w.tree := by
  unfold look
  cases os.fault op with
  | some why => exact ⟨kept, nofun⟩
  | none =>
      dsimp only
      cases got : get w.tree path with
      | none => exact ⟨by simpa only [got] using kept, fun a same => by simp [got] at same⟩
      | some a =>
          exact ⟨by simpa only [got] using kept.touch kept.tree allowed, fun _ _ => by simp only [got]⟩

theorem ask_from {kind : Tree → Path → Bool} {path : Path} (kept : Kept w0 trees may w)
    (allowed : may (.asked, w.tree.realpath path)) :
    From w (ask os kind path) (Kept w0 trees may) fun _ w' => w'.tree = w.tree := by
  unfold ask
  split
  · exact .pure kept rfl
  · exact look_from kept allowed

/-- A tree with no link that was not there, and all as it was outside the root. -/
structure Written (box : Box) (tree tree' : Tree) : Prop where
  links : ∀ path, (tree'.node? path).any FileNode.isLink = true →
    (tree.node? path).any FileNode.isLink = true
  outside : ∀ path, ¬ box.root <+: path → tree'.node? path = tree.node? path

theorem Written.refl (tree : Tree) : Written box tree tree :=
  ⟨fun _ linked => linked, fun _ _ => rfl⟩

theorem Written.plain {tree tree' : Tree} (written : Written box tree tree') {path : Path}
    (plain : tree.Plain path) : tree'.Plain path := by
  intro above up
  have solid := plain above up
  rw [← Bool.not_eq_true] at solid ⊢
  exact mt (written.links above) solid

theorem Written.put {tree tree' : Tree} (written : Written box tree tree') {path : Path}
    {node : FileNode Str Bytes} (below : box.root <+: path) (solid : node.isLink = false)
    (fits : tree'.Fits path) : Written box tree (tree'.put path node fits) := by
  refine ⟨fun other => ?_, fun other apart => ?_⟩
  · rw [FileTree.node?_put tree' fits]
    split
    · simp [solid]
    · exact written.links other
  · rw [FileTree.node?_put tree' fits, if_neg (by rintro rfl; exact apart below)]
    exact written.outside other apart

theorem place_from {op : Op} {path : Path} {free : Option (FileNode Str Bytes) → Bool}
    {node : FileNode Str Bytes} (solid : node.isLink = false)
    (kept : Kept w0 (Written box w0.tree) may w) (inside : Inside box w0.tree path)
    (allowed : may (.opened, path)) :
    From w (place os op path free node) (Kept w0 (Written box w0.tree) may) fun _ _ => True := by
  refine ⟨?_, fun _ _ => trivial⟩
  unfold place
  cases os.fault op with
  | some why => exact kept
  | none =>
      dsimp only
      rw [FileTree.place_plain (kept.tree.plain inside.plain)]
      split
      · exact kept
      · split
        next fits => exact kept.touch (kept.tree.put inside.below solid fits) allowed
        next => exact kept

theorem write_from {path : Path} {data : Bytes} (kept : Kept w0 (Written box w0.tree) may w)
    (inside : Inside box w0.tree path) :
    From w (write os path data) (Kept w0 (Written box w0.tree) may) fun _ _ => True := by
  refine ⟨?_, fun _ _ => trivial⟩
  have given : ∀ taken : Bytes, Kept w0 (Written box w0.tree) may
      (if fits : w.tree.Fits path then { w with tree := w.tree.put path (.file taken) fits }
        else w) := by
    intro taken
    split
    next fits => exact ⟨kept.tree.put inside.below rfl fits, kept.touched⟩
    next => exact kept
  unfold write
  rw [FileTree.place_plain (kept.tree.plain inside.plain)]
  cases os.short path data with
  | none => exact given data
  | some cut => exact given (data.take cut.2)

/-- Where the root has no link above it, neither has what a text names. -/
theorem resolve_from (plain : w.tree.Plain box.root) (kept : Kept w0 trees may w) (rel : Str) :
    From w (resolve os box rel) (Kept w0 trees may) fun p w' =>
      w' = w ∧ Leads os box w.tree rel p ∧ Inside box w.tree p := by
  rcases resolve_run os plain rel with ⟨p, leads, clear, below, run⟩ | ⟨why, run, -⟩
  · refine ⟨by rw [run]; exact kept, fun q same => ?_⟩
    rw [run] at same ⊢
    cases same
    exact ⟨rfl, leads, below, clear⟩
  · exact ⟨by rw [run]; exact kept, fun q same => by rw [run] at same; cases same⟩

/-! ## The tools -/

section

variable (inner : ∀ deed path, Inside box w0.tree path → may (deed, path))

include inner in
theorem may_look {tree : Tree} {deed : Deed} {path : Path} (inside : Inside box w0.tree path)
    (plain : tree.Plain path) : may (deed, tree.realpath path) := by
  rw [FileTree.realpath_plain plain]
  exact inner deed path inside

include inner in
theorem read_file_from (plain : w0.tree.Plain box.root) (path : Str) :
    From w0 (read_file os box path) (Kept w0 (· = w0.tree) may) fun _ _ => True := by
  have start : Kept w0 (· = w0.tree) may w0 := .start rfl
  unfold read_file
  apply From.bind (resolve_from plain start path)
  rintro p _ kept ⟨rfl, -, inside⟩
  apply From.bind (ask_from kept (may_look inner inside (kept.tree ▸ inside.plain)))
  intro there w' kept _
  split
  · exact refuse_from _ kept
  apply From.bind (look_from kept (may_look inner inside (kept.tree ▸ inside.plain)))
  intro size w' kept _
  split
  · exact refuse_from _ kept
  apply From.bind (look_from kept (may_look inner inside (kept.tree ▸ inside.plain)))
  intro data w' kept _
  split
  · exact refuse_from _ kept
  · exact .pure kept trivial

include inner in
theorem standing_from {path : Path} (inside : Inside box w0.tree path)
    (kept : Kept w0 (Written box w0.tree) may w) :
    From w (standing os box path) (Kept w0 (Written box w0.tree) may) fun there _ =>
      there = false → path ≠ box.root := by
  unfold standing
  split
  · exact .pure kept nofun
  next apart =>
    refine (ask_from kept (may_look inner inside ?_)).mono (fun _ kept => kept) fun _ _ _ _ => apart
    exact kept.tree.plain inside.plain

include inner in
/-- What is made above a file is made under the root. -/
theorem mkdirs_from (frames : Nat) {d : Path} (inside : Inside box w0.tree d)
    (kept : Kept w0 (Written box w0.tree) may w) :
    From w (mkdirs os box frames d) (Kept w0 (Written box w0.tree) may) fun _ _ => True := by
  induction frames generalizing d w with
  | zero => exact .throw kept
  | succ frames ih =>
      rw [mkdirs]
      apply From.bind (standing_from inner inside kept)
      intro there w' kept apart
      split
      · apply From.bind (isSymlink_from os d kept)
        intro linked w' kept _
        split
        · exact refuse_from _ kept
        · exact .pure kept trivial
      next missing =>
        have up := inside.dropLast (apart (by simpa using missing))
        apply From.bind (ih up kept)
        intro _ w' kept _
        exact place_from rfl kept inside (inner .opened d inside)

include inner in
theorem write_file_from (plain : w0.tree.Plain box.root) (path content : Str) :
    From w0 (write_file os box path content) (Kept w0 (Written box w0.tree) may) fun _ _ => True := by
  have start : Kept w0 (Written box w0.tree) may w0 := .start (.refl _)
  unfold write_file
  split
  · exact .throw start
  split
  · exact refuse_from _ start
  apply From.bind (resolve_from plain start path)
  rintro p _ kept ⟨rfl, -, inside⟩
  apply From.bind (standing_from inner inside kept)
  intro taken w' kept apart
  split
  · exact refuse_from _ kept
  next missing =>
    have up := inside.dropLast (apart (by simpa using missing))
    apply From.bind (mkdirs_from inner os.frames up kept)
    intro _ w' kept _
    apply From.bind (place_from rfl kept inside (inner .opened p inside))
    intro _ w' kept _
    apply From.bind (write_from kept inside)
    intro _ w' kept _
    exact .pure kept trivial

/-- What a listing asks of an entry, a link being followed once. -/
def AsksEntry (tree : Tree) (dir : Path) (touch : Deed × Path) : Prop :=
  touch.1 = .asked ∧ ∃ entry, (tree.node? (dir ++ [entry])).any FileNode.isLink = true ∧
    touch.2 = tree.realpath (dir ++ [entry])

include inner in
theorem entry_from {p : Path} (inside : Inside box w0.tree p)
    (linked : ∀ touch, AsksEntry w0.tree p touch → may touch) (name : Str)
    (kept : Kept w0 (· = w0.tree) may w) :
    From w (entry os p name) (Kept w0 (· = w0.tree) may) fun _ _ => True := by
  have allowed : may (.asked, w.tree.realpath (p ++ [name])) := by
    rw [kept.tree]
    cases here : (w0.tree.node? (p ++ [name])).any FileNode.isLink with
    | true => exact linked _ ⟨rfl, name, here, rfl⟩
    | false =>
        have plain := inside.plain.concat here
        rw [FileTree.realpath_plain plain]
        exact inner _ _ ⟨inside.below.trans (List.prefix_append _ _), plain⟩
  unfold entry
  apply From.bind (ask_from kept allowed)
  intro dir w' kept _
  split
  · apply From.bind (isSymlink_from os (p ++ [name]) kept)
    intro linked w' kept _
    exact .pure kept trivial
  · exact .pure kept trivial

include inner in
theorem list_dir_from (plain : w0.tree.Plain box.root) (path : Str)
    (linked : ∀ dir, Leads os box w0.tree path dir → ∀ touch, AsksEntry w0.tree dir touch → may touch) :
    From w0 (list_dir os box path) (Kept w0 (· = w0.tree) may) fun _ _ => True := by
  have start : Kept w0 (· = w0.tree) may w0 := .start rfl
  unfold list_dir
  apply From.bind (resolve_from plain start path)
  rintro p _ kept ⟨rfl, leads, inside⟩
  apply From.bind (ask_from kept (may_look inner inside inside.plain))
  intro there w' kept _
  split
  · exact refuse_from _ kept
  apply From.bind (look_from kept (may_look inner inside (kept.tree ▸ inside.plain)))
  intro names w' kept _
  apply From.bind (From.mapM kept fun name _ w kept => entry_from inner inside (linked p leads) name kept)
  intro out w' kept _
  exact .pure kept trivial

theorem execute_from (os : Os) (box : Box) (args : List Str)
    (kept : Kept w0 trees may w) :
    From w (execute os box args) (Kept w0 (fun _ => True) may) fun _ _ => True := by
  refine ⟨?_, fun _ _ => trivial⟩
  unfold execute
  cases os.child w.tree args with
  | failed why => exact ⟨trivial, kept.touched⟩
  | timedOut left => exact ⟨trivial, kept.touched⟩
  | done code out left => exact ⟨trivial, kept.touched⟩

include inner in
theorem run_tests_from (plain : w0.tree.Plain box.root) (path : Option Str) :
    From w0 (run_tests os box path) (Kept w0 (fun _ => True) may) fun _ _ => True := by
  have start : Kept w0 (fun _ => True) may w0 := .start trivial
  unfold run_tests
  split
  · exact (execute_from os box _ start).map
  next path =>
    split
    · exact (execute_from os box _ start).map
    split
    · exact refuse_from _ start
    apply From.bind (resolve_from plain start path)
    rintro p _ kept ⟨rfl, -, inside⟩
    apply From.bind (ask_from kept (may_look inner inside inside.plain))
    intro there w' kept _
    split
    · exact refuse_from _ kept
    · exact (execute_from os box _ kept).map

end

/-! ## A call -/

/-- What a call may touch: what is inside, and what an entry of a listed directory leads to. -/
def May (os : Os) (box : Box) (tree : Tree) (request : Request) (touch : Deed × Path) : Prop :=
  Inside box tree touch.2 ∨
    ∃ path dir, request = .list_dir path ∧ Leads os box tree path dir ∧ AsksEntry tree dir touch

/-- What is asked touches only what it may, and the tests alone may change what is outside. -/
structure Confined (os : Os) (box : Box) (w : World) (request : Request) (w' : World) : Prop where
  touched : ∃ new, w'.touched = new ++ w.touched ∧ ∀ touch ∈ new, May os box w.tree request touch
  outside : (∀ path, request ≠ .run_tests path) →
    ∀ path, ¬ box.root <+: path → w'.tree.node? path = w.tree.node? path

theorem request_confined (plain : w.tree.Plain box.root) (request : Request) :
    Confined os box w request (request.run os box w).2 := by
  have inner : ∀ deed path, Inside box w.tree path → May os box w.tree request (deed, path) :=
    fun deed path inside => .inl inside
  cases request with
  | read_file path =>
      have kept := (show From w (read_file os box path) _ _ from read_file_from inner plain path).state
      exact ⟨kept.touched, fun _ other _ => congrArg (FileTree.node? · other) kept.tree⟩
  | write_file path content =>
      have kept :=
        (show From w (write_file os box path content) _ _ from write_file_from inner plain path content).state
      exact ⟨kept.touched, fun _ => kept.tree.outside⟩
  | list_dir path =>
      have linked : ∀ dir, Leads os box w.tree path dir → ∀ touch, AsksEntry w.tree dir touch →
          May os box w.tree (.list_dir path) touch :=
        fun dir leads touch asks => .inr ⟨path, dir, rfl, leads, asks⟩
      have kept := (list_dir_from inner plain path linked).state
      exact ⟨kept.touched, fun _ other _ => congrArg (FileTree.node? · other) kept.tree⟩
  | run_tests path =>
      have kept := (show From w (run_tests os box path) _ _ from run_tests_from inner plain path).state
      exact ⟨kept.touched, fun none => absurd rfl (none path)⟩

/-- The text that a request resolves, where it resolves one. -/
def Request.path : Request → Option Str
  | .read_file path | .write_file path _ | .list_dir path => some path
  | .run_tests path => path.filter fun path => path ∉ [[], text ".", text "tests", text "tests/"]

/-- Where a text names no path inside, nothing has been done. -/
theorem request_refused {request : Request} {rel : Str} (asked : request.path = some rel)
    (refused : ∀ p w', resolve os box rel w ≠ (.ok p, w')) (plain : w.tree.Plain box.root) :
    (request.run os box w).2 = w := by
  obtain ⟨why, stopped⟩ : ∃ why, resolve os box rel w = (.error why, w) := by
    rcases resolve_run os plain rel with ⟨p, -, -, -, run⟩ | ⟨why, run, -⟩
    · exact absurd run (refused p w)
    · exact ⟨why, run⟩
  cases request with
  | read_file path =>
      obtain rfl := Option.some.inj asked
      exact congrArg Prod.snd (run_bind_error stopped)
  | list_dir path =>
      obtain rfl := Option.some.inj asked
      exact congrArg Prod.snd (run_bind_error stopped)
  | write_file path content =>
      obtain rfl := Option.some.inj asked
      rw [Request.run, write_file]
      cases Str.encode content with
      | none => rfl
      | some data =>
          by_cases large : WRITE_CAP < data.length
          · simp only [if_pos large]
            rfl
          · simp only [if_neg large]
            exact congrArg Prod.snd (run_bind_error stopped)
  | run_tests path =>
      obtain ⟨rfl, named⟩ := Option.filter_eq_some_iff.mp asked
      rw [Request.run, run_tests, if_neg (by simpa using named)]
      cases testFile rel with
      | false => rfl
      | true => exact congrArg Prod.snd (run_bind_error stopped)

/-- A call leaves what its request leaves, and where there is no request nothing is done. -/
theorem call_leaves (os : Os) (box : Box) (w : World) (name arguments : Str) :
    (call os box name arguments w).2 = w ∧ (∀ request, ¬ Asked os box name arguments request) ∨
      ∃ request, Asked os box name arguments request ∧
        (call os box name arguments w).2 = (request.run os box w).2 := by
  unfold Asked call
  dsimp only
  cases known : box.tools.find? fun tool => tool.name = name with
  | none => exact .inl ⟨rfl, by rintro request ⟨tool, value, args, same, -⟩; cases same⟩
  | some tool =>
      dsimp only
      cases decoded : JsonText.loads os.room arguments with
      | error refusal =>
          refine .inl ⟨?_, by rintro request ⟨tool', value, args, -, same, -⟩; cases same⟩
          cases refusal <;> rfl
      | ok value =>
          dsimp only
          cases bound : bindings value with
          | none =>
              refine .inl ⟨rfl, ?_⟩
              rintro request ⟨tool', value', args, -, same, none, -⟩
              cases same
              rw [bound] at none
              cases none
          | some args =>
              dsimp only
              by_cases fits : schema_problem os.printable tool args = []
              · obtain ⟨request, asked⟩ := request_of_fits fits
                rw [if_neg (not_not.mpr fits), asked]
                refine .inr ⟨request, ⟨tool, value, args, rfl, rfl, bound, fits, asked⟩, ?_⟩
                unfold perform
                dsimp only
                rcases request.run os box w with ⟨why | result, w'⟩
                · cases why <;> rfl
                · rfl
              · rw [if_pos fits]
                refine .inl ⟨rfl, ?_⟩
                rintro request ⟨tool', value', args', same, same', bound', fits', -⟩
                cases same
                cases same'
                rw [bound] at bound'
                cases bound'
                exact fits fits'

theorem Asked.unique {name arguments : Str} {request request' : Request}
    (asked : Asked os box name arguments request) (again : Asked os box name arguments request') :
    request = request' := by
  obtain ⟨tool, value, args, known, decoded, bound, -, made⟩ := asked
  obtain ⟨tool', value', args', known', decoded', bound', -, made'⟩ := again
  obtain rfl := Option.some.inj (known.symm.trans known')
  obtain rfl := Except.ok.inj (decoded.symm.trans decoded')
  obtain rfl := Option.some.inj (bound.symm.trans bound')
  exact Option.some.inj (made.symm.trans made')

/-- Every path a call opens is inside, and what it asks about is too, but for the entries of a
    directory that it lists; where it asks for no tool, or a text names no path inside, nothing is
    done. -/
theorem call_confined (os : Os) (box : Box) (w : World) (plain : w.tree.Plain box.root) :
    (∀ rel p w', resolve os box rel w = (.ok p, w') → w' = w ∧ Inside box w.tree p) ∧
      ∀ name arguments,
        ((∀ request, ¬ Asked os box name arguments request) →
          (call os box name arguments w).2 = w) ∧
        ∀ request, Asked os box name arguments request →
          Confined os box w request (call os box name arguments w).2 ∧
            ∀ rel, request.path = some rel → (∀ p w', resolve os box rel w ≠ (.ok p, w')) →
              (call os box name arguments w).2 = w := by
  refine ⟨fun rel p w' run => ?_, fun name arguments => ?_⟩
  · have start : Kept w (fun _ => True) (fun _ => True) w := .start trivial
    have from_w := show From w (resolve os box rel) _ _ from resolve_from plain start rel
    have gives := from_w.result p (by rw [run])
    rw [run] at gives
    exact ⟨gives.1, gives.2.2⟩
  · rcases call_leaves os box w name arguments with ⟨left, none⟩ | ⟨request, asked, left⟩
    · exact ⟨fun _ => left, fun request asked => absurd asked (none request)⟩
    · refine ⟨fun none => absurd asked (none request), fun request' again => ?_⟩
      obtain rfl := asked.unique again
      rw [left]
      exact ⟨request_confined plain request,
        fun rel same refused => request_refused same refused plain⟩

/-! ## A link in the root -/

/-- A repository with a link to a file outside. -/
def linked : World where
  tree :=
    { entries := [([text "repo"], .dir), ([text "secret"], .file []),
        ([text "repo", text "up"], .link true [.down (text "secret")])]
      once := by decide
      rooted := by decide
      parented := by decide }

def listCall : Str := text "\x7b\x7d"

def upCall : Str := text "\x7b\"path\": \"up\"\x7d"

theorem linked_plain : linked.tree.Plain repo.root := by
  intro above up
  have short : above = [] ∨ above = [text "repo"] := by
    simpa [List.prefix_cons_iff, repo] using up
  rcases short with rfl | rfl
  · decide
  · decide

/-- Listing a directory asks whether what a link in it leads to is a directory. -/
theorem link_asked :
    linked.tree.Plain repo.root ∧
      ¬ ∀ touch ∈ (call posix repo (text "list_dir") listCall linked).2.touched,
        Inside repo linked.tree touch.2 := by
  refine ⟨linked_plain, fun all => ?_⟩
  have asks : (.asked, [text "secret"]) ∈
      (call posix repo (text "list_dir") listCall linked).2.touched := by decide
  have apart : ¬ repo.root <+: [text "secret"] := by decide
  exact apart (all _ asks).below

theorem linked_confined :
    Confined posix repo linked (.list_dir (text "."))
        (call posix repo (text "list_dir") listCall linked).2 ∧
      (call posix repo (text "read_file") upCall linked).2 = linked := by
  obtain ⟨-, each⟩ := call_confined posix repo linked linked_plain
  have lists : Asked posix repo (text "list_dir") listCall (.list_dir (text ".")) :=
    ⟨.list_dir, .object [], ∅, by decide, rfl, rfl, by decide, rfl⟩
  have reads : Asked posix repo (text "read_file") upCall (.read_file (text "up")) :=
    ⟨.read_file, .object [(text "path", .string (text "up"))], _, by decide, rfl, rfl,
      by decide, rfl⟩
  refine ⟨((each _ _).2 _ lists).1, ((each _ _).2 _ reads).2 (text "up") rfl fun p w' run => ?_⟩
  have refused : (resolve posix repo (text "up") linked).1.isOk = false := by decide
  rw [run] at refused
  cases refused

end LocalHarness.Evals.Sandbox
