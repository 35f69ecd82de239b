import LocalHarness.Evals.Sandbox
import LocalHarness.Library.Fallible

/-! # What a call gives back

A call is to end in a result or in the text of an error, and an error is to leave the files as they were.
It is so unless the arguments nest too deep, a name or the content cannot be encoded, more directories
are missing than calls may go deep, or the system refuses a file after a directory was made for it.
-/

namespace LocalHarness.Evals.Sandbox

open LocalHarness.Library

variable {os : Os} {box : Box}

/-! ## What is asked -/

/-- What is asked of a path, before anything is looked at. -/
def answered (os : Os) (op : Op) (path : Path) (answer : Bool) : Except Raised Bool :=
  if named path = false then .ok false
  else
    match os.fault op with
    | some why => .error (.osError why)
    | none => .ok answer

def linkAt (os : Os) (tree : Tree) (path : Path) : Except Raised Bool :=
  answered os (.lstat path) path (tree.isSymlink path)

def dirAt (os : Os) (tree : Tree) (path : Path) : Except Raised Bool :=
  answered os (.stat path) path (tree.isDir path)

def fileAt (os : Os) (tree : Tree) (path : Path) : Except Raised Bool :=
  answered os (.stat path) path (tree.isFile path)

/-- An error that a call gives back as text. -/
def Caught : Raised → Prop
  | .refused _ | .osError _ => True
  | .unicodeEncode | .recursion | .typeError => False

theorem caught_answered {op : Op} {path : Path} {answer : Bool} {why : Raised}
    (refused : answered os op path answer = .error why) : Caught why := by
  unfold answered at refused
  split at refused
  next => cases refused
  next =>
    split at refused
    next => cases refused; trivial
    next => cases refused

/-- What is given without a change of the tree. -/
def Looks {α : Type} (w : World) (m : Act α) (r : Except Raised α) : Prop :=
  ∃ w', m w = (r, w') ∧ w'.tree = w.tree

theorem isSymlink_looks (os : Os) (w : World) (path : Path) : isSymlink os path w = (linkAt os w.tree path, w) := by
  unfold isSymlink linkAt answered
  by_cases unnamed : named path = false
  · rw [if_pos unnamed, if_pos unnamed]
  · rw [if_neg unnamed, if_neg unnamed]
    cases os.fault (.lstat path) with
    | some why => rfl
    | none => rfl

theorem ask_looks (kind : Tree → Path → Bool) (w : World) (path : Path) :
    Looks w (ask os kind path) (answered os (.stat path) path (kind w.tree path)) := by
  unfold ask answered
  by_cases unnamed : named path = false
  · rw [if_pos unnamed, if_pos unnamed]
    exact ⟨w, rfl, rfl⟩
  · rw [if_neg unnamed, if_neg unnamed]
    unfold look
    cases os.fault (.stat path) with
    | some why => exact ⟨w, rfl, rfl⟩
    | none => exact ⟨_, rfl, rfl⟩

theorem isDir_looks (os : Os) (w : World) (path : Path) : Looks w (isDir os path) (dirAt os w.tree path) :=
  ask_looks FileTree.isDir w path

theorem isFile_looks (os : Os) (w : World) (path : Path) : Looks w (isFile os path) (fileAt os w.tree path) :=
  ask_looks FileTree.isFile w path

theorem look_looks {α : Type} (os : Os) (op : Op) (deed : Deed) (get : Tree → Path → Option α) (path : Path) (w : World) :
    (∃ a, Looks w (look os op deed get path) (.ok a)) ∨
      ∃ why, Looks w (look os op deed get path) (.error (.osError why)) := by
  unfold look Looks
  cases os.fault op with
  | some why => exact .inr ⟨why, w, rfl, rfl⟩
  | none =>
      dsimp only
      cases get w.tree path with
      | some a => exact .inl ⟨a, _, rfl, rfl⟩
      | none => exact .inr ⟨_, w, rfl, rfl⟩

/-! ## Errors that leave the files alone -/

def Unchanged (tree : Tree) (w : World) : Prop :=
  ∀ path, w.tree.node? path = tree.node? path

/-- An error that is caught and has changed nothing since. -/
def Fine (tree : Tree) (why : Raised) (w : World) : Prop :=
  Caught why ∧ Unchanged tree w

variable {tree : Tree} {w : World} {α β : Type}

theorem fine_of_caught {why : Raised} (caught : Caught why) (same : w.tree = tree) : Fine tree why w :=
  ⟨caught, fun _ => same ▸ rfl⟩

/-- Once something has been looked at, what comes next decides. -/
theorem Looks.safe_bind {m : Act α} {a : α} {f : α → Act β} {good : Prop} (looks : Looks w m (.ok a))
    (next : ∀ w', w'.tree = w.tree → (Safe (Fine tree) w' (f a) ↔ good)) :
    Safe (Fine tree) w (m >>= f) ↔ good := by
  obtain ⟨w', run, same⟩ := looks
  rw [safe_bind_ok run]
  exact next w' same

theorem Looks.safe_error {m : Act α} {why : Raised} {f : α → Act β} (looks : Looks w m (.error why))
    (caught : Caught why) (same : w.tree = tree) : Safe (Fine tree) w (m >>= f) := by
  obtain ⟨w', run, kept⟩ := looks
  exact (safe_bind_error run).mpr (fine_of_caught caught (kept.trans same))

/-- What only looks and then refuses or is done is safe. -/
theorem Looks.safe {m : Act α} {f : α → Act β} {r : Except Raised α} (looks : Looks w m r)
    (same : w.tree = tree) (caught : ∀ why, r = .error why → Caught why)
    (next : ∀ a w', r = .ok a → w'.tree = tree → Safe (Fine tree) w' (f a)) :
    Safe (Fine tree) w (m >>= f) := by
  cases r with
  | error why => exact looks.safe_error (caught why rfl) same
  | ok a =>
      obtain ⟨w', run, kept⟩ := looks
      exact (safe_bind_ok run).mpr (next a w' rfl (kept.trans same))

theorem refuse_safe (why : Str) (same : w.tree = tree) : Safe (Fine tree) w (refuse why : Act α) :=
  (safe_error rfl).mpr (fine_of_caught trivial same)

theorem pure_safe (a : α) : Safe (Fine tree) w (pure a : Act α) :=
  safe_ok rfl

theorem look_safe {op : Op} {deed : Deed} {get : Tree → Path → Option α} {path : Path} {f : α → Act β}
    (same : w.tree = tree) (next : ∀ a w', w'.tree = tree → Safe (Fine tree) w' (f a)) :
    Safe (Fine tree) w (look os op deed get path >>= f) := by
  rcases look_looks os op deed get path w with ⟨a, looks⟩ | ⟨why, looks⟩
  · exact looks.safe same (by rintro why ⟨⟩) fun a w' _ => next a w'
  · exact looks.safe_error trivial same

/-! ## Where a path leads -/

/-- No name of a path is a link, as far as it can be seen. -/
def Passed (os : Os) (tree : Tree) (here : Path) (names : List Str) : Prop :=
  ∀ front part back, names = front ++ part :: back → linkAt os tree (here ++ front ++ [part]) = .ok false

theorem passed_nil {here : Path} : Passed os tree here [] := by
  intro front part back shape
  simp at shape

theorem passed_cons {here : Path} {part : Str} {rest : List Str} :
    Passed os tree here (part :: rest) ↔
      linkAt os tree (here ++ [part]) = .ok false ∧ Passed os tree (here ++ [part]) rest := by
  constructor
  · intro passed
    refine ⟨by simpa using passed [] part rest rfl, fun front name back shape => ?_⟩
    have later := passed (part :: front) name back (by rw [shape, List.cons_append])
    simpa using later
  · rintro ⟨here_, later⟩ front name back shape
    cases front with
    | nil =>
        obtain ⟨rfl, rfl⟩ := List.cons.inj shape
        simpa using here_
    | cons first front =>
        obtain ⟨rfl, rfl⟩ := List.cons.inj shape
        simpa using later front name back rfl

/-- The names of a path are probed one after the other. -/
theorem probe_run (os : Os) (rel : Str) (here : Path) (names : List Str) (w : World) :
    Passed os w.tree here names ∧ probe os rel here names w = (.ok (), w) ∨
      ¬ Passed os w.tree here names ∧ ∃ why, Caught why ∧ probe os rel here names w = (.error why, w) := by
  induction names generalizing here with
  | nil => exact .inl ⟨passed_nil, rfl⟩
  | cons part rest ih =>
      rw [probe, passed_cons]
      have run := isSymlink_looks os w (here ++ [part])
      cases seen : linkAt os w.tree (here ++ [part]) with
      | error why =>
          rw [seen] at run
          exact .inr ⟨by simp, why, caught_answered seen, run_bind_error run⟩
      | ok linked =>
          rw [seen] at run
          rw [run_bind_ok run]
          cases linked with
          | true => exact .inr ⟨by simp, .refused _, trivial, rfl⟩
          | false => simpa using ih (here ++ [part])

theorem plain_of_passed {here : Path} {names : List Str} (plain : tree.Plain here)
    (named : named here = true) (spelled : ∀ part ∈ names, Str.isName part = true)
    (passed : Passed os tree here names) : tree.Plain (here ++ names) := by
  induction names generalizing here with
  | nil => rwa [List.append_nil]
  | cons part rest ih =>
      obtain ⟨good, spelled⟩ := List.forall_mem_cons.mp spelled
      obtain ⟨unlinked, passed⟩ := passed_cons.mp passed
      have whole : Sandbox.named (here ++ [part]) = true := by
        rw [Sandbox.named, List.all_append, Bool.and_eq_true]
        exact ⟨named, by simpa using good⟩
      have solid : (tree.node? (here ++ [part])).any FileNode.isLink = false := by
        unfold linkAt answered at unlinked
        rw [if_neg (by rw [whole]; decide)] at unlinked
        split at unlinked
        next => cases unlinked
        next =>
          rw [← Bool.not_eq_true]
          intro linked
          rw [FileTree.isSymlink_of_node linked] at unlinked
          cases unlinked
      have shape : here ++ part :: rest = here ++ [part] ++ rest := by simp
      exact shape ▸ ih (plain.concat solid) whole spelled passed

/-- Every name of a path that is not refused before can be given to the system. -/
def Spelled (os : Os) (box : Box) (tree : Tree) (rel : Str) : Prop :=
  ∀ names, parts (tidy rel) = .ok names → Passed os tree box.root names →
    ∀ part ∈ names, Str.isName part = true

/-- The path that a text names. -/
def Leads (os : Os) (box : Box) (tree : Tree) (rel : Str) (p : Path) : Prop :=
  ∃ names, parts (tidy rel) = .ok names ∧ Passed os tree box.root names ∧
    (∀ part ∈ names, Str.isName part = true) ∧ p = box.root ++ names

theorem Box.named_root (box : Box) : Sandbox.named box.root = true :=
  List.all_eq_true.mpr box.named

theorem named_append {names : List Str} :
    Sandbox.named (box.root ++ names) = true ↔ ∀ part ∈ names, Str.isName part = true := by
  have root := box.named_root
  unfold Sandbox.named at root ⊢
  rw [List.all_append, root, Bool.true_and, List.all_eq_true]

/-- A text names a path below the root that no link is on, or it is refused. -/
theorem resolve_run (os : Os) (plain : w.tree.Plain box.root) (rel : Str) :
    (∃ p, Leads os box w.tree rel p ∧ w.tree.Plain p ∧ box.root <+: p ∧
      resolve os box rel w = (.ok p, w)) ∨
      ∃ why, resolve os box rel w = (.error why, w) ∧ (∀ p, ¬ Leads os box w.tree rel p) ∧
        (Caught why ↔ Spelled os box w.tree rel) := by
  unfold resolve
  cases written : parts (tidy rel) with
  | error why =>
      refine .inr ⟨.refused why, rfl, ?_, iff_of_true trivial ?_⟩
      · rintro p ⟨names, same, -⟩
        rw [written] at same
        cases same
      · intro names same
        rw [written] at same
        cases same
  | ok names =>
      dsimp only
      have only : ∀ {names'}, parts (tidy rel) = .ok names' → names' = names := fun same =>
        Except.ok.inj (same.symm.trans written)
      rcases probe_run os (tidy rel) box.root names w with ⟨passed, run⟩ | ⟨stopped, why, caught, run⟩
      · rw [run_bind_ok run]
        by_cases spelled : ∀ part ∈ names, Str.isName part = true
        · have clear := plain_of_passed plain box.named_root spelled passed
          have real : realpath (box.root ++ names) w = (.ok (box.root ++ names), w) := by
            rw [realpath, if_neg (by rw [named_append.mpr spelled]; decide), FileTree.realpath_plain clear]
          have inside : box.root.isPrefixOf (box.root ++ names) = true :=
            List.isPrefixOf_iff_prefix.mpr (List.prefix_append _ _)
          refine .inl ⟨_, ⟨names, written, passed, spelled, rfl⟩, clear, List.prefix_append _ _, ?_⟩
          rw [run_bind_ok real, if_pos inside]
          rfl
        · have unnamed : Sandbox.named (box.root ++ names) = false := by
            rw [← Bool.not_eq_true, named_append]
            exact spelled
          have real : realpath (box.root ++ names) w = (.error .unicodeEncode, w) := by
            rw [realpath, if_pos unnamed]
          refine .inr ⟨_, run_bind_error real, ?_, iff_of_false id ?_⟩
          · rintro p ⟨names', same, -, good, -⟩
            exact spelled (only same ▸ good)
          · exact fun all => spelled (all names written passed)
      · refine .inr ⟨why, run_bind_error run, ?_, iff_of_true caught ?_⟩
        · rintro p ⟨names', same, passed, -⟩
          exact stopped (only same ▸ passed)
        · intro names' same passed
          exact absurd (only same ▸ passed) stopped

/-! ## What is made for a file -/

def standingAt (os : Os) (tree : Tree) (root path : Path) : Except Raised Bool :=
  if path = root then .ok true else dirAt os tree path

theorem standing_looks (os : Os) (box : Box) (w : World) (path : Path) :
    Looks w (standing os box path) (standingAt os w.tree box.root path) := by
  unfold standing standingAt
  split
  next => exact ⟨w, rfl, rfl⟩
  next => exact isDir_looks os w path

theorem caught_standingAt {root path : Path} {why : Raised}
    (refused : standingAt os tree root path = .error why) : Caught why := by
  unfold standingAt at refused
  split at refused
  next => cases refused
  next => exact caught_answered refused

/-- The directories that are made for one to be there, from the top. -/
def missing (os : Os) (tree : Tree) (root : Path) : Nat → Path → Except Raised (List Path)
  | 0, _ => .error .recursion
  | frames + 1, d => do
      let there ← standingAt os tree root d
      if there then do
        let linked ← linkAt os tree d
        if linked then .error (.refused (text "symlinks are not followed")) else .ok []
      else do
        let above ← missing os tree root frames d.dropLast
        .ok (above ++ [d])

def makeAll (os : Os) : List Path → Act Unit
  | [] => pure ()
  | d :: rest => do
      mkdir os d
      makeAll os rest

theorem makeAll_concat (dirs : List Path) (d : Path) :
    makeAll os (dirs ++ [d]) = makeAll os dirs >>= fun _ => mkdir os d := by
  induction dirs with
  | nil => simp [makeAll]
  | cons first rest ih => rw [List.cons_append, makeAll, makeAll, ih, bind_assoc]

/-- The directories are all found missing before one is made. -/
theorem mkdirs_run (os : Os) (box : Box) (frames : Nat) (d : Path) (w : World) : ∃ w', w'.tree = w.tree ∧
    mkdirs os box frames d w =
      match missing os w.tree box.root frames d with
      | .error why => (.error why, w')
      | .ok dirs => makeAll os dirs w' := by
  induction frames generalizing d w with
  | zero => exact ⟨w, rfl, rfl⟩
  | succ frames ih =>
      obtain ⟨w', run, same⟩ := standing_looks os box w d
      rw [mkdirs, missing]
      cases seen : standingAt os w.tree box.root d with
      | error why =>
          rw [seen] at run
          exact ⟨w', same, run_bind_error run⟩
      | ok there =>
          rw [seen] at run
          rw [run_bind_ok run]
          cases there with
          | true =>
              have probed := isSymlink_looks os w' d
              rw [same] at probed
              refine ⟨w', same, ?_⟩
              dsimp only [bind, Except.bind, if_pos]
              cases linked : linkAt os w.tree d with
              | error why =>
                  rw [linked] at probed
                  exact run_bind_error probed
              | ok linked_ =>
                  rw [linked] at probed
                  rw [if_pos rfl]
                  refine (run_bind_ok probed).trans ?_
                  cases linked_ <;> rfl
          | false =>
              obtain ⟨w'', same', rest⟩ := ih d.dropLast w'
              refine ⟨w'', same'.trans same, ?_⟩
              rw [same] at rest
              dsimp only [bind, Except.bind]
              rw [if_neg (by decide), if_neg (by decide)]
              cases above : missing os w.tree box.root frames d.dropLast with
              | error why =>
                  rw [above] at rest
                  exact run_bind_error rest
              | ok dirs =>
                  rw [above] at rest
                  dsimp only
                  rw [makeAll_concat]
                  exact run_bind_congr rest

/-- Each directory stands in the one before it, and the file in the last. -/
def Ladder : Path → List Path → Path → Prop
  | base, [], p => ∃ name, p = base ++ [name]
  | base, d :: rest, p => (∃ name, d = base ++ [name]) ∧ Ladder d rest p

theorem Ladder.concat {base d : Path} {rest : List Path} (ladder : Ladder base rest d) (name : Str) :
    Ladder base (rest ++ [d]) (d ++ [name]) := by
  induction rest generalizing base with
  | nil => exact ⟨ladder, name, rfl⟩
  | cons next rest ih => exact ⟨ladder.1, ih ladder.2⟩

theorem Ladder.above {base p : Path} {rest : List Path} (ladder : Ladder base rest p) : base <+: p := by
  induction rest generalizing base with
  | nil =>
      obtain ⟨name, rfl⟩ := ladder
      exact List.prefix_append base [name]
  | cons next rest ih =>
      obtain ⟨⟨name, rfl⟩, later⟩ := ladder
      exact (List.prefix_append base [name]).trans (ih later)

theorem missing_ladder {root : Path} {frames : Nat} {d : Path} {dirs : List Path}
    (found : missing os tree root frames d = .ok dirs) (below : root <+: d) :
    dirs = [] ∨ ∃ first rest, dirs = first :: rest ∧ ∀ name, Ladder first rest (d ++ [name]) := by
  induction frames generalizing d dirs with
  | zero => cases found
  | succ frames ih =>
      rw [missing] at found
      obtain ⟨there, seen, found⟩ := bind_ok found
      cases there with
      | true =>
          rw [if_pos rfl] at found
          obtain ⟨linked, -, last⟩ := bind_ok found
          cases linked with
          | true => cases last
          | false => exact .inl (Except.ok.inj last).symm
      | false =>
          obtain ⟨above, more, last⟩ := bind_ok found
          obtain rfl := (Except.ok.inj last).symm
          have apart : d ≠ root := by
            rintro rfl
            rw [standingAt, if_pos rfl] at seen
            cases seen
          obtain ⟨names, rfl⟩ := below
          have some_ : names ≠ [] := fun none => apart (by rw [none, List.append_nil])
          have up : (root ++ names).dropLast = root ++ names.dropLast := List.dropLast_append_of_ne_nil some_
          have whole : (root ++ names).dropLast ++ [names.getLast some_] = root ++ names := by
            rw [up, List.append_assoc, List.dropLast_append_getLast some_]
          refine .inr ?_
          rcases ih more (up ▸ List.prefix_append _ _) with rfl | ⟨first, rest, rfl, ladder⟩
          · exact ⟨root ++ names, [], rfl, fun name => ⟨name, rfl⟩⟩
          · have last := ladder (names.getLast some_)
            rw [whole] at last
            exact ⟨first, rest ++ [root ++ names], rfl, last.concat⟩

/-- What is put is put, or the system or the tree does not let it. -/
theorem place_run (os : Os) (op : Op) {path : Path} (free : Option (FileNode Str Bytes) → Bool)
    (node : FileNode Str Bytes) (plain : w.tree.Plain path) :
    (os.fault op = none ∧ free (w.tree.node? path) = true ∧ w.tree.Fits path) ∧
        (∃ w', place os op path free node w = (.ok (), w') ∧
          ∀ other, w'.tree.node? other = if other = path then some node else w.tree.node? other) ∨
      ¬ (os.fault op = none ∧ free (w.tree.node? path) = true ∧ w.tree.Fits path) ∧
        ∃ why, place os op path free node w = (.error (.osError why), w) := by
  unfold place
  cases refused : os.fault op with
  | some why => exact .inr ⟨by simp, why, rfl⟩
  | none =>
      dsimp only
      rw [FileTree.place_plain plain]
      by_cases taken : free (w.tree.node? path) = false
      · rw [if_pos taken]
        exact .inr ⟨by simp [taken], _, rfl⟩
      · rw [if_neg taken]
        by_cases fits : w.tree.Fits path
        · rw [dif_pos fits]
          refine .inl ⟨⟨rfl, by simpa using taken, fits⟩, _, rfl, fun other => ?_⟩
          exact FileTree.node?_put w.tree fits
        · rw [dif_neg fits]
          exact .inr ⟨fun all => fits all.2.2, _, rfl⟩

theorem write_run (os : Os) {path : Path} (data : Bytes) (plain : w.tree.Plain path)
    (fits : w.tree.Fits path) :
    match os.short path data with
    | none => ∃ w', write os path data w = (.ok (), w')
    | some (why, n) => ∃ w', write os path data w = (.error (.osError why), w') ∧
        ∀ other, w'.tree.node? other = if other = path then some (.file (data.take n))
          else w.tree.node? other := by
  unfold write
  rw [FileTree.place_plain plain]
  cases os.short path data with
  | none => exact ⟨_, rfl⟩
  | some cut =>
      obtain ⟨why, n⟩ := cut
      refine ⟨_, rfl, fun other => ?_⟩
      dsimp only
      rw [dif_pos fits]
      exact FileTree.node?_put w.tree fits

/-- The file itself. -/
def fill (os : Os) (p : Path) (data : Bytes) (answer : Str) : Act Str := do
  create os p
  write os p data
  pure answer

/-- Once a place is filled, whether the file is given all of it decides. -/
theorem fill_run (os : Os) {p : Path} (data : Bytes) (answer : Str) (plain : w.tree.Plain p) :
    (os.fault (.create p) = none ∧ w.tree.Fits p) ∧
        (match os.short p data with
          | none => ∃ w', fill os p data answer w = (.ok answer, w')
          | some (why, n) => ∃ w', fill os p data answer w = (.error (.osError why), w') ∧
              ∀ other, w'.tree.node? other = if other = p then some (.file (data.take n))
                else w.tree.node? other) ∨
      ¬ (os.fault (.create p) = none ∧ w.tree.Fits p) ∧
        ∃ why, fill os p data answer w = (.error (.osError why), w) := by
  have unlinked := plain p (List.prefix_refl p)
  unfold fill create
  rcases place_run os (.create p) (fun found => !found.any FileNode.isLink) (.file []) plain with
    ⟨⟨open_, -, fits⟩, w', run, nodes⟩ | ⟨stopped, why, run⟩
  · refine .inl ⟨⟨open_, fits⟩, ?_⟩
    obtain ⟨below, parent, free⟩ := FileTree.fits_iff.mp fits
    have apart : p.dropLast ≠ p := by
      intro same
      have shorter := congrArg List.length same
      rw [List.length_dropLast] at shorter
      have := List.length_pos_iff.mpr below
      omega
    have fits' : w'.tree.Fits p := by
      rw [FileTree.fits_iff, nodes, nodes, if_neg apart, if_pos rfl]
      exact ⟨below, parent, by simp⟩
    have plain' : w'.tree.Plain p := by
      intro above up
      rw [nodes]
      split
      next => rfl
      next => exact plain above up
    rw [run_bind_ok run]
    have given := write_run os data plain' fits'
    cases cut : os.short p data with
    | none =>
        rw [cut] at given
        obtain ⟨w'', run'⟩ := given
        exact ⟨w'', run_bind_ok run'⟩
    | some some_ =>
        rw [cut] at given
        obtain ⟨w'', run', nodes'⟩ := given
        refine ⟨w'', run_bind_error run', fun other => ?_⟩
        rw [nodes', nodes]
        split <;> rfl
  · refine .inr ⟨fun both => stopped ⟨both.1, by simpa using unlinked, both.2⟩, why, run_bind_error run⟩

/-- A directory with nothing in it. -/
structure Bare (tree : Tree) (base : Path) : Prop where
  plain : tree.Plain base
  dir : tree.node? base = some .dir
  empty : ∀ name beneath, tree.node? (base ++ name :: beneath) = none

theorem Bare.fits {base : Path} (bare : Bare tree base) (name : Str) : tree.Fits (base ++ [name]) := by
  rw [FileTree.fits_iff, List.dropLast_concat, bare.dir, bare.empty name []]
  simp

theorem Bare.plain_concat {base : Path} (bare : Bare tree base) (name : Str) :
    tree.Plain (base ++ [name]) :=
  bare.plain.concat (by rw [bare.empty name []]; rfl)

/-- A directory that is new is bare. -/
theorem bare_of_made {tree' : Tree} {d : Path} (plain : tree.Plain d) (none : tree.node? d = none)
    (nodes : ∀ other, tree'.node? other = if other = d then some .dir else tree.node? other) :
    Bare tree' d := by
  refine ⟨fun above up => ?_, by rw [nodes, if_pos rfl], fun name beneath => ?_⟩
  · rw [nodes]
    split
    next => rfl
    next => exact plain above up
  · rw [nodes, if_neg (by simp)]
    exact FileTree.node?_append_none none _

/-- After a directory was made, an error leaves it there, so there must be none. -/
theorem ladder_safe {p base x : Path} {data : Bytes} {answer : Str} {rest : List Path}
    (ladder : Ladder base rest p) (bare : Bare w.tree base) (outside : ∀ name beneath, x ≠ base ++ name :: beneath)
    (changed : w.tree.node? x ≠ tree.node? x) :
    Safe (Fine tree) w (makeAll os rest >>= fun _ => fill os p data answer) ↔
      (∀ d ∈ rest, os.fault (.mkdir d) = none) ∧ os.fault (.create p) = none ∧ os.short p data = none := by
  induction rest generalizing base w with
  | nil =>
      obtain ⟨name, rfl⟩ := ladder
      have apart : x ≠ base ++ [name] := outside name []
      have run : (makeAll os [] >>= fun _ => fill os (base ++ [name]) data answer) w =
          fill os (base ++ [name]) data answer w := rfl
      rw [Safe, run]
      rcases fill_run os data answer (bare.plain_concat name) with ⟨⟨open_, -⟩, given⟩ | ⟨stopped, why, given⟩
      · cases cut : os.short (base ++ [name]) data with
        | none =>
            rw [cut] at given
            obtain ⟨w', run'⟩ := given
            exact iff_of_true (safe_ok run') ⟨List.forall_mem_nil _, open_, rfl⟩
        | some cut' =>
            rw [cut] at given
            obtain ⟨w', run', nodes⟩ := given
            refine iff_of_false (fun safe => ?_) (by simp)
            have same := ((safe_error run').mp safe).2 x
            rw [nodes, if_neg apart] at same
            exact changed same
      · refine iff_of_false (fun safe => changed (((safe_error given).mp safe).2 x)) fun all => ?_
        exact stopped ⟨all.2.1, bare.fits name⟩
  | cons d rest ih =>
      obtain ⟨⟨name, rfl⟩, later⟩ := ladder
      have apart : x ≠ base ++ [name] := outside name []
      rw [makeAll, bind_assoc, List.forall_mem_cons]
      unfold mkdir
      rcases place_run os (.mkdir (base ++ [name])) Option.isNone .dir (bare.plain_concat name) with ⟨⟨open_, -, -⟩, w', run, nodes⟩ | ⟨stopped, why, run⟩
      · rw [safe_bind_ok run, ih later (bare_of_made (bare.plain_concat name) (bare.empty name []) nodes)
          (fun next beneath same => outside name (next :: beneath) (by simpa using same))
          (by rwa [nodes, if_neg apart])]
        exact (and_congr_left fun _ => and_iff_right open_).symm
      · rw [safe_bind_error run]
        refine iff_of_false (fun fine => changed (fine.2 x)) fun all => ?_
        exact stopped ⟨all.1.1, by rw [bare.empty name []]; rfl, bare.fits name⟩

/-! ## The tools -/

/-- Where a directory has to be made, all that comes after it succeeds; where there is none to make and
    the file is cut short, it was that already. -/
def WholeOrNothing (os : Os) (tree : Tree) (p : Path) (data : Bytes) : List Path → Prop
  | [] => os.fault (.create p) = none → tree.Fits p → ∀ why n, os.short p data = some (why, n) →
      tree.node? p = some (.file (data.take n))
  | first :: rest => os.fault (.mkdir first) = none → tree.node? first = none → tree.Fits first →
      (∀ d ∈ rest, os.fault (.mkdir d) = none) ∧ os.fault (.create p) = none ∧ os.short p data = none

theorem makeAll_safe (os : Os) {p : Path} (data : Bytes) (answer : Str) {dirs : List Path} (plain : w.tree.Plain p)
    (ladder : dirs = [] ∨ ∃ first rest, dirs = first :: rest ∧ Ladder first rest p) :
    Safe (Fine w.tree) w (makeAll os dirs >>= fun _ => fill os p data answer) ↔
      WholeOrNothing os w.tree p data dirs := by
  rcases ladder with rfl | ⟨first, rest, rfl, ladder⟩
  · have run : (makeAll os [] >>= fun _ => fill os p data answer) w = fill os p data answer w := rfl
    rw [Safe, run, WholeOrNothing]
    rcases fill_run os data answer plain with ⟨⟨open_, fits⟩, given⟩ | ⟨stopped, why, given⟩
    · cases cut : os.short p data with
      | none =>
          rw [cut] at given
          obtain ⟨w', run'⟩ := given
          refine iff_of_true (safe_ok run') fun _ _ why n short => ?_
          cases short
      | some some_ =>
          rw [cut] at given
          obtain ⟨w', run', nodes⟩ := given
          refine (safe_error run').trans ⟨fun fine _ _ why n same => ?_, fun was => ⟨trivial, fun other => ?_⟩⟩
          · have kept := fine.2 p
            rw [nodes, if_pos rfl] at kept
            cases same
            exact kept.symm
          · rw [nodes]
            split
            next same => exact same ▸ (was open_ fits _ _ rfl).symm
            next => rfl
    · refine iff_of_true ((safe_error given).mpr (fine_of_caught trivial rfl)) fun open_ fits => ?_
      exact absurd ⟨open_, fits⟩ stopped
  · have clear := plain.of_prefix ladder.above
    rw [makeAll, bind_assoc, WholeOrNothing]
    unfold mkdir
    rcases place_run os (.mkdir first) Option.isNone .dir clear with
      ⟨⟨open_, free, fits⟩, w', run, nodes⟩ | ⟨stopped, why, run⟩
    · have none := Option.isNone_iff_eq_none.mp free
      have apart : w'.tree.node? first ≠ w.tree.node? first := by
        rw [nodes, if_pos rfl, none]
        simp
      rw [safe_bind_ok run, ladder_safe ladder (bare_of_made clear none nodes) (by simp) apart]
      exact ⟨fun all _ _ _ => all, fun all => all open_ none fits⟩
    · rw [safe_bind_error run]
      refine iff_of_true (fine_of_caught trivial rfl) fun open_ none fits => ?_
      exact absurd ⟨open_, by rw [none]; rfl, fits⟩ stopped

theorem caught_missing {root : Path} {frames : Nat} {d : Path} {why : Raised}
    (stopped : missing os tree root frames d = .error why) : why = .recursion ∨ Caught why := by
  induction frames generalizing d with
  | zero =>
      cases stopped
      exact .inl rfl
  | succ frames ih =>
      rw [missing] at stopped
      cases seen : standingAt os tree root d with
      | error why' =>
          rw [seen] at stopped
          cases stopped
          exact .inr (caught_standingAt seen)
      | ok there =>
          rw [seen] at stopped
          cases there with
          | true =>
              dsimp only [bind, Except.bind] at stopped
              rw [if_pos rfl] at stopped
              cases linked : linkAt os tree d with
              | error why' =>
                  rw [linked] at stopped
                  cases stopped
                  exact .inr (caught_answered linked)
              | ok linked_ =>
                  rw [linked] at stopped
                  cases linked_ <;> cases stopped
                  exact .inr trivial
          | false =>
              dsimp only [bind, Except.bind] at stopped
              rw [if_neg (by decide)] at stopped
              cases above : missing os tree root frames d.dropLast with
              | error why' =>
                  rw [above] at stopped
                  cases stopped
                  exact ih above
              | ok dirs =>
                  rw [above] at stopped
                  cases stopped

theorem Leads.spelled {rel : Str} {p : Path} (leads : Leads os box tree rel p) : Spelled os box tree rel := by
  obtain ⟨names, written, -, spelled, -⟩ := leads
  intro names' same _
  rwa [Except.ok.inj (same.symm.trans written)]

theorem Leads.unique {rel : Str} {p q : Path} (leads : Leads os box tree rel p)
    (leads' : Leads os box tree rel q) : p = q := by
  obtain ⟨names, written, -, -, rfl⟩ := leads
  obtain ⟨names', same, -, -, rfl⟩ := leads'
  rw [Except.ok.inj (same.symm.trans written)]

theorem resolve_safe (plain : w.tree.Plain box.root) (rel : Str) {f : Path → Act α} {good : Path → Prop}
    (next : ∀ p, w.tree.Plain p → box.root <+: p → (Safe (Fine w.tree) w (f p) ↔ good p)) :
    Safe (Fine w.tree) w (resolve os box rel >>= f) ↔
      Spelled os box w.tree rel ∧ ∀ p, Leads os box w.tree rel p → good p := by
  rcases resolve_run os plain rel with ⟨p, leads, clear, inside, run⟩ | ⟨why, run, nowhere, caught⟩
  · rw [safe_bind_ok run, next p clear inside]
    exact ⟨fun fine => ⟨leads.spelled, fun q there => leads.unique there ▸ fine⟩, fun all => all.2 p leads⟩
  · rw [safe_bind_error run]
    refine ⟨fun fine => ⟨caught.mp fine.1, fun p leads => absurd leads (nowhere p)⟩, fun all => ?_⟩
    exact fine_of_caught (caught.mpr all.1) rfl

theorem read_file_safe (plain : w.tree.Plain box.root) (path : Str) :
    Safe (Fine w.tree) w (read_file os box path) ↔ Spelled os box w.tree path := by
  refine (resolve_safe plain path fun p _ _ => iff_true_intro ?_).trans (and_iff_left fun _ _ => trivial)
  refine (isFile_looks os w p).safe rfl (fun why => caught_answered) fun there w' _ same => ?_
  split
  next => exact refuse_safe _ same
  next =>
    refine look_safe same fun size w' same => ?_
    split
    next => exact refuse_safe _ same
    next =>
      refine look_safe same fun data w' same => ?_
      split
      next => exact refuse_safe _ same
      next => exact pure_safe _

theorem entry_looks (os : Os) (p : Path) (w : World) (name : Str) :
    ∃ r, Looks w (entry os p name) r ∧ ∀ why, r = .error why → Caught why := by
  obtain ⟨w', run, same⟩ := isDir_looks os w (p ++ [name])
  unfold entry
  cases seen : dirAt os w.tree (p ++ [name]) with
  | error why =>
      rw [seen] at run
      exact ⟨_, ⟨w', run_bind_error run, same⟩, by rintro why ⟨⟩; exact caught_answered seen⟩
  | ok dir =>
      rw [seen] at run
      cases dir with
      | false => exact ⟨_, ⟨w', run_bind_ok run, same⟩, by rintro why ⟨⟩⟩
      | true =>
          have probed := isSymlink_looks os w' (p ++ [name])
          cases linked : linkAt os w'.tree (p ++ [name]) with
          | error why =>
              rw [linked] at probed
              refine ⟨_, ⟨w', (run_bind_ok run).trans (run_bind_error probed), same⟩, ?_⟩
              rintro why ⟨⟩
              exact caught_answered linked
          | ok linked_ =>
              rw [linked] at probed
              exact ⟨_, ⟨w', (run_bind_ok run).trans (run_bind_ok probed), same⟩, by rintro why ⟨⟩⟩

theorem entries_looks (os : Os) (p : Path) (names : List Str) (w : World) :
    ∃ r, Looks w (names.mapM (entry os p)) r ∧ ∀ why, r = .error why → Caught why := by
  induction names generalizing w with
  | nil => exact ⟨_, ⟨w, rfl, rfl⟩, by rintro why ⟨⟩⟩
  | cons name rest ih =>
      rw [List.mapM_cons]
      obtain ⟨r, ⟨w', run, same⟩, caught⟩ := entry_looks os p w name
      cases r with
      | error why => exact ⟨_, ⟨w', run_bind_error run, same⟩, by rintro why ⟨⟩; exact caught _ rfl⟩
      | ok line =>
          obtain ⟨r, ⟨w'', run', same'⟩, caught'⟩ := ih w'
          cases r with
          | error why =>
              refine ⟨_, ⟨w'', (run_bind_ok run).trans (run_bind_error run'), same'.trans same⟩, ?_⟩
              rintro why ⟨⟩
              exact caught' _ rfl
          | ok lines =>
              refine ⟨_, ⟨w'', (run_bind_ok run).trans (run_bind_ok run'), same'.trans same⟩, ?_⟩
              rintro why ⟨⟩

theorem list_dir_safe (plain : w.tree.Plain box.root) (path : Str) :
    Safe (Fine w.tree) w (list_dir os box path) ↔ Spelled os box w.tree path := by
  refine (resolve_safe plain path fun p _ _ => iff_true_intro ?_).trans (and_iff_left fun _ _ => trivial)
  refine (isDir_looks os w p).safe rfl (fun why => caught_answered) fun there w' _ same => ?_
  split
  next => exact refuse_safe _ same
  next =>
    refine look_safe same fun names w' same => ?_
    obtain ⟨r, looks, caught⟩ := entries_looks os p
      (names.filter fun name => name ∉ [text "__pycache__", HIDDEN_DIR]) w'
    exact looks.safe same caught fun lines w'' _ _ => pure_safe _

/-- What a write asks for beyond its path. -/
def Whole (os : Os) (box : Box) (tree : Tree) (path : Str) (data : Bytes) : Prop :=
  ∀ p, Leads os box tree path p → standingAt os tree box.root p = .ok false →
    missing os tree box.root os.frames p.dropLast ≠ .error .recursion ∧
      ∀ dirs, missing os tree box.root os.frames p.dropLast = .ok dirs →
        WholeOrNothing os tree p data dirs

theorem made_safe {p : Path} (clear : w.tree.Plain p) (inside : box.root <+: p) (why answer : Str)
    (data : Bytes) :
    Safe (Fine w.tree) w (do
      let taken ← standing os box p
      if taken then refuse why
      else do
        mkdirs os box os.frames p.dropLast
        fill os p data answer) ↔
      (standingAt os w.tree box.root p = .ok false →
        missing os w.tree box.root os.frames p.dropLast ≠ .error .recursion ∧
          ∀ dirs, missing os w.tree box.root os.frames p.dropLast = .ok dirs →
            WholeOrNothing os w.tree p data dirs) := by
  have looks := standing_looks os box w p
  cases seen : standingAt os w.tree box.root p with
  | error why =>
      rw [seen] at looks
      refine iff_of_true (looks.safe_error (caught_standingAt seen) rfl) fun free => ?_
      cases free
  | ok taken =>
      rw [seen] at looks
      cases taken with
      | true =>
          refine iff_of_true ?_ fun free => ?_
          · refine looks.safe rfl (fun why same => ?_) fun taken w' same kept => ?_
            · cases same
            · cases same
              exact refuse_safe why kept
          · cases free
      | false =>
          rw [forall_prop_of_true rfl]
          refine looks.safe_bind fun w' same => ?_
          rw [if_neg (by decide)]
          obtain ⟨w'', same', run⟩ := mkdirs_run os box os.frames p.dropLast w'
          rw [same] at run same'
          cases found : missing os w.tree box.root os.frames p.dropLast with
          | error why =>
              rw [found] at run
              rw [safe_bind_error run]
              rcases caught_missing found with rfl | caught
              · exact iff_of_false And.left fun all => all.1 rfl
              · refine iff_of_true (fine_of_caught caught same')
                  ⟨fun recursion => ?_, fun dirs same => ?_⟩
                · cases recursion
                  exact caught
                · cases same
          | ok dirs =>
              rw [found] at run
              have whole : (mkdirs os box os.frames p.dropLast >>= fun _ => fill os p data answer) w' =
                  (makeAll os dirs >>= fun _ => fill os p data answer) w'' := run_bind_congr run
              have apart : p ≠ box.root := by
                rintro rfl
                rw [standingAt, if_pos rfl] at seen
                cases seen
              obtain ⟨names, rfl⟩ := inside
              have some_ : names ≠ [] := fun none => apart (by rw [none, List.append_nil])
              have up : (box.root ++ names).dropLast = box.root ++ names.dropLast :=
                List.dropLast_append_of_ne_nil some_
              have whole_ : (box.root ++ names).dropLast ++ [names.getLast some_] = box.root ++ names := by
                rw [up, List.append_assoc, List.dropLast_append_getLast some_]
              have ladder := missing_ladder found (up ▸ List.prefix_append _ _)
              have made := makeAll_safe os data answer (w := w'')
                (same' ▸ clear) (ladder.imp_right fun ⟨first, rest, shape, each⟩ =>
                  ⟨first, rest, shape, whole_ ▸ each (names.getLast some_)⟩)
              rw [same'] at made
              rw [Safe, whole]
              exact made.trans ⟨fun good => ⟨(by intro deep; cases deep), fun dirs' same => Except.ok.inj same ▸ good⟩,
                fun all => all.2 dirs rfl⟩

theorem write_file_safe (plain : w.tree.Plain box.root) (path content : Str) :
    Safe (Fine w.tree) w (write_file os box path content) ↔ ∃ data, Str.encode content = some data ∧
      (data.length ≤ WRITE_CAP → Spelled os box w.tree path ∧ Whole os box w.tree path data) := by
  unfold write_file
  cases encoded : Str.encode content with
  | none => exact iff_of_false (fun safe => ((safe_error rfl).mp safe).1) (by simp)
  | some data =>
      dsimp only
      by_cases long : WRITE_CAP < data.length
      · rw [if_pos long]
        refine iff_of_true (refuse_safe _ rfl) ⟨data, rfl, fun short => absurd long (Nat.not_lt.mpr short)⟩
      · rw [if_neg long]
        refine (resolve_safe plain path fun p clear inside => ?_).trans
          ⟨fun all => ⟨data, rfl, fun _ => all⟩, ?_⟩
        · exact made_safe clear inside _ _ data
        · rintro ⟨data', same, all⟩
          cases same
          exact all (Nat.not_lt.mp long)

theorem mem_of_mem_split {separator : CodePoint → Bool} {s part : Str} {c : CodePoint}
    (listed : part ∈ Str.split separator s) (member : c ∈ part) : c ∈ s := by
  induction s generalizing part with
  | nil =>
      obtain rfl := List.mem_singleton.mp listed
      cases member
  | cons first rest ih =>
      rw [Str.split] at listed
      split at listed
      next =>
        rcases List.mem_cons.mp listed with rfl | later
        · cases member
        · exact List.mem_cons_of_mem _ (ih later member)
      next =>
        cases shape : Str.split separator rest with
        | nil =>
            rw [shape] at listed
            obtain rfl := List.mem_singleton.mp listed
            exact List.mem_singleton.mp member ▸ List.mem_cons_self
        | cons head parts =>
            rw [shape] at listed ih
            rcases List.mem_cons.mp listed with rfl | later
            · rcases List.mem_cons.mp member with rfl | inside
              · exact List.mem_cons_self
              · exact List.mem_cons_of_mem _ (ih List.mem_cons_self inside)
            · exact List.mem_cons_of_mem _ (ih (List.mem_cons_of_mem _ later) member)

theorem mem_split_of_mem (separator : CodePoint → Bool) {s : Str} {c : CodePoint} (member : c ∈ s) :
    separator c = true ∨ ∃ part ∈ Str.split separator s, c ∈ part := by
  induction s with
  | nil => cases member
  | cons first rest ih =>
      rw [Str.split]
      by_cases cut : separator first = true
      · rw [if_pos cut]
        rcases List.mem_cons.mp member with rfl | later
        · exact .inl cut
        · exact (ih later).imp_right fun ⟨part, listed, inside⟩ => ⟨part, List.mem_cons_of_mem _ listed, inside⟩
      · rw [if_neg cut]
        rcases List.mem_cons.mp member with rfl | later
        · refine .inr ?_
          cases Str.split separator rest with
          | nil => exact ⟨_, List.mem_cons_self, List.mem_cons_self⟩
          | cons head parts => exact ⟨_, List.mem_cons_self, List.mem_cons_self⟩
        · refine (ih later).imp_right ?_
          rintro ⟨part, listed, inside⟩
          cases shape : Str.split separator rest with
          | nil =>
              rw [shape] at listed
              cases listed
          | cons head parts =>
              rw [shape] at listed
              rcases List.mem_cons.mp listed with rfl | further
              · exact ⟨_, List.mem_cons_self, List.mem_cons_of_mem _ inside⟩
              · exact ⟨part, List.mem_cons_of_mem _ further, inside⟩

/-- A name of a path is written in it. -/
theorem mem_of_mem_parts {rel : Str} {names : List Str} (written : parts rel = .ok names) {part : Str}
    (listed : part ∈ names) {c : CodePoint} (member : c ∈ part) : c ∈ rel := by
  unfold parts at written
  split at written
  next => cases written
  next =>
    split at written
    next => cases written
    next =>
      dsimp only at written
      split at written
      next => cases written
      next =>
        cases written
        exact mem_of_mem_split (List.mem_filter.mp listed).1 member

theorem word_plain {c : CodePoint} (inside : word c = true) : c.isSurrogate = false := by
  simp only [word, CodePoint.isDigit, Bool.or_eq_true, Bool.and_eq_true, decide_eq_true_eq] at inside
  have below : c.val < 0xD800 := by
    rcases inside with ((digit | upper) | lower) | rfl
    · omega
    · omega
    · omega
    · decide
  simp only [CodePoint.isSurrogate, Bool.and_eq_false_iff, decide_eq_false_iff_not]
  omega

/-- The name of a test file has no half of a pair in it. -/
theorem plain_of_testFile {path : Str} (test : testFile path = true) :
    ∀ c ∈ path, c.isSurrogate = false := by
  unfold testFile at test
  dsimp only at test
  generalize cut : (if path.getLast? = some (point '\n') then path.dropLast else path) = body at test
  simp only [Bool.and_eq_true, List.isPrefixOf_iff_prefix, List.isSuffixOf_iff_suffix, List.all_eq_true,
    decide_eq_true_eq] at test
  obtain ⟨⟨front, back⟩, words⟩ := test
  have constant : (text "tests/" ++ text ".py").all (fun c => !c.isSurrogate) = true := by decide
  have plain : ∀ c, c ∈ text "tests/" ++ text ".py" → c.isSurrogate = false := fun c member => by
    simpa using List.all_eq_true.mp constant c member
  have inside : ∀ c ∈ body, c.isSurrogate = false := by
    intro c member
    rw [← List.take_append_drop 6 body] at member
    rcases List.mem_append.mp member with first | later
    · have head : body.take 6 = text "tests/" := (List.prefix_iff_eq_take.mp front).symm
      exact plain c (List.mem_append_left _ (head ▸ first))
    · rw [← List.take_append_drop (body.length - 9) (body.drop 6), List.drop_drop] at later
      rcases List.mem_append.mp later with middle | last
      · rcases mem_split_of_mem (· = point '/') middle with slash | ⟨part, listed, here⟩
        · obtain rfl := of_decide_eq_true slash
          decide
        · exact word_plain ((words part listed).2 c here)
      · have tail : body.drop (body.length - 3) = text ".py" := (List.suffix_iff_eq_drop.mp back).symm
        obtain ⟨more, shape⟩ : ∃ more, 6 + (body.length - 9) = body.length - 3 + more :=
          ⟨6 + (body.length - 9) - (body.length - 3), by omega⟩
        rw [shape, ← List.drop_drop, tail] at last
        exact plain c (List.mem_append_right _ (List.mem_of_mem_drop last))
  intro c member
  rw [← cut] at inside
  split at inside
  next ended =>
    rw [← List.dropLast_append_getLast? _ ended] at member
    rcases List.mem_append.mp member with before | last
    · exact inside c before
    · obtain rfl := List.mem_singleton.mp last
      decide
  next => exact inside c member

theorem spelled_of_testFile {path : Str} (test : testFile path = true) : Spelled os box tree path := by
  intro names written _ part listed
  have tidied : ∀ c ∈ tidy path, c.isSurrogate = false := by
    intro c member
    unfold tidy at member
    split at member
    next =>
      obtain rfl := List.mem_singleton.mp member
      decide
    next =>
      have stripped : (Str.strip path).Sublist path :=
        (List.rdropWhile_prefix _ _).sublist.trans (List.dropWhile_sublist _)
      exact plain_of_testFile test c (stripped.subset member)
  rw [Str.isName, List.all_eq_true]
  intro c member
  rw [tidied c (mem_of_mem_parts written listed member)]
  rfl

theorem execute_safe (args : List Str) : Safe (Fine w.tree) w (report <$> execute os box args) := by
  have mapped : (report <$> execute os box args) = execute os box args >>= fun ran => pure (report ran) := rfl
  rw [mapped]
  cases run : execute os box args w with
  | mk result w' =>
      cases result with
      | ok ran => exact (safe_bind_ok run).mpr (pure_safe _)
      | error why =>
          rw [safe_bind_error run]
          unfold execute at run
          split at run
          next =>
            cases run
            exact fine_of_caught trivial rfl
          next => cases run
          next => cases run

theorem run_tests_safe (plain : w.tree.Plain box.root) (path : Option Str) :
    Safe (Fine w.tree) w (run_tests os box path) := by
  unfold run_tests
  split
  next => exact execute_safe _
  next path =>
    split
    next => exact execute_safe _
    next =>
      split
      next => exact refuse_safe _ rfl
      next test =>
        refine (resolve_safe plain path fun p _ _ => iff_true_intro ?_).mpr
          ⟨spelled_of_testFile (by simpa using test), fun _ _ => trivial⟩
        refine (isFile_looks os w p).safe rfl (fun why => caught_answered) fun there w' _ same => ?_
        split
        next => exact refuse_safe _ same
        next => exact same ▸ execute_safe _

/-! ## A call -/

theorem text_append_ne_nil {s : String} (some_ : s ≠ "") (rest : Str) : text s ++ rest ≠ [] := by
  intro none
  have short := (List.append_eq_nil_iff.mp none).1
  rw [text, List.map_eq_nil_iff, String.toList_eq_nil_iff] at short
  exact some_ short

/-- Arguments without a problem are strings, and the required ones are there. -/
theorem schema_fits {printable : CodePoint → Bool} {tool : Tool} {args : Ordered Str Json}
    (fits : schema_problem printable tool args = []) :
    (∀ key ∈ tool.required, key ∈ args.keys) ∧ ∀ item ∈ args.items, ∃ s, item.2 = .string s := by
  unfold schema_problem at fits
  split at fits
  next => exact absurd fits (text_append_ne_nil (by decide) _)
  next there =>
    refine ⟨fun key due => by simpa using List.find?_eq_none.mp there key due, fun item listed => ?_⟩
    obtain ⟨key, value⟩ := item
    cases found : args.items.findSome? _ with
    | some problem =>
        rw [found] at fits
        cases fits
        obtain ⟨item, -, empty⟩ := List.exists_of_findSome?_eq_some found
        split at empty
        next =>
          have none := Option.some.inj empty
          exact absurd none (text_append_ne_nil (by decide) _)
        next =>
          split at empty
          next => cases empty
          next =>
            have none := Option.some.inj empty
            rw [List.append_assoc] at none
            exact absurd none (text_append_ne_nil (by decide) _)
    | none =>
        have fine := List.findSome?_eq_none_iff.mp found _ listed
        dsimp only at fine
        split at fine
        next => cases fine
        next =>
          cases value with
          | string s => exact ⟨s, rfl⟩
          | _ => cases fine

theorem argument_of_fits {printable : CodePoint → Bool} {tool : Tool} {args : Ordered Str Json}
    (fits : schema_problem printable tool args = []) (name : String) (due : text name ∈ tool.required) :
    ∃ s, argument args name = some s := by
  obtain ⟨there, strings⟩ := schema_fits fits
  obtain ⟨value, held⟩ := Ordered.mem_keys.mp (there _ due)
  obtain ⟨s, rfl⟩ := strings _ (Ordered.get?_eq_some.mp held)
  exact ⟨s, by rw [argument, held]⟩

/-- Arguments without a problem can be bound. -/
theorem request_of_fits {printable : CodePoint → Bool} {tool : Tool} {args : Ordered Str Json}
    (fits : schema_problem printable tool args = []) : ∃ request, tool.request args = some request := by
  cases tool with
  | read_file =>
      obtain ⟨path, held⟩ := argument_of_fits fits "path" List.mem_cons_self
      exact ⟨_, by rw [Tool.request, held]; rfl⟩
  | write_file =>
      obtain ⟨path, held⟩ := argument_of_fits fits "path" List.mem_cons_self
      obtain ⟨content, held'⟩ := argument_of_fits fits "content"
        (List.mem_cons_of_mem _ List.mem_cons_self)
      exact ⟨_, by rw [Tool.request, held, held']⟩
  | list_dir => exact ⟨_, rfl⟩
  | run_tests => exact ⟨_, rfl⟩

/-- A tool that would raise nothing, and would leave the files alone with an error. -/
def Request.Fair (os : Os) (box : Box) (tree : Tree) : Request → Prop
  | .read_file path | .list_dir path => Spelled os box tree path
  | .write_file path content => ∃ data, Str.encode content = some data ∧
      (data.length ≤ WRITE_CAP → Spelled os box tree path ∧ Whole os box tree path data)
  | .run_tests _ => True

theorem request_safe (plain : w.tree.Plain box.root) (request : Request) :
    Safe (Fine w.tree) w (request.run os box) ↔ request.Fair os box w.tree := by
  cases request with
  | read_file path => exact read_file_safe plain path
  | write_file path content => exact write_file_safe plain path content
  | list_dir path => exact list_dir_safe plain path
  | run_tests path => exact iff_of_true (run_tests_safe plain path) trivial

/-- A call that gives back a text, and has changed no file where it is that of an error. -/
def Answers (os : Os) (box : Box) (w : World) (name arguments : Str) : Prop :=
  ∃ got result w', call os box name arguments w = (.ok (got, result), w') ∧
    (got.ok = false → Unchanged w.tree w')

/-- What a call comes to: a tool with its arguments. -/
def Asked (os : Os) (box : Box) (name arguments : Str) (request : Request) : Prop :=
  ∃ tool value args, (box.tools.find? fun tool => tool.name = name) = some tool ∧
    JsonText.loads os.room arguments = .ok value ∧ bindings value = some args ∧
    schema_problem os.printable tool args = [] ∧ tool.request args = some request

theorem perform_answers {got : Call} (fresh : got.ok = false) (request : Request) :
    (∃ got' result w', perform os box got (some request) w = (.ok (got', result), w') ∧
      (got'.ok = false → Unchanged w.tree w')) ↔ Safe (Fine w.tree) w (request.run os box) := by
  have caught : ∀ why w', (∃ got' result w'', failed got why w' = (.ok (got', result), w'') ∧
      (got'.ok = false → Unchanged w.tree w'')) ↔ Unchanged w.tree w' := by
    intro why w'
    refine ⟨?_, fun kept => ⟨_, _, _, rfl, fun _ => kept⟩⟩
    rintro ⟨_, _, _, same, kept⟩
    cases same
    exact kept fresh
  unfold perform
  dsimp only
  cases run : request.run os box w with
  | mk result w' =>
      cases result with
      | ok result => exact iff_of_true ⟨_, _, _, rfl, nofun⟩ (safe_ok run)
      | error why =>
          rw [safe_error run]
          cases why with
          | refused why => exact (caught why w').trans (and_iff_right trivial).symm
          | osError why => exact (caught why w').trans (and_iff_right trivial).symm
          | unicodeEncode => exact iff_of_false (by rintro ⟨_, _, _, same, -⟩; cases same) And.left
          | recursion => exact iff_of_false (by rintro ⟨_, _, _, same, -⟩; cases same) And.left
          | typeError => exact iff_of_false (by rintro ⟨_, _, _, same, -⟩; cases same) And.left

/-- A call gives back a text, and changes no file where it is that of an error, exactly where its arguments
    do not nest too deep and the tool they ask for is fair. -/
theorem answers_iff (os : Os) (box : Box) (w : World) (plain : w.tree.Plain box.root) (name arguments : Str) :
    Answers os box w name arguments ↔
      (∀ tool, (box.tools.find? fun tool => tool.name = name) = some tool →
        JsonText.loads os.room arguments ≠ .error .tooDeep) ∧
      ∀ request, Asked os box name arguments request → request.Fair os box w.tree := by
  have failing : ∀ {got : Call} {why : Str}, got.ok = false → ∃ got' result w',
      failed got why w = (.ok (got', result), w') ∧ (got'.ok = false → Unchanged w.tree w') :=
    fun _ => ⟨_, _, _, rfl, fun _ _ => rfl⟩
  unfold Answers Asked call
  dsimp only
  cases known : box.tools.find? fun tool => tool.name = name with
  | none => exact iff_of_true (failing rfl) ⟨nofun, by rintro request ⟨tool, value, args, same, -⟩; cases same⟩
  | some tool =>
      dsimp only
      cases decoded : JsonText.loads os.room arguments with
      | error refusal =>
          cases refusal with
          | tooDeep =>
              refine iff_of_false ?_ fun fair => fair.1 tool rfl rfl
              rintro ⟨_, _, _, same, -⟩
              cases same
          | notJson =>
              refine iff_of_true (failing rfl) ⟨nofun, ?_⟩
              rintro request ⟨tool, value, args, -, same, -⟩
              cases same
      | ok value =>
          dsimp only
          cases bound : bindings value with
          | none =>
              refine iff_of_true (failing rfl) ⟨nofun, ?_⟩
              rintro request ⟨tool, value', args, -, same, none, -⟩
              cases same
              rw [bound] at none
              cases none
          | some args =>
              dsimp only
              by_cases fits : schema_problem os.printable tool args = []
              · obtain ⟨request, asked⟩ := request_of_fits fits
                rw [if_neg (not_not.mpr fits), asked, perform_answers rfl request, request_safe plain]
                refine ⟨fun fair => ⟨nofun, ?_⟩, fun all => all.2 request
                  ⟨tool, value, args, rfl, rfl, bound, fits, asked⟩⟩
                rintro request' ⟨tool', value', args', same, same', bound', -, asked'⟩
                cases same
                cases same'
                rw [bound] at bound'
                cases bound'
                rw [asked] at asked'
                cases asked'
                exact fair
              · rw [if_pos fits]
                refine iff_of_true (failing rfl) ⟨nofun, ?_⟩
                rintro request ⟨tool', value', args', same, same', bound', fits', -⟩
                cases same
                cases same'
                rw [bound] at bound'
                cases bound'
                exact absurd fits' fits

/-- A system that takes names of up to 255 bytes. -/
def posix : Os where
  fault
    | .create path => if 255 < ((path.getLast?.getD []).flatMap CodePoint.utf8).length then
        some (text "OSError: [Errno 36] File name too long") else none
    | _ => none
  short _ _ := none
  explain _ := text "FileNotFoundError"
  child tree _ := .done 0 [] tree
  room := 900
  frames := 900
  printable _ := true
  notJson _ := text "Expecting value: line 1 column 1 (char 0)"

def repo : Box where
  root := [text "repo"]
  tools := [.read_file, .write_file, .list_dir, .run_tests]
  timeout := text "60"
  named := by decide

def checkout : World where
  tree :=
    { entries := [([text "repo"], .dir), ([text "repo", text "mod.py"], .file (Str.encode (text "X = 1\n")).get!)]
      once := by decide
      rooted := by decide
      parented := by decide }

theorem checkout_plain : checkout.tree.Plain repo.root := by
  intro above up
  have short : above = [] ∨ above = [text "repo"] := by
    simpa [List.prefix_cons_iff, repo] using up
  rcases short with rfl | rfl
  · decide
  · decide

def readCall : Str := text "\x7b\"path\": \"mod.py\"\x7d"

def writeCall : Str := text "\x7b\"path\": \"a.txt\", \"content\": \"\\ud800\"\x7d"

def longCall : Str :=
  text "\x7b\"path\": \"new/" ++ List.replicate 300 (point 'x') ++ text "\", \"content\": \"\"\x7d"

theorem mod_read : Answers posix repo checkout (text "read_file") readCall := by
  refine (answers_iff posix repo checkout checkout_plain _ _).mpr ⟨fun tool _ deep => ?_, ?_⟩
  · have fine : (JsonText.loads posix.room readCall).isOk = true := by decide
    rw [deep] at fine
    cases fine
  · rintro request ⟨tool, value, args, known, decoded, bound, -, asked⟩
    have tool_ : (repo.tools.find? fun tool => tool.name = text "read_file") = some .read_file := by
      decide
    have path : ((JsonText.loads posix.room readCall).toOption.bind bindings).map
        (argument · "path") = some (some (text "mod.py")) := by
      decide
    obtain rfl := Option.some.inj (known.symm.trans tool_)
    have here : argument args "path" = some (text "mod.py") := by
      rw [decoded] at path
      simpa [Except.toOption, bound] using path
    rw [Tool.request, here] at asked
    obtain rfl := (Option.some.inj asked).symm
    have written : (parts (tidy (text "mod.py"))).toOption = some [text "mod.py"] := by decide
    intro names same _
    rw [same] at written
    obtain rfl : names = [text "mod.py"] := Option.some.inj written
    decide

/-- Half of a pair is no text to write, and a directory is left where a name turns out too long. -/
theorem errors_escape :
    (call posix repo (text "write_file") writeCall checkout).1.isOk = false ∧
      ¬ Answers posix repo checkout (text "write_file") writeCall ∧
      ¬ Answers posix repo checkout (text "write_file") longCall := by
  have raised : (call posix repo (text "write_file") writeCall checkout).1.isOk = false := by decide
  have left : (match call posix repo (text "write_file") longCall checkout with
      | (.ok (got, _), w) => (got.ok, w.tree.node? [text "repo", text "new"])
      | (.error _, _) => (true, none)) = (false, some .dir) := by decide +kernel
  have before : checkout.tree.node? [text "repo", text "new"] = none := by decide
  refine ⟨raised, ?_, ?_⟩
  · rintro ⟨got, result, w', run, -⟩
    rw [run] at raised
    cases raised
  · rintro ⟨got, result, w', run, kept⟩
    rw [run] at left
    have there := kept (Prod.mk.inj left).1 [text "repo", text "new"]
    rw [(Prod.mk.inj left).2, before] at there
    cases there

end LocalHarness.Evals.Sandbox
