import LocalHarness.Library.Fallible
import LocalHarness.Migrations.Joined

/-! # The rows of one machine are folded

Each machine's rows are folded into the oldest, which then has the machine's fingerprint. A row that
`machine_merges` says an earlier row was folded into cannot be deleted, and a fingerprint cannot be stored
while a row of a machine still to come has it. Where neither happens, and the OS that was named last goes
with the fingerprint, one run leaves one row for each machine and a second run finds nothing to do.
-/

namespace LocalHarness.Migrations.Machines

open LocalHarness.Library

/-! ## One row -/

/-- Some rows were folded into one that is kept. -/
structure Folds (keep : Row) (gone : List Row) (start out : Folded) : Prop where
  rows : out.store.machines.rows = start.store.machines.rows.filter fun row => row.1 ∉ gone.map Prod.fst
  refs : out.store.refs = start.store.refs.map fun table =>
    (table.1, table.2.map (Option.map fun id => if id ∈ gone.map Prod.fst then keep.1 else id))
  merges : ∃ new, out.store.merges = start.store.merges ++ new ∧ ∀ merge ∈ new, merge.intoId = keep.1

variable {now : ℚ} {keep row : Row} {rest : List Row} {start middle out : Folded} {fp : String}

theorem Folds.nil (keep : Row) (start : Folded) : Folds keep [] start start where
  rows := (List.filter_eq_self.mpr fun _ _ => decide_eq_true List.not_mem_nil).symm
  refs := by
    conv_lhs => rw [← List.map_id start.store.refs]
    refine List.map_congr_left fun table _ => Prod.ext rfl ?_
    conv_lhs => rw [id, ← List.map_id table.2]
    refine List.map_congr_left fun id _ => ?_
    cases id <;> rfl
  merges := ⟨[], (List.append_nil _).symm, List.forall_mem_nil _⟩

theorem Folds.cons (first : Folds keep [row] start middle) (others : Folds keep rest middle out) :
    Folds keep (row :: rest) start out where
  rows := by
    rw [others.rows, first.rows, List.filter_filter]
    refine List.filter_congr fun other _ => Bool.eq_iff_iff.mpr ?_
    simp only [Bool.and_eq_true, decide_eq_true_eq, List.map_cons, List.map_nil, List.mem_cons,
      List.not_mem_nil, or_false, not_or]
    exact and_comm
  refs := by
    rw [others.refs, first.refs, List.map_map]
    refine List.map_congr_left fun table _ => Prod.ext rfl ?_
    rw [Function.comp_apply, List.map_map]
    refine List.map_congr_left fun id _ => ?_
    cases id with
    | none => rfl
    | some id =>
        refine congrArg some ?_
        simp only [List.map_cons, List.map_nil, List.mem_cons, List.not_mem_nil, or_false]
        by_cases here : id = row.1
        · rw [if_pos here, ite_self, if_pos (.inl here)]
        · rw [if_neg here]
          exact if_congr (or_iff_right here).symm rfl rfl
  merges := by
    obtain ⟨new, begins, into⟩ := first.merges
    obtain ⟨more, goes, into'⟩ := others.merges
    refine ⟨new ++ more, by rw [goes, begins, List.append_assoc], fun merge member => ?_⟩
    rcases List.mem_append.mp member with member | member
    · exact into merge member
    · exact into' merge member

/-- A row that is deleted is referred to only where a row was folded into it before. -/
theorem refers_merge (s : Store) (now : ℚ) (apart : row.1 ≠ keep.1) :
    (s.merge now row keep).Refers row.1 ↔ ∃ merge ∈ s.merges, merge.intoId = row.1 := by
  constructor
  · rintro (⟨table, member, refers⟩ | ⟨merge, member, into⟩)
    · obtain ⟨old, -, rfl⟩ := List.mem_map.mp member
      obtain ⟨id, -, same⟩ := List.mem_map.mp refers
      split at same
      next => exact absurd (Option.some.inj same).symm apart
      next other => exact absurd same other
    · rcases List.mem_append.mp member with member | member
      · exact ⟨merge, member, into⟩
      · rw [List.mem_singleton.mp member] at into
        exact absurd into.symm apart
  · rintro ⟨merge, member, into⟩
    exact .inr ⟨merge, List.mem_append_left _ member, into⟩

theorem foldRow_ok (apart : row.1 ≠ keep.1) (ok : foldRow now keep start row = .ok out) :
    (∀ merge ∈ start.store.merges, merge.intoId ≠ row.1) ∧ Folds keep [row] start out := by
  obtain ⟨store, removed, rfl⟩ := map_ok ok
  rw [Store.remove] at removed
  split at removed
  next => cases removed
  next free =>
    obtain rfl := Except.ok.inj removed
    rw [refers_merge _ _ apart] at free
    refine ⟨fun merge member into => free ⟨merge, member, into⟩, ?_, ?_, ?_⟩
    · refine List.filter_congr fun other _ => Bool.eq_iff_iff.mpr ?_
      simp only [bne_iff_ne, decide_eq_true_eq, List.map_cons, List.map_nil, List.mem_singleton]
    · refine List.map_congr_left fun table _ => Prod.ext rfl (List.map_congr_left fun id _ => ?_)
      cases id with
      | none => rfl
      | some id => by_cases here : id = row.1 <;> simp [here]
    · exact ⟨_, rfl, fun merge member => congrArg Merge.intoId (List.mem_singleton.mp member)⟩

theorem foldRow_total (now : ℚ) (apart : row.1 ≠ keep.1)
    (free : ∀ merge ∈ start.store.merges, merge.intoId ≠ row.1) :
    ∃ out, foldRow now keep start row = .ok out := by
  have unreferred : ¬(start.store.merge now row keep).Refers row.1 := by
    rw [refers_merge _ _ apart]
    exact fun ⟨merge, member, into⟩ => free merge member into
  rw [foldRow, Store.remove, if_neg unreferred]
  exact ⟨_, rfl⟩

/-! ## The rows of one machine -/

theorem foldRows_ok (apart : ∀ row ∈ rest, row.1 ≠ keep.1)
    (ok : rest.foldlM (foldRow now keep) start = .ok out) :
    (∀ row ∈ rest, ∀ merge ∈ start.store.merges, merge.intoId ≠ row.1) ∧ Folds keep rest start out := by
  induction rest generalizing start with
  | nil =>
      obtain rfl := pure_ok ok
      exact ⟨List.forall_mem_nil _, .nil keep _⟩
  | cons row rest ih =>
      obtain ⟨first, later⟩ := List.forall_mem_cons.mp apart
      obtain ⟨middle, one, others⟩ := foldlM_cons_ok.mp ok
      obtain ⟨free, folded⟩ := foldRow_ok first one
      obtain ⟨frees, foldeds⟩ := ih later others
      obtain ⟨new, goes, -⟩ := folded.merges
      refine ⟨List.forall_mem_cons.mpr ⟨free, fun row member merge old => ?_⟩, folded.cons foldeds⟩
      exact frees row member merge (goes ▸ List.mem_append_left _ old)

theorem foldRows_total (now : ℚ) (apart : ∀ row ∈ rest, row.1 ≠ keep.1)
    (free : ∀ row ∈ rest, ∀ merge ∈ start.store.merges, merge.intoId ≠ row.1) :
    ∃ out, rest.foldlM (foldRow now keep) start = .ok out := by
  induction rest generalizing start with
  | nil => exact ⟨start, rfl⟩
  | cons row rest ih =>
      obtain ⟨first, later⟩ := List.forall_mem_cons.mp apart
      obtain ⟨here, there⟩ := List.forall_mem_cons.mp free
      obtain ⟨middle, one⟩ := foldRow_total now first here
      obtain ⟨new, goes, into⟩ := (foldRow_ok first one).2.merges
      have frees : ∀ row ∈ rest, ∀ merge ∈ middle.store.merges, merge.intoId ≠ row.1 := by
        intro row member merge inside
        rcases List.mem_append.mp (goes ▸ inside) with old | made
        · exact there row member merge old
        · rw [into merge made]
          exact (later row member).symm
      obtain ⟨out, others⟩ := ih later frees
      exact ⟨out, foldlM_cons_ok.mpr ⟨middle, one, others⟩⟩

/-- What the row that is kept says in the end, whether it was written or not. -/
def settledOf (fp : String) (keep : Row) (rest : List Row) : Machine :=
  if keep.2.fingerprint ≠ fp ∨ rest ≠ [] then settled fp keep rest else keep.2

theorem settledOf_fingerprint (fp : String) (keep : Row) (rest : List Row) :
    (settledOf fp keep rest).fingerprint = fp := by
  rw [settledOf]
  split
  next => rfl
  next same => exact not_not.mp fun other => same (.inl other)

theorem latest_self {α : Type} [DecidableEq α] (blank : α) (column : Machine → α) (keep : Row) :
    latest blank column [keep] = column keep.2 := by
  rw [latest, recent, List.insertionSort_cons, List.insertionSort_nil, List.orderedInsert_nil, List.map_cons,
    List.map_nil, List.find?_singleton]
  split
  next => rfl
  next none =>
    have blank : column keep.2 = blank := by simpa using none
    exact blank.symm

/-- The identity is of the board that was kept and of the OS that was named last. -/
theorem settledOf_identity (fp : String) (keep : Row) (rest : List Row) :
    (settledOf fp keep rest).identity =
      { keep.2 with fingerprint := fp, os := latest "" Machine.os (keep :: rest) : Machine }.identity := by
  rw [settledOf]
  split
  next => rfl
  next same =>
    obtain ⟨fits, alone⟩ := not_or.mp same
    rw [not_not] at fits alone
    rw [alone, latest_self, ← fits]

theorem settledOf_board (fp : String) (keep : Row) (rest : List Row) :
    (settledOf fp keep rest).hwModel = keep.2.hwModel ∧ (settledOf fp keep rest).arch = keep.2.arch := by
  rw [settledOf]
  split
  · exact ⟨rfl, rfl⟩
  · exact ⟨rfl, rfl⟩

/-- The other rows of a machine were folded into its oldest, which has its fingerprint. -/
structure Settles (fp : String) (keep : Row) (rest : List Row) (start out : Folded) : Prop where
  rows : ∀ row, row ∈ out.store.machines.rows ↔ row = (keep.1, settledOf fp keep rest) ∨
    row.1 ≠ keep.1 ∧ row ∈ start.store.machines.rows ∧ row.1 ∉ rest.map Prod.fst
  refs : out.store.refs = start.store.refs.map fun table =>
    (table.1, table.2.map (Option.map fun id => if id ∈ rest.map Prod.fst then keep.1 else id))
  merges : ∃ new, out.store.merges = start.store.merges ++ new ∧ ∀ merge ∈ new, merge.intoId = keep.1

/-- No row that goes was one that another was folded into, and no row that stays has the fingerprint. -/
structure Foldable (fp : String) (keep : Row) (rest : List Row) (start : Store) : Prop where
  unmerged : ∀ row ∈ rest, ∀ merge ∈ start.merges, merge.intoId ≠ row.1
  free : ∀ row ∈ start.machines.rows,
    row.1 ≠ keep.1 → row.1 ∉ rest.map Prod.fst → row.2.fingerprint ≠ fp

theorem Folds.free (folds : Folds keep rest start middle) : middle.store.Free keep.1 fp ↔
    ∀ row ∈ start.store.machines.rows,
      row.1 ≠ keep.1 → row.1 ∉ rest.map Prod.fst → row.2.fingerprint ≠ fp := by
  rw [Store.Free, folds.rows]
  constructor
  · intro free row member other stays
    exact free row (List.mem_filter.mpr ⟨member, decide_eq_true stays⟩) other
  · intro free row member other
    obtain ⟨member, stays⟩ := List.mem_filter.mp member
    exact free row member other (of_decide_eq_true stays)

theorem foldGroup_total (now : ℚ) (apart : ∀ row ∈ rest, row.1 ≠ keep.1)
    (foldable : Foldable fp keep rest start.store) :
    ∃ out, foldGroup now start (fp, keep :: rest) = .ok out := by
  obtain ⟨middle, folded⟩ := foldRows_total now apart foldable.unmerged
  have folds := (foldRows_ok apart folded).2
  have free : middle.store.Free keep.1 (settled fp keep rest).fingerprint := folds.free.mpr foldable.free
  rw [foldGroup]
  simp only [folded, bind, Except.bind]
  split
  · rw [Store.put, dif_pos free]
    exact ⟨_, rfl⟩
  · exact ⟨middle, rfl⟩

theorem foldGroup_ok (apart : ∀ row ∈ rest, row.1 ≠ keep.1) (present : keep ∈ start.store.machines.rows)
    (ok : foldGroup now start (fp, keep :: rest) = .ok out) :
    Foldable fp keep rest start.store ∧ Settles fp keep rest start out := by
  obtain ⟨middle, folded, wrote⟩ := bind_ok ok
  obtain ⟨unmerged, folds⟩ := foldRows_ok apart folded
  have stays : keep.1 ∉ rest.map Prod.fst := by
    intro member
    obtain ⟨row, inside, same⟩ := List.mem_map.mp member
    exact apart row inside same
  have left : ∀ row, row ∈ middle.store.machines.rows ↔
      row ∈ start.store.machines.rows ∧ row.1 ∉ rest.map Prod.fst := by
    intro row
    rw [folds.rows, List.mem_filter, decide_eq_true_eq]
  have only : ∀ row ∈ start.store.machines.rows, row.1 = keep.1 → row = keep := fun row member same =>
    List.inj_on_of_nodup_map start.store.machines.nodup member present same
  split at wrote
  next write =>
    obtain ⟨store, put, rfl⟩ := map_ok wrote
    rw [Store.put] at put
    split at put
    next free =>
      obtain rfl := Except.ok.inj put
      refine ⟨⟨unmerged, folds.free.mp free⟩, fun row => ?_, folds.refs, folds.merges⟩
      rw [settledOf, if_pos write]
      refine Table.mem_rows_update.trans ?_
      constructor
      · rintro ⟨old, member, rfl⟩
        obtain ⟨member, kept⟩ := (left old).mp member
        split
        next here => exact .inl (Prod.ext here rfl)
        next other => exact .inr ⟨other, member, kept⟩
      · rintro (rfl | ⟨other, member, kept⟩)
        · exact ⟨keep, (left keep).mpr ⟨present, stays⟩, if_pos rfl⟩
        · exact ⟨row, (left row).mpr ⟨member, kept⟩, if_neg other⟩
    next => cases put
  next same =>
    obtain rfl := pure_ok wrote
    obtain ⟨fits, alone⟩ := not_or.mp same
    rw [not_not] at fits alone
    refine ⟨⟨unmerged, fun row member other _ named => ?_⟩, fun row => ?_, folds.refs, folds.merges⟩
    · have one := List.inj_on_of_nodup_map start.store.unique member present (named.trans fits.symm)
      exact other (congrArg Prod.fst one)
    · rw [settledOf, if_neg same, left]
      constructor
      · rintro ⟨member, kept⟩
        by_cases here : row.1 = keep.1
        · exact .inl (only row member here)
        · exact .inr ⟨here, member, kept⟩
      · rintro (rfl | ⟨-, member, kept⟩)
        · exact ⟨present, stays⟩
        · exact ⟨member, kept⟩

/-! ## A whole run -/

/-- The machine of the row with an id. -/
def machineAt (s : Store) (id : Nat) : Option String :=
  (s.machines.find? id).map fun m => machine s.machines.rows (id, m)

/-- The row that a row's machine is folded into, its oldest. -/
def foldedInto (s : Store) (id : Nat) : Nat :=
  ((machineAt s id).bind fun fp => (members s.machines.rows fp).head?).elim id Prod.fst

/-- Where an id goes once some machines were folded. -/
def foldedAfter (s : Store) (done : List String) (id : Nat) : Nat :=
  if (machineAt s id).any (· ∈ done) then foldedInto s id else id

section

variable {s : Store} {done todo : List String} {id : Nat} {keep' : Row} {rest' : List Row} {fp' : String}

theorem machineAt_of_mem (member : row ∈ s.machines.rows) :
    machineAt s row.1 = some (machine s.machines.rows row) := by
  rw [machineAt, Table.find?_eq_some.mpr member, Option.map_some]

theorem machineAt_mem (at_ : machineAt s id = some fp) :
    ∃ row ∈ s.machines.rows, row.1 = id ∧ machine s.machines.rows row = fp := by
  obtain ⟨m, found, same⟩ := Option.map_eq_some_iff.mp at_
  exact ⟨(id, m), Table.find?_eq_some.mp found, rfl, same⟩

theorem mem_of_shape (shape : members s.machines.rows fp = keep :: rest) (member : row = keep ∨ row ∈ rest) :
    row ∈ s.machines.rows ∧ machine s.machines.rows row = fp :=
  mem_members.mp (shape ▸ List.mem_cons.mpr member)

theorem apart_of_shape (shape : members s.machines.rows fp = keep :: rest) :
    ∀ row ∈ rest, row.1 ≠ keep.1 := by
  have ascending := (List.pairwise_map.mp s.machines.ordered).sublist
    (List.filter_sublist (p := fun row => decide (machine s.machines.rows row = fp)))
  have first := (List.pairwise_cons.mp (shape ▸ ascending : (keep :: rest).Pairwise fun a b => a.1 < b.1)).1
  exact fun row member => Nat.ne_of_gt (first row member)

/-- The ids of two machines are apart. -/
theorem not_mem_rest (shape : members s.machines.rows fp = keep :: rest) (member : row ∈ s.machines.rows)
    (other : machine s.machines.rows row ≠ fp) : row.1 ∉ rest.map Prod.fst ∧ row.1 ≠ keep.1 := by
  have apart : ∀ row', row' = keep ∨ row' ∈ rest → row.1 ≠ row'.1 := by
    intro row' inside same
    obtain ⟨present, here⟩ := mem_of_shape shape inside
    have at_ := machineAt_of_mem present
    rw [← same, machineAt_of_mem member, here] at at_
    exact other (Option.some.inj at_)
  refine ⟨fun inside => ?_, apart keep (.inl rfl)⟩
  obtain ⟨row', inside, same⟩ := List.mem_map.mp inside
  exact apart row' (.inr inside) same.symm

theorem foldedInto_of_shape (shape : members s.machines.rows fp = keep :: rest)
    (at_ : machineAt s id = some fp) : foldedInto s id = keep.1 := by
  rw [foldedInto, at_, Option.bind_some, shape, List.head?_cons, Option.elim_some]

theorem shape_of_mem (member : fp ∈ machines s.machines.rows) :
    ∃ keep rest, members s.machines.rows fp = keep :: rest :=
  List.exists_cons_of_ne_nil (members_ne_nil member)

theorem foldedAfter_concat (shape : members s.machines.rows fp = keep :: rest) (new : fp ∉ done) (id : Nat) :
    (if foldedAfter s done id ∈ rest.map Prod.fst then keep.1 else foldedAfter s done id) =
      foldedAfter s (done ++ [fp]) id := by
  cases at_ : machineAt s id with
  | none =>
      have absent : id ∉ rest.map Prod.fst := by
        intro named
        obtain ⟨row, inside, rfl⟩ := List.mem_map.mp named
        rw [machineAt_of_mem (mem_of_shape shape (.inr inside)).1] at at_
        cases at_
      simp [foldedAfter, at_, absent]
  | some fp' =>
      obtain ⟨row, member, rfl, here⟩ := machineAt_mem at_
      by_cases before : fp' ∈ done
      · obtain ⟨keep', rest', shape'⟩ := shape_of_mem (here ▸ machine_mem member)
        obtain ⟨present, there⟩ := mem_of_shape shape' (.inl rfl)
        have absent := (not_mem_rest shape present (fun same => new (same ▸ there.symm ▸ before))).1
        simp [foldedAfter, at_, before, foldedInto_of_shape shape' at_, absent]
      · by_cases same : fp' = fp
        · subst same
          have inside : row = keep ∨ row ∈ rest :=
            List.mem_cons.mp (shape ▸ mem_members.mpr ⟨member, here⟩)
          simp only [foldedAfter, at_, Option.any_some, before, decide_false, Bool.false_eq_true, if_false,
            List.mem_append, List.mem_singleton, or_true, decide_true, if_true, foldedInto_of_shape shape at_]
          rcases inside with rfl | inside
          · exact ite_self _
          · exact if_pos (List.mem_map_of_mem inside)
        · have absent := (not_mem_rest shape member (fun there => same (here.symm.trans there))).1
          simp [foldedAfter, at_, before, same, absent]

/-- Some machines were folded, and the others were left alone. -/
structure After (s : Store) (done : List String) (out : Folded) : Prop where
  rows : ∀ row, row ∈ out.store.machines.rows ↔
    row ∈ s.machines.rows ∧ machine s.machines.rows row ∉ done ∨
      ∃ fp ∈ done, ∃ keep rest,
        members s.machines.rows fp = keep :: rest ∧ row = (keep.1, settledOf fp keep rest)
  refs : out.store.refs = s.refs.map fun table => (table.1, table.2.map (Option.map (foldedAfter s done)))
  merges : ∃ new, out.store.merges = s.merges ++ new ∧ ∀ merge ∈ new, ∃ fp ∈ done, ∃ keep rest,
    members s.machines.rows fp = keep :: rest ∧ merge.intoId = keep.1

theorem After.nil (s : Store) (out : Folded) (same : out.store = s) : After s [] out where
  rows row := by simp [same]
  refs := by
    rw [same]
    conv_lhs => rw [← List.map_id s.refs]
    refine List.map_congr_left fun table _ => Prod.ext rfl ?_
    conv_lhs => rw [id, ← List.map_id table.2]
    refine List.map_congr_left fun id _ => ?_
    cases id with
    | none => rfl
    | some id => simp [foldedAfter]
  merges := ⟨[], by rw [same, List.append_nil], List.forall_mem_nil _⟩

/-- A machine that is still to come has its rows. -/
theorem After.mem (after : After s done start) (shape : members s.machines.rows fp = keep :: rest)
    (new : fp ∉ done) (member : row = keep ∨ row ∈ rest) : row ∈ start.store.machines.rows := by
  obtain ⟨present, here⟩ := mem_of_shape shape member
  exact (after.rows row).mpr (.inl ⟨present, here ▸ new⟩)

/-- Whether a machine can be folded is decided by the rows that there were before. -/
theorem After.foldable_iff (after : After s done start) (split : machines s.machines.rows = done ++ fp :: todo)
    (shape : members s.machines.rows fp = keep :: rest) : Foldable fp keep rest start.store ↔
      (∀ row ∈ rest, ∀ merge ∈ s.merges, merge.intoId ≠ row.1) ∧
        ∀ later ∈ todo, ∀ row ∈ members s.machines.rows later, row.2.fingerprint ≠ fp := by
  have once : (done ++ fp :: todo).Nodup := split ▸ machines_nodup _
  obtain ⟨-, once, across⟩ := List.nodup_append.mp once
  have new : fp ∉ done := fun member => across fp member fp List.mem_cons_self rfl
  obtain ⟨merged, goes, into⟩ := after.merges
  constructor
  · intro foldable
    refine ⟨fun row member merge old => ?_, fun later coming row member => ?_⟩
    · exact foldable.unmerged row member merge (goes ▸ List.mem_append_left _ old)
    · obtain ⟨present, rfl⟩ := mem_members.mp member
      have other : machine s.machines.rows row ≠ fp :=
        fun same => (List.nodup_cons.mp once).1 (same ▸ coming)
      have stays : machine s.machines.rows row ∉ done := fun gone =>
        across _ gone _ (List.mem_cons_of_mem _ coming) rfl
      obtain ⟨rests, keeps⟩ := not_mem_rest shape present other
      exact foldable.free row ((after.rows row).mpr (.inl ⟨present, stays⟩)) keeps rests
  · rintro ⟨unmerged, free⟩
    refine ⟨fun row member merge inside => ?_, fun row member keeps rests => ?_⟩
    · rcases List.mem_append.mp (goes ▸ inside) with old | made
      · exact unmerged row member merge old
      · obtain ⟨fp', gone, keep', rest', shape', same⟩ := into merge made
        obtain ⟨present, here⟩ := mem_of_shape shape (.inr member)
        rw [same]
        exact (not_mem_rest shape' present fun there => new (here.symm.trans there ▸ gone)).2.symm
    · rcases (after.rows row).mp member with ⟨member, stays⟩ | ⟨fp', gone, keep', rest', -, rfl⟩
      · have coming : machine s.machines.rows row ∈ fp :: todo :=
          (List.mem_append.mp (split ▸ machine_mem member)).resolve_left stays
        rcases List.mem_cons.mp coming with here | later
        · rcases List.mem_cons.mp (shape ▸ mem_members.mpr ⟨member, here⟩) with rfl | inside
          · exact absurd rfl keeps
          · exact absurd (List.mem_map_of_mem inside) rests
        · exact free _ later row (mem_members.mpr ⟨member, rfl⟩)
      · rw [settledOf_fingerprint]
        exact fun same => new (same ▸ gone)

/-- One more machine is folded. -/
theorem After.step (after : After s done start) (shape : members s.machines.rows fp = keep :: rest)
    (new : fp ∉ done) (settles : Settles fp keep rest start out) : After s (done ++ [fp]) out where
  rows row := by
    rw [settles.rows]
    constructor
    · rintro (rfl | ⟨keeps, member, rests⟩)
      · exact .inr ⟨fp, List.mem_append_right _ List.mem_cons_self, keep, rest, shape, rfl⟩
      · rcases (after.rows row).mp member with ⟨member, stays⟩ | ⟨fp', gone, found⟩
        · refine .inl ⟨member, fun gone => ?_⟩
          rcases List.mem_append.mp gone with gone | here
          · exact stays gone
          · have inside := shape ▸ mem_members.mpr ⟨member, List.mem_singleton.mp here⟩
            rcases List.mem_cons.mp inside with rfl | inside
            · exact keeps rfl
            · exact rests (List.mem_map_of_mem inside)
        · exact .inr ⟨fp', List.mem_append_left _ gone, found⟩
    · rintro (⟨member, stays⟩ | ⟨fp', gone, keep', rest', shape', rfl⟩)
      · rw [List.mem_append, not_or, List.mem_singleton] at stays
        obtain ⟨rests, keeps⟩ := not_mem_rest shape member stays.2
        exact .inr ⟨keeps, (after.rows row).mpr (.inl ⟨member, stays.1⟩), rests⟩
      · rcases List.mem_append.mp gone with gone | here
        · obtain ⟨present, there⟩ := mem_of_shape shape' (.inl rfl)
          obtain ⟨rests, keeps⟩ := not_mem_rest shape present fun same => new (there.symm.trans same ▸ gone)
          exact .inr ⟨keeps, (after.rows _).mpr (.inr ⟨fp', gone, keep', rest', shape', rfl⟩), rests⟩
        · obtain rfl := List.mem_singleton.mp here
          obtain ⟨rfl, rfl⟩ := List.cons.inj (shape.symm.trans shape')
          exact .inl rfl
  refs := by
    rw [settles.refs, after.refs, List.map_map]
    refine List.map_congr_left fun table _ => Prod.ext rfl ?_
    rw [Function.comp_apply, List.map_map]
    refine List.map_congr_left fun id _ => ?_
    cases id with
    | none => rfl
    | some id => exact congrArg some (foldedAfter_concat shape new id)
  merges := by
    obtain ⟨old, goes, before⟩ := after.merges
    obtain ⟨made, adds, into⟩ := settles.merges
    refine ⟨old ++ made, by rw [adds, goes, List.append_assoc], fun merge member => ?_⟩
    rcases List.mem_append.mp member with member | member
    · obtain ⟨fp', gone, found⟩ := before merge member
      exact ⟨fp', List.mem_append_left _ gone, found⟩
    · exact ⟨fp, List.mem_append_right _ List.mem_cons_self, keep, rest, shape, into merge member⟩

/-- The groups that are still to come. -/
abbrev groupsOf (s : Store) (todo : List String) : List Group :=
  todo.map fun fp => (fp, members s.machines.rows fp)

/-- No row that another was folded into before is to be folded, and no machine still to come has a row with
the fingerprint of one before it. -/
def Ready (s : Store) (todo : List String) : Prop :=
  (∀ fp ∈ todo, ∀ row ∈ (members s.machines.rows fp).tail,
      ∀ merge ∈ s.merges, merge.intoId ≠ row.1) ∧
    todo.Pairwise fun earlier later => ∀ row ∈ members s.machines.rows later, row.2.fingerprint ≠ earlier

theorem ready_cons (shape : members s.machines.rows fp = keep :: rest) : Ready s (fp :: todo) ↔
    ((∀ row ∈ rest, ∀ merge ∈ s.merges, merge.intoId ≠ row.1) ∧
      ∀ later ∈ todo, ∀ row ∈ members s.machines.rows later, row.2.fingerprint ≠ fp) ∧ Ready s todo := by
  rw [Ready, Ready, List.forall_mem_cons, List.pairwise_cons, shape, List.tail_cons, and_and_and_comm]

/-- Each machine of a split run is new to it, and has an oldest row. -/
theorem head_of_split (split : machines s.machines.rows = done ++ fp :: todo) :
    fp ∉ done ∧ ∃ keep rest, members s.machines.rows fp = keep :: rest := by
  have once : (done ++ fp :: todo).Nodup := split ▸ machines_nodup _
  refine ⟨fun member => (List.nodup_append.mp once).2.2 fp member fp List.mem_cons_self rfl, shape_of_mem ?_⟩
  exact split ▸ List.mem_append_right _ List.mem_cons_self

/-- A run that comes to its end was ready for every machine, and has folded each. -/
theorem run_ok (after : After s done start) (split : machines s.machines.rows = done ++ todo)
    (ok : (groupsOf s todo).foldlM (foldGroup now) start = .ok out) :
    Ready s todo ∧ After s (machines s.machines.rows) out := by
  induction todo generalizing done start with
  | nil =>
      obtain rfl := pure_ok ok
      rw [split, List.append_nil]
      exact ⟨⟨List.forall_mem_nil _, .nil⟩, after⟩
  | cons fp todo ih =>
      obtain ⟨middle, one, others⟩ := foldlM_cons_ok.mp ok
      obtain ⟨new, keep, rest, shape⟩ := head_of_split split
      have one : foldGroup now start (fp, members s.machines.rows fp) = .ok middle := one
      rw [shape] at one
      obtain ⟨foldable, settles⟩ := foldGroup_ok (apart_of_shape shape) (after.mem shape new (.inl rfl)) one
      obtain ⟨ready, final⟩ := ih (after.step shape new settles) (by rw [split, List.append_cons]) others
      exact ⟨(ready_cons shape).mpr ⟨(after.foldable_iff split shape).mp foldable, ready⟩, final⟩

theorem run_total (now : ℚ) (after : After s done start) (split : machines s.machines.rows = done ++ todo)
    (ready : Ready s todo) : ∃ out, (groupsOf s todo).foldlM (foldGroup now) start = .ok out := by
  induction todo generalizing done start with
  | nil => exact ⟨start, rfl⟩
  | cons fp todo ih =>
      obtain ⟨new, keep, rest, shape⟩ := head_of_split split
      obtain ⟨here, later⟩ := (ready_cons shape).mp ready
      have apart := apart_of_shape shape
      obtain ⟨middle, one⟩ := foldGroup_total now apart ((after.foldable_iff split shape).mpr here)
      obtain ⟨-, settles⟩ := foldGroup_ok apart (after.mem shape new (.inl rfl)) one
      obtain ⟨out, others⟩ := ih (after.step shape new settles) (by rw [split, List.append_cons]) later
      rw [← shape] at one
      exact ⟨out, foldlM_cons_ok.mpr ⟨middle, one, others⟩⟩

theorem merge_ok (ok : mergeDuplicateMachines now s = .ok out) :
    Ready s (machines s.machines.rows) ∧ After s (machines s.machines.rows) out := by
  rw [mergeDuplicateMachines, machinesOf_eq s.machines.ordered] at ok
  exact run_ok (.nil s _ rfl) (List.nil_append _).symm ok

theorem merge_total (now : ℚ) (ready : Ready s (machines s.machines.rows)) :
    ∃ out, mergeDuplicateMachines now s = .ok out := by
  rw [mergeDuplicateMachines, machinesOf_eq s.machines.ordered]
  exact run_total now (.nil s _ rfl) (List.nil_append _).symm ready

/-! ## A second run -/

/-- Where each row is a machine of its own there is nothing to do. -/
theorem merge_settled (now : ℚ) (same : ∀ row ∈ s.machines.rows, row.2.identity = row.2.fingerprint)
    (stays : ∀ fp ∈ identities s.machines.rows, home s.machines.rows fp = fp) :
    mergeDuplicateMachines now s = .ok ⟨s, 0, s.refs.map fun table => (table.1, 0)⟩ := by
  have once : (s.machines.rows.map fun row => row.2.identity).Nodup := by
    rw [List.map_congr_left same]
    exact s.unique
  rw [mergeDuplicateMachines, machinesOf_eq s.machines.ordered]
  have still : ∀ fp ∈ machines s.machines.rows, ∀ start : Folded,
      foldGroup now start (fp, members s.machines.rows fp) = .ok start := by
    intro fp member start
    obtain ⟨row, inside, rfl⟩ := mem_identities.mp (mem_machines.mp member).1
    have alone : members s.machines.rows row.2.identity = [row] := by
      rw [← Groups.filter_key (fun row : Row => row.2.identity) once inside]
      refine List.filter_congr fun other there => ?_
      rw [machine, stays _ (mem_identities.mpr ⟨other, there, rfl⟩)]
    have settled : ¬(row.2.fingerprint ≠ row.2.identity ∨ ([] : List Row) ≠ []) := by
      simp [same row inside]
    rw [alone, foldGroup]
    exact if_neg settled
  generalize machines s.machines.rows = todo at still
  generalize (⟨s, 0, _⟩ : Folded) = start
  induction todo with
  | nil => rfl
  | cons fp todo ih =>
      obtain ⟨first, others⟩ := List.forall_mem_cons.mp still
      rw [List.map_cons, List.foldlM_cons, first]
      exact ih others

/-! ## What a run keeps -/

/-- The rows once every machine was folded. -/
theorem mem_final (after : After s (machines s.machines.rows) out) : row ∈ out.store.machines.rows ↔
    ∃ fp ∈ machines s.machines.rows, ∃ keep rest,
      members s.machines.rows fp = keep :: rest ∧ row = (keep.1, settledOf fp keep rest) := by
  rw [after.rows]
  constructor
  · rintro (⟨member, left⟩ | found)
    · exact absurd (machine_mem member) left
    · exact found
  · exact .inr

/-- Every machine's fingerprint is that of its oldest board under the OS that was named last. -/
def Named (s : Store) : Prop :=
  ∀ fp ∈ machines s.machines.rows, ∀ keep ∈ (members s.machines.rows fp).head?,
    { keep.2 with
      fingerprint := fp
      os := latest "" Machine.os (members s.machines.rows fp) : Machine }.identity = fp

theorem named_final_iff (after : After s (machines s.machines.rows) out) : Named s ↔
    ∀ row ∈ out.store.machines.rows, row.2.identity = row.2.fingerprint := by
  constructor
  · intro named row member
    obtain ⟨fp, met, keep, rest, shape, rfl⟩ := (mem_final after).mp member
    have here := named fp met keep (by rw [shape, List.head?_cons]; rfl)
    rw [settledOf_fingerprint, settledOf_identity, ← shape, here]
  · intro same fp met keep head
    obtain ⟨rest, shape⟩ := List.head?_eq_some_iff.mp head
    have here := same _ ((mem_final after).mpr ⟨fp, met, keep, rest, shape, rfl⟩)
    rwa [settledOf_fingerprint, settledOf_identity, ← shape] at here

/-- A second run finds each machine's row alone. -/
theorem merge_again (now : ℚ) (after : After s (machines s.machines.rows) out)
    (same : ∀ row ∈ out.store.machines.rows, row.2.identity = row.2.fingerprint) :
    mergeDuplicateMachines now out.store =
      .ok ⟨out.store, 0, out.store.refs.map fun table => (table.1, 0)⟩ := by
  have once : (out.store.machines.rows.map fun row => row.2.identity).Nodup := by
    rw [List.map_congr_left same]
    exact out.store.unique
  have alone : ∀ {fp keep rest}, fp ∈ machines s.machines.rows →
      members s.machines.rows fp = keep :: rest →
      named out.store.machines.rows fp = [(keep.1, settledOf fp keep rest)] := by
    intro fp keep rest met shape
    have member := (mem_final after).mpr ⟨fp, met, keep, rest, shape, rfl⟩
    have key := same _ member
    rw [settledOf_fingerprint] at key
    have only := Groups.filter_key (fun row : Row => row.2.identity) once member
    rwa [key] at only
  have met : ∀ fp, fp ∈ identities out.store.machines.rows ↔ fp ∈ machines s.machines.rows := by
    intro fp
    rw [mem_identities]
    constructor
    · rintro ⟨row, member, rfl⟩
      have key := same row member
      obtain ⟨fp, met, keep, rest, -, rfl⟩ := (mem_final after).mp member
      rwa [key, settledOf_fingerprint]
    · intro met
      obtain ⟨keep, rest, shape⟩ := shape_of_mem met
      have member := (mem_final after).mpr ⟨fp, met, keep, rest, shape, rfl⟩
      exact ⟨_, member, (same _ member).trans (settledOf_fingerprint ..)⟩
  have boards : ∀ fp ∈ machines s.machines.rows,
      board (named out.store.machines.rows fp) = board (named s.machines.rows fp) := by
    intro fp met
    obtain ⟨keep, rest, shape⟩ := shape_of_mem met
    have head : (members s.machines.rows fp).head? = some keep := by rw [shape, List.head?_cons]
    obtain ⟨hw, arch⟩ := settledOf_board fp keep rest
    rw [← board_members met, board_of_head head, alone met shape, board, List.head?_cons, Option.map_some,
      hw, arch]
  exact merge_settled now same fun fp member => home_stays met boards member

/-- The run does not raise; it leaves each fingerprint once, and the one of its row; a row goes with what its
machine was folded into, and no row that refers to one is lost; and a second run merges nothing. -/
def Kept (now : ℚ) (s : Store) : Prop :=
  ∃ out, mergeDuplicateMachines now s = .ok out ∧
    (out.store.machines.rows.map fun row => row.2.fingerprint).Nodup ∧
    (∀ row ∈ out.store.machines.rows, row.2.identity = row.2.fingerprint) ∧
    (∀ id ∈ s.machines.ids, foldedInto s id ∈ out.store.machines.ids) ∧
    out.store.refs = s.refs.map (fun table => (table.1, table.2.map (Option.map (foldedInto s)))) ∧
    s.merges <+: out.store.merges ∧
    ∀ later, ∃ again, mergeDuplicateMachines later out.store = .ok again ∧
      again.merged = 0 ∧ again.store = out.store

theorem foldedAfter_final (s : Store) (id : Nat) :
    foldedAfter s (machines s.machines.rows) id = foldedInto s id := by
  rw [foldedAfter]
  split
  next => rfl
  next none =>
    cases at_ : machineAt s id with
    | none => rw [foldedInto, at_, Option.bind_none, Option.elim_none]
    | some fp =>
        obtain ⟨row, member, -, rfl⟩ := machineAt_mem at_
        rw [at_, Option.any_some, decide_eq_true (machine_mem member)] at none
        exact absurd rfl none

/-- A run keeps what it should exactly where no row that another was folded into before is folded itself, no
machine still to come has a row with the fingerprint of one before it, and each fingerprint is that of the
oldest board under the OS that was named last. -/
theorem merge_kept_iff (now : ℚ) (s : Store) : Kept now s ↔
    (∀ fp ∈ machines s.machines.rows, ∀ row ∈ (members s.machines.rows fp).tail,
      ∀ merge ∈ s.merges, merge.intoId ≠ row.1) ∧
    ((machines s.machines.rows).Pairwise fun earlier later =>
      ∀ row ∈ members s.machines.rows later, row.2.fingerprint ≠ earlier) ∧
    Named s := by
  constructor
  · rintro ⟨out, ok, -, same, -⟩
    obtain ⟨⟨unmerged, free⟩, after⟩ := merge_ok ok
    exact ⟨unmerged, free, (named_final_iff after).mpr same⟩
  · rintro ⟨unmerged, free, named⟩
    obtain ⟨out, ok⟩ := merge_total now ⟨unmerged, free⟩
    have after := (merge_ok ok).2
    have same := (named_final_iff after).mp named
    refine ⟨out, ok, out.store.unique, same, fun id present => ?_, ?_, ?_, fun later => ?_⟩
    · obtain ⟨m, member⟩ := Table.mem_ids.mp present
      obtain ⟨keep, rest, shape⟩ := shape_of_mem (machine_mem member)
      rw [foldedInto_of_shape shape (machineAt_of_mem member)]
      exact Table.mem_ids.mpr ⟨_, (mem_final after).mpr ⟨_, machine_mem member, keep, rest, shape, rfl⟩⟩
    · rw [after.refs]
      simp only [funext (foldedAfter_final s)]
    · obtain ⟨new, goes, -⟩ := after.merges
      exact ⟨new, goes.symm⟩
    · exact ⟨_, merge_again later after same, rfl, rfl⟩

end

/-- One machine under the release of its system, probed twice. An earlier run folded a row into the second. -/
def probed : Store where
  machines := ⟨
    [(1, { fingerprint := "Mac16,1/Darwin-24.1/arm64", hwModel := "Mac16,1", os := "Darwin-24.1"
           arch := "arm64", firstSeen := 0, lastSeen := 0 }),
      (2, { fingerprint := "Mac16,1/Darwin-24.2/arm64", hwModel := "Mac16,1", os := "Darwin-24.2"
            arch := "arm64", firstSeen := 1, lastSeen := 1 })], by decide⟩
  unique := by decide
  refs := []
  merges := [Merge.mk 3 "Mac16,1/Darwin-24.3/arm64" 2 [] 2]

/-- The row that another was folded into cannot be deleted, so nothing is merged. -/
theorem merged_row_stays : ¬∀ (now : ℚ) (s : Store), (∀ row ∈ s.machines.rows,
    row.2.fingerprint = fingerprint row.2.hwModel row.2.os row.2.arch ∨
      row.2.fingerprint = older row.2.hwModel row.2.os row.2.arch) → Kept now s := by
  intro all
  have stored : ∀ row ∈ probed.machines.rows,
      row.2.fingerprint = fingerprint row.2.hwModel row.2.os row.2.arch ∨
        row.2.fingerprint = older row.2.hwModel row.2.os row.2.arch := by
    decide +kernel
  obtain ⟨out, ok, -⟩ := all 0 probed stored
  have raised : (mergeDuplicateMachines 0 probed).toOption.isNone = true := by decide +kernel
  rw [ok] at raised
  cases raised

end LocalHarness.Migrations.Machines
