import LocalHarness.Migrations.Rebuild

/-! # A rebuild that is interrupted

The other table is there as soon as it is made, and its rows only once the rebuild commits. A
rebuild that finds the table of an interrupted one makes it again, which fails.
-/

namespace LocalHarness.Migrations

open LocalHarness.Library

/-- A store on which a migration has come to the rebuild. -/
structure Begun where
  schema : Nat
  older : 0 < schema ∧ schema < 24
  table : Table
  found : Table
  reached : performAll (dueActions schema) table = .ok found
  once : found.names.Nodup

namespace Begun

def store (b : Begun) : Db :=
  ⟨b.schema, some b.table, none⟩

/-- The table after the first `j` steps. -/
def stage (b : Begun) (j : Nat) : Table :=
  match performAll ((dueActions b.schema).take j) b.table with
  | .ok t => t
  | .error _ => b.table

/-- The rebuild's session. Of the steps before it the first `j` are durable. -/
def session (b : Begun) (j : Nat) : Session Db where
  durable := ⟨b.schema, some (b.stage j), none⟩
  working := ⟨b.schema, some b.found, none⟩
  inTransaction := true

/-- The statements that were executed before the crash. -/
def executed (b : Begun) (k : Nat) : List Stmt :=
  (verdictsNameACandidate b.found).take k

/-- What a crash after `k` statements of the rebuild leaves. -/
def crashed (b : Begun) (j k : Nat) : Except Error Db :=
  (execAll (b.executed k) (b.session j)).map Session.durable

end Begun

/-- Whatever the rest of the chain does, a migration of what the crash left ends as one that was
    not interrupted; and as far as the rebuild it ends well, with every row and each of its values. -/
def MigratesAgain (b : Begun) (j k : Nat) : Prop :=
  (∀ rest, (b.crashed j k).bind (migrateSteps rest) = migrateSteps rest b.store) ∧
    ∃ db t, (b.crashed j k).bind (migrateSteps .ok) = .ok db ∧ db.verdicts = some t ∧
      db.verdictsNew = none ∧
      ∀ name ∈ b.found.names, t.rows.map (fun row => row name) = b.found.rows.map fun row => row name

/-- If the other table was made, the rebuild was committed. -/
def Committed (executed : List Stmt) : Prop :=
  .create verdictsDDL ∈ executed → executed.count .commit = 2

/-! ## Steps that find nothing to do -/

/-- The columns that a step does nothing but find. -/
def Action.Done (t : Table) : Action → Prop
  | .add c => c.name ∈ t.names
  | .v14 => "attaches_to" ∈ t.names ∧ "upstream_idle_days" ∈ t.names ∧ staleDays ∉ t.names
  | .v15 => "upstream_idle_days" ∈ t.names

/-- A step that leaves alone the column that schema 14 renames. -/
def Action.Apart : Action → Prop
  | .add c => c.name ≠ staleDays
  | .v14 | .v15 => True

/-- No column goes but the one that is renamed, and that one does not come. -/
structure Grown (t t' : Table) : Prop where
  keeps : ∀ name ∈ t.names, name ≠ staleDays → name ∈ t'.names
  stale : staleDays ∈ t'.names → staleDays ∈ t.names

namespace Grown

variable {t t' t'' : Table}

theorem refl (t : Table) : Grown t t := ⟨fun _ here _ => here, id⟩

theorem trans (first : Grown t t') (second : Grown t' t'') : Grown t t'' :=
  ⟨fun name here apart => second.keeps name (first.keeps name here apart) apart,
    fun here => first.stale (second.stale here)⟩

theorem done (grown : Grown t t') {action : Action} (apart : action.Apart) (done : action.Done t) :
    action.Done t' := by
  cases action with
  | add c => exact grown.keeps _ done apart
  | v14 =>
      exact ⟨grown.keeps _ done.1 (by decide), grown.keeps _ done.2.1 (by decide),
        fun here => done.2.2 (grown.stale here)⟩
  | v15 => exact grown.keeps _ done (by decide)

end Grown

@[simp] theorem names_add (t : Table) (c : Column) : (t.add c).names = t.names ++ [c.name] := by
  simp [Table.add, Table.names]

theorem addMissing_of_mem {t : Table} {c : Column} (here : c.name ∈ t.names) : addMissing c t = t :=
  if_pos here

theorem mem_addMissing (t : Table) (c : Column) : c.name ∈ (addMissing c t).names := by
  unfold addMissing
  split
  next here => exact here
  next => rw [names_add]; exact List.mem_append_right _ List.mem_cons_self

theorem grown_addMissing (t : Table) {c : Column} (apart : c.name ≠ staleDays) :
    Grown t (addMissing c t) := by
  unfold addMissing
  split
  next => exact .refl t
  next =>
    refine ⟨fun name here _ => ?_, fun here => ?_⟩
    · rw [names_add]
      exact List.mem_append_left _ here
    · rw [names_add] at here
      rcases List.mem_append.mp here with old | new
      · exact old
      · exact absurd (List.mem_singleton.mp new).symm apart

theorem mem_rename {old new : String} {t t' : Table} (renamed : renameColumn old new t = .ok t')
    {name : String} : name ∈ t'.names ↔ name ∈ t.names ∧ name ≠ old ∨ name = new ∧ old ∈ t.names := by
  unfold renameColumn at renamed
  split at renamed
  next => cases renamed
  next =>
    cases renamed
    simp only [Table.names, List.map_map, List.mem_map, Function.comp_apply]
    constructor
    · rintro ⟨c, here, rfl⟩
      by_cases same : c.name = old
      · exact .inr ⟨by simp [same], c, here, same⟩
      · exact .inl ⟨⟨c, here, by simp [same]⟩, by simp [same]⟩
    · rintro (⟨⟨c, here, rfl⟩, apart⟩ | ⟨rfl, c, here, same⟩)
      · exact ⟨c, here, by simp [apart]⟩
      · exact ⟨c, here, by simp [same]⟩

theorem grown_rename {t t' : Table} (renamed : renameColumn staleDays "upstream_idle_days" t = .ok t') :
    Grown t t' where
  keeps := fun _ here apart => (mem_rename renamed).mpr (.inl ⟨here, apart⟩)
  stale := fun here => ((mem_rename renamed).mp here).elim And.left fun both => absurd both.1 (by decide)

theorem perform_of_done {action : Action} {t : Table} (done : action.Done t) :
    action.perform t = .ok t := by
  cases action with
  | add c => exact congrArg Except.ok (addMissing_of_mem done)
  | v14 =>
      obtain ⟨attaches, upstream, fresh⟩ := done
      rw [Action.perform, if_neg fresh, @addMissing_of_mem t attachesTo attaches,
        @addMissing_of_mem t upstreamIdleDays upstream, if_neg fresh]
      exact congrArg Except.ok (@addMissing_of_mem t attachesTo attaches)
  | v15 =>
      rw [Action.perform, if_neg fun both => both.2 done]
      exact congrArg Except.ok (@addMissing_of_mem t upstreamIdleDays done)

theorem perform_spec {action : Action} (apart : action.Apart) {t t' : Table}
    (performed : action.perform t = .ok t') : Grown t t' ∧ action.Done t' := by
  have attaches : attachesTo.name ≠ staleDays := by decide
  have upstream : upstreamIdleDays.name ≠ staleDays := by decide
  cases action with
  | add c =>
      cases performed
      exact ⟨grown_addMissing t apart, mem_addMissing t c⟩
  | v14 =>
      by_cases stale : staleDays ∈ t.names
      · rw [Action.perform, if_pos stale, if_pos stale] at performed
        cases renamed : renameColumn staleDays "upstream_idle_days" t with
        | error => rw [renamed] at performed; cases performed
        | ok r =>
            rw [renamed] at performed
            cases performed
            have last := grown_addMissing r attaches
            have gone : staleDays ∉ r.names := fun here =>
              ((mem_rename renamed).mp here).elim (fun both => both.2 rfl) fun both =>
                absurd both.1 (by decide)
            refine ⟨(grown_rename renamed).trans last, mem_addMissing r attachesTo, ?_, ?_⟩
            · exact last.keeps _ ((mem_rename renamed).mpr (.inr ⟨rfl, stale⟩)) (by decide)
            · exact fun here => gone (last.stale here)
      · have first := grown_addMissing t attaches
        have second := grown_addMissing (addMissing attachesTo t) upstream
        have gone : staleDays ∉ (addMissing upstreamIdleDays (addMissing attachesTo t)).names :=
          fun here => stale (first.stale (second.stale here))
        rw [Action.perform, if_neg stale, if_neg gone] at performed
        cases performed
        have there := second.keeps _ (mem_addMissing t attachesTo) attaches
        rw [addMissing_of_mem there]
        exact ⟨first.trans second, there, mem_addMissing _ upstreamIdleDays, gone⟩
  | v15 =>
      rw [Action.perform] at performed
      split at performed
      next both =>
        exact ⟨grown_rename performed, (mem_rename performed).mpr (.inr ⟨rfl, both.1⟩)⟩
      next =>
        cases performed
        exact ⟨grown_addMissing t upstream, mem_addMissing t upstreamIdleDays⟩

theorem dueActions_apart (schema : Nat) : ∀ action ∈ dueActions schema, action.Apart := by
  intro action member
  obtain ⟨s, inside, rfl⟩ := List.mem_map.mp member
  have each : ∀ s ∈ chain, s.action.Apart := by
    simp [chain, Action.Apart, staleDays]
  exact each s (List.mem_filter.mp inside).1

theorem performAll_cons (action : Action) (rest : List Action) (t : Table) :
    performAll (action :: rest) t = (action.perform t).bind (performAll rest) := rfl

theorem performAll_spec {actions : List Action} (apart : ∀ action ∈ actions, action.Apart) {t t' : Table}
    (performed : performAll actions t = .ok t') :
    Grown t t' ∧ ∀ action ∈ actions, action.Done t' := by
  induction actions generalizing t with
  | nil =>
      cases performed
      exact ⟨.refl _, nofun⟩
  | cons action rest ih =>
      obtain ⟨here, others⟩ := List.forall_mem_cons.mp apart
      rw [performAll_cons] at performed
      cases first : action.perform t with
      | error => rw [first] at performed; cases performed
      | ok mid =>
          rw [first] at performed
          obtain ⟨grown, done⟩ := perform_spec here first
          obtain ⟨later, each⟩ := ih others performed
          exact ⟨grown.trans later, List.forall_mem_cons.mpr ⟨later.done here done, each⟩⟩

theorem performAll_of_done {actions : List Action} {t : Table}
    (done : ∀ action ∈ actions, action.Done t) : performAll actions t = .ok t := by
  induction actions with
  | nil => rfl
  | cons action rest ih =>
      obtain ⟨here, others⟩ := List.forall_mem_cons.mp done
      rw [performAll_cons, perform_of_done here]
      exact ih others

theorem performAll_append (front back : List Action) (t : Table) :
    performAll (front ++ back) t = (performAll front t).bind (performAll back) :=
  List.foldlM_append

namespace Begun

variable (b : Begun)

/-- From any of the stages the steps come to the table that the rebuild found. -/
theorem performAll_stage (j : Nat) : performAll (dueActions b.schema) (b.stage j) = .ok b.found := by
  have whole := b.reached
  rw [← List.take_append_drop j (dueActions b.schema), performAll_append] at whole ⊢
  unfold stage
  cases first : performAll ((dueActions b.schema).take j) b.table with
  | error => rw [first] at whole; cases whole
  | ok mid =>
      rw [first] at whole
      have apart : ∀ action ∈ (dueActions b.schema).take j, action.Apart := fun action member =>
        dueActions_apart b.schema action (List.mem_of_mem_take member)
      dsimp only
      rw [performAll_of_done (performAll_spec apart first).2]
      exact whole

/-- A table that has grown from what the rebuild found has nothing left to do. -/
theorem performAll_grown {t : Table} (grown : Grown b.found t) :
    performAll (dueActions b.schema) t = .ok t :=
  performAll_of_done fun action member =>
    grown.done (dueActions_apart b.schema action member)
      ((performAll_spec (dueActions_apart b.schema) b.reached).2 action member)

end Begun

/-! ## The rebuilt table -/

/-- The table with the columns of the DDL and the retired ones. -/
def rebuilt (t : Table) : Table :=
  copied ⟨verdictsDDL ++ retired t, []⟩ t.names t

theorem names_rebuilt (t : Table) :
    (rebuilt t).names = verdictsDDL.map Column.name ++ (retired t).map Column.name :=
  List.map_append

theorem mem_retired {t : Table} {name : String} :
    name ∈ (retired t).map Column.name ↔ name ∈ t.names ∧ name ∉ verdictsDDL.map Column.name := by
  simp only [retired, List.map_map, List.mem_map, List.mem_filter, Function.comp_apply, Table.names]
  constructor
  · rintro ⟨c, ⟨here, out⟩, rfl⟩
    exact ⟨⟨c, here, rfl⟩, by simpa using out⟩
  · rintro ⟨⟨c, here, rfl⟩, out⟩
    exact ⟨c, ⟨here, by simpa using out⟩, rfl⟩

theorem mem_rebuilt {t : Table} {name : String} (here : name ∈ t.names) : name ∈ (rebuilt t).names := by
  rw [names_rebuilt]
  by_cases listed : name ∈ verdictsDDL.map Column.name
  · exact List.mem_append_left _ listed
  · exact List.mem_append_right _ (mem_retired.mpr ⟨here, listed⟩)

theorem grown_rebuilt (t : Table) : Grown t (rebuilt t) where
  keeps := fun _ here _ => mem_rebuilt here
  stale := fun here => by
    rw [names_rebuilt] at here
    rcases List.mem_append.mp here with listed | kept
    · exact absurd listed (by decide)
    · exact (mem_retired.mp kept).1

theorem retired_rebuilt (t : Table) : retired (rebuilt t) = retired t := by
  have listed : ∀ c ∈ verdictsDDL, ¬ decide (c.name ∉ verdictsDDL.map Column.name) = true := by decide
  have kept : ∀ c ∈ retired t, decide (c.name ∉ verdictsDDL.map Column.name) = true := fun c member =>
    decide_eq_true (mem_retired.mp (List.mem_map_of_mem member)).2
  have plain : ∀ c ∈ retired t, (⟨c.name, c.type, .null⟩ : Column) = c := by
    intro c member
    obtain ⟨old, -, rfl⟩ := List.mem_map.mp member
    rfl
  have filtered : (rebuilt t).columns.filter (fun c => c.name ∉ verdictsDDL.map Column.name) =
      retired t := by
    rw [rebuilt, copied, List.filter_append, List.filter_eq_nil_iff.mpr listed, List.nil_append,
      List.filter_eq_self.mpr kept]
  rw [retired, filtered, List.map_congr_left plain, List.map_id']

theorem value_rebuilt (t : Table) :
    (rebuilt t).rows = t.rows.map fun row name =>
      if name ∈ t.names then row name else columnDefault (verdictsDDL ++ retired t) name := rfl

/-- A table that was rebuilt is rebuilt to itself. -/
theorem rebuilt_rebuilt (t : Table) : rebuilt (rebuilt t) = rebuilt t := by
  have rows : (rebuilt (rebuilt t)).rows = (rebuilt t).rows := by
    rw [value_rebuilt, value_rebuilt, List.map_map, retired_rebuilt]
    refine List.map_congr_left fun row _ => funext fun name => ?_
    dsimp only [Function.comp_apply]
    by_cases here : name ∈ t.names
    · rw [if_pos (mem_rebuilt here)]
    · rw [if_neg here, ite_self]
  have columns : (rebuilt (rebuilt t)).columns = (rebuilt t).columns := by
    rw [rebuilt, copied, retired_rebuilt]
    rfl
  exact congrArg₂ Table.mk columns rows

/-! ## The rebuild, statement by statement -/

theorem execAll_cons (stmt : Stmt) (rest : List Stmt) (s : Session Db) :
    execAll (stmt :: rest) s = (exec s stmt).bind (execAll rest) := rfl

theorem execAll_append (front back : List Stmt) (s : Session Db) :
    execAll (front ++ back) s = (execAll front s).bind (execAll back) :=
  List.foldlM_append

/-- The other table is made. -/
abbrev making : List Stmt :=
  [.commit, .foreignKeys false, .create verdictsDDL]

abbrev adds (t : Table) : List Stmt :=
  (retired t).map .addColumn

/-- The rows are copied and the other table takes the place of the first. -/
abbrev filling (t : Table) : List Stmt :=
  [.insert t.names, .drop, .rename, .index, .commit, .foreignKeys true]

/-- The store with the other table, in which there is no row. -/
def beside (schema : Nat) (t : Table) (columns : List Column) : Db :=
  ⟨schema, some t, some ⟨columns, []⟩⟩

/-- Each retired column is added, and is durable at once. -/
theorem execAll_adds {schema : Nat} {t : Table} {columns more : List Column}
    (once : ((columns ++ more).map Column.name).Nodup) :
    execAll (more.map .addColumn) (.fresh (beside schema t columns)) =
      .ok (.fresh (beside schema t (columns ++ more))) := by
  induction more generalizing columns with
  | nil => rw [List.append_nil]; rfl
  | cons c more ih =>
      have shape : columns ++ c :: more = columns ++ [c] ++ more := by simp
      have new : c.name ∉ columns.map Column.name := by
        intro here
        rw [List.map_append, List.map_cons] at once
        exact (List.nodup_append.mp once).2.2 _ here _ List.mem_cons_self rfl
      have first : exec (.fresh (beside schema t columns)) (.addColumn c) =
          .ok (.fresh (beside schema t (columns ++ [c]))) := if_neg new
      rw [List.map_cons, execAll_cons, first, shape]
      exact ih (shape ▸ once)

variable (b : Begun)

theorem ddl_once : (verdictsDDL.map Column.name).Nodup := by
  decide

theorem retired_once {t : Table} (once : t.names.Nodup) :
    ((verdictsDDL ++ retired t).map Column.name).Nodup := by
  have kept : (retired t).map Column.name = (t.columns.filter fun c =>
      c.name ∉ verdictsDDL.map Column.name).map Column.name := by
    rw [retired, List.map_map]
    rfl
  rw [List.map_append]
  refine List.nodup_append.mpr ⟨ddl_once, ?_, fun name listed other late same => ?_⟩
  · rw [kept]
    exact once.sublist (List.filter_sublist.map Column.name)
  · exact (mem_retired.mp late).2 (same ▸ listed)

/-- The table is made and the first of the retired columns are added. -/
theorem execAll_made {schema : Nat} {t : Table} (once : t.names.Nodup) (i : Nat) {s : Session Db}
    (ready : s.working = ⟨schema, some t, none⟩) :
    execAll (making ++ (adds t).take i) s =
      .ok (.fresh (beside schema t (verdictsDDL ++ (retired t).take i))) := by
  have made : execAll making s =
      .ok (.fresh (beside schema t verdictsDDL)) := by
    have committed : exec s .commit = .ok (.fresh ⟨schema, some t, none⟩) := by
      rw [exec, Session.commit, ready]
    rw [execAll_cons, committed]
    rfl
  have some_ : ((verdictsDDL ++ (retired t).take i).map Column.name).Nodup :=
    (retired_once once).sublist
      (((List.Sublist.refl verdictsDDL).append (List.take_sublist i (retired t))).map Column.name)
  rw [execAll_append, made, ← List.map_take]
  exact execAll_adds some_

/-- The rows are copied and the table takes the other's name, which nothing but the commit keeps. -/
theorem execAll_filled {schema : Nat} {t : Table} (i : Nat) :
    ∃ s, execAll ((filling t).take i) (.fresh (beside schema t (verdictsDDL ++ retired t))) = .ok s ∧
      s.durable = if i < 5 then beside schema t (verdictsDDL ++ retired t)
        else ⟨schema, some (rebuilt t), none⟩ := by
  match i with
  | 0 | 1 | 2 | 3 | 4 | 5 => exact ⟨_, rfl, rfl⟩
  | i + 6 => exact ⟨_, by rw [List.take_of_length_le (by simp)]; rfl, rfl⟩

/-! ## Where the crash fell -/

theorem count_adds (t : Table) (i : Nat) : ((adds t).take i).count .commit = 0 :=
  List.count_eq_zero.mpr fun member => by
    obtain ⟨c, -, eq⟩ := List.mem_map.mp (List.mem_of_mem_take member)
    cases eq

theorem count_filling (t : Table) (i : Nat) :
    ((filling t).take i).count .commit = if i < 5 then 0 else 1 := by
  match i with
  | 0 | 1 | 2 | 3 | 4 | 5 => rfl
  | i + 6 => rw [List.take_of_length_le (by simp)]; rfl

theorem executed_making {k : Nat} (within : k ≤ (adds b.found).length) :
    b.executed (k + 3) = making ++ (adds b.found).take k := by
  have shape : b.executed (k + 3) = making ++ (adds b.found ++ filling b.found).take k := rfl
  rw [shape, List.take_append_of_le_length within]

theorem executed_filling (i : Nat) :
    b.executed ((adds b.found).length + i + 3) = making ++ adds b.found ++ (filling b.found).take i := by
  have shape : b.executed ((adds b.found).length + i + 3) =
      making ++ (adds b.found ++ filling b.found).take ((adds b.found).length + i) := rfl
  rw [shape, List.take_length_add_append, List.append_assoc]

/-- While the other table is made, it is there after a crash. -/
theorem crash_making (j : Nat) {k : Nat} (within : k ≤ (adds b.found).length) :
    (∃ columns, b.crashed j (k + 3) = .ok (beside b.schema b.found columns)) ∧
      ¬ Committed (b.executed (k + 3)) := by
  constructor
  · refine ⟨verdictsDDL ++ (retired b.found).take k, ?_⟩
    rw [Begun.crashed, executed_making b within, execAll_made b.once k rfl]
    rfl
  · intro committed
    have two := committed (by rw [executed_making b within]; simp)
    rw [executed_making b within, List.count_append, count_adds] at two
    cases two

/-- While it is filled too, until the rebuild commits. -/
theorem crash_filling (j i : Nat) :
    (b.crashed j ((adds b.found).length + i + 3) = .ok (if i < 5 then
        beside b.schema b.found (verdictsDDL ++ retired b.found)
      else ⟨b.schema, some (rebuilt b.found), none⟩)) ∧
      (Committed (b.executed ((adds b.found).length + i + 3)) ↔ ¬ i < 5) := by
  constructor
  · have made := @execAll_made b.schema b.found b.once (adds b.found).length (b.session j) rfl
    rw [List.take_length, List.length_map, List.take_length] at made
    obtain ⟨s, filled, durable⟩ := @execAll_filled b.schema b.found i
    rw [Begun.crashed, executed_filling, execAll_append, made, ← durable]
    exact congrArg (Except.map Session.durable) filled
  · have count : (b.executed ((adds b.found).length + i + 3)).count .commit =
        1 + if i < 5 then 0 else 1 := by
      have none := count_adds b.found (adds b.found).length
      rw [List.take_length] at none
      rw [executed_filling, List.count_append, List.count_append, none, count_filling]
      rfl
    have made : Stmt.create verdictsDDL ∈ b.executed ((adds b.found).length + i + 3) := by
      rw [executed_filling]
      simp
    rw [Committed, count]
    split
    next early => exact iff_of_false (fun two => absurd (two made) (by decide)) (not_not_intro early)
    next late => exact iff_of_true (fun _ => rfl) late

/-- A crash leaves the table as some step or the rebuild left it, or the other table beside it. -/
theorem crash_cases (j k : Nat) :
    (∃ t, b.crashed j k = .ok ⟨b.schema, some t, none⟩ ∧
        (t = b.stage j ∨ t = b.found ∨ t = rebuilt b.found) ∧ Committed (b.executed k)) ∨
      ∃ columns, b.crashed j k = .ok (beside b.schema b.found columns) ∧ ¬ Committed (b.executed k) := by
  have program : verdictsNameACandidate b.found = making ++ (adds b.found ++ filling b.found) := rfl
  rcases k with _ | _ | _ | k
  · exact .inl ⟨b.stage j, rfl, .inl rfl, by rw [Begun.executed, program]; simp [Committed]⟩
  · exact .inl ⟨b.found, rfl, .inr (.inl rfl), by rw [Begun.executed, program]; simp [Committed]⟩
  · exact .inl ⟨b.found, rfl, .inr (.inl rfl), by rw [Begun.executed, program]; simp [Committed]⟩
  · by_cases within : k ≤ (adds b.found).length
    · obtain ⟨⟨columns, crashed⟩, pending⟩ := crash_making b j within
      exact .inr ⟨columns, crashed, pending⟩
    · obtain ⟨i, rfl⟩ := Nat.exists_eq_add_of_le (Nat.le_of_not_le within)
      obtain ⟨crashed, committed⟩ := crash_filling b j i
      by_cases early : i < 5
      · rw [if_pos early] at crashed
        exact .inr ⟨_, crashed, fun done => committed.mp done early⟩
      · rw [if_neg early] at crashed
        exact .inl ⟨_, crashed, .inr (.inr rfl), committed.mpr early⟩

/-! ## The migration after it -/

theorem dueActions_due : due 24 .data false b.schema = true := by
  simp [due, b.older]

/-- A store of the schema whose table comes to what the rebuild found. -/
theorem migrateSteps_eq {t t' : Table} {other : Option Table}
    (reaches : performAll (dueActions b.schema) t = .ok t') (rest : Db → Except Error Db) :
    migrateSteps rest ⟨b.schema, some t, other⟩ =
      (execAll (verdictsNameACandidate t') (.fresh ⟨b.schema, some t', other⟩)).bind fun s =>
        (rest s.working).bind fun got => .ok { got with schema := SCHEMA_VERSION } := by
  have older := b.older
  have apart : b.schema ≠ SCHEMA_VERSION := by unfold SCHEMA_VERSION; omega
  have below : ¬ SCHEMA_VERSION < b.schema := by unfold SCHEMA_VERSION; omega
  rw [migrateSteps, if_neg apart, if_neg below]
  dsimp only
  rw [reaches, dueActions_due]
  dsimp only [bind, Except.bind]
  rw [if_pos rfl]
  cases execAll (verdictsNameACandidate t') (.fresh ⟨b.schema, some t', other⟩) <;> rfl

theorem execAll_whole {schema : Nat} {t : Table} (once : t.names.Nodup) :
    ∃ s, execAll (verdictsNameACandidate t) (.fresh ⟨schema, some t, none⟩) = .ok s ∧
      s.working = ⟨schema, some (rebuilt t), none⟩ := by
  have made := @execAll_made schema t once (adds t).length (.fresh ⟨schema, some t, none⟩) rfl
  rw [List.take_length, List.length_map, List.take_length] at made
  have program : verdictsNameACandidate t = (making ++ adds t) ++ filling t := rfl
  rw [program, execAll_append, made]
  exact ⟨_, rfl, rfl⟩

/-- The other table stops the rebuild. -/
theorem migrateSteps_beside (columns : List Column) (rest : Db → Except Error Db) :
    migrateSteps rest (beside b.schema b.found columns) = .error (.tableExists "verdicts_new") := by
  have reaches := b.performAll_grown (.refl b.found)
  rw [beside, migrateSteps_eq b reaches]
  rfl

theorem names_rebuilt_once {t : Table} (once : t.names.Nodup) : (rebuilt t).names.Nodup :=
  retired_once once

/-- From the table as some step left it, and from the rebuilt table, a migration comes to the
    rebuilt table. -/
theorem migrateSteps_table {j : Nat} {t : Table}
    (left : t = b.stage j ∨ t = b.found ∨ t = rebuilt b.found) (rest : Db → Except Error Db) :
    migrateSteps rest ⟨b.schema, some t, none⟩ =
      (rest ⟨b.schema, some (rebuilt b.found), none⟩).bind fun got =>
        .ok { got with schema := SCHEMA_VERSION } := by
  have found : performAll (dueActions b.schema) t = .ok b.found →
      migrateSteps rest ⟨b.schema, some t, none⟩ =
        (rest ⟨b.schema, some (rebuilt b.found), none⟩).bind fun got =>
          .ok { got with schema := SCHEMA_VERSION } := by
    intro reaches
    obtain ⟨s, ran, working⟩ := @execAll_whole b.schema b.found b.once
    rw [migrateSteps_eq b reaches, ran, ← working]
    rfl
  rcases left with rfl | rfl | rfl
  · exact found (b.performAll_stage j)
  · exact found (b.performAll_grown (.refl b.found))
  · obtain ⟨s, ran, working⟩ := @execAll_whole b.schema (rebuilt b.found) (names_rebuilt_once b.once)
    rw [rebuilt_rebuilt] at working
    rw [migrateSteps_eq b (b.performAll_grown (grown_rebuilt b.found)), ran, ← working]
    rfl

theorem migrateSteps_store (rest : Db → Except Error Db) :
    migrateSteps rest b.store = (rest ⟨b.schema, some (rebuilt b.found), none⟩).bind fun got =>
      .ok { got with schema := SCHEMA_VERSION } := by
  have first : b.stage 0 = b.table := rfl
  exact migrateSteps_table b (.inl first.symm) rest

/-- The migration goes through again exactly where a rebuild that made the other table had been
    committed. -/
theorem migratesAgain_iff (b : Begun) (j k : Nat) :
    MigratesAgain b j k ↔ Committed (b.executed k) := by
  rcases crash_cases b j k with ⟨t, crashed, left, committed⟩ | ⟨columns, crashed, pending⟩
  · refine iff_of_true ⟨fun rest => ?_, ?_⟩ committed
    · rw [crashed, Except.bind, migrateSteps_table b left, migrateSteps_store]
    · refine ⟨⟨SCHEMA_VERSION, some (rebuilt b.found), none⟩, rebuilt b.found, ?_, rfl, rfl, ?_⟩
      · rw [crashed, Except.bind, migrateSteps_table b left]
        rfl
      · intro name here
        rw [value_rebuilt, List.map_map]
        exact List.map_congr_left fun row _ => if_pos here
  · refine iff_of_false (fun again => ?_) pending
    obtain ⟨db, -, went, -⟩ := again.2
    rw [crashed, Except.bind, migrateSteps_beside] at went
    cases went

/-! ## A rebuild that is interrupted once it has made the other table -/

/-- One verdict, in a table that has every column already and one since retired. -/
def verdictsAt23 : Table where
  columns := verdictsDDL ++ [⟨"issue", "INTEGER", .null⟩]
  rows := [fun name => if name = "id" then .integer 1 else .text "measured"]

theorem verdictsAt23_reached : performAll (dueActions 23) verdictsAt23 = .ok verdictsAt23 := by
  rfl

theorem verdictsAt23_once : verdictsAt23.names.Nodup := by
  decide

theorem older23 : 0 < 23 ∧ 23 < 24 := by
  decide

def begun23 : Begun where
  schema := 23
  older := older23
  table := verdictsAt23
  found := verdictsAt23
  reached := verdictsAt23_reached
  once := verdictsAt23_once

/-- The crash falls after `CREATE TABLE`, and no later migration gets past it. -/
theorem verdicts_new_left :
    (begun23.crashed 0 3).bind (migrateSteps .ok) = .error (.tableExists "verdicts_new") ∧
      ¬ MigratesAgain begun23 0 3 := by
  have stops : (begun23.crashed 0 3).bind (migrateSteps .ok) = .error (.tableExists "verdicts_new") := by
    rfl
  refine ⟨stops, fun again => ?_⟩
  obtain ⟨db, -, went, -⟩ := again.2
  rw [stops] at went
  cases went

end LocalHarness.Migrations
