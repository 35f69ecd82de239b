import Mathlib.Data.Fintype.Basic
import LocalHarness.Library.Fallible
import LocalHarness.Migrations.Connect

/-! # Processes that migrate one store together

The chain decides from the number that was read before it and writes the number after it. While a
process is in between, whoever else reads the number runs the chain a second time. Where nobody
does, one process migrates, as it would alone, and the others find its number.
-/

namespace LocalHarness.Migrations

open LocalHarness.Library LocalHarness.Runs

variable {P ρ : Type}

/-! ## Creating the tables -/

namespace Store

@[simp] theorem schema_create (s : Store ρ) (table : String × List String) :
    (s.create table).schema = s.schema := by
  rw [create]
  split <;> rfl

@[simp] theorem rows_create (s : Store ρ) (table : String × List String) :
    (s.create table).rows = s.rows := by
  rw [create]
  split <;> rfl

theorem tables_setTable (s : Store ρ) (table : String) (columns : List String) (name : String) :
    (s.setTable table columns).tables name =
      if name = table then some columns else s.tables name :=
  Function.update_apply s.tables table (some columns) name

theorem tables_create (s : Store ρ) (table : String × List String) (name : String) :
    (s.create table).tables name =
      (s.tables name).or (if name = table.1 then some table.2 else none) := by
  rw [create]
  split
  · next there =>
      by_cases this : name = table.1
      · subst this
        rw [Option.or_of_isSome there]
      · rw [if_neg this, Option.or_none]
  · next missing =>
      have missing : s.tables table.1 = none := by simpa using missing
      by_cases this : name = table.1
      · subst this
        rw [tables_setTable, missing, if_pos rfl, Option.none_or]
      · rw [tables_setTable, if_neg this, if_neg this, Option.or_none]

theorem schema_made (s : Store ρ) (tables : List (String × List String)) :
    (s.made tables).schema = s.schema := by
  induction tables generalizing s with
  | nil => rfl
  | cons table rest ih => exact (ih (s.create table)).trans (s.schema_create table)

theorem rows_made (s : Store ρ) (tables : List (String × List String)) :
    (s.made tables).rows = s.rows := by
  induction tables generalizing s with
  | nil => rfl
  | cons table rest ih => exact (ih (s.create table)).trans (s.rows_create table)

theorem tables_made (s : Store ρ) (tables : List (String × List String)) (name : String) :
    (s.made tables).tables name = (s.tables name).or (tables.lookup name) := by
  induction tables generalizing s with
  | nil => exact (Option.or_none).symm
  | cons table rest ih =>
      have shape := (ih (s.create table)).trans (by rw [s.tables_create table name, Option.or_assoc])
      refine shape.trans (congrArg _ ?_)
      by_cases this : name = table.1
      · rw [if_pos this, Option.some_or, this, List.lookup_cons, beq_self_eq_true]
      · rw [if_neg this, Option.none_or, List.lookup_cons, beq_false_of_ne this]

theorem ext_tables {s t : Store ρ} (schema : s.schema = t.schema) (rows : s.rows = t.rows)
    (tables : ∀ name, s.tables name = t.tables name) : s = t := by
  cases s
  cases t
  obtain rfl := schema
  obtain rfl := rows
  obtain rfl : _ = _ := funext tables
  rfl

end Store

theorem lookup_DDL : ∀ table ∈ _DDL, _DDL.lookup table.1 = some table.2 := by
  decide

/-- The DDL may have been run up to anywhere, by several processes, and nothing else. -/
structure Store.Between (first s : Store ρ) : Prop where
  schema : s.schema = first.schema
  rows : s.rows = first.rows
  tables : ∀ name, s.tables name = first.tables name ∨
    s.tables name = (first.made _DDL).tables name

namespace Store.Between

theorem refl (s : Store ρ) : s.Between s :=
  ⟨rfl, rfl, fun _ => .inl rfl⟩

theorem create {first s : Store ρ} (between : first.Between s) {table : String × List String}
    (inside : table ∈ _DDL) (missing : s.tables table.1 = none) :
    first.Between (s.create table) where
  schema := (s.schema_create table).trans between.schema
  rows := (s.rows_create table).trans between.rows
  tables := fun name => by
    rw [s.tables_create]
    by_cases this : name = table.1
    · subst this
      have first_missing : first.tables table.1 = none := by
        rcases between.tables table.1 with same | same
        · rw [← same, missing]
        · rw [missing, first.tables_made, lookup_DDL table inside] at same
          cases found : first.tables table.1 <;> simp [found] at same
      right
      rw [missing, if_pos rfl, first.tables_made, lookup_DDL table inside, first_missing]
    · rw [if_neg this, Option.or_none]
      exact between.tables name

/-- Once every table is there, the store is the one that a single run of the DDL makes. -/
theorem made {first s : Store ρ} (between : first.Between s)
    (every : ∀ table ∈ _DDL, (s.tables table.1).isSome = true) : s = first.made _DDL := by
  refine ext_tables (between.schema.trans (first.schema_made _DDL).symm)
    (between.rows.trans (first.rows_made _DDL).symm) fun name => ?_
  rcases between.tables name with same | same
  · rw [first.tables_made, ← same]
    cases there : s.tables name with
    | some columns => rfl
    | none =>
        have absent : _DDL.lookup name = none := by
          rw [List.lookup_eq_none_iff]
          intro table inside
          have found := every table inside
          by_contra same
          have same : name = table.1 := by simpa using same
          rw [← same, there] at found
          exact nomatch found
        rw [absent, Option.or_none]
  · exact same

end Store.Between

/-! ## One process on its own -/

namespace Checkout

variable (checkout : Checkout P ρ)

theorem found_older {have_ : Nat} (older : have_ < SCHEMA_VERSION) (p : P) :
    checkout.found p have_ = .migrating (checkout.migrateSteps p have_) := by
  rw [found, if_neg (Nat.ne_of_lt older), if_neg (Nat.not_lt_of_gt older)]

theorem found_current (p : P) : checkout.found p SCHEMA_VERSION = .opened := by
  rw [found, if_pos rfl]

/-- A process that succeeds alone ends with its commit, and with the number of its code. -/
theorem runs_of_connect {p : P} {s r : Store ρ} (older : s.schema < SCHEMA_VERSION)
    (connected : checkout.connect p s = .ok r) :
    checkout.refuses = false ∧ r.schema = SCHEMA_VERSION ∧
      (checkout.migrateSteps p s.schema).run (.fresh (s.made _DDL)) = .ok (.fresh r) := by
  rw [connect] at connected
  split at connected
  · exact nomatch connected
  · next allowed =>
      have kept : (s.made _DDL).schema = s.schema := s.schema_made _DDL
      have older' : (s.made _DDL).schema < SCHEMA_VERSION := kept.symm ▸ older
      rw [if_neg (Nat.ne_of_lt older'), if_neg (Nat.not_lt_of_gt older')] at connected
      obtain ⟨final, ran, rfl⟩ := map_ok connected
      obtain ⟨before, rfl⟩ := Program.run_ends_fresh ran
      refine ⟨by simpa [older] using allowed, rfl, kept ▸ ran⟩

/-- What a process on its own makes of the store, with every table of the DDL in it. -/
structure Single (p : P) (s r : Store ρ) : Prop where
  connected : checkout.connect p s = .ok r
  every : ∀ table ∈ _DDL, (r.tables table.1).isSome = true

end Checkout

/-! ## Keeping apart -/

namespace World

/-- The next statement reads the schema number. -/
def readsNumber (w : World P ρ) (p : P) : Bool :=
  match w.stage p with
  | .creating [] => true
  | _ => false

/-- The next statement creates a table that is missing. -/
def misses (w : World P ρ) (p : P) : Bool :=
  match w.stage p with
  | .creating (table :: _) => (w.store.tables table.1).isNone
  | _ => false

/-- Whoever reads the schema number, or creates a missing table, does it while nobody is in the
    chain. -/
def Apart (w : World P ρ) (p : P) : Prop :=
  (w.readsNumber p || w.misses p) = true → ∀ q, w.inChain q = false

instance [Fintype P] (w : World P ρ) (p : P) : Decidable (w.Apart p) :=
  inferInstanceAs (Decidable ((w.readsNumber p || w.misses p) = true → ∀ q, w.inChain q = false))

theorem Apart.of_reads {w : World P ρ} {p : P} (apart : w.Apart p) (here : w.stage p = .creating [])
    (q : P) : w.inChain q = false :=
  apart (by rw [readsNumber, here, Bool.true_or]) q

theorem Apart.of_misses {w : World P ρ} {p : P} (apart : w.Apart p)
    {table : String × List String} {rest : List (String × List String)}
    (here : w.stage p = .creating (table :: rest)) (missing : w.store.tables table.1 = none) (q : P) :
    w.inChain q = false :=
  apart (by simp [misses, here, missing]) q

theorem inChain_of_migrating {w : World P ρ} {q : P} {rest : Body ρ}
    (here : w.stage q = .migrating rest) : w.inChain q = true := by
  rw [inChain, here]

end World

/-! ## What a statement can do -/

variable [DecidableEq P]

namespace Checkout

variable (checkout : Checkout P ρ)

inductive Moves (w : World P ρ) (p : P) : World P ρ → Prop
  | guards (here : w.stage p = .guarding) :
      Moves w p (w.setStage p <|
        if checkout.refuses && decide (w.store.schema < SCHEMA_VERSION) then
          .raised (.liveStoreRefused w.store.schema)
        else .creating _DDL)
  | passes {table rest} (here : w.stage p = .creating (table :: rest))
      (there : (w.store.tables table.1).isSome = true) : Moves w p (w.setStage p (.creating rest))
  | creates {table rest} (here : w.stage p = .creating (table :: rest))
      (missing : w.store.tables table.1 = none) (free : w.shared.free p = true) :
      Moves w p
        { shared := { w.shared with committed := w.store.create table }
          stage := Function.update w.stage p (.creating rest) }
  | reads (here : w.stage p = .creating []) :
      Moves w p (w.setStage p (checkout.found p w.store.schema))
  | ends (here : w.stage p = .migrating .through) : Moves w p (w.setStage p .opened)
  | fails {refusal} (here : w.stage p = .migrating (.raise refusal)) :
      Moves w p
        { shared := w.shared.release p
          stage := Function.update w.stage p (.raised refusal) }
  | runs {rest shared rest'} (here : w.stage p = .migrating rest)
      (moved : w.shared.statement p rest = some (shared, rest')) :
      Moves w p
        { shared := shared
          stage := Function.update w.stage p (.migrating rest') }

theorem moves_of_step {w w' : World P ρ} {p : P} (stepped : checkout.step w p = some w') :
    checkout.Moves w p w' := by
  cases here : w.stage p with
  | guarding =>
      rw [step, here] at stepped
      exact Option.some.inj stepped ▸ .guards here
  | creating todo =>
      cases todo with
      | nil =>
          rw [step, here] at stepped
          exact Option.some.inj stepped ▸ .reads here
      | cons table rest =>
          simp only [step, here] at stepped
          split at stepped
          · next there => exact Option.some.inj stepped ▸ .passes here there
          · next missing =>
              obtain ⟨free, stepped⟩ := Option.ite_none_right_eq_some.mp stepped
              exact Option.some.inj stepped ▸ .creates here (by simpa using missing) free
  | migrating rest =>
      cases rest with
      | through =>
          rw [step, here] at stepped
          exact Option.some.inj stepped ▸ .ends here
      | raise refusal =>
          rw [step, here] at stepped
          exact Option.some.inj stepped ▸ .fails here
      | read next | exec opens change next | commit next =>
          simp only [step, here, Option.map_eq_some_iff] at stepped
          obtain ⟨moved, statement, rfl⟩ := stepped
          exact .runs here statement
  | opened => simp [step, here] at stepped
  | raised refusal => simp [step, here] at stepped

end Checkout

/-! ## What stays so -/

/-- The process has not read the schema number yet. -/
inductive Waiting : Stage ρ → Prop
  | guarding : Waiting .guarding
  | creating {todo : List (String × List String)} (inside : ∀ table ∈ todo, table ∈ _DDL) :
      Waiting (.creating todo)

/-- What such a process has behind it is there. -/
def Covered (store : Store ρ) (stage : Stage ρ) : Prop :=
  ∀ todo, stage = .creating todo →
    ∀ table ∈ _DDL, table ∈ todo ∨ (store.tables table.1).isSome = true

namespace Checkout

variable (checkout : Checkout P ρ)

inductive Stands (first : Store ρ) (w : World P ρ) : Prop
  | before (unlocked : w.shared.lock = none) (between : first.Between w.store)
      (each : ∀ p, Waiting (w.stage p) ∧ Covered w.store (w.stage p))
  | during {q : P} {r : Store ρ} {rest : Body ρ} (single : checkout.Single q first r)
      (here : w.stage q = .migrating rest) (free : w.shared.free q = true)
      (runs : rest.run (w.shared.session q) = .ok (.fresh r))
      (others : ∀ p, p ≠ q → Waiting (w.stage p))
  | after {q : P} (single : checkout.Single q first w.store) (unlocked : w.shared.lock = none)
      (each : ∀ p, Waiting (w.stage p) ∨ w.stage p = .opened)

variable {checkout}

theorem Stands.of_start {first : Store ρ} {w : World P ρ}
    (started : (checkout.system first).start w) : checkout.Stands first w := by
  obtain ⟨shared, stages⟩ := started
  refine .before (by rw [shared]) ?_ fun p => ?_
  · rw [World.store, shared]
    exact .refl first
  · rw [stages p]
    exact ⟨.guarding, fun todo this => nomatch this⟩

/-- Nobody has migrated: the DDL goes on, until somebody reads the older number. -/
theorem Stands.step_before {first : Store ρ} {w w' : World P ρ} {p : P}
    (older : first.schema < SCHEMA_VERSION) {r : Store ρ} (single : checkout.Single p first r)
    (unlocked : w.shared.lock = none) (between : first.Between w.store)
    (each : ∀ p, Waiting (w.stage p) ∧ Covered w.store (w.stage p))
    (moves : checkout.Moves w p w') : checkout.Stands first w' := by
  obtain ⟨allowed, -, runs⟩ := checkout.runs_of_connect older single.connected
  cases moves with
  | guards here =>
      rw [allowed, Bool.false_and, if_neg Bool.false_ne_true]
      refine .before unlocked between ((Function.forall_update_iff w.stage fun _ stage =>
        Waiting stage ∧ Covered w.store stage).mpr ⟨⟨.creating fun _ => id, ?_⟩, fun q _ => each q⟩)
      intro todo same table inside
      exact .inl (Stage.creating.inj same ▸ inside)
  | @passes table rest here there =>
      obtain ⟨waiting, covered⟩ := each p
      rw [here] at waiting
      cases waiting with
      | creating inside =>
          refine .before unlocked between ((Function.forall_update_iff w.stage fun _ stage =>
            Waiting stage ∧ Covered w.store stage).mpr ⟨⟨.creating fun other later =>
              inside other (List.mem_cons_of_mem table later), ?_⟩, fun q _ => each q⟩)
          intro todo same other known
          obtain rfl := Stage.creating.inj same
          rcases covered (table :: rest) here other known with later | found
          · rcases List.mem_cons.mp later with rfl | later
            · exact .inr there
            · exact .inl later
          · exact .inr found
  | @creates table rest here missing free =>
      obtain ⟨waiting, covered⟩ := each p
      rw [here] at waiting
      cases waiting with
      | creating inside =>
          have grows : ∀ other : String × List String, (w.store.tables other.1).isSome = true →
              ((w.store.create table).tables other.1).isSome = true := fun other found => by
            rw [w.store.tables_create, Option.or_of_isSome found]
            exact found
          refine .before unlocked (between.create (inside table List.mem_cons_self) missing)
            ((Function.forall_update_iff w.stage fun _ stage =>
              Waiting stage ∧ Covered (w.store.create table) stage).mpr ⟨⟨.creating fun other later =>
                inside other (List.mem_cons_of_mem table later), ?_⟩, fun q _ => ⟨(each q).1, ?_⟩⟩)
          · intro todo same other known
            obtain rfl := Stage.creating.inj same
            rcases covered (table :: rest) here other known with later | found
            · rcases List.mem_cons.mp later with rfl | later
              · right
                rw [w.store.tables_create, missing, if_pos rfl]
                rfl
              · exact .inl later
            · exact .inr (grows other found)
          · intro todo same other known
            exact ((each q).2 todo same other known).imp_right (grows other)
  | reads here =>
      have every : ∀ table ∈ _DDL, (w.store.tables table.1).isSome = true := fun table known =>
        ((each p).2 [] here table known).resolve_left List.not_mem_nil
      have made := between.made every
      rw [made, first.schema_made, checkout.found_older older]
      refine .during single (Function.update_self p _ w.stage)
        (Shared.free_of_lock_none unlocked p) ?_ fun q other => ?_
      · change Program.run _ (w.shared.session p) = _
        rw [Shared.session_of_lock_none unlocked]
        change Program.run _ (.fresh w.store) = _
        rw [made]
        exact runs
      · change Waiting (Function.update w.stage p _ q)
        rw [Function.update_of_ne other]
        exact (each q).1
  | ends here | fails here | runs here moved =>
      have waiting := (each p).1
      rw [here] at waiting
      exact nomatch waiting

/-- One process is in the chain: nobody else gets past the DDL, and its own statements take it on. -/
theorem Stands.step_during {first : Store ρ} {w w' : World P ρ} {p q : P} {r : Store ρ}
    {rest : Body ρ} (older : first.schema < SCHEMA_VERSION) (single : checkout.Single q first r)
    (migrating : w.stage q = .migrating rest) (free : w.shared.free q = true)
    (runs : rest.run (w.shared.session q) = .ok (.fresh r))
    (others : ∀ p, p ≠ q → Waiting (w.stage p)) (apart : w.Apart p)
    (moves : checkout.Moves w p w') : checkout.Stands first w' := by
  obtain ⟨allowed, -, -⟩ := checkout.runs_of_connect older single.connected
  -- Whoever has another stage than the one in the chain is another process.
  have another : ∀ {stage : Stage ρ}, w.stage p = stage → (∀ rest, stage ≠ .migrating rest) →
      p ≠ q := fun here differs same => differs rest (here ▸ same ▸ migrating)
  have elsewhere : ∀ {stage : Stage ρ}, p ≠ q → Waiting stage →
      checkout.Stands first (w.setStage p stage) := fun {stage} other waits =>
    .during single ((Function.update_of_ne other.symm _ w.stage).trans migrating) free runs
      ((Function.forall_update_iff w.stage fun p stage => p ≠ q → Waiting stage).mpr
        ⟨fun _ => waits, fun p _ => others p⟩)
  cases moves with
  | guards here =>
      rw [allowed, Bool.false_and, if_neg Bool.false_ne_true]
      exact elsewhere (another here fun _ this => nomatch this) (.creating fun _ => id)
  | @passes table later here there =>
      have other : p ≠ q := another here fun _ this => nomatch this
      have waiting := others p other
      rw [here] at waiting
      cases waiting with
      | creating inside =>
          exact elsewhere other (.creating fun t known => inside t (List.mem_cons_of_mem table known))
  | creates here missing _ =>
      exact absurd (World.inChain_of_migrating migrating)
        (Bool.eq_false_iff.mp (apart.of_misses here missing q))
  | reads here =>
      exact absurd (World.inChain_of_migrating migrating)
        (Bool.eq_false_iff.mp (apart.of_reads here q))
  | ends here =>
      by_cases same : p = q
      · subst same
        obtain rfl := Stage.migrating.inj (migrating.symm.trans here)
        have shared := Shared.eq_of_session_fresh free (Except.ok.inj runs)
        have kept : w.store = r := congrArg Shared.committed shared
        refine .after (q := p) (kept.symm ▸ single) (congrArg Shared.lock shared) ?_
        exact (Function.forall_update_iff w.stage fun _ stage => Waiting stage ∨ stage = .opened).mpr
          ⟨.inr rfl, fun other differs => .inl (others other differs)⟩
      · have waiting := others p same
        rw [here] at waiting
        exact nomatch waiting
  | fails here =>
      by_cases same : p = q
      · subst same
        obtain rfl := Stage.migrating.inj (migrating.symm.trans here)
        exact nomatch runs
      · have waiting := others p same
        rw [here] at waiting
        exact nomatch waiting
  | runs here moved =>
      by_cases same : p = q
      · subst same
        obtain rfl := Stage.migrating.inj (migrating.symm.trans here)
        exact .during single (Function.update_self p _ w.stage) (Shared.free_of_statement moved free)
          ((Shared.run_of_statement moved).symm.trans runs) fun other differs => by
            change Waiting (Function.update w.stage p _ other)
            rw [Function.update_of_ne differs]
            exact others other differs
      · have waiting := others p same
        rw [here] at waiting
        exact nomatch waiting

/-- Somebody has migrated: the number is the code's own, and nothing is missing. -/
theorem Stands.step_after {first : Store ρ} {w w' : World P ρ} {p q : P}
    (older : first.schema < SCHEMA_VERSION) (single : checkout.Single q first w.store)
    (unlocked : w.shared.lock = none) (each : ∀ p, Waiting (w.stage p) ∨ w.stage p = .opened)
    (moves : checkout.Moves w p w') : checkout.Stands first w' := by
  obtain ⟨allowed, current, -⟩ := checkout.runs_of_connect older single.connected
  have onwards : ∀ {stage : Stage ρ}, Waiting stage ∨ stage = .opened →
      checkout.Stands first (w.setStage p stage) := fun {stage} fits =>
    .after single unlocked
      ((Function.forall_update_iff w.stage fun _ stage => Waiting stage ∨ stage = .opened).mpr
        ⟨fits, fun q _ => each q⟩)
  have inside : ∀ {todo : List (String × List String)}, w.stage p = .creating todo →
      ∀ table ∈ todo, table ∈ _DDL := fun here => by
    have fits := each p
    rw [here] at fits
    obtain waiting | this := fits
    · cases waiting with
      | creating inside => exact inside
    · exact nomatch this
  have outside : ∀ {rest : Body ρ}, w.stage p ≠ .migrating rest := fun here => by
    have fits := each p
    rw [here] at fits
    obtain this | this := fits <;> exact nomatch this
  cases moves with
  | guards here =>
      rw [allowed, Bool.false_and, if_neg Bool.false_ne_true]
      exact onwards (.inl (.creating fun _ => id))
  | passes here there =>
      exact onwards (.inl (.creating fun t known => inside here t (List.mem_cons_of_mem _ known)))
  | creates here missing _ =>
      have there := single.every _ (inside here _ List.mem_cons_self)
      rw [missing] at there
      exact nomatch there
  | reads here =>
      rw [current, checkout.found_current]
      exact onwards (.inr rfl)
  | ends here => exact absurd here outside
  | fails here => exact absurd here outside
  | runs here moved => exact absurd here outside

/-- Processes that keep apart stand so in every state they reach. -/
theorem stands {first : Store ρ} (older : first.schema < SCHEMA_VERSION)
    (alone : ∀ p, ∃ r, checkout.Single p first r) :
    (checkout.system first).InvariantWhen World.Apart (checkout.Stands first) where
  start := fun _ started => .of_start started
  step := fun w p w' stands apart stepped => by
    have moves := checkout.moves_of_step stepped
    obtain ⟨r, mine⟩ := alone p
    cases stands with
    | before unlocked between each => exact .step_before older mine unlocked between each moves
    | during single here free runs others =>
        exact .step_during older single here free runs others apart moves
    | after single unlocked each => exact .step_after older single unlocked each moves

end Checkout

end LocalHarness.Migrations
