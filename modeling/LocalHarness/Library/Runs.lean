import Mathlib.Data.List.Dedup
import Mathlib.Logic.Relation

/-! # Runs of a guarded transition system

A system is a set of starting states and a partial step for each action. Safety
is an invariant of the states reachable by steps that each meet a guard; the
unguarded case is the guard that is always true.
-/

namespace LocalHarness.Runs

universe u v

/-- A system whose actions may be disabled: `none` is no step at all. -/
structure System (σ : Type u) (α : Type v) where
  start : σ → Prop
  step : σ → α → Option σ

namespace System

variable {σ : Type u} {α : Type v} (system : System σ α)

/-- The states reached from a start by steps that each meet `ok`. -/
inductive ReachableWhen (ok : σ → α → Prop) : σ → Prop
  | start {s} : system.start s → ReachableWhen ok s
  | step {s a s'} : ReachableWhen ok s → ok s a → system.step s a = some s' →
      ReachableWhen ok s'

/-- The states reached by any steps. -/
abbrev Reachable : σ → Prop :=
  system.ReachableWhen (fun _ _ => True)

/-- The state after a list of actions, when each of them is enabled in turn. -/
def run : σ → List α → Option σ
  | s, [] => some s
  | s, a :: rest => (system.step s a).bind fun next => run next rest

/-- Every step of the run meets `ok`. -/
def Meets (ok : σ → α → Prop) : σ → List α → Prop
  | _, [] => True
  | s, a :: rest => ok s a ∧ ∀ next, system.step s a = some next → Meets ok next rest

instance decidableMeets (ok : σ → α → Prop) [∀ s a, Decidable (ok s a)] :
    (s : σ) → (actions : List α) → Decidable (system.Meets ok s actions)
  | _, [] => .isTrue trivial
  | s, a :: rest =>
      match shape : system.step s a with
      | none => decidable_of_iff (ok s a) (by simp [Meets, shape])
      | some next =>
          have := decidableMeets ok next rest
          decidable_of_iff (ok s a ∧ system.Meets ok next rest) (by simp [Meets, shape])

/-- What one guarded step preserves, and every start has. -/
structure InvariantWhen (ok : σ → α → Prop) (holds : σ → Prop) : Prop where
  start : ∀ s, system.start s → holds s
  step : ∀ s a s', holds s → ok s a → system.step s a = some s' → holds s'

@[simp] theorem run_nil (s : σ) : system.run s [] = some s := rfl

@[simp] theorem run_cons (s : σ) (a : α) (rest : List α) :
    system.run s (a :: rest) = (system.step s a).bind fun next => system.run next rest := rfl

theorem run_cons_some {s s' : σ} {a : α} {rest : List α}
    (ran : system.run s (a :: rest) = some s') :
    ∃ next, system.step s a = some next ∧ system.run next rest = some s' := by
  simpa only [run_cons, Option.bind_eq_some_iff] using ran

variable {system}

theorem InvariantWhen.holds {ok : σ → α → Prop} {holds : σ → Prop}
    (invariant : system.InvariantWhen ok holds) {s : σ}
    (reached : system.ReachableWhen ok s) : holds s := by
  induction reached with
  | start started => exact invariant.start _ started
  | step _ allowed stepped ih => exact invariant.step _ _ _ ih allowed stepped

/-- An invariant may be proved under another one already known. -/
theorem InvariantWhen.and_then {ok : σ → α → Prop} {known holds : σ → Prop}
    (first : system.InvariantWhen ok known)
    (start : ∀ s, system.start s → holds s)
    (step : ∀ s a s', known s → holds s → ok s a → system.step s a = some s' → holds s') :
    system.InvariantWhen ok (fun s => known s ∧ holds s) where
  start := fun s started => ⟨first.start s started, start s started⟩
  step := fun s a s' both allowed stepped =>
    ⟨first.step s a s' both.1 allowed stepped,
      step s a s' both.1 both.2 allowed stepped⟩

theorem ReachableWhen.mono {ok wider : σ → α → Prop} (weaker : ∀ s a, ok s a → wider s a)
    {s : σ} (reached : system.ReachableWhen ok s) : system.ReachableWhen wider s := by
  induction reached with
  | start started => exact .start started
  | step _ allowed stepped ih => exact .step ih (weaker _ _ allowed) stepped

/-- A run from a reachable state whose steps meet the guard ends in a reachable state. -/
theorem ReachableWhen.run {ok : σ → α → Prop} {s s' : σ} {actions : List α}
    (reached : system.ReachableWhen ok s) (met : system.Meets ok s actions)
    (ran : system.run s actions = some s') : system.ReachableWhen ok s' := by
  induction actions generalizing s with
  | nil =>
      rw [run_nil, Option.some.injEq] at ran
      exact ran ▸ reached
  | cons a rest ih =>
      obtain ⟨next, stepped, ran⟩ := system.run_cons_some ran
      exact ih (.step reached met.1 stepped) (met.2 next stepped) ran

theorem meets_true (s : σ) (actions : List α) : system.Meets (fun _ _ => True) s actions := by
  induction actions generalizing s with
  | nil => trivial
  | cons a rest ih => exact ⟨trivial, fun next _ => ih next⟩

/-- A run from a start whose steps meet the guard, to a state that passes a test. -/
theorem reached_by_run {ok : σ → α → Prop} {s : σ} {actions : List α} (test : σ → Bool)
    (started : system.start s) (met : system.Meets ok s actions)
    (passes : (system.run s actions).any test = true) :
    ∃ s', system.run s actions = some s' ∧ system.ReachableWhen ok s' ∧ test s' = true := by
  cases ran : system.run s actions with
  | none => simp [ran] at passes
  | some s' =>
      rw [ran, Option.any_some] at passes
      exact ⟨s', rfl, (ReachableWhen.start started).run met ran, passes⟩

/-- A guard on the actions alone is met wherever the run stands. -/
theorem meets_of_forall {ok : α → Prop} {actions : List α} (each : ∀ a ∈ actions, ok a) (s : σ) :
    system.Meets (fun _ a => ok a) s actions := by
  induction actions generalizing s with
  | nil => trivial
  | cons a rest ih =>
      exact ⟨each a List.mem_cons_self,
        fun next _ => ih (fun b inside => each b (List.mem_cons_of_mem a inside)) next⟩

/-- What a guarded step does to a reflexive and transitive relation, a whole run does. -/
theorem run_relates (ok : σ → α → Prop) (related : σ → σ → Prop) (refl : ∀ s, related s s)
    (trans : ∀ s t u, related s t → related t u → related s u)
    (step : ∀ s a s', ok s a → system.step s a = some s' → related s s')
    {s s' : σ} {actions : List α} (met : system.Meets ok s actions)
    (ran : system.run s actions = some s') : related s s' := by
  induction actions generalizing s with
  | nil =>
      rw [run_nil, Option.some.injEq] at ran
      exact ran ▸ refl s
  | cons a rest ih =>
      obtain ⟨next, stepped, ran⟩ := system.run_cons_some ran
      exact trans s next s' (step s a next met.1 stepped) (ih (met.2 next stepped) ran)

/-- A run that loses a property loses it at one of its steps. -/
theorem run_loses (kept : σ → Prop) {s s' : σ} {actions : List α}
    (ran : system.run s actions = some s') (had : kept s) (lost : ¬ kept s') :
    ∃ before a after mid next, actions = before ++ a :: after ∧
      system.run s before = some mid ∧ system.step mid a = some next ∧
      kept mid ∧ ¬ kept next := by
  induction actions generalizing s with
  | nil =>
      rw [run_nil, Option.some.injEq] at ran
      exact absurd (ran ▸ had) lost
  | cons a rest ih =>
      obtain ⟨next, stepped, ran⟩ := system.run_cons_some ran
      by_cases still : kept next
      · obtain ⟨before, b, after, mid, final, shape, reached, moved, here, gone⟩ := ih ran still
        refine ⟨a :: before, b, after, mid, final, ?_, ?_, moved, here, gone⟩
        · rw [shape, List.cons_append]
        · rw [run_cons, stepped, Option.bind_some, reached]
      · exact ⟨[], a, rest, s, next, rfl, rfl, stepped, had, still⟩

/-- A property is kept by every state of a run exactly when each of its steps meets the guard
    that decides whether the step keeps it. -/
theorem run_keeps_iff {ok : σ → α → Prop} {holds kept : σ → Prop}
    (step : ∀ s a s', holds s → kept s → system.step s a = some s' → holds s' ∧ (kept s' ↔ ok s a))
    {s s' : σ} {actions : List α} (start : holds s) (first : kept s)
    (ran : system.run s actions = some s') :
    (∀ before after mid, actions = before ++ after → system.run s before = some mid → kept mid) ↔
      system.Meets ok s actions := by
  induction actions generalizing s with
  | nil =>
      refine ⟨fun _ => trivial, fun _ before after mid shape reached => ?_⟩
      obtain ⟨rfl, -⟩ := List.append_eq_nil_iff.mp shape.symm
      rw [run_nil, Option.some.injEq] at reached
      exact reached ▸ first
  | cons a rest ih =>
      obtain ⟨next, stepped, ran⟩ := system.run_cons_some ran
      obtain ⟨later, decides⟩ := step s a next start first stepped
      have reach : ∀ before, system.run s (a :: before) = system.run next before := by
        intro before
        rw [run_cons, stepped, Option.bind_some]
      constructor
      · intro keeps
        have here : kept next := keeps [a] rest next rfl (by rw [reach, run_nil])
        refine ⟨decides.mp here, fun next' stepped' => ?_⟩
        obtain rfl := Option.some.inj (stepped.symm.trans stepped')
        refine (ih later here ran).mp fun before after mid shape reached => ?_
        exact keeps (a :: before) after mid (by rw [shape, List.cons_append]) (by rw [reach, reached])
      · rintro ⟨met, rest_met⟩ before after mid shape reached
        cases before with
        | nil =>
            rw [run_nil, Option.some.injEq] at reached
            exact reached ▸ first
        | cons b before =>
            obtain ⟨rfl, others⟩ := List.cons.inj shape
            rw [reach] at reached
            exact (ih later (decides.mpr met) ran).mpr (rest_met next stepped) before after mid others
              reached

end System

end LocalHarness.Runs

/-! ## Walks from a place, level by level

`next` lists the arcs out of a place, each with its label. The places of a level are those that a walk of that many
arcs ends at, with the label of its last arc; a place that two walks reach is in every level that one of them ends
in. Where another graph has the arcs the other way, its walks go back.
-/

namespace LocalHarness.Library.Walks

universe u v

variable {α : Type u} {ρ : Type v}

/-- A walk of so many arcs that ends at a place over a label; of no arcs, over `none_`. -/
inductive Walk (next : α → List (α × ρ)) (none_ : ρ) (start : α) : Nat → α → ρ → Prop
  | stay : Walk next none_ start 0 start none_
  | along {n : Nat} {at_ : α} {last : ρ} {to_ : α} {label : ρ} :
      Walk next none_ start n at_ last → (to_, label) ∈ next at_ → Walk next none_ start (n + 1) to_ label

/-- `b` is so many arcs from `a`. -/
def Apart (next : α → List (α × ρ)) : Nat → α → α → Prop
  | 0, a, b => a = b
  | n + 1, a, b => ∃ c, Apart next n a c ∧ ∃ label, (b, label) ∈ next c

/-- The graph whose arcs are the others' the other way, under whatever labels. -/
def Back (next back : α → List (α × ρ)) : Prop :=
  ∀ a b, (∃ label, (b, label) ∈ next a) ↔ ∃ label, (a, label) ∈ back b

section

variable [DecidableEq α] [DecidableEq ρ]

def level (next : α → List (α × ρ)) (none_ : ρ) (start : α) : Nat → List (α × ρ)
  | 0 => [(start, none_)]
  | n + 1 => ((level next none_ start n).flatMap fun place => next place.1).dedup

variable {next : α → List (α × ρ)} {none_ : ρ} {start : α} {n : Nat} {place : α × ρ}

theorem mem_level : place ∈ level next none_ start n ↔ Walk next none_ start n place.1 place.2 := by
  induction n generalizing place with
  | zero =>
      rw [level, List.mem_singleton]
      constructor
      · rintro rfl
        exact .stay
      · intro walk
        obtain ⟨at_, label⟩ := place
        cases walk with
        | stay => rfl
  | succ n ih =>
      rw [level, List.mem_dedup, List.mem_flatMap]
      constructor
      · rintro ⟨before, inside, arc⟩
        exact .along (ih.mp inside) arc
      · intro walk
        obtain ⟨to_, label⟩ := place
        cases walk with
        | along before arc => exact ⟨(_, _), ih.mpr before, arc⟩

end

variable {next back : α → List (α × ρ)} {none_ : ρ} {a b c : α} {m n : Nat}

theorem exists_walk : (∃ label, Walk next none_ a n b label) ↔ Apart next n a b := by
  induction n generalizing b with
  | zero =>
      constructor
      · rintro ⟨_, walk⟩
        cases walk with
        | stay => rfl
      · rintro rfl
        exact ⟨none_, .stay⟩
  | succ n ih =>
      constructor
      · rintro ⟨label, walk⟩
        cases walk with
        | along before arc => exact ⟨_, ih.mp ⟨_, before⟩, label, arc⟩
      · rintro ⟨c, before, label, arc⟩
        obtain ⟨last, walk⟩ := ih.mpr before
        exact ⟨label, .along walk arc⟩

theorem Apart.trans (first : Apart next m a b) (second : Apart next n b c) : Apart next (m + n) a c := by
  induction n generalizing c with
  | zero =>
      cases second
      exact first
  | succ n ih =>
      obtain ⟨d, before, arc⟩ := second
      exact ⟨d, ih before, arc⟩

theorem Back.symm (other : Back next back) : Back back next :=
  fun a b => (other b a).symm

/-- The last arc of a walk is the first of the way back. -/
theorem Apart.reversed (other : Back next back) (apart : Apart next n a b) : Apart back n b a := by
  induction n generalizing b with
  | zero => exact apart.symm
  | succ n ih =>
      obtain ⟨c, before, arc⟩ := apart
      have first : Apart back 1 b c := ⟨b, rfl, (other c b).mp arc⟩
      rw [Nat.add_comm]
      exact first.trans (ih before)

end LocalHarness.Library.Walks

/-! ## Loops that may break

A loop carries a state over a list and may leave it early. What its body keeps, under a
condition on the state it finds, the loop keeps when each turn meets the condition.
-/

namespace LocalHarness.Library

variable {σ α : Type}

/-- A loop whose body breaks with `none`, the state then being what it was. -/
def walk (body : σ → α → Option σ) : σ → List α → σ
  | s, [] => s
  | s, item :: rest =>
      match body s item with
      | none => s
      | some next => walk body next rest

/-- Each turn the loop takes meets the condition in the state it finds. -/
def Along (body : σ → α → Option σ) (met : σ → α → Prop) : σ → List α → Prop
  | _, [] => True
  | s, item :: rest =>
      match body s item with
      | none => True
      | some next => met s item ∧ Along body met next rest

/-- A loop keeps its invariant, and keeps exactly what each of its turns keeps. -/
theorem walk_kept {body : σ → α → Option σ} (holds kept : σ → Prop) {met : σ → α → Prop} {s : σ}
    {items : List α} (start : holds s)
    (step : ∀ s item next, item ∈ items → holds s → body s item = some next →
      holds next ∧ (kept next ↔ kept s ∧ met s item)) :
    holds (walk body s items) ∧ (kept (walk body s items) ↔ kept s ∧ Along body met s items) := by
  induction items generalizing s with
  | nil => simpa [walk, Along] using start
  | cons item rest ih =>
      rw [walk, Along]
      cases turn : body s item with
      | none => simpa using start
      | some next =>
          obtain ⟨holds, keeps⟩ := step s item next List.mem_cons_self start turn
          obtain ⟨invariant, later⟩ := ih holds fun s item' next member =>
            step s item' next (List.mem_cons_of_mem item member)
          rw [keeps, and_assoc] at later
          exact ⟨invariant, later⟩

end LocalHarness.Library
