import LocalHarness.Migrations.Together

/-! # Every process gets its connection

Processes that keep apart are never refused and never stuck: whoever is in the chain can finish
it, and then everybody else finds the number. Two processes that read the same older number add the
same column twice.
-/

namespace LocalHarness.Migrations

open LocalHarness.Library LocalHarness.Runs

variable {P ρ : Type}

theorem apart_of_nobody {w : World P ρ} (nobody : ∀ q, w.inChain q = false) (p : P) : w.Apart p :=
  fun _ => nobody

theorem apart_of_migrating {w : World P ρ} {q : P} {rest : Body ρ}
    (here : w.stage q = .migrating rest) : w.Apart q := by
  intro other
  simp [World.readsNumber, World.misses, here] at other

variable [DecidableEq P]

namespace Checkout

variable (checkout : Checkout P ρ)

/-- There is a way on, keeping apart, on which the process gets its connection. -/
def CanOpen (first : Store ρ) (w : World P ρ) (p : P) : Prop :=
  ∃ actions final, (checkout.system first).Meets World.Apart w actions ∧
    (checkout.system first).run w actions = some final ∧ final.stage p = .opened

variable {checkout}

theorem CanOpen.now {first : Store ρ} {w : World P ρ} {p : P} (here : w.stage p = .opened) :
    checkout.CanOpen first w p :=
  ⟨[], w, trivial, rfl, here⟩

theorem CanOpen.step {first : Store ρ} {w w' : World P ρ} {p q : P} (apart : w.Apart q)
    (stepped : checkout.step w q = some w') (later : checkout.CanOpen first w' p) :
    checkout.CanOpen first w p := by
  obtain ⟨actions, final, met, ran, opened⟩ := later
  refine ⟨q :: actions, final, ⟨apart, fun next moved => ?_⟩, ?_, opened⟩
  · exact Option.some.inj (stepped.symm.trans moved) ▸ met
  · rw [System.run_cons]
    exact (congrArg (Option.bind · _) stepped).trans ran

/-- A process waits, or it is the one in the chain, or it has opened what a single migration leaves. -/
theorem Stands.fits {first : Store ρ} {w : World P ρ} (stands : checkout.Stands first w) (p : P) :
    Waiting (w.stage p) ∨
      (∃ rest r, w.stage p = .migrating rest ∧ w.shared.free p = true ∧
        rest.run (w.shared.session p) = .ok (.fresh r)) ∨
      (w.stage p = .opened ∧ w.shared.lock = none ∧ ∃ q, checkout.Single q first w.store) := by
  cases stands with
  | before unlocked between each => exact .inl (each p).1
  | @during q r rest single here free runs others =>
      by_cases same : p = q
      · subst same
        exact .inr (.inl ⟨rest, r, here, free, runs⟩)
      · exact .inl (others p same)
  | @after q single unlocked each =>
      exact (each p).imp_right fun opened => .inr ⟨opened, unlocked, q, single⟩

theorem Stands.chain {first : Store ρ} {w : World P ρ} {q : P} {rest : Body ρ}
    (stands : checkout.Stands first w) (here : w.stage q = .migrating rest) :
    w.shared.free q = true ∧ ∃ r, rest.run (w.shared.session q) = .ok (.fresh r) := by
  obtain waiting | ⟨rest', r, migrating, free, runs⟩ | ⟨opened, -⟩ := stands.fits q
  · rw [here] at waiting
    exact nomatch waiting
  · obtain rfl := Stage.migrating.inj (migrating.symm.trans here)
    exact ⟨free, r, runs⟩
  · exact nomatch opened.symm.trans here

theorem Stands.migrated {first : Store ρ} {w : World P ρ} {p : P}
    (stands : checkout.Stands first w) (here : w.stage p = .opened) :
    w.shared.lock = none ∧ ∃ q, checkout.Single q first w.store := by
  obtain waiting | ⟨rest, r, migrating, -⟩ | ⟨-, unlocked, single⟩ := stands.fits p
  · rw [here] at waiting
    exact nomatch waiting
  · exact nomatch here.symm.trans migrating
  · exact ⟨unlocked, single⟩

/-- Once somebody has migrated, nobody is in the chain. -/
theorem Stands.nobody {first : Store ρ} {w : World P ρ} {p : P}
    (stands : checkout.Stands first w) (opened : w.stage p = .opened) (q : P) :
    w.inChain q = false := by
  cases stands with
  | before unlocked between each =>
      have waiting := (each p).1
      rw [opened] at waiting
      exact nomatch waiting
  | @during q' r rest single here free runs others =>
      by_cases same : p = q'
      · subst same
        exact nomatch opened.symm.trans here
      · have waiting := others p same
        rw [opened] at waiting
        exact nomatch waiting
  | after single unlocked each =>
      rw [World.inChain]
      obtain waiting | this := each q
      · generalize w.stage q = stage at waiting
        cases waiting <;> rfl
      · rw [this]

theorem Stands.unlocked {first : Store ρ} {w : World P ρ} (stands : checkout.Stands first w)
    (nobody : ∀ q, w.inChain q = false) : w.shared.lock = none := by
  cases stands with
  | before unlocked between each => exact unlocked
  | @during q r rest single here free runs others =>
      exact absurd (World.inChain_of_migrating here) (Bool.eq_false_iff.mp (nobody q))
  | after single unlocked each => exact unlocked

theorem nobody_after {w : World P ρ} {p : P} {stage : Stage ρ} (shared : Shared P (Store ρ))
    (nobody : ∀ q, w.inChain q = false) (waits : Waiting stage) (q : P) :
    World.inChain { shared := shared, stage := Function.update w.stage p stage } q = false := by
  by_cases same : q = p
  · subst same
    simp only [World.inChain, Function.update_self]
    cases waits <;> rfl
  · simp only [World.inChain, Function.update_of_ne same]
    exact nobody q

variable {first : Store ρ} (older : first.schema < SCHEMA_VERSION)
  (alone : ∀ p, ∃ r, checkout.Single p first r)

include older alone

theorem Stands.next {w w' : World P ρ} {q : P} (stands : checkout.Stands first w)
    (apart : w.Apart q) (stepped : checkout.step w q = some w') : checkout.Stands first w' :=
  (Checkout.stands older alone).step w q w' stands apart stepped

/-- Whoever is in the chain can finish it, and what could open then can open now. -/
theorem canOpen_of_chain {rest : Body ρ} {w : World P ρ} {p q : P} (stands : checkout.Stands first w)
    (here : w.stage q = .migrating rest)
    (finished : ∀ w', checkout.Stands first w' → w'.stage q = .opened →
      checkout.CanOpen first w' p) : checkout.CanOpen first w p := by
  have apart := apart_of_migrating here
  induction rest generalizing w with
  | through =>
      have stepped : checkout.step w q = some (w.setStage q .opened) := by rw [step, here]
      exact .step apart stepped
        (finished _ (stands.next older alone apart stepped) (Function.update_self q _ w.stage))
  | raise refusal =>
      obtain ⟨-, r, runs⟩ := stands.chain here
      cases runs
  | read next ih =>
      have stepped : checkout.step w q = some
          (w.setStage q (.migrating (next (w.shared.session q).working))) := by
        rw [step, here]
        rfl
      have here' := Function.update_self q (Stage.migrating (next (w.shared.session q).working)) w.stage
      exact .step apart stepped (ih _ (stands.next older alone apart stepped) here'
        (apart_of_migrating here'))
  | exec opens change next ih =>
      obtain ⟨free, -⟩ := stands.chain here
      have stepped : checkout.step w q = some
          { shared := .ofSession q ((w.shared.session q).exec opens change)
            stage := Function.update w.stage q (.migrating (next (w.shared.session q).working)) } := by
        rw [step, here]
        simp [Shared.statement, free]
      have here' := Function.update_self q (Stage.migrating (next (w.shared.session q).working)) w.stage
      exact .step apart stepped (ih _ (stands.next older alone apart stepped) here'
        (apart_of_migrating here'))
  | commit next ih =>
      obtain ⟨free, -⟩ := stands.chain here
      have stepped : checkout.step w q = some
          { shared := .ofSession q (w.shared.session q).commit
            stage := Function.update w.stage q (.migrating next) } := by
        rw [step, here]
        simp [Shared.statement, free]
      have here' := Function.update_self q (Stage.migrating next) w.stage
      exact .step apart stepped (ih (stands.next older alone apart stepped) here'
        (apart_of_migrating here'))

/-- With nobody in the chain, a process gets through the DDL and on. -/
theorem canOpen_of_creating {todo : List (String × List String)} {w : World P ρ} {p : P}
    (stands : checkout.Stands first w) (nobody : ∀ q, w.inChain q = false)
    (here : w.stage p = .creating todo) (inside : ∀ table ∈ todo, table ∈ _DDL) :
    checkout.CanOpen first w p := by
  have apart := apart_of_nobody nobody p
  induction todo generalizing w with
  | nil =>
      have stepped : checkout.step w p = some (w.setStage p (checkout.found p w.store.schema)) := by
        rw [step, here]
      refine .step apart stepped ?_
      have next := stands.next older alone apart stepped
      have stage : (w.setStage p (checkout.found p w.store.schema)).stage p =
        checkout.found p w.store.schema := Function.update_self p _ w.stage
      cases stands with
      | before unlocked between each =>
          have found := checkout.found_older older p
          rw [← between.schema] at found
          exact canOpen_of_chain older alone next (stage.trans found) fun w' _ opened => .now opened
      | @during q r rest single migrating free runs others =>
          exact absurd (World.inChain_of_migrating migrating) (Bool.eq_false_iff.mp (nobody q))
      | after single unlocked each =>
          obtain ⟨-, current, -⟩ := checkout.runs_of_connect older single.connected
          have found := checkout.found_current p
          rw [← current] at found
          exact .now (stage.trans found)
  | cons table rest ih =>
      have later : ∀ other ∈ rest, other ∈ _DDL := fun other known =>
        inside other (List.mem_cons_of_mem table known)
      cases there : (w.store.tables table.1).isSome with
      | true =>
          have stepped : checkout.step w p = some (w.setStage p (.creating rest)) := by
            simp [step, here, there]
          have nobody' := nobody_after (p := p) w.shared nobody (.creating later)
          exact .step apart stepped (ih (stands.next older alone apart stepped) nobody'
            (Function.update_self p _ w.stage) later (apart_of_nobody nobody' p))
      | false =>
          have free := Shared.free_of_lock_none (stands.unlocked nobody) p
          have stepped : checkout.step w p = some
              { shared := { w.shared with committed := w.store.create table }
                stage := Function.update w.stage p (.creating rest) } := by
            simp [step, here, there, free]
          have nobody' := nobody_after (p := p)
            { w.shared with committed := w.store.create table } nobody (.creating later)
          exact .step apart stepped (ih (stands.next older alone apart stepped) nobody'
            (Function.update_self p _ w.stage) later (apart_of_nobody nobody' p))

theorem canOpen_of_nobody {w : World P ρ} {p : P} (stands : checkout.Stands first w)
    (nobody : ∀ q, w.inChain q = false) : checkout.CanOpen first w p := by
  obtain waiting | ⟨rest, r, here, -⟩ | ⟨opened, -⟩ := stands.fits p
  · generalize shape : w.stage p = stage at waiting
    cases waiting with
    | guarding =>
        obtain ⟨r, single⟩ := alone p
        obtain ⟨allowed, -, -⟩ := checkout.runs_of_connect older single.connected
        have apart := apart_of_nobody nobody p
        have stepped : checkout.step w p = some (w.setStage p (.creating _DDL)) := by
          simp [step, shape, allowed]
        have known : ∀ table ∈ _DDL, table ∈ _DDL := fun _ => id
        exact .step apart stepped (canOpen_of_creating older alone
          (stands.next older alone apart stepped) (nobody_after w.shared nobody (.creating known))
          (Function.update_self p _ w.stage) known)
    | creating inside => exact canOpen_of_creating older alone stands nobody shape inside
  · exact absurd (World.inChain_of_migrating here) (Bool.eq_false_iff.mp (nobody p))
  · exact .now opened

theorem canOpen_of_stands {w : World P ρ} (p : P) (stands : checkout.Stands first w) :
    checkout.CanOpen first w p := by
  by_cases nobody : ∀ q, w.inChain q = false
  · exact canOpen_of_nobody older alone stands nobody
  · push Not at nobody
    obtain ⟨q, chained⟩ := nobody
    cases here : w.stage q with
    | migrating rest =>
        exact canOpen_of_chain older alone stands here fun w' stands' opened =>
          canOpen_of_nobody older alone stands' (stands'.nobody opened)
    | guarding | creating todo | opened | raised refusal =>
        rw [World.inChain, here] at chained
        exact absurd rfl chained

end Checkout

/-- No process is refused, each that has opened has the store of a single migration, and each that
    has not can still open. -/
structure OpenTogether (checkout : Checkout P ρ) (first : Store ρ) (w : World P ρ) : Prop where
  notRefused : ∀ p refusal, w.stage p ≠ .raised refusal
  migrated : ∀ p, w.stage p = .opened →
    w.shared.lock = none ∧ w.store.schema = SCHEMA_VERSION ∧
      ∃ q, checkout.connect q first = .ok w.store
  opens : ∀ p, checkout.CanOpen first w p

theorem connect_together (checkout : Checkout P ρ) (first : Store ρ)
    (older : first.schema < SCHEMA_VERSION) (alone : ∀ p, ∃ r, checkout.Single p first r)
    {w : World P ρ} (reached : (checkout.system first).ReachableWhen World.Apart w) :
    OpenTogether checkout first w := by
  have stands := (Checkout.stands older alone).holds reached
  refine ⟨fun p refusal here => ?_, fun p here => ?_, fun p => ?_⟩
  · obtain waiting | ⟨rest, r, migrating, -⟩ | ⟨opened, -⟩ := stands.fits p
    · rw [here] at waiting
      exact nomatch waiting
    · exact nomatch here.symm.trans migrating
    · exact nomatch here.symm.trans opened
  · obtain ⟨unlocked, q, single⟩ := stands.migrated here
    obtain ⟨-, current, -⟩ := checkout.runs_of_connect older single.connected
    exact ⟨unlocked, current, q, single.connected⟩
  · exact Checkout.canOpen_of_stands older alone p stands

/-! ## Two that start together -/

/-- A store one version behind, whose last column is missing. -/
def behind : Store Unit where
  schema := 62
  tables := fun name => (_DDL.lookup name).map fun columns => columns.filter (· ≠ "attempts")
  rows := ()

/-- Nothing but `columns` is due there. -/
def lastStep : Checkout Bool Unit :=
  ⟨false, fun _ _ _ => none⟩

def unopened : World Bool Unit :=
  ⟨{ committed := behind }, fun _ => .guarding⟩

def Stage.isOpened {ρ : Type} : Stage ρ → Bool
  | .opened => true
  | _ => false

def Stage.refusal {ρ : Type} : Stage ρ → Option Refusal
  | .raised refusal => some refusal
  | _ => none

theorem lastStep_single (p : Bool) : ∃ r, lastStep.Single p behind r := by
  have ends : ∀ p, ((lastStep.connect p behind).toOption.any fun r =>
      _DDL.all fun table => (r.tables table.1).isSome) = true := by
    decide
  cases connected : lastStep.connect p behind with
  | error refusal =>
      have this := ends p
      rw [connected] at this
      exact nomatch this
  | ok r =>
      have every := ends p
      rw [connected] at every
      exact ⟨r, connected, List.all_eq_true.mp every⟩

theorem connect_one_after_the_other :
    ∃ w, (lastStep.system behind).ReachableWhen World.Apart w ∧
      ((w.stage false).isOpened && (w.stage true).isOpened) = true ∧
      OpenTogether lastStep behind w := by
  have apart : (lastStep.system behind).Meets World.Apart unopened
      (List.replicate 79 false ++ List.replicate 28 true) := by
    decide +kernel
  obtain ⟨w, -, reached, opened⟩ := System.reached_by_run
    (fun w => (w.stage false).isOpened && (w.stage true).isOpened)
    (show (lastStep.system behind).start unopened from ⟨rfl, fun _ => rfl⟩) apart
    (by decide)
  exact ⟨w, reached, opened, connect_together lastStep behind (by decide) lastStep_single reached⟩

/-- Both have read the older number and found the column missing before either adds it. -/
theorem attempts_added_twice :
    (∀ p, ∃ r, lastStep.Single p behind r) ∧
      ∃ w, (lastStep.system behind).Reachable w ∧
        (w.stage true).refusal = some (.sql (.duplicateColumn "attempts")) := by
  refine ⟨lastStep_single, ?_⟩
  have met := (lastStep.system behind).meets_true unopened
    (List.replicate 75 false ++ List.replicate 75 true ++ [false, true, true])
  obtain ⟨w, -, reached, refused⟩ := System.reached_by_run
    (fun w => (w.stage true).refusal = some (.sql (.duplicateColumn "attempts")))
    (show (lastStep.system behind).start unopened from ⟨rfl, fun _ => rfl⟩) met
    (by decide +kernel)
  exact ⟨w, reached, of_decide_eq_true refused⟩

end LocalHarness.Migrations
