import Mathlib.Data.Option.Basic

/-! # Programs of statements on a shared store

A program reads, executes and commits one statement after another, each chosen by what the ones
before it saw. Several programs share one store: a read is never held up, and whoever is in a
transaction keeps the others from writing.
-/

namespace LocalHarness.Library

universe u v w

/-! ## A session that writes some things at once and others when it commits

Outside a transaction a definition is durable as soon as it is made. A write of rows opens a
transaction, and then nothing is durable before the commit.
-/

/-- What would be there after a crash, and what the session itself sees. -/
structure Session (σ : Type u) where
  durable : σ
  working : σ
  inTransaction : Bool

namespace Session

variable {σ : Type u}

/-- A session with nothing pending. -/
def fresh (state : σ) : Session σ :=
  ⟨state, state, false⟩

def commit (s : Session σ) : Session σ :=
  fresh s.working

/-- A definition, as of a table: it opens no transaction of its own. -/
def define (s : Session σ) (change : σ → σ) : Session σ where
  durable := if s.inTransaction then s.durable else change s.working
  working := change s.working
  inTransaction := s.inTransaction

/-- A write of rows, which opens a transaction where none is open. -/
def write (s : Session σ) (change : σ → σ) : Session σ where
  durable := s.durable
  working := change s.working
  inTransaction := true

@[simp] theorem define_fresh (state : σ) (change : σ → σ) :
    (fresh state).define change = fresh (change state) := rfl

@[simp] theorem durable_write (s : Session σ) (change : σ → σ) :
    (s.write change).durable = s.durable := rfl

@[simp] theorem durable_define (s : Session σ) (change : σ → σ) (pending : s.inTransaction = true) :
    (s.define change).durable = s.durable := by
  rw [define, pending, if_pos rfl]

end Session

/-! ## Programs -/

inductive Program (σ : Type u) (ε : Type v)
  | through
  | raise (error : ε)
  | read (next : σ → Program σ ε)
  /-- A statement that changes something, and whether it opens a transaction. What comes next may
      depend on what it found. -/
  | exec (opens : Bool) (change : σ → σ) (next : σ → Program σ ε)
  | commit (next : Program σ ε)

namespace Session

variable {σ : Type u}

def exec (s : Session σ) (opens : Bool) (change : σ → σ) : Session σ :=
  if opens then s.write change else s.define change

/-- Outside a transaction nothing is pending. -/
def Settled (s : Session σ) : Prop :=
  s.inTransaction = false → s.durable = s.working

@[simp] theorem working_fresh (state : σ) : (fresh state).working = state := rfl

theorem settled_commit (s : Session σ) : s.commit.Settled :=
  fun _ => rfl

theorem settled_exec (s : Session σ) (opens : Bool) (change : σ → σ) :
    (s.exec opens change).Settled := by
  cases opens with
  | true => exact fun outside => nomatch outside
  | false =>
      intro outside
      have outside : s.inTransaction = false := outside
      simp [Session.exec, define, outside]

end Session

namespace Program

variable {σ : Type u} {ε : Type v}

/-- The program on a store that is its own. -/
def run : Program σ ε → Session σ → Except ε (Session σ)
  | through, s => .ok s
  | raise error, _ => .error error
  | read next, s => (next s.working).run s
  | exec opens change next, s => (next s.working).run (s.exec opens change)
  | commit next, s => next.run s.commit

def andThen : Program σ ε → Program σ ε → Program σ ε
  | through, later => later
  | raise error, _ => raise error
  | read next, later => read fun seen => (next seen).andThen later
  | exec opens change next, later => exec opens change fun seen => (next seen).andThen later
  | commit next, later => commit (next.andThen later)

def inTurn (programs : List (Program σ ε)) : Program σ ε :=
  programs.foldr andThen through

theorem run_andThen (first later : Program σ ε) (s : Session σ) :
    (first.andThen later).run s = (first.run s).bind later.run := by
  induction first generalizing s with
  | through => rfl
  | raise error => rfl
  | read next ih => exact ih s.working s
  | exec opens change next ih => exact ih s.working (s.exec opens change)
  | commit next ih => exact ih s.commit

/-- A program that ends by committing leaves nothing pending. -/
theorem run_ends_fresh {first : Program σ ε} {opens : Bool} {change : σ → σ} {s final : Session σ}
    (ran : (first.andThen (exec opens change fun _ => commit through)).run s = .ok final) :
    ∃ before : Session σ, final = .fresh (change before.working) := by
  rw [run_andThen] at ran
  cases outcome : first.run s with
  | error error => simp [outcome, Except.bind] at ran
  | ok before =>
      refine ⟨before, ?_⟩
      simp only [outcome, Except.bind, run, Session.commit, Except.ok.injEq] at ran
      rw [← ran]
      cases opens <;> rfl

end Program

/-! ## The shared store -/

/-- What everybody reads, and who is in a transaction with what they see of it. -/
structure Shared (P : Type w) (σ : Type u) where
  committed : σ
  lock : Option (P × σ) := none

namespace Shared

variable {P : Type w} [DecidableEq P] {σ : Type u} {ε : Type v}

/-- The store as one process has it. -/
def session (shared : Shared P σ) (p : P) : Session σ :=
  match shared.lock with
  | none => .fresh shared.committed
  | some (q, view) => if q = p then ⟨shared.committed, view, true⟩ else .fresh shared.committed

/-- Nobody else is in a transaction. -/
def free (shared : Shared P σ) (p : P) : Bool :=
  match shared.lock with
  | none => true
  | some (q, _) => q = p

/-- The store after a statement of the process, from the session it leaves. -/
def ofSession (p : P) (s : Session σ) : Shared P σ where
  committed := s.durable
  lock := if s.inTransaction then some (p, s.working) else none

/-- A process that fails takes back what it has not committed. -/
def release (shared : Shared P σ) (p : P) : Shared P σ where
  committed := shared.committed
  lock := if shared.free p then none else shared.lock

/-- One statement of a process, where it is not held up. -/
def statement (shared : Shared P σ) (p : P) :
    Program σ ε → Option (Shared P σ × Program σ ε)
  | .through | .raise _ => none
  | .read next => some (shared, next (shared.session p).working)
  | .exec opens change next =>
      if shared.free p then
        some
          (ofSession p ((shared.session p).exec opens change), next (shared.session p).working)
      else none
  | .commit next =>
      some (if shared.free p then ofSession p (shared.session p).commit else shared, next)

theorem free_iff (shared : Shared P σ) (p : P) :
    shared.free p = true ↔ ∀ q view, shared.lock = some (q, view) → q = p := by
  rw [free]
  cases shared.lock with
  | none => simp
  | some held =>
      obtain ⟨q, view⟩ := held
      simp

theorem session_of_lock_none {shared : Shared P σ} (unlocked : shared.lock = none) (p : P) :
    shared.session p = .fresh shared.committed := by
  rw [session, unlocked]

theorem free_of_lock_none {shared : Shared P σ} (unlocked : shared.lock = none) (p : P) :
    shared.free p = true := by
  rw [free, unlocked]

theorem session_of_not_free {shared : Shared P σ} {p : P} (held : ¬ shared.free p = true) :
    shared.session p = .fresh shared.committed := by
  rw [free] at held
  rw [session]
  split
  · rfl
  · next q view lock =>
      rw [if_neg]
      simpa [lock] using held

/-- A process that nobody holds up and that has nothing pending sees the store as it is. -/
theorem eq_of_session_fresh {shared : Shared P σ} {p : P} {state : σ}
    (free : shared.free p = true) (seen : shared.session p = .fresh state) :
    shared = { committed := state } := by
  obtain ⟨committed, lock⟩ := shared
  cases lock with
  | none => exact congrArg (fun state => Shared.mk state none) (congrArg Session.durable seen)
  | some held =>
      have mine : held.1 = p := (free_iff _ p).mp free held.1 held.2 rfl
      simp [session, mine, Session.fresh] at seen

theorem free_ofSession (p : P) (s : Session σ) : (ofSession p s).free p = true := by
  rw [free_iff]
  intro q view held
  rw [ofSession] at held
  split at held
  · exact (congrArg Prod.fst (Option.some.inj held)).symm
  · simp at held

/-- What a process leaves is what it finds. -/
theorem session_ofSession (p : P) {s : Session σ} (settled : s.Settled) :
    (ofSession p s).session p = s := by
  obtain ⟨durable, working, pending⟩ := s
  cases pending with
  | false => exact congrArg (fun seen => Session.mk durable seen false) (settled rfl)
  | true => simp [ofSession, session]

/-- A statement takes the process a step further in the program as it runs on its own. -/
theorem run_of_statement {shared shared' : Shared P σ} {p : P} {program program' : Program σ ε}
    (moved : shared.statement p program = some (shared', program')) :
    program.run (shared.session p) = program'.run (shared'.session p) := by
  cases program with
  | through => simp [statement] at moved
  | raise error => simp [statement] at moved
  | read next =>
      obtain ⟨rfl, rfl⟩ := Prod.mk.inj (Option.some.inj moved)
      rfl
  | exec opens change next =>
      obtain ⟨-, moved⟩ := Option.ite_none_right_eq_some.mp moved
      obtain ⟨rfl, rfl⟩ := Prod.mk.inj (Option.some.inj moved)
      rw [session_ofSession p (Session.settled_exec _ opens change), Program.run]
  | commit next =>
      obtain ⟨rfl, rfl⟩ := Prod.mk.inj (Option.some.inj moved)
      rw [Program.run]
      split
      · rw [session_ofSession p (Session.settled_commit _)]
      · next held => rw [session_of_not_free held, Session.commit, Session.working_fresh]

theorem free_of_statement {shared shared' : Shared P σ} {p : P} {program program' : Program σ ε}
    (moved : shared.statement p program = some (shared', program')) (free : shared.free p = true) :
    shared'.free p = true := by
  cases program with
  | through => simp [statement] at moved
  | raise error => simp [statement] at moved
  | read next =>
      obtain ⟨rfl, rfl⟩ := Prod.mk.inj (Option.some.inj moved)
      exact free
  | exec opens change next =>
      obtain ⟨-, moved⟩ := Option.ite_none_right_eq_some.mp moved
      obtain ⟨rfl, rfl⟩ := Prod.mk.inj (Option.some.inj moved)
      exact free_ofSession p _
  | commit next =>
      obtain ⟨rfl, rfl⟩ := Prod.mk.inj (Option.some.inj moved)
      rw [if_pos free]
      exact free_ofSession p _

/-- Whoever is held up by nobody has a next statement, until its program ends. -/
theorem statement_of_run {shared : Shared P σ} {p : P} {program : Program σ ε} {final : Session σ}
    (free : shared.free p = true) (runs : program.run (shared.session p) = .ok final) :
    program = .through ∨ (shared.statement p program).isSome := by
  cases program with
  | through => exact .inl rfl
  | raise error => simp [Program.run] at runs
  | read next => exact .inr rfl
  | exec opens change next => exact .inr (by rw [statement, if_pos free, Option.isSome_some])
  | commit next => exact .inr rfl

end Shared

end LocalHarness.Library
