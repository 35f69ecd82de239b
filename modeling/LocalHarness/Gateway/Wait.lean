import LocalHarness.Library.Fallible
import Mathlib.Algebra.Order.Field.Rat

/-! # Waiting for a quiet gateway

`wait_then_restart` asks the gateway again and again how many requests it is serving. It restarts
once it has heard of none for long enough, and at the latest when it has waited too long.
-/

namespace LocalHarness.Gateway.Quiet

open LocalHarness.Library

/-- What comes of asking the gateway for `/health/backlog`. -/
inductive Probe
  /-- Nobody listens. -/
  | refused
  | failed
  /-- The status, and `in_flight_requests` where that is a number. -/
  | answered (status : Nat) (count : Option ℤ)
  deriving DecidableEq

/-- `in_flight`: the requests besides the probe itself, none when the gateway will not say. -/
def Probe.inFlight : Probe → Option Nat
  | .refused => some 0
  | .failed => none
  | .answered status count => if status = 200 then count.map fun got => (got - 1).toNat else none

/-- One turn of the loop: the clock, then the probe, and what may raise at its end. -/
structure Turn (ε : Type) where
  now : ℚ
  probe : Except ε Probe
  /-- The line about a forced restart. -/
  logs : Except ε Unit := .ok ()
  sleeps : Except ε Unit := .ok ()

namespace Turn

variable {ε : Type}

/-- What the probe showed, if it showed anything. -/
def busy (t : Turn ε) : Option Nat :=
  t.probe.toOption.bind Probe.inFlight

def Zero (t : Turn ε) : Prop :=
  t.busy = some 0

/-- `quiet_since` after the turn. -/
def quiet (quietSince : Option ℚ) (t : Turn ε) : Option ℚ :=
  match t.busy with
  | some 0 => some (quietSince.getD t.now)
  | _ => none

end Turn

inductive How
  | idle
  | forced
  deriving DecidableEq

variable {ε : Type}

/-- The loop, from since when nothing was in flight, to the turn at which it breaks; none while it
    goes on. -/
def watch (idleS maxWaitS start : ℚ) : Option ℚ → List (Turn ε) → Option (Except ε (Turn ε × How))
  | _, [] => none
  | quietSince, t :: rest =>
      match t.probe with
      | .error raised => some (.error raised)
      | .ok _ =>
          if (t.quiet quietSince).any fun since => idleS ≤ t.now - since then some (.ok (t, .idle))
          else if maxWaitS ≤ t.now - start then some (t.logs.map fun _ => (t, .forced))
          else
            match t.sleeps with
            | .error raised => some (.error raised)
            | .ok _ => watch idleS maxWaitS start (t.quiet quietSince) rest

structure Waited where
  how : How
  inFlight : Option Nat
  switchedAt : ℚ

/-- What has become of a call: how often it restarted the gateway, and its result once it has one. -/
structure Waiting (ε : Type) where
  restarts : Nat
  result : Option (Except ε Waited)

/-- `restart` is what the restart ends with, and the clock after it. -/
def waitThenRestart (idleS maxWaitS start : ℚ) (restart : Except ε ℚ) (turns : List (Turn ε)) :
    Waiting ε :=
  match watch idleS maxWaitS start none turns with
  | none => ⟨0, none⟩
  | some (.error raised) => ⟨0, some (.error raised)⟩
  | some (.ok (t, how)) => ⟨1, some (restart.map fun clock => ⟨how, t.busy, clock⟩)⟩

/-- The last turns all showed nothing in flight, the first of them at `since`. -/
def QuietSince (seen : List (Turn ε)) (since : ℚ) : Prop :=
  ∃ front first back, seen = front ++ first :: back ∧ (∀ u ∈ first :: back, u.Zero) ∧
    first.now = since

theorem Turn.quiet_eq_some {quietSince : Option ℚ} {t : Turn ε} {since : ℚ} :
    t.quiet quietSince = some since ↔ t.Zero ∧ quietSince.getD t.now = since := by
  unfold Turn.quiet Turn.Zero
  split
  next zero => simp [zero]
  next busy => exact ⟨nofun, fun both => absurd both.1 busy⟩

/-- A turn extends the quiet span, starts it, or ends it. -/
theorem QuietSince.turn {seen : List (Turn ε)} {quietSince : Option ℚ} {t : Turn ε}
    (before : ∀ since ∈ quietSince, QuietSince seen since) :
    ∀ since ∈ t.quiet quietSince, QuietSince (seen ++ [t]) since := by
  intro since quiet
  obtain ⟨zero, came⟩ := Turn.quiet_eq_some.mp quiet
  cases quietSince with
  | none => exact ⟨seen, t, [], rfl, List.forall_mem_singleton.mpr zero, came⟩
  | some earlier =>
      obtain ⟨front, first, back, rfl, all, at_⟩ := before earlier rfl
      refine ⟨front, first, back ++ [t], by simp, ?_, at_.trans came⟩
      intro u member
      rcases List.mem_append.mp (List.cons_append ▸ member) with earlier_turn | here
      · exact all u earlier_turn
      · exact List.mem_singleton.mp here ▸ zero

/-- What is known of the turn at which the loop breaks. -/
def Ready (idleS maxWaitS start : ℚ) (seen : List (Turn ε)) (t : Turn ε) : How → Prop
  | .idle => ∃ since, QuietSince (seen ++ [t]) since ∧ idleS ≤ t.now - since
  | .forced => maxWaitS ≤ t.now - start

theorem watch_broke {idleS maxWaitS start : ℚ} {seen turns : List (Turn ε)} {quietSince : Option ℚ}
    {t : Turn ε} {how : How} (before : ∀ since ∈ quietSince, QuietSince seen since)
    (broke : watch idleS maxWaitS start quietSince turns = some (.ok (t, how))) :
    ∃ front back, turns = front ++ t :: back ∧
      Ready idleS maxWaitS start (seen ++ front) t how := by
  induction turns generalizing seen quietSince with
  | nil => cases broke
  | cons u rest ih =>
      have after := QuietSince.turn (t := u) before
      rw [watch] at broke
      cases probed : u.probe with
      | error raised => simp [probed] at broke
      | ok probe =>
          simp only [probed] at broke
          split at broke
          next idle =>
            obtain ⟨rfl, rfl⟩ : u = t ∧ How.idle = how := by simpa using broke
            obtain ⟨since, quiet, long⟩ := (Option.any_eq_true _ _).mp idle
            refine ⟨[], rest, rfl, since, ?_, of_decide_eq_true long⟩
            rw [List.append_nil]
            exact after since quiet
          next =>
            split at broke
            next late =>
              obtain ⟨-, logged, made⟩ := map_ok (Option.some.inj broke)
              obtain ⟨rfl, rfl⟩ := Prod.mk.inj made
              exact ⟨[], rest, rfl, late⟩
            next =>
              cases slept : u.sleeps with
              | error raised => simp [slept] at broke
              | ok _ =>
                  simp only [slept] at broke
                  obtain ⟨front, back, rfl, ready⟩ := ih after broke
                  rw [List.append_assoc] at ready
                  exact ⟨u :: front, back, rfl, ready⟩

/-- A call that breaks before its time has just heard of no request. -/
theorem Ready.zero {idleS maxWaitS start : ℚ} {seen : List (Turn ε)} {t : Turn ε} {how : How}
    (ready : Ready idleS maxWaitS start seen t how) (early : t.now - start < maxWaitS) : t.Zero := by
  cases how with
  | idle =>
      obtain ⟨since, ⟨front, first, back, shape, zero, -⟩, -⟩ := ready
      have last : t ∈ (first :: back).getLast? := by
        rw [← List.getLast?_append_of_ne_nil front (List.cons_ne_nil first back), ← shape,
          List.getLast?_concat]
        rfl
      exact zero t (List.mem_of_getLast? last)
  | forced => exact absurd ready (not_le.mpr early)

/-- A call restarts the gateway once or does not return. It restarts at a turn before which it saw
    nothing in flight for `idle_s`, or which is `max_wait_s` from its start. -/
theorem restarts_once_when_ready (idleS maxWaitS start : ℚ) (restart : Except ε ℚ)
    (turns : List (Turn ε)) :
    let wait := waitThenRestart idleS maxWaitS start restart turns
    (wait.restarts = 0 ∧ ∀ waited, wait.result ≠ some (.ok waited)) ∨
      (wait.restarts = 1 ∧ ∃ seen t rest how, turns = seen ++ t :: rest ∧
        wait.result = some (restart.map fun clock => ⟨how, t.busy, clock⟩) ∧
        Ready idleS maxWaitS start seen t how ∧ (t.now - start < maxWaitS → t.Zero)) := by
  unfold waitThenRestart
  cases watched : watch idleS maxWaitS start none turns with
  | none => exact .inl ⟨rfl, nofun⟩
  | some ended =>
      cases ended with
      | error raised => exact .inl ⟨rfl, nofun⟩
      | ok broke =>
          obtain ⟨t, how⟩ := broke
          have unseen : ∀ since ∈ (none : Option ℚ), QuietSince ([] : List (Turn ε)) since :=
            fun since inside => absurd inside (Option.not_mem_none since)
          obtain ⟨seen, rest, shape, ready⟩ := watch_broke unseen watched
          exact .inr ⟨rfl, seen, t, rest, how, shape, rfl, ready, ready.zero⟩

/-- No wait goes on past `max_wait_s`. -/
theorem watch_ends {idleS maxWaitS start : ℚ} {turns : List (Turn ε)} {t : Turn ε}
    (member : t ∈ turns) (late : maxWaitS ≤ t.now - start) (quietSince : Option ℚ) :
    (watch idleS maxWaitS start quietSince turns).isSome := by
  induction turns generalizing quietSince with
  | nil => cases member
  | cons u rest ih =>
      rw [watch]
      cases u.probe with
      | error raised => rfl
      | ok _ =>
          dsimp only
          split
          next => rfl
          next =>
            split
            next => rfl
            next early =>
              cases u.sleeps with
              | error raised => rfl
              | ok _ =>
                  rcases List.mem_cons.mp member with rfl | later
                  · exact absurd late early
                  · exact ih later _

end LocalHarness.Gateway.Quiet
