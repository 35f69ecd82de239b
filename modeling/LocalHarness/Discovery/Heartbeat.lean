import Mathlib.Data.Int.Notation
import Mathlib.Data.Rat.Defs

/-! # The heartbeat of the discovery loop

One file says what the loop is doing. Whoever starts a loop writes it anew; a beat and a finish read it, and write it
again where it is their own process's. Between the reading and the writing any other process may write.
-/

namespace LocalHarness.Discovery.Heartbeat

inductive State
  | running
  | finished
  deriving DecidableEq

/-- What the file holds. -/
structure Beat where
  state : State
  pid : Nat
  lane : String
  tier : String
  candidate : String
  step : ℤ
  total : ℤ
  item : ℤ
  items : ℤ
  started : ℚ
  updated : ℚ
  finished : Option ℚ
  rc : Option ℤ
  error : String

/-- What `start` writes. -/
def fresh (pid : Nat) (lane : String) (total : ℤ) (now : ℚ) : Beat where
  state := .running
  pid := pid
  lane := lane
  tier := ""
  candidate := ""
  step := 0
  total := total
  item := 0
  items := 0
  started := now
  updated := now
  finished := none
  rc := none
  error := ""

/-- A call that reads the file before it writes it. -/
inductive Call
  | beat (tier : String) (step : ℤ) (total : Option ℤ) (candidate : String) (item items : ℤ)
  | finish (rc : Option ℤ) (error : String)

/-- What a call makes of its own process's data. -/
def Call.changes (now : ℚ) (data : Beat) : Call → Option Beat
  | .beat tier step total candidate item items =>
      if data.state ≠ .running then none
      else some { data with tier, step, candidate, item, items, updated := now, total := total.getD data.total }
  | .finish rc error => some { data with state := .finished, rc, error, finished := some now, updated := now }

/-- `_mine` -/
def mine (pid : Nat) (file : Option Beat) : Option Beat :=
  file.filter fun data => data.pid = pid

/-- What a call is about to write, by the file it reads. -/
def Call.reads (call : Call) (pid : Nat) (now : ℚ) (file : Option Beat) : Option Beat :=
  (mine pid file).bind fun data => call.changes now data

/-! ## The processes and the file -/

/-- The file, what each process is about to write to it, and all that was ever written, newest first. -/
structure Home where
  file : Option Beat := none
  hand : Nat → Option Beat := fun _ => none
  written : List Beat := []

namespace Home

variable (h : Home)

def holding (pid : Nat) (data : Option Beat) : Nat → Option Beat :=
  fun other => if other = pid then data else h.hand other

/-- `_write`: the file is replaced whole. -/
def write (pid : Nat) (data : Beat) : Home where
  file := some data
  hand := h.holding pid none
  written := data :: h.written

/-- What one process does, and what may happen to the file. A process calls nothing before its call has ended. -/
inductive Act
  | start (pid : Nat) (lane : String) (total : ℤ) (now : ℚ)
  | reads (pid : Nat) (call : Call) (now : ℚ)
  /-- The file cannot be read, and the call ends. -/
  | unreadable (pid : Nat)
  | writes (pid : Nat)
  | dies (pid : Nat)
  | deleted

def after : Act → Home
  | .start pid lane total now => if h.hand pid = none then h.write pid (fresh pid lane total now) else h
  | .reads pid call now =>
      if h.hand pid = none then { h with hand := h.holding pid (call.reads pid now h.file) } else h
  | .unreadable _ => h
  | .writes pid =>
      match h.hand pid with
      | some data => h.write pid data
      | none => h
  | .dies pid => { h with hand := h.holding pid none }
  | .deleted => { h with file := none }

/-- A run of any processes in any order. -/
def ran (acts : List Act) : Home :=
  acts.foldl after {}

end Home

/-- The last that a process wrote. -/
def last (pid : Nat) (written : List Beat) : Option Beat :=
  written.find? fun data => data.pid = pid

/-- A heartbeat that begins a loop, or that a call made of the last one its own process wrote. -/
def Continues (data : Beat) (before : List Beat) : Prop :=
  (∃ lane total now, data = fresh data.pid lane total now) ∨
    ∃ call now own, last data.pid before = some own ∧ Call.changes now own call = some data

theorem changes_pid {call : Call} {now : ℚ} {data new : Beat} (made : call.changes now data = some new) :
    new.pid = data.pid := by
  cases call with
  | beat tier step total candidate item items =>
      rw [Call.changes] at made
      split at made
      next => cases made
      next => rw [← Option.some.inj made]
  | finish rc error => rw [← Option.some.inj made]

theorem last_cons_of_ne {pid : Nat} {data : Beat} {before : List Beat} (other : data.pid ≠ pid) :
    last pid (data :: before) = last pid before :=
  List.find?_cons_of_neg (by simpa using other)

theorem last_cons_self {data : Beat} {before : List Beat} : last data.pid (data :: before) = some data :=
  List.find?_cons_of_pos (by simp)

/-- What is in the file was written last; what a process is about to write is its own, and continues its own. -/
structure Own (h : Home) : Prop where
  file : ∀ data, h.file = some data → h.written.head? = some data
  hand : ∀ pid data, h.hand pid = some data → data.pid = pid ∧ Continues data h.written
  written : ∀ newer data older, h.written = newer ++ data :: older → Continues data older

namespace Own

variable {h : Home}

theorem holding_none (own : Own h) (pid : Nat) {other : Nat} {data : Beat}
    (held : h.holding pid none other = some data) : other ≠ pid ∧ data.pid = other ∧ Continues data h.written := by
  rw [Home.holding] at held
  split at held
  next => cases held
  next apart => exact ⟨apart, own.hand other data held⟩

/-- A write of a process leaves what the others are about to write as it was. -/
theorem write (own : Own h) {data : Beat} (continues : Continues data h.written) : Own (h.write data.pid data) where
  file := fun _ same => same
  hand := by
    intro other next held
    obtain ⟨apart, its, made⟩ := own.holding_none data.pid held
    refine ⟨its, made.imp_right fun ⟨call, now, before, wrote, changes⟩ => ⟨call, now, before, ?_, changes⟩⟩
    rwa [Home.write, last_cons_of_ne (its.symm ▸ Ne.symm apart)]
  written := by
    intro newer next older shape
    cases newer with
    | nil =>
        obtain ⟨rfl, rfl⟩ := List.cons.inj shape
        exact continues
    | cons first newer => exact own.written newer next older (List.cons.inj shape).2

theorem after (own : Own h) (act : Home.Act) : Own (h.after act) := by
  cases act with
  | start pid lane total now =>
      rw [Home.after]
      split
      next =>
        have begins : Continues (fresh pid lane total now) h.written := .inl ⟨lane, total, now, rfl⟩
        exact own.write begins
      next => exact own
  | reads pid call now =>
      rw [Home.after]
      split
      next =>
        refine ⟨own.file, fun other data held => ?_, own.written⟩
        simp only [Home.holding] at held
        split at held
        next same =>
          obtain ⟨before, read, made⟩ := Option.bind_eq_some_iff.mp held
          obtain ⟨there, its⟩ := Option.filter_eq_some_iff.mp read
          have its : before.pid = pid := of_decide_eq_true its
          have written : last data.pid h.written = some before := by
            cases shape : h.written with
            | nil =>
                have head := own.file before there
                rw [shape] at head
                cases head
            | cons first rest =>
                have head := own.file before there
                rw [shape, List.head?_cons, Option.some.injEq] at head
                rw [changes_pid made, head, last_cons_self]
          exact ⟨(changes_pid made).trans (its.trans same.symm), .inr ⟨call, now, before, written, made⟩⟩
        next => exact own.hand other data held
      next => exact own
  | unreadable pid => exact own
  | writes pid =>
      rw [Home.after]
      split
      next data held =>
        obtain ⟨its, continues⟩ := own.hand pid data held
        exact its ▸ own.write continues
      next => exact own
  | dies pid => exact ⟨own.file, fun other data held => (own.holding_none pid held).2, own.written⟩
  | deleted => exact ⟨fun _ same => (by cases same), own.hand, own.written⟩

end Own

theorem own_ran (acts : List Home.Act) : Own (Home.ran acts) := by
  have whole : ∀ (acts : List Home.Act) (h : Home), Own h → Own (acts.foldl Home.after h) := by
    intro acts
    induction acts with
    | nil => exact fun _ own => own
    | cons act rest ih => exact fun h own => ih (h.after act) (own.after act)
  refine whole acts {} ⟨fun _ held => ?_, fun _ _ held => ?_, fun newer data older shape => ?_⟩
  · cases held
  · cases held
  · cases newer <;> cases shape

/-- A call leaves whose loop it is and when that began, and takes back no end. -/
theorem changes_keeps {call : Call} {now : ℚ} {data new : Beat} (made : call.changes now data = some new) :
    new.lane = data.lane ∧ new.started = data.started ∧ (data.state = .finished → new.state = .finished) := by
  cases call with
  | beat tier step total candidate item items =>
      rw [Call.changes] at made
      split at made
      next => cases made
      next runs =>
        obtain rfl := Option.some.inj made
        exact ⟨rfl, rfl, fun ended => ended⟩
  | finish rc error =>
      obtain rfl := Option.some.inj made
      exact ⟨rfl, rfl, fun _ => rfl⟩

/-- However the processes take turns, what is in the file was written last, and every heartbeat that was written
    begins a loop or is what a call made of the last that its own process wrote: no loop is taken for another's,
    and none that has finished runs again. -/
theorem own_heartbeat (acts : List Home.Act) :
    (∀ data, (Home.ran acts).file = some data → (Home.ran acts).written.head? = some data) ∧
      ∀ newer data older, (Home.ran acts).written = newer ++ data :: older →
        (∃ lane total now, data = fresh data.pid lane total now) ∨
          ∃ call now own, last data.pid older = some own ∧ Call.changes now own call = some data ∧
            data.lane = own.lane ∧ data.started = own.started ∧ (own.state = .finished → data.state = .finished) := by
  refine ⟨(own_ran acts).file, fun newer data older shape => ?_⟩
  refine ((own_ran acts).written newer data older shape).imp_right fun ⟨call, now, own, wrote, made⟩ => ?_
  exact ⟨call, now, own, wrote, made, changes_keeps made⟩

end LocalHarness.Discovery.Heartbeat
