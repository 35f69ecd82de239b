import Mathlib.Data.List.Infix
import Mathlib.Data.List.ModifyLast
import LocalHarness.Library.Decimal

/-! # The calls of a run

What a run did is told twice, by the stream of its events and by the log of the sandbox. A call of the stream
takes the first entry of the log that is left under its name, and the entries that are left in the end go to
the last step, so that each entry is some call's exactly where there is a step or nothing to tell.
-/

namespace LocalHarness.Evals.Steps

open LocalHarness.Library

abbrev Text := List Char

def UNREACHED : Text := "did not reach the sandbox".toList

/-- A line of the sandbox's log; past the cap on calls only the first three are written. -/
structure Entry where
  name : Option Text
  valid : Bool
  why : Text
  parsed : Option Bool := none
  schema_ok : Option Bool := none
  real : Option Bool := none
  ok : Option Bool := none
  at_ : ℚ
  /-- The sandbox does not write of a call that it did not reach it. -/
  reached : why ≠ UNREACHED
  deriving DecidableEq

/-! ## The stream -/

/-- What a line of the stream is. -/
inductive Line
  /-- Not JSON, no object, or of another type. -/
  | noise
  | user
  | message_start (input cache_read cache_creation : Option Nat)
  | content_block_start (type name : Option Text)
  | content_block_delta (type : Option Text)
  /-- The tokens, where they are a whole number. -/
  | message_delta (output_tokens : Option Int)
  | message_stop
  /-- Another event of the stream. -/
  | other
  deriving DecidableEq

/-- A call as it is announced, until the log tells what came of it. -/
structure Call where
  name : Option Text
  valid : Option Bool := none
  why : Option Text := none
  /-- The entry that the call's outcome is of. -/
  entry : Option Entry := none
  deriving DecidableEq

structure Step where
  step : Nat
  ttft_s : Option ℚ := none
  first_reasoning_s : Option ℚ := none
  prefill_s : Option ℚ := none
  seconds : Option ℚ := none
  calls : List Call := []
  prompt_tokens : Nat := 0
  completion_tokens : Option Int := none
  deriving DecidableEq

/-- `tool_name`: what is after the server's name, where it is there. -/
def tool_name (name : Text) : Text :=
  let server := "mcp__sandbox__".toList
  if server <+: name then name.drop server.length else name

/-- The time since the last message of the user. -/
def since (ref now : ℚ) : ℚ :=
  Decimal.rounded 4 (now - ref)

/-- What an event changes in the step that it falls into. -/
def Step.see (ref now : ℚ) (s : Step) : Line → Step
  | .content_block_start type name =>
      if type = some "tool_use".toList then
        { s with
          calls := s.calls ++ [{ name := some (tool_name (name.getD [])) }]
          ttft_s := s.ttft_s.or (some (since ref now)) }
      else s
  | .content_block_delta type =>
      if type = some "thinking_delta".toList ∧ s.first_reasoning_s = none then
        { s with first_reasoning_s := some (since ref now) }
      else if (type = some "text_delta".toList ∨ type = some "input_json_delta".toList) ∧ s.ttft_s = none then
        { s with ttft_s := some (since ref now) }
      else s
  | .message_delta tokens => { s with completion_tokens := tokens.or s.completion_tokens }
  | .message_stop => { s with seconds := some (since ref now) }
  | _ => s

/-- The steps so far, and when the last message of the user was. -/
structure Reading where
  steps : List Step := []
  ref : ℚ := 0

/-- The loop over the lines: an event before the first message is of no step. -/
def Reading.line (r : Reading) (timed : ℚ × Line) : Reading :=
  match timed.2 with
  | .noise => r
  | .user => { r with ref := timed.1 }
  | .message_start input read creation =>
      { r with steps := r.steps ++ [{ step := r.steps.length + 1
                                      prompt_tokens := input.getD 0 + read.getD 0 + creation.getD 0 }] }
  | event => { r with steps := r.steps.modifyLast fun s => s.see r.ref timed.1 event }

/-! ## The log -/

/-- A call takes the first entry of its name, if one is left. -/
def settle (call : Call) (pending : List Entry) : Call × List Entry :=
  match pending.find? fun e => e.name = call.name with
  | none => ({ call with valid := some false, why := some UNREACHED }, pending)
  | some hit =>
      ({ call with valid := some hit.valid, why := some hit.why, entry := some hit }, pending.erase hit)

def settleCalls : List Call → List Entry → List Call × List Entry
  | [], pending => ([], pending)
  | call :: calls, pending =>
      let (done, left) := settle call pending
      let (rest, left) := settleCalls calls left
      (done :: rest, left)

def settleSteps : List Step → List Entry → List Step × List Entry
  | [], pending => ([], pending)
  | step :: steps, pending =>
      let (calls, left) := settleCalls step.calls pending
      let (rest, left) := settleSteps steps left
      ({ step with calls } :: rest, left)

/-- A call that only the log tells of. -/
def Entry.call (e : Entry) : Call where
  name := e.name
  valid := some e.valid
  why := some e.why
  entry := some e

def parse_steps (lines : List (ℚ × Line)) (log : List Entry) : List Step :=
  let steps := (lines.foldl Reading.line {}).steps
  let (steps, pending) := settleSteps steps log
  if pending ≠ [] ∧ steps ≠ [] then
    steps.modifyLast fun s => { s with calls := s.calls ++ pending.map Entry.call }
  else steps

/-- `rollup`: the counts and the rate of the calls. -/
structure Rollup where
  agent_steps : Nat
  agent_tool_calls : Nat
  agent_valid_calls : Nat
  agent_valid_call_rate : ℚ

def calls (steps : List Step) : List Call :=
  steps.flatMap Step.calls

def rollup (steps : List Step) : Rollup :=
  let all := (calls steps).length
  let valid := (calls steps).countP (·.valid = some true)
  { agent_steps := steps.length
    agent_tool_calls := all
    agent_valid_calls := valid
    agent_valid_call_rate := if all = 0 then 0 else Decimal.rounded 4 (valid / all) }

/-! ## Each entry once -/

variable {call : Call} {cs more : List Call} {steps : List Step} {log pending : List Entry} {name : Option Text}

/-- A call as the stream leaves it, of which the log has not told yet. -/
def Fresh (cs : List Call) : Prop :=
  ∀ call ∈ cs, call.entry = none

/-- What a call says is what the log says of its entry, or that it has none. -/
structure Told (call : Call) : Prop where
  own : ∀ e, call.entry = some e → call.name = e.name ∧ call.valid = some e.valid ∧ call.why = some e.why
  unreached : call.entry = none → call.valid = some false ∧ call.why = some UNREACHED

theorem Told.why_iff (told : Told call) : call.why = some UNREACHED ↔ call.entry = none := by
  constructor
  · intro marked
    cases taken : call.entry with
    | none => rfl
    | some e =>
        have told_why := (told.own e taken).2.2
        exact absurd (Option.some.inj (told_why.symm.trans marked)) e.reached
  · exact fun none => (told.unreached none).2

theorem told_entry (e : Entry) : Told e.call where
  own := by
    rintro other ⟨⟩
    exact ⟨rfl, rfl, rfl⟩
  unreached := fun none => by cases none

theorem settle_told (fresh : call.entry = none) (pending : List Entry) : Told (settle call pending).1 := by
  unfold settle
  split
  next => exact ⟨fun e taken => absurd (fresh.symm.trans taken) (by simp), fun _ => ⟨rfl, rfl⟩⟩
  next hit found =>
    have named := List.find?_some found
    have same := of_decide_eq_true named
    refine ⟨?_, fun none => by cases none⟩
    rintro e ⟨⟩
    exact ⟨same.symm, rfl, rfl⟩

/-- The first entry of a name is the one that is taken. -/
theorem erase_found {hit : Entry} (found : (pending.find? fun e => e.name = call.name) = some hit) :
    pending.filter (·.name = name) =
      (if hit.name = name then [hit] else []) ++ (pending.erase hit).filter (·.name = name) := by
  obtain ⟨same, front, back, rfl, before⟩ := List.find?_eq_some_iff_append.mp found
  have same := of_decide_eq_true same
  have absent : hit ∉ front := by
    intro member
    have apart := before hit member
    simp [same] at apart
  rw [List.erase_append_right _ absent, List.erase_cons_head, List.filter_append, List.filter_append,
    List.filter_cons]
  by_cases named : hit.name = name
  · have none : front.filter (·.name = name) = [] := by
      refine List.filter_eq_nil_iff.mpr fun e member here => ?_
      have apart := before e member
      rw [same.symm.trans named, of_decide_eq_true here] at apart
      simp at apart
    simp [named, none]
  · simp [named]

theorem settle_once (fresh : call.entry = none) (pending : List Entry) (name : Option Text) :
    pending.filter (·.name = name) =
      ((settle call pending).1.entry.toList).filter (·.name = name) ++
        (settle call pending).2.filter (·.name = name) := by
  unfold settle
  split
  next => simp [fresh]
  next hit found =>
    rw [erase_found found]
    simp [List.filter_cons]

/-- The entries that calls took, in their order. -/
def taken (cs : List Call) : List Entry :=
  cs.filterMap Call.entry

theorem taken_cons : taken (call :: cs) = call.entry.toList ++ taken cs := by
  unfold taken
  cases entry : call.entry <;> simp [entry]

theorem settleCalls_cons : settleCalls (call :: cs) pending =
    ((settle call pending).1 :: (settleCalls cs (settle call pending).2).1,
      (settleCalls cs (settle call pending).2).2) := rfl

theorem settleSteps_cons (step : Step) : settleSteps (step :: steps) pending =
    ({ step with calls := (settleCalls step.calls pending).1 } ::
        (settleSteps steps (settleCalls step.calls pending).2).1,
      (settleSteps steps (settleCalls step.calls pending).2).2) := rfl

theorem settleCalls_told (fresh : Fresh cs) : ∀ call ∈ (settleCalls cs pending).1, Told call := by
  induction cs generalizing pending with
  | nil => exact List.forall_mem_nil _
  | cons call cs ih =>
      obtain ⟨first, others⟩ := List.forall_mem_cons.mp fresh
      exact List.forall_mem_cons.mpr ⟨settle_told first pending, ih others⟩

/-- Of each name the calls take the first entries, and the others are left. -/
theorem settleCalls_once (fresh : Fresh cs) (name : Option Text) :
    pending.filter (·.name = name) =
      (taken (settleCalls cs pending).1).filter (·.name = name) ++
        (settleCalls cs pending).2.filter (·.name = name) := by
  induction cs generalizing pending with
  | nil => rfl
  | cons call cs ih =>
      obtain ⟨first, others⟩ := List.forall_mem_cons.mp fresh
      rw [settle_once first pending name, @ih (settle call pending).2 others, settleCalls, taken_cons,
        List.filter_append, List.append_assoc]

theorem settleCalls_append : settleCalls (cs ++ more) pending =
    ((settleCalls cs pending).1 ++ (settleCalls more (settleCalls cs pending).2).1,
      (settleCalls more (settleCalls cs pending).2).2) := by
  induction cs generalizing pending with
  | nil => rfl
  | cons call cs ih => rw [List.cons_append, settleCalls_cons, ih, settleCalls_cons, List.cons_append]

theorem calls_cons (step : Step) : calls (step :: steps) = step.calls ++ calls steps :=
  List.flatMap_cons

/-- Step by step the calls are settled as if they were all in one. -/
theorem settleSteps_calls : (calls (settleSteps steps pending).1, (settleSteps steps pending).2) =
    settleCalls (calls steps) pending := by
  induction steps generalizing pending with
  | nil => rfl
  | cons step steps ih =>
      obtain ⟨all, left⟩ := Prod.mk.inj (@ih (settleCalls step.calls pending).2)
      rw [settleSteps_cons, left, calls_cons, all, calls_cons, settleCalls_append]

theorem settleSteps_length : (settleSteps steps pending).1.length = steps.length := by
  induction steps generalizing pending with
  | nil => rfl
  | cons step steps ih => rw [settleSteps_cons, List.length_cons, ih, List.length_cons]

/-! ## The steps of a stream -/

theorem fresh_see (ref now : ℚ) (s : Step) (event : Line) (fresh : Fresh s.calls) : Fresh (s.see ref now event).calls := by
  unfold Step.see
  split
  next =>
    split
    next =>
      intro call member
      rcases List.mem_append.mp member with before | new
      · exact fresh call before
      · rw [List.mem_singleton.mp new]
    next => exact fresh
  next => split_ifs <;> exact fresh
  all_goals exact fresh

/-- The message that starts a step. -/
def Line.starts : Line → Bool
  | .message_start .. => true
  | _ => false

theorem calls_concat (steps : List Step) (s : Step) : calls (steps ++ [s]) = calls steps ++ s.calls := by
  simp [calls]

theorem fresh_line (r : Reading) (timed : ℚ × Line) (fresh : Fresh (calls r.steps)) :
    Fresh (calls (r.line timed).steps) := by
  have changed : ∀ event, Fresh (calls (r.steps.modifyLast fun s => s.see r.ref timed.1 event)) := by
    intro event
    rcases List.eq_nil_or_concat r.steps with none | ⟨front, last, some_⟩
    · rw [none]
      exact List.forall_mem_nil _
    · rw [List.concat_eq_append] at some_
      rw [some_, calls_concat] at fresh
      rw [some_, List.modifyLast_concat, calls_concat]
      intro call member
      rcases List.mem_append.mp member with before | here
      · exact fresh call (List.mem_append_left _ before)
      · exact fresh_see _ _ last event (fun c m => fresh c (List.mem_append_right _ m)) call here
  unfold Reading.line
  split
  · exact fresh
  · exact fresh
  · rw [calls_concat, List.append_nil]
    exact fresh
  · exact changed _

theorem length_line (r : Reading) (timed : ℚ × Line) :
    (r.line timed).steps.length = r.steps.length + if timed.2.starts then 1 else 0 := by
  have changed : ∀ event, (r.steps.modifyLast fun s => s.see r.ref timed.1 event).length = r.steps.length := by
    intro event
    rcases List.eq_nil_or_concat r.steps with none | ⟨front, last, some_⟩
    · rw [none]
      rfl
    · rw [some_, List.concat_eq_append, List.modifyLast_concat]
      simp
  obtain ⟨now, event⟩ := timed
  cases event with
  | noise | user => rfl
  | message_start => exact List.length_append
  | _ => exact changed _

theorem length_lines (lines : List (ℚ × Line)) (r : Reading) :
    (lines.foldl Reading.line r).steps.length = r.steps.length + lines.countP (·.2.starts) := by
  induction lines generalizing r with
  | nil => rfl
  | cons timed lines ih =>
      rw [List.foldl_cons, ih, length_line, List.countP_cons]
      omega

theorem fresh_lines (lines : List (ℚ × Line)) (r : Reading) (fresh : Fresh (calls r.steps)) :
    Fresh (calls (lines.foldl Reading.line r).steps) := by
  induction lines generalizing r with
  | nil => exact fresh
  | cons timed lines ih => exact ih (r.line timed) (fresh_line r timed fresh)

/-! ## What the steps tell of the log -/

/-- Of each name the calls tell of the log's entries, each once and in their order; what a call says is what
its entry says, or that it has none; and the counts are those of the log and of the calls without one. -/
structure Attributed (steps : List Step) (log : List Entry) : Prop where
  once : ∀ name, (taken (calls steps)).filter (·.name = name) = log.filter (·.name = name)
  own : ∀ call ∈ calls steps, ∀ e, call.entry = some e →
    call.name = e.name ∧ call.valid = some e.valid ∧ call.why = some e.why
  unreached : ∀ call ∈ calls steps, call.entry = none ↔ call.why = some UNREACHED
  all_calls : (rollup steps).agent_tool_calls = log.length + (calls steps).countP (·.entry = none)
  valid_calls : (rollup steps).agent_valid_calls = log.countP (·.valid)

theorem perm_of_once {entries : List Entry} (once : ∀ name, entries.filter (·.name = name) = log.filter (·.name = name)) :
    entries.Perm log := by
  refine List.perm_iff_count.mpr fun e => ?_
  have own : ∀ l : List Entry, l.count e = (l.filter (·.name = e.name)).count e := fun l =>
    (@List.count_filter _ _ _ (fun other : Entry => decide (other.name = e.name)) e l (decide_eq_true rfl)).symm
  rw [own, once, ← own]

theorem length_eq_taken (cs : List Call) : cs.length = (taken cs).length + cs.countP (·.entry = none) := by
  induction cs with
  | nil => rfl
  | cons call cs ih =>
      rw [List.length_cons, taken_cons, List.countP_cons, ih]
      cases entry : call.entry <;> simp <;> omega

theorem countP_valid (told : ∀ call ∈ cs, Told call) :
    cs.countP (·.valid = some true) = (taken cs).countP (·.valid) := by
  induction cs with
  | nil => rfl
  | cons call cs ih =>
      obtain ⟨first, others⟩ := List.forall_mem_cons.mp told
      rw [taken_cons, List.countP_cons, List.countP_append, ih others, Nat.add_comm]
      congr 1
      cases entry : call.entry with
      | none => simp [(first.unreached entry).1]
      | some e => simp [(first.own e entry).2.1]

theorem attributed_of_told (told : ∀ call ∈ calls steps, Told call)
    (once : ∀ name, (taken (calls steps)).filter (·.name = name) = log.filter (·.name = name)) :
    Attributed steps log where
  once := once
  own := fun call member => (told call member).own
  unreached := fun call member => (told call member).why_iff.symm
  all_calls := (length_eq_taken (calls steps)).trans (by rw [(perm_of_once once).length_eq])
  valid_calls := (countP_valid told).trans ((perm_of_once once).countP_eq _)

/-- The entries that are left go to the last step. -/
theorem calls_leftover (some_ : steps ≠ []) (left : List Call) :
    calls (steps.modifyLast fun s => { s with calls := s.calls ++ left }) = calls steps ++ left := by
  rcases List.eq_nil_or_concat steps with none | ⟨front, last, rfl⟩
  · exact absurd none some_
  · rw [List.concat_eq_append, List.modifyLast_concat, calls_concat, calls_concat, List.append_assoc]

theorem taken_leftover (left : List Entry) : taken (cs ++ left.map Entry.call) = taken cs ++ left := by
  simp [taken, List.filterMap_map, Entry.call, Function.comp_def]

theorem calls_parse_steps {lines : List (ℚ × Line)} (some_ : (lines.foldl Reading.line {}).steps ≠ []) :
    calls (parse_steps lines log) =
      (settleCalls (calls (lines.foldl Reading.line {}).steps) log).1 ++
        (settleCalls (calls (lines.foldl Reading.line {}).steps) log).2.map Entry.call := by
  obtain ⟨all, left⟩ := Prod.mk.inj (@settleSteps_calls (lines.foldl Reading.line {}).steps log)
  have still : (settleSteps (lines.foldl Reading.line {}).steps log).1 ≠ [] := by
    rw [← List.length_pos_iff, settleSteps_length]
    exact List.length_pos_iff.mpr some_
  unfold parse_steps
  dsimp only
  rw [← all, ← left]
  split
  next => exact calls_leftover still _
  next none =>
    have empty : (settleSteps (lines.foldl Reading.line {}).steps log).2 = [] :=
      not_not.mp fun pending => none ⟨pending, still⟩
    rw [empty, List.map_nil, List.append_nil]

theorem parse_steps_nil {lines : List (ℚ × Line)} (none : (lines.foldl Reading.line {}).steps = []) :
    parse_steps lines log = [] := by
  unfold parse_steps
  rw [none]
  simp [settleSteps]

/-- The log is told of by the steps exactly where it is empty or the stream starts a message. -/
theorem log_attributed_iff (lines : List (ℚ × Line)) (log : List Entry) :
    Attributed (parse_steps lines log) log ↔ log = [] ∨ ∃ timed ∈ lines, timed.2.starts = true := by
  have started : (lines.foldl Reading.line {}).steps ≠ [] ↔ ∃ timed ∈ lines, timed.2.starts = true := by
    rw [← List.length_pos_iff, length_lines, List.length_nil, Nat.zero_add, List.countP_pos_iff]
  rw [← started]
  have fresh := fresh_lines lines {} (List.forall_mem_nil _)
  constructor
  · intro attributed
    refine or_iff_not_imp_right.mpr fun none => ?_
    have empty := @parse_steps_nil log _ (not_not.mp none)
    refine List.eq_nil_iff_forall_not_mem.mpr fun e member => ?_
    have own := attributed.once e.name
    rw [empty] at own
    have here : e ∈ log.filter (·.name = e.name) := List.mem_filter.mpr ⟨member, decide_eq_true rfl⟩
    rw [← own] at here
    cases here
  · intro either
    by_cases some_ : (lines.foldl Reading.line {}).steps ≠ []
    · refine attributed_of_told ?_ fun name => ?_
      · rw [calls_parse_steps some_]
        intro call member
        rcases List.mem_append.mp member with settled | left
        · exact settleCalls_told fresh call settled
        · obtain ⟨e, -, rfl⟩ := List.mem_map.mp left
          exact told_entry e
      · rw [calls_parse_steps some_, taken_leftover, List.filter_append]
        exact (settleCalls_once fresh name).symm
    · obtain rfl := either.resolve_right some_
      rw [parse_steps_nil (not_not.mp some_)]
      exact attributed_of_told (List.forall_mem_nil _) fun _ => rfl

/-- A call of the sandbox, and a stream that was cut before its first message. -/
def written : Entry where
  name := some "run_tests".toList
  valid := true
  why := []
  at_ := 1
  reached := by decide

theorem call_lost : ¬ Attributed (parse_steps [(1, .noise)] [written]) [written] ∧
    (rollup (parse_steps [(1, .noise)] [written])).agent_valid_calls = 0 := by
  refine ⟨fun attributed => ?_, by decide⟩
  have none := attributed.valid_calls
  exact absurd none (by decide)

end LocalHarness.Evals.Steps
