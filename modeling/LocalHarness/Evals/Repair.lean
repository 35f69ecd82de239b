import Mathlib.Data.List.Infix
import LocalHarness.Library.Decimal
import LocalHarness.Library.Retry

/-! # Generate, check, repair

A model is asked for an artifact and asked again while the checker rejects what it made. The first request is
the case's own; each one after it is of the artifact before it and of why that was rejected, and of nothing
else.
-/

namespace LocalHarness.Evals.Repair

open LocalHarness.Library

abbrev Text := List Char

structure Case where
  modality : Text
  prompt : Text
  context : Text := []
  deriving DecidableEq

structure Request where
  prompt : Text
  model : Text
  gateway : Text
  modality : Text
  context : Text
  timeout : ℚ
  deriving DecidableEq

/-- A reply with the completion tokens that the server counted, where it did. -/
structure Reply where
  raw : Text
  tokens : Option Nat
  deriving DecidableEq

/-- `CompletionError`, and the `RunnerError` that is made of it. -/
structure Failure where
  detail : Text
  failure_class : Text
  limit : Text
  deriving DecidableEq

structure Verdict where
  passed : Bool
  detail : Text
  deriving DecidableEq

structure Metrics where
  attempts : Nat
  completion_tokens : Option Nat
  tokens_per_s : Option ℚ
  deriving DecidableEq

/-- What a run of attempts meets: the model, what is taken of a reply, the checker and the clock, each at an
attempt. -/
structure World where
  reply : Nat → Request → Except Failure Reply
  extract : Text → Text → Text
  score : Nat → Text → Verdict
  clock : Nat → ℚ

structure Runner where
  gateway : Text
  model : Text
  attempts : Nat
  timeout : ℚ
  some_ : 0 < attempts

/-- `RepairRunner.__init__` -/
def Runner.init (gateway model : Text) (attempts : Nat) (timeout : ℚ) : Runner where
  gateway := (gateway.reverse.dropWhile (· == '/')).reverse
  model := model
  attempts := max 1 attempts
  timeout := timeout
  some_ := Nat.lt_of_lt_of_le Nat.one_pos (Nat.le_max_left 1 attempts)

/-- `REPAIR_TEMPLATE.format` -/
def template (artifact reason : Text) : Text :=
  "Your previous attempt was rejected.\n\nWHAT YOU PRODUCED:\n".toList ++ artifact ++
    "\n\nWHY IT WAS REJECTED:\n".toList ++ reason ++
    "\n\nProduce a corrected version. Output only the artifact, nothing else.".toList

/-- What a run has so far, the requests it has made among it. -/
structure State where
  requests : List Request := []
  spent : Nat := 0
  artifact : Text := []
  reason : Text := []
  last_metrics : Option Metrics := none

variable (w : World) (runner : Runner) (case : Case)

def request (attempt : Nat) (s : State) : Request where
  prompt := if attempt = 1 then case.prompt else template (s.artifact.take 4000) s.reason
  model := runner.model
  gateway := runner.gateway
  modality := case.modality
  context := if attempt = 1 then case.context else []
  timeout := runner.timeout

/-- `_metrics` -/
def metrics (attempts spent : Nat) : Metrics :=
  let elapsed := w.clock attempts - w.clock 0
  if spent ≠ 0 ∧ 0 < elapsed then
    { attempts, completion_tokens := some spent, tokens_per_s := some (Decimal.rounded 1 (spent / elapsed)) }
  else { attempts, completion_tokens := none, tokens_per_s := none }

/-- Why an artifact is sent back. -/
def complaint (v : Verdict) : Text :=
  if v.detail = [] then "it did not meet the requirements".toList else v.detail

/-- The loop's body: it ends with an artifact that passes, or with an error. -/
def try_ (s : State) (attempt : Nat) : State × Option (Except Failure Text) :=
  let asked := request runner case attempt s
  let s := { s with requests := s.requests ++ [asked] }
  match w.reply attempt asked with
  | .error exc => (s, some (.error exc))
  | .ok got =>
      let spent := s.spent + got.tokens.getD 0
      let artifact := w.extract got.raw case.modality
      let s := { s with spent, artifact, last_metrics := some (metrics w attempt spent) }
      let verdict := w.score attempt artifact
      if verdict.passed then (s, some (.ok artifact)) else ({ s with reason := complaint verdict }, none)

/-- Out of attempts the last artifact is handed back. -/
def finish : State × Option (Except Failure Text) → State × Except Failure Text
  | (s, some result) => (s, result)
  | (s, none) => (s, .ok s.artifact)

def generate : State × Except Failure Text :=
  finish (retry (try_ w runner case) {} (List.range' 1 runner.attempts))

/-! ## The requests of a run -/

/-- A request whose artifact the checker did not pass, and what it said. -/
def Rejects (n : Nat) (asked : Request) (artifact reason : Text) : Prop :=
  ∃ got, w.reply n asked = .ok got ∧ artifact = w.extract got.raw case.modality ∧
    (w.score n artifact).passed = false ∧ reason = complaint (w.score n artifact)

/-- The first request is the case's; each other is of the artifact before it, which was rejected. -/
def Asked (requests : List Request) : Prop :=
  ∀ k asked, requests[k]? = some asked →
    k = 0 ∧ asked.prompt = case.prompt ∧ asked.context = case.context ∨
      ∃ j before artifact reason, k = j + 1 ∧ requests[j]? = some before ∧
        Rejects w case (j + 1) before artifact reason ∧ asked.prompt = template (artifact.take 4000) reason

/-- The tokens of the reply to a request. -/
def tokens (n : Nat) (asked : Request) : Nat :=
  match w.reply n asked with
  | .ok got => got.tokens.getD 0
  | .error _ => 0

def total (requests : List Request) : Nat :=
  (requests.mapIdx fun k asked => tokens w (k + 1) asked).sum

theorem total_concat (requests : List Request) (asked : Request) :
    total w (requests ++ [asked]) = total w requests + tokens w (requests.length + 1) asked := by
  rw [total, List.mapIdx_concat, List.sum_append, List.sum_singleton, total]

/-- The metrics are of so many requests, with their tokens where there are any and time has passed. -/
def Reports (m : Metrics) (requests spent : Nat) : Prop :=
  m.attempts = requests ∧ (m.completion_tokens = some spent ∨
    m.completion_tokens = none ∧ (spent = 0 ∨ w.clock requests ≤ w.clock 0))

theorem metrics_reports (requests spent : Nat) : Reports w (metrics w requests spent) requests spent := by
  unfold metrics
  dsimp only
  split
  next => exact ⟨rfl, .inl rfl⟩
  next none =>
    refine ⟨rfl, .inr ⟨rfl, ?_⟩⟩
    rw [not_and_or, not_not, not_lt, sub_nonpos] at none
    exact none

/-- What holds after so many attempts, none of which passed. -/
structure Kept (n : Nat) (s : State) : Prop where
  made : s.requests.length = n
  spent : s.spent = total w s.requests
  asked : Asked w case s.requests
  last : n = 0 ∨ ∃ k before, n = k + 1 ∧ s.requests[k]? = some before ∧
    Rejects w case n before s.artifact s.reason ∧ s.last_metrics = some (metrics w n s.spent)

variable {w runner case} {n : Nat} {s next : State} {result : Except Failure Text}

theorem Kept.start : Kept w case 0 {} where
  made := rfl
  spent := rfl
  asked := fun k asked found => by cases found
  last := .inl rfl

/-- One request more, built as the loop does. -/
theorem Kept.asked_next (kept : Kept w case n s) :
    Asked w case (s.requests ++ [request runner case (n + 1) s]) := by
  intro k asked found
  rcases Nat.lt_or_ge k s.requests.length with inside | past
  · rw [List.getElem?_append_left inside] at found
    rcases kept.asked k asked found with first | ⟨j, before, artifact, reason, rfl, earlier, rejected, same⟩
    · exact .inl first
    · refine .inr ⟨j, before, artifact, reason, rfl, ?_, rejected, same⟩
      rw [List.getElem?_append_left (Nat.lt_of_succ_lt inside)]
      exact earlier
  · rw [List.getElem?_append_right past, List.getElem?_singleton] at found
    obtain ⟨here, same⟩ := Option.ite_none_right_eq_some.mp found
    have place : k = n := by
      have length := kept.made
      omega
    obtain rfl := Option.some.inj same
    rcases kept.last with none | ⟨j, before, rfl, earlier, rejected, -⟩
    · exact .inl ⟨place.trans none, by simp [request, none], by simp [request, none]⟩
    · refine .inr ⟨j, before, _, _, place, ?_, rejected, by simp [request]⟩
      rw [List.getElem?_append_left (by have length := kept.made; omega)]
      exact earlier

theorem try_error {exc : Failure} (failed : w.reply n (request runner case n s) = .error exc) :
    try_ w runner case s n =
      ({ s with requests := s.requests ++ [request runner case n s] }, some (.error exc)) := by
  rw [try_, failed]

theorem try_ok {got : Reply} (answered : w.reply n (request runner case n s) = .ok got) :
    try_ w runner case s n =
      let artifact := w.extract got.raw case.modality
      let after : State :=
        { requests := s.requests ++ [request runner case n s], spent := s.spent + got.tokens.getD 0, artifact,
          reason := s.reason, last_metrics := some (metrics w n (s.spent + got.tokens.getD 0)) }
      if (w.score n artifact).passed then (after, some (.ok artifact))
      else ({ after with reason := complaint (w.score n artifact) }, none) := by
  rw [try_, answered]

theorem Kept.total_next (kept : Kept w case n s) {got : Reply}
    (answered : w.reply (n + 1) (request runner case (n + 1) s) = .ok got) :
    s.spent + got.tokens.getD 0 = total w (s.requests ++ [request runner case (n + 1) s]) := by
  rw [total_concat, kept.made, tokens, answered, kept.spent]

/-- An attempt that does not end the loop has made one request more, whose artifact was rejected. -/
theorem Kept.step (kept : Kept w case n s) (went : try_ w runner case s (n + 1) = (next, none)) :
    Kept w case (n + 1) next := by
  cases answered : w.reply (n + 1) (request runner case (n + 1) s) with
  | error exc =>
      rw [try_error answered] at went
      cases went
  | ok got =>
      rw [try_ok answered] at went
      dsimp only at went
      split at went
      next => cases went
      next failed =>
        cases went
        exact {
          made := by simp [kept.made]
          spent := kept.total_next answered
          asked := kept.asked_next
          last := .inr ⟨n, _, rfl, by simp [← kept.made],
            ⟨got, answered, rfl, Bool.eq_false_iff.mpr failed, rfl⟩, rfl⟩ }

variable (w runner case) in
/-- A run ends with the artifact of its last request, after which either there is no attempt left or the
checker passes it, and its metrics are of all its requests. -/
structure Ended (s : State) (artifact : Text) : Prop where
  artifact : ∃ k last got, s.requests.length = k + 1 ∧ s.requests[k]? = some last ∧
    w.reply (k + 1) last = .ok got ∧ artifact = w.extract got.raw case.modality ∧
      ((w.score (k + 1) artifact).passed = true ∨ k + 1 = runner.attempts)
  reported : ∃ m, s.last_metrics = some m ∧ Reports w m s.requests.length (total w s.requests)

/-- What holds when an attempt ends the loop. -/
theorem Kept.ended (kept : Kept w case n s) (went : try_ w runner case s (n + 1) = (next, some result)) :
    next.requests.length = n + 1 ∧ Asked w case next.requests ∧
      ∀ artifact, result = .ok artifact → Ended w runner case next artifact := by
  have length : (s.requests ++ [request runner case (n + 1) s]).length = n + 1 := by simp [kept.made]
  cases answered : w.reply (n + 1) (request runner case (n + 1) s) with
  | error exc =>
      rw [try_error answered] at went
      cases went
      exact ⟨length, kept.asked_next, fun artifact same => by cases same⟩
  | ok got =>
      rw [try_ok answered] at went
      dsimp only at went
      split at went
      next passed =>
        cases went
        refine ⟨length, kept.asked_next, fun artifact same => ?_⟩
        cases same
        exact {
          artifact := ⟨n, _, got, length, by simp [← kept.made], answered, rfl, .inl passed⟩
          reported := by
            refine ⟨_, rfl, ?_⟩
            rw [length, ← kept.total_next answered]
            exact metrics_reports w _ _ }
      next => cases went

/-! ## Whole runs -/

/-- The loop's attempts are numbered from one on. -/
theorem numbered {attempts a : Nat} {front back : List Nat} (shape : List.range' 1 attempts = front ++ a :: back) :
    a = front.length + 1 ∧ front.length < attempts := by
  have length := congrArg List.length shape
  have here := congrArg (·[front.length]?) shape
  simp only [List.length_range', List.length_append, List.length_cons] at length
  simp only [List.getElem?_append_right le_rfl, Nat.sub_self, List.getElem?_cons_zero] at here
  rw [List.getElem?_range' (by omega)] at here
  have same := Option.some.inj here
  exact ⟨by omega, by omega⟩

theorem kept_along {front : List Nat} {last : State} (inside : front <+: List.range' 1 runner.attempts)
    (went : retry (try_ w runner case) {} front = (last, none)) : Kept w case front.length last := by
  refine retry_kept (fun done s => done <+: List.range' 1 runner.attempts → Kept w case done.length s)
    (fun _ => .start) ?_ went inside
  intro done a mid next before step inside
  obtain ⟨back, shape⟩ := inside
  rw [List.append_assoc, List.singleton_append] at shape
  obtain ⟨rfl, -⟩ := numbered shape.symm
  rw [List.length_append, List.length_singleton]
  exact (before ⟨_, shape⟩).step step

/-- A run makes at most as many requests as it has attempts, the first of them the case's own and each other of
the artifact rejected before it; it returns the first artifact that passes, or else the last, with the requests
and their tokens. -/
theorem generate_run (w : World) (runner : Runner) (case : Case) :
    (generate w runner case).1.requests.length ≤ runner.attempts ∧
      Asked w case (generate w runner case).1.requests ∧
      ∀ artifact, (generate w runner case).2 = .ok artifact →
        Ended w runner case (generate w runner case).1 artifact := by
  refine (retry_iff fun result => (finish result).1.requests.length ≤ runner.attempts ∧
    Asked w case (finish result).1.requests ∧ ∀ artifact, (finish result).2 = .ok artifact →
      Ended w runner case (finish result).1 artifact).mpr ⟨?_, ?_⟩
  · intro front a back mid result shape before given
    obtain ⟨rfl, within⟩ := numbered shape
    have kept := kept_along ⟨_, shape.symm⟩ before
    have went : try_ w runner case mid (front.length + 1) = (_, some result) := Prod.ext rfl given
    obtain ⟨length, asked, ended⟩ := kept.ended went
    rw [went]
    exact ⟨length.trans_le within, asked, ended⟩
  · intro last went
    have kept := kept_along (List.prefix_refl _) went
    rw [List.length_range'] at kept
    refine ⟨kept.made.le, kept.asked, fun artifact same => ?_⟩
    obtain rfl := Except.ok.inj same
    rcases kept.last with none | ⟨k, before, many, found, ⟨got, answered, made, -⟩, reported⟩
    · exact absurd none runner.some_.ne'
    · exact {
        artifact := ⟨k, before, got, kept.made.trans many, found, many ▸ answered, made, .inr many.symm⟩
        reported := by
          refine ⟨_, reported, ?_⟩
          rw [kept.spent, ← kept.made]
          exact metrics_reports w _ _ }

/-- A model that always says the same, which the checker never passes. -/
def stubborn : World where
  reply := fun _ _ => .ok ⟨"<svg/>".toList, some 3⟩
  extract := fun raw _ => raw
  score := fun _ _ => ⟨false, "draws nothing".toList⟩
  clock := fun n => n

def gear : Case where
  modality := "svg".toList
  prompt := "a gear".toList

/-- The second of two requests does not say what is to be made. -/
theorem second_without_prompt :
    ((generate stubborn (.init [] "local-large".toList 2 180) gear).1.requests.map fun asked =>
      decide (gear.prompt <:+: asked.prompt)) = [true, false] := by
  decide +kernel

end LocalHarness.Evals.Repair
