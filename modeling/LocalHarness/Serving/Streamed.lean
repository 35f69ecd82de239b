import Mathlib.Data.List.Sort
import LocalHarness.Library.Decimal
import LocalHarness.Library.Ordered

/-! # A reply that comes in pieces

`assemble` puts the deltas of a streamed reply together to the body that a reply in one piece has. Each of
its fields is gathered by itself, and each tool call under its index.
-/

namespace LocalHarness.Serving

open LocalHarness.Library

namespace Streamed

/-- The arguments in a fragment: a text goes on with what is there, and what is no text takes its place. -/
inductive Arguments where
  | absent
  | text (s : String)
  | value (dumped : String)
  deriving DecidableEq

/-- A fragment of a tool call. -/
structure Part where
  index : Option ℤ
  id : Option String
  name : Option String
  arguments : Arguments
  deriving DecidableEq

/-- A tool call, whose type is `function`. -/
structure Call where
  id : String
  name : String
  arguments : String
  deriving DecidableEq

/-- A choice of a chunk, with its delta; `τ` is what stands for a token of the log-probabilities. -/
structure Choice (τ : Type) where
  content : Option String
  reasoningContent : Option String
  reasoning : Option String
  calls : List Part
  tokens : List τ
  finish : Option String

/-- A chunk; an empty `usage` says as little as none, and so do empty `timings`. -/
structure Chunk (υ τ : Type) where
  error : Option String
  usage : Option υ
  model : Option String
  timings : Option υ
  choices : List (Choice τ)

inductive Event (υ τ : Type) where
  /-- No `data:` line. -/
  | other
  | done
  /-- No JSON. -/
  | garbled
  | data (chunk : Chunk υ τ)

structure Line (υ τ : Type) where
  now : ℚ
  event : Event υ τ

inductive Stop where
  | timeout
  | malformed
  | server (error : String)
  deriving DecidableEq

structure Timing where
  ttft : Option ℚ
  firstReasoning : Option ℚ
  firstTool : Option ℚ
  deriving DecidableEq

/-- What has been gathered. -/
structure State (υ τ : Type) where
  content : List String
  reasoning : List String
  tokens : List τ
  calls : Ordered ℤ Call
  usage : Option υ
  timings : Option υ
  finish : Option String
  model : Option String
  first : Timing

structure Body (υ τ : Type) where
  content : Option String
  reasoning : Option String
  toolCalls : Option (List Call)
  finish : Option String
  tokens : Option (List τ)
  usage : Option υ
  timings : Option υ
  model : Option String

variable {υ τ : Type}

/-- A text that counts as said. -/
def said (text : Option String) : Option String :=
  text.filter (· ≠ "")

def Choice.thought (choice : Choice τ) : Option String :=
  said ((said choice.reasoningContent).or choice.reasoning)

/-- A fragment put to what is there of its call. -/
def merged (got : Option Call) (part : Part) : Call :=
  let got := got.getD ⟨"", "", ""⟩
  { id := (said part.id).getD got.id
    name := got.name ++ part.name.getD ""
    arguments :=
      match part.arguments with
      | .absent => got.arguments
      | .text s => got.arguments ++ s
      | .value dumped => dumped }

/-- `_merge_call`: a fragment with no index begins a call. -/
def mergeCall (calls : Ordered ℤ Call) (part : Part) : Ordered ℤ Call :=
  let at_ := part.index.getD calls.items.length
  calls.insert at_ (merged (calls.get? at_) part)

/-- When something was first seen. -/
def seen (now : ℚ) (first : Option ℚ) : Option ℚ :=
  first.or (some (Decimal.rounded 4 now))

namespace State

def start : State υ τ where
  content := []
  reasoning := []
  tokens := []
  calls := ∅
  usage := none
  timings := none
  finish := none
  model := none
  first := ⟨none, none, none⟩

def addChoice (now : ℚ) (s : State υ τ) (choice : Choice τ) : State υ τ where
  content := s.content ++ (said choice.content).toList
  reasoning := s.reasoning ++ choice.thought.toList
  tokens := s.tokens ++ choice.tokens
  calls := choice.calls.foldl mergeCall s.calls
  usage := s.usage
  timings := s.timings
  finish := (said choice.finish).or s.finish
  model := s.model
  first :=
    { ttft := if (said choice.content).isSome then seen now s.first.ttft else s.first.ttft
      firstReasoning := if choice.thought.isSome then seen now s.first.firstReasoning else s.first.firstReasoning
      firstTool := if choice.calls ≠ [] then seen now s.first.firstTool else s.first.firstTool }

def add (now : ℚ) (s : State υ τ) (chunk : Chunk υ τ) : State υ τ :=
  chunk.choices.foldl (addChoice now) { s with
    usage := chunk.usage.or s.usage
    model := (said chunk.model).or s.model
    timings := chunk.timings.or s.timings }

def joined (texts : List String) : Option String :=
  if texts = [] then none else some (String.join texts)

/-- The calls in the order of their indices. -/
def sortedCalls (calls : Ordered ℤ Call) : List Call :=
  (calls.items.insertionSort fun a b => a.1 ≤ b.1).map Prod.snd

def body (s : State υ τ) : Body υ τ where
  content := joined s.content
  reasoning := joined s.reasoning
  toolCalls := if s.calls.items = [] then none else some (sortedCalls s.calls)
  finish := s.finish
  tokens := if s.tokens.isEmpty then none else some s.tokens
  usage := s.usage
  timings := s.timings
  model := s.model

end State

def read (timeout : ℚ) : State υ τ → List (Line υ τ) → Except Stop (State υ τ)
  | s, [] => .ok s
  | s, line :: lines =>
      -- A slow writer still times out.
      if timeout < line.now then .error .timeout
      else
        match line.event with
        | .other => read timeout s lines
        | .done => .ok s
        | .garbled => .error .malformed
        | .data chunk =>
            match said chunk.error with
            | some error => .error (.server error)
            | none => read timeout (s.add line.now chunk) lines

def assemble (lines : List (Line υ τ)) (timeout : ℚ) : Except Stop (Body υ τ × Timing) :=
  (read timeout .start lines).map fun s => (s.body, s.first)

end Streamed

end LocalHarness.Serving
