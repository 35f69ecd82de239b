import LocalHarness.Library.JsonDumps

/-! # Conversations with a needle server

A server keeps the conversation it was started with, and is sent what is new in each call. What is new is
told from the first message and from how many messages the last call that went through had.
-/

namespace LocalHarness.Serving.Needle

open LocalHarness.Library LocalHarness.Library.JsonText

inductive Role
  | assistant
  | tool
  | other (name : Str)
  deriving DecidableEq

/-- A message; `ρ` is what nothing but a comparison reads of it. -/
structure Message (ρ : Type) where
  role : Role
  content : Option Str
  /-- The ids of the tool calls, and the names of their functions. -/
  calls : List (Option Str × Option Str)
  call : Option Str
  rest : ρ
  deriving DecidableEq

variable {ρ τ : Type}

/-! ## What a conversation is to the server -/

/-- Tool results as one turn, which there is none of without a result. -/
def turn (results : List (Option Str × Str)) : List Str :=
  if results = [] then []
  else [dumps (.array (results.map fun result =>
    .object [(text "name", result.1.elim .null .string), (text "result", .string result.2)]))]

/-- `inputs` of the messages that are left, when these calls are named and these results gathered. The last
call of an id is in front. -/
def inputsFrom : List (Option Str × Option Str) → List (Option Str × Str) → List (Message ρ) → List Str
  | _, results, [] => turn results
  | names, results, m :: rest =>
      match m.role with
      | .assistant => inputsFrom (m.calls.reverse ++ names) results rest
      | .tool =>
          let name := (names.lookup m.call).getD (some [])
          inputsFrom names (results ++ [(name, m.content.getD [])]) rest
      | .other _ => turn results ++ m.content.getD [] :: inputsFrom names [] rest

def inputs (new : List (Message ρ)) : List Str :=
  inputsFrom [] [] new

/-! ## The chat -/

structure ToolCall where
  name : Str
  arguments : Str
  deriving DecidableEq

/-- What the server says. -/
structure Body where
  /-- It says that it did not succeed, and why. -/
  refused : Bool
  calls : List ToolCall
  suppressed : List ToolCall
  reasoning : Str
  deriving DecidableEq

/-- The `{}` there is before the first post. -/
def Body.blank : Body :=
  ⟨false, [], [], []⟩

/-- The loop confirms what the engine withheld. -/
def Body.confirmed (body : Body) : Body :=
  if body.calls = [] then { body with calls := body.suppressed } else body

/-- A reply as a message of the assistant, the calls under their ids. -/
structure Reply where
  content : Str
  calls : List (Str × ToolCall)
  deriving DecidableEq

def message (body : Body) (step : Nat) : Reply :=
  if body.calls = [] then ⟨body.reasoning, []⟩
  else ⟨[], body.calls.mapIdx fun i call => (text "call_" ++ whole step ++ text "_" ++ whole i, call)⟩

/-- What becomes of a post. -/
inductive Post (β : Type)
  | answered (body : β)
  /-- It raised, and the server took it or did not. -/
  | failed (taken : Bool)

structure Call (ρ τ : Type) where
  messages : List (Message ρ)
  tools : τ
  /-- A server comes up, if one is started. -/
  starts : Bool
  reset : Post Unit
  /-- The posts of the inputs. -/
  complete : Nat → Post Body

/-- The prompt of the system, if that is no empty one. -/
def Call.system (c : Call ρ τ) : Str :=
  match c.messages with
  | m :: _ => if m.role = .other (text "system") then m.content.getD [] else []
  | [] => []

def Call.convo (c : Call ρ τ) : List (Message ρ) :=
  if c.system = [] then c.messages else c.messages.tail

/-- What `json.dumps` writes as the key of a server. -/
def Call.key (c : Call ρ τ) : τ × Str :=
  (c.tools, c.system)

structure Chat (ρ τ : Type) where
  up : Bool
  key : Option (τ × Str)
  head : Option (Message ρ)
  sent : Nat
  steps : Nat
  /-- The inputs that the server was sent since its last start or reset, and what it said to them. -/
  received : List (Str × Option Body)

/-- A chat that was not called yet. -/
def Chat.fresh : Chat ρ τ where
  up := false
  key := none
  head := none
  sent := 0
  steps := 0
  received := []

inductive Ended
  | raised
  /-- The reply, and what the server was asked for it. -/
  | returned (reply : Reply) (asked : List Str)

/-- Posts one after the other, up to one that fails: what the server got, and the last body. -/
def posts (complete : Nat → Post Body) : Nat → List Str → Body → List (Str × Option Body) × Option Body
  | _, [], body => ([], some body)
  | i, input :: rest, _ =>
      match complete i with
      | .answered body =>
          ((input, some body) :: (posts complete (i + 1) rest body).1, (posts complete (i + 1) rest body).2)
      | .failed taken => (if taken then [(input, none)] else [], none)

variable [DecidableEq ρ] [DecidableEq τ]

/-- Another server is started. -/
def Chat.Restarts (s : Chat ρ τ) (c : Call ρ τ) : Prop :=
  s.key ≠ some c.key ∨ s.up = false

/-- The conversation is not taken to go on. -/
def Chat.Resets (s : Chat ρ τ) (convo : List (Message ρ)) : Prop :=
  convo = [] ∨ convo.head? ≠ s.head ∨ convo.length < s.sent

instance (s : Chat ρ τ) (c : Call ρ τ) : Decidable (s.Restarts c) :=
  inferInstanceAs (Decidable (_ ∨ _))

instance (s : Chat ρ τ) (convo : List (Message ρ)) : Decidable (s.Resets convo) :=
  inferInstanceAs (Decidable (_ ∨ _ ∨ _))

/-- The server of the call, and whether it is up. -/
def start (s : Chat ρ τ) (c : Call ρ τ) : Chat ρ τ × Bool :=
  if s.Restarts c then
    if c.starts then
      ({ s with up := true, key := some c.key, head := none, sent := 0, received := [] }, true)
    else ({ s with up := false }, false)
  else (s, true)

/-- The server at the beginning of the conversation, unless that goes on, and whether the reset went
through. -/
def reset (s : Chat ρ τ) (c : Call ρ τ) : Chat ρ τ × Bool :=
  if s.Resets c.convo then
    if s.head = none then ({ s with head := c.convo.head?, sent := 0 }, true)
    else
      match c.reset with
      | .answered _ => ({ s with head := c.convo.head?, sent := 0, received := [] }, true)
      | .failed taken => ({ s with received := if taken then [] else s.received }, false)
  else (s, true)

/-- The inputs that are new, and the reply to the last of them. -/
def complete (s : Chat ρ τ) (c : Call ρ τ) : Chat ρ τ × Ended :=
  let new := inputs (c.convo.drop s.sent)
  let got := posts c.complete 0 new .blank
  let received := s.received ++ got.1
  match got.2 with
  | none => ({ s with received := received }, .raised)
  | some body =>
      if body.refused then ({ s with sent := c.convo.length, received := received }, .raised)
      else
        ({ s with sent := c.convo.length, steps := s.steps + 1, received := received },
          .returned (message body.confirmed (s.steps + 1)) new)

/-- `Chat.__call__` -/
def call (s : Chat ρ τ) (c : Call ρ τ) : Chat ρ τ × Ended :=
  let started := start s c
  if started.2 then
    let begun := reset started.1 c
    if begun.2 then complete begun.1 c else (begun.1, .raised)
  else (started.1, .raised)

/-- The chat after some calls. -/
def run (calls : List (Call ρ τ)) : Chat ρ τ :=
  calls.foldl (fun s c => (call s c).1) .fresh

/-! ## What a call is for -/

/-- The server has been sent the inputs of the conversation, each once, and its answer to the last of them
is the reply; and it was asked something. -/
def Answers (s : Chat ρ τ) (c : Call ρ τ) (reply : Reply) (asked : List Str) : Prop :=
  asked ≠ [] ∧ s.received.map Prod.fst = inputs c.convo ∧
    ∃ input body, s.received.getLast? = some (input, some body) ∧ reply = message body.confirmed s.steps

/-- Every call that returns does so with the answer to its conversation. -/
def Faithful (calls : List (Call ρ τ)) : Prop :=
  ∀ front c back, calls = front ++ c :: back → ∀ reply asked, (call (run front) c).2 = .returned reply asked →
    Answers (call (run front) c).1 c reply asked

/-- The call begins with a server that has been sent nothing, or goes on with what the server has been sent,
and in either case there is something to send. -/
def Chat.Follows (s : Chat ρ τ) (c : Call ρ τ) : Prop :=
  if s.Restarts c ∨ s.Resets c.convo then inputs c.convo ≠ []
  else inputs (c.convo.drop s.sent) ≠ [] ∧
    s.received.map Prod.fst ++ inputs (c.convo.drop s.sent) = inputs c.convo

variable {s s' : Chat ρ τ} {c : Call ρ τ} {convo : List (Message ρ)} {new asked : List Str}
  {body last : Body} {got : List (Str × Option Body)} {answers : Nat → Post Body} {i : Nat} {reply : Reply}
  {calls : List (Call ρ τ)}

/-! ## The posts of a call -/

/-- When all posts go through the server has got every input, and the last body is its answer to the last. -/
theorem posts_through (through : posts answers i new body = (got, some last)) :
    got.map Prod.fst = new ∧ (new ≠ [] → ∃ input, got.getLast? = some (input, some last)) := by
  induction new generalizing i body got with
  | nil =>
      obtain ⟨rfl, -⟩ := Prod.mk.inj through
      exact ⟨rfl, fun some_ => absurd rfl some_⟩
  | cons input rest ih =>
      rw [posts] at through
      split at through
      next body' _ =>
        obtain ⟨rfl, later⟩ := Prod.mk.inj through
        obtain ⟨texts, ends⟩ := ih (Prod.ext rfl later)
        refine ⟨by rw [List.map_cons, texts], fun _ => ?_⟩
        cases rest with
        | nil =>
            rw [posts] at later ⊢
            obtain rfl := Option.some.inj later
            exact ⟨input, rfl⟩
        | cons next rest =>
            obtain ⟨input', same⟩ := ends (List.cons_ne_nil _ _)
            refine ⟨input', ?_⟩
            rw [List.getLast?_cons, same]
            rfl
      next => cases through

omit [DecidableEq ρ] in
theorem inputs_nil : inputs ([] : List (Message ρ)) = [] := rfl

/-! ## What the server has been sent -/

omit [DecidableEq ρ] [DecidableEq τ] in
/-- A server that was told no first message has been sent nothing. -/
def Chat.Settled (s : Chat ρ τ) : Prop :=
  s.up = true → s.head = none → s.received = []

omit [DecidableEq ρ] [DecidableEq τ] in
theorem settled_fresh : (Chat.fresh : Chat ρ τ).Settled :=
  fun _ _ => rfl

/-- A call raises before its first input, or posts them to a server that begins or goes on. -/
theorem call_cases (settled : s.Settled) (c : Call ρ τ) :
    (∃ left, call s c = (left, .raised) ∧ left.Settled) ∨ ∃ begun, call s c = complete begun c ∧
      ((s.Restarts c ∨ s.Resets c.convo) ∧ begun.received = [] ∧ begun.sent = 0 ∧
          begun.head = c.convo.head? ∨
        ¬ (s.Restarts c ∨ s.Resets c.convo) ∧ begun = s) := by
  by_cases restarts : s.Restarts c
  · cases starts : c.starts with
    | false =>
        refine .inl ⟨{ s with up := false }, ?_, fun up => by cases up⟩
        simp [call, start, restarts, starts]
    | true =>
        have resets : (⟨true, some c.key, none, 0, s.steps, []⟩ : Chat ρ τ).Resets c.convo := by
          cases convo : c.convo with
          | nil => exact .inl rfl
          | cons m rest => exact .inr (.inl (Option.some_ne_none m))
        refine .inr ⟨⟨true, some c.key, c.convo.head?, 0, s.steps, []⟩, ?_,
          .inl ⟨.inl restarts, rfl, rfl, rfl⟩⟩
        simp [call, start, restarts, starts, reset, resets]
  · have up : s.up = true := by
      rw [Chat.Restarts, not_or] at restarts
      exact Bool.not_eq_false _ ▸ restarts.2
    by_cases resets : s.Resets c.convo
    · cases head : s.head with
      | none =>
          refine .inr ⟨{ s with head := c.convo.head?, sent := 0 }, ?_,
            .inl ⟨.inr resets, settled up head, rfl, rfl⟩⟩
          simp [call, start, restarts, reset, resets, head]
      | some m =>
          cases went : c.reset with
          | answered _ =>
              refine .inr ⟨{ s with head := c.convo.head?, sent := 0, received := [] }, ?_,
                .inl ⟨.inr resets, rfl, rfl, rfl⟩⟩
              simp [call, start, restarts, reset, resets, head, went]
          | failed taken =>
              refine .inl ⟨{ s with received := if taken then [] else s.received }, ?_, fun _ none_ => ?_⟩
              · simp [call, start, restarts, reset, resets, head, went]
              · rw [head] at none_
                cases none_
    · refine .inr ⟨s, ?_, .inr ⟨not_or.mpr ⟨restarts, resets⟩, rfl⟩⟩
      simp [call, start, restarts, reset, resets]

omit [DecidableEq ρ] [DecidableEq τ] in
/-- What `complete` leaves: the head, and what the posts of the new messages got through. -/
theorem complete_left (s : Chat ρ τ) (c : Call ρ τ) : (complete s c).1.head = s.head ∧
    (complete s c).1.received =
      s.received ++ (posts c.complete 0 (inputs (c.convo.drop s.sent)) .blank).1 := by
  cases through : (posts c.complete 0 (inputs (c.convo.drop s.sent)) .blank).2 with
  | none => simp [complete, through]
  | some body =>
      simp only [complete, through]
      split <;> exact ⟨rfl, rfl⟩

theorem settled_call (settled : s.Settled) (c : Call ρ τ) : (call s c).1.Settled := by
  rcases call_cases settled c with ⟨left, same, still⟩ | ⟨begun, same, kind⟩
  · rw [same]
    exact still
  · rw [same]
    intro _ none_
    obtain ⟨head, received⟩ := complete_left begun c
    rw [head] at none_
    rcases kind with ⟨-, empty, -, first⟩ | ⟨goes_on, rfl⟩
    · have convo : c.convo = [] := List.head?_eq_none_iff.mp (first.symm.trans none_)
      rw [received, empty, convo, List.drop_nil, inputs_nil]
      rfl
    · rw [not_or, Chat.Resets, not_or, not_or, not_not] at goes_on
      have convo : c.convo = [] := List.head?_eq_none_iff.mp (goes_on.2.2.1.trans none_)
      exact absurd convo goes_on.2.1

theorem settled_run (calls : List (Call ρ τ)) : (run calls).Settled := by
  induction calls using List.reverseRecOn with
  | nil => exact settled_fresh
  | append_singleton calls c ih =>
      rw [run, List.foldl_append]
      exact settled_call ih c

/-! ## A call that returns -/

omit [DecidableEq ρ] [DecidableEq τ] in
theorem complete_returned (returned : (complete s c).2 = .returned reply asked) : ∃ last,
    (posts c.complete 0 (inputs (c.convo.drop s.sent)) .blank).2 = some last ∧
      asked = inputs (c.convo.drop s.sent) ∧ reply = message last.confirmed (complete s c).1.steps := by
  cases through : (posts c.complete 0 (inputs (c.convo.drop s.sent)) .blank).2 with
  | none =>
      simp only [complete, through] at returned
      cases returned
  | some last =>
      simp only [complete, through] at returned ⊢
      split at returned
      next => cases returned
      next fine =>
        obtain ⟨rfl, rfl⟩ := Ended.returned.inj returned
        exact ⟨last, rfl, rfl, by rw [if_neg fine]⟩

/-- Its answer is one to its conversation where it begins, or goes on with what was sent. -/
theorem call_answers_iff (settled : s.Settled) (returned : (call s c).2 = .returned reply asked) :
    Answers (call s c).1 c reply asked ↔ s.Follows c := by
  rcases call_cases settled c with ⟨left, same, -⟩ | ⟨begun, same, kind⟩
  · rw [same] at returned
    cases returned
  · rw [same] at returned ⊢
    obtain ⟨last, through, rfl, rfl⟩ := complete_returned returned
    obtain ⟨texts, ends⟩ := posts_through (Prod.ext rfl through)
    obtain ⟨-, received⟩ := complete_left begun c
    have answers : Answers (complete begun c).1 c (message last.confirmed (complete begun c).1.steps)
          (inputs (c.convo.drop begun.sent)) ↔
        inputs (c.convo.drop begun.sent) ≠ [] ∧
          begun.received.map Prod.fst ++ inputs (c.convo.drop begun.sent) = inputs c.convo := by
      rw [Answers, received, List.map_append, texts]
      refine and_congr_right fun some_ => and_iff_left ?_
      obtain ⟨input, final⟩ := ends some_
      exact ⟨input, last, by rw [List.getLast?_append, final, Option.some_or], rfl⟩
    rw [answers, Chat.Follows]
    rcases kind with ⟨fresh, empty, none_, -⟩ | ⟨goes_on, rfl⟩
    · rw [if_pos fresh, empty, none_, List.drop_zero, List.map_nil, List.nil_append]
      exact and_iff_left rfl
    · rw [if_neg goes_on]

def draw : Call Unit Unit where
  messages := [⟨.other (text "user"), some (text "hi"), [], none, ()⟩]
  tools := ()
  starts := true
  reset := .answered ()
  complete _ := .answered ⟨false, [], [], text "hello"⟩

end LocalHarness.Serving.Needle
