import LocalHarness.Serving.Streamed

/-! # A reply in pieces is the reply in one piece

Whatever way a message is cut and however the fragments of its calls come between each other, each field is
gathered from its own pieces alone.
-/

namespace LocalHarness.Serving

open LocalHarness.Library

namespace Streamed

variable {υ τ : Type}

/-- What is said last. -/
def lastSaid {α : Type} (told : List (Option α)) : Option α :=
  told.foldl (fun old new => new.or old) none

theorem foldl_or {α : Type} (told : List (Option α)) (old : Option α) :
    told.foldl (fun old new => new.or old) old = (lastSaid told).or old := by
  induction told generalizing old with
  | nil => rfl
  | cons new told ih =>
      rw [lastSaid, List.foldl_cons, List.foldl_cons, ih, ih (new.or none), Option.or_none, Option.or_assoc]

theorem lastSaid_concat {α : Type} (told : List (Option α)) (new : Option α) :
    lastSaid (told ++ [new]) = new.or (lastSaid told) := by
  rw [lastSaid, List.foldl_append, List.foldl_cons, List.foldl_nil, lastSaid]

theorem lastSaid_append {α : Type} (earlier later : List (Option α)) :
    lastSaid (earlier ++ later) = (lastSaid later).or (lastSaid earlier) := by
  rw [lastSaid, List.foldl_append, foldl_or]
  rfl

/-- What has been gathered of the choices and chunks so far. -/
structure Gathered (chunks : List (Chunk υ τ)) (s : State υ τ) : Prop where
  content : s.content = (chunks.flatMap Chunk.choices).flatMap fun choice => (said choice.content).toList
  reasoning : s.reasoning = (chunks.flatMap Chunk.choices).flatMap fun choice => choice.thought.toList
  tokens : s.tokens = (chunks.flatMap Chunk.choices).flatMap Choice.tokens
  calls : s.calls = ((chunks.flatMap Chunk.choices).flatMap Choice.calls).foldl mergeCall ∅
  finish : s.finish = lastSaid ((chunks.flatMap Chunk.choices).map fun choice => said choice.finish)
  usage : s.usage = lastSaid (chunks.map Chunk.usage)
  model : s.model = lastSaid (chunks.map fun chunk => said chunk.model)
  timings : s.timings = lastSaid (chunks.map Chunk.timings)

theorem gathered_start : Gathered [] (State.start : State υ τ) :=
  ⟨rfl, rfl, rfl, rfl, rfl, rfl, rfl, rfl⟩

theorem addChoices (now : ℚ) (choices : List (Choice τ)) (s : State υ τ) :
    let t := choices.foldl (State.addChoice now) s
    t.content = s.content ++ (choices.flatMap fun choice => (said choice.content).toList) ∧
      t.reasoning = s.reasoning ++ (choices.flatMap fun choice => choice.thought.toList) ∧
      t.tokens = s.tokens ++ choices.flatMap Choice.tokens ∧
      t.calls = (choices.flatMap Choice.calls).foldl mergeCall s.calls ∧
      t.finish = (lastSaid (choices.map fun choice => said choice.finish)).or s.finish ∧
      t.usage = s.usage ∧ t.model = s.model ∧ t.timings = s.timings := by
  induction choices generalizing s with
  | nil => simp [lastSaid]
  | cons choice choices ih =>
      obtain ⟨content, reasoning, tokens, calls, finish, usage, model, timings⟩ := ih (s.addChoice now choice)
      refine ⟨?_, ?_, ?_, ?_, ?_, usage, model, timings⟩
      · rw [List.foldl_cons, content, List.flatMap_cons, ← List.append_assoc]; rfl
      · rw [List.foldl_cons, reasoning, List.flatMap_cons, ← List.append_assoc]; rfl
      · rw [List.foldl_cons, tokens, List.flatMap_cons, ← List.append_assoc]; rfl
      · rw [List.foldl_cons, calls, List.flatMap_cons, List.foldl_append]; rfl
      · rw [List.foldl_cons, finish, List.map_cons, ← foldl_or, ← foldl_or, List.foldl_cons]; rfl

theorem Gathered.add {chunks : List (Chunk υ τ)} {s : State υ τ} (gathered : Gathered chunks s) (now : ℚ)
    (chunk : Chunk υ τ) : Gathered (chunks ++ [chunk]) (s.add now chunk) := by
  obtain ⟨content, reasoning, tokens, calls, finish, usage, model, timings⟩ :=
    addChoices now chunk.choices { s with
      usage := chunk.usage.or s.usage
      model := (said chunk.model).or s.model
      timings := chunk.timings.or s.timings }
  have more : (chunks ++ [chunk]).flatMap Chunk.choices = chunks.flatMap Chunk.choices ++ chunk.choices := by
    rw [List.flatMap_append, List.flatMap_cons, List.flatMap_nil, List.append_nil]
  refine ⟨?_, ?_, ?_, ?_, ?_, ?_, ?_, ?_⟩
  · rw [more, List.flatMap_append, ← gathered.content]
    exact content
  · rw [more, List.flatMap_append, ← gathered.reasoning]
    exact reasoning
  · rw [more, List.flatMap_append, ← gathered.tokens]
    exact tokens
  · rw [more, List.flatMap_append, List.foldl_append, ← gathered.calls]
    exact calls
  · rw [more, List.map_append, lastSaid_append, ← gathered.finish]
    exact finish
  · rw [List.map_append, List.map_singleton, lastSaid_concat, ← gathered.usage]
    exact usage
  · rw [List.map_append, List.map_singleton, lastSaid_concat, ← gathered.model]
    exact model
  · rw [List.map_append, List.map_singleton, lastSaid_concat, ← gathered.timings]
    exact timings

/-! ## The lines -/

/-- The chunks of the lines up to the end of the stream. -/
def sent : List (Line υ τ) → List (Chunk υ τ)
  | [] => []
  | line :: lines =>
      match line.event with
      | .done => []
      | .data chunk => chunk :: sent lines
      | _ => sent lines

/-- Nothing on the lines up to the end of the stream breaks it off. -/
def Sound : List (Line υ τ) → Prop
  | [] => True
  | line :: lines =>
      match line.event with
      | .done => True
      | .garbled => False
      | .other => Sound lines
      | .data chunk => said chunk.error = none ∧ Sound lines

theorem read_gathered {timeout : ℚ} {lines : List (Line υ τ)} (inTime : ∀ line ∈ lines, line.now ≤ timeout)
    (sound : Sound lines) {chunks : List (Chunk υ τ)} {s : State υ τ} (gathered : Gathered chunks s) :
    ∃ t, read timeout s lines = .ok t ∧ Gathered (chunks ++ sent lines) t := by
  induction lines generalizing chunks s with
  | nil => exact ⟨s, rfl, by rwa [sent, List.append_nil]⟩
  | cons line lines ih =>
      obtain ⟨now, later⟩ := List.forall_mem_cons.mp inTime
      rw [read, if_neg (not_lt.mpr now), sent]
      rw [Sound] at sound
      cases event : line.event with
      | other =>
          rw [event] at sound
          exact ih later sound gathered
      | done => exact ⟨s, rfl, by rwa [List.append_nil]⟩
      | garbled =>
          rw [event] at sound
          exact sound.elim
      | data chunk =>
          rw [event] at sound
          obtain ⟨fine, sound⟩ := sound
          simp only [fine]
          obtain ⟨t, read, gathered⟩ := ih later sound (gathered.add line.now chunk)
          exact ⟨t, read, by rwa [List.append_assoc] at gathered⟩

/-! ## Texts and calls -/

theorem toList_said (text : Option String) : String.join (said text).toList = text.getD "" := by
  cases text with
  | none => rfl
  | some s =>
      by_cases empty : s = ""
      · subst empty
        rfl
      · simp [said, Option.filter, empty]

theorem join_eq_empty {texts : List String} (full : ∀ s ∈ texts, s ≠ "") :
    String.join texts = "" ↔ texts = [] := by
  cases texts with
  | nil => exact iff_of_true rfl rfl
  | cons s texts =>
      refine iff_of_false (fun empty => ?_) (List.cons_ne_nil _ _)
      rw [String.join_cons, String.append_eq_empty_iff] at empty
      exact full s List.mem_cons_self empty.1

theorem joined_said {α : Type} (texts : α → Option String) (items : List α) :
    State.joined (items.flatMap fun a => (said (texts a)).toList) =
      said (some (String.join (items.map fun a => (texts a).getD ""))) := by
  have same : String.join (items.flatMap fun a => (said (texts a)).toList) =
      String.join (items.map fun a => (texts a).getD "") := by
    induction items with
    | nil => rfl
    | cons a items ih =>
        rw [List.flatMap_cons, String.join_append, toList_said, ih, List.map_cons, String.join_cons]
  have full : ∀ s ∈ items.flatMap fun a => (said (texts a)).toList, s ≠ "" := by
    intro s member
    obtain ⟨a, _, told⟩ := List.mem_flatMap.mp member
    have kept := (Option.filter_eq_some_iff.mp (Option.mem_toList.mp told)).2
    exact of_decide_eq_true kept
  rw [State.joined, ← same, said]
  by_cases none : (items.flatMap fun a => (said (texts a)).toList) = []
  · rw [if_pos none, none]
    rfl
  · have some := (join_eq_empty full).not.mpr none
    rw [if_neg none, Option.filter, if_pos (by simpa using some)]

/-- What a fragment adds to the arguments. -/
def Arguments.piece : Arguments → String
  | absent => ""
  | text s => s
  | value dumped => dumped

def Arguments.isText : Arguments → Bool
  | value _ => false
  | _ => true

/-- The fragments make up a call: its id comes whole, once or more, its name and its arguments in pieces. -/
structure Fragments (call : Call) (parts : List Part) : Prop where
  begun : parts ≠ []
  id : ∀ part ∈ parts, said part.id = none ∨ part.id = some call.id
  identified : call.id = "" ∨ ∃ part ∈ parts, part.id = some call.id
  name : String.join (parts.map fun part => part.name.getD "") = call.name
  textual : ∀ part ∈ parts, part.arguments.isText = true
  arguments : String.join (parts.map fun part => part.arguments.piece) = call.arguments

theorem said_some (s : String) : said (some s) = if s = "" then none else some s := by
  by_cases empty : s = ""
  · subst empty
    rfl
  · simp [said, Option.filter, empty]

theorem lastSaid_one {α : Type} [DecidableEq α] {x : α} {told : List (Option α)}
    (each : ∀ t ∈ told, t = none ∨ t = some x) :
    lastSaid told = if some x ∈ told then some x else none := by
  induction told using List.reverseRecOn with
  | nil => rfl
  | append_singleton told new ih =>
      obtain ⟨earlier, last⟩ := List.forall_mem_append.mp each
      rw [lastSaid_concat, ih earlier]
      rcases last new (List.mem_singleton_self new) with rfl | rfl
      · simp
      · simp

theorem foldl_merged (got : Call) {parts : List Part}
    (textual : ∀ part ∈ parts, part.arguments.isText = true) :
    parts.foldl (fun old part => some (merged old part)) (some got) =
      some ⟨(lastSaid (parts.map fun part => said part.id)).getD got.id,
        got.name ++ String.join (parts.map fun part => part.name.getD ""),
        got.arguments ++ String.join (parts.map fun part => part.arguments.piece)⟩ := by
  induction parts generalizing got with
  | nil => simp [lastSaid]
  | cons part parts ih =>
      obtain ⟨first, others⟩ := List.forall_mem_cons.mp textual
      have piece : (merged (some got) part).arguments = got.arguments ++ part.arguments.piece := by
        cases known : part.arguments with
        | absent => simp [merged, known, Arguments.piece]
        | text s => simp [merged, known, Arguments.piece]
        | value dumped => rw [known] at first; cases first
      have named : (merged (some got) part).name = got.name ++ part.name.getD "" := rfl
      have identified : (merged (some got) part).id = (said part.id).getD got.id := rfl
      rw [List.foldl_cons, ih _ others, piece, named, identified, List.map_cons, List.map_cons, List.map_cons,
        String.join_cons, String.join_cons, String.append_assoc, String.append_assoc]
      have ids : lastSaid (said part.id :: parts.map fun part => said part.id) =
          (lastSaid (parts.map fun part => said part.id)).or (said part.id) := by
        rw [lastSaid, List.foldl_cons, foldl_or, Option.or_none]
      rw [ids]
      cases lastSaid (parts.map fun part => said part.id) <;> rfl

theorem Fragments.foldl_eq {call : Call} {parts : List Part} (fragments : Fragments call parts) :
    parts.foldl (fun old part => some (merged old part)) none = some call := by
  have blank : parts.foldl (fun old part => some (merged old part)) none =
      parts.foldl (fun old part => some (merged old part)) (some ⟨"", "", ""⟩) := by
    cases parts with
    | nil => exact absurd rfl fragments.begun
    | cons part parts => rfl
  have id : (lastSaid (parts.map fun part => said part.id)).getD "" = call.id := by
    have each : ∀ t ∈ parts.map fun part => said part.id, t = none ∨ t = some call.id := by
      intro t member
      obtain ⟨part, inside, rfl⟩ := List.mem_map.mp member
      rcases fragments.id part inside with unsaid | whole
      · exact .inl unsaid
      · rw [whole, said_some]
        split
        · exact .inl rfl
        · exact .inr rfl
    rw [lastSaid_one each]
    rcases fragments.identified with empty | ⟨part, inside, whole⟩
    · rw [empty]
      split <;> rfl
    · by_cases empty : call.id = ""
      · rw [empty]
        split <;> rfl
      · have given : some call.id ∈ parts.map fun part => said part.id := by
          refine List.mem_map.mpr ⟨part, inside, ?_⟩
          rw [whole, said_some, if_neg empty]
        rw [if_pos given]
        rfl
  rw [blank, foldl_merged _ fragments.textual, fragments.name, fragments.arguments, id, String.empty_append,
    String.empty_append]

/-! ## Messages -/

/-- A message with its calls under increasing indices. No text of it is empty: what has none is null. -/
structure Message (υ τ : Type) where
  content : Option String
  reasoning : Option String
  calls : List (ℤ × Call)
  finish : Option String
  tokens : List τ
  usage : Option υ
  timings : Option υ
  model : Option String
  content_full : content ≠ some ""
  reasoning_full : reasoning ≠ some ""
  increasing : calls.Pairwise fun a b => a.1 < b.1

/-- The body of the reply in one piece. -/
def Message.carried (m : Message υ τ) : Body υ τ where
  content := m.content
  reasoning := m.reasoning
  toolCalls := if m.calls = [] then none else some (m.calls.map Prod.snd)
  finish := m.finish
  tokens := if m.tokens.isEmpty then none else some m.tokens
  usage := m.usage
  timings := m.timings
  model := m.model

/-- The chunks are a message cut up: each text in pieces, the fragments of each call in their order and those
of other calls anywhere between them, and what is said once or more often said the same the last time. -/
structure Cuts (m : Message υ τ) (chunks : List (Chunk υ τ)) : Prop where
  content : String.join ((chunks.flatMap Chunk.choices).map fun choice => choice.content.getD "") =
    m.content.getD ""
  reasoning : String.join ((chunks.flatMap Chunk.choices).map fun choice => choice.thought.getD "") =
    m.reasoning.getD ""
  indexed : ∀ part ∈ (chunks.flatMap Chunk.choices).flatMap Choice.calls,
    ∃ call, part.index = some call.1 ∧ call ∈ m.calls
  calls : ∀ call ∈ m.calls, Fragments call.2
    (((chunks.flatMap Chunk.choices).flatMap Choice.calls).filter fun part => part.index = some call.1)
  finish : lastSaid ((chunks.flatMap Chunk.choices).map fun choice => said choice.finish) = m.finish
  tokens : (chunks.flatMap Chunk.choices).flatMap Choice.tokens = m.tokens
  usage : lastSaid (chunks.map Chunk.usage) = m.usage
  timings : lastSaid (chunks.map Chunk.timings) = m.timings
  model : lastSaid (chunks.map fun chunk => said chunk.model) = m.model

theorem said_full {text : Option String} (full : text ≠ some "") : said (some (text.getD "")) = text := by
  cases text with
  | none => rfl
  | some s => rw [Option.getD_some, said_some, if_neg fun empty => full (congrArg some empty)]

theorem foldl_mergeCall {parts : List Part} (indexed : ∀ part ∈ parts, ∃ i, part.index = some i) :
    parts.foldl mergeCall ∅ = Ordered.gather (fun part => part.index.getD 0) merged ∅ parts := by
  refine List.foldl_ext _ _ _ fun calls part member => ?_
  obtain ⟨i, known⟩ := indexed part member
  simp only [mergeCall, known, Option.getD_some]

theorem said_thought (choice : Choice τ) : said choice.thought = choice.thought := by
  rw [Choice.thought, said, said, Option.filter_filter]
  simp

variable {m : Message υ τ} {chunks : List (Chunk υ τ)}

/-- Each call is gathered from its own fragments. -/
theorem Cuts.mem_items (cuts : Cuts m chunks) (call : ℤ × Call) :
    call ∈ (((chunks.flatMap Chunk.choices).flatMap Choice.calls).foldl mergeCall ∅).items ↔ call ∈ m.calls := by
  have indexed : ∀ part ∈ (chunks.flatMap Chunk.choices).flatMap Choice.calls, ∃ i, part.index = some i :=
    fun part member => (cuts.indexed part member).imp' Prod.fst fun _ found => found.1
  have own (i : ℤ) : (((chunks.flatMap Chunk.choices).flatMap Choice.calls).filter
      fun part => part.index.getD 0 = i) =
        ((chunks.flatMap Chunk.choices).flatMap Choice.calls).filter fun part => part.index = some i := by
    refine List.filter_congr fun part member => ?_
    obtain ⟨j, known⟩ := indexed part member
    simp [known]
  have gathered (call : ℤ × Call) (member : call ∈ m.calls) :
      (((chunks.flatMap Chunk.choices).flatMap Choice.calls).foldl mergeCall ∅).get? call.1 = some call.2 := by
    rw [foldl_mergeCall indexed, Ordered.get?_gather, own]
    exact (cuts.calls call member).foldl_eq
  constructor
  · intro member
    have found := Ordered.get?_eq_some.mpr member
    obtain ⟨part, here⟩ : ∃ part, part ∈ ((chunks.flatMap Chunk.choices).flatMap Choice.calls).filter
        fun part => part.index = some call.1 := by
      by_contra none
      rw [foldl_mergeCall indexed, Ordered.get?_gather, own,
        List.eq_nil_iff_forall_not_mem.mpr (not_exists.mp none)] at found
      cases found
    obtain ⟨inside, named⟩ := List.mem_filter.mp here
    obtain ⟨other, known, listed⟩ := cuts.indexed part inside
    have same : other.1 = call.1 := Option.some.inj (known.symm.trans (of_decide_eq_true named))
    have others := gathered other listed
    rw [same, found] at others
    rwa [Prod.ext same (Option.some.inj others).symm] at listed
  · exact fun member => Ordered.get?_eq_some.mp (gathered call member)

theorem Cuts.perm (cuts : Cuts m chunks) :
    (((chunks.flatMap Chunk.choices).flatMap Choice.calls).foldl mergeCall ∅).items.Perm m.calls := by
  have nodup : m.calls.Nodup := m.increasing.imp fun less same => absurd (same ▸ less) (lt_irrefl _)
  exact (List.perm_ext_iff_of_nodup (.of_map _ (Ordered.once _)) nodup).mpr cuts.mem_items

theorem Cuts.sortedCalls_eq (cuts : Cuts m chunks) :
    State.sortedCalls (((chunks.flatMap Chunk.choices).flatMap Choice.calls).foldl mergeCall ∅) =
      m.calls.map Prod.snd := by
  have total : Std.Total fun a b : ℤ × Call => a.1 ≤ b.1 := ⟨fun a b => le_total a.1 b.1⟩
  have trans : IsTrans (ℤ × Call) fun a b => a.1 ≤ b.1 := ⟨fun _ _ _ => le_trans⟩
  have perm := (List.perm_insertionSort (fun a b : ℤ × Call => a.1 ≤ b.1) _).trans cuts.perm
  refine congrArg (List.map Prod.snd) (perm.eq_of_pairwise ?_ (List.pairwise_insertionSort _ _)
    (m.increasing.imp le_of_lt))
  intro a b first second least most
  have inside := (List.perm_insertionSort (fun a b : ℤ × Call => a.1 ≤ b.1) _).mem_iff.mp first
  exact List.inj_on_of_nodup_map (Ordered.once _) inside (cuts.perm.mem_iff.mpr second)
    (le_antisymm least most)

/-- A message comes out as it went in, however it was cut. -/
theorem assemble_carried {lines : List (Line υ τ)} {timeout : ℚ} (cuts : Cuts m (sent lines))
    (sound : Sound lines) (inTime : ∀ line ∈ lines, line.now ≤ timeout) :
    ∃ timing, assemble lines timeout = .ok (m.carried, timing) := by
  obtain ⟨s, read, gathered⟩ := read_gathered inTime sound gathered_start
  rw [List.nil_append] at gathered
  have content : State.joined s.content = m.content := by
    rw [gathered.content, joined_said, cuts.content, said_full m.content_full]
  have reasoning : State.joined s.reasoning = m.reasoning := by
    have thought := joined_said Choice.thought ((sent lines).flatMap Chunk.choices)
    simp only [said_thought] at thought
    rw [gathered.reasoning, thought, cuts.reasoning, said_full m.reasoning_full]
  have none : s.calls.items = [] ↔ m.calls = [] := by
    rw [gathered.calls, ← List.length_eq_zero_iff, cuts.perm.length_eq, List.length_eq_zero_iff]
  have body : s.body = m.carried := by
    rw [State.body, Message.carried, content, reasoning, gathered.tokens, cuts.tokens, gathered.finish,
      cuts.finish, gathered.usage, cuts.usage, gathered.timings, cuts.timings, gathered.model, cuts.model]
    simp only [none]
    rw [gathered.calls, cuts.sortedCalls_eq]
  exact ⟨s.first, by rw [assemble, read, ← body]; rfl⟩

/-- A delta with fragments of calls, and one with a piece of text. -/
def calling (parts : List Part) : Line Nat Unit :=
  ⟨1, .data ⟨none, none, none, none, [⟨none, none, none, parts, [], none⟩]⟩⟩

def telling (text : String) : Line Nat Unit :=
  ⟨1, .data ⟨none, none, none, none, [⟨some text, none, none, [], [], none⟩]⟩⟩

/-- Two calls, the second under way before the first has ended. -/
def weather : Message Nat Unit where
  content := some "Both"
  reasoning := none
  calls := [(0, ⟨"c0", "sky", "\x7b\x7d"⟩), (1, ⟨"c1", "sea", "[]"⟩)]
  finish := none
  tokens := []
  usage := some 7
  timings := none
  model := none
  content_full := by decide
  reasoning_full := by decide
  increasing := by decide

def forecast : List (Line Nat Unit) :=
  [telling "Bo", calling [⟨some 0, some "c0", some "sky", .text "\x7b"⟩], telling "th",
    calling [⟨some 1, some "c1", some "s", .absent⟩], calling [⟨some 0, none, none, .text "\x7d"⟩],
    calling [⟨some 1, some "c1", some "ea", .text "[]"⟩], ⟨2, .data ⟨none, some 7, none, none, []⟩⟩, ⟨2, .done⟩]

theorem forecast_weather : ∃ timing, assemble forecast 60 = .ok (weather.carried, timing) :=
  assemble_carried
    { content := by decide
      reasoning := by decide
      indexed := by
        have each : ∀ part ∈ ((sent forecast).flatMap Chunk.choices).flatMap Choice.calls,
            part.index = some 0 ∨ part.index = some 1 := by decide
        intro part member
        rcases each part member with first | second
        · exact ⟨(0, _), first, List.mem_cons_self⟩
        · exact ⟨(1, _), second, List.mem_cons_of_mem _ List.mem_cons_self⟩
      calls := by
        refine List.forall_mem_cons.mpr ⟨?_, List.forall_mem_cons.mpr ⟨?_, List.forall_mem_nil _⟩⟩
        · exact ⟨by decide, by decide, by decide, by decide, by decide,
            by decide⟩
        · exact ⟨by decide, by decide, by decide, by decide, by decide,
            by decide⟩
      finish := by decide
      tokens := by decide
      usage := by decide
      timings := by decide
      model := by decide }
    ⟨rfl, rfl, rfl, rfl, rfl, rfl, rfl, trivial⟩ (by decide)

/-- Of an id in two pieces the second is left. -/
theorem id_cut :
    let parts : List Part := [⟨some 0, some "call", some "sky", .text "\x7b"⟩, ⟨some 0, some "_1", none, .text "\x7d"⟩]
    let call : Call := ⟨"call_1", "sky", "\x7b\x7d"⟩
    String.join (parts.map fun part => part.id.getD "") = call.id ∧
      String.join (parts.map fun part => part.name.getD "") = call.name ∧
      String.join (parts.map fun part => part.arguments.piece) = call.arguments ∧
      ¬ ∃ body timing, assemble [calling parts, ⟨2, .done⟩] 60 = .ok (body, timing) ∧
        body.toolCalls = some [call] := by
  refine ⟨by decide, by decide, by decide, ?_⟩
  rintro ⟨body, timing, made, same⟩
  have got : ((assemble [calling [⟨some 0, some "call", some "sky", .text "\x7b"⟩,
      ⟨some 0, some "_1", none, .text "\x7d"⟩], ⟨2, .done⟩] 60).toOption.map fun r => r.1.toolCalls) =
        some (some [⟨"_1", "sky", "\x7b\x7d"⟩]) := by decide
  rw [made] at got
  exact absurd (same.symm.trans (Option.some.inj got)) (by decide)

end Streamed

end LocalHarness.Serving
