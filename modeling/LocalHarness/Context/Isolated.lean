import Mathlib.Data.List.ReduceOption
import LocalHarness.Context.Plan
import LocalHarness.Context.RoundTrip

/-! # Which files keep all the others from a plan -/

namespace LocalHarness.Context

open Library

/-- Whatever is raised here is caught in the loop. -/
def Caught {α : Type} (x : Except Fault α) : Prop :=
  ∀ fault, x = .error fault → fault.caught? ≠ none

section

variable {α β : Type}

theorem caught_ok (a : α) : Caught (.ok a) := by
  intro fault raised
  cases raised

theorem Caught.bind {x : Except Fault α} {f : α → Except Fault β} (first : Caught x)
    (second : ∀ a, x = .ok a → Caught (f a)) : Caught (x >>= f) := by
  intro fault raised
  cases found : x with
  | error why =>
      rw [found] at raised
      obtain rfl := Except.error.inj raised
      exact first why found
  | ok a =>
      rw [found] at raised
      exact second a found fault raised

theorem caught_decimal (n : ℤ) : Caught (decimal n) := by
  intro fault raised
  rw [decimal] at raised
  split at raised
  · cases raised
  · cases raised
    exact Option.some_ne_none _

theorem caught_gibibytes {py : Interpreter} {n : ℤ} (small : n.natAbs ≤ 2 ^ 126) :
    Caught (py.gibibytes n) := by
  have fits : n.natAbs < (2 ^ 1024 - 2 ^ 970) * 1024 ^ 3 := small.trans_lt (by decide +kernel)
  rw [Interpreter.gibibytes, if_pos fits]
  exact caught_ok _

end

namespace Planning

theorem natAbs_le {n : ℤ} (stored : Stored n) : n.natAbs ≤ 2 ^ 63 := by
  obtain ⟨low, high⟩ := stored
  omega

theorem caught_room {py : Interpreter} {room : ℤ} (left : Stored room) : Caught (py.gibibytes room) :=
  caught_gibibytes ((natAbs_le left).trans (by decide))

theorem caught_product {py : Interpreter} {m n : ℤ} (first : m.natAbs ≤ 2 ^ 63) (second : n.natAbs ≤ 2 ^ 63) :
    Caught (py.gibibytes (m * n)) := by
  refine caught_gibibytes ?_
  rw [Int.natAbs_mul]
  exact (Nat.mul_le_mul first second).trans (by decide)

theorem roomFor_stored {weights budget kvCap : ℤ} (stored : Stored kvCap) :
    Stored (roomFor weights budget (some kvCap)) := by
  obtain ⟨low, high⟩ := stored
  rw [roomFor, Stored]
  omega

theorem longest_le {full per slots room : ℤ} : longest full per slots room ≤ full := by
  refine (min_le_left ..).trans ?_
  split
  · exact stepsOf_le full
  · exact le_rfl

/-- With numbers a column can hold no text of a choice is too large to be made. -/
theorem caught_chooseWithin {py : Interpreter} {full per room slots : ℤ} (length : Stored full)
    (cost : Stored per) (left : Stored room) : Caught (chooseWithin py full per room slots floor) := by
  rw [chooseWithin]
  by_cases unknown : full = 0 ∨ per = 0
  · rw [if_pos unknown]
    exact caught_ok _
  rw [if_neg unknown]
  change Caught (if longest full per slots room < floor then _ else if longest full per slots room < full then _
    else _)
  by_cases low : longest full per slots room < floor
  · rw [if_pos low]
    refine .bind ?_ fun _ _ => (caught_decimal _).bind fun _ _ => caught_ok _
    rw [shortfall]
    split
    · exact (caught_decimal _).bind fun _ _ => caught_ok _
    · exact (caught_room left).bind fun _ _ => (caught_decimal _).bind fun _ _ =>
        (caught_decimal _).bind fun _ _ => caught_ok _
  rw [if_neg low]
  have served : (longest full per slots room).natAbs ≤ 2 ^ 63 := by
    have shorter := @longest_le full per slots room
    have high := length.2
    rw [floor] at low
    omega
  split
  · exact (caught_decimal _).bind fun _ _ => (caught_room left).bind fun _ _ =>
      (caught_decimal _).bind fun _ _ => (caught_decimal _).bind fun _ _ => caught_ok _
  · exact (caught_decimal _).bind fun _ _ => (caught_product (natAbs_le cost) served).bind fun _ _ => caught_ok _

theorem caught_chooseSlotsWithin {py : Interpreter} {full per room slots slotCtx : ℤ}
    (pool : (slots * slotCtx).natAbs ≤ 2 ^ 63) (cost : Stored per) (left : Stored room) :
    Caught (chooseSlotsWithin py full per room slots slotCtx) := by
  have need : Caught (py.gibibytes (slots * slotCtx * per)) := caught_product pool (natAbs_le cost)
  rw [chooseSlotsWithin]
  split
  · exact (caught_decimal _).bind fun _ _ => (caught_decimal _).bind fun _ _ =>
      (caught_decimal _).bind fun _ _ => (caught_decimal _).bind fun _ _ => caught_ok _
  · split
    · exact (caught_decimal _).bind fun _ _ => (caught_decimal _).bind fun _ _ => need.bind fun _ _ =>
        (caught_room left).bind fun _ _ => caught_ok _
    · exact (caught_decimal _).bind fun _ _ => (caught_decimal _).bind fun _ _ => need.bind fun _ _ =>
        caught_ok _

variable (run : Planning)

/-- What the header says the model was trained for, and what a token costs. -/
def sizes (header : Meta) : Except Fault (ℤ × ℤ) := do
  let full ← trained run.py header
  let per ← kvBytesPerToken run.py header run.cacheType
  return (full, per)

/-- The choice between these. -/
def within (fixed : Option (ℤ × ℤ)) (weights full per : ℤ) : Except Fault Choice :=
  let room := roomFor weights (run.budget - run.beside) (some run.kvCap)
  match fixed with
  | some (slots, slotCtx) => chooseSlotsWithin run.py full per room slots slotCtx
  | none => chooseWithin run.py full per room run.slots floor

theorem size_eq (fixed : Option (ℤ × ℤ)) (header : Meta) (weights : ℤ) :
    run.size fixed header weights =
      run.sizes header >>= fun numbers => run.within fixed weights numbers.1 numbers.2 := by
  cases fixed with
  | none => simp [size, choose, sizes, within]
  | some pool => simp [size, chooseSlots, sizes, within]

/-- A row keeps all the others from a plan. -/
inductive Escapes (row : Row) : Prop where
  /-- Whether the file is there cannot be asked. -/
  | hidden {why : Fault} (found : run.files row.path = .hidden why)
  /-- The header nests too deep, or sets more room aside than there is. -/
  | unread {content : Bytes} {fault : Fault} (found : run.files row.path = .file content)
      (raised : Reading.readMeta run.py row.name ⟨content, 0⟩ = .error fault)
      (uncaught : fault.caught? = none)
  /-- What the header says the model was trained for and what its cache takes are no numbers, or not such
  as can be counted with. -/
  | unsized {content : Bytes} {header : Meta} {rest : Stream} {fault : Fault}
      (found : run.files row.path = .file content)
      (read : Reading.readMeta run.py row.name ⟨content, 0⟩ = .ok (header, rest))
      (raised : run.sizes header = .error fault) (uncaught : fault.caught? = none)
  /-- They are larger than a column can hold, and not refused for being too long to write down. -/
  | unstored {content : Bytes} {header : Meta} {rest : Stream} {full per : ℤ}
      (found : run.files row.path = .file content)
      (read : Reading.readMeta run.py row.name ⟨content, 0⟩ = .ok (header, rest))
      (sized : run.sizes header = .ok (full, per)) (large : ¬ (Stored full ∧ Stored per))
      (unrefused : ∀ fault fixed, slotPlan row.stem = .ok fixed →
        run.within fixed content.length full per = .error fault → fault.caught? = none)
  /-- The numbers of the plan itself are. -/
  | arguments {fixed : Option (ℤ × ℤ)} (found : run.present row = .ok true)
      (named : slotPlan row.stem = .ok fixed)
      (large : ¬ (Stored ((fixed.map Prod.fst).getD run.slots) ∧ Stored run.kvCap ∧ Stored run.beside))

variable {run} {row : Row}

/-- A pool asked for by name is one a column can hold. -/
theorem slotPlan_ok (stem : String) :
    ∃ fixed, slotPlan stem = .ok fixed ∧
      ∀ slots slotCtx, fixed = some (slots, slotCtx) → (slots * slotCtx).natAbs ≤ 2 ^ 32 := by
  by_cases other : stem ≠ eval7bStem
  · refine ⟨none, if_pos other, fun slots slotCtx named => ?_⟩
    cases named
  · refine ⟨some (max eval7bSlots 1, eval7bSlotCtx), (if_neg other).trans (if_neg (by decide)), ?_⟩
    rintro _ _ ⟨⟩
    decide

theorem stored_of_natAbs {n : ℤ} (small : n.natAbs ≤ 2 ^ 32) : Stored n := by
  rw [Stored]
  omega

theorem stored_zero : Stored 0 := by
  decide

theorem within_ok {fixed : Option (ℤ × ℤ)} {weights full per : ℤ} {choice : Choice}
    (pool : ∀ slots slotCtx, fixed = some (slots, slotCtx) → (slots * slotCtx).natAbs ≤ 2 ^ 32)
    (chosen : run.within fixed weights full per = .ok choice) :
    choice.trained = full ∧ choice.kvPerToken = per ∧ (Stored full → Stored choice.ctx) := by
  cases fixed with
  | none =>
      obtain ⟨why, rfl⟩ := chooseWithin_ok chosen
      refine ⟨rfl, rfl, fun length => ?_⟩
      split
      · exact stored_zero
      · next served =>
          have shorter := @longest_le full per run.slots
            (roomFor weights (run.budget - run.beside) (some run.kvCap))
          have above := (not_or.mp served).2
          obtain ⟨low, high⟩ := length
          rw [floor] at above
          change Stored (longest ..)
          rw [Stored]
          omega
  | some asked =>
      obtain ⟨slots, slotCtx⟩ := asked
      obtain ⟨why, rfl⟩ := chooseSlotsWithin_ok chosen
      refine ⟨rfl, rfl, fun _ => ?_⟩
      split
      · exact stored_zero
      · exact stored_of_natAbs (pool slots slotCtx rfl)

theorem caught_within {fixed : Option (ℤ × ℤ)} {weights full per : ℤ}
    (pool : ∀ slots slotCtx, fixed = some (slots, slotCtx) → (slots * slotCtx).natAbs ≤ 2 ^ 32)
    (capped : Stored run.kvCap) (length : Stored full) (cost : Stored per) :
    Caught (run.within fixed weights full per) := by
  cases fixed with
  | none => exact caught_chooseWithin length cost (roomFor_stored capped)
  | some asked =>
      obtain ⟨slots, slotCtx⟩ := asked
      exact caught_chooseSlotsWithin ((pool slots slotCtx rfl).trans (by decide)) cost (roomFor_stored capped)

theorem rescued_caught {x : Except Fault Choice} {fault : Fault} {text : String} (raised : x = .error fault)
    (caught : fault.caught? = some text) :
    rescued x = .ok ⟨0, 0, 0, s!"refused: unreadable GGUF header ({text})"⟩ := by
  rw [raised, rescued, caught]

theorem rescued_uncaught {x : Except Fault Choice} {fault : Fault} (raised : x = .error fault)
    (uncaught : fault.caught? = none) : ¬ Returns (rescued x) := by
  rw [raised, rescued, uncaught]
  exact not_returns_error fault

/-- The numbers of the plan can be written. -/
def Writable (run : Planning) (fixed : Option (ℤ × ℤ)) : Prop :=
  Stored ((fixed.map Prod.fst).getD run.slots) ∧ Stored run.kvCap ∧ Stored run.beside

/-- And so can those of a choice. -/
def Held (choice : Choice) : Prop :=
  Stored choice.ctx ∧ Stored choice.trained ∧ Stored choice.kvPerToken

theorem returns_planFile {fixed : Option (ℤ × ℤ)} (named : slotPlan row.stem = .ok fixed) :
    Returns (run.planFile row) ↔
      run.Writable fixed ∧ ∃ got, rescued (run.attempt row fixed) = .ok got ∧ Held got := by
  rw [planFile, returns_bind]
  constructor
  · rintro ⟨_, again, rest⟩
    rw [named] at again
    obtain rfl := Except.ok.inj again
    obtain ⟨got, rescue, rest⟩ := returns_bind.mp rest
    obtain ⟨recorded, written, _⟩ := returns_bind.mp rest
    rw [update] at written
    split at written
    · next stored =>
        obtain ⟨ctx, trained, cost, slots, cap, beside⟩ := stored
        exact ⟨⟨slots, cap, beside⟩, got, rescue, ctx, trained, cost⟩
    · cases written
  · rintro ⟨⟨slots, cap, beside⟩, got, rescue, ctx, trained, cost⟩
    refine ⟨fixed, named, returns_bind.mpr ⟨got, rescue, returns_bind.mpr ?_⟩⟩
    exact ⟨_, if_pos ⟨ctx, trained, cost, slots, cap, beside⟩, returns_ok _⟩

theorem returns_planRow {row : Row} : Returns (run.planRow row) ↔
    run.present row = .ok false ∨ run.present row = .ok true ∧ Returns (run.planFile row) := by
  rw [planRow, returns_bind]
  constructor
  · rintro ⟨here, present, rest⟩
    cases here with
    | false => exact .inl present
    | true => exact .inr ⟨present, returns_map.mp rest⟩
  · rintro (absent | ⟨present, file⟩)
    · exact ⟨false, absent, returns_ok none⟩
    · exact ⟨true, present, returns_map.mpr file⟩

theorem held_refusal (why : String) : Held ⟨0, 0, 0, why⟩ :=
  ⟨stored_zero, stored_zero, stored_zero⟩

/-- What is caught is written down as a refusal. -/
theorem held_rescued {x : Except Fault Choice} (caught : Caught x) (chosen : ∀ choice, x = .ok choice → Held choice) :
    ∃ got, rescued x = .ok got ∧ Held got := by
  cases made : x with
  | ok choice => exact ⟨choice, rfl, chosen choice made⟩
  | error fault =>
      obtain ⟨text, known⟩ := Option.ne_none_iff_exists'.mp (caught fault made)
      exact ⟨_, rescued_caught rfl known, held_refusal _⟩

theorem attempt_file {fixed : Option (ℤ × ℤ)} {content : Bytes} (found : run.files row.path = .file content) :
    run.attempt row fixed = Reading.readMeta run.py row.name ⟨content, 0⟩ >>= fun read =>
      run.sizes read.1 >>= fun numbers => run.within fixed content.length numbers.1 numbers.2 := by
  simp only [attempt, found, size_eq]

theorem attempt_unread {fixed : Option (ℤ × ℤ)} {content : Bytes} {fault : Fault}
    (found : run.files row.path = .file content)
    (raised : Reading.readMeta run.py row.name ⟨content, 0⟩ = .error fault) :
    run.attempt row fixed = .error fault := by
  rw [attempt_file found, raised]
  rfl

theorem attempt_unsized {fixed : Option (ℤ × ℤ)} {content : Bytes} {header : Meta} {rest : Stream}
    {fault : Fault} (found : run.files row.path = .file content)
    (read : Reading.readMeta run.py row.name ⟨content, 0⟩ = .ok (header, rest))
    (raised : run.sizes header = .error fault) : run.attempt row fixed = .error fault := by
  rw [attempt_file found, read]
  change (run.sizes header >>= fun numbers => run.within fixed content.length numbers.1 numbers.2) = _
  rw [raised]
  rfl

theorem attempt_sized {fixed : Option (ℤ × ℤ)} {content : Bytes} {header : Meta} {rest : Stream}
    {full per : ℤ} (found : run.files row.path = .file content)
    (read : Reading.readMeta run.py row.name ⟨content, 0⟩ = .ok (header, rest))
    (sized : run.sizes header = .ok (full, per)) :
    run.attempt row fixed = run.within fixed content.length full per := by
  rw [attempt_file found, read]
  change (run.sizes header >>= fun numbers => run.within fixed content.length numbers.1 numbers.2) = _
  rw [sized]
  rfl

theorem not_escapes_of_returns (returns : Returns (run.planRow row)) : ¬ Escapes run row := by
  obtain ⟨fixed, named, pool⟩ := slotPlan_ok row.stem
  rcases returns_planRow.mp returns with absent | ⟨present, file⟩
  · -- Nothing is asked of a file that is not there.
    have gone : run.files row.path = .absent := by
      cases found : run.files row.path with
      | absent => rfl
      | hidden why => rw [present, found] at absent; cases absent
      | locked text => rw [present, found] at absent; cases absent
      | file content => rw [present, found] at absent; cases absent
    intro escapes
    cases escapes with
    | hidden found => rw [gone] at found; cases found
    | unread found => rw [gone] at found; cases found
    | unsized found => rw [gone] at found; cases found
    | unstored found => rw [gone] at found; cases found
    | arguments found => rw [absent] at found; cases found
  · obtain ⟨writable, got, rescue, held⟩ := (returns_planFile named).mp file
    have returned : Returns (rescued (run.attempt row fixed)) := ⟨got, rescue⟩
    intro escapes
    cases escapes with
    | hidden found => simp [Planning.present, found] at present
    | unread found raised uncaught =>
        exact rescued_uncaught (attempt_unread found raised) uncaught returned
    | unsized found read raised uncaught =>
        exact rescued_uncaught (attempt_unsized found read raised) uncaught returned
    | @unstored content header rest full per found read sized large unrefused =>
        rw [attempt_sized found read sized] at returned rescue
        cases chosen : run.within fixed content.length full per with
        | error fault => exact rescued_uncaught chosen (unrefused fault fixed named chosen) returned
        | ok choice =>
            obtain ⟨trained, cost, _⟩ := within_ok pool chosen
            rw [chosen] at rescue
            obtain rfl := Except.ok.inj rescue
            exact large ⟨trained ▸ held.2.1, cost ▸ held.2.2⟩
    | arguments found again large =>
        rw [named] at again
        obtain rfl := Except.ok.inj again
        exact large writable

theorem returns_of_not_escapes (safe : ¬ Escapes run row) : Returns (run.planRow row) := by
  obtain ⟨fixed, named, pool⟩ := slotPlan_ok row.stem
  rw [returns_planRow]
  cases found : run.files row.path with
  | absent => exact .inl (by rw [present, found])
  | hidden why => exact absurd (.hidden found) safe
  | locked text =>
      have here : run.present row = .ok true := by rw [present, found]
      refine .inr ⟨here, (returns_planFile named).mpr ⟨?_, held_rescued ?_ ?_⟩⟩
      · by_contra large
        exact safe (.arguments here named large)
      · intro fault raised
        rw [attempt, found] at raised
        cases raised
        exact Option.some_ne_none _
      · intro choice chosen
        rw [attempt, found] at chosen
        cases chosen
  | file content =>
      have here : run.present row = .ok true := by rw [present, found]
      have writable : run.Writable fixed := by
        by_contra large
        exact safe (.arguments here named large)
      refine .inr ⟨here, (returns_planFile named).mpr ⟨writable, ?_⟩⟩
      cases read : Reading.readMeta run.py row.name ⟨content, 0⟩ with
      | error fault =>
          rw [attempt_unread found read]
          refine held_rescued ?_ ?_
          · rintro _ ⟨⟩ uncaught
            exact safe (.unread found read uncaught)
          · rintro _ ⟨⟩
      | ok made =>
          obtain ⟨header, rest⟩ := made
          cases sized : run.sizes header with
          | error fault =>
              rw [attempt_unsized found read sized]
              refine held_rescued ?_ ?_
              · rintro _ ⟨⟩ uncaught
                exact safe (.unsized found read sized uncaught)
              · rintro _ ⟨⟩
          | ok numbers =>
              obtain ⟨full, per⟩ := numbers
              rw [attempt_sized found read sized]
              have stored (unrefused : ∀ fault, run.within fixed content.length full per = .error fault →
                  fault.caught? = none) : Stored full ∧ Stored per := by
                by_contra large
                refine safe (.unstored found read sized large fun fault fixed' named' raised => ?_)
                rw [named] at named'
                obtain rfl := Except.ok.inj named'
                exact unrefused fault raised
              refine held_rescued (fun fault raised uncaught => ?_) fun choice chosen => ?_
              · obtain ⟨length, cost⟩ := stored fun other again => by
                  rw [raised] at again
                  obtain rfl := Except.error.inj again
                  exact uncaught
                exact caught_within pool writable.2.1 length cost fault raised uncaught
              · obtain ⟨length, cost⟩ := stored fun fault raised => by
                  rw [chosen] at raised
                  cases raised
                obtain ⟨rfl, rfl, held⟩ := within_ok pool chosen
                exact ⟨held length, length, cost⟩

/-- Whether there is an entry for a row. -/
def here (run : Planning) (row : Row) : Bool :=
  match run.files row.path with
  | .absent => false
  | _ => true

/-- An entry says what is to be said of its file, and of no other. -/
structure Answers (run : Planning) (row : Row) (entry : Planned) : Prop where
  stem : entry.stem = row.stem
  path : entry.path = row.path
  refused : ∀ content fault, run.files row.path = .file content →
    Reading.readMeta run.py row.name ⟨content, 0⟩ = .error fault →
      entry.ctx = 0 ∧ ∃ text, fault.caught? = some text ∧
        entry.why = s!"refused: unreadable GGUF header ({text})"
  chosen : ∀ content header rest fixed choice, run.files row.path = .file content →
    Reading.readMeta run.py row.name ⟨content, 0⟩ = .ok (header, rest) → slotPlan row.stem = .ok fixed →
      run.size fixed header content.length = .ok choice → entry.ctx = choice.ctx ∧ entry.why = choice.why

theorem answers_of_planFile {entry : Planned} {recorded : Recorded}
    (planned : run.planFile row = .ok (entry, recorded)) : Answers run row entry := by
  rw [planFile] at planned
  obtain ⟨fixed, named, rest⟩ := bind_ok planned
  obtain ⟨got, rescue, rest⟩ := bind_ok rest
  obtain ⟨_, _, made⟩ := bind_ok rest
  obtain ⟨rfl, rfl⟩ := Prod.mk.inj (pure_ok made)
  refine ⟨rfl, rfl, fun content fault found raised => ?_, ?_⟩
  · rw [attempt_unread found raised, rescued] at rescue
    cases caught : fault.caught? with
    | none => rw [caught] at rescue; cases rescue
    | some text =>
        rw [caught] at rescue
        obtain rfl := Except.ok.inj rescue
        exact ⟨rfl, text, rfl, rfl⟩
  · intro content header rest fixed' choice found read again sized
    rw [named] at again
    obtain rfl := Except.ok.inj again
    have attempted : run.attempt row fixed = .ok choice := by
      rw [attempt, found]
      change (Reading.readMeta run.py row.name ⟨content, 0⟩ >>= _) = _
      rw [read]
      exact sized
    rw [attempted] at rescue
    obtain rfl := Except.ok.inj rescue
    exact ⟨rfl, rfl⟩

theorem planRow_ok {out : Option (Planned × Recorded)} (planned : run.planRow row = .ok out) :
    run.here row = false ∧ out = none ∨
      run.here row = true ∧ ∃ entry recorded, out = some (entry, recorded) ∧ Answers run row entry := by
  obtain ⟨present, asked, rest⟩ := bind_ok planned
  have same : run.here row = present := by
    cases found : run.files row.path with
    | hidden why => rw [Planning.present, found] at asked; cases asked
    | absent => rw [Planning.present, found] at asked; rw [here, found]; exact Except.ok.inj asked
    | locked text => rw [Planning.present, found] at asked; rw [here, found]; exact Except.ok.inj asked
    | file content => rw [Planning.present, found] at asked; rw [here, found]; exact Except.ok.inj asked
  cases present with
  | false => exact .inl ⟨same, pure_ok rest⟩
  | true =>
      obtain ⟨⟨entry, recorded⟩, file, rfl⟩ := map_ok rest
      exact .inr ⟨same, entry, recorded, rfl, answers_of_planFile file⟩

theorem answers_of_mapM {rows : List Row} {planned : List (Option (Planned × Recorded))}
    (each : List.Forall₂ (fun row out => run.planRow row = .ok out) rows planned) :
    List.Forall₂ run.Answers (rows.filter run.here) (planned.reduceOption.map Prod.fst) := by
  induction each with
  | nil => exact .nil
  | cons first _ ih =>
      rcases planRow_ok first with ⟨gone, rfl⟩ | ⟨here, entry, recorded, rfl, answers⟩
      · rw [List.filter_cons_of_neg (by simp [gone]), List.reduceOption_cons_of_none]
        exact ih
      · rw [List.filter_cons_of_pos here, List.reduceOption_cons_of_some, List.map_cons]
        exact .cons answers ih

/-- A file that says it was trained for `2 ** 63` tokens. -/
def endless : Header where
  version := Reading.named.version
  version_ge := Reading.named.version_ge
  tensors := Reading.named.tensors
  entries := [⟨".context_length", .scalar .uint64, .scalar .uint64 ⟨2 ^ 63, by decide⟩⟩]

/-- Of two files the first. -/
def together : Planning where
  py := .usual
  files path := if path = "/m/a.gguf" then .file endless.encode else .file Reading.named.encode
  budget := 2 ^ 36
  slots := 1
  cacheType := "f16"
  kvCap := 2 ^ 33
  beside := 0

end Planning

end LocalHarness.Context
