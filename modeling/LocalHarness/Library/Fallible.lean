import Mathlib.Data.List.Forall2
import Mathlib.Logic.Basic

/-! # Computations that may be refused -/

namespace LocalHarness.Library

variable {ε α β : Type}

theorem bind_ok {x : Except ε α} {f : α → Except ε β} {b : β} (bound : (x >>= f) = .ok b) :
    ∃ a, x = .ok a ∧ f a = .ok b := by
  cases x with
  | error why => cases bound
  | ok a => exact ⟨a, rfl, bound⟩

theorem map_ok {x : Except ε α} {f : α → β} {b : β} (mapped : x.map f = .ok b) :
    ∃ a, x = .ok a ∧ f a = b := by
  cases x with
  | error why => cases mapped
  | ok a => exact ⟨a, rfl, Except.ok.inj mapped⟩

theorem pure_ok {a b : α} (made : (pure a : Except ε α) = .ok b) : b = a :=
  (Except.ok.inj made).symm

/-- A fold that is not refused was refused at no step. -/
theorem foldlM_cons_ok {f : β → α → Except ε β} {init result : β} {head : α} {rest : List α} :
    (head :: rest).foldlM f init = .ok result ↔
      ∃ next, f init head = .ok next ∧ rest.foldlM f next = .ok result := by
  rw [List.foldlM_cons]
  constructor
  · exact bind_ok
  · rintro ⟨next, first, others⟩
    rw [first]
    exact others

theorem foldlM_append_ok {f : β → α → Except ε β} {init result : β} {front back : List α} :
    (front ++ back).foldlM f init = .ok result ↔
      ∃ middle, front.foldlM f init = .ok middle ∧ back.foldlM f middle = .ok result := by
  rw [List.foldlM_append]
  constructor
  · exact bind_ok
  · rintro ⟨middle, first, others⟩
    rw [first]
    exact others

/-- What is seen of a result is seen of a result that is there. -/
theorem seen_ok {x : Except ε α} {f : α → β} {b : β} (seen : x.toOption.map f = some b) :
    ∃ a, x = .ok a ∧ f a = b := by
  cases x with
  | error why => cases seen
  | ok a => exact ⟨a, rfl, Option.some.inj seen⟩

theorem forM_ok {f : α → Except ε Unit} {l : List α} (done : l.forM f = .ok ()) :
    ∀ a ∈ l, f a = .ok () := by
  induction l with
  | nil => exact List.forall_mem_nil _
  | cons a rest ih =>
      obtain ⟨_, first, others⟩ := bind_ok (x := f a) (f := fun _ => rest.forM f) done
      exact List.forall_mem_cons.mpr ⟨first, ih others⟩

theorem mapM_ok {f : α → Except ε β} {l : List α} {made : List β} (mapped : l.mapM f = .ok made) :
    List.Forall₂ (fun a b => f a = .ok b) l made := by
  induction l generalizing made with
  | nil =>
      rw [pure_ok mapped]
      exact .nil
  | cons a rest ih =>
      rw [List.mapM_cons] at mapped
      obtain ⟨b, first, others⟩ := bind_ok mapped
      obtain ⟨bs, more, last⟩ := bind_ok others
      rw [pure_ok last]
      exact .cons first (ih more)

theorem mem_mapM {f : α → Except ε β} {l : List α} {made : List β} {b : β}
    (mapped : l.mapM f = .ok made) (member : b ∈ made) : ∃ a ∈ l, f a = .ok b := by
  have steps := mapM_ok mapped
  clear mapped
  induction steps with
  | nil => cases member
  | @cons a first rest more here _ ih =>
      rcases List.mem_cons.mp member with rfl | later
      · exact ⟨a, List.mem_cons_self, here⟩
      · obtain ⟨a', inside, made⟩ := ih later
        exact ⟨a', List.mem_cons_of_mem a inside, made⟩

theorem ok_of_mapM {f : α → Except ε β} {l : List α} {made : List β} {a : α}
    (mapped : l.mapM f = .ok made) (member : a ∈ l) : ∃ b ∈ made, f a = .ok b := by
  have steps := mapM_ok mapped
  clear mapped
  induction steps with
  | nil => cases member
  | @cons a' first rest more here _ ih =>
      rcases List.mem_cons.mp member with rfl | later
      · exact ⟨first, List.mem_cons_self, here⟩
      · obtain ⟨b, inside, made⟩ := ih later
        exact ⟨b, List.mem_cons_of_mem first inside, made⟩

theorem mapM_some {f : α → Option β} {l : List α} {made : List β} (mapped : l.mapM f = some made) :
    List.Forall₂ (fun a b => f a = some b) l made := by
  induction l generalizing made with
  | nil =>
      cases mapped
      exact .nil
  | cons a rest ih =>
      rw [List.mapM_cons] at mapped
      obtain ⟨b, first, others⟩ := Option.bind_eq_some_iff.mp mapped
      obtain ⟨bs, more, last⟩ := Option.bind_eq_some_iff.mp others
      cases last
      exact .cons first (ih more)

theorem mapM_of_some {f : α → Option β} {g : α → β} {l : List α} (each : ∀ a ∈ l, f a = some (g a)) :
    l.mapM f = some (l.map g) := by
  induction l with
  | nil => rfl
  | cons a rest ih =>
      obtain ⟨first, others⟩ := List.forall_mem_cons.mp each
      rw [List.mapM_cons, first, ih others]
      rfl

theorem mapM_of_ok {f : α → Except ε β} {g : α → β} {l : List α} (each : ∀ a ∈ l, f a = .ok (g a)) :
    l.mapM f = .ok (l.map g) := by
  induction l with
  | nil => rfl
  | cons a rest ih =>
      obtain ⟨first, others⟩ := List.forall_mem_cons.mp each
      rw [List.mapM_cons, first, ih others]
      rfl

theorem mapM_total {f : α → Except ε β} {l : List α} {p : β → Prop}
    (each : ∀ x ∈ l, ∃ y, f x = .ok y ∧ p y) :
    ∃ ys, l.mapM f = .ok ys ∧ ys.length = l.length ∧ ∀ y ∈ ys, p y := by
  induction l with
  | nil => exact ⟨[], rfl, rfl, List.forall_mem_nil _⟩
  | cons x rest ih =>
      obtain ⟨⟨y, here, holds⟩, later⟩ := List.forall_mem_cons.mp each
      obtain ⟨ys, made, length, others⟩ := ih later
      refine ⟨y :: ys, ?_, congrArg (· + 1) length, List.forall_mem_cons.mpr ⟨holds, others⟩⟩
      rw [List.mapM_cons, here, made]
      rfl

/-! ## Whether there is a result at all -/

def Returns (x : Except ε α) : Prop :=
  ∃ a, x = .ok a

@[simp] theorem returns_ok (a : α) : Returns (.ok a : Except ε α) := ⟨a, rfl⟩

@[simp] theorem not_returns_error (why : ε) : ¬ Returns (.error why : Except ε α) := by
  rintro ⟨a, made⟩
  cases made

theorem returns_bind {x : Except ε α} {f : α → Except ε β} :
    Returns (x >>= f) ↔ ∃ a, x = .ok a ∧ Returns (f a) := by
  constructor
  · rintro ⟨b, bound⟩
    obtain ⟨a, first, second⟩ := bind_ok bound
    exact ⟨a, first, b, second⟩
  · rintro ⟨a, rfl, b, second⟩
    exact ⟨b, second⟩

theorem returns_map {x : Except ε α} {f : α → β} : Returns (x.map f) ↔ Returns x := by
  cases x with
  | error why => exact iff_of_false (not_returns_error why) (not_returns_error why)
  | ok a => exact iff_of_true (returns_ok (f a)) (returns_ok a)

theorem returns_mapM {f : α → Except ε β} {l : List α} :
    Returns (l.mapM f) ↔ ∀ a ∈ l, Returns (f a) := by
  induction l with
  | nil => exact iff_of_true (returns_ok []) (List.forall_mem_nil _)
  | cons a rest ih =>
      rw [List.mapM_cons, returns_bind, List.forall_mem_cons, ← ih]
      constructor
      · rintro ⟨b, first, others⟩
        obtain ⟨bs, more, _⟩ := returns_bind.mp others
        exact ⟨⟨b, first⟩, bs, more⟩
      · rintro ⟨⟨b, first⟩, bs, more⟩
        exact ⟨b, first, returns_bind.mpr ⟨bs, more, returns_ok _⟩⟩

theorem not_returns_iff {x : Except ε α} : ¬ Returns x ↔ ∃ why, x = .error why := by
  cases x with
  | error why => exact iff_of_true (not_returns_error why) ⟨why, rfl⟩
  | ok a => exact iff_of_false (not_not_intro (returns_ok a)) (by rintro ⟨why, made⟩; cases made)

/-- A list of results is refused where one of them is. -/
theorem mapM_refused {why : ε} {refused : α → Prop} [DecidablePred refused] {g : α → β} (l : List α) :
    (l.mapM fun a => if refused a then (.error why : Except ε β) else .ok (g a)) =
      if ∃ a ∈ l, refused a then .error why else .ok (l.map g) := by
  induction l with
  | nil => rw [if_neg (by simp)]; rfl
  | cons a rest ih =>
      rw [List.mapM_cons, ih]
      by_cases bad : refused a
      · have hit : ∃ b ∈ a :: rest, refused b := ⟨a, List.mem_cons_self, bad⟩
        rw [if_pos bad, if_pos hit]
        rfl
      · have later : (∃ b ∈ a :: rest, refused b) ↔ ∃ b ∈ rest, refused b := by simp [bad]
        simp only [if_neg bad, later]
        split <;> rfl

/-- A search is refused where a step is, unless it has ended before. -/
theorem returns_anyM {why : ε} {refused : α → Prop} [DecidablePred refused] {found : α → Bool}
    {l : List α} :
    Returns (l.anyM fun a => if refused a then (.error why : Except ε Bool) else .ok (found a)) ↔
      ∀ front a back, l = front ++ a :: back → (∀ b ∈ front, found b = false) → ¬ refused a := by
  induction l with
  | nil =>
      refine iff_of_true ⟨false, rfl⟩ fun front a back shape => ?_
      simp at shape
  | cons first rest ih =>
      rw [List.anyM]
      by_cases bad : refused first
      · rw [if_pos bad]
        refine iff_of_false (not_returns_error why) fun safe => ?_
        exact safe [] first rest rfl (List.forall_mem_nil _) bad
      · rw [if_neg bad]
        cases ended : found first with
        | true =>
            refine iff_of_true (returns_ok true) fun front a back shape earlier => ?_
            cases front with
            | nil => exact (List.cons.inj shape).1 ▸ bad
            | cons b front =>
                have same := (List.cons.inj shape).1
                have early := earlier b List.mem_cons_self
                rw [← same, ended] at early
                cases early
        | false =>
            refine ih.trans ⟨fun safe front a back shape earlier => ?_,
              fun safe front a back shape earlier => ?_⟩
            · cases front with
              | nil => exact (List.cons.inj shape).1 ▸ bad
              | cons b front =>
                  exact safe front a back (List.cons.inj shape).2 fun c member =>
                    earlier c (List.mem_cons_of_mem _ member)
            · refine safe (first :: front) a back (shape ▸ rfl) fun c member => ?_
              rcases List.mem_cons.mp member with rfl | later
              · exact ended
              · exact earlier c later

/-- Searching list after list is searching all of them. -/
theorem map_findM {p : α → Except ε Bool} {lists : β → List α} (l : List β) :
    (l.findM? fun b => (lists b).anyM p).map Option.isSome = (l.flatMap lists).anyM p := by
  induction l with
  | nil => rfl
  | cons b rest ih =>
      have append : ∀ front back : List α, (front ++ back).anyM p =
          (front.anyM p).bind fun found => if found then .ok true else back.anyM p := by
        intro front back
        induction front with
        | nil => rfl
        | cons a front ih =>
            rw [List.cons_append, List.anyM, List.anyM, ih]
            cases p a with
            | error why => rfl
            | ok found => cases found <;> rfl
      rw [List.flatMap_cons, append, ← ih, List.findM?]
      cases (lists b).anyM p with
      | error why => rfl
      | ok found => cases found <;> rfl

end LocalHarness.Library
