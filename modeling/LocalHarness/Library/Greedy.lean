import Mathlib.Data.List.Nodup
import Mathlib.Data.List.Sort

/-! # Greedy matching

The edges of a bipartite graph taken in a fixed order, each unless an end of it is taken. What is
matched on the right only grows when vertices join on the left, wherever their edges stand in the
order.
-/

namespace LocalHarness.Library.Greedy

variable {ε α β : Type*} [DecidableEq α] [DecidableEq β] (left : ε → α) (right : ε → β)

/-- The edges that are taken, after those ends are. -/
def greedy : List α → List β → List ε → List ε
  | _, _, [] => []
  | usedL, usedR, edge :: rest =>
      if left edge ∈ usedL ∨ right edge ∈ usedR then greedy usedL usedR rest
      else edge :: greedy (left edge :: usedL) (right edge :: usedR) rest

variable {left right}

theorem greedy_sublist (usedL : List α) (usedR : List β) (edges : List ε) :
    (greedy left right usedL usedR edges).Sublist edges := by
  induction edges generalizing usedL usedR with
  | nil => exact List.Sublist.refl _
  | cons edge rest ih =>
      unfold greedy
      split
      next => exact (ih usedL usedR).cons edge
      next => exact (ih _ _).cons_cons edge

/-- No end is taken twice. -/
theorem greedy_apart (usedL : List α) (usedR : List β) (edges : List ε) :
    (∀ edge ∈ greedy left right usedL usedR edges, left edge ∉ usedL ∧ right edge ∉ usedR) ∧
      ((greedy left right usedL usedR edges).map left).Nodup ∧
        ((greedy left right usedL usedR edges).map right).Nodup := by
  induction edges generalizing usedL usedR with
  | nil => exact ⟨by simp [greedy], by simp [greedy], by simp [greedy]⟩
  | cons edge rest ih =>
      unfold greedy
      split
      next => exact ih usedL usedR
      next free =>
        rw [not_or] at free
        obtain ⟨fresh, lefts, rights⟩ := ih (left edge :: usedL) (right edge :: usedR)
        refine ⟨?_, ?_, ?_⟩
        · intro other inside
          rcases List.mem_cons.mp inside with rfl | later
          · exact free
          · obtain ⟨notL, notR⟩ := fresh other later
            exact ⟨fun used => notL (List.mem_cons_of_mem _ used),
              fun used => notR (List.mem_cons_of_mem _ used)⟩
        · rw [List.map_cons, List.nodup_cons]
          refine ⟨fun again => ?_, lefts⟩
          obtain ⟨other, later, same⟩ := List.mem_map.mp again
          exact (fresh other later).1 (same ▸ List.mem_cons_self)
        · rw [List.map_cons, List.nodup_cons]
          refine ⟨fun again => ?_, rights⟩
          obtain ⟨other, later, same⟩ := List.mem_map.mp again
          exact (fresh other later).2 (same ▸ List.mem_cons_self)

/-- No edge is left out with both its ends free. -/
theorem greedy_maximal (usedL : List α) (usedR : List β) {edges : List ε} {edge : ε}
    (member : edge ∈ edges) :
    (left edge ∈ usedL ∨ left edge ∈ (greedy left right usedL usedR edges).map left) ∨
      (right edge ∈ usedR ∨ right edge ∈ (greedy left right usedL usedR edges).map right) := by
  induction edges generalizing usedL usedR with
  | nil => cases member
  | cons first rest ih =>
      unfold greedy
      split
      next used =>
        rcases List.mem_cons.mp member with rfl | later
        · exact used.imp .inl .inl
        · exact ih usedL usedR later
      next =>
        rw [List.map_cons, List.map_cons]
        rcases List.mem_cons.mp member with rfl | later
        · exact .inl (.inr List.mem_cons_self)
        · rcases ih (left first :: usedL) (right first :: usedR) later with (used | taken) | used | taken
          · rcases List.mem_cons.mp used with same | before
            · exact .inl (.inr (same ▸ List.mem_cons_self))
            · exact .inl (.inl before)
          · exact .inl (.inr (List.mem_cons_of_mem _ taken))
          · rcases List.mem_cons.mp used with same | before
            · exact .inr (.inr (same ▸ List.mem_cons_self))
            · exact .inr (.inl before)
          · exact .inr (.inr (List.mem_cons_of_mem _ taken))

/-! ## More on the left -/

variable (left right) in
/-- The ends that are taken, after one more edge. -/
def take (used : List α × List β) (edge : ε) : List α × List β :=
  if left edge ∈ used.1 ∨ right edge ∈ used.2 then used
  else (left edge :: used.1, right edge :: used.2)

theorem mem_taken (used : List α × List β) (edges : List ε) {b : β} :
    b ∈ (edges.foldl (take left right) used).2 ↔
      b ∈ used.2 ∨ b ∈ (greedy left right used.1 used.2 edges).map right := by
  induction edges generalizing used with
  | nil => simp [greedy]
  | cons edge rest ih =>
      rw [List.foldl_cons, ih, take, greedy]
      split
      next => rfl
      next =>
        rw [List.map_cons, List.mem_cons, List.mem_cons]
        tauto

/-- A run over all edges, beside one over those of some vertices of the left: it has taken more on
    the right, and of those vertices fewer. -/
structure Ahead (old : α → Bool) (some_ all : List α × List β) : Prop where
  fewer : ∀ a ∈ all.1, old a = true → a ∈ some_.1
  more : ∀ b ∈ some_.2, b ∈ all.2

variable {old : α → Bool} {some_ all : List α × List β}

theorem Ahead.take (ahead : Ahead old some_ all) {edge : ε} (mine : old (left edge) = true) :
    Ahead old (take left right some_ edge) (take left right all edge) := by
  unfold Greedy.take
  split_ifs with was busy busy
  · exact ahead
  · have taken : left edge ∈ some_.1 := by
      rw [not_or] at busy
      exact was.resolve_right fun used => busy.2 (ahead.more _ used)
    constructor
    · intro a used own
      rcases List.mem_cons.mp used with rfl | before
      · exact taken
      · exact ahead.fewer a before own
    · exact fun b used => List.mem_cons_of_mem _ (ahead.more b used)
  · have there : right edge ∈ all.2 := by
      rw [not_or] at was
      exact busy.resolve_left fun used => was.1 (ahead.fewer _ used mine)
    constructor
    · exact fun a used own => List.mem_cons_of_mem _ (ahead.fewer a used own)
    · intro b used
      rcases List.mem_cons.mp used with rfl | before
      · exact there
      · exact ahead.more b before
  · constructor
    · intro a used own
      exact List.mem_cons.mpr ((List.mem_cons.mp used).imp_right fun before => ahead.fewer a before own)
    · intro b used
      exact List.mem_cons.mpr ((List.mem_cons.mp used).imp_right (ahead.more b))

theorem Ahead.take_other (ahead : Ahead old some_ all) {edge : ε} (other : old (left edge) ≠ true) :
    Ahead old some_ (Greedy.take left right all edge) := by
  unfold Greedy.take
  split
  next => exact ahead
  next =>
    constructor
    · intro a used own
      rcases List.mem_cons.mp used with rfl | before
      · exact absurd own other
      · exact ahead.fewer a before own
    · exact fun b used => List.mem_cons_of_mem _ (ahead.more b used)

theorem Ahead.run (ahead : Ahead old some_ all) (edges : List ε) :
    Ahead old ((edges.filter fun edge => old (left edge)).foldl (Greedy.take left right) some_)
      (edges.foldl (Greedy.take left right) all) := by
  induction edges generalizing some_ all with
  | nil => exact ahead
  | cons edge rest ih =>
      rw [List.filter_cons]
      split
      next mine => exact ih (ahead.take mine)
      next other => exact ih (ahead.take_other other)

/-- What some vertices of the left match on the right is matched when all are there. -/
theorem greedy_grows (old : α → Bool) (edges : List ε) {b : β}
    (matched : b ∈ (greedy left right [] [] (edges.filter fun edge => old (left edge))).map right) :
    b ∈ (greedy left right [] [] edges).map right := by
  have start : Ahead old (([], []) : List α × List β) ([], []) := ⟨by simp, by simp⟩
  have ended : Ahead old
      ((edges.filter fun edge => old (left edge)).foldl (take left right) ([], []))
      (edges.foldl (take left right) ([], [])) := start.run edges
  have taken := ended.more b ((mem_taken ([], []) _).mpr (.inr matched))
  exact ((mem_taken ([], []) _).mp taken).resolve_left List.not_mem_nil

/-! ## The order of the edges -/

/-- Where no two elements compare alike, a filter and a sort can change places. -/
theorem insertionSort_filter {κ : Type*} [LinearOrder κ] {key : ε → κ}
    (distinct : Function.Injective key) (p : ε → Bool) (edges : List ε) :
    (edges.insertionSort fun e e' => key e ≤ key e').filter p =
      (edges.filter p).insertionSort fun e e' => key e ≤ key e' := by
  have : Std.Total fun e e' : ε => key e ≤ key e' := ⟨fun e e' => le_total (key e) (key e')⟩
  have : IsTrans ε fun e e' => key e ≤ key e' := ⟨fun _ _ _ => le_trans⟩
  have : Std.Antisymm fun e e' : ε => key e ≤ key e' :=
    ⟨fun _ _ before after => distinct (le_antisymm before after)⟩
  have same := ((List.perm_insertionSort (fun e e' : ε => key e ≤ key e') edges).filter p).trans
    (List.perm_insertionSort (fun e e' : ε => key e ≤ key e') _).symm
  exact same.eq_of_pairwise' ((List.pairwise_insertionSort _ edges).filter p)
    (List.pairwise_insertionSort _ _)

end LocalHarness.Library.Greedy
