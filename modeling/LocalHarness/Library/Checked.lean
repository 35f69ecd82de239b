import Mathlib.Logic.Basic

/-! # Steps over a state that may be refused

A refused step keeps the state it had reached. `From` is what such a computation does from a
state: what holds of every state it ends in, refused or not, and what its result gives.
-/

namespace LocalHarness.Library

abbrev Checked (ε σ α : Type) := ExceptT ε (StateM σ) α

variable {ε σ α β : Type}

structure From (s : σ) (m : Checked ε σ α) (holds : σ → Prop) (gives : α → σ → Prop) : Prop where
  state : holds (m s).2
  result : ∀ a, (m s).1 = .ok a → gives a (m s).2

theorem From.pure {s : σ} {a : α} {holds : σ → Prop} {gives : α → σ → Prop} (state : holds s)
    (result : gives a s) : From s (Pure.pure a : Checked ε σ α) holds gives :=
  ⟨state, fun b same => by cases same; exact result⟩

theorem From.throw {s : σ} {why : ε} {holds : σ → Prop} {gives : α → σ → Prop} (state : holds s) :
    From s (MonadExcept.throw why : Checked ε σ α) holds gives :=
  ⟨state, fun b same => by cases same⟩

theorem From.bind {s : σ} {m : Checked ε σ α} {f : α → Checked ε σ β} {holds : σ → Prop}
    {mid : α → σ → Prop} {gives : β → σ → Prop} (first : From s m holds mid)
    (next : ∀ a s', holds s' → mid a s' → From s' (f a) holds gives) :
    From s (m >>= f) holds gives := by
  have run : (m >>= f) s = ExceptT.bindCont f (m s).1 (m s).2 := rfl
  have state := first.state
  have result := first.result
  rcases shape : m s with ⟨why | a, s'⟩
  · rw [shape] at state run
    exact ⟨run ▸ state, fun b same => by rw [run] at same; cases same⟩
  · rw [shape] at state result run
    have later := next a s' state (result a rfl)
    exact ⟨run ▸ later.state, fun b same => by rw [run] at same ⊢; exact later.result b same⟩

theorem From.mono {s : σ} {m : Checked ε σ α} {holds holds' : σ → Prop} {gives gives' : α → σ → Prop}
    (first : From s m holds gives) (states : ∀ s, holds s → holds' s)
    (results : ∀ a s, gives a s → gives' a s) : From s m holds' gives' :=
  ⟨states _ first.state, fun a same => results a _ (first.result a same)⟩

theorem From.map {s : σ} {m : Checked ε σ α} {f : α → β} {holds : σ → Prop} {gives : α → σ → Prop}
    (first : From s m holds gives) : From s (f <$> m) holds fun _ _ => True := by
  rw [map_eq_pure_bind]
  exact first.bind fun a s' state _ => .pure state trivial

/-- What each step of a walk keeps, the walk keeps. -/
theorem From.mapM {s : σ} {f : α → Checked ε σ β} {l : List α} {holds : σ → Prop} (state : holds s)
    (each : ∀ a ∈ l, ∀ s, holds s → From s (f a) holds fun _ _ => True) :
    From s (l.mapM f) holds fun _ _ => True := by
  induction l generalizing s with
  | nil => exact .pure state trivial
  | cons a rest ih =>
      obtain ⟨here, later⟩ := List.forall_mem_cons.mp each
      rw [List.mapM_cons]
      apply From.bind (here s state)
      intro b s' state _
      apply From.bind (ih state later)
      intro bs s'' state _
      exact .pure state trivial

/-! ## Step by step -/

theorem run_bind_ok {s s' : σ} {m : Checked ε σ α} {f : α → Checked ε σ β} {a : α}
    (run : m s = (.ok a, s')) : (m >>= f) s = f a s' := by
  have bound : (m >>= f) s = ExceptT.bindCont f (m s).1 (m s).2 := rfl
  rw [bound, run]
  rfl

theorem run_bind_error {s s' : σ} {m : Checked ε σ α} {f : α → Checked ε σ β} {why : ε}
    (run : m s = (.error why, s')) : (m >>= f) s = (.error why, s') := by
  have bound : (m >>= f) s = ExceptT.bindCont f (m s).1 (m s).2 := rfl
  rw [bound, run]
  rfl

/-- Two computations that do the same, each from its state, do the same whatever comes next. -/
theorem run_bind_congr {s s' : σ} {m m' : Checked ε σ α} {f : α → Checked ε σ β} (same : m s = m' s') :
    (m >>= f) s = (m' >>= f) s' := by
  have bound : (m >>= f) s = ExceptT.bindCont f (m s).1 (m s).2 := rfl
  rw [bound, same]
  rfl

/-- From a state, a refusal is one that is foreseen, and the state is then as it may be. -/
def Safe (fine : ε → σ → Prop) (s : σ) (m : Checked ε σ α) : Prop :=
  ∀ why, (m s).1 = .error why → fine why (m s).2

variable {fine : ε → σ → Prop} {s s' : σ} {m : Checked ε σ α} {f : α → Checked ε σ β} {a : α} {why : ε}

theorem safe_ok (run : m s = (.ok a, s')) : Safe fine s m := by
  intro why refused
  rw [run] at refused
  cases refused

theorem safe_error (run : m s = (.error why, s')) : Safe fine s m ↔ fine why s' := by
  rw [Safe, run]
  exact ⟨fun all => all why rfl, fun good other same => by cases same; exact good⟩

theorem safe_bind_ok (run : m s = (.ok a, s')) : Safe fine s (m >>= f) ↔ Safe fine s' (f a) := by
  rw [Safe, Safe, run_bind_ok run]

theorem safe_bind_error (run : m s = (.error why, s')) : Safe fine s (m >>= f) ↔ fine why s' :=
  safe_error (run_bind_error run)

end LocalHarness.Library
