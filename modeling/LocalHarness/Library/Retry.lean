import Mathlib.Logic.Basic

/-! # Retrying

Attempts are made one after the other, each on the state that the one before it left, until one of
them gives a result.
-/

namespace LocalHarness.Library

variable {σ α ρ : Type} {attempt : σ → α → σ × Option ρ}

def retry (attempt : σ → α → σ × Option ρ) : σ → List α → σ × Option ρ
  | s, [] => (s, none)
  | s, a :: rest =>
      match attempt s a with
      | (next, none) => retry attempt next rest
      | (next, some result) => (next, some result)

/-- Attempts that give no result whatever they find give none together. -/
theorem retry_none {s : σ} {attempts : List α}
    (each : ∀ a ∈ attempts, ∀ s, (attempt s a).2 = none) : (retry attempt s attempts).2 = none := by
  induction attempts generalizing s with
  | nil => rfl
  | cons a rest ih =>
      obtain ⟨here, later⟩ := List.forall_mem_cons.mp each
      cases made : attempt s a with
      | mk next result =>
          have nothing : result = none := by rw [← here s, made]
          rw [retry, made, nothing]
          exact ih later

/-- What each attempt without a result keeps, knowing those before it, all of them keep. -/
theorem retry_kept {s last : σ} {attempts : List α} (kept : List α → σ → Prop) (start : kept [] s)
    (step : ∀ front a mid next, kept front mid → attempt mid a = (next, none) →
      kept (front ++ [a]) next)
    (ended : retry attempt s attempts = (last, none)) : kept attempts last := by
  suffices further : ∀ front s, kept front s → retry attempt s attempts = (last, none) →
      kept (front ++ attempts) last from further [] s start ended
  clear start ended
  induction attempts with
  | nil =>
      intro front s before ended
      obtain ⟨rfl, -⟩ := Prod.mk.inj ended
      rwa [List.append_nil]
  | cons a rest ih =>
      intro front s before ended
      cases made : attempt s a with
      | mk next result =>
          rw [retry, made] at ended
          cases result with
          | some result => cases ended
          | none =>
              have all := ih (front ++ [a]) next (step front a s next before made) ended
              rwa [List.append_assoc, List.singleton_append] at all

/-- A property holds of what comes of the attempts exactly when it holds of each result that is the
    first, and of the state in which no attempt is left. -/
theorem retry_iff (holds : σ × Option ρ → Prop) {s : σ} {attempts : List α} :
    holds (retry attempt s attempts) ↔
      (∀ front a back mid result, attempts = front ++ a :: back →
          retry attempt s front = (mid, none) → (attempt mid a).2 = some result →
          holds (attempt mid a)) ∧
        ∀ last, retry attempt s attempts = (last, none) → holds (last, none) := by
  induction attempts generalizing s with
  | nil => simp [retry]
  | cons a rest ih =>
      cases made : attempt s a with
      | mk next result =>
          rw [retry, made]
          cases result with
          | some result =>
              refine ⟨fun held => ⟨?_, fun last ended => by cases ended⟩, fun ⟨first, _⟩ => ?_⟩
              · intro front b back mid result' shape before given
                cases front with
                | nil =>
                    obtain ⟨rfl, -⟩ := List.cons.inj shape
                    obtain ⟨rfl, -⟩ := Prod.mk.inj before
                    rwa [made]
                | cons c front =>
                    obtain ⟨rfl, -⟩ := List.cons.inj shape
                    rw [retry, made] at before
                    cases before
              · have held := first [] a rest s result rfl rfl (by rw [made])
                rwa [made] at held
          | none =>
              refine ih.trans (and_congr_left fun _ => ⟨fun each => ?_, fun each => ?_⟩)
              · intro front b back mid result shape before given
                cases front with
                | nil =>
                    obtain ⟨rfl, -⟩ := List.cons.inj shape
                    obtain ⟨rfl, -⟩ := Prod.mk.inj before
                    rw [made] at given
                    cases given
                | cons c front =>
                    obtain ⟨rfl, rest_shape⟩ := List.cons.inj shape
                    rw [retry, made] at before
                    exact each front b back mid result rest_shape before given
              · intro front b back mid result shape before given
                refine each (a :: front) b back mid result (by rw [shape, List.cons_append]) ?_ given
                rw [retry, made]
                exact before

end LocalHarness.Library
