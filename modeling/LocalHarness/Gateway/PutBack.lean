import LocalHarness.Gateway.Switch

/-! # What a switch leaves on record

The file is written before it is known that the gateway serves it. What it records afterwards
depends on how the attempts end, and on whether there was a text to put back.
-/

namespace LocalHarness.Gateway.Switching

open LocalHarness.Library

variable {ν Text ε τ : Type} [DecidableEq ν]

/-- The aliases on record are those served before, and so the next call for the same ones tries
    again; once an attempt took they are those it asked for. -/
def Honest (y : Yaml Text ν ε) (call : Call Text ν ε τ) (w : World Text τ)
    (result : World Text τ × Ended ε τ) : Prop :=
  match result.2 with
  | .unchanged =>
      ∃ config, call.requested = .ok config ∧ y.recorded result.1.file = .ok (aliases config)
  | .took _ =>
      ∃ old front t back config, y.recorded w.file = .ok old ∧ call.attempts = front ++ t :: back ∧
        (∀ f ∈ front, ∃ config, f.Fails old config) ∧ t.Takes old config ∧
          y.recorded result.1.file = .ok (aliases config)
  | .failed | .raised _ =>
      y.recorded result.1.file = y.recorded w.file ∧
        ∀ later : Call Text ν ε τ, later.requested = call.requested →
          (switch y later result.1).2 ≠ .unchanged

/-- What stands when no attempt took, `last` being what they wrote last, has the old aliases. -/
def Call.PutsBack (y : Yaml Text ν ε) (call : Call Text ν ε τ) (before : Option Text)
    (old : Dict (Dict ν)) (last : Config ν) : Prop :=
  match before, call.restore with
  | some _, .done => True
  | some _, .torn left _ => y.recorded (some left) = .ok old
  | some _, .refused _ | none, _ => aliases last = old

/-- Nothing but the old aliases is written when a call ends without an attempt that took. -/
structure Restores (y : Yaml Text ν ε) (call : Call Text ν ε τ) (before : Option Text)
    (old : Dict (Dict ν)) : Prop where
  /-- Before an attempt that raises before its own write, the last one wrote them. -/
  early : ∀ front f t back config, call.attempts = front ++ f :: t :: back →
    (∀ g ∈ front, ∃ config, g.Fails old config) → f.Fails old config → t.RaisesEarly →
    aliases config = old
  torn : ∀ front t back left, call.attempts = front ++ t :: back →
    (∀ g ∈ front, ∃ config, g.Fails old config) → t.Tears left →
    y.recorded (some left) = .ok old
  late : ∀ front t back config, call.attempts = front ++ t :: back →
    (∀ g ∈ front, ∃ config, g.Fails old config) → t.RaisesLate old config → aliases config = old
  exhausted : ∀ front last config, call.attempts = front ++ [last] →
    (∀ g ∈ front, ∃ config, g.Fails old config) → last.Fails old config →
    call.PutsBack y before old config

section

variable {y : Yaml Text ν ε} {call : Call Text ν ε τ} {w : World Text τ}
variable {old : Dict (Dict ν)} {asked : Config ν}

omit [DecidableEq ν] in
@[simp] theorem Yaml.recorded_dump (config : Config ν) :
    y.recorded (some (y.dump config)) = .ok (aliases config) := by
  rw [Yaml.recorded, y.load_dump]
  rfl

omit [DecidableEq ν] in
theorem settle_ne_unchanged (result : World Text τ × Option (Except ε (List (Row τ)))) :
    (settle call w.file result).2 ≠ .unchanged := by
  obtain ⟨left, _ | raised | rows⟩ := result
  · rw [settle]
    unfold putBack
    split
    · nofun
    · dsimp only
      split <;> nofun
  · nofun
  · nofun

/-- Nothing is done only where what is requested is what is on record. -/
theorem switch_unchanged (done : (switch y call w).2 = .unchanged) :
    ∃ config, call.requested = .ok config ∧ y.recorded w.file = .ok (aliases config) := by
  rw [switch] at done
  cases served : y.recorded w.file with
  | error raised => simp [served] at done
  | ok old =>
      cases wanted : call.requested with
      | error raised => simp [served, wanted] at done
      | ok config =>
          simp only [served, wanted] at done
          split at done
          next same => exact ⟨config, rfl, by rw [same]⟩
          next => exact absurd done (settle_ne_unchanged _)

theorem switch_eq_settle (served : y.recorded w.file = .ok old) (wanted : call.requested = .ok asked)
    (moves : aliases asked ≠ old) :
    switch y call w =
      settle call w.file (retry (Try.turn y old call.requestedAt) w call.attempts) := by
  simp only [switch, served, wanted, if_neg moves]

/-- Of a call that ends without an attempt that took, only what it leaves counts. -/
theorem honest_iff_recorded (served : y.recorded w.file = .ok old)
    (wanted : call.requested = .ok asked) (moves : aliases asked ≠ old)
    {result : World Text τ × Ended ε τ} (ended : result.2 = .failed ∨ ∃ why, result.2 = .raised why) :
    Honest y call w result ↔ y.recorded result.1.file = .ok old := by
  have again : y.recorded result.1.file = .ok old → ∀ later : Call Text ν ε τ,
      later.requested = call.requested → (switch y later result.1).2 ≠ .unchanged := by
    intro stands later same done
    obtain ⟨config, requested, recorded⟩ := switch_unchanged done
    rw [same, wanted] at requested
    rw [stands, ← Except.ok.inj requested] at recorded
    exact moves (Except.ok.inj recorded).symm
  obtain ⟨left, _ | _⟩ := result <;> simp_all [Honest]

/-- After attempts that all failed, the file holds what the last of them wrote. -/
theorem retried {attempts : List (Try Text ν ε τ)} {mid : World Text τ}
    (ended : retry (Try.turn y old call.requestedAt) w attempts = (mid, none)) :
    (∀ g ∈ attempts, ∃ config, g.Fails old config) ∧ (attempts = [] → mid.file = w.file) ∧
      ∀ front last config, attempts = front ++ [last] → last.Fails old config →
        mid.file = some (y.dump config) := by
  refine retry_kept (fun (made : List (Try Text ν ε τ)) (left : World Text τ) =>
    (∀ g ∈ made, ∃ config, g.Fails old config) ∧ (made = [] → left.file = w.file) ∧
      ∀ front last config, made = front ++ [last] → last.Fails old config →
        left.file = some (y.dump config)) ?_ ?_ ended
  · refine ⟨List.forall_mem_nil _, fun _ => rfl, fun front last config shape => ?_⟩
    simp at shape
  · rintro front a before next ⟨failed, -, -⟩ turned
    have came := a.turned y old call.requestedAt before
    rw [turned] at came
    cases came with
    | failed fails =>
        refine ⟨?_, fun none_made => ?_, fun front' last config shape again => ?_⟩
        · intro g member
          rcases List.mem_append.mp member with earlier | here
          · exact failed g earlier
          · exact List.mem_singleton.mp here ▸ ⟨_, fails⟩
        · simp at none_made
        · obtain ⟨-, same⟩ := List.append_inj' shape rfl
          obtain rfl := List.singleton_inj.mp same
          rw [fails.1.unique again.1]

/-- Attempts that fail whatever the file holds all get their turn. -/
theorem retry_failed (call : Call Text ν ε τ) {attempts : List (Try Text ν ε τ)}
    (failed : ∀ g ∈ attempts, ∃ config, g.Fails old config) :
    ∃ mid, retry (Try.turn y old call.requestedAt) w attempts = (mid, none) := by
  refine ⟨_, Prod.ext rfl (retry_none fun g member before => ?_)⟩
  obtain ⟨config, fails⟩ := failed g member
  exact (g.turned y old call.requestedAt before).of_failed fails

theorem honest_putBack (served : y.recorded w.file = .ok old)
    (wanted : call.requested = .ok asked) (moves : aliases asked ≠ old) {left : World Text τ}
    {last : Config ν} (stands : left.file = some (y.dump last)) :
    Honest y call w (putBack call w.file left) ↔ call.PutsBack y w.file old last := by
  have ends : (putBack call w.file left).2 = .failed ∨
      ∃ why, (putBack call w.file left).2 = .raised why := by
    unfold putBack
    split
    · exact .inl rfl
    · dsimp only
      split
      · exact .inr ⟨_, rfl⟩
      · exact .inr ⟨_, rfl⟩
      · exact .inl rfl
  rw [honest_iff_recorded served wanted moves ends]
  have old_aliases : y.recorded left.file = .ok old ↔ aliases last = old := by
    rw [stands, Yaml.recorded_dump, Except.ok.injEq]
  cases before : w.file with
  | none => exact old_aliases
  | some text =>
      cases restored : call.restore with
      | done =>
          have back : (putBack call (some text) left).1.file = some text := by
            unfold putBack
            rw [restored]
            dsimp only [Write.apply]
            split <;> rfl
          rw [back, ← before, served]
          simp [Call.PutsBack, restored, before]
      | refused why => simpa [putBack, Call.PutsBack, restored, Write.apply] using old_aliases
      | torn text' why => simp [putBack, Call.PutsBack, restored, Write.apply]

/-- What raises in an attempt leaves the old aliases, when the call does nothing else. -/
theorem restores_of_honest (served : y.recorded w.file = .ok old)
    (wanted : call.requested = .ok asked) (moves : aliases asked ≠ old)
    (honest : Honest y call w (switch y call w)) : Restores y call w.file old := by
  rw [switch_eq_settle served wanted moves,
    retry_iff fun result => Honest y call w (settle call w.file result)] at honest
  obtain ⟨each, last⟩ := honest
  have raises : ∀ front t back mid left why, call.attempts = front ++ t :: back →
      retry (Try.turn y old call.requestedAt) w front = (mid, none) →
      t.turn y old call.requestedAt mid = (left, some (.error why)) →
      y.recorded left.file = .ok old := by
    intro front t back mid left why shape before raised
    have honest := each front t back mid (.error why) shape before (by rw [raised])
    rw [raised] at honest
    exact (honest_iff_recorded served wanted moves (.inr ⟨why, rfl⟩)).mp honest
  refine ⟨?_, ?_, ?_, ?_⟩
  · intro front f t back config shape failed fails early
    have all : ∀ g ∈ front ++ [f], ∃ config, g.Fails old config := by
      intro g member
      rcases List.mem_append.mp member with earlier | here
      · exact failed g earlier
      · exact List.mem_singleton.mp here ▸ ⟨config, fails⟩
    obtain ⟨mid, before⟩ := retry_failed (y := y) (w := w) call all
    have stands := (retried before).2.2 front f config rfl fails
    obtain ⟨why, raised⟩ := (t.turned y old call.requestedAt mid).of_early early
    have same := raises (front ++ [f]) t back mid mid why (by simpa using shape) before raised
    rw [stands, Yaml.recorded_dump] at same
    exact Except.ok.inj same
  · intro front t back left shape failed tears
    obtain ⟨mid, before⟩ := retry_failed (y := y) (w := w) call failed
    obtain ⟨why, raised⟩ := (t.turned y old call.requestedAt mid).of_torn tears
    exact raises front t back mid _ why shape before raised
  · intro front t back config shape failed late
    obtain ⟨mid, before⟩ := retry_failed (y := y) (w := w) call failed
    obtain ⟨why, raised⟩ := (t.turned y old call.requestedAt mid).of_late late
    have same := raises front t back mid _ why shape before raised
    rw [Yaml.recorded_dump] at same
    exact Except.ok.inj same
  · intro front f config shape failed fails
    have all : ∀ g ∈ call.attempts, ∃ config, g.Fails old config := by
      intro g member
      rw [shape] at member
      rcases List.mem_append.mp member with earlier | here
      · exact failed g earlier
      · exact List.mem_singleton.mp here ▸ ⟨config, fails⟩
    obtain ⟨mid, ended⟩ := retry_failed (y := y) (w := w) call all
    have stands := (retried ended).2.2 front f config shape fails
    exact (honest_putBack served wanted moves stands).mp (last mid ended)

theorem honest_of_restores (served : y.recorded w.file = .ok old)
    (wanted : call.requested = .ok asked) (moves : aliases asked ≠ old)
    (restores : Restores y call w.file old) : Honest y call w (switch y call w) := by
  rw [switch_eq_settle served wanted moves,
    retry_iff fun result => Honest y call w (settle call w.file result)]
  refine ⟨fun front t back mid result shape before given => ?_, fun left ended => ?_⟩
  · obtain ⟨failed, untouched, stands⟩ := retried before
    have came := t.turned y old call.requestedAt mid
    generalize t.turn y old call.requestedAt mid = turn at came given ⊢
    cases came with
    | early early =>
        refine (honest_iff_recorded served wanted moves (.inr ⟨_, rfl⟩)).mpr ?_
        rcases List.eq_nil_or_concat front with rfl | ⟨front, f, rfl⟩
        · rw [settle, untouched rfl, served]
        · obtain ⟨config, fails⟩ := failed f (by simp)
          have same := restores.early front f t back config (by simpa using shape)
            (fun g member => failed g (by simp [member])) fails early
          rw [settle, stands front f config (by simp) fails, Yaml.recorded_dump, same]
    | torn tears =>
        refine (honest_iff_recorded served wanted moves (.inr ⟨_, rfl⟩)).mpr ?_
        exact restores.torn front t back _ shape failed tears
    | late late =>
        refine (honest_iff_recorded served wanted moves (.inr ⟨_, rfl⟩)).mpr ?_
        rw [settle, Yaml.recorded_dump, restores.late front t back _ shape failed late]
    | took takes => exact ⟨old, front, t, back, _, served, shape, failed, takes, Yaml.recorded_dump _⟩
    | failed => cases given
  · obtain ⟨failed, -, stands⟩ := retried ended
    rcases List.eq_nil_or_concat call.attempts with none_made | ⟨front, f, shape⟩
    · simp [Call.attempts, RETRIES] at none_made
    · rw [List.concat_eq_append] at shape
      rw [shape] at failed
      obtain ⟨config, fails⟩ := failed f (by simp)
      have kept := restores.exhausted front f config shape
        (fun g member => failed g (by simp [member])) fails
      exact (honest_putBack served wanted moves (stands front f config shape fails)).mpr kept

end

/-- The record stays true to what the gateway serves exactly when every call that ends without an
    attempt that took has written nothing but the old aliases, or puts them back. -/
theorem switch_honest_iff (y : Yaml Text ν ε) (call : Call Text ν ε τ) (w : World Text τ) :
    Honest y call w (switch y call w) ↔
      ∀ old asked, y.recorded w.file = .ok old → call.requested = .ok asked → aliases asked ≠ old →
        Restores y call w.file old := by
  constructor
  · intro honest old asked served wanted moves
    exact restores_of_honest served wanted moves honest
  · intro restores
    cases served : y.recorded w.file with
    | error raised =>
        have stays : switch y call w = (w, .raised raised) := by simp only [switch, served]
        rw [stays]
        refine ⟨rfl, fun later same done => ?_⟩
        obtain ⟨config, -, recorded⟩ := switch_unchanged done
        rw [served] at recorded
        cases recorded
    | ok old =>
        cases wanted : call.requested with
        | error raised =>
            have stays : switch y call w = (w, .raised raised) := by
              simp only [switch, served, wanted]
            rw [stays]
            refine ⟨rfl, fun later same done => ?_⟩
            obtain ⟨config, requested, -⟩ := switch_unchanged done
            rw [same, wanted] at requested
            cases requested
        | ok asked =>
            by_cases moves : aliases asked = old
            · simp only [switch, served, wanted, Honest, if_pos moves]
              exact ⟨asked, rfl, by rw [moves]⟩
            · exact honest_of_restores served wanted moves (restores old asked served wanted moves)

/-! ## The first switch of a machine -/

/-- Texts that are their configuration. -/
def plainYaml : Yaml (Config String) String String where
  load := .ok
  dump := id
  load_dump _ := rfl
  str := id

def coder (model : String) : Config String :=
  [⟨some "sohot-code", some (.ofItems [("model", model)])⟩]

/-- An attempt whose gateway does not come up again. -/
def unrestarted : Try (Config String) String String Nat where
  waits := .ok ⟨"idle", some 0⟩
  defaults := .ok (.ofItems [("code", "qwen")])
  served _ := .ok (coder "openai/qwen")
  write := .done
  reads := true
  restart := .refused
  serving _ := .ok "the gateway did not answer /model/info"
  records := .ok ()
  restartedAt := 60
  failedAt := 61

def firstSwitch : Call (Config String) String String Nat where
  requestedAt := 0
  requested := .ok (coder "openai/qwen")
  tries _ := unrestarted
  restore := .done
  restoreRestart := .refused

def fresh : World (Config String) Nat :=
  ⟨none, []⟩

/-- No gateway was ever up with the new alias, and yet the next switch finds nothing to do. -/
theorem first_switch_forgotten :
    ¬ Honest plainYaml firstSwitch fresh (switch plainYaml firstSwitch fresh) := by
  intro honest
  have ended : (switch plainYaml firstSwitch fresh).2 = .failed := by decide
  rw [Honest, ended] at honest
  have forgotten : (switch plainYaml firstSwitch (switch plainYaml firstSwitch fresh).1).2 =
      .unchanged := by decide
  exact honest.2 firstSwitch rfl forgotten

end LocalHarness.Gateway.Switching
