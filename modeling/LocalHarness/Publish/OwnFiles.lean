import LocalHarness.Publish.Hub

/-! # A file to each machine

A request touches no file but that of the machine that makes it, so what a machine has published
stays while no other machine has a file of the same name. Two machines whose hardware is labelled
alike have one file between them.
-/

namespace LocalHarness.Publish

open LocalHarness.Library LocalHarness.Runs

variable {M : Type} [DecidableEq M] {sha : String → String} {hardware : M → Hardware}

/-- Wherever machines have got to, a machine whose last call returned has that call's export on the
    branch, and no request takes away a file that another machine's request put there. -/
structure Published (sha : String → String) (hardware : M → Hardware) : Prop where
  own : ∀ w, (system sha hardware).Reachable w → ∀ m call, w.phase m = .returned call →
    (w.file (pathOf (hardware m))).map Blob.text = some call.text
  others : ∀ w e w', (system sha hardware).Reachable w → (system sha hardware).step w e = some w' →
    ∀ path blob, w.file path = some blob → blob.author ≠ e.machine → w'.file path = some blob

/-- What a machine's step leaves of the world. -/
structure Touched (w w' : World M) (m : M) (path : String) : Prop where
  others : ∀ m', m' ≠ m → w'.phase m' = w.phase m'
  elsewhere : ∀ p, p ≠ path → w'.file p = w.file p
  own : w'.file path = w.file path ∨ ∃ text, w'.file path = some ⟨text, m⟩
  held : ∀ call, w'.phase m = .page call ∨ w'.phase m = .returned call →
    w'.file path = some ⟨call.text, m⟩ ∨ w'.file path = w.file path ∧ w.phase m = .page call

namespace World

@[simp] theorem file_at (w : World M) (m : M) (phase : Phase) (path : String) :
    (w.at_ m phase).file path = w.file path := rfl

@[simp] theorem phase_at (w : World M) (m : M) (phase : Phase) : (w.at_ m phase).phase m = phase :=
  Function.update_self ..

theorem phase_at_ne (w : World M) {m m' : M} (apart : m' ≠ m) (phase : Phase) :
    (w.at_ m phase).phase m' = w.phase m' :=
  Function.update_of_ne apart ..

/-- A step that asks for something and changes no file. -/
theorem touched_at (w : World M) (m : M) (path : String) {phase : Phase}
    (asks : ∀ call, phase = .page call ∨ phase = .returned call → w.phase m = .page call) :
    Touched w (w.at_ m phase) m path where
  others := fun _ apart => w.phase_at_ne apart phase
  elsewhere := fun _ _ => rfl
  own := .inl rfl
  held := fun call ended => .inr ⟨rfl, asks call (by rwa [phase_at] at ended)⟩

theorem touched_again (w : World M) (m : M) (path : String) (call : Call) (attempt : Nat) :
    Touched w (w.again m call attempt) m path := by
  unfold again
  split
  · exact w.touched_at m path nofun
  · exact w.touched_at m path nofun

theorem touched_wrote (w : World M) (m : M) (path : String) (call : Call)
    {files : String → Option (Blob M)} (same : ∀ p, w.file p = files p) :
    Touched w (w.wrote m call files path) m path where
  others := fun _ apart => Function.update_of_ne apart ..
  elsewhere := fun p apart => by
    rw [same]
    exact Function.update_of_ne apart ..
  own := .inr ⟨call.text, Function.update_self ..⟩
  held := by
    intro other ended
    have phase : (w.wrote m call files path).phase m =
        if call.dispatch then .page call else .returned call := Function.update_self ..
    rw [phase] at ended
    have same : other = call := by
      split at ended
      · obtain ended | ended := ended
        · exact (Phase.page.inj ended).symm
        · cases ended
      · obtain ended | ended := ended
        · cases ended
        · exact (Phase.returned.inj ended).symm
    exact .inl (same ▸ Function.update_self ..)

end World

theorem serve_touched {w w' : World M} {m : M} (served : serve sha hardware w m = some w') :
    Touched w w' m (pathOf (hardware m)) := by
  unfold serve at served
  extract_lets path at served
  cases here : w.phase m with
  | idle | returned | raised =>
      rw [here] at served
      cases served
  | branch call =>
      rw [here] at served
      obtain rfl := Option.some.inj served
      split
      · exact w.touched_at m path nofun
      · exact w.touched_at m path nofun
  | blob call | tree call | commit call | contents call attempt =>
      rw [here] at served
      obtain rfl := Option.some.inj served
      exact w.touched_at m path nofun
  | ref call =>
      rw [here] at served
      obtain rfl := Option.some.inj served
      split
      next => exact w.touched_at m path nofun
      next absent =>
        have none : w.branch = none := by simpa using absent
        exact w.touched_wrote m path call fun p => by rw [World.file, none, Option.bind_none]
  | put call attempt known =>
      rw [here] at served
      obtain rfl := Option.some.inj served
      split
      next => exact w.touched_at m path nofun
      next files there =>
        have same : ∀ p, w.file p = files p := fun p => by rw [World.file, there, Option.bind_some]
        split
        next => exact w.touched_wrote m path call same
        next => exact w.touched_again m path call attempt
        next => exact w.touched_at m path nofun
        next =>
          split
          · exact w.touched_wrote m path call same
          · exact w.touched_again m path call attempt
  | page call =>
      rw [here] at served
      obtain rfl := Option.some.inj served
      refine w.touched_at m path fun other ended => ?_
      rcases ended with ended | ended
      · cases ended
      · cases ended
        exact here

theorem step_touched {w w' : World M} {e : Event M} (stepped : step sha hardware w e = some w') :
    Touched w w' e.machine (pathOf (hardware e.machine)) := by
  cases e with
  | begin_ m call =>
      obtain ⟨-, began⟩ := Option.ite_none_right_eq_some.mp stepped
      obtain rfl := Option.some.inj began
      exact w.touched_at m _ nofun
  | served m => exact serve_touched stepped
  | moved m =>
      rw [step] at stepped
      split at stepped
      next call attempt _ _ =>
        obtain rfl := Option.some.inj stepped
        exact w.touched_again m _ call attempt
      next => cases stepped
  | failed m =>
      obtain ⟨-, fell⟩ := Option.ite_none_left_eq_some.mp stepped
      obtain rfl := Option.some.inj fell
      exact w.touched_at m _ nofun
  | lost m =>
      obtain ⟨asked, served, rfl⟩ := Option.map_eq_some_iff.mp stepped
      have touched := serve_touched served
      refine ⟨fun m' apart => ?_, touched.elsewhere, touched.own, fun call ended => ?_⟩
      · exact (asked.phase_at_ne apart .raised).trans (touched.others m' apart)
      · have gone : (asked.at_ m .raised).phase m = .raised := asked.phase_at m .raised
        rcases ended with ended | ended <;> exact nomatch gone.symm.trans ended

/-! ## What every state keeps -/

structure Sound (hardware : M → Hardware) (w : World M) : Prop where
  named : ∀ path blob, w.file path = some blob → path = pathOf (hardware blob.author)
  held : ∀ m call, w.phase m = .page call ∨ w.phase m = .returned call →
    w.file (pathOf (hardware m)) = some ⟨call.text, m⟩

theorem Sound.step {w w' : World M} {e : Event M} (sound : Sound hardware w)
    (apart : ∀ m m', pathOf (hardware m) = pathOf (hardware m') → m = m')
    (stepped : Publish.step sha hardware w e = some w') : Sound hardware w' := by
  have touched := step_touched stepped
  constructor
  · intro path blob there
    by_cases here : path = pathOf (hardware e.machine)
    · subst here
      rcases touched.own with same | ⟨text, wrote⟩
      · exact sound.named _ blob (same ▸ there)
      · rw [wrote] at there
        cases there
        rfl
    · exact sound.named path blob (touched.elsewhere path here ▸ there)
  · intro m call ended
    by_cases own : m = e.machine
    · subst own
      rcases touched.held call ended with wrote | ⟨same, before⟩
      · exact wrote
      · rw [same]
        exact sound.held _ call (.inl before)
    · rw [touched.others m own] at ended
      rw [touched.elsewhere _ fun same => own (apart _ _ same)]
      exact sound.held m call ended

theorem sound_invariant (apart : ∀ m m', pathOf (hardware m) = pathOf (hardware m') → m = m') :
    (system sha hardware).InvariantWhen (fun _ _ => True) (Sound hardware) where
  start := by
    rintro w ⟨absent, idle⟩
    have empty : ∀ path, w.file path = none := fun path => by rw [World.file, absent, Option.bind_none]
    refine ⟨fun path blob there => ?_, fun m call ended => ?_⟩
    · rw [empty] at there
      cases there
    · rw [idle] at ended
      rcases ended with ended | ended <;> cases ended
  step := fun _ _ _ sound _ stepped => sound.step apart stepped

/-! ## Two machines of one label -/

variable (sha hardware)

/-- A machine's call with no branch yet: it makes one of its file alone. -/
theorem run_first (w : World M) (m : M) (call : Call) (quiet : call.dispatch = false)
    (absent : w.branch = none) (free : (w.phase m).free) :
    ∃ w', (system sha hardware).run w (.begin_ m call :: List.replicate 5 (.served m)) = some w' ∧
      w'.phase = Function.update w.phase m (.returned call) ∧
      w'.branch = some (Function.update (fun _ => none) (pathOf (hardware m)) (some ⟨call.text, m⟩)) := by
  simp [system, step, serve, World.at_, World.wrote, absent, free, quiet]

/-- A machine's call once there is a branch: it replaces what is there. -/
theorem run_later (w : World M) (m : M) (call : Call) (quiet : call.dispatch = false)
    {files : String → Option (Blob M)} (there : w.branch = some files) (free : (w.phase m).free) :
    ∃ w', (system sha hardware).run w (.begin_ m call :: List.replicate 3 (.served m)) = some w' ∧
      w'.phase = Function.update w.phase m (.returned call) ∧
      w'.branch = some (Function.update files (pathOf (hardware m)) (some ⟨call.text, m⟩)) := by
  cases held : files (pathOf (hardware m)) with
  | none => simp [system, step, serve, World.at_, World.wrote, World.file, there, free, quiet, held]
  | some blob =>
    simp [system, step, serve, World.at_, World.wrote, World.file, there, free, quiet, held]

/-- One machine publishes, and another of its label after it. -/
theorem overwritten {m m' : M} (apart : m ≠ m')
    (same : pathOf (hardware m) = pathOf (hardware m')) :
    ∃ w, (system sha hardware).Reachable w ∧ w.phase m = .returned ⟨"a", false⟩ ∧
      (w.file (pathOf (hardware m))).map Blob.text = some "b" := by
  let fresh : World M := ⟨none, fun _ => .idle⟩
  have start : (system sha hardware).Reachable fresh := .start ⟨rfl, fun _ => rfl⟩
  obtain ⟨w, ran, phase, branch⟩ :=
    run_first sha hardware fresh m ⟨"a", false⟩ rfl rfl rfl
  have free : (w.phase m').free := by rw [phase, Function.update_of_ne apart.symm]; rfl
  obtain ⟨w', later, phase', branch'⟩ :=
    run_later sha hardware w m' ⟨"b", false⟩ rfl branch free
  refine ⟨w', (start.run (System.meets_true ..) ran).run (System.meets_true ..) later, ?_, ?_⟩
  · rw [phase', Function.update_of_ne apart, phase, Function.update_self]
  · rw [World.file, branch', Option.bind_some, same, Function.update_self, Option.map_some]

theorem pathOf_inj {h h' : Hardware} :
    pathOf h = pathOf h' ↔ slug (machineLabel h) = slug (machineLabel h') := by
  rw [pathOf, pathOf, String.append_left_inj, String.append_right_inj]

/-- Every machine keeps what it published exactly where no two machines have one slug. -/
theorem published_iff (sha : String → String) (hardware : M → Hardware) :
    Published sha hardware ↔ ∀ m m',
      slug (machineLabel (hardware m)) = slug (machineLabel (hardware m')) → m = m' := by
  constructor
  · intro published m m' same
    by_contra apart
    obtain ⟨w, reached, returned, stored⟩ := overwritten sha hardware apart (pathOf_inj.mpr same)
    have own := published.own w reached m _ returned
    rw [stored] at own
    exact absurd (Option.some.inj own) (by decide)
  · intro slugs
    have apart : ∀ m m', pathOf (hardware m) = pathOf (hardware m') → m = m' :=
      fun m m' same => slugs m m' (pathOf_inj.mp same)
    have sound : ∀ w, (system sha hardware).Reachable w → Sound hardware w :=
      fun w reached => (sound_invariant apart).holds reached
    constructor
    · intro w reached m call returned
      rw [(sound w reached).held m call (.inr returned)]
      rfl
    · intro w e w' reached stepped path blob there foreign
      have touched := step_touched stepped
      have other : path ≠ pathOf (hardware e.machine) := fun same =>
        foreign (apart _ _ (((sound w reached).named path blob there).symm.trans same))
      rw [touched.elsewhere path other, there]

/-- Two desktops with one kind of card. -/
def desktop : Bool → Hardware :=
  fun _ => ⟨"", "Linux-6.8.0", "x86_64", 64, "discrete", "NVIDIA GeForce RTX 4070"⟩

theorem desktops_overwritten : machineLabel (desktop true) = "RTX 4070 (Linux)" ∧
    (∃ w, (system id desktop).Reachable w ∧ w.phase false = .returned ⟨"a", false⟩ ∧
      (w.file (pathOf (desktop false))).map Blob.text = some "b") ∧
    ¬ Published id desktop := by
  have lost := overwritten id desktop Bool.false_ne_true rfl
  refine ⟨by decide, lost, fun published => ?_⟩
  obtain ⟨w, reached, returned, stored⟩ := lost
  have own := published.own w reached false _ returned
  rw [stored] at own
  exact absurd (Option.some.inj own) (by decide)

end LocalHarness.Publish
