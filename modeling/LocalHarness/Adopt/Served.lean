import LocalHarness.Adopt.Resolve

/-! # What a lane serves right after an adoption

A store reached by verdicts and adoptions of one machine, under a clock that never goes
back. An adoption that gets a row of its own is the lane's newest and is served; one that
only restates a verdict that already carries a row writes nothing, and leaves the lane to
whatever was adopted since.
-/

namespace LocalHarness.Adopt

open LocalHarness.Library LocalHarness.Runs
open LocalHarness.MemoryStore (Store Proposal Decision)

inductive Action
  | propose (name : String)
  | decide (d : Decision)
  | ensure (keyOf : String → String) (label proposal lane key : String)
  | record (env : Env) (v : Verdict) (spec : String) (runId : Option Nat)
  | wait (elapsed : ℚ≥0)

/-- A proposal is recorded once; a name that is there stays as it is. -/
def propose (s : Store) (name : String) : Store :=
  if (s.named name).isSome then s
  else
    { s with
      proposals := s.proposals.insert s.proposals.nextId
        { name, state := none, stateVerdictId := none, retestCount := 0, nextRetestAt := none
          sizeBytes := 0 } s.proposals.above_nextId }

def act (s : State) : Action → State
  | .propose name => { s with store := propose s.store name }
  | .decide d =>
      { s with
        store := (MemoryStore.decide s.store { d with now := s.clock, machineId := s.machine }).2 }
  | .ensure keyOf label proposal lane key =>
      { s with
        candidates := (Candidates.ensure keyOf s.store s.candidates label proposal lane key).2 }
  | .record env v spec runId => (record env s v spec runId).2
  | .wait elapsed => { s with clock := s.clock + elapsed }

/-- One machine's runs, from any proposals and candidates but no verdict and no adoption. -/
def adopting : System State Action where
  start := fun s => s.store.verdicts = ∅ ∧ s.adoptions = ∅
  step := fun s a => some (act s a)

/-- What the rows of adoptions and of verdicts may be relied on for. -/
structure Sound (s : State) : Prop where
  candidate : ∀ row ∈ s.adoptions.rows, ∃ c, s.candidates.find? row.2.candidateId = some c
  verdict : ∀ row ∈ s.adoptions.rows, row.2.verdictId ∈ s.store.verdicts.ids
  here : ∀ vid v, s.store.verdicts.find? vid = some v → v.machineId = s.machine
  past : ∀ row ∈ s.adoptions.rows, row.2.adoptedAt ≤ s.clock

/-- What a call does that writes no adoptions row. -/
structure Grown (s s' : State) : Prop where
  machine : s'.machine = s.machine
  clock : s.clock ≤ s'.clock
  adoptions : s'.adoptions = s.adoptions
  candidates : Candidates.Kept s.candidates s'.candidates
  verdicts : s'.store.verdicts = s.store.verdicts ∨
    ∃ row, row.machineId = s.machine ∧ s'.store.verdicts =
      s.store.verdicts.insert s.store.verdicts.nextId row s.store.verdicts.above_nextId

theorem Grown.refl (s : State) : Grown s s :=
  ⟨rfl, le_rfl, rfl, Candidates.Kept.refl _, .inl rfl⟩

theorem Grown.of_kept {s : State} {candidates : Table Candidate}
    (kept : Candidates.Kept s.candidates candidates) : Grown s { s with candidates } :=
  ⟨rfl, le_rfl, rfl, kept, .inl rfl⟩

theorem Sound.grow {s s' : State} (sound : Sound s) (grown : Grown s s') : Sound s' where
  candidate := by
    rw [grown.adoptions]
    intro row member
    obtain ⟨c, found⟩ := sound.candidate row member
    obtain ⟨c', found', _⟩ := grown.candidates _ c found
    exact ⟨c', found'⟩
  verdict := by
    rw [grown.adoptions]
    intro row member
    have present := sound.verdict row member
    rcases grown.verdicts with same | ⟨added, _, same⟩
    · exact same ▸ present
    · rw [same, Table.mem_ids_insert]
      exact .inl present
  here := by
    intro vid v found
    rw [grown.machine]
    rcases grown.verdicts with same | ⟨added, own, same⟩
    · exact sound.here vid v (same ▸ found)
    · rw [same, Table.find?_insert] at found
      split at found
      next => exact Option.some.inj found ▸ own
      next => exact sound.here vid v found
  past := by
    rw [grown.adoptions]
    intro row member
    exact (sound.past row member).trans grown.clock

/-- What `prepare` hands on when nothing stops it. -/
structure Prepared (env : Env) (s : State) (v : Verdict) (spec : String) (guarded_ : Verdict)
    (cid : Nat) (d : Decision) (s' : State) : Prop where
  verdict : guarded_ = guarded env v spec
  machine : d.machineId = s.machine
  ensured : ∃ candidates, s' = { s with candidates } ∧ Candidates.Kept s.candidates candidates ∧
    ∃ row, candidates.find? cid = some row ∧ row.spec = Text.strip (specOf guarded_ spec)
  fits : guarded_.adopt = true → guarded_.how = BY_HAND → (fit env cid).1 = true

theorem prepare_prepared {env : Env} {s s' : State} {v guarded_ : Verdict} {spec : String}
    {runId : Option Nat} {cid : Nat} {d : Decision}
    (ran : prepare env s v spec runId = (.ok (guarded_, cid, d), s')) :
    Prepared env s v spec guarded_ cid d s' := by
  unfold prepare at ran
  split at ran
  next => cases ran
  dsimp only at ran
  split at ran
  next => cases ran
  next cid' ensured =>
    split at ran
    next => cases ran
    next fits =>
      split at ran
      next => cases ran
      next row got =>
        simp only [Prod.mk.injEq, Except.ok.injEq] at ran
        obtain ⟨⟨rfl, rfl, rfl⟩, rfl⟩ := ran
        refine ⟨rfl, rfl, ⟨_, rfl, Candidates.kept_ensure _ _ _ _ _ _ _,
          Candidates.ensure_names ensured⟩, ?_⟩
        intro adopts byHand
        by_contra unfit
        exact fits ⟨adopts, byHand, by simpa using unfit⟩

theorem prepare_grown (env : Env) (s : State) (v : Verdict) (spec : String)
    (runId : Option Nat) : Grown s (prepare env s v spec runId).2 := by
  unfold prepare
  split
  next => exact Grown.refl s
  next =>
    have ensured := Grown.of_kept (Candidates.kept_ensure env.keyOf s.store s.candidates
      (specOf (guarded env v spec) spec) (specOf (guarded env v spec) spec)
      (guarded env v spec).lane "")
    dsimp only
    split
    next => exact ensured
    next =>
      split
      next => exact ensured
      next => split <;> exact ensured

theorem decide_grown (s : State) (d : Decision) (own : d.machineId = s.machine) :
    Grown s { s with store := (MemoryStore.decide s.store d).2 } where
  machine := rfl
  clock := le_rfl
  adoptions := rfl
  candidates := Candidates.Kept.refl _
  verdicts := own ▸ MemoryStore.decide_verdicts s.store d

theorem kept_incumbentId (env : Env) (s : State) (lane name : String) :
    Candidates.Kept s.candidates (incumbentId env s lane name).2 := by
  unfold incumbentId
  split
  next => exact Candidates.Kept.refl _
  next =>
    split
    next => exact Candidates.Kept.refl _
    next =>
      split
      next => exact Candidates.Kept.refl _
      next => exact Candidates.kept_ensure _ _ _ _ _ _ _

/-- An insert that is not ignored is of a verdict that has no row yet. -/
theorem Sound.adopt {s : State} (sound : Sound s) {row : Adoption}
    (candidate : ∃ c, s.candidates.find? row.candidateId = some c)
    (verdict : row.verdictId ∈ s.store.verdicts.ids) (past : row.adoptedAt ≤ s.clock) :
    Sound { s with adoptions := insertAdoption s.adoptions row } := by
  unfold insertAdoption
  split
  next => exact sound
  next =>
    have members : ∀ other ∈ (s.adoptions.insert s.adoptions.nextId row
        s.adoptions.above_nextId).rows, other ∈ s.adoptions.rows ∨ other.2 = row := by
      intro other member
      rw [Table.rows_insert, List.mem_append, List.mem_singleton] at member
      exact member.imp_right (congrArg Prod.snd)
    constructor
    · intro other member
      rcases members other member with old | rfl
      · exact sound.candidate other old
      · exact candidate
    · intro other member
      rcases members other member with old | rfl
      · exact sound.verdict other old
      · exact verdict
    · exact sound.here
    · intro other member
      rcases members other member with old | rfl
      · exact sound.past other old
      · exact past

/-- What `record` came to when it adopted. -/
structure Adopting (env : Env) (s : State) (v : Verdict) (spec : String) (runId : Option Nat)
    (vid : Nat) (s' : State) : Prop where
  found : ∃ guarded_ cid d s₁ store inc candidates c,
    prepare env s v spec runId = (.ok (guarded_, cid, d), s₁) ∧
      MemoryStore.decide s.store d = (.ok vid, store) ∧
        Candidates.Kept s.candidates candidates ∧ candidates.find? cid = some c ∧
          c.spec = Text.strip (specOf guarded_ spec) ∧
            s' = { s with
              store, candidates
              adoptions := insertAdoption s.adoptions
                (adoption { s with store } guarded_ cid inc runId vid) }

theorem record_adopting {env : Env} {s : State} {v : Verdict} {spec : String}
    {runId : Option Nat} {vid : Nat} {s' : State}
    (ran : record env s v spec runId = (.ok vid, s'))
    (adopts : (guarded env v spec).adopt = true) : Adopting env s v spec runId vid s' := by
  unfold record at ran
  split at ran
  next => cases ran
  next guarded_ cid d s₁ prepared =>
    obtain ⟨rfl, _, ⟨candidates, rfl, kept, c, named, spelled⟩, _⟩ := prepare_prepared prepared
    dsimp only at ran
    split at ran
    next => cases ran
    next vid' store decided =>
      rw [if_pos adopts] at ran
      unfold serve at ran
      split at ran
      next => cases ran
      next =>
        dsimp only at ran
        cases ran
        have grew := kept_incumbentId env { s with candidates, store }
          (guarded env v spec).lane (guarded env v spec).incumbent
        obtain ⟨c', named', spelled'⟩ := grew cid c named
        exact ⟨_, cid, d, _, store, _, _, c', prepared, decided, kept.trans grew, named',
          spelled'.trans spelled, rfl⟩

/-- The verdict a call answers with is in the store it leaves. -/
theorem decide_present {s after : Store} {d : Decision} {vid : Nat}
    (ran : MemoryStore.decide s d = (.ok vid, after)) : vid ∈ after.verdicts.ids := by
  cases MemoryStore.decide_answered ran with
  | restated row _ found => exact Table.mem_ids_of_find? found
  | wrote _ row above _ named _ same =>
      rw [same, named, Table.mem_ids_insert]
      exact .inr rfl

theorem serve_sound {env : Env} {s : State} (sound : Sound s) (v : Verdict) {cid : Nat}
    (runId : Option Nat) {vid : Nat} (candidate : ∃ c, s.candidates.find? cid = some c)
    (verdict : vid ∈ s.store.verdicts.ids) : Sound (serve env s v cid runId vid).2 := by
  unfold serve
  split
  next => exact sound
  next =>
    obtain ⟨c, found⟩ := candidate
    have grew := kept_incumbentId env s v.lane v.incumbent
    obtain ⟨c', found', _⟩ := grew cid c found
    exact (sound.grow (.of_kept grew)).adopt ⟨c', found'⟩ verdict le_rfl

theorem record_sound {s : State} (sound : Sound s) (env : Env) (v : Verdict) (spec : String)
    (runId : Option Nat) : Sound (record env s v spec runId).2 := by
  have first := prepare_grown env s v spec runId
  unfold record
  split
  next e s₁ prepared =>
    rw [prepared] at first
    exact sound.grow first
  next guarded_ cid d s₁ prepared =>
    obtain ⟨_, own, ⟨candidates, rfl, _, c, named, _⟩, _⟩ := prepare_prepared prepared
    rw [prepared] at first
    have second := decide_grown { s with candidates } d own
    split
    next e store decided =>
      rw [decided] at second
      exact (sound.grow first).grow second
    next vid store decided =>
      rw [decided] at second
      have asked := (sound.grow first).grow second
      split
      next => exact serve_sound asked guarded_ runId ⟨c, named⟩ (decide_present decided)
      next => exact asked

theorem sound_step {s : State} (sound : Sound s) (a : Action) : Sound (act s a) := by
  cases a with
  | propose name =>
      refine sound.grow ⟨rfl, le_rfl, rfl, Candidates.Kept.refl _, .inl ?_⟩
      dsimp only [act]
      unfold propose
      split <;> rfl
  | decide d => exact sound.grow (decide_grown s { d with now := s.clock, machineId := s.machine } rfl)
  | ensure keyOf label proposal lane key =>
      exact sound.grow
        (.of_kept (Candidates.kept_ensure keyOf s.store s.candidates label proposal lane key))
  | record env v spec runId => exact record_sound sound env v spec runId
  | wait elapsed =>
      refine sound.grow ⟨rfl, ?_, rfl, Candidates.Kept.refl _, .inl rfl⟩
      exact le_add_of_nonneg_right elapsed.2

theorem sound_invariant : adopting.InvariantWhen (fun _ _ => True) Sound where
  start := by
    rintro s ⟨verdicts, adoptions⟩
    refine ⟨?_, ?_, ?_, ?_⟩
    · intro row member
      rw [adoptions] at member
      cases member
    · intro row member
      rw [adoptions] at member
      cases member
    · intro vid v found
      rw [verdicts] at found
      cases found
    · intro row member
      rw [adoptions] at member
      cases member
  step := by
    rintro s a s' sound - stepped
    cases stepped
    exact sound_step sound a

/-- The verdict that stands in for the one `record` would write. -/
def restates (env : Env) (s : State) (v : Verdict) (spec : String) (runId : Option Nat) :
    Option Nat :=
  match prepare env s v spec runId with
  | (.ok (_, _, d), s) => MemoryStore.restatedBy s.store d
  | (.error _, _) => none

/-- The verdict restates one that already carries an adoptions row. -/
def Spent (env : Env) (s : State) (v : Verdict) (spec : String) (runId : Option Nat) : Prop :=
  ∃ vid ∈ restates env s v spec runId, Adopted s.adoptions vid

instance (env : Env) (s : State) (v : Verdict) (spec : String) (runId : Option Nat) :
    Decidable (Spent env s v spec runId) :=
  inferInstanceAs (Decidable (∃ vid ∈ restates env s v spec runId, Adopted s.adoptions vid))

/-- The lane resolves to a candidate of this spec. -/
def Serves (env : Env) (s : State) (lane spec : String) : Prop :=
  (current env s (laneKey lane)).map Served.spec = some spec

instance (env : Env) (s : State) (lane spec : String) : Decidable (Serves env s lane spec) :=
  inferInstanceAs (Decidable (_ = _))

theorem Serves.not_reference {env : Env} {s : State} {lane spec : String}
    (serves : Serves env s lane spec) : isReference spec = false := by
  obtain ⟨served, out, rfl⟩ := Option.map_eq_some_iff.mp serves
  exact (current_eligible out).2.2.1

/-- An adoption that restates a verdict with a row leaves every lane as it was. -/
theorem Sound.ignored {s : State} (sound : Sound s) (env : Env) (store : Store)
    {candidates : Table Candidate} (kept : Candidates.Kept s.candidates candidates)
    {row : Adoption} (spent : Adopted s.adoptions row.verdictId) :
    current env { s with store, candidates, adoptions := insertAdoption s.adoptions row } =
      current env s := by
  apply current_of_rowsHere
  rw [rowsHere, insertAdoption, if_pos spent]
  exact servedHere_kept kept s.machine sound.candidate

/-- An adoption with a row of its own is what its lane serves. -/
theorem Sound.served {s : State} (sound : Sound s) (env : Env) (store : Store)
    {candidates : Table Candidate} (kept : Candidates.Kept s.candidates candidates)
    (row : Adoption) {c : Candidate} (fresh : ¬ Adopted s.adoptions row.verdictId)
    (named : candidates.find? row.candidateId = some c) (own : row.machineId = some s.machine)
    (now : row.adoptedAt = s.clock)
    (passed : Eligible env { id := s.adoptions.nextId, row, spec := c.spec }) :
    current env { s with store, candidates, adoptions := insertAdoption s.adoptions row }
      row.lane = some { id := s.adoptions.nextId, row, spec := c.spec } := by
  have rows : rowsHere { s with store, candidates, adoptions := insertAdoption s.adoptions row } =
      rowsHere s ++ [{ id := s.adoptions.nextId, row, spec := c.spec }] := by
    rw [rowsHere, insertAdoption, if_neg fresh, Table.rows_insert, List.filterMap_append,
      servedHere_kept kept s.machine sound.candidate]
    congr 1
    simp [servedHere, own, named]
  refine current_newest rows (fun older member => ?_) passed
  have inside := mem_rowsHere member
  have past := sound.past _ inside
  have below := s.adoptions.above_nextId _ (Table.mem_ids.mpr ⟨_, inside⟩)
  rcases lt_or_eq_of_le (now ▸ past) with earlier | together
  · exact .inl earlier
  · exact .inr ⟨together, below.le⟩

theorem turnedDown_local {v : Verdict} {spec : String} (tried : isReference v.challenger = false)
    (ran : isReference spec = false) : turnedDown v spec = v := by
  simp [turnedDown, tried, ran]

theorem schemaGuard_passed {env : Env} {v : Verdict} {spec : String}
    (enforced : laneKey v.lane ∈ SCHEMA_LANES → env.enforcesSchema spec = true) :
    schemaGuard env v spec = v := by
  unfold schemaGuard
  split
  next => rfl
  next stopped =>
    rw [not_or, not_or, not_not] at stopped
    exact absurd (enforced stopped.2.1) stopped.2.2

/-- The verdict a call answers with is of the machine that asked. -/
theorem Sound.decide_machine {s : State} (sound : Sound s) {d : Decision}
    (own : d.machineId = s.machine) {vid : Nat} {store : Store}
    (ran : MemoryStore.decide s.store d = (.ok vid, store)) :
    (store.verdicts.find? vid).map MemoryStore.Verdict.machineId = some s.machine := by
  cases MemoryStore.decide_answered ran with
  | restated row _ found => rw [found, Option.map_some, sound.here vid row found]
  | wrote _ row above _ named asked same =>
      rw [same, named, Table.find?_insert_self, Option.map_some, asked, own]

/-- Right after an adoption its lane resolves to what was adopted, unless that is stored as a
    reference model's spec, or the verdict restates one that already carries a row while the
    lane has gone on to something else. -/
theorem record_serves {s : State} (reached : adopting.Reachable s) {env : Env} {v : Verdict}
    {spec : String} {runId : Option Nat} {vid : Nat} {s' : State}
    (ran : record env s v spec runId = (.ok vid, s')) (adopts : v.adopt = true)
    (tried : isReference v.challenger = false) (local_ : isReference spec = false)
    (enforced : laneKey v.lane ∈ SCHEMA_LANES → env.enforcesSchema (specOf v spec) = true) :
    Serves env s' v.lane (Text.strip (specOf v spec)) ↔
      isReference (Text.strip (specOf v spec)) = false ∧
        (Spent env s v spec runId → Serves env s v.lane (Text.strip (specOf v spec))) := by
  have sound := sound_invariant.holds reached
  have same : guarded env v spec = v := by
    rw [guarded, turnedDown_local tried local_, schemaGuard_passed enforced]
  obtain ⟨guarded_, cid, d, s₁, store, inc, candidates, c, prepared, decided, kept, named,
    spelled, rfl⟩ := (record_adopting ran (by rw [same]; exact adopts)).found
  obtain ⟨rfl, own, ⟨ensured, rfl, _⟩, fits⟩ := prepare_prepared prepared
  rw [same] at spelled fits prepared ⊢
  rw [← spelled]
  have restated : restates env s v spec runId = MemoryStore.restatedBy s.store d := by
    rw [restates, prepared]
  by_cases adopted : Adopted s.adoptions vid
  · -- The row is ignored: only a restated verdict can carry one already.
    have spent : Spent env s v spec runId := by
      refine ⟨vid, ?_, adopted⟩
      rw [restated]
      cases MemoryStore.decide_answered decided with
      | restated row again _ => exact again
      | wrote _ _ _ _ fresh _ _ =>
          obtain ⟨row, member, same⟩ := adopted
          have present := sound.verdict row member
          rw [same, fresh] at present
          exact absurd present s.store.verdicts.above_nextId.not_mem
    rw [Serves, sound.ignored env store kept adopted]
    exact ⟨fun serves => ⟨Serves.not_reference serves, fun _ => serves⟩,
      fun held => held.2 spent⟩
  · have fresh : ¬ Spent env s v spec runId := by
      rintro ⟨again, said, stands⟩
      rw [restated] at said
      cases MemoryStore.decide_answered decided with
      | restated row same _ =>
          rw [same] at said
          cases said
          exact adopted stands
      | wrote _ _ _ none_ _ _ _ =>
          rw [none_] at said
          cases said
    have out := sound.served env store kept (adoption { s with store } v cid inc runId vid) adopted
      named (sound.decide_machine own decided) rfl
    constructor
    · intro serves
      exact ⟨serves.not_reference, fun spent => absurd spent fresh⟩
    · rintro ⟨plain, _⟩
      exact congrArg (Option.map Served.spec) (out ⟨plain, fits adopts⟩)

/-- A machine with nothing stored yet. -/
def bare : State where
  store := { proposals := ∅, verdicts := ∅ }
  candidates := ∅
  adoptions := ∅
  machine := 1
  clock := 0

theorem start_bare : adopting.start bare := ⟨rfl, rfl⟩

/-- Every spec runs, under itself as its key, and nothing was measured. -/
def plainEnv : Env where
  keyOf := id
  candidateFor := fun _ name => some name
  enforcesSchema := fun _ => true
  footprint := fun _ => {}
  ceilingGb := 0

def beats (challenger incumbent : String) : Verdict where
  lane := "code"
  incumbent := incumbent
  challenger := challenger
  adopt := true
  why := "beats " ++ incumbent

/-- The lane's first adoption is served. -/
theorem record_serves_first :
    ∃ vid s', record plainEnv bare (beats "a" "b") "" none = (.ok vid, s') ∧
      Serves plainEnv s' "code" "a" := by
  cases ran : record plainEnv bare (beats "a" "b") "" none with
  | mk result s' =>
      cases result with
      | error e =>
          have returns : (record plainEnv bare (beats "a" "b") "" none).1.isOk = true := by
            decide
          rw [ran] at returns
          cases returns
      | ok vid =>
          refine ⟨vid, s', rfl, ?_⟩
          have fresh : ¬ Spent plainEnv bare (beats "a" "b") "" none := by decide
          have plain : isReference (Text.strip (specOf (beats "a" "b") "")) = false := by
            decide
          exact (record_serves (.start start_bare) ran rfl (by decide) (by decide)
            (fun _ => rfl)).mpr ⟨plain, fun spent => absurd spent fresh⟩

/-- The lane goes over to another candidate and back. -/
def backAndForth : List Action :=
  [.record plainEnv (beats "a" "b") "" none, .wait 60, .record plainEnv (beats "b" "a") "" none,
   .wait 60]

/-- A candidate adopted again, on the same words and no run, is not served again. -/
theorem record_unserved :
    ∃ s vid s', adopting.Reachable s ∧
      record plainEnv s (beats "a" "b") "" none = (.ok vid, s') ∧
        (beats "a" "b").adopt = true ∧ isReference "a" = false ∧
          laneKey "code" ∉ SCHEMA_LANES ∧ ¬ Serves plainEnv s' "code" "a" ∧
            Serves plainEnv s' "code" "b" := by
  let test (s : State) : Bool :=
    match record plainEnv s (beats "a" "b") "" none with
    | (.ok _, s') => ¬ Serves plainEnv s' "code" "a" ∧ Serves plainEnv s' "code" "b"
    | (.error _, _) => false
  obtain ⟨s, _, reached, passes⟩ := System.reached_by_run test start_bare
    (System.meets_true bare backAndForth) (by decide +kernel)
  dsimp only [test] at passes
  split at passes
  next vid s' ran =>
    have both := of_decide_eq_true passes
    exact ⟨s, vid, s', reached, ran, rfl, by decide, by decide, both.1, both.2⟩
  next => cases passes

end LocalHarness.Adopt
