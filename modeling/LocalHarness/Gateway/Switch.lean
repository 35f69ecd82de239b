import LocalHarness.Library.Dict
import LocalHarness.Library.Fallible
import LocalHarness.Library.Retry

/-! # Switching the lane aliases

`switch` writes the configuration that names the adopted models, restarts the gateway on it, and
puts the old configuration back when no attempt took. The next call compares what the file then
holds with what is adopted.
-/

namespace LocalHarness.Gateway.Switching

open LocalHarness.Library

/-! ## The served configuration -/

def TEXT_LANES : List String := ["code", "web", "svg", "extract", "decide", "agent", "claims"]

/-- `LANE_ALIAS` -/
def laneAlias (lane : String) : String :=
  "sohot-" ++ lane

variable {ν Text ε τ : Type}

/-- An entry of `model_list`. -/
structure Entry (ν : Type) where
  modelName : Option String
  litellmParams : Option (Dict ν)

abbrev Config (ν : Type) := List (Entry ν)

def Entry.lane (e : Entry ν) : Option String :=
  TEXT_LANES.find? fun lane => e.modelName = some (laneAlias lane)

/-- `_aliases` -/
def aliases (config : Config ν) : Dict (Dict ν) :=
  .ofItems (config.filterMap fun e => e.lane.map (·, e.litellmParams.getD ∅))

/-- What YAML is to the switch: a text that was dumped loads as it was. -/
structure Yaml (Text ν ε : Type) where
  load : Text → Except ε (Config ν)
  dump : Config ν → Text
  load_dump : ∀ config, load (dump config) = .ok config
  /-- `str(value or "")` -/
  str : ν → String

/-- The aliases the served file records; a file that is not there records none. -/
def Yaml.recorded (y : Yaml Text ν ε) : Option Text → Except ε (Dict (Dict ν))
  | none => .ok ∅
  | some text => (y.load text).map aliases

/-! ## One attempt -/

/-- What becomes of a `write_text`. -/
inductive Write (Text ε : Type)
  | done
  /-- The file could not be opened. -/
  | refused (why : ε)
  /-- The file was opened, and this much of the text is in it. -/
  | torn (left : Text) (why : ε)

def Write.apply (write : Write Text ε) (file : Option Text) (text : Text) :
    Option Text × Except ε Unit :=
  match write with
  | .done => (some text, .ok ())
  | .refused why => (file, .error why)
  | .torn left why => (some left, .error why)

inductive Restart (ε : Type)
  | took
  /-- It returned `False`. -/
  | refused
  /-- It raised an exception of this type and text. -/
  | threw (why : String)
  /-- It raised what `except Exception` does not catch. -/
  | interrupted (why : ε)

structure Waited where
  how : String
  inFlight : Option Nat

/-- All that decides how an attempt goes. -/
structure Try (Text ν ε τ : Type) where
  /-- The wait for a quiet gateway, with the sleep before it. -/
  waits : Except ε Waited
  /-- `adopt.lane_defaults` -/
  defaults : Except ε (Dict String)
  /-- `gateway.served` of the defaults. -/
  served : Dict String → Except ε (Config ν)
  write : Write Text ε
  /-- Whether the file just written can be read back. -/
  reads : Bool
  restart : Restart ε
  /-- `_await_serving`: the last answer of the gateway on the aliases it is to serve. -/
  serving : Dict (Option ν) → Except ε String
  /-- Whether the rows of the attempt can be stored. -/
  records : Except ε Unit
  restartedAt : τ
  failedAt : τ

/-- What the lanes are to be served with, as the attempt finds it. -/
def Try.config (t : Try Text ν ε τ) : Except ε (Config ν) :=
  t.defaults.bind t.served

/-- A row of `gateway_switches`. -/
structure Row (τ : Type) where
  lane : String
  oldSpec : String
  newSpec : String
  how : String
  requestedAt : τ
  switchedAt : τ
  inFlight : Option Nat
  /-- `switched`, else `failed`. -/
  switched : Bool
  reason : String
  deriving DecidableEq

structure World (Text τ : Type) where
  /-- The served configuration beside the base one. -/
  file : Option Text
  rows : List (Row τ)
  deriving DecidableEq

/-- An alias that serves something new. -/
structure Moved (ν : Type) where
  lane : String
  spec : String
  model : Option ν

/-- `_old_spec` -/
def oldSpec (y : Yaml Text ν ε) (rows : List (Row τ)) (lane : String) (params : Dict ν) : String :=
  match (rows.filter fun row => row.lane = lane ∧ row.switched).getLast? with
  | some row => row.newSpec
  | none => ((params.lookup "model").map y.str).getD ""

/-- `_record`: a row for each moved lane, all or none. -/
def record (y : Yaml Text ν ε) (moved : List (Moved ν)) (old : Dict (Dict ν)) (requestedAt : τ)
    (t : Try Text ν ε τ) (got : Waited) (switchedAt : τ) (switched : Bool) (reason : String)
    (w : World Text τ) : World Text τ × Except ε (List (Row τ)) :=
  let made := moved.map fun m =>
    { lane := m.lane
      oldSpec := oldSpec y w.rows m.lane ((old.lookup m.lane).getD ∅)
      newSpec := m.spec
      how := got.how
      requestedAt
      switchedAt
      inFlight := got.inFlight
      switched
      reason }
  match t.records with
  | .error why => (w, .error why)
  | .ok () => ({ w with rows := w.rows ++ made }, .ok made)

/-- The lanes whose alias the configuration gives other parameters than `old` has. -/
def movedFrom [DecidableEq ν] (old : Dict (Dict ν)) (defaults : Dict String) (config : Config ν) :
    List (Moved ν) :=
  let new := aliases config
  ((config.filterMap Entry.lane).eraseDups.filter fun lane => new.lookup lane ≠ old.lookup lane).map
    fun lane =>
      { lane
        spec := (defaults.lookup lane).getD ""
        model := (new.lookup lane).bind (·.lookup "model") }

namespace Try

/-- What `regenerate_and_restart` finds moved, once the configuration is written. -/
def moved [DecidableEq ν] (t : Try Text ν ε τ) (old : Dict (Dict ν)) (defaults : Dict String)
    (config : Config ν) : List (Moved ν) :=
  movedFrom old defaults (if t.reads then config else [])

/-- Why the attempt did not take; no text when it did. -/
def why (t : Try Text ν ε τ) (moved : List (Moved ν)) : Except ε String :=
  match t.restart with
  | .took => t.serving (.ofItems (moved.map fun m => (laneAlias m.lane, m.model)))
  | .refused => .ok "the gateway restart failed"
  | .threw why => .ok ("the gateway restart failed: " ++ why)
  | .interrupted why => .error why

/-- One turn of the loop: no result is a failed attempt on record. -/
def turn [DecidableEq ν] (y : Yaml Text ν ε) (old : Dict (Dict ν)) (requestedAt : τ)
    (w : World Text τ) (t : Try Text ν ε τ) : World Text τ × Option (Except ε (List (Row τ))) :=
  match t.waits with
  | .error raised => (w, some (.error raised))
  | .ok got =>
      match t.defaults with
      | .error raised => (w, some (.error raised))
      | .ok defaults =>
          match t.served defaults with
          | .error raised => (w, some (.error raised))
          | .ok config =>
              let (file, wrote) := t.write.apply w.file (y.dump config)
              let w := { w with file }
              match wrote with
              | .error raised => (w, some (.error raised))
              | .ok () =>
                  let moved := t.moved old defaults config
                  match t.why moved with
                  | .error raised => (w, some (.error raised))
                  | .ok why =>
                      if why = "" then
                        let (w, rows) := record y moved old requestedAt t got t.restartedAt true "" w
                        (w, some rows)
                      else
                        match record y moved old requestedAt t got t.failedAt false why w with
                        | (w, .error raised) => (w, some (.error raised))
                        | (w, .ok _) => (w, none)

end Try

/-! ## The switch -/

def RETRIES : Nat := 3

structure Call (Text ν ε τ : Type) where
  requestedAt : τ
  /-- `gateway.served` as the call begins. -/
  requested : Except ε (Config ν)
  /-- How each attempt goes, should it be made. -/
  tries : Nat → Try Text ν ε τ
  /-- The old text's way back. -/
  restore : Write Text ε
  restoreRestart : Restart ε

def Call.attempts (call : Call Text ν ε τ) : List (Try Text ν ε τ) :=
  (List.range RETRIES).map call.tries

inductive Ended (ε τ : Type)
  /-- Every alias serves what is requested. -/
  | unchanged
  | took (rows : List (Row τ))
  /-- No attempt took. -/
  | failed
  | raised (why : ε)
  deriving DecidableEq

/-- The old text is written back and the gateway restarted, where there was one. -/
def putBack (call : Call Text ν ε τ) (before : Option Text) (w : World Text τ) :
    World Text τ × Ended ε τ :=
  match before with
  | none => (w, .failed)
  | some text =>
      let (file, wrote) := call.restore.apply w.file text
      let w := { w with file }
      match wrote, call.restoreRestart with
      | .error raised, _ => (w, .raised raised)
      | .ok (), .interrupted raised => (w, .raised raised)
      | .ok (), _ => (w, .failed)

/-- What comes of the attempts, once they are made. -/
def settle (call : Call Text ν ε τ) (before : Option Text) :
    World Text τ × Option (Except ε (List (Row τ))) → World Text τ × Ended ε τ
  | (left, some (.ok rows)) => (left, .took rows)
  | (left, some (.error raised)) => (left, .raised raised)
  | (left, none) => putBack call before left

def switch [DecidableEq ν] (y : Yaml Text ν ε) (call : Call Text ν ε τ) (w : World Text τ) :
    World Text τ × Ended ε τ :=
  match y.recorded w.file with
  | .error raised => (w, .raised raised)
  | .ok old =>
      match call.requested with
      | .error raised => (w, .raised raised)
      | .ok config =>
          if aliases config = old then (w, .unchanged)
          else settle call w.file (retry (Try.turn y old call.requestedAt) w call.attempts)

/-! ## How an attempt can end -/

namespace Try

def Writes (t : Try Text ν ε τ) (config : Config ν) : Prop :=
  Returns t.waits ∧ t.config = .ok config ∧ t.write = .done

/-- It raises before anything is written. -/
def RaisesEarly (t : Try Text ν ε τ) : Prop :=
  ¬ Returns t.waits ∨ ¬ Returns t.config ∨ ∃ why, t.write = .refused why

/-- It raises with this much written. -/
def Tears (t : Try Text ν ε τ) (left : Text) : Prop :=
  Returns t.waits ∧ Returns t.config ∧ ∃ why, t.write = .torn left why

theorem Writes.not_early {t : Try Text ν ε τ} {config : Config ν} (writes : t.Writes config) :
    ¬ t.RaisesEarly := by
  obtain ⟨quiet, made, done⟩ := writes
  rintro (raised | raised | ⟨why, refused⟩)
  · exact raised quiet
  · exact raised ⟨config, made⟩
  · rw [done] at refused
    cases refused

theorem Writes.not_tears {t : Try Text ν ε τ} {config : Config ν} (writes : t.Writes config)
    (left : Text) : ¬ t.Tears left := by
  rintro ⟨-, -, why, torn⟩
  rw [writes.2.2] at torn
  cases torn

theorem Writes.unique {t : Try Text ν ε τ} {config config' : Config ν} (writes : t.Writes config)
    (again : t.Writes config') : config = config' :=
  Except.ok.inj (writes.2.1.symm.trans again.2.1)

theorem Tears.not_early {t : Try Text ν ε τ} {left : Text} (tears : t.Tears left) :
    ¬ t.RaisesEarly := by
  obtain ⟨quiet, made, why, torn⟩ := tears
  rintro (raised | raised | ⟨why', refused⟩)
  · exact raised quiet
  · exact raised made
  · rw [torn] at refused
    cases refused

theorem Tears.unique {t : Try Text ν ε τ} {left left' : Text} (tears : t.Tears left)
    (again : t.Tears left') : left = left' := by
  obtain ⟨-, -, why, torn⟩ := tears
  obtain ⟨-, -, why', torn'⟩ := again
  exact (Write.torn.inj (torn.symm.trans torn')).1

variable [DecidableEq ν]

/-- The answer of the gateway, or of its restart, on what the attempt wrote. -/
def answer (old : Dict (Dict ν)) (t : Try Text ν ε τ) : Except ε String :=
  t.defaults.bind fun defaults => (t.served defaults).bind fun config =>
    t.why (t.moved old defaults config)

/-- It raises once the configuration is written. -/
def RaisesLate (old : Dict (Dict ν)) (t : Try Text ν ε τ) (config : Config ν) : Prop :=
  t.Writes config ∧ (¬ Returns (t.answer old) ∨ ¬ Returns t.records)

def Takes (old : Dict (Dict ν)) (t : Try Text ν ε τ) (config : Config ν) : Prop :=
  t.Writes config ∧ t.answer old = .ok "" ∧ Returns t.records

def Fails (old : Dict (Dict ν)) (t : Try Text ν ε τ) (config : Config ν) : Prop :=
  t.Writes config ∧ (∃ why, t.answer old = .ok why ∧ why ≠ "") ∧ Returns t.records

/-- The five ends of an attempt, each with what it leaves. -/
inductive Turned (y : Yaml Text ν ε) (old : Dict (Dict ν)) (w : World Text τ)
    (t : Try Text ν ε τ) : World Text τ × Option (Except ε (List (Row τ))) → Prop
  | early {why} : t.RaisesEarly → Turned y old w t (w, some (.error why))
  | torn {left why} : t.Tears left →
      Turned y old w t ({ w with file := some left }, some (.error why))
  | late {config why} : t.RaisesLate old config →
      Turned y old w t ({ w with file := some (y.dump config) }, some (.error why))
  | took {config rows} : t.Takes old config →
      Turned y old w t (⟨some (y.dump config), w.rows ++ rows⟩, some (.ok rows))
  | failed {config rows} : t.Fails old config →
      Turned y old w t (⟨some (y.dump config), w.rows ++ rows⟩, none)

theorem turned (y : Yaml Text ν ε) (old : Dict (Dict ν)) (requestedAt : τ) (w : World Text τ)
    (t : Try Text ν ε τ) : t.Turned y old w (t.turn y old requestedAt w) := by
  cases waited : t.waits with
  | error raised =>
      rw [turn, waited]
      exact .early (.inl (waited ▸ not_returns_error _))
  | ok got =>
      cases adopted : t.defaults with
      | error raised =>
          have none_made : ¬ Returns t.config := by
            rw [Try.config, adopted]
            exact not_returns_error raised
          rw [turn, waited, adopted]
          exact .early (.inr (.inl none_made))
      | ok defaults =>
          cases made : t.served defaults with
          | error raised =>
              have none_made : ¬ Returns t.config := by
                rw [Try.config, adopted, Except.bind, made]
                exact not_returns_error raised
              simp only [turn, waited, adopted, made]
              exact .early (.inr (.inl none_made))
          | ok config =>
              have made_ok : t.config = .ok config := by rw [Try.config, adopted, Except.bind, made]
              have quiet : Returns t.waits := ⟨got, waited⟩
              have asked : t.answer old = t.why (t.moved old defaults config) := by
                simp only [answer, adopted, made, Except.bind]
              simp only [turn, waited, adopted, made]
              cases wrote : t.write with
              | refused raised => exact .early (.inr (.inr ⟨raised, wrote⟩))
              | torn left raised => exact .torn ⟨quiet, ⟨config, made_ok⟩, raised, wrote⟩
              | done =>
                  have writes : t.Writes config := ⟨quiet, made_ok, wrote⟩
                  rw [← asked, Write.apply]
                  cases answered : t.answer old with
                  | error raised =>
                      exact .late ⟨writes, .inl (answered ▸ not_returns_error raised)⟩
                  | ok why =>
                      dsimp only
                      cases stored : t.records with
                      | error raised =>
                          have unstored : ¬ Returns t.records := stored ▸ not_returns_error raised
                          simp only [record, stored]
                          split
                          · exact .late ⟨writes, .inr unstored⟩
                          · exact .late ⟨writes, .inr unstored⟩
                      | ok kept =>
                          have returned : Returns t.records := ⟨kept, stored⟩
                          simp only [record, stored]
                          split
                          next took => exact .took ⟨writes, took ▸ answered, returned⟩
                          next not_taken =>
                            exact .failed ⟨writes, ⟨why, answered, not_taken⟩, returned⟩

theorem Fails.not_takes {old : Dict (Dict ν)} {t : Try Text ν ε τ} {config config' : Config ν}
    (fails : t.Fails old config) : ¬ t.Takes old config' := by
  obtain ⟨-, ⟨why, answered, not_taken⟩, -⟩ := fails
  rintro ⟨-, taken, -⟩
  exact not_taken (Except.ok.inj (answered.symm.trans taken))

theorem RaisesLate.not_done {old : Dict (Dict ν)} {t : Try Text ν ε τ} {config : Config ν}
    (late : t.RaisesLate old config) : ¬ (Returns (t.answer old) ∧ Returns t.records) := by
  rintro ⟨answered, stored⟩
  exact late.2.elim (· answered) (· stored)

section

variable {y : Yaml Text ν ε} {old : Dict (Dict ν)} {w : World Text τ} {t : Try Text ν ε τ}
variable {result : World Text τ × Option (Except ε (List (Row τ)))}

theorem Turned.of_early (turned : t.Turned y old w result) (early : t.RaisesEarly) :
    ∃ why, result = (w, some (.error why)) := by
  cases turned with
  | early _ => exact ⟨_, rfl⟩
  | torn tears => exact absurd early tears.not_early
  | late late => exact absurd early late.1.not_early
  | took takes => exact absurd early takes.1.not_early
  | failed fails => exact absurd early fails.1.not_early

theorem Turned.of_torn {left : Text} (turned : t.Turned y old w result) (tears : t.Tears left) :
    ∃ why, result = ({ w with file := some left }, some (.error why)) := by
  cases turned with
  | early early => exact absurd early tears.not_early
  | torn again => exact ⟨_, by rw [tears.unique again]⟩
  | late late => exact absurd tears (late.1.not_tears left)
  | took takes => exact absurd tears (takes.1.not_tears left)
  | failed fails => exact absurd tears (fails.1.not_tears left)

theorem Turned.of_late {config : Config ν} (turned : t.Turned y old w result)
    (late : t.RaisesLate old config) :
    ∃ why, result = ({ w with file := some (y.dump config) }, some (.error why)) := by
  cases turned with
  | early early => exact absurd early late.1.not_early
  | torn tears => exact absurd tears (late.1.not_tears _)
  | late again => exact ⟨_, by rw [late.1.unique again.1]⟩
  | took takes => exact absurd ⟨⟨_, takes.2.1⟩, takes.2.2⟩ late.not_done
  | failed fails =>
      obtain ⟨-, ⟨why, answered, -⟩, stored⟩ := fails
      exact absurd ⟨⟨why, answered⟩, stored⟩ late.not_done

theorem Turned.of_failed {config : Config ν} (turned : t.Turned y old w result)
    (fails : t.Fails old config) :
    result.2 = none := by
  cases turned with
  | early early => exact absurd early fails.1.not_early
  | torn tears => exact absurd tears (fails.1.not_tears _)
  | late late =>
      obtain ⟨-, ⟨why, answered, -⟩, stored⟩ := fails
      exact absurd ⟨⟨why, answered⟩, stored⟩ late.not_done
  | took takes => exact absurd takes fails.not_takes
  | failed _ => rfl

end

end Try

end LocalHarness.Gateway.Switching
