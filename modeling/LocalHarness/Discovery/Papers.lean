import Mathlib.Algebra.Order.Floor.Ring
import Mathlib.Data.List.Chain
import Mathlib.Data.List.Sort
import Mathlib.Data.Rat.Floor
import LocalHarness.Library.CodePoints

/-! # Techniques from HuggingFace's daily papers

The API has one page for each day. A sweep asks for the pages of the days that no sweep has read, and keeps
one time for all of them: when it last succeeded.
-/

namespace LocalHarness.Discovery.Papers

open LocalHarness.Library

variable {ε σ : Type}

/-! ## The sources table -/

def DEFERRED : Str := text "deferred"

/-- A row of the table, under its name. -/
structure Row where
  kind : Str
  url : Str
  enabled : Bool
  lastReadAt : Option ℚ
  lastAttemptAt : Option ℚ
  lastStatus : Str
  lastError : Str
  failures : ℕ
  retired : Str

abbrev Sources := Str → Option Row

/-- How a read of a source went. -/
inductive Attempt
  | ok
  | failed (error : Str)
  | deferred (error : Str)

/-- The row is there, with the source's own fields. -/
def upsert (kind url : Str) (enabled : Bool) : Option Row → Row
  | some row => { row with kind, url, enabled }
  | none => ⟨kind, url, enabled, none, none, [], [], 0, []⟩

def Row.attempted (row : Row) (time : ℚ) : Attempt → Row
  | .deferred error =>
      { row with lastAttemptAt := some time, lastStatus := DEFERRED, lastError := error.take 500 }
  | .ok =>
      { row with
        lastReadAt := some time, lastAttemptAt := some time, lastStatus := text "ok", lastError := [],
        failures := 0, retired := [] }
  | .failed error =>
      { row with
        lastAttemptAt := some time, lastStatus := text "failed", lastError := error.take 500,
        failures := row.failures + 1 }

/-- `record_source` -/
def recordSource (sources : Sources) (name kind url : Str) (enabled : Bool) (time : ℚ) (attempt : Attempt) :
    Sources :=
  Function.update sources name (some ((upsert kind url enabled (sources name)).attempted time attempt))

/-! ## The days that are due -/

def SOURCE : Str := text "hf-daily-papers"

def KIND : Str := text "papers"

def API : Str := text "https://huggingface.co/api/daily_papers"

def MAX_DAYS : ℕ := 7

/-- `_day`: the UTC day of a time, as a number; dates are in the order of their days. -/
def day (t : ℚ) : ℤ :=
  ⌊t / 86400⌋

/-- The loop of `due_dates`, from a time back. -/
def missed (lastRead : ℚ) : ℕ → ℚ → List ℤ
  | 0, _ => []
  | more + 1, t => if day lastRead < day t then day t :: missed lastRead more (t - 86400) else []

/-- `due_dates`: `none` is the page without a date, which is today's. -/
def dueDates (lastRead : Option ℚ) (now : ℚ) (force : Bool) : List (Option ℤ) :=
  match force, lastRead with
  | true, _ => [none]
  | false, none => [none]
  | false, some last =>
      if last = 0 then [none] else ((missed last MAX_DAYS now).insertionSort (· ≤ ·)).map some

/-! ## A sweep -/

/-- What a request comes to. -/
inductive Answer (ε : Type)
  | entries (listed : List ε)
  | rateLimited (exc : Str)
  | failed (exc : Str)

/-- One call of `sweep`: its clock, its flag and the API as it answers then. -/
structure Call (ε : Type) where
  now : ℚ
  force : Bool
  get : Option ℤ → Answer ε

/-- What the sweep keeps: the sources table, and each sighting with its time. -/
structure Store (σ : Type) where
  sources : Sources
  sightings : List (σ × ℚ)

/-- How the loop over the days ended. -/
inductive Ending
  | read
  | deferred (exc : Str)
  | failed (exc : Str)
  /-- An entry is not of the form that `proposal` reads. -/
  | raised (exc : Str)

/-- The days whose pages were read to their end, what was recorded, and how it ended. -/
structure Pages (σ : Type) where
  days : List (Option ℤ)
  seen : List σ
  ending : Ending

/-- The entries of a page are recorded in turn; one that cannot be read ends the sweep. -/
def recordEntries (proposal : ε → Except Str (Option σ)) : List ε → List σ × Option Str
  | [] => ([], none)
  | entry :: rest =>
      match proposal entry with
      | .error exc => ([], some exc)
      | .ok none => recordEntries proposal rest
      | .ok (some seen) => (seen :: (recordEntries proposal rest).1, (recordEntries proposal rest).2)

def readDays (proposal : ε → Except Str (Option σ)) (get : Option ℤ → Answer ε) : List (Option ℤ) → Pages σ
  | [] => ⟨[], [], .read⟩
  | date :: rest =>
      match get date with
      | .rateLimited exc => ⟨[], [], .deferred exc⟩
      | .failed exc => ⟨[], [], .failed exc⟩
      | .entries listed =>
          match recordEntries proposal listed with
          | (seen, some exc) => ⟨[], seen, .raised exc⟩
          | (seen, none) =>
              let later := readDays proposal get rest
              ⟨date :: later.days, seen ++ later.seen, later.ending⟩

/-- `last_read_at` of the source's row. -/
def Store.lastRead (store : Store σ) : Option ℚ :=
  (store.sources SOURCE).bind Row.lastReadAt

/-- The pages that a call reads. -/
def pagesOf (proposal : ε → Except Str (Option σ)) (store : Store σ) (call : Call ε) : Pages σ :=
  readDays proposal call.get (dueDates store.lastRead call.now call.force)

/-- A call succeeds where some day is due and each of them is read. -/
def succeeds (proposal : ε → Except Str (Option σ)) (store : Store σ) (call : Call ε) : Bool :=
  match (pagesOf proposal store call).ending with
  | .read => !(dueDates store.lastRead call.now call.force).isEmpty
  | _ => false

def Store.attempted (store : Store σ) (now : ℚ) (attempt : Attempt) : Sources :=
  recordSource store.sources SOURCE KIND API true now attempt

/-- `sweep`: the store after it. -/
def sweep (proposal : ε → Except Str (Option σ)) (store : Store σ) (call : Call ε) : Store σ where
  sources :=
    match (pagesOf proposal store call).ending with
    | .deferred exc => store.attempted call.now (.deferred exc)
    | .failed exc => store.attempted call.now (.failed exc)
    | .raised _ => store.sources
    | .read =>
        if (dueDates store.lastRead call.now call.force).isEmpty then store.sources
        else store.attempted call.now .ok
  sightings := store.sightings ++ (pagesOf proposal store call).seen.map fun seen => (seen, call.now)

/-- `sweep`: what it returns. -/
def found (proposal : ε → Except Str (Option σ)) (store : Store σ) (call : Call ε) : Except Str (List σ) :=
  match (pagesOf proposal store call).ending with
  | .raised exc => .error exc
  | _ => .ok (pagesOf proposal store call).seen

/-! ## A run of sweeps -/

/-- A page that was read: its day, and when. -/
structure Read where
  page : ℤ
  time : ℚ
  deriving DecidableEq

/-- A sweep that succeeded. -/
structure Success where
  now : ℚ
  force : Bool
  deriving DecidableEq

/-- What is kept of a call that succeeds. -/
def Call.success (call : Call ε) : Success :=
  ⟨call.now, call.force⟩

/-- The store, with what the sweeps read and which of them succeeded, in their order. -/
structure World (σ : Type) where
  store : Store σ
  reads : List Read
  successes : List Success

def World.call (proposal : ε → Except Str (Option σ)) (world : World σ) (call : Call ε) : World σ where
  store := sweep proposal world.store call
  reads := world.reads ++ (pagesOf proposal world.store call).days.map fun date =>
    ⟨date.getD (day call.now), call.now⟩
  successes :=
    world.successes ++ if succeeds proposal world.store call then [call.success] else []

def run (proposal : ε → Except Str (Option σ)) (start : Store σ) (calls : List (Call ε)) : World σ :=
  calls.foldl (World.call proposal) ⟨start, [], []⟩

variable {proposal : ε → Except Str (Option σ)} {get : Option ℤ → Answer ε} {store : Store σ} {call : Call ε}
variable {t last now : ℚ} {d : ℤ} {more : ℕ}

/-! ## Days -/

theorem day_mono {t' : ℚ} (le : t ≤ t') : day t ≤ day t' :=
  Int.floor_le_floor (div_le_div_of_nonneg_right le (by norm_num))

theorem day_add (t : ℚ) (days : ℤ) : day (t + days * 86400) = day t + days := by
  rw [day, add_div, mul_div_cancel_right₀ _ (by norm_num), Int.floor_add_intCast, day]

theorem day_back (t : ℚ) : day (t - 86400) = day t - 1 := by
  have back := day_add t (-1)
  rwa [Int.cast_neg, Int.cast_one, neg_one_mul, ← sub_eq_add_neg, ← sub_eq_add_neg] at back

/-- Times that are `MAX_DAYS` days apart are on days that are no further apart. -/
theorem day_apart (apart : now - last ≤ MAX_DAYS * 86400) : day now - MAX_DAYS ≤ day last := by
  have within := day_mono (sub_le_iff_le_add'.mp apart)
  rw [← Int.cast_natCast, day_add] at within
  exact sub_le_iff_le_add.mpr within

theorem mem_missed : d ∈ missed last more now ↔ day last < d ∧ d ≤ day now ∧ day now - more < d := by
  induction more generalizing now with
  | zero =>
      simp only [missed, List.not_mem_nil, false_iff]
      omega
  | succ more ih =>
      rw [missed]
      split
      · rw [List.mem_cons, ih, day_back]
        omega
      · simp only [List.not_mem_nil, false_iff]
        omega

theorem mem_dueDates {date : Option ℤ} (nonzero : last ≠ 0) :
    date ∈ dueDates (some last) now false ↔
      ∃ d, date = some d ∧ day last < d ∧ d ≤ day now ∧ day now - MAX_DAYS < d := by
  rw [dueDates, if_neg nonzero, List.mem_map]
  simp only [List.mem_insertionSort, mem_missed]
  exact exists_congr fun d => ⟨fun ⟨due, same⟩ => ⟨same.symm, due⟩, fun ⟨same, due⟩ => ⟨due, same.symm⟩⟩

/-! ## What a sweep does -/

theorem readDays_read {dates : List (Option ℤ)} (read : (readDays proposal get dates).ending = .read) :
    (readDays proposal get dates).days = dates := by
  induction dates with
  | nil => rfl
  | cons date rest ih =>
      rw [readDays] at read ⊢
      split at read
      · cases read
      · cases read
      · split at read
        · cases read
        · exact congrArg (date :: ·) (ih read)

theorem succeeds_iff : succeeds proposal store call = true ↔
    (pagesOf proposal store call).ending = .read ∧ dueDates store.lastRead call.now call.force ≠ [] := by
  rw [succeeds]
  cases (pagesOf proposal store call).ending <;> simp

/-- A sweep that succeeds has read each day that was due. -/
theorem pagesOf_days (success : succeeds proposal store call = true) :
    (pagesOf proposal store call).days = dueDates store.lastRead call.now call.force :=
  readDays_read (succeeds_iff.mp success).1

theorem upsert_lastReadAt (kind url : Str) (enabled : Bool) (row : Option Row) :
    (upsert kind url enabled row).lastReadAt = row.bind Row.lastReadAt := by
  cases row <;> rfl

/-- The time that is kept is that of a success, which an attempt without one leaves as it is. -/
theorem lastRead_attempted (attempt : Attempt) (sightings : List (σ × ℚ)) :
    (Store.mk (store.attempted now attempt) sightings).lastRead =
      match attempt with
      | .ok => some now
      | _ => store.lastRead := by
  change (recordSource store.sources SOURCE KIND API true now attempt SOURCE).bind Row.lastReadAt = _
  rw [recordSource, Function.update_self, Option.bind_some]
  cases attempt with
  | ok => rfl
  | failed error => exact upsert_lastReadAt KIND API true _
  | deferred error => exact upsert_lastReadAt KIND API true _

theorem sweep_lastRead : (sweep proposal store call).lastRead =
    if succeeds proposal store call then some call.now else store.lastRead := by
  rw [sweep, succeeds]
  cases (pagesOf proposal store call).ending with
  | read =>
      cases dueDates store.lastRead call.now call.force with
      | nil => rfl
      | cons date rest => exact lastRead_attempted .ok _
  | deferred exc => exact lastRead_attempted (.deferred exc) _
  | failed exc => exact lastRead_attempted (.failed exc) _
  | raised exc => rfl

theorem run_append (start : Store σ) (calls : List (Call ε)) :
    run proposal start (calls ++ [call]) = (run proposal start calls).call proposal call := by
  rw [run, List.foldl_append]
  rfl

/-! ## What a run has read -/

/-- The time of the last read is that of the last success. -/
theorem run_lastRead {start : Store σ} (never : start.lastRead = none) (calls : List (Call ε)) :
    (run proposal start calls).store.lastRead =
      (run proposal start calls).successes.getLast?.map Success.now := by
  induction calls using List.reverseRecOn with
  | nil => exact never
  | append_singleton calls call ih =>
      rw [run_append, World.call, sweep_lastRead]
      split
      · rw [List.getLast?_concat]
        rfl
      · rw [List.append_nil]
        exact ih

/-- The sweeps that succeed are among the calls, in their order. -/
theorem successes_sublist (start : Store σ) (calls : List (Call ε)) :
    (run proposal start calls).successes.Sublist (calls.map Call.success) := by
  induction calls using List.reverseRecOn with
  | nil => exact List.Sublist.slnil
  | append_singleton calls call ih =>
      rw [run_append, World.call, List.map_append]
      refine ih.append ?_
      split
      · exact List.Sublist.refl _
      · exact List.nil_sublist _

theorem now_of_mem {start : Store σ} {calls : List (Call ε)} {success : Success}
    (member : success ∈ (run proposal start calls).successes) : ∃ call ∈ calls, call.now = success.now := by
  obtain ⟨call, made, rfl⟩ := List.mem_map.mp ((successes_sublist start calls).subset member)
  exact ⟨call, made, rfl⟩

/-- No success is later than the last one. -/
theorem le_last {start : Store σ} {calls : List (Call ε)}
    (ordered : (calls.map Call.now).Pairwise fun a b : ℚ => a ≤ b) {success final : Success}
    (member : success ∈ (run proposal start calls).successes)
    (ends : (run proposal start calls).successes.getLast? = some final) : success.now ≤ final.now := by
  have sorted : (run proposal start calls).successes.Pairwise fun a b => a.now ≤ b.now := by
    refine List.Pairwise.sublist (successes_sublist start calls) (List.pairwise_map.mpr ?_)
    exact List.pairwise_map.mp ordered
  obtain ⟨earlier, shape⟩ := List.getLast?_eq_some_iff.mp ends
  rw [shape] at sorted member
  rcases List.mem_append.mp member with before | same
  · exact (List.pairwise_append.mp sorted).2.2 success before final (List.mem_singleton_self final)
  · rw [List.mem_singleton.mp same]

/-- A sweep that succeeds reads the page of each day that is due. -/
theorem page_read (world : World σ) (success : succeeds proposal world.store call = true) {date : Option ℤ}
    (due : date ∈ dueDates world.store.lastRead call.now call.force) :
    ⟨date.getD (day call.now), call.now⟩ ∈ (world.call proposal call).reads := by
  refine List.mem_append_right _ (List.mem_map.mpr ⟨date, ?_, rfl⟩)
  rwa [pagesOf_days success]

/-- The day's page is due at the first success on it or after it, but where that is forced and too late. -/
theorem due_at (positive : 0 < last) (apart : now - last ≤ MAX_DAYS * 86400) (after : day last < d)
    (le : d ≤ day now) (force : Bool) (kept : force = true → day now = d) :
    ∃ date ∈ dueDates (some last) now force, date.getD (day now) = d := by
  cases force with
  | true => exact ⟨none, List.mem_singleton_self none, kept rfl⟩
  | false =>
      have within := day_apart apart
      exact ⟨some d, (mem_dueDates positive.ne').mpr ⟨d, rfl, after, le, by omega⟩, rfl⟩

/-- Sweeps that succeed are no more than `MAX_DAYS` days apart. -/
def Apart (successes : List Success) : Prop :=
  successes.IsChain fun a b => (b.now - a.now : ℚ) ≤ MAX_DAYS * 86400

/-- The first sweep to succeed on a day, or after it. -/
def firstFrom (successes : List Success) (d : ℤ) : Option Success :=
  successes.find? fun success => decide (d ≤ day success.now)

/-- The first success on a day or after it reads the day's page. -/
theorem World.call_reads {world : World σ} (past : world.store.lastRead = world.successes.getLast?.map Success.now)
    (positive : ∀ success ∈ world.successes, 0 < success.now)
    (apart : Apart (world.successes ++ [call.success])) {first : Success}
    (begins : (world.successes ++ [call.success]).head? = some first) (from_ : day first.now ≤ d)
    (before : ∀ success ∈ world.successes, day success.now < d) (le : d ≤ day call.now)
    (kept : call.force = true → day call.now = d) (succeeded : succeeds proposal world.store call = true) :
    ⟨d, call.now⟩ ∈ (world.call proposal call).reads := by
  have read : ∀ date ∈ dueDates world.store.lastRead call.now call.force,
      ⟨date.getD (day call.now), call.now⟩ ∈ (world.call proposal call).reads :=
    fun _ => page_read world succeeded
  rw [past] at read
  cases ends : world.successes.getLast? with
  | none =>
      rw [List.getLast?_eq_none_iff.mp ends, List.nil_append, List.head?_cons, Option.some.injEq] at begins
      subst begins
      rw [ends] at read
      have same : day call.now = d := le_antisymm from_ le
      rw [← same]
      cases forced : call.force with
      | true => exact read none (by rw [forced]; exact List.mem_singleton_self none)
      | false => exact read none (by rw [forced]; exact List.mem_singleton_self none)
  | some last =>
      have member := List.mem_of_getLast? ends
      have close : (call.now - last.now : ℚ) ≤ MAX_DAYS * 86400 :=
        (List.isChain_append.mp apart).2.2 last ends _ rfl
      obtain ⟨date, due, same⟩ := due_at (positive last member) close (before last member) le call.force kept
      rw [ends] at read
      rw [← same]
      exact read date due

theorem first_reads {start : Store σ} (never : start.lastRead = none) (calls : List (Call ε))
    (positive : ∀ call ∈ calls, 0 < call.now) (apart : Apart (run proposal start calls).successes)
    {first success : Success} (begins : (run proposal start calls).successes.head? = some first)
    (from_ : day first.now ≤ d) (found : firstFrom (run proposal start calls).successes d = some success)
    (kept : success.force = true → day success.now = d) :
    ⟨d, success.now⟩ ∈ (run proposal start calls).reads := by
  induction calls using List.reverseRecOn with
  | nil => cases begins
  | append_singleton calls call ih =>
      have past : (run proposal start calls).store.lastRead =
          (run proposal start calls).successes.getLast?.map Success.now := run_lastRead never calls
      have earlier : ∀ made ∈ calls, 0 < made.now := fun made member => positive made (List.mem_append_left _ member)
      have ih := ih earlier
      rw [run_append] at apart begins found ⊢
      by_cases succeeded : succeeds proposal (run proposal start calls).store call = true
      · rw [World.call, if_pos succeeded] at apart begins found
        rw [firstFrom, List.find?_append, Option.or_eq_some_iff] at found
        rcases found with already | ⟨none_before, new⟩
        · refine List.mem_append_left _ (ih (List.isChain_append.mp apart).1 ?_ already)
          rw [← begins, List.head?_append_of_ne_nil _ (List.ne_nil_of_mem (List.mem_of_find?_eq_some already))]
        · rw [List.find?_singleton] at new
          split at new
          next le =>
            cases new
            have before := List.find?_eq_none.mp none_before
            refine World.call_reads past (fun made member => ?_) apart begins from_ (fun made member => ?_)
              (of_decide_eq_true le) kept succeeded
            · obtain ⟨call, at_, same⟩ := now_of_mem member
              exact same ▸ earlier call at_
            · exact not_le.mp fun le => before made member (decide_eq_true le)
          next => cases new
      · rw [World.call, if_neg succeeded, List.append_nil] at apart begins found
        exact List.mem_append_left _ (ih apart begins found)

/-- A page of a day on which a sweep succeeded, or of one before, is not due again. -/
theorem due_after {start : Store σ} (never : start.lastRead = none) {calls : List (Call ε)}
    (positive : ∀ call ∈ calls, 0 < call.now) (ordered : (calls.map Call.now).Pairwise fun a b : ℚ => a ≤ b)
    {success : Success} (member : success ∈ (run proposal start calls).successes) {date : Option ℤ}
    (due : date ∈ dueDates (run proposal start calls).store.lastRead now false) :
    ∃ d, date = some d ∧ day success.now < d := by
  rw [run_lastRead never] at due
  cases ends : (run proposal start calls).successes.getLast? with
  | none =>
      rw [List.getLast?_eq_none_iff.mp ends] at member
      cases member
  | some final =>
      obtain ⟨call, made, same⟩ := now_of_mem (List.mem_of_getLast? ends)
      have nonzero : final.now ≠ 0 := (same ▸ positive call made).ne'
      rw [ends, Option.map_some, mem_dueDates nonzero] at due
      obtain ⟨d, shape, after, -⟩ := due
      exact ⟨d, shape, (day_mono (le_last ordered member ends)).trans_lt after⟩

/-- Each day from the first success to the last has its page read by the first sweep to succeed on it or after
it, unless that is a forced one of a later day; and no sweep asks for it again but a forced one. -/
theorem pages_read (proposal : ε → Except Str (Option σ)) (start : Store σ) (never : start.lastRead = none)
    (calls : List (Call ε)) (positive : ∀ call ∈ calls, 0 < call.now)
    (ordered : (calls.map Call.now).Pairwise fun a b : ℚ => a ≤ b)
    (apart : Apart (run proposal start calls).successes) :
    (∀ first last d, (run proposal start calls).successes.head? = some first →
      (run proposal start calls).successes.getLast? = some last → day first.now ≤ d → d ≤ day last.now →
        ∃ success, firstFrom (run proposal start calls).successes d = some success ∧ d ≤ day success.now ∧
          ((success.force = true → day success.now = d) →
            ⟨d, success.now⟩ ∈ (run proposal start calls).reads)) ∧
      ∀ success ∈ (run proposal start calls).successes, ∀ now,
        ∀ date ∈ dueDates (run proposal start calls).store.lastRead now false,
          ∃ d, date = some d ∧ day success.now < d := by
  refine ⟨fun first last d begins ends from_ until_ => ?_, fun _ member _ _ => due_after never positive ordered member⟩
  have reached : (firstFrom (run proposal start calls).successes d).isSome :=
    List.find?_isSome.mpr ⟨last, List.mem_of_getLast? ends, decide_eq_true until_⟩
  obtain ⟨success, found⟩ := Option.isSome_iff_exists.mp reached
  have le := List.find?_some (p := fun success : Success => decide (d ≤ day success.now)) found
  refine ⟨success, found, of_decide_eq_true le, ?_⟩
  exact first_reads never calls positive apart begins from_ found

def empty : Store Unit :=
  ⟨fun _ => none, []⟩

/-- Sweeps at the start of days, where the API answers on some of them. -/
def sweeps (answers : List (ℤ × Bool)) : List (Call Unit) :=
  answers.map fun answer =>
    ⟨answer.1 * 86400, false, fun _ => if answer.2 then .entries [()] else .failed (text "503")⟩

/-- The same sighting for each entry. -/
def recorded (_ : Unit) : Except Str (Option Unit) :=
  .ok (some ())

def ran (answers : List (ℤ × Bool)) : World Unit :=
  run recorded empty (sweeps answers)

/-- After a day on which the request fails, the next sweep reads its page too. -/
theorem pages_read_late :
    Apart (ran [(1, true), (2, false), (3, true)]).successes ∧
      ∃ success, firstFrom (ran [(1, true), (2, false), (3, true)]).successes 2 = some success ∧
        2 ≤ day success.now ∧ ((success.force = true → day success.now = 2) →
          ⟨2, success.now⟩ ∈ (ran [(1, true), (2, false), (3, true)]).reads) := by
  have successes : (ran [(1, true), (2, false), (3, true)]).successes = [⟨86400, false⟩, ⟨259200, false⟩] := by
    decide +kernel
  have apart : Apart (ran [(1, true), (2, false), (3, true)]).successes := by
    rw [successes]
    exact List.isChain_pair.mpr (by decide +kernel)
  have first := congrArg List.head? successes
  have last := congrArg List.getLast? successes
  have read := pages_read recorded empty rfl (sweeps [(1, true), (2, false), (3, true)]) (by decide +kernel)
    (by decide +kernel) apart
  exact ⟨apart, read.1 _ _ 2 first last (by decide +kernel) (by decide +kernel)⟩

/-- Day 1 and day 2 each have a sweep; the page of day 1 is not read once day 1 is done. -/
theorem late_papers_lost :
    ¬ ∀ calls : List (Call Unit), (∀ call ∈ calls, 0 < call.now) →
      ((calls.map Call.now).Pairwise fun a b : ℚ => a ≤ b) → Apart (run recorded empty calls).successes →
      ∀ first last d, (run recorded empty calls).successes.head? = some first →
        (run recorded empty calls).successes.getLast? = some last → day first.now ≤ d → d < day last.now →
          ∃ read ∈ (run recorded empty calls).reads, read.page = d ∧ d < day read.time := by
  intro claimed
  have successes : (ran [(1, true), (2, true)]).successes = [⟨86400, false⟩, ⟨172800, false⟩] := by
    decide +kernel
  have reads : (ran [(1, true), (2, true)]).reads = [⟨1, 86400⟩, ⟨2, 172800⟩] := by decide +kernel
  have apart : Apart (ran [(1, true), (2, true)]).successes := by
    rw [successes]
    exact List.isChain_pair.mpr (by decide +kernel)
  have first := congrArg List.head? successes
  have last := congrArg List.getLast? successes
  obtain ⟨read, made, page, late⟩ := claimed (sweeps [(1, true), (2, true)]) (by decide +kernel)
    (by decide +kernel) apart _ _ 1 first last (by decide +kernel) (by decide +kernel)
  change read ∈ (ran [(1, true), (2, true)]).reads at made
  rw [reads] at made
  have onTime : ∀ read ∈ [(⟨1, 86400⟩ : Read), ⟨2, 172800⟩], read.page = 1 → ¬ 1 < day read.time := by
    decide +kernel
  exact onTime read made page late

end LocalHarness.Discovery.Papers
