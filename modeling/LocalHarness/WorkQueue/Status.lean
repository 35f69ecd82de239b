import Mathlib.Algebra.BigOperators.Group.List.Basic
import Mathlib.Data.List.Nodup
import LocalHarness.WorkQueue.Machines

/-! # What a caller is told of a job

A status is put together from three reads: the job, all jobs, and the line of the machine that answers. Any step
of a worker or a client may fall between two of them.
-/

namespace LocalHarness.WorkQueue

open LocalHarness.Library LocalHarness.Runs

structure JobInfo where
  job : String
  kind : String
  state : String
  seconds : ℚ := 0
  ahead : Option Nat := none
  waitingFor : Option String := none
  path : Option String := none
  error : Option String := none
  deriving DecidableEq

/-- `_STATE`: a pending job is said to be queued. -/
def JobState.shown : JobState → String
  | pending => "queued"
  | state => state.text

/-- What is read besides the table: the gate, and twice the kind of what holds the machine. -/
structure Holding where
  gate : Bool × String
  holder : Option String
  holderAgain : Option String

def runningRows (s : JobStore) : List (Nat × Job) :=
  s.jobs.rows.filter fun row => row.2.state = .running

def waitingFor (everyone : JobStore) (holding : Holding) : Option String :=
  match (runningRows everyone).head? with
  | some row => some (if row.2.kind = "" then "a job" else row.2.kind)
  | none =>
      if holding.gate.1 then if holding.holder.getD "" = "" then none else holding.holderAgain
      else some holding.gate.2

/-- The index of a job in a machine's line. -/
def place (line : JobStore) (fingerprint : String) (id : Nat) : Option Nat :=
  ((line.pending fingerprint).map fun row => label row.1).idxOf? (label id)

/-- `_describe`, where `everyone` and `line` are the tables of the second and the third read. -/
def describe (fingerprint : String) (id : Nat) (job : Job) (everyone line : JobStore) (holding : Holding) :
    Except String JobInfo :=
  let info : JobInfo := { job := label id, kind := job.kind, state := job.state.shown }
  match job.state with
  | .pending =>
      match place line fingerprint id with
      | none => .error (Text.quoted (label id) ++ " is not in list")
      | some place =>
          .ok { info with
            ahead := some ((runningRows everyone).length + place), waitingFor := waitingFor everyone holding }
  | .running => .ok info
  | .done => .ok { info with path := if job.output = "" then none else some job.output }
  | .failed | .cancelled =>
      .ok { info with
        error := some (if job.note = "" then
          "exited " ++ (job.rc.map toString).getD "None" ++ "; log " ++ job.log else job.note) }

/-- `get` -/
def get (s : JobStore) (jobId : String) : Option (Nat × Job) :=
  (key jobId).bind fun id => (s.find? id).map fun job => (id, job)

/-- `job_status`: the job is found in the table of the first read. -/
def jobStatus (fingerprint : String) (jobId : String) (first everyone line : JobStore) (holding : Holding) :
    Except String JobInfo :=
  match get first jobId with
  | none => .ok { job := jobId, kind := "", state := "unknown", error := some "no such job" }
  | some row => describe fingerprint row.1 row.2 everyone line holding

/-! ## What it should say -/

/-- A job of the machine's line that runs before another: it is running, or earlier in the run order. -/
def InFront (fingerprint : String) (everyone line : JobStore) (id other : Nat) : Prop :=
  (∃ job, (other, job) ∈ runningRows everyone ∧ everyone.here fingerprint job = true) ∨
    ∃ row mine, (other, row) ∈ line.pending fingerprint ∧ (id, mine) ∈ line.pending fingerprint ∧
      other ≠ id ∧ before (other, row) (id, mine)

/-- A count of jobs in front, each once. -/
def Counts (fingerprint : String) (everyone line : JobStore) (id count : Nat) : Prop :=
  ∃ front : List Nat, front.Nodup ∧ front.length = count ∧ ∀ other ∈ front, InFront fingerprint everyone line id other

/-- The caller is told something, and `ahead` counts only jobs in front. -/
def Told (fingerprint : String) (everyone line : JobStore) (id : Nat) (status : Except String JobInfo) : Prop :=
  ∃ info, status = .ok info ∧ ∀ count ∈ info.ahead, Counts fingerprint everyone line id count

/-- The job still waits in the machine's line, and no other machine's job is running. -/
def Listed (fingerprint : String) (everyone line : JobStore) (id : Nat) : Prop :=
  (∃ row, line.find? id = some row ∧ row.state = .pending ∧ line.here fingerprint row = true) ∧
    ∀ row ∈ runningRows everyone, everyone.here fingerprint row.2 = true

/-! ## The line -/

theorem label_inj {id other : Nat} (same : label id = label other) : id = other := by
  have digits := congrArg (fun shown => Nat.ofDigitChars 10 shown.toList 0) same
  simpa only [label, String.toList_ofList, Nat.ofDigitChars_append, Nat.ofDigitChars_replicate_zero, Nat.mul_zero,
    Nat.ofDigitChars_ten_toDigits] using digits

instance : Std.Total before where
  total a b := by
    unfold before
    omega

instance : IsTrans (Nat × Job) before where
  trans a b c := by
    unfold before
    omega

theorem before_antisymm {a b : Nat × Job} (ab : before a b) (ba : before b a) : a.1 = b.1 := by
  unfold before at ab ba
  omega

namespace JobStore

variable {s : JobStore} {fingerprint : String} {id : Nat} {job : Job}

theorem mem_pending : (id, job) ∈ s.pending fingerprint ↔
    s.find? id = some job ∧ job.state = .pending ∧ s.here fingerprint job = true := by
  rw [pending, order, List.mem_insertionSort, List.mem_filter, decide_eq_true_eq, find?, Table.find?_eq_some]

theorem pending_sorted (s : JobStore) (fingerprint : String) : (s.pending fingerprint).Pairwise before :=
  List.pairwise_insertionSort before _

theorem pending_nodup (s : JobStore) (fingerprint : String) : ((s.pending fingerprint).map Prod.fst).Nodup := by
  have perm := (List.perm_insertionSort before
    (s.jobs.rows.filter fun row => row.2.state = .pending ∧ s.here fingerprint row.2)).map Prod.fst
  exact perm.nodup_iff.mpr (s.jobs.nodup.sublist (List.filter_sublist.map Prod.fst))

/-- A job of the line is after those in front of it, and its index is their number. -/
theorem place_split {front behind : List (Nat × Job)}
    (split : s.pending fingerprint = front ++ (id, job) :: behind) : place s fingerprint id = some front.length := by
  have distinct := s.pending_nodup fingerprint
  rw [split, List.map_append, List.map_cons, List.nodup_append] at distinct
  rw [place, split, List.map_append, List.map_cons, List.idxOf?_eq_some_iff]
  refine ⟨by rw [List.length_append, List.length_map, List.length_cons]; omega, ?_, ?_⟩
  · rw [List.getElem_append_right (by rw [List.length_map])]
    simp
  · intro earlier less
    rw [List.getElem_append_left (by rwa [List.length_map]), List.getElem_map]
    intro same
    have member := List.mem_map_of_mem (f := Prod.fst) (List.getElem_mem less)
    exact distinct.2.2 _ member id List.mem_cons_self (label_inj same)

theorem place_eq_none (absent : ∀ row, (id, row) ∉ s.pending fingerprint) : place s fingerprint id = none := by
  rw [place, List.idxOf?_eq_none_iff, List.mem_map]
  rintro ⟨⟨other, row⟩, member, same⟩
  exact absent row (label_inj same ▸ member)

/-- What is in front of a job in the line is what comes before it in the run order. -/
theorem front_iff {front behind : List (Nat × Job)} (split : s.pending fingerprint = front ++ (id, job) :: behind)
    {other : Nat} : other ∈ front.map Prod.fst ↔
      ∃ row mine, (other, row) ∈ s.pending fingerprint ∧ (id, mine) ∈ s.pending fingerprint ∧ other ≠ id ∧
        before (other, row) (id, mine) := by
  have distinct := s.pending_nodup fingerprint
  have sorted := s.pending_sorted fingerprint
  have self : (id, job) ∈ s.pending fingerprint := split ▸ List.mem_append_right _ List.mem_cons_self
  have found := (mem_pending.mp self).1
  rw [split, List.map_append, List.map_cons, List.nodup_append] at distinct
  rw [split] at sorted
  obtain ⟨-, sorted, across⟩ := List.pairwise_append.mp sorted
  constructor
  · intro ahead
    obtain ⟨⟨other, row⟩, member, rfl⟩ := List.mem_map.mp ahead
    refine ⟨row, job, split ▸ List.mem_append_left _ member, self, ?_, across _ member _ List.mem_cons_self⟩
    exact distinct.2.2 other ahead id List.mem_cons_self
  · rintro ⟨row, mine, member, here, differ, earlier⟩
    cases found.symm.trans (mem_pending.mp here).1
    rw [split, List.mem_append, List.mem_cons] at member
    rcases member with ahead | same | behind
    · exact List.mem_map_of_mem (f := Prod.fst) ahead
    · exact absurd (congrArg Prod.fst same) differ
    · exact absurd (before_antisymm earlier ((List.pairwise_cons.mp sorted).1 _ behind)) differ

theorem Steady.trans {s s' s'' : JobStore} (first : s.Steady s') (second : s'.Steady s'') : s.Steady s'' where
  sequence := le_trans first.sequence second.sequence
  settled := fun id settled => second.settled id (first.settled id settled)
  gone := fun id old gone => second.gone id (le_trans old first.sequence) (first.gone id old gone)

theorem settled_of_runningRows {row : Nat × Job} (member : row ∈ runningRows s) : s.Settled row.1 := by
  obtain ⟨stored, runs⟩ := List.mem_filter.mp member
  have found : s.find? row.1 = some row.2 := Table.find?_eq_some.mpr stored
  refine ⟨find?_le_sequence found, fun job found' => ?_⟩
  cases found.symm.trans found'
  rw [of_decide_eq_true runs]
  exact JobState.noConfusion

theorem runningRows_nodup (s : JobStore) : ((runningRows s).map Prod.fst).Nodup :=
  s.jobs.nodup.sublist (List.filter_sublist.map Prod.fst)

end JobStore

/-! ## Between two reads -/

variable {M C : Type} [DecidableEq M] [DecidableEq C] {setup : Setup M} {q q' : Queue M C}

theorem steady_step {a : Action M C} (stepped : Step setup q a q') :
    q.store.Steady q'.store := by
  cases stepped with
  | quiet store => exact store ▸ .refl _
  | added => exact q.store.steady_add _ _
  | prioritized => exact q.store.steady_update _ fun _ begun => begun
  | dropped => exact q.store.steady_delete _
  | found => exact .refl _
  | settled => exact q.store.steady_write _ JobState.noConfusion
  | recovered => exact q.store.steady_recover _
  | picked => exact .refl _
  | onward _ store => exact store ▸ .refl _
  | begun => exact q.store.steady_write _ JobState.noConfusion
  | started => exact .refl _
  | @ended m now id job flagged held =>
      exact q.store.steady_write id (ending_over setup (q.store.find? id) now job flagged).1

theorem steady_run {actions : List (Action M C)} (ran : (queueing setup).run q actions = some q') :
    q.store.Steady q'.store := by
  induction actions generalizing q with
  | nil =>
      cases ran
      exact .refl _
  | cons a rest ih =>
      obtain ⟨next, stepped, ran⟩ := (queueing setup).run_cons_some ran
      exact (steady_step (step_cases stepped)).trans (ih ran)

section Count

variable {fingerprint : String} {everyone line : JobStore} {id other : Nat} {job : Job}
variable {front behind : List (Nat × Job)}

/-- The running jobs of the machine's own line. -/
def ours (fingerprint : String) (everyone : JobStore) : List (Nat × Job) :=
  (runningRows everyone).filter fun row => everyone.here fingerprint row.2

theorem inFront_iff (split : line.pending fingerprint = front ++ (id, job) :: behind) :
    InFront fingerprint everyone line id other ↔ other ∈ (ours fingerprint everyone ++ front).map Prod.fst := by
  rw [InFront, List.map_append, List.mem_append, JobStore.front_iff split]
  refine or_congr_left ?_
  constructor
  · rintro ⟨job, runs, own⟩
    exact List.mem_map.mpr ⟨(other, job), List.mem_filter.mpr ⟨runs, own⟩, rfl⟩
  · intro ahead
    obtain ⟨⟨other, job⟩, member, rfl⟩ := List.mem_map.mp ahead
    obtain ⟨runs, own⟩ := List.mem_filter.mp member
    exact ⟨job, runs, own⟩

/-- A job that runs when all jobs are read does not wait when the line is read. -/
theorem fronts_nodup (steady : everyone.Steady line)
    (split : line.pending fingerprint = front ++ (id, job) :: behind) :
    ((runningRows everyone ++ front).map Prod.fst).Nodup := by
  have distinct := line.pending_nodup fingerprint
  rw [split, List.map_append] at distinct
  rw [List.map_append]
  refine List.nodup_append.mpr ⟨everyone.runningRows_nodup, (List.nodup_append.mp distinct).1, ?_⟩
  intro x runs y waits same
  obtain ⟨row, member, rfl⟩ := List.mem_map.mp runs
  obtain ⟨⟨other, row'⟩, ahead, rfl⟩ := List.mem_map.mp waits
  obtain ⟨found, pending, -⟩ := JobStore.mem_pending.mp (split ▸ List.mem_append_left _ ahead)
  exact (steady.settled _ (JobStore.settled_of_runningRows member)).2 row' (same ▸ found) pending

/-- The count is of jobs in front where each running job is of the machine's own line. -/
theorem counts_iff (steady : everyone.Steady line)
    (split : line.pending fingerprint = front ++ (id, job) :: behind) :
    Counts fingerprint everyone line id ((runningRows everyone).length + front.length) ↔
      ∀ row ∈ runningRows everyone, everyone.here fingerprint row.2 = true := by
  constructor
  · rintro ⟨given, distinct, count, ahead⟩
    have most := (distinct.subperm fun other member => (inFront_iff split).mp (ahead other member)).length_le
    rw [count, List.length_map, List.length_append, ours] at most
    have least := List.length_filter_le (fun row : Nat × Job => everyone.here fingerprint row.2) (runningRows everyone)
    exact List.length_filter_eq_length_iff.mp (by omega)
  · intro own
    refine ⟨(runningRows everyone ++ front).map Prod.fst, fronts_nodup steady split, ?_, fun other member => ?_⟩
    · rw [List.length_map, List.length_append]
    · have all : ours fingerprint everyone = runningRows everyone := List.filter_eq_self.mpr own
      exact (inFront_iff split).mpr (all.symm ▸ member)

theorem told_of_waiting (steady : everyone.Steady line) (waits : job.state = .pending) (holding : Holding) :
    Told fingerprint everyone line id (describe fingerprint id job everyone line holding) ↔
      Listed fingerprint everyone line id := by
  rw [describe, waits]
  by_cases listed : ∃ row, (id, row) ∈ line.pending fingerprint
  · obtain ⟨row, member⟩ := listed
    obtain ⟨front, behind, split⟩ := List.append_of_mem member
    have present : ∃ row, line.find? id = some row ∧ row.state = .pending ∧ line.here fingerprint row = true :=
      ⟨row, JobStore.mem_pending.mp member⟩
    rw [JobStore.place_split split, Listed, and_iff_right present, ← counts_iff steady split]
    constructor
    · rintro ⟨info, told, counts⟩
      cases told
      exact counts _ rfl
    · intro counts
      refine ⟨_, rfl, fun count ahead => ?_⟩
      cases ahead
      exact counts
  · rw [JobStore.place_eq_none fun row member => listed ⟨row, member⟩]
    constructor
    · rintro ⟨info, told, -⟩
      cases told
    · rintro ⟨⟨row, waits⟩, -⟩
      exact absurd ⟨row, JobStore.mem_pending.mpr waits⟩ listed

/-- Nothing is ahead of a job that does not wait. -/
theorem told_of_begun (begun : job.state ≠ .pending) (holding : Holding) :
    Told fingerprint everyone line id (describe fingerprint id job everyone line holding) := by
  rw [describe]
  cases state : job.state with
  | pending => exact absurd state begun
  | running => exact ⟨_, rfl, fun _ ahead => by cases ahead⟩
  | done => exact ⟨_, rfl, fun _ ahead => by cases ahead⟩
  | failed => exact ⟨_, rfl, fun _ ahead => by cases ahead⟩
  | cancelled => exact ⟨_, rfl, fun _ ahead => by cases ahead⟩

end Count

/-- Steps of any workers and clients fall between the reads. -/
def Interleaved (setup : Setup M) (first everyone line : Queue M C) : Prop :=
  (∃ actions, (queueing setup).run first actions = some everyone) ∧
    ∃ actions, (queueing setup).run everyone actions = some line

/-- A job of the table is told of, with only jobs in front of it counted, where it does not wait, or waits in
the machine's line still and no other machine's job is running; and nowhere else. -/
theorem jobStatus_iff (setup : Setup M) (m : M) {first everyone line : Queue M C}
    (interleaved : Interleaved setup first everyone line) {jobId : String} {id : Nat} {job : Job}
    (named : key jobId = some id) (found : first.store.find? id = some job) (holding : Holding) :
    Told (setup.fingerprint m) everyone.store line.store id
        (jobStatus (setup.fingerprint m) jobId first.store everyone.store line.store holding) ↔
      (job.state = .pending → Listed (setup.fingerprint m) everyone.store line.store id) := by
  have got : get first.store jobId = some (id, job) := by
    rw [get, named, Option.bind_some, found, Option.map_some]
  rw [jobStatus, got]
  by_cases waits : job.state = .pending
  · obtain ⟨-, actions, ran⟩ := interleaved
    exact (told_of_waiting (steady_run ran) waits holding).trans (imp_iff_right waits).symm
  · exact iff_of_true (told_of_begun waits holding) fun pending => absurd pending waits

/-- Nothing holds the machine. -/
def free : Holding :=
  ⟨(true, "memory pressure normal"), none, none⟩

/-- A job waits behind one that its machine begins between the first read and the second. -/
theorem jobStatus_behind : ∃ first everyone line : Queue Bool Unit,
    Interleaved pair first everyone line ∧ runningRows first.store = [] ∧ (runningRows everyone.store).length = 1 ∧
      Told (pair.fingerprint true) everyone.store line.store 2
        (jobStatus (pair.fingerprint true) "0002" first.store everyone.store line.store free) := by
  obtain ⟨first, -, -, ready⟩ := System.reached_by_run
    (fun first : Queue Bool Unit => (first.store.find? 2).isSome ∧ runningRows first.store = [] ∧
      ((queueing pair).run first [.begin true 1]).any fun everyone =>
        (runningRows everyone.store).length = 1 ∧ (runningRows everyone.store).all (fun row =>
            everyone.store.here (pair.fingerprint true) row.2) ∧
          ((queueing pair).run everyone [.setPriority "0002" 5]).any fun line =>
            (line.store.find? 2).any fun row =>
              row.state = .pending ∧ line.store.here (pair.fingerprint true) row)
    (nothing_starts pair)
    (System.meets_true nothing [.add true (fun _ => false) request, .add true (fun _ => false) request,
      .recover true, .pick true])
    (by decide +kernel)
  obtain ⟨present, quiet, later⟩ := of_decide_eq_true ready
  obtain ⟨job, found⟩ := Option.isSome_iff_exists.mp present
  obtain ⟨everyone, began, later⟩ := (Option.any_eq_true _ _).mp later
  obtain ⟨one, own, later⟩ := of_decide_eq_true later
  obtain ⟨line, ordered, later⟩ := (Option.any_eq_true _ _).mp later
  obtain ⟨row, waiting, waits⟩ := (Option.any_eq_true _ _).mp later
  have interleaved : Interleaved pair first everyone line := ⟨⟨_, began⟩, _, ordered⟩
  refine ⟨first, everyone, line, interleaved, quiet, one, ?_⟩
  refine (jobStatus_iff pair true interleaved (by decide) found free).mpr fun _ => ?_
  exact ⟨⟨row, waiting, of_decide_eq_true waits⟩, List.all_eq_true.mp own⟩

/-- A job of the other machine waits; its status cannot be told here. -/
theorem status_raised :
    ¬ ∀ (first everyone line : Queue Bool Unit), (queueing pair).Reachable first →
      Interleaved pair first everyone line → ∀ (m : Bool) jobId id job, key jobId = some id →
        first.store.find? id = some job → ∀ holding,
          Told (pair.fingerprint m) everyone.store line.store id
            (jobStatus (pair.fingerprint m) jobId first.store everyone.store line.store holding) := by
  intro claimed
  obtain ⟨q, ran, reached, raised⟩ := System.reached_by_run
    (fun q : Queue Bool Unit => (q.store.find? 1).isSome ∧
      (jobStatus (pair.fingerprint true) "0001" q.store q.store q.store free).toOption = none)
    (nothing_starts pair) (System.meets_true nothing [.add false (fun _ => false) request]) (by decide +kernel)
  obtain ⟨present, raised⟩ := of_decide_eq_true raised
  obtain ⟨job, found⟩ := Option.isSome_iff_exists.mp present
  obtain ⟨info, told, -⟩ := claimed q q q reached ⟨⟨[], rfl⟩, [], rfl⟩ true "0001" 1 job (by decide) found free
  rw [told] at raised
  cases raised

end LocalHarness.WorkQueue
