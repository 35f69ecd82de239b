import LocalHarness.Evals.Receipt

/-! # One table of several runs

`compare_runs` checks each later run against the first. What the first leaves unsaid
is then compared between no two runs at all.
-/

namespace LocalHarness.Evals

open LocalHarness.Library

universe u

variable {ρ : Type u}

/-- What is stored of a run: its receipt, and a summary row for each candidate. -/
structure Data (ρ : Type u) where
  receipt : Option Raw
  summary : List (String × ρ)

structure Loaded (ρ : Type u) where
  file : String
  receipt : Receipt
  summary : List (String × ρ)

/-- How a comparison ends. The two errors are exceptions nothing catches. -/
inductive Outcome (ρ : Type u) where
  | unreadable (file why : String)
  | noReceipt (file : String)
  | keyError
  | indexError
  | across (axis : String) (loaded : List (Loaded ρ))
  | refused (first other : String) (why : Reason)
  | table (rows : Dict ρ)

namespace Outcome

def text (str : Option Scalar → String) (repr : Dict (Dict Scalar) → String) :
    Outcome ρ → List String
  | unreadable file why => ["cannot read " ++ file ++ ": " ++ why]
  | noReceipt file =>
      [file ++ " carries no receipt, so it cannot be compared with anything. Runs written before " ++
        "receipts existed are in this state; re-run to get one."]
  | refused first other why =>
      ["REFUSED: " ++ first ++ " and " ++ other ++ " are not comparable -- " ++ why.text str repr ++ ".",
        "Ranking them in one table would compare two different exams."]
  | _ => []

def isTable : Outcome ρ → Bool
  | table _ => true
  | _ => false

end Outcome

/-- `Path(f).parent.name` -/
def parentName (file : String) : String :=
  (((Text.split file '/').filter fun part => part ≠ "" ∧ part ≠ ".").dropLast.getLast?).getD ""

section

variable (settings : String → Dict Scalar) (read : String → Except String (Data ρ))

def loadOne (file : String) : Except (Outcome ρ) (Loaded ρ) :=
  match read file with
  | .error why => .error (.unreadable file why)
  | .ok data =>
      match data.receipt with
      | none => .error (.noReceipt file)
      | some raw =>
          match Receipt.from_dict settings raw with
          | none => .error .keyError
          | some receipt => .ok ⟨file, receipt, data.summary⟩

def load : List String → Except (Outcome ρ) (List (Loaded ρ))
  | [] => .ok []
  | file :: rest => do
      let first ← loadOne settings read file
      return first :: (← load rest)

/-- Same candidate in two runs: keep them apart by file. -/
def mergeRow (file : String) (merged : Dict ρ) (row : String × ρ) : Dict ρ :=
  merged.insert (if row.1 ∈ merged then row.1 ++ " (" ++ parentName file ++ ")" else row.1) row.2

def merge (loaded : List (Loaded ρ)) : Dict ρ :=
  loaded.foldl (fun merged run => run.summary.foldl (mergeRow run.file) merged) ∅

/-- The first run that is not comparable with `first`, and why. -/
def refusal (first : Loaded ρ) (others : List (Loaded ρ)) : Option (Outcome ρ) :=
  others.findSome? fun other =>
    (comparable first.receipt other.receipt).map (.refused first.file other.file)

/-- Put two or more finished runs in one table, or refuse to. -/
def compare_runs (files : List String) (across : String) : Outcome ρ :=
  match load settings read files with
  | .error outcome => outcome
  | .ok [] => .indexError
  | .ok (first :: others) =>
      if across ≠ "" then .across across (first :: others)
      else (refusal first others).getD (.table (merge (first :: others)))

end

/-- May be ranked together, as `comparable` has it. -/
def Comparable (a b : Loaded ρ) : Prop :=
  SameExam a.receipt b.receipt ∧ SameProvenance a.receipt b.receipt

theorem comparable_iff_loaded (a b : Loaded ρ) :
    comparable a.receipt b.receipt = none ↔ Comparable a b :=
  comparable_iff a.receipt b.receipt

/-- Every two of the runs are one exam. -/
def OneExam (loaded : List (Loaded ρ)) : Prop :=
  loaded.Pairwise fun a b => comparable a.receipt b.receipt = none

section

variable {settings : String → Dict Scalar} {read : String → Except String (Data ρ)}

theorem refusal_eq_none_iff {first : Loaded ρ} {others : List (Loaded ρ)} :
    refusal first others = none ↔ ∀ other ∈ others, comparable first.receipt other.receipt = none := by
  simp [refusal, List.findSome?_eq_none_iff]

/-- A refusal is not a table. -/
theorem refusal_isTable {first : Loaded ρ} {others : List (Loaded ρ)} {outcome : Outcome ρ}
    (refused : refusal first others = some outcome) : outcome.isTable = false := by
  obtain ⟨other, _, found⟩ := List.exists_of_findSome?_eq_some refused
  obtain ⟨why, _, rfl⟩ := Option.map_eq_some_iff.mp found
  rfl

theorem loadOne_error {file : String} {outcome : Outcome ρ}
    (failed : loadOne settings read file = .error outcome) : outcome.isTable = false := by
  unfold loadOne at failed
  split at failed
  next => cases failed; rfl
  next =>
    split at failed
    next => cases failed; rfl
    next =>
      split at failed
      next => cases failed; rfl
      next => cases failed

theorem load_cons {file : String} {rest : List String} {loaded : List (Loaded ρ)} :
    load settings read (file :: rest) = .ok loaded ↔
      ∃ first others, loadOne settings read file = .ok first ∧
        load settings read rest = .ok others ∧ loaded = first :: others := by
  cases one : loadOne settings read file <;> cases all : load settings read rest <;>
    simp [load, one, all, bind, Except.bind, pure, Except.pure, eq_comm]

theorem load_error {files : List String} {outcome : Outcome ρ}
    (failed : load settings read files = .error outcome) : outcome.isTable = false := by
  induction files with
  | nil => cases failed
  | cons file rest ih =>
      cases one : loadOne settings read file with
      | error why =>
          simp only [load, one, bind, Except.bind, Except.error.injEq] at failed
          exact failed ▸ loadOne_error one
      | ok first =>
          cases all : load settings read rest with
          | error why =>
              simp only [load, one, all, bind, Except.bind, Except.error.injEq] at failed
              exact ih (failed ▸ all)
          | ok others => simp [load, one, all, bind, Except.bind, pure, Except.pure] at failed

theorem loadOne_file {file : String} {run : Loaded ρ}
    (ok : loadOne settings read file = .ok run) : run.file = file := by
  unfold loadOne at ok
  split at ok
  next => cases ok
  next =>
    split at ok
    next => cases ok
    next =>
      split at ok
      next => cases ok
      next => cases ok; rfl

theorem load_ok_iff {files : List String} {loaded : List (Loaded ρ)} :
    load settings read files = .ok loaded ↔
      loaded.map Loaded.file = files ∧ ∀ run ∈ loaded, loadOne settings read run.file = .ok run := by
  induction files generalizing loaded with
  | nil => cases loaded <;> simp [load]
  | cons file rest ih =>
      rw [load_cons]
      constructor
      · rintro ⟨first, others, one, all, rfl⟩
        obtain ⟨names, each⟩ := ih.mp all
        have name := loadOne_file one
        exact ⟨by rw [List.map_cons, name, names], List.forall_mem_cons.mpr ⟨name ▸ one, each⟩⟩
      · rintro ⟨names, each⟩
        cases loaded with
        | nil => cases names
        | cons first others =>
            obtain ⟨name, names⟩ := List.cons.inj names
            obtain ⟨one, each⟩ := List.forall_mem_cons.mp each
            exact ⟨first, others, name ▸ one, ih.mpr ⟨names, each⟩, rfl⟩

theorem load_reordered {files : List String} {loaded reordered : List (Loaded ρ)}
    (ok : load settings read files = .ok loaded) (same : loaded.Perm reordered) :
    load settings read (reordered.map Loaded.file) = .ok reordered :=
  load_ok_iff.mpr ⟨rfl, fun run inside => (load_ok_iff.mp ok).2 run (same.mem_iff.mpr inside)⟩

/-- Files in another order load to the same runs in that order. -/
theorem load_perm {files reordered : List String} (same : files.Perm reordered) :
    ∀ {loaded}, load settings read files = .ok loaded →
      ∃ loaded', load settings read reordered = .ok loaded' ∧ loaded.Perm loaded' := by
  induction same with
  | nil =>
      intro loaded ok
      exact ⟨loaded, ok, .refl _⟩
  | cons file _ ih =>
      intro loaded ok
      obtain ⟨first, others, one, all, rfl⟩ := load_cons.mp ok
      obtain ⟨others', all', same⟩ := ih all
      exact ⟨first :: others', load_cons.mpr ⟨first, others', one, all', rfl⟩, same.cons first⟩
  | swap file other rest =>
      intro loaded ok
      obtain ⟨a, more, oneA, next, rfl⟩ := load_cons.mp ok
      obtain ⟨b, others, oneB, all, rfl⟩ := load_cons.mp next
      exact ⟨b :: a :: others,
        load_cons.mpr ⟨b, a :: others, oneB, load_cons.mpr ⟨a, others, oneA, all, rfl⟩, rfl⟩,
        .swap b a others⟩
  | trans _ _ ihFirst ihSecond =>
      intro loaded ok
      obtain ⟨middle, ok, same⟩ := ihFirst ok
      obtain ⟨last, ok, same'⟩ := ihSecond ok
      exact ⟨last, ok, same.trans same'⟩

/-- A table is printed exactly where the files load to runs that each match the first. -/
theorem isTable_iff {files : List String} :
    (compare_runs settings read files "").isTable = true ↔
      ∃ loaded, load settings read files = .ok loaded ∧ loaded ≠ [] ∧
        Lenient.FromFirst (fun a b => SameExam a.receipt b.receipt)
          (fun a b => SameProvenance a.receipt b.receipt) loaded := by
  unfold compare_runs
  split
  next outcome failed => simp [failed, load_error failed]
  next ok => simp [ok, Outcome.isTable]
  next first others ok =>
    simp only [ok, Except.ok.injEq, exists_eq_left', ne_eq, not_true_eq_false, ↓reduceIte,
      reduceCtorEq, not_false_eq_true, true_and, Lenient.FromFirst, ← comparable_iff]
    rw [← refusal_eq_none_iff]
    cases refused : refusal first others with
    | none => simp [Outcome.isTable]
    | some outcome => simp [refusal_isTable refused]

end

/-- A table is only ever of runs every two of which are one exam, and whether it is
    printed is the same whichever run comes first. -/
def Ranked (settings : String → Dict Scalar) (read : String → Except String (Data ρ))
    (files : List String) : Prop :=
  (∀ loaded, load settings read files = .ok loaded →
    (compare_runs settings read files "").isTable = true → OneExam loaded) ∧
  ∀ reordered, files.Perm reordered →
    (compare_runs settings read files "").isTable = (compare_runs settings read reordered "").isTable

/-- No run that is comparable with all the others leaves unsaid what two of them state
    differently. -/
def NothingUnsaid (loaded : List (Loaded ρ)) : Prop :=
  ∀ first others, loaded.Perm (first :: others) →
    (∀ other ∈ others, comparable first.receipt other.receipt = none) →
    others.Pairwise fun a b => SameProvenance a.receipt b.receipt

private abbrev SameExamOf (a b : Loaded ρ) : Prop :=
  SameExam a.receipt b.receipt

private abbrev SameProvenanceOf (a b : Loaded ρ) : Prop :=
  SameProvenance a.receipt b.receipt

private theorem oneExam_iff {loaded : List (Loaded ρ)} :
    OneExam loaded ↔ Lenient.Throughout SameExamOf SameProvenanceOf loaded := by
  simp only [OneExam, Lenient.Throughout, comparable_iff]

private theorem nothingUnsaid_iff {loaded : List (Loaded ρ)} :
    NothingUnsaid loaded ↔ ∀ first others, loaded.Perm (first :: others) →
      Lenient.FromFirst SameExamOf SameProvenanceOf (first :: others) →
        others.Pairwise SameProvenanceOf := by
  simp only [NothingUnsaid, Lenient.FromFirst, comparable_iff]

/-- Where the files load, the table's gate is the gate of the first run. -/
private theorem isTable_of_load {settings : String → Dict Scalar}
    {read : String → Except String (Data ρ)} {files : List String} {loaded : List (Loaded ρ)}
    (ok : load settings read files = .ok loaded) :
    (compare_runs settings read files "").isTable = true ↔
      loaded ≠ [] ∧ Lenient.FromFirst SameExamOf SameProvenanceOf loaded := by
  simp [isTable_iff, ok]

private theorem gate_iff (loaded : List (Loaded ρ)) :
    ((Lenient.FromFirst SameExamOf SameProvenanceOf loaded →
          Lenient.Throughout SameExamOf SameProvenanceOf loaded) ∧
        ∀ reordered, loaded.Perm reordered →
          (Lenient.FromFirst SameExamOf SameProvenanceOf loaded ↔
            Lenient.FromFirst SameExamOf SameProvenanceOf reordered)) ↔
      NothingUnsaid loaded := by
  rw [nothingUnsaid_iff]
  exact Lenient.fromFirst_sound_iff SameExamOf SameProvenanceOf (fun _ _ => .symm _ _)
    (fun _ _ _ => .trans _ _ _) (fun _ _ => .symm _ _) loaded

/-- The first run stands for all of them exactly where it, and any other that could have
    come first, leaves nothing unsaid that two of the rest state differently. -/
theorem ranked_iff (settings : String → Dict Scalar) (read : String → Except String (Data ρ))
    (files : List String) :
    Ranked settings read files ↔
      ∀ loaded, load settings read files = .ok loaded → NothingUnsaid loaded := by
  constructor
  · rintro ⟨sound, anyOrder⟩ loaded ok
    have table := isTable_of_load ok
    refine (gate_iff loaded).mp ⟨fun each => ?_, fun reordered same => ?_⟩
    · by_cases empty : loaded = []
      · exact empty ▸ List.Pairwise.nil
      · exact oneExam_iff.mp (sound loaded ok (table.mpr ⟨empty, each⟩))
    · have ok' := load_reordered ok same
      have agree := anyOrder _ ((load_ok_iff.mp ok).1 ▸ same.map Loaded.file)
      have table' := isTable_of_load ok'
      by_cases empty : loaded = []
      · subst empty
        rw [List.nil_perm.mp same]
      · have filled : reordered ≠ [] := fun none => empty (List.perm_nil.mp (none ▸ same))
        rw [agree, table'] at table
        simpa only [empty, filled, ne_eq, not_false_eq_true, true_and] using table.symm
  · intro clear
    refine ⟨fun loaded ok printed => ?_, fun reordered same => Bool.eq_iff_iff.mpr ⟨?_, ?_⟩⟩
    · have each := ((isTable_of_load ok).mp printed).2
      exact oneExam_iff.mpr (((gate_iff loaded).mpr (clear loaded ok)).1 each)
    · intro printed
      obtain ⟨loaded, ok, filled, each⟩ := isTable_iff.mp printed
      obtain ⟨loaded', ok', same'⟩ := load_perm same ok
      have first := (((gate_iff loaded).mpr (clear loaded ok)).2 loaded' same').mp each
      exact (isTable_of_load ok').mpr ⟨fun empty => filled (List.perm_nil.mp (empty ▸ same')), first⟩
    · intro printed
      obtain ⟨loaded', ok', filled, each⟩ := isTable_iff.mp printed
      obtain ⟨loaded, ok, same'⟩ := load_perm same.symm ok'
      have first := (((gate_iff loaded).mpr (clear loaded ok)).2 loaded' same'.symm).mpr each
      exact (isTable_of_load ok).mpr ⟨fun empty => filled (List.perm_nil.mp (empty ▸ same')), first⟩

/-! ## A run from before the digest -/

/-- Three runs of one lane: one stored before runs carried a digest of their cases, and
    one on either side of an edit to them. -/
def aroundAnEdit (file : String) : Except String (Data Nat) :=
  let run : Raw := { modality := some "svg", case_ids := some ["frog"] }
  match file with
  | "old/results.json" => .ok ⟨some run, [("local-mid", 3)]⟩
  | "before/results.json" => .ok ⟨some { run with cases_digest := some "6f1c" }, [("local-mid", 4)]⟩
  | "after/results.json" => .ok ⟨some { run with cases_digest := some "b07a" }, [("local-mid", 9)]⟩
  | _ => .error "no such file"

/-- With the run that carries no digest first, the two exams share a table; with it
    second they do not, and the two runs are not comparable. -/
theorem table_of_two_exams :
    ¬ Ranked (fun _ => ∅) aroundAnEdit
      ["old/results.json", "before/results.json", "after/results.json"] := by
  intro ranked
  have same := ranked.2 ["before/results.json", "old/results.json", "after/results.json"] (.swap _ _ _)
  revert same
  decide

end LocalHarness.Evals
