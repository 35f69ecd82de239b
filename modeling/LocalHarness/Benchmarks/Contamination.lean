import Mathlib.Data.List.MinMax
import Mathlib.Data.List.Perm.Subperm
import LocalHarness.Library.IsoDates
import LocalHarness.Library.Unicode

/-! # How old a benchmark is for the candidates of its lane

A benchmark is clean by its date where it was created after what the candidates were trained on, and so was
the benchmark that it copies. Cutoffs are months or days, and the newest of them is the one that is asked.
-/

namespace LocalHarness.Benchmarks

open LocalHarness.Library LocalHarness.Library.IsoDates LocalHarness.Library.Lexical

/-! ## Names of datasets -/

/-- `[a-z0-9]` -/
def isWord (c : Char) : Bool :=
  c.isLower || c.isDigit

def strip (s : List Char) : List Char :=
  (s.dropWhile Text.isSpace).rdropWhile Text.isSpace

/-- What follows the last stroke of a name. -/
def repoName (s : List Char) : List Char :=
  (s.splitOn '/').getLastD []

/-- What follows the registry in the name of a benchmark. -/
def source (name : List Char) : List Char :=
  if ':' ∈ name then (name.dropWhile (· ≠ ':')).tail else name

section

variable (u : Unicode)

/-- `_words` -/
def words (s : List Char) : List (List Char) :=
  ((u.lower s).splitOnP fun c => !isWord c).filter (· ≠ [])

/-- One of the datasets is the source, or has all words of its name. -/
def declared (source : List Char) (datasets : List (List Char)) : Bool :=
  let src := u.lower (strip source)
  let mine := words u (repoName src)
  datasets.any fun dataset =>
    let d := u.lower (strip dataset)
    d == src || (mine != [] && mine.all (words u (repoName d)).contains)

end

/-! ## Cutoffs and benchmarks -/

inductive Cutoff
  | month (m : Month)
  | day (d : Date)
  deriving DecidableEq

def Cutoff.text : Cutoff → List Char
  | .month m => m.text
  | .day d => d.text

/-- What is known of a candidate's training. -/
structure Training where
  candidate : List Char
  lane : List Char
  cutoff : List Char
  datasets : List (List Char)
  dated : cutoff = [] ∨ ∃ c : Cutoff, cutoff = c.text

structure Benchmark where
  name : List Char
  registry : List Char
  lane : List Char
  created : List Char
  dated : created = [] ∨ ∃ d : Date, created = d.text

inductive Status
  | declared
  | predates
  | afterCutoff
  | unknown
  deriving DecidableEq

section

variable (u : Unicode)

/-- An older benchmark that this one's name copies. -/
def Copies (bench k : Benchmark) : Prop :=
  k.name ≠ bench.name ∧ k.created ≠ [] ∧ bench.created ≠ [] ∧ k.created < bench.created ∧
    declared u (source k.name) [source bench.name] = true

instance (bench k : Benchmark) : Decidable (Copies u bench k) :=
  inferInstanceAs (Decidable (_ ∧ _ ∧ _ ∧ _ ∧ _))

/-- `_original`: the first of the earliest. -/
def original (bench : Benchmark) (known : List Benchmark) : Option Benchmark :=
  (known.filter fun k => Copies u bench k).argmin Benchmark.created

/-- The rows of every lane, and of the benchmark's. -/
def laneRows (bench : Benchmark) (training : List Training) : List Training :=
  training.filter fun t => t.lane = [] ∨ t.lane = bench.lane

def Lists (bench : Benchmark) (t : Training) : Prop :=
  bench.registry = "huggingface".toList ∧ declared u (source bench.name) t.datasets = true

instance (bench : Benchmark) (t : Training) : Decidable (Lists u bench t) :=
  inferInstanceAs (Decidable (_ ∧ _))

/-- Cut to the length of the cutoff, the date is no later. -/
def Covered (created : List Char) (newest : Training) : Prop :=
  created.take newest.cutoff.length ≤ newest.cutoff

instance (created : List Char) (newest : Training) : Decidable (Covered created newest) :=
  inferInstanceAs (Decidable (_ ≤ _))

/-- The first of the rows with the newest cutoff. -/
def newest (bench : Benchmark) (training : List Training) : Option Training :=
  ((laneRows bench training).filter fun t => t.cutoff ≠ []).argmax Training.cutoff

def before (newest : Training) : List Char :=
  ", before ".toList ++ newest.candidate ++ "'s cutoff ".toList ++ newest.cutoff

def contamination (bench : Benchmark) (training : List Training) (known : List Benchmark) :
    Status × List Char :=
  match (laneRows bench training).find? fun t => Lists u bench t with
  | some t => (.declared, t.candidate ++ " lists it in its training data".toList)
  | none =>
      match newest bench training with
      | none => (.unknown, "no candidate cutoff recorded".toList)
      | some newest =>
          if bench.created = [] then (.unknown, "no creation date".toList)
          else
            match (original u bench known).filter fun k => Covered k.created newest with
            | some k => (.predates, "looks like a copy of ".toList ++ k.name ++ " (created ".toList ++ k.created ++
                ")".toList ++ before newest)
            | none =>
                if Covered bench.created newest then
                  (.predates, "created ".toList ++ bench.created ++ before newest)
                else (.afterCutoff, "created ".toList ++ bench.created ++ ", after every candidate cutoff".toList)

/-! ## What a status says -/

/-- The day is past the month or the day. -/
def After (d : Date) : Cutoff → Prop
  | .month m => m.Before d.toMonth
  | .day e => e.Before d

/-- A clean date is past every cutoff of the lane, that of an original too; and with fewer rows, or rows in
another order, the benchmark was not found to be older. -/
structure Honest (bench : Benchmark) (training : List Training) (known : List Benchmark) : Prop where
  after : (contamination u bench training known).1 = .afterCutoff →
    ∀ t ∈ training, t.lane = [] ∨ t.lane = bench.lane → ∀ c : Cutoff, t.cutoff = c.text →
      ∀ d : Date, (bench.created = d.text ∨ ∃ k ∈ known, Copies u bench k ∧ k.created = d.text) → After d c
  kept : ∀ fewer : List Training, fewer.Subperm training →
    (contamination u bench fewer known).1 = .declared ∨ (contamination u bench fewer known).1 = .predates →
      (contamination u bench training known).1 ≠ .afterCutoff

/-- When the benchmark was created, or else its original. -/
def origin (bench : Benchmark) (known : List Benchmark) : List Char :=
  ((original u bench known).map Benchmark.created).getD bench.created

/-- No row of the lane has the month of the origin for its cutoff while the newest cutoff is an earlier day;
unless a row lists the benchmark, or it has no date. -/
def Clear (bench : Benchmark) (training : List Training) (known : List Benchmark) : Prop :=
  (∃ t ∈ laneRows bench training, Lists u bench t) ∨ bench.created = [] ∨
    ∀ t ∈ laneRows bench training, ∀ m : Month, t.cutoff = m.text →
      (origin u bench known).take 7 = m.text → ∀ n, newest bench training = some n → ∀ e : Date,
        n.cutoff = e.text → ¬ e.text < origin u bench known

variable {u} {bench k : Benchmark} {training fewer : List Training} {known : List Benchmark} {t n : Training}
  {c : Cutoff} {d : Date} {created : List Char}

/-! ## The dates of a benchmark -/

omit u in
theorem after_iff (d : Date) (c : Cutoff) : After d c ↔ c.text < d.text.take c.text.length := by
  cases c with
  | month m =>
      rw [Cutoff.text, m.length_text, d.take_text]
      exact (Month.text_lt_text _ _).symm
  | day e =>
      rw [Cutoff.text, e.length_text, ← d.length_text, List.take_length]
      exact (Date.text_lt_text _ _).symm

/-- The origin is the date of the benchmark or of one that it copies, -/
theorem origin_cases (u : Unicode) (bench : Benchmark) (known : List Benchmark) :
    origin u bench known = bench.created ∨ ∃ k ∈ known, Copies u bench k ∧ k.created = origin u bench known := by
  cases first : original u bench known with
  | none => exact .inl (by rw [origin, first]; rfl)
  | some k =>
      obtain ⟨member, copies⟩ := List.mem_filter.mp (List.argmin_mem first)
      exact .inr ⟨k, member, of_decide_eq_true copies, by rw [origin, first]; rfl⟩

/-- and the earliest of these dates. -/
theorem origin_le (of : bench.created = created ∨ ∃ k ∈ known, Copies u bench k ∧ k.created = created) :
    origin u bench known ≤ created := by
  cases first : original u bench known with
  | none =>
      rw [origin, first]
      rcases of with rfl | ⟨k, member, copies, -⟩
      · exact le_rfl
      · have none_ := List.argmin_eq_none.mp first
        exact absurd (none_ ▸ List.mem_filter.mpr ⟨member, decide_eq_true copies⟩) List.not_mem_nil
  | some o =>
      rw [origin, first]
      rcases of with rfl | ⟨k, member, copies, rfl⟩
      · exact (of_decide_eq_true (List.mem_filter.mp (List.argmin_mem first)).2).2.2.2.1.le
      · have earliest : o ∈ (known.filter fun k => Copies u bench k).argmin Benchmark.created := first
        exact not_lt.mp (List.not_lt_of_mem_argmin (List.mem_filter.mpr ⟨member, decide_eq_true copies⟩) earliest)

omit u in
theorem not_covered {later : List Char} (le : created ≤ later) (stays : ¬ Covered created n) :
    ¬ Covered later n := by
  rw [Covered, not_le] at stays ⊢
  exact stays.trans_le (take_le_take _ le)

/-! ## The newest cutoff -/

omit u in
theorem mem_laneRows : t ∈ laneRows bench training ↔ t ∈ training ∧ (t.lane = [] ∨ t.lane = bench.lane) := by
  rw [laneRows, List.mem_filter, decide_eq_true_eq]

omit u in
theorem newest_mem (newest_ : newest bench training = some n) :
    n ∈ laneRows bench training ∧ n.cutoff ≠ [] := by
  obtain ⟨member, dated⟩ := List.mem_filter.mp (List.argmax_mem newest_)
  exact ⟨member, of_decide_eq_true dated⟩

omit u in
theorem le_newest (newest_ : newest bench training = some n) (member : t ∈ laneRows bench training)
    (dated : t.cutoff ≠ []) : t.cutoff ≤ n.cutoff := by
  have last : n ∈ ((laneRows bench training).filter fun t => t.cutoff ≠ []).argmax Training.cutoff := newest_
  exact not_lt.mp (List.not_lt_of_mem_argmax (List.mem_filter.mpr ⟨member, decide_eq_true dated⟩) last)

omit u in
theorem exists_newest (member : t ∈ laneRows bench training) (dated : t.cutoff ≠ []) :
    ∃ n, newest bench training = some n := by
  cases newest_ : newest bench training with
  | some n => exact ⟨n, rfl⟩
  | none =>
      have none_ := List.argmax_eq_none.mp newest_
      exact absurd (none_ ▸ List.mem_filter.mpr ⟨member, decide_eq_true dated⟩) List.not_mem_nil

/-! ## The status -/

/-- What decides on the status: a row that lists the benchmark, and the origin beside the newest cutoff. -/
theorem status_eq (u : Unicode) (bench : Benchmark) (training : List Training) (known : List Benchmark) :
    (contamination u bench training known).1 =
      if ∃ t ∈ laneRows bench training, Lists u bench t then .declared
      else
        match newest bench training with
        | none => .unknown
        | some n =>
            if bench.created = [] then .unknown
            else if Covered (origin u bench known) n then .predates else .afterCutoff := by
  rw [contamination]
  cases found : (laneRows bench training).find? fun t => Lists u bench t with
  | some t =>
      have lists := List.find?_some found
      rw [if_pos ⟨t, List.mem_of_find?_eq_some found, of_decide_eq_true lists⟩]
  | none =>
      have unlisted : ¬ ∃ t ∈ laneRows bench training, Lists u bench t := by
        rintro ⟨t, member, lists⟩
        exact List.find?_eq_none.mp found t member (decide_eq_true lists)
      rw [if_neg unlisted]
      cases newest bench training with
      | none => rfl
      | some n =>
          dsimp only
          by_cases undated : bench.created = []
          · rw [if_pos undated, if_pos undated]
          · rw [if_neg undated, if_neg undated]
            cases first : original u bench known with
            | none =>
                rw [origin, first]
                dsimp only [Option.filter_none, Option.map_none, Option.getD_none]
                split_ifs <;> rfl
            | some o =>
                have here : origin u bench known = o.created := by rw [origin, first]; rfl
                rw [here, Option.filter_some]
                by_cases covered : Covered o.created n
                · rw [if_pos covered, if_pos (decide_eq_true covered)]
                · have older : o.created ≤ bench.created := here ▸ origin_le (.inl rfl)
                  rw [if_neg covered, if_neg (mt of_decide_eq_true covered)]
                  exact congrArg Prod.fst (if_neg (not_covered older covered))

theorem afterCutoff_iff : (contamination u bench training known).1 = .afterCutoff ↔
    (¬ ∃ t ∈ laneRows bench training, Lists u bench t) ∧ bench.created ≠ [] ∧
      ∃ n, newest bench training = some n ∧ n.cutoff < (origin u bench known).take n.cutoff.length := by
  rw [status_eq]
  split
  next listed => exact ⟨fun same => (by cases same), fun ⟨unlisted, _⟩ => absurd listed unlisted⟩
  next unlisted =>
    cases newest bench training with
    | none => exact ⟨fun same => (by cases same), fun ⟨_, _, n, none_, _⟩ => (by cases none_)⟩
    | some n =>
        dsimp only
        split_ifs with undated covered
        · exact ⟨fun same => (by cases same), fun ⟨_, dated, _⟩ => absurd undated dated⟩
        · refine ⟨fun same => (by cases same), fun ⟨_, _, n', same, past⟩ => ?_⟩
          obtain rfl := Option.some.inj same
          exact absurd past (not_lt.mpr covered)
        · exact iff_of_true rfl ⟨unlisted, undated, n, rfl, not_le.mp covered⟩

theorem declared_iff : (contamination u bench training known).1 = .declared ↔
    ∃ t ∈ laneRows bench training, Lists u bench t := by
  rw [status_eq]
  split
  next listed => exact iff_of_true rfl listed
  next unlisted =>
    refine iff_of_false ?_ unlisted
    cases newest bench training with
    | none => exact fun same => (by cases same)
    | some n =>
        dsimp only
        split_ifs <;> exact fun same => (by cases same)

theorem covered_of_predates (predates : (contamination u bench training known).1 = .predates) :
    ∃ n, newest bench training = some n ∧ Covered (origin u bench known) n := by
  rw [status_eq] at predates
  split at predates
  next => cases predates
  next =>
    cases newest_ : newest bench training with
    | none =>
        rw [newest_] at predates
        cases predates
    | some n =>
        rw [newest_] at predates
        dsimp only at predates
        split_ifs at predates with undated covered
        exact ⟨n, rfl, covered⟩

/-! ## Clean dates -/

/-- Of a benchmark with a date the origin is a day. -/
theorem exists_origin (u : Unicode) (known : List Benchmark) (dated : bench.created ≠ []) : ∃ d : Date,
    origin u bench known = d.text ∧
      (bench.created = d.text ∨ ∃ k ∈ known, Copies u bench k ∧ k.created = d.text) := by
  rcases origin_cases u bench known with own | ⟨k, member, copies, own⟩
  · obtain ⟨d, day⟩ := bench.dated.resolve_left dated
    exact ⟨d, own.trans day, .inl day⟩
  · obtain ⟨d, day⟩ := k.dated.resolve_left copies.2.1
    exact ⟨d, own.symm.trans day, .inr ⟨k, member, copies, day⟩⟩

/-- The one cutoff that a clean date is not past is its month's, while an earlier day is the newest. -/
theorem after_of_clear (clear : Clear u bench training known)
    (clean : (contamination u bench training known).1 = .afterCutoff) (member : t ∈ training)
    (lane : t.lane = [] ∨ t.lane = bench.lane) (cutoff : t.cutoff = c.text)
    (of : bench.created = d.text ∨ ∃ k ∈ known, Copies u bench k ∧ k.created = d.text) : After d c := by
  obtain ⟨unlisted, dated, n, newest_, past⟩ := afterCutoff_iff.mp clean
  rw [after_iff]
  by_contra stays
  have own := mem_laneRows.mpr ⟨member, lane⟩
  have some_ : t.cutoff ≠ [] := by
    rw [cutoff]
    cases c with
    | month m => exact List.ne_nil_of_length_eq_add_one m.length_text
    | day e => exact List.ne_nil_of_length_eq_add_one e.length_text
  have le : c.text ≤ n.cutoff := cutoff ▸ le_newest newest_ own some_
  have stays' : ¬ c.text < (origin u bench known).take c.text.length :=
    not_lt.mpr ((take_le_take _ (origin_le of)).trans (not_lt.mp stays))
  obtain ⟨shorter, same⟩ := (not_lt_take_iff le past).mp stays'
  obtain ⟨c', day⟩ := n.dated.resolve_left (newest_mem newest_).2
  rw [day] at shorter past
  cases c with
  | day e =>
      cases c' with
      | month m =>
          rw [Cutoff.text, Cutoff.text, e.length_text, m.length_text] at shorter
          omega
      | day e' =>
          rw [Cutoff.text, Cutoff.text, e.length_text, e'.length_text] at shorter
          omega
  | month m =>
      cases c' with
      | month m' =>
          rw [Cutoff.text, Cutoff.text, m.length_text, m'.length_text] at shorter
          omega
      | day e =>
          rw [Cutoff.text, m.length_text] at same
          rcases clear with listed | undated | clear
          · exact unlisted listed
          · exact dated undated
          · exact clear t own m cutoff same n newest_ e day (past.trans_le (take_le _ _))

theorem honest_of_clear (clear : Clear u bench training known) : Honest u bench training known where
  after clean t member lane c cutoff d of := after_of_clear clear clean member lane cutoff of
  kept fewer inside before clean := by
    have kept (t : Training) (own : t ∈ laneRows bench fewer) : t ∈ laneRows bench training :=
      mem_laneRows.mpr ⟨List.Subperm.subset inside (mem_laneRows.mp own).1, (mem_laneRows.mp own).2⟩
    obtain ⟨unlisted, dated, -⟩ := afterCutoff_iff.mp clean
    rcases before with declares | predates
    · obtain ⟨t, own, lists⟩ := declared_iff.mp declares
      exact unlisted ⟨t, kept t own, lists⟩
    · obtain ⟨n, newest_, covered⟩ := covered_of_predates predates
      obtain ⟨own, some_⟩ := newest_mem newest_
      obtain ⟨member, lane⟩ := mem_laneRows.mp (kept n own)
      obtain ⟨c, cutoff⟩ := n.dated.resolve_left some_
      obtain ⟨d, day, of⟩ := exists_origin u known dated
      have past := (after_iff d c).mp (after_of_clear clear clean member lane cutoff of)
      rw [Covered, day, cutoff] at covered
      exact absurd past (not_lt.mpr covered)

theorem clear_of_honest (honest : Honest u bench training known) : Clear u bench training known := by
  by_cases listed : ∃ t ∈ laneRows bench training, Lists u bench t
  · exact .inl listed
  by_cases dated : bench.created = []
  · exact .inr (.inl dated)
  refine .inr (.inr fun t own m cutoff same n newest_ e day earlier => ?_)
  obtain ⟨d, here, of⟩ := exists_origin u known dated
  have clean : (contamination u bench training known).1 = .afterCutoff := by
    refine afterCutoff_iff.mpr ⟨listed, dated, n, newest_, ?_⟩
    rw [day, e.length_text, here, ← d.length_text, List.take_length, ← here]
    exact earlier
  obtain ⟨member, lane⟩ := mem_laneRows.mp own
  have past := (after_iff d (.month m)).mp (honest.after clean t member lane (.month m) cutoff d of)
  rw [Cutoff.text, m.length_text, ← here, same] at past
  exact lt_irrefl _ past

/-- A clean date is past every cutoff, and no row that is added makes it one, in exactly the cases where no
row has the month of the origin for its cutoff while the newest cutoff is an earlier day. -/
theorem contamination_honest_iff (u : Unicode) (bench : Benchmark) (training : List Training)
    (known : List Benchmark) : Honest u bench training known ↔ Clear u bench training known :=
  ⟨clear_of_honest, honest_of_clear⟩

end

/-! ## A month and a day of it -/

def august : Month := ⟨2025, 8, by decide, by decide, by decide⟩

def fifth : Date := ⟨august, 5, by decide, by decide⟩

def twentieth : Date := ⟨august, 20, by decide, by decide⟩

def bench : Benchmark :=
  ⟨"gh:org/bench".toList, "github".toList, "code".toList, twentieth.text, .inr ⟨twentieth, rfl⟩⟩

def trained : List Training :=
  [⟨"a".toList, [], august.text, [], .inr ⟨.month august, rfl⟩⟩,
    ⟨"b".toList, [], fifth.text, [], .inr ⟨.day fifth, rfl⟩⟩]

/-- The benchmark was created in the month of a cutoff and is said to be past every cutoff. -/
theorem month_not_past : ¬ Honest Unicode.small bench trained [] := by
  intro honest
  have clean : (contamination Unicode.small bench trained []).1 = .afterCutoff := by decide
  have past := honest.after clean _ List.mem_cons_self (.inl rfl) (.month august) rfl twentieth (.inl rfl)
  rcases past with year | ⟨-, month⟩
  · exact absurd year (by decide)
  · exact absurd month (by decide)

end LocalHarness.Benchmarks
