import LocalHarness.Tiers.Machine

/-! # The inspect tier's verdict

`decide` turns what was read of a candidate into one verdict, and `untilOf` says what
would end a refusal. `decide_sorts` is the whole of what a verdict can be.
-/

namespace LocalHarness.Tiers.Inspect

open LocalHarness.Library LocalHarness.MemoryStore

/-- `needs` names the first runtime the candidate offers. -/
inductive FitVerdict
  | needs (runtime : Runtime)
  | tooBig
  | dead
  | noEntryPoint
  | unknown
  | fits
  deriving DecidableEq, Repr

/-- What was read of a candidate, and what `decide` made of it. -/
structure Fit where
  registry : String := "github"
  verdict : FitVerdict := .unknown
  why : String := ""
  weights : List (String × Nat) := []
  largest : Nat := 0
  smallest : Nat := 0
  unsized : List String := []
  cudaMentioned : List String := []
  mlx : Bool := false
  upstreamIdleDays : ℚ := 0
  gguf : Bool := false
  ds4 : Bool := false
  resident : Nat := 0
  streaming : Bool := false
  ds4File : String := ""
  cuda : List String := []
  entryPoints : List String := []
  lastCommit : String := ""
  sourceKb : Nat := 0
  offered : List Runtime := []

def HUGGINGFACE : String := "huggingface"

def UPSTREAM_DEAD_DAYS : ℚ := 730

def CLONE_KB_CAP : Nat := 250000

/-- A size as it is printed, to a tenth of a GiB. -/
def gib (bytes : Nat) : String :=
  Decimal.fixed 1 ((bytes : ℚ) / GIB)

/-- The runtimes a candidate offers. -/
def offers (fit : Fit) : List Runtime :=
  (if fit.mlx then [.mlx] else []) ++ (if fit.cuda ≠ [] then [.cuda] else []) ++
    (if fit.gguf then [.llamacpp] else []) ++ (if fit.ds4 then [.ds4] else [])

/-- What a candidate depends on, in words. -/
def named (fit : Fit) (offered : List Runtime) : String :=
  if .cuda ∈ offered then ", ".intercalate (fit.cuda.take 3)
  else if offered.head? = some .llamacpp then "GGUF weights"
  else if offered.head? = some .ds4 then "ds4's own GGUF"
  else "mlx"

def without (fit : Fit) (offered : List Runtime) : String :=
  let missing := ", ".intercalate (offered.map Runtime.text)
  "depends on " ++ named fit offered ++
    if 1 < offered.length then ", and this machine has none of " ++ missing
    else ", and this machine has no " ++ missing

/-- A ds4 file is held against its resident weights; its tables stay on disk. -/
def decideDs4 (fit : Fit) (ceiling : Nat) : Fit :=
  let disk := ((fit.largest : ℚ) - fit.resident) / GIB
  let tables := if (1 : ℚ) / 20 ≤ disk then ", " ++ Decimal.fixed 1 disk ++ " GiB read from disk" else ""
  if fit.ds4File = "" then
    { fit with
      verdict := .unknown
      why := "ds4 lists none of this repo's files at the pinned commit, and it " ++
        "loads only its own GGUFs" }
  else if ceiling < fit.resident ∧ ¬ fit.streaming then
    { fit with
      verdict := .tooBig
      why := fit.ds4File ++ ": " ++ gib fit.resident ++ " GiB resident" ++ tables ++ ", over the " ++
        Decimal.fixed 0 ((ceiling : ℚ) / GIB) ++ " GiB ceiling" }
  else
    let how := if fit.streaming then "with ssd streaming, the expert cache sized by ds4"
      else gib fit.resident ++ " GiB resident"
    { fit with verdict := .fits, why := "ds4: " ++ fit.ds4File ++ ", " ++ how ++ tables }

/-- What is left to ask of a candidate whose weights are not over the ceiling. -/
def decideUpstream (deadDays : ℚ) (idle : String → Option ℚ) (fit : Fit) : Fit :=
  let days := if fit.lastCommit = "" then none else idle fit.lastCommit
  let aged := { fit with upstreamIdleDays := days.getD fit.upstreamIdleDays }
  if days.any (deadDays < ·) then
    { aged with
      verdict := .dead
      why := "last commit " ++ Decimal.fixed 1 (aged.upstreamIdleDays / 365) ++ " years ago" }
  -- A weights repo has nothing to call by construction.
  else if fit.entryPoints = [] ∧ fit.registry ≠ HUGGINGFACE then
    { aged with verdict := .noEntryPoint, why := "nothing here to call" }
  else if fit.unsized ≠ [] ∧ fit.weights = [] then
    { aged with
      verdict := .unknown
      why := "names " ++ toString fit.unsized.length ++ " weight(s) and none could be " ++
        "sized, so whether it fits is not known" }
  else
    let size := if 0 < fit.largest then
        "weights from " ++ gib fit.smallest ++ " to " ++ gib fit.largest ++ " GiB"
      else "no weights named in the source"
    { aged with verdict := .fits, why := (if fit.mlx then "MLX-native, " else "") ++ size }

/-- A CUDA dependency this machine cannot meet, once another runtime can run the
    candidate, is a mention. -/
def mentioned (m : Machine) (fit : Fit) : Fit :=
  if fit.cuda ≠ [] ∧ ¬ m.has .cuda then
    { fit with
      cudaMentioned := ((fit.cudaMentioned ++ fit.cuda).dedup).mergeSort (· ≤ ·)
      cuda := [] }
  else fit

/-- One verdict for what was read, and the reason for it. `idle` is the days since a
    commit date, where it is a date; a ceiling that is not given is the machine's. -/
def decide (m : Machine) (ceiling? : Option Nat) (deadDays : ℚ) (idle : String → Option ℚ)
    (fit : Fit) : Fit :=
  let ceiling := ceiling?.getD m.ceilingBytes
  let offered := offers fit
  if offered ≠ [] ∧ offered.all fun runtime => (m.refuses runtime).isSome then
    { fit with
      offered := offered
      verdict := (offered.head?.map FitVerdict.needs).getD .unknown
      why := without fit offered }
  else
    let fit := mentioned m { fit with offered := offered }
    if fit.ds4 then decideDs4 fit ceiling
    else if ceiling < fit.smallest ∧ fit.weights.length < fit.unsized.length then
      { fit with
        verdict := .unknown
        why := "smallest of " ++ toString fit.weights.length ++ " sized weights is " ++
          gib fit.smallest ++ " GiB, but " ++ toString fit.unsized.length ++
          " more were never sized, so the floor is not known" }
    else if ceiling < fit.smallest then
      { fit with
        verdict := .tooBig
        why := "smallest weight it names is " ++ gib fit.smallest ++ " GiB, over the " ++
          Decimal.fixed 0 ((ceiling : ℚ) / GIB) ++ " GiB ceiling" }
    else decideUpstream deadDays idle fit

/-- Read a source tree, unless its size says it is weights in git. -/
def inspect (m : Machine) (ceiling? : Option Nat) (deadDays : ℚ) (idle : String → Option ℚ)
    (kbCap kb : Nat) (read : Fit) : Fit :=
  if kb ≠ 0 ∧ kbCap < kb then
    { sourceKb := kb
      verdict := .tooBig
      why := "source tree is " ++ Decimal.fixed 0 ((kb : ℚ) / 1000) ++ " MB, which is " ++
        "weights in git, not a source repo" }
  else decide m ceiling? deadDays idle { read with sourceKb := kb }

def reasonOf (fit : Fit) : String :=
  match fit.verdict with
  | .dead => "upstream"
  | .tooBig | .needs _ => "machine"
  | _ => "candidate"

theorem reasonOf_known (fit : Fit) : reasonOf fit ∈ reasons := by
  unfold reasonOf
  split <;> decide

/-- What would end this refusal, as a condition, or `""`. -/
def untilOf (fit : Fit) : String :=
  match fit.verdict with
  | .needs runtime =>
      keyed "runtime" (if fit.offered = [] then runtime.text
        else Text.join '|' (fit.offered.map Runtime.text))
  | .tooBig =>
      if fit.ds4 ∧ 0 < fit.resident then keyed "ceiling_gb" (marked 1 ((fit.resident : ℚ) / GIB))
      else if 0 < fit.smallest then keyed "ceiling_gb" (marked 1 ((fit.smallest : ℚ) / GIB))
      else ""
  | .dead => if fit.lastCommit = "" then "" else keyed "commit_after" fit.lastCommit
  | _ => ""

/-- The weights a candidate is held against the ceiling by. -/
def weight (fit : Fit) : Nat :=
  if fit.ds4 then fit.resident else fit.smallest

/-- Every runtime the candidate offers is one this machine refuses. -/
def Stranded (m : Machine) (fit : Fit) : Prop :=
  offers fit ≠ [] ∧ ∀ runtime ∈ offers fit, m.has runtime = false

/-- What the tier refuses for its size: weights over the ceiling that no streaming helps,
    where enough was sized to know that they are the smallest. -/
def Heavy (ceiling : Nat) (fit : Fit) : Prop :=
  ceiling < weight fit ∧
    if fit.ds4 then fit.ds4File ≠ "" ∧ fit.streaming = false
    else fit.unsized.length ≤ fit.weights.length

theorem cpu_not_mem_offers (fit : Fit) : Runtime.cpu ∉ offers fit := by
  simp [offers]

theorem stranded_iff {m : Machine} {fit : Fit} :
    (offers fit ≠ [] ∧ (offers fit).all fun runtime => (m.refuses runtime).isSome) ↔
      Stranded m fit := by
  have each : ∀ runtime ∈ offers fit,
      ((m.refuses runtime).isSome = true ↔ m.has runtime = false) := by
    intro runtime offered
    have other : runtime ≠ .cpu := fun cpu => cpu_not_mem_offers fit (cpu ▸ offered)
    cases here : m.has runtime <;> simp [Machine.refuses, other, here]
  rw [List.all_eq_true, Stranded]
  exact and_congr_right fun _ => forall₂_congr each

theorem untilOf_stranded {m : Machine} {ceiling? : Option Nat} {deadDays : ℚ}
    {idle : String → Option ℚ} {fit : Fit} (stranded : Stranded m fit) :
    untilOf (decide m ceiling? deadDays idle fit) =
      keyed "runtime" (Text.join '|' ((offers fit).map Runtime.text)) := by
  obtain ⟨first, rest, shape⟩ := List.exists_cons_of_ne_nil stranded.1
  simp only [decide, if_pos (stranded_iff.mpr stranded)]
  simp [untilOf, shape]

/-- What a mention changes is not what the size is asked of. -/
theorem mentioned_sizes (m : Machine) (fit : Fit) :
    ∃ mention cuda, mentioned m fit = { fit with cudaMentioned := mention, cuda := cuda } := by
  unfold mentioned
  split
  · exact ⟨_, _, rfl⟩
  · exact ⟨_, _, rfl⟩

/-- Nothing ends the refusal but a commit upstream. -/
def Settled (untilText : String) : Prop :=
  untilText = "" ∨ ∃ want, untilText = keyed "commit_after" want

theorem untilOf_decideDs4 (ceiling : Nat) (fit : Fit) (ds4 : fit.ds4 = true) :
    (Heavy ceiling fit → untilOf (decideDs4 fit ceiling) =
        keyed "ceiling_gb" (marked 1 ((weight fit : ℚ) / GIB))) ∧
      (¬ Heavy ceiling fit → Settled (untilOf (decideDs4 fit ceiling))) := by
  simp only [Heavy, weight, ds4, if_true]
  by_cases absent : fit.ds4File = ""
  · constructor
    · intro heavy
      exact absurd absent heavy.2.1
    · intro _
      simp [decideDs4, absent, untilOf, Settled]
  · by_cases heavier : ceiling < fit.resident ∧ ¬ fit.streaming
    · have held : 0 < fit.resident := by omega
      constructor
      · intro _
        simp [decideDs4, absent, heavier, untilOf, ds4, held]
      · intro light
        exact absurd ⟨heavier.1, absent, by simpa using heavier.2⟩ light
    · constructor
      · intro heavy
        exact absurd ⟨heavy.1, by simpa using heavy.2.2⟩ heavier
      · intro _
        simp only [decideDs4, if_neg absent, if_neg heavier]
        exact .inl rfl

theorem untilOf_decideUpstream (deadDays : ℚ) (idle : String → Option ℚ) (fit : Fit) :
    Settled (untilOf (decideUpstream deadDays idle fit)) := by
  simp only [decideUpstream]
  split_ifs with unread
  all_goals simp [Settled, untilOf, unread]

theorem untilOf_moving {m : Machine} (ceiling? : Option Nat) (deadDays : ℚ)
    (idle : String → Option ℚ) {fit : Fit} (moving : ¬ Stranded m fit) :
    (Heavy (ceiling?.getD m.ceilingBytes) fit → untilOf (decide m ceiling? deadDays idle fit) =
        keyed "ceiling_gb" (marked 1 ((weight fit : ℚ) / GIB))) ∧
      (¬ Heavy (ceiling?.getD m.ceilingBytes) fit →
        Settled (untilOf (decide m ceiling? deadDays idle fit))) := by
  obtain ⟨mention, cuda, same⟩ := mentioned_sizes m { fit with offered := offers fit }
  simp only [decide, if_neg (fun all => moving (stranded_iff.mp all)), same]
  generalize ceiling?.getD m.ceilingBytes = ceiling
  cases ds4 : fit.ds4 with
  | true =>
      have held := untilOf_decideDs4 ceiling
        { fit with offered := offers fit, cudaMentioned := mention, cuda := cuda } ds4
      simpa only [if_true, Heavy, weight, ds4] using held
  | false =>
      simp only [Heavy, weight, ds4, Bool.false_eq_true, if_false]
      split_ifs with unknown heavier
      · exact ⟨fun heavy => absurd unknown.2 (by omega), fun _ => .inl rfl⟩
      · have some_ : 0 < fit.smallest := by omega
        constructor
        · intro _
          simp [untilOf, some_]
        · intro light
          exact absurd ⟨heavier, by omega⟩ light
      · exact ⟨fun heavy => absurd heavy.1 heavier, fun _ => untilOf_decideUpstream deadDays idle _⟩

end LocalHarness.Tiers.Inspect
