import Mathlib.Logic.Relation
import LocalHarness.Adopt.Ranking

/-! # Whether a challenger replaces an incumbent

Two gates: the challenger's summary ranks above the incumbent's, and the paired comparison
is significant. They read different row sets, the first each candidate's own cases and the
second only the shared ones, and the second is two-sided. `_worse` asks for the direction,
but only once a challenger has been turned down.
-/

namespace LocalHarness.Adopt

open LocalHarness.Library

/-- Below this the difference is not established and the incumbent stays. -/
def ALPHA : ℚ := 1 / 20

def MEASURED : String := "measured"

def BY_HAND : String := "by-hand"

/-- `reasons.UNDERPOWERED`. -/
def UNDERPOWERED : String := "underpowered"

/-- A repeat plan, in what a verdict says of it. -/
structure Plan where
  power : ℚ
  cells : Nat
  effect : ℚ
  alpha : ℚ := ALPHA
  target : ℚ := 4 / 5
  why : String := ""
  deriving DecidableEq

def Plan.enough (plan : Plan) : Bool :=
  plan.target ≤ plan.power

/-- A method over a base candidate, in what its spec is read by. -/
structure Method where
  name : String
  arity : Nat := 0
  minimum : Int := 1

def REGISTRY : List Method :=
  [{ name := "trace" }, { name := "trace-icon" }, { name := "best-of", arity := 1, minimum := 2 },
   { name := "plan" }]

/-- What is left of a method's spec after its whole-number arguments. -/
def dropArgs (method : Method) : Nat → String → Option String
  | 0, rest => some rest
  | left + 1, rest =>
      (Decimal.wholeNumber (Text.partition rest ':').1).bind fun n =>
        if n < method.minimum then none else dropArgs method left (Text.partition rest ':').2

/-- The method a spec names and the base it is over; none too where `parse` raises. -/
def parse (spec : String) : Option (Method × String) :=
  let (head, rest) := Text.partition (Text.strip spec) ':'
  let name := Text.strip (Text.partition head ',').1
  (REGISTRY.find? fun method => method.name = name).bind fun method =>
    (dropArgs method method.arity rest).bind fun base =>
      if Text.blank base then none else some (method, Text.strip base)

/-- What a method paid for its result, beside the incumbent. -/
structure Cost where
  method : String
  base : String
  calls : ℚ
  medianS : ℚ
  incumbentMedianS : ℚ
  latencyRatio : Option ℚ
  deriving DecidableEq

def cost (incumbent challenger : Summary) (spec : String) : Option Cost :=
  (parse spec).map fun (method, base) =>
    let calls := (challenger.metrics.lookup "method_calls").getD 0
    { method := method.name
      base
      calls := if calls = 0 then 1 else calls
      medianS := challenger.medianS
      incumbentMedianS := incumbent.medianS
      latencyRatio :=
        if 0 < incumbent.medianS then
          some (Decimal.rounded 2 (challenger.medianS / incumbent.medianS))
        else none }

/-- The cost as a sentence for the verdict a person reads. -/
def costNote (incumbent challenger : Summary) (spec : String) : String :=
  match cost incumbent challenger spec with
  | none => ""
  | some got =>
      "cost: " ++ got.method ++ " made " ++ Decimal.fixed 1 got.calls ++ " calls a case" ++
        (match got.latencyRatio with
          | some ratio => ", " ++ Decimal.fixed 1 ratio ++ "x the incumbent's median latency"
          | none => "") ++
        " (" ++ Decimal.fixed 2 got.medianS ++ "s against " ++
        Decimal.fixed 2 got.incumbentMedianS ++ "s)"

/-- What a verdict rests on. -/
structure Evidence where
  split : Option Split := none
  dev : Option (Nat × Nat × ℚ) := none
  power : Option Plan := none
  cost : Option Cost := none
  deriving DecidableEq

structure Verdict where
  lane : String
  incumbent : String
  challenger : String
  adopt : Bool
  why : String
  how : String := MEASURED
  failureClass : String := ""
  evidence : Evidence := {}
  votes : Option Nat := none
  agreement : Option ℚ := none
  forced : Bool := false
  allMachines : Bool := false
  held : String := ""
  deriving DecidableEq

/-- `f" ({note})"`, for a note that says something. -/
def bracketed (note : String) : String :=
  if note = "" then "" else " (" ++ note ++ ")"

/-- Why the challenger is significantly worse, else the empty text. -/
def worse (rows : List Row) (incumbent challenger : String) : String :=
  let { cell, p, shrunk } := pairedP rows incumbent challenger
  if cell.lost ≤ cell.gained ∨ ALPHA < p then ""
  else
    "significantly worse: " ++ toString cell.lost ++ " lost against " ++ toString cell.gained ++
      " gained, p=" ++ Decimal.fixed 2 p ++ bracketed shrunk

def gates (lane i c : String) (incumbent challenger : Summary) (rows : List Row) : Verdict :=
  let kept (why : String) : Verdict := { lane, incumbent := i, challenger := c, adopt := false, why }
  if better incumbent challenger = false then
    kept "does not beat the incumbent on the lane's metric"
  else if rows = [] then kept "no paired rows, so the difference is unmeasured"
  else
    let { cell, p, shrunk } := pairedP rows i c
    if cell.discordant = 0 ∧ cell.unchanged = 0 then
      kept (i ++ " and " ++ c ++ " share no case in this run, so there is nothing to compare")
    else if ALPHA < p then
      kept ("better on the metric, but " ++ toString cell.lost ++ " lost against " ++
        toString cell.gained ++ " gained is p=" ++ Decimal.fixed 2 p ++ bracketed shrunk ++
        ", so the difference is not established")
    else
      { lane, incumbent := i, challenger := c, adopt := true
        why := "beats " ++ i ++ " on the lane's metric, " ++ toString cell.gained ++
          " gained against " ++ toString cell.lost ++ " lost, p=" ++ Decimal.fixed 2 p ++
          bracketed shrunk }

/-- The rows both gates read: with a split, those of its holdout. -/
def judgedRows (rows : List Row) : Option Split → List Row
  | none => rows
  | some split => rowsOn rows split .holdout

/-- The summary the ranking gate reads: with a split, over the holdout rows when there are
    any of this candidate's. -/
def judgedSummary (rows : List Row) (split : Option Split) (given : Summary) : Summary :=
  match split with
  | none => given
  | some split =>
      if rows = [] then given
      else (summary (rowsOn rows split .holdout) given.candidate).getD given

/-- The comparison on the dev side, which is reported and decides nothing. -/
def devPaired (rows : List Row) (split : Option Split) (incumbent challenger : String) :
    Option Paired :=
  split.bind fun split =>
    if rowsOn rows split .dev = [] then none
    else some (pairedP (rowsOn rows split .dev) incumbent challenger)

/-- A loss that the plan says the gate could not have seen otherwise. -/
def underpowered (plan : Plan) (why : String) : String :=
  "underpowered: power " ++ Decimal.fixed 2 plan.power ++ " < " ++ Decimal.shortest plan.target ++
    " to detect +" ++ Decimal.fixed 2 plan.effect ++ " per cell at alpha " ++
    Decimal.shortest plan.alpha ++ " over " ++ toString plan.cells ++
    " effective cells, so this null is not evidence of no difference (" ++ why ++ ")" ++
    (if plan.why = "" then "" else "; " ++ plan.why)

/-- Whether this challenger replaces this incumbent. -/
def decide (lane : String) (incumbent challenger : Summary) (rows : List Row)
    (split : Option Split) (plan : Option Plan) (spec : String) : Verdict :=
  let i := incumbent.candidate
  let c := challenger.candidate
  let dev := devPaired rows split i c
  let devNote := dev.map fun { cell, p, .. } =>
    "dev: " ++ toString cell.gained ++ " gained, " ++ toString cell.lost ++ " lost, p=" ++
      Decimal.fixed 2 p
  let caveat := (split.filter Split.tooSmall).map Split.caveat
  let judged := judgedRows rows split
  let incumbent := judgedSummary rows split incumbent
  let challenger := judgedSummary rows split challenger
  let got := gates lane i c incumbent challenger judged
  let lesser := if judged ≠ [] ∧ got.adopt = false then worse judged i c else ""
  let short := plan.filter fun plan => got.adopt = false && !plan.enough && judged ≠ []
  let (why, failureClass) :=
    if lesser ≠ "" then (got.why ++ "; " ++ lesser, "")
    else match short with
      | some plan => (underpowered plan got.why, UNDERPOWERED)
      | none => (got.why, "")
  let paid := if spec = "" then "" else costNote incumbent challenger spec
  { lane, incumbent := i, challenger := c, adopt := got.adopt
    why := String.intercalate "; "
      ([why] ++ devNote.toList ++ caveat.toList ++ if paid = "" then [] else [paid])
    failureClass
    evidence :=
      { split
        dev := dev.map fun { cell, p, .. } => (cell.gained, cell.lost, p)
        power := plan
        cost := if paid = "" then none else cost incumbent challenger spec } }

theorem worse_ne_empty {rows : List Row} {i c : String} :
    worse rows i c ≠ "" ↔
      (pairedP rows i c).cell.gained < (pairedP rows i c).cell.lost ∧
        (pairedP rows i c).p ≤ ALPHA := by
  unfold worse
  dsimp only
  split
  next better =>
    simp only [ne_eq, not_true_eq_false, false_iff, not_and, not_le]
    intro lost
    exact better.resolve_left (Nat.not_le.mpr lost)
  next lesser =>
    rw [not_or, Nat.not_le, not_lt] at lesser
    refine iff_of_true ?_ lesser
    intro empty
    have nothing := congrArg String.toList empty
    simp at nothing

/-- What the gates ask of a challenger before it is adopted. -/
theorem gates_adopt {lane i c : String} {incumbent challenger : Summary} {rows : List Row} :
    (gates lane i c incumbent challenger rows).adopt = true ↔
      better incumbent challenger = true ∧ rows ≠ [] ∧
        ¬ ((pairedP rows i c).cell.discordant = 0 ∧ (pairedP rows i c).cell.unchanged = 0) ∧
          (pairedP rows i c).p ≤ ALPHA := by
  unfold gates
  dsimp only
  split_ifs with lower none shared noise
  · exact iff_of_false not_false fun passed => by simp [lower] at passed
  · exact iff_of_false not_false fun passed => passed.2.1 none
  · exact iff_of_false not_false fun passed => passed.2.2.1 shared
  · exact iff_of_false not_false fun passed => absurd passed.2.2.2 (not_le.mpr noise)
  · exact iff_of_true rfl ⟨by simpa using lower, none, shared, not_lt.mp noise⟩

@[simp] theorem decide_adopt (lane : String) (incumbent challenger : Summary) (rows : List Row)
    (split : Option Split) (plan : Option Plan) (spec : String) :
    (decide lane incumbent challenger rows split plan spec).adopt =
      (gates lane incumbent.candidate challenger.candidate (judgedSummary rows split incumbent)
        (judgedSummary rows split challenger) (judgedRows rows split)).adopt := rfl

/-- The challenger gained more of the cells both sat than it lost, and not by chance. -/
def Established (rows : List Row) (incumbent challenger : String) : Prop :=
  (headToHead rows incumbent challenger).lost < (headToHead rows incumbent challenger).gained ∧
    (pairedP rows incumbent challenger).p ≤ ALPHA

instance (rows : List Row) (incumbent challenger : String) :
    Decidable (Established rows incumbent challenger) :=
  inferInstanceAs (Decidable (_ ∧ _))

/-- An adoption is of a challenger that is better on the cells both sat, unless the one that
    ranks higher is the one that is significantly worse there: nothing that is turned down is
    adopted, and a balanced comparison is never significant. -/
theorem adopts_established (lane : String) (incumbent challenger : Summary) (rows : List Row)
    (split : Option Split) (plan : Option Plan) (spec : String) :
    ((decide lane incumbent challenger rows split plan spec).adopt = true →
        Established (judgedRows rows split) incumbent.candidate challenger.candidate) ↔
      ¬ (better (judgedSummary rows split incumbent) (judgedSummary rows split challenger) = true ∧
        worse (judgedRows rows split) incumbent.candidate challenger.candidate ≠ "") := by
  rw [decide_adopt, gates_adopt, worse_ne_empty, Established, pairedP_cell]
  generalize judgedRows rows split = judged
  constructor
  · rintro holds ⟨wins, lost, small⟩
    have moved : (headToHead judged incumbent.candidate challenger.candidate).discordant ≠ 0 := by
      unfold Cell.discordant
      omega
    have some_ : judged ≠ [] := by
      rintro rfl
      exact moved rfl
    exact Nat.lt_asymm lost (holds ⟨wins, some_, fun none => moved none.1, small⟩).1
  · rintro lesser ⟨wins, _, _, small⟩
    refine ⟨?_, small⟩
    rcases Nat.lt_trichotomy (headToHead judged incumbent.candidate challenger.candidate).lost
      (headToHead judged incumbent.candidate challenger.candidate).gained with fewer | same | more
    · exact fewer
    · rw [pairedP_balanced same] at small
      exact absurd small (by norm_num [ALPHA])
    · exact absurd ⟨wins, more, small⟩ lesser

/-- A run in which each candidate sat six cases with the other and more without it. -/
def lopsided : List Row :=
  ((List.range 6).flatMap fun n =>
    [{ caseId := "shared-" ++ toString n, candidate := "held", passed := true },
     { caseId := "shared-" ++ toString n, candidate := "tried", passed := false }]) ++
  ((List.range 12).map fun n =>
    { caseId := "hard-" ++ toString n, candidate := "held", passed := false }) ++
  (List.range 12).map fun n =>
    { caseId := "easy-" ++ toString n, candidate := "tried", passed := true }

/-- A challenger that lost every cell both sat is adopted for the cells only it sat. -/
theorem adopts_loss :
    summary lopsided "held" = some { candidate := "held", passRate := 333 / 1000 } ∧
      summary lopsided "tried" = some { candidate := "tried", passRate := 667 / 1000 } ∧
        (decide "code" { candidate := "held", passRate := 333 / 1000 }
          { candidate := "tried", passRate := 667 / 1000 } lopsided none none "").adopt = true ∧
          ¬ Established (judgedRows lopsided none) "held" "tried" := by
  decide +kernel

/-- A candidate of a run is adopted over another on its rows, in some lane, under some plan. -/
def Adopts (rows : List Row) (split : Option Split) (i c : String) : Prop :=
  ∃ incumbent challenger, summary rows i = some incumbent ∧ summary rows c = some challenger ∧
    ∃ lane plan spec, (decide lane incumbent challenger rows split plan spec).adopt = true

/-- Each adoption of a chain raises the key of what both gates read. -/
theorem orderKey_lt_of_adopts {rows : List Row} {split : Option Split} {i c : String}
    (chain : Relation.TransGen (Adopts rows split) i c) :
    ∃ first last, summary rows i = some first ∧ summary rows c = some last ∧
      orderKey (judgedSummary rows split first) < orderKey (judgedSummary rows split last) := by
  have raises : ∀ a b, Adopts rows split a b → ∃ first last, summary rows a = some first ∧ summary rows b = some last ∧
      orderKey (judgedSummary rows split first) < orderKey (judgedSummary rows split last) := by
    rintro a b ⟨incumbent, challenger, held, tried, lane, plan, spec, adopted⟩
    rw [decide_adopt, gates_adopt] at adopted
    exact ⟨incumbent, challenger, held, tried, of_decide_eq_true adopted.1⟩
  induction chain with
  | single adopted => exact raises _ _ adopted
  | tail _ adopted ih =>
      obtain ⟨first, middle, held, tried, less⟩ := ih
      obtain ⟨middle', last, held', tried', less'⟩ := raises _ _ adopted
      obtain rfl := Option.some.inj (tried.symm.trans held')
      exact ⟨first, last, held, tried', less.trans less'⟩

/-- On the rows of one run no chain of adoptions comes back to where it started: no two candidates replace each
other, and no round of any length does. -/
theorem adoption_acyclic (rows : List Row) (split : Option Split) (name : String) :
    ¬ Relation.TransGen (Adopts rows split) name name := by
  intro round
  obtain ⟨first, last, held, tried, less⟩ := orderKey_lt_of_adopts round
  obtain rfl := Option.some.inj (held.symm.trans tried)
  exact lt_irrefl _ less

end LocalHarness.Adopt
