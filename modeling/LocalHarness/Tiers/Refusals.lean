import LocalHarness.Tiers.Fetching
import LocalHarness.Tiers.Inspect
import LocalHarness.Tiers.Screen

/-! # A refusal held against the machine that wrote it

Each tier prints what it waits for, and the reader compares the printed number with the
exact one. Rounding to a tenth of a GiB is the only place where the two can disagree
about a size, and `Site.Firm` says which way it has to go.
-/

namespace LocalHarness.Tiers

open LocalHarness.Library LocalHarness.MemoryStore

/-- What a tier is given when it refuses. -/
inductive Refusal
  | inspected (kb : Nat) (read : Inspect.Fit)
  | screened (cls : Screen.FailureClass) (why candidate : String) (limits : List String)
  | crowded (available : ℚ≥0)
  | planned (repo : String) (size free : Int)
  | unserved (row : Fetching.Row)

/-- A machine, the ceiling it refuses by and the limits it runs under; the download cap is
    one of the limits a condition may name. -/
structure Site where
  machine : Machine
  ceiling? : Option Nat := none
  deadDays : ℚ := Inspect.UPSTREAM_DEAD_DAYS
  idle : String → Option ℚ := fun _ => none
  kbCap : Nat := Inspect.CLONE_KB_CAP
  chosen : String → Option ℚ
  download : chosen "download_gib" = some ((Fetching.MAX_DOWNLOAD : ℚ) / GIB)

namespace Site

def ceiling (site : Site) : Nat :=
  site.ceiling?.getD site.machine.ceilingBytes

def facts (site : Site) : Facts :=
  site.machine.facts site.ceiling

/-- The condition a refusal writes. -/
def untilText (site : Site) : Refusal → String
  | .inspected kb read =>
      Inspect.untilOf
        (Inspect.inspect site.machine site.ceiling? site.deadDays site.idle site.kbCap kb read)
  | .screened cls why candidate limits =>
      (Screen.decideClass site.machine cls why candidate limits
        (some site.facts.memoryGb)).untilText
  | .crowded available => Screen.headroomUntil available
  | .planned repo size free => (Fetching.plan repo size free).untilText
  | .unserved row => Fetching.needsUntil site.machine row

/-- The harness chooses more, for the limit a receipt recorded, than it recorded. -/
def Raised (site : Site) (limit : String) : Prop :=
  ∃ value, site.chosen (Text.partition limit '>').1 = some value ∧
    above value (Text.partition limit '>').2 = true

/-- A refusal that the machine that wrote it does not meet: a weight over the ceiling still
    reaches it once rounded as printed, the limit a receipt recorded was not raised, and
    memory that is not free is not counted as memory. -/
def Firm (site : Site) : Refusal → Prop
  | .inspected kb read =>
      ¬ (kb ≠ 0 ∧ site.kbCap < kb) → ¬ Inspect.Stranded site.machine read →
        Inspect.Heavy site.ceiling read →
          (site.ceiling : ℚ) / GIB ≤ Decimal.rounded 1 ((Inspect.weight read : ℚ) / GIB)
  | .screened cls _ _ limits =>
      cls.reason = "limit" → '>' ∈ (Screen.stoppedAt limits).toList →
        ¬ site.Raised (Screen.stoppedAt limits)
  | .crowded available => (site.machine.memoryGb : ℚ) ≤ Decimal.rounded 1 available
  | .planned .. => True
  | .unserved _ => True

theorem untilMet_of_settled {site : Site} {text : String} (settled : Inspect.Settled text) :
    untilMet site.chosen site.facts text = false := by
  cases settled with
  | inl empty =>
      rw [empty]
      exact untilMet_empty _ _
  | inr commit =>
      obtain ⟨want, rfl⟩ := commit
      exact untilMet_commit rfl

theorem untilMet_lacking {site : Site} {runtimes : List Runtime} (some_ : runtimes ≠ [])
    (lacking : ∀ runtime ∈ runtimes, site.machine.has runtime = false) :
    untilMet site.chosen site.facts
      (keyed "runtime" (Text.join '|' (runtimes.map Runtime.text))) = false := by
  rw [untilMet_runtime, Text.split_join (by simpa using some_)]
  · intro text member
    obtain ⟨runtime, asked, rfl⟩ := List.mem_map.mp member
    rw [facts, Machine.mem_split_runtimes, lacking runtime asked]
    exact Bool.false_ne_true
  · intro text member
    obtain ⟨runtime, _, rfl⟩ := List.mem_map.mp member
    exact runtime.text_plain.2

theorem inspected_firm (site : Site) (kb : Nat) (read : Inspect.Fit) :
    untilMet site.chosen site.facts (site.untilText (.inspected kb read)) = false ↔
      site.Firm (.inspected kb read) := by
  simp only [untilText, Inspect.inspect, Firm]
  by_cases tree : kb ≠ 0 ∧ site.kbCap < kb
  · rw [if_pos tree]
    exact ⟨fun _ clone => absurd tree clone, fun _ => untilMet_empty _ _⟩
  rw [if_neg tree]
  by_cases stranded : Inspect.Stranded site.machine { read with sourceKb := kb }
  · rw [Inspect.untilOf_stranded stranded]
    constructor
    · intro _ _ moving
      exact absurd stranded moving
    · intro _
      exact untilMet_lacking stranded.1 stranded.2
  · obtain ⟨heavier, under⟩ :=
      Inspect.untilOf_moving site.ceiling? site.deadDays site.idle stranded
    by_cases heavy : Inspect.Heavy site.ceiling { read with sourceKb := kb }
    · rw [heavier heavy, untilMet_ceiling (by positivity)]
      constructor
      · intro rounded _ _ _
        exact rounded
      · intro firm
        exact firm tree stranded heavy
    · constructor
      · intro _ _ _ heavier
        exact absurd heavier heavy
      · intro _
        exact untilMet_of_settled (under heavy)

/-- A limit a receipt stopped at is met once the harness chooses more. -/
theorem untilMet_stopped {site : Site} {limit : String} :
    untilMet site.chosen site.facts (keyed "limit" limit) = false ↔
      ('>' ∈ limit.toList → ¬ site.Raised limit) := by
  rw [untilMet_limit rfl, Bool.and_eq_false_imp, List.contains_iff_mem]
  refine imp_congr_right fun _ => ?_
  unfold Raised
  cases site.chosen (Text.partition limit '>').1 with
  | none => simp
  | some value => simp

theorem screened_firm (site : Site) (cls : Screen.FailureClass) (why candidate : String)
    (limits : List String) :
    untilMet site.chosen site.facts (site.untilText (.screened cls why candidate limits)) = false ↔
      site.Firm (.screened cls why candidate limits) := by
  simp only [untilText, Screen.decideClass, Firm, Option.getD_some]
  by_cases runtime : cls.reason = "runtime"
  · rw [if_pos runtime]
    constructor
    · intro _ limit
      exact absurd runtime (Screen.FailureClass.limit_ne_runtime limit)
    · intro _
      exact Screen.loadUntil_unmet _ _ _ _
  rw [if_neg runtime]
  by_cases limit : cls.reason = "limit"
  · by_cases named : Screen.stoppedAt limits = ""
    · have unnamed : '>' ∉ (Screen.stoppedAt limits).toList := by simp [named]
      have faultless : cls ≠ .gpuFault := by
        rintro rfl
        exact absurd limit (by decide)
      rw [if_neg (fun both => both.2 named), if_neg (fun fault => faultless fault.1)]
      exact ⟨fun _ _ inside => absurd inside unnamed, fun _ => untilMet_empty _ _⟩
    · rw [if_pos ⟨limit, named⟩, untilMet_stopped]
      exact ⟨fun kept _ => kept, fun firm => firm limit⟩
  · rw [if_neg (fun both => limit both.1)]
    constructor
    · intro _ stopped
      exact absurd stopped limit
    · intro _
      split
      · have whole : Decimal.rounded 0 site.facts.memoryGb = site.facts.memoryGb :=
          Decimal.rounded_int 0 site.machine.memoryGb
        rw [untilMet_memory, whole]
        exact Int.cast_nonneg site.machine.memoryGb_nonneg
      · exact untilMet_empty _ _

theorem crowded_firm (site : Site) (available : ℚ≥0) :
    untilMet site.chosen site.facts (site.untilText (.crowded available)) = false ↔
      site.Firm (.crowded available) := by
  rw [untilText, Screen.headroomUntil, untilMet_memory available.coe_nonneg]
  rfl

theorem planned_unmet (site : Site) (repo : String) (size free : Int) :
    untilMet site.chosen site.facts (site.untilText (.planned repo size free)) = false := by
  have capped : above ((Fetching.MAX_DOWNLOAD : ℚ) / GIB)
      (Fetching.gib 0 Fetching.MAX_DOWNLOAD) = false := by decide +kernel
  have heavier : untilMet site.chosen site.facts
      (keyed "limit" (floored "download_gib" (Fetching.gib 0 Fetching.MAX_DOWNLOAD))) = false := by
    rw [untilMet_limit rfl, floored_contains, partition_floored (by decide), site.download]
    exact capped
  simp only [untilText, Fetching.plan]
  split_ifs
  · exact untilMet_empty _ _
  · exact heavier
  · exact untilMet_empty _ _
  · exact untilMet_empty _ _

theorem unserved_unmet (site : Site) (row : Fetching.Row) :
    untilMet site.chosen site.facts (site.untilText (.unserved row)) = false := by
  simp only [untilText, Fetching.needsUntil]
  cases lacks : Fetching.unrunnable site.machine row with
  | none => exact untilMet_empty _ _
  | some runtime =>
      have one : keyed "runtime" runtime.text =
          keyed "runtime" (Text.join '|' ([runtime].map Runtime.text)) := by
        simp [Text.join]
      simp only [one]
      apply untilMet_lacking (List.cons_ne_nil _ _)
      intro other member
      rw [List.mem_singleton.mp member]
      exact Fetching.unrunnable_lacks lacks

theorem unmet_iff_firm (site : Site) (refusal : Refusal) :
    untilMet site.chosen site.facts (site.untilText refusal) = false ↔ site.Firm refusal := by
  cases refusal with
  | inspected kb read => exact inspected_firm site kb read
  | screened cls why candidate limits => exact screened_firm site cls why candidate limits
  | crowded available => exact crowded_firm site available
  | planned repo size free => exact iff_of_true (planned_unmet site repo size free) trivial
  | unserved row => exact iff_of_true (unserved_unmet site row) trivial

end Site

/-- A refusal is unmet where it was written exactly when it is firm, and a store whose
    proposals wait on firm refusals alone is left as it is by a requeue. -/
theorem refusals_unmet (site : Site) :
    (∀ refusal, untilMet site.chosen site.facts (site.untilText refusal) = false ↔
        site.Firm refusal) ∧
      ∀ (s : Store) (now : ℚ),
        (∀ row ∈ s.proposals.rows, condition s row.2 = "" ∨
          ∃ refusal, site.Firm refusal ∧ condition s row.2 = site.untilText refusal) →
        requeueRevisitable site.chosen site.facts now s = (.ok [], s) := by
  refine ⟨site.unmet_iff_firm, fun s now waiting => requeueRevisitable_unmet ?_ now⟩
  intro row member
  cases waiting row member with
  | inl nothing =>
      rw [nothing]
      exact untilMet_empty _ _
  | inr refused =>
      obtain ⟨refusal, firm, same⟩ := refused
      rw [same]
      exact (site.unmet_iff_firm refusal).mpr firm

/-- A card of 32607 MiB, which is 31.84 GiB. -/
def card : Site where
  machine :=
    { runtimes := [.cpu, .cuda]
      always := by decide
      accelerator := { discrete := true, totalGb := 32607 / 1024 }
      systemMemoryGb := 64
      versions := fun _ => none }
  chosen := fun name => if name = "download_gib" then some (Fetching.MAX_DOWNLOAD / GIB) else none
  download := rfl

/-- Weights of so many bytes, in one repo of a registry of weights. -/
def weighing (bytes : Nat) : Refusal :=
  .inspected 0
    { registry := Inspect.HUGGINGFACE, weights := [("org/model", bytes)], smallest := bytes
      largest := bytes }

/-- The store after the tier declined the one proposal in it. -/
def declinedFor (site : Site) (refusal : Refusal) : Store :=
  (decide (Store.fresh "org/model")
    { name := "org/model", outcome := "declined", tier := "inspect", reason := "machine"
      untilText := site.untilText refusal }).2

/-- Weights a little over the ceiling, printed as 31.8: the card that refused them asks for
    them again. -/
theorem refusals_met_rounded :
    untilMet card.chosen card.facts (card.untilText (weighing 34192000000)) = true ∧
      (requeueRevisitable card.chosen card.facts 1
        (declinedFor card (weighing 34192000000))).1.toOption = some ["org/model"] := by
  decide +kernel

theorem refusals_unmet_far :
    requeueRevisitable card.chosen card.facts 1 (declinedFor card (weighing (40 * GIB))) =
      (.ok [], declinedFor card (weighing (40 * GIB))) := by
  have waiting : ∀ row ∈ (declinedFor card (weighing (40 * GIB))).proposals.rows,
      condition (declinedFor card (weighing (40 * GIB))) row.2 =
        card.untilText (weighing (40 * GIB)) := by
    decide +kernel
  have firm : card.Firm (weighing (40 * GIB)) := fun _ _ _ => by decide +kernel
  exact (refusals_unmet card).2 _ _ fun row member =>
    .inr ⟨weighing (40 * GIB), firm, waiting row member⟩

end LocalHarness.Tiers
