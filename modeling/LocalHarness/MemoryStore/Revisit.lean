import LocalHarness.Library.Decimal
import LocalHarness.MemoryStore.Transitions

/-! # When a settled verdict may be asked again

A refusal carries a condition as text, and `untilMet` reads that text against the facts
of a machine. What a condition says once it is printed is stated here form by form, so
that a writer of conditions need not look inside the reader.
-/

namespace LocalHarness.MemoryStore

open LocalHarness.Library

/-- The facts a condition is held against: a machine's row, or an upstream's. -/
structure Facts where
  runtimes : String
  memoryGb : ℚ
  ceilingGb : ℚ
  versions : String → Option String
  limits : Option (String → Option ℚ)
  lastCommit : String

/-- A version as numbers, or `none` if one of its parts is not digits. -/
def versionTuple (version : Option String) : Option (List Nat) :=
  let parts := (Text.split (version.getD "") '.').map String.toList
  if parts.all fun part => part ≠ [] && part.all Char.isDigit then
    some (parts.map fun part => Nat.ofDigitChars 10 part 0)
  else none

/-- `^\d{4}-\d{2}-\d{2}`. -/
def isoDate (text : String) : Bool :=
  let digits := fun (start count : Nat) =>
    ((text.toList.drop start).take count).length == count &&
      ((text.toList.drop start).take count).all Char.isDigit
  digits 0 4 && text.toList[4]? == some '-' && digits 5 2 && text.toList[7]? == some '-' &&
    digits 8 2

/-- A printed number that `have` is above. -/
def above (have_ : ℚ) (floor : String) : Bool :=
  ((Decimal.number floor).map (Decimal.Number.below have_)).getD false

/-- `want` is `>` and a number the fact is above. -/
def aboveMark (have_ : ℚ) (want : String) : Bool :=
  match want.toList with
  | '>' :: floor => above have_ (.ofList floor)
  | _ => false

/-- Whether `facts` satisfies the condition a verdict is waiting on; `chosen` are the
    limits this harness chooses now. A condition of no known form is not met. -/
def untilMet (chosen : String → Option ℚ) (facts : Facts) (condition : String) : Bool :=
  let (key, want) := Text.partition condition ':'
  let (name, floor) := Text.partition want '>'
  if key = "runtime" then
    (Text.split want '|').any fun runtime => runtime ∈ Text.split facts.runtimes ','
  else if key = "memory_gb" then aboveMark facts.memoryGb want
  else if key = "ceiling_gb" then aboveMark facts.ceilingGb want
  else if key = "version" then
    want.toList.contains '>' &&
      match versionTuple (facts.versions name), versionTuple (some floor) with
      | some installed, some needed => needed < installed
      | _, _ => false
  else if key = "limit" then
    want.toList.contains '>' && (((facts.limits.getD chosen) name).map (above · floor)).getD false
  else if key = "commit_after" then
    let seen := Text.strip facts.lastCommit
    isoDate seen && isoDate want && want < seen
  else false

/-- A held verdict that waits on a condition these facts satisfy. -/
def Waited (chosen : String → Option ℚ) (facts : Facts) (verdict : Verdict) : Bool :=
  verdict.untilText != "" && verdict.outcome ∈ terminal && untilMet chosen facts verdict.untilText

/-- Proposals whose held verdict waits on a condition this machine now satisfies. -/
def revisitable (chosen : String → Option ℚ) (facts : Facts) (s : Store) :
    List (Nat × Proposal) :=
  s.proposals.rows.filter fun row =>
    (row.2.stateVerdictId.bind s.verdicts.find?).any (Waited chosen facts)

/-- The text of the condition a proposal's held verdict waits on. -/
def condition (s : Store) (p : Proposal) : String :=
  ((p.stateVerdictId.bind s.verdicts.find?).map Verdict.untilText).getD ""

def requeueEach (now : ℚ) (conditions : List (String × String)) (s : Store) :
    Except Error (List String) × Store :=
  match conditions with
  | [] => (.ok [], s)
  | (name, until_) :: rest =>
      match retract s name (until_ ++ " is met here") "queued" inspect "" now with
      | (.error e, s') => (.error e, s')
      | (.ok _, s') =>
          match requeueEach now rest s' with
          | (.error e, s'') => (.error e, s'')
          | (.ok names, s'') => (.ok (name :: names), s'')

/-- Retract every revisitable verdict back to the inspect tier. -/
def requeueRevisitable (chosen : String → Option ℚ) (facts : Facts) (now : ℚ) (s : Store) :
    Except Error (List String) × Store :=
  requeueEach now ((revisitable chosen facts s).map fun row => (row.2.name, condition s row.2)) s

attribute [local simp] untilMet requeueEach versionTuple

/-- A proposal is left alone while the condition it waits on is not met. -/
theorem not_revisitable {chosen : String → Option ℚ} {facts : Facts} {s : Store} {pid : Nat}
    {p : Proposal} (unmet : untilMet chosen facts (condition s p) = false) :
    (pid, p) ∉ revisitable chosen facts s := by
  intro listed
  obtain ⟨_, waited⟩ := List.mem_filter.mp listed
  cases joined : p.stateVerdictId.bind s.verdicts.find? with
  | none => simp [joined] at waited
  | some verdict =>
      simp only [joined, Option.any_some, Waited, Bool.and_eq_true] at waited
      rw [condition, joined, Option.map_some, Option.getD_some, waited.2] at unmet
      cases unmet

/-- Nothing is requeued while no condition is met. -/
theorem requeueRevisitable_unmet {chosen : String → Option ℚ} {facts : Facts} {s : Store}
    (unmet : ∀ row ∈ s.proposals.rows, untilMet chosen facts (condition s row.2) = false)
    (now : ℚ) : requeueRevisitable chosen facts now s = (.ok [], s) := by
  have none_ : revisitable chosen facts s = [] := by
    apply List.eq_nil_iff_forall_not_mem.mpr
    intro row listed
    exact not_revisitable (unmet row (List.mem_filter.mp listed).1) listed
  rw [requeueRevisitable, none_]
  rfl

/-- A key and what it wants, as one condition. -/
def keyed (key want : String) : String :=
  key ++ String.ofList (':' :: want.toList)

theorem partition_keyed {key want : String} (clean : ':' ∉ key.toList) :
    Text.partition (keyed key want) ':' = (key, want) :=
  Text.partition_append clean

/-- `name>floor`. -/
def floored (name floor : String) : String :=
  name ++ String.ofList ('>' :: floor.toList)

theorem partition_floored {name floor : String} (clean : '>' ∉ name.toList) :
    Text.partition (floored name floor) '>' = (name, floor) :=
  Text.partition_append clean

theorem floored_contains (name floor : String) : (floored name floor).toList.contains '>' = true := by
  simp [floored]

/-- `>` and a number to so many decimals. -/
def marked (places : Nat) (q : ℚ) : String :=
  .ofList ('>' :: (Decimal.fixed places q).toList)

/-- A printed number is passed by exactly what is above its rounded value. -/
theorem aboveMark_marked {places : Nat} {q have_ : ℚ} (nonneg : 0 ≤ q) :
    aboveMark have_ (marked places q) = true ↔ Decimal.rounded places q < have_ := by
  simp [aboveMark, marked, above, Decimal.number_fixed nonneg, Decimal.Number.below]

theorem untilMet_ceiling {chosen : String → Option ℚ} {facts : Facts} {places : Nat} {q : ℚ}
    (nonneg : 0 ≤ q) :
    untilMet chosen facts (keyed "ceiling_gb" (marked places q)) = false ↔
      facts.ceilingGb ≤ Decimal.rounded places q := by
  have read : untilMet chosen facts (keyed "ceiling_gb" (marked places q)) =
      aboveMark facts.ceilingGb (marked places q) := by
    simp only [untilMet, partition_keyed (by decide : ':' ∉ "ceiling_gb".toList),
      String.reduceEq, ↓reduceIte]
  rw [read, ← Bool.not_eq_true, aboveMark_marked nonneg, not_lt]

theorem untilMet_memory {chosen : String → Option ℚ} {facts : Facts} {places : Nat} {q : ℚ}
    (nonneg : 0 ≤ q) :
    untilMet chosen facts (keyed "memory_gb" (marked places q)) = false ↔
      facts.memoryGb ≤ Decimal.rounded places q := by
  have read : untilMet chosen facts (keyed "memory_gb" (marked places q)) =
      aboveMark facts.memoryGb (marked places q) := by
    simp only [untilMet, partition_keyed (by decide : ':' ∉ "memory_gb".toList),
      String.reduceEq, ↓reduceIte]
  rw [read, ← Bool.not_eq_true, aboveMark_marked nonneg, not_lt]

theorem untilMet_runtime {chosen : String → Option ℚ} {facts : Facts} {want : String} :
    untilMet chosen facts (keyed "runtime" want) = false ↔
      ∀ runtime ∈ Text.split want '|', runtime ∉ Text.split facts.runtimes ',' := by
  have read : untilMet chosen facts (keyed "runtime" want) =
      (Text.split want '|').any fun runtime => runtime ∈ Text.split facts.runtimes ',' := by
    simp only [untilMet, partition_keyed (by decide : ':' ∉ "runtime".toList), ↓reduceIte]
  rw [read, List.any_eq_false]
  simp

/-- A version asked to be newer than the one the facts record is not met by it. -/
theorem untilMet_version {chosen : String → Option ℚ} {facts : Facts} {name : String}
    (clean : '>' ∉ name.toList) (other : String) :
    untilMet chosen facts (keyed "version" (floored name ((facts.versions name).getD other))) =
      false := by
  simp only [untilMet, partition_keyed (by decide : ':' ∉ "version".toList),
    partition_floored clean, floored_contains, Bool.true_and, String.reduceEq, ↓reduceIte]
  cases recorded : facts.versions name with
  | none =>
      have nothing : versionTuple none = none := by decide
      rw [nothing]
  | some version =>
      rw [Option.getD_some]
      cases versionTuple (some version) with
      | none => rfl
      | some parts =>
          have same : ¬ parts < parts := lt_irrefl parts
          simp only [same, decide_false]

theorem untilMet_limit {chosen : String → Option ℚ} {facts : Facts} {want : String}
    (absent : facts.limits = none) :
    untilMet chosen facts (keyed "limit" want) =
      (want.toList.contains '>' && ((chosen (Text.partition want '>').1).map
        (above · (Text.partition want '>').2)).getD false) := by
  simp only [untilMet, partition_keyed (by decide : ':' ∉ "limit".toList), absent,
    Option.getD_none, String.reduceEq, ↓reduceIte]

theorem untilMet_commit {chosen : String → Option ℚ} {facts : Facts} {want : String}
    (absent : facts.lastCommit = "") :
    untilMet chosen facts (keyed "commit_after" want) = false := by
  have unseen : isoDate (Text.strip "") = false := by decide
  simp only [untilMet, partition_keyed (by decide : ':' ∉ "commit_after".toList), absent, unseen,
    Bool.false_and, String.reduceEq, ↓reduceIte]

theorem untilMet_empty (chosen : String → Option ℚ) (facts : Facts) :
    untilMet chosen facts "" = false := by
  have cut : Text.partition "" ':' = ("", "") := rfl
  simp only [untilMet, cut, String.reduceEq, ↓reduceIte]

end LocalHarness.MemoryStore
