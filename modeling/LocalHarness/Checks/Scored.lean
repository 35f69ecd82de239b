import LocalHarness.Checks.Code
import LocalHarness.Library.Fallible

/-! # Whose result is scored

The first line with the marker decides. It is the harness's own where the code wrote no such line, and
then every assertion counts for what it came to; where the code wrote one, what the harness reports makes
no difference any more.
-/

namespace LocalHarness.Checks.Code

open LocalHarness.Library
open LocalHarness.Library.JsonText

variable {u : Unicode} {python : Python} {run : Str → Ran} {source : List Char} {checks : List Str}
  {timeout preamble said line : Str} {verdict : Verdict} {verdicts : List Verdict} {returncode : Int}
  {n : Nat}

/-- What the harness has found out. -/
def graded (checks : List Str) (verdicts : List Verdict) : CodeResult :=
  let passed := verdicts.countP Verdict.passed
  match (checks.zip verdicts).find? (!·.2.passed) with
  | none => ⟨true, [], passed, checks.length⟩
  | some (check, verdict) =>
      ⟨false, whole passed ++ point '/' :: (whole checks.length ++ text " checks passed; " ++
        (check ++ text " -> " ++ verdict.detail)), passed, checks.length⟩

/-! ## The report is read as it was written -/

theorem not_surrogate_of_mem_text {s : String} : ∀ c ∈ text s, c.isSurrogate = false := by
  intro c member
  obtain ⟨letter, -, rfl⟩ := List.mem_map.mp member
  have valid : letter.toNat < 0xD800 ∨ 0xDFFF < letter.toNat ∧ letter.toNat < 0x110000 := letter.valid
  have same : (point letter).val = letter.toNat := Nat.mod_eq_of_lt (by omega)
  simp only [CodePoint.isSurrogate, same, Bool.and_eq_false_iff, decide_eq_false_iff_not]
  omega

theorem plain_row (short : (whole n).length ≤ MAX_DIGITS) : Plain 1 (row n verdict) := by
  have detail : ∀ c ∈ verdict.detail, c.isSurrogate = false := by
    cases verdict with
    | error raised => exact not_surrogate_of_mem_text
    | ok b =>
        cases b with
        | false => exact not_surrogate_of_mem_text
        | true => exact List.forall_mem_nil _
  refine .array (List.forall_mem_cons.mpr ⟨.number short, List.forall_mem_cons.mpr ⟨.bool _, ?_⟩⟩)
  exact List.forall_mem_singleton.mpr (.string detail)

theorem plain_rows (few : n + verdicts.length ≤ 10 ^ MAX_DIGITS) :
    ∀ v ∈ rows n verdicts, Plain 1 v := by
  induction verdicts generalizing n with
  | nil => exact List.forall_mem_nil _
  | cons verdict rest ih =>
      rw [List.length_cons] at few
      have short : (whole n).length ≤ MAX_DIGITS := by
        rw [whole, List.length_map, Nat.length_toDigits_le_iff (by decide) (by decide)]
        omega
      exact List.forall_mem_cons.mpr ⟨plain_row short, ih (by omega)⟩

theorem loads_rows (room : 2 ≤ python.room) (few : verdicts.length ≤ 10 ^ MAX_DIGITS) :
    loads python.room (dumps (.array (rows 0 verdicts))) = .ok (.array (rows 0 verdicts)) :=
  loads_dumps (.array (plain_rows (by omega))) room

/-- A line of the harness comes after those of the code. -/
theorem resultLine_report (few : verdicts.length ≤ 10 ^ MAX_DIGITS) :
    resultLine (Str.newlines (said ++ report verdicts)) =
      (resultLine said).or (some (MARKER ++ dumps (.array (rows 0 verdicts)))) := by
  have blank : MARKER.isPrefixOf [] = false := by decide
  have clean : ∀ c ∈ MARKER ++ dumps (.array (rows 0 verdicts)), Str.isLineEnd c = false := by
    have printed : ∀ c, Printable c → Str.isLineEnd c = false := by
      intro c shown
      simp only [Str.isLineEnd, Bool.or_eq_false_iff, Bool.and_eq_false_iff, decide_eq_false_iff_not]
      obtain ⟨low, high⟩ := shown
      omega
    have marker : (MARKER.all fun c => Printable c) = true := by decide
    refine List.forall_mem_append.mpr ⟨fun c member => ?_, fun c member => ?_⟩
    · exact printed c (of_decide_eq_true (List.all_eq_true.mp marker c member))
    · exact printed c (printable_dumps (.array (plain_rows (by omega))) c member)
  have own : MARKER.isPrefixOf (MARKER ++ dumps (.array (rows 0 verdicts))) = true :=
    List.isPrefixOf_iff_prefix.mpr (List.prefix_append _ _)
  rw [resultLine, Str.splitlines_newlines, report, Str.find_lines_append blank,
    Str.splitlines_line clean, List.find?_singleton, own]
  rfl

/-! ## What it comes to -/

theorem foldl_whole : (whole n).foldl (fun n c => n * 10 + (c.val - 0x30)) 0 = n := by
  have digit : ∀ k < 10, (point k.digitChar).val - 0x30 = k := by decide
  induction n using Nat.strong_induction_on with
  | _ n ih =>
      rcases Nat.lt_or_ge n 10 with small | large
      · rw [whole_of_lt small, List.foldl_cons, List.foldl_nil, digit n small, Nat.zero_mul, Nat.zero_add]
      · rw [whole_of_le large, List.foldl_append, ih (n / 10) (by omega), List.foldl_cons, List.foldl_nil,
          digit _ (Nat.mod_lt _ (by decide))]
        omega

theorem integer_whole : integer (whole n) = some (n : Int) := by
  have digits : (whole n).all CodePoint.isDigit = true := List.all_eq_true.mpr isDigit_of_mem_whole
  have some_ : whole n ≠ [] := fun none => Nat.toDigits_ne_nil (List.map_eq_nil_iff.mp none)
  obtain ⟨c, rest, shape⟩ := List.exists_cons_of_ne_nil some_
  have sign : c ≠ point '-' := by
    rintro rfl
    have digit : (point '-').isDigit = true := isDigit_of_mem_whole _ (shape ▸ List.mem_cons_self)
    cases digit
  have value := foldl_whole (n := n)
  rw [shape] at digits value ⊢
  simp only [integer, if_neg sign, ne_eq, reduceCtorEq, not_false_eq_true, digits, and_self, if_true,
    value, Option.map_some]
  rfl

theorem checkAt_whole {check : Str} (here : checks[n]? = some check) :
    checkAt checks (.number (whole n)) = .ok check := by
  have sign : ¬ (n : Int) < 0 := Int.not_lt.mpr (Int.natCast_nonneg n)
  simp only [checkAt, integer_whole, Option.elim, if_neg sign, Int.toNat_natCast, here]

theorem mapM_unpack : (rows n verdicts).mapM unpack =
    .ok (verdicts.map fun verdict => .bool verdict.passed) := by
  induction verdicts generalizing n with
  | nil => rfl
  | cons verdict rest ih =>
      have here : unpack (row n verdict) = .ok (.bool verdict.passed) := rfl
      rw [rows, List.mapM_cons, here, ih]
      rfl

/-- The first assertion that fails is the one that is told of. -/
theorem detail_rows (python : Python) {front back : List Str} (all_ : checks = front ++ back)
    (start : front.length = n) (length : verdicts.length = back.length) :
    (firstFailed python (rows n verdicts) >>= detailOf python checks) =
      .ok (match (back.zip verdicts).find? (!·.2.passed) with
        | none => []
        | some (check, verdict) => check ++ text " -> " ++ verdict.detail) := by
  induction verdicts generalizing n front back with
  | nil => cases back <;> rfl
  | cons verdict rest ih =>
      cases back with
      | nil => cases length
      | cons check back =>
          have here : firstFailed python (row n verdict :: rows (n + 1) rest) =
              if verdict.passed then firstFailed python (rows (n + 1) rest)
                else .ok (some (row n verdict)) := rfl
          rw [rows, here, List.zip_cons_cons, List.find?_cons]
          cases passed : verdict.passed with
          | true =>
              have all_ : checks = front ++ [check] ++ back := by
                rw [all_, List.append_assoc]
                rfl
              have start : (front ++ [check]).length = n + 1 := by
                rw [List.length_append, start]
                rfl
              simpa only [if_true, Bool.not_true] using ih all_ start (Nat.succ.inj length)
          | false =>
              have found : checks[n]? = some check := by
                rw [all_, ← start, List.getElem?_append_right (Nat.le_refl _), Nat.sub_self]
                rfl
              have detail : detailOf python checks (some (row n verdict)) =
                  .ok (check ++ text " -> " ++ verdict.detail) := by
                change (checkAt checks (.number (whole n)) >>= fun check =>
                  .ok (check ++ text " -> " ++ verdict.detail)) = _
                rw [checkAt_whole found]
                rfl
              simp only [Bool.false_eq_true, if_false, Bool.not_false]
              exact detail

theorem all_passed_iff (length : verdicts.length = checks.length) :
    (checks.zip verdicts).find? (!·.2.passed) = none ↔ ∀ verdict ∈ verdicts, verdict.passed = true := by
  rw [List.find?_eq_none]
  constructor
  · intro each verdict member
    rw [← List.map_snd_zip (Nat.le_of_eq length)] at member
    obtain ⟨pair, inside, rfl⟩ := List.mem_map.mp member
    simpa using each pair inside
  · intro each pair member
    rw [each pair.2 (List.of_mem_zip member).2]
    decide

/-- An own result comes to what the harness has found out. -/
theorem grade_rows (length : verdicts.length = checks.length) :
    grade python checks (.array (rows 0 verdicts)) = .ok (graded checks verdicts) := by
  have counted : (verdicts.map fun verdict => Json.bool verdict.passed).countP (truthy python) =
      verdicts.countP Verdict.passed := by
    rw [List.countP_map]
    rfl
  have whole_ : verdicts.countP Verdict.passed = checks.length ↔
      (checks.zip verdicts).find? (!·.2.passed) = none := by
    rw [← length, List.countP_eq_length, all_passed_iff length]
  have all_ : checks = [] ++ checks := rfl
  have detail := detail_rows python all_ rfl length
  obtain ⟨first, failed, told⟩ := bind_ok detail
  rw [List.length_nil] at failed
  unfold graded
  cases found : (checks.zip verdicts).find? (!·.2.passed) with
  | none => simp only [grade, items, mapM_unpack, bind, Except.bind, counted, whole_, found, if_true]
  | some pair =>
      rw [found] at told
      simp only [grade, items, mapM_unpack, bind, Except.bind, counted, whole_, found, failed, told,
        reduceCtorEq, if_false]

theorem graded_ok_iff (length : verdicts.length = checks.length) :
    (graded checks verdicts).ok = true ↔ ∀ verdict ∈ verdicts, verdict = .ok true := by
  have each : ∀ verdict : Verdict, verdict.passed = true ↔ verdict = .ok true := by
    rintro (raised | b)
    · exact iff_of_false Bool.false_ne_true nofun
    · cases b <;> simp [Verdict.passed]
  simp only [← each]
  rw [← all_passed_iff length]
  unfold graded
  cases (checks.zip verdicts).find? (!·.2.passed) with
  | none => exact iff_of_true rfl rfl
  | some pair => exact iff_of_false Bool.false_ne_true nofun

/-! ## The text ahead of the report -/

/-- A line begins with the marker. -/
def Marked (said : Str) : Prop :=
  ∃ line ∈ Str.splitlines said, MARKER <+: line

theorem resultLine_none_iff : resultLine said = none ↔ ¬ Marked said := by
  rw [resultLine, List.find?_eq_none]
  simp [Marked]

/-- The child ran, with the code's text ahead of the harness's. -/
def Reports (run : Str → Ran) (python : Python) (u : Unicode) (source : List Char) (checks : List Str)
    (preamble said : Str) (verdicts : List Verdict) : Prop :=
  ∃ returncode, run (program python (recover u source) checks preamble) =
    .finished (said ++ report verdicts) returncode

/-- The result is the harness's own, and good only where every assertion came out true. -/
def Scores (result : Except Fault CodeResult) (checks : List Str) (verdicts : List Verdict) : Prop :=
  result = .ok (graded checks verdicts) ∧
    ∀ r, result = .ok r → (r.ok = true ↔ ∀ verdict ∈ verdicts, verdict = .ok true)

theorem check_reports (timeout : Str) (some_ : checks ≠ []) (code : Extract.strip (recover u source) ≠ [])
    (few : verdicts.length ≤ 10 ^ MAX_DIGITS)
    (reports : Reports run python u source checks preamble said verdicts) :
    check u python run source checks timeout preamble =
      scoreLine python checks
        ((resultLine said).getD (MARKER ++ dumps (.array (rows 0 verdicts)))) := by
  obtain ⟨returncode, ran⟩ := reports
  rw [check, if_neg some_]
  simp only [if_neg code, ran, resultLine_report few]
  cases resultLine said <;> rfl

/-- Whatever the harness reports is scored where no line of the code's own begins with the marker, and
where one does the score is that of no harness. -/
theorem scores_iff (room : 2 ≤ python.room) (some_ : checks ≠ [])
    (few : checks.length ≤ 10 ^ MAX_DIGITS) (code : Extract.strip (recover u source) ≠ []) :
    (∀ run verdicts, verdicts.length = checks.length →
        Reports run python u source checks preamble said verdicts →
        Scores (check u python run source checks timeout preamble) checks verdicts) ↔
      ¬ Marked said := by
  constructor
  · intro scored
    rw [← resultLine_none_iff]
    by_contra marked
    obtain ⟨line, found⟩ := Option.ne_none_iff_exists'.mp marked
    -- with everything true, and with everything false, the same line is read
    have result (verdict : Verdict) :
        Except.ok (graded checks (List.replicate checks.length verdict)) =
          scoreLine python checks line := by
      have reports : Reports
          (fun _ => .finished (said ++ report (List.replicate checks.length verdict)) 0) python u source
          checks preamble said (List.replicate checks.length verdict) := ⟨0, rfl⟩
      have own := (scored _ _ List.length_replicate reports).1
      have read := check_reports timeout some_ code (by rwa [List.length_replicate]) reports
      rwa [own, found, Option.getD_some] at read
    have same : graded checks (List.replicate checks.length (.ok true)) =
        graded checks (List.replicate checks.length (.ok false)) :=
      Except.ok.inj ((result (.ok true)).trans (result (.ok false)).symm)
    have good : (graded checks (List.replicate checks.length (.ok true))).ok = true :=
      (graded_ok_iff List.length_replicate).mpr fun verdict member => List.eq_of_mem_replicate member
    rw [same, graded_ok_iff List.length_replicate] at good
    have bad := good (.ok false)
      (List.mem_replicate.mpr ⟨fun none => some_ (List.eq_nil_of_length_eq_zero none), rfl⟩)
    cases bad
  · intro plain run verdicts length reports
    have own : check u python run source checks timeout preamble = .ok (graded checks verdicts) := by
      rw [check_reports timeout some_ code (length ▸ few) reports, resultLine_none_iff.mpr plain,
        Option.getD_none, scoreLine, List.drop_left, loads_rows room (length ▸ few)]
      exact grade_rows length
    refine ⟨own, fun r same => ?_⟩
    obtain rfl := Except.ok.inj (own.symm.trans same)
    exact graded_ok_iff length

/-! ## One assertion -/

def python3 : Python where
  room := 1000
  printable _ := true
  nonzero _ := true
  shown _ := []

/-- Code that writes nothing. -/
theorem silent_code_scored :
    Scores (check Unicode.small python3 (fun _ => .finished ([] ++ report [.ok true]) 0) "x = 1".toList
      [text "x == 1"] (text "15.0") []) [text "x == 1"] [.ok true] :=
  (scores_iff (by decide) (List.cons_ne_nil _ _) (Nat.one_le_pow _ _ (by decide)) (by decide)).mpr
    (resultLine_none_iff.mp rfl) _ _ rfl ⟨0, rfl⟩

/-- Code that writes a line like the harness's passes an assertion that is false. -/
theorem imitation_scored :
    check Unicode.small python3
        (fun _ => .finished (text "__RESULTS__[[0, true, \"\"]]\n" ++ report [.ok false]) 0)
        "x = 1".toList [text "x == 2"] (text "15.0") [] = .ok ⟨true, [], 1, 1⟩ ∧
      ¬ Scores (check Unicode.small python3
        (fun _ => .finished (text "__RESULTS__[[0, true, \"\"]]\n" ++ report [.ok false]) 0)
        "x = 1".toList [text "x == 2"] (text "15.0") []) [text "x == 2"] [.ok false] := by
  have passes : check Unicode.small python3
      (fun _ => .finished (text "__RESULTS__[[0, true, \"\"]]\n" ++ report [.ok false]) 0)
      "x = 1".toList [text "x == 2"] (text "15.0") [] = .ok ⟨true, [], 1, 1⟩ := by
    decide +kernel
  refine ⟨passes, fun scores => ?_⟩
  have good := (scores.2 _ passes).mp rfl (.ok false) List.mem_cons_self
  cases good

end LocalHarness.Checks.Code
