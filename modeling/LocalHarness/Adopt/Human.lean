import LocalHarness.Library.Fallible
import LocalHarness.Library.Ordered
import LocalHarness.Library.Tally
import LocalHarness.Library.Text
import LocalHarness.Tiers.FetchRun

/-! # Verdicts a person gives

What a run asks of a person is one pairing after another: two candidates on one case. A pairing
is decided once it was answered often enough, and a lane once all its pairings are. Which
candidate has the lane is the plurality of the cases, each with the answer kept for it.
-/

namespace LocalHarness.Adopt.Human

open LocalHarness.Library
open LocalHarness.Tiers.Fetching (canonical)

/-- How many answers before a pairing counts. -/
def ENOUGH : Nat := 3

/-- A row of a receipt, in the columns a pairing is made from. -/
structure ResultRow where
  caseId : String
  candidate : String
  passed : Bool
  output : String := ""
  artifactPath : String := ""
  deriving DecidableEq

structure Pairing where
  case_ : String
  a : String
  b : String
  aFile : String := ""
  bFile : String := ""
  aText : String := ""
  bText : String := ""
  deriving DecidableEq

/-- The artifact of a row, if the file is still there. -/
def file (onDisk : String → Bool) (row : ResultRow) : String :=
  if row.artifactPath ≠ "" ∧ onDisk row.artifactPath then row.artifactPath else ""

def baseOf (row : ResultRow) : String :=
  (Text.partition row.caseId '#').1

/-- Each candidate's first row, the candidates in order. -/
def entrants (rows : List ResultRow) : List ResultRow :=
  (((rows.map ResultRow.candidate).dedup).insertionSort (· ≤ ·)).filterMap fun name =>
    rows.find? fun row => row.candidate = name

/-- Every later entry with each that stands before it. -/
def couples : List ResultRow → List (ResultRow × ResultRow)
  | [] => []
  | a :: rest => rest.map (a, ·) ++ couples rest

/-- Every pairing a person could be asked about, case by case. -/
def pairings (onDisk : String → Bool) (rows : List ResultRow) : List Pairing :=
  let shown := rows.filter fun row => (row.output ≠ "" ∨ row.artifactPath ≠ "") ∧ row.passed
  (((shown.map baseOf).dedup).insertionSort (· ≤ ·)).flatMap fun case_ =>
    (couples (entrants (shown.filter fun row => baseOf row = case_))).map fun (a, b) =>
      { case_, a := a.candidate, b := b.candidate
        aFile := file onDisk a, bFile := file onDisk b, aText := a.output, bText := b.output }

/-- One answer. The candidates stand in order, and no winner means no preference. -/
structure Vote where
  lane : String
  caseId : String
  left : String
  right : String
  winner : String
  deriving DecidableEq

/-- The answers so far for one pairing. -/
def tally (votes : List Vote) (lane case_ a b : String) : List String :=
  let lo := min a b
  let hi := max a b
  (votes.filter fun vote => vote.lane = canonical lane ∧ vote.caseId = case_ ∧ vote.left = lo ∧
    vote.right = hi).map Vote.winner

/-- The winner, blank for a tie; none while it has not been asked enough. -/
def decided (votes : List Vote) (lane case_ a b : String) : Option String :=
  let counts := tally votes lane case_ a b
  if counts.length < ENOUGH then none else some ((Tally.plurality counts).getD "")

def decision (votes : List Vote) (lane : String) (p : Pairing) : Option String :=
  decided votes lane p.case_ p.a p.b

/-- The decision kept for each case, unless some pairing has none yet. -/
def decidedBy (votes : List Vote) (lane : String) (pairs : List Pairing) :
    Except String (Ordered String String) :=
  pairs.foldlM (fun kept p =>
    match decision votes lane p with
    | none => .error (p.case_ ++ " has fewer than " ++ toString ENOUGH ++
        " answers, so the lane is not judged yet")
    | some got => .ok (kept.insert p.case_ got)) ∅

/-- What the lane's verdict counts: the cases with a preference. -/
def wins (kept : Ordered String String) : List String :=
  kept.values.filter (· ≠ "")

def detail (kept : Ordered String String) : String :=
  ", ".intercalate ((kept.items.insertionSort fun a b => a.1 ≤ b.1).map fun item =>
    item.1 ++ ": " ++ if item.2 ≠ "" then Text.afterLast item.2 '@' else "no preference")

def judged (kept : Ordered String String) : Option String × String :=
  if kept.items = [] then (none, "nothing to judge")
  else
    let ties := kept.values.countP (· = "")
    let won (name : String) (n : Nat) : Option String × String :=
      (some name, "won " ++ toString n ++ " of " ++ toString kept.items.length ++ " case(s) (" ++
        detail kept ++ ")" ++ if ties ≠ 0 then ", " ++ toString ties ++ " with no preference" else "")
    match Tally.mostCommon (wins kept) with
    | [] => (some "", "no case had a preference (" ++ detail kept ++ ")")
    | [(name, n)] => won name n
    | (name, n) :: (_, m) :: _ =>
        if n = m then
          (some "", "the cases disagree " ++ toString n ++ "-" ++ toString m ++
            " with no majority (" ++ detail kept ++ ")")
        else won name n

/-- Who won the lane, and why: none while not enough was judged, blank without a preference. -/
def laneVerdict (votes : List Vote) (lane : String) (pairs : List Pairing) : Option String × String :=
  match decidedBy votes lane pairs with
  | .error why => (none, why)
  | .ok kept => judged kept

/-- Every decisive pairing counts towards the lane's verdict, which does not depend on the order
    of the votes; and a candidate that takes part in every case, and is preferred in every
    pairing it takes part in, has the lane or nobody has. -/
structure Heard (votes : List Vote) (lane : String) (pairs : List Pairing) : Prop where
  counted : ∀ kept, decidedBy votes lane pairs = .ok kept → ∀ name, name ≠ "" →
    (wins kept).count name = pairs.countP fun p => decision votes lane p = some name
  unordered : ∀ votes', votes.Perm votes' → laneVerdict votes' lane pairs = laneVerdict votes lane pairs
  preferred : ∀ name, name ≠ "" →
    (∀ p ∈ pairs, ∃ q ∈ pairs, q.case_ = p.case_ ∧ (q.a = name ∨ q.b = name)) →
      (∀ p ∈ pairs, p.a = name ∨ p.b = name → decision votes lane p = some name) →
        ∀ won, (laneVerdict votes lane pairs).1 = some won → won = name ∨ won = ""

/-! ## The decisions kept -/

theorem decision_perm {votes votes' : List Vote} (same : votes.Perm votes') (lane : String)
    (p : Pairing) : decision votes' lane p = decision votes lane p := by
  have answers : ∀ case_ a b, (tally votes lane case_ a b).Perm (tally votes' lane case_ a b) :=
    fun case_ a b => (same.filter _).map _
  rw [decision, decision, decided, decided, (answers ..).length_eq, Tally.plurality_perm (answers ..)]

/-- What a pairing decided, blank where it decided nothing. -/
def answer (votes : List Vote) (lane : String) (p : Pairing) : String × String :=
  (p.case_, (decision votes lane p).getD "")

theorem decidedBy_ok {votes : List Vote} {lane : String} {pairs : List Pairing}
    {kept : Ordered String String} :
    decidedBy votes lane pairs = .ok kept ↔
      (∀ p ∈ pairs, decision votes lane p ≠ none) ∧
        kept = Ordered.fill (pairs.map (answer votes lane)) := by
  induction pairs using List.reverseRecOn generalizing kept with
  | nil =>
      constructor
      · intro empty
        exact ⟨nofun, pure_ok empty⟩
      · rintro ⟨-, rfl⟩
        rfl
  | append_singleton pairs p ih =>
      rw [decidedBy, foldlM_append_ok, List.map_append, List.map_singleton, answer,
        Ordered.fill_concat]
      simp only [List.foldlM_cons, List.foldlM_nil]
      constructor
      · rintro ⟨before, earlier, last⟩
        obtain ⟨each, rfl⟩ := ih.mp earlier
        cases known : decision votes lane p with
        | none =>
            rw [known] at last
            cases last
        | some got =>
            rw [known] at last
            refine ⟨fun q member => ?_, pure_ok last⟩
            rcases List.mem_append.mp member with old | new
            · exact each q old
            · rw [List.mem_singleton.mp new, known]
              nofun
      · rintro ⟨each, rfl⟩
        refine ⟨_, ih.mpr ⟨fun q member => each q (List.mem_append_left _ member), rfl⟩, ?_⟩
        obtain ⟨got, known⟩ := Option.ne_none_iff_exists'.mp (each p (by simp))
        rw [known]
        rfl

/-- The lane's name is blank or has a case that was kept for it. -/
theorem judged_mem {kept : Ordered String String} {won : String} (named : (judged kept).1 = some won) :
    won = "" ∨ won ∈ wins kept := by
  have listed : ∀ {entry rest}, Tally.mostCommon (wins kept) = entry :: rest → entry.1 ∈ wins kept :=
    fun shape => (Tally.mem_mostCommon.mp (shape ▸ List.mem_cons_self)).1
  unfold judged at named
  split at named
  next => cases named
  next =>
    extract_lets ties won_ at named
    split at named
    next => exact .inl (Option.some.inj named).symm
    next name n shape => exact .inr (Option.some.inj named ▸ listed shape)
    next name n _ m rest shape =>
      split at named
      next => exact .inl (Option.some.inj named).symm
      next => exact .inr (Option.some.inj named ▸ listed shape)

/-- No pairing of a case decides anything before another pairing of it. -/
def DecidedLast (votes : List Vote) (lane : String) (pairs : List Pairing) : Prop :=
  pairs.Pairwise fun p later => p.case_ = later.case_ → (decision votes lane p).getD "" = ""

theorem decidedLast_iff {votes : List Vote} {lane : String} {pairs : List Pairing} :
    DecidedLast votes lane pairs ↔ Ordered.Unrepeated "" (pairs.map (answer votes lane)) := by
  rw [Ordered.Unrepeated, List.pairwise_map]
  rfl

theorem count_wins (kept : Ordered String String) {name : String} (named : name ≠ "") :
    (wins kept).count name = kept.values.count name :=
  List.count_filter (by simpa using named)

theorem countP_decision {votes : List Vote} {lane : String} {pairs : List Pairing} {name : String}
    (named : name ≠ "") :
    (pairs.countP fun p => decision votes lane p = some name) =
      ((pairs.map (answer votes lane)).map Prod.snd).count name := by
  rw [List.map_map, List.count, List.countP_map]
  apply List.countP_congr
  intro p _
  cases known : decision votes lane p with
  | none => simp [answer, known, Ne.symm named]
  | some got => simp [answer, known]

theorem laneVerdict_perm {votes votes' : List Vote} (same : votes.Perm votes') (lane : String)
    (pairs : List Pairing) : laneVerdict votes' lane pairs = laneVerdict votes lane pairs := by
  have decisions : decision votes' lane = decision votes lane :=
    funext (decision_perm same lane)
  rw [laneVerdict, laneVerdict, decidedBy, decidedBy, decisions]

/-- With no decision behind another, a candidate preferred wherever it stands has each case it
    stands in. -/
theorem kept_of_preferred {votes : List Vote} {lane : String} {pairs : List Pairing} {name : String}
    (named : name ≠ "") (decidedLast : DecidedLast votes lane pairs)
    (entered : ∀ p ∈ pairs, ∃ q ∈ pairs, q.case_ = p.case_ ∧ (q.a = name ∨ q.b = name))
    (preferred : ∀ p ∈ pairs, p.a = name ∨ p.b = name → decision votes lane p = some name) :
    ∀ won ∈ (Ordered.fill (pairs.map (answer votes lane))).values, won = name := by
  intro won member
  obtain ⟨⟨case_, _⟩, item, rfl⟩ := List.mem_map.mp member
  have last := Ordered.mem_fill_iff.mp item
  obtain ⟨p, asked, keyed⟩ := List.mem_map.mp last.mem
  obtain ⟨q, answered, same, stands⟩ := entered p asked
  have won_ : answer votes lane q = (case_, name) := by
    rw [answer, preferred q answered stands, same]
    exact Prod.ext (congrArg Prod.fst keyed : p.case_ = case_) rfl
  exact (last.eq_of_solid (decidedLast_iff.mp decidedLast)
    (won_ ▸ List.mem_map_of_mem answered) named).symm

/-- A lane's verdict hears every pairing exactly where the lane is not judged yet or no pairing
    that decided something is followed by another of its case, which is what two candidates to a
    case come to. -/
theorem heard_iff (votes : List Vote) (lane : String) (pairs : List Pairing) :
    Heard votes lane pairs ↔
      (∃ p ∈ pairs, decision votes lane p = none) ∨ DecidedLast votes lane pairs := by
  have counted : ∀ kept, decidedBy votes lane pairs = .ok kept →
      ((∀ name, name ≠ "" → (wins kept).count name =
        pairs.countP fun p => decision votes lane p = some name) ↔ DecidedLast votes lane pairs) := by
    intro kept found
    obtain ⟨-, rfl⟩ := decidedBy_ok.mp found
    rw [decidedLast_iff, ← Ordered.count_fill_iff]
    apply forall₂_congr
    intro name named
    rw [count_wins _ named, countP_decision named]
  constructor
  · intro heard
    by_cases open_ : ∃ p ∈ pairs, decision votes lane p = none
    · exact .inl open_
    · have found := decidedBy_ok.mpr ⟨fun p member none => open_ ⟨p, member, none⟩, rfl⟩
      exact .inr ((counted _ found).mp (heard.counted _ found))
  · intro settled
    have settled : ∀ kept, decidedBy votes lane pairs = .ok kept → DecidedLast votes lane pairs := by
      intro kept found
      obtain ⟨p, member, none⟩ | decidedLast := settled
      · exact absurd none ((decidedBy_ok.mp found).1 p member)
      · exact decidedLast
    refine ⟨fun kept found => (counted kept found).mpr (settled kept found),
      fun votes' same => laneVerdict_perm same lane pairs, ?_⟩
    intro name named entered preferred won verdict
    rw [laneVerdict] at verdict
    split at verdict
    next => cases verdict
    next kept found =>
      rcases judged_mem verdict with none | counts
      · exact .inr none
      · have decidedLast := settled kept found
        obtain ⟨-, rfl⟩ := decidedBy_ok.mp found
        exact .inl (kept_of_preferred named decidedLast entered preferred won
          (List.mem_of_mem_filter counts))

/-- With three candidates on one case the last pairing has it, and the candidate that was
    preferred to both of the others does not. -/
theorem preferred_outranked :
    let rows : List ResultRow := ["alpha", "beta", "gamma"].map fun name =>
      { caseId := "fox", candidate := name, passed := true, output := name }
    let votes : List Vote :=
      List.replicate 3 ⟨"image", "fox", "alpha", "beta", "alpha"⟩ ++
        List.replicate 3 ⟨"image", "fox", "alpha", "gamma", "alpha"⟩ ++
          List.replicate 3 ⟨"image", "fox", "beta", "gamma", "beta"⟩
    let pairs := pairings (fun _ => false) rows
    (pairs.map fun p => (p.a, p.b, decision votes "image" p)) =
        [("alpha", "beta", some "alpha"), ("alpha", "gamma", some "alpha"),
          ("beta", "gamma", some "beta")] ∧
      laneVerdict votes "image" pairs = (some "beta", "won 1 of 1 case(s) (fox: beta)") ∧
        ¬ Heard votes "image" pairs := by
  intro rows votes pairs
  have decisions : (pairs.map fun p => (p.a, p.b, decision votes "image" p)) =
      [("alpha", "beta", some "alpha"), ("alpha", "gamma", some "alpha"),
        ("beta", "gamma", some "beta")] := by decide
  have verdict : laneVerdict votes "image" pairs =
      (some "beta", "won 1 of 1 case(s) (fox: beta)") := by decide
  refine ⟨decisions, verdict, fun heard => ?_⟩
  have outranked := heard.preferred "alpha" (by decide) (by decide) (by decide)
    "beta" (congrArg Prod.fst verdict)
  revert outranked
  decide

end LocalHarness.Adopt.Human
