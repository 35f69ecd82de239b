import LocalHarness.Tiers.FetchRun

/-! # The budget of a run, and what is not charged to it

A run is charged for the targets and the runner bases that land. The dependencies that a
config names and the bytes of a failed download are moved without being charged.
-/

namespace LocalHarness.Tiers.Fetching

open LocalHarness.Library LocalHarness.MemoryStore

/-! ## What a run promises -/

/-- `plan` turns the download down for the size cap or the disk floor. -/
def Refused (repo : String) (size free : Int) : Prop :=
  (plan repo size free).reason = "limit" ∨ (plan repo size free).reason = "machine"

instance (repo : String) (size free : Int) : Decidable (Refused repo size free) :=
  inferInstanceAs (Decidable (_ ∨ _))

theorem plan_ok {repo : String} {size free : Int} (ok : (plan repo size free).ok = true) :
    0 < size ∧ ¬ Refused repo size free := by
  unfold Refused
  unfold plan at ok ⊢
  split_ifs at ok ⊢
  simp_all

section

variable (w : World)

/-- A download that the plan and the rest of the budget allow. -/
structure Allowed (start : Start) : Prop where
  planned : ¬ Refused start.repo (w.published start.repo) start.free
  room : ∀ budget, w.budget = some budget → start.before + w.published start.repo ≤ budget

/-- Every start was allowed, and what they moved is within the budget. -/
structure Kept (starts : List Start) : Prop where
  each : ∀ start ∈ starts, Allowed w start
  total : ∀ budget, w.budget = some budget → moved w starts ≤ budget

/-- The sizes a run is given are those the hub publishes, where they are known at all. -/
structure Honest : Prop where
  target : ∀ starts, ∀ row ∈ w.queued starts, 0 < targetSize w row →
    targetSize w row = w.published row.repo
  base : ∀ dep, 0 < baseSize w dep → baseSize w dep = w.published dep

/-! ## The condition, on the state before each step -/

def Start.lost (start : Start) : Nat :=
  match start.planned, start.ending with
  | true, .landed _ => 0
  | _, ending => ending.moved (w.published start.repo)

/-- The bytes that were moved and not charged. -/
def lost (starts : List Start) : Nat :=
  (starts.map (Start.lost w)).sum

/-- A planned download of this size also has room for what was not charged. -/
def Covered (spent : Int) (starts : List Start) (size : Int) : Prop :=
  lost w starts = 0 ∨ ∀ budget, w.budget = some budget → spent + lost w starts + size ≤ budget

/-- A dependency that is no base of the runner is one that would be allowed; a base is covered. -/
def needMet (name : String) (spent : Int) (s : Needs) (dep : String) : Prop :=
  if dep ∉ runner_bases name then
    ¬ Refused dep (w.published dep) (freeNow w s.starts) ∧
      ∀ budget, w.budget = some budget → moved w s.starts + w.published dep ≤ budget
  else
    overBudget w (spent + s.spent_now) (baseSize w dep) = false →
      (plan dep (baseSize w dep) (freeNow w s.starts)).ok = true →
        Covered w (spent + s.spent_now) s.starts (baseSize w dep)

def needsMet (s : Loop) (name : String) : Prop :=
  Along (needTurn w name s.spent) (needMet w name s.spent) { starts := s.starts }
    (neededBy w s.starts name)

/-- The loop as it stands when the needs of a row that landed are fetched. -/
def paid (s : Loop) (row : Wanted) (start : Start) : Loop :=
  { s with spent := s.spent + targetSize w row, starts := s.starts ++ [start] }

def visitMet (s : Loop) (row : Wanted) : Prop :=
  row.lane ≠ "" → gate w row = none → refusal w s row = none →
    Covered w s.spent s.starts (targetSize w row) ∧
      ∀ path, (targetStart w s row).ending = .landed path →
        needsMet w (paid w s row (targetStart w s row)) row.repo

/-- Every step of the run leaves room for the bytes that are not charged. -/
structure Charged : Prop where
  waiting : Along (waitTurn w) (needsMet w) {} (on_disk_waiting w)
  queue : Along (visit w) (visitMet w) (served w) (w.queued (served w).starts)

/-! ## One start -/

variable {w}

@[simp] theorem moved_append (starts : List Start) (start : Start) :
    moved w (starts ++ [start]) = moved w starts + start.ending.moved (w.published start.repo) := by
  simp [moved]

@[simp] theorem lost_append (starts : List Start) (start : Start) :
    lost w (starts ++ [start]) = lost w starts + start.lost w := by
  simp [lost]

theorem moved_le (size : Nat) (ending : Ending) : ending.moved size ≤ size := by
  cases ending with
  | landed path => exact Nat.le_refl size
  | failed why missing => exact Nat.sub_le size missing

/-- One more start is kept exactly when it is allowed. -/
theorem kept_append {starts : List Start} {start : Start} (before : start.before = moved w starts) :
    Kept w (starts ++ [start]) ↔ Kept w starts ∧ Allowed w start := by
  constructor
  · intro kept
    refine ⟨⟨fun other member => kept.each other (List.mem_append_left _ member), ?_⟩,
      kept.each start (List.mem_append_right _ (List.mem_singleton.mpr rfl))⟩
    intro budget given
    have total := kept.total budget given
    rw [moved_append] at total
    omega
  · rintro ⟨kept, allowed⟩
    constructor
    · intro other member
      rcases List.mem_append.mp member with earlier | last
      · exact kept.each other earlier
      · rwa [List.mem_singleton.mp last]
    · intro budget given
      have room := allowed.room budget given
      have most := moved_le (w.published start.repo) start.ending
      rw [moved_append]
      omega

/-- What is moved is what is charged and what is not. -/
def Balanced (w : World) (spent : Int) (starts : List Start) : Prop :=
  (moved w starts : Int) = spent + lost w starts

theorem overBudget_eq_false {spent size : Int} (positive : 0 < size) :
    overBudget w spent size = false ↔ ∀ budget, w.budget = some budget → spent + size ≤ budget := by
  unfold overBudget
  cases w.budget with
  | none => simp
  | some budget => simp [positive]

/-- A start that was planned is allowed exactly when it is covered. -/
theorem allowed_iff_covered {spent size : Int} {starts : List Start} {repo : String} {text : Bool}
    (balanced : Balanced w spent starts) (within : overBudget w spent size = false)
    (ok : (plan repo size (freeNow w starts)).ok = true) (honest : 0 < size → size = w.published repo) :
    Allowed w (startOf w starts repo true text) ↔ Covered w spent starts size := by
  obtain ⟨positive, accepted⟩ := plan_ok ok
  have same := honest positive
  unfold Balanced at balanced
  have within := (overBudget_eq_false positive).mp within
  constructor
  · intro allowed
    refine .inr fun budget given => ?_
    have room := allowed.room budget given
    simp only [startOf] at room
    omega
  · intro covered
    constructor
    · change ¬ Refused repo (w.published repo) (freeNow w starts)
      rwa [← same]
    · intro budget given
      have enough := within budget given
      simp only [startOf]
      rcases covered with none | room
      · omega
      · have left := room budget given
        omega

/-! ## One turn of each loop -/

variable {name : String} {spent : Int}

/-- A start that is not planned is not charged, landed or failed. -/
theorem lost_unplanned {start : Start} (unplanned : start.planned = false) :
    start.lost w = start.ending.moved (w.published start.repo) := by
  simp [Start.lost, unplanned]

theorem lost_failed {start : Start} {why : String} {missing : Nat}
    (failed : start.ending = .failed why missing) :
    start.lost w = start.ending.moved (w.published start.repo) := by
  simp [Start.lost, failed]

theorem lost_landed {start : Start} {path : String} (planned : start.planned = true)
    (landed : start.ending = .landed path) : start.lost w = 0 := by
  simp [Start.lost, planned, landed]

/-- Bytes that are moved and not charged leave the balance as it is. -/
theorem Balanced.uncharged {starts : List Start} {start : Start} (balanced : Balanced w spent starts)
    (uncharged : start.lost w = start.ending.moved (w.published start.repo)) :
    Balanced w spent (starts ++ [start]) := by
  unfold Balanced at balanced ⊢
  rw [moved_append, lost_append, uncharged]
  omega

/-- So do bytes that are charged as they are moved. -/
theorem Balanced.charged {starts : List Start} {start : Start} {path : String} {size : Int}
    (balanced : Balanced w spent starts) (planned : start.planned = true)
    (landed : start.ending = .landed path) (same : size = w.published start.repo) :
    Balanced w (spent + size) (starts ++ [start]) := by
  unfold Balanced at balanced ⊢
  rw [moved_append, lost_append, lost_landed planned landed, landed, Ending.moved]
  omega

theorem fetchNeed_other {s : Needs} {dep : String} (other : dep ∉ runner_bases name) :
    (fetchNeed w name spent s dep).starts = s.starts ++ [startOf w s.starts dep false true] ∧
      (fetchNeed w name spent s dep).spent_now = s.spent_now := by
  unfold fetchNeed
  rw [if_pos other]
  cases ending : (startOf w s.starts dep false true).ending <;> simp [ending]

/-- What a turn does of a base: it is waited for, or it is started and, once landed, charged. -/
theorem fetchNeed_base (s : Needs) {dep : String} (base : dep ∈ runner_bases name) :
    ((overBudget w (spent + s.spent_now) (baseSize w dep) = true ∨
          (plan dep (baseSize w dep) (freeNow w s.starts)).ok = false) ∧
        (fetchNeed w name spent s dep).starts = s.starts ∧
        (fetchNeed w name spent s dep).spent_now = s.spent_now) ∨
      (overBudget w (spent + s.spent_now) (baseSize w dep) = false ∧
        (plan dep (baseSize w dep) (freeNow w s.starts)).ok = true ∧
        (fetchNeed w name spent s dep).starts = s.starts ++ [startOf w s.starts dep true true] ∧
        ((∃ why missing, (startOf w s.starts dep true true).ending = .failed why missing ∧
            (fetchNeed w name spent s dep).spent_now = s.spent_now) ∨
          ∃ path, (startOf w s.starts dep true true).ending = .landed path ∧
            (fetchNeed w name spent s dep).spent_now = s.spent_now + baseSize w dep)) := by
  unfold fetchNeed
  rw [if_neg (not_not.mpr base)]
  cases within : overBudget w (spent + s.spent_now) (baseSize w dep) with
  | true => exact .inl ⟨.inl rfl, by simp [Needs.wait, within]⟩
  | false =>
      cases ok : (plan dep (baseSize w dep) (freeNow w s.starts)).ok with
      | false => exact .inl ⟨.inr rfl, by simp [Needs.wait, within, ok]⟩
      | true =>
          cases ending : (startOf w s.starts dep true true).ending with
          | failed exc missing =>
              refine .inr ⟨rfl, rfl, ?_, .inl ⟨exc, missing, rfl, ?_⟩⟩ <;>
                simp [Needs.wait, within, ok, ending]
          | landed path =>
              refine .inr ⟨rfl, rfl, ?_, .inr ⟨path, rfl, ?_⟩⟩ <;> simp [within, ok, ending]

/-- A dependency keeps what is promised exactly when it meets its condition. -/
theorem fetchNeed_kept (honest : Honest w) {s : Needs} {dep : String}
    (balanced : Balanced w (spent + s.spent_now) s.starts) :
    Balanced w (spent + (fetchNeed w name spent s dep).spent_now)
        (fetchNeed w name spent s dep).starts ∧
      (Kept w (fetchNeed w name spent s dep).starts ↔ Kept w s.starts ∧ needMet w name spent s dep) := by
  unfold needMet
  by_cases other : dep ∉ runner_bases name
  · -- Nothing is asked of the plan and nothing is charged.
    obtain ⟨starts, same⟩ := @fetchNeed_other w name spent s dep other
    rw [starts, same, if_pos other, kept_append rfl]
    exact ⟨balanced.uncharged (lost_unplanned rfl), and_congr_right fun _ =>
      ⟨fun allowed => ⟨allowed.planned, allowed.room⟩, fun both => ⟨both.1, both.2⟩⟩⟩
  · rw [if_neg other]
    rcases @fetchNeed_base w name spent s dep (not_not.mp other) with
      ⟨turned, starts, same⟩ | ⟨within, ok, starts, ending⟩
    · rw [starts, same]
      refine ⟨balanced, ⟨fun kept => ⟨kept, fun within ok => ?_⟩, And.left⟩⟩
      rcases turned with over_ | refused
      · rw [over_] at within
        cases within
      · rw [refused] at ok
        cases ok
    · have covered := @allowed_iff_covered w _ _ _ _ true balanced within ok (honest.base dep)
      rw [starts, kept_append rfl, covered]
      refine ⟨?_, and_congr_right fun _ => ⟨fun here _ _ => here, fun here => here within ok⟩⟩
      rcases ending with ⟨why, missing, failed, same⟩ | ⟨path, landed, charged⟩
      · rw [same]
        exact balanced.uncharged (lost_failed failed)
      · rw [charged, ← add_assoc]
        exact balanced.charged rfl landed (honest.base dep (plan_ok ok).1)

theorem needs_of_kept (honest : Honest w) {s : Loop} (balanced : Balanced w s.spent s.starts)
    (name : String) :
    Balanced w (needs_of w s name).spent (needs_of w s name).starts ∧
      (Kept w (needs_of w s name).starts ↔ Kept w s.starts ∧ needsMet w s name) := by
  have start : Balanced w (s.spent + 0) s.starts := by rwa [add_zero]
  refine walk_kept (fun got : Needs => Balanced w (s.spent + got.spent_now) got.starts)
    (fun got => Kept w got.starts) start ?_
  intro got dep next _ balanced turned
  obtain rfl := Option.some.inj turned
  exact fetchNeed_kept honest balanced

/-- What a turn does of a row: it is passed over, its download fails, or it lands. -/
theorem visit_some {s next : Loop} {row : Wanted} (turned : visit w s row = some next) :
    ((row.lane = "" ∨ gate w row ≠ none ∨ refusal w s row ≠ none) ∧
        next.starts = s.starts ∧ next.spent = s.spent) ∨
      (row.lane ≠ "" ∧ gate w row = none ∧ refusal w s row = none ∧
        ((∃ why missing, (targetStart w s row).ending = .failed why missing ∧
            next.starts = s.starts ++ [targetStart w s row] ∧ next.spent = s.spent) ∨
          ∃ path, (targetStart w s row).ending = .landed path ∧
            next = landed w s row (targetStart w s row) path)) := by
  unfold visit at turned
  by_cases laneless : row.lane = ""
  · rw [if_pos laneless] at turned
    obtain rfl := Option.some.inj turned
    exact .inl ⟨.inl laneless, rfl, rfl⟩
  · rw [if_neg laneless] at turned
    cases gated : gate w row with
    | some passed =>
        rw [gated] at turned
        obtain rfl := Option.some.inj turned
        exact .inl ⟨.inr (.inl nofun), rfl, rfl⟩
    | none =>
        simp only [gated] at turned
        by_cases full : w.limit ≤ s.fetched
        · rw [if_pos full] at turned
          cases turned
        · rw [if_neg full] at turned
          cases refused : refusal w s row with
          | some passed =>
              rw [refused] at turned
              obtain rfl := Option.some.inj turned
              exact .inl ⟨.inr (.inr nofun), rfl, rfl⟩
          | none =>
              simp only [refused] at turned
              refine .inr ⟨laneless, rfl, rfl, ?_⟩
              cases ending : (targetStart w s row).ending with
              | failed why missing =>
                  rw [ending] at turned
                  obtain rfl := Option.some.inj turned
                  exact .inl ⟨why, missing, rfl, rfl, rfl⟩
              | landed path =>
                  rw [ending] at turned
                  exact .inr ⟨path, rfl, (Option.some.inj turned).symm⟩

theorem refusal_none {s : Loop} {row : Wanted} (none : refusal w s row = none) :
    overBudget w s.spent (targetSize w row) = false ∧
      (plan row.repo (targetSize w row) (freeNow w s.starts)).ok = true := by
  unfold refusal at none
  by_cases over_ : overBudget w s.spent (targetSize w row) = true
  · simp only [over_, if_true, reduceCtorEq] at none
  · cases ok : (plan row.repo (targetSize w row) (freeNow w s.starts)).ok with
    | true => exact ⟨Bool.eq_false_iff.mpr over_, rfl⟩
    | false => simp only [over_, ok, if_false, if_true, Bool.false_eq_true, not_false_eq_true,
        reduceCtorEq] at none

/-- A turn over a row keeps what is promised exactly when it meets its condition. -/
theorem visit_kept (honest : Honest w) {s next : Loop} {row : Wanted}
    (queued : ∃ starts, row ∈ w.queued starts) (balanced : Balanced w s.spent s.starts)
    (turned : visit w s row = some next) :
    Balanced w next.spent next.starts ∧ (Kept w next.starts ↔ Kept w s.starts ∧ visitMet w s row) := by
  unfold visitMet
  rcases visit_some turned with ⟨passed, starts, spent⟩ | ⟨lane, gated, refused, started⟩
  · rw [starts, spent]
    refine ⟨balanced, ⟨fun kept => ⟨kept, fun lane gated refused => ?_⟩, And.left⟩⟩
    rcases passed with laneless | gated' | refused'
    · exact absurd laneless lane
    · exact absurd gated gated'
    · exact absurd refused refused'
  · obtain ⟨within, ok⟩ := refusal_none refused
    obtain ⟨starts, member⟩ := queued
    have honest_ := honest.target starts row member
    have covered : Allowed w (targetStart w s row) ↔ Covered w s.spent s.starts (targetSize w row) :=
      allowed_iff_covered balanced within ok honest_
    rcases started with ⟨why, missing, failed, starts, spent⟩ | ⟨path, landed_, made⟩
    · rw [starts, spent, kept_append rfl, covered]
      refine ⟨balanced.uncharged (lost_failed failed), and_congr_right fun _ =>
        ⟨fun here _ _ _ => ⟨here, fun path landed_ => ?_⟩, fun met => (met lane gated refused).1⟩⟩
      rw [failed] at landed_
      cases landed_
    · have paid_ : Balanced w (paid w s row (targetStart w s row)).spent
          (paid w s row (targetStart w s row)).starts :=
        balanced.charged rfl landed_ (honest_ (plan_ok ok).1)
      obtain ⟨after, kept⟩ := needs_of_kept honest paid_ row.repo
      rw [made]
      refine ⟨after, Iff.trans kept ?_⟩
      rw [paid, kept_append rfl, covered, and_assoc]
      exact and_congr_right fun _ =>
        ⟨fun both _ _ _ => ⟨both.1, fun _ _ => both.2⟩,
          fun met => ⟨(met lane gated refused).1, (met lane gated refused).2 path landed_⟩⟩

/-! ## The run -/

/-- A run stays within its budget, and starts only what a plan allows, exactly when every step
    leaves room for what is moved and not charged. -/
theorem run_kept_iff (honest : Honest w) : Kept w (run w).starts ↔ Charged w := by
  have empty : Kept w [] := ⟨nofun, fun _ _ => Nat.zero_le _⟩
  have first : Balanced w (served w).spent (served w).starts ∧
      (Kept w (served w).starts ↔ Kept w [] ∧ Along (waitTurn w) (needsMet w) {} (on_disk_waiting w)) :=
    walk_kept (fun s : Loop => Balanced w s.spent s.starts) (fun s => Kept w s.starts) rfl
      fun s name next _ balanced turned => by
        obtain rfl := Option.some.inj turned
        exact needs_of_kept honest balanced name
  have second := walk_kept (fun s : Loop => Balanced w s.spent s.starts) (fun s => Kept w s.starts)
    first.1 fun s row next (member : row ∈ w.queued (served w).starts) balanced turned =>
      visit_kept honest ⟨_, member⟩ balanced turned
  rw [run, second.2, first.2]
  exact ⟨fun both => ⟨both.1.2, both.2⟩, fun charged => ⟨⟨empty, charged.waiting⟩, charged.queue⟩⟩

end

def eightGib : Wanted where
  name := "a/model"
  lane := "tts"
  size_bytes := 8 * GIB

/-- One queued model of 8 GiB whose config names a tokenizer, under a budget of 10 GiB. -/
def withTokenizer (tokenizer : Nat) : World where
  published repo := if repo = "a/model" then 8 * GIB else tokenizer
  download := fun _ repo _ => .landed repo
  free_bytes := fun _ => 500 * GIB
  have_ := fun starts repo => starts.any fun start => start.repo == repo
  named := fun _ repo => if repo = "a/model" then ["a/tokenizer"] else []
  parents_of := fun _ => []
  stored := []
  queued := fun _ => [eightGib]
  serves := fun _ => true
  machine := ⟨[.cpu], by decide, ⟨false, 32⟩, 32, fun _ => none⟩
  runner_gap := fun _ _ _ => ""
  takes_attachment := fun _ _ => false
  recognised := fun _ => false
  candidate_for := fun _ name => name
  sizer := fun _ => 0
  budget := some (10 * GIB)

theorem withTokenizer_honest (tokenizer : Nat) : Honest (withTokenizer tokenizer) where
  target := by
    intro starts row member positive
    obtain rfl := List.mem_singleton.mp member
    simp [targetSize, firstSize, withTokenizer, Wanted.repo, eightGib, GIB]
  base := by
    intro dep positive
    simp [baseSize, firstSize, withTokenizer] at positive

/-- A tokenizer that fits in what the target leaves keeps the run within its budget. -/
theorem run_kept_small : Kept (withTokenizer GIB) (run (withTokenizer GIB)).starts := by
  refine (run_kept_iff (withTokenizer_honest GIB)).mpr ⟨trivial, ?_⟩
  let after := paid (withTokenizer GIB) {} eightGib (targetStart (withTokenizer GIB) {} eightGib)
  have needed : neededBy (withTokenizer GIB) after.starts eightGib.repo = ["a/tokenizer"] := by
    decide
  change Along (visit (withTokenizer GIB)) (visitMet (withTokenizer GIB)) {} [eightGib]
  rw [Along]
  split
  next => trivial
  next =>
    refine ⟨fun _ _ _ => ⟨.inl (by decide), fun path _ => ?_⟩, trivial⟩
    change Along _ _ _ (neededBy (withTokenizer GIB) after.starts eightGib.repo)
    rw [needed]
    refine ⟨?_, trivial⟩
    rw [needMet, if_pos (by decide)]
    refine ⟨by decide, fun budget given => ?_⟩
    obtain rfl := Option.some.inj given
    decide

/-- A tokenizer of 50 GiB is fetched whatever the budget. -/
theorem tokenizer_not_kept : ¬ Kept (withTokenizer (50 * GIB)) (run (withTokenizer (50 * GIB))).starts := by
  intro kept
  exact absurd (kept.total (10 * GIB) rfl) (by decide)

end LocalHarness.Tiers.Fetching
