import LocalHarness.Adopt.Record
import LocalHarness.Library.Dict
import LocalHarness.Library.Newest

/-! # What each lane serves, on any machine

`_resolve` reads the adoptions a machine may serve from the oldest to the newest. It serves a lane
by the last row that is passed over for nothing, and keeps the last row after it that was chosen
by hand and does not fit.
-/

namespace LocalHarness.Adopt.Lanes

open LocalHarness.Library

/-- Whose adoptions are asked for. -/
inductive Machine
  /-- `HERE`: this machine, by the rows that carry its fingerprint. -/
  | here
  | one (id : Nat)
  | anyOf (listed : List Nat)
  | unnamed

/-- `_ids` -/
def Machine.toIds (here : List Nat) : Machine → List Nat
  | .here => here
  | .one id => [id]
  | .anyOf listed => listed
  | .unnamed => []

/-- Whether a candidate fits a machine, and the evidence. -/
abbrev Fits := Nat → Option Nat → Bool × String

/-- The row as the query gives it, where the machine may serve it. -/
def visible (candidates : Table Candidate) (ids : List Nat) (row : Nat × Adoption) :
    Option Served :=
  if row.2.allMachines || row.2.machineId.isNone || row.2.machineId.any (· ∈ ids) then
    (candidates.find? row.2.candidateId).map fun candidate =>
      { id := row.1, row := row.2, spec := candidate.spec }
  else none

/-- What each lane serves, and the newer row it was refused with the reason. -/
structure Resolved where
  out : Dict Served
  refused : Dict (Served × String)

/-- The rows that were refused, in the order of their lanes. -/
def Resolved.listed (got : Resolved) : List (Served × String) :=
  (Dict.sortedKeys got.refused.keys).filterMap got.refused.lookup

section

variable (fits : Fits) (ids : List Nat)

def fit (served : Served) : Bool × String :=
  fits served.row.candidateId ids.head?

/-- One row of the loop. -/
def read (got : Resolved) (served : Served) : Resolved :=
  if isReference served.spec then got
  else if served.row.how = BY_HAND ∧ (fit fits ids served).1 = false then
    { got with
      refused := got.refused.insert served.row.lane (served, (fit fits ids served).2) }
  else
    { out := got.out.insert served.row.lane served
      refused := got.refused.erase served.row.lane }

/-- `_resolve`, from the rows the store returns. -/
def resolve (candidates : Table Candidate) (rows : List (Nat × Adoption)) : Resolved :=
  ((rows.filterMap (visible candidates ids)).insertionSort Served.Before).foldl (read fits ids)
    ⟨∅, ∅⟩

def refused (candidates : Table Candidate) (rows : List (Nat × Adoption)) :
    List (Served × String) :=
  (resolve fits ids candidates rows).listed

/-- A row that its lane may be served by. -/
structure Serves (lane : String) (served : Served) : Prop where
  here : served.row.lane = lane
  adopted : isReference served.spec = false
  fits : served.row.how = BY_HAND → (fit fits ids served).1 = true

/-- A row chosen by hand that does not fit. -/
structure Unfit (served : Served) : Prop where
  adopted : isReference served.spec = false
  byHand : served.row.how = BY_HAND
  tooLarge : (fit fits ids served).1 = false

end

/-- The order of the rows, which have distinct ids. -/
def Earlier (a b : Served) : Prop :=
  a.row.adoptedAt < b.row.adoptedAt ∨ (a.row.adoptedAt = b.row.adoptedAt ∧ a.id < b.id)

theorem Earlier.asymm {a b : Served} (before : Earlier a b) : ¬ Earlier b a := by
  rintro (after | ⟨same, after⟩)
  · rcases before with before | ⟨same, before⟩
    · exact absurd after (not_lt.mpr before.le)
    · exact absurd same (ne_of_gt after)
  · rcases before with before | ⟨-, before⟩
    · exact absurd same (ne_of_gt before)
    · exact absurd after (not_lt.mpr before.le)

/-- A row is served, turned away, or left out, and only the last of these reads no further. -/
inductive Turn (fits : Fits) (ids : List Nat) (got : Resolved) (served : Served) :
    Resolved → Prop
  | reference (left : isReference served.spec = true) : Turn fits ids got served got
  | unfit (turned : Unfit fits ids served) :
      Turn fits ids got served
        ⟨got.out, got.refused.insert served.row.lane (served, (fit fits ids served).2)⟩
  | serves (taken : Serves fits ids served.row.lane served) :
      Turn fits ids got served
        ⟨got.out.insert served.row.lane served, got.refused.erase served.row.lane⟩

theorem turn_read (fits : Fits) (ids : List Nat) (got : Resolved) (served : Served) :
    Turn fits ids got served (read fits ids got served) := by
  unfold read
  split
  next left => exact .reference left
  next adopted =>
    have adopted : isReference served.spec = false := by simpa using adopted
    split
    next unfit => exact .unfit ⟨adopted, unfit.1, unfit.2⟩
    next fitting =>
      refine .serves ⟨rfl, adopted, fun byHand => ?_⟩
      by_contra tooLarge
      exact fitting ⟨byHand, by simpa using tooLarge⟩

variable {fits : Fits} {ids : List Nat} {lane : String} {served : Served}

theorem Serves.not_unfit (taken : Serves fits ids lane served) : ¬ Unfit fits ids served :=
  fun turned => by simpa [turned.tooLarge] using taken.fits turned.byHand

/-- Refused the lane: by hand, unfit, and later than every row that may be served. -/
structure Refused (fits : Fits) (ids : List Nat) (rows : List Served) (lane : String)
    (served : Served) : Prop where
  here : served.row.lane = lane
  unfit : Unfit fits ids served
  newer : ∀ b ∈ rows, Serves fits ids lane b → Earlier b served

/-- What the loop holds once it has read `rows`. -/
structure Holds (fits : Fits) (ids : List Nat) (rows : List Served) (got : Resolved) : Prop where
  out : ∀ lane served, got.out.lookup lane = some served ↔
    Newest Earlier (Serves fits ids lane) rows served
  refused : ∀ lane served why, got.refused.lookup lane = some (served, why) ↔
    Newest Earlier (Refused fits ids rows lane) rows served ∧ why = (fit fits ids served).2

/-- A row that its lane is not served by turns away what was turned away before. -/
theorem refused_concat {rows : List Served} {x : Served} (idle : ¬ Serves fits ids lane x) :
    Refused fits ids (rows ++ [x]) lane served ↔ Refused fits ids rows lane served := by
  constructor
  · rintro ⟨here, unfit, newer⟩
    exact ⟨here, unfit, fun b inside => newer b (List.mem_append_left _ inside)⟩
  · rintro ⟨here, unfit, newer⟩
    refine ⟨here, unfit, fun b inside serves => ?_⟩
    rcases List.mem_append.mp inside with before | last
    · exact newer b before serves
    · exact absurd (List.mem_singleton.mp last ▸ serves) idle

theorem newest_refused_concat {rows : List Served} {x : Served}
    (idle : ¬ Serves fits ids lane x) (kept : ¬ Refused fits ids rows lane x) :
    Newest Earlier (Refused fits ids (rows ++ [x]) lane) (rows ++ [x]) served ↔
      Newest Earlier (Refused fits ids rows lane) rows served :=
  (newest_congr fun _ _ => refused_concat idle).trans (newest_concat_of_not kept)

/-- A row that passes for nothing leaves a lane as it was. -/
theorem Holds.other {rows : List Served} {got : Resolved} {x : Served}
    (holds : Holds fits ids rows got) (idle : ¬ Serves fits ids lane x)
    (kept : ¬ Refused fits ids rows lane x) :
    (∀ served, got.out.lookup lane = some served ↔
        Newest Earlier (Serves fits ids lane) (rows ++ [x]) served) ∧
      ∀ served why, got.refused.lookup lane = some (served, why) ↔
        Newest Earlier (Refused fits ids (rows ++ [x]) lane) (rows ++ [x]) served ∧
          why = (fit fits ids served).2 := by
  refine ⟨fun served => ?_, fun served why => ?_⟩
  · rw [holds.out, newest_concat_of_not idle]
  · rw [holds.refused, newest_refused_concat idle kept]

theorem Holds.read {rows : List Served} {got : Resolved} {x : Served}
    (holds : Holds fits ids rows got) (later : ∀ b ∈ rows, Earlier b x) :
    Holds fits ids (rows ++ [x]) (read fits ids got x) := by
  have asymm : ∀ a b : Served, Earlier a b → ¬ Earlier b a := fun _ _ => Earlier.asymm
  have turn := turn_read fits ids got x
  generalize Lanes.read fits ids got x = after at turn ⊢
  cases turn with
  | reference left =>
      have idle : ∀ lane, ¬ Serves fits ids lane x := fun _ serves => by
        simpa [left] using serves.adopted
      have kept : ∀ lane, ¬ Refused fits ids rows lane x := fun _ refused => by
        simpa [left] using refused.unfit.adopted
      exact ⟨fun lane => (holds.other (idle lane) (kept lane)).1,
        fun lane => (holds.other (idle lane) (kept lane)).2⟩
  | unfit turned =>
      have idle : ∀ lane, ¬ Serves fits ids lane x := fun _ serves => serves.not_unfit turned
      refine ⟨fun lane served => ?_, fun lane served why => ?_⟩
      · rw [holds.out, newest_concat_of_not (idle lane)]
      · by_cases same : lane = x.row.lane
        · subst same
          have refused : Refused fits ids (rows ++ [x]) x.row.lane x := by
            refine (refused_concat (idle _)).mpr ⟨rfl, turned, fun b inside _ => later b inside⟩
          rw [Finmap.lookup_insert, newest_concat asymm later refused, Option.some.injEq,
            Prod.mk.injEq]
          constructor
          · rintro ⟨rfl, rfl⟩
            exact ⟨rfl, rfl⟩
          · rintro ⟨rfl, rfl⟩
            exact ⟨rfl, rfl⟩
        · have kept : ¬ Refused fits ids rows lane x := fun refused => same refused.here.symm
          rw [Finmap.lookup_insert_of_ne _ same]
          exact (holds.other (idle lane) kept).2 served why
  | serves taken =>
      have kept : ∀ lane, ¬ Refused fits ids rows lane x := fun _ refused =>
        taken.not_unfit refused.unfit
      refine ⟨fun lane served => ?_, fun lane served why => ?_⟩
      · by_cases same : lane = x.row.lane
        · subst same
          rw [Finmap.lookup_insert, newest_concat asymm later taken, Option.some.injEq, eq_comm]
        · have idle : ¬ Serves fits ids lane x := fun serves => same serves.here.symm
          rw [Finmap.lookup_insert_of_ne _ same]
          exact (holds.other idle (kept lane)).1 served
      · by_cases same : lane = x.row.lane
        · subst same
          rw [Finmap.lookup_erase]
          refine ⟨nofun, fun ⟨newest, _⟩ => ?_⟩
          -- the row that is served is later than any that was turned away before it
          have after := newest.meets.newer x (List.mem_append_right _ (List.mem_singleton_self x)) taken
          rcases List.mem_append.mp newest.mem with before | here
          · exact absurd (later served before) after.asymm
          · exact absurd (List.mem_singleton.mp here ▸ newest.meets.unfit) taken.not_unfit
        · have idle : ¬ Serves fits ids lane x := fun serves => same serves.here.symm
          rw [Finmap.lookup_erase_ne same]
          exact (holds.other idle (kept lane)).2 served why

/-- The loop over rows from the oldest to the newest. -/
theorem holds_foldl {rows : List Served} (ordered : rows.Pairwise Earlier) :
    Holds fits ids rows (rows.foldl (read fits ids) ⟨∅, ∅⟩) := by
  induction rows using List.reverseRecOn with
  | nil => exact ⟨by simp, by simp⟩
  | append_singleton front x ih =>
      obtain ⟨sorted, -, later⟩ := List.pairwise_append.mp ordered
      rw [List.foldl_concat]
      exact (ih sorted).read fun b inside => later b inside x (List.mem_singleton_self x)

theorem refused_perm {rows others : List Served} (same : rows.Perm others) :
    Refused fits ids rows lane served ↔ Refused fits ids others lane served :=
  ⟨fun ⟨here, unfit, newer⟩ => ⟨here, unfit, fun b inside => newer b (same.mem_iff.mpr inside)⟩,
    fun ⟨here, unfit, newer⟩ => ⟨here, unfit, fun b inside => newer b (same.mem_iff.mp inside)⟩⟩

theorem Holds.perm {rows others : List Served} {got : Resolved} (same : rows.Perm others)
    (holds : Holds fits ids rows got) : Holds fits ids others got := by
  refine ⟨fun lane served => ?_, fun lane served why => ?_⟩
  · rw [holds.out, newest_perm same]
  · rw [holds.refused, newest_perm same, newest_congr fun _ _ => refused_perm same]

theorem Holds.unique {rows : List Served} {got got' : Resolved} (holds : Holds fits ids rows got)
    (holds' : Holds fits ids rows got') : got = got' := by
  obtain ⟨out, refused⟩ := got
  obtain ⟨out', refused'⟩ := got'
  congr 1
  · refine Finmap.ext_lookup fun lane => Option.ext fun served => ?_
    exact (holds.out lane served).trans (holds'.out lane served).symm
  · refine Finmap.ext_lookup fun lane => Option.ext fun entry => ?_
    exact (holds.refused lane entry.1 entry.2).trans (holds'.refused lane entry.1 entry.2).symm

theorem mem_visible {candidates : Table Candidate} {rows : List (Nat × Adoption)}
    (member : served ∈ rows.filterMap (visible candidates ids)) :
    (served.id, served.row) ∈ rows := by
  obtain ⟨row, inside, shape⟩ := List.mem_filterMap.mp member
  unfold visible at shape
  split at shape
  next =>
    obtain ⟨candidate, -, rfl⟩ := Option.map_eq_some_iff.mp shape
    exact inside
  next => cases shape

theorem Earlier.trans {a b c : Served} (first : Earlier a b) (second : Earlier b c) :
    Earlier a c := by
  rcases first with before | ⟨same, before⟩ <;> rcases second with after | ⟨same', after⟩
  · exact .inl (before.trans after)
  · exact .inl (same' ▸ before)
  · exact .inl (same ▸ after)
  · exact .inr ⟨same.trans same', before.trans after⟩

theorem Before.earlier {a b : Served} (before : Served.Before a b) (other : a.id ≠ b.id) :
    Earlier a b :=
  before.imp_right fun ⟨same, below⟩ => ⟨same, lt_of_le_of_ne below other⟩

instance : Std.Total Served.Before where
  total a b := by
    rcases lt_trichotomy a.row.adoptedAt b.row.adoptedAt with before | same | after
    · exact .inl (.inl before)
    · exact (le_total a.id b.id).imp (fun below => .inr ⟨same, below⟩)
        fun above => .inr ⟨same.symm, above⟩
    · exact .inr (.inl after)

instance : IsTrans Served Served.Before where
  trans a b c first second := by
    rcases first with before | ⟨same, before⟩ <;> rcases second with after | ⟨same', after⟩
    · exact .inl (before.trans after)
    · exact .inl (same' ▸ before)
    · exact .inl (same ▸ after)
    · exact .inr ⟨same.trans same', before.trans after⟩

/-- Rows with distinct ids are read from the oldest to the newest. -/
theorem pairwise_earlier {rows : List Served} (keyed : (rows.map Served.id).Nodup) :
    (rows.insertionSort Served.Before).Pairwise Earlier := by
  have distinct : ((rows.insertionSort Served.Before).map Served.id).Nodup :=
    ((List.perm_insertionSort Served.Before rows).map Served.id).nodup_iff.mpr keyed
  exact ((List.pairwise_insertionSort Served.Before rows).and (List.pairwise_map.mp distinct)).imp
    fun both => Before.earlier both.1 both.2

theorem visible_keyed (candidates : Table Candidate) {rows : List (Nat × Adoption)}
    (keyed : (rows.map Prod.fst).Nodup) :
    ((rows.filterMap (visible candidates ids)).map Served.id).Nodup := by
  induction rows with
  | nil => exact List.nodup_nil
  | cons row rest ih =>
      obtain ⟨fresh, keyed⟩ := List.nodup_cons.mp keyed
      rw [List.filterMap_cons]
      cases seen : visible candidates ids row with
      | none => exact ih keyed
      | some served =>
          rw [List.map_cons, List.nodup_cons]
          refine ⟨fun again => fresh ?_, ih keyed⟩
          have here : served.id = row.1 := by
            have member := @mem_visible ids served candidates [row] (by simp [seen])
            exact congrArg Prod.fst (List.mem_singleton.mp member)
          obtain ⟨other, member, same⟩ := List.mem_map.mp again
          rw [← here, ← same]
          exact List.mem_map_of_mem (f := Prod.fst) (mem_visible member)

theorem holds_resolve (fits : Fits) (ids : List Nat) (candidates : Table Candidate)
    {rows : List (Nat × Adoption)} (keyed : (rows.map Prod.fst).Nodup) :
    Holds fits ids (rows.filterMap (visible candidates ids)) (resolve fits ids candidates rows) :=
  (holds_foldl (pairwise_earlier (visible_keyed candidates keyed))).perm
    (List.perm_insertionSort Served.Before _)

/-- Newer than the row its lane is served by, if it is served by any. -/
def NewerThanServed (got : Resolved) (served : Served) : Prop :=
  ∀ b, got.out.lookup served.row.lane = some b → Earlier b served

/-- Only the row that is served needs to be compared with. -/
theorem Holds.newer_iff {rows : List Served} {got : Resolved} (holds : Holds fits ids rows got)
    (ordered : ∃ sorted, rows.Perm sorted ∧ sorted.Pairwise Earlier) :
    (∀ b ∈ rows, Serves fits ids served.row.lane b → Earlier b served) ↔
      NewerThanServed got served := by
  constructor
  · intro all b found
    have newest := (holds.out _ _).mp found
    exact all b newest.mem newest.meets
  · intro newer b inside serves
    obtain ⟨sorted, same, ordered⟩ := ordered
    obtain ⟨last, newest⟩ := exists_newest ordered ⟨b, same.mem_iff.mp inside, serves⟩
    have newest := (newest_perm same).mpr newest
    have after := newer last ((holds.out _ _).mpr newest)
    rcases newest.last b inside serves with rfl | before
    · exact after
    · exact before.trans after

theorem Holds.of_lane {rows : List Served} {got : Resolved} (holds : Holds fits ids rows got)
    {why : String} (found : got.refused.lookup lane = some (served, why)) :
    served.row.lane = lane :=
  ((holds.refused lane served why).mp found).1.meets.here

/-- The list of the refused has one row for each lane, and the lanes ascend. -/
theorem Holds.lanes {rows : List Served} {got : Resolved} (holds : Holds fits ids rows got) :
    (got.listed.map fun entry => entry.1.row.lane) = Dict.sortedKeys got.refused.keys := by
  have found : ∀ lane ∈ Dict.sortedKeys got.refused.keys,
      (got.refused.lookup lane).map (fun entry => entry.1.row.lane) = some lane := by
    intro lane member
    obtain ⟨entry, found⟩ := Finmap.mem_iff.mp (Finmap.mem_keys.mp (Dict.mem_sortedKeys.mp member))
    rw [found, Option.map_some, holds.of_lane found]
  rw [Resolved.listed, List.map_filterMap]
  exact (List.filterMap_congr found).trans List.filterMap_some

theorem Holds.mem_refused {rows : List Served} {got : Resolved} (holds : Holds fits ids rows got)
    {why : String} :
    (served, why) ∈ got.listed ↔ got.refused.lookup served.row.lane = some (served, why) := by
  rw [Resolved.listed, List.mem_filterMap]
  constructor
  · rintro ⟨lane, -, found⟩
    rwa [holds.of_lane found]
  · intro found
    exact ⟨_, Dict.mem_sortedKeys.mpr (Dict.mem_keys_of_lookup found), found⟩

/-- The rows that a machine may serve are what the store has, whatever order it returns them in. Its
    lanes are served the newest that fit, and the list of the refused has for each lane the newest
    row, chosen by hand and unfit, that is newer than the one it is served by. -/
theorem resolve_newest (fits : Fits) (here : List Nat) (machine : Machine)
    (candidates : Table Candidate) (adoptions : Table Adoption) :
    let ids := machine.toIds here
    let rows := adoptions.rows.filterMap (visible candidates ids)
    let got := resolve fits ids candidates adoptions.rows
    let listed := refused fits ids candidates adoptions.rows
    (∀ lane served, got.out.lookup lane = some served ↔
        Newest Earlier (Serves fits ids lane) rows served) ∧
      (∀ served why, (served, why) ∈ listed ↔
        Newest Earlier (fun row => row.row.lane = served.row.lane ∧ Unfit fits ids row ∧
            NewerThanServed got row) rows served ∧
          why = (fit fits ids served).2) ∧
      (listed.map fun entry => entry.1.row.lane).Pairwise (· < ·) ∧
      ∀ returned, returned.Perm adoptions.rows → resolve fits ids candidates returned = got := by
  intro ids rows got listed
  have holds := holds_resolve fits ids candidates adoptions.nodup
  refine ⟨holds.out, fun served why => ?_, ?_, fun returned same => ?_⟩
  · have sorted : ∃ sorted, rows.Perm sorted ∧ sorted.Pairwise Earlier :=
      ⟨_, (List.perm_insertionSort Served.Before rows).symm,
        pairwise_earlier (visible_keyed candidates adoptions.nodup)⟩
    refine holds.mem_refused.trans ((holds.refused _ _ _).trans ?_)
    refine and_congr_left fun _ => newest_congr fun row _ => ⟨?_, ?_⟩
    · rintro ⟨lane, unfit, newer⟩
      exact ⟨lane, unfit, (holds.newer_iff sorted).mp (lane ▸ newer)⟩
    · rintro ⟨lane, unfit, newer⟩
      exact ⟨lane, unfit, lane ▸ (holds.newer_iff sorted).mpr newer⟩
  · have ascending := Dict.pairwise_sortedKeys got.refused.keys
    rwa [← holds.lanes] at ascending
  · have keyed : (returned.map Prod.fst).Nodup :=
      (same.map Prod.fst).nodup_iff.mpr adoptions.nodup
    exact ((holds_resolve fits ids candidates keyed).perm (same.filterMap _)).unique holds

/-! ## One machine -/

/-- The same row of each lane is served, and the same one refused. -/
def Same (got : Adopt.Resolved) (got' : Resolved) : Prop :=
  (∀ lane, got.out lane = got'.out.lookup lane) ∧
    ∀ lane, got.refused lane = got'.refused.lookup lane

theorem lookup_insert_eq {α : Type} (dict : Dict α) (key : String) (value : α) (lane : String) :
    (dict.insert key value).lookup lane =
      Function.update (fun lane => dict.lookup lane) key (some value) lane := by
  by_cases same : lane = key
  · rw [same, Finmap.lookup_insert, Function.update_self]
  · rw [Finmap.lookup_insert_of_ne dict same, Function.update_of_ne same]

theorem lookup_erase_eq {α : Type} (dict : Dict α) (key lane : String) :
    (dict.erase key).lookup lane =
      Function.update (fun lane => dict.lookup lane) key none lane := by
  by_cases same : lane = key
  · rw [same, Finmap.lookup_erase, Function.update_self]
  · rw [Finmap.lookup_erase_ne same, Function.update_of_ne same]

theorem Same.read {env : Env} {machine : Nat} {got : Adopt.Resolved} {got' : Resolved}
    (same : Same got got') (served : Served) :
    Same (got.read env served) (read (fun cid _ => Adopt.fit env cid) [machine] got' served) := by
  have out : got.out = fun lane => got'.out.lookup lane := funext same.1
  have refused : got.refused = fun lane => got'.refused.lookup lane := funext same.2
  unfold Adopt.Resolved.read Lanes.read fit
  by_cases reference : isReference served.spec = true
  · rw [if_pos reference, if_pos reference]
    exact same
  · rw [if_neg reference, if_neg reference]
    by_cases unfit : served.row.how = BY_HAND ∧ (Adopt.fit env served.row.candidateId).1 = false
    · rw [if_pos unfit, if_pos unfit]
      exact ⟨same.1, fun lane => by rw [lookup_insert_eq, ← refused]⟩
    · rw [if_neg unfit, if_neg unfit]
      exact ⟨fun lane => by rw [lookup_insert_eq, ← out],
        fun lane => by rw [lookup_erase_eq, ← refused]⟩

/-- What the recording of an adoption reads of its own machine's lanes. -/
theorem resolve_here (env : Env) (s : State) :
    Same (Adopt.resolve env s)
      (resolve (fun cid _ => Adopt.fit env cid) [s.machine] s.candidates s.adoptions.rows) := by
  have seen : s.adoptions.rows.filterMap (visible s.candidates [s.machine]) = rowsHere s := by
    refine List.filterMap_congr fun row _ => ?_
    unfold visible servedHere
    cases row.2.machineId <;> simp
  rw [Adopt.resolve, resolve, seen]
  suffices further : ∀ (rows : List Served) (got : Adopt.Resolved) (got' : Resolved), Same got got' →
      Same (rows.foldl (Adopt.Resolved.read env) got)
        (rows.foldl (read (fun cid _ => Adopt.fit env cid) [s.machine]) got') from
    further _ _ _ ⟨fun _ => rfl, fun _ => rfl⟩
  intro rows
  induction rows with
  | nil => exact fun _ _ same => same
  | cons row rest ih => exact fun _ _ same => ih _ _ (same.read row)

/-- A row chosen by hand for every machine. -/
def byHandRow (at_ : Nat) : Adoption where
  lane := "image"
  candidateId := 1
  incumbentId := none
  runId := none
  verdictId := at_
  machineId := none
  how := BY_HAND
  adoptedAt := at_
  allMachines := true
  votes := none
  agreement := none
  forced := false

def oneCandidate : Table Candidate where
  rows := [(1, ⟨none, "mflux:dev", "mflux:dev", "image"⟩)]
  ordered := by decide

/-- Where neither of two rows fits, the older is refused as well and is not on the list. -/
theorem older_refusal_unlisted :
    ∃ (fits : Fits) (adoptions : Table Adoption) (served : Served),
      let got := resolve fits [] oneCandidate adoptions.rows
      served ∈ adoptions.rows.filterMap (visible oneCandidate []) ∧ Unfit fits [] served ∧
        NewerThanServed got served ∧
        ¬ ∃ why, (served, why) ∈ refused fits [] oneCandidate adoptions.rows := by
  refine ⟨fun _ _ => (false, "over"), ⟨[(1, byHandRow 1), (2, byHandRow 2)], by decide⟩,
    ⟨1, byHandRow 1, "mflux:dev"⟩, ?_, ?_, ?_, ?_⟩
  · decide
  · exact ⟨by decide, rfl, rfl⟩
  · have nothing : (resolve (fun _ _ => (false, "over")) [] oneCandidate
        [(1, byHandRow 1), (2, byHandRow 2)]).out = ∅ := by decide
    intro b found
    rw [nothing] at found
    cases found
  · rintro ⟨why, member⟩
    have listed : (refused (fun _ _ => (false, "over")) [] oneCandidate
        [(1, byHandRow 1), (2, byHandRow 2)]).map (fun entry => entry.1.id) = [2] := by
      decide
    have inside := List.mem_map_of_mem (f := fun entry => entry.1.id) member
    rw [listed] at inside
    simp at inside

end LocalHarness.Adopt.Lanes
