import Mathlib.Data.List.Induction
import Mathlib.Data.List.Perm.Subperm
import LocalHarness.Neighbors.Cohort

/-! # Who a newcomer's followers are

A hop counts the followers of a login among those it starts from. From the second hop on these are
people of the crowd; those of the first hop are all contributors, and a bot is one of them without
being of the crowd.
-/

namespace LocalHarness.Neighbors

open LocalHarness.Library LocalHarness.Library.Tally

/-! ## The crowd -/

/-- People, each once, and as many as there may be. -/
structure Crowd (limit : ℤ) (people : List String) : Prop where
  once : people.Nodup
  persons : ∀ login ∈ people, Person login
  size : people = [] ∨ (people.length : ℤ) ≤ limit

variable {client : Client} {settings : Settings} {seeds people frontier added : List String}
variable {limit budget least minDegree : ℤ} {name : String}

theorem Crowd.concat (crowd : Crowd limit people) (admits : Admits limit people name) :
    Crowd limit (people ++ [name]) := by
  obtain ⟨person, fresh, room⟩ := admits
  refine ⟨?_, ?_, .inr ?_⟩
  · exact List.nodup_append.mpr ⟨crowd.once, List.nodup_singleton name, by grind⟩
  · intro login member
    rcases List.mem_append.mp member with before | here
    · exact crowd.persons login before
    · exact List.mem_singleton.mp here ▸ person
  · rw [List.length_append, List.length_singleton]
    omega

theorem Crowd.add (crowd : Crowd limit people) (login : String) :
    Crowd limit (add limit people login) := by
  unfold Neighbors.add
  split
  next admits => exact crowd.concat admits
  next => exact crowd

theorem crowd_start (client : Client) (settings : Settings) (seeds : List String) :
    Crowd settings.limit (start client settings seeds) := by
  unfold start
  induction core client settings.perRepo seeds using List.reverseRecOn with
  | nil => exact ⟨List.nodup_nil, List.forall_mem_nil _, .inl rfl⟩
  | append_singleton front login ih =>
      rw [List.foldl_concat]
      exact ih.add login

/-- Whoever contributed and is a person is in the crowd, unless it is full. -/
theorem mem_start (login : String) (member : login ∈ core client settings.perRepo seeds)
    (person : Person login) :
    login ∈ start client settings seeds ∨
      settings.limit ≤ (start client settings seeds).length := by
  unfold start
  generalize core client settings.perRepo seeds = contributors at member ⊢
  induction contributors using List.reverseRecOn with
  | nil => cases member
  | append_singleton front last ih =>
      rw [List.foldl_concat]
      generalize front.foldl (add settings.limit) [] = people at ih ⊢
      unfold add
      rcases List.mem_append.mp member with before | here
      · split
        · rcases ih before with inside | full
          · exact .inl (List.mem_append_left _ inside)
          · exact .inr (by simp; omega)
        · exact ih before
      · obtain rfl := List.mem_singleton.mp here
        split
        next => exact .inl (List.mem_append_right _ (List.mem_singleton_self _))
        next turned =>
          by_cases inside : login ∈ people
          · exact .inl inside
          · exact .inr (not_lt.mp fun room => turned ⟨person, inside, room⟩)

theorem start_subset : start client settings seeds ⊆ core client settings.perRepo seeds := by
  unfold start
  induction core client settings.perRepo seeds using List.reverseRecOn with
  | nil => exact List.Subset.refl _
  | append_singleton front last ih =>
      rw [List.foldl_concat]
      unfold add
      split
      · exact List.append_subset.mpr ⟨List.Subset.trans ih (List.subset_append_left _ _),
          List.subset_append_right _ _⟩
      · exact List.Subset.trans ih (List.subset_append_left _ _)

theorem crowd_pick (entries : List (String × Nat)) (crowd : Crowd limit (people ++ added)) :
    Crowd limit (people ++ pick limit budget least people added entries) := by
  induction entries generalizing added with
  | nil => exact crowd
  | cons entry rest ih =>
      unfold pick
      split
      next => exact crowd
      next =>
        split
        next taken =>
          refine ih ?_
          rw [← List.append_assoc]
          exact crowd.concat taken.2
        next => exact ih crowd

theorem crowd_expand (left hop : Nat) (crowd : Crowd limit people) :
    Crowd limit
      (people ++ (expand client limit budget minDegree left hop people frontier).flatten) := by
  induction left generalizing hop people frontier with
  | zero => simpa [expand] using crowd
  | succ left ih =>
      unfold expand
      have picked := @crowd_pick people [] limit budget (floor minDegree hop)
        (ranked client people frontier) ((List.append_nil people).symm ▸ crowd)
      dsimp only
      split
      next => simpa using crowd
      next =>
        rw [List.flatten_cons, ← List.append_assoc]
        exact ih _ picked

theorem crowd_layers (client : Client) (settings : Settings) (seeds : List String) :
    Crowd settings.limit
      (start client settings seeds ++ (layers client settings seeds).flatten) := by
  unfold layers
  split
  next => exact crowd_expand _ _ (crowd_start client settings seeds)
  next => simpa using crowd_start client settings seeds

/-- A crowd that may have people is returned whole. -/
theorem cohort_eq (some_ : 0 ≤ settings.limit) :
    cohort client settings seeds =
      start client settings seeds ++ (layers client settings seeds).flatten := by
  have size := (crowd_layers client settings seeds).size
  rw [cohort, Top.upTo, if_pos some_]
  apply List.take_of_length_le
  rcases size with none_ | size
  · simp [none_]
  · omega

/-! ## The ranking of a hop -/

theorem nodup_follows (client : Client) (login : String) : (client.follows login).Nodup := by
  unfold Client.follows
  cases read : client.following login with
  | none => exact List.nodup_nil
  | some listed => exact client.once login listed read

/-- The votes for somebody who is not in the crowd are those who follow them. -/
theorem count_votes (fresh : name ∉ people) :
    (frontier.flatMap fun login => (client.follows login).filter (· ∉ people)).count name =
      followers client frontier name := by
  induction frontier with
  | nil => rfl
  | cons login rest ih =>
      have here : ((client.follows login).filter (· ∉ people)).count name =
          if name ∈ client.follows login then 1 else 0 := by
        rw [List.count_filter (by simpa using fresh)]
        split
        next follows => exact List.count_eq_one_of_mem (nodup_follows client login) follows
        next other => exact List.count_eq_zero.mpr other
      rw [List.flatMap_cons, List.count_append, ih, here, followers, followers, List.countP_cons]
      simp only [decide_eq_true_eq]
      exact Nat.add_comm _ _

theorem mem_ranked {d : Nat} :
    (name, d) ∈ ranked client people frontier ↔
      name ∉ people ∧ d = followers client frontier name ∧ 0 < d := by
  rw [ranked, List.mem_insertionSort, degree, List.mem_map]
  constructor
  · rintro ⟨other, member, same⟩
    obtain ⟨rfl, rfl⟩ := Prod.mk.inj same
    obtain ⟨login, -, inside⟩ := List.mem_flatMap.mp (Top.mem_firsts.mp member)
    have fresh : other ∉ people := by simpa using (List.mem_filter.mp inside).2
    exact ⟨fresh, count_votes fresh, List.count_pos_iff.mpr (Top.mem_firsts.mp member)⟩
  · rintro ⟨fresh, rfl, positive⟩
    rw [← count_votes fresh] at positive
    exact ⟨name, Top.mem_firsts.mpr (List.count_pos_iff.mp positive), by rw [count_votes fresh]⟩

theorem nodup_ranked : ((ranked client people frontier).map Prod.fst).Nodup := by
  have perm := (List.perm_insertionSort (fun a b => place a ≤ place b)
    (degree client people frontier)).map Prod.fst
  rw [ranked, perm.nodup_iff, degree, List.map_map]
  simpa only [Function.comp_def, List.map_id'] using Top.nodup_firsts _

/-- Those of the ranking that a hop would take if it had the room. -/
def wanted (least : ℤ) (entries : List (String × Nat)) : List String :=
  (entries.filter fun entry => least ≤ entry.2 ∧ Person entry.1).map Prod.fst

theorem mem_wanted :
    name ∈ wanted least (ranked client people frontier) ↔
      name ∉ people ∧ Person name ∧ 0 < followers client frontier name ∧
        least ≤ followers client frontier name := by
  simp only [wanted, List.mem_map, List.mem_filter, decide_eq_true_eq]
  constructor
  · rintro ⟨⟨_, d⟩, ⟨member, enough, person⟩, rfl⟩
    obtain ⟨fresh, rfl, positive⟩ := mem_ranked.mp member
    exact ⟨fresh, person, positive, enough⟩
  · rintro ⟨fresh, person, positive, enough⟩
    exact ⟨(name, _), ⟨mem_ranked.mpr ⟨fresh, rfl, positive⟩, enough, person⟩, rfl⟩

theorem nodup_wanted : (wanted least (ranked client people frontier)).Nodup :=
  nodup_ranked.sublist (List.filter_sublist.map _)

/-- A hop takes the first of those it wants, as many as it has room for. -/
theorem pick_eq (entries : List (String × Nat)) (once : (entries.map Prod.fst).Nodup)
    (fresh : ∀ entry ∈ entries, entry.1 ∉ people ++ added) :
    pick limit budget least people added entries =
      added ++ (wanted least entries).take
        (min (budget - added.length) (limit - (people ++ added).length)).toNat := by
  induction entries generalizing added with
  | nil => simp [pick, wanted]
  | cons entry rest ih =>
      obtain ⟨name, d⟩ := entry
      obtain ⟨other, once⟩ := List.nodup_cons.mp once
      obtain ⟨new, fresh⟩ := List.forall_mem_cons.mp fresh
      unfold pick
      split
      next full =>
        have none_ : (min (budget - added.length) (limit - (people ++ added).length)).toNat = 0 := by
          omega
        rw [none_, List.take_zero, List.append_nil]
      next room =>
        rw [not_or, not_le, not_le] at room
        split
        next taken =>
          have fresh' : ∀ entry ∈ rest, entry.1 ∉ people ++ (added ++ [name]) := by
            intro entry member inside
            rw [← List.append_assoc, List.mem_append, List.mem_singleton] at inside
            rcases inside with before | same
            · exact fresh entry member before
            · have listed := List.mem_map_of_mem (f := Prod.fst) member
              exact other (same ▸ listed)
          have here : wanted least ((name, d) :: rest) = name :: wanted least rest := by
            simp [wanted, taken.1, taken.2.1]
          have one_less : (min (budget - added.length) (limit - (people ++ added).length)).toNat =
              (min (budget - (added ++ [name]).length)
                (limit - (people ++ (added ++ [name])).length)).toNat + 1 := by
            simp only [List.length_append, List.length_singleton] at room ⊢
            omega
          rw [ih once fresh', here, one_less, List.take_succ_cons, List.append_assoc,
            List.singleton_append]
        next left =>
          have skipped : wanted least ((name, d) :: rest) = wanted least rest := by
            have turned : ¬ (least ≤ d ∧ Person name) :=
              fun both => left ⟨both.1, both.2, new, room.2⟩
            simp [wanted, turned]
          rw [ih once fresh, skipped]

theorem pick_ranked :
    pick limit budget least people [] (ranked client people frontier) =
      (wanted least (ranked client people frontier)).take
        (min budget (limit - people.length)).toNat := by
  rw [pick_eq _ nodup_ranked fun entry member => ?_]
  · simp
  · rw [List.append_nil]
    exact (mem_ranked.mp member).1

/-! ## The followers of a hop -/

/-- A hop that starts from people of the crowd counts people of the crowd. -/
theorem followers_le (once : frontier.Nodup) (inside : frontier ⊆ people) :
    followers client frontier name ≤ followers client people name :=
  (once.subperm inside).countP_le _

theorem supported_expand (left hop : Nat) (once : frontier.Nodup) (inside : frontier ⊆ people) :
    Supported client minDegree minDegree people
      (expand client limit budget minDegree left (hop + 1) people frontier) := by
  induction left generalizing hop people frontier with
  | zero => trivial
  | succ left ih =>
      unfold expand
      dsimp only
      split
      next => trivial
      next =>
        have later : floor minDegree (hop + 1) = minDegree := if_neg (Nat.succ_ne_zero hop)
        rw [later, pick_ranked]
        refine ⟨fun name member => ?_, ih _ (nodup_wanted.sublist (List.take_sublist _ _))
          (List.subset_append_right _ _)⟩
        obtain ⟨-, -, -, enough⟩ := mem_wanted.mp (List.mem_of_mem_take member)
        have more := @followers_le client people frontier name once inside
        omega

/-- Who may join in the first hop: people whom a contributor follows. -/
def newcomers (client : Client) (settings : Settings) (seeds : List String) : List String :=
  (firsts ((core client settings.perRepo seeds).flatMap client.follows)).filter fun name =>
    Person name ∧ name ∉ start client settings seeds

/-- Where a login stands among those who may join, by its followers among all contributors. -/
def standing (client : Client) (settings : Settings) (seeds : List String) (name : String) :
    ℤ ×ₗ String :=
  place (name, followers client (firsts (core client settings.perRepo seeds)) name)

/-- Whoever the first hop has room for is followed by a contributor who is a person. -/
def Grounded (client : Client) (settings : Settings) (seeds : List String) : Prop :=
  let size := (start client settings seeds).length
  let standing := standing client settings seeds
  ∀ name ∈ newcomers client settings seeds,
    (Ranked.rank ((newcomers client settings seeds).map standing) (standing name) : ℤ) <
        min (settings.budget size) (settings.limit - size) →
      ∃ login ∈ core client settings.perRepo seeds, Person login ∧ name ∈ client.follows login

theorem followers_pos : 0 < followers client people name ↔ ∃ login ∈ people,
    name ∈ client.follows login := by
  simp [followers, List.countP_pos_iff]

theorem mem_newcomers : name ∈ newcomers client settings seeds ↔
    name ∈ wanted 1 (ranked client (start client settings seeds)
      (firsts (core client settings.perRepo seeds))) := by
  have counted : (1 : ℤ) ≤ followers client (firsts (core client settings.perRepo seeds)) name ↔
      0 < followers client (firsts (core client settings.perRepo seeds)) name := by
    omega
  rw [mem_wanted, counted, and_self, followers_pos, newcomers, List.mem_filter, Top.mem_firsts,
    List.mem_flatMap]
  simp only [decide_eq_true_eq, Top.mem_firsts]
  tauto

/-- The first hop takes those who may join in the order of their standing. -/
theorem mem_pick (room : ℤ) :
    name ∈ (wanted 1 (ranked client (start client settings seeds)
        (firsts (core client settings.perRepo seeds)))).take room.toNat ↔
      name ∈ newcomers client settings seeds ∧
        (Ranked.rank ((newcomers client settings seeds).map (standing client settings seeds))
          (standing client settings seeds name) : ℤ) < room := by
  set taken := wanted 1 (ranked client (start client settings seeds)
    (firsts (core client settings.perRepo seeds))) with shape
  have injective : Function.Injective (standing client settings seeds) :=
    fun a b same => (Prod.mk.inj (toLex.injective same)).2
  have sorted : (taken.map (standing client settings seeds)).Pairwise (· ≤ ·) := by
    have ordered : (ranked client (start client settings seeds)
        (firsts (core client settings.perRepo seeds))).Pairwise fun a b => place a ≤ place b := by
      have : Std.Total fun a b : String × Nat => place a ≤ place b :=
        ⟨fun a b => le_total (place a) (place b)⟩
      have : IsTrans (String × Nat) fun a b => place a ≤ place b := ⟨fun _ _ _ => le_trans⟩
      exact List.pairwise_insertionSort _ _
    rw [shape, wanted, List.map_map, List.pairwise_map]
    refine (ordered.sublist List.filter_sublist).imp_of_mem fun {a b} inside inside' le => ?_
    obtain ⟨-, count, -⟩ := mem_ranked.mp (List.mem_of_mem_filter inside)
    obtain ⟨-, count', -⟩ := mem_ranked.mp (List.mem_of_mem_filter inside')
    simpa only [Function.comp_apply, standing, ← count, ← count'] using le
  have same : taken.Perm (newcomers client settings seeds) := by
    refine (List.perm_ext_iff_of_nodup nodup_wanted ((Top.nodup_firsts _).filter _)).mpr fun _ => ?_
    exact mem_newcomers.symm
  rw [← List.mem_map_of_injective injective, List.map_take]
  constructor
  · intro member
    have inside := (List.mem_map_of_injective injective).mp (List.mem_of_mem_take member)
    rw [Ranked.mem_take_iff sorted (List.mem_map_of_mem inside),
      Ranked.rank_perm (same.map _)] at member
    exact ⟨same.mem_iff.mp inside, by omega⟩
  · rintro ⟨joins, before⟩
    have inside := same.mem_iff.mpr joins
    rw [Ranked.mem_take_iff sorted (List.mem_map_of_mem inside), Ranked.rank_perm (same.map _)]
    omega

/-- While there is room, those whom a person of the crowd follows are those whom a contributor who
    is a person does. -/
theorem followed_iff (room : ((start client settings seeds).length : ℤ) < settings.limit) :
    0 < followers client (start client settings seeds) name ↔
      ∃ login ∈ core client settings.perRepo seeds, Person login ∧ name ∈ client.follows login := by
  rw [followers_pos]
  constructor
  · rintro ⟨login, inside, follows⟩
    exact ⟨login, start_subset inside, (crowd_start client settings seeds).persons login inside,
      follows⟩
  · rintro ⟨login, contributed, person, follows⟩
    exact ⟨login, (mem_start login contributed person).resolve_right (not_le.mpr room), follows⟩

theorem supported_layers (follow : settings.follow = true) :
    Supported client settings.minDegree 1 (start client settings seeds)
        (layers client settings seeds) ↔
      Grounded client settings seeds := by
  obtain ⟨left, rounds⟩ : ∃ left, settings.rounds.toNat = left + 1 :=
    ⟨settings.rounds.toNat - 1, by unfold Settings.rounds; omega⟩
  have first : Supported client settings.minDegree 1 (start client settings seeds)
      (layers client settings seeds) ↔
        ∀ name ∈ pick settings.limit (settings.budget (start client settings seeds).length) 1
            (start client settings seeds) [] (ranked client (start client settings seeds)
              (firsts (core client settings.perRepo seeds))),
          0 < followers client (start client settings seeds) name := by
    rw [layers, if_pos follow, rounds, expand]
    have one : floor settings.minDegree 0 = 1 := if_pos rfl
    rw [one]
    split
    next none_ => simp [none_, Supported]
    next =>
      rw [Supported, and_iff_left]
      · exact forall₂_congr fun name _ => by omega
      · rw [pick_ranked]
        exact supported_expand left 0 (nodup_wanted.sublist (List.take_sublist _ _))
          (List.subset_append_right _ _)
  rw [first, pick_ranked, Grounded]
  refine forall_congr' fun name => ?_
  rw [mem_pick, and_imp]
  refine forall₂_congr fun _ before => followed_iff ?_
  omega

/-- The crowd is what it should be exactly where no bot alone brings anybody in. -/
theorem lawful_iff (client : Client) (settings : Settings) (seeds : List String) :
    Lawful client settings seeds ↔
      0 ≤ settings.limit ∧ (settings.follow = true → Grounded client settings seeds) := by
  constructor
  · intro lawful
    exact ⟨(Int.natCast_nonneg _).trans lawful.size,
      fun follow => (supported_layers follow).mp lawful.supported⟩
  · rintro ⟨some_, grounded⟩
    have crowd := crowd_layers client settings seeds
    rw [← cohort_eq some_] at crowd
    refine ⟨crowd.once, fun login member => (crowd.persons login member).2, ?_, cohort_eq some_, ?_⟩
    · rcases crowd.size with none_ | size
      · rw [none_]
        exact some_
      · exact size
    · by_cases follow : settings.follow = true
      · exact (supported_layers follow).mpr (grounded follow)
      · rw [layers, if_neg follow]
        trivial

/-- One repository, written by one person and a bot. -/
def withBot : Client where
  contributors repo := if repo = "org/tool" then some ["ann", "robot[bot]"] else none
  following login := if login = "robot[bot]" then some ["zed"] else if login = "ann" then some [] else none
  once login listed read := by
    split at read
    next => exact Option.some.inj read ▸ List.nodup_singleton "zed"
    next =>
      split at read
      next => exact Option.some.inj read ▸ List.nodup_nil
      next => cases read

/-- Whom only the bot follows is asked all the same. -/
theorem bot_brings_in :
    cohort withBot {} ["org/tool"] = ["ann", "zed"] ∧
      followers withBot ["ann"] "zed" = 0 ∧ ¬ Lawful withBot {} ["org/tool"] := by
  refine ⟨by decide, by decide, fun lawful => ?_⟩
  have shape : layers withBot {} ["org/tool"] = [["zed"]] := by decide
  have began : start withBot {} ["org/tool"] = ["ann"] := by decide
  have supported := lawful.supported
  rw [shape, began] at supported
  have enough := supported.1 "zed" (List.mem_singleton_self _)
  revert enough
  decide

end LocalHarness.Neighbors
