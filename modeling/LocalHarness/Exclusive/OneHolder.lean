import LocalHarness.Exclusive.Held

/-! # At most one holder

Whoever is in the section should be in the process tree of the call that has the lock. The
variable alone does not see to that: it is copied to children, shared by threads, and outlives
the hold it was set for.
-/

namespace LocalHarness.Exclusive

open LocalHarness.Library LocalHarness.Runs Host

def Link (processes : Table Process) (parent child : Nat) : Prop :=
  (processes.find? child).bind Process.parent = some parent

/-- A process is in the tree of another. -/
def Descends (processes : Table Process) (root process : Nat) : Prop :=
  Relation.ReflTransGen (Link processes) root process

/-- The process, or one it descends from, has the lock. -/
def Owned (h : Host) (process : Nat) : Prop :=
  ∃ root, h.owner = some root ∧ Descends h.processes root process

/-- In the block of a hold. -/
def Phase.section_ (phase : Phase) : Prop :=
  phase = .inside ∨ phase = .nested

/-- Every call in the section belongs to the tree of the one process that has the lock. -/
def OneHolder (h : Host) : Prop :=
  ∀ id call, h.calls.find? id = some call → call.phase.section_ → Owned h call.process

/-- What a step must find for the variable to tell the truth: a call that enters on it does so
    under a hold of its own tree, and a hold ends, by leaving or with its process, only when no
    other call is in the section on it. -/
def Stands (h : Host) : Action → Prop
  | .enter process kind =>
      ∀ row, h.living process = some row → kind ∈ EXCLUSIVE ++ BATCH → row.marked = true →
        Owned h process
  | .release _ => ∀ id call, h.calls.find? id = some call → call.phase ≠ .nested
  | .die process => h.owner = some process →
      ∀ id call, h.calls.find? id = some call → call.phase = .nested → call.process = process
  | _ => True

/-- The lock belongs to a call, and a call that says it has the lock has it. -/
structure Sound (h : Host) : Prop where
  known : ∀ id, h.lock = some id → ∃ call, h.calls.find? id = some call
  holder : ∀ id call, h.calls.find? id = some call →
    call.phase = .taken ∨ call.phase = .inside ∨ call.phase = .leaving → h.lock = some id

/-! ## What the steps change -/

theorem at?_eq_some {h : Host} {id : Nat} {phase : Phase} {call : Call} :
    h.at? id phase = some call ↔ h.calls.find? id = some call ∧ call.phase = phase := by
  simp [at?, Option.filter_eq_some_iff]

theorem owner_eq {h : Host} {id : Nat} {call : Call} (locked : h.lock = some id)
    (found : h.calls.find? id = some call) : h.owner = some call.process := by
  simp [owner, locked, found]

theorem owner_none {h : Host} (free : h.lock = none) : h.owner = none := by
  simp [owner, free]

/-- A call that was moved is what it was but for its phase. -/
theorem find?_moved {h : Host} {id other : Nat} {phase : Phase} {call : Call}
    (found : (h.moved id phase).calls.find? other = some call) :
    (other = id ∧ call.phase = phase ∧
        ∃ row, h.calls.find? other = some row ∧ row.process = call.process) ∨
      (other ≠ id ∧ h.calls.find? other = some call) := by
  rw [moved, Table.find?_update] at found
  by_cases same : other = id
  · rw [if_pos same] at found
    obtain ⟨row, here, rfl⟩ := Option.map_eq_some_iff.mp found
    exact .inl ⟨same, rfl, row, here, rfl⟩
  · rw [if_neg same] at found
    exact .inr ⟨same, found⟩

theorem moved_processes (h : Host) (id other : Nat) (phase : Phase) :
    ((h.moved id phase).calls.find? other).map Call.process =
      (h.calls.find? other).map Call.process := by
  rw [moved, Table.find?_update]
  split
  · rw [Option.map_map]
    rfl
  · rfl

theorem owner_congr {h h' : Host} (locks : h'.lock = h.lock)
    (calls : ∀ id, h.lock = some id →
      (h'.calls.find? id).map Call.process = (h.calls.find? id).map Call.process) :
    h'.owner = h.owner := by
  unfold owner
  rw [locks]
  cases locked : h.lock with
  | none => rfl
  | some id => exact calls id locked

theorem Owned.of_links {h h' : Host} {process : Nat} (owned : Owned h process)
    (owners : h'.owner = h.owner)
    (links : ∀ parent child, Link h.processes parent child → Link h'.processes parent child) :
    Owned h' process := by
  obtain ⟨root, has, down⟩ := owned
  exact ⟨root, owners.trans has, Relation.ReflTransGen.mono links _ _ down⟩

theorem setMarked_links (h : Host) (process : Nat) (marked : Bool) (parent child : Nat) :
    Link (h.setMarked process marked).processes parent child ↔ Link h.processes parent child := by
  unfold Link setMarked
  rw [Table.find?_update]
  split
  · cases h.processes.find? child <;> rfl
  · rfl

theorem addProcess_links {h : Host} {process : Process} {parent child : Nat}
    (link : Link h.processes parent child) : Link (h.addProcess process).processes parent child := by
  unfold Link addProcess at *
  rw [Table.find?_insert]
  split
  next same =>
    rw [same, h.processes.above_nextId.find?] at link
    cases link
  next => exact link

/-! ## One step -/

variable {h h' : Host}

/-- A step that leaves the calls and the lock as they are. -/
theorem addProcess_keeps {process : Process} (sound : Sound h) (one : OneHolder h) :
    Sound (h.addProcess process) ∧ OneHolder (h.addProcess process) :=
  ⟨⟨sound.known, sound.holder⟩, fun id call found inside =>
    (one id call found inside).of_links rfl fun _ _ => addProcess_links⟩

theorem enter_keeps {process : Nat} {phase : Phase}
    (idle : phase = .passed ∨ phase = .nested ∨ phase = .waiting) (sound : Sound h) (one : OneHolder h) :
    Sound (h.addCall ⟨process, phase⟩) ∧
      (OneHolder (h.addCall ⟨process, phase⟩) ↔ (phase = .nested → Owned h process)) := by
  have fresh : h.calls.find? h.calls.nextId = none := h.calls.above_nextId.find?
  have old : ∀ {id call}, h.calls.find? id = some call →
      (h.addCall ⟨process, phase⟩).calls.find? id = some call := by
    intro id call found
    rw [addCall, Table.find?_insert, if_neg]
    · exact found
    · rintro rfl
      rw [fresh] at found
      cases found
  have owners : (h.addCall ⟨process, phase⟩).owner = h.owner :=
    owner_congr rfl fun id locked => by
      obtain ⟨call, found⟩ := sound.known id locked
      rw [old found, found]
  refine ⟨⟨fun id locked => ?_, fun id call found has => ?_⟩, fun one' nested => ?_, fun allowed => ?_⟩
  · obtain ⟨call, found⟩ := sound.known id locked
    exact ⟨call, old found⟩
  · rw [addCall, Table.find?_insert] at found
    split at found
    next =>
      obtain rfl := Option.some.inj found
      rcases idle with rfl | rfl | rfl <;> simp at has
    next => exact sound.holder id call found has
  · have found : (h.addCall ⟨process, phase⟩).calls.find? h.calls.nextId = some ⟨process, phase⟩ := by
      simp [addCall]
    exact (one' _ _ found (.inr nested)).of_links owners.symm fun _ _ link => link
  · intro id call found inside
    rw [addCall, Table.find?_insert] at found
    split at found
    next =>
      obtain rfl := Option.some.inj found
      rcases inside with inside | nested
      · rcases idle with rfl | rfl | rfl <;> cases inside
      · exact (allowed nested).of_links owners fun _ _ link => link
    next => exact (one id call found inside).of_links owners fun _ _ link => link

/-- The lock is taken when it is free, so that no call is in the section. -/
theorem take_keeps {id : Nat} (free : h.lock = none) {row : Call} (waits : h.at? id .waiting = some row)
    (sound : Sound h) (one : OneHolder h) :
    Sound { h.moved id .taken with lock := some id } ∧
      OneHolder { h.moved id .taken with lock := some id } := by
  have none_has : ∀ other call, h.calls.find? other = some call →
      ¬ (call.phase = .taken ∨ call.phase = .inside ∨ call.phase = .leaving) := by
    intro other call found has
    have locked := sound.holder other call found has
    rw [free] at locked
    cases locked
  refine ⟨⟨fun other locked => ?_, fun other call found has => ?_⟩, fun other call found inside => ?_⟩
  · obtain rfl := Option.some.inj locked
    refine ⟨{ row with phase := .taken }, ?_⟩
    simp [moved, (at?_eq_some.mp waits).1]
  · rcases find?_moved found with ⟨rfl, -⟩ | ⟨-, old⟩
    · rfl
    · exact absurd has (none_has other call old)
  · rcases find?_moved found with ⟨-, phase, -⟩ | ⟨-, old⟩
    · rcases inside with inside | nested
      · rw [phase] at inside
        cases inside
      · rw [phase] at nested
        cases nested
    · obtain ⟨root, has, -⟩ := one other call old inside
      rw [owner_none free] at has
      cases has

/-- A call that has the lock goes on to its block, or out of it. -/
theorem holder_keeps {id process : Nat} {before after : Phase} {marked : Bool} {row : Call}
    (stands : h.at? id before = some row) (has : before = .taken ∨ before = .inside)
    (sound : Sound h) (one : OneHolder h) :
    Sound ((h.moved id after).setMarked process marked) ∧
      OneHolder ((h.moved id after).setMarked process marked) := by
  obtain ⟨found, phase⟩ := at?_eq_some.mp stands
  have locked : h.lock = some id := sound.holder id row found (by
    rcases has with rfl | rfl
    · exact .inl phase
    · exact .inr (.inl phase))
  have owners : ((h.moved id after).setMarked process marked).owner = h.owner :=
    owner_congr rfl fun other _ => moved_processes h id other after
  have links : ∀ parent child, Link h.processes parent child →
      Link ((h.moved id after).setMarked process marked).processes parent child :=
    fun parent child => (setMarked_links (h.moved id after) process marked parent child).mpr
  refine ⟨⟨fun other locked' => ?_, fun other call found' has' => ?_⟩, fun other call found' inside => ?_⟩
  · obtain rfl := Option.some.inj (locked.symm.trans locked')
    exact ⟨{ row with phase := after }, by simp [moved, setMarked, found]⟩
  · rcases find?_moved found' with ⟨rfl, -⟩ | ⟨-, old⟩
    · exact locked
    · exact sound.holder other call old has'
  · rcases find?_moved found' with ⟨rfl, -, was, found'', same⟩ | ⟨-, old⟩
    · rw [found, Option.some.injEq] at found''
      rw [← same, ← found'']
      exact ⟨row.process, owners.trans (owner_eq locked found), .refl⟩
    · exact (one other call old inside).of_links owners links

/-- A hold ends: no call may still be in the section on it. -/
theorem release_keeps {id : Nat} {row : Call} (stands : h.at? id .leaving = some row)
    (sound : Sound h) :
    Sound { h.moved id .ended with lock := none } ∧
      (OneHolder { h.moved id .ended with lock := none } ↔
        ∀ id call, h.calls.find? id = some call → call.phase ≠ .nested) := by
  obtain ⟨found, phase⟩ := at?_eq_some.mp stands
  have locked : h.lock = some id := sound.holder id row found (.inr (.inr phase))
  have others : ∀ {other call}, other ≠ id → h.calls.find? other = some call →
      ¬ (call.phase = .taken ∨ call.phase = .inside ∨ call.phase = .leaving) := by
    intro other call different old has
    exact different (Option.some.inj ((sound.holder other call old has).symm.trans locked))
  refine ⟨⟨nofun, fun other call found' has => ?_⟩, fun one' other call old nested => ?_,
    fun none other call found' inside => ?_⟩
  · rcases find?_moved found' with ⟨-, ended, -⟩ | ⟨different, old⟩
    · rw [ended] at has
      simp at has
    · exact absurd has (others different old)
  · have still : (h.moved id .ended).calls.find? other = some call := by
      rw [moved, Table.find?_update_of_ne _ _, old]
      rintro rfl
      rw [found, Option.some.injEq] at old
      rw [← old, phase] at nested
      cases nested
    obtain ⟨root, has, -⟩ := one' other call still (.inr nested)
    cases has
  · rcases find?_moved found' with ⟨-, ended, -⟩ | ⟨different, old⟩
    · rcases inside with inside | nested
      · rw [ended] at inside
        cases inside
      · rw [ended] at nested
        cases nested
    · rcases inside with inside | nested
      · exact absurd (.inr (.inl inside)) (others different old)
      · exact absurd nested (none other call old)

/-- A block without the lock ends. -/
theorem leave_keeps {id : Nat} (sound : Sound h) (one : OneHolder h) :
    Sound (h.moved id .ended) ∧ OneHolder (h.moved id .ended) := by
  have owners : (h.moved id .ended).owner = h.owner :=
    owner_congr rfl fun other _ => moved_processes h id other .ended
  refine ⟨⟨fun other locked => ?_, fun other call found' has => ?_⟩, fun other call found' inside => ?_⟩
  · obtain ⟨call, known⟩ := sound.known other locked
    have still : ∃ call, (h.moved id .ended).calls.find? other = some call := by
      rw [moved, Table.find?_update]
      split
      · exact ⟨_, by rw [known]; rfl⟩
      · exact ⟨call, known⟩
    exact still
  · rcases find?_moved found' with ⟨-, ended, -⟩ | ⟨-, old⟩
    · rw [ended] at has
      simp at has
    · exact sound.holder other call old has
  · rcases find?_moved found' with ⟨-, ended, -⟩ | ⟨-, old⟩
    · rcases inside with inside | nested
      · rw [ended] at inside
        cases inside
      · rw [ended] at nested
        cases nested
    · exact (one other call old inside).of_links owners fun _ _ link => link

/-- A call that has not ended is of another process, and is what it was. -/
theorem find?_without {process id : Nat} {call : Call}
    (found : (h.without process).calls.find? id = some call) (going : call.phase ≠ .ended) :
    h.calls.find? id = some call ∧ call.process ≠ process := by
  rw [without, Table.find?_updateAll] at found
  obtain ⟨row, here, made⟩ := Option.map_eq_some_iff.mp found
  by_cases same : row.process = process
  · rw [if_pos same] at made
    exact absurd (made ▸ rfl) going
  · rw [if_neg same] at made
    subst made
    exact ⟨here, same⟩

theorem without_other {process id : Nat} {call : Call} (found : h.calls.find? id = some call)
    (other : call.process ≠ process) : (h.without process).calls.find? id = some call := by
  rw [without, Table.find?_updateAll, found, Option.map_some, if_neg other]

theorem without_links (h : Host) (process parent child : Nat) :
    Link (h.without process).processes parent child ↔ Link h.processes parent child := by
  unfold Link without
  rw [Table.find?_update]
  split
  · cases h.processes.find? child <;> rfl
  · rfl

/-- A process ends, and a hold with it: no other process may still be in the section on it. -/
theorem die_keeps {process : Nat} (sound : Sound h) (one : OneHolder h) :
    Sound (h.without process) ∧
      (OneHolder (h.without process) ↔ (h.owner = some process →
        ∀ id call, h.calls.find? id = some call → call.phase = .nested → call.process = process)) := by
  by_cases owns : h.owner = some process
  · have free : (h.without process).lock = none := by rw [without, if_pos owns]
    -- The calls that have the lock are the one call, of this process.
    have gone : ∀ {id call}, (h.without process).calls.find? id = some call →
        ¬ (call.phase = .taken ∨ call.phase = .inside ∨ call.phase = .leaving) := by
      intro id call found has
      obtain ⟨old, other⟩ := find?_without found (by rintro ended; simp [ended] at has)
      have owner := owner_eq (sound.holder id call old has) old
      exact other (Option.some.inj (owner.symm.trans owns))
    refine ⟨⟨fun id locked => ?_, fun id call found has => absurd has (gone found)⟩,
      fun one' _ id call old nested => ?_, fun none id call found inside => ?_⟩
    · rw [free] at locked
      cases locked
    · by_contra other
      obtain ⟨root, has, -⟩ := one' id call (without_other old other) (.inr nested)
      rw [owner_none free] at has
      cases has
    · rcases inside with inside | nested
      · exact absurd (.inr (.inl inside)) (gone found)
      · obtain ⟨old, other⟩ := find?_without found (by rw [nested]; nofun)
        exact absurd (none owns id call old nested) other
  · have same : (h.without process).lock = h.lock := by rw [without, if_neg owns]
    have kept : ∀ id, h.lock = some id →
        (h.without process).calls.find? id = h.calls.find? id := by
      intro id locked
      obtain ⟨call, found⟩ := sound.known id locked
      have other : call.process ≠ process := by
        rintro rfl
        exact owns (owner_eq locked found)
      rw [without_other found other, found]
    have owners : (h.without process).owner = h.owner :=
      owner_congr same fun id locked => by rw [kept id locked]
    refine ⟨⟨fun id locked => ?_, fun id call found has => ?_⟩,
      fun _ owns' => absurd owns' owns, fun _ id call found inside => ?_⟩
    · rw [same] at locked
      rw [kept id locked]
      exact sound.known id locked
    · obtain ⟨old, -⟩ := find?_without found (by rintro ended; simp [ended] at has)
      rw [same]
      exact sound.holder id call old has
    · obtain ⟨old, -⟩ := find?_without found (by
        rcases inside with inside | nested
        · rw [inside]
          nofun
        · rw [nested]
          nofun)
      exact (one id call old inside).of_links owners fun parent child =>
        (without_links h process parent child).mpr

/-- A step from a state with one holder leads to one exactly when the variable tells the truth. -/
theorem step_one_iff {action : Action} (stepped : step h action = some h') (sound : Sound h)
    (one : OneHolder h) : Sound h' ∧ (OneHolder h' ↔ Stands h action) := by
  cases action with
  | launch =>
      obtain rfl := Option.some.inj stepped
      exact (addProcess_keeps sound one).imp_right fun one' => iff_of_true one' trivial
  | spawn parent stripped =>
      obtain ⟨row, -, rfl⟩ := Option.map_eq_some_iff.mp stepped
      exact (addProcess_keeps sound one).imp_right fun one' => iff_of_true one' trivial
  | enter process kind =>
      obtain ⟨row, lives, rfl⟩ := Option.map_eq_some_iff.mp stepped
      have idle : admitted row kind = .passed ∨ admitted row kind = .nested ∨ admitted row kind = .waiting := by
        unfold admitted
        split_ifs <;> simp
      obtain ⟨sound', one'⟩ := @enter_keeps h process _ idle sound one
      refine ⟨sound', one'.trans ?_⟩
      have nests : admitted row kind = .nested ↔ kind ∈ EXCLUSIVE ++ BATCH ∧ row.marked = true := by
        unfold admitted
        split_ifs <;> simp_all
      rw [nests]
      constructor
      · intro allowed row' lives' gated marked
        rw [lives, Option.some.injEq] at lives'
        exact allowed ⟨gated, lives' ▸ marked⟩
      · rintro stands ⟨gated, marked⟩
        exact stands row lives gated marked
  | take id =>
      rw [step] at stepped
      split at stepped
      next free =>
        obtain ⟨row, waits, rfl⟩ := Option.map_eq_some_iff.mp stepped
        exact (take_keeps free waits sound one).imp_right fun one' => iff_of_true one' trivial
      next => cases stepped
  | mark id =>
      obtain ⟨row, stands, rfl⟩ := Option.map_eq_some_iff.mp stepped
      exact (holder_keeps stands (.inl rfl) sound one).imp_right fun one' => iff_of_true one' trivial
  | unmark id =>
      obtain ⟨row, stands, rfl⟩ := Option.map_eq_some_iff.mp stepped
      exact (holder_keeps stands (.inr rfl) sound one).imp_right fun one' => iff_of_true one' trivial
  | release id =>
      obtain ⟨row, stands, rfl⟩ := Option.map_eq_some_iff.mp stepped
      exact release_keeps stands sound
  | leave id =>
      obtain ⟨row, -, rfl⟩ := Option.map_eq_some_iff.mp stepped
      exact (leave_keeps sound one).imp_right fun one' => iff_of_true one' trivial
  | die process =>
      obtain ⟨row, -, rfl⟩ := Option.map_eq_some_iff.mp stepped
      exact die_keeps sound one

/-! ## Every moment of a run -/

/-- At every moment of every run at most one tree is in the section, the one that has the lock,
    exactly when no step finds the variable to outlive the hold it was set for. -/
theorem one_holder_iff {actions : List Action} (started : machine.start h)
    (ran : machine.run h actions = some h') :
    (∀ before after mid, actions = before ++ after → machine.run h before = some mid →
      OneHolder mid) ↔ machine.Meets Stands h actions := by
  obtain rfl : h = ⟨∅, ∅, none⟩ := started
  have sound : Sound ⟨∅, ∅, none⟩ := ⟨nofun, fun id call found => nomatch found⟩
  have one : OneHolder ⟨∅, ∅, none⟩ := fun id call found => nomatch found
  exact System.run_keeps_iff (fun _ _ _ sound one stepped => step_one_iff stepped sound one) sound one
    ran

private theorem meets_cons {next : Host} {action : Action} {rest : List Action}
    (stepped : machine.step h action = some next) (stands : Stands h action)
    (later : machine.Meets Stands next rest) : machine.Meets Stands h (action :: rest) :=
  ⟨stands, fun other stepped' => by
    obtain rfl := Option.some.inj (stepped.symm.trans stepped')
    exact later⟩

/-- A child is inside while its parent has the lock, and leaves before the parent does. -/
theorem child_within : ∃ mid, machine.run ⟨∅, ∅, none⟩ [.launch, .enter 1 "eval", .take 1, .mark 1,
    .spawn 1 false, .enter 2 "image"] = some mid ∧ OneHolder mid := by
  obtain ⟨h', ran⟩ : ∃ h', machine.run ⟨∅, ∅, none⟩ [.launch, .enter 1 "eval", .take 1, .mark 1,
      .spawn 1 false, .enter 2 "image", .leave 2, .unmark 1, .release 1] = some h' := ⟨_, rfl⟩
  refine ⟨_, rfl, (one_holder_iff rfl ran).mpr ?_ [.launch, .enter 1 "eval", .take 1, .mark 1,
    .spawn 1 false, .enter 2 "image"] [.leave 2, .unmark 1, .release 1] _ rfl rfl⟩
  refine meets_cons rfl trivial (meets_cons rfl ?_ (meets_cons rfl trivial (meets_cons rfl trivial
    (meets_cons rfl trivial (meets_cons rfl ?_ (meets_cons rfl trivial (meets_cons rfl trivial
      (meets_cons rfl ?_ trivial))))))))
  · -- The first process is not marked.
    rintro row lives - marked
    obtain rfl := Option.some.inj lives
    cases marked
  · rintro row lives - -
    exact ⟨1, rfl, .single rfl⟩
  · intro id call found
    have each : ∀ row ∈ [(1, (⟨1, .leaving⟩ : Call)), (2, ⟨2, .ended⟩)], row.2.phase ≠ .nested := by
      decide
    exact each _ (Table.find?_eq_some.mp found)

/-- A child that outlives its parent's hold enters beside the next holder. -/
theorem child_outlives : ∃ h, machine.run ⟨∅, ∅, none⟩ [.launch, .enter 1 "eval", .take 1, .mark 1,
    .spawn 1 false, .unmark 1, .release 1, .launch, .enter 3 "video", .take 2, .mark 2,
    .enter 2 "image"] = some h ∧ ¬ OneHolder h := by
  refine ⟨_, rfl, fun one => ?_⟩
  obtain ⟨root, has, down⟩ := one 3 ⟨2, .nested⟩ rfl (.inr rfl)
  obtain rfl := Option.some.inj has
  -- The child descends from the first process, and the lock is of the third.
  rcases Relation.ReflTransGen.cases_tail down with same | ⟨parent, above, link⟩
  · exact absurd same (by decide)
  · obtain rfl := Option.some.inj link
    rcases Relation.ReflTransGen.cases_tail above with same | ⟨_, _, link⟩
    · exact absurd same (by decide)
    · cases link

end LocalHarness.Exclusive
