import LocalHarness.Volume.Stopping

/-! # What a broken stop or start leaves

A stop writes what is gone after it is gone, so between the two nothing says so. A start that
loads some labels and not others keeps the file that names them all, and no later start loads a
label twice.
-/

namespace LocalHarness.Volume

open LocalHarness.Library

/-! ## What is to be recovered -/

/-- The file says what was loaded before, and whether the queue was paused. -/
def Records (saved : Saved) (services : Finset String) (paused : Bool) (w : World) : Prop :=
  saved.wasPaused = paused ∧ ∀ label, label ∈ services ↔ label ∈ w.services ∨ label ∈ saved.stopped

/-- The world once a stop has got to do `k` things. -/
def stopped (m : Machine) (vol : String) (services : Finset String) (paused : Bool) (k : Nat) : World :=
  (stop m vol ⟨services, paused, none⟩ k).2

/-- The world after some starts. -/
def restarted (w : World) (attempts : List Attempt) : World :=
  attempts.foldl (fun w a => (start w a).2) w

/-- If a stop raises nothing is changed or the state file says what is; and whatever starts failed
    after it, one that meets no failure succeeds and puts everything back. -/
structure Recovers (m : Machine) (vol : String) (services : Finset String) (paused : Bool) (k : Nat)
    (attempts : List Attempt) : Prop where
  raised : ∀ why, (stop m vol ⟨services, paused, none⟩ k).1 = .error why →
    ((stopped m vol services paused k).services = services ∧
        (stopped m vol services paused k).paused = paused) ∨
      ∃ saved, (stopped m vol services paused k).file = some (.saved saved) ∧
        Records saved services paused (stopped m vol services paused k)
  restarts : (restarted (stopped m vol services paused k) attempts).file ≠ none →
    ∃ got, (start (restarted (stopped m vol services paused k) attempts) {}).1 = .ok got
  restored : (start (restarted (stopped m vol services paused k) attempts) {}).2.services = services ∧
    (start (restarted (stopped m vol services paused k) attempts) {}).2.paused = paused

/-! ## When it is -/

/-- What a stop does that a later start would have to know of. -/
def Op.changes (paused : Bool) : Op → Bool
  | .pause => !paused
  | .bootout _ | .truncate | .write _ => true
  | .running | .list | .lsof | .ps | .print _ => false

def lastChange (paused : Bool) (done : List Op) : Option Op :=
  (done.filter (Op.changes paused)).getLast?

/-- Of the things done that change anything the last is a write of the state file. -/
def Settled (paused : Bool) (done : List Op) : Prop :=
  ∀ op, lastChange paused done = some op → ∃ gone, op = .write gone

/-- A start that loads nothing: the volume is away, or every service is broken. -/
def Attempt.idle (gone : List String) (a : Attempt) : Bool :=
  !a.mounted || (gone ≠ [] && gone.all (· ∈ a.broken))

/-- The first start that loads any service meets no broken one. -/
def WholeStart (gone : List String) (attempts : List Attempt) : Prop :=
  ∀ a, attempts.find? (fun a => !a.idle gone) = some a → ∀ label ∈ gone, label ∉ a.broken

/-! ## Where each thing stands in a stop -/

def booted (done : List Op) : List String :=
  done.filterMap fun op => match op with
    | .bootout label => some label
    | _ => none

attribute [local simp] bootstrapAll start

@[simp] theorem booted_append (done more : List Op) : booted (done ++ more) = booted done ++ booted more :=
  List.filterMap_append

theorem booted_bootouts (gone rest : List String) : booted (bootouts gone rest) = rest := by
  induction rest generalizing gone with
  | nil => rfl
  | cons label rest ih =>
      have tail := ih (gone ++ [label])
      simpa [bootouts, save, booted] using tail

/-- What comes before an operation that depends on it. -/
structure Placed (services : Finset String) (done : List Op) (op : Op) : Prop where
  pause : op = .pause → done = []
  bootout : ∀ label, op = .bootout label → label ∈ services ∧ label ∉ booted done
  write : ∀ gone, op = .write gone → gone = booted done

theorem cut_append {xs ys front back : List Op} {op : Op} (shape : xs ++ ys = front ++ op :: back) :
    (∃ mid, xs = front ++ op :: mid) ∨ ∃ mid, front = xs ++ mid ∧ ys = mid ++ op :: back := by
  rcases List.append_eq_append_iff.mp shape with ⟨mid, eq, rest⟩ | ⟨mid, eq, rest⟩
  · exact .inr ⟨mid, eq, rest⟩
  · cases mid with
    | nil => exact .inr ⟨[], by simpa using eq.symm, by simpa using rest.symm⟩
    | cons first mid =>
        obtain ⟨rfl, -⟩ := List.cons.inj rest
        exact .inl ⟨mid, eq⟩

theorem bootouts_at {gone wanted : List String} (once : wanted.Nodup) {front back : List Op} {op : Op}
    (shape : bootouts gone wanted = front ++ op :: back) :
    op ≠ .pause ∧ (∀ label, op = .bootout label → label ∈ wanted ∧ label ∉ booted front) ∧
      ∀ stopped, op = .write stopped → stopped = gone ++ booted front := by
  induction wanted generalizing gone front with
  | nil => simp [bootouts] at shape
  | cons label rest ih =>
      obtain ⟨fresh, onceRest⟩ := List.nodup_cons.mp once
      have four : bootouts gone (label :: rest) = .bootout label :: .print label :: .truncate ::
          .write (gone ++ [label]) :: bootouts (gone ++ [label]) rest := rfl
      rw [four] at shape
      rcases front with _ | ⟨a, _ | ⟨b, _ | ⟨c, _ | ⟨d, front⟩⟩⟩⟩ <;>
        simp only [List.nil_append, List.cons_append, List.cons.injEq] at shape
      · obtain ⟨rfl, -⟩ := shape
        exact ⟨nofun, fun other eq => by cases eq; simp [booted], nofun⟩
      · obtain ⟨-, rfl, -⟩ := shape
        exact ⟨nofun, nofun, nofun⟩
      · obtain ⟨-, -, rfl, -⟩ := shape
        exact ⟨nofun, nofun, nofun⟩
      · obtain ⟨rfl, rfl, rfl, rfl, -⟩ := shape
        exact ⟨nofun, nofun, fun stopped eq => by cases eq; rfl⟩
      · obtain ⟨rfl, rfl, rfl, rfl, shape⟩ := shape
        obtain ⟨notPause, boots, writes⟩ := ih onceRest shape
        have before : booted (.bootout label :: .print label :: .truncate ::
            .write (gone ++ [label]) :: front) = label :: booted front := rfl
        rw [before]
        refine ⟨notPause, fun other eq => ?_, fun stopped eq => ?_⟩
        · obtain ⟨member, apart⟩ := boots other eq
          refine ⟨List.mem_cons_of_mem _ member, fun either => ?_⟩
          rcases List.mem_cons.mp either with rfl | early
          · exact fresh member
          · exact apart early
        · rw [writes stopped eq, List.append_assoc, List.singleton_append]

theorem stopOps_at {services : Finset String} {wanted : List String} (once : wanted.Nodup)
    (loaded : ∀ label ∈ wanted, label ∈ services) {front back : List Op} {op : Op}
    (shape : stopOps wanted = front ++ op :: back) : Placed services front op := by
  rw [stopOps, List.append_assoc, List.append_assoc] at shape
  rcases cut_append shape with ⟨mid, head⟩ | ⟨mid, rfl, later⟩
  · cases front with
    | nil =>
        obtain ⟨rfl, -⟩ := List.cons.inj head
        exact ⟨fun _ => rfl, nofun, nofun⟩
    | cons first front =>
        have member : op ∈ [Op.running, .list, .lsof, .ps] := by
          rw [(List.cons.inj head).2]
          exact List.mem_append_right _ List.mem_cons_self
        refine ⟨fun eq => ?_, fun label eq => ?_, fun gone eq => ?_⟩ <;> simp [eq] at member
  · have quiet : booted [.pause, .running, .list, .lsof, .ps] = [] := rfl
    rcases cut_append later with ⟨rest, body⟩ | ⟨mid, rfl, tail⟩
    · obtain ⟨notPause, boots, writes⟩ := bootouts_at once body
      refine ⟨fun eq => absurd eq notPause, fun label eq => ?_, fun gone eq => ?_⟩
      · obtain ⟨member, apart⟩ := boots label eq
        rw [booted_append, quiet, List.nil_append]
        exact ⟨loaded label member, apart⟩
      · rw [booted_append, quiet, writes gone eq]
    · rcases mid with _ | ⟨a, _ | ⟨b, _ | ⟨c, mid⟩⟩⟩ <;>
        simp only [save, List.nil_append, List.cons_append, List.cons.injEq] at tail
      · obtain ⟨rfl, -⟩ := tail
        exact ⟨nofun, nofun, nofun⟩
      · obtain ⟨rfl, rfl, -⟩ := tail
        refine ⟨nofun, nofun, fun gone eq => ?_⟩
        cases eq
        rw [booted_append, booted_append, quiet, booted_bootouts]
        exact (List.append_nil wanted).symm
      · obtain ⟨-, -, rfl, -⟩ := tail
        exact ⟨nofun, nofun, nofun⟩
      · simp at tail

/-! ## What a stop has done so far -/

theorem lastChange_of_changes {paused : Bool} (done : List Op) {op : Op}
    (changes : op.changes paused = true) : lastChange paused (done ++ [op]) = some op := by
  rw [lastChange, List.filter_append, List.filter_cons_of_pos changes, List.filter_nil,
    List.getLast?_concat]

theorem lastChange_of_keeps {paused : Bool} (done : List Op) {op : Op}
    (keeps : op.changes paused = false) :
    lastChange paused (done ++ [op]) = lastChange paused done := by
  rw [lastChange, List.filter_append, List.filter_cons_of_neg (by rw [keeps]; exact Bool.false_ne_true),
    List.filter_nil, List.append_nil, lastChange]

/-- What the last change says of the world. -/
def Tells (vol : String) (services : Finset String) (paused : Bool) (done : List Op) (w : World) :
    Option Op → Prop
  | none => w = ⟨services, paused, none⟩
  | some .pause => w.paused ≠ paused ∧ w.file = none
  | some (.bootout label) =>
      label ∈ services ∧ label ∉ w.services ∧
        ∀ saved, w.file = some (.saved saved) → label ∉ saved.stopped
  | some .truncate => w.file = some .torn
  | some (.write gone) => w.file = some (.saved ⟨vol, gone, paused⟩) ∧ gone = booted done
  | some _ => False

structure Held (vol : String) (services : Finset String) (paused : Bool) (done : List Op) (w : World) :
    Prop where
  left : w.services = services.filter (· ∉ booted done)
  loaded : ∀ label ∈ booted done, label ∈ services
  once : (booted done).Nodup
  pausedStill : paused = true → w.paused = true
  filed : ∀ saved, w.file = some (.saved saved) → ∀ label ∈ saved.stopped, label ∈ booted done
  tells : Tells vol services paused done w (lastChange paused done)

section

variable {m : Machine} {vol : String} {services : Finset String} {paused : Bool}

theorem held_nil : Held vol services paused [] ⟨services, paused, none⟩ where
  left := by simp [booted]
  loaded := nofun
  once := .nil
  pausedStill := id
  filed := nofun
  tells := rfl

/-- An operation that changes nothing. -/
theorem Held.quiet {done : List Op} {w : World} {op : Op} (held : Held vol services paused done w)
    (keeps : op.changes paused = false) (none : booted [op] = [])
    (same : perform vol paused w op = w) :
    Held vol services paused (done ++ [op]) (perform vol paused w op) := by
  have before : booted (done ++ [op]) = booted done := by rw [booted_append, none, List.append_nil]
  rw [same]
  refine ⟨before ▸ held.left, before ▸ held.loaded, before ▸ held.once, held.pausedStill,
    before ▸ held.filed, ?_⟩
  rw [lastChange_of_keeps done keeps]
  have tells := held.tells
  unfold Tells at tells ⊢
  rw [before]
  exact tells

theorem Held.step {done : List Op} {w : World} {op : Op} (held : Held vol services paused done w)
    (placed : Placed services done op) :
    Held vol services paused (done ++ [op]) (perform vol paused w op) := by
  cases op with
  | running | list | lsof | ps => exact held.quiet rfl rfl rfl
  | print label => exact held.quiet rfl rfl rfl
  | pause =>
      obtain rfl := placed.pause rfl
      have start : w = ⟨services, paused, none⟩ := held.tells
      subst start
      cases paused with
      | true => exact held.quiet rfl rfl rfl
      | false =>
          refine ⟨by simp [perform, booted], nofun, .nil, nofun, nofun, ?_⟩
          exact ⟨Bool.false_ne_true.symm, rfl⟩
  | bootout label =>
      obtain ⟨loaded, fresh⟩ := placed.bootout label rfl
      have before : booted (done ++ [.bootout label]) = booted done ++ [label] :=
        booted_append ..
      refine ⟨?_, ?_, ?_, held.pausedStill, ?_, ?_⟩
      · rw [before]
        ext other
        simp only [perform, held.left, Finset.mem_erase, Finset.mem_filter, List.mem_append,
          List.mem_singleton, not_or]
        tauto
      · rw [before]
        intro other member
        rcases List.mem_append.mp member with early | here
        · exact held.loaded other early
        · exact List.mem_singleton.mp here ▸ loaded
      · rw [before]
        exact List.nodup_append.mpr ⟨held.once, List.nodup_singleton label, fun a early b here eq =>
          fresh (List.mem_singleton.mp here ▸ eq ▸ early)⟩
      · rw [before]
        exact fun saved filed other member => List.mem_append_left _ (held.filed saved filed other member)
      · rw [lastChange_of_changes done rfl]
        exact ⟨loaded, Finset.notMem_erase label w.services, fun saved filed member =>
          fresh (held.filed saved filed label member)⟩
  | truncate =>
      have before : booted (done ++ [.truncate]) = booted done := by simp [booted]
      refine ⟨before ▸ held.left, before ▸ held.loaded, before ▸ held.once, held.pausedStill, nofun, ?_⟩
      rw [lastChange_of_changes done rfl]
      rfl
  | write gone =>
      have known : gone = booted done := placed.write gone rfl
      have before : booted (done ++ [.write gone]) = booted done := by simp [booted]
      refine ⟨before ▸ held.left, before ▸ held.loaded, before ▸ held.once, held.pausedStill, ?_, ?_⟩
      · intro saved filed label member
        cases filed
        rw [before, ← known]
        exact member
      · rw [lastChange_of_changes done rfl]
        exact ⟨rfl, known.trans before.symm⟩

theorem held_of_prefix {wanted : List String} (once : wanted.Nodup)
    (loaded : ∀ label ∈ wanted, label ∈ services) {done rest : List Op}
    (shape : stopOps wanted = done ++ rest) :
    Held vol services paused done (done.foldl (perform vol paused) ⟨services, paused, none⟩) := by
  induction done using List.reverseRecOn generalizing rest with
  | nil => exact held_nil
  | append_singleton done op ih =>
      rw [List.append_assoc, List.singleton_append] at shape
      rw [List.foldl_append, List.foldl_cons, List.foldl_nil]
      exact (ih shape).step (stopOps_at once loaded shape)

theorem mem_targets {label : String} (member : label ∈ targets m vol services) : label ∈ services := by
  have unit := (List.mem_filter.mp member).1
  rw [units, Dict.mem_sortedKeys] at unit
  exact (Finset.mem_filter.mp unit).1

theorem targets_once : (targets m vol services).Nodup :=
  (Dict.nodup_sortedKeys _).filter _

/-- The things a stop did before one raised. -/
def doneOps (m : Machine) (vol : String) (services : Finset String) (k : Nat) : List Op :=
  (stopOps (targets m vol services)).take k

theorem stopped_eq (k : Nat) : stopped m vol services paused k =
    (doneOps m vol services k).foldl (perform vol paused) ⟨services, paused, none⟩ := by
  rw [stopped, stop, if_neg (by simp)]
  dsimp only
  split <;> rfl

theorem held_stopped (k : Nat) :
    Held vol services paused (doneOps m vol services k) (stopped m vol services paused k) := by
  rw [stopped_eq]
  exact held_of_prefix targets_once (fun _ => mem_targets) (List.take_append_drop k _).symm

/-- A stop that does all it has to ends with a write. -/
theorem lastChange_stopOps (wanted : List String) :
    lastChange paused (stopOps wanted) = some (.write wanted) := by
  have shape : stopOps wanted = ([.pause, .running, .list, .lsof, .ps] ++ bootouts [] wanted ++
      [.truncate] ++ [.write wanted]) ++ [.lsof] := by
    simp [stopOps, save]
  rw [shape, lastChange_of_keeps _ rfl, lastChange_of_changes _ rfl]

/-- A stop that did not get to its last write raised. -/
theorem raised_of_unsettled {k : Nat} {op : Op}
    (last : lastChange paused (doneOps m vol services k) = some op) (other : ∀ gone, op ≠ .write gone) :
    ∃ why, (stop m vol ⟨services, paused, none⟩ k).1 = .error why := by
  rw [stop, if_neg (by simp)]
  dsimp only
  cases next : (stopOps (targets m vol services))[k]? with
  | some op => exact ⟨.raised op, rfl⟩
  | none =>
      have all : doneOps m vol services k = stopOps (targets m vol services) :=
        List.take_of_length_le (List.getElem?_eq_none_iff.mp next)
      rw [all, lastChange_stopOps] at last
      exact absurd (Option.some.inj last).symm (other _)

end

/-! ## What a start does -/

section

variable {a : Attempt}

theorem mem_bootstrapAll {services : Finset String} {gone : List String} {label : String} :
    label ∈ (bootstrapAll a services gone).1 ↔
      label ∈ services ∨ label ∈ gone ∧ label ∉ a.broken := by
  induction gone generalizing services with
  | nil => simp [bootstrapAll]
  | cons first rest ih =>
      rw [bootstrapAll]
      split
      next ok =>
        obtain ⟨-, sound⟩ := Bool.and_eq_true_iff.mp ok
        have whole : first ∉ a.broken := by simpa using sound
        rw [ih, Finset.mem_insert, List.mem_cons]
        constructor
        · rintro ((rfl | old) | ⟨later, loads⟩)
          · exact .inr ⟨.inl rfl, whole⟩
          · exact .inl old
          · exact .inr ⟨.inr later, loads⟩
        · rintro (old | ⟨rfl | later, loads⟩)
          · exact .inl (.inr old)
          · exact .inl (.inl rfl)
          · exact .inr ⟨later, loads⟩
      next refused =>
        have why : first ∈ services ∨ first ∈ a.broken := by
          by_contra neither
          rw [not_or] at neither
          exact refused (by simp [bootstraps, neither])
        rw [ih, List.mem_cons]
        constructor
        · rintro (old | ⟨later, loads⟩)
          · exact .inl old
          · exact .inr ⟨.inr later, loads⟩
        · rintro (old | ⟨rfl | later, loads⟩)
          · exact .inl old
          · exact .inl (why.resolve_right loads)
          · exact .inr ⟨later, loads⟩

/-- A label that is loaded, or whose service is broken, is refused. -/
theorem bootstrapAll_refuses {services : Finset String} {gone : List String} {label : String}
    (member : label ∈ gone) (why : label ∈ services ∨ label ∈ a.broken) :
    (bootstrapAll a services gone).2 ≠ [] := by
  induction gone generalizing services with
  | nil => cases member
  | cons first rest ih =>
      rw [bootstrapAll]
      split
      next ok =>
        obtain ⟨out, sound⟩ := Bool.and_eq_true_iff.mp ok
        rcases List.mem_cons.mp member with rfl | later
        · have apart : label ∉ services := by simpa using out
          have whole : label ∉ a.broken := by simpa using sound
          exact (why.elim apart whole).elim
        · exact ih later (why.imp_left Finset.mem_insert_of_mem)
      next => exact List.cons_ne_nil _ _

theorem bootstrapAll_loads {services : Finset String} {gone : List String} (once : gone.Nodup)
    (each : ∀ label ∈ gone, label ∉ services ∧ label ∉ a.broken) :
    (bootstrapAll a services gone).2 = [] := by
  induction gone generalizing services with
  | nil => rfl
  | cons first rest ih =>
      obtain ⟨fresh, onceRest⟩ := List.nodup_cons.mp once
      obtain ⟨here, others⟩ := List.forall_mem_cons.mp each
      rw [bootstrapAll, if_pos (by simp [bootstraps, here])]
      refine ih onceRest fun label member => ⟨fun loaded => ?_, (others label member).2⟩
      rcases Finset.mem_insert.mp loaded with rfl | old
      · exact fresh member
      · exact (others label member).1 old

/-- What is gone is on file, and nothing of it has been loaded since. -/
structure Waits (vol : String) (services : Finset String) (paused : Bool) (gone : List String)
    (w : World) : Prop where
  file : w.file = some (.saved ⟨vol, gone, paused⟩)
  left : w.services = services.filter (· ∉ gone)
  loaded : ∀ label ∈ gone, label ∈ services
  once : gone.Nodup
  pausedStill : paused = true → w.paused = true

/-- A label on file is loaded. -/
def Stuck (w : World) : Prop :=
  ∃ saved, w.file = some (.saved saved) ∧ ∃ label ∈ saved.stopped, label ∈ w.services

variable {vol : String} {services : Finset String} {paused : Bool} {gone : List String} {w : World}

theorem start_of_none (absent : w.file = none) : (start w a).2 = w := by
  rw [start, absent]

theorem start_of_torn (torn : w.file = some .torn) : start w a = (.error .unreadable, w) := by
  rw [start, torn]

theorem start_away {saved : Saved} (file : w.file = some (.saved saved)) (away : a.mounted = false) :
    start w a = (.error (.notMounted saved.volume), w) := by
  rw [start, file, away]
  rfl

theorem start_refused {saved : Saved} (file : w.file = some (.saved saved)) (here : a.mounted = true)
    (refused : (bootstrapAll a w.services saved.stopped).2 ≠ []) :
    start w a = (.error (.couldNotLoad (bootstrapAll a w.services saved.stopped).2),
      { w with services := (bootstrapAll a w.services saved.stopped).1 }) := by
  rw [start, file, here]
  exact if_pos refused

theorem start_loaded {saved : Saved} (file : w.file = some (.saved saved)) (here : a.mounted = true)
    (loaded : (bootstrapAll a w.services saved.stopped).2 = []) :
    start w a = (.ok ⟨saved.volume, saved.stopped, !saved.wasPaused⟩,
      ⟨(bootstrapAll a w.services saved.stopped).1, if saved.wasPaused then w.paused else false,
        none⟩) := by
  rw [start, file, here]
  exact if_neg (not_not_intro loaded)

theorem Waits.idle (waits : Waits vol services paused gone w) (idle : a.idle gone = true) :
    (start w a).2 = w := by
  cases here : a.mounted with
  | false => rw [start_away waits.file here]
  | true =>
      rw [Attempt.idle, here] at idle
      obtain ⟨some_, broken⟩ := Bool.and_eq_true_iff.mp idle
      have each : ∀ label ∈ gone, label ∈ a.broken := by simpa using broken
      obtain ⟨label, member⟩ := List.exists_mem_of_ne_nil gone (by simpa using some_)
      rw [start_refused waits.file here (bootstrapAll_refuses member (.inr (each label member)))]
      have same : (bootstrapAll a w.services gone).1 = w.services := by
        ext other
        rw [mem_bootstrapAll]
        exact ⟨fun either => either.elim id fun both => absurd (each other both.1) both.2, .inl⟩
      rw [same]

/-- A start that meets no broken service puts everything back. -/
theorem Waits.whole (waits : Waits vol services paused gone w) (here : a.mounted = true)
    (sound : ∀ label ∈ gone, label ∉ a.broken) :
    start w a = (.ok ⟨vol, gone, !paused⟩, ⟨services, paused, none⟩) := by
  have out : ∀ label ∈ gone, label ∉ w.services := by
    intro label member loaded
    rw [waits.left, Finset.mem_filter] at loaded
    exact loaded.2 member
  have all := bootstrapAll_loads waits.once fun label member => ⟨out label member, sound label member⟩
  rw [start_loaded waits.file here all]
  have back : (bootstrapAll a w.services gone).1 = services := by
    ext label
    rw [mem_bootstrapAll, waits.left, Finset.mem_filter]
    constructor
    · rintro (⟨old, -⟩ | ⟨member, -⟩)
      · exact old
      · exact waits.loaded label member
    · intro old
      by_cases member : label ∈ gone
      · exact .inr ⟨member, sound label member⟩
      · exact .inl ⟨old, member⟩
  have flag : (if paused then w.paused else false) = paused := by
    cases paused with
    | true => exact waits.pausedStill rfl
    | false => rfl
  rw [back, flag]

/-- A start that loads one service and is refused another leaves a label loaded that is on file. -/
theorem Waits.mixed (waits : Waits vol services paused gone w) (works : a.idle gone = false)
    {label : String} (member : label ∈ gone) (broken : label ∈ a.broken) : Stuck (start w a).2 := by
  rw [Attempt.idle, Bool.or_eq_false_iff] at works
  have here : a.mounted = true := by simpa using works.1
  have some_ : gone ≠ [] := List.ne_nil_of_mem member
  obtain ⟨other, inside, sound⟩ : ∃ other ∈ gone, other ∉ a.broken := by simpa [some_] using works.2
  rw [start_refused waits.file here (bootstrapAll_refuses member (.inr broken))]
  exact ⟨_, waits.file, other, inside, mem_bootstrapAll.mpr (.inr ⟨inside, sound⟩)⟩

theorem Stuck.start (stuck : Stuck w) (a : Attempt) :
    Stuck (Volume.start w a).2 ∧ ∀ got, (Volume.start w a).1 ≠ .ok got := by
  obtain ⟨saved, file, label, member, loaded⟩ := stuck
  cases here : a.mounted with
  | false =>
      rw [start_away file here]
      exact ⟨⟨saved, file, label, member, loaded⟩, nofun⟩
  | true =>
      rw [start_refused file here (bootstrapAll_refuses member (.inl loaded))]
      exact ⟨⟨saved, file, label, member, mem_bootstrapAll.mpr (.inl loaded)⟩, nofun⟩

theorem Stuck.restarted (stuck : Stuck w) (attempts : List Attempt) :
    Stuck (Volume.restarted w attempts) := by
  induction attempts generalizing w with
  | nil => exact stuck
  | cons a rest ih => exact ih (stuck.start a).1

theorem restarted_of_fixed (fixed : ∀ a, (start w a).2 = w) (attempts : List Attempt) :
    restarted w attempts = w := by
  induction attempts with
  | nil => rfl
  | cons a rest ih =>
      rw [restarted, List.foldl_cons, fixed a]
      exact ih

/-- Starts that are each idle until one that loads everything leave all still gone, or all back. -/
theorem Waits.restarted (waits : Waits vol services paused gone w) {attempts : List Attempt}
    (whole : WholeStart gone attempts) :
    Waits vol services paused gone (Volume.restarted w attempts) ∨
      Volume.restarted w attempts = ⟨services, paused, none⟩ := by
  induction attempts with
  | nil => exact .inl waits
  | cons a rest ih =>
      rw [Volume.restarted, List.foldl_cons]
      cases idle : a.idle gone with
      | true =>
          rw [waits.idle idle]
          exact ih fun b first => whole b (by rw [List.find?_cons_of_neg (by simp [idle]), first])
      | false =>
          have sound := whole a (List.find?_cons_of_pos (by simp [idle]))
          have here : a.mounted = true := by
            rw [Attempt.idle, Bool.or_eq_false_iff] at idle
            simpa using idle.1
          rw [waits.whole here sound]
          exact .inr (restarted_of_fixed (fun b => start_of_none rfl) rest)

theorem Waits.stuck (waits : Waits vol services paused gone w) {attempts : List Attempt}
    (broken : ¬ WholeStart gone attempts) : Stuck (Volume.restarted w attempts) := by
  induction attempts with
  | nil => exact absurd nofun broken
  | cons a rest ih =>
      rw [Volume.restarted, List.foldl_cons]
      cases idle : a.idle gone with
      | true =>
          rw [waits.idle idle]
          refine ih fun whole => broken fun b first => whole b ?_
          rwa [List.find?_cons_of_neg (by simp [idle])] at first
      | false =>
          have refused : ¬ ∀ label ∈ gone, label ∉ a.broken := fun sound => broken fun b first => by
            rw [List.find?_cons_of_pos (by simp [idle])] at first
            exact Option.some.inj first ▸ sound
          push Not at refused
          obtain ⟨label, member, broken⟩ := refused
          exact (waits.mixed idle member broken).restarted rest

end

/-! ## The whole of it -/

section

variable {m : Machine} {vol : String} {services : Finset String} {paused : Bool} {k : Nat}
  {attempts : List Attempt}

theorem waits_of_write {done : List Op} {w : World} {gone : List String}
    (held : Held vol services paused done w) (last : lastChange paused done = some (.write gone)) :
    Waits vol services paused gone w := by
  have tells := held.tells
  rw [last] at tells
  obtain ⟨file, rfl⟩ := tells
  exact ⟨file, held.left, held.loaded, held.once, held.pausedStill⟩

/-- Once the file says what is gone, all that can still go wrong is a start that loads some of it. -/
theorem Waits.recovers_iff_whole {gone : List String}
    (waits : Waits vol services paused gone (stopped m vol services paused k)) :
    Recovers m vol services paused k attempts ↔ WholeStart gone attempts := by
  constructor
  · intro recovers
    by_contra broken
    have stuck := waits.stuck broken
    have filed : (Volume.restarted (stopped m vol services paused k) attempts).file ≠ none := by
      obtain ⟨saved, file, -⟩ := stuck
      rw [file]
      exact Option.some_ne_none _
    obtain ⟨got, ok⟩ := recovers.restarts filed
    exact (stuck.start {}).2 got ok
  · intro whole
    have records : Records ⟨vol, gone, paused⟩ services paused (stopped m vol services paused k) := by
      refine ⟨rfl, fun label => ?_⟩
      rw [waits.left, Finset.mem_filter]
      constructor
      · intro old
        by_cases member : label ∈ gone
        · exact .inr member
        · exact .inl ⟨old, member⟩
      · rintro (⟨old, -⟩ | member)
        · exact old
        · exact waits.loaded label member
    have fine : ∀ label ∈ gone, label ∉ ({} : Attempt).broken := fun _ _ => List.not_mem_nil
    refine ⟨fun _ _ => .inr ⟨_, waits.file, records⟩, ?_, ?_⟩
    · rcases waits.restarted whole with still | back
      · rw [still.whole rfl fine]
        exact fun _ => ⟨_, rfl⟩
      · rw [back]
        exact fun file => absurd rfl file
    · rcases waits.restarted whole with still | back
      · rw [still.whole rfl fine]
        exact ⟨rfl, rfl⟩
      · rw [back, start_of_none rfl]
        exact ⟨rfl, rfl⟩

theorem not_recovers_of_unsettled {op : Op}
    (last : lastChange paused (doneOps m vol services k) = some op) (other : ∀ gone, op ≠ .write gone) :
    ¬ Recovers m vol services paused k attempts := by
  intro recovers
  have tells := (@held_stopped m vol services paused k).tells
  rw [last] at tells
  obtain ⟨why, raised⟩ := raised_of_unsettled last other
  have left := recovers.raised why raised
  cases op with
  | running | list | lsof | ps | print => exact tells
  | write gone => exact other gone rfl
  | pause =>
      obtain ⟨moved, absent⟩ := tells
      rcases left with ⟨-, same⟩ | ⟨saved, file, -⟩
      · exact moved same
      · rw [absent] at file
        cases file
  | bootout label =>
      obtain ⟨loaded, gone, unsaid⟩ := tells
      rcases left with ⟨same, -⟩ | ⟨saved, file, -, records⟩
      · rw [same] at gone
        exact gone loaded
      · exact ((records label).mp loaded).elim gone (unsaid saved file)
  | truncate =>
      have fixed := restarted_of_fixed (fun a => by rw [start_of_torn tells]) attempts
      obtain ⟨got, ok⟩ := recovers.restarts (by rw [fixed, tells]; exact Option.some_ne_none _)
      rw [fixed, start_of_torn tells] at ok
      cases ok

end

/-- Everything is recovered exactly where the stop, if it raised, had written what it had changed,
    and the first start that loads any of the services it stopped loads them all. -/
theorem recovers_iff (m : Machine) (vol : String) (services : Finset String) (paused : Bool) (k : Nat)
    (attempts : List Attempt) :
    Recovers m vol services paused k attempts ↔
      Settled paused (doneOps m vol services k) ∧
        ∀ saved, (stopped m vol services paused k).file = some (.saved saved) →
          WholeStart saved.stopped attempts := by
  have held := @held_stopped m vol services paused k
  cases last : lastChange paused (doneOps m vol services k) with
  | none =>
      have same : stopped m vol services paused k = ⟨services, paused, none⟩ := by
        have tells := held.tells
        rwa [last] at tells
      have fixed : restarted ⟨services, paused, none⟩ attempts = ⟨services, paused, none⟩ :=
        restarted_of_fixed (fun a => start_of_none rfl) attempts
      refine iff_of_true ⟨fun _ _ => .inl ?_, ?_, ?_⟩ ⟨fun op some_ => ?_, fun saved file => ?_⟩
      · rw [same]
        exact ⟨rfl, rfl⟩
      · rw [same, fixed]
        exact fun file => absurd rfl file
      · rw [same, fixed, start_of_none rfl]
        exact ⟨rfl, rfl⟩
      · rw [last] at some_
        cases some_
      · rw [same] at file
        cases file
  | some op =>
      by_cases write : ∃ gone, op = .write gone
      · obtain ⟨gone, rfl⟩ := write
        have waits := waits_of_write held last
        rw [waits.recovers_iff_whole]
        constructor
        · intro whole
          refine ⟨fun op some_ => ⟨gone, Option.some.inj (some_.symm.trans last)⟩, fun saved file => ?_⟩
          rw [waits.file] at file
          cases file
          exact whole
        · exact fun both => both.2 _ waits.file
      · have other : ∀ gone, op ≠ .write gone := fun gone eq => write ⟨gone, eq⟩
        refine iff_of_false (not_recovers_of_unsettled last other) fun both => ?_
        exact write (both.1 op last)

/-! ## Two that are not recovered -/

/-- Two services that are stopped even when idle. -/
def readers : Finset String :=
  {PREFIX ++ ".mlx", PREFIX ++ ".tts"}

/-- `lsof` raises once the running queue is paused, and it stays paused though nothing says so; a
    start loads one service and fails on the other, and no later start succeeds. -/
theorem paused_and_loaded_twice :
    ¬ Recovers {} "/Volumes/FAST" readers false 3 [] ∧
      ¬ Recovers {} "/Volumes/FAST" readers false 16 [{ broken := [PREFIX ++ ".tts"] }] := by
  constructor
  · intro recovers
    have lost := recovers.restored.2
    revert lost
    decide
  · intro recovers
    have filed : (restarted (stopped {} "/Volumes/FAST" readers false 16)
        [{ broken := [PREFIX ++ ".tts"] }]).file ≠ none := by decide
    obtain ⟨got, ok⟩ := recovers.restarts filed
    have refused : (start (restarted (stopped {} "/Volumes/FAST" readers false 16)
        [{ broken := [PREFIX ++ ".tts"] }]) {}).1.toBool = false := by decide
    rw [ok] at refused
    cases refused

end LocalHarness.Volume
