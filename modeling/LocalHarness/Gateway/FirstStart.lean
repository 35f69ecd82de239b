import LocalHarness.Gateway.Key

/-! # The first starts on a machine

While one call is on its way to a key, no other has read a store without one, so there is one
key to return. A second call that does read it so generates a key of its own, and the two write
and rename one file.
-/

namespace LocalHarness.Gateway

open LocalHarness.Library LocalHarness.Runs

/-! ## A key as it is written and read -/

theorem urlSafe_not_space {c : Char} (safe : c.isAlphanum ∨ c = '-' ∨ c = '_') :
    Text.isSpace c = false := by
  rcases safe with alnum | rfl | rfl
  · exact Text.not_space_of_alphanum alnum
  · decide
  · decide

/-- A key that a file can hold: there is something to it, and no space in it. -/
structure Solid (key : String) : Prop where
  some_ : key ≠ ""
  clean : ∀ c ∈ key.toList, Text.isSpace c = false

theorem Solid.strip_line {key : String} (solid : Solid key) :
    Text.strip (.ofList (key.toList ++ ['\n'])) = key := by
  rw [Text.strip_append_space (List.all_eq_true.mp (by decide)), String.ofList_toList]
  apply Text.strip_of_ends
  · exact fun c first => solid.clean c (List.mem_of_head? first)
  · exact fun c last => solid.clean c (List.mem_of_getLast? last)

theorem solid_generate (secrets : Secrets) (call : Nat) : Solid (secrets.generate call) where
  some_ := by
    have letters : (secrets.generate call).toList ≠ [] := by
      rw [Secrets.generate, String.toList_ofList]
      exact List.append_ne_nil_of_left_ne_nil (by decide) _
    exact fun none => letters ((congrArg String.toList none).trans String.toList_empty)
  clean := by
    intro c member
    rw [Secrets.generate, String.toList_ofList] at member
    rcases List.mem_append.mp member with head | token
    · have letters : ("sk-".toList.all fun c => !Text.isSpace c) = true := by decide
      simpa using List.all_eq_true.mp letters c head
    · exact urlSafe_not_space (secrets.urlSafe call c token)

/-! ## What a call knows of the store -/

/-- What the disk holds for a call as far as it is, while it alone is on its way to a key. -/
def Right (d : Disk) : Phase → Prop
  | .started | .raised => True
  | .missing => d.get = ""
  | .generated key => d.get = "" ∧ Solid key
  | .opened key file => d.get = "" ∧ Solid key ∧ d.tmp = some file ∧ d.text file = []
  | .written key | .hidden key =>
      d.get = "" ∧ Solid key ∧ ∃ file, d.tmp = some file ∧ d.text file = key.toList ++ ['\n']
  | .replaced key | .returned key => d.get = key ∧ key ≠ ""

theorem Right.empty {d : Disk} {phase : Phase} (right : Right d phase)
    (creating : phase.creating = true) : d.get = "" := by
  cases phase with
  | missing => exact right
  | generated | opened | written | hidden => exact right.1
  | started | replaced | returned | raised => cases creating

/-- A call that is not on its way to a key and has none knows nothing of the store. -/
theorem Right.of_empty {d d' : Disk} {phase : Phase} (right : Right d phase) (empty : d.get = "")
    (idle : phase.creating = false) : Right d' phase := by
  cases phase with
  | started | raised => trivial
  | missing | generated | opened | written | hidden => cases idle
  | replaced key | returned key => exact absurd (right.1.symm.trans empty) right.2

structure Sound (w : World) : Prop where
  named : w.disk.Named
  right : ∀ (call : Nat) (phase : Phase), w.calls[call]? = some phase → Right w.disk phase
  alone : ∀ (call call' : Nat) (phase phase' : Phase), w.calls[call]? = some phase → w.calls[call']? = some phase' →
    phase.creating = true → phase'.creating = true → call = call'

/-! ## The files -/

theorem Disk.get_of_path {d : Disk} {file : Nat} (here : d.path = some file) :
    d.get = Text.strip (.ofList (d.text file)) := by
  rw [Disk.get, here, Option.map_some, Option.getD_some]

theorem Disk.get_congr {d d' : Disk} (path : d'.path = d.path)
    (text : ∀ file, d.path = some file → d'.text file = d.text file) : d'.get = d.get := by
  rw [Disk.get, Disk.get, path]
  cases named : d.path with
  | none => rw [Option.map_none, Option.map_none]
  | some file => rw [Option.map_some, Option.map_some, text file named]

theorem Disk.text_set {d : Disk} {file : Nat} (known : file < d.files.length) (cs : List Char) :
    ({ d with files := d.files.set file cs } : Disk).text file = cs := by
  rw [Disk.text, List.getElem?_set_self known, Option.getD_some]

theorem Disk.text_set_ne {d : Disk} {file other : Nat} (apart : other ≠ file) (cs : List Char) :
    ({ d with files := d.files.set file cs } : Disk).text other = d.text other := by
  rw [Disk.text, List.getElem?_set_ne (Ne.symm apart), Disk.text]

/-- A file under the second name may be set to anything; the key is another file. -/
theorem Disk.Named.set {d : Disk} (named : d.Named) {file : Nat} (here : d.tmp = some file)
    (cs : List Char) :
    ({ d with files := d.files.set file cs } : Disk).Named ∧
      ({ d with files := d.files.set file cs } : Disk).get = d.get := by
  constructor
  · refine ⟨fun other found => ?_, fun other found => ?_, named.apart⟩
    · rw [List.length_set]
      exact named.tmp other found
    · rw [List.length_set]
      exact named.path other found
  · refine Disk.get_congr ?_ fun other found => ?_
    · rfl
    · apply Disk.text_set_ne
      rintro rfl
      exact named.apart other here found

theorem Disk.openTmp_spec {d : Disk} (named : d.Named) :
    d.openTmp.1.Named ∧ d.openTmp.1.get = d.get ∧ d.openTmp.1.tmp = some d.openTmp.2 ∧
      d.openTmp.1.text d.openTmp.2 = [] := by
  unfold Disk.openTmp
  split
  next file here =>
    obtain ⟨kept, same⟩ := named.set here []
    exact ⟨kept, same, here, Disk.text_set (named.tmp file here) []⟩
  next none =>
    refine ⟨⟨?_, ?_, ?_⟩, ?_, rfl, ?_⟩
    · rintro file found
      cases found
      simp
    · intro file found
      rw [List.length_append]
      exact Nat.lt_add_right _ (named.path file found)
    · rintro file found same
      cases found
      exact absurd (named.path _ same) (Nat.lt_irrefl _)
    · refine Disk.get_congr ?_ fun file found => ?_
      · rfl
      · rw [Disk.text, List.getElem?_append_left (named.path file found), Disk.text]
    · simp [Disk.text]

theorem Disk.write_spec {d : Disk} (line : List Char) (named : d.Named) {file : Nat}
    (here : d.tmp = some file) (empty : d.text file = []) :
    (d.write file line).Named ∧ (d.write file line).get = d.get ∧
      (d.write file line).tmp = some file ∧ (d.write file line).text file = line := by
  unfold Disk.write
  rw [empty, List.drop_nil, List.append_nil]
  obtain ⟨kept, same⟩ := named.set here line
  exact ⟨kept, same, here, Disk.text_set (named.tmp file here) line⟩

/-- The second file becomes the key. -/
theorem Disk.replace_spec {d : Disk} (named : d.Named) {key : String} (solid : Solid key) {file : Nat}
    (here : d.tmp = some file) (written : d.text file = key.toList ++ ['\n']) :
    ({ d with tmp := none, path := d.tmp } : Disk).Named ∧
      ({ d with tmp := none, path := d.tmp } : Disk).get = key := by
  constructor
  · refine ⟨nofun, named.tmp, nofun⟩
  · have moved : ({ d with tmp := none, path := d.tmp } : Disk).get =
        Text.strip (.ofList (d.text file)) :=
      Disk.get_of_path here
    rw [moved, written]
    exact solid.strip_line

/-! ## What a step keeps -/

/-- A step of a call that is right about the store leaves it so, changes what the store holds only
    by a key put where there was none, and sets out for a key only from a store without one. -/
structure Advanced (d : Disk) (phase : Phase) (d' : Disk) (phase' : Phase) : Prop where
  named : d'.Named
  right : Right d' phase'
  disk : d' = d ∨ phase.creating = true
  set_out : phase'.creating = true → phase.creating = true ∨ phase = .started ∧ d.get = ""

theorem advance_right {secrets : Secrets} {call : Nat} {d d' : Disk} {phase phase' : Phase}
    (named : d.Named) (right : Right d phase)
    (stepped : advance secrets call d phase = some (d', phase')) : Advanced d phase d' phase' := by
  cases phase with
  | started =>
      obtain ⟨rfl, rfl⟩ := Prod.mk.inj (Option.some.inj stepped)
      split
      next empty => exact ⟨named, empty, .inl rfl, fun _ => .inr ⟨rfl, empty⟩⟩
      next some_ => exact ⟨named, ⟨rfl, some_⟩, .inl rfl, nofun⟩
  | missing =>
      obtain ⟨rfl, rfl⟩ := Prod.mk.inj (Option.some.inj stepped)
      exact ⟨named, ⟨right, solid_generate secrets call⟩, .inl rfl, fun _ => .inl rfl⟩
  | generated key =>
      obtain ⟨rfl, rfl⟩ := Prod.mk.inj (Option.some.inj stepped)
      obtain ⟨kept, same, here, empty⟩ := Disk.openTmp_spec named
      exact ⟨kept, ⟨same.trans right.1, right.2, here, empty⟩, .inr rfl, fun _ => .inl rfl⟩
  | opened key file =>
      obtain ⟨rfl, rfl⟩ := Prod.mk.inj (Option.some.inj stepped)
      obtain ⟨none, solid, here, empty⟩ := right
      obtain ⟨kept, same, there, text⟩ := Disk.write_spec (key.toList ++ ['\n']) named here empty
      exact ⟨kept, ⟨same.trans none, solid, file, there, text⟩, .inr rfl, fun _ => .inl rfl⟩
  | written key =>
      obtain ⟨rfl, rfl⟩ := Prod.mk.inj (Option.some.inj stepped)
      obtain ⟨none, solid, file, here, text⟩ := right
      rw [here]
      exact ⟨named, ⟨none, solid, file, here, text⟩, .inl rfl, fun _ => .inl rfl⟩
  | hidden key =>
      obtain ⟨none, solid, file, here, text⟩ := right
      obtain ⟨kept, stored⟩ := Disk.replace_spec named solid here text
      have stepped := Option.some.inj stepped
      rw [if_pos (by rw [here]; rfl)] at stepped
      obtain ⟨rfl, rfl⟩ := Prod.mk.inj stepped
      exact ⟨kept, ⟨stored, solid.some_⟩, .inr rfl, nofun⟩
  | replaced key =>
      obtain ⟨rfl, rfl⟩ := Prod.mk.inj (Option.some.inj stepped)
      exact ⟨named, right, .inl rfl, nofun⟩
  | returned | raised => cases stepped

theorem Sound.advanced {w : World} (sound : Sound w) {call : Nat} {phase phase' : Phase} {d' : Disk}
    (found : w.calls[call]? = some phase) (moved : Advanced w.disk phase d' phase')
    (alone : phase'.creating = true → phase = .started → w.disk.get = "" →
      ∀ other ∈ w.calls, other.creating = false) :
    Sound { disk := d', calls := w.calls.set call phase' } := by
  have others : ∀ (other : Nat) (there : Phase), other ≠ call →
      (w.calls.set call phase')[other]? = some there → w.calls[other]? = some there := by
    intro other there apart held
    rwa [List.getElem?_set_ne (Ne.symm apart)] at held
  have own : ∀ there : Phase, (w.calls.set call phase')[call]? = some there → there = phase' := by
    intro there held
    obtain ⟨within, -⟩ := List.getElem?_eq_some_iff.mp found
    rw [List.getElem?_set_self within] at held
    exact (Option.some.inj held).symm
  -- A call that is on its way to a key is the only one that is.
  have only : phase'.creating = true → ∀ (other : Nat) (there : Phase), other ≠ call →
      w.calls[other]? = some there → there.creating = false := by
    intro creating other there apart held
    rcases moved.set_out creating with before | ⟨started, empty⟩
    · by_contra both
      exact apart (sound.alone other call there phase held found (by simpa using both) before)
    · exact alone creating started empty there (List.mem_of_getElem? held)
  refine ⟨moved.named, fun other there held => ?_, fun one two there there' held held' on on' => ?_⟩
  · by_cases same : other = call
    · subst same
      exact own there held ▸ moved.right
    · have before := others other there same held
      have right := sound.right other there before
      rcases moved.disk with kept | creating
      · exact kept ▸ right
      · refine right.of_empty ((sound.right call phase found).empty creating) ?_
        by_contra both
        exact same (sound.alone other call there phase before found (by simpa using both) creating)
  · by_cases same : one = call
    · by_cases same' : two = call
      · exact same.trans same'.symm
      · subst same
        have idle := only (own there held ▸ on) two there' same' (others two there' same' held')
        exact absurd (on'.symm.trans idle) (by decide)
    · by_cases same' : two = call
      · subst same'
        have idle := only (own there' held' ▸ on') one there same (others one there same held)
        exact absurd (on.symm.trans idle) (by decide)
      · exact sound.alone one two there there' (others one there same held)
          (others two there' same' held') on on'

theorem Sound.step {secrets : Secrets} {w w' : World} {e : Event} (sound : Sound w)
    (alone : Alone w e) (stepped : step secrets w e = some w') : Sound w' := by
  cases e with
  | go call =>
      obtain ⟨phase, found, stepped⟩ := Option.bind_eq_some_iff.mp stepped
      obtain ⟨⟨d', phase'⟩, moved, rfl⟩ := Option.map_eq_some_iff.mp stepped
      exact sound.advanced found (advance_right sound.named (sound.right call phase found) moved)
        fun _ started => alone (started ▸ found)
  | fail call =>
      obtain ⟨phase, found, stepped⟩ := Option.bind_eq_some_iff.mp stepped
      obtain ⟨⟨d', phase'⟩, moved, rfl⟩ := Option.map_eq_some_iff.mp stepped
      have raised : Advanced w.disk phase w.disk .raised := ⟨sound.named, trivial, .inl rfl, nofun⟩
      exact sound.advanced found raised nofun

theorem sound_invariant (secrets : Secrets) : (system secrets).InvariantWhen Alone Sound where
  start := by
    rintro w ⟨named, -, fresh⟩
    have started : ∀ (call : Nat) (phase : Phase), w.calls[call]? = some phase → phase = .started :=
      fun call phase found => fresh phase (List.mem_of_getElem? found)
    refine ⟨named, fun call phase found => ?_, fun call call' phase phase' found _ on _ => ?_⟩
    · rw [started call phase found]
      trivial
    · rw [started call phase found] at on
      cases on
  step := fun _ _ _ sound alone stepped => sound.step alone stepped

theorem Sound.agreed {w : World} (sound : Sound w) : Agreed w := by
  have stored : ∀ key, .returned key ∈ w.calls → w.disk.get = key := by
    intro key member
    obtain ⟨call, found⟩ := List.getElem?_of_mem member
    exact (sound.right call _ found).1
  exact ⟨fun key key' member member' => (stored key member).symm.trans (stored key' member'), stored⟩

/-- In every state of a run in which no call finds the store without a key while another is on its
    way to one, every call that returned returned the one key that the store holds. -/
theorem ensure_agrees (secrets : Secrets) {w : World}
    (reached : (system secrets).ReachableWhen Alone w) : Agreed w :=
  ((sound_invariant secrets).holds reached).agreed

/-- Tokens that tell the calls apart by their length. -/
def byLength : Secrets where
  token := fun call => List.replicate call 'a'
  urlSafe := fun call c member => .inl (List.eq_of_mem_replicate member ▸ by decide)
  distinct := fun call call' same => by
    have lengths := congrArg List.length same
    simpa using lengths

def twoCalls : World where
  disk := ⟨[], none, none⟩
  calls := [.started, .started]

theorem twoCalls_start : (system byLength).start twoCalls :=
  ⟨⟨nofun, nofun, nofun⟩, by decide, by decide⟩

/-- The second call starts once the first has put its key in place. -/
theorem ensure_agrees_in_turn :
    ∃ w, (system byLength).run twoCalls (List.replicate 7 (.go 0) ++ [.go 1]) = some w ∧
      Agreed w ∧ w.calls = [.returned "sk-", .returned "sk-"] := by
  obtain ⟨w, ran, reached, ends⟩ := System.reached_by_run
    (fun w : World => decide (w.calls = [.returned "sk-", .returned "sk-"])) twoCalls_start
    (show (system byLength).Meets Alone twoCalls (List.replicate 7 (.go 0) ++ [.go 1]) by
      decide)
    (by decide)
  exact ⟨w, ran, ensure_agrees byLength reached, of_decide_eq_true ends⟩

/-- Two first starts read the store before either has written it, and return two keys. -/
theorem first_starts_differ :
    ∃ w, (system byLength).Reachable w ∧ w.calls = [.returned "sk-", .returned "sk-a"] ∧
      w.disk.get = "sk-a" ∧ ¬ Agreed w := by
  obtain ⟨w, -, reached, ends⟩ := System.reached_by_run
    (fun w : World => decide (w.calls = [.returned "sk-", .returned "sk-a"] ∧ w.disk.get = "sk-a"))
    twoCalls_start
    (System.meets_true twoCalls ([.go 0, .go 1] ++ List.replicate 6 (.go 0) ++
      List.replicate 6 (.go 1)))
    (by decide)
  obtain ⟨calls, stored⟩ := of_decide_eq_true ends
  refine ⟨w, reached, calls, stored, fun agreed => ?_⟩
  have same := agreed.same "sk-" "sk-a" (by rw [calls]; decide) (by rw [calls]; decide)
  exact absurd same (by decide)

end LocalHarness.Gateway
