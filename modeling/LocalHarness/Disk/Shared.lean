import LocalHarness.Disk.Inventory

/-! # Weights that several proposals share

An entry is judged by one of the verdicts of its proposals, the newest. What the others' say is lost with it.
-/

namespace LocalHarness.Disk

open LocalHarness.Library LocalHarness.MemoryStore

section

variable (r : Records) (t : Tree)

/-- A proposal that a download row of the weights names: the row of their path, of a link into their directory,
or of a link to their file. -/
inductive Linked (e : Entry) (pid : Nat) : Prop
  | own (row : Download) (here : row ∈ r.rows) (path : row.path = e.seen.key) (names : row.proposalId = some pid)
  | link (row : Download) (here : row ∈ r.rows) (file : Seen) (into : file ∈ e.links) (path : row.path = file.key)
      (names : row.proposalId = some pid)
  | alias_ (row : Download) (here : row ∈ r.rows) (file : Seen) (seen : file ∈ t.files) (gguf : e.kind = .gguf)
      (linked : file.link ≠ none) (same : file.real = e.seen.real) (path : row.path = file.key)
      (names : row.proposalId = some pid)

/-- The proposal is measured, or waits. -/
def Live (pid : Nat) : Prop :=
  ∃ p outcome, r.store.proposals.find? pid = some p ∧ p.state = some outcome ∧
    (outcome = .measured ∨ outcome ∈ waypoints)

end

/-- The newest verdict lets an entry go. -/
inductive Due (now : ℚ) : Group → Option Latest → Prop
  | rejected (v : Latest) (outcome : Outcome) (says_ : v.outcome = some outcome) (against : outcome ∈ REJECTIONS)
      (fetched : v.tier ∈ FETCHED_TIERS) (old : GRACE_SECONDS ≤ now - v.decidedAt) : Due now .rejected (some v)
  | unknown (last : Option Latest) (nothing : (group_of last).1 = .unknown) : Due now .unknown last

variable (lower : Lower) (r : Records) (t : Tree) (k : Keepers) (now : ℚ) (wanted : Group)

/-- What is left to its verdicts: recorded, in one of the roots, and kept for nothing else. -/
structure Left (e : Entry) : Prop where
  within : t.inside e.seen.path t.hub = true ∨ t.inside e.seen.path t.gguf = true
  free : kept lower k (r.verdicts lower) e = none
  recorded : e.unrecorded = false

/-- Cleanup deletes no weights that a measured or a waiting proposal is linked to, whatever the disk lets be
removed. -/
structure Spared : Prop where
  spares : ∀ (δ : Type) (remove : Entry → δ → Except String (List String) × δ) (d d' : δ)
    (results : List (Entry × Except String (List String))),
    delete t (inventory lower r t k) now wanted remove d = .ok (results, d') →
      ∀ e links, (e, .ok links) ∈ results → e.seen.link = none → ∀ pid, Linked r t e pid → ¬ Live r pid

/-- Weights that are let go by the verdict on one proposal while another that is linked to them is measured
or waits. -/
structure Torn (e : Entry) (pid : Nat) : Prop where
  weights : e.seen.link = none
  left : Left lower r t k e
  due : Due now wanted (last (r.verdicts lower) e)
  linked : Linked r t e pid
  live : Live r pid

section

variable {lower r t k now wanted} {e : Entry} {pid : Nat}

theorem classify_kept {why : String} (held : kept lower k (r.verdicts lower) e = some why) :
    (classify lower k (r.verdicts lower) e).group = .keep := by
  rw [classify, held]

theorem classify_left (free : kept lower k (r.verdicts lower) e = none) (recorded : e.unrecorded = false) :
    (classify lower k (r.verdicts lower) e).group = (group_of (last (r.verdicts lower) e)).1 := by
  simp only [classify, free, recorded, Bool.false_eq_true, if_false]

theorem group_of_rejected {v : Latest} : (group_of (some v)).1 = .rejected ↔
    ∃ outcome, v.outcome = some outcome ∧ outcome ∈ REJECTIONS ∧ v.tier ∈ FETCHED_TIERS := by
  rw [group_of]
  cases says_ : v.outcome with
  | none => simp
  | some outcome =>
      by_cases fetched : v.tier ∈ FETCHED_TIERS <;> cases outcome <;> simp [waypoints, REJECTIONS, fetched]

theorem due_iff : Due now wanted (last (r.verdicts lower) e) ↔
    (group_of (last (r.verdicts lower) e)).1 = wanted ∧ wanted ∈ [Group.rejected, .unknown] ∧
      ¬ (wanted = .rejected ∧ now - ((last (r.verdicts lower) e).map Latest.decidedAt).getD 0 < GRACE_SECONDS) := by
  generalize last (r.verdicts lower) e = newest
  constructor
  · rintro (⟨v, outcome, says_, against, fetched, old⟩ | ⟨_, nothing⟩)
    · exact ⟨group_of_rejected.mpr ⟨outcome, says_, against, fetched⟩, List.mem_cons_self,
        fun young => absurd young.2 (not_lt.mpr old)⟩
    · exact ⟨nothing, List.mem_cons_of_mem _ List.mem_cons_self, fun young => by cases young.1⟩
  · rintro ⟨group, asked, old⟩
    rcases List.mem_cons.mp asked with rfl | asked
    · cases newest with
      | none => cases group
      | some v =>
          obtain ⟨outcome, says_, against, fetched⟩ := group_of_rejected.mp group
          exact .rejected v outcome says_ against fetched (not_lt.mp fun young => old ⟨rfl, young⟩)
    · obtain rfl := List.mem_singleton.mp asked
      exact .unknown newest group

/-- What is planned is left to its verdicts, and due. -/
theorem safe_iff : (∃ why, safe_to_delete t.inside (classify lower k (r.verdicts lower) e) now wanted [t.hub, t.gguf] =
    .ok why) ↔ Left lower r t k e ∧ Due now wanted (last (r.verdicts lower) e) := by
  have within : (∃ root ∈ [t.hub, t.gguf], t.inside (classify lower k (r.verdicts lower) e).seen.path root = true) ↔
      t.inside e.seen.path t.hub = true ∨ t.inside e.seen.path t.gguf = true := by
    simp [classify]
  rw [safe_to_delete_ok, within]
  constructor
  · rintro ⟨kept_, recorded, group, asked, old, inside⟩
    have free : kept lower k (r.verdicts lower) e = none :=
      Option.eq_none_iff_forall_ne_some.mpr fun why held => kept_ (classify_kept held)
    have left : Left lower r t k e := ⟨inside, free, recorded⟩
    rw [classify_left free recorded] at group old
    exact ⟨left, due_iff.mpr ⟨group, asked, by rwa [group] at old⟩⟩
  · rintro ⟨left, due⟩
    obtain ⟨group, asked, old⟩ := due_iff.mp due
    rw [classify_left left.free left.recorded]
    refine ⟨?_, left.recorded, group, asked, by rwa [group], left.within⟩
    rw [group]
    rintro rfl
    exact absurd asked (by decide)

theorem mem_plan_inventory {c : Entry} : c ∈ plan t (inventory lower r t k) now wanted ↔
    ∃ e ∈ scan r.rows t.dirs t.files, c = classify lower k (r.verdicts lower) e ∧ Left lower r t k e ∧
      Due now wanted (last (r.verdicts lower) e) := by
  rw [mem_plan, inventory, List.mem_map]
  constructor
  · rintro ⟨⟨e, seen, rfl⟩, safe⟩
    exact ⟨e, seen, rfl, safe_iff.mp safe⟩
  · rintro ⟨e, seen, rfl, safe⟩
    exact ⟨⟨e, seen, rfl⟩, safe_iff.mpr safe⟩

theorem linked_classify (verdicts : List Latest) :
    Linked r t (classify lower k verdicts e) pid ↔ Linked r t e pid := by
  constructor
  · rintro (⟨row, here, path, names⟩ | ⟨row, here, file, into, path, names⟩ |
      ⟨row, here, file, seen, gguf, linked, same, path, names⟩)
    · exact .own row here path names
    · exact .link row here file into path names
    · exact .alias_ row here file seen gguf linked same path names
  · rintro (⟨row, here, path, names⟩ | ⟨row, here, file, into, path, names⟩ |
      ⟨row, here, file, seen, gguf, linked, same, path, names⟩)
    · exact .own row here path names
    · exact .link row here file into path names
    · exact .alias_ row here file seen gguf linked same path names

/-- Where the disk refuses nothing, all that is planned goes. -/
theorem removeAll_of_mem {es : List Entry} (member : e ∈ es) :
    (e, .ok []) ∈ (removeAll (fun _ (d : Unit) => (.ok [], d)) es ()).1 := by
  induction es with
  | nil => cases member
  | cons first rest ih =>
      rcases List.mem_cons.mp member with rfl | later
      · exact List.mem_cons_self
      · exact List.mem_cons_of_mem _ (ih later)

theorem mem_of_newest {l : List Latest} {v : Latest} (most : newest l = some v) : v ∈ l := by
  cases l with
  | nil => cases most
  | cons first rest =>
      obtain rfl := Option.some.inj most
      induction rest generalizing first with
      | nil => exact List.mem_cons_self
      | cons next rest ih =>
          rw [List.foldl_cons, newer]
          split
          next => exact List.mem_cons_of_mem first (ih next rfl)
          next =>
            rcases List.mem_cons.mp (ih first rfl) with here | later
            · rw [here]
              exact List.mem_cons_self
            · exact List.mem_cons_of_mem first (List.mem_cons_of_mem next later)

/-- A verdict that is read is of a proposal, whose state it holds. -/
theorem state_of_verdicts {v : Latest} (read : v ∈ r.verdicts lower) :
    ∃ p, r.store.proposals.find? v.pid = some p ∧ p.state = v.outcome := by
  rw [Records.verdicts, latest_verdicts, List.mem_filter, List.mem_insertionSort, List.mem_filterMap] at read
  obtain ⟨⟨⟨pid, p⟩, stored, joins⟩, -⟩ := read
  obtain ⟨id, -, found⟩ := Option.bind_eq_some_iff.mp joins
  obtain ⟨verdict, -, rfl⟩ := Option.map_eq_some_iff.mp found
  exact ⟨p, Table.find?_eq_some.mpr stored, rfl⟩

theorem state_of_last {v : Latest} (newest : last (r.verdicts lower) e = some v) :
    ∃ p, r.store.proposals.find? v.pid = some p ∧ p.state = v.outcome := by
  obtain ⟨pid, -, found⟩ := List.mem_filterMap.mp (mem_of_newest newest)
  exact state_of_verdicts (List.mem_of_find?_eq_some found)

theorem not_live_of_due {v : Latest} {outcome : Outcome} (due : Due now wanted (some v))
    (says_ : v.outcome = some outcome) : ¬ (outcome = .measured ∨ outcome ∈ waypoints) := by
  cases due with
  | rejected _ against_ says_' against fetched old =>
      cases says_.symm.trans says_'
      revert against
      cases outcome <;> decide
  | unknown _ nothing =>
      rw [group_of, says_] at nothing
      rintro (rfl | waits)
      · cases nothing
      · rw [if_neg (by rintro ⟨⟩; exact absurd waits (by decide)), if_pos (by simpa using waits)] at nothing
        cases nothing

/-- The verdict that lets weights go is never on the proposal that is measured or waits. -/
theorem Torn.other (torn : Torn lower r t k now wanted e pid) {v : Latest}
    (newest : last (r.verdicts lower) e = some v) : v.pid ≠ pid := by
  rintro rfl
  obtain ⟨p, found, state⟩ := state_of_last newest
  obtain ⟨p', outcome, found', state', live⟩ := torn.live
  obtain rfl := Option.some.inj (found.symm.trans found')
  exact not_live_of_due (newest ▸ torn.due) (state.symm.trans state') live

/-- A torn entry does not survive cleanup. -/
theorem Torn.not_spared (complete : k.problems = []) (seen : e ∈ scan r.rows t.dirs t.files)
    (torn : Torn lower r t k now wanted e pid) : ¬ Spared lower r t k now wanted := by
  intro spared
  have planned := mem_plan_inventory.mpr ⟨e, seen, rfl, torn.left, torn.due⟩
  exact spared.spares Unit (fun _ d => (.ok [], d)) () _ _
    ((delete_ok ..).mpr ⟨complete, rfl⟩) _ [] (removeAll_of_mem planned) torn.weights pid
    ((linked_classify _).mpr torn.linked) torn.live

end

/-- Cleanup spares what measured and waiting proposals are linked to where no weights that nothing keeps are let
go by the verdict on another of their proposals. -/
theorem spared_iff (lower : Lower) (r : Records) (t : Tree) (k : Keepers) (now : ℚ) (wanted : Group) :
    Spared lower r t k now wanted ↔
      (k.problems = [] → ∀ e ∈ scan r.rows t.dirs t.files, ∀ pid, ¬ Torn lower r t k now wanted e pid) := by
  constructor
  · exact fun spared complete e seen pid torn => torn.not_spared complete seen spared
  · refine fun whole => ⟨fun δ remove d d' results deleted c links gone weights pid linked live => ?_⟩
    obtain ⟨complete, removed⟩ := (delete_ok ..).mp deleted
    have planned : c ∈ plan t (inventory lower r t k) now wanted := by
      refine @mem_of_removeAll δ remove _ d c (.ok links) ?_
      rwa [removed]
    obtain ⟨e, seen, rfl, left, due⟩ := mem_plan_inventory.mp planned
    exact whole complete e seen pid ⟨weights, left, due, (linked_classify _).mp linked, live⟩

/-! A repository that was measured as it is and found broken through the link that serves it. -/

def verdictAt (outcome : Outcome) (tier : String) (pid : Nat) : Verdict :=
  ⟨outcome, tier, "", "", none, 0, 1, "", none, none, "", some pid, none, ""⟩

def proposalAt (name : String) (state : Outcome) (vid : Nat) : Proposal :=
  ⟨name, some state, some vid, 0, none, 0⟩

def measuredThenBroken : Store where
  proposals := ⟨[(1, proposalAt "org/good" .measured 1), (2, proposalAt "org/good-GGUF" .broken 2)], by decide⟩
  verdicts := ⟨[(1, verdictAt .measured measure 1), (2, verdictAt .broken screen 2)], by decide⟩

def sharing : Records where
  store := measuredThenBroken
  lane _ := "code"
  downloads := ⟨[(1, ⟨"/hub/models--org--good", "org/good", some 1, some 1, false⟩),
    (2, ⟨"/gguf/good.gguf", "org/good-GGUF", some 2, some 1, false⟩)], by decide⟩
  mine := [1]

def goodDir : Seen :=
  ⟨"/hub/models--org--good", "/hub/models--org--good", "models--org--good", 4096, none, "/hub/models--org--good"⟩

def goodLink : Seen :=
  ⟨"/gguf/good.gguf", "/gguf/good.gguf", "good.gguf", 0, some "models--org--good",
    "/hub/models--org--good/blobs/abc"⟩

def oneDir : Tree where
  hub := "/hub"
  gguf := "/gguf"
  dirs := [goodDir]
  files := [goodLink]
  inside _ root := root == "/hub"

def noKeepers : Keepers :=
  ⟨fun _ => none, fun _ => none, [], []⟩

/-- The measured repository is deleted, days after the verdict on the other proposal. -/
theorem measured_deleted : ¬ Spared Text.lower sharing oneDir noKeepers (10 * 86400) .rejected := by
  have newest : last (sharing.verdicts Text.lower) (hubEntry sharing.rows oneDir.files goodDir) =
      some ⟨"org/good-GGUF", 2, "code", 2, some .broken, screen, 0⟩ := by
    decide +kernel
  have torn : Torn Text.lower sharing oneDir noKeepers (10 * 86400) .rejected
      (hubEntry sharing.rows oneDir.files goodDir) 1 := by
    refine ⟨rfl, ⟨.inl ?_, ?_, ?_⟩, ?_, ?_, ?_⟩
    · decide +kernel
    · decide +kernel
    · decide +kernel
    · rw [newest]
      exact .rejected _ .broken rfl (by decide) (by decide) (by norm_num [GRACE_SECONDS])
    · exact .own ⟨"/hub/models--org--good", "org/good", some 1, some 1, false⟩ (by decide +kernel) rfl rfl
    · exact ⟨proposalAt "org/good" .measured 1, .measured, rfl, rfl, .inl rfl⟩
  exact torn.not_spared rfl (List.mem_append_left _ List.mem_cons_self)

end LocalHarness.Disk
