import LocalHarness.Migrations.Machines

/-! # The machine of a row

Which rows are folded together is decided by two loops: rows with one identity are a group, and the group of
a receipt that named no OS joins the one other group with its board. The machine of a row can be told without
them. It is the row's identity, or the only other identity with the same board.
-/

namespace LocalHarness.Migrations.Machines

open LocalHarness.Library

/-- The identities, in the order in which they are first met. -/
def identities (rows : List Row) : List String :=
  (grouped rows).map Prod.fst

/-- The rows of one identity. -/
def named (rows : List Row) (fp : String) : List Row :=
  rows.filter fun row => row.2.identity = fp

/-- The other identities with the same board. -/
def rivals (rows : List Row) (fp : String) : List String :=
  (identities rows).filter fun other => other ≠ fp ∧ board (named rows other) = board (named rows fp)

/-- Where the rows of an identity go. -/
def home (rows : List Row) (fp : String) : String :=
  if bare (named rows fp) then
    match rivals rows fp with
    | [other] => other
    | _ => fp
  else fp

def machine (rows : List Row) (row : Row) : String :=
  home rows row.2.identity

/-- The machines, in the order in which they are first met. -/
def machines (rows : List Row) : List String :=
  (identities rows).filter fun fp => home rows fp = fp

/-- The rows of one machine. -/
def members (rows : List Row) (fp : String) : List Row :=
  rows.filter fun row => machine rows row = fp

variable {rows : List Row} {fp other : String} {row : Row}

/-! ## Identities -/

theorem joinParts_cons {hw : String} (rest : List String) (named : hw ≠ "") :
    joinParts (hw :: rest) = Text.join '/' (hw :: rest.filter (· ≠ "")) := by
  have head : (hw :: rest).filter (· ≠ "") = hw :: rest.filter (· ≠ "") := by
    rw [List.filter_cons, if_pos (decide_eq_true named)]
  rw [joinParts, head]
  apply if_neg
  generalize rest.filter (· ≠ "") = rest
  intro empty
  have none : (Text.join '/' (hw :: rest)).toList = [] := by rw [empty]; rfl
  apply named
  apply String.toList_eq_nil_iff.mp
  cases rest with
  | nil => simpa [Text.join, List.intercalate] using none
  | cons =>
      simp only [Text.join, List.intercalate, String.toList_ofList, List.map_cons, List.intersperse_cons_cons,
        List.flatten_cons, List.append_eq_nil_iff] at none
      exact none.1

/-- A fingerprint tells whether a family was named. -/
theorem family_of_joinParts {hw family arch : String} (named : hw ≠ "")
    (same : joinParts [hw, family, arch] = joinParts [hw, "", arch]) : family = "" := by
  rw [joinParts_cons _ named, joinParts_cons _ named] at same
  by_contra some_
  have lengths := congrArg (fun text : String => text.toList.length) same
  by_cases none : arch = "" <;> simp [some_, none, Text.join, List.intercalate] at lengths
  omega

theorem mem_identities : fp ∈ identities rows ↔ ∃ row ∈ rows, row.2.identity = fp := by
  rw [identities, grouped, ← Ordered.keys, Ordered.mem_keys]
  constructor
  · rintro ⟨group, found⟩
    rw [Ordered.get?_groupBy] at found
    split at found
    next => cases found
    next some_ =>
      obtain ⟨row, member⟩ := List.exists_mem_of_ne_nil _ some_
      have member := List.mem_filter.mp member
      exact ⟨row, member.1, of_decide_eq_true member.2⟩
  · rintro ⟨row, member, rfl⟩
    refine ⟨_, (Ordered.get?_groupBy ..).trans (if_neg ?_)⟩
    exact List.ne_nil_of_mem (List.mem_filter.mpr ⟨member, decide_eq_true rfl⟩)

theorem identities_nodup (rows : List Row) : (identities rows).Nodup :=
  (Ordered.groupBy (fun row : Row => row.2.identity) rows).once

theorem mem_named : row ∈ named rows fp ↔ row ∈ rows ∧ row.2.identity = fp := by
  simp [named]

/-! ## Boards -/

theorem board_of_head {group : List Row} (head : group.head? = some row) :
    board group = some (row.2.hwModel, row.2.arch) := by
  rw [board, head, Option.map_some]

/-- The first of some rows is the first of fewer, if it is among them. -/
theorem head_of_fewer {p q : Row → Bool} (head : (rows.filter q).head? = some row) (kept : p row = true)
    (fewer : ∀ row, p row = true → q row = true) : (rows.filter p).head? = some row := by
  rw [List.head?_filter, List.find?_eq_some_iff_append] at head ⊢
  obtain ⟨-, front, back, shape, before⟩ := head
  refine ⟨kept, front, back, shape, fun row member => ?_⟩
  have absent := before row member
  simp only [Bool.not_eq_eq_eq_not, Bool.not_true] at absent ⊢
  by_contra present
  rw [Bool.not_eq_false] at present
  rw [fewer row present] at absent
  cases absent

/-- A group named no OS where its fingerprint is its board. -/
theorem bare_iff : bare (named rows fp) = true ↔
    ∃ hw arch, board (named rows fp) = some (hw, arch) ∧ hw ≠ "" ∧ fp = joinParts [hw, "", arch] := by
  rw [bare, board]
  cases head : (named rows fp).head? with
  | none => simp
  | some row =>
      have same := (mem_named.mp (List.mem_of_head? head)).2
      simp only [Option.any_some, Bool.and_eq_true, decide_eq_true_eq, Option.map_some, Option.some.injEq,
        Prod.mk.injEq, ← same]
      constructor
      · rintro ⟨hw, family⟩
        refine ⟨row.2.hwModel, row.2.arch, ⟨rfl, rfl⟩, hw, ?_⟩
        rw [Machine.identity, if_pos (.inl hw), fingerprint, family]
      · rintro ⟨_, _, ⟨rfl, rfl⟩, hw, shape⟩
        rw [Machine.identity, if_pos (.inl hw), fingerprint] at shape
        exact ⟨hw, family_of_joinParts hw shape⟩

/-- No two groups that named no OS have one board. -/
theorem bare_inj (left : bare (named rows fp) = true) (right : bare (named rows other) = true)
    (same : board (named rows fp) = board (named rows other)) : fp = other := by
  obtain ⟨hw, arch, here, -, rfl⟩ := bare_iff.mp left
  obtain ⟨hw', arch', there, -, rfl⟩ := bare_iff.mp right
  rw [here, there] at same
  cases same
  rfl

/-! ## Homes -/

theorem mem_rivals : other ∈ rivals rows fp ↔
    other ∈ identities rows ∧ other ≠ fp ∧ board (named rows other) = board (named rows fp) := by
  simp [rivals]

/-- A home that is another identity's. -/
theorem home_moved (moved : home rows fp ≠ fp) :
    bare (named rows fp) = true ∧ rivals rows fp = [home rows fp] := by
  rw [home] at moved ⊢
  split at moved
  next none =>
    split at moved
    next other lone =>
      rw [if_pos none, lone]
      exact ⟨none, rfl⟩
    next => exact absurd rfl moved
  next => exact absurd rfl moved

theorem home_mem (member : fp ∈ identities rows) : home rows fp ∈ identities rows := by
  by_cases stays : home rows fp = fp
  · rwa [stays]
  · have rival : home rows fp ∈ rivals rows fp := (home_moved stays).2 ▸ List.mem_singleton_self _
    exact (mem_rivals.mp rival).1

theorem board_home (rows : List Row) (fp : String) :
    board (named rows (home rows fp)) = board (named rows fp) := by
  by_cases stays : home rows fp = fp
  · rw [stays]
  · have rival : home rows fp ∈ rivals rows fp := (home_moved stays).2 ▸ List.mem_singleton_self _
    exact (mem_rivals.mp rival).2.2

/-- A home named an OS, so no group goes on from there. -/
theorem home_not_bare (moved : home rows fp ≠ fp) : bare (named rows (home rows fp)) ≠ true :=
  fun none => moved (bare_inj none (home_moved moved).1 (board_home rows fp))

theorem home_home (rows : List Row) (fp : String) : home rows (home rows fp) = home rows fp := by
  by_cases stays : home rows fp = fp
  · rw [stays, stays]
  · by_contra moved
    exact home_not_bare stays (home_moved moved).1

theorem mem_machines : fp ∈ machines rows ↔ fp ∈ identities rows ∧ home rows fp = fp := by
  simp [machines]

theorem machines_nodup (rows : List Row) : (machines rows).Nodup :=
  (identities_nodup rows).filter _

theorem machine_mem (member : row ∈ rows) : machine rows row ∈ machines rows :=
  mem_machines.mpr ⟨home_mem (mem_identities.mpr ⟨row, member, rfl⟩), home_home rows _⟩

theorem mem_members : row ∈ members rows fp ↔ row ∈ rows ∧ machine rows row = fp := by
  simp [members]

theorem members_ne_nil (member : fp ∈ machines rows) : members rows fp ≠ [] := by
  obtain ⟨named, stays⟩ := mem_machines.mp member
  obtain ⟨row, inside, rfl⟩ := mem_identities.mp named
  exact List.ne_nil_of_mem (mem_members.mpr ⟨inside, stays⟩)

/-! ## The loops -/

/-- The rows whose identity is sent to a key. -/
def sentTo (rows : List Row) (sent : String → String) (fp : String) : List Row :=
  rows.filter fun row => sent row.2.identity = fp

/-- The groups while the second loop runs. -/
def gathered (rows : List Row) (keys : List String) (sent : String → String) : List Group :=
  keys.map fun fp => (fp, sentTo rows sent fp)

/-- The other keys whose group has the same board. -/
def rivalsAmong (rows : List Row) (keys : List String) (sent : String → String) (fp : String) : List String :=
  keys.filter fun other => other ≠ fp ∧ board (sentTo rows sent other) = board (sentTo rows sent fp)

theorem sentTo_congr {sent sent' : String → String} (same : ∀ fp ∈ identities rows, sent fp = sent' fp)
    (fp : String) : sentTo rows sent fp = sentTo rows sent' fp := by
  refine List.filter_congr fun row member => ?_
  rw [same _ (mem_identities.mpr ⟨row, member, rfl⟩)]

theorem grouped_eq (rows : List Row) : grouped rows = gathered rows (identities rows) id := by
  rw [gathered, identities, List.map_map]
  conv_lhs => rw [← List.map_id (grouped rows)]
  apply List.map_congr_left
  intro group member
  have found := Ordered.get?_eq_some.mpr member
  rw [Ordered.get?_groupBy] at found
  split at found
  next => cases found
  next => exact Prod.ext rfl (Option.some.inj found).symm

section

variable {keys : List String} {sent : String → String}

theorem find_gathered (member : fp ∈ keys) :
    (gathered rows keys sent).find? (fun group => group.1 = fp) = some (fp, sentTo rows sent fp) := by
  rw [gathered, List.find?_map]
  cases found : keys.find? _ with
  | none => simpa using List.find?_eq_none.mp found fp member
  | some key =>
      obtain rfl : key = fp := by simpa using List.find?_some found
      rfl

theorem homes_gathered (fp : String) : homes (gathered rows keys sent) (fp, sentTo rows sent fp) =
    gathered rows (rivalsAmong rows keys sent fp) sent := by
  rw [homes, gathered, List.filter_map]
  rfl

theorem join_stays (member : fp ∈ keys) (others : ∀ other, rivalsAmong rows keys sent fp ≠ [other]) :
    join (gathered rows keys sent) fp = gathered rows keys sent := by
  rw [join, find_gathered member]
  simp only [homes_gathered]
  split
  next lone =>
    obtain ⟨other, alone, -⟩ := List.map_eq_singleton_iff.mp lone
    exact absurd alone (others other)
  next => rfl

/-- Two disjoint parts of the rows are put together in the order of their ids. -/
theorem byId_parts (ascending : (rows.map Prod.fst).Pairwise (· < ·)) {p q r : Row → Bool}
    (apart : ∀ row, p row = true → q row = false) (all : ∀ row, r row = (p row || q row)) :
    byId (rows.filter p ++ rows.filter q) = rows.filter r := by
  have ordered := List.pairwise_map.mp ascending
  have parts : (rows.filter p ++ rows.filter q).Perm (rows.filter r) := by
    refine List.Perm.trans (.of_eq ?_) (List.filter_append_perm p (rows.filter r))
    rw [List.filter_filter, List.filter_filter]
    refine congrArg₂ (· ++ ·) (List.filter_congr fun row _ => ?_) (List.filter_congr fun row _ => ?_)
    · cases here : p row <;> simp [all, here]
    · cases here : p row <;> simp [all, here, apart]
  refine List.Perm.eq_of_pairwise (fun a b left right le ge => ?_)
    (List.pairwise_insertionSort (fun a b : Row => a.1 ≤ b.1) _)
    ((ordered.sublist List.filter_sublist).imp fun below => Nat.le_of_lt below)
    ((List.perm_insertionSort _ _).trans parts)
  have distinct : (rows.map Prod.fst).Nodup := ascending.imp fun below => Nat.ne_of_lt below
  have left := parts.mem_iff.mp ((List.perm_insertionSort _ _).mem_iff.mp left)
  exact List.inj_on_of_nodup_map distinct (List.mem_of_mem_filter left) (List.mem_of_mem_filter right)
    (Nat.le_antisymm le ge)

theorem join_moves (ascending : (rows.map Prod.fst).Pairwise (· < ·)) (member : fp ∈ keys)
    (lone : rivalsAmong rows keys sent fp = [other]) :
    join (gathered rows keys sent) fp =
      gathered rows (keys.filter (· ≠ fp)) fun key => if sent key = fp then other else sent key := by
  have apart : other ≠ fp := by
    have inside := lone ▸ List.mem_singleton_self other
    exact (of_decide_eq_true (List.mem_filter.mp inside).2).1
  have one : homes (gathered rows keys sent) (fp, sentTo rows sent fp) = [(other, sentTo rows sent other)] := by
    rw [homes_gathered, lone]
    rfl
  rw [join, find_gathered member]
  simp only [one]
  rw [gathered, gathered, List.filter_map, List.map_map]
  refine List.map_congr_left fun key kept => ?_
  have kept : key ≠ fp := of_decide_eq_true (List.mem_filter.mp kept).2
  rw [Function.comp_apply]
  split
  next here =>
    obtain rfl : key = other := here
    refine Prod.ext rfl (byId_parts ascending (fun row here => ?_) fun row => ?_)
    · simpa [of_decide_eq_true here] using apart
    · by_cases went : sent row.2.identity = fp <;> simp [went]
  next there =>
    have there : key ≠ other := there
    refine Prod.ext rfl (List.filter_congr fun row _ => ?_)
    by_cases went : sent row.2.identity = fp <;> simp [went, kept.symm, there.symm]

end

/-- The receipts that named no OS, in the order in which they are put into their homes. -/
def waiting (rows : List Row) : List String :=
  (identities rows).filter fun fp => bare (named rows fp)

/-- Where the rows of an identity are once some receipts are put into their homes. -/
def sentAfter (rows : List Row) (done : List String) (fp : String) : String :=
  if fp ∈ done then home rows fp else fp

/-- The keys that are left. -/
def keysAfter (rows : List Row) (done : List String) : List String :=
  (identities rows).filter fun fp => ¬(fp ∈ done ∧ home rows fp ≠ fp)

theorem mem_keysAfter {done : List String} : fp ∈ keysAfter rows done ↔
    fp ∈ identities rows ∧ ¬(fp ∈ done ∧ home rows fp ≠ fp) := by
  rw [keysAfter, List.mem_filter, decide_eq_true_eq]

theorem gathered_congr {keys keys' : List String} {sent sent' : String → String} (same : keys = keys')
    (alike : ∀ fp ∈ identities rows, sent fp = sent' fp) :
    gathered rows keys sent = gathered rows keys' sent' := by
  subst same
  exact List.map_congr_left fun fp _ => Prod.ext rfl (sentTo_congr alike fp)

/-- A group keeps its board, whichever of its rows is now the first. -/
theorem board_sentTo {done : List String} (left : fp ∈ keysAfter rows done) :
    board (sentTo rows (sentAfter rows done) fp) = board (named rows fp) := by
  obtain ⟨met, kept⟩ := mem_keysAfter.mp left
  have stays : sentAfter rows done fp = fp := by
    rw [sentAfter]
    split
    next gone => exact not_not.mp fun moved => kept ⟨gone, moved⟩
    next => rfl
  cases head : (sentTo rows (sentAfter rows done) fp).head? with
  | none =>
      obtain ⟨row, member, rfl⟩ := mem_identities.mp met
      have inside : row ∈ sentTo rows (sentAfter rows done) row.2.identity :=
        List.mem_filter.mpr ⟨member, decide_eq_true stays⟩
      rw [List.head?_eq_none_iff.mp head] at inside
      cases inside
  | some row =>
      have went : sentAfter rows done row.2.identity = fp :=
        of_decide_eq_true (List.mem_filter.mp (List.mem_of_head? head)).2
      have first : (named rows row.2.identity).head? = some row :=
        head_of_fewer head (decide_eq_true rfl) fun other same =>
          decide_eq_true (of_decide_eq_true same ▸ went)
      have boards : board (named rows fp) = board (named rows row.2.identity) := by
        rw [← went, sentAfter]
        split
        · exact board_home rows _
        · rfl
      rw [boards, board_of_head head, board_of_head first]

theorem mem_waiting : fp ∈ waiting rows ↔ fp ∈ identities rows ∧ bare (named rows fp) = true := by
  simp [waiting]

/-- The groups that a receipt can go to are the same once other receipts are put into their homes. -/
theorem rivalsAmong_after {done : List String} (bares : ∀ fp ∈ done, bare (named rows fp) = true)
    (left : fp ∈ keysAfter rows done) (none : bare (named rows fp) = true) :
    rivalsAmong rows (keysAfter rows done) (sentAfter rows done) fp = rivals rows fp := by
  rw [rivalsAmong, keysAfter, List.filter_filter, rivals]
  refine List.filter_congr fun other met => ?_
  by_cases gone : other ∈ done ∧ home rows other ≠ other
  · have apart : ¬(other ≠ fp ∧ board (named rows other) = board (named rows fp)) :=
      fun both => both.1 (bare_inj (bares other gone.1) none both.2)
    rw [decide_eq_false (not_not.mpr gone), Bool.and_false, decide_eq_false apart]
  · rw [board_sentTo left, board_sentTo (mem_keysAfter.mpr ⟨met, gone⟩), decide_eq_true gone, Bool.and_true]

/-- The second loop puts every receipt it has come to into its home. -/
theorem joins (ascending : (rows.map Prod.fst).Pairwise (· < ·)) (done todo : List String)
    (split : waiting rows = done ++ todo) : done.foldl join (gathered rows (identities rows) id) =
      gathered rows (keysAfter rows done) (sentAfter rows done) := by
  induction done using List.reverseRecOn generalizing todo with
  | nil =>
      refine gathered_congr (List.filter_eq_self.mpr fun fp _ => ?_).symm fun fp _ => ?_
      · exact decide_eq_true fun gone => List.not_mem_nil gone.1
      · exact (if_neg List.not_mem_nil).symm
  | append_singleton done fp ih =>
      rw [List.append_assoc, List.singleton_append] at split
      rw [List.foldl_append, ih _ split, List.foldl_cons, List.foldl_nil]
      have waits : ∀ other ∈ done ++ fp :: todo, other ∈ identities rows ∧ bare (named rows other) = true :=
        fun other member => mem_waiting.mp (split ▸ member)
      have bares : ∀ other ∈ done, bare (named rows other) = true :=
        fun other member => (waits other (List.mem_append_left _ member)).2
      obtain ⟨met, none⟩ := waits fp (List.mem_append_right _ List.mem_cons_self)
      have new : fp ∉ done := by
        have once : (done ++ fp :: todo).Nodup := split ▸ (identities_nodup rows).filter _
        exact fun member => (List.nodup_append.mp once).2.2 fp member fp List.mem_cons_self rfl
      have left : fp ∈ keysAfter rows done := mem_keysAfter.mpr ⟨met, fun gone => new gone.1⟩
      have among := rivalsAmong_after bares left none
      by_cases stays : home rows fp = fp
      · rw [join_stays left]
        · refine gathered_congr (List.filter_congr fun key _ => ?_) fun key _ => ?_
          · by_cases here : key = fp <;> simp [here, stays]
          · by_cases here : key = fp <;> simp [sentAfter, here, stays]
        · rw [among]
          intro other lone
          have rival : other ∈ rivals rows fp := lone ▸ List.mem_singleton_self other
          apply (mem_rivals.mp rival).2.1
          rw [← stays, home, if_pos none, lone]
      · rw [join_moves ascending left (among.trans (home_moved stays).2)]
        refine gathered_congr ?_ fun key _ => ?_
        · rw [keysAfter, List.filter_filter]
          refine List.filter_congr fun key _ => ?_
          by_cases here : key = fp <;> simp [here, stays]
        · by_cases here : key = fp
          · simp [sentAfter, here, new]
          · have elsewhere : sentAfter rows done key ≠ fp := by
              rw [sentAfter]
              split
              next =>
                exact fun went => home_not_bare (fun same => here (same.symm.trans went)) (went ▸ none)
              next => exact here
            rw [if_neg elsewhere]
            simp [sentAfter, here]

/-- The groups are the machines, each with its rows. -/
theorem machinesOf_eq (ascending : (rows.map Prod.fst).Pairwise (· < ·)) :
    machinesOf rows = (machines rows).map fun fp => (fp, members rows fp) := by
  have waits : ((grouped rows).filter fun group => bare group.2).map Prod.fst = waiting rows := by
    rw [grouped_eq, gathered, List.filter_map, List.map_map]
    exact List.map_id _
  rw [machinesOf]
  simp only [waits]
  rw [grouped_eq, joins ascending (waiting rows) [] (List.append_nil _).symm]
  have moves : ∀ fp ∈ identities rows, sentAfter rows (waiting rows) fp = home rows fp := by
    intro fp met
    rw [sentAfter]
    split
    next => rfl
    next stays => exact (not_not.mp fun moved => stays (mem_waiting.mpr ⟨met, (home_moved moved).1⟩)).symm
  refine gathered_congr (List.filter_congr fun fp met => ?_) moves
  have stays : ¬(fp ∈ waiting rows ∧ home rows fp ≠ fp) ↔ home rows fp = fp := by
    constructor
    · exact fun kept => not_not.mp fun moved => kept ⟨mem_waiting.mpr ⟨met, (home_moved moved).1⟩, moved⟩
    · exact fun same gone => gone.2 same
  exact decide_eq_decide.mpr stays

theorem board_members (member : fp ∈ machines rows) : board (members rows fp) = board (named rows fp) := by
  obtain ⟨met, stays⟩ := mem_machines.mp member
  have left : fp ∈ keysAfter rows (identities rows) := mem_keysAfter.mpr ⟨met, fun gone => gone.2 stays⟩
  rw [← board_sentTo left]
  exact congrArg board (List.filter_congr fun row member => by
    rw [machine, sentAfter, if_pos (mem_identities.mpr ⟨row, member, rfl⟩)])

/-! ## Rows that are apart already -/

/-- Rows with the machines of others as their identities, on the same boards, stay apart. -/
theorem home_stays {next : List Row} (same : ∀ fp, fp ∈ identities next ↔ fp ∈ machines rows)
    (boards : ∀ fp ∈ machines rows, board (named next fp) = board (named rows fp))
    (member : fp ∈ identities next) : home next fp = fp := by
  by_contra moved
  obtain ⟨none, lone⟩ := home_moved moved
  have member := (same fp).mp member
  have bared : bare (named rows fp) = true := by
    rw [bare_iff, ← boards fp member]
    exact bare_iff.mp none
  have alike : ∀ other, other ∈ rivals next fp ↔ other ∈ rivals rows fp := by
    intro other
    rw [mem_rivals, mem_rivals, same, mem_machines]
    constructor
    · rintro ⟨stays, apart, boarded⟩
      rw [boards other (mem_machines.mpr stays), boards fp member] at boarded
      exact ⟨stays.1, apart, boarded⟩
    · rintro ⟨met, apart, boarded⟩
      have stays : home rows other = other :=
        not_not.mp fun moved => apart (bare_inj (home_moved moved).1 bared boarded)
      refine ⟨⟨met, stays⟩, apart, ?_⟩
      rw [boards other (mem_machines.mpr ⟨met, stays⟩), boards fp member]
      exact boarded
  have perm : (rivals rows fp).Perm [home next fp] := by
    rw [← lone]
    exact (List.perm_ext_iff_of_nodup ((identities_nodup _).filter _) ((identities_nodup _).filter _)).mpr
      fun other => (alike other).symm
  apply moved
  have stays := (mem_machines.mp member).2
  rw [home, if_pos bared, List.perm_singleton.mp perm] at stays
  exact stays

end LocalHarness.Migrations.Machines
