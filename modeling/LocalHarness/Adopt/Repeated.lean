import LocalHarness.Library.Copies
import LocalHarness.Library.Groups
import LocalHarness.Adopt.Cells
import LocalHarness.Adopt.Weakened

/-! # Identical draws

A run in which every case is drawn so many times and answered the same way each time. The cells
gained and lost scale with the draws, the repeats are as correlated as can be, and the correction
takes out just what the repeats put in.
-/

namespace LocalHarness.Adopt

open LocalHarness.Library Copies SignTest

/-- Every row so many times, its case marked with the number of the draw; one draw has no mark. -/
def repeated (r : Nat) (rows : List Row) : List Row :=
  if r = 1 then rows
  else rows.flatMap fun row =>
    (List.range r).map fun i => { row with caseId := resultKey row.caseId (i + 1) }

/-- The ids of the draws of these cases. -/
def marked (r : Nat) (ids : List String) : List String :=
  if r = 1 then ids
  else ids.flatMap fun caseId => (List.range r).map fun i => resultKey caseId (i + 1)

/-- A candidate's rows are of one draw of each case. -/
structure Single (mine : List Row) : Prop where
  unmarked : ∀ row ∈ mine, '#' ∉ row.caseId.toList
  once : (mine.map Row.caseId).Nodup

variable {r : Nat} {rows mine : List Row}

/-! ## The rows of a repeated run -/

theorem baseId_unmarked {caseId : String} (plain : '#' ∉ caseId.toList) : baseId caseId = caseId := by
  have all : ∀ c ∈ caseId.toList, (c != '#') = true := by
    intro c member
    exact bne_iff_ne.mpr fun same => plain (same ▸ member)
  rw [baseId, Text.partition, List.takeWhile_eq_self_iff.mpr all, String.ofList_toList]

theorem baseId_resultKey {caseId : String} (plain : '#' ∉ caseId.toList) (i : Nat) :
    baseId (resultKey caseId i) = caseId := by
  have all : ∀ c ∈ caseId.toList, (c != '#') = true := by
    intro c member
    exact bne_iff_ne.mpr fun same => plain (same ▸ member)
  have mark : ("#" : String).toList = ['#'] := rfl
  rw [baseId, Text.partition, resultKey, String.toList_append, String.toList_append, mark,
    List.append_assoc, List.takeWhile_append_of_pos all, List.singleton_append,
    List.takeWhile_cons_of_neg (by decide), List.append_nil, String.ofList_toList]

/-- What does not read the case of a row sees so many copies. -/
theorem map_repeated {β : Type} (f : Row → β)
    (blind : ∀ row caseId, f { row with caseId := caseId } = f row) :
    (repeated r rows).map f = copies r (rows.map f) := by
  unfold repeated
  split
  next one => rw [one, copies_one]
  next =>
    rw [List.map_flatMap, copies, List.flatMap_map]
    congr 1
    funext row
    rw [List.map_map, List.eq_replicate_iff, List.length_map, List.length_range]
    refine ⟨rfl, fun b member => ?_⟩
    obtain ⟨i, -, rfl⟩ := List.mem_map.mp member
    exact blind row _

theorem map_caseId_repeated : (repeated r rows).map Row.caseId = marked r (rows.map Row.caseId) := by
  unfold repeated marked
  split
  next => rfl
  next =>
    rw [List.map_flatMap, List.flatMap_map]
    simp only [List.map_map]
    rfl

theorem mem_repeated {drawn : Row} (member : drawn ∈ repeated r rows) :
    ∃ row ∈ rows, drawn = row ∨ ∃ i, drawn = { row with caseId := resultKey row.caseId i } := by
  unfold repeated at member
  split at member
  next => exact ⟨drawn, member, .inl rfl⟩
  next =>
    obtain ⟨row, inside, made⟩ := List.mem_flatMap.mp member
    obtain ⟨i, -, rfl⟩ := List.mem_map.mp made
    exact ⟨row, inside, .inr ⟨i + 1, rfl⟩⟩

/-- A filter that sees a draw as its case. -/
theorem filter_repeated {p q : Row → Bool}
    (same : ∀ row ∈ rows, ∀ i, p { row with caseId := resultKey row.caseId i } = q row)
    (same' : ∀ row ∈ rows, p row = q row) :
    (repeated r rows).filter p = repeated r (rows.filter q) := by
  unfold repeated
  split
  next => exact List.filter_congr same'
  next =>
    induction rows with
    | nil => rfl
    | cons row rest ih =>
        have all : ∀ drawn ∈ (List.range r).map fun i =>
            ({ row with caseId := resultKey row.caseId (i + 1) } : Row), p drawn = q row := by
          intro drawn member
          obtain ⟨i, -, rfl⟩ := List.mem_map.mp member
          exact same row List.mem_cons_self _
        rw [List.flatMap_cons, List.filter_append,
          ih (fun other member => same other (List.mem_cons_of_mem _ member))
            (fun other member => same' other (List.mem_cons_of_mem _ member)), List.filter_cons]
        cases kept : q row with
        | true =>
            rw [List.filter_eq_self.mpr fun drawn member => (all drawn member).trans kept]
            rfl
        | false =>
            rw [List.filter_eq_nil_iff.mpr fun drawn member => by simp [all drawn member, kept]]
            rfl

theorem rowsOf_repeated (name : String) : rowsOf (repeated r rows) name = repeated r (rowsOf rows name) :=
  filter_repeated (fun _ _ _ => rfl) fun _ _ => rfl

/-! ## How correlated the draws are -/

/-- The draws of a case that come out alike correlate fully, whether that is measured or assumed. -/
theorem icc_alike {byCandidate : List (List (List ℚ))}
    (alike : ∀ cand ∈ byCandidate, ∀ g ∈ cand, ∃ n y, g = List.replicate n y) :
    (icc byCandidate).getD DEFAULT_RHO = 1 := by
  have seen : ∀ cand ∈ (byCandidate.map fun cand => cand.filter (· ≠ [])).filter (· ≠ []),
      ∀ g ∈ cand, ∀ y ∈ g, y = mean g := by
    intro cand member g inside y among
    obtain ⟨cand, listed, rfl⟩ := List.mem_map.mp (List.mem_of_mem_filter member)
    obtain ⟨n, z, rfl⟩ := alike cand listed g (List.mem_of_mem_filter inside)
    obtain ⟨some_, rfl⟩ := List.mem_replicate.mp among
    have nonzero : (n : ℚ) ≠ 0 := by exact_mod_cast some_
    rw [mean, List.sum_replicate, List.length_replicate, nsmul_eq_mul, mul_div_cancel_left₀ _ nonzero]
  have within : (((byCandidate.map fun cand => cand.filter (· ≠ [])).filter (· ≠ [])).map fun cand =>
      (cand.map fun g => (g.map fun y => (y - mean g) ^ 2).sum).sum).sum = (0 : ℚ) := by
    apply List.sum_eq_zero
    intro total member
    obtain ⟨cand, listed, rfl⟩ := List.mem_map.mp member
    apply List.sum_eq_zero
    intro part inside
    obtain ⟨g, among, rfl⟩ := List.mem_map.mp inside
    apply List.sum_eq_zero
    intro square of
    obtain ⟨y, drawn, rfl⟩ := List.mem_map.mp of
    rw [← seen cand listed g among y drawn, sub_self, zero_pow two_ne_zero]
  unfold icc
  simp only [within, zero_div, mul_zero, add_zero, sub_zero]
  split
  next => rfl
  next =>
    split
    next => rfl
    next varies => rw [div_self varies, min_self, max_eq_right zero_le_one, Option.getD_some]

/-- A candidate's draws of a case are so many of one. -/
theorem drawsOf_repeated {name : String} (single : Single (rowsOf rows name)) {g : List ℚ}
    (member : g ∈ drawsOf (repeated r rows) name) : ∃ y, g = List.replicate r y := by
  obtain ⟨base, based, rfl⟩ := List.mem_map.mp member
  obtain ⟨drawn, inside, rfl⟩ := List.mem_map.mp (List.mem_dedup.mp based)
  rw [rowsOf_repeated] at inside ⊢
  obtain ⟨row, listed, made⟩ := mem_repeated inside
  have plain := single.unmarked row listed
  have named : baseId drawn.caseId = row.caseId := by
    rcases made with rfl | ⟨i, rfl⟩
    · exact baseId_unmarked plain
    · exact baseId_resultKey plain i
  rw [named, filter_repeated (q := fun other => other.caseId = row.caseId)
    (fun other among i => by rw [baseId_resultKey (single.unmarked other among)])
    (fun other among => by rw [baseId_unmarked (single.unmarked other among)]),
    Groups.filter_key Row.caseId single.once listed, map_repeated _ fun _ _ => rfl]
  exact ⟨if row.passed then 1 else 0, by simp [copies]⟩

/-! ## The cells -/

theorem nodup_marked {ids : List String} (once : ids.Nodup) : (marked r ids).Nodup := by
  unfold marked
  split
  next => exact once
  next =>
    rw [List.nodup_flatMap]
    constructor
    · intro caseId _
      refine List.Nodup.map ?_ List.nodup_range
      intro i j same
      exact Nat.succ_injective (resultKey_injective same).2
    · refine once.imp fun {caseId caseId'} differ => ?_
      intro key first second
      obtain ⟨i, -, rfl⟩ := List.mem_map.mp first
      obtain ⟨j, -, same⟩ := List.mem_map.mp second
      exact differ (resultKey_injective same).1.symm

/-- Of what holds of a draw where it holds of its case, there is so many times as much. -/
theorem countP_marked {p q : String → Bool} (one : r = 1 → p = q)
    (more : ∀ caseId, ∀ i < r, r ≠ 1 → p (resultKey caseId (i + 1)) = q caseId) (ids : List String) :
    (marked r ids).countP p = r * ids.countP q := by
  unfold marked
  split
  next same => rw [one same, same, Nat.one_mul]
  next several =>
    induction ids with
    | nil => rfl
    | cons caseId rest ih =>
        have drawn : ((List.range r).map fun i => resultKey caseId (i + 1)).countP p =
            if q caseId = true then r else 0 := by
          rw [List.countP_map, List.countP_congr (q := fun _ => q caseId)
            fun i member => by rw [Function.comp, more caseId i (List.mem_range.mp member) several]]
          cases q caseId <;> simp
        rw [List.flatMap_cons, List.countP_append, ih, drawn, List.countP_cons]
        split <;> ring

theorem resultOn_eq_some {name caseId : String} {passed : Bool}
    (once : ((rowsOf rows name).map Row.caseId).Nodup) :
    resultOn rows name caseId = some passed ↔
      ∃ row ∈ rowsOf rows name, row.caseId = caseId ∧ row.passed = passed := by
  rw [resultOn, Option.map_eq_some_iff]
  constructor
  · rintro ⟨row, found, rfl⟩
    have named := List.find?_some found
    exact ⟨row, List.mem_reverse.mp (List.mem_of_find?_eq_some found), of_decide_eq_true named, rfl⟩
  · rintro ⟨row, member, rfl, rfl⟩
    cases found : (rowsOf rows name).reverse.find? fun other => other.caseId = row.caseId with
    | none =>
        have absent := List.find?_eq_none.mp found row (List.mem_reverse.mpr member)
        simp at absent
    | some other =>
        have inside := List.mem_reverse.mp (List.mem_of_find?_eq_some found)
        have named := List.find?_some found
        exact ⟨other, rfl, by
          rw [List.inj_on_of_nodup_map once inside member (of_decide_eq_true named)]⟩

theorem resultOn_repeated {name caseId : String} (single : Single (rowsOf rows name)) {i : Nat}
    (drawn : i < r) (several : r ≠ 1) :
    resultOn (repeated r rows) name (resultKey caseId (i + 1)) = resultOn rows name caseId := by
  have once : ((rowsOf (repeated r rows) name).map Row.caseId).Nodup := by
    rw [rowsOf_repeated, map_caseId_repeated]
    exact nodup_marked single.once
  ext passed
  rw [resultOn_eq_some once, resultOn_eq_some single.once, rowsOf_repeated, repeated, if_neg several]
  constructor
  · rintro ⟨row', member, named, rfl⟩
    obtain ⟨row, inside, made⟩ := List.mem_flatMap.mp member
    obtain ⟨j, -, rfl⟩ := List.mem_map.mp made
    exact ⟨row, inside, (resultKey_injective named).1, rfl⟩
  · rintro ⟨row, member, rfl, rfl⟩
    exact ⟨_, List.mem_flatMap.mpr ⟨row, member, List.mem_map.mpr ⟨i, List.mem_range.mpr drawn, rfl⟩⟩,
      rfl, rfl⟩

/-- Everything that is counted over the cases both sat scales with the draws. -/
theorem headToHead_repeated {incumbent challenger : String}
    (mine : Single (rowsOf rows incumbent)) (theirs : Single (rowsOf rows challenger)) :
    headToHead (repeated r rows) incumbent challenger =
      let cell := headToHead rows incumbent challenger
      { cell with lost := r * cell.lost, gained := r * cell.gained, unchanged := r * cell.unchanged } := by
  have keys : sharedCases (repeated r rows) incumbent challenger =
      (marked r ((rowsOf rows incumbent).map Row.caseId)).filter fun caseId =>
        (resultOn (repeated r rows) challenger caseId).isSome := by
    rw [sharedCases, rowsOf_repeated, map_caseId_repeated, (nodup_marked mine.once).dedup]
  have keys' : sharedCases rows incumbent challenger =
      ((rowsOf rows incumbent).map Row.caseId).filter fun caseId =>
        (resultOn rows challenger caseId).isSome := by
    rw [sharedCases, mine.once.dedup]
  have one : r = 1 → repeated r rows = rows := fun same => if_pos same
  have counted : ∀ f : Option Bool → Option Bool → Bool,
      (sharedCases (repeated r rows) incumbent challenger).countP (fun caseId =>
        f (resultOn (repeated r rows) incumbent caseId)
          (resultOn (repeated r rows) challenger caseId)) =
      r * (sharedCases rows incumbent challenger).countP fun caseId =>
        f (resultOn rows incumbent caseId) (resultOn rows challenger caseId) := by
    intro f
    rw [keys, keys', List.countP_filter, List.countP_filter]
    apply countP_marked
    · intro same
      rw [one same]
    · intro caseId i drawn several
      rw [resultOn_repeated mine drawn several, resultOn_repeated theirs drawn several]
  have lost := counted fun first second => first = some true ∧ second = some false
  have gained := counted fun first second => first = some false ∧ second = some true
  have all : (sharedCases (repeated r rows) incumbent challenger).length =
      r * (sharedCases rows incumbent challenger).length := by
    simpa only [List.countP_true] using counted fun _ _ => true
  unfold headToHead
  dsimp only
  rw [lost, gained, all, ← Nat.mul_sub, ← Nat.mul_sub]

/-! ## The correction takes the repeats out -/

theorem effectOf_repeated {incumbent challenger : String} (pos : 0 < r)
    (mine : Single (rowsOf rows incumbent)) (theirs : Single (rowsOf rows challenger)) :
    effectOf (repeated r rows) incumbent challenger = r ∨ rowsOf rows incumbent = [] := by
  have alike : ∀ cand ∈ [incumbent, challenger].dedup.map (drawsOf (repeated r rows)), ∀ g ∈ cand,
      ∃ y, g = List.replicate r y := by
    intro cand member g inside
    obtain ⟨name, listed, rfl⟩ := List.mem_map.mp member
    rcases List.mem_pair.mp (List.mem_dedup.mp listed) with rfl | rfl
    · exact drawsOf_repeated mine inside
    · exact drawsOf_repeated theirs inside
  have rho := icc_alike fun cand member g inside => ⟨r, alike cand member g inside⟩
  have least : (1 : ℚ) ≤ r := by exact_mod_cast pos
  unfold effectOf rowsIcc designEffect
  dsimp only
  rw [rho]
  split
  next none_ =>
    right
    have drawn : drawsOf (repeated r rows) incumbent = [] :=
      List.flatten_eq_nil_iff.mp none_ _ (List.mem_map.mpr ⟨incumbent, by simp, rfl⟩)
    have empty : rowsOf (repeated r rows) incumbent = [] := by
      have based := List.map_eq_nil_iff.mp ((List.dedup_eq_nil _).mp (List.map_eq_nil_iff.mp drawn))
      exact based
    rw [rowsOf_repeated] at empty
    have none' := congrArg (List.map Row.passed) empty
    rw [map_repeated _ fun _ _ => rfl, List.map_nil, copies_eq_nil pos, List.map_eq_nil_iff] at none'
    exact none'
  next some_ =>
    left
    have lengths : ([incumbent, challenger].dedup.map (drawsOf (repeated r rows))).flatten.map
        (fun g => (g.length : ℚ)) = List.replicate
          ([incumbent, challenger].dedup.map (drawsOf (repeated r rows))).flatten.length (r : ℚ) := by
      rw [List.eq_replicate_iff, List.length_map]
      refine ⟨rfl, fun length member => ?_⟩
      obtain ⟨g, inside, rfl⟩ := List.mem_map.mp member
      obtain ⟨cand, listed, among⟩ := List.mem_flatten.mp inside
      obtain ⟨y, rfl⟩ := alike cand listed g among
      rw [List.length_replicate]
    have nonzero : (([incumbent, challenger].dedup.map (drawsOf (repeated r rows))).flatten.length : ℚ) ≠ 0 := by
      exact_mod_cast fun none_ => some_ (List.length_eq_zero_iff.mp none_)
    rw [lengths, mean, List.sum_replicate, List.length_replicate, nsmul_eq_mul,
      mul_div_cancel_left₀ _ nonzero, max_eq_right (by linarith), max_eq_right zero_le_one, min_self]
    ring

/-- The p of identical draws is the one of the cases. -/
theorem pairedP_repeated {incumbent challenger : String} (pos : 0 < r)
    (mine : Single (rowsOf rows incumbent)) (theirs : Single (rowsOf rows challenger)) :
    (pairedP (repeated r rows) incumbent challenger).p = (headToHead rows incumbent challenger).p := by
  have nonzero : (r : ℚ) ≠ 0 := by exact_mod_cast pos.ne'
  have share : ∀ n : Nat, ((r * n : Nat) : ℚ) / r = n := by
    intro n
    rw [Nat.cast_mul, mul_div_cancel_left₀ _ nonzero]
  rw [pairedP_p, headToHead_repeated mine theirs]
  dsimp only
  rcases effectOf_repeated pos mine theirs with effect | none_
  · rw [effect]
    split
    next once =>
      have one : r = 1 := by
        have less : (r : ℚ) < 2 := lt_of_le_of_lt once (by linarith [tolerance_lt_one])
        have less' : r < 2 := by exact_mod_cast less
        omega
      rw [one, Nat.one_mul, Nat.one_mul, Nat.one_mul]
    next =>
      rw [share, share, shrunkDown_nat, shrunkUp_nat, Cell.p, Cell.discordant, min_comm, Nat.add_comm]
  · have lost : (headToHead rows incumbent challenger).lost = 0 := by
      simp [headToHead, sharedCases, none_]
    have gained : (headToHead rows incumbent challenger).gained = 0 := by
      simp [headToHead, sharedCases, none_]
    have zero : shrunkDown ((0 : Nat) / effectOf (repeated r rows) incumbent challenger) = 0 := by
      rw [Nat.cast_zero, zero_div]
      exact_mod_cast shrunkDown_nat 0
    have zero' : shrunkUp ((0 : Nat) / effectOf (repeated r rows) incumbent challenger) = 0 := by
      rw [Nat.cast_zero, zero_div]
      exact_mod_cast shrunkUp_nat 0
    rw [Cell.p, Cell.p, Cell.discordant, Cell.discordant, lost, gained, Nat.mul_zero, zero, zero']
    split <;> rfl

end LocalHarness.Adopt
