import LocalHarness.Serving.Ds4
import LocalHarness.Tiers.Admitted

/-! # A bigger machine

The ceiling a candidate is held against also chooses the file it is sized by, among the quantisations of a
GGUF repository and among ds4's own files.
-/

namespace LocalHarness.Tiers

open LocalHarness.Library LocalHarness.Serving

/-! ## The file that ds4 serves -/

namespace Ds4Files

/-- ds4's own architecture tag. -/
def ARCH_TAGS : List String := ["qwen4exp"]

/-- A repository that ds4 publishes, or one that carries its architecture tag. -/
def recognised (repo : String) (tags : List String) : Bool :=
  Ds4.recognised repo || tags.any fun t => Text.lower (Text.strip t) ∈ ARCH_TAGS

def file (m : Ds4.Model) : String :=
  m.stem ++ ".gguf"

/-- `on_disk_gib` of the table: the n-grams and the Engram that ds4 never loads. -/
def onDiskGib (m : Ds4.Model) : ℚ :=
  if m.repo = Ds4.QWEN then 9537 / 100 else if m.repo = Ds4.DS41F then 189 else 0

/-- `_resident` -/
def resident (m : Ds4.Model) (size : Nat) : Nat :=
  size - ⌊onDiskGib m * GIB⌋.toNat

/-- The size a listing has for a name, the last one where it is listed twice. -/
def sized (siblings : List Gguf.Sibling) (name : String) : Nat :=
  ((siblings.filter fun f => f.rfilename = name).getLast?.map Gguf.Sibling.size).getD 0

/-- The models whose files are listed: the repository's own, else any. -/
def known (repo : String) (siblings : List Gguf.Sibling) : List (Ds4.Model × Nat) :=
  let listed := (Ds4.MODELS.map fun m => (m, sized siblings (file m))).filter fun f => f.2 ≠ 0
  let own := listed.filter fun f => Text.lower f.1.repo = Text.lower repo
  if own.isEmpty then listed else own

def picked (f : Ds4.Model × Nat) (streaming : Bool) : Inspect.Ds4Pick :=
  ⟨file f.1, f.2, resident f.1 f.2, streaming⟩

/-- `pick`: the largest file whose resident weights fit, else the smallest that ds4 can stream. -/
def pick (repo : String) (siblings : List Gguf.Sibling) (ceiling : Nat) : Option Inspect.Ds4Pick :=
  let known := known repo siblings
  match (known.filter fun f => resident f.1 f.2 ≤ ceiling).argmax fun f => resident f.1 f.2 with
  | some f => some (picked f false)
  | none =>
      match (known.filter fun f => f.1.streams).argmin fun f => resident f.1 f.2 with
      | some f => some (picked f true)
      | none => (known.argmin fun f => resident f.1 f.2).map (picked · false)

variable {repo : String} {siblings : List Gguf.Sibling} {ceiling : Nat}

theorem file_ne (m : Ds4.Model) : file m ≠ "" := by
  intro empty
  have length := congrArg String.length empty
  rw [file, String.length_append] at length
  have five : ".gguf".length = 5 := by decide
  rw [five, String.length_empty] at length
  omega

/-- ds4 serves the file under a ceiling: its resident weights fit, or their experts are streamed. -/
def Serves (ceiling : Nat) (p : Inspect.Ds4Pick) : Prop :=
  p.resident ≤ ceiling ∨ p.streaming = true

/-- The file that is picked is served where any of the listed ones is. -/
theorem pick_serves_iff : (∃ p, pick repo siblings ceiling = some p ∧ p.file ≠ "" ∧ Serves ceiling p) ↔
    ∃ f ∈ known repo siblings, resident f.1 f.2 ≤ ceiling ∨ f.1.streams = true := by
  unfold pick
  extract_lets listed
  change _ ↔ ∃ f ∈ listed, _
  cases fits : (listed.filter fun f => resident f.1 f.2 ≤ ceiling).argmax fun f => resident f.1 f.2 with
  | some f =>
      obtain ⟨member, under⟩ := List.mem_filter.mp (List.argmax_mem fits)
      exact iff_of_true ⟨_, rfl, file_ne f.1, .inl (of_decide_eq_true under)⟩
        ⟨f, member, .inl (of_decide_eq_true under)⟩
  | none =>
      have beyond := List.filter_eq_nil_iff.mp (List.argmax_eq_none.mp fits)
      cases streams : (listed.filter fun f => f.1.streams).argmin fun f => resident f.1 f.2 with
      | some f =>
          obtain ⟨member, streams⟩ := List.mem_filter.mp (List.argmin_mem streams)
          exact iff_of_true ⟨_, rfl, file_ne f.1, .inr rfl⟩ ⟨f, member, .inr streams⟩
      | none =>
          have resides := List.filter_eq_nil_iff.mp (List.argmin_eq_none.mp streams)
          refine iff_of_false ?_ ?_
          · rintro ⟨p, chosen, -, serves⟩
            obtain ⟨f, least, rfl⟩ := Option.map_eq_some_iff.mp chosen
            rcases serves with under | streaming
            · exact beyond f (List.argmin_mem least) (decide_eq_true under)
            · cases streaming
          · rintro ⟨f, member, under | streams⟩
            · exact beyond f member (decide_eq_true under)
            · exact resides f member streams

/-- A larger ceiling serves what a smaller one does. -/
theorem pick_serves_mono {ceiling' : Nat} (le : ceiling ≤ ceiling')
    (served : ∃ p, pick repo siblings ceiling = some p ∧ p.file ≠ "" ∧ Serves ceiling p) :
    ∃ p, pick repo siblings ceiling' = some p ∧ p.file ≠ "" ∧ Serves ceiling' p := by
  obtain ⟨f, member, can⟩ := pick_serves_iff.mp served
  exact pick_serves_iff.mpr ⟨f, member, can.imp_left (le_trans · le)⟩

end Ds4Files

/-! ## The file that is fetched of a GGUF repository -/

/-- A size that fits a ceiling is known and still fits under a larger one, though of another file. -/
theorem Gguf.chosen_mono {siblings : List Gguf.Sibling} {ceiling ceiling' : Nat} (le : ceiling ≤ ceiling')
    (fits : 0 < ((choose siblings ceiling).map Prod.snd).getD (smallest siblings) ∧
      ((choose siblings ceiling).map Prod.snd).getD (smallest siblings) ≤ ceiling) :
    0 < ((choose siblings ceiling').map Prod.snd).getD (smallest siblings) ∧
      ((choose siblings ceiling').map Prod.snd).getD (smallest siblings) ≤ ceiling' := by
  cases larger : choose siblings ceiling' with
  | some f =>
      obtain ⟨single, under⟩ := choose_some larger
      exact ⟨(singles_listed single).2, under⟩
  | none =>
      have beyond := choose_eq_none.mp larger
      have smaller : choose siblings ceiling = none :=
        choose_eq_none.mpr fun f single => le.trans_lt (beyond f single)
      rw [smaller] at fits
      exact ⟨fits.1, fits.2.trans le⟩

namespace Inspect

/-- The card with the file that ds4 would serve of it under a ceiling. -/
def Card.under (card : Card) (modelId : String) (ceiling : Nat) : Card :=
  { card with
    ds4 := if Ds4Files.recognised modelId card.tags then some (Ds4Files.pick modelId card.siblings ceiling)
      else none }

/-- `inspect_model`, where ds4's files are picked under the machine's own ceiling. -/
def inspectUnder (m : Machine) (ceiling? : Option Nat) (deadDays : ℚ) (idle : String → Option ℚ)
    (modelId : String) (card : Card) : Fit :=
  inspectModel m ceiling? deadDays idle modelId (card.under modelId (ceiling?.getD m.ceilingBytes))

variable {m : Machine} {ceiling? : Option Nat} {deadDays : ℚ} {idle : String → Option ℚ}

theorem decideDs4_fits {fit : Fit} {ceiling : Nat} : (decideDs4 fit ceiling).verdict = .fits ↔
    fit.ds4File ≠ "" ∧ (fit.resident ≤ ceiling ∨ fit.streaming = true) := by
  unfold decideDs4
  extract_lets disk tables how
  split
  next absent => exact iff_of_false FitVerdict.noConfusion fun fits => fits.1 absent
  next listed =>
    split
    next over_ =>
      refine iff_of_false FitVerdict.noConfusion fun fits => ?_
      rcases fits.2 with under | streams
      · exact absurd over_.1 (Nat.not_lt_of_le under)
      · exact over_.2 streams
    next serves =>
      refine iff_of_true rfl ⟨listed, ?_⟩
      rw [not_and_or, Classical.not_not, Nat.not_lt] at serves
      exact serves

/-- What the upstream is asked of is not what the machine changes. -/
theorem decideUpstream_verdict (fit : Fit) (offered : List Runtime) (mention cuda : List String) :
    (decideUpstream deadDays idle
        { fit with offered := offered, cudaMentioned := mention, cuda := cuda }).verdict =
      (decideUpstream deadDays idle fit).verdict := by
  unfold decideUpstream
  extract_lets
  split_ifs <;> rfl

/-- What a candidate must be to fit. -/
theorem decide_fits_iff {fit : Fit} : (decide m ceiling? deadDays idle fit).verdict = .fits ↔
    ¬ Stranded m fit ∧
      if fit.ds4 then fit.ds4File ≠ "" ∧ (fit.resident ≤ ceiling?.getD m.ceilingBytes ∨ fit.streaming = true)
      else fit.smallest ≤ ceiling?.getD m.ceilingBytes ∧ (decideUpstream deadDays idle fit).verdict = .fits := by
  unfold decide
  extract_lets ceiling offered read
  by_cases stranded : Stranded m fit
  · rw [if_pos (stranded_iff.mpr stranded)]
    obtain ⟨first, rest, shape⟩ := List.exists_cons_of_ne_nil stranded.1
    refine iff_of_false ?_ fun fits => fits.1 stranded
    simp [offered, shape]
  · rw [if_neg fun all => stranded (stranded_iff.mp all), and_iff_right stranded]
    obtain ⟨mention, cuda, same⟩ := mentioned_sizes m { fit with offered := offered }
    have same : read = { fit with offered := offered, cudaMentioned := mention, cuda := cuda } := same
    clear_value read
    subst same
    by_cases ds4 : fit.ds4 = true
    · rw [if_pos (by exact ds4), if_pos ds4]
      exact decideDs4_fits
    · rw [if_neg (by exact ds4), if_neg ds4]
      split
      next unknown =>
        exact iff_of_false FitVerdict.noConfusion fun fits => absurd unknown.1 (Nat.not_lt_of_le fits.1)
      next =>
        split
        next heavy => exact iff_of_false FitVerdict.noConfusion fun fits => absurd heavy (Nat.not_lt_of_le fits.1)
        next light =>
          have under : fit.smallest ≤ ceiling?.getD m.ceilingBytes := Nat.le_of_not_lt light
          rw [decideUpstream_verdict, and_iff_right under]

theorem decide_fits_ds4 {fit : Fit} (ds4 : fit.ds4 = true) :
    (decide m ceiling? deadDays idle fit).verdict = .fits ↔
      ¬ Stranded m fit ∧ fit.ds4File ≠ "" ∧
        (fit.resident ≤ ceiling?.getD m.ceilingBytes ∨ fit.streaming = true) := by
  rw [decide_fits_iff, if_pos ds4]

/-- Every runtime of one machine is another's. -/
def Covers (big small : Machine) : Prop :=
  ∀ runtime, small.has runtime = true → big.has runtime = true

/-- The refusals that are for the machine's sake. -/
def ForMachine (fit : Fit) : Prop :=
  fit.verdict = .tooBig ∨ ∃ runtime, fit.verdict = .needs runtime

/-- What fits one machine fits another, and what the other refuses for its own sake does not fit the one. -/
def KeptBy (small big : Fit) : Prop :=
  (small.verdict = .fits → big.verdict = .fits) ∧ (ForMachine big → small.verdict ≠ .fits)

theorem keptBy_of {small big : Fit} (kept : small.verdict = .fits → big.verdict = .fits) : KeptBy small big := by
  refine ⟨kept, fun refused fits => ?_⟩
  rcases refused with heavy | ⟨runtime, needs⟩
  · exact FitVerdict.noConfusion ((kept fits).symm.trans heavy)
  · exact FitVerdict.noConfusion ((kept fits).symm.trans needs)

variable {small big : Machine} {smallCeiling? bigCeiling? : Option Nat}

theorem not_stranded_mono (covers : Covers big small) {read read' : Fit} (same : offers read' = offers read)
    (runs : ¬ Stranded small read) : ¬ Stranded big read' := by
  rintro ⟨some_, lacks⟩
  rw [same] at some_ lacks
  refine runs ⟨some_, fun runtime offered => ?_⟩
  exact Bool.eq_false_iff.mpr fun has => Bool.eq_false_iff.mp (lacks runtime offered) (covers runtime has)

theorem decide_fits_mono (covers : Covers big small)
    (le : smallCeiling?.getD small.ceilingBytes ≤ bigCeiling?.getD big.ceilingBytes) {read : Fit}
    (fits : (decide small smallCeiling? deadDays idle read).verdict = .fits) :
    (decide big bigCeiling? deadDays idle read).verdict = .fits := by
  obtain ⟨runs, under⟩ := decide_fits_iff.mp fits
  refine decide_fits_iff.mpr ⟨not_stranded_mono covers rfl runs, ?_⟩
  by_cases ds4 : read.ds4 = true
  · rw [if_pos ds4] at under ⊢
    exact ⟨under.1, under.2.imp_left (le_trans · le)⟩
  · rw [if_neg ds4] at under ⊢
    exact ⟨under.1.trans le, under.2⟩

theorem inspect_fits_mono (covers : Covers big small)
    (le : smallCeiling?.getD small.ceilingBytes ≤ bigCeiling?.getD big.ceilingBytes) (kbCap kb : Nat) {read : Fit}
    (fits : (inspect small smallCeiling? deadDays idle kbCap kb read).verdict = .fits) :
    (inspect big bigCeiling? deadDays idle kbCap kb read).verdict = .fits := by
  rw [inspect] at fits ⊢
  by_cases large : kb ≠ 0 ∧ kbCap < kb
  · rw [if_pos large] at fits
    cases fits
  · rw [if_neg large] at fits ⊢
    exact decide_fits_mono covers le fits

section Card

variable {modelId : String} {card : Card} {ceiling ceiling' : Nat}

/-- The runtimes that a card offers do not depend on the file that is picked. -/
theorem offers_under : offers (readCard modelId (card.under modelId ceiling') ceiling') =
    offers (readCard modelId (card.under modelId ceiling) ceiling) := by
  unfold offers readCard Card.under
  cases Ds4Files.recognised modelId card.tags <;> rfl

theorem total_mono (plain : card.ds4 = none) (le : ceiling ≤ ceiling')
    (fits : 0 < card.total ceiling ∧ card.total ceiling ≤ ceiling) :
    0 < card.total ceiling' ∧ card.total ceiling' ≤ ceiling' := by
  rw [Card.total, plain] at fits ⊢
  simp only at fits ⊢
  by_cases only : (card.text && Gguf.only card.siblings) = true
  · rw [if_pos only] at fits ⊢
    exact Gguf.chosen_mono le fits
  · rw [if_neg only] at fits ⊢
    exact ⟨fits.1, fits.2.trans le⟩

/-- Whether a card's upstream is dead is read off its last commit. -/
theorem readCard_dead {read : Card} : Dead deadDays idle (readCard modelId read ceiling) ↔
    Dead deadDays idle { lastCommit := Text.strip read.lastModified } := by
  rw [Dead, Dead, readCard]

theorem readCard_smallest {read : Card} : (readCard modelId read ceiling).smallest = read.total ceiling := rfl

theorem readCard_unsized {read : Card} : (readCard modelId read ceiling).unsized ≠ [] ∧
    (readCard modelId read ceiling).weights = [] ↔ ¬ 0 < read.total ceiling := by
  simp only [readCard]
  by_cases sized : 0 < read.total ceiling
  · rw [if_pos sized, if_pos sized]
    exact iff_of_false (fun unsized => unsized.1 rfl) (absurd sized)
  · rw [if_neg sized, if_neg sized]
    exact iff_of_true ⟨List.cons_ne_nil _ _, rfl⟩ sized

/-- A file that ds4 serves is picked under the larger ceiling too. -/
theorem served_mono (le : ceiling ≤ ceiling') (recognised : Ds4Files.recognised modelId card.tags = true)
    (serves : (readCard modelId (card.under modelId ceiling) ceiling).ds4File ≠ "" ∧
      ((readCard modelId (card.under modelId ceiling) ceiling).resident ≤ ceiling ∨
        (readCard modelId (card.under modelId ceiling) ceiling).streaming = true)) :
    (readCard modelId (card.under modelId ceiling') ceiling').ds4File ≠ "" ∧
      ((readCard modelId (card.under modelId ceiling') ceiling').resident ≤ ceiling' ∨
        (readCard modelId (card.under modelId ceiling') ceiling').streaming = true) := by
  have join : ∀ ceiling, (card.under modelId ceiling).ds4.join = Ds4Files.pick modelId card.siblings ceiling := by
    intro ceiling
    rw [Card.under, if_pos recognised, Option.join_some]
  simp only [readCard, join] at serves ⊢
  have served : ∃ p, Ds4Files.pick modelId card.siblings ceiling = some p ∧ p.file ≠ "" ∧
      Ds4Files.Serves ceiling p := by
    cases chosen : Ds4Files.pick modelId card.siblings ceiling with
    | none =>
        rw [chosen] at serves
        exact absurd rfl serves.1
    | some p =>
        rw [chosen] at serves
        exact ⟨p, rfl, serves⟩
  obtain ⟨p, chosen, serves'⟩ := Ds4Files.pick_serves_mono le served
  rw [chosen]
  exact serves'

theorem readCard_ds4 : (readCard modelId (card.under modelId ceiling) ceiling).ds4 =
    Ds4Files.recognised modelId card.tags := by
  rw [readCard, Card.under]
  cases Ds4Files.recognised modelId card.tags <;> rfl

theorem under_plain (other : ¬ Ds4Files.recognised modelId card.tags = true) :
    card.under modelId ceiling = { card with ds4 := none } := by
  rw [Card.under, if_neg other]

theorem inspectUnder_fits_mono (covers : Covers big small)
    (le : smallCeiling?.getD small.ceilingBytes ≤ bigCeiling?.getD big.ceilingBytes)
    (fits : (inspectUnder small smallCeiling? deadDays idle modelId card).verdict = .fits) :
    (inspectUnder big bigCeiling? deadDays idle modelId card).verdict = .fits := by
  by_cases recognised : Ds4Files.recognised modelId card.tags = true
  · rw [inspectUnder, inspectModel, decide_fits_ds4 (readCard_ds4.trans recognised)] at fits ⊢
    obtain ⟨runs, served⟩ := fits
    exact ⟨not_stranded_mono covers offers_under runs, served_mono le recognised served⟩
  · have plain : ∀ ceiling, (readCard modelId (card.under modelId ceiling) ceiling).ds4 = false :=
      fun _ => readCard_ds4.trans (Bool.eq_false_iff.mpr recognised)
    rw [inspectUnder, inspectModel, decide_fits rfl (plain _), readCard_dead, readCard_unsized, Classical.not_not,
      readCard_smallest, under_plain recognised] at fits ⊢
    obtain ⟨runs, under, alive, sized⟩ := fits
    obtain ⟨sized, under⟩ := @total_mono { card with ds4 := none } _ _ rfl le ⟨sized, under⟩
    have offered := @offers_under modelId card (smallCeiling?.getD small.ceilingBytes)
      (bigCeiling?.getD big.ceilingBytes)
    rw [under_plain recognised, under_plain recognised] at offered
    exact ⟨not_stranded_mono covers offered runs, under, alive, sized⟩

end Card

/-- A machine that has every runtime of another, and a ceiling at least as large, admits what the other admits:
every model card, whatever files it lists, and every source tree that was read. -/
theorem bigger_keeps (small big : Machine) (smallCeiling? bigCeiling? : Option Nat) (covers : Covers big small)
    (le : smallCeiling?.getD small.ceilingBytes ≤ bigCeiling?.getD big.ceilingBytes) (deadDays : ℚ)
    (idle : String → Option ℚ) :
    (∀ modelId card, KeptBy (inspectUnder small smallCeiling? deadDays idle modelId card)
      (inspectUnder big bigCeiling? deadDays idle modelId card)) ∧
      ∀ kbCap kb read, KeptBy (inspect small smallCeiling? deadDays idle kbCap kb read)
        (inspect big bigCeiling? deadDays idle kbCap kb read) :=
  ⟨fun _ _ => keptBy_of (inspectUnder_fits_mono covers le),
    fun kbCap kb _ => keptBy_of (inspect_fits_mono covers le kbCap kb)⟩

/-- A machine with another runtime besides. -/
def mlxMachine : Machine :=
  { llamacppMachine with runtimes := [.cpu, .llamacpp, .mlx], always := List.mem_cons_self }

/-- One file for each of two quantisations. -/
def quantised : Card :=
  { siblings := [⟨"M-Q6_K.gguf", 6 * GIB⟩, ⟨"M-Q8_0.gguf", 14 * GIB⟩], lane := "code" }

/-- The larger ceiling sizes a repository by a larger file, which fits it as well. -/
theorem bigger_keeps_quantised :
    (inspectUnder llamacppMachine (some (8 * GIB)) UPSTREAM_DEAD_DAYS (fun _ => none) "org/M-GGUF" quantised).smallest =
        6 * GIB ∧
      (inspectUnder mlxMachine none UPSTREAM_DEAD_DAYS (fun _ => none) "org/M-GGUF" quantised).smallest = 14 * GIB ∧
        (inspectUnder mlxMachine none UPSTREAM_DEAD_DAYS (fun _ => none) "org/M-GGUF" quantised).verdict = .fits := by
  have covers : Covers mlxMachine llamacppMachine := by
    intro runtime has
    cases runtime <;> first | rfl | exact absurd has (by decide)
  have kept := (bigger_keeps llamacppMachine mlxMachine (some (8 * GIB)) none covers (by decide)
    UPSTREAM_DEAD_DAYS fun _ => none).1 "org/M-GGUF" quantised
  exact ⟨by decide, by decide, kept.1 (by decide)⟩

end Inspect

end LocalHarness.Tiers
