import LocalHarness.Tiers.FetchRun
import LocalHarness.Tiers.Gguf
import LocalHarness.Tiers.Inspect

/-! # What inspect admits and what is fetched

Inspect reads the size of a repository off its listing and says whether it can run here; the
fetch tier picks the file later, off the same listing. A repository of GGUF files is sized as
the file that would be picked, or else as the cheapest variant it has.
-/

namespace LocalHarness.Tiers

open LocalHarness.Library

namespace Inspect

/-- The file of ds4's own that a recognised repository would be served as. -/
structure Ds4Pick where
  file : String
  size : Nat
  resident : Nat
  streaming : Bool

/-- What a model card says: its files, the lane it names, and what ds4 picks of a repository
    it recognises. `ggufNamed` is whether the model's name alone says its weights are GGUF. -/
structure Card where
  siblings : List Gguf.Sibling
  lane : String := ""
  libraryName : String := ""
  tags : List String := []
  ggufNamed : Bool := false
  lastModified : String := ""
  ds4 : Option (Option Ds4Pick) := none

def TEXT_SERVED : List String := ["code", "web", "svg", "extract", "agent"]

namespace Card

/-- The lanes a text model serves, and no lane at all. -/
def text (card : Card) : Bool :=
  (Fetching.canonical card.lane) ∈ "" :: TEXT_SERVED

def isGguf (card : Card) : Bool :=
  Text.lower (Text.strip card.libraryName) = "gguf" ||
    (card.tags.any fun t => Text.lower (Text.strip t) = "gguf") ||
      (card.siblings.any fun f => Text.ends (Text.lower f.rfilename) ".gguf") || card.ggufNamed

/-- The size of what would be fetched. -/
def total (card : Card) (ceiling : Nat) : Nat :=
  match card.ds4 with
  | some picked => (picked.map Ds4Pick.size).getD 0
  | none =>
      if card.text && Gguf.only card.siblings then
        ((Gguf.choose card.siblings ceiling).map Prod.snd).getD (Gguf.smallest card.siblings)
      else (card.siblings.map Gguf.Sibling.size).sum

end Card

/-- What a card says that bears on whether the model can run here. -/
def readCard (modelId : String) (card : Card) (ceiling : Nat) : Fit :=
  let total := card.total ceiling
  let picked := card.ds4.join
  { registry := HUGGINGFACE
    weights := if 0 < total then [(modelId, total)] else []
    largest := total
    smallest := total
    unsized := if 0 < total then [] else [modelId]
    mlx := Text.lower card.libraryName = "mlx" || (card.tags.map Text.lower).contains "mlx"
    gguf := card.isGguf && card.ds4.isNone
    ds4 := card.ds4.isSome
    resident := (picked.map Ds4Pick.resident).getD 0
    streaming := (picked.map Ds4Pick.streaming).getD false
    ds4File := (picked.map Ds4Pick.file).getD ""
    lastCommit := Text.strip card.lastModified }

def inspectModel (m : Machine) (ceiling? : Option Nat) (deadDays : ℚ) (idle : String → Option ℚ)
    (modelId : String) (card : Card) : Fit :=
  decide m ceiling? deadDays idle (readCard modelId card (ceiling?.getD m.ceilingBytes))

/-- The last commit is too long ago. -/
def Dead (deadDays : ℚ) (idle : String → Option ℚ) (fit : Fit) : Prop :=
  fit.lastCommit ≠ "" ∧ ∃ days, idle fit.lastCommit = some days ∧ deadDays < days

theorem decideUpstream_fits {deadDays : ℚ} {idle : String → Option ℚ} {fit : Fit}
    (card : fit.registry = HUGGINGFACE) :
    (decideUpstream deadDays idle fit).verdict = .fits ↔
      ¬ Dead deadDays idle fit ∧ ¬ (fit.unsized ≠ [] ∧ fit.weights = []) := by
  have dead : (if fit.lastCommit = "" then none else idle fit.lastCommit).any (deadDays < ·) = true ↔
      Dead deadDays idle fit := by
    rw [Dead]
    split
    next none => simp [none]
    next dated => cases idle fit.lastCommit <;> simp [dated]
  unfold decideUpstream
  extract_lets days aged
  split
  next gone => exact iff_of_false nofun fun alive => alive.1 (dead.mp gone)
  next alive =>
    rw [if_neg (by simp [card])]
    split
    next unread => exact iff_of_false nofun fun sized => sized.2 unread
    next sized => exact iff_of_true rfl ⟨fun gone => alive (dead.mpr gone), sized⟩

/-- A card's model fits this machine where a runtime it offers is here, its size is known and
    under the ceiling, and its upstream is alive. -/
theorem decide_fits {m : Machine} {ceiling? : Option Nat} {deadDays : ℚ} {idle : String → Option ℚ}
    {fit : Fit} (card : fit.registry = HUGGINGFACE) (plain : fit.ds4 = false) :
    (decide m ceiling? deadDays idle fit).verdict = .fits ↔
      ¬ Stranded m fit ∧ fit.smallest ≤ ceiling?.getD m.ceilingBytes ∧
        ¬ Dead deadDays idle fit ∧ ¬ (fit.unsized ≠ [] ∧ fit.weights = []) := by
  unfold decide
  extract_lets ceiling offered read
  by_cases stranded : Stranded m fit
  · rw [if_pos (stranded_iff.mpr stranded)]
    obtain ⟨first, rest, shape⟩ := List.exists_cons_of_ne_nil stranded.1
    refine iff_of_false ?_ fun fits => fits.1 stranded
    simp [offered, shape]
  · rw [if_neg fun all => stranded (stranded_iff.mp all)]
    obtain ⟨mention, cuda, same⟩ := mentioned_sizes m { fit with offered := offered }
    have same : read = { fit with offered := offered, cudaMentioned := mention, cuda := cuda } := same
    clear_value read
    subst same
    rw [if_neg (by simp [plain])]
    split
    next unknown => exact iff_of_false nofun fun fits => absurd fits.2.1 (by simp only at unknown; omega)
    next =>
      split
      next heavy => exact iff_of_false nofun fun fits => absurd fits.2.1 (by simp only at heavy; omega)
      next light =>
        have under : fit.smallest ≤ ceiling := Nat.le_of_not_lt light
        refine (decideUpstream_fits (by exact card)).trans ?_
        exact ⟨fun fits => ⟨stranded, under, fits⟩, fun fits => fits.2.2⟩

/-- The sizes that were read are the sizes recorded. -/
theorem decide_sizes (m : Machine) (ceiling? : Option Nat) (deadDays : ℚ)
    (idle : String → Option ℚ) (fit : Fit) :
    (decide m ceiling? deadDays idle fit).smallest = fit.smallest ∧
      (decide m ceiling? deadDays idle fit).largest = fit.largest := by
  have ds4 : ∀ ceiling (read : Fit), (decideDs4 read ceiling).smallest = read.smallest ∧
      (decideDs4 read ceiling).largest = read.largest := by
    intro ceiling read
    unfold decideDs4
    extract_lets disk tables
    split_ifs <;> exact ⟨rfl, rfl⟩
  have upstream : ∀ read : Fit, (decideUpstream deadDays idle read).smallest = read.smallest ∧
      (decideUpstream deadDays idle read).largest = read.largest := by
    intro read
    unfold decideUpstream
    extract_lets days aged
    split_ifs <;> exact ⟨rfl, rfl⟩
  unfold decide
  extract_lets ceiling offered read
  obtain ⟨mention, cuda, same⟩ := mentioned_sizes m { fit with offered := offered }
  have same : read = { fit with offered := offered, cudaMentioned := mention, cuda := cuda } := same
  clear_value read
  subst same
  split
  next => exact ⟨rfl, rfl⟩
  next =>
    split
    next => exact ds4 ceiling _
    next =>
      split
      next => exact ⟨rfl, rfl⟩
      next =>
        split
        next => exact ⟨rfl, rfl⟩
        next => exact upstream _

end Inspect

namespace Fetching

/-- What is asked of the hub: one file, or the whole repository. -/
inductive Asked
  | file (name : String)
  | snapshot
  deriving DecidableEq

/-- What goes wrong is told under the repository's name, and cut short. -/
def fetchError (repo why : String) : String :=
  repo ++ ": " ++ .ofList (why.toList.take 200)

/-- The file of a GGUF-only repository, `none` inside where none fits, and `none` of another
    kind of repository. -/
def ggufPick (repo : String) (listing : Except String (List Gguf.Sibling)) (ceiling : Nat) :
    Except String (Option (Option (String × Nat))) :=
  match listing with
  | .error why => .error (fetchError repo ("listing failed: " ++ why))
  | .ok siblings => .ok (if Gguf.only siblings then some (Gguf.choose siblings ceiling) else none)

/-- Weights into the shared cache. `listing` is what the hub lists of the repository and
    `transfer` what comes of asking it for something. -/
def download (repo : String) (text : Bool) (listing : Except String (List Gguf.Sibling))
    (ceiling : Nat) (transfer : Asked → Except String String) : Except String String :=
  let single := if text then ggufPick repo listing ceiling else .ok none
  let where_ : Except String String :=
    match single with
    | .error why => .error why
    | .ok (some none) => .error "no single GGUF file fits the ceiling"
    | .ok (some (some pick)) => transfer (.file pick.1)
    | .ok none => transfer .snapshot
  where_.mapError (fetchError repo)

theorem download_file {repo : String} {siblings : List Gguf.Sibling} {ceiling : Nat}
    (only : Gguf.only siblings = true) {f : String × Nat}
    (chosen : Gguf.choose siblings ceiling = some f) (transfer : Asked → Except String String) :
    download repo true (.ok siblings) ceiling transfer =
      (transfer (.file f.1)).mapError (fetchError repo) := by
  simp only [download, ggufPick, only, chosen, if_true]

theorem download_none {repo : String} {siblings : List Gguf.Sibling} {ceiling : Nat}
    (only : Gguf.only siblings = true) (none : Gguf.choose siblings ceiling = none)
    (transfer : Asked → Except String String) :
    download repo true (.ok siblings) ceiling transfer =
      .error (fetchError repo "no single GGUF file fits the ceiling") := by
  simp only [download, ggufPick, only, none, if_true, Except.mapError]

end Fetching

/-- A GGUF-only repository of a text model, and none of ds4's own, which are fetched by hand. -/
structure TextRepository where
  name : String
  card : Inspect.Card
  text : card.text = true
  only : Gguf.only card.siblings = true
  plain : card.ds4 = none

/-- What inspect admits can be fetched under the same ceiling, and what is fetched has the size
    inspect recorded. -/
def FetchedAsSized (m : Machine) (ceiling? : Option Nat) (deadDays : ℚ) (idle : String → Option ℚ)
    (repo : TextRepository) : Prop :=
  let fit := Inspect.inspectModel m ceiling? deadDays idle repo.name repo.card
  fit.verdict = .fits →
    ∃ f ∈ repo.card.siblings, fit.smallest = f.size ∧ fit.largest = f.size ∧
      ∀ transfer, Fetching.download repo.name true (.ok repo.card.siblings)
        (ceiling?.getD m.ceilingBytes) transfer =
          (transfer (.file f.rfilename)).mapError (Fetching.fetchError repo.name)

/-- What inspect reads of a repository's card. -/
def TextRepository.read (repo : TextRepository) (ceiling : Nat) : Inspect.Fit :=
  Inspect.readCard repo.name repo.card ceiling

theorem TextRepository.total (repo : TextRepository) (ceiling : Nat) :
    repo.card.total ceiling = ((Gguf.choose repo.card.siblings ceiling).map Prod.snd).getD
      (Gguf.smallest repo.card.siblings) := by
  rw [Inspect.Card.total, repo.plain, repo.text, repo.only]
  rfl

theorem TextRepository.fits {m : Machine} {ceiling? : Option Nat} {deadDays : ℚ}
    {idle : String → Option ℚ} {repo : TextRepository} :
    (Inspect.inspectModel m ceiling? deadDays idle repo.name repo.card).verdict = .fits ↔
      ¬ Inspect.Stranded m (repo.read (ceiling?.getD m.ceilingBytes)) ∧
        ¬ Inspect.Dead deadDays idle (repo.read (ceiling?.getD m.ceilingBytes)) ∧
          0 < repo.card.total (ceiling?.getD m.ceilingBytes) ∧
            repo.card.total (ceiling?.getD m.ceilingBytes) ≤ ceiling?.getD m.ceilingBytes := by
  have plain : (repo.read (ceiling?.getD m.ceilingBytes)).ds4 = false := by
    rw [TextRepository.read, Inspect.readCard, repo.plain]
    rfl
  refine (Inspect.decide_fits rfl plain).trans ?_
  have sized : ¬ ((repo.read (ceiling?.getD m.ceilingBytes)).unsized ≠ [] ∧
      (repo.read (ceiling?.getD m.ceilingBytes)).weights = []) ↔
        0 < repo.card.total (ceiling?.getD m.ceilingBytes) := by
    simp only [TextRepository.read, Inspect.readCard]
    split <;> simp_all
  rw [sized]
  exact ⟨fun ⟨here, under, alive, known⟩ => ⟨here, alive, known, under⟩,
    fun ⟨here, alive, known, under⟩ => ⟨here, under, alive, known⟩⟩

/-- With no file to pick, nothing may be admitted. -/
theorem fetchedAsSized_of_none {m : Machine} {ceiling? : Option Nat} {deadDays : ℚ}
    {idle : String → Option ℚ} {repo : TextRepository}
    (none : Gguf.choose repo.card.siblings (ceiling?.getD m.ceilingBytes) = none) :
    FetchedAsSized m ceiling? deadDays idle repo ↔
      ¬ (Inspect.inspectModel m ceiling? deadDays idle repo.name repo.card).verdict = .fits := by
  constructor
  · intro fetched admitted
    obtain ⟨f, -, -, -, transferred⟩ := fetched admitted
    have asked := transferred fun _ => .ok ""
    rw [Fetching.download_none repo.only none] at asked
    cases asked
  · exact fun refused admitted => absurd admitted refused

/-- What inspect admits is fetched as it was sized, unless no single file fits and a set of
    parts does: the set is what inspect sized, and no set is fetched. -/
theorem fetchedAsSized_iff (m : Machine) (ceiling? : Option Nat) (deadDays : ℚ)
    (idle : String → Option ℚ) (repo : TextRepository) :
    FetchedAsSized m ceiling? deadDays idle repo ↔
      Inspect.Stranded m (repo.read (ceiling?.getD m.ceilingBytes)) ∨
        Inspect.Dead deadDays idle (repo.read (ceiling?.getD m.ceilingBytes)) ∨
          (∃ f ∈ Gguf.singles repo.card.siblings, f.2 ≤ ceiling?.getD m.ceilingBytes) ∨
            ∀ set ∈ Gguf.shardSets repo.card.siblings, ceiling?.getD m.ceilingBytes < set.2 := by
  have sizes := Inspect.decide_sizes m ceiling? deadDays idle
    (repo.read (ceiling?.getD m.ceilingBytes))
  have fits := @TextRepository.fits m ceiling? deadDays idle repo
  rw [repo.total] at fits
  cases chosen : Gguf.choose repo.card.siblings (ceiling?.getD m.ceilingBytes) with
  | some f =>
      obtain ⟨single, under⟩ := Gguf.choose_some chosen
      refine iff_of_true (fun _ => ?_) (.inr (.inr (.inl ⟨f, single, under⟩)))
      have total : repo.card.total (ceiling?.getD m.ceilingBytes) = f.2 := by
        rw [repo.total, chosen]
        rfl
      exact ⟨⟨f.1, f.2⟩, (Gguf.singles_listed single).1, sizes.1.trans total, sizes.2.trans total,
        Fetching.download_file repo.only chosen⟩
  | none =>
      have beyond : ¬ ∃ f ∈ Gguf.singles repo.card.siblings, f.2 ≤ ceiling?.getD m.ceilingBytes := by
        rintro ⟨f, single, under⟩
        exact absurd under (Nat.not_le_of_lt (Gguf.choose_eq_none.mp chosen f single))
      have sets : (∀ set ∈ Gguf.shardSets repo.card.siblings, ceiling?.getD m.ceilingBytes < set.2) ↔
          ¬ ∃ set ∈ Gguf.shardSets repo.card.siblings, set.2 ≤ ceiling?.getD m.ceilingBytes := by
        simp only [not_exists, not_and, Nat.not_le]
      rw [fetchedAsSized_of_none chosen, fits, chosen, Option.map_none, Option.getD_none, Gguf.smallest_fits chosen, sets]
      simp only [not_and_or, Classical.not_not, beyond, false_or]

/-- A machine with llama.cpp and the memory of the one the ceiling was measured on. -/
def llamacppMachine : Machine where
  runtimes := [.cpu, .llamacpp]
  always := List.mem_cons_self
  accelerator := { discrete := false, totalGb := 0 }
  systemMemoryGb := (32 : ℕ)
  versions := fun _ => none

/-- Two parts of four GiB each, and nothing else. -/
def splitRepository : TextRepository where
  name := "org/M-GGUF"
  card :=
    { siblings := [⟨"M-Q4_K_M-00001-of-00002.gguf", 4 * GIB⟩, ⟨"M-Q4_K_M-00002-of-00002.gguf", 4 * GIB⟩]
      lane := "code" }
  text := by decide
  only := by decide
  plain := rfl

/-- A repository of one set of parts is admitted at the size of the set, and nothing of it can be
    fetched. -/
theorem set_admitted :
    let fit := Inspect.inspectModel llamacppMachine none Inspect.UPSTREAM_DEAD_DAYS (fun _ => none)
      splitRepository.name splitRepository.card
    (fit.verdict = .fits ∧ fit.smallest = 8 * GIB) ∧
      (∀ transfer, Fetching.download splitRepository.name true (.ok splitRepository.card.siblings)
        llamacppMachine.ceilingBytes transfer =
          .error "org/M-GGUF: no single GGUF file fits the ceiling") ∧
        ¬ FetchedAsSized llamacppMachine none Inspect.UPSTREAM_DEAD_DAYS (fun _ => none)
          splitRepository := by
  intro fit
  have admitted : fit.verdict = .fits ∧ fit.smallest = 8 * GIB := by decide
  have none_ : Gguf.choose splitRepository.card.siblings llamacppMachine.ceilingBytes = none := by
    decide
  have told : Fetching.fetchError splitRepository.name "no single GGUF file fits the ceiling" =
      "org/M-GGUF: no single GGUF file fits the ceiling" := by decide
  refine ⟨admitted, fun transfer => ?_, fun fetched => ?_⟩
  · exact (Fetching.download_none splitRepository.only none_ transfer).trans (congrArg Except.error told)
  · exact (fetchedAsSized_of_none none_).mp fetched admitted.1

end LocalHarness.Tiers
