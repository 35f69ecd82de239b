import LocalHarness.Engines.Names
import LocalHarness.Library.Suffixed

/-! # One name, one command

The name of an engine is the row of its results and, with `/` written `_`, the file name of its
artifacts. Two specs that share one should build the same command.
-/

namespace LocalHarness.Engines

open LocalHarness.Library

namespace Reading

def label (r : Reading) : String := labelOf r.engine r.model r.options

/-- The options its name shows, in the order of their keys. -/
def shown (r : Reading) : List (String × String) := keep r.options (alreadyOf r.engine)

def loaded (r : Reading) : String := loadedOf r.engine r.model

/-- The reading without the options that only say where something is. -/
def bare (r : Reading) : Reading :=
  { r with options := (r.options.erase "root").erase "lm" }

end Reading

/-- The engine of a spec, its `root` and `lm` left to the place. -/
def portable (spec : String) : Except String Engine := do
  build (← read spec).bare

/-! ## How a name is written -/

/-- A name as the row of its results. -/
def asRow : Char → Char := id

/-- A name in the file name of an artifact. -/
def asFile (c : Char) : Char := if c = '/' then '_' else c

def written (f : Char → Char) (text : String) : List Char := text.toList.map f

/-- A way to write names that keeps the marks between their parts. -/
structure Spelling (f : Char → Char) : Prop where
  mark : ∀ c, f c = '@' ↔ c = '@'
  comma : ∀ c, f c = ',' ↔ c = ','
  eq : ∀ c, f c = '=' ↔ c = '='
  engines : ∀ entry ∈ BUILDERS, written f entry.1 = entry.1.toList ∧ f '/' ∉ entry.1.toList

theorem asRow_spelling : Spelling asRow where
  mark := fun _ => Iff.rfl
  comma := fun _ => Iff.rfl
  eq := fun _ => Iff.rfl
  engines := by
    simp only [BUILDERS, List.forall_mem_cons, List.not_mem_nil, false_implies, implies_true]
    decide

theorem asFile_spelling : Spelling asFile where
  mark := by
    intro c
    unfold asFile
    split
    next slash => simp [slash]
    next => rfl
  comma := by
    intro c
    unfold asFile
    split
    next slash => simp [slash]
    next => rfl
  eq := by
    intro c
    unfold asFile
    split
    next slash => simp [slash]
    next => rfl
  engines := by
    simp only [BUILDERS, List.forall_mem_cons, List.not_mem_nil, false_implies, implies_true]
    decide

section

variable {f : Char → Char}

theorem written_append (a b : String) : written f (a ++ b) = written f a ++ written f b := by
  rw [written, String.toList_append, List.map_append, written, written]

/-- An option as its two parts are written. -/
def writtenOption (f : Char → Char) (option : String × String) : List Char × List Char :=
  (written f option.1, written f option.2)

def shownAs (f : Char → Char) (r : Reading) : List (List Char × List Char) :=
  r.shown.map (writtenOption f)

theorem written_option (spelling : Spelling f) (option : String × String) :
    written f (option.1 ++ "=" ++ option.2) = Suffixed.item '=' (writtenOption f option) := by
  have eq : f '=' = '=' := (spelling.eq '=').mpr rfl
  simp [written, Suffixed.item, writtenOption, eq]

theorem written_joined (spelling : Spelling f) (option : String × String)
    (rest : List (String × String)) :
    written f (",".intercalate ((option :: rest).map fun item => item.1 ++ "=" ++ item.2)) =
      Suffixed.item '=' (writtenOption f option) ++
        Suffixed.more ',' '=' (rest.map (writtenOption f)) := by
  have comma : f ',' = ',' := (spelling.comma ',').mpr rfl
  induction rest generalizing option with
  | nil =>
      rw [List.map_singleton, String.intercalate_singleton, written_option spelling]
      exact (List.append_nil _).symm
  | cons next rest ih =>
      have later := ih next
      rw [List.map_cons] at later
      rw [List.map_cons, List.map_cons, String.intercalate_cons_cons, written_append, written_append,
        later, written_option spelling, List.map_cons, Suffixed.more]
      simp [written, comma]

theorem written_distinguish (spelling : Spelling f) (options : Dict String) (already : List String) :
    written f (distinguish options already) =
      Suffixed.suffix '@' ',' '=' ((keep options already).map (writtenOption f)) := by
  have mark : f '@' = '@' := (spelling.mark '@').mpr rfl
  rw [distinguish]
  cases keep options already with
  | nil => rfl
  | cons option rest =>
      rw [if_neg (List.cons_ne_nil option rest), written_append, written_joined spelling, List.map_cons,
        Suffixed.suffix]
      simp [written, mark]

end

/-! ## Readings -/

/-- What a spec is read as, when it is read. -/
structure ReadAs (spec : String) (r : Reading) : Prop where
  engine : r.engine = Text.strip (Text.partition (Text.partition spec ',').1 ':').1
  known : r.engine ∈ engine_names
  model : r.model = Text.strip (Text.partition (Text.partition spec ',').1 ':').2
  chunks : ∀ chunk ∈ Text.chunks (Text.partition spec ',').2, statedOf chunk ≠ none
  options : r.options = Dict.ofItems (stated (Text.chunks (Text.partition spec ',').2))
  spec_ : r.spec = spec

theorem read_ok_iff {spec : String} {r : Reading} : read spec = .ok r ↔ ReadAs spec r := by
  unfold read
  extract_lets head engine
  constructor
  · intro ok
    by_cases unknown : engine ∉ engine_names
    · rw [if_pos unknown] at ok
      cases ok
    · rw [if_neg unknown] at ok
      obtain ⟨options, parsed, made⟩ := bind_ok ok
      obtain ⟨chunks, options_⟩ := parse_options_ok_iff.mp parsed
      rw [pure_ok made]
      refine ⟨?_, not_not.mp unknown, ?_, chunks, options_, ?_⟩ <;> with_reducible rfl
  · intro readAs
    obtain ⟨spec_, engine_, model_, options_⟩ := r
    obtain ⟨same, known, models, chunks, options, specs⟩ := readAs
    have parsed : parse_options (Text.partition spec ',').2 spec = .ok options_ :=
      parse_options_ok_iff.mpr ⟨chunks, options⟩
    have inside : engine ∈ engine_names := by
      rw [same] at known
      exact known
    rw [if_neg (not_not.mpr inside), parsed]
    change Except.ok (Reading.mk spec engine (Text.strip (Text.partition head ':').2) options_) = _
    rw [Except.ok.injEq, Reading.mk.injEq]
    exact ⟨specs.symm, same.symm, models.symm, rfl⟩

theorem comma_not_mem_chunks {tail chunk : String} (member : chunk ∈ Text.chunks tail) :
    ',' ∉ chunk.toList := by
  obtain ⟨part, inside, rfl⟩ := List.mem_map.mp (List.mem_filter.mp member).1
  intro comma
  rw [Text.strip, String.toList_ofList] at comma
  have within := (List.rdropWhile_prefix Text.isSpace _).subset comma
  exact Text.clean_of_mem_split inside ((List.dropWhile_sublist _).subset within)

/-- No value of an option holds a comma. -/
theorem ReadAs.values {spec : String} {r : Reading} (readAs : ReadAs spec r) {key value : String}
    (found : r.options.lookup key = some value) : ',' ∉ value.toList := by
  rw [readAs.options] at found
  obtain ⟨chunk, member, states⟩ := List.mem_filterMap.mp (Dict.mem_of_lookup_ofItems found)
  obtain ⟨pair, keyed, rfl, rfl⟩ : ∃ pair, Text.keyValue chunk = some pair ∧ pair.1 = key ∧
      Text.strip pair.2 = value := by
    obtain ⟨pair, keyed, made⟩ := Option.map_eq_some_iff.mp states
    exact ⟨pair, keyed, congrArg Prod.fst made, congrArg Prod.snd made⟩
  rw [Text.keyValue] at keyed
  split at keyed
  next =>
    obtain rfl := (Option.some.inj keyed).symm
    intro comma
    rw [Text.strip, String.toList_ofList] at comma
    have within := (List.dropWhile_sublist _).subset ((List.rdropWhile_prefix Text.isSpace _).subset comma)
    rw [Text.partition, String.toList_ofList] at within
    exact comma_not_mem_chunks member
      ((List.dropWhile_sublist _).subset ((List.tail_sublist _).subset within))
  next => cases keyed

/-- The builder of a reading's engine, which builds every reading of that engine. -/
theorem build_told {r : Reading} {e : Engine} (built : build r = .ok e) :
    ∃ entry ∈ BUILDERS, entry.1 = r.engine ∧
      ∀ r' : Reading, r'.engine = r.engine → build r' = entry.2 r'.spec r'.model r'.options := by
  unfold build at built
  cases found : BUILDERS.find? (fun entry => entry.1 = r.engine) with
  | none =>
      rw [found] at built
      cases built
  | some entry =>
      refine ⟨entry, List.mem_of_find?_eq_some found, ?_, ?_⟩
      · simpa using List.find?_some found
      · intro r' same
        rw [build, same, found]

/-! ## What sharing a name comes to -/

section

variable {f : Char → Char} {spec spec' : String} {r r' : Reading} {e e' : Engine}

theorem name_written (spelling : Spelling f) (built : build r = .ok e) :
    written f e.name = r.engine.toList ++ f '/' ::
      (written f r.label ++ Suffixed.suffix '@' ',' '=' (shownAs f r)) := by
  obtain ⟨entry, member, named, builds⟩ := build_told built
  rw [builds r rfl] at built
  rw [(builders_told entry member).name built, written_append, written_append, written_append,
    (spelling.engines entry member).1, written_distinguish spelling, named, List.append_assoc,
    List.append_assoc]
  rfl

theorem keys_clean : ∀ key ∈ KEYS, '@' ∉ key.toList ∧ '=' ∉ key.toList ∧ ',' ∉ key.toList := by
  decide

theorem not_mem_written {c : Char} (reflects : ∀ d, f d = c ↔ d = c) {text : String}
    (clean : c ∉ text.toList) : c ∉ written f text := by
  intro member
  obtain ⟨d, inside, same⟩ := List.mem_map.mp member
  exact clean ((reflects d).mp same ▸ inside)

theorem mem_shown {option : String × String} (member : option ∈ r.shown) :
    r.options.lookup option.1 = some option.2 := by
  obtain ⟨key, -, made⟩ := List.mem_filterMap.mp member
  split at made
  next => cases made
  next =>
    obtain ⟨value, found, rfl⟩ := Option.map_eq_some_iff.mp made
    exact (Option.filter_eq_some_iff.mp found).1

theorem shown_clean (spelling : Spelling f) (readAs : ReadAs spec r) (built : build r = .ok e) :
    Suffixed.Clean '@' ',' '=' (shownAs f r) := by
  obtain ⟨entry, member, named, builds⟩ := build_told built
  rw [builds r rfl] at built
  have keys := (builders_told entry member).keys built
  have parts : ∀ option ∈ shownAs f r, ∃ key value, option = writtenOption f (key, value) ∧
      key ∈ KEYS ∧ ',' ∉ value.toList := by
    intro option inside
    obtain ⟨⟨key, value⟩, shown, rfl⟩ := List.mem_map.mp inside
    have found := mem_shown shown
    exact ⟨key, value, rfl, keys key (by rw [found]; nofun), readAs.values found⟩
  constructor
  · intro option inside
    obtain ⟨key, value, rfl, known, -⟩ := parts option inside
    exact not_mem_written spelling.mark (keys_clean key known).1
  · intro option inside
    obtain ⟨key, value, rfl, known, -⟩ := parts option inside
    exact not_mem_written spelling.eq (keys_clean key known).2.1
  · intro option inside
    obtain ⟨key, value, rfl, known, plain⟩ := parts option inside
    intro comma
    rcases List.mem_append.mp comma with front | back
    · exact not_mem_written spelling.comma (keys_clean key known).2.2 front
    · rcases List.mem_cons.mp back with eq | back
      · exact absurd eq (by decide)
      · exact not_mem_written spelling.comma plain back

/-- The ways two names come to be written the same. -/
def SharesName (f : Char → Char) (r r' : Reading) : Prop :=
  r.engine = r'.engine ∧
    ((written f r.label = written f r'.label ∧ shownAs f r = shownAs f r') ∨
      Suffixed.RunsOn '@' ',' '=' (written f r.label) (shownAs f r) (written f r'.label) (shownAs f r') ∨
      Suffixed.RunsOn '@' ',' '=' (written f r'.label) (shownAs f r') (written f r.label) (shownAs f r))

theorem shares_iff (spelling : Spelling f) (readAs : ReadAs spec r) (readAs' : ReadAs spec' r')
    (built : build r = .ok e) (built' : build r' = .ok e') :
    written f e.name = written f e'.name ↔ SharesName f r r' := by
  rw [name_written spelling built, name_written spelling built', SharesName,
    ← Suffixed.written_eq_iff (shown_clean spelling readAs built)
      (shown_clean spelling readAs' built') (by decide)]
  have slash : ∀ {r : Reading} {e : Engine}, build r = .ok e → f '/' ∉ r.engine.toList := by
    intro r e built
    obtain ⟨entry, member, named, -⟩ := build_told built
    exact named ▸ (spelling.engines entry member).2
  constructor
  · intro same
    obtain ⟨engines, rest⟩ := Suffixed.cut_unique (slash built) (slash built') same
    exact ⟨String.toList_inj.mp engines, rest⟩
  · rintro ⟨engines, rest⟩
    rw [engines, rest]

theorem argv_eq_iff (engines : r.engine = r'.engine) (built : build r = .ok e)
    (built' : build r' = .ok e') :
    e.argv = e'.argv ↔ r.loaded = r'.loaded ∧ SameOptions r.options r'.options := by
  obtain ⟨entry, member, named, builds⟩ := build_told built
  rw [builds r rfl] at built
  rw [builds r' engines.symm] at built'
  rw [(builders_told entry member).argv built built', Reading.loaded, Reading.loaded, ← engines, named]

theorem suffix_eq (engines : r.engine = r'.engine) (built : build r = .ok e)
    (built' : build r' = .ok e') : e.output_suffix = e'.output_suffix := by
  obtain ⟨entry, member, -, builds⟩ := build_told built
  rw [builds r rfl] at built
  rw [builds r' engines.symm] at built'
  exact (builders_told entry member).suffix built built'

theorem build_fewer (built : build r = .ok e) (spec : String) {options : Dict String}
    (fewer : ∀ key, options.lookup key ≠ none → r.options.lookup key ≠ none) :
    ∃ e', build { r with spec := spec, options := options } = .ok e' := by
  obtain ⟨entry, member, -, builds⟩ := build_told built
  rw [builds r rfl] at built
  rw [builds { r with spec := spec, options := options } rfl]
  exact (builders_told entry member).accepts spec options built fewer

theorem build_bare (built : build r = .ok e) : ∃ p, build r.bare = .ok p := by
  refine build_fewer built r.spec fun key given unset => given ?_
  by_cases lm : key = "lm"
  · rw [lm, Finmap.lookup_erase]
  · rw [Finmap.lookup_erase_ne lm]
    by_cases root : key = "root"
    · rw [root, Finmap.lookup_erase]
    · rw [Finmap.lookup_erase_ne root, unset]

/-- Two specs that a name does not tell apart: it leaves the owner of a model or a blank option
    out, or the model of the one ends as the options of the other begin. -/
inductive Confused (f : Char → Char) (r r' : Reading) : Prop where
  | model : r.engine = r'.engine → written f r.label = written f r'.label →
      shownAs f r = shownAs f r' → r.loaded ≠ r'.loaded → Confused f r r'
  | option (key : String) : r.engine = r'.engine → written f r.label = written f r'.label →
      shownAs f r = shownAs f r' →
      observed key (r.bare.options.lookup key) ≠ observed key (r'.bare.options.lookup key) →
      Confused f r r'
  | runsOn : r.engine = r'.engine →
      Suffixed.RunsOn '@' ',' '=' (written f r.label) (shownAs f r) (written f r'.label)
        (shownAs f r') → Confused f r r'
  | runsOn' : r.engine = r'.engine →
      Suffixed.RunsOn '@' ',' '=' (written f r'.label) (shownAs f r') (written f r.label)
        (shownAs f r) → Confused f r r'

/-- Specs of one engine that load the same with the same quantization are labelled the same. -/
theorem label_eq (engines : r.engine = r'.engine) (loads : r.loaded = r'.loaded)
    (quantize : quantizeOf r.options = quantizeOf r'.options) : r.label = r'.label := by
  rw [Reading.loaded, Reading.loaded, loadedOf, loadedOf, ← engines] at loads
  rw [Reading.label, Reading.label, labelOf, labelOf, ← engines, quantizeLabel, quantizeLabel, quantize]
  by_cases osocr : r.engine = "osocr"
  · rw [if_pos osocr, if_pos osocr] at loads
    simp [osocr, loads]
  · rw [if_neg osocr, if_neg osocr] at loads
    rw [loads]

/-- Names written the same stand for one command exactly where the specs are not confused. -/
theorem tells_iff (spelling : Spelling f) (readAs : ReadAs spec r) (readAs' : ReadAs spec' r')
    (built : build r = .ok e) (built' : build r' = .ok e') {p p' : Engine}
    (bare : build r.bare = .ok p) (bare' : build r'.bare = .ok p') :
    (written f e.name = written f e'.name → p.argv = p'.argv) ↔ ¬ Confused f r r' := by
  rw [shares_iff spelling readAs readAs' built built']
  have argvs : r.engine = r'.engine → (p.argv = p'.argv ↔
      r.loaded = r'.loaded ∧ SameOptions r.bare.options r'.bare.options) :=
    fun engines => @argv_eq_iff r.bare r'.bare p p' engines bare bare'
  have quantized : SameOptions r.bare.options r'.bare.options →
      quantizeOf r.options = quantizeOf r'.options := by
    intro same
    have here := Option.some.inj (same "quantize")
    have stays : ∀ r : Reading, r.bare.options.lookup "quantize" = r.options.lookup "quantize" := by
      intro r
      rw [Reading.bare, Finmap.lookup_erase_ne (by decide), Finmap.lookup_erase_ne (by decide)]
    rw [stays, stays] at here
    exact here
  constructor
  · rintro tells (⟨engines, labels, shown, apart⟩ | ⟨key, engines, labels, shown, apart⟩ |
      ⟨engines, runs⟩ | ⟨engines, runs⟩)
    · exact apart ((argvs engines).mp (tells ⟨engines, .inl ⟨labels, shown⟩⟩)).1
    · exact apart (((argvs engines).mp (tells ⟨engines, .inl ⟨labels, shown⟩⟩)).2 key)
    · -- A label that runs on is longer, and one command has one label.
      obtain ⟨loads, same⟩ := (argvs engines).mp (tells ⟨engines, .inr (.inl runs)⟩)
      have longer := runs.longer
      rw [label_eq engines loads (quantized same)] at longer
      exact absurd longer (Nat.lt_irrefl _)
    · obtain ⟨loads, same⟩ := (argvs engines).mp (tells ⟨engines, .inr (.inr runs)⟩)
      have longer := runs.longer
      rw [label_eq engines loads (quantized same)] at longer
      exact absurd longer (Nat.lt_irrefl _)
  · rintro clear ⟨engines, ⟨labels, shown⟩ | runs | runs⟩
    · refine (argvs engines).mpr ⟨?_, fun key => ?_⟩
      · exact not_not.mp fun apart => clear (.model engines labels shown apart)
      · exact not_not.mp fun apart => clear (.option key engines labels shown apart)
    · exact absurd (.runsOn engines runs) clear
    · exact absurd (.runsOn' engines runs) clear

end

/-! ## Rows, files and the order of options -/

section

variable {spec spec' : String} {r r' : Reading} {e e' : Engine}

/-- Two specs whose results share a row build one command, wherever it looks for its files. -/
def RowsTell (spec spec' : String) : Prop :=
  ∀ e e' p p', resolve spec = .ok e → resolve spec' = .ok e' → portable spec = .ok p →
    portable spec' = .ok p' → e.name = e'.name → p.argv = p'.argv

/-- The same of two specs whose artifacts of a case share a file name. -/
def FilesTell (spec spec' : String) : Prop :=
  ∀ e e' p p', resolve spec = .ok e → resolve spec' = .ok e' → portable spec = .ok p →
    portable spec' = .ok p' → ∀ case_id,
      artifact_name e.name case_id e.output_suffix = artifact_name e'.name case_id e'.output_suffix →
        p.argv = p'.argv

/-- The same spec with its options in another order. -/
def Reordered (spec spec' : String) : Prop :=
  ∃ head chunks chunks', Text.split spec ',' = head :: chunks ∧
    Text.split spec' ',' = head :: chunks' ∧ chunks.Perm chunks'

/-- The order of its options changes neither the name nor the command of a spec. -/
def OrderFree (spec : String) : Prop :=
  ∀ e spec', resolve spec = .ok e → Reordered spec spec' →
    ∃ e', resolve spec' = .ok e' ∧ e'.name = e.name ∧ e'.argv = e.argv

/-- No option is given two values. -/
def OneValueEach (spec : String) : Prop :=
  ∀ key value value', (key, value) ∈ stated (Text.chunks (Text.partition spec ',').2) →
    (key, value') ∈ stated (Text.chunks (Text.partition spec ',').2) → value = value'

theorem resolve_eq {spec : String} (reading : read spec = .ok r) : resolve spec = build r := by
  rw [resolve, reading]
  rfl

theorem portable_eq {spec : String} (reading : read spec = .ok r) : portable spec = build r.bare := by
  rw [portable, reading]
  rfl

theorem rowsTell_iff (reading : read spec = .ok r) (reading' : read spec' = .ok r')
    (built : build r = .ok e) (built' : build r' = .ok e') :
    RowsTell spec spec' ↔ ¬ Confused asRow r r' := by
  obtain ⟨p, bare⟩ := build_bare built
  obtain ⟨p', bare'⟩ := build_bare built'
  have written_row : ∀ name : String, written asRow name = name.toList := fun name => List.map_id _
  rw [← tells_iff asRow_spelling (read_ok_iff.mp reading) (read_ok_iff.mp reading') built built' bare bare',
    written_row, written_row, String.toList_inj]
  simp only [RowsTell, resolve_eq reading, resolve_eq reading', portable_eq reading,
    portable_eq reading', built, built', bare, bare', Except.ok.injEq]
  constructor
  · intro tells
    exact tells e e' p p' rfl rfl rfl rfl
  · rintro tells _ _ _ _ rfl rfl rfl rfl
    exact tells

/-- Two names have one artifact, of some case, exactly where they are written the same. -/
theorem artifact_eq_iff (built : build r = .ok e) (built' : build r' = .ok e') :
    (∃ case_id, artifact_name e.name case_id e.output_suffix =
        artifact_name e'.name case_id e'.output_suffix) ↔
      written asFile e.name = written asFile e'.name := by
  have replaced : ∀ name : String, (Text.replace name '/' '_').toList = written asFile name := by
    intro name
    rw [Text.replace, String.toList_ofList]
    rfl
  have whole : ∀ name case_id suffix, (artifact_name name case_id suffix).toList =
      written asFile name ++ ("--".toList ++ (case_id.toList ++ suffix.toList)) := by
    intro name case_id suffix
    simp only [artifact_name, String.toList_append, replaced, List.append_assoc]
  have slash : ∀ {r : Reading} {e : Engine}, build r = .ok e → asFile '/' ∉ r.engine.toList := by
    intro r e built
    obtain ⟨entry, member, named, -⟩ := build_told built
    exact named ▸ (asFile_spelling.engines entry member).2
  constructor
  · rintro ⟨case_id, same⟩
    rw [← String.toList_inj, whole, whole] at same
    have engines := same
    rw [name_written asFile_spelling built, name_written asFile_spelling built', List.append_assoc,
      List.append_assoc, List.cons_append, List.cons_append] at engines
    have engines := String.toList_inj.mp
      (Suffixed.cut_unique (slash built) (slash built') engines).1
    rw [suffix_eq engines built built'] at same
    exact List.append_cancel_right same
  · intro same
    have engines := same
    rw [name_written asFile_spelling built, name_written asFile_spelling built'] at engines
    have engines := String.toList_inj.mp
      (Suffixed.cut_unique (slash built) (slash built') engines).1
    exact ⟨"", by rw [← String.toList_inj, whole, whole, same, suffix_eq engines built built']⟩

theorem filesTell_iff (reading : read spec = .ok r) (reading' : read spec' = .ok r')
    (built : build r = .ok e) (built' : build r' = .ok e') :
    FilesTell spec spec' ↔ ¬ Confused asFile r r' := by
  obtain ⟨p, bare⟩ := build_bare built
  obtain ⟨p', bare'⟩ := build_bare built'
  rw [← tells_iff asFile_spelling (read_ok_iff.mp reading) (read_ok_iff.mp reading') built built' bare
    bare', ← artifact_eq_iff built built']
  simp only [FilesTell, resolve_eq reading, resolve_eq reading', portable_eq reading,
    portable_eq reading', built, built', bare, bare', Except.ok.injEq]
  constructor
  · rintro tells ⟨case_id, same⟩
    exact tells e e' p p' rfl rfl rfl rfl case_id same
  · rintro tells _ _ _ _ rfl rfl rfl rfl case_id same
    exact tells ⟨case_id, same⟩

theorem Reordered.parts (moved : Reordered spec spec') :
    (Text.partition spec' ',').1 = (Text.partition spec ',').1 ∧
      (Text.chunks (Text.partition spec ',').2).Perm (Text.chunks (Text.partition spec' ',').2) := by
  obtain ⟨head, chunks, chunks', cut, cut', same⟩ := moved
  obtain ⟨front, tail⟩ := Text.partition_of_split cut
  obtain ⟨front', tail'⟩ := Text.partition_of_split cut'
  rw [front, front', tail, tail']
  exact ⟨rfl, (same.map Text.strip).filter _⟩

/-- A reordered spec is read as the same engine and model, of the options it states. -/
theorem Reordered.reads (moved : Reordered spec spec') (readAs : ReadAs spec r) :
    ∃ r', ReadAs spec' r' ∧ r'.engine = r.engine ∧ r'.model = r.model ∧
      r'.options = Dict.ofItems (stated (Text.chunks (Text.partition spec' ',').2)) := by
  obtain ⟨front, chunks⟩ := moved.parts
  refine ⟨{ r with
    spec := spec', options := Dict.ofItems (stated (Text.chunks (Text.partition spec' ',').2)) },
    ?_, rfl, rfl, by with_reducible rfl⟩
  constructor
  · rw [front]
    exact readAs.engine
  · exact readAs.known
  · rw [front]
    exact readAs.model
  · exact fun chunk member => readAs.chunks chunk (chunks.mem_iff.mpr member)
  · with_reducible rfl
  · with_reducible rfl

theorem name_eq (built : build r = .ok e) :
    e.name = r.engine ++ "/" ++ r.label ++ distinguish r.options (alreadyOf r.engine) := by
  obtain ⟨entry, member, named, builds⟩ := build_told built
  rw [builds r rfl] at built
  rw [(builders_told entry member).name built, named, Reading.label]

theorem orderFree_of_oneValue (reading : read spec = .ok r) (once : OneValueEach spec) :
    OrderFree spec := by
  intro e spec' built moved
  rw [resolve_eq reading] at built
  have readAs := read_ok_iff.mp reading
  obtain ⟨r', reads, engine, model, options⟩ := moved.reads readAs
  have same : r'.options = r.options := by
    rw [options, readAs.options]
    exact (Dict.ofItems_perm (moved.parts.2.filterMap statedOf) once).symm
  obtain ⟨e', built'⟩ := @build_fewer r e built r'.spec r'.options fun _ given => same ▸ given
  have built' : build r' = .ok e' := by
    rw [← built', ← engine, ← model]
  refine ⟨e', ?_, ?_, ?_⟩
  · rw [resolve_eq (read_ok_iff.mpr reads), built']
  · rw [name_eq built, name_eq built', Reading.label, Reading.label, engine, model, same]
  · refine (argv_eq_iff engine built' built).mpr ⟨?_, fun key => by rw [same]⟩
    rw [Reading.loaded, Reading.loaded, engine, model]

/-- Two values of one option each come last in some order of the options. -/
theorem both_last {parts : List String} {key value value' : String} (apart : value ≠ value')
    (first : (key, value) ∈ stated ((parts.map Text.strip).filter (· != "")))
    (second : (key, value') ∈ stated ((parts.map Text.strip).filter (· != ""))) :
    ∃ others one two, parts.Perm (others ++ [two, one]) ∧ parts.Perm (others ++ [one, two]) ∧
      ∃ items, stated (((others ++ [two, one]).map Text.strip).filter (· != "")) =
          items ++ [(key, value')] ++ [(key, value)] ∧
        stated (((others ++ [one, two]).map Text.strip).filter (· != "")) =
          items ++ [(key, value)] ++ [(key, value')] := by
  have part_of : ∀ {value}, (key, value) ∈ stated ((parts.map Text.strip).filter (· != "")) →
      ∃ part ∈ parts, (Text.strip part != "") = true ∧ statedOf (Text.strip part) = some (key, value) := by
    intro value member
    obtain ⟨chunk, inside, states⟩ := List.mem_filterMap.mp member
    obtain ⟨listed, filled⟩ := List.mem_filter.mp inside
    obtain ⟨part, member, rfl⟩ := List.mem_map.mp listed
    exact ⟨part, member, filled, states⟩
  obtain ⟨one, memberOne, filledOne, statesOne⟩ := part_of first
  obtain ⟨two, memberTwo, filledTwo, statesTwo⟩ := part_of second
  have other : two ≠ one := by
    rintro rfl
    rw [statesOne, Option.some.injEq, Prod.mk.injEq] at statesTwo
    exact apart statesTwo.2
  have taken : parts.Perm (one :: two :: (parts.erase one).erase two) :=
    (List.perm_cons_erase memberOne).trans
      ((List.perm_cons_erase ((List.mem_erase_of_ne other).mpr memberTwo)).cons one)
  have back : (one :: two :: (parts.erase one).erase two).Perm ((parts.erase one).erase two ++ [one, two]) :=
    @List.perm_append_comm _ [one, two] _
  refine ⟨(parts.erase one).erase two, one, two, ?_, taken.trans back,
    stated ((((parts.erase one).erase two).map Text.strip).filter (· != "")), ?_, ?_⟩
  · exact (taken.trans back).trans (.append_left _ (.swap two one []))
  · simp [stated, filledOne, filledTwo, statesOne, statesTwo]
  · simp [stated, filledOne, filledTwo, statesOne, statesTwo]

theorem mem_keep {options : Dict String} {already : List String} {key value : String}
    (shows : key ∉ ENVIRONMENTAL ∧ key ∉ already) :
    (key, value) ∈ keep options already ↔ (options.lookup key).filter (· != "") = some value := by
  rw [keep, List.mem_filterMap]
  constructor
  · rintro ⟨other, -, made⟩
    split at made
    next => cases made
    next =>
      obtain ⟨found, kept, same⟩ := Option.map_eq_some_iff.mp made
      obtain ⟨rfl, rfl⟩ := Prod.mk.inj same
      exact kept
  · intro kept
    have found := (Option.filter_eq_some_iff.mp kept).1
    refine ⟨key, Dict.mem_sortedKeys.mpr (Dict.mem_keys_of_lookup found), ?_⟩
    rw [if_neg (not_or.mpr shows), kept]
    rfl

/-- What is neither hidden from the name nor read as it stands in the command is a switch, a
    prompt or a root. -/
theorem told_apart {key value value' : String} {options options' : Dict String} {already : List String}
    (found : options.lookup key = some value) (found' : options'.lookup key = some value')
    (small : ∀ name ∈ already, name = "quantize")
    (shown : keep options already = keep options' already)
    (same : observed key (options.lookup key) = observed key (options'.lookup key)) : value = value' := by
  have filled : ∀ {x y : String}, (some x).filter (· != "") = (some y).filter (· != "") → x = y := by
    intro x y same
    by_cases blank : x = "" <;> by_cases blank' : y = "" <;> simp_all [Option.filter]
  by_cases hidden : key ∈ ENVIRONMENTAL ∨ key ∈ already
  · -- The command alone tells these.
    rw [found, found'] at same
    rcases hidden with environmental | named
    · rcases List.mem_cons.mp environmental with rfl | lm
      · exact filled same
      · rw [List.mem_singleton.mp lm] at same
        exact Option.some.inj same
    · rw [small key named] at same
      exact Option.some.inj same
  · have kept : (options.lookup key).filter (· != "") = (options'.lookup key).filter (· != "") := by
      apply Option.ext
      intro text
      rw [← mem_keep (not_or.mp hidden), ← mem_keep (not_or.mp hidden), shown]
    rw [found, found'] at kept
    exact filled kept

theorem keep_eq (readAs : ReadAs spec r) (readAs' : ReadAs spec' r') (built : build r = .ok e)
    (built' : build r' = .ok e')
    (same : distinguish r.options (alreadyOf r.engine) = distinguish r'.options (alreadyOf r'.engine)) :
    r.shown = r'.shown := by
  have spelled := congrArg (written asRow) same
  rw [written_distinguish asRow_spelling, written_distinguish asRow_spelling] at spelled
  refine List.map_injective_iff.mpr ?_ (Suffixed.suffix_injective
    (shown_clean asRow_spelling readAs built) (shown_clean asRow_spelling readAs' built') spelled)
  intro option option' sameParts
  obtain ⟨keys, values⟩ := Prod.mk.inj sameParts
  have plain : ∀ text : String, written asRow text = text.toList := fun text => List.map_id _
  rw [plain, plain, String.toList_inj] at keys values
  exact Prod.ext keys values

/-- A spec whose options can stand in any order has, in each, its name and its command. -/
theorem OrderFree.moves (free : OrderFree spec) (reading : read spec = .ok r) (built : build r = .ok e)
    {head : String} {parts parts' : List String} (cut : Text.split spec ',' = head :: parts)
    (same : parts.Perm parts') :
    ∃ spec' r' e', ReadAs spec' r' ∧ build r' = .ok e' ∧ e'.name = e.name ∧ e'.argv = e.argv ∧
      r'.engine = r.engine ∧
        r'.options = Dict.ofItems (stated ((parts'.map Text.strip).filter (· != ""))) := by
  have clean : ∀ part ∈ head :: parts, ',' ∉ part.toList := fun part member =>
    Text.clean_of_mem_split (cut ▸ member)
  have cut' : Text.split (Text.join ',' (head :: parts')) ',' = head :: parts' :=
    Text.split_join (List.cons_ne_nil _ _) fun part member =>
      clean part ((same.cons head).mem_iff.mpr member)
  have moved : Reordered spec (Text.join ',' (head :: parts')) := ⟨head, parts, parts', cut, cut', same⟩
  obtain ⟨e', resolved, named, commands⟩ := free e _ ((resolve_eq reading).trans built) moved
  obtain ⟨r', reads, engine, -, options⟩ := moved.reads (read_ok_iff.mp reading)
  rw [resolve_eq (read_ok_iff.mpr reads)] at resolved
  rw [(Text.partition_of_split cut').2] at options
  exact ⟨_, r', e', reads, resolved, named, commands, engine, options⟩

theorem oneValue_of_orderFree (reading : read spec = .ok r) (built : build r = .ok e)
    (free : OrderFree spec) : OneValueEach spec := by
  intro key value value' first second
  by_contra apart
  obtain ⟨head, parts, cut⟩ : ∃ head parts, Text.split spec ',' = head :: parts := by
    refine List.exists_cons_of_ne_nil fun none => ?_
    exact List.splitOn_ne_nil ',' spec.toList (List.map_eq_nil_iff.mp none)
  rw [(Text.partition_of_split cut).2] at first second
  obtain ⟨others, one, two, toFirst, toSecond, items, endsFirst, endsSecond⟩ :=
    both_last apart first second
  obtain ⟨spec₁, r₁, e₁, reads₁, built₁, named₁, argv₁, engine₁, options₁⟩ :=
    free.moves reading built cut toFirst
  obtain ⟨spec₂, r₂, e₂, reads₂, built₂, named₂, argv₂, engine₂, options₂⟩ :=
    free.moves reading built cut toSecond
  rw [endsFirst, Dict.ofItems_concat] at options₁
  rw [endsSecond, Dict.ofItems_concat] at options₂
  have engines : r₁.engine = r₂.engine := engine₁.trans engine₂.symm
  obtain ⟨loads, same⟩ := (argv_eq_iff engines built₁ built₂).mp (argv₁.trans argv₂.symm)
  have labels : r₁.label = r₂.label :=
    label_eq engines loads (Option.some.inj (same "quantize"))
  have names := named₁.trans named₂.symm
  rw [name_eq built₁, name_eq built₂, labels, engines, String.append_right_inj] at names
  have shown : r₁.shown = r₂.shown := keep_eq reads₁ reads₂ built₁ built₂ (engines.symm ▸ names)
  have small : ∀ name ∈ alreadyOf r₁.engine, name = "quantize" := by
    intro name member
    unfold alreadyOf at member
    split at member
    · exact List.mem_singleton.mp member
    · cases member
  rw [Reading.shown, Reading.shown, ← engines] at shown
  refine apart (told_apart ?_ ?_ small shown (same key))
  · rw [options₁, Finmap.lookup_insert]
  · rw [options₂, Finmap.lookup_insert]

/-- Two specs, as they are read, that names written with `f` do not tell apart. -/
def Confusable (f : Char → Char) (spec spec' : String) : Prop :=
  ∃ r r', read spec = .ok r ∧ read spec' = .ok r' ∧ Confused f r r'

theorem confusable_iff {f : Char → Char} (reading : read spec = .ok r) (reading' : read spec' = .ok r') :
    Confusable f spec spec' ↔ Confused f r r' := by
  constructor
  · rintro ⟨r₁, r₂, read₁, read₂, confused⟩
    rw [reading, Except.ok.injEq] at read₁
    rw [reading', Except.ok.injEq] at read₂
    rwa [read₁, read₂]
  · intro confused
    exact ⟨r, r', reading, reading', confused⟩

theorem resolve_ok (resolved : resolve spec = .ok e) :
    ∃ r, read spec = .ok r ∧ build r = .ok e :=
  bind_ok resolved

/-- One name is one command, as a row and as a file and in any order of the options, exactly when
    the two specs are not confused and no option of the first is given two values. -/
theorem names_tell_iff (resolved : resolve spec = .ok e) (resolved' : resolve spec' = .ok e') :
    (RowsTell spec spec' ∧ FilesTell spec spec' ∧ OrderFree spec) ↔
      ¬ Confusable asRow spec spec' ∧ ¬ Confusable asFile spec spec' ∧ OneValueEach spec := by
  obtain ⟨r, reading, built⟩ := resolve_ok resolved
  obtain ⟨r', reading', built'⟩ := resolve_ok resolved'
  rw [rowsTell_iff reading reading' built built', filesTell_iff reading reading' built built',
    confusable_iff reading reading', confusable_iff reading reading']
  have order : OrderFree spec ↔ OneValueEach spec :=
    ⟨oneValue_of_orderFree reading built, orderFree_of_oneValue reading⟩
  rw [order]

end

/-- Where names agree and the commands of some call differ, the names do not tell. -/
theorem not_rowsTell {spec spec' : String} {name : String} {place : Place}
    (named : (resolve spec).toOption.map Engine.name = some name)
    (named' : (resolve spec').toOption.map Engine.name = some name)
    (apart : ((portable spec).toOption.map fun e => (e.argv place "" "" ∅).toOption) ≠
      (portable spec').toOption.map fun e => (e.argv place "" "" ∅).toOption) :
    ¬ RowsTell spec spec' := by
  have ok_of : ∀ {result : Except String Engine} {e : Engine}, result.toOption = some e →
      result = .ok e := by
    intro result e found
    cases result with
    | error why => cases found
    | ok made => rw [Option.some.inj found]
  intro tells
  obtain ⟨e, found, same⟩ := Option.map_eq_some_iff.mp named
  obtain ⟨e', found', same'⟩ := Option.map_eq_some_iff.mp named'
  obtain ⟨r, reading, built⟩ := resolve_ok (ok_of found)
  obtain ⟨r', reading', built'⟩ := resolve_ok (ok_of found')
  obtain ⟨p, bare⟩ := build_bare built
  obtain ⟨p', bare'⟩ := build_bare built'
  rw [← portable_eq reading] at bare
  rw [← portable_eq reading'] at bare'
  have commands := tells e e' p p' (ok_of found) (ok_of found') bare bare' (same.trans same'.symm)
  refine apart ?_
  rw [bare, bare']
  change some (p.argv place "" "" ∅).toOption = some (p'.argv place "" "" ∅).toOption
  rw [commands]

/-- Two repos of one name, and an option that is blank, have one row and two commands. -/
theorem owners_confused :
    ¬ RowsTell "diffusers:a/m" "diffusers:b/m" ∧ ¬ RowsTell "diffusers:a/m" "diffusers:a/m,steps=" :=
  ⟨@not_rowsTell _ _ "diffusers/m" (anywhere "") (by decide) (by decide)
      (by decide),
    @not_rowsTell _ _ "diffusers/m" (anywhere "") (by decide) (by decide)
      (by decide)⟩

private theorem read_h3 (steps : String) (spec : String)
    (head : (Text.partition spec ',').1 = "h3")
    (tail : Text.chunks (Text.partition spec ',').2 = ["steps=" ++ steps])
    (states : statedOf ("steps=" ++ steps) = some ("steps", steps)) :
    read spec = .ok ⟨spec, "h3", "", Dict.ofItems [("steps", steps)]⟩ := by
  apply read_ok_iff.mpr
  constructor
  · rw [head]
    change "h3" = _
    decide
  · change "h3" ∈ engine_names
    decide
  · rw [head]
    change "" = _
    decide
  · rw [tail]
    intro chunk member
    rw [List.mem_singleton.mp member, states]
    nofun
  · rw [tail, stated, List.filterMap_cons, states]
    rfl
  · rfl

/-- Eight steps and sixteen are told apart, as rows and as files. -/
theorem names_tell_steps :
    RowsTell "h3,steps=8" "h3,steps=16" ∧ FilesTell "h3,steps=8" "h3,steps=16" ∧
      OrderFree "h3,steps=8" := by
  have reading := read_h3 "8" "h3,steps=8" (by decide) (by decide) (by decide)
  have reading' := read_h3 "16" "h3,steps=16" (by decide) (by decide) (by decide)
  have apart : ∀ f : Char → Char,
      written f "8" ≠ written f "16" → ¬ Confusable f "h3,steps=8" "h3,steps=16" := by
    intro f other
    have eight : Reading.shown ⟨"h3,steps=8", "h3", "", Dict.ofItems [("steps", "8")]⟩ =
        [("steps", "8")] := by decide
    have sixteen : Reading.shown ⟨"h3,steps=16", "h3", "", Dict.ofItems [("steps", "16")]⟩ =
        [("steps", "16")] := by decide
    rw [confusable_iff reading reading']
    have shown : shownAs f ⟨"h3,steps=8", "h3", "", Dict.ofItems [("steps", "8")]⟩ ≠
        shownAs f ⟨"h3,steps=16", "h3", "", Dict.ofItems [("steps", "16")]⟩ := by
      rw [shownAs, shownAs, eight, sixteen]
      intro same
      exact other (congrArg Prod.snd (List.cons.inj same).1)
    rintro (⟨-, -, same, -⟩ | ⟨-, -, -, same, -⟩ | ⟨-, runs⟩ | ⟨-, runs⟩)
    · exact shown same
    · exact shown same
    · exact absurd runs.longer (Nat.lt_irrefl _)
    · exact absurd runs.longer (Nat.lt_irrefl _)
  obtain ⟨e, built⟩ : ∃ e, resolve "h3,steps=8" = .ok e := ⟨_, by rw [resolve_eq reading]; rfl⟩
  obtain ⟨e', built'⟩ : ∃ e, resolve "h3,steps=16" = .ok e := ⟨_, by rw [resolve_eq reading']; rfl⟩
  refine (names_tell_iff built built').mpr ⟨apart asRow (by decide), apart asFile (by decide), ?_⟩
  have once : stated (Text.chunks (Text.partition "h3,steps=8" ',').2) = [("steps", "8")] := by decide
  intro key value value' first second
  rw [once, List.mem_singleton] at first second
  exact congrArg Prod.snd (first.trans second.symm)

end LocalHarness.Engines
