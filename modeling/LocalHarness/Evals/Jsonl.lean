import LocalHarness.Library.Fallible
import LocalHarness.Library.JsonWritten
import LocalHarness.Library.Lines

/-! # Objects on lines

Documents, claims and rubric items are kept as JSON, one object on a line. Each reader takes the lines that
`splitlines` makes of the text.
-/

namespace LocalHarness.Evals.Jsonl

open LocalHarness.Library LocalHarness.Library.JsonText LocalHarness.Library.Str

inductive Error
  | noFile
  | json (refusal : Refusal)

/-- The text of a file in UTF-8, if there is one. -/
abbrev File := Option Str

/-- `Path.read_text` -/
def readText : File → Except Error Str
  | none => .error .noFile
  | some text => .ok (newlines text)

/-- A line as it is read, in an interpreter with room for so many arrays and objects in one another. -/
def readLine (room : Nat) (line : Str) : Except Error Json :=
  match loads room line with
  | .ok value => .ok value
  | .error refusal => .error (.json refusal)

/-- `[json.loads(line) for line in text.splitlines() if line.strip()]` -/
def readLines (room : Nat) (text : Str) : Except Error (List Json) :=
  ((splitlines text).filter fun line => line.strip ≠ []).mapM (readLine room)

/-! ## The readers -/

section

variable (room : Nat) (file : File)

/-- `lexical_rank.load` -/
def load : Except Error (List Json) :=
  readText file >>= readLines room

/-- The documents that `hf_task.rank` ranks. -/
def docs : Except Error (List Json) :=
  readText file >>= readLines room

/-- The documents of which `_check_relevant` takes the ids. -/
def checkRelevant : Except Error (List Json) :=
  readText file >>= readLines room

/-- `claims_import._rows` -/
def rows : Except Error (List Json) :=
  if file.isNone then .ok [] else readText file >>= readLines room

/-- `rubric_eval._jsonl` -/
def jsonl : Except Error (List Json) :=
  if file.isNone then .ok [] else readText file >>= readLines room

end

/-! ## What is written -/

/-- An object of JSON. -/
structure Document where
  members : List (Str × Json)
  sound : Sound (.object members)

def Document.value (d : Document) : Json :=
  .object d.members

/-- With the characters escaped that JSON requires to be. -/
def Document.text (d : Document) : Str :=
  dumpsWith plainly d.value

def written (documents : List Document) : Str :=
  documents.flatMap fun d => d.text ++ [point '\n']

/-- Every reader returns the documents in their order. -/
structure ReadBack (room : Nat) (documents : List Document) : Prop where
  load : load room (some (written documents)) = .ok (documents.map Document.value)
  docs : docs room (some (written documents)) = .ok (documents.map Document.value)
  checkRelevant : checkRelevant room (some (written documents)) = .ok (documents.map Document.value)
  rows : rows room (some (written documents)) = .ok (documents.map Document.value)
  jsonl : jsonl room (some (written documents)) = .ok (documents.map Document.value)

/-- The characters above ASCII that `splitlines` cuts at. -/
def Breaks (c : CodePoint) : Prop :=
  c.val = 0x85 ∨ c.val = 0x2028 ∨ c.val = 0x2029

/-- No string of it breaks its line, and it is read where it is by itself. -/
def Document.Clear (room : Nat) (d : Document) : Prop :=
  (∀ c ∈ letters d.value, ¬ Breaks c) ∧ depth d.value ≤ room

variable {room : Nat} {documents : List Document} {d : Document} {c : CodePoint} {line : Str}

/-! ## The lines of a document -/

theorem not_printable_of_lineEnd (cuts : isLineEnd c = true) : ¬ Printable c := by
  simp only [isLineEnd, Bool.or_eq_true, Bool.and_eq_true, decide_eq_true_eq] at cuts
  rintro ⟨low, high⟩
  omega

theorem breaks_iff (above : 0x20 ≤ c.val) : isLineEnd c = true ↔ Breaks c := by
  simp only [isLineEnd, Bool.or_eq_true, Bool.and_eq_true, decide_eq_true_eq, Breaks]
  omega

/-- A line end in the text of a document is one in a string. -/
theorem clean_iff (d : Document) : (∀ c ∈ d.text, isLineEnd c = false) ↔ ∀ c ∈ letters d.value, ¬ Breaks c := by
  constructor
  · intro clean c member breaks
    have above : 0x20 ≤ c.val := by
      rcases breaks with same | same | same <;> omega
    have cuts := (breaks_iff above).mpr breaks
    have inside := (mem_dumpsWith (not_printable_of_lineEnd cuts) d.sound).mpr ⟨member, above⟩
    cases cuts.symm.trans (clean c inside)
  · intro clean c member
    by_contra cuts
    rw [Bool.not_eq_false] at cuts
    obtain ⟨inside, above⟩ := (mem_dumpsWith (not_printable_of_lineEnd cuts) d.sound).mp member
    exact clean c inside ((breaks_iff above).mp cuts)

theorem return_not_mem (d : Document) : point '\r' ∉ d.text := by
  intro member
  obtain ⟨-, above⟩ := (mem_dumpsWith (by decide) d.sound).mp member
  exact absurd above (by decide)

theorem newlines_written (documents : List Document) : newlines (written documents) = written documents := by
  refine newlines_clean fun member => ?_
  obtain ⟨d, -, inside⟩ := List.mem_flatMap.mp member
  rcases List.mem_append.mp inside with here | last
  · exact return_not_mem d here
  · exact absurd (List.mem_singleton.mp last) (by decide)

theorem split_written (documents : List Document) : split isLineEnd (written documents) =
    (documents.flatMap fun d => split isLineEnd d.text) ++ [[]] := by
  induction documents with
  | nil => rfl
  | cons d rest ih =>
      rw [written, List.flatMap_cons, List.append_assoc, List.singleton_append, split_append rfl, ← written, ih,
        List.flatMap_cons, List.append_assoc]

/-- The lines are those of the documents one by one. -/
theorem splitlines_written (documents : List Document) : splitlines (newlines (written documents)) =
    documents.flatMap fun d => split isLineEnd d.text := by
  rw [splitlines_newlines, splitlines, newlines_written, split_written]
  simp only [List.getLast?_concat, if_true, List.dropLast_concat]

/-! ## Reading a line -/

theorem strip_brace (rest : Str) : Str.strip (point '\x7b' :: rest) ≠ [] := by
  unfold Str.strip
  dsimp only
  rw [List.dropWhile_cons_of_neg (by decide), ne_eq, List.rdropWhile_eq_nil_iff]
  exact fun all => absurd (all _ List.mem_cons_self) (by decide)

theorem text_eq (d : Document) : ∃ rest, d.text = point '\x7b' :: (rest ++ [point '\x7d']) :=
  ⟨_, by rw [Document.text, Document.value, dumpsWith]⟩

/-- A line that was a document's is read as it where there is room, and a part of one is not read. -/
theorem readLine_text (d : Document) : readLine room d.text =
    if depth d.value ≤ room then .ok d.value else .error (.json .tooDeep) := by
  rw [readLine, Document.text, Document.value, loads_dumpsWith reads_plainly d.sound]
  by_cases fits : depth (.object d.members) ≤ room
  · rw [if_pos fits, if_pos fits]
  · rw [if_neg fits, if_neg fits]

theorem readLine_part {p q : Str} (cut : d.text = p ++ q) (some_ : q ≠ []) (value : Json) :
    readLine room p ≠ .ok value := by
  obtain ⟨refusal, refused⟩ : ∃ refusal, loads room p = .error refusal :=
    loads_cut reads_plainly d.sound cut some_
  rw [readLine, refused]
  exact fun same => by cases same

/-- The first line of a document is read only where it is all of it, and has room. -/
theorem clear_of_first (d : Document) : ∃ first more, split isLineEnd d.text = first :: more ∧
    first.strip ≠ [] ∧ ∀ value, readLine room first = .ok value → d.Clear room := by
  obtain ⟨rest, shape⟩ := text_eq d
  by_cases clean : ∀ c ∈ d.text, isLineEnd c = false
  · refine ⟨d.text, [], split_clean clean, shape ▸ strip_brace _, fun value read => ?_⟩
    rw [readLine_text] at read
    split at read
    next fits => exact ⟨(clean_iff d).mp clean, fits⟩
    next => cases read
  · have ends : ∃ c ∈ d.text, isLineEnd c = true := by simpa using clean
    obtain ⟨found, some_⟩ := Option.isSome_iff_exists.mp (List.find?_isSome.mpr ends)
    obtain ⟨cuts, front, back, cut, before⟩ := List.find?_eq_some_iff_append.mp some_
    have plain : ∀ c ∈ front, isLineEnd c = false := fun c member => by simpa using before c member
    refine ⟨front, split isLineEnd back, ?_, ?_, fun value read => ?_⟩
    · rw [cut, split_append cuts, split_clean plain]
      rfl
    · cases front with
      | nil =>
          rw [shape] at cut
          obtain ⟨rfl, -⟩ := List.cons.inj cut
          cases cuts
      | cons c front =>
          rw [shape] at cut
          obtain ⟨rfl, -⟩ := List.cons.inj cut
          exact strip_brace front
    · exact absurd read (readLine_part cut (List.cons_ne_nil _ _) value)

theorem read_written (room : Nat) (documents : List Document) :
    (readText (some (written documents)) >>= readLines room) =
      ((documents.flatMap fun d => split isLineEnd d.text).filter fun line => line.strip ≠ []).mapM
        (readLine room) := by
  change readLines room (newlines (written documents)) = _
  rw [readLines, splitlines_written]

theorem clear_of_read {values : List Json}
    (back : (readText (some (written documents)) >>= readLines room) = .ok values) (member : d ∈ documents) :
    d.Clear room := by
  rw [read_written] at back
  obtain ⟨first, more, shape, solid, clear⟩ : ∃ first more, split isLineEnd d.text = first :: more ∧
      first.strip ≠ [] ∧ ∀ value, readLine room first = .ok value → d.Clear room := clear_of_first d
  have here : first ∈ (documents.flatMap fun d => split isLineEnd d.text).filter fun line => line.strip ≠ [] :=
    List.mem_filter.mpr ⟨List.mem_flatMap.mpr ⟨d, member, shape ▸ List.mem_cons_self⟩, decide_eq_true solid⟩
  obtain ⟨value, -, read⟩ := ok_of_mapM back here
  exact clear value read

theorem read_of_clear (clear : ∀ d ∈ documents, d.Clear room) :
    (readText (some (written documents)) >>= readLines room) = .ok (documents.map Document.value) := by
  have whole : documents.flatMap (fun d => split isLineEnd d.text) = documents.map Document.text := by
    rw [List.map_eq_flatMap]
    exact List.flatMap_congr fun d member => split_clean ((clean_iff d).mpr (clear d member).1)
  have solid : ∀ line ∈ documents.map Document.text, decide (line.strip ≠ []) = true := by
    intro line member
    obtain ⟨d, -, rfl⟩ := List.mem_map.mp member
    obtain ⟨rest, shape⟩ := text_eq d
    rw [shape]
    exact decide_eq_true (strip_brace _)
  rw [read_written, whole, List.filter_eq_self.mpr solid, List.mapM_map]
  refine mapM_of_ok fun d member => ?_
  rw [Function.comp_apply, readLine_text, if_pos (clear d member).2]

/-- Every document is read back in its place, by each of the readers, in exactly the cases where no string
breaks its line and each object is read by itself. -/
theorem readBack_iff (room : Nat) (documents : List Document) :
    ReadBack room documents ↔ ∀ d ∈ documents, d.Clear room := by
  refine ⟨fun back d => clear_of_read back.load, fun clear => ?_⟩
  have all := read_of_clear clear
  exact ⟨all, all, all, all, all⟩

/-! ## A paragraph separator -/

def paragraphs : Document where
  members := [(text "text", .string [point 'a', 0x2029, point 'b'])]
  sound := .object (List.forall_mem_singleton.mpr (.string _))

/-- The text of the document is cut where it has a new paragraph. -/
theorem paragraphs_lost : ¬ ReadBack 900 [paragraphs] := by
  intro back
  have clear : paragraphs.Clear 900 := clear_of_read back.load List.mem_cons_self
  exact clear.1 0x2029 (by decide) (.inr (.inr rfl))

end LocalHarness.Evals.Jsonl
