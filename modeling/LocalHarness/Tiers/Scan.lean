import Mathlib.Data.Finset.Dedup
import Mathlib.Data.Finset.SDiff
import LocalHarness.Library.Find
import LocalHarness.Library.Regex
import LocalHarness.Library.Unicode

/-! # What a repository's files say it needs

A package for CUDA is required where a dependency file declares it, and mentioned anywhere else. Some
sections of a dependency file are not runtime requirements; `scan` takes a file to be one up to the first
such section, and not from there on, whatever sections come later.
-/

namespace LocalHarness.Tiers.Scan

open LocalHarness.Library

abbrev Line := List Char

/-! ## The patterns -/

/-- `re.I`: which characters a letter of a pattern stands for. -/
structure Folding where
  same : Char → Char → Bool
  line : ∀ letter, letter ≠ '\n' → same '\n' letter = false

variable (u : Unicode) (f : Folding)

def literal : List Char → Re
  | [] => .nothing
  | letter :: rest => .seq (.one fun c => f.same c letter) (literal rest)

/-- `[a-z0-9-]` -/
def isToken (c : Char) : Bool :=
  c = '-' || c.isDigit || "abcdefghijklmnopqrstuvwxyz".toList.any fun letter => f.same c letter

def isJoint (c : Char) : Bool :=
  c = '_' || c = '-'

/-- The packages of `CUDA_MARKERS`. -/
def packages : Re :=
  .alt (literal f "torch.cuda".toList) <| .alt (literal f "cuda_is_available".toList) <|
  .alt (literal f "bitsandbytes".toList) <|
  .alt (.seq (literal f "flash".toList) (.seq (.one isJoint) (literal f "attn".toList))) <|
  .alt (literal f "xformers".toList) <| .alt (literal f "triton".toList) <|
  .alt (.seq (literal f "nvidia-".toList) (.many (isToken f) 1 none)) <|
  .alt (literal f "tensorrt".toList) <| .alt (literal f "cupy".toList) (literal f "deepspeed".toList)

def CUDA_MARKERS : Re :=
  .seq .boundary (.seq (.group (packages f)) .boundary)

/-- What `OPTIONAL_SECTIONS` takes after the bracket. -/
def optionalName (rest : List Char) : Bool :=
  "project.optional-dependencies]".toList.isPrefixOf rest ||
    ("tool.poetry.group".toList.isPrefixOf rest ||
      "tool.poetry.dev-dependencies".toList.isPrefixOf rest) && ']' ∈ rest ||
    "options.extras_require]".toList.isPrefixOf rest

/-- `OPTIONAL_SECTIONS` where a line begins. -/
def opensOptional (l : List Char) : Bool :=
  match l.dropWhile Text.isSpace with
  | '[' :: rest => optionalName rest
  | _ => false

/-- The text up to where `OPTIONAL_SECTIONS` is found first, and from there on. -/
def cut : Bool → List Char → List Char × List Char
  | _, [] => ([], [])
  | start, c :: rest =>
      if start && opensOptional (c :: rest) then ([], c :: rest)
      else (c :: (cut (c = '\n') rest).1, (cut (c = '\n') rest).2)

/-! ## The scan -/

def DEPENDENCY_FILES : List String :=
  ["requirements.txt", "pyproject.toml", "setup.py", "setup.cfg", "environment.yml", "Pipfile",
    "poetry.lock", "Package.resolved"]

/-- A file that can be read, under the last part of its path. -/
structure File where
  name : String
  text : List Char

/-- The packages for CUDA that a text names. -/
def named (text : List Char) : List (List Char) :=
  (Re.findall u.word (CUDA_MARKERS f) text).map fun found => u.lower found.1

/-- What a scan says of CUDA: `cuda` and `cuda_mentioned`. -/
@[ext]
structure Cuda where
  cuda : Finset (List Char)
  mentioned : Finset (List Char)

def required (p : File) : List (List Char) :=
  if p.name ∈ DEPENDENCY_FILES then named u f (cut true p.text).1 else []

def mentioned (p : File) : List (List Char) :=
  if p.name ∈ DEPENDENCY_FILES then named u f (cut true p.text).2 else named u f p.text

def scan (files : List File) : Cuda :=
  { cuda := (files.flatMap (required u f)).toFinset
    mentioned := (files.flatMap (mentioned u f)).toFinset \ (files.flatMap (required u f)).toFinset }

/-! ## Files made of sections -/

/-- A line that is no section's header. -/
def Plain (line : Line) : Prop :=
  '\n' ∉ line ∧ (line.dropWhile Text.isSpace).head? ≠ some '['

structure Section where
  indent : Line
  name : Line
  /-- What follows the header on its line. -/
  tail : Line
  body : List Line
  blank : ∀ c ∈ indent, Text.isSpace c = true ∧ c ≠ '\n'
  name_plain : ']' ∉ name ∧ '\n' ∉ name
  tail_plain : '\n' ∉ tail
  body_plain : ∀ line ∈ body, Plain line

namespace Section

/-- The sections that are not runtime requirements. -/
def optional (s : Section) : Bool :=
  s.name = "project.optional-dependencies".toList ||
    ("tool.poetry.group".toList.isPrefixOf s.name ||
      "tool.poetry.dev-dependencies".toList.isPrefixOf s.name) ||
    s.name = "options.extras_require".toList

def header (s : Section) : Line :=
  s.indent ++ '[' :: (s.name ++ ']' :: s.tail)

def lines (s : Section) : List Line :=
  s.header :: s.body

end Section

def unlines (lines : List Line) : List Char :=
  lines.flatMap fun line => line ++ ['\n']

/-- A dependency file: what is above its first section, and its sections. -/
structure Dependencies where
  name : String
  preamble : List Line
  sections : List Section
  dependency : name ∈ DEPENDENCY_FILES
  preamble_plain : ∀ line ∈ preamble, Plain line

namespace Dependencies

def file (d : Dependencies) : File :=
  ⟨d.name, unlines (d.preamble ++ d.sections.flatMap Section.lines)⟩

/-- The package is named where it is a runtime requirement: above the sections, or in one of those. -/
def Requires (d : Dependencies) (package : List Char) : Prop :=
  package ∈ named u f (unlines d.preamble) ∨
    ∃ s ∈ d.sections, s.optional = false ∧ package ∈ named u f (unlines s.lines)

/-- The dependency file is read for what it requires beside the other files, and its sections can be put
in any order. -/
def Reads (d : Dependencies) (others : List File) : Prop :=
  (∀ package, package ∈ (scan u f (d.file :: others)).cuda ↔
      d.Requires u f package ∨ package ∈ (scan u f others).cuda) ∧
    ∀ sections, sections.Perm d.sections →
      scan u f ({ d with sections := sections }.file :: others) = scan u f (d.file :: others)

end Dependencies

variable {u : Unicode} {f : Folding} {l rest : List Char} {line : Line} {lines : List Line}
  {s : Section} {sections : List Section} {package : List Char} {name : List Char}

/-! ## Lines apart from each other -/

theorem avoids_literal (plain : '\n' ∉ l) : (literal f l).Avoids '\n' := by
  induction l with
  | nil => trivial
  | cons letter rest ih =>
      rw [List.mem_cons, not_or] at plain
      exact ⟨f.line letter (Ne.symm plain.1), ih plain.2⟩

theorem avoids_token : isToken f '\n' = false := by
  have letters : "abcdefghijklmnopqrstuvwxyz".toList.any (fun letter => f.same '\n' letter) = false := by
    refine List.any_eq_false.mpr fun letter member => ?_
    rw [f.line letter]
    · decide
    · rintro rfl
      exact absurd member (by decide)
  rw [isToken, letters]
  decide

theorem avoids_markers : (CUDA_MARKERS f).Avoids '\n' := by
  have dash : isJoint '\n' = false := by decide
  exact ⟨trivial, ⟨avoids_literal (by decide), avoids_literal (by decide), avoids_literal (by decide),
    ⟨avoids_literal (by decide), dash, avoids_literal (by decide)⟩, avoids_literal (by decide),
    avoids_literal (by decide), ⟨avoids_literal (by decide), avoids_token⟩, avoids_literal (by decide),
    avoids_literal (by decide), avoids_literal (by decide)⟩, trivial⟩

/-- Every package begins with a letter. -/
theorem solid_markers (before : Option Char) : (CUDA_MARKERS f).ways u.word before [] = [] := by
  have none_ : (packages f).ways u.word before [] = [] := rfl
  have inner : (Re.seq (.group (packages f)) .boundary).ways u.word before [] = [] := by
    rw [Re.ways, Re.ways, none_]
    rfl
  rw [CUDA_MARKERS, Re.ways]
  refine List.flatMap_eq_nil_iff.mpr fun way _ => List.map_eq_nil_iff.mpr ?_
  rw [List.take_nil, List.drop_nil, List.getLast?_nil, Option.none_or, inner]

theorem not_word_of_blank {c : Char} (blank : Text.isSpace c = true) : u.word c = false := by
  cases letter : u.word c with
  | false => rfl
  | true => rw [u.not_space_of_word c letter] at blank; cases blank

theorem named_line (l rest : List Char) :
    named u f (l ++ '\n' :: rest) = named u f l ++ named u f rest := by
  have gap : u.word '\n' = false := not_word_of_blank (by decide)
  rw [named, Re.findall_append avoids_markers gap solid_markers, List.map_append]
  rfl

theorem named_lines (lines : List Line) (rest : List Char) :
    named u f (unlines lines ++ rest) = named u f (unlines lines) ++ named u f rest := by
  induction lines with
  | nil => rfl
  | cons line lines ih =>
      have shape (more : List Char) :
          unlines (line :: lines) ++ more = line ++ '\n' :: (unlines lines ++ more) := by
        simp [unlines]
      rw [shape, named_line, ih, ← List.append_assoc, ← named_line]
      congr 2
      simpa using (shape []).symm

theorem unlines_append (lines more : List Line) :
    unlines (lines ++ more) = unlines lines ++ unlines more :=
  List.flatMap_append

theorem unlines_cons (line : Line) (lines : List Line) :
    unlines (line :: lines) = line ++ '\n' :: unlines lines := by
  simp [unlines]

/-- Nothing stands on a blank line. -/
theorem named_blank (blank : ∀ c ∈ l, Text.isSpace c = true) : named u f l = [] := by
  have each : ∀ before : Option Char, before.any u.word = false →
      Re.findFrom u.word (CUDA_MARKERS f) 0 before l = [] := by
    induction l with
    | nil => exact fun _ _ => rfl
    | cons c rest ih =>
        intro before gap
        obtain ⟨here, later⟩ := List.forall_mem_cons.mp blank
        have c_gap : u.word c = false := not_word_of_blank here
        have none_ : (CUDA_MARKERS f).ways u.word before (c :: rest) = [] := by
          rw [CUDA_MARKERS, Re.ways, Re.ways, gap, List.head?_cons, Option.any_some, c_gap]
          rfl
        rw [Re.findFrom, none_]
        exact ih later _ c_gap
  rw [named, Re.findall, each none rfl, List.map_nil]

/-! ## Where a file is cut -/

/-- Past the beginning of a line the file is not cut before the next one. -/
theorem cut_line (plain : '\n' ∉ line) :
    cut false (line ++ '\n' :: rest) = (line ++ '\n' :: (cut true rest).1, (cut true rest).2) := by
  induction line with
  | nil => rw [List.nil_append, cut]; rfl
  | cons c line ih =>
      rw [List.mem_cons, not_or] at plain
      have other : decide (c = '\n') = false := decide_eq_false (Ne.symm plain.1)
      rw [List.cons_append, cut, other, ih plain.2]
      rfl

theorem cut_past (plain : '\n' ∉ line) (shut : opensOptional (line ++ '\n' :: rest) = false) :
    cut true (line ++ '\n' :: rest) = (line ++ '\n' :: (cut true rest).1, (cut true rest).2) := by
  cases line with
  | nil =>
      rw [List.nil_append] at shut ⊢
      rw [cut, shut]
      rfl
  | cons c line =>
      rw [List.mem_cons, not_or] at plain
      have other : decide (c = '\n') = false := decide_eq_false (Ne.symm plain.1)
      rw [List.cons_append] at shut ⊢
      rw [cut, shut, other, cut_line plain.2]
      rfl

theorem cut_open (opens : opensOptional l = true) : cut true l = ([], l) := by
  cases l with
  | nil => rfl
  | cons c rest =>
      rw [cut, opens]
      rfl

/-- A line where no optional section opens is read on its own side of the cut. -/
theorem named_cut (plain : '\n' ∉ line)
    (shut : opensOptional (line ++ '\n' :: rest) = false ∨ ∀ c ∈ line, Text.isSpace c = true) :
    named u f (cut true (line ++ '\n' :: rest)).1 =
        named u f line ++ named u f (cut true rest).1 ∧
      named u f (cut true (line ++ '\n' :: rest)).2 = named u f (cut true rest).2 := by
  cases opens : opensOptional (line ++ '\n' :: rest) with
  | false =>
      rw [cut_past plain opens]
      exact ⟨named_line line _, rfl⟩
  | true =>
      -- The blank lines before the header of an optional section are past the cut with it.
      have blank := shut.resolve_left (by rw [opens]; decide)
      have space : ∀ c ∈ line ++ ['\n'], Text.isSpace c = true :=
        List.forall_mem_append.mpr ⟨blank, List.forall_mem_singleton.mpr (by decide)⟩
      have later : opensOptional rest = true := by
        rw [opensOptional, ← List.singleton_append, ← List.append_assoc,
          List.dropWhile_append_of_pos space] at opens
        exact opens
      rw [cut_open opens, cut_open later, named_line, named_blank blank]
      exact ⟨rfl, rfl⟩

theorem isPrefixOf_close {k : List Char} (rest : List Char) (plain : ']' ∉ name) (key : ']' ∉ k) :
    (k ++ [']']).isPrefixOf (name ++ ']' :: rest) = decide (name = k) := by
  induction k generalizing name with
  | nil =>
      cases name with
      | nil => simp
      | cons c name =>
          have other : c ≠ ']' := fun same => plain (same ▸ List.mem_cons_self)
          simp [List.isPrefixOf, Ne.symm other]
  | cons letter k ih =>
      rw [List.mem_cons, not_or] at key
      cases name with
      | nil => simp [List.isPrefixOf, Ne.symm key.1]
      | cons c name =>
          rw [List.mem_cons, not_or] at plain
          rw [List.cons_append, List.cons_append, List.isPrefixOf, ih plain.2 key.2]
          by_cases same : letter = c
          · simp [same]
          · simp [same, Ne.symm same]

theorem opens_header : opensOptional (s.header ++ rest) = s.optional := by
  have space : ∀ c ∈ s.indent, Text.isSpace c = true := fun c member => (s.blank c member).1
  have bracket : Text.isSpace '[' = false := by decide
  have inner : ((s.indent ++ '[' :: (s.name ++ ']' :: s.tail)) ++ rest).dropWhile Text.isSpace =
      '[' :: (s.name ++ ']' :: (s.tail ++ rest)) := by
    rw [List.append_assoc, List.dropWhile_append_of_pos space, List.cons_append,
      List.dropWhile_cons_of_neg (by rw [bracket]; decide), List.append_assoc, List.cons_append]
  have closed : ']' ∈ s.name ++ ']' :: (s.tail ++ rest) :=
    List.mem_append_right _ List.mem_cons_self
  have project := isPrefixOf_close (s.tail ++ rest) s.name_plain.1
    (show ']' ∉ "project.optional-dependencies".toList by decide)
  have options := isPrefixOf_close (s.tail ++ rest) s.name_plain.1
    (show ']' ∉ "options.extras_require".toList by decide)
  have group : ']' ∉ "tool.poetry.group".toList := by decide
  have dev : ']' ∉ "tool.poetry.dev-dependencies".toList := by decide
  rw [opensOptional, Section.header, inner]
  change optionalName _ = _
  rw [optionalName, Find.isPrefixOf_stop group, Find.isPrefixOf_stop dev, decide_eq_true closed, Bool.and_true]
  change (("project.optional-dependencies".toList ++ [']']).isPrefixOf _ || _ ||
    ("options.extras_require".toList ++ [']']).isPrefixOf _) = _
  rw [project, options]
  rfl

theorem shut_of_plain (plain : Plain line) (rest : List Char) :
    opensOptional (line ++ '\n' :: rest) = false ∨ ∀ c ∈ line, Text.isSpace c = true := by
  obtain ⟨-, other⟩ := plain
  cases drop : line.dropWhile Text.isSpace with
  | nil => exact .inr (List.dropWhile_eq_nil_iff.mp drop)
  | cons c kept =>
      refine .inl ?_
      have c_other : c ≠ '[' := by
        rintro rfl
        rw [drop] at other
        exact other rfl
      rw [opensOptional, List.dropWhile_append, drop]
      simp only [List.isEmpty_cons, Bool.false_eq_true, if_false, List.cons_append]
      split
      next same => exact absurd (List.cons.inj same).1 c_other
      next => rfl

/-- Lines that are no header are read on their own side of the cut. -/
theorem named_plain (plain : ∀ line ∈ lines, Plain line) (rest : List Char) :
    named u f (cut true (unlines lines ++ rest)).1 =
        named u f (unlines lines) ++ named u f (cut true rest).1 ∧
      named u f (cut true (unlines lines ++ rest)).2 = named u f (cut true rest).2 := by
  induction lines with
  | nil => exact ⟨rfl, rfl⟩
  | cons line lines ih =>
      obtain ⟨here, later⟩ := List.forall_mem_cons.mp plain
      obtain ⟨runtime, extra⟩ := ih later
      obtain ⟨runtime', extra'⟩ :=
        named_cut (u := u) (f := f) here.1 (shut_of_plain here (unlines lines ++ rest))
      rw [unlines_cons, List.append_assoc, List.cons_append, runtime', extra', runtime, extra,
        named_line, List.append_assoc]
      exact ⟨rfl, rfl⟩

theorem header_line : '\n' ∉ s.header := by
  rw [Section.header, List.mem_append, List.mem_cons, List.mem_append, List.mem_cons]
  rintro (indent | bracket | inside | close | tail)
  · exact (s.blank _ indent).2 rfl
  · exact absurd bracket (by decide)
  · exact s.name_plain.2 inside
  · exact absurd close (by decide)
  · exact s.tail_plain tail

variable (u f) in
/-- The packages that a section names. -/
def Section.names (s : Section) : List (List Char) :=
  named u f (unlines s.lines)

/-- The sections are cut before the first of the optional ones. -/
theorem named_sections (sections : List Section) :
    named u f (cut true (unlines (sections.flatMap Section.lines))).1 =
        (sections.takeWhile fun s => !s.optional).flatMap (Section.names u f) ∧
      named u f (cut true (unlines (sections.flatMap Section.lines))).2 =
        (sections.dropWhile fun s => !s.optional).flatMap (Section.names u f) := by
  induction sections with
  | nil => exact ⟨rfl, rfl⟩
  | cons s sections ih =>
      have shape : unlines ((s :: sections).flatMap Section.lines) =
          s.header ++ '\n' :: (unlines s.body ++ unlines (sections.flatMap Section.lines)) := by
        rw [List.flatMap_cons, unlines_append, Section.lines, unlines_cons, List.append_assoc,
          List.cons_append]
      cases extra : s.optional with
      | true =>
          have each (sections : List Section) :
              named u f (unlines (sections.flatMap Section.lines)) =
                sections.flatMap (Section.names u f) := by
            induction sections with
            | nil => rfl
            | cons s sections ih =>
                rw [List.flatMap_cons, unlines_append, named_lines, ih]
                rfl
          have opens : opensOptional (unlines ((s :: sections).flatMap Section.lines)) = true := by
            rw [shape, opens_header, extra]
          rw [cut_open opens, each, List.takeWhile_cons, List.dropWhile_cons, extra]
          exact ⟨rfl, rfl⟩
      | false =>
          have shut : opensOptional (s.header ++ '\n' ::
              (unlines s.body ++ unlines (sections.flatMap Section.lines))) = false := by
            rw [opens_header, extra]
          obtain ⟨runtime, optional⟩ := named_cut (u := u) (f := f) header_line (.inl shut)
          obtain ⟨body, body'⟩ := named_plain (u := u) (f := f) s.body_plain
            (unlines (sections.flatMap Section.lines))
          rw [shape, runtime, optional, body, body', ih.1, ih.2, List.takeWhile_cons,
            List.dropWhile_cons, extra, Bool.not_false, if_pos rfl, if_pos rfl, List.flatMap_cons,
            Section.names, Section.lines, unlines_cons, named_line, List.append_assoc]
          exact ⟨rfl, rfl⟩

variable {d : Dependencies} {others : List File}

theorem required_file : required u f d.file = named u f (unlines d.preamble) ++
    (d.sections.takeWhile fun s => !s.optional).flatMap (Section.names u f) := by
  have dependency : d.file.name ∈ DEPENDENCY_FILES := d.dependency
  rw [required, if_pos dependency, Dependencies.file, unlines_append,
    (named_plain d.preamble_plain _).1, (named_sections d.sections).1]

theorem mentioned_file : mentioned u f d.file =
    (d.sections.dropWhile fun s => !s.optional).flatMap (Section.names u f) := by
  have dependency : d.file.name ∈ DEPENDENCY_FILES := d.dependency
  rw [mentioned, if_pos dependency, Dependencies.file, unlines_append,
    (named_plain d.preamble_plain _).2, (named_sections d.sections).2]

theorem mem_cuda : package ∈ (scan u f (d.file :: others)).cuda ↔
    (package ∈ named u f (unlines d.preamble) ∨
      ∃ s ∈ d.sections.takeWhile fun s => !s.optional, package ∈ s.names u f) ∨
    package ∈ (scan u f others).cuda := by
  simp only [scan, List.flatMap_cons, List.mem_toFinset, required_file, List.mem_append,
    List.mem_flatMap]

theorem mem_mentioned : package ∈ (scan u f (d.file :: others)).mentioned ↔
    ((∃ s ∈ d.sections.dropWhile fun s => !s.optional, package ∈ s.names u f) ∨
      ∃ p ∈ others, package ∈ mentioned u f p) ∧ package ∉ (scan u f (d.file :: others)).cuda := by
  simp only [scan, List.flatMap_cons, Finset.mem_sdiff, List.mem_toFinset, mentioned_file,
    List.mem_append, List.mem_flatMap]

/-- Where what is required is the same in every order, so is what is mentioned. -/
theorem scan_perm (order : sections.Perm d.sections)
    (same : ∀ package, package ∈ (scan u f ({ d with sections := sections }.file :: others)).cuda ↔
      package ∈ (scan u f (d.file :: others)).cuda) :
    scan u f ({ d with sections := sections }.file :: others) = scan u f (d.file :: others) := by
  -- Of a package that is not required no section before the cut speaks.
  have past (d : Dependencies) (package : List Char) (free : package ∉ (scan u f (d.file :: others)).cuda) :
      (∃ s ∈ d.sections.dropWhile fun s => !s.optional, package ∈ s.names u f) ↔
        ∃ s ∈ d.sections, package ∈ s.names u f := by
    rw [mem_cuda, not_or, not_or] at free
    refine ⟨fun ⟨s, member, name⟩ => ⟨s, (List.dropWhile_sublist _).subset member, name⟩, ?_⟩
    rintro ⟨s, member, name⟩
    rw [← List.takeWhile_append_dropWhile (p := fun s => !s.optional) (l := d.sections)] at member
    refine (List.mem_append.mp member).elim (fun before => ?_) fun after => ⟨s, after, name⟩
    exact absurd ⟨s, before, name⟩ free.1.2
  ext package
  · exact same package
  · rw [mem_mentioned, mem_mentioned, same package, and_congr_left_iff]
    intro free
    have free' := free
    rw [← same package] at free'
    rw [past _ _ free, past _ _ free']
    refine or_congr_left ?_
    simp only [order.mem_iff]

/-- A dependency file is read for what it requires, in every order of its sections, where all sections are
runtime requirements, or what those require is required above them or by another file as well. -/
theorem scan_reads_iff (u : Unicode) (f : Folding) (d : Dependencies) (others : List File) :
    d.Reads u f others ↔ (∀ s ∈ d.sections, s.optional = false) ∨
      ∀ s ∈ d.sections, s.optional = false → ∀ package ∈ s.names u f,
        package ∈ named u f (unlines d.preamble) ∨ package ∈ (scan u f others).cuda := by
  constructor
  · rintro ⟨requires, order⟩
    by_cases all : ∀ s ∈ d.sections, s.optional = false
    · exact .inl all
    · refine .inr fun s member runtime package name => ?_
      push Not at all
      obtain ⟨extra, inside, optional⟩ := all
      rw [ne_eq, Bool.not_eq_false] at optional
      -- With the optional section in front nothing of the sections is read.
      obtain ⟨above, below, split⟩ := List.append_of_mem inside
      have front : (extra :: (above ++ below)).Perm d.sections := split ▸ List.perm_middle.symm
      have found : package ∈ (scan u f (d.file :: others)).cuda :=
        (requires package).mpr (.inl (.inr ⟨s, member, runtime, name⟩))
      rw [← order _ front, mem_cuda, List.takeWhile_cons, optional] at found
      refine found.imp (fun here => ?_) id
      refine here.resolve_right ?_
      rintro ⟨s, none_, -⟩
      cases none_
  · intro free
    have reads : ∀ sections, sections.Perm d.sections → ∀ package,
        package ∈ (scan u f ({ d with sections := sections }.file :: others)).cuda ↔
          d.Requires u f package ∨ package ∈ (scan u f others).cuda := by
      intro sections order package
      rw [mem_cuda, Dependencies.Requires]
      constructor
      · rintro ((top | ⟨s, member, name⟩) | elsewhere)
        · exact .inl (.inl top)
        · have runtime : s.optional = false := by simpa using List.mem_takeWhile_imp member
          have inside := order.mem_iff.mp ((List.takeWhile_sublist _).subset member)
          exact .inl (.inr ⟨s, inside, runtime, name⟩)
        · exact .inr elsewhere
      · rintro ((top | ⟨s, member, runtime, name⟩) | elsewhere)
        · exact .inl (.inl top)
        · rcases free with all | covered
          · have whole : (sections.takeWhile fun s => !s.optional) = sections :=
              List.takeWhile_eq_self_iff.mpr fun s inside => by
                rw [all s (order.mem_iff.mp inside), Bool.not_false]
            exact .inl (.inr ⟨s, whole.symm ▸ order.mem_iff.mpr member, name⟩)
          · exact (covered s member runtime package name).imp .inl id
        · exact .inr elsewhere
    refine ⟨reads d.sections (.refl _), fun sections order => scan_perm order fun package => ?_⟩
    exact (reads sections order package).trans (reads d.sections (.refl _) package).symm

/-! ## A training extra above the build's requirements -/

theorem ascii_line (letter : Char) (other : letter ≠ '\n') : ('\n'.toLower == letter) = false :=
  beq_false_of_ne (Ne.symm other)

def ascii : Folding where
  same c letter := c.toLower == letter
  line := ascii_line

def train : Section where
  indent := []
  name := "project.optional-dependencies".toList
  tail := []
  body := ["train = [\"deepspeed\"]".toList]
  blank := List.forall_mem_nil _
  name_plain := by decide
  tail_plain := by decide
  body_plain := List.forall_mem_singleton.mpr ⟨by decide, by decide⟩

def build : Section where
  indent := []
  name := "build-system".toList
  tail := []
  body := ["requires = [\"triton\"]".toList]
  blank := List.forall_mem_nil _
  name_plain := by decide
  tail_plain := by decide
  body_plain := List.forall_mem_singleton.mpr ⟨by decide, by decide⟩

def pyproject : Dependencies where
  name := "pyproject.toml"
  preamble := []
  sections := [train, build]
  dependency := by decide
  preamble_plain := List.forall_mem_nil _

theorem build_not_read : ¬ pyproject.Reads Unicode.small ascii [] := by
  rintro ⟨requires, -⟩
  have found := (requires "triton".toList).mpr
    (.inl (.inr ⟨build, List.mem_cons_of_mem _ List.mem_cons_self, by decide, by decide⟩))
  rw [mem_cuda] at found
  rcases found with (top | ⟨s, before, -⟩) | elsewhere
  · cases top
  · cases before
  · cases elsewhere

end LocalHarness.Tiers.Scan
