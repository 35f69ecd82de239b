import Mathlib.Data.List.Nodup
import LocalHarness.Checks.Extract
import LocalHarness.Library.Regex

/-! # What a feed is talking about

`candidates` reads the entries of a feed for the repositories they link, and for names in their prose. Of
two with one name the first stands, whatever the case of their letters. The id in a link is taken as far
as its characters go, the full stop of a sentence included.
-/

namespace LocalHarness.Discovery

open LocalHarness.Library LocalHarness.Checks.Extract

/-! ## The patterns -/

/-- `[A-Za-z0-9._-]` -/
def isId (c : Char) : Bool :=
  c.isAlphanum || c = '.' || c = '_' || c = '-'

/-- `[-_.]` -/
def isJoint (c : Char) : Bool :=
  c = '-' || c = '_' || c = '.'

/-- `[A-Za-z0-9_-]` -/
def isHandle (c : Char) : Bool :=
  c.isAlphanum || c = '_' || c = '-'

def notStop (c : Char) : Bool :=
  c ≠ '.'

def spaces : Re :=
  .many Text.isSpace 1 none

def REPO_HOST : Re :=
  .alt (.literal "huggingface.co".toList) (.literal "github.com".toList)

def REPO_ID : Re :=
  .seq (.many isId 1 none) (.seq (.literal ['/']) (.many isId 1 none))

/-- `_REPO` -/
def REPO : Re :=
  .seq (.literal "http".toList) <| .seq (.maybe (.literal ['s'])) <| .seq (.literal "://".toList) <|
    .seq (.group REPO_HOST) <| .seq (.literal ['/']) (.group REPO_ID)

/-- `[-_.][A-Za-z0-9]+` -/
def part : Re :=
  .seq (.one isJoint) (.many Char.isAlphanum 1 none)

/-- A letter, and so many parts at least and at most after what goes with it. -/
def parts (least more : Nat) : Re :=
  .seq (.one Char.isAlpha) (.seq (.many Char.isAlphanum 0 none)
    ((List.replicate least part).foldr .seq (.upTo part more)))

/-- `_CANDIDATE` -/
def CANDIDATE : Re :=
  .seq (.group (parts 1 5)) <| .seq spaces <| .seq (.literal ['-']) <| .seq spaces <|
    .group (.seq (.one Char.isUpper) (.seq (.many notStop 5 (some 120)) (.literal ['.'])))

/-- `_TITLE_NAME` -/
def TITLE_NAME : Re :=
  .seq .boundary (.seq (.group (parts 2 4)) .boundary)

/-- Python's tables; a stroke is no digit. -/
structure Tables extends Unicode where
  slash : digit '/' = false

variable (u : Tables)

/-- `v?\d+(?:\.\d+)*[A-Za-z]?` -/
def version : Re :=
  .seq (.maybe (.literal ['v'])) <| .seq (.many u.digit 1 none) <|
    .seq (.star (.seq (.literal ['.']) (.many u.digit 1 none))) (.maybe (.one Char.isAlpha))

def product : Re :=
  .seq (.one Char.isUpper) <| .seq (.many Char.isAlpha 2 none) <|
    .seq (.maybe (.seq spaces (.seq (.one Char.isUpper) (.many Char.isAlpha 0 none)))) <|
      .seq spaces (version u)

/-- `_TITLE_PRODUCT` -/
def TITLE_PRODUCT : Re :=
  .seq .boundary (.seq (.group (product u)) .boundary)

/-- `_COMMENT_TITLE` from the beginning of a title. The rest is taken whole, so the end is at its end. -/
def COMMENT_TITLE : Re :=
  .seq (.literal "/u/".toList) <| .seq (.group (.many isHandle 1 none)) <| .seq spaces <|
    .seq (.literal "on".toList) <| .seq spaces (.group (.many (fun _ => true) 0 none))

/-! ## Proposals -/

structure Entry where
  title : List Char
  link : List Char
  updated : List Char
  body : List Char

inductive Kind
  | repo
  | tool
  | candidate
  deriving DecidableEq

structure Proposal where
  name : List Char
  why : List Char
  source : List Char
  url : List Char
  when_ : List Char
  kind : Kind
  relevance : Int
  deriving DecidableEq

/-- What `add` is called with. -/
structure Offer where
  name : List Char
  why : List Char
  link : List Char
  when_ : List Char
  kind : Kind

/-- `str.lower`: the names have no letters but those of ASCII. -/
def lower (name : List Char) : List Char :=
  name.map Char.toLower

def NOT_AN_OWNER : List (List Char) :=
  ["blog", "docs", "papers", "spaces", "datasets", "collections", "models", "tasks", "learn", "join",
    "pricing", "settings", "orgs", "features", "topics", "trending", "about", "sponsors", "marketplace",
    "explore", "notifications", "pulls", "issues"].map String.toList

def STOPWORDS : List (List Char) :=
  ["e-mail", "state-of-the-art", "open-source", "text-to-image", "image-to-video", "text-to-video",
    "step-by-step", "so-called"].map String.toList

def commenter (e : Entry) : Option (List Char) :=
  (COMMENT_TITLE.ways u.word none e.title).head?.bind fun way => way.2.head?

def authors (entries : List Entry) : List (List Char) :=
  (entries.filterMap (commenter u)).map lower

/-- A host and the id of a repository there, of each link of an entry. -/
def links (e : Entry) : List (List Char × List Char) :=
  (REPO.findall u.word (e.body ++ ' ' :: e.link)).filterMap fun found =>
    match found.2 with
    | [host, repo] => some (host, repo)
    | _ => none

/-- The site's own pages are no repositories. -/
def reserved (repo : List Char) : Bool :=
  lower (repo.takeWhile (· ≠ '/')) ∈ NOT_AN_OWNER

/-- One pass over the links of the entries. -/
def linked (want : List Char) (kind : Kind) (entries : List Entry) : List Offer :=
  entries.flatMap fun e => ((links u e).filter fun link => want <:+: link.1 ∧ reserved link.2 = false).map
    fun link => ⟨link.2, "linked from: ".toList ++ e.title, e.link, e.updated, kind⟩

/-- `" ".join(name.split())` -/
def joined (name : List Char) : List Char :=
  List.intercalate [' '] ((name.splitOnP Text.isSpace).filter (· ≠ []))

/-- The names in the prose of an entry, and in its title if that is its own. -/
def prose (e : Entry) : List Offer :=
  ((CANDIDATE.findall u.word e.body).filterMap fun found =>
    match found.2 with
    | [name, why] => some ⟨name, why, e.link, e.updated, .candidate⟩
    | _ => none) ++
  if (commenter u e).isSome then []
  else
    ((TITLE_NAME.findall u.word e.title).flatMap fun found =>
        found.2.map fun name => ⟨name, e.title, e.link, e.updated, .candidate⟩) ++
      (TITLE_PRODUCT u |>.findall u.word e.title).flatMap fun found =>
        found.2.map fun name => ⟨joined name, e.title, e.link, e.updated, .candidate⟩

def offers (entries : List Entry) : List Offer :=
  linked u "huggingface".toList .repo entries ++ linked u "github".toList .tool entries ++
    entries.flatMap (prose u)

variable (relevance : List Char → Int) (source : List Char)

def Offer.proposal (o : Offer) : Proposal :=
  let why := (strip o.why).take 160
  ⟨o.name, why, source, o.link, o.when_, o.kind, relevance (o.name ++ ' ' :: why)⟩

/-- `add`: the first of a name stands, if it is none to leave out. -/
def add (people : List (List Char)) (out : List Proposal) (o : Offer) : List Proposal :=
  if lower o.name ∈ STOPWORDS ∨ lower o.name ∈ out.map (fun p => lower p.name) ∨ lower o.name ∈ people then
    out
  else out ++ [o.proposal relevance source]

def candidates (entries : List Entry) : List Proposal :=
  (offers u entries).foldl (add relevance source (authors u entries)) []

/-! ## What it is for -/

/-- The repository an id names, whatever the case of its letters: without the full stop of a sentence. -/
def identity (name : List Char) : List Char :=
  (lower name).rdropWhile (· = '.')

/-- An entry links the id on the host, and not as a page of the site. -/
def Linked (entries : List Entry) (host repo : List Char) : Prop :=
  ∃ e ∈ entries, (host, repo) ∈ links u e ∧ reserved repo = false

/-- Something of the id is the repository's name. -/
def Has (repo : List Char) : Prop :=
  (identity repo).getLast? ≠ some '/'

/-- Each name is proposed once and no person is, and a repository that is linked is proposed once, under
its own id, as a model if it is linked on the host of models. -/
structure Proposes (entries : List Entry) : Prop where
  distinct : ((candidates u relevance source entries).map fun p => lower p.name).Nodup
  people : ∀ p ∈ candidates u relevance source entries, lower p.name ∉ authors u entries
  once : ∀ host repo, Linked u entries host repo → Has repo → ∃ p,
    (candidates u relevance source entries).filter (fun p => identity p.name = identity repo) = [p] ∧
      lower p.name = identity repo ∧
        (p.kind = .repo ∧ (∃ other, Linked u entries "huggingface.co".toList other ∧
            identity other = identity repo) ∨
          p.kind = .tool ∧ ∀ other, Linked u entries "huggingface.co".toList other →
            identity other ≠ identity repo)

variable {u : Tables} {relevance : List Char → Int} {source : List Char} {entries : List Entry} {e : Entry}
  {host repo name : List Char} {o : Offer} {out : List Proposal} {p : Proposal}
  {people : List (List Char)} {given more : List Offer}

/-! ## The letters of a name -/

theorem toLower_eq_iff {c d : Char} (low : d.val.toNat < 65) : c.toLower = d ↔ c = d := by
  have either (c : Char) : c.toLower = c ∨ 65 ≤ c.val.toNat ∧ 65 ≤ c.toLower.val.toNat := by
    by_cases upper : c.val ≥ 'A'.val ∧ c.val ≤ 'Z'.val
    · have lowered : c.toLower.val = c.val + ('a'.val - 'A'.val) := congrArg Char.val (dif_pos upper)
      have range : 65 ≤ c.val.toNat ∧ c.val.toNat ≤ 90 := by
        simp only [ge_iff_le, UInt32.le_iff_toNat_le] at upper
        exact upper
      have step : ('a'.val - 'A'.val).toNat = 32 := by decide
      rw [lowered, UInt32.toNat_add]
      omega
    · exact .inl (dif_neg upper)
  constructor
  · rintro rfl
    exact (either c).elim Eq.symm fun both => absurd low (Nat.not_lt.mpr both.2)
  · rintro rfl
    exact (either c).elim id fun both => absurd low (Nat.not_lt.mpr both.1)

theorem slash_mem_lower : '/' ∈ lower name ↔ '/' ∈ name := by
  rw [lower, List.mem_map]
  constructor
  · rintro ⟨c, member, same⟩
    rwa [(toLower_eq_iff (by decide)).mp same] at member
  · exact fun member => ⟨'/', member, by decide⟩

theorem slash_mem_identity : '/' ∈ identity name ↔ '/' ∈ name := by
  refine Iff.trans ⟨fun inside => (List.rdropWhile_prefix _ _).subset inside, fun inside => ?_⟩
    slash_mem_lower
  obtain ⟨front, back, shape⟩ := List.append_of_mem inside
  rw [identity, shape, Find.rdropWhile_stop (by decide)]
  exact List.mem_append_right _ List.mem_cons_self

/-- An id is its repository's where it does not end with a full stop. -/
theorem lower_eq_identity : lower name = identity name ↔ name.getLast? ≠ some '.' := by
  rw [identity, eq_comm, Find.rdropWhile_eq_iff, lower, List.getLast?_map]
  cases name.getLast? with
  | none => simp
  | some c =>
      have stop : c.toLower = '.' ↔ c = '.' := toLower_eq_iff (by decide)
      simp [stop]

/-! ## What the patterns find -/

theorem avoids_parts (least more : Nat) : (parts least more).Avoids '/' := by
  have joint : isJoint '/' = false := by decide
  have alnum : Char.isAlphanum '/' = false := by decide
  have alpha : Char.isAlpha '/' = false := by decide
  have some_ (n : Nat) : (Re.upTo part n).Avoids '/' := by
    induction n with
    | zero => trivial
    | succ n ih => exact ⟨⟨⟨joint, alnum⟩, ih⟩, trivial⟩
  have all (n : Nat) : ((List.replicate n part).foldr Re.seq (Re.upTo part more)).Avoids '/' := by
    induction n with
    | zero => exact some_ more
    | succ n ih => exact ⟨⟨joint, alnum⟩, ih⟩
  exact ⟨alpha, alnum, all least⟩

theorem avoids_product : (product u).Avoids '/' := by
  have upper : Char.isUpper '/' = false := by decide
  have alpha : Char.isAlpha '/' = false := by decide
  have space : Text.isSpace '/' = false := by decide
  have v : decide ('/' = 'v') = false := by decide
  have stop : decide ('/' = '.') = false := by decide
  have number : (version u).Avoids '/' :=
    ⟨⟨⟨v, trivial⟩, trivial⟩, u.slash, ⟨⟨stop, trivial⟩, u.slash⟩, alpha, trivial⟩
  exact ⟨upper, alpha, ⟨⟨space, upper, alpha⟩, trivial⟩, space, number⟩

theorem joined_no_slash (plain : '/' ∉ name) : '/' ∉ joined name := by
  intro inside
  rcases Text.mem_intercalate inside with blank | ⟨word, member, here⟩
  · exact absurd blank (by decide)
  · exact plain (Text.subset_of_mem_splitOnP (List.mem_filter.mp member).1 here)

/-- No name of the prose is an id. -/
theorem prose_no_slash (member : o ∈ prose u e) : '/' ∉ o.name := by
  rcases List.mem_append.mp member with body | title
  · obtain ⟨found, inside, taken⟩ := List.mem_filterMap.mp body
    obtain ⟨name', s₂, g₁, g₂, ⟨-, shape⟩, ⟨inner, name_, rfl⟩, rest⟩ := Re.matches_of_findall inside
    have first : found.2.head? = some name' := by
      rw [shape]
      rfl
    split at taken
    next name why groups =>
      rw [groups] at first
      obtain rfl := Option.some.inj first
      obtain rfl := Option.some.inj taken
      exact Re.not_mem_of_matches (avoids_parts 1 5) name_
    next => cases taken
  · split at title
    next => cases title
    next =>
      rcases List.mem_append.mp title with plain | versioned
      · obtain ⟨found, inside, taken⟩ := List.mem_flatMap.mp plain
        obtain ⟨name, group, rfl⟩ := List.mem_map.mp taken
        have whole := Re.matches_of_findall inside
        have avoids : TITLE_NAME.Avoids '/' := ⟨trivial, avoids_parts 2 4, trivial⟩
        exact fun here =>
          Re.not_mem_of_matches avoids whole (Re.subset_of_matches whole name group here)
      · obtain ⟨found, inside, taken⟩ := List.mem_flatMap.mp versioned
        obtain ⟨name, group, rfl⟩ := List.mem_map.mp taken
        have whole := Re.matches_of_findall inside
        have avoids : (TITLE_PRODUCT u).Avoids '/' := ⟨trivial, avoids_product, trivial⟩
        exact joined_no_slash fun here =>
          Re.not_mem_of_matches avoids whole (Re.subset_of_matches whole name group here)

theorem matches_host {s : List Char} {groups : List (List Char)} (found : REPO_HOST.Matches s groups) :
    (s = "huggingface.co".toList ∨ s = "github.com".toList) ∧ groups = [] := by
  rcases found with model | tool
  · obtain ⟨rfl, rfl⟩ := Re.matches_literal model
    exact ⟨.inl rfl, rfl⟩
  · obtain ⟨rfl, rfl⟩ := Re.matches_literal tool
    exact ⟨.inr rfl, rfl⟩

theorem matches_id {s : List Char} {groups : List (List Char)} (found : REPO_ID.Matches s groups) :
    '/' ∈ s ∧ groups = [] := by
  obtain ⟨owner, rest, g₁, g₂, ⟨rfl, rfl⟩, ⟨-, rfl⟩, stroke, name, g₃, g₄, ⟨rfl, rfl⟩, here, -, rfl⟩ := found
  obtain ⟨rfl, rfl⟩ := Re.matches_literal here
  exact ⟨List.mem_append_right owner List.mem_cons_self, rfl⟩

/-- A link is on one of the two hosts, and its id is two parts about a stroke. -/
theorem mem_links (member : (host, repo) ∈ links u e) :
    (host = "huggingface.co".toList ∨ host = "github.com".toList) ∧ '/' ∈ repo := by
  obtain ⟨found, inside, taken⟩ := List.mem_filterMap.mp member
  obtain ⟨s₁, s₂, g₁, g₂, ⟨-, shape⟩, http, s₃, s₄, g₃, g₄, ⟨-, rfl⟩, secure, s₅, s₆, g₅, g₆, ⟨-, rfl⟩,
    sep, host', s₇, g₇, g₈, ⟨-, rfl⟩, ⟨inner, host_, rfl⟩, s₈, repo', g₉, g₁₀, ⟨-, rfl⟩, stroke,
    inner', repo_, rfl⟩ := Re.matches_of_findall inside
  obtain ⟨-, rfl⟩ := Re.matches_literal http
  obtain ⟨-, rfl⟩ := Re.matches_literal sep
  obtain ⟨-, rfl⟩ := Re.matches_literal stroke
  obtain rfl : g₃ = [] := secure.elim (fun s => (Re.matches_literal s).2) And.right
  obtain ⟨hosts, rfl⟩ := matches_host host_
  obtain ⟨slash, rfl⟩ := matches_id repo_
  have groups : found.2 = [host', repo'] := shape
  rw [groups] at taken
  obtain ⟨rfl, rfl⟩ := Prod.mk.inj (Option.some.inj taken)
  exact ⟨hosts, slash⟩

/-- A handle is no id. -/
theorem authors_no_slash (member : name ∈ authors u entries) : '/' ∉ name := by
  obtain ⟨handle, inside, rfl⟩ := List.mem_map.mp member
  obtain ⟨e, -, found⟩ := List.mem_filterMap.mp inside
  obtain ⟨way, first, head⟩ := Option.bind_eq_some_iff.mp found
  have whole := Re.matches_of_way (List.mem_of_head? first)
  obtain ⟨s₁, s₂, g₁, g₂, ⟨-, shape⟩, mark, handle', s₃, g₃, g₄, ⟨-, rfl⟩, ⟨inner, handle_, rfl⟩, -⟩ := whole
  obtain ⟨-, rfl⟩ := Re.matches_literal mark
  rw [shape] at head
  obtain rfl := Option.some.inj head
  have handles : isHandle '/' = false := by decide
  have avoids : (Re.many isHandle 1 none).Avoids '/' := handles
  rw [slash_mem_lower]
  exact Re.not_mem_of_matches avoids handle_

/-! ## The first of each name -/

/-- A name that is offered and can stand. -/
def Stands (people : List (List Char)) (name : List Char) : Prop :=
  name ∉ STOPWORDS ∧ name ∉ people

variable (u entries) in
theorem stands_of_slash (slash : '/' ∈ repo) : Stands (authors u entries) (lower repo) := by
  have words : ∀ word ∈ STOPWORDS, '/' ∉ word := by decide
  rw [← slash_mem_lower] at slash
  exact ⟨fun word => words _ word slash, fun person => authors_no_slash person slash⟩

variable (relevance source) in
theorem add_eq (people : List (List Char)) (out : List Proposal) (o : Offer) :
    add relevance source people out o =
        out ∧ (lower o.name ∈ out.map (fun p => lower p.name) ∨ ¬ Stands people (lower o.name)) ∨
      add relevance source people out o = out ++ [o.proposal relevance source] ∧
        lower o.name ∉ out.map (fun p => lower p.name) ∧ Stands people (lower o.name) := by
  unfold add Stands
  split
  next taken => exact .inl ⟨rfl, by tauto⟩
  next free => exact .inr ⟨rfl, by tauto⟩

theorem mem_of_mem_out (member : p ∈ out) : p ∈ given.foldl (add relevance source people) out := by
  induction given generalizing out with
  | nil => exact member
  | cons o given ih =>
      refine ih ?_
      rcases add_eq relevance source people out o with ⟨same, -⟩ | ⟨same, -⟩
      · rwa [same]
      · rw [same]
        exact List.mem_append_left _ member

theorem offered_of_mem (member : p ∈ given.foldl (add relevance source people) out) :
    p ∈ out ∨ ∃ o ∈ given, p = o.proposal relevance source ∧ Stands people (lower o.name) := by
  induction given generalizing out with
  | nil => exact .inl member
  | cons o given ih =>
      rcases ih member with before | ⟨later, inside, found⟩
      · rcases add_eq relevance source people out o with ⟨same, -⟩ | ⟨same, -, stands⟩
        · exact .inl (same ▸ before)
        · rw [same] at before
          rcases List.mem_append.mp before with old | new
          · exact .inl old
          · exact .inr ⟨o, List.mem_cons_self, List.mem_singleton.mp new, stands⟩
      · exact .inr ⟨later, List.mem_cons_of_mem o inside, found⟩

variable (relevance source out) in
/-- What is offered and can stand is there under its name. -/
theorem mem_of_offered (offered : o ∈ given) (stands : Stands people (lower o.name)) :
    ∃ p ∈ given.foldl (add relevance source people) out, lower p.name = lower o.name := by
  induction given generalizing out with
  | nil => cases offered
  | cons first given ih =>
      rcases List.mem_cons.mp offered with rfl | later
      · rcases add_eq relevance source people out o with ⟨same, taken | barred⟩ | ⟨same, -⟩
        · obtain ⟨p, inside, named⟩ := List.mem_map.mp taken
          refine ⟨p, ?_, named⟩
          rw [List.foldl_cons, same]
          exact mem_of_mem_out inside
        · exact absurd stands barred
        · refine ⟨o.proposal relevance source, ?_, rfl⟩
          rw [List.foldl_cons, same]
          exact mem_of_mem_out (List.mem_append_right _ (List.mem_singleton_self _))
      · exact ih _ later

theorem nodup_names (once : (out.map fun p => lower p.name).Nodup) :
    ((given.foldl (add relevance source people) out).map fun p => lower p.name).Nodup := by
  induction given generalizing out with
  | nil => exact once
  | cons o given ih =>
      refine ih ?_
      rcases add_eq relevance source people out o with ⟨same, -⟩ | ⟨same, free, -⟩
      · rwa [same]
      · rw [same, List.map_append]
        refine List.nodup_append.mpr ⟨once, List.nodup_singleton _, ?_⟩
        intro name inside other here same
        rw [same, List.mem_singleton.mp here] at inside
        exact free inside

/-- What was offered first stands. -/
theorem mem_of_first (offered : o ∈ given) (stands : Stands people (lower o.name))
    (member : p ∈ (given ++ more).foldl (add relevance source people) [])
    (same : lower p.name = lower o.name) : p ∈ given.foldl (add relevance source people) [] := by
  obtain ⟨first, inside, named⟩ := mem_of_offered relevance source [] offered stands
  have once : (((given ++ more).foldl (add relevance source people) []).map
      fun p => lower p.name).Nodup := nodup_names List.nodup_nil
  have there : first ∈ (given ++ more).foldl (add relevance source people) [] := by
    rw [List.foldl_append]
    exact mem_of_mem_out inside
  rwa [List.inj_on_of_nodup_map once member there (same.trans named.symm)]

/-! ## When a repository is proposed once -/

theorem mem_linked {want : List Char} {kind : Kind} : o ∈ linked u want kind entries ↔
    ∃ e ∈ entries, ∃ host repo, (host, repo) ∈ links u e ∧ want <:+: host ∧ reserved repo = false ∧
      o = ⟨repo, "linked from: ".toList ++ e.title, e.link, e.updated, kind⟩ := by
  simp only [linked, List.mem_flatMap, List.mem_map, List.mem_filter, Prod.exists,
    decide_eq_true_eq]
  constructor
  · rintro ⟨e, inside, host, repo, ⟨member, on, free⟩, rfl⟩
    exact ⟨e, inside, host, repo, member, on, free, rfl⟩
  · rintro ⟨e, inside, host, repo, member, on, free, rfl⟩
    exact ⟨e, inside, host, repo, ⟨member, on, free⟩, rfl⟩

/-- The first pass offers what the host of models links, the second what the other does. -/
theorem mem_models : o ∈ linked u "huggingface".toList .repo entries →
    Linked u entries "huggingface.co".toList o.name ∧ o.kind = .repo := by
  intro member
  obtain ⟨e, inside, host, repo, link, on, free, rfl⟩ := mem_linked.mp member
  refine ⟨⟨e, inside, ?_, free⟩, rfl⟩
  rcases (mem_links link).1 with rfl | rfl
  · exact link
  · exact absurd on (by decide)

theorem mem_tools : o ∈ linked u "github".toList .tool entries →
    Linked u entries "github.com".toList o.name ∧ o.kind = .tool := by
  intro member
  obtain ⟨e, inside, host, repo, link, on, free, rfl⟩ := mem_linked.mp member
  refine ⟨⟨e, inside, ?_, free⟩, rfl⟩
  rcases (mem_links link).1 with rfl | rfl
  · exact absurd on (by decide)
  · exact link

theorem offered_of_linked (link : Linked u entries host repo) :
    (host = "huggingface.co".toList ∧ ∃ o ∈ linked u "huggingface".toList .repo entries, o.name = repo) ∨
      host = "github.com".toList ∧ ∃ o ∈ linked u "github".toList .tool entries, o.name = repo := by
  obtain ⟨e, inside, member, free⟩ := link
  refine (mem_links member).1.imp ?_ ?_
  · rintro rfl
    exact ⟨rfl, _, mem_linked.mpr ⟨e, inside, _, repo, member, by decide, free, rfl⟩, rfl⟩
  · rintro rfl
    exact ⟨rfl, _, mem_linked.mpr ⟨e, inside, _, repo, member, by decide, free, rfl⟩, rfl⟩

theorem slash_of_linked (link : Linked u entries host repo) : '/' ∈ repo :=
  have ⟨_, _, member, _⟩ := link
  (mem_links member).2

variable (relevance source) in
/-- Each repository that is linked is proposed under the id in its link. -/
theorem mem_of_linked (link : Linked u entries host repo) :
    ∃ p ∈ candidates u relevance source entries, lower p.name = lower repo := by
  have stands := stands_of_slash u entries (slash_of_linked link)
  rcases offered_of_linked link with ⟨-, o, member, rfl⟩ | ⟨-, o, member, rfl⟩
  · exact mem_of_offered relevance source [] (List.mem_append_left _ (List.mem_append_left _ member)) stands
  · exact mem_of_offered relevance source [] (List.mem_append_left _ (List.mem_append_right _ member)) stands

/-- A proposal whose name is an id was linked. -/
theorem linked_of_mem (member : p ∈ candidates u relevance source entries) (slash : '/' ∈ p.name) :
    ∃ host, Linked u entries host p.name ∧
      (host = "huggingface.co".toList ∧ p.kind = .repo ∨ host = "github.com".toList ∧ p.kind = .tool) := by
  rcases offered_of_mem member with none_ | ⟨o, offered, rfl, -⟩
  · cases none_
  · rcases List.mem_append.mp offered with link | plain
    · rcases List.mem_append.mp link with model | tool
      · exact ⟨_, (mem_models model).1, .inl ⟨rfl, (mem_models model).2⟩⟩
      · exact ⟨_, (mem_tools tool).1, .inr ⟨rfl, (mem_tools tool).2⟩⟩
    · obtain ⟨e, -, inside⟩ := List.mem_flatMap.mp plain
      exact absurd slash (prose_no_slash inside)

theorem clean_of_proposes (proposes : Proposes u relevance source entries)
    (link : Linked u entries host repo) (has : Has repo) : repo.getLast? ≠ some '.' := by
  obtain ⟨own, one, named, -⟩ := proposes.once host repo link has
  obtain ⟨p, member, same⟩ := mem_of_linked relevance source link
  have inside : p ∈ (candidates u relevance source entries).filter
      (fun p => identity p.name = identity repo) :=
    List.mem_filter.mpr ⟨member, decide_eq_true (congrArg (List.rdropWhile (· = '.')) same)⟩
  rw [one, List.mem_singleton] at inside
  rw [← lower_eq_identity, ← same, inside]
  exact named

theorem proposes_of_clean
    (clean : ∀ host repo, Linked u entries host repo → Has repo → repo.getLast? ≠ some '.') :
    Proposes u relevance source entries := by
  have once : ((candidates u relevance source entries).map fun p => lower p.name).Nodup :=
    nodup_names List.nodup_nil
  refine ⟨once, fun p member => ?_, fun host repo link has => ?_⟩
  · rcases offered_of_mem member with none_ | ⟨o, -, rfl, stands⟩
    · cases none_
    · exact stands.2
  -- All links of the repository have its own id, and so one name.
  have own := lower_eq_identity.mpr (clean host repo link has)
  have same_name : ∀ host' other, Linked u entries host' other → identity other = identity repo →
      lower other = lower repo := by
    intro host' other link' same
    have has' : Has other := by rwa [Has, same]
    rw [lower_eq_identity.mpr (clean host' other link' has'), same, own]
  obtain ⟨p, member, named⟩ := mem_of_linked relevance source link
  have p_id : identity p.name = identity repo := congrArg (List.rdropWhile (· = '.')) named
  have slash (q : Proposal) (same : identity q.name = identity repo) : '/' ∈ q.name := by
    rw [← slash_mem_identity, same, slash_mem_identity]
    exact slash_of_linked link
  have only : ∀ q ∈ candidates u relevance source entries, identity q.name = identity repo → q = p := by
    intro q inside same
    obtain ⟨host', link', -⟩ := linked_of_mem inside (slash q same)
    exact List.inj_on_of_nodup_map once inside member ((same_name host' _ link' same).trans named.symm)
  refine ⟨p, ?_, named.trans own, ?_⟩
  · refine List.perm_singleton.mp ((List.perm_ext_iff_of_nodup
      ((List.Nodup.of_map _ once).filter _) (List.nodup_singleton p)).mpr fun q => ?_)
    rw [List.mem_filter, List.mem_singleton, decide_eq_true_eq]
    exact ⟨fun both => only q both.1 both.2, fun same => same ▸ ⟨member, p_id⟩⟩
  · by_cases model : ∃ other, Linked u entries "huggingface.co".toList other ∧
        identity other = identity repo
    · obtain ⟨other, link', same⟩ := model
      refine .inl ⟨?_, other, link', same⟩
      rcases offered_of_linked link' with ⟨-, o, offered, rfl⟩ | ⟨wrong, -⟩
      · have stands := stands_of_slash u entries (slash_of_linked link')
        rw [candidates, offers, List.append_assoc] at member
        have first := mem_of_first offered stands member
          (named.trans (same_name _ _ link' same).symm)
        rcases offered_of_mem first with none_ | ⟨o', inside, rfl, -⟩
        · cases none_
        · exact (mem_models inside).2
      · exact absurd wrong (by decide)
    · refine .inr ⟨?_, fun other link' same => model ⟨other, link', same⟩⟩
      obtain ⟨host', link', ⟨rfl, -⟩ | ⟨-, kind⟩⟩ := linked_of_mem member (slash p p_id)
      · exact absurd ⟨p.name, link', p_id⟩ model
      · exact kind

/-- Every linked repository is proposed once, under its own id, where no id that is linked ends with a full
stop, but one that has no name before it. -/
theorem candidates_iff (u : Tables) (relevance : List Char → Int) (source : List Char)
    (entries : List Entry) : Proposes u relevance source entries ↔
      ∀ host repo, Linked u entries host repo → Has repo → repo.getLast? ≠ some '.' :=
  ⟨fun proposes _ _ => clean_of_proposes proposes, proposes_of_clean⟩

/-! ## A link at the end of a sentence -/

theorem small_slash : Unicode.small.digit '/' = false := by decide

def smallTables : Tables :=
  { Unicode.small with slash := small_slash }

def sentence : Entry where
  title := "New weights".toList
  link := []
  updated := []
  body := "See https://huggingface.co/org/model.".toList

/-- The repository is proposed as `org/model.`. -/
theorem stop_in_id : ¬ Proposes smallTables (fun _ => 0) [] [sentence] := by
  intro proposes
  have link : Linked smallTables [sentence] "huggingface.co".toList "org/model.".toList :=
    ⟨sentence, List.mem_singleton_self _, by decide, by decide⟩
  have has : (identity "org/model.".toList).getLast? ≠ some '/' := by decide
  exact absurd rfl (clean_of_proposes proposes link has)

end LocalHarness.Discovery
