import Mathlib.Data.List.Sort
import Mathlib.Data.List.Lex
import LocalHarness.Discovery.Candidates

/-! # What the feeds propose

A sweep reads its sources one after another. Of the names in the posts of one it offers some and writes a row
for each that it drops; the offers are then put in order, and those after the first few are left out.
-/

namespace LocalHarness.Discovery.FromFeeds

open LocalHarness.Library LocalHarness.Discovery

abbrev Text := List Char

inductive SourceKind
  | atom
  | releases
  | other
  deriving DecidableEq

structure Source where
  name : Text
  url : Text
  kind : SourceKind
  lane : Text
  enabled : Bool

inductive CapabilityKind
  | feed
  | update
  | proposal
  | note
  deriving DecidableEq

structure Capability where
  kind : CapabilityKind
  name : Text
  lane : Text
  source : Text
  how : Text
  measured : Bool
  present : Bool
  blocked : Text
  relevance : Int
  note : Text

/-- Why a name did not become a proposal. -/
inductive Rejection
  | unresolvable
  | notARepo
  | duplicate
  | alreadyMeasured
  | belowRelevance
  | settled
  deriving DecidableEq

/-- A row of `extractions`. -/
structure Row where
  name : Text
  source : Text
  reason : Rejection
  deriving DecidableEq

/-- What `record` is given. -/
structure Seen where
  name : Text
  source : Text
  url : Text
  why : Text
  relevance : Int
  kind : Kind
  registry : Text
  category : Text
  lane : Text
  lane_source : Text
  resolved : Text

/-- What a sweep is called with, and what it is told. The store is the names that are settled in it. -/
structure Sweep where
  u : Tables
  /-- The number a digit stands for. -/
  value : Char → Nat
  verify : Bool
  limit : Int
  min_relevance : Option Int
  store : Option (List Text)
  comments : Int
  mention_comments : Int
  mentions : Option (Text → List (Text × Text))
  reader : Source → Except Text (List Entry)
  /-- The replies to a post; none where they cannot be read. -/
  comment_reader : Text → Option (List Entry)
  /-- The first ids that HuggingFace has for a name. -/
  _hf_models : Text → List Text
  /-- Whether GitHub has a repository; none where it cannot be asked. -/
  gh : Text → Option Bool
  _was_measured : Text → Text → Bool
  how_to_measure : Text → Text → Text
  from_prose : Text → Text
  installed_version : Text → Text
  relevance : Text → Int

/-- How many of so many `l[:n]` takes. -/
def places (n : Int) (length : Nat) : Nat :=
  if 0 ≤ n then n.toNat else length - n.natAbs

/-- `l[:n]` -/
def slice {α : Type} (n : Int) (l : List α) : List α :=
  l.take (places n l.length)

def str (n : Nat) : Text :=
  Nat.toDigits 10 n

namespace Sweep

variable (w : Sweep)

/-! ## Releases -/

def TRACKS : List (Text × Text) :=
  [("mlx-releases", "mlx"), ("mlx-lm-releases", "mlx-lm"), ("mlx-audio-releases", "mlx-audio"),
    ("mflux-releases", "mflux"), ("diffusers-releases", "diffusers")].map fun t => (t.1.toList, t.2.toList)

def number : Re :=
  .many w.u.digit 1 none

/-- `(\d+\.\d+(?:\.\d+)*)` -/
def VERSION : Re :=
  .seq w.number (.seq (.literal ['.']) (.seq w.number (.star (.seq (.literal ['.']) w.number))))

def int (digits : Text) : Nat :=
  digits.foldl (fun n c => 10 * n + w.value c) 0

/-- The numbers of a version. -/
def key (v : Text) : List Nat :=
  (w.number.findall w.u.word v).map fun found => w.int found.1

/-- The highest version in a releases feed. -/
def newest_release (entries : List Entry) : Text :=
  entries.foldl (fun best e =>
    match (w.VERSION.findall w.u.word e.title).head? with
    | some found => if w.key best < w.key found.1 then found.1 else best
    | none => best) []

def behind (newest have_ : Text) : Bool :=
  newest ≠ [] ∧ have_ ≠ [] ∧ w.key have_ < w.key newest

def installed (package : Text) : Text :=
  if package = [] then [] else w.installed_version package

/-- What the releases of a package say. -/
def update (src : Source) (entries : List Entry) : List Capability :=
  let package := (TRACKS.lookup src.name).getD []
  let newest := w.newest_release entries
  let have_ := w.installed package
  if w.behind newest have_ then
    [{ kind := .update, name := package, lane := src.lane, source := src.url
       how := "upgrade ".toList ++ package ++ ' ' :: have_ ++ " -> ".toList ++ newest ++
         ", then re-run the lane's eval to confirm nothing regressed".toList
       measured := false, present := true, blocked := [], relevance := 0
       note := "running ".toList ++ have_ ++ ", latest is ".toList ++ newest }]
  else []

def unread (src : Source) (exc : Text) : Capability where
  kind := .feed
  name := src.name
  lane := src.lane
  source := src.url
  how := "check the URL, or the network".toList
  measured := false
  present := false
  blocked := "could not read: ".toList ++ exc.take 160
  relevance := 0
  note := []

/-! ## The names in the posts -/

/-- The posts and, where they are read, the replies to the first of them, each with their origin. -/
def batches (src : Source) (entries : List Entry) : List (Text × List Entry) :=
  let replies := ((slice w.comments entries).filter fun e => e.link ≠ []).flatMap fun e =>
    (w.comment_reader e.link).getD []
  (src.name, entries) ::
    if w.comments ≠ 0 ∧ src.kind = .atom ∧ replies ≠ [] then [(src.name ++ "-comments".toList, replies)] else []

/-- What a model reads in the longest replies. -/
def mentioned (origin : Text) (batch : List Entry) : List Proposal :=
  match w.mentions with
  | none => []
  | some mentions =>
      if "-comments".toList <:+ origin then
        (slice w.mention_comments (batch.insertionSort fun a b => b.body.length ≤ a.body.length)).flatMap fun e =>
          (mentions e.body).map fun found =>
            { name := found.1
              why := if found.2 = [] then ("named in: ".toList ++ e.title).take 160 else found.2
              source := origin, url := e.link, when_ := e.updated, kind := .candidate
              relevance := w.relevance (found.1 ++ ' ' :: found.2) }
      else []

def proposals (src : Source) (entries : List Entry) : List Proposal :=
  (w.batches src entries).flatMap fun batch =>
    candidates w.u w.relevance batch.1 batch.2 ++ w.mentioned batch.1 batch.2

/-! ## What becomes of a name -/

structure State where
  out : List Capability
  seen : List Text
  rows : List Row
  recorded : List Seen
  suppressed : Nat

def lower (name : Text) : Text :=
  w.u.lower name

/-- `name.split("/")[-1]` -/
def lastPart (name : Text) : Text :=
  name.rtakeWhile (· ≠ '/')

def _hf_exists (name : Text) : Text :=
  ((w._hf_models name).find? fun repo => w.lower (lastPart repo) = w.lower (lastPart name)).getD []

def _gh_exists (repo : Text) : Bool :=
  (w.gh repo).getD true

def drop (st : State) (p : Proposal) (reason : Rejection) (name : Text) : State :=
  if w.store.isSome then
    { st with rows := st.rows ++ [⟨(if name = [] then p.name else name).take 200, p.source, reason⟩] }
  else st

def said (src : Source) (p : Proposal) (tag : Text) : Text :=
  p.why.take 120 ++ tag ++ " [".toList ++ src.name ++ ' ' :: p.when_ ++ "]".toList

def orUrl (src : Source) (p : Proposal) : Text :=
  if p.url = [] then src.url else p.url

/-- A github repo is something to read. -/
def offerTool (src : Source) (p : Proposal) : Capability where
  kind := .proposal
  name := p.name
  lane := src.lane
  source := orUrl src p
  how := "https://github.com/".toList ++ p.name
  measured := false
  present := true
  blocked := []
  relevance := 0
  note := said src p []

def runsHere (p : Proposal) : Text :=
  if 0 < p.relevance then " [runs here +".toList ++ str p.relevance.toNat ++ "]".toList else []

def offerModel (src : Source) (p : Proposal) (repo : Text) : Capability where
  kind := .proposal
  name := repo
  lane := src.lane
  source := orUrl src p
  how := w.how_to_measure src.lane repo
  measured := false
  present := true
  blocked := []
  relevance := p.relevance
  note := said src p (runsHere p)

def seenOf (src : Source) (p : Proposal) (repo : Text) : Seen where
  name := repo
  source := if p.source = [] then src.name else p.source
  url := orUrl src p
  why := p.why.take 160
  relevance := p.relevance
  kind := p.kind
  registry := "huggingface".toList
  category := "model".toList
  lane := w.from_prose (repo ++ ' ' :: p.why)
  lane_source := "prose".toList
  resolved := repo

def recordIn (src : Source) (st : State) (p : Proposal) (repo : Text) : State :=
  if w.store.isSome then { st with recorded := st.recorded ++ [w.seenOf src p repo] } else st

/-- A model, by the id it was linked under or resolved to. -/
def considerModel (src : Source) (st : State) (p : Proposal) (repo : Text) : State :=
  if w.lower repo ∈ st.seen then w.drop st p .duplicate repo
  else if w._was_measured repo src.lane then w.drop st p .alreadyMeasured repo
  else
    let st := w.recordIn src { st with seen := st.seen ++ [w.lower repo] } p repo
    if repo ∈ w.store.getD [] then w.drop { st with suppressed := st.suppressed + 1 } p .settled repo
    else { st with out := st.out ++ [w.offerModel src p repo] }

def consider (src : Source) (st : State) (p : Proposal) : State :=
  if w.min_relevance.any fun least => p.relevance < least then w.drop st p .belowRelevance []
  else
    match p.kind with
    | .tool =>
        if w.lower p.name ∈ st.seen then w.drop st p .duplicate []
        else
          let st := { st with seen := st.seen ++ [w.lower p.name] }
          if w.verify && !w._gh_exists p.name then w.drop st p .notARepo []
          else { st with out := st.out ++ [offerTool src p] }
    | .repo => w.considerModel src st p p.name
    | .candidate =>
        if !w.verify then st
        else
          let repo := w._hf_exists p.name
          if repo = [] then w.drop st p .unresolvable []
          else w.considerModel src st p repo

/-- What is read of a source: other rows, and names. -/
def readings (src : Source) : List Capability × List Proposal :=
  if !src.enabled || src.kind = .other then ([], [])
  else
    match w.reader src with
    | .error exc => ([unread src exc], [])
    | .ok entries =>
        if src.kind = .releases then (w.update src entries, []) else ([], w.proposals src entries)

def readSource (st : State) (src : Source) : State :=
  let (others, names) := w.readings src
  names.foldl (w.consider src) { st with out := st.out ++ others }

def read (sources : List Source) : State :=
  sources.foldl w.readSource ⟨[], [], [], [], 0⟩

/-- Most relevant to this machine first. -/
def sorted (out : List Capability) : List Capability :=
  out.insertionSort fun a b => b.relevance ≤ a.relevance

def answered (suppressed : Nat) : Capability where
  kind := .note
  name := str suppressed ++ " already answered".toList
  lane := "all".toList
  source := "discovery.db".toList
  how := "soh discover --recurrence to see what is known".toList
  measured := false
  present := true
  blocked := []
  relevance := 0
  note := str suppressed ++ " proposal(s) suppressed: already measured, declined or broken".toList

def from_feeds (sources : List Source) : List Capability :=
  slice w.limit (sorted (w.read sources).out) ++
    if (w.read sources).suppressed = 0 then [] else [answered (w.read sources).suppressed]

/-! ## What it is for -/

/-- The names of the sources, in the order they are come to. -/
def extracted (sources : List Source) : List (Source × Proposal) :=
  sources.flatMap fun src => (w.readings src).2.map (Prod.mk src)

/-- The id a name is offered under. -/
def answer (p : Proposal) : Text :=
  if p.kind = .candidate then w._hf_exists p.name else p.name

inductive Fate
  | offered (c : Capability)
  | dropped (r : Row)

def Fate.offer : Fate → Option Capability
  | offered c => some c
  | dropped _ => none

def Fate.row : Fate → Option Row
  | offered _ => none
  | dropped r => some r

/-- The offer or the row is that of the name. -/
inductive Fits (p : Proposal) : Fate → Prop
  | offered {c : Capability} (name : c.name = w.answer p) : Fits p (.offered c)
  | dropped {r : Row} (source : r.source = p.source)
      (name : r.name = p.name.take 200 ∨ r.name = (w.answer p).take 200) : Fits p (.dropped r)

def isProposal (c : Capability) : Bool :=
  c.kind = .proposal

def offers (sources : List Source) : List Capability :=
  (w.from_feeds sources).filter isProposal

/-- Nothing that is settled is offered, nothing is offered twice, and each name is offered or has a row. -/
structure Accounts (sources : List Source) : Prop where
  unsettled : ∀ c ∈ w.offers sources, ∀ name ∈ w.store.getD [], w.lower name ≠ w.lower c.name
  once : ((w.offers sources).map fun c => w.lower c.name).Nodup
  accounted : ∃ fates, List.Forall₂ (fun x fate => w.Fits x.2 fate) (w.extracted sources) fates ∧
    (fates.filterMap Fate.offer).Perm (w.offers sources) ∧
      fates.filterMap Fate.row = (w.read sources).rows

/-- The letters under which a name is not offered again, unless it is dropped for what it is. -/
def claim (x : Source × Proposal) : Option Text :=
  if w.min_relevance.any fun least => x.2.relevance < least then none
  else if x.2.kind = .tool then some (w.lower x.2.name)
  else if x.2.kind = .candidate ∧ w._hf_exists x.2.name = [] then none
  else if w._was_measured (w.answer x.2) x.1.lane then none
  else some (w.lower (w.answer x.2))

/-- GitHub has the repository, or the model is not settled under this id. -/
def wanted (x : Source × Proposal) : Bool :=
  if x.2.kind = .tool then w._gh_exists x.2.name else w.answer x.2 ∉ w.store.getD []

def offer (x : Source × Proposal) : Capability :=
  if x.2.kind = .tool then offerTool x.1 x.2 else w.offerModel x.1 x.2 (w.answer x.2)

/-- The first of some names that claims its letters. -/
def First (all : List (Source × Proposal)) (x : Source × Proposal) : Prop :=
  ∃ before after name, all = before ++ x :: after ∧ w.claim x = some name ∧
    ∀ y ∈ before, w.claim y ≠ some name

/-- No offer stands after the first few, and no name that is offered is settled in other letters. -/
structure Clear (sources : List Source) : Prop where
  uncut : ∀ c ∈ (sorted (w.read sources).out).drop (places w.limit (w.read sources).out.length),
    isProposal c = false
  unsettled : ∀ x, w.First (w.extracted sources) x → w.wanted x = true →
    ∀ name ∈ w.store.getD [], w.lower name ≠ w.lower (w.answer x.2)

/-! ## A name at a time -/

variable {w} {st st' : State} {x : Source × Proposal} {all : List (Source × Proposal)} {sources : List Source}
  {c : Capability} {name : Text}

/-- The name is dropped, and has a row. -/
def Dropped (w : Sweep) (st st' : State) (p : Proposal) : Prop :=
  ∃ r, w.Fits p (.dropped r) ∧ st'.out = st.out ∧ st'.rows = st.rows ++ [r]

theorem dropped_drop (store : w.store.isSome = true) (p : Proposal) (reason : Rejection) (st : State)
    {name : Text} (of : name = [] ∨ name = p.name ∨ name = w.answer p) :
    w.Dropped st (w.drop st p reason name) p ∧ (w.drop st p reason name).seen = st.seen := by
  rw [drop, if_pos store]
  refine ⟨⟨_, .dropped rfl ?_, rfl, rfl⟩, rfl⟩
  rcases of with rfl | rfl | rfl
  · exact .inl rfl
  · exact .inl (by rw [ite_self])
  · by_cases none_ : w.answer p = []
    · exact .inl (by rw [if_pos none_])
    · exact .inr (by rw [if_neg none_])

/-- What a sweep makes of a name: it is dropped, or it is the first to claim its letters. -/
inductive Considered (w : Sweep) (st : State) (x : Source × Proposal) (st' : State) : Prop
  | dropped (row : w.Dropped st st' x.2) (seen : st'.seen = st.seen)
      (claim : ∀ name, w.claim x = some name → name ∈ st.seen)
  | refused (name : Text) (claim : w.claim x = some name) (fresh : name ∉ st.seen)
      (seen : st'.seen = st.seen ++ [name]) (unwanted : w.wanted x = false) (row : w.Dropped st st' x.2)
  | offered (name : Text) (claim : w.claim x = some name) (fresh : name ∉ st.seen)
      (seen : st'.seen = st.seen ++ [name]) (wanted : w.wanted x = true)
      (out : st'.out = st.out ++ [w.offer x]) (rows : st'.rows = st.rows)

theorem recordIn_same (src : Source) (st : State) (p : Proposal) (repo : Text) :
    (w.recordIn src st p repo).out = st.out ∧ (w.recordIn src st p repo).seen = st.seen ∧
      (w.recordIn src st p repo).rows = st.rows := by
  rw [recordIn]
  split
  · exact ⟨rfl, rfl, rfl⟩
  · exact ⟨rfl, rfl, rfl⟩

theorem considered_model (store : w.store.isSome = true) (model : x.2.kind ≠ .tool)
    (claim : w.claim x = if w._was_measured (w.answer x.2) x.1.lane then none else some (w.lower (w.answer x.2))) :
    w.Considered st x (w.considerModel x.1 st x.2 (w.answer x.2)) := by
  have wanted : w.wanted x = decide (w.answer x.2 ∉ w.store.getD []) := if_neg model
  have offer : w.offer x = w.offerModel x.1 x.2 (w.answer x.2) := if_neg model
  rw [considerModel]
  split
  next again =>
    obtain ⟨row, seen⟩ := dropped_drop store x.2 .duplicate st (.inr (.inr rfl))
    refine .dropped row seen fun name same => ?_
    rw [claim] at same
    split at same
    next => cases same
    next =>
      obtain rfl := Option.some.inj same
      exact again
  next fresh =>
    split
    next measured =>
      obtain ⟨row, seen⟩ := dropped_drop store x.2 .alreadyMeasured st (.inr (.inr rfl))
      refine .dropped row seen fun name same => ?_
      rw [claim, if_pos measured] at same
      cases same
    next unmeasured =>
      rw [if_neg unmeasured] at claim
      obtain ⟨out, seen, rows⟩ := recordIn_same (w := w) x.1 { st with seen := st.seen ++ [w.lower (w.answer x.2)] }
        x.2 (w.answer x.2)
      simp only
      generalize w.recordIn x.1 { st with seen := st.seen ++ [w.lower (w.answer x.2)] } x.2 (w.answer x.2) = kept
        at out seen rows
      split
      next settled =>
        obtain ⟨⟨r, fits, out', rows'⟩, seen'⟩ := dropped_drop store x.2 .settled
          { kept with suppressed := kept.suppressed + 1 } (.inr (.inr rfl))
        refine .refused _ claim fresh (seen'.trans seen) ?_
          ⟨r, fits, out'.trans out, rows'.trans (congrArg (· ++ [r]) rows)⟩
        rw [wanted, decide_eq_false_iff_not, not_not]
        exact settled
      next unsettled =>
        refine .offered _ claim fresh seen ?_ ?_ rows
        · rw [wanted]
          exact decide_eq_true unsettled
        · rw [offer]
          exact congrArg (· ++ [w.offerModel x.1 x.2 (w.answer x.2)]) out

theorem considered (verify : w.verify = true) (store : w.store.isSome = true) (st : State)
    (x : Source × Proposal) : w.Considered st x (w.consider x.1 st x.2) := by
  rw [consider]
  split
  next below =>
    obtain ⟨row, seen⟩ := dropped_drop store x.2 .belowRelevance st (.inl rfl)
    refine .dropped row seen fun name same => ?_
    rw [claim, if_pos below] at same
    cases same
  next enough =>
    split
    next tool =>
      have claim : w.claim x = some (w.lower x.2.name) := by rw [claim, if_neg enough, if_pos tool]
      have wanted : w.wanted x = w._gh_exists x.2.name := if_pos tool
      split
      next again =>
        obtain ⟨row, seen⟩ := dropped_drop store x.2 .duplicate st (.inl rfl)
        refine .dropped row seen fun name same => ?_
        obtain rfl := Option.some.inj (claim.symm.trans same)
        exact again
      next fresh =>
        simp only
        split
        next gone =>
          rw [verify, Bool.true_and, Bool.not_eq_true'] at gone
          obtain ⟨⟨r, fits, out, rows⟩, seen⟩ := dropped_drop store x.2 .notARepo
            { st with seen := st.seen ++ [w.lower x.2.name] } (.inl rfl)
          exact .refused _ claim fresh seen (by rw [wanted, gone]) ⟨r, fits, out, rows⟩
        next there =>
          rw [verify, Bool.true_and, Bool.not_eq_true', Bool.not_eq_false] at there
          exact .offered _ claim fresh rfl (by rw [wanted, there]) (by rw [offer, if_pos tool]) rfl
    next repo =>
      have model : x.2.kind ≠ .tool := by rw [repo]; decide
      have linked : x.2.kind ≠ .candidate := by rw [repo]; decide
      have same : w.answer x.2 = x.2.name := if_neg linked
      rw [← same]
      refine considered_model store model ?_
      rw [claim, if_neg enough, if_neg model, if_neg fun both => linked both.1]
    next candidate =>
      have model : x.2.kind ≠ .tool := by rw [candidate]; decide
      have same : w.answer x.2 = w._hf_exists x.2.name := if_pos candidate
      simp only [verify, Bool.not_true, Bool.false_eq_true, if_false]
      split
      next none_ =>
        obtain ⟨row, seen⟩ := dropped_drop store x.2 .unresolvable st (.inl rfl)
        refine .dropped row seen fun name same => ?_
        rw [claim, if_neg enough, if_neg model, if_pos ⟨candidate, none_⟩] at same
        cases same
      next some_ =>
        rw [← same]
        refine considered_model store model ?_
        rw [claim, if_neg enough, if_neg model, if_neg fun both => some_ both.2]

/-! ## All the names -/

theorem offer_name (x : Source × Proposal) : (w.offer x).name = w.answer x.2 := by
  rw [offer]
  split
  next tool =>
    have linked : x.2.kind ≠ .candidate := by rw [tool]; decide
    exact (if_neg linked).symm
  next => rfl

theorem isProposal_offer (x : Source × Proposal) : isProposal (w.offer x) = true := by
  rw [offer]
  split <;> rfl

theorem lower_of_claim (claims : w.claim x = some name) : w.lower (w.answer x.2) = name := by
  rw [claim] at claims
  split at claims
  next => cases claims
  next =>
    split at claims
    next tool =>
      have linked : x.2.kind ≠ .candidate := by rw [tool]; decide
      have same : w.answer x.2 = x.2.name := if_neg linked
      rw [same]
      exact Option.some.inj claims
    next =>
      split at claims
      next => cases claims
      next =>
        split at claims
        next => cases claims
        next => exact Option.some.inj claims

theorem first_concat {y : Source × Proposal} : w.First (all ++ [y]) x ↔
    w.First all x ∨ x = y ∧ ∃ name, w.claim y = some name ∧ ∀ z ∈ all, w.claim z ≠ some name := by
  constructor
  · rintro ⟨before, after, name, shape, claims, fresh⟩
    rcases List.eq_nil_or_concat after with rfl | ⟨after, last, rfl⟩
    · obtain ⟨rfl, same⟩ := List.append_inj' shape rfl
      obtain rfl := List.singleton_inj.mp same
      exact .inr ⟨rfl, name, claims, fresh⟩
    · rw [List.concat_eq_append, ← List.cons_append, ← List.append_assoc] at shape
      obtain ⟨rfl, -⟩ := List.append_inj' shape rfl
      exact .inl ⟨before, after, name, rfl, claims, fresh⟩
  · rintro (⟨before, after, name, rfl, claims, fresh⟩ | ⟨rfl, name, claims, fresh⟩)
    · exact ⟨before, after ++ [y], name, by simp, claims, fresh⟩
    · exact ⟨all, [], name, rfl, claims, fresh⟩

/-- What is so after some names. -/
structure Told (w : Sweep) (all : List (Source × Proposal)) (st : State) : Prop where
  seen : ∀ name, name ∈ st.seen ↔ ∃ x ∈ all, w.claim x = some name
  offered : ∀ c, c ∈ st.out.filter isProposal ↔ ∃ x, w.First all x ∧ w.wanted x = true ∧ c = w.offer x
  once : ((st.out.filter isProposal).map fun c => w.lower c.name).Nodup
  fates : ∃ fates, List.Forall₂ (fun x fate => w.Fits x.2 fate) all fates ∧
    fates.filterMap Fate.offer = st.out.filter isProposal ∧ fates.filterMap Fate.row = st.rows

theorem told_nil : w.Told [] ⟨[], [], [], [], 0⟩ where
  seen := by simp
  offered := by simp [First]
  once := List.nodup_nil
  fates := ⟨[], .nil, rfl, rfl⟩

theorem Told.others {others : List Capability} (told : w.Told all st) (plain : ∀ c ∈ others, isProposal c = false) :
    w.Told all { st with out := st.out ++ others } := by
  have same : (st.out ++ others).filter isProposal = st.out.filter isProposal := by
    have none_ : others.filter isProposal = [] :=
      List.filter_eq_nil_iff.mpr fun c member => Bool.eq_false_iff.mp (plain c member)
    rw [List.filter_append, none_, List.append_nil]
  exact ⟨told.seen, same ▸ told.offered, same ▸ told.once, same ▸ told.fates⟩

/-- A name whose letters were claimed is not the first to claim them. -/
theorem Told.fresh_iff (told : w.Told all st) : name ∉ st.seen ↔ ∀ z ∈ all, w.claim z ≠ some name := by
  rw [told.seen, not_exists]
  exact forall_congr' fun z => not_and

theorem seen_concat (told : w.Told all st) (same : ∀ name, w.claim x = some name → name ∈ st.seen) :
    ∀ name, name ∈ st.seen ↔ ∃ y ∈ all ++ [x], w.claim y = some name := by
  intro name
  rw [told.seen]
  constructor
  · rintro ⟨y, member, claims⟩
    exact ⟨y, List.mem_append_left [x] member, claims⟩
  · rintro ⟨y, member, claims⟩
    rcases List.mem_append.mp member with member | last
    · exact ⟨y, member, claims⟩
    · obtain rfl := List.mem_singleton.mp last
      exact (told.seen name).mp (same name claims)

theorem seen_concat_fresh (told : w.Told all st) (claims : w.claim x = some name) :
    ∀ other, other ∈ st.seen ++ [name] ↔ ∃ y ∈ all ++ [x], w.claim y = some other := by
  intro other
  rw [List.mem_append, List.mem_singleton, told.seen]
  constructor
  · rintro (⟨y, member, claims⟩ | rfl)
    · exact ⟨y, List.mem_append_left [x] member, claims⟩
    · exact ⟨x, List.mem_append_right all List.mem_cons_self, claims⟩
  · rintro ⟨y, member, claims'⟩
    rcases List.mem_append.mp member with member | last
    · exact .inl ⟨y, member, claims'⟩
    · obtain rfl := List.mem_singleton.mp last
      exact .inr (Option.some.inj (claims'.symm.trans claims))

theorem fates_dropped (told : w.Told all st) (row : w.Dropped st st' x.2) :
    ∃ fates, List.Forall₂ (fun x fate => w.Fits x.2 fate) (all ++ [x]) fates ∧
      fates.filterMap Fate.offer = st'.out.filter isProposal ∧ fates.filterMap Fate.row = st'.rows := by
  obtain ⟨fates, fit, offers, rows⟩ := told.fates
  obtain ⟨r, fits, out, rows'⟩ := row
  refine ⟨fates ++ [.dropped r], List.rel_append fit (.cons fits .nil), ?_, ?_⟩
  · rw [List.filterMap_append, offers, out]
    exact List.append_nil _
  · rw [List.filterMap_append, rows, rows']
    rfl

theorem Told.step (told : w.Told all st) (considered : w.Considered st x st') : w.Told (all ++ [x]) st' := by
  cases considered with
  | dropped row seen again =>
      have out : st'.out = st.out := row.choose_spec.2.1
      refine ⟨seen ▸ seen_concat told again, fun c => ?_, out ▸ told.once, fates_dropped told row⟩
      rw [out, told.offered]
      refine exists_congr fun y => and_congr_left fun _ => ?_
      rw [first_concat, or_iff_left]
      rintro ⟨-, name, claims, fresh⟩
      exact absurd (again name claims) (told.fresh_iff.mpr fresh)
  | refused name claims fresh seen unwanted row =>
      have out : st'.out = st.out := row.choose_spec.2.1
      refine ⟨seen ▸ seen_concat_fresh told claims, fun c => ?_, out ▸ told.once, fates_dropped told row⟩
      rw [out, told.offered]
      refine exists_congr fun y => ?_
      rw [first_concat]
      constructor
      · rintro ⟨first, rest⟩
        exact ⟨.inl first, rest⟩
      · rintro ⟨first | ⟨rfl, -⟩, wanted, same⟩
        · exact ⟨first, wanted, same⟩
        · rw [unwanted] at wanted
          cases wanted
  | offered name claims fresh seen wanted out rows =>
      have more : st'.out.filter isProposal = st.out.filter isProposal ++ [w.offer x] := by
        rw [out, List.filter_append, List.filter_singleton, isProposal_offer]
        rfl
      refine ⟨seen ▸ seen_concat_fresh told claims, fun c => ?_, ?_, ?_⟩
      · rw [more, List.mem_append, told.offered, List.mem_singleton]
        constructor
        · rintro (⟨y, first, rest⟩ | rfl)
          · exact ⟨y, first_concat.mpr (.inl first), rest⟩
          · exact ⟨x, first_concat.mpr (.inr ⟨rfl, name, claims, told.fresh_iff.mp fresh⟩), wanted, rfl⟩
        · rintro ⟨y, first, rest⟩
          rcases first_concat.mp first with first | ⟨rfl, -⟩
          · exact .inl ⟨y, first, rest⟩
          · exact .inr rest.2
      · rw [more, List.map_append, List.nodup_append]
        refine ⟨told.once, List.nodup_singleton _, ?_⟩
        rintro a member b last rfl
        rw [List.map_singleton, List.mem_singleton, offer_name, lower_of_claim claims] at last
        obtain ⟨c, inside, rfl⟩ := List.mem_map.mp member
        obtain ⟨y, ⟨before, after, other, rfl, claims', -⟩, -, rfl⟩ := (told.offered c).mp inside
        rw [offer_name, lower_of_claim claims'] at last
        rw [last] at claims'
        exact fresh ((told.seen name).mpr ⟨y, List.mem_append_right before List.mem_cons_self, claims'⟩)
      · obtain ⟨fates, fit, offers, rows'⟩ := told.fates
        refine ⟨fates ++ [.offered (w.offer x)], List.rel_append fit (.cons (.offered (offer_name x)) .nil), ?_, ?_⟩
        · rw [List.filterMap_append, offers, more]
          rfl
        · rw [List.filterMap_append, rows', rows]
          exact List.append_nil _

theorem told_foldl (verify : w.verify = true) (store : w.store.isSome = true) (src : Source)
    (names : List Proposal) (told : w.Told all st) :
    w.Told (all ++ names.map (Prod.mk src)) (names.foldl (w.consider src) st) := by
  induction names generalizing all st with
  | nil => rwa [List.map_nil, List.append_nil]
  | cons p rest ih =>
      rw [List.map_cons, List.append_cons]
      exact ih (told.step (considered verify store st (src, p)))

theorem plain_readings (src : Source) : ∀ c ∈ (w.readings src).1, isProposal c = false := by
  rw [readings]
  split
  next => exact List.forall_mem_nil _
  next =>
    split
    next => exact List.forall_mem_singleton.mpr rfl
    next =>
      split
      next =>
        rw [update]
        simp only
        split
        next => exact List.forall_mem_singleton.mpr rfl
        next => exact List.forall_mem_nil _
      next => exact List.forall_mem_nil _

theorem told_read (verify : w.verify = true) (store : w.store.isSome = true) (sources : List Source) :
    w.Told (w.extracted sources) (w.read sources) := by
  induction sources using List.reverseRecOn with
  | nil => exact told_nil
  | append_singleton sources src ih =>
      have names : w.extracted (sources ++ [src]) =
          w.extracted sources ++ (w.readings src).2.map (Prod.mk src) := by
        rw [extracted, List.flatMap_append, List.flatMap_singleton, ← extracted]
      rw [names, read, List.foldl_concat, ← read]
      exact told_foldl verify store src _ (ih.others (plain_readings src))

/-! ## What is left of the offers -/

theorem length_fates (fates : List Fate) :
    fates.length = (fates.filterMap Fate.offer).length + (fates.filterMap Fate.row).length := by
  induction fates with
  | nil => rfl
  | cons fate rest ih =>
      cases fate with
      | offered c =>
          simp only [List.filterMap_cons, Fate.offer, Fate.row, List.length_cons, ih]
          omega
      | dropped r =>
          simp only [List.filterMap_cons, Fate.offer, Fate.row, List.length_cons, ih]
          omega

/-- The rows after the first few. -/
def leftOut (w : Sweep) (sources : List Source) : List Capability :=
  (sorted (w.read sources).out).drop (places w.limit (w.read sources).out.length)

theorem offers_leftOut (w : Sweep) (sources : List Source) :
    ((w.read sources).out.filter isProposal).Perm (w.offers sources ++ (w.leftOut sources).filter isProposal) := by
  have last : (if (w.read sources).suppressed = 0 then [] else [answered (w.read sources).suppressed]).filter
      isProposal = [] := by
    split <;> rfl
  have length : (sorted (w.read sources).out).length = (w.read sources).out.length :=
    (List.perm_insertionSort _ _).length_eq
  rw [offers, from_feeds, List.filter_append, last, List.append_nil, leftOut, slice, length, ← List.filter_append,
    List.take_append_drop]
  exact ((List.perm_insertionSort _ _).filter _).symm

/-- A sweep accounts for its names where no offer is left out and none is settled in other letters, and nowhere
else. -/
theorem accounts_iff (w : Sweep) (sources : List Source) (verify : w.verify = true)
    (store : w.store.isSome = true) : w.Accounts sources ↔ w.Clear sources := by
  have told := told_read verify store sources
  have split := offers_leftOut w sources
  constructor
  · rintro ⟨unsettled, -, fates, fit, offers, rows⟩
    have none_ : (w.leftOut sources).filter isProposal = [] := by
      -- as many names have no row as are offered before the cut
      obtain ⟨fates', fit', offers', rows'⟩ := told.fates
      have here := length_fates fates
      have there := length_fates fates'
      have whole := split.length_eq
      rw [← fit.length_eq, offers.length_eq, rows] at here
      rw [← fit'.length_eq, offers', rows'] at there
      rw [List.length_append] at whole
      exact List.eq_nil_of_length_eq_zero (by omega)
    refine ⟨fun c member => Bool.eq_false_iff.mpr (List.filter_eq_nil_iff.mp none_ c member), ?_⟩
    intro x first wanted
    rw [none_, List.append_nil] at split
    have member := split.mem_iff.mp ((told.offered _).mpr ⟨x, first, wanted, rfl⟩)
    rw [← offer_name]
    exact unsettled _ member
  · rintro ⟨uncut, unsettled⟩
    have none_ : (w.leftOut sources).filter isProposal = [] :=
      List.filter_eq_nil_iff.mpr fun c member => Bool.eq_false_iff.mp (uncut c member)
    rw [none_, List.append_nil] at split
    refine ⟨fun c member => ?_, (split.map _).nodup_iff.mp told.once, ?_⟩
    · obtain ⟨x, first, wanted, rfl⟩ := (told.offered c).mp (split.mem_iff.mpr member)
      rw [offer_name]
      exact unsettled x first wanted
    · obtain ⟨fates, fit, offers, rows⟩ := told.fates
      exact ⟨fates, fit, offers ▸ split, rows⟩

/-! ## A tool that was declined -/

def feed : Source where
  name := "reddit".toList
  url := []
  kind := .atom
  lane := "all".toList
  enabled := true

/-- A post links a tool that is settled in the store. -/
def declined : Sweep where
  u := smallTables
  value c := c.toNat - '0'.toNat
  verify := true
  limit := 25
  min_relevance := none
  store := some ["org/tool".toList]
  comments := 0
  mention_comments := 8
  mentions := none
  reader _ := .ok [⟨"New".toList, [], [], "https://github.com/org/tool".toList⟩]
  comment_reader _ := none
  _hf_models _ := []
  gh _ := some true
  _was_measured _ _ := false
  how_to_measure _ _ := []
  from_prose _ := []
  installed_version _ := []
  relevance _ := 0

theorem accounts_iff_declined : declined.verify = true ∧ declined.store.isSome = true ∧
    (declined.Accounts [feed] ↔ declined.Clear [feed]) :=
  ⟨rfl, rfl, accounts_iff declined [feed] rfl rfl⟩

/-- It is offered again: what is settled is asked of models only. -/
theorem tool_offered_again : ¬ declined.Accounts [feed] := by
  intro accounts
  have offered : "org/tool".toList ∈ (declined.offers [feed]).map Capability.name := by decide
  obtain ⟨c, member, same⟩ := List.mem_map.mp offered
  exact accounts.unsettled c member "org/tool".toList List.mem_cons_self (by rw [same])

end Sweep

end LocalHarness.Discovery.FromFeeds
