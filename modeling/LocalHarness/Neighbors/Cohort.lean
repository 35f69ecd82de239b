import Mathlib.Data.Int.Order.Basic
import Mathlib.Data.Prod.Lex
import Mathlib.Data.String.Basic
import LocalHarness.Library.Ranked
import LocalHarness.Library.Top

/-! # The crowd to ask

`cohort` starts from the people who wrote the repositories this project runs, and adds in each hop
those whom the people of the hop before follow, the most followed first.
-/

namespace LocalHarness.Neighbors

open LocalHarness.Library LocalHarness.Library.Tally

/-- What can be read of the graph; none where the request fails. A page lists nobody twice. -/
structure Client where
  contributors : String → Option (List String)
  following : String → Option (List String)
  once : ∀ login listed, following login = some listed → listed.Nodup

/-- Whom a login follows, as far as that can be read. -/
def Client.follows (client : Client) (login : String) : List String :=
  (client.following login).getD []

def isBot (login : String) : Bool :=
  "[bot]".toList.isSuffixOf login.toList

/-- A login that stands for somebody. -/
def Person (login : String) : Prop :=
  login ≠ "" ∧ isBot login = false

instance (login : String) : Decidable (Person login) :=
  inferInstanceAs (Decidable (login ≠ "" ∧ isBot login = false))

/-- What a call is made with. -/
structure Settings where
  perRepo : ℤ := 12
  follow : Bool := true
  hops : ℤ := 2
  limit : ℤ := 250
  minDegree : ℤ := 2
  perHop : Option ℤ := none

/-- `add` takes a login that is somebody new, while there is room. -/
def Admits (limit : ℤ) (people : List String) (login : String) : Prop :=
  Person login ∧ login ∉ people ∧ people.length < limit

instance (limit : ℤ) (people : List String) (login : String) :
    Decidable (Admits limit people login) :=
  inferInstanceAs (Decidable (Person login ∧ login ∉ people ∧ (people.length : ℤ) < limit))

def add (limit : ℤ) (people : List String) (login : String) : List String :=
  if Admits limit people login then people ++ [login] else people

/-- The contributors of the seeds, each as often as it is listed. -/
def core (client : Client) (perRepo : ℤ) (seeds : List String) : List String :=
  seeds.flatMap fun repo => Top.upTo perRepo ((client.contributors repo).getD [])

/-- The crowd before the first hop. -/
def start (client : Client) (settings : Settings) (seeds : List String) : List String :=
  (core client settings.perRepo seeds).foldl (add settings.limit) []

/-- `degree`: who is followed from the frontier and is not in the crowd, with how often. -/
def degree (client : Client) (people frontier : List String) : List (String × Nat) :=
  let votes := frontier.flatMap fun login => (client.follows login).filter (· ∉ people)
  (firsts votes).map fun other => (other, votes.count other)

/-- The most followed first, ties by name. -/
def place (entry : String × Nat) : ℤ ×ₗ String :=
  toLex (-(entry.2 : ℤ), entry.1)

def ranked (client : Client) (people frontier : List String) : List (String × Nat) :=
  (degree client people frontier).insertionSort fun a b => place a ≤ place b

/-- Whom a hop adds to the people, after those it has added already. -/
def pick (limit budget floor : ℤ) (people : List String) :
    List String → List (String × Nat) → List String
  | added, [] => added
  | added, (name, d) :: rest =>
      if budget ≤ added.length ∨ limit ≤ (people ++ added).length then added
      else if floor ≤ d ∧ Admits limit (people ++ added) name then
        pick limit budget floor people (added ++ [name]) rest
      else pick limit budget floor people added rest

def floor (minDegree : ℤ) (hop : Nat) : ℤ :=
  if hop = 0 then 1 else minDegree

/-- The people each hop adds; the first hop that adds none is the last. -/
def expand (client : Client) (limit budget minDegree : ℤ) :
    Nat → Nat → List String → List String → List (List String)
  | 0, _, _, _ => []
  | left + 1, hop, people, frontier =>
      let added := pick limit budget (floor minDegree hop) people []
        (ranked client people frontier)
      if added = [] then []
      else added :: expand client limit budget minDegree left (hop + 1) (people ++ added) added

def Settings.rounds (settings : Settings) : ℤ :=
  max 1 settings.hops

/-- What one hop may add to a crowd of so many. -/
def Settings.budget (settings : Settings) (size : Nat) : ℤ :=
  match settings.perHop with
  | some per => if per = 0 then shared else per
  | none => shared
where
  shared := max 1 ((settings.limit - size).fdiv settings.rounds)

/-- The people of each hop. -/
def layers (client : Client) (settings : Settings) (seeds : List String) : List (List String) :=
  let people := start client settings seeds
  if settings.follow then
    expand client settings.limit (settings.budget people.length) settings.minDegree
      settings.rounds.toNat 0 people (firsts (core client settings.perRepo seeds))
  else []

def cohort (client : Client) (settings : Settings) (seeds : List String) : List String :=
  Top.upTo settings.limit (start client settings seeds ++ (layers client settings seeds).flatten)

/-- How many of a crowd follow somebody. -/
def followers (client : Client) (crowd : List String) (name : String) : Nat :=
  crowd.countP fun login => name ∈ client.follows login

/-- Each login of a hop has enough followers in the crowd of the hops before it. -/
def Supported (client : Client) (minDegree : ℤ) : ℤ → List String → List (List String) → Prop
  | _, _, [] => True
  | least, crowd, added :: rest =>
      (∀ name ∈ added, least ≤ followers client crowd name) ∧
        Supported client minDegree minDegree (crowd ++ added) rest

/-- What is expected of a crowd. -/
structure Lawful (client : Client) (settings : Settings) (seeds : List String) : Prop where
  once : (cohort client settings seeds).Nodup
  persons : ∀ login ∈ cohort client settings seeds, isBot login = false
  size : ((cohort client settings seeds).length : ℤ) ≤ settings.limit
  /-- It is what the seeds and the hops gave. -/
  whole : cohort client settings seeds =
    start client settings seeds ++ (layers client settings seeds).flatten
  supported : Supported client settings.minDegree 1 (start client settings seeds)
    (layers client settings seeds)

end LocalHarness.Neighbors
