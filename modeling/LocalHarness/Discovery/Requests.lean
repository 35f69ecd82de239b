import Mathlib.Data.List.Infix
import LocalHarness.Library.CodePoints

/-! # GitHub's API, cached on disk

Answers stay in a directory that clients share, one file for a path, under a name made of its letters. A
client sends a request when the file has no fresh answer, as long as its budget allows one.
-/

namespace LocalHarness.Discovery.Requests

open LocalHarness.Library

variable {α κ ι δ : Type}

/-! ## The file of a path -/

/-- `[A-Za-z0-9._-]` -/
def kept (c : CodePoint) : Bool :=
  (point 'A' ≤ c && c ≤ point 'Z') || (point 'a' ≤ c && c ≤ point 'z') || c.isDigit || c == point '.' ||
    c == point '_' || c == point '-'

/-- `_slug` -/
def slug (path : Str) : Str :=
  (path.map fun c => if kept c then c else point '_').take 180

def fileName (path : Str) : Str :=
  slug path ++ text ".json"

/-! ## How long an answer is worth reusing -/

def DEFAULT_TTL_HOURS : Nat := 24 * 7

def TTL_BY_ENDPOINT_HOURS : List (Str × Nat) :=
  [(text "/contributors", 24 * 30), (text "/following", 24 * 14), (text "repos/", 24 * 3),
    (text "/starred", 24 * 2)]

/-- `ttl_for`: the longest marker in the path wins. -/
def ttlFor (path : Str) : Nat :=
  (TTL_BY_ENDPOINT_HOURS.foldl (fun best marker =>
    if marker.1 <:+: path ∧ best.1.length < marker.1.length then marker else best)
    ([], DEFAULT_TTL_HOURS)).2

/-! ## A client -/

/-- What a cache file holds. -/
structure Entry (α δ : Type) where
  fetched : α
  path : Str
  data : δ

structure Client (α : Type) where
  ttlHours : Option α
  budget : Int

inductive Request (δ : Type)
  | answered (data : δ)
  /-- The API says that there is none. -/
  | missing (exc : Str)
  /-- Anything else was raised, or the answer is not JSON. -/
  | failed (exc : Str)

/-- What a write that raises leaves of the file. -/
inductive Left
  | before
  | part
  | whole

/-- A call of `get`, with what becomes of each thing that it does. -/
structure Get (α δ : Type) where
  path : Str
  /-- The directory is there or is made, and the file can be looked for. -/
  opens : Bool
  reads : Bool
  now : α
  request : Request δ
  later : α
  write : Option Left

inductive Error
  | notFound (message : Str)
  | gitHub (message : Str)
  | budget (message : Str)
  /-- What the file system raised. -/
  | os

structure World (α κ ι δ : Type) where
  /-- The entry of a file; there is none where no file is, or one that was cut short. -/
  files : κ → Option (Entry α δ)
  spent : ι → Nat
  stale : ι → List Str
  /-- The requests that were sent: by which client, for which path, and the data they got. -/
  sent : List (ι × Str × Option δ)

def World.empty : World α κ ι δ where
  files _ := none
  spent _ := 0
  stale _ := []
  sent := []

section

variable [Sub α] [Mul α] [LT α] [DecidableLT α] [NatCast α]

/-- The age of the entry is below the client's hours, or else the hours of the endpoint. -/
def Client.fresh (client : Client α) (g : Get α δ) (e : Entry α δ) : Bool :=
  g.now - e.fetched < client.ttlHours.getD (ttlFor g.path : α) * (3600 : Nat)

variable [DecidableEq κ] [DecidableEq ι]

/-- A failed fetch falls back to the copy. -/
def World.fallBack (w : World α κ ι δ) (i : ι) (path : Str) (payload : Option (Entry α δ)) (error : Error) :
    World α κ ι δ × Except Error δ :=
  match payload with
  | some e => ({ w with stale := Function.update w.stale i (w.stale i ++ [path]) }, .ok e.data)
  | none => (w, .error error)

/-- A request is counted before anything comes of it. -/
def World.send (w : World α κ ι δ) (i : ι) (path : Str) (got : Option δ) : World α κ ι δ :=
  { w with spent := Function.update w.spent i (w.spent i + 1), sent := w.sent ++ [(i, path, got)] }

/-- `write_text`, which may raise before it begins, half way or at the end. -/
def World.write (w : World α κ ι δ) (file : κ) (e : Entry α δ) :
    Option Left → World α κ ι δ × Except Error δ
  | none => ({ w with files := Function.update w.files file (some e) }, .ok e.data)
  | some .before => (w, .error .os)
  | some .part => ({ w with files := Function.update w.files file none }, .error .os)
  | some .whole => ({ w with files := Function.update w.files file (some e) }, .error .os)

/-- What `get` reads of a file. -/
def World.payload (w : World α κ ι δ) (place : Str → κ) (g : Get α δ) : Option (Entry α δ) :=
  if g.reads then w.files (place (fileName g.path)) else none

/-- `Client.get` of the client `i`; `place` is the file that a name has. -/
def get (place : Str → κ) (client : Client α) (i : ι) (w : World α κ ι δ) (g : Get α δ) :
    World α κ ι δ × Except Error δ :=
  if g.opens then
    let payload := w.payload place g
    match payload.filter (client.fresh g) with
    | some e => (w, .ok e.data)
    | none =>
        if client.budget ≤ w.spent i then
          w.fallBack i g.path payload
            (.budget (text "request budget " ++ text (toString client.budget) ++ text " spent at " ++ g.path))
        else
          match g.request with
          | .answered data =>
              (w.send i g.path (some data)).write (place (fileName g.path)) ⟨g.later, g.path, data⟩ g.write
          | .missing exc => (w.send i g.path none).fallBack i g.path payload (.notFound exc)
          | .failed exc =>
              (w.send i g.path none).fallBack i g.path payload (.gitHub (g.path ++ text ": " ++ exc))
  else (w, .error .os)

/-! ## Clients that share a directory -/

/-- The client that is asked, and for what. -/
structure Use (α ι δ : Type) where
  client : ι
  get : Get α δ

variable (place : Str → κ) (clients : ι → Client α)

def use (w : World α κ ι δ) (u : Use α ι δ) : World α κ ι δ × Except Error δ :=
  get place (clients u.client) u.client w u.get

/-- The directory was empty before these calls. -/
def run (uses : List (Use α ι δ)) : World α κ ι δ :=
  uses.foldl (fun w u => (use place clients w u).1) .empty

/-! ## What a call is for -/

/-- The copy of the very path. -/
def World.copy (w : World α κ ι δ) (g : Get α δ) : Option (Entry α δ) :=
  (w.payload place g).filter (·.path = g.path)

/-- No request can be sent, or it gets nothing. -/
def World.Fails (w : World α κ ι δ) (u : Use α ι δ) : Prop :=
  (clients u.client).budget ≤ w.spent u.client ∨ ∀ data, u.get.request ≠ .answered data

/-- How many requests a client has sent. -/
def World.requests (w : World α κ ι δ) (i : ι) : Nat :=
  (w.sent.map Prod.fst).count i

/-- What a call must do that finds the directory so. -/
structure Right (w : World α κ ι δ) (u : Use α ι δ) (done : World α κ ι δ × Except Error δ) : Prop where
  /-- What is returned was fetched for the path, by whichever client. -/
  fetched : ∀ data, done.2 = .ok data → ∃ i, (i, u.get.path, some data) ∈ done.1.sent
  /-- It is the data of the path's own copy, or of the request that was sent. -/
  own : ∀ data, done.2 = .ok data → (∃ e, w.copy place u.get = some e ∧ e.data = data) ∨
    done.1.sent = w.sent ++ [(u.client, u.get.path, some data)]
  within : ∀ i, 0 < done.1.requests i → (done.1.requests i : Int) ≤ (clients i).budget
  stale : u.get.opens = true → w.Fails clients u → ∀ e, w.copy place u.get = some e → done.2 = .ok e.data
  raises : w.Fails clients u → w.copy place u.get = none → ∃ error, done.2 = .error error

/-- Every call does what it must. -/
def Sound (uses : List (Use α ι δ)) : Prop :=
  ∀ front u back, uses = front ++ u :: back →
    Right place clients (run place clients front) u (use place clients (run place clients front) u)

/-- An entry that the call reads and that is not of its path is past its hours, and a request gets through
in its place. -/
def Clear (w : World α κ ι δ) (u : Use α ι δ) : Prop :=
  u.get.opens = true → ∀ e, w.payload place u.get = some e → e.path ≠ u.get.path →
    (clients u.client).fresh u.get e = false ∧ ¬ w.Fails clients u

end

/-! ## What the directory holds -/

section

variable {place : Str → κ} {clients : ι → Client α} {w : World α κ ι δ} {i j : ι} {path : Str}
  {got : Option δ} {error : Error} {payload : Option (Entry α δ)} {file other : κ} {e found : Entry α δ}
  {left : Option Left} {w' : World α κ ι δ} {u : Use α ι δ} {done : World α κ ι δ × Except Error δ}
  [DecidableEq ι]

/-- Each file holds an entry of its name, fetched for the entry's path, and no client has sent more than its
budget allows. -/
structure World.Kept (place : Str → κ) (clients : ι → Client α) (w : World α κ ι δ) : Prop where
  named : ∀ file e, w.files file = some e → place (fileName e.path) = file
  fetched : ∀ file e, w.files file = some e → ∃ i, (i, e.path, some e.data) ∈ w.sent
  counted : ∀ i, w.requests i = w.spent i
  within : ∀ i, 0 < w.requests i → (w.requests i : Int) ≤ (clients i).budget

theorem kept_empty : (World.empty : World α κ ι δ).Kept place clients where
  named _ _ none := by cases none
  fetched _ _ none := by cases none
  counted _ := rfl
  within _ some_ := absurd some_ (Nat.lt_irrefl 0)

theorem requests_send : (w.send i path got).requests j = w.requests j + if i = j then 1 else 0 := by
  rw [World.requests, World.send, List.map_append, List.count_append, World.requests, List.map_singleton,
    List.count_singleton]
  simp only [beq_iff_eq]

theorem spent_send : (w.send i path got).spent j = w.spent j + if i = j then 1 else 0 := by
  by_cases same : i = j
  · subst same
    exact (Function.update_self ..).trans (by rw [if_pos rfl])
  · exact (Function.update_of_ne (Ne.symm same) ..).trans (by rw [if_neg same, Nat.add_zero])

/-- A request that the budget allows. -/
theorem World.Kept.send (kept : w.Kept place clients) (affords : ¬ (clients i).budget ≤ w.spent i) :
    (w.send i path got).Kept place clients where
  named := kept.named
  fetched file e here := by
    obtain ⟨j, sent⟩ := kept.fetched file e here
    exact ⟨j, List.mem_append_left _ sent⟩
  counted j := by rw [requests_send, spent_send, kept.counted j]
  within j some_ := by
    rw [requests_send] at some_ ⊢
    by_cases same : i = j
    · subst same
      rw [if_pos rfl, kept.counted i]
      omega
    · rw [if_neg same, Nat.add_zero] at some_ ⊢
      exact kept.within j some_

theorem World.Kept.fallBack (kept : w.Kept place clients) :
    (w.fallBack i path payload error).1.Kept place clients := by
  cases payload with
  | none => exact kept
  | some e => exact ⟨kept.named, kept.fetched, kept.counted, kept.within⟩

/-- What a call comes to that sends a request for nothing, or cannot send one. -/
inductive Sends (clients : ι → Client α) (w : World α κ ι δ) (u : Use α ι δ) :
    World α κ ι δ → Prop
  | unaffordable : (clients u.client).budget ≤ w.spent u.client → Sends clients w u w
  | nothing : ¬ (clients u.client).budget ≤ w.spent u.client → (∀ data, u.get.request ≠ .answered data) →
      Sends clients w u (w.send u.client u.get.path none)

theorem World.Kept.sends (kept : w.Kept place clients) (sends : Sends clients w u w') :
    w'.Kept place clients := by
  cases sends with
  | unaffordable => exact kept
  | nothing affords => exact kept.send affords

theorem fails_of_sends (sends : Sends clients w u w') : w.Fails clients u := by
  cases sends with
  | unaffordable spent => exact .inl spent
  | nothing _ none_ => exact .inr none_

theorem mem_of_sends {request : ι × Str × Option δ} (sends : Sends clients w u w')
    (sent : request ∈ w'.sent) : request ∈ w.sent ∨ request.2.1 = u.get.path := by
  cases sends with
  | unaffordable => exact .inl sent
  | nothing =>
      refine (List.mem_append.mp sent).imp_right fun new => ?_
      rw [List.mem_singleton.mp new]

theorem sent_fallBack : (w.fallBack i path payload error).1.sent = w.sent := by
  cases payload <;> rfl

theorem subset_of_sends (sends : Sends clients w u w') : w.sent ⊆ w'.sent := by
  cases sends with
  | unaffordable => exact List.Subset.refl _
  | nothing => exact List.subset_append_left _ _

/-! ## What is returned or raised -/

omit [DecidableEq ι] in
theorem copy_of_payload (read : w.payload place u.get = some e) :
    w.copy place u.get = if e.path = u.get.path then some e else none := by
  rw [World.copy, read, Option.filter_some]
  simp only [decide_eq_true_eq]

/-- An entry that is read was fetched for its path. -/
theorem fetched_of_payload (kept : w.Kept place clients) (read : w.payload place u.get = some e) :
    ∃ i, (i, e.path, some e.data) ∈ w.sent := by
  rw [World.payload] at read
  split at read
  · exact kept.fetched _ _ read
  · cases read

/-- The path's own copy is returned. -/
theorem right_of_copy (kept : w.Kept place clients) (after : done.1.Kept place clients)
    (read : w.payload place u.get = some e) (own : e.path = u.get.path) (sent : w.sent ⊆ done.1.sent)
    (returned : done.2 = .ok e.data) : Right place clients w u done := by
  have copy : w.copy place u.get = some e := (copy_of_payload read).trans (if_pos own)
  obtain ⟨i, member⟩ := fetched_of_payload kept read
  rw [own] at member
  refine ⟨fun data same => ?_, fun data same => ?_, after.within, fun _ _ e' copy' => ?_, fun _ none_ => ?_⟩
  · obtain rfl := Except.ok.inj (returned.symm.trans same)
    exact ⟨i, sent member⟩
  · exact .inl ⟨e, copy, Except.ok.inj (returned.symm.trans same)⟩
  · obtain rfl := Option.some.inj (copy.symm.trans copy')
    exact returned
  · cases copy.symm.trans none_

/-- What raises is not to have had a copy to fall back to. -/
theorem right_of_raised (after : done.1.Kept place clients) (raised : done.2 = .error error)
    (none_ : u.get.opens = true → w.Fails clients u → w.copy place u.get = none) :
    Right place clients w u done := by
  refine ⟨fun _ returned => ?_, fun _ returned => ?_, after.within, fun opens fails e copy => ?_,
    fun _ _ => ⟨error, raised⟩⟩
  · cases raised.symm.trans returned
  · cases raised.symm.trans returned
  · cases copy.symm.trans (none_ opens fails)

/-! ## What a write leaves -/

variable [DecidableEq κ]

omit [DecidableEq ι] in
/-- What a file holds after a write is what was written or what was there. -/
theorem files_write (here : (w.write file e left).1.files other = some found) :
    found = e ∧ other = file ∨ w.files other = some found := by
  have updated {value : Option (Entry α δ)} (here : Function.update w.files file value other = some found) :
      other = file ∧ value = some found ∨ w.files other = some found := by
    by_cases same : other = file
    · subst same
      rw [Function.update_self] at here
      exact .inl ⟨rfl, here⟩
    · rw [Function.update_of_ne same] at here
      exact .inr here
  rcases left with _ | _ | _ | _
  · exact (updated here).imp_left fun ⟨same, is⟩ => ⟨(Option.some.inj is).symm, same⟩
  · exact .inr here
  · rcases updated here with ⟨-, none⟩ | before
    · cases none
    · exact .inr before
  · exact (updated here).imp_left fun ⟨same, is⟩ => ⟨(Option.some.inj is).symm, same⟩

omit [DecidableEq ι] in
theorem sent_write : (w.write file e left).1.sent = w.sent ∧ (w.write file e left).1.spent = w.spent := by
  rcases left with _ | _ | _ | _ <;> exact ⟨rfl, rfl⟩

omit [DecidableEq ι] in
/-- A write that returns, returns what it writes. -/
theorem data_write {data : δ} (returned : (w.write file e left).2 = .ok data) : data = e.data := by
  rcases left with _ | _ | _ | _
  · exact (Except.ok.inj returned).symm
  all_goals cases returned

/-- An entry that was fetched is written under its name. -/
theorem World.Kept.write (kept : w.Kept place clients) (sent : (i, e.path, some e.data) ∈ w.sent) :
    (w.write (place (fileName e.path)) e left).1.Kept place clients where
  named other found here := by
    rcases files_write here with ⟨rfl, rfl⟩ | before
    · rfl
    · exact kept.named other found before
  fetched other found here := by
    rw [sent_write.1]
    rcases files_write here with ⟨rfl, -⟩ | before
    · exact ⟨i, sent⟩
    · exact kept.fetched other found before
  counted j := by
    rw [World.requests, sent_write.1, sent_write.2]
    exact kept.counted j
  within j := by
    rw [World.requests, sent_write.1]
    exact kept.within j

end

section

variable [Sub α] [Mul α] [LT α] [DecidableLT α] [NatCast α] [DecidableEq κ] [DecidableEq ι]
  (place : Str → κ) (clients : ι → Client α)

/-! ## The steps of a call -/

/-- A call raises at once, finds a fresh entry, falls back, or gets its data. -/
inductive Uses (w : World α κ ι δ) (u : Use α ι δ) : World α κ ι δ × Except Error δ → Prop
  | shut : u.get.opens = false → Uses w u (w, .error .os)
  | fresh {e} : u.get.opens = true → w.payload place u.get = some e →
      (clients u.client).fresh u.get e = true → Uses w u (w, .ok e.data)
  | back {w' error} : u.get.opens = true →
      (∀ e, w.payload place u.get = some e → (clients u.client).fresh u.get e = false) →
      Sends clients w u w' → Uses w u (w'.fallBack u.client u.get.path (w.payload place u.get) error)
  | got {data} : u.get.opens = true →
      (∀ e, w.payload place u.get = some e → (clients u.client).fresh u.get e = false) →
      ¬ (clients u.client).budget ≤ w.spent u.client → u.get.request = .answered data →
      Uses w u ((w.send u.client u.get.path (some data)).write (place (fileName u.get.path))
        ⟨u.get.later, u.get.path, data⟩ u.get.write)

variable {place clients} {w w' : World α κ ι δ} {u : Use α ι δ} {e : Entry α δ}
  {done : World α κ ι δ × Except Error δ}

theorem uses_use (w : World α κ ι δ) (u : Use α ι δ) : Uses place clients w u (use place clients w u) := by
  cases opens : u.get.opens with
  | false =>
      rw [use, get, opens, if_neg Bool.false_ne_true]
      exact .shut opens
  | true =>
      rw [use, get, opens, if_pos rfl]
      cases found : (w.payload place u.get).filter ((clients u.client).fresh u.get) with
      | some e =>
          obtain ⟨read, fresh⟩ := Option.filter_eq_some_iff.mp found
          simp only [found]
          exact .fresh opens read fresh
      | none =>
          have old : ∀ e, w.payload place u.get = some e → (clients u.client).fresh u.get e = false :=
            fun e read => Bool.eq_false_iff.mpr (Option.filter_eq_none_iff.mp found e read)
          simp only [found]
          split
          next spent => exact .back opens old (.unaffordable spent)
          next affords =>
            cases request : u.get.request with
            | answered data => exact .got opens old affords request
            | missing exc =>
                exact .back opens old (.nothing affords fun data same => by cases request.symm.trans same)
            | failed exc =>
                exact .back opens old (.nothing affords fun data same => by cases request.symm.trans same)

theorem kept_use (kept : w.Kept place clients) (u : Use α ι δ) :
    (use place clients w u).1.Kept place clients := by
  have cases_ : Uses place clients w u _ := uses_use w u
  generalize use place clients w u = done at cases_ ⊢
  cases cases_ with
  | shut | fresh => exact kept
  | back _ _ sends => exact (kept.sends sends).fallBack
  | @got data _ _ affords =>
      exact World.Kept.write (e := ⟨u.get.later, u.get.path, data⟩) (kept.send affords)
        (List.mem_append_right _ List.mem_cons_self)

theorem kept_run (uses : List (Use α ι δ)) : (run place clients uses).Kept place clients := by
  induction uses using List.reverseRecOn with
  | nil => exact kept_empty
  | append_singleton front u ih =>
      rw [run, List.foldl_append]
      exact kept_use ih u

/-! ## A call that does what it must -/

/-- Where the entry is not of the path its data is returned for another. -/
theorem clear_of_right (cases_ : Uses place clients w u done) (right : Right place clients w u done) :
    Clear place clients w u := by
  intro opens e read other
  have none_ : w.copy place u.get = none := (copy_of_payload read).trans (if_neg other)
  cases cases_ with
  | shut shut => cases opens.symm.trans shut
  | fresh =>
      rcases right.own _ rfl with ⟨e, copy, -⟩ | sent
      · cases copy.symm.trans none_
      · exact absurd (List.append_right_eq_self.mp sent.symm) (List.cons_ne_nil _ _)
  | back _ old sends =>
      obtain ⟨error, raised⟩ := right.raises (fails_of_sends sends) none_
      rw [read] at raised
      cases raised
  | got _ old affords request =>
      refine ⟨old e read, fun fails => ?_⟩
      rcases fails with spent | none_
      · exact affords spent
      · exact none_ _ request

omit [DecidableEq κ] [DecidableEq ι] in
/-- An entry that is returned, or is fallen back to, is of the path. -/
theorem path_of_clear (clear : Clear place clients w u) (opens : u.get.opens = true)
    (read : w.payload place u.get = some e)
    (goes : (clients u.client).fresh u.get e = true ∨ w.Fails clients u) : e.path = u.get.path := by
  by_contra other
  obtain ⟨old, through⟩ := clear opens e read other
  rcases goes with fresh | fails
  · cases fresh.symm.trans old
  · exact through fails

theorem right_of_clear (kept : w.Kept place clients) (after : done.1.Kept place clients)
    (cases_ : Uses place clients w u done) (clear : Clear place clients w u) :
    Right place clients w u done := by
  cases cases_ with
  | shut shut =>
      exact right_of_raised after rfl fun opens => by cases opens.symm.trans shut
  | fresh opens read fresh =>
      exact right_of_copy kept after read (path_of_clear clear opens read (.inl fresh))
        (List.Subset.refl _) rfl
  | @back w' error opens old sends =>
      have fails := fails_of_sends sends
      have sent : w.sent ⊆ w'.sent := subset_of_sends sends
      cases read : w.payload place u.get with
      | some e =>
          rw [read] at after
          exact right_of_copy kept after read (path_of_clear clear opens read (.inr fails)) sent rfl
      | none =>
          rw [read] at after
          refine right_of_raised after rfl fun _ _ => ?_
          rw [World.copy, read, Option.filter_none]
  | got opens old affords request =>
      have goes : ¬ w.Fails clients u := by
        rintro (spent | none_)
        · exact affords spent
        · exact none_ _ request
      refine ⟨fun data returned => ?_, fun data returned => .inr ?_, after.within,
        fun _ fails => absurd fails goes, fun fails => absurd fails goes⟩
      · obtain rfl := data_write returned
        rw [sent_write.1]
        exact ⟨u.client, List.mem_append_right _ List.mem_cons_self⟩
      · obtain rfl := data_write returned
        rw [sent_write.1]
        rfl

/-- Every call does what it must in exactly the runs in which no call returns or falls back to an entry of
another path. -/
theorem requests_sound_iff (uses : List (Use α ι δ)) : Sound place clients uses ↔
    ∀ front u back, uses = front ++ u :: back → Clear place clients (run place clients front) u :=
  forall₄_congr fun front u _ _ =>
    ⟨clear_of_right (uses_use _ u),
      right_of_clear (kept_run front) (kept_use (kept_run front) u) (uses_use _ u)⟩

/-! ## Paths with files of their own -/

/-- A request that was sent was for the path of a call. -/
theorem asked_of_sent {i : ι} {path : Str} {got : Option δ} (uses : List (Use α ι δ))
    (sent : (i, path, got) ∈ (run place clients uses).sent) : ∃ u ∈ uses, u.get.path = path := by
  induction uses using List.reverseRecOn with
  | nil => cases sent
  | append_singleton front u ih =>
      rw [run, List.foldl_append, List.foldl_cons, List.foldl_nil, ← run] at sent
      have earlier (before : (i, path, got) ∈ (run place clients front).sent) :
          ∃ v ∈ front ++ [u], v.get.path = path :=
        have ⟨v, member, same⟩ := ih before
        ⟨v, List.mem_append_left _ member, same⟩
      have now : ∃ v ∈ front ++ [u], v.get.path = u.get.path :=
        ⟨u, List.mem_append_right _ List.mem_cons_self, rfl⟩
      have cases_ : Uses place clients _ u _ := uses_use (run place clients front) u
      generalize use place clients (run place clients front) u = done at cases_ sent
      cases cases_ with
      | shut | fresh => exact earlier sent
      | back _ _ sends =>
          rw [sent_fallBack] at sent
          rcases mem_of_sends sends sent with before | same
          · exact earlier before
          · obtain rfl : path = u.get.path := same
            exact now
      | got =>
          rw [sent_write.1] at sent
          rcases List.mem_append.mp sent with before | new
          · exact earlier before
          · obtain ⟨-, rfl, -⟩ := Prod.mk.inj (List.mem_singleton.mp new)
            exact now

/-- Where no two paths have one file every call does what it must. -/
theorem sound_of_apart (uses : List (Use α ι δ)) (apart : ∀ u ∈ uses, ∀ v ∈ uses,
    place (fileName u.get.path) = place (fileName v.get.path) → u.get.path = v.get.path) :
    Sound place clients uses := by
  rintro front u back rfl
  have kept : (run place clients front).Kept place clients := kept_run front
  refine right_of_clear kept (kept_use kept u) (uses_use _ u) fun _ e read other => ?_
  rw [World.payload] at read
  split at read
  next =>
    obtain ⟨i, sent⟩ := kept.fetched _ e read
    obtain ⟨v, member, same⟩ := asked_of_sent front sent
    refine absurd (same.symm.trans (apart v ?_ u ?_ ?_)) other
    · exact List.mem_append_left _ member
    · exact List.mem_append_right _ List.mem_cons_self
    · rw [same]
      exact kept.named _ e read
  next => cases read

end

/-! ## Two paths with one file -/

def client : Client Int where
  ttlHours := none
  budget := 400

def repo (path : String) (data : String) : Use Int Unit String where
  client := ()
  get := ⟨text path, true, true, 0, .answered data, 0, none⟩

/-- The repository `a_b/c` is answered with `a/b_c`. -/
theorem other_repo_returned :
    ¬ Sound id (fun _ => client) [repo "repos/a/b_c" "b_c", repo "repos/a_b/c" "c"] := by
  intro sound
  have right := sound [repo "repos/a/b_c" "b_c"] (repo "repos/a_b/c" "c") [] rfl
  have one_name : fileName (text "repos/a_b/c") = fileName (text "repos/a/b_c") := by decide
  have read : (run id (fun _ => client) [repo "repos/a/b_c" "b_c"]).payload id (repo "repos/a_b/c" "c").get =
      some ⟨0, text "repos/a/b_c", "b_c"⟩ := by
    change (run id (fun _ => client) [repo "repos/a/b_c" "b_c"]).files (fileName (text "repos/a_b/c")) = _
    rw [one_name]
    exact Function.update_self (fileName (text "repos/a/b_c")) (some _) fun _ => none
  have old := (clear_of_right (uses_use _ _) right rfl _ read (by decide)).1
  have fresh : client.fresh (repo "repos/a_b/c" "c").get ⟨0, text "repos/a/b_c", "b_c"⟩ = true := by decide
  cases fresh.symm.trans old

end LocalHarness.Discovery.Requests
