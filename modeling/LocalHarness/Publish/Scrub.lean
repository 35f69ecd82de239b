import LocalHarness.Library.Cutting
import LocalHarness.Library.Ordered
import LocalHarness.Library.Unicode

/-! # Paths in a report

A report is scrubbed before it is published: of every path in its texts and keys the directories are cut
out. One pass over a text leaves a path where the removed part of another stood inside it or right
before it, and two keys of a dictionary that differ in their directories alone become one.
-/

namespace LocalHarness.Publish.Scrub

open LocalHarness.Library LocalHarness.Library.Cutting

/-! ## The pattern -/

/-- `[\w/.~-]`, what no path comes after. -/
def bars (u : Unicode) (c : Char) : Bool :=
  u.word c || c ∈ ['/', '.', '~', '-']

def isSeparator (c : Char) : Bool :=
  c = '/' || c = '\\'

/-- A character of a directory's name. -/
def isName (c : Char) : Bool :=
  !Text.isSpace c && c ∉ ['/', '\\', ':', '"', '\'']

/-- The length of `[A-Za-z]:[\\/]|~[\\/]|/`. -/
def root : List Char → Option Nat
  | '/' :: _ => some 1
  | '~' :: separator :: _ => if isSeparator separator then some 2 else none
  | drive :: ':' :: separator :: _ => if drive.isAlpha && isSeparator separator then some 3 else none
  | _ => none

/-- How far the directories reach, when so many characters are of whole ones and so many are read, the
last of them part of a name or not. -/
def directories (whole read : Nat) (named : Bool) : List Char → Nat
  | [] => whole
  | c :: rest =>
      if isName c then directories whole (read + 1) true rest
      else if named && isSeparator c then directories (read + 1) (read + 1) false rest
      else whole

/-- `_PATH` at a place of a text. -/
def path (u : Unicode) (before : Option Char) (l : List Char) : Option Nat :=
  if before.any (bars u) then none
  else (root l).bind fun n =>
    match directories 0 0 false (l.drop n) with
    | 0 => none
    | k + 1 => some (n + (k + 1))

/-! ## Scrubbing -/

/-- A value of an export; `β` is what has no text in it. -/
inductive Value (β : Type)
  | text (s : List Char)
  | leaf (b : β)
  | list (items : List (Value β))
  | dict (entries : List (List Char × Value β))

variable {β : Type}

def scrubText (u : Unicode) (s : List Char) : List Char :=
  sub (path u) s

mutual
def scrub (u : Unicode) : Value β → Value β
  | .text s => .text (scrubText u s)
  | .leaf b => .leaf b
  | .list items => .list (scrubItems u items)
  | .dict entries => .dict (Ordered.fill (scrubEntries u entries)).items

def scrubItems (u : Unicode) : List (Value β) → List (Value β)
  | [] => []
  | v :: rest => scrub u v :: scrubItems u rest

def scrubEntries (u : Unicode) : List (List Char × Value β) → List (List Char × Value β)
  | [] => []
  | (key, v) :: rest => (scrubText u key, scrub u v) :: scrubEntries u rest
end

@[induction_eliminator]
theorem Value.induct {motive : Value β → Prop} (text : ∀ s, motive (.text s))
    (leaf : ∀ b, motive (.leaf b)) (list : ∀ items, (∀ v ∈ items, motive v) → motive (.list items))
    (dict : ∀ entries, (∀ entry ∈ entries, motive entry.2) → motive (.dict entries)) (v : Value β) :
    motive v :=
  @Value.rec β motive (fun items => ∀ v ∈ items, motive v)
    (fun entries => ∀ entry ∈ entries, motive entry.2) (fun entry => motive entry.2) text leaf list dict
    (fun _ none_ => by cases none_) (fun _ _ first rest => List.forall_mem_cons.mpr ⟨first, rest⟩)
    (fun _ none_ => by cases none_) (fun _ _ first rest => List.forall_mem_cons.mpr ⟨first, rest⟩)
    (fun _ _ value => value) v

/-- The value itself, or what is in it. -/
inductive Inside (part : Value β) : Value β → Prop
  | here : Inside part part
  | item {v : Value β} {items : List (Value β)} (member : v ∈ items) (inside : Inside part v) :
      Inside part (.list items)
  | entry {entry : List Char × Value β} {entries : List (List Char × Value β)} (member : entry ∈ entries)
      (inside : Inside part entry.2) : Inside part (.dict entries)

/-- A text of the value, or a key of a dictionary in it. -/
def Holds (v : Value β) (s : List Char) : Prop :=
  Inside (.text s) v ∨ ∃ entries, Inside (.dict entries) v ∧ s ∈ entries.map Prod.fst

/-- Every dictionary of the value is left with as many entries. -/
def Keeps (u : Unicode) (v : Value β) : Prop :=
  ∀ entries, Inside (.dict entries) v →
    ∃ entries', scrub u (.dict entries) = .dict entries' ∧ entries'.length = entries.length

/-- Scrubbing again changes nothing, no path is left, and no entry is lost. -/
def Scrubs (u : Unicode) (v : Value β) : Prop :=
  scrub u (scrub u v) = scrub u v ∧ (∀ s, Holds (scrub u v) s → ¬ Finds (path u) s) ∧ Keeps u v

variable {u : Unicode} {l more : List Char} {whole read n : Nat} {named : Bool} {before : Option Char}

/-! ## What the pattern takes -/

theorem le_directories (le : whole ≤ read) : whole ≤ directories whole read named l := by
  induction l generalizing whole read named with
  | nil => exact le_rfl
  | cons c rest ih =>
      unfold directories
      split
      · exact ih (le.trans (Nat.le_succ read))
      · split
        · exact (le.trans (Nat.le_succ read)).trans (ih le_rfl)
        · exact le_rfl

theorem directories_append (le : whole ≤ read) :
    directories whole read named l ≤ directories whole read named (l ++ more) := by
  induction l generalizing whole read named with
  | nil => exact le_directories le
  | cons c rest ih =>
      rw [List.cons_append]
      unfold directories
      split
      · exact ih (le.trans (Nat.le_succ read))
      · split
        · exact ih le_rfl
        · exact le_rfl

theorem directories_take : directories whole read named l = whole ∨
    read < directories whole read named l ∧
      directories whole read named (l.take (directories whole read named l - read)) =
        directories whole read named l := by
  induction l generalizing whole read named with
  | nil => exact .inl rfl
  | cons c rest ih =>
      by_cases name : isName c = true
      · have step : ∀ tail, directories whole read named (c :: tail) =
            directories whole (read + 1) true tail := fun tail => by rw [directories, if_pos name]
        rw [step]
        refine ih.imp_right fun ⟨further, same⟩ => ⟨Nat.lt_of_succ_lt further, ?_⟩
        obtain ⟨k, shape⟩ := Nat.exists_eq_add_of_lt further
        rw [show directories whole (read + 1) true rest - read =
          directories whole (read + 1) true rest - (read + 1) + 1 by omega, List.take_succ_cons, step]
        exact same
      · by_cases ends : (named && isSeparator c) = true
        · have step : ∀ tail, directories whole read named (c :: tail) =
              directories (read + 1) (read + 1) false tail := fun tail => by
            rw [directories, if_neg name, if_pos ends]
          rw [step]
          right
          rcases @ih (read + 1) (read + 1) false with one | ⟨further, same⟩
          · rw [one]
            refine ⟨Nat.lt_succ_self read, ?_⟩
            rw [Nat.add_sub_cancel_left, List.take_succ_cons, List.take_zero, step]
            rfl
          · refine ⟨Nat.lt_of_succ_lt further, ?_⟩
            rw [show directories (read + 1) (read + 1) false rest - read =
              directories (read + 1) (read + 1) false rest - (read + 1) + 1 by omega,
              List.take_succ_cons, step]
            exact same
        · left
          rw [directories, if_neg name, if_neg ends]

/-- What a path begins with. -/
inductive Root : List Char → Prop
  | top : Root ['/']
  | home {separator : Char} (ends : isSeparator separator = true) : Root ['~', separator]
  | drive {letter separator : Char} (alpha : letter.isAlpha = true)
      (ends : isSeparator separator = true) : Root [letter, ':', separator]

theorem root_eq_some_iff : root l = some n ↔ ∃ r rest, l = r ++ rest ∧ Root r ∧ r.length = n := by
  constructor
  · intro found
    unfold root at found
    split at found
    next rest => exact ⟨['/'], rest, rfl, .top, Option.some.inj found⟩
    next separator rest =>
      obtain ⟨ends, two⟩ := Option.ite_none_right_eq_some.mp found
      exact ⟨['~', separator], rest, rfl, .home ends, Option.some.inj two⟩
    next letter separator rest _ _ =>
      obtain ⟨both, three⟩ := Option.ite_none_right_eq_some.mp found
      obtain ⟨alpha, ends⟩ := Bool.and_eq_true_iff.mp both
      exact ⟨[letter, ':', separator], rest, rfl, .drive alpha ends, Option.some.inj three⟩
    next => cases found
  · rintro ⟨r, rest, rfl, begins, rfl⟩
    cases begins with
    | top => rfl
    | @home separator ends =>
        change (if isSeparator separator then some 2 else none) = some 2
        rw [if_pos ends]
    | @drive letter separator alpha ends =>
        rw [List.cons_append, List.cons_append, List.cons_append, root, alpha, ends]
        · rfl
        · rintro rfl
          cases alpha
        · rintro rfl
          cases alpha

theorem path_eq_some : path u before l = some n ↔
    before.any (bars u) = false ∧ ∃ k, root l = some k ∧ k < n ∧
      directories 0 0 false (l.drop k) = n - k := by
  unfold path
  cases free : before.any (bars u) with
  | true => simp
  | false =>
      rw [if_neg Bool.false_ne_true, Option.bind_eq_some_iff]
      simp only [true_and]
      refine exists_congr fun k => and_congr_right fun _ => ?_
      cases directories 0 0 false (l.drop k) with
      | zero =>
          simp only [reduceCtorEq, false_iff, not_and]
          omega
      | succ more =>
          simp only [Option.some.injEq]
          omega

theorem ahead_path (u : Unicode) : Ahead (path u) where
  empty before := by
    cases found : path u before [] with
    | none => rfl
    | some n =>
        obtain ⟨-, k, none_, -⟩ := path_eq_some.mp found
        cases none_
  longer more found := by
    obtain ⟨n, found⟩ := Option.isSome_iff_exists.mp found
    obtain ⟨free, k, begins, further, reach⟩ := path_eq_some.mp found
    obtain ⟨r, rest, rfl, root_, rfl⟩ := root_eq_some_iff.mp begins
    rw [List.drop_left] at reach
    have longer := @directories_append rest more 0 0 false le_rfl
    refine Option.isSome_iff_exists.mpr ⟨r.length + directories 0 0 false (rest ++ more), ?_⟩
    rw [List.append_assoc]
    refine path_eq_some.mpr ⟨free, r.length, root_eq_some_iff.mpr ⟨r, rest ++ more, rfl, root_, rfl⟩, ?_, ?_⟩
    · omega
    · rw [List.drop_left, Nat.add_sub_cancel_left]
  enough {before l n} found := by
    obtain ⟨free, k, begins, further, reach⟩ := path_eq_some.mp found
    obtain ⟨r, rest, rfl, root_, rfl⟩ := root_eq_some_iff.mp begins
    rw [List.drop_left] at reach
    refine Option.isSome_iff_exists.mpr ⟨n, path_eq_some.mpr ⟨free, r.length,
      root_eq_some_iff.mpr ⟨r, rest.take (n - r.length), ?_, root_, rfl⟩, further, ?_⟩⟩
    · rw [List.take_append, List.take_of_length_le further.le]
    · rw [List.take_append, List.take_of_length_le further.le, List.drop_left]
      rcases @directories_take rest 0 0 false with none_ | ⟨-, same⟩
      · omega
      · rwa [reach, Nat.sub_zero] at same

/-! ## Values -/

variable {v part : Value β} {s t : List Char} {items : List (Value β)}
  {entries : List (List Char × Value β)}

theorem scrubItems_eq : scrubItems u items = items.map (scrub u) := by
  induction items with
  | nil => rfl
  | cons v rest ih => rw [scrubItems, ih, List.map_cons]

theorem scrubEntries_eq :
    scrubEntries u entries = entries.map fun entry => (scrubText u entry.1, scrub u entry.2) := by
  induction entries with
  | nil => rfl
  | cons entry rest ih => rw [scrubEntries, ih, List.map_cons]

theorem holds_text : Holds (.text s : Value β) t ↔ t = s := by
  constructor
  · rintro (inside | ⟨_, inside, -⟩) <;> cases inside
    rfl
  · rintro rfl
    exact .inl .here

theorem not_holds_leaf {b : β} : ¬ Holds (.leaf b) s := by
  rintro (inside | ⟨_, inside, -⟩) <;> cases inside

theorem holds_list : Holds (.list items) s ↔ ∃ v ∈ items, Holds v s := by
  constructor
  · rintro (inside | ⟨entries, inside, key⟩)
    · cases inside with
      | item member inside => exact ⟨_, member, .inl inside⟩
    · cases inside with
      | item member inside => exact ⟨_, member, .inr ⟨entries, inside, key⟩⟩
  · rintro ⟨v, member, inside | ⟨entries, inside, key⟩⟩
    · exact .inl (.item member inside)
    · exact .inr ⟨entries, .item member inside, key⟩

theorem holds_dict :
    Holds (.dict entries) s ↔ s ∈ entries.map Prod.fst ∨ ∃ entry ∈ entries, Holds entry.2 s := by
  constructor
  · rintro (inside | ⟨others, inside, key⟩)
    · cases inside with
      | entry member inside => exact .inr ⟨_, member, .inl inside⟩
    · cases inside with
      | here => exact .inl key
      | entry member inside => exact .inr ⟨_, member, .inr ⟨others, inside, key⟩⟩
  · rintro (key | ⟨entry, member, inside | ⟨others, inside, key⟩⟩)
    · exact .inr ⟨entries, .here, key⟩
    · exact .inl (.entry member inside)
    · exact .inr ⟨others, .entry member inside, key⟩

/-- The entries of a scrubbed dictionary are its entries scrubbed, less those whose key comes again. -/
theorem mem_scrubbed {entry : List Char × Value β}
    (member : entry ∈ (Ordered.fill (scrubEntries u entries)).items) :
    ∃ old ∈ entries, entry = (scrubText u old.1, scrub u old.2) := by
  obtain ⟨front, back, shape, -⟩ := Ordered.mem_fill_iff.mp member
  have inside : entry ∈ scrubEntries u entries := by
    rw [shape]
    exact List.mem_append_right _ List.mem_cons_self
  rw [scrubEntries_eq] at inside
  obtain ⟨old, known, rfl⟩ := List.mem_map.mp inside
  exact ⟨old, known, rfl⟩

theorem holds_scrub (v : Value β) (holds : Holds (scrub u v) t) : ∃ s, Holds v s ∧ t = scrubText u s := by
  induction v generalizing t with
  | text s => exact ⟨s, holds_text.mpr rfl, holds_text.mp holds⟩
  | leaf b => exact absurd holds not_holds_leaf
  | list items ih =>
      rw [scrub, scrubItems_eq, holds_list] at holds
      obtain ⟨_, scrubbed, inside⟩ := holds
      obtain ⟨v, known, rfl⟩ := List.mem_map.mp scrubbed
      obtain ⟨s, inside, same⟩ := ih v known inside
      exact ⟨s, holds_list.mpr ⟨v, known, inside⟩, same⟩
  | dict entries ih =>
      rw [scrub, holds_dict] at holds
      rcases holds with key | ⟨entry, scrubbed, inside⟩
      · obtain ⟨entry, scrubbed, rfl⟩ := List.mem_map.mp key
        obtain ⟨old, known, rfl⟩ := mem_scrubbed scrubbed
        exact ⟨old.1, holds_dict.mpr (.inl (List.mem_map_of_mem known)), rfl⟩
      · obtain ⟨old, known, rfl⟩ := mem_scrubbed scrubbed
        obtain ⟨s, inside, same⟩ := ih old known inside
        exact ⟨s, holds_dict.mpr (.inr ⟨old, known, inside⟩), same⟩

theorem map_scrubEntries : (scrubEntries u entries).map Prod.fst =
    entries.map fun entry => kept (marks (path u) entry.1) := by
  rw [scrubEntries_eq, List.map_map]
  rfl

theorem keeps_iff (v : Value β) : Keeps u v ↔ ∀ entries, Inside (.dict entries) v →
    (entries.map fun entry => kept (marks (path u) entry.1)).Nodup := by
  refine forall_congr' fun entries => forall_congr' fun _ => ?_
  rw [← map_scrubEntries, ← Ordered.length_fill_iff]
  have length : (scrubEntries u entries).length = entries.length := by
    rw [scrubEntries_eq, List.length_map]
  rw [length]
  constructor
  · rintro ⟨entries', same, keeps⟩
    obtain rfl := Value.dict.inj same
    exact keeps
  · exact fun keeps => ⟨_, rfl, keeps⟩

theorem Keeps.item (keeps : Keeps u (.list items)) (member : v ∈ items) : Keeps u v :=
  fun entries inside => keeps entries (.item member inside)

theorem Keeps.entry {entry : List Char × Value β} (keeps : Keeps u (.dict entries))
    (member : entry ∈ entries) : Keeps u entry.2 :=
  fun others inside => keeps others (.entry member inside)

/-- Where no entry is lost, no text is. -/
theorem Keeps.holds (v : Value β) (keeps : Keeps u v) (holds : Holds v s) :
    Holds (scrub u v) (scrubText u s) := by
  induction v with
  | text s' =>
      rw [holds_text.mp holds]
      exact holds_text.mpr rfl
  | leaf b => exact absurd holds not_holds_leaf
  | list items ih =>
      obtain ⟨v, member, inside⟩ := holds_list.mp holds
      rw [scrub, scrubItems_eq, holds_list]
      exact ⟨scrub u v, List.mem_map_of_mem member, ih v member (keeps.item member) inside⟩
  | dict entries ih =>
      have once := (keeps_iff _).mp keeps entries .here
      rw [← map_scrubEntries] at once
      rw [scrub, Ordered.fill_of_once once, holds_dict]
      rcases holds_dict.mp holds with key | ⟨entry, member, inside⟩
      · obtain ⟨entry, member, rfl⟩ := List.mem_map.mp key
        rw [map_scrubEntries]
        exact .inl (List.mem_map_of_mem member)
      · rw [scrubEntries_eq]
        exact .inr ⟨_, List.mem_map_of_mem member, ih entry member (keeps.entry member) inside⟩

/-- A value in which no path is left stays as it is. -/
theorem scrub_scrub (v : Value β) (clear : ∀ s, Holds (scrub u v) s → ¬ Finds (path u) s) :
    scrub u (scrub u v) = scrub u v := by
  induction v with
  | text s => exact congrArg Value.text (sub_of_not_finds (clear _ (holds_text.mpr rfl)))
  | leaf b => rfl
  | list items ih =>
      rw [scrub, scrubItems_eq] at clear ⊢
      rw [scrub, scrubItems_eq, List.map_map]
      refine congrArg Value.list (List.map_congr_left fun v member => ih v member fun s inside => ?_)
      exact clear s (holds_list.mpr ⟨_, List.mem_map_of_mem member, inside⟩)
  | dict entries ih =>
      rw [scrub] at clear ⊢
      set scrubbed := Ordered.fill (scrubEntries u entries) with scrubbed_eq
      have same : scrubEntries u scrubbed.items = scrubbed.items := by
        rw [scrubEntries_eq]
        refine (List.map_congr_left fun entry member => ?_).trans (List.map_id _)
        obtain ⟨old, known, rfl⟩ := mem_scrubbed member
        have key := clear _ (holds_dict.mpr (.inl (List.mem_map_of_mem member)))
        have value := ih old known fun s inside => clear s (holds_dict.mpr (.inr ⟨_, member, inside⟩))
        exact Prod.ext (sub_of_not_finds key) value
      rw [scrub, same, Ordered.fill_of_once scrubbed.once]

/-- A value is scrubbed well where no path that is removed is in another one or right before it, and
no two keys of a dictionary differ in what is removed of them alone. -/
theorem scrubs_iff (u : Unicode) (v : Value β) :
    Scrubs u v ↔ (∀ s, Holds v s → ¬ Nested (path u) s) ∧
      ∀ entries, Inside (.dict entries) v →
        (entries.map fun entry => kept (marks (path u) entry.1)).Nodup := by
  rw [← keeps_iff]
  constructor
  · rintro ⟨-, clear, keeps⟩
    refine ⟨fun s holds nested => ?_, keeps⟩
    exact clear _ (keeps.holds v holds) ((finds_sub_iff (ahead_path u)).mpr nested)
  · rintro ⟨apart, keeps⟩
    have clear : ∀ s, Holds (scrub u v) s → ¬ Finds (path u) s := by
      intro t holds found
      obtain ⟨s, inside, rfl⟩ := holds_scrub v holds
      exact apart s inside ((finds_sub_iff (ahead_path u)).mp found)
    exact ⟨scrub_scrub v clear, clear, keeps⟩

/-- The path after a repeated separator is left, and of two keys for one name the first value is lost. -/
theorem second_path_left :
    ¬ Scrubs Unicode.small (.text "log /x//y/z".toList : Value Nat) ∧
      ¬ Scrubs Unicode.small (.dict [("/a/x".toList, .leaf 1), ("/b/x".toList, .leaf 2)]) := by
  constructor
  · intro scrubs
    exact scrubs.2.1 "log /y/z".toList (.inl .here) ⟨"log ".toList, "/y/z".toList, by decide, by decide⟩
  · intro scrubs
    obtain ⟨entries, same, length⟩ := scrubs.2.2 _ .here
    obtain rfl := Value.dict.inj same
    exact absurd length (by decide)

end LocalHarness.Publish.Scrub
