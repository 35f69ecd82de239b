import LocalHarness.Library.Regex
import LocalHarness.Library.Spans
import LocalHarness.Library.Unicode

/-! # Personal data by its shape

Each pattern finds its own matches; of those that overlap, the ones that start first are kept.
-/

namespace LocalHarness.Checks.PatternPii

open LocalHarness.Library LocalHarness.Library.Spans

inductive Kind
  | email
  | url
  | ipv4
  | iban
  | card
  | ssn
  | phone
  | key
deriving DecidableEq

/-- A pattern, which takes a character at least. -/
structure Pattern where
  kind : Kind
  re : Re
  some_ : 0 < re.least

section

variable (u : Unicode)

/-- `[\d]{least,most}` -/
def digits (least : Nat) (most : Option Nat) : Re :=
  .many u.digit least most

/-- `[…]` -/
def oneOf (letters : String) : Re :=
  .one fun c => c ∈ letters.toList

/-- `[…]?` -/
def maybeOf (letters : String) : Re :=
  .many (fun c => c ∈ letters.toList) 0 (some 1)

/-- `(?:…)+` -/
def plus (a : Re) : Re :=
  .seq a (.star a)

/-- `(?:…){n}` -/
def times (a : Re) : Nat → Re
  | 0 => .nothing
  | n + 1 => .seq a (times a n)

def all : List Re → Re
  | [] => .nothing
  | a :: rest => .seq a (all rest)

def isUpper (c : Char) : Bool :=
  'A' ≤ c ∧ c ≤ 'Z'

/-- `[A-Z0-9]` -/
def isPlain (c : Char) : Bool :=
  isUpper c || decide ('0' ≤ c ∧ c ≤ '9')

/-- `[\w-]` -/
def isPart (c : Char) : Bool :=
  u.word c || c = '-'

def email : Re :=
  all [.many (fun c => u.word c || ".+-".toList.contains c) 1 none, oneOf "@", .many (isPart u) 1 none,
    plus (all [oneOf ".", .many (isPart u) 1 none])]

def url : Re :=
  all [.literal "http".toList, maybeOf "s", .literal "://".toList,
    .many (fun c => !(Text.isSpace c || ",;".toList.contains c)) 1 none,
    .one fun c => !(Text.isSpace c || ",;.".toList.contains c)]

def ipv4 : Re :=
  all [.boundary, times (all [digits u 1 (some 3), oneOf "."]) 3, digits u 1 (some 3), .boundary]

def iban : Re :=
  let block := all [maybeOf " ", .many isPlain 4 (some 4)]
  all [.boundary, .many isUpper 2 (some 2), digits u 2 (some 2), times block 3, .upTo block 4,
    .maybe (all [maybeOf " ", .many isPlain 1 (some 3)]), .boundary]

def card : Re :=
  all [.boundary, times (all [digits u 4 (some 4), maybeOf " -"]) 3, digits u 4 (some 4), .boundary]

def ssn : Re :=
  all [.boundary, digits u 3 (some 3), oneOf "-", digits u 2 (some 2), oneOf "-", digits u 4 (some 4),
    .boundary]

def phone : Re :=
  all [.maybe (all [oneOf "+", digits u 1 (some 3), maybeOf " .-"]),
    .maybe (all [oneOf "(", digits u 2 (some 4), oneOf ")", maybeOf " .-"]), digits u 2 (some 4),
    oneOf " .-", digits u 3 (some 4), maybeOf " .-", digits u 0 (some 4), .boundary]

def key : Re :=
  all [.boundary, .alt (.literal "sk".toList) (.alt (.literal "pk".toList) (.alt (.literal "ghp".toList)
    (.seq (.literal "xox".toList) (oneOf "bp")))), oneOf "-_", .many (isPart u) 12 none, .boundary]

def PATTERNS : List Pattern :=
  [⟨.email, email u, Nat.le_of_ble_eq_true rfl⟩, ⟨.url, url, Nat.le_of_ble_eq_true rfl⟩,
    ⟨.ipv4, ipv4 u, Nat.le_of_ble_eq_true rfl⟩, ⟨.iban, iban u, Nat.le_of_ble_eq_true rfl⟩,
    ⟨.card, card u, Nat.le_of_ble_eq_true rfl⟩, ⟨.ssn, ssn u, Nat.le_of_ble_eq_true rfl⟩,
    ⟨.phone, phone u, Nat.le_of_ble_eq_true rfl⟩, ⟨.key, key u, Nat.le_of_ble_eq_true rfl⟩]

/-- `[start, end, kind]` -/
structure Hit where
  kind : Kind
  span : Spans.Span
deriving DecidableEq

/-- The matches of one pattern. -/
def Pattern.hits (p : Pattern) (s : List Char) : List Hit :=
  (p.re.finditer u.word s).attach.map fun found =>
    ⟨p.kind, found.1.1, found.1.1 + found.1.2,
      Nat.lt_add_of_pos_right (p.some_.trans_le (Re.least_le_of_mem found.2))⟩

def hits (s : List Char) : List Hit :=
  (PATTERNS u).flatMap fun p => p.hits u s

/-- A match that starts before the end of the last one kept is passed over. -/
def keep (out : List Hit) (h : Hit) : List Hit :=
  match out.getLast? with
  | some last => if h.span.start < last.span.stop then out else out ++ [h]
  | none => out ++ [h]

/-- What is kept of some matches. -/
def resolve (hits : List Hit) : List Hit :=
  (hits.insertionSort fun a b => a.span.Before b.span).foldl keep []

def find (s : List Char) : List Hit :=
  resolve (hits u s)

end

/-! ## What is kept -/

/-- In order, apart, each match by itself among them, and no match left out but for one as long. -/
structure Resolved (hits out : List Hit) : Prop where
  found : ∀ k ∈ out, k ∈ hits
  sorted : out.Pairwise fun a b => a.span.start ≤ b.span.start
  apart : out.Pairwise fun a b => ¬ a.span.Overlap b.span
  alone : ∀ h ∈ hits, (∀ k ∈ hits, k ≠ h → ¬ h.span.Overlap k.span) → h ∈ out
  longest : ∀ h ∈ hits, h ∉ out → ∃ k ∈ out, h.span.Overlap k.span ∧ h.span.length ≤ k.span.length

/-- A match that begins within a shorter one, at which the text is read from left to right, reaches into one
as long at which it is read later. -/
def Sheltered (hits : List Hit) : Prop :=
  ∀ c h, Taken Hit.span {k | k ∈ hits} c → h ∈ hits → c.span.start ≤ h.span.start →
    h.span.start < c.span.stop → c.span.length < h.span.length →
      ∃ d, Taken Hit.span {k | k ∈ hits} d ∧ h.span.Overlap d.span ∧ h.span.length ≤ d.span.length

variable {xs out : List Hit} {h k : Hit}

def free (out : List Hit) : Nat :=
  out.getLast?.elim 0 fun last => last.span.stop

theorem foldl_keep : xs.foldl keep out = out ++ scan Hit.span (free out) xs := by
  induction xs generalizing out with
  | nil => exact (List.append_nil out).symm
  | cons h rest ih =>
      have taken : free (out ++ [h]) = h.span.stop := by
        rw [free, List.getLast?_concat]
        rfl
      have step : keep out h = if h.span.start < free out then out else out ++ [h] := by
        rw [keep, free]
        cases out.getLast? with
        | none => rfl
        | some last => rfl
      rw [List.foldl_cons, scan, step]
      split
      next => exact ih
      next => rw [ih, taken, List.append_assoc, List.singleton_append]

theorem resolve_eq : resolve xs = scan Hit.span 0 (xs.insertionSort fun a b => a.span.Before b.span) :=
  foldl_keep

theorem sorted_before :
    (xs.insertionSort fun a b => a.span.Before b.span).Pairwise fun a b => a.span.Before b.span := by
  have total : Std.Total fun a b : Hit => a.span.Before b.span := ⟨fun a b => Spans.Span.before_total _ _⟩
  have trans : IsTrans Hit fun a b : Hit => a.span.Before b.span := ⟨fun a b c => Spans.Span.Before.trans⟩
  exact List.pairwise_insertionSort _ _

theorem mem_sorted : h ∈ (xs.insertionSort fun a b => a.span.Before b.span) ↔ h ∈ xs :=
  (List.perm_insertionSort _ _).mem_iff

theorem mem_of_mem_resolve (member : h ∈ resolve xs) : h ∈ xs := by
  rw [resolve_eq] at member
  exact mem_sorted.mp (scan_sublist.subset member)

/-- What is kept is what a reading from left to right comes to. -/
theorem taken_resolve {a : Spans.Span} :
    (∃ h, Taken Hit.span {k | k ∈ xs} h ∧ h.span = a) ↔ ∃ h ∈ resolve xs, h.span = a := by
  have same : {k | k ∈ xs} = {k | k ∈ xs.insertionSort fun a b => a.span.Before b.span} :=
    Set.ext fun h => mem_sorted.symm
  rw [resolve_eq, same]
  exact taken_iff sorted_before

theorem disjoint_resolve (here : h ∈ resolve xs) (there : k ∈ resolve xs) (other : h ≠ k) :
    ¬ h.span.Overlap k.span := by
  rw [resolve_eq] at here there
  rintro ⟨starts, stops⟩
  rcases scan_disjoint here there other with apart | apart
  · omega
  · omega

theorem exists_of_not_mem_resolve (member : h ∈ xs) (out : h ∉ resolve xs) :
    ∃ k ∈ resolve xs, k.span.start ≤ h.span.start ∧ h.span.start < k.span.stop := by
  rw [resolve_eq] at out ⊢
  obtain ⟨k, kept, before, within⟩ :=
    exists_of_not_mem_scan sorted_before (mem_sorted.mpr member) (Nat.zero_le _) out
  exact ⟨k, kept, before.le, within⟩

theorem overlap_of_within (starts : k.span.start ≤ h.span.start) (within : h.span.start < k.span.stop) :
    h.span.Overlap k.span :=
  ⟨within, starts.trans_lt h.span.some_⟩

/-- The matches that overlap are resolved as promised where none is lost to a shorter one, and nowhere else. -/
theorem resolved_iff (hits : List Hit) : Resolved hits (resolve hits) ↔ Sheltered hits := by
  constructor
  · intro resolved c h taken member starts within longer
    obtain ⟨c', kept, same⟩ := taken_resolve.mp ⟨c, taken, rfl⟩
    have overlap : h.span.Overlap c'.span := same ▸ overlap_of_within starts within
    have out : h ∉ resolve hits := by
      intro inside
      have other : h ≠ c' := by
        rintro rfl
        rw [same] at longer
        exact absurd longer (Nat.lt_irrefl _)
      exact disjoint_resolve inside kept other overlap
    obtain ⟨k, kept, overlap, enough⟩ := resolved.longest h member out
    obtain ⟨d, taken, same⟩ := taken_resolve.mpr ⟨k, kept, rfl⟩
    exact ⟨d, taken, same ▸ overlap, same ▸ enough⟩
  · intro sheltered
    refine ⟨fun k => mem_of_mem_resolve, ?_, ?_, ?_, ?_⟩
    · rw [resolve_eq]
      exact scan_pairwise.imp fun {a b} apart => le_trans a.span.some_.le apart
    · rw [resolve_eq]
      exact scan_pairwise.imp fun apart overlap => absurd overlap.2 (Nat.not_lt.mpr apart)
    · intro h member alone
      by_contra out
      obtain ⟨k, kept, starts, within⟩ := exists_of_not_mem_resolve member out
      exact alone k (mem_of_mem_resolve kept) (fun same => out (same ▸ kept)) (overlap_of_within starts within)
    · intro h member out
      obtain ⟨k, kept, starts, within⟩ := exists_of_not_mem_resolve member out
      by_cases enough : h.span.length ≤ k.span.length
      · exact ⟨k, kept, overlap_of_within starts within, enough⟩
      · obtain ⟨c, taken, same⟩ := taken_resolve.mpr ⟨k, kept, rfl⟩
        obtain ⟨d, taken, overlap, enough⟩ := sheltered c h taken member (same ▸ starts) (same ▸ within)
          (same ▸ Nat.not_le.mp enough)
        obtain ⟨k, kept, same⟩ := taken_resolve.mp ⟨d, taken, rfl⟩
        exact ⟨k, kept, same ▸ overlap, same ▸ enough⟩

/-- An address that runs into a longer link is kept, and the link is not. -/
theorem link_lost : ¬ Resolved (hits .small "a@b.https://example.com/a".toList)
    (find .small "a@b.https://example.com/a".toList) := by
  have all : hits .small "a@b.https://example.com/a".toList =
      [⟨.email, 0, 9, by decide⟩, ⟨.url, 4, 25, by decide⟩] := by decide
  have only : resolve [⟨.email, 0, 9, by decide⟩, ⟨.url, 4, 25, by decide⟩] =
      [⟨.email, 0, 9, by decide⟩] := by decide
  rw [find, all, only]
  intro resolved
  obtain ⟨k, kept, -, enough⟩ := resolved.longest ⟨.url, 4, 25, by decide⟩ (by decide) (by decide)
  rw [List.mem_singleton.mp kept] at enough
  exact absurd enough (by decide)

end LocalHarness.Checks.PatternPii
