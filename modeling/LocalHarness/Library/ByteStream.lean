import Mathlib.Data.Nat.Digits.Lemmas
import LocalHarness.Library.CodePoints

/-! # Readers of a stream of bytes

A read of a stream may come back short, and a move past its end is not noticed until the next read. A
reader is therefore described by what it makes of an encoding and by how many of the last bytes it does
not miss: cut within these it still comes back, at the end of the stream.
-/

namespace LocalHarness.Library

/-- What is left of a stream, and how far it has been read or moved. -/
structure Stream where
  rest : Bytes
  position : Nat

abbrev Reader (ε α : Type) := StateT Stream (Except ε) α

namespace Reader

variable {ε α β : Type} {limit loose : Nat} {code : Bytes} {a : α}

/-- As many bytes as are left, and no more than asked for. -/
def upto (n : Nat) : Reader ε Bytes := fun s =>
  .ok (s.rest.take n, ⟨s.rest.drop n, s.position + min n s.rest.length⟩)

def exactly (n : Nat) (short : ε) : Reader ε Bytes :=
  upto n >>= fun raw => if raw.length = n then pure raw else throw short

/-- A move, also past the end. -/
def skip (n : Nat) : Reader ε Unit := fun s =>
  .ok ((), ⟨s.rest.drop n, s.position + n⟩)

def times (reader : Reader ε α) : Nat → Reader ε (List α)
  | 0 => pure []
  | n + 1 => reader >>= fun a => (a :: ·) <$> times reader n

def Refused (reader : Reader ε α) (s : Stream) : Prop :=
  ∃ why, reader s = .error why

/-- Nothing is read where nothing is left. -/
def Blocked (reader : Reader ε α) : Prop :=
  ∀ position, Refused reader ⟨[], position⟩

/-- `reader` makes `a` of `code`, and misses its bytes when they are not there, but for the last `loose`. -/
structure Reads (limit : Nat) (reader : Reader ε α) (code : Bytes) (a : α) (loose : Nat) : Prop where
  within : loose ≤ code.length
  whole : ∀ rest p, p + code.length ≤ limit →
    reader ⟨code ++ rest, p⟩ = .ok (a, ⟨rest, p + code.length⟩)
  cut : ∀ n p, p + code.length ≤ limit → n + loose < code.length → Refused reader ⟨code.take n, p⟩
  spared : ∀ n p, p + code.length ≤ limit → code.length ≤ n + loose → n < code.length →
    ∃ b q, reader ⟨code.take n, p⟩ = .ok (b, ⟨[], q⟩)

theorem bind_upto (n : Nat) (next : Bytes → Reader ε β) (s : Stream) :
    (upto n >>= next) s = next (s.rest.take n) ⟨s.rest.drop n, s.position + min n s.rest.length⟩ :=
  rfl

theorem bind_of_ok {reader : Reader ε α} {next : α → Reader ε β} {s t : Stream}
    (read : reader s = .ok (a, t)) : (reader >>= next) s = next a t := by
  change (reader s >>= fun r => next r.1 r.2) = _
  rw [read]
  rfl

theorem Refused.bind {reader : Reader ε α} {s : Stream} (refused : Refused reader s)
    (next : α → Reader ε β) : Refused (reader >>= next) s := by
  obtain ⟨why, refused⟩ := refused
  refine ⟨why, ?_⟩
  change (reader s >>= fun r => next r.1 r.2) = _
  rw [refused]
  rfl

theorem map_of_ok {reader : Reader ε α} {s t : Stream} (f : α → β) (read : reader s = .ok (a, t)) :
    (f <$> reader) s = .ok (f a, t) := by
  change (reader s >>= fun r => pure (f r.1, r.2)) = _
  rw [read]
  rfl

theorem Refused.map {reader : Reader ε α} {s : Stream} (refused : Refused reader s) (f : α → β) :
    Refused (f <$> reader) s := by
  obtain ⟨why, refused⟩ := refused
  refine ⟨why, ?_⟩
  change (reader s >>= fun r => pure (f r.1, r.2)) = _
  rw [refused]
  rfl

theorem Refused.after {reader : Reader ε α} {next : α → Reader ε β} {s t : Stream}
    (read : reader s = .ok (a, t)) (refused : Refused (next a) t) : Refused (reader >>= next) s := by
  obtain ⟨why, refused⟩ := refused
  exact ⟨why, (bind_of_ok read).trans refused⟩

theorem Blocked.bind {reader : Reader ε α} (blocked : Blocked reader) (next : α → Reader ε β) :
    Blocked (reader >>= next) := fun position =>
  (blocked position).bind next

theorem Blocked.times {reader : Reader ε α} (blocked : Blocked reader) (n : Nat) :
    Blocked (times reader (n + 1)) :=
  blocked.bind _

theorem exactly_blocked {n : Nat} (short : ε) (some : 0 < n) : Blocked (exactly n short) := by
  intro position
  refine ⟨short, ?_⟩
  have none : ([] : Bytes).take n = [] := List.take_nil
  simp only [exactly, bind_upto, none]
  exact congrFun (if_neg some.ne) _

theorem reads_upto (code : Bytes) :
    Reads limit (upto code.length : Reader ε Bytes) code code code.length where
  within := le_rfl
  whole rest p _ := by simp [upto]
  cut n p _ short := absurd short (by omega)
  spared n p _ _ short := by
    refine ⟨code.take n, p + n, ?_⟩
    have few : (code.take n).length ≤ code.length := List.length_take_le' ..
    simp [upto, List.take_of_length_le few, List.drop_of_length_le few, short.le]

theorem reads_skip (code : Bytes) :
    Reads limit (skip code.length : Reader ε Unit) code () code.length where
  within := le_rfl
  whole rest p _ := by simp [skip]
  cut n p _ short := absurd short (by omega)
  spared n p _ _ short := by
    refine ⟨(), p + code.length, ?_⟩
    have few : (code.take n).length ≤ code.length := List.length_take_le' ..
    simp [skip, List.drop_of_length_le few]

theorem reads_exactly (code : Bytes) (short : ε) :
    Reads limit (exactly code.length short) code code 0 where
  within := Nat.zero_le _
  whole rest p _ := by
    have read := (@reads_upto ε (p + code.length) code).whole rest p le_rfl
    rw [exactly, bind_of_ok read]
    exact congrFun (if_pos rfl) _
  cut n p _ few := by
    have taken : (code.take n).length ≠ code.length := by
      rw [List.length_take]
      omega
    have all : (code.take n).take code.length = code.take n :=
      List.take_of_length_le (List.length_take_le' ..)
    refine ⟨short, ?_⟩
    simp only [exactly, bind_upto, all]
    exact congrFun (if_neg taken) _
  spared n p _ enough short := absurd enough (by omega)

theorem reads_pure (a : α) : Reads limit (pure a : Reader ε α) [] a 0 where
  within := le_rfl
  whole _ _ _ := rfl
  cut n p _ few := absurd few (by simp)
  spared n p _ _ short := absurd short (by simp)

namespace Reads

variable {reader : Reader ε α}

/-- The second reader notices that the first was cut within what it does not miss. -/
theorem bind {next : α → Reader ε β} {code' : Bytes} {b : β} {loose' : Nat}
    (first : Reads limit reader code a loose) (second : Reads limit (next a) code' b loose')
    (noticed : loose = 0 ∨ ∀ x, Blocked (next x)) :
    Reads limit (reader >>= next) (code ++ code') b loose' where
  within := by
    rw [List.length_append]
    exact second.within.trans (Nat.le_add_left ..)
  whole rest p fits := by
    rw [List.length_append] at fits ⊢
    rw [List.append_assoc, bind_of_ok (first.whole _ p (by omega)), second.whole rest _ (by omega),
      Nat.add_assoc]
  cut n p fits few := by
    rw [List.length_append] at fits few
    rcases Nat.lt_or_ge n code.length with within | past
    · rw [List.take_append_of_le_length within.le]
      rcases Nat.lt_or_ge (n + loose) code.length with hard | soft
      · exact (first.cut n p (by omega) hard).bind next
      · obtain ⟨x, q, read⟩ := first.spared n p (by omega) soft within
        rcases noticed with none | blocked
        · omega
        · exact .after read (blocked x q)
    · rw [List.take_append, List.take_of_length_le past]
      exact .after (first.whole _ p (by omega)) (second.cut _ _ (by omega) (by omega))
  spared n p fits enough short := by
    rw [List.length_append] at fits enough short
    have past : code.length ≤ n := by
      have := second.within
      omega
    rw [List.take_append, List.take_of_length_le past, bind_of_ok (first.whole _ p (by omega))]
    exact second.spared _ _ (by omega) (by omega) (by omega)

theorem map (read : Reads limit reader code a loose) (f : α → β) :
    Reads limit (f <$> reader) code (f a) loose where
  within := read.within
  whole rest p fits := map_of_ok f (read.whole rest p fits)
  cut n p fits few := (read.cut n p fits few).map f
  spared n p fits enough short := by
    obtain ⟨b, q, read⟩ := read.spared n p fits enough short
    exact ⟨f b, q, map_of_ok f read⟩

/-- Of the codes cut short just those are missed that are cut within the last bytes. -/
theorem refused_iff (read : Reads limit reader code a loose) (stored : code.length ≤ limit) {n : Nat}
    (short : n < code.length) : Refused reader ⟨code.take n, 0⟩ ↔ n + loose < code.length := by
  have stored : 0 + code.length ≤ limit := by omega
  constructor
  · rintro ⟨why, refused⟩
    by_contra enough
    obtain ⟨b, q, read⟩ := read.spared n 0 stored (by omega) short
    rw [read] at refused
    cases refused
  · exact read.cut n 0 stored

end Reads

/-- `reader` makes `a` of `code` when the condition is met, and makes nothing of it else. -/
structure ReadsWhen (met : Prop) (limit : Nat) (reader : Reader ε α) (code : Bytes) (a : α)
    (loose : Nat) : Prop where
  reads : met → Reads limit reader code a loose
  refused : ¬ met → ∀ rest p, p + code.length ≤ limit → Refused reader ⟨code ++ rest, p⟩

theorem Reads.always {reader : Reader ε α} (read : Reads limit reader code a loose) :
    ReadsWhen True limit reader code a loose where
  reads _ := read
  refused unmet := absurd trivial unmet

namespace ReadsWhen

variable {met met' : Prop} {reader : Reader ε α}

theorem map (read : ReadsWhen met limit reader code a loose) (f : α → β) :
    ReadsWhen met limit (f <$> reader) code (f a) loose where
  reads holds := (read.reads holds).map f
  refused unmet rest p stored := (read.refused unmet rest p stored).map f

theorem bind {next : α → Reader ε β} {code' : Bytes} {b : β} {loose' : Nat}
    (first : ReadsWhen met limit reader code a loose)
    (second : ReadsWhen met' limit (next a) code' b loose')
    (noticed : loose = 0 ∨ ∀ x, Blocked (next x)) :
    ReadsWhen (met ∧ met') limit (reader >>= next) (code ++ code') b loose' where
  reads holds := (first.reads holds.1).bind (second.reads holds.2) noticed
  refused unmet rest p stored := by
    rw [List.length_append] at stored
    rw [List.append_assoc]
    by_cases holds : met
    · have unmet : ¬ met' := fun holds' => unmet ⟨holds, holds'⟩
      exact .after ((first.reads holds).whole _ p (by omega)) (second.refused unmet rest _ (by omega))
    · exact (first.refused holds _ p (by omega)).bind next

theorem congr (same : met ↔ met') (read : ReadsWhen met limit reader code a loose) :
    ReadsWhen met' limit reader code a loose :=
  propext same ▸ read

/-- One after the other, what is not missed is what of the last is not. -/
theorem times {ι : Type} {met : ι → Prop} {code : ι → Bytes} {value : ι → α} {loose : ι → Nat}
    (blocked : Blocked reader) :
    (items : List ι) → (∀ i ∈ items, ReadsWhen (met i) limit reader (code i) (value i) (loose i)) →
      ReadsWhen (∀ i ∈ items, met i) limit (Reader.times reader items.length) (items.flatMap code)
        (items.map value) ((items.getLast?.map loose).getD 0)
  | [], _ => (reads_pure []).always.congr (iff_of_true trivial (List.forall_mem_nil _))
  | [i], each => by
      have only := (each i List.mem_cons_self).map fun a => [a]
      rw [List.flatMap_cons, List.flatMap_nil, List.append_nil]
      exact only.congr List.forall_mem_singleton.symm
  | i :: j :: items, each => by
      obtain ⟨first, others⟩ := List.forall_mem_cons.mp each
      have more := (times blocked (j :: items) others).map (value i :: ·)
      have both := first.bind more (.inr fun x position => (blocked.times _ position).map (x :: ·))
      rw [List.getLast?_cons_cons]
      exact both.congr List.forall_mem_cons.symm

/-- A code is read back, and missed however it is cut short, exactly when the condition is met and its
last bytes are missed too. -/
theorem faithful_iff (read : ReadsWhen met limit reader code a loose) (stored : code.length ≤ limit) :
    ((∀ rest, reader ⟨code ++ rest, 0⟩ = .ok (a, ⟨rest, code.length⟩)) ∧
        ∀ n < code.length, Refused reader ⟨code.take n, 0⟩) ↔ met ∧ loose = 0 := by
  have start : 0 + code.length ≤ limit := by omega
  constructor
  · rintro ⟨whole, cut⟩
    have holds : met := by
      by_contra unmet
      obtain ⟨why, refused⟩ := read.refused unmet [] 0 start
      rw [whole] at refused
      cases refused
    refine ⟨holds, ?_⟩
    by_contra some
    have within := (read.reads holds).within
    have missed := ((read.reads holds).refused_iff stored (by omega)).mp (cut (code.length - loose) (by omega))
    omega
  · rintro ⟨holds, none⟩
    refine ⟨fun rest => ?_, fun n short => ?_⟩
    · have whole := (read.reads holds).whole rest 0 start
      rwa [Nat.zero_add] at whole
    · exact ((read.reads holds).refused_iff stored short).mpr (by omega)

end ReadsWhen

/-! ## Numbers in a fixed number of bytes, the lowest first -/

def pack (size n : Nat) : Bytes :=
  (Nat.digitsAppend 256 size n).map UInt8.ofNat

def unpack (raw : Bytes) : Nat :=
  Nat.ofDigits 256 (raw.map UInt8.toNat)

theorem length_pack {size n : Nat} (small : n < 256 ^ size) : (pack size n).length = size := by
  rw [pack, List.length_map, Nat.length_digitsAppend (by decide) size small]

theorem le_length_pack (size n : Nat) : size ≤ (pack size n).length := by
  rw [pack, List.length_map, Nat.digitsAppend, List.length_append, List.length_replicate]
  omega

theorem unpack_pack (size n : Nat) : unpack (pack size n) = n := by
  have kept : ((Nat.digitsAppend 256 size n).map UInt8.ofNat).map UInt8.toNat =
      Nat.digitsAppend 256 size n := by
    rw [List.map_map]
    refine (List.map_congr_left fun digit member => ?_).trans (List.map_id _)
    exact UInt8.toNat_ofNat_of_lt' (Nat.lt_of_mem_digitsAppend (by decide) size digit member)
  rw [unpack, pack, kept, Nat.digitsAppend, Nat.ofDigits_append_replicate_zero, Nat.ofDigits_digits]

end Reader

end LocalHarness.Library
