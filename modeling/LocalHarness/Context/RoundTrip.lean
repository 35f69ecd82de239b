import LocalHarness.Context.Header

/-! # What a header reads as, and where its end may be cut off unnoticed

The bytes of a text and the scalars of an array too long to keep are not missed when the file ends among
them. What comes next is; so a cut goes unnoticed exactly within such bytes at the very end.
-/

namespace LocalHarness.Context

open Library Reader

variable {py : Interpreter}

def Kind.isScalar : Kind → Bool
  | scalar _ => true
  | _ => false

/-- The scalars of an array too long to keep are moved past, not read. -/
def Items.skipped {k : Kind} (items : Items k) : Bool :=
  k.isScalar && !items.kept

mutual

/-- The bytes at the end of a value that nothing misses. -/
def Item.loose {k : Kind} : Item k → Nat
  | .scalar _ _ => 0
  | .string s => (utf8 s).length
  | .array items => if items.skipped then items.encode.length else items.loose

def Items.loose {k : Kind} : Items k → Nat
  | .nil => 0
  | .cons item items => if items.length = 0 then item.loose else items.loose

end

/-- There is room for a text. -/
def Room (py : Interpreter) (s : String) : Prop :=
  (utf8 s).length ≤ py.buffer ∧ (utf8 s).length < 2 ^ 63 - 33

mutual

/-- A value is nested no deeper than `_value` may call itself, and there is room for each text in it. -/
def Item.Fits {k : Kind} (py : Interpreter) : Nat → Item k → Prop
  | 0, _ => False
  | _ + 1, .scalar _ _ => True
  | _ + 1, .string s => Room py s
  | room + 1, .array items => items.skipped = true ∨ items.Fits py room

def Items.Fits {k : Kind} (py : Interpreter) : Nat → Items k → Prop
  | _, .nil => True
  | room, .cons item items => item.Fits py room ∧ items.Fits py room

end

/-! ## The lists of an array -/

theorem Kind.code_lt (k : Kind) : k.code < 256 ^ 4 := by
  cases k with
  | scalar k => cases k <;> decide
  | string => decide
  | array => decide

theorem Items.encode_eq {k : Kind} : (items : Items k) → items.encode = items.toList.flatMap Item.encode
  | .nil => by rw [Items.encode, Items.toList, List.flatMap_nil]
  | .cons item items => by rw [Items.encode, Items.toList, List.flatMap_cons, items.encode_eq]

theorem Items.values_eq {k : Kind} : (items : Items k) → items.values = items.toList.map Item.value
  | .nil => by rw [Items.values, Items.toList, List.map_nil]
  | .cons item items => by rw [Items.values, Items.toList, List.map_cons, items.values_eq]

theorem Items.loose_eq {k : Kind} :
    (items : Items k) → items.loose = (items.toList.getLast?.map Item.loose).getD 0
  | .nil => by rw [Items.loose, Items.toList]; rfl
  | .cons item .nil => by
      rw [Items.loose, Items.toList, Items.toList]
      exact if_pos rfl
  | .cons item (.cons next items) => by
      have more : (Items.cons next items).length ≠ 0 := Nat.succ_ne_zero _
      rw [Items.loose, if_neg more, (Items.cons next items).loose_eq]
      rfl

theorem Items.fits_iff {k : Kind} {room : Nat} :
    (items : Items k) → (items.Fits py room ↔ ∀ item ∈ items.toList, item.Fits py room)
  | .nil => by
      rw [Items.Fits, Items.toList]
      exact iff_of_true trivial (List.forall_mem_nil _)
  | .cons item items => by rw [Items.Fits, Items.toList, List.forall_mem_cons, items.fits_iff]

theorem length_scalar {k : Scalar} : (item : Item (.scalar k)) → item.encode.length = k.size
  | .scalar k raw => by rw [Item.encode, length_pack raw.isLt]

theorem length_scalars {k : Scalar} :
    (items : Items (.scalar k)) → items.encode.length = items.length * k.size
  | .nil => by rw [Items.encode, Items.length, Items.toList]; simp
  | .cons item items => by
      rw [Items.encode, List.length_append, length_scalar, length_scalars items, Items.length, Items.length,
        Items.toList, List.length_cons, Nat.add_mul, Nat.one_mul, Nat.add_comm]

theorem Item.encode_pos {k : Kind} : (item : Item k) → 0 < item.encode.length
  | .scalar k raw => by
      rw [Item.encode, length_pack raw.isLt]
      exact k.size_pos
  | .string s => by
      have eight := le_length_pack 8 (utf8 s).length
      rw [Item.encode, encodeString, List.length_append]
      omega
  | @Item.array inner items => by
      have four := le_length_pack 4 inner.code
      rw [Item.encode, List.length_append]
      omega

theorem Items.length_le {k : Kind} : (items : Items k) → items.length ≤ items.encode.length
  | .nil => Nat.zero_le _
  | .cons item items => by
      have one := item.encode_pos
      have others := items.length_le
      rw [Items.length] at others
      rw [Items.encode, List.length_append, Items.length, Items.toList, List.length_cons]
      omega

/-! ## One reader after the other -/

namespace Reading

variable {limit : Nat}

theorem number_blocked {size : Nat} (some : 0 < size) : Blocked (number size) := fun position =>
  (exactly_blocked _ some position).map unpack

theorem reads_number {size n : Nat} (small : n < 256 ^ size) :
    Reads limit (number size) (pack size n) n 0 := by
  have bytes : Reads limit (exactly (pack size n).length (Fault.value "truncated GGUF header")) (pack size n)
      (pack size n) 0 := reads_exactly _ _
  have read := bytes.map unpack
  rwa [length_pack small, unpack_pack] at read

theorem string_blocked : Blocked (string py) :=
  (number_blocked (by decide)).bind _

theorem value_blocked (room kind : Nat) : Blocked (value py room kind) := by
  cases room with
  | zero => exact fun _ => ⟨.recursion, rfl⟩
  | succ room =>
      rw [value]
      cases scalar : Scalar.ofCode? kind with
      | some k => exact fun position => (number_blocked k.size_pos position).map k.value
      | none =>
          by_cases text : kind = stringCode
          · rw [if_pos text]
            exact fun position => (string_blocked position).map .str
          · rw [if_neg text]
            by_cases array : kind = arrayCode
            · rw [if_pos array]
              exact (number_blocked (by decide)).bind _
            · rw [if_neg array]
              exact fun _ => ⟨_, rfl⟩

theorem readsWhen_read {s : String} :
    ReadsWhen (Room py s) limit (read py (utf8 s).length) (utf8 s) (utf8 s) (utf8 s).length where
  reads room := by
    obtain ⟨buffered, sized⟩ := room
    rw [read, if_neg (by omega), if_neg (by omega)]
    exact reads_upto _
  refused none rest p _ := by
    rw [read]
    split
    · exact ⟨.overflow, rfl⟩
    · split
      · exact ⟨.memory, rfl⟩
      · exact absurd ⟨by omega, by omega⟩ none

theorem decode_utf8 (s : String) : String.ofList (Utf8.decode (utf8 s)) = s := by
  rw [utf8, Utf8.decode_encode, String.ofList_toList]

theorem readsWhen_string {s : String} (short : (utf8 s).length < 256 ^ 8) :
    ReadsWhen (Room py s) limit (string py) (encodeString s) s (utf8 s).length := by
  have text : ReadsWhen (Room py s) limit
      ((fun raw => String.ofList (Utf8.decode raw)) <$> read py (utf8 s).length) (utf8 s)
      (String.ofList (Utf8.decode (utf8 s))) (utf8 s).length := readsWhen_read.map _
  rw [decode_utf8] at text
  have both : ReadsWhen (True ∧ Room py s) limit (string py) (encodeString s) s (utf8 s).length := by
    rw [string]
    exact (reads_number short).always.bind text (.inl rfl)
  exact both.congr (iff_of_eq (true_and _))

theorem reads_seek {code : Bytes} (short : code.length < 2 ^ 63) :
    Reads py.offset (seek py code.length) code () code.length := by
  have moved {s : Stream} (near : s.position + code.length ≤ py.offset) :
      seek py code.length s = skip code.length s := by
    rw [seek, if_neg (by omega), if_neg (by omega)]
  have read := @reads_skip Fault py.offset code
  exact {
    within := read.within
    whole := fun rest p fits => (moved fits).trans (read.whole rest p fits)
    cut := fun n p fits few => absurd few (by omega)
    spared := fun n p fits enough few => by
      obtain ⟨b, q, spared⟩ := read.spared n p fits enough few
      exact ⟨b, q, (moved fits).trans spared⟩ }

theorem readsWhen_values {inner : Kind} {element : Nat → Reader Fault Value} {met : Item inner → Prop}
    (items : Items inner) (stored : items.encode.length ≤ py.offset) (blocked : Blocked (element inner.code))
    (each : ∀ item ∈ items.toList,
      ReadsWhen (met item) py.offset (element inner.code) item.encode item.value item.loose) :
    ReadsWhen (items.skipped = true ∨ ∀ item ∈ items.toList, met item) py.offset
      (values py element inner.code items.length) items.encode (Item.array items).value
      (Item.array items).loose := by
  have all := ReadsWhen.times blocked items.toList each
  rw [← items.encode_eq, ← items.loose_eq, ← items.values_eq] at all
  rw [values, Item.value, Item.loose]
  by_cases few : items.length ≤ keepArray
  · have kept : items.kept = true := decide_eq_true few
    have read : ¬ items.skipped = true := by simp [Items.skipped, kept]
    rw [if_neg (Nat.not_lt.mpr few), if_pos kept, if_neg read]
    exact (all.map Value.list).congr (by simp [read])
  · have long : ¬ items.kept = true := by simpa [Items.kept] using few
    rw [if_pos (Nat.lt_of_not_le few), if_neg long]
    cases inner with
    | scalar k =>
        have skipped : items.skipped = true := by simp [Items.skipped, Kind.isScalar, long]
        have small := py.offset_lt
        have moved := (@reads_seek py items.encode (by omega)).map fun _ => Value.none
        rw [length_scalars] at moved
        rw [Kind.code, Scalar.ofCode?_code, if_pos skipped, length_scalars]
        exact moved.always.congr (by simp [skipped])
    | string => exact (all.map fun _ => Value.none).congr (by simp [Items.skipped, Kind.isScalar])
    | array => exact (all.map fun _ => Value.none).congr (by simp [Items.skipped, Kind.isScalar])

mutual

theorem readsWhen_value {k : Kind} : (room : Nat) → (item : Item k) → item.encode.length ≤ py.offset →
    ReadsWhen (item.Fits py room) py.offset (value py room k.code) item.encode item.value item.loose
  | 0, item, _ => by
      cases item <;> exact ⟨fun fits => absurd fits id, fun _ _ _ _ => ⟨.recursion, rfl⟩⟩
  | room + 1, .scalar k raw, _ => by
      rw [value, Kind.code, Scalar.ofCode?_code]
      exact (reads_number raw.isLt).map k.value |>.always
  | room + 1, .string s, stored => by
      have small := py.offset_lt
      rw [Item.encode, encodeString, List.length_append] at stored
      exact (readsWhen_string (by omega)).map Value.str
  | room + 1, @Item.array inner items, stored => by
      have small := py.offset_lt
      rw [Item.encode, List.length_append, List.length_append] at stored
      have short : items.length < 256 ^ 8 := by
        have := items.length_le
        omega
      have all := readsWhen_values items (by omega) (value_blocked room inner.code)
        (readsWhen_each room items (by omega))
      have counted := (reads_number short).always.bind all (.inl rfl)
      have typed : ReadsWhen (True ∧ True ∧ (items.skipped = true ∨ ∀ item ∈ items.toList, item.Fits py room))
          py.offset (value py (room + 1) arrayCode) (Item.array items).encode (Item.array items).value
          (Item.array items).loose := by
        apply ReadsWhen.bind (reads_number inner.code_lt).always
        · exact counted
        · exact .inl rfl
      exact typed.congr (by rw [Item.Fits, items.fits_iff, true_and, true_and])

theorem readsWhen_each {k : Kind} : (room : Nat) → (items : Items k) → items.encode.length ≤ py.offset →
    ∀ item ∈ items.toList,
      ReadsWhen (item.Fits py room) py.offset (value py room k.code) item.encode item.value item.loose
  | room, .nil, _ => List.forall_mem_nil _
  | room, .cons item items, stored => by
      rw [Items.encode, List.length_append] at stored
      exact List.forall_mem_cons.mpr
        ⟨readsWhen_value room item (by omega), readsWhen_each room items (by omega)⟩

end

theorem entry_blocked : Blocked (entry py) :=
  string_blocked.bind _

theorem readsWhen_entry (entry : Entry) (stored : entry.encode.length ≤ py.offset) :
    ReadsWhen (Room py entry.key ∧ entry.item.Fits py py.nesting) py.offset (Reading.entry py) entry.encode
      entry.pair entry.item.loose := by
  have small := py.offset_lt
  rw [Entry.encode, encodeString, List.length_append, List.length_append, List.length_append] at stored
  have item := (@readsWhen_value py _ py.nesting entry.item (by omega)).map (entry.key, ·)
  have typed : ReadsWhen (True ∧ entry.item.Fits py py.nesting) py.offset
      (number 4 >>= fun kind => (entry.key, ·) <$> value py py.nesting kind)
      (pack 4 entry.kind.code ++ entry.item.encode) entry.pair entry.item.loose := by
    apply ReadsWhen.bind (reads_number entry.kind.code_lt).always
    · exact item
    · exact .inl rfl
  have both : ReadsWhen (Room py entry.key ∧ True ∧ entry.item.Fits py py.nesting) py.offset
      (Reading.entry py) entry.encode entry.pair entry.item.loose := by
    apply ReadsWhen.bind (readsWhen_string (by omega))
    · exact typed
    · exact .inr fun key => (number_blocked (by decide)).bind _
  exact both.congr (by rw [true_and])

end Reading

namespace Header

/-- Each text of the header has room, and no value is nested too deep. -/
def Fits (py : Interpreter) (header : Header) : Prop :=
  ∀ entry ∈ header.entries, Room py entry.key ∧ entry.item.Fits py py.nesting

/-- The last bytes of the header that nothing misses. -/
def loose (header : Header) : Nat :=
  (header.entries.getLast?.map fun entry => entry.item.loose).getD 0

end Header

namespace Reading

theorem length_entries_le (entries : List Entry) :
    entries.length ≤ (entries.flatMap Entry.encode).length := by
  induction entries with
  | nil => exact Nat.zero_le _
  | cons entry entries ih =>
      have item := entry.item.encode_pos
      rw [List.flatMap_cons, List.length_append, Entry.encode, List.length_append, List.length_append,
        List.length_cons]
      omega

theorem readsWhen_entries (header : Header) (stored : header.encode.length ≤ py.offset) :
    ReadsWhen (header.Fits py) py.offset (entries py)
      (pack 8 header.tensors ++ (pack 8 header.entries.length ++ header.entries.flatMap Entry.encode))
      header.metadata header.loose := by
  have small := py.offset_lt
  have few := length_entries_le header.entries
  rw [Header.encode, List.length_append, List.length_append, List.length_append, List.length_append] at stored
  have each : ∀ entry ∈ header.entries, entry.encode.length ≤ py.offset := by
    intro entry member
    have part := (List.sublist_flatten_of_mem (List.mem_map_of_mem (f := Entry.encode) member)).length_le
    rw [← List.flatMap_def] at part
    omega
  have all := (ReadsWhen.times entry_blocked header.entries fun entry member =>
    readsWhen_entry entry (each entry member)).map Dict.ofItems
  have counted : ReadsWhen (True ∧ header.Fits py) py.offset
      (number 8 >>= fun count => Dict.ofItems <$> Reader.times (entry py) count)
      (pack 8 header.entries.length ++ header.entries.flatMap Entry.encode) header.metadata header.loose := by
    apply ReadsWhen.bind (reads_number (by omega)).always
    · exact all
    · exact .inl rfl
  have both : ReadsWhen (True ∧ True ∧ header.Fits py) py.offset (entries py)
      (pack 8 header.tensors ++ (pack 8 header.entries.length ++ header.entries.flatMap Entry.encode))
      header.metadata header.loose := by
    apply ReadsWhen.bind (reads_number header.tensors.isLt).always
    · exact counted
    · exact .inl rfl
  exact both.congr (by rw [true_and, true_and])

/-- The part of the reader after the first four bytes. -/
theorem readsWhen_meta (name : String) (header : Header) (stored : header.encode.length ≤ py.offset) :
    ReadsWhen (header.Fits py) py.offset (readMeta py name) header.encode header.metadata header.loose := by
  have entries := readsWhen_entries header stored
  have versioned : ReadsWhen (True ∧ header.Fits py) py.offset
      (number 4 >>= fun version =>
        if version < 2 then throw (.value s!"{name}: GGUF v{version} is not read") else Reading.entries py)
      (pack 4 header.version ++ (pack 8 header.tensors ++
        (pack 8 header.entries.length ++ header.entries.flatMap Entry.encode)))
      header.metadata header.loose := by
    apply ReadsWhen.bind (reads_number header.version.isLt).always
    · rw [if_neg (Nat.not_lt.mpr header.version_ge)]
      exact entries
    · exact .inl rfl
  have both : ReadsWhen (True ∧ True ∧ header.Fits py) py.offset (readMeta py name) header.encode
      header.metadata header.loose := by
    apply ReadsWhen.bind (reads_upto Header.magic).always
    · rw [if_neg (not_not_intro rfl)]
      exact versioned
    · refine .inr fun magic => ?_
      split
      · exact fun _ => ⟨_, rfl⟩
      · exact (number_blocked (by decide)).bind _
  exact both.congr (by rw [true_and, true_and])

/-- A header reads as its metadata, and misses its end however it is cut, exactly when there is room for it
and nothing at its end goes unmissed. -/
theorem readMeta_faithful_iff (py : Interpreter) (name : String) (header : Header)
    (stored : header.encode.length ≤ py.offset) :
    ((∀ rest, readMeta py name ⟨header.encode ++ rest, 0⟩ =
          .ok (header.metadata, ⟨rest, header.encode.length⟩)) ∧
        ∀ n < header.encode.length, Refused (readMeta py name) ⟨header.encode.take n, 0⟩) ↔
      header.Fits py ∧ header.loose = 0 :=
  (readsWhen_meta name header stored).faithful_iff stored

/-- One text under one key. -/
def named : Header where
  version := 3
  version_ge := by decide
  tensors := 0
  entries := [⟨"k", .string, .string "ab"⟩]

theorem readMeta_named :
    ((∀ rest, readMeta .usual "m.gguf" ⟨named.encode ++ rest, 0⟩ =
          .ok (named.metadata, ⟨rest, named.encode.length⟩)) ∧
        ∀ n < named.encode.length, Refused (readMeta .usual "m.gguf") ⟨named.encode.take n, 0⟩) ↔
      named.Fits .usual ∧ named.loose = 0 :=
  readMeta_faithful_iff .usual "m.gguf" named (by decide)

/-- Without its last byte the file reads as one that says `a`. -/
theorem named_cut :
    ¬ ((∀ rest, readMeta .usual "m.gguf" ⟨named.encode ++ rest, 0⟩ =
          .ok (named.metadata, ⟨rest, named.encode.length⟩)) ∧
        ∀ n < named.encode.length, Refused (readMeta .usual "m.gguf") ⟨named.encode.take n, 0⟩) := by
  rintro ⟨_, cut⟩
  obtain ⟨why, refused⟩ := cut (named.encode.length - 1) (by decide)
  have read : (readMeta .usual "m.gguf" ⟨named.encode.take (named.encode.length - 1), 0⟩).toOption.isSome =
      true := by decide
  rw [refused] at read
  cases read

end Reading

end LocalHarness.Context
