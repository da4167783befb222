import Mathlib.Data.List.Forall2
import Mathlib.Tactic.Choose
import ObjectWire.Proofs.Wire.Cuts
import ObjectWire.Service.Writing

/-!
# Streams of primitive entries

A stream is written one entry behind the other: items of a shape, scalars, which include the
floating-point bit patterns, and runs of bytes without a length.  Items of a shape may be absent or
come in lists; entries may as well, in the same form, so that scalars and runs without a length can be
in there too.  The kinds of the entries say how to read a stream.  It is read back from exactly the
bytes it was written as, whatever follows them, and from less than these bytes it is read up to the
entry that is cut, which fails.
-/

namespace ObjectWire

namespace Item

/-- The item has the shape, and nothing in it is too long for its length to be written.  Of instants,
    those have the shape that are whole milliseconds of the calendar. -/
inductive Fits : Shape → Item → Prop
  | byte (n : Int8) : Fits .byte (.byte n)
  | short (n : Int16) : Fits .short (.short n)
  | int (n : Int32) : Fits .int (.int n)
  | long (n : Int64) : Fits .long (.long n)
  | bool (b : Bool) : Fits .bool (.bool b)
  | text {s : String} (small : Utf8.width s < Wire.lengthLimit) : Fits .text (.text s)
  | bytes {run : Bytes} (small : run.length < Wire.lengthLimit) : Fits .bytes (.bytes run)
  | instant {t : Instant} (valid : t.Valid) (whole : t.nanos = 0) : Fits .instant (.instant t)
  | bigInteger {n : Int} (small : TwosComplement.width n < Wire.lengthLimit) :
      Fits .bigInteger (.bigInteger n)
  | absent (inner : Shape) : Fits (.option inner) .absent
  | present {inner : Shape} {item : Item} (fits : Fits inner item) :
      Fits (.option inner) (.present item)
  | list {inner : Shape} {items : List Item} (small : items.length < Wire.lengthLimit)
      (fits : ∀ item ∈ items, Fits inner item) : Fits (.list inner) (.list items)

end Item

/-- A kind of entry: what to read. -/
inductive EntryKind
  | item (shape : Shape)
  | scalar (kind : ScalarKind)
  /-- A given number of bytes. -/
  | raw (length : Nat)
  | option (inner : EntryKind)
  | list (inner : EntryKind)

/-- An entry: what is written, and what is read. -/
inductive Entry
  | item (item : Item)
  | scalar (kind : ScalarKind) (item : kind.Item)
  /-- Bytes without a length. -/
  | raw (run : Bytes)
  | absent
  | present (entry : Entry)
  | list (entries : List Entry)

namespace Entry

mutual
/-- Writes an entry. -/
def write : Entry → Act Output Unit
  | item i => Output.writeItem i.encode
  | scalar kind i => (PlainWrite.scalar kind i).perform
  | raw run => (PlainWrite.bytes run).perform
  | absent => Output.write (Wire.bool false)
  | present entry => do
    Output.write (Wire.bool true)
    write entry
  | list entries => do
    Output.writeItem (Wire.length .list entries.length)
    writeAll entries

/-- Writes entries, one after the other. -/
def writeAll : List Entry → Act Output Unit
  | [] => pure ()
  | entry :: entries => do
    write entry
    writeAll entries
end

/-- The entry has the kind, and nothing in it is too long or too wide to be written. -/
inductive Fits : EntryKind → Entry → Prop
  | item {shape : Shape} {i : Item} (fits : i.Fits shape) : Fits (.item shape) (.item i)
  | scalar {kind : ScalarKind} {i : kind.Item} {run : Bytes} (narrow : kind.encode i = .ok run) :
      Fits (.scalar kind) (.scalar kind i)
  | raw (run : Bytes) : Fits (.raw run.length) (.raw run)
  | absent (inner : EntryKind) : Fits (.option inner) .absent
  | present {inner : EntryKind} {entry : Entry} (fits : Fits inner entry) :
      Fits (.option inner) (.present entry)
  | list {inner : EntryKind} {entries : List Entry} (small : entries.length < Wire.lengthLimit)
      (fits : ∀ entry ∈ entries, Fits inner entry) : Fits (.list inner) (.list entries)

end Entry

/-- Reads an entry of a kind. -/
def EntryKind.read : EntryKind → Act Input Entry
  | item shape => .item <$> shape.decode
  | scalar kind => .scalar kind <$> kind.decode
  | raw n => .raw <$> Input.bytes n
  | option inner => do
    if ← Input.bool then .present <$> inner.read else pure .absent
  | list inner => do
    let count ← Input.length .list
    .list <$> Act.times count inner.read

namespace Item

theorem encodeAll_of_all {form : Item → Bytes} {items : List Item}
    (each : ∀ item ∈ items, item.encode = .ok (form item)) :
    encodeAll items = .ok (items.map form).flatten := by
  induction items with
  | nil => rfl
  | cons item items ih =>
    rw [encodeAll, each item (by simp), ih fun other member => each other (by simp [member])]
    rfl

/-- Items that fit are written, and read back from exactly what they are written as. -/
theorem Fits.exactly {shape : Shape} {item : Item} (fits : item.Fits shape) :
    ∃ run, item.encode = .ok run ∧ Input.Exactly shape.decode run item := by
  induction fits with
  | byte n => exact ⟨_, rfl, (Input.exactly_byte n).map _⟩
  | short n => exact ⟨_, rfl, (Input.exactly_short n).map _⟩
  | int n => exact ⟨_, rfl, (Input.exactly_int n).map _⟩
  | long n => exact ⟨_, rfl, (Input.exactly_long n).map _⟩
  | bool b => exact ⟨_, rfl, (Input.exactly_bool b).map _⟩
  | text small =>
    have written := Wire.string_of_lt small
    exact ⟨_, written, (Input.exactly_string written).map _⟩
  | bytes small =>
    have written := Wire.byteArray_of_lt small
    exact ⟨_, written, (Input.exactly_byteArray written).map _⟩
  | @instant t valid whole =>
    have same : t.floor = t := by rw [Instant.floor_of_valid valid, ← whole]
    have read := (Input.exactly_instant valid).map Item.instant
    rw [same] at read
    exact ⟨_, rfl, read⟩
  | @bigInteger n small =>
    have length : (TwosComplement.encode n).length < Wire.lengthLimit := by
      rwa [TwosComplement.encode, BigEndian.length_encode]
    have written : Wire.bigInteger n = .ok _ := Wire.byteArray_of_lt length
    exact ⟨_, written, (Input.exactly_bigInteger written).map _⟩
  | absent inner => exact ⟨_, rfl, Input.exactly_flagged false (Input.exactly_pure Item.absent)⟩
  | present _ ih =>
    obtain ⟨run, written, read⟩ := ih
    exact ⟨_, by rw [encode, written]; rfl, Input.exactly_flagged true (read.map _)⟩
  | @list inner items small _ ih =>
    choose! form both using ih
    have written := encodeAll_of_all fun item member => (both item member).1
    have read := Input.exactly_listed small Item.list fun item member => (both item member).2
    refine ⟨_, ?_, read⟩
    rw [encode, Wire.length_of_lt small, written]
    rfl

end Item

namespace Entry

theorem adds_writeAll {form : Entry → Bytes} {entries : List Entry}
    (each : ∀ entry ∈ entries, Output.Adds entry.write (form entry)) :
    Output.Adds (writeAll entries) (entries.map form).flatten := by
  induction entries with
  | nil => exact Output.adds_pure
  | cons entry entries ih =>
    exact (each entry (by simp)).andThen (ih fun other member => each other (by simp [member]))

/-- An entry that fits is written, and read back from exactly what it is written as. -/
theorem Fits.exactly {kind : EntryKind} {entry : Entry} (fits : entry.Fits kind) :
    ∃ run, Output.Adds entry.write run ∧ Input.Exactly kind.read run entry := by
  induction fits with
  | item fits =>
    obtain ⟨run, written, read⟩ := fits.exactly
    exact ⟨run, Output.adds_writeItem written, read.map _⟩
  | @scalar kind i run narrow =>
    exact ⟨run, Output.adds_writeItem narrow, (Input.exactly_decode narrow).map _⟩
  | raw run => exact ⟨run, Output.adds_write run, (Input.exactly_bytes run).map _⟩
  | absent inner =>
    exact ⟨_, Output.adds_write _, Input.exactly_flagged false (Input.exactly_pure Entry.absent)⟩
  | present _ ih =>
    obtain ⟨run, written, read⟩ := ih
    exact ⟨_, (Output.adds_write _).andThen written, Input.exactly_flagged true (read.map _)⟩
  | @list inner entries small _ ih =>
    choose! form both using ih
    have count := Output.adds_writeItem (Wire.length_of_lt small .list)
    exact ⟨_, count.andThen (adds_writeAll fun entry member => (both entry member).1),
      Input.exactly_listed small Entry.list fun entry member => (both entry member).2⟩

end Entry

/-- Reading a stream from an input gives the entries up to one of which the input has only a part, and
    fails in that one. -/
inductive StopsIn (failure : Failure) (final : Input) :
    List EntryKind → List Entry → Input → Prop
  | here {kind : EntryKind} {kinds : List EntryKind} {entry : Entry} {entries : List Entry}
      {input : Input} {lost : Bytes} (written : Output.Adds entry.write (input.rest ++ lost))
      (cut : lost ≠ []) (failed : kind.read input = (.error failure, final)) :
      StopsIn failure final (kind :: kinds) (entry :: entries) input
  | later {kind : EntryKind} {kinds : List EntryKind} {entry : Entry} {entries : List Entry}
      {input next : Input} (read : kind.read input = (.ok entry, next))
      (others : StopsIn failure final kinds entries next) :
      StopsIn failure final (kind :: kinds) (entry :: entries) input

/-- With the entry the whole reading fails. -/
theorem StopsIn.collect {failure : Failure} {final input : Input} {kinds : List EntryKind}
    {entries : List Entry} (stops : StopsIn failure final kinds entries input) :
    Act.collect EntryKind.read kinds input = (.error failure, final) := by
  induction stops with
  | here _ _ failed => exact Act.bind_of_error failed
  | later read _ ih => exact (Act.bind_of_ok read).trans (Act.bind_of_error ih)

/-- The run is what the entries are written as: reading their kinds takes it, and stops in the midst of
    an entry wherever it is cut off. -/
structure ReadsBack (kinds : List EntryKind) (entries : List Entry) (run : Bytes) : Prop where
  written : Output.Adds (Act.forEach Entry.write entries) run
  takes : Input.Takes (Act.collect EntryKind.read kinds) run entries
  stops : ∀ front missing position, run = front ++ missing → missing ≠ [] →
    ∃ failure final, failure.kind = .serialization ∧
      StopsIn failure final kinds entries ⟨front, position⟩

theorem readsBack_nil : ReadsBack [] [] [] where
  written := Output.adds_pure
  takes := Input.takes_pure []
  stops _ _ _ split cut := absurd (List.append_eq_nil_iff.mp split.symm).2 cut

theorem ReadsBack.cons {kind : EntryKind} {kinds : List EntryKind} {entry : Entry}
    {entries : List Entry} {form run : Bytes} (written : Output.Adds entry.write form)
    (read : Input.Exactly kind.read form entry) (others : ReadsBack kinds entries run) :
    ReadsBack (kind :: kinds) (entry :: entries) (form ++ run) where
  written := written.andThen others.written
  takes := read.takes.bind (others.takes.bind_nil (Input.takes_pure _))
  stops := by
    intro front missing position split cut
    rcases Input.cut_in_two split with ⟨lost, more, rfl⟩ | ⟨inside, rfl, rest⟩
    · obtain ⟨failure, final, failed, kept⟩ := read.cuts front lost position rfl more
      exact ⟨failure, final, kept, .here written more failed⟩
    · obtain ⟨failure, final, kept, stops⟩ :=
        others.stops inside missing (position + form.length) rest cut
      exact ⟨failure, final, kept, .later (read.takes inside position) stops⟩

theorem exists_readsBack {kinds : List EntryKind} {entries : List Entry}
    (fits : List.Forall₂ (fun kind (entry : Entry) => entry.Fits kind) kinds entries) :
    ∃ run, ReadsBack kinds entries run := by
  induction fits with
  | nil => exact ⟨[], readsBack_nil⟩
  | cons first _ ih =>
    obtain ⟨form, written, read⟩ := first.exactly
    obtain ⟨run, others⟩ := ih
    exact ⟨form ++ run, others.cons written read⟩

/-- Entries of given kinds are written, to any buffer, as bytes from which reading these kinds gives
    the entries back and leaves exactly what follows.  From less than these bytes the same reading
    fails: it gives the entries up to one of which only a part is there, and fails in that one. -/
theorem streams_read_back {kinds : List EntryKind} {entries : List Entry}
    (fits : List.Forall₂ (fun kind (entry : Entry) => entry.Fits kind) kinds entries) :
    ∃ run,
      (∀ output, ∃ after, Act.forEach Entry.write entries output = (.ok (), after) ∧
        after.content = output.content ++ run) ∧
      (∀ rest position, Act.collect EntryKind.read kinds ⟨run ++ rest, position⟩ =
        (.ok entries, ⟨rest, position + run.length⟩)) ∧
      ∀ front missing position, run = front ++ missing → missing ≠ [] →
        ∃ failure final, failure.kind = .serialization ∧
          Act.collect EntryKind.read kinds ⟨front, position⟩ = (.error failure, final) ∧
          StopsIn failure final kinds entries ⟨front, position⟩ := by
  obtain ⟨run, back⟩ := exists_readsBack fits
  refine ⟨run, back.written, back.takes, fun front missing position split cut => ?_⟩
  obtain ⟨failure, final, kept, stops⟩ := back.stops front missing position split cut
  exact ⟨failure, final, kept, stops.collect, stops⟩

/-- A character of two bytes is cut between them; behind the text stand a list of floating-point
    numbers, one of them absent and one not a number, two bytes without a length, and a negative
    number that may be absent. -/
theorem streams_read_back_inside_character :
    let kinds : List EntryKind :=
      [.item .text, .list (.option (.scalar .float)), .raw 2, .item (.option .short)]
    let entries : List Entry :=
      [.item (.text "é"), .list [.absent, .present (.scalar .float ⟨0x7fc00001⟩)], .raw [7, 8],
        .item (.present (.short (-2)))]
    let run : Bytes :=
      [0, 0, 0, 2, 0xc3, 0xa9, 0, 0, 0, 2, 0, 1, 0x7f, 0xc0, 0, 1, 7, 8, 1, 0xff, 0xfe]
    (∀ rest position, Act.collect EntryKind.read kinds ⟨run ++ rest, position⟩ =
        (.ok entries, ⟨rest, position + 21⟩)) ∧
      ∃ failure final, failure.kind = .serialization ∧
        Act.collect EntryKind.read kinds ⟨run.take 5, 0⟩ = (.error failure, final) ∧
        StopsIn failure final kinds entries ⟨run.take 5, 0⟩ := by
  intro kinds entries run
  have floats : ∀ entry ∈ [Entry.absent, .present (.scalar .float ⟨0x7fc00001⟩)],
      entry.Fits (.option (.scalar .float)) := by
    simp only [List.forall_mem_cons, List.not_mem_nil, false_imp_iff, implies_true, and_true]
    exact ⟨.absent _, .present (.scalar rfl)⟩
  obtain ⟨form, written, takes, stops⟩ := @streams_read_back kinds entries
    (.cons (.item (.text (by decide))) (.cons (.list (by decide) floats)
      (.cons (.raw [7, 8]) (.cons (.item (.present (.short (-2)))) .nil))))
  obtain ⟨after, wrote, content⟩ := written (Output.empty 0)
  have same : form = run := by
    cases wrote
    exact content.symm
  subst same
  exact ⟨takes, stops _ (run.drop 5) 0 (List.take_append_drop 5 run).symm (by decide)⟩

end ObjectWire
