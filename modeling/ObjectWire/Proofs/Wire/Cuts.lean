import ObjectWire.Proofs.Portable.FieldData
import ObjectWire.Proofs.Wire.Items

/-!
# Reading what was cut off

`Cuts step run` says that a step fails on everything that the run begins with and that is shorter than
the run: nothing is made of a part of an item.  Together with `Takes` this makes `Exactly`: the run is
neither more nor less than what the step needs.  Like `Takes` it is closed under sequencing.
-/

namespace ObjectWire

namespace Input

variable {α β : Type}

/-- Wherever the run is cut off, the step fails on what is left of it, as serialization does. -/
def Cuts (step : Act Input α) (run : Bytes) : Prop :=
  ∀ front missing position, run = front ++ missing → missing ≠ [] →
    ∃ failure reached, step ⟨front, position⟩ = (.error failure, reached) ∧
      failure.kind = .serialization

theorem cuts_nil (step : Act Input α) : Cuts step [] := by
  intro front missing position split more
  exact absurd (List.append_eq_nil_iff.mp split.symm).2 more

theorem cuts_bytes (run : Bytes) : Cuts (bytes run.length) run := by
  intro front missing position split more
  have short : ¬ run.length ≤ remaining ⟨front, position⟩ := by
    have lost := List.length_pos_iff.mpr more
    simp only [split, remaining, List.length_append]
    omega
  exact ⟨_, _, if_neg short, rfl⟩

/-- What cannot be begun is not gone on with. -/
theorem Cuts.bind {step : Act Input α} {run : Bytes} (h : Cuts step run) (next : α → Act Input β) :
    Cuts (step >>= next) run := by
  intro front missing position split more
  obtain ⟨failure, reached, ran, kind⟩ := h front missing position split more
  exact ⟨failure, reached, Act.bind_of_error ran, kind⟩

theorem Cuts.map {step : Act Input α} {run : Bytes} (h : Cuts step run) (f : α → β) :
    Cuts (f <$> step) run := by
  rw [map_eq_pure_bind]
  exact h.bind _

/-- A run in two parts is cut off in the first part, or in the second, which is then all that is not
    there. -/
theorem cut_in_two {run more front missing : Bytes} (split : run ++ more = front ++ missing) :
    (∃ lost, lost ≠ [] ∧ run = front ++ lost) ∨
      ∃ inside, front = run ++ inside ∧ more = inside ++ missing := by
  rcases List.append_eq_append_iff.mp split with ⟨inside, reached, rest⟩ | ⟨lost, parted, rest⟩
  · exact .inr ⟨inside, reached, rest⟩
  · cases lost with
    | nil =>
      rw [List.append_nil] at parted
      exact .inr ⟨[], by rw [parted, List.append_nil], rest.symm⟩
    | cons first others => exact .inl ⟨_, List.cons_ne_nil _ _, parted⟩

theorem Takes.cuts {step : Act Input α} {next : α → Act Input β} {run more : Bytes} {value : α}
    (takes : Takes step run value) (first : Cuts step run) (second : Cuts (next value) more) :
    Cuts (step >>= next) (run ++ more) := by
  intro front missing position split cut
  rcases cut_in_two split with ⟨lost, more, parted⟩ | ⟨inside, rfl, rest⟩
  · exact first.bind next front lost position parted more
  · obtain ⟨failure, reached, ran, kind⟩ :=
      second inside missing (position + run.length) rest cut
    exact ⟨failure, reached, (Act.bind_of_ok (takes inside position)).trans ran, kind⟩

/-- The step needs the run and nothing else to answer with the value. -/
structure Exactly (step : Act Input α) (run : Bytes) (value : α) : Prop where
  takes : Takes step run value
  cuts : Cuts step run

theorem exactly_pure (value : α) : Exactly (pure value) [] value := ⟨takes_pure value, cuts_nil _⟩

theorem Exactly.bind {step : Act Input α} {next : α → Act Input β} {run more : Bytes} {value : α}
    {answer : β} (first : Exactly step run value) (second : Exactly (next value) more answer) :
    Exactly (step >>= next) (run ++ more) answer :=
  ⟨first.takes.bind second.takes, first.takes.cuts first.cuts second.cuts⟩

/-- Like `Exactly.bind`, where nothing is left for the second step to take. -/
theorem Exactly.bind_nil {step : Act Input α} {next : α → Act Input β} {run : Bytes} {value : α}
    {answer : β} (first : Exactly step run value) (second : Takes (next value) [] answer) :
    Exactly (step >>= next) run answer :=
  ⟨first.takes.bind_nil second, first.cuts.bind next⟩

theorem Exactly.map {step : Act Input α} {run : Bytes} {value : α} (h : Exactly step run value)
    (f : α → β) : Exactly (f <$> step) run (f value) :=
  ⟨h.takes.map f, h.cuts.map f⟩

theorem exactly_bytes (run : Bytes) : Exactly (bytes run.length) run run :=
  ⟨takes_bytes run, cuts_bytes run⟩

/-! Items of a fixed width are words. -/

theorem cuts_word {w : Nat} {run : Bytes} (length : run.length = w) : Cuts (word w) run := by
  subst length
  exact (cuts_bytes run).map _

theorem cuts_encode (w n : Nat) : Cuts (word w) (BigEndian.encode w n) :=
  cuts_word (BigEndian.length_encode w n)

theorem exactly_byte (n : Int8) : Exactly byte (Wire.byte n) n :=
  ⟨takes_byte n, (cuts_word rfl).map _⟩

theorem exactly_bool (b : Bool) : Exactly bool (Wire.bool b) b :=
  ⟨takes_bool b, (cuts_word rfl).map _⟩

theorem exactly_short (n : Int16) : Exactly short (Wire.short n) n :=
  ⟨takes_short n, (cuts_encode 2 _).map _⟩

theorem exactly_int (n : Int32) : Exactly int (Wire.int n) n :=
  ⟨takes_int n, (cuts_encode 4 _).map _⟩

theorem exactly_long (n : Int64) : Exactly long (Wire.long n) n :=
  ⟨takes_long n, (cuts_encode 8 _).map _⟩

/-- Scalars that have a wire form. -/
theorem exactly_decode {kind : ScalarKind} {item : kind.Item} {run : Bytes}
    (h : kind.encode item = .ok run) : Exactly kind.decode run item := by
  refine ⟨ScalarKind.takes_decode h, ?_⟩
  cases kind with
  | char =>
    have written : ScalarKind.encode.encodeChar item = .ok run := h
    unfold ScalarKind.encode.encodeChar at written
    split at written
    case isTrue => cases written; exact (cuts_encode 2 _).bind _
    case isFalse => cases written
  | byte => cases h; exact (exactly_byte item).cuts
  | bool => cases h; exact (exactly_bool item).cuts
  | short => cases h; exact (exactly_short item).cuts
  | int => cases h; exact (exactly_int item).cuts
  | long => cases h; exact (exactly_long item).cuts
  | float => cases h; exact (cuts_encode 4 _).map _
  | double => cases h; exact (cuts_encode 8 _).map _

/-! Items behind their length. -/

theorem exactly_length {of read : Counted} {n : Nat} {run : Bytes}
    (h : Wire.length of n = .ok run) : Exactly (length read) run n := by
  refine ⟨takes_length h, ?_⟩
  obtain ⟨-, rfl⟩ := lt_of_length_ok h
  exact ((cuts_encode 4 n).map _).bind _

theorem exactly_byteArray {content run : Bytes} (h : Wire.byteArray content = .ok run) :
    Exactly byteArray run content := by
  obtain ⟨front, counted, rfl⟩ := Act.settled_map_ok h
  exact (exactly_length counted).bind (exactly_bytes content)

theorem exactly_string {text : String} {run : Bytes} (h : Wire.string text = .ok run) :
    Exactly string run text := by
  refine ⟨takes_string h, ?_⟩
  obtain ⟨front, counted, rfl⟩ := Act.settled_map_ok h
  have counts : Exactly (length .string) front (Utf8.width text) := exactly_length counted
  exact counts.takes.cuts counts.cuts ((cuts_bytes (Utf8.encode text)).bind _)

theorem exactly_instant {t : Instant} (valid : t.Valid) :
    Exactly instant (Wire.instant t) t.floor :=
  ⟨takes_instant valid, (exactly_long t.millis).cuts.bind _⟩

theorem exactly_bigInteger {n : Int} {run : Bytes} (h : Wire.bigInteger n = .ok run) :
    Exactly bigInteger run n :=
  ⟨takes_bigInteger h, (exactly_byteArray h).cuts.bind _⟩

theorem exactly_times {step : Act Input α} {form : α → Bytes} {items : List α}
    (each : ∀ item ∈ items, Exactly step (form item) item) :
    Exactly (Act.times items.length step) (items.map form).flatten items := by
  induction items with
  | nil => exact exactly_pure []
  | cons item items ih =>
    have others := ih fun other member => each other (List.mem_cons_of_mem _ member)
    exact (each item (by simp)).bind (others.bind_nil (takes_pure _))

/-! Items behind a flag or behind their number. -/

theorem exactly_flagged {yes no : Act Input α} {run : Bytes} {value : α} (flag : Bool)
    (h : Exactly (if flag then yes else no) run value) :
    Exactly (do if ← bool then yes else no) (Wire.bool flag ++ run) value :=
  (exactly_bool flag).bind h

theorem exactly_listed {step : Act Input α} {form : α → Bytes} {items : List α}
    (small : items.length < Wire.lengthLimit) (f : List α → β)
    (each : ∀ item ∈ items, Exactly step (form item) item) :
    Exactly (do f <$> Act.times (← length .list) step)
      (BigEndian.encode 4 items.length ++ (items.map form).flatten) (f items) :=
  (exactly_length (Wire.length_of_lt small .list)).bind ((exactly_times each).map f)

end Input

end ObjectWire
