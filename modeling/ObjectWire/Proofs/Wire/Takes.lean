import ObjectWire.Proofs.Act
import ObjectWire.Proofs.Text.Utf8
import ObjectWire.Wire.Scalar

/-!
# Reading exactly what was written

`Takes step run value` says that a step, on any input that begins with the run, answers with the
value and leaves what follows the run.  It is closed under sequencing, so that a reader is matched
with a writer part by part.  The primitive items, texts and scalars are the leaves: each is taken
from its wire form.  `Fails step run failure` says that the step fails on all of these inputs, and
`Adds step run` that a step appends the run to whatever was written before.
-/

namespace ObjectWire

namespace Wire

theorem length_of_lt {n : Nat} (small : n < lengthLimit) (of : Counted) :
    length of n = .ok (BigEndian.encode 4 n) :=
  if_pos small

theorem byteArray_of_lt {content : Bytes} (small : content.length < lengthLimit) :
    byteArray content = .ok (BigEndian.encode 4 content.length ++ content) := by
  rw [byteArray, length_of_lt small]
  rfl

theorem string_of_lt {text : String} (small : Utf8.width text < lengthLimit) :
    string text = .ok (BigEndian.encode 4 (Utf8.width text) ++ Utf8.encode text) := by
  rw [string, length_of_lt small]
  rfl

end Wire

namespace Input

variable {α β : Type}

/-- The step takes exactly the run from any input that begins with it, and answers with the
    value. -/
def Takes (step : Act Input α) (run : Bytes) (value : α) : Prop :=
  ∀ rest position,
    step ⟨run ++ rest, position⟩ = (.ok value, ⟨rest, position + run.length⟩)

theorem takes_pure (value : α) : Takes (pure value) [] value := fun _ _ => rfl

theorem Takes.bind {step : Act Input α} {next : α → Act Input β} {run more : Bytes} {value : α}
    {answer : β} (first : Takes step run value) (second : Takes (next value) more answer) :
    Takes (step >>= next) (run ++ more) answer := by
  intro rest position
  rw [List.append_assoc, Act.bind_of_ok (first (more ++ rest) position), second, List.length_append,
    Nat.add_assoc]

/-- Like `Takes.bind`, where nothing is left for the second step to take. -/
theorem Takes.bind_nil {step : Act Input α} {next : α → Act Input β} {run : Bytes} {value : α}
    {answer : β} (first : Takes step run value) (second : Takes (next value) [] answer) :
    Takes (step >>= next) run answer := by
  have both := first.bind second
  rwa [List.append_nil] at both

theorem Takes.map {step : Act Input α} {run : Bytes} {value : α} (f : α → β)
    (h : Takes step run value) : Takes (f <$> step) run (f value) := by
  intro rest position
  rw [Act.map_apply, h]
  rfl

theorem Takes.map_eq {step : Act Input α} {run : Bytes} {value : α} {f : α → β} {answer : β}
    (h : Takes step run value) (same : f value = answer) : Takes (f <$> step) run answer :=
  same ▸ h.map f

theorem takes_lift {outcome : Except Failure α} {value : α} (h : outcome = .ok value) :
    Takes (Act.lift outcome) [] value := by
  intro rest position
  rw [h]
  rfl

/-- The step fails on every input that begins with the run. -/
def Fails (step : Act Input α) (run : Bytes) (failure : Failure) : Prop :=
  ∀ rest position, (step ⟨run ++ rest, position⟩).1 = .error failure

theorem Fails.bind {step : Act Input α} {run : Bytes} {failure : Failure}
    (h : Fails step run failure) (next : α → Act Input β) (more : Bytes) :
    Fails (step >>= next) (run ++ more) failure := by
  intro rest position
  rw [List.append_assoc]
  have failed := h (more ++ rest) position
  rcases ran : step ⟨run ++ (more ++ rest), position⟩ with ⟨outcome, reached⟩
  rw [ran] at failed
  rw [Act.bind_of_error (ran.trans (congrArg (·, reached) failed))]

theorem Takes.fails {step : Act Input α} {next : α → Act Input β} {run more : Bytes} {value : α}
    {failure : Failure} (first : Takes step run value) (second : Fails (next value) more failure) :
    Fails (step >>= next) (run ++ more) failure := by
  intro rest position
  rw [List.append_assoc, Act.bind_of_ok (first (more ++ rest) position), second]

theorem Takes.fails_nil {step : Act Input α} {next : α → Act Input β} {run : Bytes} {value : α}
    {failure : Failure} (first : Takes step run value) (second : Fails (next value) [] failure) :
    Fails (step >>= next) run failure := by
  have both := first.fails second
  rwa [List.append_nil] at both

theorem takes_bytes (run : Bytes) : Takes (bytes run.length) run run := by
  intro rest position
  have room : run.length ≤ remaining ⟨run ++ rest, position⟩ := by simp [remaining]
  unfold bytes
  rw [if_pos room]
  simp

theorem takes_word {w : Nat} {run : Bytes} (h : run.length = w) :
    Takes (word w) run (BigEndian.decode run) := by
  subst h
  exact (takes_bytes run).map _

theorem takes_word_encode {w n : Nat} (h : n < BigEndian.words w) :
    Takes (word w) (BigEndian.encode w n) n := by
  have taken := takes_word (BigEndian.length_encode w n)
  rwa [BigEndian.decode_encode, Nat.mod_eq_of_lt h] at taken

theorem takes_byte (n : Int8) : Takes byte (Wire.byte n) n := by
  have read : Takes (word 1) (Wire.byte n) (BigEndian.decode (Wire.byte n)) := takes_word rfl
  have taken : Takes (word 1) (Wire.byte n) n.toUInt8.toNat := by
    simpa [Wire.byte, BigEndian.decode] using read
  exact taken.map_eq (by simp)

theorem takes_bool (b : Bool) : Takes bool (Wire.bool b) b := by
  have taken : Takes (word 1) (Wire.bool b) (if b then 1 else 0) := by
    cases b <;> exact takes_word rfl
  exact taken.map_eq (by cases b <;> rfl)

theorem takes_short (n : Int16) : Takes short (Wire.short n) n :=
  (takes_word_encode n.toUInt16.toNat_lt).map_eq (by simp)

theorem takes_int (n : Int32) : Takes int (Wire.int n) n :=
  (takes_word_encode n.toUInt32.toNat_lt).map_eq (by simp)

theorem takes_long (n : Int64) : Takes long (Wire.long n) n :=
  (takes_word_encode n.toUInt64.toNat_lt).map_eq (by simp)

theorem toInt_ofNat_of_lt {n : Nat} (h : n < Wire.lengthLimit) : (Int32.ofNat n).toInt = n :=
  Int32.toInt_ofNat_of_lt (by simpa [Wire.lengthLimit] using h)

theorem ofNat_nonneg {n : Nat} (h : n < Wire.lengthLimit) : ¬ Int32.ofNat n < 0 := by
  rw [Int32.lt_iff_toInt_lt, toInt_ofNat_of_lt h]
  simp

theorem toNatClampNeg_ofNat {n : Nat} (h : n < Wire.lengthLimit) :
    (Int32.ofNat n).toNatClampNeg = n := by
  rw [Int32.toNatClampNeg, toInt_ofNat_of_lt h, Int.toNat_natCast]

/-- A length or count that fits is read as the word it was written as. -/
theorem takes_int_ofNat {n : Nat} (h : n < Wire.lengthLimit) :
    Takes int (BigEndian.encode 4 n) (Int32.ofNat n) := by
  have fits : n < BigEndian.words 4 := Nat.lt_trans h (by decide)
  exact (takes_word_encode fits).map fun n => (UInt32.ofNat n).toInt32

theorem lt_of_length_ok {of : Counted} {n : Nat} {run : Bytes} (h : Wire.length of n = .ok run) :
    n < Wire.lengthLimit ∧ run = BigEndian.encode 4 n := by
  unfold Wire.length at h
  by_cases fits : n < Wire.lengthLimit
  · rw [if_pos fits] at h
    cases h
    exact ⟨fits, rfl⟩
  · rw [if_neg fits] at h
    cases h

theorem takes_length {of read : Counted} {n : Nat} {run : Bytes} (h : Wire.length of n = .ok run) :
    Takes (length read) run n := by
  obtain ⟨fits, rfl⟩ := lt_of_length_ok h
  apply (takes_int_ofNat fits).bind_nil
  rw [if_neg (ofNat_nonneg fits), toNatClampNeg_ofNat fits]
  exact takes_pure n

theorem byteArray_ok {content run : Bytes} (h : Wire.byteArray content = .ok run) :
    content.length < Wire.lengthLimit ∧ run = BigEndian.encode 4 content.length ++ content := by
  obtain ⟨front, counted, rfl⟩ := Act.settled_map_ok h
  obtain ⟨fits, rfl⟩ := lt_of_length_ok counted
  exact ⟨fits, rfl⟩

theorem takes_byteArray {content run : Bytes} (h : Wire.byteArray content = .ok run) :
    Takes byteArray run content := by
  obtain ⟨front, counted, rfl⟩ := Act.settled_map_ok h
  exact (takes_length counted).bind (takes_bytes content)

theorem takes_string {text : String} {run : Bytes} (h : Wire.string text = .ok run) :
    Takes string run text := by
  obtain ⟨front, counted, rfl⟩ := Act.settled_map_ok h
  apply (takes_length counted).bind
  apply (takes_bytes (Utf8.encode text)).bind_nil
  rw [Utf8.decode_encode]
  exact takes_pure text

end Input

namespace Output

/-- The step appends the run to any buffer. -/
def Adds (step : Act Output Unit) (run : Bytes) : Prop :=
  ∀ output, ∃ after, step output = (.ok (), after) ∧ after.content = output.content ++ run

theorem adds_pure : Adds (pure ()) [] := fun output => ⟨output, rfl, (List.append_nil _).symm⟩

theorem adds_write (run : Bytes) : Adds (write run) run :=
  fun output => ⟨output.append run, rfl, rfl⟩

theorem adds_writeItem {item : Except Failure Bytes} {run : Bytes} (h : item = .ok run) :
    Adds (writeItem item) run := by
  subst h
  exact adds_write run

/-- An item that was written has a form, which was appended. -/
theorem writeItem_ok {item : Except Failure Bytes} {output after : Output}
    (h : writeItem item output = (.ok (), after)) :
    ∃ run, item = .ok run ∧ after.content = output.content ++ run := by
  cases item with
  | error failure => cases h
  | ok run =>
    cases h
    exact ⟨run, rfl, rfl⟩

theorem Adds.andThen {step next : Act Output Unit} {run more : Bytes} (first : Adds step run)
    (second : Adds next more) : Adds (do step; next) (run ++ more) := by
  intro output
  obtain ⟨middle, stepped, front⟩ := first output
  obtain ⟨after, went, back⟩ := second middle
  exact ⟨after, (Act.bind_of_ok stepped).trans went, by rw [back, front, List.append_assoc]⟩

end Output

end ObjectWire
