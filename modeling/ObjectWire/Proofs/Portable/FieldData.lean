import ObjectWire.Portable.BodyReader
import ObjectWire.Proofs.Wire.Takes

/-!
# The forms of data in a body

The bytes that data of each kind take in a body, stated apart from the steps that write them:
something that may be absent stands behind a flag, a run behind the number of its items.  What is
written has such a form and is that form, and reading takes it back.
-/

namespace ObjectWire

namespace Wire

variable {α : Type}

/-- The form of something that may be absent. -/
def optional (form : α → Option Bytes) : Option α → Option Bytes
  | none => some (bool false)
  | some item => do return bool true ++ (← form item)

/-- The forms of items, one after the other. -/
def all (form : α → Option Bytes) : List α → Option Bytes
  | [] => some []
  | item :: items => do return (← form item) ++ (← all form items)

/-- The form of a run of items: their number, then the items. -/
def run (form : α → Option Bytes) (items : List α) : Option Bytes := do
  return (← (length .array items.length).toOption) ++ (← all form items)

theorem optional_some {form : α → Option Bytes} {item : α} {bytes : Bytes}
    (h : optional form (some item) = some bytes) :
    ∃ inner, form item = some inner ∧ bytes = bool true ++ inner := by
  obtain ⟨inner, formed, h⟩ := Option.bind_eq_some_iff.mp h
  cases h
  exact ⟨inner, formed, rfl⟩

theorem all_cons {form : α → Option Bytes} {item : α} {items : List α} {bytes : Bytes}
    (h : all form (item :: items) = some bytes) :
    ∃ first others, form item = some first ∧ all form items = some others ∧
      bytes = first ++ others := by
  obtain ⟨first, formed, h⟩ := Option.bind_eq_some_iff.mp h
  obtain ⟨others, rest, h⟩ := Option.bind_eq_some_iff.mp h
  cases h
  exact ⟨first, others, formed, rest, rfl⟩

theorem run_some {form : α → Option Bytes} {items : List α} {bytes : Bytes}
    (h : run form items = some bytes) :
    items.length < lengthLimit ∧
      ∃ inner, all form items = some inner ∧ bytes = BigEndian.encode 4 items.length ++ inner := by
  obtain ⟨count, counted, h⟩ := Option.bind_eq_some_iff.mp h
  obtain ⟨inner, formed, h⟩ := Option.bind_eq_some_iff.mp h
  cases h
  obtain ⟨fits, rfl⟩ := Input.lt_of_length_ok (Act.settled_of_toOption counted)
  exact ⟨fits, inner, formed, rfl⟩

end Wire

namespace FieldData

/-- The form of data in a body. -/
def form : FieldData → Option Bytes
  | scalar kind item => (kind.encode item).toOption
  | text s => Wire.optional (fun s => (Wire.string s).toOption) s
  | array kind items => Wire.optional (Wire.run fun item => (kind.encode item).toOption) items
  | textArray items => Wire.optional (Wire.run fun s => (Wire.string s).toOption) items

end FieldData

namespace Output

/-- The step, if it succeeds, appends bytes of a given form. -/
def Appends (step : Act Output Unit) (form : Option Bytes) : Prop :=
  ∀ output after, step output = (.ok (), after) →
    ∃ run, form = some run ∧ after.content = output.content ++ run

theorem appends_write (run : Bytes) : Appends (write run) (some run) := by
  intro output after h
  cases h
  exact ⟨run, rfl, rfl⟩

theorem appends_writeItem (item : Except Failure Bytes) :
    Appends (writeItem item) item.toOption := by
  intro output after h
  obtain ⟨run, _, lifted, h⟩ := Act.bind_ok h
  obtain ⟨rfl, rfl⟩ := Act.lift_ok lifted
  cases h
  exact ⟨run, rfl, rfl⟩

theorem Appends.andThen {step next : Act Output Unit} {first second : Option Bytes}
    (h : Appends step first) (rest : Appends next second) :
    Appends (do step; next) (do return (← first) ++ (← second)) := by
  intro output after ran
  obtain ⟨_, middle, stepped, ran⟩ := Act.bind_ok ran
  obtain ⟨front, rfl, content⟩ := h output middle stepped
  obtain ⟨back, rfl, final⟩ := rest middle after ran
  exact ⟨front ++ back, rfl, by rw [final, content, List.append_assoc]⟩

theorem appends_forEach {α : Type} (encode : α → Except Failure Bytes) (items : List α) :
    Appends (Act.forEach (fun item => writeItem (encode item)) items)
      (Wire.all (fun item => (encode item).toOption) items) := by
  induction items with
  | nil =>
    intro output after h
    cases h
    exact ⟨[], rfl, (List.append_nil _).symm⟩
  | cons item items ih => exact (appends_writeItem _).andThen ih

end Output

namespace FieldData

theorem appends_writeRun {α : Type} (encode : α → Except Failure Bytes) (items : Option (List α)) :
    Output.Appends (writeRun encode items)
      (Wire.optional (Wire.run fun item => (encode item).toOption) items) := by
  cases items with
  | none => exact Output.appends_write _
  | some items =>
    intro output after h
    have steps := (Output.appends_write (Wire.bool true)).andThen
      ((Output.appends_writeItem (Wire.length .array items.length)).andThen
        (Output.appends_forEach encode items))
    exact steps output after h

/-- Data are written in their form. -/
theorem appends_write (data : FieldData) : Output.Appends data.write data.form := by
  cases data with
  | scalar kind item => exact Output.appends_writeItem _
  | text s =>
    cases s with
    | none => exact Output.appends_write _
    | some s =>
      exact (Output.appends_write (Wire.bool true)).andThen (Output.appends_writeItem _)
  | array kind items => exact appends_writeRun kind.encode items
  | textArray items => exact appends_writeRun Wire.string items

end FieldData

namespace Input

variable {α β : Type}

/-- Reads something that may be absent. -/
def present (step : Act Input β) : Act Input (Option β) := do
  if ← bool then some <$> step else pure none

/-- Reads a run of items in the field of a given name. -/
def counted (name : String) (item : Act Input β) : Act Input (List β) := do
  let count ← int
  if count < 0 then Act.fail (.negativeArrayLength count name)
  else Act.times count.toNatClampNeg item

theorem takes_present {form : α → Option Bytes} {step : Act Input β} {value : α → β}
    {held : Option α} {bytes : Bytes} (h : Wire.optional form held = some bytes)
    (each : ∀ item ∈ held, ∀ run, form item = some run → Takes step run (value item)) :
    Takes (present step) bytes (held.map value) := by
  cases held with
  | none =>
    cases h
    exact (takes_bool false).bind_nil (takes_pure none)
  | some item =>
    obtain ⟨inner, formed, rfl⟩ := Wire.optional_some h
    exact (takes_bool true).bind ((each item rfl inner formed).map some)

theorem takes_times {form : α → Option Bytes} {step : Act Input β} {value : α → β}
    {items : List α} {bytes : Bytes} (h : Wire.all form items = some bytes)
    (each : ∀ item ∈ items, ∀ run, form item = some run → Takes step run (value item)) :
    Takes (Act.times items.length step) bytes (items.map value) := by
  induction items generalizing bytes with
  | nil =>
    cases h
    exact takes_pure []
  | cons item items ih =>
    obtain ⟨first, others, formed, rest, rfl⟩ := Wire.all_cons h
    apply (each item (by simp) first formed).bind
    refine (ih rest fun other member => each other (List.mem_cons_of_mem _ member)).bind_nil ?_
    exact takes_pure _

theorem takes_counted {form : α → Option Bytes} {step : Act Input β} {value : α → β}
    {items : List α} {bytes : Bytes} (name : String) (h : Wire.run form items = some bytes)
    (each : ∀ item ∈ items, ∀ run, form item = some run → Takes step run (value item)) :
    Takes (counted name step) bytes (items.map value) := by
  obtain ⟨fits, inner, formed, rfl⟩ := Wire.run_some h
  apply (takes_int_ofNat fits).bind
  rw [if_neg (ofNat_nonneg fits), toNatClampNeg_ofNat fits]
  exact takes_times formed each

/-- A run of items that may be absent. -/
theorem takes_presentRun {form : α → Option Bytes} {step : Act Input α} {held : Option (List α)}
    {bytes : Bytes} (name : String) (h : Wire.optional (Wire.run form) held = some bytes)
    (each : ∀ item run, form item = some run → Takes step run item) :
    Takes (present (counted name step)) bytes held := by
  have runs : ∀ items ∈ held, ∀ run, Wire.run form items = some run →
      Takes (counted name step) run (id items) := by
    intro items _ run formed
    have taken := takes_counted name formed fun item _ run formed =>
      show Takes step run (id item) from each item run formed
    rwa [List.map_id] at taken
  have taken := takes_present h runs
  rwa [Option.map_id] at taken

end Input

namespace ScalarKind

theorem takes_decodeChar {c : Char} {run : Bytes} (h : encode.encodeChar c = .ok run) :
    Input.Takes decode.decodeChar run c := by
  unfold encode.encodeChar at h
  split at h
  case isTrue narrow =>
    cases h
    have code : c.toNat.isValidChar := c.valid
    have taken : Input.Takes (Input.word 2) (BigEndian.encode 2 c.toNat) c.toNat :=
      Input.takes_word_encode narrow
    apply taken.bind_nil
    rw [if_pos code, Char.ofNat_toNat]
    exact Input.takes_pure c
  case isFalse => cases h

theorem takes_decode {kind : ScalarKind} {item : kind.Item} {run : Bytes}
    (h : kind.encode item = .ok run) : Input.Takes kind.decode run item := by
  cases kind with
  | byte => cases h; exact Input.takes_byte item
  | bool => cases h; exact Input.takes_bool item
  | char => exact takes_decodeChar h
  | short => cases h; exact Input.takes_short item
  | int => cases h; exact Input.takes_int item
  | long => cases h; exact Input.takes_long item
  | float =>
    cases h
    exact (Input.takes_word_encode item.bits.toNat_lt).map_eq (by simp; rfl)
  | double =>
    cases h
    exact (Input.takes_word_encode item.bits.toNat_lt).map_eq (by simp; rfl)

end ScalarKind

end ObjectWire
