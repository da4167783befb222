import Mathlib.Algebra.BigOperators.Group.List.Basic
import Mathlib.Algebra.Ring.Nat
import ObjectWire.Proofs.Portable.Form

/-!
# The sizes of data

How many bytes the data of a field take, said without writing them.  Of data that are not too large
only characters that two bytes cannot say have no form, and every form is as long as said.
-/

namespace ObjectWire

namespace ScalarKind

/-- The bytes that an item takes. -/
def width : ScalarKind → Nat
  | .byte | .bool => 1
  | .char | .short => 2
  | .int | .float => 4
  | .long | .double => 8

/-- Two bytes can say the item, if it is a character. -/
def Narrow : (kind : ScalarKind) → kind.Item → Prop
  | .char, c => Char.toNat c < 0x10000
  | _, _ => True

instance decidableNarrow : (kind : ScalarKind) → (item : kind.Item) → Decidable (kind.Narrow item)
  | .char, c => inferInstanceAs (Decidable (Char.toNat c < 0x10000))
  | .byte, _ | .bool, _ | .short, _ | .int, _ | .long, _ | .float, _ | .double, _ =>
    .isTrue trivial

theorem width_pos (kind : ScalarKind) : 0 < kind.width := by cases kind <;> decide

theorem exists_encode_iff {kind : ScalarKind} {item : kind.Item} :
    (∃ run, kind.encode item = .ok run) ↔ kind.Narrow item := by
  cases kind with
  | char =>
    show (∃ run, encode.encodeChar item = .ok run) ↔ Char.toNat item < 0x10000
    unfold encode.encodeChar
    split
    case isTrue narrow => exact iff_of_true ⟨_, rfl⟩ narrow
    case isFalse wide => exact iff_of_false nofun wide
  | _ => exact iff_of_true ⟨_, rfl⟩ trivial

theorem length_of_encode {kind : ScalarKind} {item : kind.Item} {run : Bytes}
    (h : kind.encode item = .ok run) : run.length = kind.width := by
  cases kind with
  | char =>
    have h : encode.encodeChar item = .ok run := h
    unfold encode.encodeChar at h
    split at h
    case isTrue => cases h; exact BigEndian.length_encode 2 _
    case isFalse => cases h
  | byte => cases h; rfl
  | bool => cases h; rfl
  | _ => cases h; exact BigEndian.length_encode _ _

end ScalarKind

namespace Wire

theorem length_of_string {text : String} {run : Bytes} (h : string text = .ok run) :
    Utf8.width text < lengthLimit ∧ run.length = 4 + Utf8.width text := by
  obtain ⟨front, counted, rfl⟩ := Act.settled_map_ok h
  obtain ⟨small, rfl⟩ := Input.lt_of_length_ok counted
  exact ⟨small, by rw [List.length_append, BigEndian.length_encode, Utf8.width]⟩

/-! The size of something that may be absent, and of a run of items. -/

section Sizes

variable {α : Type} {form : α → Option Bytes} {narrow : α → Prop} {size : α → Nat}

/-- The size of something that may be absent. -/
def optionalSize (size : α → Nat) : Option α → Nat
  | none => 1
  | some item => 1 + size item

/-- The size of a run of items. -/
def runSize (size : α → Nat) (items : List α) : Nat := 4 + (items.map size).sum

/-- What has a form is narrow, and the form is as long as said; and what is narrow has a form unless
    it is too large. -/
structure Sized (form : α → Option Bytes) (narrow : α → Prop) (size : α → Nat) : Prop where
  length : ∀ item run, form item = some run → narrow item ∧ run.length = size item
  form : ∀ item, narrow item → size item < lengthLimit → ∃ run, form item = some run

theorem Sized.optional (sized : Sized form narrow size) :
    Sized (optional form) (fun held => ∀ item ∈ held, narrow item) (optionalSize size) where
  length held run h := by
    cases held with
    | none =>
      cases h
      exact ⟨nofun, rfl⟩
    | some item =>
      obtain ⟨inner, formed, rfl⟩ := optional_some h
      obtain ⟨holds, length⟩ := sized.length item inner formed
      refine ⟨fun other held => ?_, ?_⟩
      · cases held
        exact holds
      · rw [List.length_append, length]
        rfl
  form held holds small := by
    cases held with
    | none => exact ⟨_, rfl⟩
    | some item =>
      have inside : size item < lengthLimit := by
        rw [optionalSize] at small
        omega
      obtain ⟨inner, formed⟩ := sized.form item (holds item rfl) inside
      exact ⟨bool true ++ inner, by rw [Wire.optional, formed]; rfl⟩

theorem Sized.all (sized : Sized form narrow size) :
    Sized (all form) (fun items => ∀ item ∈ items, narrow item)
      (fun items => (items.map size).sum) where
  length items run h := by
    induction items generalizing run with
    | nil =>
      cases h
      exact ⟨nofun, rfl⟩
    | cons item items ih =>
      obtain ⟨first, others, formed, rest, rfl⟩ := all_cons h
      obtain ⟨here, length⟩ := sized.length item first formed
      obtain ⟨there, lengths⟩ := ih others rest
      refine ⟨List.forall_mem_cons.mpr ⟨here, there⟩, ?_⟩
      rw [List.length_append, length, lengths, List.map_cons, List.sum_cons]
  form items holds small := by
    induction items with
    | nil => exact ⟨[], rfl⟩
    | cons item items ih =>
      rw [List.map_cons, List.sum_cons] at small
      obtain ⟨here, there⟩ := List.forall_mem_cons.mp holds
      obtain ⟨first, formed⟩ := sized.form item here (by omega)
      obtain ⟨others, rest⟩ := ih there (by omega)
      exact ⟨first ++ others, by rw [Wire.all, formed, rest]; rfl⟩

theorem Sized.run (sized : Sized form narrow size) (positive : ∀ item, 0 < size item) :
    Sized (run form) (fun items => ∀ item ∈ items, narrow item) (runSize size) where
  length items bytes h := by
    obtain ⟨-, inner, formed, rfl⟩ := run_some h
    obtain ⟨holds, length⟩ := sized.all.length items inner formed
    exact ⟨holds, by rw [List.length_append, BigEndian.length_encode, length, runSize]⟩
  form items holds small := by
    rw [runSize] at small
    obtain ⟨inner, formed⟩ := sized.all.form items holds (by omega)
    have few : items.length < lengthLimit := by
      have least := (items.map size).length_le_sum_of_one_le fun n member => by
        obtain ⟨item, -, rfl⟩ := List.mem_map.mp member
        exact positive item
      rw [List.length_map] at least
      omega
    exact ⟨_, by rw [Wire.run, length_of_lt few, formed]; rfl⟩

end Sizes

theorem sized_scalar (kind : ScalarKind) :
    Sized (fun item => (kind.encode item).toOption) kind.Narrow fun _ => kind.width where
  length item run h :=
    have encoded := Act.settled_of_toOption h
    ⟨ScalarKind.exists_encode_iff.mp ⟨run, encoded⟩, ScalarKind.length_of_encode encoded⟩
  form item narrow _ := by
    obtain ⟨run, encoded⟩ := ScalarKind.exists_encode_iff.mpr narrow
    exact ⟨run, by rw [encoded]; rfl⟩

theorem sized_string :
    Sized (fun s => (string s).toOption) (fun _ => True) fun s => 4 + Utf8.width s where
  length s run h := ⟨trivial, (length_of_string (Act.settled_of_toOption h)).2⟩
  form s _ small := ⟨_, by rw [string_of_lt (by omega)]; rfl⟩

end Wire

namespace FieldData

/-- All characters among the data are such as two bytes can say. -/
def Narrow : FieldData → Prop
  | scalar kind item => kind.Narrow item
  | array kind items => ∀ run ∈ items, ∀ item ∈ run, kind.Narrow item
  | text _ | textArray _ => True

instance decidableNarrow : (data : FieldData) → Decidable data.Narrow
  | scalar kind item => inferInstanceAs (Decidable (kind.Narrow item))
  | array kind items =>
    inferInstanceAs (Decidable (∀ run ∈ items, ∀ item ∈ run, kind.Narrow item))
  | text _ | textArray _ => .isTrue trivial

/-- The bytes that the data take. -/
def size : FieldData → Nat
  | scalar kind _ => kind.width
  | text s => Wire.optionalSize (fun s => 4 + Utf8.width s) s
  | array kind items => Wire.optionalSize (Wire.runSize fun _ => kind.width) items
  | textArray items => Wire.optionalSize (Wire.runSize fun s => 4 + Utf8.width s) items

theorem sized_form : Wire.Sized form Narrow size where
  length data run h := by
    cases data with
    | scalar kind item => exact (Wire.sized_scalar kind).length item run h
    | text s => exact ⟨trivial, (Wire.sized_string.optional.length s run h).2⟩
    | array kind items =>
      exact ((Wire.sized_scalar kind).run fun _ => kind.width_pos).optional.length items run h
    | textArray items =>
      have sized := Wire.sized_string.run fun _ => Nat.lt_add_right _ (by decide)
      exact ⟨trivial, (sized.optional.length items run h).2⟩
  form data narrow small := by
    cases data with
    | scalar kind item => exact (Wire.sized_scalar kind).form item narrow small
    | text s => exact Wire.sized_string.optional.form s (fun _ _ => trivial) small
    | array kind items =>
      exact ((Wire.sized_scalar kind).run fun _ => kind.width_pos).optional.form items narrow small
    | textArray items =>
      have sized := Wire.sized_string.run fun _ => Nat.lt_add_right _ (by decide)
      exact sized.optional.form items (fun _ _ _ _ => trivial) small

end FieldData

end ObjectWire
