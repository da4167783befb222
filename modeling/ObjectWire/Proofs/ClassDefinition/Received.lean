import ObjectWire.Proofs.ClassDefinition.LayoutRoundTrip
import ObjectWire.Proofs.Wire.Progress

/-!
# Definitions that were read can be written

Counts and lengths are read as 32-bit words that must not be negative, so whatever is read behind
them is small enough to be written again.  A definition that comes out of a layout therefore has a
layout itself, and it nests no deeper than reading allows.
-/

namespace ObjectWire

namespace Input

variable {input rest : Input} {n : Nat}

/-- A 32-bit word that is not negative is small enough for a length. -/
theorem toNatClampNeg_lt (n : Int32) : n.toNatClampNeg < Wire.lengthLimit := by
  have := n.toInt_lt
  unfold Int32.toNatClampNeg Wire.lengthLimit
  omega

theorem lt_of_entries {refusal : Int32 → Failure} (h : entries refusal input = (.ok n, rest)) :
    n < Wire.lengthLimit := by
  obtain ⟨word, _, -, h⟩ := Act.bind_ok h
  by_cases negative : word < 0
  · rw [if_pos negative] at h
    cases h
  · rw [if_neg negative] at h
    cases h
    exact toNatClampNeg_lt word

/-- A length is a number of entries, refused with words of its own. -/
theorem lt_of_length {of : Counted} (h : length of input = (.ok n, rest)) :
    n < Wire.lengthLimit := by
  have counted : entries (.negativeLength of) input = (.ok n, rest) := h
  exact lt_of_entries counted

/-- A text that was read is small enough to be written. -/
theorem width_of_string {text : String} (h : string input = (.ok text, rest)) :
    Utf8.width text < Wire.lengthLimit := by
  obtain ⟨n, _, counted, h⟩ := Act.bind_ok h
  obtain ⟨run, _, read, h⟩ := Act.bind_ok h
  cases decoded : Utf8.decode run with
  | error fault =>
    simp only [decoded] at h
    cases h
  | ok found =>
    simp only [decoded] at h
    cases h
    have small := lt_of_length counted
    have wide := Utf8.width_of_decode decoded
    rw [(bytes_ok read).1] at wide
    omega

theorem width_of_field {f : Field} (h : field input = (.ok f, rest)) :
    Utf8.width f.name < Wire.lengthLimit := by
  obtain ⟨index, _, -, h⟩ := Act.bind_ok h
  obtain ⟨name, _, named, h⟩ := Act.bind_ok h
  obtain ⟨number, _, -, h⟩ := Act.bind_ok h
  cases known : FieldKind.ofNumber? number.toInt with
  | none =>
    simp only [known] at h
    cases h
  | some kind =>
    simp only [known] at h
    obtain ⟨nested, _, -, h⟩ := Act.bind_ok h
    cases h
    exact width_of_string named

/-- As many fields are read as are asked for, each with a name that can be written. -/
theorem names_of_fieldsInto {count : Nat} {draft next : Draft}
    (h : fieldsInto count draft input = (.ok next, rest))
    (names : ∀ field ∈ draft.fields, Utf8.width field.name < Wire.lengthLimit) :
    next.fields.length = draft.fields.length + count ∧ next.nested = draft.nested ∧
      ∀ field ∈ next.fields, Utf8.width field.name < Wire.lengthLimit := by
  induction count generalizing draft input with
  | zero =>
    cases h
    exact ⟨rfl, rfl, names⟩
  | succ count ih =>
    obtain ⟨f, _, read, h⟩ := Act.bind_ok h
    obtain ⟨middle, _, pushed, h⟩ := Act.bind_ok h
    obtain ⟨pushed, -⟩ := Act.lift_ok pushed
    obtain ⟨-, rfl⟩ := Draft.pushField_ok pushed
    have more : ∀ field ∈ draft.fields ++ [f], Utf8.width field.name < Wire.lengthLimit := by
      intro field member
      rcases List.mem_append.mp member with old | new
      · exact names field old
      · rw [List.mem_singleton.mp new]
        exact width_of_field read
    obtain ⟨length, nested, all⟩ := ih h more
    refine ⟨?_, nested, all⟩
    rw [length, List.length_append, List.length_singleton]
    omega

theorem length_pushNested_le (definition : ClassDefinition) (draft : Draft) :
    (draft.pushNested definition).nested.length ≤ draft.nested.length + 1 := by
  unfold Draft.pushNested
  split
  case isTrue => exact Nat.le_succ _
  case isFalse => simp

/-- At most as many nested definitions are kept as are asked for. -/
theorem length_of_nestedInto {step : Act Input ClassDefinition} {count : Nat} {draft next : Draft}
    (h : nestedInto step count draft input = (.ok next, rest)) :
    next.nested.length ≤ draft.nested.length + count ∧ next.fields = draft.fields := by
  induction count generalizing draft input with
  | zero =>
    cases h
    exact ⟨Nat.le_refl _, rfl⟩
  | succ count ih =>
    obtain ⟨definition, _, -, h⟩ := Act.bind_ok h
    obtain ⟨length, fields⟩ := ih h
    have pushed := length_pushNested_le definition draft
    exact ⟨by omega, fields.trans (Draft.pushNested_fields definition draft)⟩

/-- A definition that was read can be written. -/
theorem fits_of_layoutWithin {levels : Nat} {definition : ClassDefinition}
    (h : layoutWithin levels input = (.ok definition, rest)) : definition.Fits := by
  induction levels generalizing input rest definition with
  | zero => cases h
  | succ levels ih =>
    obtain ⟨_, -, -, inner⟩ := draft_of_layoutWithin (fun _ _ _ read => ih read) h
    obtain ⟨key, _, fieldCount, _, withFields, _, nestedCount, _, draft, -, fieldsCounted, fields,
      nestedCounted, nested, built⟩ := layoutWithin_ok h
    obtain ⟨-, rfl⟩ := Draft.build_ok built
    have fewFields := lt_of_entries fieldsCounted
    have fewNested := lt_of_entries nestedCounted
    obtain ⟨fieldsLength, none, names⟩ := names_of_fieldsInto fields nofun
    obtain ⟨nestedLength, kept⟩ := length_of_nestedInto nested
    rw [none] at nestedLength
    simp only [Draft.start, List.length_nil] at fieldsLength nestedLength
    refine .level ?_ ?_ ?_ inner
    · show draft.fields.length < _
      rw [kept]
      omega
    · show ∀ field ∈ draft.fields, _
      rw [kept]
      exact names
    · show draft.nested.length < _
      omega

/-- Reading bounds the nesting. -/
theorem depth_of_layoutWithin {levels : Nat} {definition : ClassDefinition}
    (h : layoutWithin levels input = (.ok definition, rest)) : definition.depth < levels := by
  induction levels generalizing input rest definition with
  | zero => cases h
  | succ levels ih =>
    obtain ⟨_, -, -, shallow⟩ := draft_of_layoutWithin (fun _ _ _ read => ih read) h
    rw [ClassDefinition.depth_def]
    exact Nat.lt_succ_of_le (ClassDefinition.depthOfAll_le shallow)

end Input

/-- What a compressed layout stands for has a layout. -/
theorem ClassDefinition.fits_of_ofCompressed {definition : ClassDefinition} {compressed : Bytes}
    (h : ofCompressed compressed = .ok definition) : definition.Fits := by
  obtain ⟨input, rest, read⟩ := exists_read h
  exact Input.fits_of_layoutWithin read

theorem ClassDefinition.depth_of_ofCompressed {definition : ClassDefinition} {compressed : Bytes}
    (h : ofCompressed compressed = .ok definition) :
    definition.depth ≤ Failure.maxDefinitionLevels := by
  obtain ⟨input, rest, read⟩ := exists_read h
  exact Nat.le_of_lt_succ (Input.depth_of_layoutWithin read)

end ObjectWire
