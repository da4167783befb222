import ObjectWire.Proofs.ClassDefinition.LayoutRoundTrip
import ObjectWire.Proofs.Portable.Registering
import ObjectWire.Proofs.Portable.Respects
import ObjectWire.Proofs.Zlib.Lossless

/-!
# Compressed forms at hand

Where definitions are only registered and objects described and framed, the compressed form of every
registered definition is at hand, unless the definition has no layout.  Whatever compressed form is
at hand for a definition is the compressed form of its layout, and stands for the definition.
-/

namespace ObjectWire

namespace ClassDefinition

variable {definition : ClassDefinition} {form : Bytes}

theorem compressedLayout_of_same {other : ClassDefinition} (same : definition.same other = true) :
    definition.compressedLayout = other.compressedLayout := by
  rw [compressedLayout, compressedLayout, layout_eq_of_same same]

theorem exists_compressedLayout_iff (definition : ClassDefinition) :
    (∃ form, definition.compressedLayout = .ok form) ↔ definition.Fits := by
  rw [← exists_layout_iff, compressedLayout]
  constructor
  · rintro ⟨form, written⟩
    obtain ⟨layout, written, -⟩ := Act.settled_map_ok written
    exact ⟨layout, written⟩
  · rintro ⟨layout, written⟩
    exact ⟨Zlib.compress layout, by rw [written]; rfl⟩

/-- A compressed layout stands for the definition, up to labels. -/
theorem ofCompressed_compressedLayout (wellFormed : definition.WellFormed)
    (shallow : definition.depth ≤ Failure.maxDefinitionLevels)
    (h : definition.compressedLayout = .ok form) : ofCompressed form = .ok definition.bare := by
  obtain ⟨layout, written, rfl⟩ := Act.settled_map_ok h
  have taken : Input.Takes Input.layout layout definition.bare :=
    Input.takes_layoutWithin wellFormed (Nat.lt_succ_of_le shallow) written
  have read := taken [] 0
  rw [List.append_nil] at read
  rw [ofCompressed, Zlib.decompress?_compress]
  exact congrArg Prod.fst read

/-- A definition that nests too deep for reading cannot be had from its compressed layout. -/
theorem ofCompressed_too_deep (wellFormed : definition.WellFormed)
    (deep : Failure.maxDefinitionLevels < definition.depth)
    (h : definition.compressedLayout = .ok form) :
    ofCompressed form = .error .definitionTooDeep := by
  obtain ⟨layout, written, rfl⟩ := Act.settled_map_ok h
  have failed : Input.Fails Input.layout layout .definitionTooDeep :=
    Input.fails_layoutWithin wellFormed (Nat.succ_le_of_lt deep) written
  have read := failed [] 0
  rw [List.append_nil] at read
  rw [ofCompressed, Zlib.decompress?_compress]
  exact read

end ClassDefinition

namespace PortableContext

variable {context now : PortableContext} {definition : ClassDefinition} {form : Bytes}

/-- The forms at hand are the compressed layouts of their definitions, and every registered
    definition is labelled and, if it has a layout, has its form at hand. -/
structure Stocked (context : PortableContext) : Prop where
  genuine : ∀ entry ∈ context.forms.known, entry.1.compressedLayout = .ok entry.2
  labelled : ∀ key definition, context.lookup key = some definition → definition.label.isSome
  atHand : ∀ key definition, context.lookup key = some definition →
    ∀ layout, definition.layout = .ok layout → ∃ form, context.forms.formOf definition = some form

theorem Stocked.compressedLayout (stocked : context.Stocked)
    (found : context.forms.formOf definition = some form) :
    definition.compressedLayout = .ok form := by
  obtain ⟨entry, known, rfl⟩ := Option.map_eq_some_iff.mp found
  have copy := List.find?_some known
  simp only [ClassDefinition.isCopyOf, Bool.and_eq_true] at copy
  rw [ClassDefinition.compressedLayout_of_same copy.2]
  exact stocked.genuine entry (List.mem_of_find?_eq_some known)

/-- Of a registered definition the compressed layout is at hand. -/
theorem Stocked.formOf {key : ClassKey} (stocked : context.Stocked)
    (registered : context.lookup key = some definition)
    (h : definition.compressedLayout = .ok form) : context.forms.formOf definition = some form := by
  obtain ⟨layout, written, -⟩ := Act.settled_map_ok h
  obtain ⟨other, found⟩ := stocked.atHand key definition registered layout written
  have same := stocked.compressedLayout found
  rw [h] at same
  cases same
  exact found

theorem Stocked.binaryOf_ok (stocked : context.Stocked)
    (h : binaryOf definition context = (.ok form, now)) :
    definition.compressedLayout = .ok form := by
  have formed : context.formFor definition = .ok form := by
    rw [← binaryOf_eq_formFor, h]
  unfold formFor at formed
  cases found : context.forms.formOf definition with
  | some known =>
    rw [found] at formed
    cases formed
    exact stocked.compressedLayout found
  | none =>
    rw [found] at formed
    exact formed

theorem formOf_keep {other : ClassDefinition} {kept : Bytes} {forms : CompressedForms}
    (found : forms.formOf definition = some form) :
    (forms.keep other kept).formOf definition = some form := by
  obtain ⟨entry, known, rfl⟩ := Option.map_eq_some_iff.mp found
  unfold CompressedForms.keep
  split
  case isTrue =>
    rw [CompressedForms.formOf, List.find?_append, known]
    rfl
  case isFalse => exact found

theorem formOf_keep_self (forms : CompressedForms) (labelled : definition.label.isSome) :
    ∃ kept, (forms.keep definition form).formOf definition = some kept := by
  have copy : definition.isCopyOf definition = true := by
    rw [ClassDefinition.isCopyOf, labelled, ClassDefinition.same_refl]
    simp
  rw [CompressedForms.keep, if_pos labelled, CompressedForms.formOf, List.find?_append]
  cases forms.known.find? fun entry => definition.isCopyOf entry.1 with
  | some entry => exact ⟨_, rfl⟩
  | none => exact ⟨form, by simp [copy]⟩

theorem mem_keep {other : ClassDefinition} {kept : Bytes} {forms : CompressedForms}
    {entry : ClassDefinition × Bytes} (member : entry ∈ (forms.keep other kept).known) :
    entry ∈ forms.known ∨ entry = (other, kept) := by
  unfold CompressedForms.keep at member
  split at member
  case isTrue => simpa using member
  case isFalse => exact .inl member

/-- Making the compressed form of a definition completes a stock that lacks at most this form. -/
theorem stocked_binaryOf
    (genuine : ∀ entry ∈ context.forms.known, entry.1.compressedLayout = .ok entry.2)
    (labelled : ∀ key known, context.lookup key = some known → known.label.isSome)
    (others : ∀ key known, context.lookup key = some known → known ≠ definition →
      ∀ layout, known.layout = .ok layout → ∃ form, context.forms.formOf known = some form) :
    (binaryOf definition context).2.Stocked := by
  rcases binaryOf_cases definition context with
    ⟨form, found, ran⟩ | ⟨failure, buffer, -, unwritten, ran⟩ | ⟨made, buffer, -, written, ran⟩
  · rw [ran]
    refine ⟨genuine, labelled, fun key known registered layout written => ?_⟩
    by_cases same : known = definition
    · exact ⟨form, same ▸ found⟩
    · exact others key known registered same layout written
  · rw [ran]
    refine ⟨genuine, labelled, fun key known registered layout has => ?_⟩
    refine others key known registered ?_ layout has
    rintro rfl
    rw [unwritten] at has
    cases has
  · rw [ran]
    refine ⟨fun entry member => ?_, labelled, fun key known registered layout has => ?_⟩
    · rcases mem_keep member with old | rfl
      · exact genuine entry old
      · rw [ClassDefinition.compressedLayout, written]
        rfl
    · by_cases same : known = definition
      · subst same
        exact formOf_keep_self context.forms (labelled key known registered)
      · obtain ⟨form, at_hand⟩ := others key known registered same layout has
        exact ⟨form, formOf_keep at_hand⟩

/-- A stock of forms stays one. -/
def Stocks (context now : PortableContext) : Prop := context.Stocked → now.Stocked

instance : Std.Refl Stocks := ⟨fun _ => id⟩

instance : Trans Stocks Stocks Stocks := ⟨fun first second => second ∘ first⟩

theorem stocks_binaryOf (definition : ClassDefinition) : (binaryOf definition).Within Stocks :=
  fun _ stocked => stocked_binaryOf stocked.genuine stocked.labelled fun key known registered _ =>
    stocked.atHand key known registered

/-- Settling a definition leaves its form to be made, and making it is the next step. -/
theorem stocks_enter (definition : ClassDefinition) :
    (enter definition.key definition).Within Stocks := by
  intro context stocked
  unfold enter
  cases found : context.lookup definition.key with
  | some known =>
    rw [Act.bind_of_ok (settle_of_known found), Act.state_bind_pure]
    exact stocks_binaryOf known context stocked
  | none =>
    rw [Act.bind_of_ok (settle_of_new found), Act.state_bind_pure]
    refine stocked_binaryOf stocked.genuine (fun other known registered => ?_)
      (fun other known registered new layout written => ?_)
    · rcases lookup_insert_cases registered with old | ⟨-, rfl⟩
      · exact stocked.labelled other known old
      · exact ClassDefinition.label_labelled definition _
    · rcases lookup_insert_cases registered with old | ⟨-, same⟩
      · exact stocked.atHand other known old layout written
      · exact absurd same new

theorem stocks_register (definition : ClassDefinition) : (register definition).Within Stocks :=
  within_register stocks_enter definition

theorem respects_stocks : Respects Stocks where
  describe := within_describe stocks_register
  borrow _ stocked := ⟨stocked.genuine, stocked.labelled, stocked.atHand⟩
  giveBack _ _ stocked := ⟨stocked.genuine, stocked.labelled, stocked.atHand⟩

end PortableContext

end ObjectWire
