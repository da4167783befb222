import ObjectWire.Proofs.Portable.Compressed
import ObjectWire.Proofs.Portable.Registering

/-!
# Contexts are kept tidy

Whatever compressed form is at hand for a definition stands for that definition, and the buffers in
the pool are empty.  This stays so whatever is registered, by hand or because it arrived, and
whatever is described and framed.  Unlike soundness it does not ask where definitions come from.
-/

namespace ObjectWire

/-- Every compressed form that was made or received is one of its definition. -/
def CompressedForms.Genuine (forms : CompressedForms) : Prop :=
  ∀ entry ∈ forms.known, PortableContext.IsForm entry.2 entry.1

namespace PortableContext

variable {context : PortableContext} {definition : ClassDefinition} {form : Bytes}

/-- The compressed forms are genuine and the idle buffers are empty. -/
structure Tidy (context : PortableContext) : Prop where
  genuine : context.forms.Genuine
  clean : context.pool.Clean

theorem tidy_start (version : Int32) {pool : Pool} (clean : pool.Clean) :
    (start version pool).Tidy :=
  ⟨nofun, clean⟩

theorem IsForm.of_same {other : ClassDefinition} (isForm : IsForm form definition)
    (same : definition.same other = true) : IsForm form other := by
  rcases isForm with ⟨layout, written, packed⟩ | ⟨arrived, come, equal⟩
  · exact .inl ⟨layout, by rw [← ClassDefinition.layout_eq_of_same same, written], packed⟩
  · exact .inr ⟨arrived, come, ClassDefinition.same_trans equal same⟩

/-- What is found for a definition is a compressed form of it. -/
theorem isForm_of_formOf {forms : CompressedForms} (genuine : forms.Genuine)
    (found : forms.formOf definition = some form) : IsForm form definition := by
  obtain ⟨entry, known, rfl⟩ := Option.map_eq_some_iff.mp found
  have copy := List.find?_some known
  simp only [ClassDefinition.isCopyOf, Bool.and_eq_true] at copy
  have same := ClassDefinition.same_symm copy.2
  exact (genuine entry (List.mem_of_find?_eq_some known)).of_same same

theorem Tidy.keep (tidy : context.Tidy) (isForm : IsForm form definition) :
    (context.keepForm definition form).Tidy := by
  refine ⟨fun entry member => ?_, tidy.clean⟩
  rcases mem_keep member with old | rfl
  · exact tidy.genuine entry old
  · exact isForm

theorem tidies_borrow (context : PortableContext) :
    Act.Preserves Tidy context { context with pool := context.pool.acquire.2 } :=
  fun tidy => ⟨tidy.genuine, tidy.clean.acquire⟩

theorem tidies_giveBack (context : PortableContext) (buffer : Output) :
    Act.Preserves Tidy context { context with pool := context.pool.release buffer } :=
  fun tidy => ⟨tidy.genuine, tidy.clean.release buffer⟩

theorem tidies_binaryOf (definition : ClassDefinition) :
    (binaryOf definition).Within (Act.Preserves Tidy) := by
  intro context tidy
  have lent := tidies_borrow context tidy
  rcases binaryOf_cases definition context with
    ⟨form, -, ran⟩ | ⟨failure, buffer, -, -, ran⟩ | ⟨layout, buffer, -, written, ran⟩
  · rw [ran]
    exact tidy
  · rw [ran]
    exact tidies_giveBack _ buffer lent
  · rw [ran]
    exact tidies_giveBack _ buffer (lent.keep (.inl ⟨layout, written, rfl⟩))

theorem tidies_settle (key : ClassKey) (definition : ClassDefinition) :
    (settle key definition).Within (Act.Preserves Tidy) := by
  intro context tidy
  cases found : context.lookup key with
  | some known =>
    rw [settle_of_known found]
    exact tidy
  | none =>
    rw [settle_of_new found]
    exact ⟨tidy.genuine, tidy.clean⟩

theorem tidies_enter (key : ClassKey) (definition : ClassDefinition) :
    (enter key definition).Within (Act.Preserves Tidy) :=
  within_enter (tidies_settle key definition) tidies_binaryOf

theorem tidies_registerWithin (levels : Nat) (key : ClassKey) (definition : ClassDefinition) :
    (registerWithin levels key definition).Within (Act.Preserves Tidy) :=
  within_registerWithin (fun inner => tidies_enter inner.key inner) (tidies_enter key definition)
    levels

theorem tidies_registerUnder (key : ClassKey) (definition : ClassDefinition) :
    (registerUnder key definition).Within (Act.Preserves Tidy) :=
  within_registerUnder (fun inner => tidies_enter inner.key inner) (tidies_enter key definition)

theorem tidies_register (definition : ClassDefinition) :
    (register definition).Within (Act.Preserves Tidy) :=
  tidies_registerUnder definition.key definition

theorem tidies_importCompressed (compressed : Bytes) :
    (importCompressed compressed).Within (Act.Preserves Tidy) := by
  apply within_importCompressed tidies_register
  intro context arrived come tidy
  -- the form that arrived is kept for the definition with its labels
  have isForm : IsForm compressed (context.forms.label arrived).1 :=
    .inr ⟨arrived, come, ClassDefinition.same_symm (label_same context.forms arrived)⟩
  have named : Tidy { context with forms := (context.forms.label arrived).2 } :=
    ⟨tidy.genuine, tidy.clean⟩
  exact named.keep isForm

theorem respects_tidy : Respects (Act.Preserves Tidy) where
  describe := within_describe tidies_register
  borrow := tidies_borrow
  giveBack := tidies_giveBack

theorem formOf_keep_of_none {other : ClassDefinition} {forms : CompressedForms}
    (absent : forms.formOf other = none) :
    (forms.keep definition form).formOf other =
      if other.isCopyOf definition then some form else none := by
  have unknown : forms.known.find? (fun entry => other.isCopyOf entry.1) = none :=
    Option.map_eq_none_iff.mp absent
  unfold CompressedForms.keep
  by_cases labelled : definition.label.isSome = true
  · -- the form that is kept stands behind all others
    rw [if_pos labelled, CompressedForms.formOf, List.find?_append, unknown]
    by_cases copy : other.isCopyOf definition = true <;> simp [copy]
  · have unlike : other.isCopyOf definition = false := by
      have none : definition.label = none := by simpa using labelled
      rw [ClassDefinition.isCopyOf, none]
      cases other.label <;> simp
    rw [if_neg labelled, absent, unlike]
    rfl

/-- Keeping the form of a layout changes no form that a definition goes by. -/
theorem formFor_keepForm (made : definition.compressedLayout = .ok form) (context : PortableContext)
    (other : ClassDefinition) :
    (context.keepForm definition form).formFor other = context.formFor other := by
  unfold formFor
  cases found : context.forms.formOf other with
  | some known =>
    have kept : (context.keepForm definition form).forms.formOf other = some known :=
      formOf_keep found
    rw [kept]
  | none =>
    have kept : (context.keepForm definition form).forms.formOf other =
        if other.isCopyOf definition then some form else none := formOf_keep_of_none found
    rw [kept]
    by_cases copy : other.isCopyOf definition = true
    · have same : other.same definition = true := by
        simp only [ClassDefinition.isCopyOf, Bool.and_eq_true] at copy
        exact copy.2
      rw [if_pos copy, ClassDefinition.compressedLayout_of_same same, made]
    · rw [if_neg copy]

/-- Making a form changes no form that a definition goes by. -/
theorem formFor_binaryOf (definition other : ClassDefinition) (context : PortableContext) :
    (binaryOf definition context).2.formFor other = context.formFor other := by
  rcases binaryOf_cases definition context with
    ⟨form, -, ran⟩ | ⟨failure, buffer, -, -, ran⟩ | ⟨layout, buffer, -, written, ran⟩
  · rw [ran]
  · rw [ran]
    rfl
  · have made : definition.compressedLayout = .ok (Zlib.compress layout) := by
      rw [ClassDefinition.compressedLayout, written]
      rfl
    rw [ran]
    exact formFor_keepForm made context other

theorem Tidy.isForm (tidy : context.Tidy) (formed : context.formFor definition = .ok form) :
    IsForm form definition := by
  unfold formFor at formed
  cases found : context.forms.formOf definition with
  | some known =>
    rw [found] at formed
    cases formed
    exact isForm_of_formOf tidy.genuine found
  | none =>
    rw [found] at formed
    obtain ⟨layout, written, packed⟩ := Act.settled_map_ok formed
    exact .inl ⟨layout, written, packed.symm⟩

/-- Whatever form a definition goes by, it is read as a definition that says the same. -/
theorem IsForm.arrives (isForm : IsForm form definition) (wellFormed : definition.WellFormed)
    (shallow : definition.depth ≤ Failure.maxDefinitionLevels) :
    ∃ arrived, ClassDefinition.ofCompressed form = .ok arrived ∧
      arrived.same definition = true := by
  rcases isForm with ⟨layout, written, rfl⟩ | arrives
  · have packed : definition.compressedLayout = .ok (Zlib.compress layout) := by
      rw [ClassDefinition.compressedLayout, written]
      rfl
    exact ⟨definition.bare, ClassDefinition.ofCompressed_compressedLayout wellFormed shallow packed,
      ClassDefinition.bare_same definition⟩
  · exact arrives

end PortableContext

end ObjectWire
