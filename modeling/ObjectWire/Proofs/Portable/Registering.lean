import ObjectWire.Proofs.Portable.Context

/-!
# Registering, definition by definition

To register a definition is to enter it, which settles what stands under its key and makes the
compressed form of that, and then to register whatever is nested in what was settled.  So a relation
that the context stays within when a definition is entered relates the contexts before and after a
registration, whatever its outcome.  An import is a registration, for which what arrived is labelled
and its form is kept, or it is the registrations of what is nested in a known definition.

In the same way a property that definitions share with all that is nested in them, and that does not
depend on labels, stays with everything that is registered.
-/

namespace ObjectWire.PortableContext

variable {context now : PortableContext} {key : ClassKey} {definition : ClassDefinition}

/-- Settles what stands under a key, and makes the compressed form of that. -/
def enter (key : ClassKey) (definition : ClassDefinition) :
    Act PortableContext ClassDefinition := do
  let settled ← settle key definition
  let _ ← binaryOf settled
  pure settled

theorem registerWithin_succ (levels : Nat) (key : ClassKey) (definition : ClassDefinition) :
    registerWithin (levels + 1) key definition = (do
      let settled ← enter key definition
      Act.forEach (fun nested => do
        let _ ← registerWithin levels nested.key nested) settled.nested
      pure settled) := by
  simp only [registerWithin, enter, bind_assoc, pure_bind]

section Within

variable {related : PortableContext → PortableContext → Prop} [Std.Refl related]
  [Trans related related related]

theorem within_enter (settles : (settle key definition).Within related)
    (makes : ∀ settled, (binaryOf settled).Within related) :
    (enter key definition).Within related :=
  settles.bind fun settled => (makes settled).bind fun _ => Act.within_pure settled

/-- Nested definitions are entered under their own keys; only the outermost one may be entered under
    another. -/
theorem within_registerWithin
    (enters : ∀ inner : ClassDefinition, (enter inner.key inner).Within related)
    (outermost : (enter key definition).Within related) (levels : Nat) :
    (registerWithin levels key definition).Within related := by
  induction levels generalizing key definition with
  | zero => exact Act.within_fail _
  | succ levels ih =>
    rw [registerWithin_succ]
    apply outermost.bind
    intro settled
    refine (Act.within_forEach fun inner _ => ?_).bind fun _ => Act.within_pure settled
    exact (ih (enters inner)).bind fun _ => Act.within_pure ()

theorem within_registerUnder
    (enters : ∀ inner : ClassDefinition, (enter inner.key inner).Within related)
    (outermost : (enter key definition).Within related) :
    (registerUnder key definition).Within related :=
  Act.within_get.bind fun _ => within_registerWithin enters outermost _

theorem within_register
    (enters : ∀ inner : ClassDefinition, (enter inner.key inner).Within related)
    (definition : ClassDefinition) : (register definition).Within related :=
  within_registerUnder enters (enters definition)

theorem within_registerEach (registers : ∀ definition, (register definition).Within related)
    (items : List ClassDefinition) : (registerEach items).Within related :=
  Act.within_forEach fun item _ => (registers item).bind fun _ => Act.within_pure ()

theorem within_importCompressed {compressed : Bytes}
    (registers : ∀ definition, (register definition).Within related)
    (takes : ∀ (context : PortableContext) (arrived : ClassDefinition),
      ClassDefinition.ofCompressed compressed = .ok arrived →
        related context (keepForm (context.forms.label arrived).1 compressed
          { context with forms := (context.forms.label arrived).2 })) :
    (importCompressed compressed).Within related := by
  intro context
  cases come : ClassDefinition.ofCompressed compressed with
  | error failure =>
    rw [importCompressed_of_unreadable come]
    exact Std.Refl.refl context
  | ok arrived =>
    cases found : context.lookup arrived.key with
    | some known =>
      rw [importCompressed_of_known come found]
      have visits := (within_registerEach registers known.nested).bind fun _ =>
        Act.within_pure known
      exact visits context
    | none =>
      rw [importCompressed_of_new come found]
      exact Trans.trans (takes context arrived come) (registers _ _)

end Within

/-! Properties of all that is registered. -/

/-- All that is registered has the property. -/
def Everywhere (property : ClassDefinition → Prop) (context : PortableContext) : Prop :=
  ∀ key known, context.lookup key = some known → property known

/-- Definitions that say the same both have the property or not, and what is nested in a definition
    has it with the definition. -/
structure Hereditary (property : ClassDefinition → Prop) : Prop where
  of_same : ∀ {definition other : ClassDefinition}, other.same definition = true →
    property definition → property other
  nested : ∀ {definition inner : ClassDefinition}, inner ∈ definition.nested →
    property definition → property inner

variable {property : ClassDefinition → Prop}

theorem Everywhere.of_definitions (everywhere : context.Everywhere property)
    (same : now.definitions = context.definitions) : now.Everywhere property := by
  intro key known found
  rw [lookup_of_definitions same] at found
  exact everywhere key known found

theorem Everywhere.insert (everywhere : context.Everywhere property) (holds : property definition)
    (key : ClassKey) : (context.insert key definition).Everywhere property := by
  intro other known registered
  rcases lookup_insert_cases registered with before | ⟨-, rfl⟩
  · exact everywhere other known before
  · exact holds

namespace Hereditary

variable (hereditary : Hereditary property)
include hereditary

theorem settle (everywhere : context.Everywhere property) (holds : property definition)
    (key : ClassKey) :
    Act.Ends (settle key definition) context
      (fun settled now => now.Everywhere property ∧ property settled)
      fun _ => Everywhere property := by
  cases found : context.lookup key with
  | some known =>
    exact Act.ends_of_ok (settle_of_known found) ⟨everywhere, everywhere key known found⟩
  | none =>
    have labelled := hereditary.of_same (label_same context.forms definition) holds
    have named : Everywhere property { context with forms := (context.forms.label definition).2 } :=
      everywhere.of_definitions rfl
    exact Act.ends_of_ok (settle_of_new found) ⟨named.insert labelled key, labelled⟩

theorem enter (everywhere : context.Everywhere property) (holds : property definition)
    (key : ClassKey) :
    Act.Ends (enter key definition) context
      (fun settled now => now.Everywhere property ∧ property settled)
      fun _ => Everywhere property := by
  apply (hereditary.settle everywhere holds key).bind
  rintro settled filed ⟨filedEverywhere, settledHolds⟩
  have still := filedEverywhere.of_definitions (definitions_binaryOf settled filed)
  rcases ran : binaryOf settled filed with ⟨failure | form, next⟩
  · rw [ran] at still
    exact Act.ends_of_error (Act.bind_of_error ran) still
  · rw [ran] at still
    exact Act.ends_of_ok (Act.bind_of_ok ran) ⟨still, settledHolds⟩

/-- Whatever becomes of its registration, a definition with the property and all that is nested in
    it bring in nothing without the property. -/
theorem registerWithin (everywhere : context.Everywhere property) (holds : property definition)
    (levels : Nat) (key : ClassKey) :
    Act.Ends (registerWithin levels key definition) context
      (fun settled now => now.Everywhere property ∧ property settled)
      fun _ => Everywhere property := by
  induction levels generalizing context definition key with
  | zero => exact Act.ends_of_error rfl everywhere
  | succ levels ih =>
    rw [registerWithin_succ]
    apply (hereditary.enter everywhere holds key).bind
    rintro settled filed ⟨filedEverywhere, settledHolds⟩
    have inside : Act.Ends (Act.forEach (fun inner => do
        let _ ← PortableContext.registerWithin levels inner.key inner) settled.nested) filed
        (fun _ => Everywhere property) fun _ => Everywhere property := by
      apply Act.ends_forEach_kept filedEverywhere
      intro inner member state stateEverywhere
      apply (ih stateEverywhere (hereditary.nested member settledHolds) inner.key).bind
      rintro - last ⟨lastEverywhere, -⟩
      exact Act.ends_of_ok rfl lastEverywhere
    apply inside.bind
    intro _ last lastEverywhere
    exact Act.ends_of_ok rfl ⟨lastEverywhere, settledHolds⟩

end Hereditary

end ObjectWire.PortableContext
