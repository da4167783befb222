import ObjectWire.Proofs.ClassDefinition.Coherent
import ObjectWire.Proofs.Portable.Context

/-!
# Contexts without contradictions

In a self-contained context whatever is nested in a registered definition is registered as it is
nested there.  No two registered definitions then disagree about a class at a version, and each of
them is coherent.  Registering a definition whose nested definitions are registered keeps a context
self-contained.
-/

namespace ObjectWire

namespace PortableContext

variable {context now : PortableContext} {definition other inner : ClassDefinition}

/-- The definition is registered for its class and version, or one that says the same. -/
def Has (context : PortableContext) (definition : ClassDefinition) : Prop :=
  ∃ known, context.lookup definition.key = some known ∧ known.same definition = true

/-- Whatever is nested in a registered definition is registered as it is nested there. -/
def SelfContained (context : PortableContext) : Prop :=
  ∀ key definition, context.lookup key = some definition →
    ∀ inner ∈ definition.nested, context.Has inner

theorem has_of_lookup (sound : context.Sound) {key : ClassKey}
    (found : context.lookup key = some definition) : context.Has definition := by
  refine ⟨definition, ?_, ClassDefinition.same_refl definition⟩
  rw [sound.filed key definition found]
  exact found

theorem Has.of_evolves (has : context.Has definition) (evolved : context.Evolves now) :
    now.Has definition := by
  obtain ⟨known, found, same⟩ := has
  exact ⟨known, evolved.lookup found, same⟩

theorem Has.of_same (has : context.Has definition) (same : definition.same other = true) :
    context.Has other := by
  obtain ⟨known, found, equal⟩ := has
  refine ⟨known, ?_, ClassDefinition.same_trans equal same⟩
  rw [← ClassDefinition.key_eq_of_same same]
  exact found

theorem Has.nested (has : context.Has definition) (selfContained : context.SelfContained)
    (member : inner ∈ definition.nested) : context.Has inner := by
  obtain ⟨known, found, same⟩ := has
  obtain ⟨held, among, equal⟩ :=
    ClassDefinition.mem_nested_of_same (ClassDefinition.same_symm same) member
  exact (selfContained _ known found held among).of_same equal

theorem Has.partOf (has : context.Has definition) (selfContained : context.SelfContained)
    {part : ClassDefinition} (within : part.PartOf definition) : context.Has part := by
  induction within with
  | whole definition => exact has
  | inside member _ ih => exact ih (has.nested selfContained member)

/-- What a self-contained context has of a class at a version is all that its definitions say. -/
theorem Has.coherent (has : context.Has definition) (selfContained : context.SelfContained) :
    definition.Coherent := by
  intro one another within inside key
  obtain ⟨known, found, same⟩ := has.partOf selfContained within
  obtain ⟨held, registered, equal⟩ := has.partOf selfContained inside
  rw [key, registered] at found
  cases found
  exact ClassDefinition.same_trans (ClassDefinition.same_symm same) equal

/-! Registering keeps a context self-contained. -/

theorem SelfContained.of_definitions (selfContained : context.SelfContained)
    (same : now.definitions = context.definitions) : now.SelfContained := by
  intro key definition found inner member
  rw [lookup_of_definitions same] at found
  obtain ⟨known, held, equal⟩ := selfContained key definition found inner member
  exact ⟨known, (lookup_of_definitions same inner.key).trans held, equal⟩

theorem SelfContained.insert (selfContained : context.SelfContained)
    (nested : ∀ inner ∈ definition.nested, context.Has inner) (key : ClassKey) :
    (context.insert key definition).SelfContained := by
  have grown : ∀ inner : ClassDefinition, context.Has inner →
      (context.insert key definition).Has inner := by
    rintro inner ⟨known, found, same⟩
    exact ⟨known, Keyed.lookup_append_of_some found, same⟩
  intro other known found inner member
  rcases lookup_insert_cases found with old | ⟨-, rfl⟩
  · exact grown inner (selfContained other known old inner member)
  · exact grown inner (nested inner member)

/-- The context evolves, and stays self-contained if it was. -/
def Fills (context now : PortableContext) : Prop :=
  context.Evolves now ∧ (context.SelfContained → now.SelfContained)

instance : Std.Refl Fills := ⟨fun _ => ⟨.refl, id⟩⟩

instance : Trans Fills Fills Fills :=
  ⟨fun first second => ⟨first.1.trans second.1, second.2 ∘ first.2⟩⟩

theorem fills_binaryOf (definition : ClassDefinition) : (binaryOf definition).Within Fills :=
  fun context => ⟨evolves_binaryOf definition context,
    fun selfContained => selfContained.of_definitions (definitions_binaryOf definition context)⟩

theorem fills_settle (wellFormed : definition.WellFormed)
    (nested : context.SelfContained → ∀ inner ∈ definition.nested, context.Has inner) :
    Act.Meets Fills (settle definition.key definition) context fun settled now =>
      now.lookup definition.key = some settled := by
  obtain ⟨evolved, answers⟩ := @meets_settle context definition wellFormed
  refine ⟨⟨evolved, fun selfContained => ?_⟩, fun settled now ran => (answers settled now ran).1⟩
  cases found : context.lookup definition.key with
  | some known =>
    rw [settle_of_known found]
    exact selfContained
  | none =>
    have same := label_same context.forms definition
    have labelled : ∀ inner ∈ (context.forms.label definition).1.nested, context.Has inner := by
      intro inner member
      obtain ⟨held, among, equal⟩ :=
        ClassDefinition.mem_nested_of_same same member
      exact (nested selfContained held among).of_same equal
    rw [settle_of_new found]
    exact SelfContained.insert (selfContained.of_definitions rfl) labelled definition.key

theorem fills_registerWithin (levels : Nat) (sound : context.Sound)
    (wellFormed : definition.WellFormed)
    (nested : context.SelfContained → ∀ inner ∈ definition.nested, context.Has inner) :
    Act.Meets Fills (registerWithin levels definition.key definition) context
      fun settled now => now.lookup definition.key = some settled := by
  induction levels generalizing context definition with
  | zero => exact Act.meets_fail
  | succ levels ih =>
    apply (fills_settle wellFormed nested).bind
    intro settled now evolved found
    have nowSound := evolved.1.sound sound
    have settledWellFormed := nowSound.wellFormed _ _ found
    have made : Act.Meets Fills (binaryOf settled) now fun _ next => now.Evolves next := by
      refine ⟨fills_binaryOf settled now, fun form next ran => ?_⟩
      have grown := evolves_binaryOf settled now
      rwa [ran] at grown
    apply made.bind
    intro _ next _ grown
    have inside : Act.Meets Fills (Act.forEach (fun inner => do
        let _ ← registerWithin levels inner.key inner) settled.nested) next
        fun _ state => state.Sound ∧ state.lookup definition.key = some settled := by
      refine Act.meets_forEach ⟨grown.sound nowSound, grown.lookup found⟩ ?_
      rintro inner member state ⟨sound, registered⟩
      have held : state.SelfContained → ∀ deeper ∈ inner.nested, state.Has deeper := by
        intro selfContained deeper among
        exact (selfContained _ settled registered inner member).nested selfContained among
      apply (ih sound (settledWellFormed.nested inner member) held).bind
      intro _ reached further _
      exact Act.meets_pure ⟨further.1.sound sound, further.1.lookup registered⟩
    exact inside.bind fun _ _ _ ⟨_, registered⟩ => Act.meets_pure registered

theorem fills_register (sound : context.Sound) (wellFormed : definition.WellFormed)
    (nested : context.SelfContained → ∀ inner ∈ definition.nested, context.Has inner) :
    Act.Meets Fills (register definition) context fun settled now =>
      now.lookup definition.key = some settled :=
  fills_registerWithin _ sound wellFormed nested

/-- Registering what is nested in a registered definition keeps a context self-contained as well. -/
theorem fills_registerEach {key : ClassKey} (sound : context.Sound)
    (registered : context.lookup key = some definition) :
    Act.Meets Fills (registerEach definition.nested) context
      fun _ now => now.Sound ∧ now.lookup key = some definition := by
  refine Act.meets_forEach ⟨sound, registered⟩ ?_
  rintro inner member state ⟨sound, registered⟩
  have wellFormed := (sound.wellFormed key definition registered).nested inner member
  have held : state.SelfContained → ∀ deeper ∈ inner.nested, state.Has deeper := by
    intro selfContained deeper among
    exact (selfContained key definition registered inner member).nested selfContained among
  apply (fills_register sound wellFormed held).bind
  intro _ reached further _
  exact Act.meets_pure ⟨further.1.sound sound, further.1.lookup registered⟩

end PortableContext

end ObjectWire
