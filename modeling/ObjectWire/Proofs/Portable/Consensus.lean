import ObjectWire.Proofs.ClassDefinition.Received
import ObjectWire.Proofs.Portable.Compressed
import ObjectWire.Proofs.Portable.SelfContained

/-!
# Registering definitions that agree

Some definitions are in consensus if those of one class and version say the same and all that is
nested in them is among them.  A context admits them if it has nothing for their classes and
versions, or the same.  Registering one of them in such a context succeeds, answers with a
definition that says the same, and registers all that is inside it; the context gains definitions
that are among them and loses none, so it admits them still.  The same goes for importing one of
them from a compressed form, wherever the form comes from.
-/

namespace ObjectWire

/-- Among some definitions, with all that is nested in them, those of one class and version say the
    same, and all of them can be written. -/
structure Consensus (among : ClassDefinition → Prop) : Prop where
  nested : ∀ {definition inner : ClassDefinition}, among definition → inner ∈ definition.nested →
    among inner
  of_same : ∀ {definition other : ClassDefinition}, among definition →
    definition.same other = true → among other
  same_of_key : ∀ {definition other : ClassDefinition}, among definition → among other →
    definition.key = other.key → definition.same other = true
  fits : ∀ {definition : ClassDefinition}, among definition → definition.Fits

theorem ClassDefinition.Coherent.consensus {root : ClassDefinition} (coherent : root.Coherent)
    (fits : root.Fits) : Consensus (·.FoundIn root) where
  nested := FoundIn.of_nested
  of_same := by
    rintro definition other ⟨part, within, matched⟩ same
    exact ⟨part, within, same_trans (same_symm same) matched⟩
  same_of_key := coherent.same_of_key
  fits found := found.fits fits

namespace PortableContext

variable {among : ClassDefinition → Prop} {context now later : PortableContext}
  {definition other : ClassDefinition}

/-- For the class and version of any of the definitions nothing is registered, or the same. -/
def Admits (context : PortableContext) (among : ClassDefinition → Prop) : Prop :=
  ∀ key known, context.lookup key = some known → ∀ definition, among definition →
    definition.key = key → known.same definition = true

/-- What was registered still is, and what is new is one of the definitions under its own key. -/
structure Gains (among : ClassDefinition → Prop) (context now : PortableContext) : Prop where
  kept : ∀ key known, context.lookup key = some known → now.lookup key = some known
  gained : ∀ key known, now.lookup key = some known →
    context.lookup key = some known ∨ among known ∧ known.key = key

theorem Gains.refl (among : ClassDefinition → Prop) (context : PortableContext) :
    Gains among context context :=
  ⟨fun _ _ => id, fun _ _ => .inl⟩

theorem Gains.trans (first : Gains among context now) (second : Gains among now later) :
    Gains among context later := by
  refine ⟨fun key known found => ?_, fun key known found => ?_⟩
  · exact second.kept key known (first.kept key known found)
  · rcases second.gained key known found with before | new
    · exact first.gained key known before
    · exact .inr new

instance : Std.Refl (Gains among) := ⟨Gains.refl among⟩

instance : Trans (Gains among) (Gains among) (Gains among) := ⟨Gains.trans⟩

theorem gains_of_definitions (same : now.definitions = context.definitions) :
    Gains among context now := by
  have lookup := lookup_of_definitions same
  exact ⟨fun key known found => (lookup key).trans found,
    fun key known found => .inl ((lookup key).symm.trans found)⟩

theorem Gains.admits (gains : Gains among context now) (consensus : Consensus among)
    (admits : context.Admits among) : now.Admits among := by
  intro key known found definition member same
  rcases gains.gained key known found with before | ⟨new, filed⟩
  · exact admits key known before definition member same
  · exact consensus.same_of_key new member (filed.trans same.symm)

theorem Has.of_gains (has : context.Has definition) (gains : Gains among context now) :
    now.Has definition := by
  obtain ⟨known, found, same⟩ := has
  exact ⟨known, gains.kept _ known found, same⟩

/-- A definition that can be written has a compressed form at hand, or one is made. -/
theorem gives_binaryOf (fits : definition.Fits) (context : PortableContext) :
    Act.Gives (binaryOf definition) context fun _ now =>
      now.definitions = context.definitions := by
  have answers : ∃ form, context.formFor definition = .ok form := by
    unfold formFor
    cases context.forms.formOf definition with
    | some form => exact ⟨form, rfl⟩
    | none => exact (ClassDefinition.exists_compressedLayout_iff definition).mpr fits
  obtain ⟨form, answer⟩ := answers
  exact ⟨form, _, Prod.ext ((binaryOf_eq_formFor definition context).trans answer) rfl,
    definitions_binaryOf definition context⟩

/-- What is inside a definition is the definition itself, or is inside one that is nested in any
    definition that says the same. -/
theorem has_parts {settled : ClassDefinition} (has : context.Has definition)
    (same : settled.same definition = true)
    (parts : ∀ inner ∈ settled.nested, ∀ part : ClassDefinition, part.PartOf inner →
      context.Has part) :
    ∀ part : ClassDefinition, part.PartOf definition → context.Has part := by
  intro part within
  cases within with
  | whole => exact has
  | inside member within =>
    obtain ⟨inner, among, equal⟩ :=
      ClassDefinition.mem_nested_of_same (ClassDefinition.same_symm same) member
    obtain ⟨found, inside, matched⟩ :=
      ClassDefinition.partOf_of_same within (ClassDefinition.same_symm equal)
    exact (parts inner among found inside).of_same (ClassDefinition.same_symm matched)

theorem gives_settle (consensus : Consensus among) (admits : context.Admits among)
    (member : among definition) :
    Act.Gives (settle definition.key definition) context fun settled now =>
      Gains among context now ∧ settled.same definition = true ∧
        now.lookup definition.key = some settled := by
  cases registered : context.lookup definition.key with
  | some known =>
    exact ⟨known, context, settle_of_known registered, Gains.refl among context,
      admits _ known registered definition member rfl, registered⟩
  | none =>
    have same : (context.forms.label definition).1.same definition = true :=
      label_same context.forms definition
    have new := consensus.of_same member (ClassDefinition.same_symm same)
    have key := ClassDefinition.key_eq_of_same same
    refine ⟨_, _, settle_of_new registered,
      ⟨fun other known found => ?_, fun other known found => ?_⟩, same, lookup_insert registered⟩
    · exact Keyed.lookup_append_of_some found
    · rcases lookup_insert_cases found with old | ⟨rfl, rfl⟩
      · exact .inl old
      · exact .inr ⟨new, key⟩

/-- Where each of the nested definitions is registered with all that is inside it, so is everything
    inside the definition. -/
theorem gives_nested {enters : ClassDefinition → Act PortableContext ClassDefinition}
    (consensus : Consensus among) (admits : context.Admits among)
    (each : ∀ inner ∈ definition.nested, ∀ state : PortableContext, state.Admits among →
      Act.Gives (enters inner) state fun _ next => Gains among state next ∧
        ∀ part : ClassDefinition, part.PartOf inner → next.Has part) :
    Act.Gives (Act.forEach (fun nested => do let _ ← enters nested) definition.nested) context
      fun _ now => Gains among context now ∧
        ∀ inner ∈ definition.nested, ∀ part : ClassDefinition, part.PartOf inner →
          now.Has part := by
  apply Act.Ends.gives
  apply Act.ends_forEach
  · intro inner before after has gains part within
    exact (has part within).of_gains gains
  · intro inner nested state reached
    apply Act.Gives.ends
    apply (each inner nested state (reached.admits consensus admits)).bind
    intro _ last gained
    exact Act.gives_pure gained

/-- Registering one of the definitions registers all that is inside it. -/
theorem gives_registerWithin {levels : Nat} (consensus : Consensus among)
    (admits : context.Admits among) (member : among definition)
    (deep : definition.depth < levels) :
    Act.Gives (registerWithin levels definition.key definition) context fun settled now =>
      Gains among context now ∧ settled.same definition = true ∧
        ∀ part : ClassDefinition, part.PartOf definition → now.Has part := by
  induction levels generalizing context definition with
  | zero => omega
  | succ levels ih =>
    apply (gives_settle consensus admits member).bind
    rintro settled now ⟨gains, same, registered⟩
    have settledMember : among settled := consensus.of_same member (ClassDefinition.same_symm same)
    apply (gives_binaryOf (consensus.fits settledMember) now).bind
    rintro - next unfiled
    have grown : Gains among now next := gains_of_definitions unfiled
    have depth := ClassDefinition.depth_eq_of_same same
    have nextAdmits : next.Admits among :=
      (gains.trans grown).admits consensus admits
    -- the walk goes on from what is settled, which says the same as what was asked for
    have walks : ∀ inner ∈ settled.nested, ∀ state : PortableContext, state.Admits among →
        Act.Gives (registerWithin levels inner.key inner) state fun _ last =>
          Gains among state last ∧ ∀ part : ClassDefinition, part.PartOf inner → last.Has part := by
      intro inner nested state stateAdmits
      have shallower := ClassDefinition.depth_lt_of_mem_nested nested
      have gives := ih stateAdmits (consensus.nested settledMember nested) (by omega)
      exact gives.mono fun _ _ found => ⟨found.1, found.2.2⟩
    apply (gives_nested consensus nextAdmits walks).bind
    rintro - last ⟨further, parts⟩
    have all : Gains among context last := gains.trans (grown.trans further)
    have found : now.Has definition := ⟨settled, registered, same⟩
    refine Act.gives_pure ⟨all, same, ?_⟩
    exact has_parts ((found.of_gains grown).of_gains further) same parts

theorem gives_register (consensus : Consensus among) (admits : context.Admits among)
    (member : among definition) :
    Act.Gives (register definition) context fun settled now =>
      Gains among context now ∧ settled.same definition = true ∧
        ∀ part : ClassDefinition, part.PartOf definition → now.Has part := by
  have deep : definition.depth < context.definitions.length + definition.count + 1 := by
    have := ClassDefinition.depth_lt_count definition
    omega
  exact gives_registerWithin consensus admits member deep

/-- Importing one of the definitions from a compressed form registers all that is inside it. -/
theorem gives_import {form : Bytes} (consensus : Consensus among) (admits : context.Admits among)
    (come : ClassDefinition.ofCompressed form = .ok definition) (member : among definition) :
    Act.Gives (importCompressed form) context fun settled now =>
      Gains among context now ∧ settled.same definition = true ∧
        ∀ part : ClassDefinition, part.PartOf definition → now.Has part := by
  unfold Act.Gives
  cases found : context.lookup definition.key with
  | some known =>
    have same := admits _ known found definition member rfl
    have knownMember := consensus.of_same member (ClassDefinition.same_symm same)
    have registers : ∀ inner ∈ known.nested, ∀ state : PortableContext, state.Admits among →
        Act.Gives (register inner) state fun _ last =>
          Gains among state last ∧ ∀ part : ClassDefinition, part.PartOf inner → last.Has part := by
      intro inner nested state stateAdmits
      have gives := gives_register consensus stateAdmits (consensus.nested knownMember nested)
      exact gives.mono fun _ _ found => ⟨found.1, found.2.2⟩
    rw [importCompressed_of_known come found]
    apply (gives_nested consensus admits registers).bind
    rintro - now ⟨gains, parts⟩
    have has : context.Has definition := ⟨known, found, same⟩
    exact Act.gives_pure ⟨gains, same, has_parts (has.of_gains gains) same parts⟩
  | none =>
    have labelled : (context.forms.label definition).1.same definition = true :=
      label_same context.forms definition
    have same := ClassDefinition.same_symm labelled
    obtain ⟨settled, now, ran, gains, equal, parts⟩ :=
      @gives_register among
        (keepForm (context.forms.label definition).1 form
          { context with forms := (context.forms.label definition).2 })
        _ consensus admits (consensus.of_same member same)
    rw [importCompressed_of_new come found]
    refine ⟨settled, now, ran, ⟨gains.kept, gains.gained⟩,
      ClassDefinition.same_trans equal labelled, fun part within => ?_⟩
    obtain ⟨inner, inside, matched⟩ := ClassDefinition.partOf_of_same within same
    exact (parts inner inside).of_same (ClassDefinition.same_symm matched)

end PortableContext

end ObjectWire
