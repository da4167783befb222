import ObjectWire.Proofs.Portable.Compressed
import ObjectWire.Proofs.Portable.Consensus

/-!
# Importing a coherent definition

Registering a coherent definition where nothing else is registered succeeds, and registers all
definitions inside it and no others.  An import is such a registration of the definition that the
compressed form stands for.
-/

namespace ObjectWire

namespace PortableContext

variable {context now : PortableContext} {root definition : ClassDefinition}

/-- All that is registered is found in a definition. -/
def FoundIn (context : PortableContext) (root : ClassDefinition) : Prop :=
  ∀ key known, context.lookup key = some known → known.FoundIn root

/-- What is registered is a definition and all that is nested in it, and nothing else. -/
structure Mirrors (context : PortableContext) (root : ClassDefinition) : Prop where
  sound : context.Sound
  foundIn : context.FoundIn root
  parts : ∀ part : ClassDefinition, part.PartOf root → context.Has part

theorem Mirrors.registered_iff (mirrors : context.Mirrors root) (key : ClassKey) :
    (∃ known, context.lookup key = some known) ↔
      ∃ part : ClassDefinition, part.PartOf root ∧ part.key = key := by
  constructor
  · rintro ⟨known, registered⟩
    obtain ⟨part, within, same⟩ := mirrors.foundIn key known registered
    refine ⟨part, within, ?_⟩
    rw [← ClassDefinition.key_eq_of_same same, mirrors.sound.filed key known registered]
  · rintro ⟨part, within, rfl⟩
    obtain ⟨known, registered, -⟩ := mirrors.parts part within
    exact ⟨known, registered⟩

theorem Mirrors.agrees (mirrors : context.Mirrors root) (others : now.Mirrors root)
    (coherent : root.Coherent) : context.Agrees now := by
  intro key
  cases registered : context.lookup key with
  | some known =>
    obtain ⟨held, found⟩ := (others.registered_iff key).mpr
      ((mirrors.registered_iff key).mp ⟨known, registered⟩)
    refine .inr ⟨known, held, rfl, found, ?_⟩
    refine coherent.same_of_key (mirrors.foundIn key known registered)
      (others.foundIn key held found) ?_
    rw [mirrors.sound.filed key known registered, others.sound.filed key held found]
  | none =>
    refine .inl ⟨rfl, ?_⟩
    cases found : now.lookup key with
    | none => rfl
    | some held =>
      obtain ⟨known, there⟩ := (mirrors.registered_iff key).mpr
        ((others.registered_iff key).mp ⟨held, found⟩)
      rw [registered] at there
      cases there

/-- Where nothing was registered, what is gained with a definition mirrors it. -/
theorem mirrors_of_gains (sound : now.Sound) (absent : ∀ key, context.lookup key = none)
    (gains : Gains (·.FoundIn root) context now) (same : definition.same root = true)
    (parts : ∀ part : ClassDefinition, part.PartOf definition → now.Has part) :
    now.Mirrors root := by
  refine ⟨sound, fun key known found => ?_, fun part within => ?_⟩
  · rcases gains.gained key known found with before | ⟨new, -⟩
    · rw [absent key] at before
      cases before
    · exact new
  · obtain ⟨inner, inside, matched⟩ :=
      ClassDefinition.partOf_of_same within (ClassDefinition.same_symm same)
    exact (parts inner inside).of_same (ClassDefinition.same_symm matched)

theorem admits_of_absent {among : ClassDefinition → Prop}
    (absent : ∀ key, context.lookup key = none) : context.Admits among := by
  intro key known found
  rw [absent key] at found
  cases found

/-- Registering a coherent definition where there are no others leaves it and all that is inside
    it. -/
theorem gives_mirrors (coherent : root.Coherent) (fits : root.Fits) (sound : context.Sound)
    (absent : ∀ key, context.lookup key = none) (wellFormed : definition.WellFormed)
    (same : definition.same root = true) :
    Act.Gives (register definition) context fun settled now =>
      settled.same root = true ∧ now.Mirrors root := by
  have found : definition.FoundIn root := ⟨root, .whole root, same⟩
  have registers := gives_register (coherent.consensus fits) (admits_of_absent absent) found
  apply (registers.meets (meets_register sound wellFormed)).mono
  rintro settled now ⟨⟨gains, matched, parts⟩, evolved⟩
  exact ⟨ClassDefinition.same_trans matched same,
    mirrors_of_gains (evolved.sound sound) absent gains same parts⟩

/-- In a context without definitions a coherent definition is imported from its compressed layout,
    with everything inside it and nothing else. -/
theorem gives_importCompressed {form : Bytes} (fresh : context.definitions = [])
    (clean : context.pool.Clean) (coherent : root.Coherent) (wellFormed : root.WellFormed)
    (shallow : root.depth ≤ Failure.maxDefinitionLevels)
    (written : root.compressedLayout = .ok form) :
    Act.Gives (importCompressed form) context fun settled now =>
      settled.same root = true ∧ now.Mirrors root := by
  have absent : ∀ key, context.lookup key = none := by
    intro key
    rw [lookup, fresh]
    rfl
  have sound : context.Sound := by
    refine ⟨fun key known registered => ?_, fun key known registered => ?_, clean⟩
    all_goals
      rw [absent key] at registered
      cases registered
  have come := ClassDefinition.ofCompressed_compressedLayout wellFormed shallow written
  have fits := (ClassDefinition.exists_compressedLayout_iff root).mp ⟨form, written⟩
  have same := ClassDefinition.bare_same root
  have found : root.bare.FoundIn root := ⟨root, .whole root, same⟩
  have imports := gives_import (coherent.consensus fits) (admits_of_absent absent) come found
  apply (imports.meets (meets_importCompressed sound form)).mono
  rintro settled now ⟨⟨gains, matched, parts⟩, evolved⟩
  exact ⟨ClassDefinition.same_trans matched same,
    mirrors_of_gains (evolved.sound sound) absent gains same parts⟩

/-- Nothing is imported from the compressed layout of a definition that nests too deep. -/
theorem importCompressed_too_deep {form : Bytes} (wellFormed : root.WellFormed)
    (deep : Failure.maxDefinitionLevels < root.depth)
    (written : root.compressedLayout = .ok form) :
    importCompressed form context = (.error .definitionTooDeep, context) :=
  importCompressed_of_unreadable (ClassDefinition.ofCompressed_too_deep wellFormed deep written)

end PortableContext

end ObjectWire
