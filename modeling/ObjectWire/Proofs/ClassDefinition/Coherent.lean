import ObjectWire.Proofs.ClassDefinition.LayoutRoundTrip

/-!
# Definitions inside definitions

A definition brings along the definitions of all classes inside it.  It is coherent if those for one
class and version say the same wherever they are nested.  Labels make no difference to any of this.
-/

namespace ObjectWire.ClassDefinition

/-- The definition is the other one, or is nested somewhere in it. -/
inductive PartOf : ClassDefinition → ClassDefinition → Prop
  | whole (definition : ClassDefinition) : PartOf definition definition
  | inside {definition inner part : ClassDefinition} (member : inner ∈ definition.nested)
      (within : PartOf part inner) : PartOf part definition

/-- Wherever a class at one version is described, the descriptions say the same. -/
def Coherent (definition : ClassDefinition) : Prop :=
  ∀ part other : ClassDefinition, part.PartOf definition → other.PartOf definition →
    part.key = other.key → part.same other = true

/-- No definition in the definition contains, however deep inside, another one for its own class and
    version. -/
def Acyclic (definition : ClassDefinition) : Prop :=
  ∀ part : ClassDefinition, part.PartOf definition → ∀ inner ∈ part.nested,
    ∀ deeper : ClassDefinition, deeper.PartOf inner → deeper.key ≠ part.key

/-- The definition says the same as a part of another one. -/
def FoundIn (definition root : ClassDefinition) : Prop :=
  ∃ part : ClassDefinition, part.PartOf root ∧ definition.same part = true

variable {definition inner part root : ClassDefinition}

theorem PartOf.trans {outer : ClassDefinition} (first : part.PartOf inner)
    (second : inner.PartOf outer) : part.PartOf outer := by
  induction second with
  | whole definition => exact first
  | inside member _ ih => exact .inside member (ih first)

theorem mem_nested_of_same {other : ClassDefinition} (same : definition.same other = true)
    (member : inner ∈ definition.nested) : ∃ found ∈ other.nested, found.same inner = true := by
  have nested : definition.nested.map bare = other.nested.map bare := by
    rw [← bare_nested, ← bare_nested, same_iff.mp same]
  obtain ⟨found, among, equal⟩ := mem_nested_of_map_bare_eq nested member
  exact ⟨found, among, same_iff.mpr equal⟩

theorem partOf_of_same {other : ClassDefinition} (part : inner.PartOf definition)
    (same : definition.same other = true) : inner.FoundIn other := by
  induction part generalizing other with
  | whole definition => exact ⟨other, .whole other, same⟩
  | inside member _ ih =>
    obtain ⟨found, among, equal⟩ := mem_nested_of_same same member
    obtain ⟨part, within, equal⟩ := ih (same_symm equal)
    exact ⟨part, .inside among within, equal⟩

theorem FoundIn.of_nested (found : definition.FoundIn root) (member : inner ∈ definition.nested) :
    inner.FoundIn root := by
  obtain ⟨part, within, same⟩ := found
  obtain ⟨known, among, equal⟩ := mem_nested_of_same same member
  exact ⟨known, .trans (.inside among (.whole known)) within, same_symm equal⟩

/-- Where the key decides what the parts of two definitions say, it decides what is found in
    them. -/
theorem FoundIn.same_of_key {other stem : ClassDefinition}
    (agreed : ∀ part inner : ClassDefinition, part.PartOf root → inner.PartOf stem →
      part.key = inner.key → part.same inner = true)
    (found : definition.FoundIn root) (known : other.FoundIn stem)
    (key : definition.key = other.key) : definition.same other = true := by
  obtain ⟨part, within, same⟩ := found
  obtain ⟨inner, inside, equal⟩ := known
  have keys : part.key = inner.key := by
    rw [← key_eq_of_same same, key, key_eq_of_same equal]
  exact same_trans same (same_trans (agreed part inner within inside keys) (same_symm equal))

theorem Acyclic.nested (acyclic : definition.Acyclic) (member : inner ∈ definition.nested) :
    inner.Acyclic :=
  fun part within => acyclic part (.inside member within)

theorem Acyclic.of_same {other : ClassDefinition} (acyclic : definition.Acyclic)
    (same : definition.same other = true) : other.Acyclic := by
  intro part within inner member deeper inside
  obtain ⟨held, there, equal⟩ := partOf_of_same within (same_symm same)
  obtain ⟨below, among, matched⟩ := mem_nested_of_same equal member
  obtain ⟨lower, under, agreed⟩ := partOf_of_same inside (same_symm matched)
  rw [key_eq_of_same agreed, key_eq_of_same equal]
  exact acyclic held there below among lower under

/-- In a coherent definition the key decides what is said. -/
theorem Coherent.same_of_key (coherent : root.Coherent) {other : ClassDefinition}
    (found : definition.FoundIn root) (known : other.FoundIn root)
    (key : definition.key = other.key) : definition.same other = true :=
  FoundIn.same_of_key coherent found known key

theorem Fits.nested (fits : definition.Fits) (member : inner ∈ definition.nested) : inner.Fits := by
  cases fits with
  | level _ _ _ nested => exact nested inner member

theorem Fits.of_partOf (fits : definition.Fits) (part : inner.PartOf definition) : inner.Fits := by
  induction part with
  | whole definition => exact fits
  | inside member _ ih => exact ih (fits.nested member)

theorem Fits.of_same {other : ClassDefinition} (fits : definition.Fits)
    (same : other.same definition = true) : other.Fits := by
  rw [← exists_layout_iff, layout_eq_of_same same]
  exact (exists_layout_iff definition).mpr fits

theorem FoundIn.fits (found : definition.FoundIn root) (fits : root.Fits) : definition.Fits := by
  obtain ⟨part, within, same⟩ := found
  exact (fits.of_partOf within).of_same same

theorem depth_lt_count (definition : ClassDefinition) : definition.depth < definition.count := by
  induction definition using induction with
  | step definition ih =>
    have all : ∀ items : List ClassDefinition, (∀ item ∈ items, item ∈ definition.nested) →
        depthOfAll items ≤ countAll items := by
      intro items among
      induction items with
      | nil => exact Nat.le_refl 0
      | cons item items rest =>
        have first := ih item (among item (by simp))
        have others := rest fun other member => among other (List.mem_cons_of_mem _ member)
        rw [depthOfAll, countAll]
        omega
    obtain ⟨key, fields, nested, label⟩ := definition
    have bound := all nested fun _ member => member
    rw [depth, count]
    omega

end ObjectWire.ClassDefinition
