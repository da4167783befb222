import ObjectWire.ClassDefinition

/-!
# Compressed forms at hand

A definition is compressed once; from then on its compressed form is at hand wherever the
definition is held.  Definitions are recognised by their labels, which are given out here, so two
definitions that say the same but were built apart have their forms apart.
-/

namespace ObjectWire

/-- The compressed forms that were made or received, and the next label to give out. -/
structure CompressedForms where
  known : List (ClassDefinition × Bytes)
  nextLabel : Nat

namespace CompressedForms

/-- No forms at all. -/
def empty : CompressedForms := ⟨[], 0⟩

/-- The compressed form of a definition, if it is at hand. -/
def formOf (forms : CompressedForms) (definition : ClassDefinition) : Option Bytes :=
  (forms.known.find? fun (known, _) => definition.isCopyOf known).map Prod.snd

/-- Keeps the compressed form of a definition; a definition without a label is not recognised
    again, so there is nothing to keep. -/
def keep (definition : ClassDefinition) (form : Bytes) (forms : CompressedForms) :
    CompressedForms :=
  if definition.label.isSome then { forms with known := forms.known ++ [(definition, form)] }
  else forms

/-- Gives labels to a definition and those nested in it, where they have none. -/
def label (definition : ClassDefinition) (forms : CompressedForms) :
    ClassDefinition × CompressedForms :=
  let (labelled, next) := definition.labelled forms.nextLabel
  (labelled, { forms with nextLabel := next })

end CompressedForms

end ObjectWire
