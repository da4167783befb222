import ObjectWire.Proofs.Portable.Objects
import ObjectWire.Proofs.Portable.SelfContained

/-!
# Descriptions are registered

Describing an object takes a sound context to a sound context, and the definition it answers with
is then the one that is found for the object's class and version.  A description is drafted write
by write from definitions that are registered already, so what is built from it is well formed, and
registering it brings no contradiction into a context that had none.
-/

namespace ObjectWire

namespace Draft

variable {draft next : Draft} {name : String} {kind : FieldKind} {definition : ClassDefinition}

theorem key_of_addField (h : draft.addField name kind = .ok next) : next.key = draft.key := by
  obtain ⟨-, index, -, pushed⟩ := addField_ok h
  obtain ⟨-, rfl⟩ := pushField_ok pushed
  rfl

theorem key_of_addNested (h : draft.addNested name kind definition = .ok next) :
    next.key = draft.key := by
  obtain ⟨index, middle, -, pushed, rfl⟩ := addNested_ok h
  obtain ⟨-, rfl⟩ := pushField_ok pushed
  exact pushNested_key definition _

end Draft

namespace PortableContext

variable {context : PortableContext}

/-- The draft that a step yields goes on from the one it was given, and what is nested in it is
    registered. -/
structure Continues (draft next : Draft) (now : PortableContext) : Prop where
  sound : next.Sound
  held : ∀ inner ∈ next.nested, now.Has inner
  key : next.key = draft.key

/-- The definition is well formed, and is registered. -/
def Serves (definition : ClassDefinition) (now : PortableContext) : Prop :=
  definition.WellFormed ∧ now.Has definition

theorem meets_known (sound : context.Sound) (name : String) (classId : Int32) :
    Act.Meets Fills (known name classId) context Serves := by
  apply Act.meets_get.bind
  rintro _ _ - ⟨rfl, rfl⟩
  split
  case h_1 definition found =>
    exact Act.meets_pure ⟨sound.wellFormed _ _ found, has_of_lookup sound found⟩
  case h_2 => exact Act.meets_fail

variable {draft : Draft} (drafted : draft.Sound) (held : ∀ inner ∈ draft.nested, context.Has inner)
include drafted held

theorem meets_addField (name : String) (kind : FieldKind) :
    Act.Meets Fills (Act.lift (draft.addField name kind)) context (Continues draft) := by
  refine Act.meets_lift fun next added => ⟨drafted.addField added, ?_, Draft.key_of_addField added⟩
  rw [Draft.nested_of_addField added]
  exact held

theorem meets_addNested {definition : ClassDefinition} (serves : Serves definition context)
    {kind : FieldKind} (holds : kind.isPortable = true) (name : String) :
    Act.Meets Fills (Act.lift (draft.addNested name kind definition)) context
      (Continues draft) := by
  refine Act.meets_lift fun next added =>
    ⟨drafted.addNested serves.1 holds added, fun inner member => ?_, Draft.key_of_addNested added⟩
  rcases Draft.mem_nested_of_addNested added member with old | rfl
  · exact held inner old
  · exact serves.2

theorem meets_describeArray {definition : ClassDefinition} (serves : Serves definition context)
    (name : String) (classId : Int32) :
    Act.Meets Fills (describeArray name classId definition draft) context (Continues draft) := by
  unfold describeArray
  by_cases declared : definition.classId = classId
  · rw [if_pos declared]
    exact meets_addNested drafted held serves rfl name
  · rw [if_neg declared]
    exact Act.meets_fail

omit drafted held

/-- What describing an object comes to in any sound context. -/
def Describes (p : Portable) : Prop :=
  ∀ context : PortableContext, context.Sound →
    Act.Meets Fills (describe p) context fun definition now =>
      now.lookup (context.keyOf p) = some definition

theorem Describes.serves {p : Portable} (described : Describes p) (sound : context.Sound) :
    Act.Meets Fills (describe p) context Serves :=
  (described context sound).mono fun _ _ evolved found =>
    have nowSound := evolved.1.sound sound
    ⟨nowSound.wellFormed _ _ found, has_of_lookup nowSound found⟩

theorem meets_describeWrite {write : FieldWrite} (sound : context.Sound) (drafted : draft.Sound)
    (held : ∀ inner ∈ draft.nested, context.Has inner) (inside : ∀ p ∈ write.objects, Describes p) :
    Act.Meets Fills (describeWrite write draft) context (Continues draft) := by
  have still : ∀ now, Fills context now → ∀ inner ∈ draft.nested, now.Has inner :=
    fun now evolved inner member => (held inner member).of_evolves evolved.1
  cases write with
  | data name value => exact meets_addField drafted held name value.kind
  | portable name value =>
    cases value with
    | none => exact Act.meets_fail
    | some p =>
      apply ((inside p (by simp [FieldWrite.objects])).serves sound).bind
      exact fun _ now evolved serves => meets_addNested drafted (still now evolved) serves rfl name
  | nullPortable name classId =>
    apply (meets_known sound name classId).bind
    exact fun _ now evolved serves => meets_addNested drafted (still now evolved) serves rfl name
  | portableArray name classId items =>
    have array : ∀ definition now, Fills context now → Serves definition now →
        Act.Meets Fills (describeArray name classId definition draft) now (Continues draft) :=
      fun _ now evolved serves =>
        meets_describeArray drafted (still now evolved) serves name classId
    cases items with
    | none => exact (meets_known sound name classId).bind array
    | some items =>
      cases items with
      | nil => exact (meets_known sound name classId).bind array
      | cons p items =>
        exact ((inside p (by simp [FieldWrite.objects])).serves sound).bind array
  | fail text => exact Act.meets_fail

theorem meets_describeWrites {writes : List FieldWrite} (sound : context.Sound)
    (drafted : draft.Sound) (held : ∀ inner ∈ draft.nested, context.Has inner)
    (inside : ∀ write ∈ writes, ∀ p ∈ write.objects, Describes p) :
    Act.Meets Fills (describeWrites writes draft) context (Continues draft) := by
  induction writes generalizing context draft with
  | nil => exact Act.meets_pure ⟨drafted, held, rfl⟩
  | cons write writes ih =>
    apply (meets_describeWrite sound drafted held (inside write (by simp))).bind
    rintro next now evolved ⟨nextSound, nextHeld, key⟩
    have rest := ih (evolved.1.sound sound) nextSound nextHeld fun other member =>
      inside other (List.mem_cons_of_mem _ member)
    exact rest.mono fun last _ _ ⟨lastSound, lastHeld, lastKey⟩ =>
      ⟨lastSound, lastHeld, lastKey.trans key⟩

/-- Whatever becomes of describing an object, the context evolves, and stays free of contradictions;
    and the definition the object is then written by is the one found for its class and version. -/
theorem meets_describe (p : Portable) : Describes p := by
  induction p using Portable.induction with
  | step p ih =>
    intro context sound
    rw [describe_eq]
    apply Act.meets_get.bind
    rintro _ _ - ⟨rfl, rfl⟩
    dsimp only
    split
    case h_1 definition found => exact Act.meets_pure found
    case h_2 =>
      have inside : ∀ write ∈ p.writes, ∀ q ∈ write.objects, Describes q :=
        fun write member q among => ih q (List.mem_flatMap.mpr ⟨write, member, among⟩)
      refine (meets_describeWrites sound (Draft.sound_start _) nofun inside).bind ?_
      rintro draft now evolved ⟨drafted, held, key⟩
      have built : Act.Meets Fills (Act.lift draft.build) now fun definition next =>
          definition.WellFormed ∧ definition.key = draft.key ∧
            ∀ inner ∈ definition.nested, next.Has inner := by
        refine Act.meets_lift fun definition finished => ⟨?_, ?_⟩
        · exact ClassDefinition.wellFormed_of_build drafted.consistent drafted.nested finished
        · obtain ⟨-, rfl⟩ := Draft.build_ok finished
          exact ⟨rfl, held⟩
      refine built.bind fun definition next grown ⟨wellFormed, same, nested⟩ => ?_
      have nextSound := grown.1.sound (evolved.1.sound sound)
      exact (fills_register nextSound wellFormed fun _ => nested).mono fun settled _ _ found => by
        rwa [same, key] at found

end PortableContext

end ObjectWire
