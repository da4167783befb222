import ObjectWire.Proofs.Portable.Description
import ObjectWire.Proofs.Portable.Registering
import ObjectWire.Proofs.Portable.Requests

/-!
# Registered definitions are well formed

Every definition that reaches a context was built, was read from a layout or is drafted from
definitions that are registered, so whatever is registered is well formed, under whichever key it
stands.
-/

namespace ObjectWire.PortableContext

variable {context now : PortableContext} {key : ClassKey} {definition : ClassDefinition}
  {draft : Draft} {requests : List Request}

/-- All that is registered is well formed. -/
def Formed (context : PortableContext) : Prop :=
  ∀ key known, context.lookup key = some known → known.WellFormed

/-- Whatever becomes of the step, all that is registered afterwards is well formed, and an answer
    is as wanted. -/
def Forms {α : Type} (step : Act PortableContext α) (context : PortableContext)
    (wanted : α → Prop) : Prop :=
  Act.Ends step context (fun answer now => now.Formed ∧ wanted answer) fun _ => Formed

theorem Formed.of_definitions (formed : context.Formed)
    (same : now.definitions = context.definitions) : now.Formed :=
  Everywhere.of_definitions formed same

theorem Fresh.formed (fresh : context.Fresh) : context.Formed := by
  intro key known found
  rw [fresh.lookup key] at found
  cases found

/-! Registering. -/

theorem hereditary_wellFormed : Hereditary ClassDefinition.WellFormed where
  of_same same wellFormed := wellFormed.of_same (ClassDefinition.same_symm same)
  nested member wellFormed := wellFormed.nested _ member

theorem forms_registerUnder (formed : context.Formed) (wellFormed : definition.WellFormed)
    (key : ClassKey) : Forms (registerUnder key definition) context (·.WellFormed) :=
  hereditary_wellFormed.registerWithin formed wellFormed _ key

theorem forms_registerEach {items : List ClassDefinition} (formed : context.Formed)
    (wellFormed : ∀ item ∈ items, item.WellFormed) :
    Act.Ends (registerEach items) context (fun _ => Formed) fun _ => Formed := by
  apply Act.ends_forEach_kept formed
  intro item member state stateFormed
  apply (forms_registerUnder stateFormed (wellFormed item member) item.key).bind
  rintro - now ⟨nowFormed, -⟩
  exact Act.ends_of_ok rfl nowFormed

theorem forms_importCompressed (formed : context.Formed) (compressed : Bytes) :
    Forms (importCompressed compressed) context (·.WellFormed) := by
  cases come : ClassDefinition.ofCompressed compressed with
  | error failure => exact Act.ends_of_error (importCompressed_of_unreadable come) formed
  | ok arrived =>
    have wellFormed := wellFormed_of_ofCompressed come
    unfold Forms Act.Ends
    cases found : context.lookup arrived.key with
    | some known =>
      have knownFormed := formed _ known found
      rw [importCompressed_of_known come found]
      apply (forms_registerEach formed knownFormed.nested).bind
      intro _ now nowFormed
      exact Act.ends_of_ok rfl ⟨nowFormed, knownFormed⟩
    | none =>
      have same := ClassDefinition.same_symm (label_same context.forms arrived)
      have prepared : (keepForm (context.forms.label arrived).1 compressed
          { context with forms := (context.forms.label arrived).2 }).Formed :=
        formed.of_definitions rfl
      rw [importCompressed_of_new come found]
      exact forms_registerUnder prepared (wellFormed.of_same same) _

/-! Describing. -/

theorem forms_known (formed : context.Formed) (name : String) (classId : Int32) :
    Forms (known name classId) context (·.WellFormed) := by
  unfold Forms Act.Ends known
  rw [Act.bind_of_ok (Act.get_apply context)]
  cases found : context.lookupCurrent classId with
  | none => exact formed
  | some held => exact ⟨formed, formed _ _ found⟩

theorem forms_lift {α : Type} {outcome : Except Failure α} {wanted : α → Prop}
    (formed : context.Formed) (answers : ∀ value, outcome = .ok value → wanted value) :
    Forms (Act.lift outcome) context wanted := by
  cases outcome with
  | error failure => exact Act.ends_of_error rfl formed
  | ok value => exact Act.ends_of_ok rfl ⟨formed, answers value rfl⟩

theorem forms_describeArray (formed : context.Formed) (drafted : draft.Sound)
    (wellFormed : definition.WellFormed) (name : String) (classId : Int32) :
    Forms (describeArray name classId definition draft) context Draft.Sound := by
  unfold describeArray
  by_cases declared : definition.classId = classId
  · rw [if_pos declared]
    exact forms_lift formed fun next added => drafted.addNested wellFormed rfl added
  · rw [if_neg declared]
    exact Act.ends_of_error rfl formed

theorem forms_describeWrite {write : FieldWrite} (formed : context.Formed) (drafted : draft.Sound)
    (inside : ∀ q ∈ write.objects, ∀ context : PortableContext, context.Formed →
      Forms (describe q) context (·.WellFormed)) :
    Forms (describeWrite write draft) context Draft.Sound := by
  have array : ∀ name classId (step : Act PortableContext ClassDefinition),
      Forms step context (·.WellFormed) → Forms (do
        let definition ← step
        describeArray name classId definition draft) context Draft.Sound := by
    intro name classId step forms
    apply forms.bind
    rintro definition now ⟨nowFormed, wellFormed⟩
    exact forms_describeArray nowFormed drafted wellFormed name classId
  have single : ∀ name (step : Act PortableContext ClassDefinition),
      Forms step context (·.WellFormed) → Forms (do
        let definition ← step
        Act.lift (draft.addPortable name definition)) context Draft.Sound := by
    intro name step forms
    apply forms.bind
    rintro definition now ⟨nowFormed, wellFormed⟩
    exact forms_lift nowFormed fun next added => drafted.addNested wellFormed rfl added
  cases write with
  | data name value => exact forms_lift formed fun next added => drafted.addField added
  | portable name value =>
    cases value with
    | none => exact Act.ends_of_error rfl formed
    | some p => exact single name _ (inside p (by simp [FieldWrite.objects]) context formed)
  | nullPortable name classId => exact single name _ (forms_known formed name classId)
  | portableArray name classId items =>
    rcases items with _ | _ | ⟨p, items⟩
    · exact array name classId _ (forms_known formed name classId)
    · exact array name classId _ (forms_known formed name classId)
    · exact array name classId _ (inside p (by simp [FieldWrite.objects]) context formed)
  | fail text => exact Act.ends_of_error rfl formed

theorem forms_describeWrites {writes : List FieldWrite} (formed : context.Formed)
    (drafted : draft.Sound)
    (inside : ∀ write ∈ writes, ∀ q ∈ write.objects, ∀ context : PortableContext, context.Formed →
      Forms (describe q) context (·.WellFormed)) :
    Forms (describeWrites writes draft) context Draft.Sound := by
  induction writes generalizing context draft with
  | nil => exact Act.ends_of_ok rfl ⟨formed, drafted⟩
  | cons write writes ih =>
    apply (forms_describeWrite formed drafted (inside write (by simp))).bind
    rintro next now ⟨nowFormed, nextSound⟩
    exact ih nowFormed nextSound fun other member => inside other (List.mem_cons_of_mem _ member)

theorem forms_describe (p : Portable) (context : PortableContext) (formed : context.Formed) :
    Forms (describe p) context (·.WellFormed) := by
  induction p using Portable.induction generalizing context with
  | step p ih =>
    unfold Forms Act.Ends
    rw [describe_eq, describeBy, Act.bind_of_ok (Act.get_apply context)]
    cases found : context.lookup (context.keyOf p) with
    | some known => exact ⟨formed, formed _ known found⟩
    | none =>
      have inside : ∀ write ∈ p.writes, ∀ q ∈ write.objects, ∀ context : PortableContext,
          context.Formed → Forms (describe q) context (·.WellFormed) :=
        fun write member q among => ih q (List.mem_flatMap.mpr ⟨write, member, among⟩)
      apply (forms_describeWrites formed (Draft.sound_start _) inside).bind
      rintro draft now ⟨nowFormed, drafted⟩
      have built : Forms (Act.lift draft.build) now (·.WellFormed) :=
        forms_lift nowFormed fun definition finished =>
          ClassDefinition.wellFormed_of_build drafted.consistent drafted.nested finished
      apply built.bind
      rintro definition next ⟨nextFormed, wellFormed⟩
      exact forms_registerUnder nextFormed wellFormed definition.key

/-! Requests. -/

/-- What the request brings in by hand was built. -/
def Request.Built : Request → Prop
  | register definition | registerFor _ definition => definition.Built
  | importForm _ | describe _ => True

theorem Request.forms {request : Request} (built : request.Built) (formed : context.Formed) :
    Forms request.step context (·.WellFormed) := by
  cases request with
  | register definition => exact forms_registerUnder formed built.wellFormed definition.key
  | registerFor classId definition => exact forms_registerUnder formed built.wellFormed _
  | importForm compressed => exact forms_importCompressed formed compressed
  | describe p => exact forms_describe p context formed

theorem Request.formed {request : Request} (built : request.Built) :
    Act.Preserves Formed context (request.perform context) := by
  intro formed
  have forms := Request.forms built formed
  exact (forms.mono (fun _ _ => And.left) fun _ _ => id).leaves

/-- Whatever was asked of a context, all that is registered is well formed. -/
theorem Fresh.formed_answering (fresh : context.Fresh)
    (built : ∀ request ∈ requests, request.Built) :
    (answering requests context).Formed := by
  apply List.foldlRecOn (motive := Formed)
  · exact fresh.formed
  · intro before formed request member
    exact Request.formed (built request member) formed

end ObjectWire.PortableContext
