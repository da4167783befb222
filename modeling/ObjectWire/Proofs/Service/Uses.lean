import ObjectWire.Proofs.Portable.Tidy
import ObjectWire.Proofs.Service.Coherence
import ObjectWire.Proofs.Service.Decoding

/-!
# Services in use

A service is called upon, encodes and decodes, writes to outputs and reads from inputs, describes
objects, and takes definitions in.  Services in one process also share the compressed forms at hand.
A service is reachable if it comes about in this way, and what every use preserves holds of every
reachable service.
-/

namespace ObjectWire

namespace Service

/-- What a service is used for.  Any use may fail. -/
inductive Use
  | call (call : Call)
  | encode (value : Value)
  | decode (e : Option Envelope)
  | writeObject (value : Value) (output : Output) (bound : Bool)
  | readObject (input : Input) (bound : Bool)
  | writeEnvelope (e : Option Envelope) (output : Output) (bound : Bool)
  | readEnvelope (input : Input) (bound : Bool)
  | describe (p : Portable)
  | define (key : ClassKey) (definition : ClassDefinition)
  | importForm (compressed : Bytes)
  | destroy

/-- The service after a use, whether the use failed or not. -/
def Use.perform (service : Service) : Use → Service
  | .call c => c.perform service
  | encode value => (toData value service).2
  | decode e => (toObject e service).2
  | writeObject value output bound =>
    (Service.writeObject value ⟨output, service, bound⟩).2.service
  | readObject input bound => (Service.readObject ⟨input, service, bound⟩).2.service
  | writeEnvelope e output bound => (Writing.envelope e ⟨output, service, bound⟩).2.service
  | readEnvelope input bound => (Receiving.envelope ⟨input, service, bound⟩).2.service
  | describe p => (onContext (PortableContext.describe p) service).2
  | define key definition =>
    (onContext (PortableContext.registerUnder key definition) service).2
  | importForm compressed =>
    (onContext (PortableContext.importCompressed compressed) service).2
  | destroy => (Service.destroy service).2

/-- Services that come about from new ones by uses of some kinds, and by sharing the compressed
    forms at hand. -/
inductive Reachable (starts : Settings → Prop) (allowed : Use → Prop) : Service → Prop
  | start {settings : Settings} (may : starts settings) :
      Reachable starts allowed (ofSettings settings)
  | use {service : Service} (before : Reachable starts allowed service) (use : Use)
      (may : allowed use) : Reachable starts allowed (use.perform service)
  | share {service other : Service} (before : Reachable starts allowed service)
      (holder : Reachable starts allowed other) :
      Reachable starts allowed (service.sharing other.context.forms)

variable {starts : Settings → Prop} {allowed : Use → Prop} {service : Service}

theorem Reachable.uses {uses : List Use} (before : Reachable starts allowed service)
    (may : ∀ use ∈ uses, allowed use) :
    Reachable starts allowed (uses.foldl Use.perform service) := by
  induction uses generalizing service with
  | nil => exact before
  | cons use uses ih =>
    exact ih (before.use use (may use (by simp))) fun other member =>
      may other (List.mem_cons_of_mem _ member)

/-- What holds of new services and is preserved by uses and by sharing holds of every service. -/
theorem Reachable.invariant {holds : Service → Prop}
    (new : ∀ settings, starts settings → holds (ofSettings settings))
    (used : ∀ service use, allowed use → Act.Preserves holds service (use.perform service))
    (shared : ∀ service other : Service, holds other →
      Act.Preserves holds service (service.sharing other.context.forms))
    (reachable : Reachable starts allowed service) : holds service := by
  induction reachable with
  | start may => exact new _ may
  | use _ use may ih => exact used _ use may ih
  | share _ _ ih also => exact shared _ _ also ih

/-- Every use of a run fits the service it finds. -/
def Along (fits : Service → Use → Prop) : List Use → Service → Prop
  | [], _ => True
  | use :: uses, service => fits service use ∧ Along fits uses (use.perform service)

section Along

variable {fits : Service → Use → Prop} {kept : Service → Prop} {uses : List Use}

/-- What fitting uses keep holds after a run of them. -/
theorem Along.foldl (along : Along fits uses service) (start : kept service)
    (keeps : ∀ service use, fits service use → kept service → kept (use.perform service)) :
    kept (uses.foldl Use.perform service) := by
  induction uses generalizing service with
  | nil => exact start
  | cons use uses ih => exact ih along.2 (keeps service use along.1 start)

/-- If fitting uses keep an invariant that guarantees a property, and only fitting uses leave the
    property in place, then the uses of a run fit exactly if the property holds throughout. -/
theorem along_iff {property : Service → Prop} (start : kept service)
    (keeps : ∀ service use, fits service use → kept service → kept (use.perform service))
    (guarantees : ∀ service, kept service → property service)
    (only : ∀ service use, property (use.perform service) → fits service use) :
    Along fits uses service ↔
      ∀ front, front <+: uses → property (front.foldl Use.perform service) := by
  induction uses generalizing service with
  | nil =>
    apply iff_of_true ⟨⟩
    intro front begins
    rw [List.prefix_nil.mp begins]
    exact guarantees service start
  | cons use uses ih =>
    constructor
    · rintro ⟨first, rest⟩ front begins
      rcases List.prefix_cons_iff.mp begins with rfl | ⟨later, rfl, shorter⟩
      · exact guarantees service start
      · exact (ih (keeps service use first start)).mp rest later shorter
    · intro always
      have first : fits service use :=
        only service use (always [use] (List.prefix_cons_iff.mpr (.inr ⟨[], rfl, List.nil_prefix⟩)))
      refine ⟨first, (ih (keeps service use first start)).mpr fun front begins => ?_⟩
      exact always (use :: front) (List.prefix_cons_iff.mpr (.inr ⟨front, rfl, begins⟩))

end Along

/-- The single changes that encoding, reading and describing make to a service stay within a
    relation. -/
structure Handles (related : Service → Service → Prop) : Prop
    extends Respects related, Imports related where
  report : ∀ failure service, related service (report failure service).2
  describe : ∀ p, (onContext (PortableContext.describe p)).Within related

section Within

variable {related : Service → Service → Prop} [Std.Refl related] [Trans related related related]

namespace Handles

variable (handles : Handles related)
include handles

theorem toData (value : Value) : (toData value).Within related := by
  have encoded : (guarded id (fun service _ => service)
      (some <$> encodeBy value (partsOf value))).Within related :=
    within_guarded handles.report (fun _ _ => Iff.rfl) (fun _ _ => rfl)
      ((within_encodeBy handles.toRespects value).map _)
  unfold Service.toData
  split
  case h_1 => exact Act.within_pure _
  case h_2 => exact Act.within_pure _
  case h_3 => exact encoded

theorem writeObject (value : Value) : (writeObject value).Within (Behind related) := by
  have respects := handles.toRespects
  exact within_guarded (fun failure writing => handles.report failure writing.service)
    (fun _ _ => Iff.rfl) (fun _ _ => rfl)
    (respects.writeValueBy (contained_partsOf respects value) value)

/-- A use stays within a relation if the definitions that it takes in and its call do, and the
    teardown. -/
theorem use (service : Service) (use : Use)
    (called : ∀ call, use = .call call → related service (call.perform service))
    (adopted : ∀ e, use = .decode (some e) → (adopt e).Within related)
    (defined : ∀ key definition, use = .define key definition →
      (onContext (PortableContext.registerUnder key definition)).Within related)
    (destroyed : use = .destroy → related service (Service.destroy service).2) :
    related service (use.perform service) := by
  have imports := handles.toImports
  cases use with
  | call call => exact called call rfl
  | encode value => exact handles.toData value service
  | decode e =>
    have decoded := @imports.toObject related _ _ handles.report e fun brought held =>
      adopted brought (congrArg Use.decode held)
    exact decoded service
  | writeObject value output bound => exact handles.writeObject value ⟨output, service, bound⟩
  | readObject input bound =>
    exact imports.readObject handles.report ⟨input, service, bound⟩
  | writeEnvelope e output bound =>
    exact handles.toRespects.envelope e ⟨output, service, bound⟩
  | readEnvelope input bound => exact imports.envelope ⟨input, service, bound⟩
  | describe p => exact handles.describe p service
  | define key definition => exact defined key definition rfl service
  | importForm compressed => exact handles.importCompressed compressed service
  | destroy => exact destroyed rfl

end Handles

/-- The single changes that encoding, decoding, describing and taking definitions in make to a
    service stay within a relation. -/
structure Serves (related : Service → Service → Prop) : Prop
    extends Respects related, Accepts related where
  describe : ∀ p, (onContext (PortableContext.describe p)).Within related
  define : ∀ key definition,
    (onContext (PortableContext.registerUnder key definition)).Within related

/-- A use that is neither a call nor the teardown stays within a relation that serving stays
    within. -/
theorem Use.within (serves : Serves related) (service : Service) (use : Use)
    (called : ∀ call, use = .call call → related service (call.perform service))
    (destroyed : use = .destroy → related service (Service.destroy service).2) :
    related service (use.perform service) := by
  have handles : Handles related :=
    { serves.toRespects, serves.toImports with
      report := serves.report
      describe := serves.describe }
  exact handles.use service use called (fun e _ => serves.toAccepts.adopt e)
    (fun key definition _ => serves.define key definition) destroyed

end Within

/-- Calls do not touch the class definitions. -/
theorem Call.context_perform (call : Call) (service : Service) :
    (call.perform service).context = service.context := by
  cases call with
  | registerRecord key kind =>
    show (Service.registerRecord key kind service).2.context = _
    unfold Service.registerRecord
    rw [Act.bind_of_ok (Act.get_apply service)]
    split <;> rfl
  | _ => rfl

/-- What a step on the class definitions preserves of them, it preserves in the service. -/
theorem preserves_onContext {α : Type} {holds : PortableContext → Prop}
    {step : Act PortableContext α} (h : step.Within (Act.Preserves holds)) :
    (onContext step).Within (Act.Preserves fun service => holds service.context) :=
  fun service => h service.context

theorem serves_tidy : Serves (Act.Preserves fun service => service.context.Tidy) where
  codecFor _ _ := id
  close p := preserves_onContext (Frame.within_close PortableContext.respects_tidy p)
  binaryOf definition := preserves_onContext (PortableContext.tidies_binaryOf definition)
  borrow service := PortableContext.tidies_borrow service.context
  giveBack service := PortableContext.tidies_giveBack service.context
  register definition := preserves_onContext (PortableContext.tidies_register definition)
  importCompressed form := preserves_onContext (PortableContext.tidies_importCompressed form)
  report failure service tidy := by
    obtain ⟨heard, same⟩ := report_service failure service
    rw [same]
    exact tidy
  describe p := preserves_onContext (PortableContext.respects_tidy.describe p)
  define key definition :=
    preserves_onContext (PortableContext.tidies_registerUnder key definition)

/-- However services are used, their compressed forms are genuine and their idle buffers empty. -/
theorem Reachable.tidy (reachable : Reachable starts allowed service) : service.context.Tidy := by
  refine @Reachable.invariant starts allowed service (fun service => service.context.Tidy)
    (fun settings _ => ?_) (fun service use _ => ?_) ?_ reachable
  · exact PortableContext.tidy_start _ (Pool.clean_ofSettings _ _ _)
  · refine use.within serves_tidy service (fun call _ tidy => ?_) fun _ tidy => ?_
    · show (call.perform service).context.Tidy
      rwa [Call.context_perform]
    · exact ⟨tidy.genuine, Pool.clean_clear _⟩
  · exact fun service other also tidy => ⟨also.genuine, tidy.clean⟩

end Service

end ObjectWire
