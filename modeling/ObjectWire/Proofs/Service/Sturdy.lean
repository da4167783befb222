import ObjectWire.Proofs.Service.Equipped
import ObjectWire.Proofs.Service.Portables

/-!
# Services that stay sturdy

A service without managed context is sturdy if its definitions are well formed and filed under
their own keys, its idle buffers are empty, and the built-in codecs are in place.  It stays so as
long as no type's codec is taken back, it is not torn down, and the definitions that it takes in come
under their own keys.  Encoding, reading and describing leave it sturdy, and what is registered stays
registered.
-/

namespace ObjectWire

namespace Service

variable {service after : Service}

/-- Definitions and buffers are in order, the built-in codecs are in place, and values are handed
    out as they are. -/
structure Sturdy (service : Service) : Prop where
  sound : service.context.Sound
  equipped : service.Equipped
  unmanaged : service.managed = none

theorem Sturdy.handOut (sturdy : service.Sturdy) (value : Value) :
    service.handOut value = value := by
  rw [Service.handOut, sturdy.unmanaged]

theorem Sturdy.context (sturdy : service.Sturdy) {context : PortableContext}
    (evolved : service.context.Evolves context) :
    Sturdy { service with context := context } where
  sound := evolved.sound sturdy.sound
  equipped := ⟨sturdy.equipped.bound, sturdy.equipped.answers, sturdy.equipped.anchored⟩
  unmanaged := sturdy.unmanaged

/-- A sturdy service stays sturdy, and what is registered with it stays registered. -/
def Develops (before after : Service) : Prop :=
  before.Sturdy → after.Sturdy ∧ before.context.Evolves after.context

instance : Std.Refl Develops := ⟨fun _ sturdy => ⟨sturdy, .refl⟩⟩

instance : Trans Develops Develops Develops := by
  refine ⟨fun first second sturdy => ?_⟩
  obtain ⟨still, evolved⟩ := first sturdy
  obtain ⟨last, further⟩ := second still
  exact ⟨last, evolved.trans further⟩

theorem develops_onContext {α : Type} {step : Act PortableContext α}
    (evolves : ∀ context : PortableContext, context.Sound → context.Evolves (step context).2) :
    (onContext step).Within Develops := by
  intro service sturdy
  have evolved := evolves service.context sturdy.sound
  exact ⟨sturdy.context evolved, evolved⟩

theorem develops_codecFor (key : TypeKey) : (codecFor key).Within Develops := by
  intro service sturdy
  have keeps := (Registry.grows_lookup service.registry key).keeps
  refine ⟨⟨sturdy.sound, ⟨?_, ?_, ?_⟩, sturdy.unmanaged⟩, .refl⟩
  · exact fun entry listed => keeps.binding _ _ (sturdy.equipped.bound entry listed)
  · exact fun entry listed => keeps.lookupId _ _ (sturdy.equipped.answers entry listed)
  · exact sturdy.equipped.anchored.lookup key

/-- A definition that is registered under its own key leaves a sturdy service sturdy. -/
theorem develops_register {definition : ClassDefinition} (built : definition.Built) :
    (onContext (PortableContext.register definition)).Within Develops :=
  develops_onContext fun _ sound => (PortableContext.meets_register sound built.wellFormed).1

theorem handles_develops : Handles Develops where
  codecFor := develops_codecFor
  close p := develops_onContext fun context sound => (Frame.meets_close p context sound).1
  binaryOf definition :=
    develops_onContext fun context _ => PortableContext.evolves_binaryOf definition context
  borrow service sturdy := ⟨sturdy.context (.borrow .refl), .borrow .refl⟩
  giveBack service buffer sturdy :=
    ⟨sturdy.context (.giveBack buffer .refl), .giveBack buffer .refl⟩
  importCompressed form :=
    develops_onContext fun _ sound => (PortableContext.meets_importCompressed sound form).1
  report failure service sturdy := by
    obtain ⟨heard, same⟩ := report_service failure service
    rw [same]
    exact ⟨⟨sturdy.sound, ⟨sturdy.equipped.bound, sturdy.equipped.answers,
      sturdy.equipped.anchored⟩, sturdy.unmanaged⟩, .refl⟩
  describe p :=
    develops_onContext fun context sound => (PortableContext.meets_describe p context sound).1.1

theorem respects_develops : Respects Develops := handles_develops.toRespects

/-- The use takes no codec of a type back and is not the teardown, and the definitions that it takes
    in were built, and come under their own keys. -/
def Use.Orderly : Use → Prop
  | .define key definition => key = definition.key ∧ definition.Built
  | .decode (some e) => ∀ definition, e.definition = some definition → definition.Built
  | use => use.Lasting

theorem Use.Orderly.lasting {use : Use} (orderly : use.Orderly) : use.Lasting := by
  cases use with
  | call call => exact orderly
  | destroy => exact orderly
  | _ => exact trivial

/-- Calls touch neither the class definitions nor the managed context. -/
theorem Call.managed_perform (call : Call) (service : Service) :
    (call.perform service).managed = service.managed := by
  cases call with
  | registerRecord key kind =>
    show (Service.registerRecord key kind service).2.managed = _
    unfold Service.registerRecord
    rw [Act.bind_of_ok (Act.get_apply service)]
    split <;> rfl
  | _ => rfl

theorem Use.develops {use : Use} (orderly : use.Orderly) (service : Service) :
    Develops service (use.perform service) := by
  apply handles_develops.use service use
  · rintro call rfl sturdy
    have context := call.context_perform service
    refine ⟨⟨?_, ?_, ?_⟩, ?_⟩
    · rw [context]
      exact sturdy.sound
    · exact Use.equipped orderly.lasting sturdy.equipped
    · rw [call.managed_perform]
      exact sturdy.unmanaged
    · rw [context]
      exact .refl
  · rintro e rfl
    exact within_adopt fun definition brought => develops_register (orderly definition brought)
  · rintro key definition rfl
    obtain ⟨rfl, built⟩ := orderly
    exact develops_register built
  · rintro rfl
    exact orderly.elim

/-- However a service without managed context is used in orderly ways, it stays sturdy. -/
theorem Reachable.sturdy (reachable : Reachable (·.managed = none) Use.Orderly service) :
    service.Sturdy := by
  refine @Reachable.invariant _ _ service Sturdy (fun settings unmanaged => ?_)
    (fun service use orderly sturdy => ?_) (fun service other _ sturdy => ?_) reachable
  · exact ⟨PortableContext.sound_start _ (Pool.clean_ofSettings _ _ _),
      equipped_ofSettings settings, unmanaged⟩
  · exact (use.develops orderly service sturdy).1
  · exact ⟨⟨sturdy.sound.filed, sturdy.sound.wellFormed, sturdy.sound.clean⟩,
      ⟨sturdy.equipped.bound, sturdy.equipped.answers, sturdy.equipped.anchored⟩,
      sturdy.unmanaged⟩

end Service

end ObjectWire
