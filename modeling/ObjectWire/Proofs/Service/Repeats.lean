import ObjectWire.Proofs.Portable.Repeats
import ObjectWire.Proofs.Registry.Stability
import ObjectWire.Proofs.Service.Uses

/-!
# Values that are encoded again

Encoding a value adopts codecs and registers definitions, so the service is another one afterwards.
Encoding the value again comes to the same envelope nevertheless, as long as bindings are only added
and no parents are declared: every codec that was found is found again, every object is framed as
before, and the forms and kinds of records that are asked for are still there.
-/

namespace ObjectWire

namespace Service

variable {service after later : Service}

/-- What the codecs found for types and the definitions found for objects rest on. -/
structure Settled (service : Service) : Prop where
  tidy : service.context.Tidy
  grounded : service.registry.Grounded

/-- What values are encoded by is there later on. -/
structure Persists (service after : Service) : Prop where
  registry : service.registry.Grows after.registry
  context : service.context.Persists after.context
  records : after.records = service.records
  names : after.names = service.names

theorem Persists.refl (service : Service) : service.Persists service :=
  ⟨.refl _, Std.Refl.refl service.context, rfl, rfl⟩

theorem Persists.trans (first : service.Persists after) (second : after.Persists later) :
    service.Persists later :=
  ⟨first.registry.trans second.registry, first.context.trans second.context,
    second.records.trans first.records, second.names.trans first.names⟩

/-- A service is known by what values are encoded by. -/
@[reducible] def memory : Memory Service where
  holds := Settled
  keeps := Persists
  View := Unit
  view _ := ()
  refl := Persists.refl
  trans := Persists.trans

theorem repeats_codecForValue (value : Value) : (codecForValue value).Repeats memory := by
  intro service codec after settled ran
  obtain ⟨key, typed, found, -⟩ := codecForValue_ok ran
  have grows := Registry.grows_lookup service.registry key
  rw [codecForValue_of_lookup typed found] at ran
  cases ran
  refine ⟨⟨settled.tidy, settled.grounded.of_grows grows⟩,
    ⟨grows, Std.Refl.refl service.context, rfl, rfl⟩, fun again _ keeps _ => ?_⟩
  have lookedUp := settled.grounded.lookup_again found keeps.registry
  exact ⟨_, codecForValue_of_lookup typed (congrArg Prod.fst lookedUp), rfl⟩

theorem repeats_onContext {α : Type} {step : Act PortableContext α}
    (repeats : step.Repeats PortableContext.memory) : (onContext step).Repeats memory :=
  repeats.on
    { holds := fun settled => settled.tidy
      looks := fun _ _ _ => rfl
      back := fun {service _} settled tidy kept =>
        ⟨⟨tidy, settled.grounded⟩, ⟨.refl service.registry, kept, rfl, rfl⟩⟩
      ahead := fun keeps => keeps.context
      shows := fun _ _ => rfl }

end Service

/-- An output that is bound to a service looks the same if its content does. -/
@[reducible] def Writing.memory : Memory Writing where
  holds writing := writing.bound = true ∧ writing.service.Settled
  keeps before after := before.service.Persists after.service
  View := Bytes
  view writing := writing.output.content
  refl writing := .refl writing.service
  trans := Service.Persists.trans

namespace Service

theorem repeats_onOutput {step : Act Output Unit} (borrows : step.Borrows 0) :
    (Writing.onOutput step).Repeats Writing.memory :=
  (Output.repeats_of_borrows borrows).on
    { holds := fun _ => trivial
      looks := fun _ _ same => same
      back := fun {writing _} holds _ _ => ⟨holds, .refl writing.service⟩
      ahead := fun _ => trivial
      shows := fun _ same => same }

theorem repeats_onService {α : Type} {step : Act Service α} (repeats : step.Repeats memory) :
    (Writing.onService step).Repeats Writing.memory :=
  repeats.on
    { holds := fun holds => holds.2
      looks := fun _ _ _ => rfl
      back := fun holds settled keeps => ⟨⟨holds.1, settled⟩, keeps⟩
      ahead := id
      shows := fun same _ => same }

/-- A bound output has the service make the form. -/
theorem repeats_compressedForm (definition : ClassDefinition) :
    (Writing.compressedForm definition).Repeats Writing.memory := by
  have made := repeats_onService
    (repeats_onContext (PortableContext.repeats_binaryOf definition))
  refine made.congr fun {writing} holds => ?_
  unfold Writing.compressedForm
  rw [Act.bind_of_ok (Act.get_apply writing), if_pos holds.1]

theorem repeats_writeDocument (o : UserObject) : (writeDocument o).Repeats Writing.memory := by
  have put : ∀ item, (Writing.onOutput (Output.writeItem item)).Repeats Writing.memory :=
    fun item => repeats_onOutput (Output.borrows_writeItem item)
  refine Act.repeats_get (fun {writing again} _ keeps _ => ?_) fun writing => ?_
  · rw [keeps.records, keeps.names]
  · split
    case h_1 => exact Act.repeats_fail _
    case h_2 kind _ =>
      split
      case h_1 =>
        split
        case isTrue => exact (put _).bind fun _ => put _
        case isFalse => exact Act.repeats_fail _
      case h_2 => exact Act.repeats_fail _

/-- A payload is begun in a borrowed buffer, which is empty. -/
theorem repeats_inBuffer {α : Type} {step : Act Writing α} (repeats : step.Repeats Writing.memory) :
    (inBuffer step).Repeats memory := by
  have enters : memory.Enters Writing.memory
      (fun service => ⟨service.context.pool.acquire.1, { service with
        context := { service.context with pool := service.context.pool.acquire.2 } }, true⟩)
      (fun _ reached => { reached.service with context := { reached.service.context with
        pool := reached.service.context.pool.release reached.output } }) :=
    { holds := fun {service} settled => ⟨rfl, serves_tidy.borrow service settled.tidy,
        settled.grounded⟩
      looks := fun settled ready _ =>
        ready.tidy.clean.acquire_content.trans settled.tidy.clean.acquire_content.symm
      back := fun {_ reached} _ holds keeps =>
        ⟨⟨serves_tidy.giveBack reached.service reached.output holds.2.tidy, holds.2.grounded⟩,
          ⟨keeps.registry, ⟨keeps.context.version, keeps.context.lookup, keeps.context.formFor⟩,
            keeps.records, keeps.names⟩⟩
      ahead := fun keeps => ⟨keeps.registry,
        ⟨keeps.context.version, keeps.context.lookup, keeps.context.formFor⟩, keeps.records,
        keeps.names⟩
      shows := fun _ _ => rfl }
  exact repeats.enter enters (fun value reached => (value, reached.output.content))
    (fun _ => rfl) fun same => congrArg (Prod.mk _) same

/-- Coming to the same again is a property of all that encoding is made of. -/
theorem pervades_repeats : Pervades (fun step => step.Repeats Writing.memory)
    (fun step => step.Repeats memory) where
  writing := Act.composes_repeats
  service := Act.composes_repeats
  onOutput := repeats_onOutput
  onService := repeats_onService
  codecForValue := repeats_codecForValue
  close p := repeats_onContext (Frame.repeats_close p)
  compressedForm := repeats_compressedForm
  writeDocument := repeats_writeDocument
  nested repeats := repeats.congr fun {writing} holds => by
    rw [Act.bind_of_ok (Act.get_apply writing), if_pos holds.1]
  inBuffer := repeats_inBuffer

end Service

end ObjectWire
