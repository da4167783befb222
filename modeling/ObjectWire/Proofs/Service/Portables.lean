import ObjectWire.Proofs.Portable.Closing
import ObjectWire.Proofs.Portable.Compressed
import ObjectWire.Proofs.Service.Coherence

/-!
# Services that register definitions and encode portable objects

Nothing that such a service does replaces a definition, loses a compressed form, or takes the codec
of portable objects away.  Encoding a portable object therefore yields the frame of the object by
the definitions in use, together with the definition of its class and version.
-/

namespace ObjectWire

namespace PortableContext

/-- If the context is sound it evolves, and stays self-contained if it was. -/
def FillsSound (context now : PortableContext) : Prop := context.Sound → Fills context now

instance : Std.Refl FillsSound := ⟨fun _ _ => ⟨.refl, id⟩⟩

instance : Trans FillsSound FillsSound FillsSound := by
  refine ⟨fun first second sound => ?_⟩
  have filled := first sound
  exact Trans.trans filled (second (filled.1.sound sound))

theorem fills_pool (context : PortableContext) {now : PortableContext}
    (evolved : context.Evolves now) (same : now.definitions = context.definitions) :
    Fills context now :=
  ⟨evolved, fun selfContained => selfContained.of_definitions same⟩

theorem respects_fillsSound : Respects FillsSound where
  describe p context sound := (meets_describe p context sound).1
  borrow context _ := fills_pool context (.borrow .refl) rfl
  giveBack context buffer _ := fills_pool context (.giveBack buffer .refl) rfl

end PortableContext

namespace Service

/-- What a service keeps of its settings, whatever is registered and encoded. -/
structure Keeps (settings : Settings) (service : Service) : Prop where
  sound : service.context.Sound
  stocked : service.context.Stocked
  undeclared : service.registry.hierarchy = .empty
  bound : service.registry.binding .portable = some (.builtin .portable)
  answers : service.codecForId BuiltinCodec.portable.typeId = some (.builtin .portable)
  factory : service.portableFactory = settings.portableFactory
  managed : service.managed = settings.managed

variable {settings : Settings} {service after : Service} {p : Portable}

theorem keeps_ofSettings (settings : Settings) : (ofSettings settings).Keeps settings where
  sound := PortableContext.sound_start _ (Pool.clean_ofSettings _ _ _)
  stocked := ⟨nofun, nofun, nofun⟩
  undeclared := rfl
  bound := rfl
  answers := rfl
  factory := rfl
  managed := rfl

/-- What is kept goes on being kept, and the definitions evolve without coming to contradict each
    other. -/
def Grows (settings : Settings) (before after : Service) : Prop :=
  before.Keeps settings →
    PortableContext.Fills before.context after.context ∧ after.Keeps settings

instance : Std.Refl (Grows settings) := ⟨fun _ keeps => ⟨⟨.refl, id⟩, keeps⟩⟩

instance : Trans (Grows settings) (Grows settings) (Grows settings) := by
  refine ⟨fun first second keeps => ?_⟩
  obtain ⟨filled, kept⟩ := first keeps
  obtain ⟨further, still⟩ := second kept
  exact ⟨Trans.trans filled further, still⟩

theorem Keeps.context (keeps : service.Keeps settings) {context : PortableContext}
    (evolved : service.context.Evolves context)
    (stocks : PortableContext.Stocks service.context context) :
    Keeps settings { service with context := context } where
  sound := evolved.sound keeps.sound
  stocked := stocks keeps.stocked
  undeclared := keeps.undeclared
  bound := keeps.bound
  answers := keeps.answers
  factory := keeps.factory
  managed := keeps.managed

theorem grows_onContext {α : Type} {step : Act PortableContext α}
    (fills : step.Within PortableContext.FillsSound)
    (stocks : step.Within PortableContext.Stocks) : (onContext step).Within (Grows settings) := by
  intro service keeps
  have filled := fills service.context keeps.sound
  exact ⟨filled, keeps.context filled.1 (stocks service.context)⟩

theorem grows_codecFor (key : TypeKey) : (codecFor key).Within (Grows settings) := by
  intro service keeps
  refine ⟨⟨.refl, id⟩, ?_⟩
  obtain ⟨walks, same | ⟨codec, -, grown⟩⟩ := Registry.lookup_registry service.registry key
  all_goals
    have answered : (codecFor key service).2 =
        { service with registry := (service.registry.lookup key).2 } := rfl
    rw [answered]
  · rw [same]
    exact ⟨keeps.sound, keeps.stocked, keeps.undeclared, keeps.bound, keeps.answers,
      keeps.factory, keeps.managed⟩
  · rw [grown]
    exact ⟨keeps.sound, keeps.stocked, keeps.undeclared, Keyed.lookup_append_of_some keeps.bound,
      keeps.answers, keeps.factory, keeps.managed⟩

theorem respects_grows : Respects (Grows settings) where
  codecFor := grows_codecFor
  close p := grows_onContext (Frame.within_close PortableContext.respects_fillsSound p)
    (Frame.within_close PortableContext.respects_stocks p)
  binaryOf definition :=
    grows_onContext (fun context _ => PortableContext.fills_binaryOf definition context)
      (PortableContext.stocks_binaryOf definition)
  borrow service keeps := by
    have filled := PortableContext.respects_fillsSound.borrow service.context keeps.sound
    exact ⟨filled, keeps.context filled.1 (PortableContext.respects_stocks.borrow service.context)⟩
  giveBack service buffer keeps := by
    have filled := PortableContext.respects_fillsSound.giveBack service.context buffer keeps.sound
    exact ⟨filled,
      keeps.context filled.1 (PortableContext.respects_stocks.giveBack service.context buffer)⟩

theorem grows_report (failure : Failure) (service : Service) :
    Grows settings service (report failure service).2 := by
  intro keeps
  unfold Service.report
  split
  case h_1 =>
    exact ⟨⟨.refl, id⟩, keeps.sound, keeps.stocked, keeps.undeclared, keeps.bound, keeps.answers,
      keeps.factory, keeps.managed⟩
  case h_2 => exact ⟨⟨.refl, id⟩, keeps⟩
  case h_3 => exact ⟨⟨.refl, id⟩, keeps⟩

theorem grows_toData (p : Portable) : (toData (.portable p)).Within (Grows settings) := by
  intro service
  have respects : Respects (Grows settings) := respects_grows
  have encoded := within_encodeBy respects (.portable p) service
  show Grows settings service (guarded id (fun service _ => service)
    (some <$> encodeBy (.portable p) (partsOf (.portable p))) service).2
  unfold guarded
  rw [Act.map_apply]
  rcases ran : encodeBy (.portable p) (partsOf (.portable p)) service with ⟨outcome, reached⟩
  rw [ran] at encoded
  cases outcome with
  | error failure =>
    have heard : Grows settings reached (report failure reached).2 := grows_report failure reached
    exact Trans.trans encoded heard
  | ok e => exact encoded

/-- Services as they arise where definitions are registered by hand and portable objects are
    encoded, all of which may fail. -/
inductive Reached (settings : Settings) : List ClassDefinition → Service → Prop
  | start : Reached settings [] (ofSettings settings)
  | register {byHand : List ClassDefinition} {service : Service} {definition : ClassDefinition}
      (before : Reached settings byHand service) (wellFormed : definition.WellFormed) :
      Reached settings (definition :: byHand)
        (onContext (PortableContext.register definition) service).2
  | encode {byHand : List ClassDefinition} {service : Service}
      (before : Reached settings byHand service) (p : Portable) :
      Reached settings byHand (toData (.portable p) service).2

variable {byHand : List ClassDefinition}

theorem Reached.keeps (reached : Reached settings byHand service) : service.Keeps settings := by
  induction reached with
  | start => exact keeps_ofSettings settings
  | @register byHand service definition _ wellFormed ih =>
    have evolved := (PortableContext.meets_register ih.sound wellFormed).1
    exact ih.context evolved (PortableContext.stocks_register definition service.context)
  | encode _ p ih => exact (grows_toData p _ ih).2

/-- Where nothing is registered by hand no definitions contradict each other. -/
theorem Reached.selfContained (reached : Reached settings byHand service) (none : byHand = []) :
    service.context.SelfContained := by
  induction reached with
  | start => exact fun _ _ found => nomatch found
  | register _ _ _ => cases none
  | encode before p ih => exact (grows_toData p _ before.keeps).1.2 (ih none)

/-- The envelope brings the frame of an object, and the definition that is registered for its class
    at its version. -/
structure Packs (service : Service) (p : Portable) (e : Envelope) : Prop where
  typeId : e.typeId = BuiltinCodec.portable.typeId
  definition : ∃ definition, e.definition = some definition ∧
    service.context.lookup (service.context.keyOf p) = some definition
  payload : service.context.frame p = some e.payload
  covers : service.context.Covers p

theorem Packs.of_evolves {e : Envelope} (packs : service.Packs p e)
    (evolved : service.context.Evolves after.context) : after.Packs p e := by
  obtain ⟨definition, brought, found⟩ := packs.definition
  refine ⟨packs.typeId, ⟨definition, brought, ?_⟩, evolved.frame p _ packs.payload,
    evolved.covers packs.covers⟩
  rw [PortableContext.keyOf_of_evolves evolved]
  exact evolved.lookup found

theorem Keeps.lookup_portable (keeps : service.Keeps settings) :
    service.registry.lookup .portable = (some (.builtin .portable), service.registry) := by
  have family : service.registry.familyCodec .portable = none := by
    rw [Registry.familyCodec, keeps.undeclared]
    rfl
  unfold Registry.lookup
  rw [family, keeps.bound]

theorem writePortable_ok {writing last : Writing} {definition : ClassDefinition}
    (h : writePortable p writing = (.ok definition, last)) :
    ∃ closed reached, Frame.close p writing.service.context = (.ok closed, reached) ∧
      closed.definition = definition ∧ closed.write writing.output = (.ok (), last.output) ∧
      last.service = { writing.service with context := reached } := by
  obtain ⟨closed, middle, framed, h⟩ := Act.bind_ok h
  obtain ⟨service, ran, rfl⟩ := Act.on_ok framed
  obtain ⟨reached, closing, rfl⟩ := Act.on_ok ran
  obtain ⟨_, written, put, h⟩ := Act.bind_ok h
  obtain ⟨output, wrote, rfl⟩ := Act.on_ok put
  cases h
  exact ⟨closed, reached, closing, rfl, wrote, rfl⟩

/-- What a portable object is encoded to. -/
theorem packs_toData {e : Envelope} (keeps : service.Keeps settings)
    (h : toData (.portable p) service = (.ok (some e), after)) : after.Packs p e := by
  have fresh : ∀ held, Value.portable p ≠ .envelope held := fun held => nofun
  have encoded := encodeBy_of_toData fresh h
  obtain ⟨codec, chosen, looked, encoded⟩ := Act.bind_ok encoded
  obtain ⟨⟨definition, payload⟩, buffered, packed, encoded⟩ := Act.bind_ok encoded
  obtain ⟨hash, hashed, keyed, encoded⟩ := Act.bind_ok encoded
  cases encoded
  have found : codecFor .portable service = (.ok (some (.builtin .portable)), service) := by
    unfold codecFor
    rw [keeps.lookup_portable]
  have choice : codecForValue (.portable p) service = (.ok (.builtin .portable), service) := by
    unfold codecForValue
    exact (Act.bind_of_ok found).trans rfl
  rw [choice] at looked
  cases looked
  have respects : Respects (Grows settings) := respects_grows
  have inside := contained_partsOf respects (.portable p)
  have grows := respects.inBuffer
    (respects.writeDefined inside (.builtin .portable) (.portable p))
  obtain ⟨-, kept⟩ := Act.within_of_ok grows packed keeps
  obtain ⟨further, -⟩ := Act.within_of_ok inside.keyHash keyed kept
  obtain ⟨last, written, rfl, rfl⟩ := inBuffer_ok packed
  obtain ⟨described, wrote, rfl⟩ := Act.map_ok written
  obtain ⟨closed, reached, closing, rfl, put, same⟩ := writePortable_ok wrote
  have lent : service.context.Evolves
      { service.context with pool := service.context.pool.acquire.2 } := .borrow .refl
  obtain ⟨-, answers⟩ := Frame.meets_close p _ (lent.sound keeps.sound)
  have frames := answers closed reached closing
  obtain ⟨run, framed, content⟩ := frames.appends _ _ put
  have empty : service.lent.output.content = [] := keeps.sound.clean.acquire_content
  rw [empty, List.nil_append] at content
  -- after the frame is closed, the buffer goes back and the key is hashed
  have returned : reached.Evolves
      { last.service.context with
        pool := last.service.context.pool.release last.output } := by
    rw [same]
    exact .giveBack _ .refl
  have framedHere : Packs { last.service with context := reached } p
      ⟨BuiltinCodec.portable.typeId, last.output.content, some closed.definition, hash⟩ :=
    ⟨rfl, ⟨closed.definition, rfl, frames.found⟩, by rw [content]; exact framed, frames.covers⟩
  exact framedHere.of_evolves (returned.trans further.1)

end Service

end ObjectWire
