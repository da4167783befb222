import ObjectWire.Proofs.Registry.Anchored
import ObjectWire.Proofs.Service.Encoding
import ObjectWire.Proofs.Service.Guarded
import ObjectWire.Service.Reading

/-!
# Decoding goes by the codec that encoded

Whatever is called on a new service, a codec that is found for a type also answers to its type id,
or one of its implementation does, as long as every binding that is taken back leaves the type ids
alone that others go by.  An envelope that was just encoded is then decoded by a codec of the
implementation that encoded it.  The registry stays anchored along a run exactly as long as this is
kept to.
-/

namespace ObjectWire

namespace Registry

instance decidableSpares (registry : Registry) (key : TypeKey) : Decidable (registry.Spares key) :=
  match bound : registry.binding key with
  | none => isTrue fun codec h => by rw [bound] at h; cases h
  | some codec =>
    decidable_of_iff (registry.lookupId codec.typeId = some codec →
        (∀ entry ∈ registry.types, entry.1 ≠ key → entry.2.typeId ≠ codec.typeId) ∧
        ∀ other ∈ registry.fallback, other.typeId ≠ codec.typeId) (by simp [Spares, bound])

end Registry

namespace Service

/-- A call that changes what codecs a service finds. -/
inductive Call
  | register (key : TypeKey) (codec : Codec)
  | deregister (key : TypeKey)
  | registerFallback (codec : Codec)
  | deregisterFallback
  | declareType (key : TypeKey) (parents : Parents)
  | registerRecord (key : TypeKey) (kind : RecordKind)
  | find (key : TypeKey)

namespace Call

/-- What a call does. -/
def step : Call → Act Service Unit
  | register key codec => Service.register key codec
  | deregister key => Service.deregister key
  | registerFallback codec => Service.registerFallback codec
  | deregisterFallback => Service.deregisterFallback
  | declareType key parents => Service.declareType key parents
  | registerRecord key kind => Service.registerRecord key kind
  | find key => (fun _ => ()) <$> codecFor key

/-- The service after a call, whether the call failed or not. -/
def perform (call : Call) (service : Service) : Service := (call.step service).2

/-- A call that takes a binding back spares the type ids that others go by. -/
def Spares (service : Service) : Call → Prop
  | deregister key => service.registry.Spares key
  | _ => True

end Call

/-- The service after calls, one after the other. -/
def run (calls : List Call) (service : Service) : Service :=
  calls.foldl (fun service call => call.perform service) service

/-- Every call of a run spares the type ids that others go by. -/
def Spared : List Call → Service → Prop
  | [], _ => True
  | call :: calls, service => call.Spares service ∧ Spared calls (call.perform service)

/-- A new service has the built-in types bound to the built-in codecs. -/
theorem binding_ofSettings (settings : Settings) : ∀ entry ∈ builtinBindings,
    (ofSettings settings).registry.binding entry.1 = some (.builtin entry.2) := by
  show ∀ entry ∈ builtinBindings,
    (ofSettings .default).registry.binding entry.1 = some (.builtin entry.2)
  decide

/-- In a new service the type ids of the built-in codecs lead to these. -/
theorem codecForId_ofSettings (settings : Settings) : ∀ entry ∈ builtinBindings,
    (ofSettings settings).codecForId entry.2.typeId = some (.builtin entry.2) := by
  show ∀ entry ∈ builtinBindings,
    (ofSettings .default).registry.lookupId entry.2.typeId = some (.builtin entry.2)
  decide

theorem anchored_ofSettings (settings : Settings) : (ofSettings settings).registry.Anchored := by
  have types : ∀ entry ∈ (ofSettings settings).registry.types,
      (ofSettings settings).registry.lookupId entry.2.typeId = some entry.2 := by
    show ∀ entry ∈ (ofSettings .default).registry.types,
      (ofSettings .default).registry.lookupId entry.2.typeId = some entry.2
    decide
  have distinct : ((ofSettings settings).registry.ids.map Prod.fst).Nodup := by
    show ((ofSettings .default).registry.ids.map Prod.fst).Nodup
    decide
  exact ⟨distinct, fun entry member => ⟨_, types entry member, entry.2.sameImplementation_refl⟩,
    nofun⟩

theorem anchored_onRegistry {service : Service} {step : (Codec → String) → Act Registry Unit}
    (anchored : service.registry.Anchored)
    (keeps : ∀ {shown after}, step shown service.registry = (.ok (), after) → after.Anchored)
    (refused : ∀ {shown failure after}, step shown service.registry = (.error failure, after) →
      after = service.registry) :
    (onRegistry step service).2.registry.Anchored := by
  rw [onRegistry, Act.on_apply]
  dsimp only
  rcases ran : step service.codecShown service.registry with ⟨failure | _, after⟩
  · rw [refused ran]
    exact anchored
  · exact keeps ran

theorem anchored_registerRecord {service : Service} (anchored : service.registry.Anchored)
    (key : TypeKey) (kind : RecordKind) :
    (Service.registerRecord key kind service).2.registry.Anchored := by
  unfold Service.registerRecord
  rw [Act.bind_of_ok (Act.get_apply service)]
  split
  case isTrue => exact anchored
  case isFalse => exact anchored.declare key _

/-- A call keeps a registry anchored exactly if it spares what is in use. -/
theorem Call.anchored_iff {service : Service} (anchored : service.registry.Anchored) (call : Call) :
    (call.perform service).registry.Anchored ↔ call.Spares service := by
  cases call with
  | register key codec =>
    exact iff_of_true (anchored_onRegistry anchored anchored.register
      fun refused => (Registry.register_error refused).1) ⟨⟩
  | deregister key => exact anchored.deregister_iff
  | registerFallback codec =>
    exact iff_of_true (anchored_onRegistry anchored anchored.registerFallback
      fun refused => (Registry.registerFallback_error refused).1) ⟨⟩
  | deregisterFallback => exact iff_of_true anchored.deregisterFallback ⟨⟩
  | declareType key parents => exact iff_of_true (anchored.declare key parents) ⟨⟩
  | registerRecord key kind =>
    exact iff_of_true (anchored_registerRecord anchored key kind) ⟨⟩
  | find key =>
    refine iff_of_true ?_ ⟨⟩
    rw [perform, step, Act.map_apply]
    exact anchored.lookup key

/-- A registry stays anchored throughout a run exactly if every call spares what is in use. -/
theorem spared_iff {service : Service} (anchored : service.registry.Anchored) (calls : List Call) :
    Spared calls service ↔ ∀ front, front <+: calls → (run front service).registry.Anchored := by
  induction calls generalizing service with
  | nil =>
    apply iff_of_true ⟨⟩
    intro front start
    rw [List.prefix_nil.mp start]
    exact anchored
  | cons call calls ih =>
    constructor
    · rintro ⟨spares, rest⟩ front start
      have next := (call.anchored_iff anchored).mpr spares
      rcases List.prefix_cons_iff.mp start with rfl | ⟨later, rfl, shorter⟩
      · exact anchored
      · exact (ih next).mp rest later shorter
    · intro always
      have next : (call.perform service).registry.Anchored :=
        always [call] (List.prefix_cons_iff.mpr (.inr ⟨[], rfl, List.nil_prefix⟩))
      refine ⟨(call.anchored_iff anchored).mp next, (ih next).mpr fun front start => ?_⟩
      exact always (call :: front) (List.prefix_cons_iff.mpr (.inr ⟨front, rfl, start⟩))

/-- Decodes an envelope by a given codec. -/
def decodeBy (codec : Codec) (e : Envelope) : Act Service Value := do
  adopt e
  let value ← fun service =>
    match readBy readValue codec ⟨.ofBytes e.payload, service, true⟩ with
    | (outcome, reached) => (outcome, reached.service)
  pure ((← get).handOut value)

theorem decode_of_codecForId {service : Service} {e : Envelope} {holder : Codec}
    (h : service.codecForId e.typeId = some holder) :
    decode e service = decodeBy holder e service := by
  unfold decode
  rw [Act.bind_of_ok (Act.get_apply service), h]
  rfl

theorem codecForValue_of_lookup {value : Value} {service : Service} {key : TypeKey} {codec : Codec}
    (typed : value.typeKey? = some key) (found : (service.registry.lookup key).1 = some codec) :
    codecForValue value service =
      (.ok codec, { service with registry := (service.registry.lookup key).2 }) := by
  have answer : codecFor key service =
      (.ok (some codec), { service with registry := (service.registry.lookup key).2 }) := by
    rw [codecFor, ← found]
  unfold codecForValue
  simp only [typed]
  exact (Act.bind_of_ok answer).trans rfl

theorem codecForValue_ok {value : Value} {service after : Service} {codec : Codec}
    (h : codecForValue value service = (.ok codec, after)) :
    ∃ key, value.typeKey? = some key ∧ (service.registry.lookup key).1 = some codec ∧
      after.registry.ids = service.registry.ids := by
  unfold codecForValue at h
  cases known : value.typeKey? with
  | none => simp only [known] at h; cases h
  | some key =>
    simp only [known] at h
    obtain ⟨found, reached, looked, h⟩ := Act.bind_ok h
    cases found with
    | none => cases h
    | some codec =>
      cases h
      have answer : (service.registry.lookup key).1 = some codec :=
        Except.ok.inj (congrArg Prod.fst looked)
      have same : (service.registry.lookup key).2 = after.registry :=
        congrArg (fun result => result.2.registry) looked
      exact ⟨key, rfl, answer, same ▸ Registry.lookup_ids service.registry key⟩

/-- An envelope that holds something is decoded by the codec that its type id is bound to. -/
theorem toObject_of_bound {service : Service} {e : Envelope} {holder : Codec}
    (holds : e.payload.isEmpty = false) (bound : service.codecForId e.typeId = some holder) :
    toObject (some e) service =
      guarded id (fun service _ => service) (decodeBy holder e) service := by
  simp only [toObject, holds, Bool.false_eq_true, if_false, guarded, decode_of_codecForId bound]

/-- An envelope that holds something under an id that nothing is bound to is of unknown type. -/
theorem toObject_of_unbound {service : Service} {e : Envelope} (holds : e.payload.isEmpty = false)
    (unbound : service.codecForId e.typeId = none) :
    toObject (some e) service = (.error (.unknownType e.typeId), service) := by
  have refused : decode e service = (.error (.unknownType e.typeId), service) := by
    unfold decode
    rw [Act.bind_of_ok (Act.get_apply service), unbound]
    rfl
  simp only [toObject, holds, Bool.false_eq_true, if_false, guarded, refused]
  rfl

/-- Encoding does not touch the bindings of type ids. -/
def SameIds (before after : Service) : Prop := after.registry.ids = before.registry.ids

instance : Std.Refl SameIds := ⟨fun _ => rfl⟩

instance : Trans SameIds SameIds SameIds := ⟨fun first second => Eq.trans second first⟩

theorem sameIds_onContext {α : Type} (step : Act PortableContext α) :
    (onContext step).Within SameIds := by
  intro service
  unfold onContext Act.on
  rfl

theorem respects_sameIds : Respects SameIds where
  codecFor key service := Registry.lookup_ids service.registry key
  close p := sameIds_onContext (Frame.close p)
  binaryOf definition := sameIds_onContext (PortableContext.binaryOf definition)
  borrow _ := rfl
  giveBack _ _ := rfl

/-- An output in a buffer that is lent to it. -/
def lent (service : Service) : Writing :=
  ⟨service.context.pool.acquire.1,
    { service with context := { service.context with pool := service.context.pool.acquire.2 } },
    true⟩

section Lent

variable {α : Type} {service after : Service} {step : Act Writing α} {answer : α} {content : Bytes}
  {failure : Failure} {last : Writing}

theorem inBuffer_of_ok (h : step service.lent = (.ok answer, last)) :
    inBuffer step service = (.ok (answer, last.output.content),
      { last.service with context := { last.service.context with
        pool := last.service.context.pool.release last.output } }) := by
  unfold lent at h
  unfold inBuffer
  dsimp only
  rw [h]
  rfl

theorem inBuffer_of_error (h : step service.lent = (.error failure, last)) :
    ∃ after, inBuffer step service = (.error failure, after) := by
  unfold lent at h
  unfold inBuffer
  dsimp only
  rw [h]
  exact ⟨_, rfl⟩

theorem inBuffer_ok (h : inBuffer step service = (.ok (answer, content), after)) :
    ∃ last, step service.lent = (.ok answer, last) ∧ content = last.output.content ∧
      after = { last.service with
        context := { last.service.context with
          pool := last.service.context.pool.release last.output } } := by
  rcases ran : step service.lent with ⟨refused | answer, last⟩
  · obtain ⟨final, failed⟩ := inBuffer_of_error ran
    rw [failed] at h
    cases h
  · rw [inBuffer_of_ok ran] at h
    cases h
    exact ⟨last, rfl, rfl, rfl⟩

theorem inBuffer_error (h : inBuffer step service = (.error failure, after)) :
    ∃ last, step service.lent = (.error failure, last) := by
  rcases ran : step service.lent with ⟨refused | answer, last⟩
  · obtain ⟨final, failed⟩ := inBuffer_of_error ran
    rw [failed] at h
    cases h
    exact ⟨last, rfl⟩
  · rw [inBuffer_of_ok ran] at h
    cases h

end Lent

theorem toData_of_encodeBy {value : Value} {parts : Parts} {e : Envelope} {service reached : Service}
    (guards : toData value = guarded id (fun service _ => service) (some <$> encodeBy value parts))
    (encoded : encodeBy value parts service = (.ok e, reached)) :
    toData value service = (.ok (some e), reached) := by
  rw [guards]
  apply guarded_of_ok
  rw [Act.map_apply, encoded]
  rfl

/-- What a codec writes in a buffer is what a value without a partition key is encoded to. -/
theorem toData_of_written {value : Value} {parts : Parts} {codec : Codec} {service looked : Service}
    {definition : Option ClassDefinition} {last : Writing}
    (guards : toData value = guarded id (fun service _ => service) (some <$> encodeBy value parts))
    (chosen : codecForValue value service = (.ok codec, looked))
    (written : writeDefined codec value parts looked.lent = (.ok definition, last))
    (keyless : parts.keyHash = pure none) :
    toData value service =
      (.ok (some ⟨codec.typeId, last.output.content, definition, none⟩),
        { last.service with context := { last.service.context with
          pool := last.service.context.pool.release last.output } }) := by
  apply toData_of_encodeBy guards
  unfold encodeBy
  rw [Act.bind_of_ok chosen, Act.bind_of_ok (inBuffer_of_ok written), keyless]
  rfl

theorem encodeBy_of_toData {value : Value} {e : Envelope} {service after : Service}
    (fresh : ∀ held, value ≠ .envelope held) (h : toData value service = (.ok (some e), after)) :
    encodeBy value (partsOf value) service = (.ok e, after) := by
  unfold toData at h
  split at h
  case h_1 => cases h
  case h_2 held => exact absurd rfl (fresh held)
  case h_3 =>
    obtain ⟨inner, ran, same⟩ := Act.map_ok (guarded_ok h)
    cases same
    exact ran

/-- What is known of the envelope is known of one that a value is encoded to. -/
theorem exists_toData {γ : Type} {shown : Envelope → γ} {answer : γ} {value : Value}
    {service : Service} (h : (toData value service).1.toOption.join.map shown = some answer) :
    ∃ e after, toData value service = (.ok (some e), after) ∧ shown e = answer := by
  rcases ran : toData value service with ⟨failure | _ | e, after⟩
  · rw [ran] at h
    cases h
  · rw [ran] at h
    cases h
  · rw [ran] at h
    cases h
    exact ⟨e, after, rfl, rfl⟩

/-- What encodes a value is the codec found for its type. -/
theorem toData_ok {value : Value} {e : Envelope} {service after : Service}
    (fresh : ∀ held, value ≠ .envelope held) (h : toData value service = (.ok (some e), after)) :
    ∃ key codec, value.typeKey? = some key ∧ (service.registry.lookup key).1 = some codec ∧
      e.typeId = codec.typeId ∧ SameIds service after := by
  have encoded := encodeBy_of_toData fresh h
  have sameIds := Act.within_of_ok (within_encodeBy respects_sameIds value) encoded
  obtain ⟨codec, found, looked, encoded⟩ := Act.bind_ok encoded
  obtain ⟨written, buffered, -, encoded⟩ := Act.bind_ok encoded
  obtain ⟨hash, hashed, -, encoded⟩ := Act.bind_ok encoded
  cases encoded
  obtain ⟨key, typed, answer, -⟩ := codecForValue_ok looked
  exact ⟨key, codec, typed, answer, rfl, sameIds⟩

/-- In a service that was only called upon, and where what was taken back spared the type ids in
    use, every codec that is found for a type answers to its type id, and what a value was just
    encoded to is decoded by a codec of the implementation that encoded it.  Sparing is what it
    takes: it is the same as the registry being anchored throughout the run. -/
theorem decodes_by_encoding_implementation (settings : Settings) (calls : List Call) :
    (Spared calls (ofSettings settings) ↔
      ∀ front, front <+: calls → (run front (ofSettings settings)).registry.Anchored) ∧
    (Spared calls (ofSettings settings) →
      let service := run calls (ofSettings settings)
      (∀ key codec, (service.registry.lookup key).1 = some codec →
        ∃ holder, service.codecForId codec.typeId = some holder ∧
          holder.sameImplementation codec = true) ∧
      ∀ value e after, (∀ held, value ≠ .envelope held) →
        toData value service = (.ok (some e), after) →
        ∃ key codec holder, value.typeKey? = some key ∧
          (service.registry.lookup key).1 = some codec ∧ e.typeId = codec.typeId ∧
          holder.sameImplementation codec = true ∧
          toObject (some e) after =
            if e.payload.isEmpty then (.ok .null, after)
            else guarded id (fun service _ => service) (decodeBy holder e) after) := by
  have anchored := anchored_ofSettings settings
  refine ⟨spared_iff anchored calls, fun spared => ?_⟩
  have reached := (spared_iff anchored calls).mp spared calls (List.prefix_refl calls)
  refine ⟨fun key codec found => reached.of_lookup found, ?_⟩
  intro value e after fresh encoded
  obtain ⟨key, codec, typed, found, typeId, sameIds⟩ := toData_ok fresh encoded
  obtain ⟨holder, held, same⟩ := (reached.of_lookup found).of_ids_eq sameIds
  have chosen : after.codecForId e.typeId = some holder := by rw [typeId]; exact held
  refine ⟨key, codec, holder, typed, found, typeId, same, ?_⟩
  unfold toObject
  dsimp only
  by_cases vacant : e.payload.isEmpty = true
  · rw [if_pos vacant, if_pos vacant]
    rfl
  · rw [if_neg vacant, if_neg vacant]
    unfold guarded
    rw [decode_of_codecForId chosen]

/-- Two instances of one implementation, each under a type and an id of its own. -/
theorem decodes_by_encoding_implementation_of_two :
    let calls : List Call :=
      [.register ⟨"a.A"⟩ (.custom ⟨"c", 0, 50, .typeName⟩),
       .register ⟨"a.B"⟩ (.custom ⟨"d", 0, 51, .typeName⟩),
       .deregister ⟨"a.A"⟩, .find ⟨"a.B"⟩]
    let service := run calls (ofSettings .default)
    let e : Envelope := ⟨51, [0, 0, 0, 3, 97, 46, 66], none, none⟩
    Spared calls (ofSettings .default) ∧
      ∃ after, toData (.object (.carrying ⟨"a.B"⟩ none none)) service = (.ok (some e), after) ∧
        ∃ holder, toObject (some e) after =
          guarded id (fun service _ => service) (decodeBy holder e) after := by
  intro calls service e
  have spares : Registry.Spares (run (calls.take 2) (ofSettings .default)).registry ⟨"a.A"⟩ := by
    decide
  have spared : Spared calls (ofSettings .default) := ⟨⟨⟩, ⟨⟩, spares, ⟨⟩, ⟨⟩⟩
  refine ⟨spared, _, rfl, ?_⟩
  obtain ⟨-, holds⟩ := decodes_by_encoding_implementation .default calls
  obtain ⟨key, codec, holder, -, -, -, -, decoded⟩ :=
    (holds spared).2 (.object (.carrying ⟨"a.B"⟩ none none)) e _ nofun rfl
  exact ⟨holder, decoded⟩

/-- A codec under two types loses its type id when one of them is taken back: the other type still
    finds it, but what it encodes is of an unknown type. -/
theorem shared_type_id_freed :
    let codec : Codec := .custom ⟨"c", 0, 50, .typeName⟩
    let service := run
      [.register ⟨"a.A"⟩ codec, .register ⟨"a.B"⟩ codec, .deregister ⟨"a.A"⟩] (ofSettings .default)
    (service.registry.lookup ⟨"a.B"⟩).1 = some codec ∧ service.codecForId 50 = none ∧
      ∃ e after, toData (.object (.carrying ⟨"a.B"⟩ none none)) service = (.ok (some e), after) ∧
        (toObject (some e) after).1 = .error (.unknownType 50) := by
  refine ⟨by decide, by decide, _, _, rfl, rfl⟩

end Service

end ObjectWire
