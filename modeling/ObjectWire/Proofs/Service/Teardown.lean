import ObjectWire.Proofs.Portable.Respects
import ObjectWire.Proofs.Service.Instances

/-!
# Tearing a service down

The teardown is due for every instance in use, once, however many types and ids it is bound to.
Afterwards no instance is in use, and none comes into use before a registration is accepted: no
value finds a codec and no envelope is of a known type, whatever is declared or looked up in the
meantime.  The pool is empty, and conversions, which all fail before they borrow a buffer, leave it
empty.
-/

namespace ObjectWire

namespace Registry

variable {registry : Registry} {key : TypeKey}

/-- Where nothing is in use, nothing is found for a type, and looking for it leaves no trace but the
    count of walks. -/
theorem lookup_of_no_instances (none : registry.instances = []) (key : TypeKey) :
    ∃ walks, registry.lookup key = (Option.none, { registry with walks := walks }) := by
  have absent : (registry.lookup key).1 = Option.none := by
    cases found : (registry.lookup key).1 with
    | none => rfl
    | some codec =>
      have member := mem_instances_of_lookup found
      rw [none] at member
      cases member
  obtain ⟨walks, same | ⟨codec, found, -⟩⟩ := lookup_registry registry key
  · exact ⟨walks, Prod.ext absent same⟩
  · rw [absent] at found
    cases found

theorem lookupId_of_no_instances (none : registry.instances = []) (id : Int32) :
    registry.lookupId id = Option.none := by
  cases found : registry.lookupId id with
  | none => rfl
  | some codec =>
    have member := mem_instances_of_lookupId found
    rw [none] at member
    cases member

end Registry

namespace Service

variable {service : Service} {starts : Settings → Prop} {allowed : Use → Prop}

theorem serves_counted : Serves (Act.Preserves fun service => service.context.pool.Counted) where
  codecFor _ _ := id
  close p := preserves_onContext (Frame.within_close Pool.lends_counted.respects p)
  binaryOf definition := preserves_onContext (Pool.lends_counted.binaryOf definition)
  borrow _ counted := counted.acquire
  giveBack _ buffer counted := counted.release buffer
  register definition := preserves_onContext (Pool.lends_counted.register definition)
  importCompressed form := preserves_onContext (Pool.lends_counted.importCompressed form)
  report failure service counted := by
    obtain ⟨heard, same⟩ := report_service failure service
    rw [same]
    exact counted
  describe p := preserves_onContext (Pool.lends_counted.respects.describe p)
  define key definition := preserves_onContext (Pool.lends_counted.registerUnder key definition)

/-- However services are used, their idle buffers are counted right. -/
theorem Reachable.counted (reachable : Reachable starts allowed service) :
    service.context.pool.Counted := by
  refine @Reachable.invariant starts allowed service (fun service => service.context.pool.Counted)
    (fun settings _ => ?_) (fun service use _ => ?_) (fun _ _ _ => id) reachable
  · exact Pool.counted_ofSettings _ _ _
  · refine use.within serves_counted service (fun call _ counted => ?_) fun _ counted => ?_
    · show (call.perform service).context.pool.Counted
      rwa [Call.context_perform]
    · exact counted.clear.1

/-- The use is no registration that the service accepts. -/
def Use.BringsNothing (service : Service) (use : Use) : Prop :=
  ∀ codec, ¬ use.Introduces service codec

/-- Where nothing is in use, nothing comes into use without a registration. -/
theorem Use.no_instances (service : Service) (use : Use) (quiet : use.BringsNothing service)
    (none : service.registry.instances = []) : (use.perform service).registry.instances = [] := by
  refine List.eq_nil_iff_forall_not_mem.mpr fun codec member => ?_
  rcases use.brings service codec member with old | introduced
  · rw [none] at old
    cases old
  · exact quiet codec introduced

/-- A value whose type has no codec is not encoded. -/
theorem toData_of_unfound {value : Value} {key : TypeKey} {after : Service}
    (typed : value.typeKey? = some key) (unfound : codecFor key service = (.ok none, after)) :
    toData value service = (.error (.noCodec key.name), after) := by
  have refused : codecForValue value service = (.error (.noCodec key.name), after) := by
    unfold codecForValue
    rw [typed]
    exact Act.bind_of_ok unfound
  have failed : (some <$> encodeBy value (partsOf value)) service =
      (.error (.noCodec key.name), after) := by
    rw [Act.map_apply, encodeBy, Act.bind_of_error refused]
    rfl
  unfold toData
  split
  case h_1 => cases typed
  case h_2 => cases typed
  case h_3 => exact guarded_of_error failed

/-- Where nothing is in use, encoding a value that has a type finds no codec for the type. -/
theorem toData_of_no_instances (none : service.registry.instances = []) {value : Value}
    {key : TypeKey} (typed : value.typeKey? = some key) :
    ∃ walks, toData value service = (.error (.noCodec key.name),
      { service with registry := { service.registry with walks := walks } }) := by
  obtain ⟨walks, missed⟩ := Registry.lookup_of_no_instances none key
  refine ⟨walks, toData_of_unfound typed ?_⟩
  unfold codecFor
  rw [missed]

/-- The use is a call, an encoding or a decoding. -/
def Use.Converts : Use → Prop
  | .call _ | .encode _ | .decode _ => True
  | _ => False

/-- Where nothing is in use, conversions fail before they touch the pool. -/
theorem Use.context_of_converts {use : Use} (converts : use.Converts)
    (none : service.registry.instances = []) :
    (use.perform service).context = service.context := by
  cases use with
  | call call => exact call.context_perform service
  | encode value =>
    cases typed : value.typeKey? with
    | some key =>
      obtain ⟨walks, refused⟩ := toData_of_no_instances none typed
      rw [perform, refused]
    | none => cases value <;> first | rfl | cases typed
  | decode e =>
    cases e with
    | none => rfl
    | some e =>
      cases held : e.payload.isEmpty with
      | true => simp [perform, toObject, held]
      | false =>
        have unbound := Registry.lookupId_of_no_instances none e.typeId
        rw [perform, toObject_of_unbound held unbound]
  | _ => exact converts.elim

theorem Along.context_of_converts {uses : List Use} (quiet : Along Use.BringsNothing uses service)
    (none : service.registry.instances = []) (converts : ∀ use ∈ uses, use.Converts) :
    (uses.foldl Use.perform service).context = service.context := by
  induction uses generalizing service with
  | nil => rfl
  | cons use uses ih =>
    have still := use.no_instances service quiet.1 none
    rw [List.foldl_cons, ih quiet.2 still fun other member => converts other (.tail _ member)]
    exact use.context_of_converts (converts use (.head _)) none

/-- Tearing down any service answers with every instance in use exactly once.  From there on, as
    long as no registration is accepted, every value but nothing and envelopes is not serializable,
    every envelope that holds something is of unknown type, and there is nothing left to tear down;
    and the pool is empty, right after the teardown and after any calls and conversions. -/
theorem teardown_complete (reachable : Reachable (fun _ => True) (fun _ => True) service) :
    ∃ torn after, destroy service = (.ok torn, after) ∧ torn.Nodup ∧
      (∀ codec, codec ∈ torn ↔ service.registry.InUse codec) ∧
      ∀ uses, Along Use.BringsNothing uses after →
        let later := uses.foldl Use.perform after
        (∀ value, value ≠ .null → (∀ held, value ≠ .envelope held) →
          ∃ failure, failure.kind = .notSerializable ∧ (toData value later).1 = .error failure) ∧
        (∀ e : Envelope, e.payload.isEmpty = false →
          (toObject (some e) later).1 = .error (.unknownType e.typeId)) ∧
        ((∀ use ∈ uses, use.Converts) → later.context.pool.size = 0) ∧
        (destroy later).1 = .ok [] := by
  refine ⟨_, _, rfl, Registry.nodup_instances _, fun codec => reachable.filed.mem_instances_iff, ?_⟩
  intro uses quiet later
  have none : later.registry.instances = [] :=
    quiet.foldl (Registry.destroy_instances service.registry) Use.no_instances
  refine ⟨fun value something fresh => ?_, fun e holds => ?_, fun converts => ?_, ?_⟩
  · cases typed : value.typeKey? with
    | some key =>
      obtain ⟨walks, refused⟩ := toData_of_no_instances none typed
      exact ⟨.noCodec key.name, rfl, by rw [refused]⟩
    | none =>
      cases value with
      | null => exact absurd rfl something
      | envelope held => exact absurd rfl (fresh held)
      | _ => cases typed
  · rw [toObject_of_unbound holds (Registry.lookupId_of_no_instances none e.typeId)]
  · have same := quiet.context_of_converts (Registry.destroy_instances _) converts
    rw [show later.context = _ from same]
    exact reachable.counted.clear.2
  · exact congrArg Except.ok none

/-- An instance that two types, its id and the fallback share, and that a third type adopted, is torn
    down once, and then not even texts are serializable. -/
theorem teardown_complete_of_shared :
    let codec : Codec := .custom ⟨"c", 0, 50, .typeName⟩
    let service := [Use.call (.register ⟨"a.A"⟩ codec), .call (.register ⟨"a.B"⟩ codec),
      .call (.registerFallback codec), .encode (.object (.carrying ⟨"a.D"⟩ none none))].foldl
      Use.perform (ofSettings .default)
    let uses := [Use.call (.declareType ⟨"a.E"⟩ ⟨[.text], []⟩), .encode (.text "a")]
    service.registry.binding ⟨"a.D"⟩ = some codec ∧ service.context.pool.size = 1 ∧
      ∃ torn after, destroy service = (.ok torn, after) ∧ torn.Nodup ∧ codec ∈ torn ∧
        Along Use.BringsNothing uses after ∧ (uses.foldl Use.perform after).context.pool.size = 0 ∧
        ∃ failure, failure.kind = .notSerializable ∧
          (toData (.text "a") (uses.foldl Use.perform after)).1 = .error failure := by
  intro codec service uses
  have reachable : Reachable (fun _ => True) (fun _ => True) service :=
    (Reachable.start trivial).uses fun _ _ => trivial
  obtain ⟨torn, after, ran, once, all, afterwards⟩ := teardown_complete reachable
  have inUse : service.registry.InUse codec := .inl ⟨⟨"a.A"⟩, by decide⟩
  have quiet : Along Use.BringsNothing uses after := ⟨fun _ => id, fun _ => id, trivial⟩
  obtain ⟨refused, -, emptied, -⟩ := afterwards uses quiet
  exact ⟨by decide, by decide, torn, after, ran, once, (all codec).mpr inUse, quiet,
    emptied (by simp [uses, Use.Converts]), refused (.text "a") nofun nofun⟩

end Service

end ObjectWire
