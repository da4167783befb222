import ObjectWire.Proofs.Portable.Naming
import ObjectWire.Proofs.Service.Decoding
import ObjectWire.Proofs.Service.Transit

/-!
# Envelopes that are not accepted

An envelope that brings a definition brings it in front of its hash and payload, and a definition
whose class and version are new is imported as soon as it was read.  What becomes of the registered
definitions is therefore settled by the front of the input, whether the envelope is accepted in the
end or not.
-/

namespace ObjectWire

namespace Transport

/-- Reads an envelope up to its hash: the type id, and the class, version and compressed form of the
    definition, if there is an envelope and if it brings one. -/
def head : Act Input (Option (Int32 × Option (ClassKey × Bytes))) := do
  if ← Input.bool then
    let typeId ← Input.int
    if ← Input.bool then
      let key ← Input.classKey
      let compressed ← Input.byteArray
      pure (some (typeId, some (key, compressed)))
    else pure (some (typeId, none))
  else pure none

/-- The class, version and compressed form in front of an input, if they are there as a whole. -/
def brought? (input : Input) : Option (ClassKey × Bytes) :=
  match (head input).1 with
  | .ok (some (_, brought)) => brought
  | _ => none

/-- A definition in its wire form is brought, whatever follows it. -/
theorem brought?_definitionForm (typeId : Int32) (key : ClassKey) {compressed : Bytes}
    (short : compressed.length < Wire.lengthLimit) (rest : Bytes) (position : Nat) :
    brought? ⟨Wire.bool true ++ (Wire.int typeId ++ definitionForm key compressed) ++ rest,
      position⟩ = some (key, compressed) := by
  have takes : Input.Takes head
      (Wire.bool true ++ (Wire.int typeId ++ definitionForm key compressed))
      (some (typeId, some (key, compressed))) := by
    apply (Input.takes_bool true).bind
    apply (Input.takes_int typeId).bind
    apply (Input.takes_bool true).bind
    apply (Input.takes_classKey key).bind
    exact (Input.takes_byteArray (Wire.byteArray_of_lt short)).bind_nil (Input.takes_pure _)
  rw [brought?, takes rest position]

end Transport

namespace Receiving

/-- The definition of an envelope, which must be the one its class and version name. -/
def settleNamed : Option (ClassKey × Bytes) → Act Receiving (Option ClassDefinition)
  | none => pure none
  | some (key, compressed) => do
    let definition ← resolve key compressed
    if definition.key = key then pure (some definition)
    else
      Act.fail (.headerMismatch key.classId key.version definition.classId definition.version)

/-- Reads the hash and the payload of an envelope. -/
def readTail (typeId : Int32) (definition : Option ClassDefinition) :
    Act Receiving (Option Envelope) := do
  let hash ← do
    if ← onInput Input.bool then some <$> onInput Input.int else pure none
  let payload ← onInput Input.byteArray
  pure (some ⟨typeId, payload, definition, hash⟩)

/-- Reads what follows the front of an envelope. -/
def readOn : Option (Int32 × Option (ClassKey × Bytes)) → Act Receiving (Option Envelope)
  | none => pure none
  | some (typeId, brought) => do
    let definition ← settleNamed brought
    readTail typeId definition

/-- An envelope is read in two parts: the front, which the service has no part in, and the rest. -/
theorem envelope_eq : envelope = onInput Transport.head >>= readOn := by
  unfold envelope Transport.read Transport.head
  rw [onInput_bind, bind_assoc]
  refine bind_congr fun present => ?_
  cases present with
  | false => rfl
  | true =>
    simp only [if_true, onInput_bind, bind_assoc]
    refine bind_congr fun typeId => bind_congr fun described => ?_
    cases described with
    | false =>
      simp only [Bool.false_eq_true, if_false, onInput_pure, pure_bind, readOn, settleNamed,
        readTail]
    | true =>
      simp only [if_true, onInput_bind, onInput_pure, bind_assoc, pure_bind, readOn, settleNamed]
      refine bind_congr fun key => bind_congr fun compressed => bind_congr fun definition => ?_
      split
      case isTrue => rfl
      case isFalse => rfl

/-- The input brings a readable definition, and the class and version that it names for it are new to
    the service. -/
def Imports (receiving : Receiving) (form : Bytes) (arrived : ClassDefinition) : Prop :=
  receiving.bound = true ∧ ClassDefinition.ofCompressed form = .ok arrived ∧
    ∃ key, Transport.brought? receiving.input = some (key, form) ∧
      receiving.service.context.lookup key = none

/-- What resolving leaves: an import, if the class and version are new. -/
theorem service_resolve (key : ClassKey) (form : Bytes) (receiving : Receiving) :
    (resolve key form receiving).2.service =
      if receiving.bound = true ∧ receiving.service.context.lookup key = none then
        (Service.onContext (PortableContext.importCompressed form) receiving.service).2
      else receiving.service := by
  obtain ⟨input, service, bound⟩ := receiving
  cases bound with
  | false => rfl
  | true =>
    dsimp only
    cases found : service.context.lookup key with
    | none =>
      rw [resolve_new found, if_pos ⟨rfl, rfl⟩]
      rfl
    | some known =>
      rw [if_neg fun h => nomatch h.2]
      have takes : Takes (resolve key form) [] service service known := takes_resolve_known found
      have ran := takes input.rest input.position
      rw [List.nil_append] at ran
      rw [ran]

instance : Std.Refl (@Eq Service) := ⟨Eq.refl⟩

theorem within_readTail (typeId : Int32) (definition : Option ClassDefinition) :
    (readTail typeId definition).Within (Service.Beneath Eq) := by
  apply (Service.within_onInput _).bind
  intro present
  split
  case isTrue =>
    exact ((Service.within_onInput _).map _).bind fun _ =>
      (Service.within_onInput _).bind fun _ => Act.within_pure _
  case isFalse =>
    exact (Act.within_pure _).bind fun _ => (Service.within_onInput _).bind fun _ =>
      Act.within_pure _

theorem service_readOn (typeId : Int32) (key : ClassKey) (form : Bytes) (receiving : Receiving) :
    (readOn (some (typeId, some (key, form))) receiving).2.service =
      (resolve key form receiving).2.service := by
  have onwards (definition : ClassDefinition) : ((if definition.key = key then
        pure (some definition)
      else
        Act.fail (.headerMismatch key.classId key.version definition.classId definition.version)) >>=
        readTail typeId).Within (Service.Beneath Eq) := by
    split
    case isTrue => exact (Act.within_pure _).bind fun _ => within_readTail typeId _
    case isFalse => exact (Act.within_fail _).bind fun _ => within_readTail typeId _
  simp only [readOn, settleNamed, bind_assoc]
  rcases ran : resolve key form receiving with ⟨failure | definition, now⟩
  · rw [Act.bind_of_error ran]
  · rw [Act.bind_of_ok ran]
    exact (onwards definition now).symm

/-- What reading an envelope leaves of the service depends on the front of the input alone. -/
theorem service_envelope (receiving : Receiving) :
    (envelope receiving).2.service =
      match Transport.brought? receiving.input with
      | some (key, form) => (resolve key form receiving).2.service
      | none => receiving.service := by
  rw [envelope_eq, Transport.brought?]
  have first : onInput Transport.head receiving =
      ((Transport.head receiving.input).1,
        { receiving with input := (Transport.head receiving.input).2 }) := Act.on_apply _ _ _ _
  rcases read : Transport.head receiving.input with ⟨failure | front, rest⟩
  · rw [read] at first
    rw [Act.bind_of_error first]
  · rw [read] at first
    rw [Act.bind_of_ok first]
    rcases front with _ | ⟨typeId, _ | ⟨key, form⟩⟩
    · rfl
    · exact (within_readTail typeId none _).symm
    · dsimp only
      rw [service_readOn, service_resolve, service_resolve]

theorem service_of_imports {arrived : ClassDefinition} (imports : receiving.Imports form arrived) :
    (envelope receiving).2.service =
      { receiving.service with
        context := (PortableContext.importCompressed form receiving.service.context).2 } := by
  obtain ⟨bound, -, key, front, new⟩ := imports
  rw [service_envelope, front]
  dsimp only
  rw [service_resolve, if_pos ⟨bound, new⟩]
  rfl

theorem service_of_not_imports (none : ∀ form arrived, ¬ receiving.Imports form arrived) :
    (envelope receiving).2.service = receiving.service := by
  rw [service_envelope]
  rcases front : Transport.brought? receiving.input with _ | ⟨key, form⟩
  · rfl
  · dsimp only
    rw [service_resolve]
    split
    case isTrue new =>
      obtain ⟨bound, new⟩ := new
      cases come : ClassDefinition.ofCompressed form with
      | ok arrived => exact absurd ⟨bound, come, key, front, new⟩ (none form arrived)
      | error failure =>
        rw [Service.onContext, Act.on_apply, PortableContext.importCompressed_of_unreadable come]
    case isFalse => rfl

/-- Whether an envelope is accepted or not, no registered definition is replaced or removed.  If the
    input brings a readable definition for a class and version that were new, the service is left as
    the import of that definition leaves it, and the definition's class and version are registered
    from then on; else the service is left as it was. -/
theorem envelope_leaves (receiving : Receiving) :
    let now := (envelope receiving).2.service
    (∀ key known, receiving.service.context.lookup key = some known →
      now.context.lookup key = some known) ∧
    (∀ form arrived, receiving.Imports form arrived →
      now = { receiving.service with
        context := (PortableContext.importCompressed form receiving.service.context).2 } ∧
      ∃ known, now.context.lookup arrived.key = some known) ∧
    ((∀ form arrived, ¬ receiving.Imports form arrived) → now = receiving.service) := by
  intro now
  have imported : ∀ form arrived, receiving.Imports form arrived →
      now = { receiving.service with
        context := (PortableContext.importCompressed form receiving.service.context).2 } :=
    fun form arrived imports => service_of_imports imports
  have kept : (∀ form arrived, ¬ receiving.Imports form arrived) → now = receiving.service :=
    service_of_not_imports
  refine ⟨fun key known found => ?_, fun form arrived imports => ⟨imported _ _ imports, ?_⟩, kept⟩
  · by_cases some : ∃ form arrived, receiving.Imports form arrived
    · obtain ⟨form, arrived, imports⟩ := some
      rw [imported form arrived imports]
      exact (PortableContext.retains_importCompressed form _).lookup key known found
    · rw [kept fun form arrived imports => some ⟨form, arrived, imports⟩]
      exact found
  · rw [imported form arrived imports]
    exact PortableContext.exists_lookup_importCompressed imports.2.1

/-- An envelope that names class 2 and brings class 1 is not accepted; class 1 is registered from then
    on. -/
theorem envelope_leaves_of_other_class :
    let compressed : Bytes := [120, 218, 99, 96, 96, 96, 100, 64, 2, 0, 0, 29, 0, 2]
    let run := Wire.bool true ++ (Wire.int (-1) ++ Transport.definitionForm ⟨2, 0⟩ compressed)
    let receiving : Receiving := ⟨.ofBytes run, .ofSettings .default, true⟩
    Act.failure? (envelope receiving).1 = some (.headerMismatch 2 0 1 0) ∧
      ∃ arrived known, receiving.Imports compressed arrived ∧ arrived.key = ⟨1, 0⟩ ∧
        (envelope receiving).2.service.context.lookup ⟨1, 0⟩ = some known := by
  intro compressed run receiving
  refine ⟨by decide +kernel, ?_⟩
  have readable : (ClassDefinition.ofCompressed compressed).toOption.any
      (fun arrived => decide (arrived.key = ⟨1, 0⟩)) = true := by decide +kernel
  have short : compressed.length < Wire.lengthLimit := by decide
  have front := Transport.brought?_definitionForm (-1) ⟨2, 0⟩ short [] 0
  rw [List.append_nil] at front
  obtain ⟨arrived, come, key⟩ := (Option.any_eq_true _ _).mp readable
  have imports : receiving.Imports compressed arrived :=
    ⟨rfl, Act.settled_of_toOption come, ⟨2, 0⟩, front, rfl⟩
  obtain ⟨-, registered, -⟩ := envelope_leaves receiving
  obtain ⟨-, known, found⟩ := registered compressed arrived imports
  have key : arrived.key = ⟨1, 0⟩ := of_decide_eq_true key
  rw [key] at found
  exact ⟨arrived, known, imports, key, found⟩

/-- An envelope that ends behind its definition is not accepted, and its definition is
    registered. -/
theorem rejected_envelope_registers :
    let compressed : Bytes := [120, 218, 99, 96, 96, 96, 100, 64, 2, 0, 0, 29, 0, 2]
    let run := Wire.bool true ++ (Wire.int (-1) ++ Transport.definitionForm ⟨1, 0⟩ compressed)
    let service := Service.ofSettings .default
    let read := envelope ⟨.ofBytes run, service, true⟩
    Act.failure? read.1 = some (.insufficientData 1 0) ∧
      service.context.lookup ⟨1, 0⟩ = none ∧
      (read.2.service.context.lookup ⟨1, 0⟩).isSome = true := by
  intro compressed run service read
  exact ⟨by decide +kernel, rfl, by decide +kernel⟩

end Receiving

end ObjectWire
