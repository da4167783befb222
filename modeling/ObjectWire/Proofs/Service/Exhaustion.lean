import ObjectWire.Proofs.Service.UserCode

/-!
# What callers and the handler hear of failures

Calls from outside are guarded: the four of them encode a value, decode an envelope, write an object
and read one.  What they call is not, and neither are objects inside objects and keys, so a failure
reaches the call from outside as user code let it through, and is reported there once.  The handler
hears of it if memory ran out, and of nothing else; the caller is given the failure as it is, except
that one of input or output counts as one of serialization.
-/

namespace ObjectWire

namespace Service

/-- A call returns what comes of a step, a failure as it comes out, and never one of input or
    output; and the handler hears of what is returned if memory ran out, and of nothing else. -/
structure Reports {σ α : Type} (service : σ → Service) (step call : Act σ α) (state : σ) :
    Prop where
  returned : (call state).1 = (step state).1.mapError Failure.outward
  contained : ∀ failure, (call state).1 = .error failure → failure.kind ≠ .io
  heard : (service (call state).2).heard = (service state).heard ++ heardOf (call state).1

/-- The handler hears of nothing. -/
def SameHeard (before after : Service) : Prop := after.heard = before.heard

instance : Std.Refl SameHeard := ⟨fun _ => rfl⟩

instance : Trans SameHeard SameHeard SameHeard := ⟨fun first second => Eq.trans second first⟩

/-- What the handler hears is none of the concerns of what is called. -/
theorem indulges_sameHeard : Indulges SameHeard where
  codecFor _ _ := rfl
  close _ _ := rfl
  binaryOf _ _ := rfl
  borrow _ := rfl
  giveBack _ _ := rfl
  context _ _ := rfl

theorem respects_sameHeard : Respects SameHeard := indulges_sameHeard.toRespects

theorem learns_sameHeard : Learns SameHeard where
  register _ _ := rfl
  importCompressed _ _ := rfl

/-- A guarded step of which the handler hears nothing by itself is reported once. -/
theorem reports_guarded {σ α : Type} {service : σ → Service} {restore : Service → σ → σ}
    {step : Act σ α} (restored : ∀ reported state, service (restore reported state) = reported)
    (silent : step.Within fun before after => SameHeard (service before) (service after))
    (state : σ) : Reports service step (guarded service restore step) state := by
  have same := silent state
  rcases ran : step state with ⟨failure | value, reached⟩
  · rw [ran] at same
    have call : guarded service restore step state = _ := guarded_of_error ran
    rw [report_failure] at call
    refine ⟨?_, ?_, ?_⟩
    · rw [call, ran]
      rfl
    · rw [call]
      rintro _ ⟨⟩
      exact failure.outward_kind_ne_io
    · rw [call, restored, report_heard, same]
  · rw [ran] at same
    have call : guarded service restore step state = _ := guarded_of_ok ran
    refine ⟨?_, ?_, ?_⟩
    · rw [call, ran]
      rfl
    · rw [call]
      exact nofun
    · rw [call, same]
      exact (List.append_nil _).symm

namespace Encoder.Stays

variable {encoder : Encoder} (stays : encoder.Stays SameHeard)
include stays

theorem reports_toData (value : Value) (service : Service) :
    Reports id (encoder.convert value) (encoder.toData value) service :=
  reports_guarded (fun _ _ => rfl) (stays.convert respects_sameHeard value) service

theorem reports_writeObject (value : Value) (writing : Writing) :
    Reports Writing.service (encoder.writeValue value) (encoder.writeObject value) writing :=
  reports_guarded (fun _ _ => rfl) (stays.writeValue respects_sameHeard value) writing

end Encoder.Stays

namespace Decoder.Stays

variable {decoder : Decoder} (stays : decoder.Stays SameHeard)
include stays

theorem reports_toObject (e : Option Envelope) (service : Service) :
    Reports id (decoder.revert e) (decoder.toObject e) service :=
  reports_guarded (fun _ _ => rfl)
    (stays.revert fun brought _ => learns_sameHeard.adopt brought) service

theorem reports_readObject (receiving : Receiving) :
    Reports Receiving.service decoder.readValue decoder.readObject receiving :=
  reports_guarded (fun _ _ => rfl) stays.readValue receiving

end Decoder.Stays

/-- Whatever the service, the value or the input, and whatever user code does at any depth, each of
    the four calls from outside returns what comes of the same work unguarded, but for a failure of
    input or output, which comes out as one of serialization in the same words; and the handler
    hears once of the failure that is returned if memory ran out, and of nothing otherwise.  So do
    the calls with the codecs and objects at hand. -/
theorem exhaustion_reported_once :
    (∀ (value : Value) (conduct : Conduct) (service : Service),
      let encoder := conduct.encoder value
      Reports id (encoder.convert value) (encoder.toData value) service) ∧
    (∀ (value : Value) (conduct : Conduct) (writing : Writing),
      let encoder := conduct.encoder value
      Reports Writing.service (encoder.writeValue value) (encoder.writeObject value) writing) ∧
    (∀ (e : Option Envelope) (readers : Readers) (service : Service),
      let decoder := readers.decoder
      Reports id (decoder.revert e) (decoder.toObject e) service) ∧
    (∀ (readers : Readers) (receiving : Receiving),
      let decoder := readers.decoder
      Reports Receiving.service decoder.readValue decoder.readObject receiving) ∧
    (∀ value service, Reports id ((Encoder.atHand value (partsOf value)).convert value)
      (toData value) service) ∧
    (∀ value writing, Reports Writing.service (writeValueBy value (partsOf value))
      (writeObject value) writing) ∧
    (∀ e service, Reports id ((Decoder.atHand readValue).revert e) (toObject e) service) ∧
    ∀ receiving, Reports Receiving.service readValue readObject receiving := by
  have atHand : ∀ value, (Encoder.atHand value (partsOf value)).Stays SameHeard := fun value =>
    respects_sameHeard.atHand (contained_partsOf respects_sameHeard value) value
  have reading : (Decoder.atHand readValue).Stays SameHeard :=
    ⟨learns_sameHeard.readBy learns_sameHeard.readValue⟩
  refine ⟨?_, ?_, ?_, ?_, ?_, ?_, ?_, ?_⟩
  · exact fun value conduct => (conduct.stays indulges_sameHeard value).reports_toData value
  · exact fun value conduct => (conduct.stays indulges_sameHeard value).reports_writeObject value
  · exact fun e readers => (readers.stays learns_sameHeard).reports_toObject e
  · exact fun readers => (readers.stays learns_sameHeard).reports_readObject
  · intro value service
    rw [toData_eq]
    exact (atHand value).reports_toData value service
  · intro value writing
    rw [writeObject_eq, writeValueBy_eq]
    exact (atHand value).reports_writeObject value writing
  · intro e service
    rw [toObject_eq]
    exact reading.reports_toObject e service
  · exact reports_guarded (fun _ _ => rfl) learns_sameHeard.readValue

/-- Memory runs out in an object inside an object: the handler hears of it once if the codec around
    it lets the failure through, and not at all if it swallows the failure. -/
example :
    let codec : Codec := .custom ⟨"c", 0, 50, .nothing⟩
    let service := (Service.registerFallback codec (ofSettings .default)).2
    let value : Value := .object (.carrying ⟨"a.A"⟩ none none)
    let exhausted : Failure := .reported .resourceExhausted "heap"
    let around (next : Except Failure Unit → WritingCode) : Encoder :=
      (Conduct.keyless Frame.close .done fun _ =>
        .object value (.keyless Frame.close .done fun _ => .fail exhausted) next).encoder value
    let through := around fun
      | .ok _ => .done
      | .error failure => .fail failure
    let swallowed := around fun _ => .done
    (through.toData value service).2.heard = [exhausted] ∧
      (swallowed.toData value service).2.heard = [] := by
  decide

end Service

end ObjectWire
