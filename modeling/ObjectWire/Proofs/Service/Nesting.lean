import ObjectWire.Proofs.Service.Delivery

/-!
# Identified objects that nest

An identified object is written without its length and without an end mark.  So whoever reads it
must take exactly what was written, step by step, and so must whatever reads the objects inside it:
texts and numbers, portable objects in their frames, envelopes, and identified objects again.
-/

namespace ObjectWire

namespace Service

mutual

/-- The service can read the value where it is written as an object, and gives the other one: an
    instant is rounded down to the millisecond, a portable object has performed the reads planned
    for its class, and an identified object those that mirror what was written, of which each may
    depend on what the ones before it gave. -/
inductive Nests (service : Service) : Value → Value → Prop
  | builtin {value : Value} (builtin : value.Builtin) : Nests service value value.floor
  | portable {p : Portable} (plan : Int32 → List FieldRead)
      (shallow : p.depth ≤ Failure.maxPortableLevels)
      (ready : Frame.Source.Ready service.source service.context plan p) :
      Nests service (.portable p) (.portable (service.context.image plan p))
  | customer (c : Customer) (created : service.source.create Customer.classId = .ok .customer) :
      Nests service (.portable (.customer c))
        (.portable (.customer { c with session := Customer.blank.session }))
  | planned {factoryId classId : Int32} {writes : List OutputStep} {plan : InputPlan}
      {results : List InputResult} (key : Option Value) (got : List InputResult)
      (created : service.factories.create factoryId classId =
        some (.planned factoryId classId plan))
      (mirrors : Mirrors service writes plan results) :
      Nests service (.identified (.scripted factoryId classId writes key got))
        (.identified (.scripted factoryId classId [] none results))
  | reading (r : Reading)
      (created : service.factories.create Reading.factoryId Reading.classId = some .reading) :
      Nests service (.identified (.reading r))
        (.identified (.reading { r with cached := Reading.blank.cached }))

/-- The plan mirrors the writes, and gives what was written: plain items, objects that the service
    can read, and envelopes without a definition. -/
inductive Mirrors (service : Service) :
    List OutputStep → InputPlan → List InputResult → Prop
  | nil : Mirrors service [] .done []
  | plain {write : PlainWrite} {read : PlainRead} {result : PlainResult}
      {writes : List OutputStep} {next : InputResult → InputPlan} {results : List InputResult}
      (mirrors : write.Mirrors read result)
      (others : Mirrors service writes (next (.plain result)) results) :
      Mirrors service (.plain write :: writes) (.step (.plain read) next) (.plain result :: results)
  | object {value back : Value} {writes : List OutputStep} {next : InputResult → InputPlan}
      {results : List InputResult} (nests : Nests service value back)
      (others : Mirrors service writes (next (.object back)) results) :
      Mirrors service (.object value :: writes) (.step .object next) (.object back :: results)
  | envelope {e : Option Envelope} {writes : List OutputStep} {next : InputResult → InputPlan}
      {results : List InputResult} (plain : ∀ held, e = some held → held.definition = none)
      (others : Mirrors service writes (next (.envelope e)) results) :
      Mirrors service (.envelope e :: writes) (.step .envelope next) (.envelope e :: results)

end

variable {final : Service} {run : Bytes} {value back : Value}

theorem Nests.typed (nests : Nests final value back) :
    ∃ key own, value.typeKey? = some key ∧ (key, own) ∈ builtinBindings := by
  cases nests with
  | builtin builtin =>
    cases value with
    | text _ => exact ⟨_, .text, rfl, by decide⟩
    | integer _ => exact ⟨_, .integer, rfl, by decide⟩
    | long _ => exact ⟨_, .long, rfl, by decide⟩
    | boolean _ => exact ⟨_, .boolean, rfl, by decide⟩
    | bytes _ => exact ⟨_, .bytes, rfl, by decide⟩
    | instant _ => exact ⟨_, .instant, rfl, by decide⟩
    | bigInteger _ => exact ⟨_, .bigInteger, rfl, by decide⟩
    | _ => exact builtin.elim
  | portable | customer => exact ⟨_, .portable, rfl, by decide⟩
  | planned | reading => exact ⟨_, .identified, rfl, by decide⟩

/-! ### Chains of objects of one class -/

/-- What a link of a chain reads: whether it holds a text, and if it does, the text and another
    link. -/
def linkPlan : InputPlan :=
  .step (.plain (.scalar .bool)) fun
    | .plain (.scalar .bool true) => .step (.plain .text) fun _ => .step .object fun _ => .done
    | _ => .done

/-- A link, and in it the others, which are of the same class. -/
def link (factoryId classId : Int32) : List String → Identified
  | [] => .scripted factoryId classId [.plain (.scalar .bool false)] none []
  | s :: texts =>
    .scripted factoryId classId [.plain (.scalar .bool true), .plain (.text s),
      .object (.identified (link factoryId classId texts))] none []

/-- A link that was read. -/
def linkRead (factoryId classId : Int32) : List String → Identified
  | [] => .scripted factoryId classId [] none [.plain (.scalar .bool false)]
  | s :: texts =>
    .scripted factoryId classId [] none [.plain (.scalar .bool true), .plain (.text s),
      .object (.identified (linkRead factoryId classId texts))]

/-- How deep a chain nests is not laid down in its class. -/
theorem nests_link {factoryId classId : Int32}
    (created : final.factories.create factoryId classId =
      some (.planned factoryId classId linkPlan)) (texts : List String) :
    Nests final (.identified (link factoryId classId texts))
      (.identified (linkRead factoryId classId texts)) := by
  induction texts with
  | nil => exact .planned none [] created (.plain (.scalar .bool false) .nil)
  | cons s texts ih =>
    exact .planned none [] created <| .plain (.scalar .bool true) <| .plain (.text s) <|
      .object ih .nil

/-! ### What the kinds of objects exchange -/

theorem exchanges_planned (sturdy : final.Sturdy) {p : Portable} {plan : Int32 → List FieldRead}
    (shallow : p.depth ≤ Failure.maxPortableLevels)
    (ready : Frame.Source.Ready final.source final.context plan p) :
    Exchanges final (.portable p) (.portable (final.context.image plan p)) := by
  apply exchanges_portable
  intro run covers framed
  have knows := Frame.Source.knows_of_sound sturdy.sound final.portableFactory p
  exact Frame.takes_openWithin sturdy.sound covers knows ready (Nat.lt_succ_of_le shallow) framed

theorem exchanges_customer (sturdy : final.Sturdy) (c : Customer)
    (created : final.source.create Customer.classId = .ok .customer) :
    Exchanges final (.portable (.customer c))
      (.portable (.customer { c with session := Customer.blank.session })) := by
  apply exchanges_portable
  intro run covers framed
  have records : (Portable.customer c).writes = DataFields.writes c.fields := rfl
  have sound : final.source.context.Sound := sturdy.sound
  refine Frame.takes_openAt_of_records sound covers records framed created
    fun nested reader reads => ?_
  rw [Frame.readObject, Customer.read_of_fields reads]
  rfl

/-- A reading is read back from what it is written as, but for what it does not write. -/
theorem exchanges_reading (r : Reading)
    (created : final.factories.create Reading.factoryId Reading.classId = some .reading) :
    Exchanges final (.identified (.reading r))
      (.identified (.reading { r with cached := Reading.blank.cached })) := by
  apply exchanges_identified created
  rw [(writes_reading r).steps]
  have conveys : Conveys final (Writing.onOutput r.write)
      (fun _ => Receiving.onInput Reading.read) { r with cached := Reading.blank.cached } := by
    apply conveys_onOutput
    intro output after wrote
    have fits := Derive.HeldFields.fits_of_write (r.write_eq ▸ wrote)
    obtain ⟨run, adds, takes⟩ := Reading.exists_run fits
    obtain ⟨last, also, content⟩ := adds output
    rw [wrote] at also
    cases also
    exact ⟨run, content, takes⟩
  exact conveys.map Identified.reading

theorem exchanges_script {factoryId classId : Int32} {writes : List OutputStep} {plan : InputPlan}
    {results : List InputResult} (key : Option Value) (got : List InputResult)
    (created : final.factories.create factoryId classId = some (.planned factoryId classId plan))
    (steps : Conveys final (performAll writes) (fun nested => performPlan nested plan) results) :
    Exchanges final (.identified (.scripted factoryId classId writes key got))
      (.identified (.scripted factoryId classId [] none results)) :=
  exchanges_identified (o := .scripted factoryId classId writes key got) created
    (steps.map (Identified.scripted factoryId classId [] none))

theorem conveys_cons {step : OutputStep} {steps : List OutputStep} {read : InputStep}
    {next : InputResult → InputPlan} {result : InputResult} {results : List InputResult}
    (first : Conveys final (perform step) (fun nested => performRead nested read) result)
    (others : Conveys final (performAll steps) (fun nested => performPlan nested (next result))
      results) :
    Conveys final (performAll (step :: steps)) (fun nested => performPlan nested (.step read next))
      (result :: results) :=
  first.andThen (others.map (result :: ·))

section Nested

variable (sturdy : final.Sturdy)
include sturdy

mutual

/-- What nests is exchanged for what comes back, by recursion over how it nests. -/
theorem Nests.exchanges {value back : Value} (nests : Nests final value back) :
    Exchanges final value back :=
  match nests with
  | .builtin builtin => exchanges_builtin builtin
  | .portable _ shallow ready => exchanges_planned sturdy shallow ready
  | .customer c created => exchanges_customer sturdy c created
  | .planned key got created mirrors => exchanges_script key got created mirrors.conveys
  | .reading r created => exchanges_reading r created

theorem Mirrors.conveys {steps : List OutputStep} {plan : InputPlan} {results : List InputResult}
    (mirrors : Mirrors final steps plan results) :
    Conveys final (performAll steps) (fun nested => performPlan nested plan) results :=
  match mirrors with
  | .nil => conveys_pure []
  | .plain mirrors others => conveys_cons (conveys_plain mirrors) others.conveys
  | .object nests others => by
    obtain ⟨key, own, typed, listed⟩ := nests.typed
    exact conveys_cons (nests.exchanges.conveys sturdy typed listed) others.conveys
  | .envelope plain others => conveys_cons (conveys_envelope plain) others.conveys

end

end Nested

/-! ### Encoding and decoding -/

variable {service after : Service} {x : Identified} {e : Envelope}

/-- What an identified object is encoded to is its content, by the codec for these objects. -/
theorem reads_of_toData (sturdy : service.Sturdy)
    (encoded : toData (.identified x) service = (.ok (some e), after))
    (nests : Nests after (.identified x) back) :
    after.Sturdy ∧ e.typeId = BuiltinCodec.identified.typeId ∧ e.definition = none ∧
      Reads after (fun nested => readBuiltin nested .identified) e.payload back := by
  have inside := contained_partsOf respects_develops (.identified x)
  have fresh : ∀ held, Value.identified x ≠ .envelope held := fun held => nofun
  have encoded := encodeBy_of_toData fresh encoded
  obtain ⟨codec, chosen, looked, encoded⟩ := Act.bind_ok encoded
  obtain ⟨⟨definition, payload⟩, buffered, packed, encoded⟩ := Act.bind_ok encoded
  obtain ⟨hash, hashed, keyed, encoded⟩ := Act.bind_ok encoded
  cases encoded
  obtain ⟨last, written, rfl, rfl⟩ := inBuffer_ok packed
  obtain ⟨_, reached, written, finished⟩ := Act.bind_ok written
  cases finished
  -- the codec is one of the built-in ones, and only one of them writes identified objects
  obtain ⟨key, typed, found, -⟩ := codecForValue_ok looked
  cases typed
  have listed : (TypeKey.identified, BuiltinCodec.identified) ∈ builtinBindings := by decide
  obtain ⟨known, builtin⟩ := sturdy.equipped.lookup listed
  obtain rfl : Codec.builtin known = codec := Option.some.inj (builtin.symm.trans found)
  obtain rfl : BuiltinCodec.identified = known := Option.some.inj (codec?_of_writeBuiltin written)
  -- the service stays sturdy all along
  obtain ⟨first, -⟩ :=
    Act.within_of_ok (respects_develops.codecForValue (.identified x)) looked sturdy
  obtain ⟨lent, -⟩ := respects_develops.borrow chosen first
  have writes := respects_develops.writeBuiltin inside .identified (.identified x)
  obtain ⟨wrote, -⟩ := Act.within_of_ok writes written lent
  obtain ⟨returned, back⟩ := respects_develops.giveBack last.service last.output wrote
  obtain ⟨final, onward⟩ := Act.within_of_ok inside.keyHash keyed returned
  obtain ⟨run, content, reads⟩ := (nests.exchanges final .identified).arrives
    chosen.lent last lent written (back.trans onward)
  have empty : chosen.lent.output.content = [] := first.sound.clean.acquire_content
  rw [empty, List.nil_append] at content
  refine ⟨final, rfl, rfl, ?_⟩
  rw [content]
  exact reads

theorem Reads.toObject (sturdy : service.Sturdy)
    (typeId : e.typeId = BuiltinCodec.identified.typeId) (alone : e.definition = none)
    (reads : Reads service (fun nested => readBuiltin nested .identified) e.payload back) :
    toObject (some e) service = (.ok back, service) := by
  have taken := reads readValue (fathoms_readValue _) [] 0
  rw [List.append_nil] at taken
  have holds : e.payload.isEmpty = false := by
    rcases held : e.payload with _ | ⟨first, others⟩
    · rw [held] at taken
      cases taken
    · rfl
  have bound : service.codecForId e.typeId = some (.builtin .identified) := by
    rw [typeId]
    exact sturdy.equipped.answers (.identified, .identified) (by decide)
  rw [toObject_of_bound holds bound]
  have decoded : decodeBy (.builtin .identified) e service = _ := decodeBy_of_read alone taken
  rw [sturdy.handOut] at decoded
  exact guarded_of_ok decoded

/-- What is sent inline is read by a call from outside, and what follows is left. -/
theorem Sent.readObject (sent : Sent service value run) (rest : Bytes) (position : Nat) :
    readObject ⟨⟨run ++ rest, position⟩, service, true⟩ =
      (.ok value, ⟨⟨rest, position + run.length⟩, service, true⟩) :=
  guarded_of_ok (fathoms_readValue _ run value (Nat.le_refl _) sent rest position)

/-- The factories are the same. -/
def SameFactories (before after : Service) : Prop :=
  after.factories = before.factories ∧ after.portableFactory = before.portableFactory

instance : Std.Refl SameFactories := ⟨fun _ => ⟨rfl, rfl⟩⟩

instance : Trans SameFactories SameFactories SameFactories :=
  ⟨fun first second => ⟨second.1.trans first.1, second.2.trans first.2⟩⟩

theorem SameFactories.makes (same : SameFactories service after) (factoryId classId : Int32) :
    after.factories.create factoryId classId = service.factories.create factoryId classId := by
  rw [same.1]

theorem SameFactories.source_create (same : SameFactories service after) (classId : Int32) :
    after.source.create classId = service.source.create classId := by
  simp only [Frame.Source.create, source, same.2]

theorem respects_sameFactories : Respects SameFactories where
  codecFor _ _ := ⟨rfl, rfl⟩
  close _ _ := ⟨rfl, rfl⟩
  binaryOf _ _ := ⟨rfl, rfl⟩
  borrow _ := ⟨rfl, rfl⟩
  giveBack _ _ := ⟨rfl, rfl⟩

/-- In a service without managed context that was used without taking a type's codec back, without
    tearing it down, and with definitions under their own keys only: if an identified object is
    encoded, the factories are as before, and if with them and the definitions that are then in use
    everything in the object can be read, the envelope is decoded into an object that has read what
    was written, at every level; and so it is where type id and payload stand in front of other
    bytes, of which none is read.  It is the same if the object is written in place. -/
theorem identified_objects_nest (reachable : Reachable (·.managed = none) Use.Orderly service)
    (x : Identified) :
    (∀ e after, toData (.identified x) service = (.ok (some e), after) →
      SameFactories service after ∧ ∀ back, Nests after (.identified x) back →
        toObject (some e) after = (.ok back, after) ∧
        ∀ rest position, Service.readObject
            ⟨⟨Wire.int e.typeId ++ e.payload ++ rest, position⟩, after, true⟩ =
          (.ok back,
            ⟨⟨rest, position + (Wire.int e.typeId ++ e.payload).length⟩, after, true⟩)) ∧
    ∀ output bound now, writeObject (.identified x) ⟨output, service, bound⟩ = (.ok (), now) →
      SameFactories service now.service ∧ ∀ back, Nests now.service (.identified x) back →
        ∃ run, now.output.content = output.content ++ run ∧ ∀ rest position,
          Service.readObject ⟨⟨run ++ rest, position⟩, now.service, true⟩ =
            (.ok back, ⟨⟨rest, position + run.length⟩, now.service, true⟩) := by
  have sturdy := reachable.sturdy
  have parts := contained_partsOf respects_sameFactories (.identified x)
  constructor
  · intro e after encoded
    have fresh : ∀ held, Value.identified x ≠ .envelope held := fun held => nofun
    have same := within_encodeBy respects_sameFactories (.identified x)
    refine ⟨Act.within_of_ok same (encodeBy_of_toData fresh encoded), fun back nests => ?_⟩
    obtain ⟨final, typeId, alone, reads⟩ := reads_of_toData sturdy encoded nests
    refine ⟨reads.toObject final typeId alone, fun rest position => ?_⟩
    rw [typeId]
    exact (sent_of_reads final reads).readObject rest position
  · intro output bound now wrote
    have written := guarded_ok wrote
    have same := respects_sameFactories.writeValueBy parts (.identified x)
    refine ⟨Act.within_of_ok same written, fun back nests => ?_⟩
    have develops := respects_develops.writeValueBy
      (contained_partsOf respects_develops (.identified x)) (.identified x)
    obtain ⟨final, -⟩ := Act.within_of_ok develops written sturdy
    obtain ⟨key, own, typed, listed⟩ := nests.typed
    have delivers := (nests.exchanges final).delivers final typed listed
    obtain ⟨run, content, sent⟩ := delivers.arrives _ now sturdy written .refl
    exact ⟨run, content, sent.readObject⟩

namespace Mixed

/-- A portable object with one field. -/
def inner : Portable := .scripted 7 none [.data "n" (.scalar .int (5 : Int32))] none []

/-- What the object is written by. -/
def schema : ClassDefinition := ⟨⟨7, 0⟩, [⟨"n", .scalar .int, 0, .none⟩], [], none⟩

/-- An object with a key. -/
def leaf : Identified :=
  .scripted 3 2 [.plain (.text "x"), .envelope none] (some (.text "k")) []

def reading : Reading := { Reading.blank with sensor := "s", raw := [0xCA], cached := 5 }

def envelope : Envelope := ⟨-11, [1, 2], none, some 4⟩

/-- A number, a text, a portable object, an identified object with a key, an envelope, a reading, a
    chain and bare bytes in an identified object. -/
def whole : Identified := .scripted 3 1
  [.plain (.scalar .int (9 : Int32)), .object (.text "né"), .object (.portable inner),
    .object (.identified leaf), .envelope (some envelope), .object (.identified (.reading reading)),
    .object (.identified (link 3 4 ["a", "b"])), .plain (.bytes [7, 8])] (some (.integer 1)) []

/-- What is read of it. -/
def answer : Value := .identified (.scripted 3 1 [] none
  [.plain (.scalar .int (9 : Int32)), .object (.text "né"),
    .object (.portable (.scripted 7 none [] none [.data (.scalar .int (5 : Int32))])),
    .object (.identified (.scripted 3 2 [] none [.plain (.text "x"), .envelope none])),
    .envelope (some envelope), .object (.identified (.reading { reading with cached := 0 })),
    .object (.identified (linkRead 3 4 ["a", "b"])), .plain (.bytes [7, 8])])

/-- What the object in the fields reads. -/
def plan (_ : Int32) : List FieldRead := [.field (.scalar .int) "n"]

/-- Blank objects of every class that occurs. -/
def factory : IdentifiedFactory
  | 1 => some (.scripted 3 1 [.plain (.scalar .int), .object, .object, .object, .envelope, .object,
      .object, .plain (.bytes 2)])
  | 2 => some (.scripted 3 2 [.plain .text, .envelope])
  | 4 => some (.planned 3 4 linkPlan)
  | _ => none

def settings : Settings := { Settings.default with
  portableFactory := some fun classId => some (.scripted classId (plan classId))
  factories :=
    (Factories.empty.register 3 factory).register Reading.factoryId fun _ => some .reading }

/-- A service that was used before, with the codec of identified objects below a declared type. -/
def start : Service :=
  [Use.call (.declareType ⟨"a.A"⟩ ⟨[.identified], []⟩), .encode (.text "t")].foldl Use.perform
    (ofSettings settings)

theorem reachable : Reachable (·.managed = none) Use.Orderly start := by
  refine Reachable.uses (.start rfl) ?_
  simp only [List.forall_mem_cons, List.not_mem_nil, false_imp_iff, implies_true, and_true]
  exact ⟨trivial, trivial⟩

/-- A service with these factories reads the object in the fields, once it is written by its
    definition. -/
theorem nests_inner (same : SameFactories start after) (uses : after.context.Uses inner schema) :
    Nests after (.portable inner)
      (.portable (.scripted 7 none [] none [.data (.scalar .int (5 : Int32))])) := by
  have ready : Frame.Source.Ready after.source after.context plan inner :=
    Frame.Source.ready_of_uses (same.source_create 7) uses (by decide) nofun
  have nests := Nests.portable plan (by decide) ready
  rwa [PortableContext.image_of_uses plan uses] at nests

theorem nests_whole (same : SameFactories start after) (uses : after.context.Uses inner schema) :
    Nests after (.identified whole) answer := by
  have text : Nests after (.text "né") (.text "né") := .builtin trivial
  have small : Nests after (.identified leaf) _ :=
    .planned (some (.text "k")) [] (same.makes 3 2) <|
      .plain (.text "x") (.envelope (by rintro _ ⟨⟩) .nil)
  have read : Nests after (.identified (.reading reading)) _ :=
    .reading reading (same.makes Reading.factoryId Reading.classId)
  have chain := nests_link (same.makes 3 4) ["a", "b"]
  exact .planned (some (.integer 1)) [] (same.makes 3 1) <| .plain (.scalar .int (9 : Int32)) <|
    .object text <| .object (nests_inner same uses) <| .object small <|
    .envelope (by rintro _ ⟨⟩; rfl) <| .object read <| .object chain <| .plain (.bytes [7, 8]) .nil

end Mixed

open Mixed

/-- Objects of all kinds, and a chain of objects of one class, in an identified object. -/
theorem identified_objects_nest_mixed :
    (∃ encoded after, toData (.identified whole) start = (.ok (some encoded), after) ∧
      toObject (some encoded) after = (.ok answer, after)) ∧
    ∃ now run, writeObject (.identified whole) ⟨.empty 0, start, true⟩ = (.ok (), now) ∧
      now.output.content = run ∧
      Service.readObject ⟨⟨run ++ [0xFF], 0⟩, now.service, true⟩ =
        (.ok answer, ⟨⟨[0xFF], 0 + run.length⟩, now.service, true⟩) := by
  have typed :
      (toData (.identified whole) start).1.toOption.join.map Envelope.typeId = some (-2) := by
    decide +kernel
  have used : (toData (.identified whole) start).2.context.Uses inner schema := by
    decide +kernel
  have written :
      (writeObject (.identified whole) ⟨.empty 0, start, true⟩).1.toOption.isSome = true := by
    decide +kernel
  have inlined : (writeObject (.identified whole)
      ⟨.empty 0, start, true⟩).2.service.context.Uses inner schema := by decide +kernel
  obtain ⟨decodes, inline⟩ := identified_objects_nest reachable whole
  constructor
  · obtain ⟨encoded, after, ran, -⟩ := exists_toData typed
    rw [ran] at used
    obtain ⟨same, decoded⟩ := decodes encoded after ran
    exact ⟨encoded, after, ran, (decoded answer (nests_whole same used)).1⟩
  · obtain ⟨⟨⟩, outcome⟩ := Act.exists_ok_of_isSome written
    rcases ran : writeObject (.identified whole) ⟨.empty 0, start, true⟩ with ⟨_, now⟩
    rw [ran] at outcome inlined
    cases outcome
    obtain ⟨same, arrived⟩ := inline (.empty 0) true now ran
    obtain ⟨run, content, reads⟩ := arrived answer (nests_whole same inlined)
    exact ⟨now, run, rfl, content, reads [0xFF] 0⟩

end Service

end ObjectWire
