import ObjectWire.Proofs.Portable.Alike
import ObjectWire.Proofs.Service.Portables
import ObjectWire.Proofs.Service.Transit

/-!
# Schemas that travel with objects

An envelope for a portable object brings one definition, and a service that has no other definitions
decodes the object by what is nested in it.  The object comes out as it does where it was encoded if
the definition says of every class at every version inside the object what is registered there.
Objects of a class and version that the definition does not describe cannot be opened.
-/

namespace ObjectWire

namespace PortableContext

variable {context remote : PortableContext} {definition : ClassDefinition} {p : Portable}

/-- Of the class and version of every part of an object, the definition says what is registered for
    it. -/
def Accounts (context : PortableContext) (definition : ClassDefinition) (p : Portable) : Prop :=
  ∀ q : Portable, q.PartOf p → ∀ known, context.lookup (context.keyOf q) = some known →
    known.FoundIn definition

/-- In a self-contained context a registered definition accounts for an object if it describes the
    class and version of every part. -/
theorem accounts_iff (sound : context.Sound) (selfContained : context.SelfContained)
    (covers : context.Covers p) {key : ClassKey} (found : context.lookup key = some definition) :
    context.Accounts definition p ↔ ∀ q : Portable, q.PartOf p →
      ∃ part : ClassDefinition, part.PartOf definition ∧ part.key = context.keyOf q := by
  constructor
  · intro accounts q part
    obtain ⟨known, registered, -⟩ := covers q part
    obtain ⟨inner, within, same⟩ := accounts q part known registered
    refine ⟨inner, within, ?_⟩
    rw [← ClassDefinition.key_eq_of_same same]
    exact sound.filed _ known registered
  · intro described q part known registered
    obtain ⟨inner, within, key⟩ := described q part
    obtain ⟨held, there, same⟩ := (has_of_lookup sound found).partOf selfContained within
    rw [key, registered] at there
    cases there
    exact ⟨inner, within, same⟩

/-- Where nothing but a definition is registered that accounts for an object, every part of the
    object finds the definition it was written by. -/
theorem Mirrors.knows (mirrors : remote.Mirrors definition)
    (accounts : context.Accounts definition p) (factory : Option PortableFactory) :
    Frame.Source.Knows ⟨remote, factory⟩ context p := by
  intro q part known found
  obtain ⟨inner, within, same⟩ := accounts q part known found
  obtain ⟨held, registered, equal⟩ := mirrors.parts inner within
  refine ⟨held, ?_, ClassDefinition.same_trans equal (ClassDefinition.same_symm same)⟩
  rw [ClassDefinition.key_eq_of_same same]
  exact registered

theorem Mirrors.exists_lookup (mirrors : remote.Mirrors definition) {settled : ClassDefinition}
    (same : settled.same definition = true) : ∃ known, remote.lookup settled.key = some known := by
  obtain ⟨known, registered, -⟩ := mirrors.parts definition (.whole definition)
  rw [ClassDefinition.key_eq_of_same same]
  exact ⟨known, registered⟩

theorem Mirrors.lookup_of_absent (mirrors : remote.Mirrors definition) {key : ClassKey}
    (absent : ∀ part : ClassDefinition, part.PartOf definition → part.key ≠ key) :
    remote.lookup key = none := by
  cases registered : remote.lookup key with
  | none => rfl
  | some known =>
    obtain ⟨part, within, same⟩ := (mirrors.registered_iff key).mp ⟨known, registered⟩
    exact absurd same (absent part within)

end PortableContext

namespace Service

variable {settings fresh : Settings} {byHand : List ClassDefinition} {service after : Service}
  {p : Portable} {e : Envelope}

theorem report_fst (failure : Failure) (service other : Service) :
    (report failure service).1 = (report failure other).1 := by
  unfold report
  split <;> rfl

theorem readBuiltin_portable (nested : Act Receiving Value) (receiving : Receiving) :
    readBuiltin nested .portable receiving =
      ((Frame.openAt receiving.service.source 0 receiving.input).1.map Value.portable,
       { receiving with
         input := (Frame.openAt receiving.service.source 0 receiving.input).2 }) := by
  rw [readBuiltin, Act.bind_of_ok (Act.get_apply receiving), Act.map_apply, Receiving.onInput,
    Act.on_apply]

/-- Once the definition of an envelope is taken care of, decoding is opening the frame. -/
theorem toObject_of_adopted (answers : service.codecForId e.typeId = some (.builtin .portable))
    (adopted : adopt e service = (.ok (), after)) (content : e.payload.isEmpty = false) :
    (toObject (some e) service).1 =
      (((Frame.openAt after.source 0 (.ofBytes e.payload)).1.mapError
        fun failure => (report failure after).1).map Value.portable).map after.handOut := by
  have read := readBuiltin_portable readValue ⟨.ofBytes e.payload, after, true⟩
  dsimp only at read
  have decoded : decode e service =
      ((Frame.openAt after.source 0 (.ofBytes e.payload)).1.map fun opened =>
        after.handOut (.portable opened), after) := by
    rw [decode_of_codecForId answers]
    refine (Act.bind_of_ok adopted).trans ?_
    rcases opened : (Frame.openAt after.source 0 (.ofBytes e.payload)).1 with failure | p
    · rw [opened] at read
      exact Act.bind_of_error (by simp only [readBy, read]; rfl)
    · rw [opened] at read
      refine (Act.bind_of_ok (by simp only [readBy, read]; rfl)).trans ?_
      rfl
  unfold toObject
  dsimp only
  rw [if_neg (by simp [content])]
  unfold guarded
  rw [decoded]
  rcases (Frame.openAt after.source 0 (.ofBytes e.payload)).1 with failure | opened <;> rfl

theorem adopt_of_known (known : ∀ definition, e.definition = some definition →
    ∃ known, service.context.lookup definition.key = some known) :
    adopt e service = (.ok (), service) := by
  unfold adopt
  cases brought : e.definition with
  | none => rfl
  | some definition =>
    obtain ⟨held, found⟩ := known definition brought
    dsimp only
    rw [Act.bind_of_ok (Act.get_apply service), found]
    rfl

/-- Where the definition of an envelope is known, decoding is opening the frame. -/
theorem toObject_portable (answers : service.codecForId e.typeId = some (.builtin .portable))
    (known : ∀ definition, e.definition = some definition →
      ∃ known, service.context.lookup definition.key = some known)
    (content : e.payload.isEmpty = false) :
    (toObject (some e) service).1 =
      (((Frame.openAt service.source 0 (.ofBytes e.payload)).1.mapError
        fun failure => (report failure service).1).map Value.portable).map service.handOut :=
  toObject_of_adopted answers (adopt_of_known known) content

theorem isEmpty_classKey_append (key : ClassKey) (rest : Bytes) :
    (Wire.classKey key ++ rest).isEmpty = false := by
  have length : (Wire.classKey key).length = 8 := by
    simp [Wire.classKey, Wire.int]
  cases front : Wire.classKey key with
  | nil =>
    rw [front] at length
    cases length
  | cons byte bytes => rfl

theorem Packs.content (packs : service.Packs p e) : e.payload.isEmpty = false := by
  obtain ⟨definition, sheet, content, found, written, sized, same⟩ :=
    PortableContext.frame_some packs.payload
  rw [same]
  exact isEmpty_classKey_append definition.key content

/-- What an object was encoded to is decoded alike by two services that have the definitions of its
    parts and the same factory. -/
theorem toObject_alike {remote : Service} {received : Envelope} (keeps : service.Keeps settings)
    (packs : service.Packs p e) (answers : remote.codecForId BuiltinCodec.portable.typeId =
      some (.builtin .portable)) (typeId : received.typeId = e.typeId)
    (payload : received.payload = e.payload)
    (resolved : ∀ definition, received.definition = some definition →
      ∃ known, remote.context.lookup definition.key = some known)
    (factory : remote.portableFactory = service.portableFactory)
    (knows : remote.source.Knows service.context p) :
    ∃ outcome : Except Failure Value, (toObject (some e) service).1 = outcome.map service.handOut ∧
      (toObject (some received) remote).1 = outcome.map remote.handOut := by
  have here : ∀ definition, e.definition = some definition →
      ∃ known, service.context.lookup definition.key = some known := by
    intro definition brought
    obtain ⟨registered, same, found⟩ := packs.definition
    rw [brought] at same
    cases same
    exact ⟨definition, by rw [keeps.sound.filed _ _ found]; exact found⟩
  have itself : service.source.Knows service.context p :=
    Frame.Source.knows_of_sound keeps.sound service.portableFactory p
  have alike :
      Input.Alike (Frame.openAt service.source 0) (Frame.openAt remote.source 0) e.payload :=
    Frame.alike_openWithin keeps.sound packs.covers itself knows factory.symm packs.payload
  have opened : (Frame.openAt service.source 0 (.ofBytes e.payload)).1 =
      (Frame.openAt remote.source 0 (.ofBytes e.payload)).1 := by
    have outcome := alike.outcome [] 0
    rwa [List.append_nil] at outcome
  have content := packs.content
  refine ⟨_, toObject_portable (packs.typeId ▸ keeps.answers) here content, ?_⟩
  rw [toObject_portable (by rw [typeId, packs.typeId]; exact answers) resolved
    (by rw [payload]; exact content), payload, opened]
  simp only [report_fst _ service remote]

/-- What a new service makes of an envelope in transit, according to the definition it brings. -/
theorem receives_ofSettings {definition : ClassDefinition} {form : Bytes} (fresh : Settings)
    (wellFormed : definition.WellFormed) (formed : definition.compressedLayout = .ok form)
    (short : form.length < Wire.lengthLimit) (small : e.payload.length < Wire.lengthLimit) :
    (Failure.maxDefinitionLevels < definition.depth →
      Receiving.Fails Receiving.envelope (Transport.form e definition.key form) (ofSettings fresh)
        .definitionTooDeep) ∧
    (definition.depth ≤ Failure.maxDefinitionLevels → definition.Coherent →
      ∃ settled context, settled.same definition = true ∧ context.Mirrors definition ∧
        Receiving.Takes Receiving.envelope (Transport.form e definition.key form)
          (ofSettings fresh) { ofSettings fresh with context := context }
          (some { e with definition := some settled })) := by
  have new : (ofSettings fresh).context.lookup definition.key = none := rfl
  constructor
  · intro deep
    have refused : PortableContext.importCompressed form (ofSettings fresh).context =
        (.error .definitionTooDeep, (ofSettings fresh).context) :=
      PortableContext.importCompressed_too_deep wellFormed deep formed
    exact Receiving.fails_envelope short (Receiving.fails_resolve new refused)
  · intro shallow coherent
    have imports : Act.Gives (PortableContext.importCompressed form) (ofSettings fresh).context
        fun settled now => settled.same definition = true ∧ now.Mirrors definition :=
      PortableContext.gives_importCompressed rfl (Pool.clean_ofSettings _ _ _) coherent wellFormed
        shallow formed
    obtain ⟨settled, context, imported, same, mirrors⟩ := imports
    refine ⟨settled, context, same, mirrors, ?_⟩
    exact Receiving.takes_envelope short small (Receiving.takes_resolve new imported)
      (ClassDefinition.key_eq_of_same same)

/-- An envelope that fits can be sent, and is then received according to its definition. -/
theorem Packs.arrives {definition : ClassDefinition} (keeps : service.Keeps settings)
    (packs : service.Packs p e) (brought : e.definition = some definition)
    (fits : e.Fits definition) (fresh : Settings) (output : Output) (bound : Bool) :
    ∃ last run, Writing.envelope (some e) ⟨output, service, bound⟩ = (.ok (), last) ∧
      last.output.content = output.content ++ run ∧ last.service = service ∧
      (Failure.maxDefinitionLevels < definition.depth →
        Receiving.Fails Receiving.envelope run (ofSettings fresh) .definitionTooDeep) ∧
      (definition.depth ≤ Failure.maxDefinitionLevels → definition.Coherent →
        ∃ settled context, settled.same definition = true ∧ context.Mirrors definition ∧
          Receiving.Takes Receiving.envelope run (ofSettings fresh)
            { ofSettings fresh with context := context }
            (some { e with definition := some settled })) := by
  obtain ⟨held, same, found⟩ := packs.definition
  rw [brought] at same
  cases same
  obtain ⟨⟨form, formed, short⟩, small⟩ := fits
  have written : Act.Gives (Writing.envelope (some e)) ⟨output, service, bound⟩ fun _ last =>
      Writing.Puts ⟨output, service, bound⟩ (Transport.form e definition.key form) service last :=
    Writing.gives_envelope brought (keeps.stocked.formOf found formed) short small
  obtain ⟨_, last, written, puts⟩ := written
  have wellFormed := keeps.sound.wellFormed _ _ found
  exact ⟨last, _, written, puts.content, puts.service,
    receives_ofSettings fresh wellFormed formed short small⟩

/-- What a new service decodes an object to that it received depends on the definition alone: any
    context with the definitions inside it gives the outcome. -/
theorem Packs.toObject_received {definition settled : ClassDefinition}
    {context there : PortableContext} (packs : service.Packs p e) (fresh : Settings)
    (coherent : definition.Coherent) (mirrors : there.Mirrors definition)
    (registered : context.Mirrors definition) (same : settled.same definition = true) :
    (toObject (some { e with definition := some settled })
        { ofSettings fresh with context := there }).1 =
      (((Frame.openAt ⟨context, fresh.portableFactory⟩ 0 (.ofBytes e.payload)).1.mapError
        fun failure => (report failure (ofSettings fresh)).1).map Value.portable).map
          (ofSettings fresh).handOut := by
  have known : ∀ brought, some settled = some brought →
      ∃ known, there.lookup brought.key = some known := by
    rintro _ ⟨⟩
    exact mirrors.exists_lookup same
  have answers : { ofSettings fresh with context := there }.codecForId e.typeId =
      some (.builtin .portable) := by
    rw [packs.typeId]
    rfl
  have opening := @Frame.openAt_congr ⟨there, fresh.portableFactory⟩
    ⟨context, fresh.portableFactory⟩ (mirrors.agrees registered coherent) rfl 0
  have decoded := @toObject_portable { ofSettings fresh with context := there }
    { e with definition := some settled } answers known packs.content
  rw [decoded, ← opening]
  simp only [report_fst _ { ofSettings fresh with context := there } (ofSettings fresh)]
  rfl

/-- An answer that passes a test is an envelope. -/
theorem envelope_of_any {sent : Except Failure (Option Envelope) × Service}
    {test : Envelope → Bool} (h : (sent.1.toOption.bind id).any test = true) :
    ∃ e, sent = (.ok (some e), sent.2) ∧ test e = true := by
  obtain ⟨e, made, passes⟩ := (Option.any_eq_true _ _).mp h
  obtain ⟨held, answer, rfl⟩ := Option.bind_eq_some_iff.mp made
  exact ⟨e, Prod.ext (Act.settled_of_toOption answer) rfl, passes⟩

/-- The definition that an object is sent with decides what a new service makes of it.  It can be
    sent exactly if the definition and the payload can be written.  The envelope does not arrive if
    the definition nests too deep; if it does not, and says the same of a class wherever it
    describes it, the envelope arrives with the definition.  If the definition accounts for the
    object, both services decode the object alike.  The frames of parts whose class and version the
    definition does not describe cannot be opened by the service that received them.  Where nothing
    was registered by hand the definition accounts for the object if it describes all its parts. -/
theorem received_decodes_as_sent {fresh : Settings}
    (factory : fresh.portableFactory = settings.portableFactory)
    (reached : Reached settings byHand service)
    (encoded : toData (.portable p) service = (.ok (some e), after)) :
    ∃ definition, e.definition = some definition ∧
      after.context.lookup (after.context.keyOf p) = some definition ∧
      (byHand = [] → definition.Coherent ∧ (after.context.Accounts definition p ↔
        ∀ q : Portable, q.PartOf p → ∃ part : ClassDefinition, part.PartOf definition ∧
          part.key = after.context.keyOf q)) ∧
      (∀ output bound, (∃ last, Writing.envelope (some e) ⟨output, after, bound⟩ = (.ok (), last)) ↔
        e.Fits definition) ∧
      ∀ output bound last, Writing.envelope (some e) ⟨output, after, bound⟩ = (.ok (), last) →
        ∃ run, last.output.content = output.content ++ run ∧ last.service = after ∧
          (Failure.maxDefinitionLevels < definition.depth →
            Receiving.Fails Receiving.envelope run (ofSettings fresh) .definitionTooDeep) ∧
          (definition.depth ≤ Failure.maxDefinitionLevels → definition.Coherent →
            ∃ settled remote, settled.same definition = true ∧
              Receiving.Takes Receiving.envelope run (ofSettings fresh) remote
                (some { e with definition := some settled }) ∧
              (after.context.Accounts definition p → ∃ outcome : Except Failure Value,
                (toObject (some e) after).1 = outcome.map (ofSettings settings).handOut ∧
                (toObject (some { e with definition := some settled }) remote).1 =
                  outcome.map (ofSettings fresh).handOut) ∧
              ∀ q : Portable, q.PartOf p →
                (∀ part : ClassDefinition, part.PartOf definition →
                  part.key ≠ after.context.keyOf q) →
                ∃ bytes, after.context.frame q = some bytes ∧
                  ∀ levels, Input.Fails (Frame.openWithin remote.source (levels + 1)) bytes
                    (.noDefinition (after.context.keyOf q).classId
                      (after.context.keyOf q).version)) := by
  have packs := packs_toData reached.keeps encoded
  have next : Reached settings byHand after := by
    have encodes := reached.encode p
    rwa [encoded] at encodes
  have keeps := next.keeps
  obtain ⟨definition, brought, found⟩ := packs.definition
  refine ⟨definition, brought, found, fun none => ?_, fun output bound => ⟨?_, ?_⟩, ?_⟩
  · have selfContained := next.selfContained none
    have has := PortableContext.has_of_lookup keeps.sound found
    exact ⟨has.coherent selfContained,
      PortableContext.accounts_iff keeps.sound selfContained packs.covers found⟩
  · rintro ⟨last, written⟩
    exact Writing.envelope_ok keeps.stocked brought written
  · intro fits
    obtain ⟨last, -, written, -⟩ := packs.arrives keeps brought fits fresh output bound
    exact ⟨last, written⟩
  intro output bound last written
  have fits := Writing.envelope_ok keeps.stocked brought written
  obtain ⟨other, run, again, content, kept, refuses, takes⟩ :=
    packs.arrives keeps brought fits fresh output bound
  rw [written] at again
  cases again
  refine ⟨run, content, kept, refuses, fun shallow coherent => ?_⟩
  obtain ⟨settled, context, same, mirrors, taken⟩ := takes shallow coherent
  refine ⟨settled, _, same, taken, fun accounts => ?_, fun q part absent => ?_⟩
  · have handOut : after.handOut = (ofSettings settings).handOut := by
      funext value
      rw [Service.handOut, keeps.managed]
      rfl
    rw [← handOut]
    refine toObject_alike keeps packs rfl rfl rfl ?_ (factory.trans keeps.factory.symm)
      (mirrors.knows accounts fresh.portableFactory)
    rintro _ ⟨⟩
    exact mirrors.exists_lookup same
  · obtain ⟨bytes, framed⟩ := PortableContext.frame_of_part part packs.payload
    refine ⟨bytes, framed, fun levels => ?_⟩
    exact Frame.fails_openWithin keeps.sound framed (mirrors.lookup_of_absent absent)

/-- An object with an object in one field and two in another, sent to a service of another
    version. -/
theorem received_decodes_as_sent_of_items :
    let item (n : Int32) : Portable := .scripted 2 none [.data "n" (.scalar .int n)] none []
    let p : Portable := .scripted 1 none [.portable "next" (some (item 1)),
      .portableArray "items" 2 (some [item 2, item 3])] none []
    let factory : PortableFactory := fun classId => some (.scripted classId
      (if classId = 1 then [.field .portableArray "items", .field .portable "next"]
        else [.field (.scalar .int) "n"]))
    let settings : Settings := { Settings.default with portableFactory := some factory }
    let fresh : Settings := { settings with portableVersion := 5 }
    ∃ e after, toData (.portable p) (ofSettings settings) = (.ok (some e), after) ∧
      (toObject (some e) after).1.toOption.isSome ∧
      ∃ last received remote, Writing.envelope (some e) ⟨.empty 0, after, true⟩ = (.ok (), last) ∧
        Receiving.Takes Receiving.envelope last.output.content (ofSettings fresh) remote
          (some received) ∧
        (toObject (some received) remote).1 = (toObject (some e) after).1 := by
  intro item p factory settings fresh
  let leaf : ClassDefinition := ⟨⟨2, 0⟩, [⟨"n", .scalar .int, 0, .none⟩], [], none⟩
  let node : ClassDefinition := ⟨⟨1, 0⟩, [⟨"next", .portable, 0, ⟨2, 0⟩⟩,
    ⟨"items", .portableArray, 1, ⟨2, 0⟩⟩], [leaf], none⟩
  have facts : ((toData (.portable p) (ofSettings settings)).1.toOption.bind id).any (fun e =>
      e.definition.any (·.same node) && decide (e.payload.length < Wire.lengthLimit) &&
        (toObject (some e) (toData (.portable p) (ofSettings settings)).2).1.toOption.isSome) =
      true := by decide +kernel
  have version : (toData (.portable p) (ofSettings settings)).2.context.version = 0 := by
    decide +kernel
  obtain ⟨e, encoded, facts⟩ := envelope_of_any facts
  generalize (toData (.portable p) (ofSettings settings)).2 = after at encoded facts version
  simp only [Bool.and_eq_true, decide_eq_true_eq] at facts
  obtain ⟨⟨described, small⟩, decodes⟩ := facts
  refine ⟨e, after, encoded, decodes, ?_⟩
  have factories : fresh.portableFactory = settings.portableFactory := rfl
  obtain ⟨definition, brought, -, alone, fits, arrives⟩ :=
    received_decodes_as_sent factories .start encoded
  rw [brought] at described
  have same : definition.same node = true := described
  have length : node.layout.toOption.map List.length = some 93 := by decide +kernel
  have whole : e.Fits definition :=
    Envelope.fits_of_layout same length (by decide) (by decide) small
  obtain ⟨last, writing⟩ := (fits (.empty 0) true).mpr whole
  obtain ⟨run, content, -, -, takes⟩ := arrives (.empty 0) true last writing
  obtain ⟨coherent, accounts⟩ := alone rfl
  have shallow : definition.depth ≤ Failure.maxDefinitionLevels := by
    rw [ClassDefinition.depth_eq_of_same same]
    decide
  obtain ⟨settled, remote, -, taken, alike, -⟩ := takes shallow coherent
  have described : ∀ q : Portable, q.PartOf p →
      after.context.keyOf q = node.key ∨ after.context.keyOf q = leaf.key := by
    intro q part
    unfold PortableContext.keyOf
    rw [version]
    cases part with
    | whole => exact .inl rfl
    | @inside _ held _ member part =>
      have among : held ∈ [item 1, item 2, item 3] := member
      have holds : ∃ n, held = item n := by
        simp only [List.mem_cons, List.not_mem_nil, or_false] at among
        rcases among with rfl | rfl | rfl
        all_goals exact ⟨_, rfl⟩
      obtain ⟨n, rfl⟩ := holds
      cases part with
      | whole => exact .inr rfl
      | inside member _ => cases member
  have accounted : after.context.Accounts definition p := by
    apply accounts.mpr
    intro q part
    rcases described q part with key | key
    · exact ⟨definition, .whole definition, by rw [key, ClassDefinition.key_eq_of_same same]⟩
    · have inside : leaf.PartOf node := .inside (List.mem_singleton.mpr rfl) (.whole leaf)
      obtain ⟨inner, within, matched⟩ :=
        ClassDefinition.partOf_of_same inside (ClassDefinition.same_symm same)
      exact ⟨inner, within, by rw [key, ClassDefinition.key_eq_of_same matched]⟩
  obtain ⟨outcome, here, there⟩ := alike accounted
  refine ⟨last, _, remote, writing, ?_, there.trans here.symm⟩
  rw [content]
  exact taken

/-- Of two objects in an array the definition describes the first one only.  If the second one is of
    another version, it is lost on the way. -/
theorem item_of_other_version_lost :
    let item (version n : Int32) : Portable :=
      .scripted 2 (some version) [.data "n" (.scalar .int n)] none []
    let p : Portable :=
      .scripted 1 none [.portableArray "items" 2 (some [item 0 1, item 1 2])] none []
    let factory : PortableFactory := fun classId => some (.scripted classId
      (if classId = 1 then [.field .portableArray "items"] else [.field (.scalar .int) "n"]))
    let settings : Settings := { Settings.default with portableFactory := some factory }
    p.depth ≤ Failure.maxPortableLevels ∧
      ∃ e after, toData (.portable p) (ofSettings settings) = (.ok (some e), after) ∧
        (toObject (some e) after).1.toOption.isSome ∧
        ∃ last received remote,
          Writing.envelope (some e) ⟨.empty 0, after, true⟩ = (.ok (), last) ∧
          Receiving.Takes Receiving.envelope last.output.content (ofSettings settings) remote
            (some received) ∧
          (toObject (some received) remote).1 = .error (.noDefinition 2 1) := by
  intro item p factory settings
  let leaf : ClassDefinition := ⟨⟨2, 0⟩, [⟨"n", .scalar .int, 0, .none⟩], [], none⟩
  let node : ClassDefinition := ⟨⟨1, 0⟩, [⟨"items", .portableArray, 0, ⟨2, 0⟩⟩], [leaf], none⟩
  -- the definitions of a service that has received nothing else
  let start : PortableContext := .start 0 (.ofSettings 16 2 1)
  let context := (PortableContext.register node start).2
  have facts : ((toData (.portable p) (ofSettings settings)).1.toOption.bind id).any (fun e =>
      e.definition.any (·.same node) && decide (e.payload.length < Wire.lengthLimit) &&
        (toObject (some e) (toData (.portable p) (ofSettings settings)).2).1.toOption.isSome &&
        decide (Act.failure? (Frame.openAt ⟨context, some factory⟩ 0 (.ofBytes e.payload)).1 =
          some (.noDefinition 2 1))) = true := by decide +kernel
  obtain ⟨e, encoded, facts⟩ := envelope_of_any facts
  generalize (toData (.portable p) (ofSettings settings)).2 = after at encoded facts
  simp only [Bool.and_eq_true, decide_eq_true_eq] at facts
  obtain ⟨⟨⟨described, small⟩, decodes⟩, refused⟩ := facts
  refine ⟨by decide, e, after, encoded, decodes, ?_⟩
  have reached : Reached settings [] after := by
    have encodes : Reached settings [] _ := .encode .start p
    rwa [encoded] at encodes
  have packs := packs_toData (keeps_ofSettings settings) encoded
  obtain ⟨definition, brought, found⟩ := packs.definition
  rw [brought] at described
  have same : definition.same node = true := described
  have length : node.layout.toOption.map List.length = some 72 := by decide +kernel
  have fits : e.Fits definition :=
    Envelope.fits_of_layout same length (by decide) (by decide) small
  have sound := reached.keeps.sound
  have coherent : definition.Coherent :=
    (PortableContext.has_of_lookup sound found).coherent (reached.selfContained rfl)
  have shallow : definition.depth ≤ Failure.maxDefinitionLevels := by
    rw [ClassDefinition.depth_eq_of_same same]
    decide
  obtain ⟨last, run, written, content, -, -, takes⟩ :=
    packs.arrives reached.keeps brought fits settings (.empty 0) true
  obtain ⟨settled, there, matched, mirrors, taken⟩ := takes shallow coherent
  have wellFormed := sound.wellFormed _ _ found
  have registered : context.Mirrors definition := by
    obtain ⟨form, formed, -⟩ := fits.definition
    have written := (ClassDefinition.exists_compressedLayout_iff definition).mp ⟨form, formed⟩
    have begun : start.Sound := PortableContext.sound_start 0 (Pool.clean_ofSettings _ _ _)
    have registers : Act.Gives (PortableContext.register node) start fun settled now =>
        settled.same definition = true ∧ now.Mirrors definition :=
      PortableContext.gives_mirrors coherent written begun (fun _ => rfl)
        (wellFormed.of_same same) (ClassDefinition.same_symm same)
    obtain ⟨settled, now, ran, -, mirrors⟩ := registers
    have reached : context = now := congrArg Prod.snd ran
    rw [reached]
    exact mirrors
  refine ⟨last, _, _, written, by rw [content]; exact taken, ?_⟩
  rw [packs.toObject_received settings coherent mirrors registered matched]
  have failed : (Frame.openAt ⟨context, settings.portableFactory⟩ 0 (.ofBytes e.payload)).1 =
      .error (.noDefinition 2 1) := Act.failed_of_failure? refused
  rw [failed]
  rfl

end Service

end ObjectWire
