import ObjectWire.Proofs.Hierarchy.Ancestry
import ObjectWire.Proofs.Record.Document
import ObjectWire.Proofs.Service.Builtins
import ObjectWire.Proofs.Service.Equipped
import ObjectWire.Proofs.Service.Portables

/-!
# Records that are written as documents

Registering a kind of records for a type files the kind and declares the family of the documents as
an interface of the type.  It does not bind the type.  So whether a record of the type is written as
a document is up to the next lookup: the codecs of the reserved families come first, then whatever
the type or a nearer ancestor is bound to.
-/

namespace ObjectWire

namespace Registry

variable {registry after : Registry} {key : TypeKey} {codec : Codec}

/-- The type goes by the codec for documents: no reserved family is above it, and of the type and
    what is above it, the first that is bound is bound to this codec. -/
structure Documented (registry : Registry) (key : TypeKey) : Prop where
  free : ∀ member ∈ families, member.1 ∉ registry.hierarchy.ancestors key
  nearest : ∃ front known back, key :: registry.hierarchy.ancestors key = front ++ known :: back ∧
    registry.binding known = some (.builtin .document) ∧
    ∀ other ∈ front, registry.binding other = none

/-- A type with a reserved family above it goes by the codec of such a family. -/
theorem Seated.lookup_of_above (seated : registry.Seated) {member : TypeKey × BuiltinCodec}
    (listed : member ∈ families) (above : member.1 ∈ registry.hierarchy.ancestors key) :
    ∃ first ∈ families, (registry.lookup key).1 = some (.builtin first.2) := by
  have order := asked_eq registry key
  cases members : families.filter (·.1 ∈ registry.hierarchy.ancestors key) with
  | nil =>
    have unlisted := List.filter_eq_nil_iff.mp members member listed
    exact absurd (by simpa using above) unlisted
  | cons first others =>
    have among : first ∈ families :=
      (List.mem_filter.mp (members ▸ List.mem_cons_self : first ∈ families.filter _)).1
    have behind := order.trans
      (congrArg (·.map Prod.fst ++ key :: registry.hierarchy.ancestors key) members)
    exact ⟨first, among, seated.lookup_of_asked among behind⟩

/-- Where the reserved families are on their codecs, a lookup answers with the codec for documents
    exactly for these types, unless nothing at all is bound that the type could go by. -/
theorem Seated.lookup_document_iff (seated : registry.Seated) {known : TypeKey} {held : Codec}
    (above : registry.hierarchy.isA key known = true) (bound : registry.binding known = some held) :
    (registry.lookup key).1 = some (.builtin .document) ↔ registry.Documented key := by
  by_cases free : ∀ member ∈ families, member.1 ∉ registry.hierarchy.ancestors key
  · have order : registry.asked key = key :: registry.hierarchy.ancestors key := by
      have unlisted : families.filter (·.1 ∈ registry.hierarchy.ancestors key) = [] := by
        rw [List.filter_eq_nil_iff]
        intro member listed
        simpa using free member listed
      exact (asked_eq registry key).trans
        (congrArg (·.map Prod.fst ++ key :: registry.hierarchy.ancestors key) unlisted)
    have found : ((registry.asked key).findSome? registry.binding).isSome = true := by
      rw [order, List.findSome?_isSome_iff]
      refine ⟨known, ?_, by rw [bound]; rfl⟩
      rcases Hierarchy.isA_iff.mp above with rfl | above
      · exact List.mem_cons_self
      · exact List.mem_cons_of_mem _ above
    rw [lookup_answer, Option.or_of_isSome found, order, List.findSome?_eq_some_iff]
    exact ⟨fun nearest => ⟨free, nearest⟩, fun documented => documented.nearest⟩
  · refine iff_of_false (fun answer => free fun member listed above => ?_) fun documented =>
      free documented.free
    obtain ⟨first, among, other⟩ := seated.lookup_of_above listed above
    have foreign : ∀ first ∈ families, first.2 ≠ .document := by decide
    rw [answer] at other
    exact foreign first among (Codec.builtin.inj (Option.some.inj other)).symm

end Registry

/-- The name of the type and the document are short enough to be written. -/
def Record.Fits (key : TypeKey) (record : Record) : Prop :=
  Utf8.width key.name < Wire.lengthLimit ∧ record.encode.length < Wire.lengthLimit

namespace Service

variable {service after : Service} {key : TypeKey} {kind : RecordKind} {record : Record}

/-! ### Registering a kind -/

/-- A kind is registered exactly for types that do not belong to a reserved family. -/
theorem registerRecord_eq (key : TypeKey) (kind : RecordKind) (service : Service) :
    registerRecord key kind service =
      if service.registry.hierarchy.isA key .portable || service.registry.hierarchy.isA key .identified
      then (.error (.reservedForFamilies key.name), service)
      else (.ok (), { fileRecord key kind service with
        registry := service.registry.declare key ⟨[], [.document]⟩ }) := by
  unfold registerRecord
  rw [Act.bind_of_ok (Act.get_apply service)]
  split <;> rfl

theorem isA_document_of_declare (hierarchy : Hierarchy) (key : TypeKey) :
    (hierarchy.declare key ⟨[], [.document]⟩).isA key .document = true := by
  rw [Hierarchy.isA_iff_reflTransGen]
  apply Relation.ReflTransGen.single
  unfold Hierarchy.Declares
  rw [Hierarchy.parents_declare, if_pos rfl]
  apply List.mem_append_left
  exact Parents.mem_addNew_iff.mpr (.inr (List.mem_singleton.mpr rfl))

/-! ### Writing and reading documents -/

/-- What decoding a document goes by. -/
def DecodesAlike (before after : Service) : Prop :=
  after.registry.ids = before.registry.ids ∧ after.records = before.records ∧
    after.managed = before.managed

instance : Std.Refl DecodesAlike := ⟨fun _ => ⟨rfl, rfl, rfl⟩⟩

instance : Trans DecodesAlike DecodesAlike DecodesAlike :=
  ⟨fun first second => ⟨second.1.trans first.1, second.2.1.trans first.2.1,
    second.2.2.trans first.2.2⟩⟩

theorem respects_decodesAlike : Respects DecodesAlike where
  codecFor key service := ⟨Registry.lookup_ids service.registry key, rfl, rfl⟩
  close _ _ := ⟨rfl, rfl, rfl⟩
  binaryOf _ _ := ⟨rfl, rfl, rfl⟩
  borrow _ := ⟨rfl, rfl, rfl⟩
  giveBack _ _ := ⟨rfl, rfl, rfl⟩

/-- What a record is written as: the name of its type, then its document, each behind its length. -/
def documentRun (key : TypeKey) (record : Record) : Bytes :=
  (BigEndian.encode 4 (Utf8.width key.name) ++ Utf8.encode key.name) ++
    (BigEndian.encode 4 record.encode.length ++ record.encode)

section Written

variable {writing final : Writing}

theorem writeDocument_of_filed (filed : writing.service.records.lookup key = some record.kind) :
    writeDocument (.record key record) writing =
      (do
        Writing.onOutput (Output.writeItem (Wire.string key.name))
        Writing.onOutput (Output.writeItem (Wire.byteArray record.encode))) writing := by
  unfold writeDocument
  rw [Act.bind_of_ok (Act.get_apply writing)]
  dsimp only [UserObject.typeKey]
  rw [filed]
  exact congrFun (if_pos rfl) writing

/-- A record that fits is appended to the output. -/
theorem writeDocument_of_fits (filed : writing.service.records.lookup key = some record.kind)
    (fits : record.Fits key) : ∃ output, output.content = writing.output.content ++
        documentRun key record ∧
      writeDocument (.record key record) writing = (.ok (), { writing with output := output }) := by
  rw [writeDocument_of_filed filed, Wire.string_of_lt fits.1, Wire.byteArray_of_lt fits.2]
  exact ⟨_, List.append_assoc .., rfl⟩

theorem fits_of_writeDocument (filed : writing.service.records.lookup key = some record.kind)
    (h : writeDocument (.record key record) writing = (.ok (), final)) : record.Fits key := by
  rw [writeDocument_of_filed filed] at h
  obtain ⟨_, middle, named, written⟩ := Act.bind_ok h
  obtain ⟨_, first, -⟩ := Act.on_ok named
  obtain ⟨_, second, -⟩ := Act.on_ok written
  obtain ⟨front, formed, -⟩ := Output.writeItem_ok first
  obtain ⟨back, document, -⟩ := Output.writeItem_ok second
  obtain ⟨counted, length, -⟩ := Act.settled_map_ok formed
  exact ⟨(Input.lt_of_length_ok length).1, (Input.byteArray_ok document).1⟩

end Written

/-- A record is read back from what it was written as, wherever that stands, and what follows is
    left. -/
theorem readDocument_of_run (fits : record.Fits key)
    (filed : service.records.lookup key = some record.kind) (bound : Bool) (rest : Bytes)
    (position : Nat) :
    readDocument ⟨⟨documentRun key record ++ rest, position⟩, service, bound⟩ =
      (.ok (.record key record),
        ⟨⟨rest, position + (documentRun key record).length⟩, service, bound⟩) := by
  let name := BigEndian.encode 4 (Utf8.width key.name) ++ Utf8.encode key.name
  let content := BigEndian.encode 4 record.encode.length ++ record.encode
  have named : Receiving.onInput Input.string
      ⟨⟨name ++ (content ++ rest), position⟩, service, bound⟩ =
        (.ok key.name, ⟨⟨content ++ rest, position + name.length⟩, service, bound⟩) := by
    rw [Receiving.onInput, Act.on_apply, Input.takes_string (Wire.string_of_lt fits.1)]
  have document : Receiving.onInput Input.byteArray
      ⟨⟨content ++ rest, position + name.length⟩, service, bound⟩ =
        (.ok record.encode,
          ⟨⟨rest, position + name.length + content.length⟩, service, bound⟩) := by
    rw [Receiving.onInput, Act.on_apply, Input.takes_byteArray (Wire.byteArray_of_lt fits.2)]
  have whole : documentRun key record = name ++ content := rfl
  rw [whole, List.append_assoc, List.length_append, ← Nat.add_assoc]
  refine (Act.bind_of_ok named).trans ((Act.bind_of_ok (Act.get_apply _)).trans ?_)
  dsimp only
  rw [filed]
  dsimp only
  rw [Act.bind_of_ok document, record.decode?_encode]
  rfl

/-- A record is read back from what it was written as. -/
theorem readDocument_of_filed (fits : record.Fits key)
    (filed : service.records.lookup key = some record.kind) (bound : Bool) :
    ∃ left, readDocument ⟨.ofBytes (documentRun key record), service, bound⟩ =
      (.ok (.record key record), ⟨left, service, bound⟩) := by
  have read := readDocument_of_run fits filed bound [] 0
  rw [List.append_nil] at read
  exact ⟨_, read⟩

/-! ### Encoding and decoding records -/

/-- What writes a record with no values inside. -/
theorem toData_record (key : TypeKey) (record : Record) :
    toData (.object (.record key record)) =
      guarded id (fun service _ => service)
        (some <$> encodeBy (.object (.record key record)) .none) := rfl

theorem writeDefined_document (key : TypeKey) (record : Record) :
    writeDefined (.builtin .document) (.object (.record key record)) .none =
      (do
        writeDocument (.record key record)
        pure none) := rfl

/-- A record for which the codec for documents is found is encoded by it, if it fits. -/
theorem toData_of_documented (clean : service.context.pool.Clean)
    (filed : service.records.lookup key = some record.kind) (fits : record.Fits key)
    (found : (service.registry.lookup key).1 = some (.builtin .document)) :
    ∃ after, toData (.object (.record key record)) service =
      (.ok (some (.plain BuiltinCodec.document.typeId (documentRun key record))), after) := by
  have chosen : codecForValue (.object (.record key record)) service =
      (.ok (.builtin .document), { service with registry := (service.registry.lookup key).2 }) :=
    codecForValue_of_lookup rfl found
  let looked : Service := { service with registry := (service.registry.lookup key).2 }
  have stays : looked.lent.service.records.lookup key = some record.kind := filed
  obtain ⟨output, content, written⟩ := writeDocument_of_fits stays fits
  have empty : looked.lent.output.content = [] := clean.acquire_content
  rw [empty, List.nil_append] at content
  have defined : writeDefined (.builtin .document) (.object (.record key record)) .none looked.lent =
      (.ok none, { looked.lent with output := output }) := by
    rw [writeDefined_document, Act.bind_of_ok written]
    rfl
  have encoded := toData_of_written (toData_record key record) chosen defined rfl
  rw [content] at encoded
  exact ⟨_, encoded⟩

/-- A record that is encoded by the codec for documents fits. -/
theorem fits_of_toData {e : Envelope} (filed : service.records.lookup key = some record.kind)
    (found : (service.registry.lookup key).1 = some (.builtin .document))
    (h : toData (.object (.record key record)) service = (.ok (some e), after)) :
    record.Fits key := by
  rw [toData_record] at h
  obtain ⟨made, encoded, -⟩ := Act.map_ok (guarded_ok h)
  obtain ⟨codec, chosen, looked, encoded⟩ := Act.bind_ok encoded
  have chosen : codecForValue (.object (.record key record)) service =
      (.ok (.builtin .document), { service with registry := (service.registry.lookup key).2 }) :=
    codecForValue_of_lookup rfl found
  rw [chosen] at looked
  cases looked
  obtain ⟨⟨definition, payload⟩, buffered, packed, -⟩ := Act.bind_ok encoded
  obtain ⟨last, written, -⟩ := inBuffer_ok packed
  rw [writeDefined_document] at written
  obtain ⟨_, middle, wrote, -⟩ := Act.bind_ok written
  exact fits_of_writeDocument filed wrote

theorem documentRun_not_empty (key : TypeKey) (record : Record) :
    (documentRun key record).isEmpty = false := by
  simp [documentRun, BigEndian.encode]

/-- What a record was encoded to is decoded into the record. -/
theorem toObject_documentRun (fits : record.Fits key)
    (filed : service.records.lookup key = some record.kind)
    (answers : service.codecForId BuiltinCodec.document.typeId = some (.builtin .document)) :
    toObject (some (.plain BuiltinCodec.document.typeId (documentRun key record))) service =
      (.ok (service.handOut (.object (.record key record))), service) := by
  obtain ⟨left, read⟩ := readDocument_of_filed fits filed true
  let e : Envelope := .plain BuiltinCodec.document.typeId (documentRun key record)
  have read : readBy readValue (.builtin .document) ⟨.ofBytes e.payload, service, true⟩ =
      (.ok (.object (.record key record)), ⟨left, service, true⟩) := by
    show (Value.object <$> readDocument) ⟨.ofBytes (documentRun key record), service, true⟩ = _
    rw [Act.map_apply, read]
    rfl
  have decoded : decodeBy (.builtin .document) e service =
      (.ok (service.handOut (.object (.record key record))), service) := decodeBy_of_read rfl read
  rw [toObject_of_bound (documentRun_not_empty key record) answers]
  exact guarded_of_ok decoded

/-- In a service that was used in any way but for taking a type's codec back or tearing it down, a
    kind of records is refused for the types of the reserved families, and nothing changes then.
    For any other type it is accepted, and the family of the documents becomes an interface of the
    type.  A record of the kind that reports the type is then encoded under the id of documents
    exactly if no reserved family is above the type, of the type and what is above it the first that
    is bound is bound to the codec for documents, and the record is short enough to be written.
    What it is encoded to is decoded into the record. -/
theorem registered_record_encoded_iff (reachable : Reachable (fun _ => True) Use.Lasting service)
    (key : TypeKey) (kind : RecordKind) :
    let reserved := service.registry.hierarchy.isA key .portable ||
      service.registry.hierarchy.isA key .identified
    let after := (registerRecord key kind service).2
    (reserved = true →
      registerRecord key kind service = (.error (.reservedForFamilies key.name), service)) ∧
    (reserved = false → (registerRecord key kind service).1 = .ok () ∧
      after.registry = service.registry.declare key ⟨[], [.document]⟩ ∧
      ∀ record : Record, record.kind = kind →
        let value := Value.object (.record key record)
        ((∃ e later, toData value after = (.ok (some e), later) ∧ e.typeId = -101) ↔
          after.registry.Documented key ∧ record.Fits key) ∧
        ∀ e later, toData value after = (.ok (some e), later) → e.typeId = -101 →
          toObject (some e) later = (.ok (service.handOut value), later)) := by
  intro reserved after
  have registered := registerRecord_eq key kind service
  refine ⟨fun member => registered.trans (if_pos member), fun foreign => ?_⟩
  rw [if_neg (by simpa [reserved] using foreign)] at registered
  have same : after = { fileRecord key kind service with
      registry := service.registry.declare key ⟨[], [.document]⟩ } := congrArg Prod.snd registered
  refine ⟨congrArg Prod.fst registered, congrArg Service.registry same, ?_⟩
  rintro record rfl value
  have used : Reachable (fun _ => True) Use.Lasting after :=
    reachable.use (.call (.registerRecord key record.kind)) trivial
  have equipped := used.equipped
  have fresh : ∀ held, value ≠ .envelope held := fun held => nofun
  have filed : after.records.lookup key = some record.kind := by
    rw [same]
    exact Keyed.lookup_put_self key record.kind service.records
  have above : after.registry.hierarchy.isA key .document = true := by
    rw [same]
    exact isA_document_of_declare service.registry.hierarchy key
  have documented := used.seated.lookup_document_iff above
    (equipped.bound (.document, .document) (by decide))
  -- only the codec for documents has its id
  have chosen : ∀ {e later}, toData value after = (.ok (some e), later) → e.typeId = -101 →
      (after.registry.lookup key).1 = some (.builtin .document) := by
    intro e later encoded own
    obtain ⟨known, codec, typed, found, typeId, -⟩ := toData_ok fresh encoded
    cases typed
    have only := equipped.anchored.builtin_of_lookup
      (equipped.answers (.document, .document) (by decide)) found (typeId.symm.trans own)
    rw [← only]
    exact found
  constructor
  · constructor
    · rintro ⟨e, later, encoded, own⟩
      have found := chosen encoded own
      exact ⟨documented.mp found, fits_of_toData filed found encoded⟩
    · rintro ⟨nearest, fits⟩
      obtain ⟨later, encoded⟩ :=
        toData_of_documented used.tidy.clean filed fits (documented.mpr nearest)
      exact ⟨_, later, encoded, rfl⟩
  · intro e later encoded own
    have found := chosen encoded own
    have fits := fits_of_toData filed found encoded
    obtain ⟨reached, ran⟩ := toData_of_documented used.tidy.clean filed fits found
    rw [encoded] at ran
    cases ran
    obtain ⟨ids, records, managed⟩ := Act.within_of_ok
      (within_encodeBy respects_decodesAlike value) (encodeBy_of_toData fresh encoded)
    have answers : later.codecForId BuiltinCodec.document.typeId = some (.builtin .document) := by
      rw [codecForId, Registry.lookupId, ids]
      exact equipped.answers (.document, .document) (by decide)
    have decoded := toObject_documentRun fits (by rw [records]; exact filed) answers
    have handed : later.handOut value = service.handOut value := by
      rw [Service.handOut, managed, same]
      rfl
    rw [← handed]
    exact decoded

/-- Notes of a type with an unbound supertype go by the codec for documents although there is a
    fallback: the interface that registering them declares is found first. -/
theorem registered_record_encoded_iff_of_supertype :
    let key : TypeKey := ⟨"app.Note"⟩
    let uses := [Use.call (.registerFallback (.custom ⟨"f", 0, 50, .typeName⟩)),
      .call (.declareType key ⟨[⟨"app.Base"⟩], []⟩)]
    let after := (registerRecord key .note (uses.foldl Use.perform (ofSettings .default))).2
    let value := Value.object (.record key (.note ⟨"\"\n", 7, ["a\\b", "é"]⟩))
    ∃ e later, toData value after = (.ok (some e), later) ∧ e.typeId = -101 ∧
      toObject (some e) later = (.ok value, later) := by
  intro key uses after value
  have reachable : Reachable (fun _ => True) Use.Lasting
      (uses.foldl Use.perform (ofSettings .default)) :=
    (Reachable.start trivial).uses (by simp [uses, Use.Lasting, Call.Lasting])
  obtain ⟨-, accepted⟩ := registered_record_encoded_iff reachable key .note
  obtain ⟨-, -, written⟩ := accepted (by decide)
  obtain ⟨encodes, decodes⟩ := written (.note ⟨"\"\n", 7, ["a\\b", "é"]⟩) rfl
  have documented : after.registry.Documented key :=
    ⟨by decide, [key, ⟨"app.Base"⟩], .document, [], by decide, by decide, by decide⟩
  have fits : Record.Fits key (.note ⟨"\"\n", 7, ["a\\b", "é"]⟩) :=
    ⟨by decide +kernel, by decide +kernel⟩
  obtain ⟨e, later, encoded, own⟩ := encodes.mpr ⟨documented, fits⟩
  exact ⟨e, later, encoded, own, decodes e later encoded own⟩

/-- A kind is accepted for a type that is bound to another codec already: records of the kind go by
    that codec, and what they are encoded to is not decoded into them. -/
theorem registered_record_passed_over :
    let key : TypeKey := ⟨"app.Note"⟩
    let codec : Codec := .custom ⟨"c", 0, 50, .typeName⟩
    let service := (Service.register key codec (ofSettings .default)).2
    let after := (registerRecord key .note service).2
    let e : Envelope := ⟨50, [0, 0, 0, 8, 97, 112, 112, 46, 78, 111, 116, 101], none, none⟩
    (registerRecord key .note service).1 = .ok () ∧
      ∃ later, toData (.object (.record key (.note ⟨"u", 1, []⟩))) after = (.ok (some e), later) ∧
        e.typeId ≠ -101 ∧ (toObject (some e) later).1 = .ok (.text "app.Note") := by
  exact ⟨rfl, _, rfl, by decide, rfl⟩

end Service

end ObjectWire
