import ObjectWire.Proofs.Service.Documents

/-!
# The codec for documents

The codec for documents finds the kind of a record by the type that the record reports, and takes no
object but records of that kind.  What it writes it reads back wherever it stands, in any service in
which the kind is filed under the type; a record is as long as it says, so whatever follows is left.
-/

namespace ObjectWire

namespace Record

/-- A document is decoded into a record of the kind that was asked for. -/
theorem kind_of_decode? {kind : RecordKind} {run : Bytes} {record : Record}
    (h : decode? kind run = some record) : record.kind = kind := by
  obtain ⟨document, -, h⟩ := Option.bind_eq_some_iff.mp h
  cases kind with
  | note =>
    obtain ⟨n, -, rfl⟩ := Option.map_eq_some_iff.mp h
    rfl
  | counter =>
    obtain ⟨c, -, rfl⟩ := Option.map_eq_some_iff.mp h
    rfl

end Record

namespace Service

variable {service : Service} {key : TypeKey} {kind : RecordKind}

/-- An object of another kind is refused before anything is written. -/
theorem writeDocument_of_other {o : UserObject} {writing : Writing}
    (filed : writing.service.records.lookup o.typeKey = some kind)
    (other : ∀ record, o = .record o.typeKey record → record.kind ≠ kind) :
    writeDocument o writing =
      (.error (.documentMismatch (writing.service.names.record kind) o.shown), writing) := by
  unfold writeDocument
  rw [Act.bind_of_ok (Act.get_apply writing), filed]
  cases o with
  | carrying type payload key => rfl
  | record type record => exact congrFun (if_neg (other record rfl)) writing

/-- Reading yields a record of the kind that is filed under the type whose name was read. -/
theorem readDocument_ok {o : UserObject} {receiving reached : Receiving}
    (h : readDocument receiving = (.ok o, reached)) :
    ∃ key record, o = .record key record ∧
      receiving.service.records.lookup key = some record.kind := by
  obtain ⟨name, named, first, h⟩ := Act.bind_ok h
  obtain ⟨input, -, rfl⟩ := Act.on_ok first
  rw [Act.bind_of_ok (Act.get_apply _)] at h
  cases filed : receiving.service.records.lookup ⟨name⟩ with
  | none =>
    simp only [filed] at h
    cases h
  | some kind =>
    simp only [filed] at h
    obtain ⟨run, behind, -, h⟩ := Act.bind_ok h
    cases decoded : Record.decode? kind run with
    | none =>
      simp only [decoded] at h
      cases h
    | some record =>
      simp only [decoded] at h
      cases h
      exact ⟨⟨name⟩, record, rfl, by rw [filed, Record.kind_of_decode? decoded]⟩

/-- Under a type with a kind filed, the codec for documents writes exactly the records of that kind,
    provided that they are not too long for their lengths to be written; it refuses any other object
    that reports the type, and leaves the output as it was.  What it writes is read as the same
    record wherever it stands, in any service with the kind filed under the type, and exactly what
    follows is left.  Reading never yields a record of any other kind than the one filed under its
    type. -/
theorem documents_exchanged (filed : service.records.lookup key = some kind) :
    (∀ (record : Record) (writing : Writing) (parts : Parts), record.kind = kind →
      writing.service = service →
        ((writeBuiltin .document (.object (.record key record)) parts writing).1 = .ok () ↔
          record.Fits key) ∧
        (record.Fits key → ∃ output,
          output.content = writing.output.content ++ documentRun key record ∧
          writeBuiltin .document (.object (.record key record)) parts writing =
            (.ok (), { writing with output := output }))) ∧
      (∀ (record : Record) (remote : Service) (nested : Act Receiving Value) (bound : Bool)
        (t : Bytes) (position : Nat), record.kind = kind → record.Fits key →
          remote.records.lookup key = some kind →
          readBuiltin nested .document
              ⟨⟨documentRun key record ++ t, position⟩, remote, bound⟩ =
            (.ok (.object (.record key record)),
              ⟨⟨t, position + (documentRun key record).length⟩, remote, bound⟩)) ∧
      (∀ (o : UserObject) (writing : Writing) (parts : Parts), o.typeKey = key →
        (∀ record, o = .record key record → record.kind ≠ kind) → writing.service = service →
          writeBuiltin .document (.object o) parts writing =
            (.error (.documentMismatch (service.names.record kind) o.shown), writing)) ∧
      ∀ (nested : Act Receiving Value) (receiving reached : Receiving) (value : Value),
        readBuiltin nested .document receiving = (.ok value, reached) →
          ∃ found record, value = .object (.record found record) ∧
            receiving.service.records.lookup found = some record.kind := by
  refine ⟨?_, ?_, ?_, ?_⟩
  · rintro record writing parts rfl rfl
    refine ⟨⟨fun written => ?_, fun fits => ?_⟩, writeDocument_of_fits filed⟩
    · rcases ran : writeDocument (.record key record) writing with ⟨outcome, reached⟩
      have done : outcome = .ok () := (congrArg Prod.fst ran).symm.trans written
      exact fits_of_writeDocument filed (ran.trans (congrArg (·, reached) done))
    · obtain ⟨output, -, written⟩ := writeDocument_of_fits filed fits
      exact congrArg Prod.fst written
  · rintro record remote nested bound t position rfl fits known
    show (Value.object <$> readDocument) _ = _
    rw [Act.map_apply, readDocument_of_run fits known]
    rfl
  · rintro o writing parts rfl other rfl
    exact writeDocument_of_other filed other
  · intro nested receiving reached value h
    obtain ⟨o, read, rfl⟩ := Act.map_ok h
    obtain ⟨found, record, rfl, known⟩ := readDocument_ok read
    exact ⟨found, record, rfl, known⟩

/-- A service in which both kinds are filed, one of them under a name that needs quoting. -/
def filing : Service :=
  fileRecord ⟨"app.Counter"⟩ .counter (fileRecord ⟨"a\"\\\x07é😀"⟩ .note (ofSettings .default))

theorem documents_exchanged_filing :
    filing.records.lookup ⟨"a\"\\\x07é😀"⟩ = some .note ∧
      (let key : TypeKey := ⟨"a\"\\\x07é😀"⟩
      let record := Record.note ⟨"\"\\\n\x00", 4294967295, ["", "\t/", "漢😀"]⟩
      ∃ output,
        writeBuiltin .document (.object (.record key record)) .none ⟨.empty 0, filing, true⟩ =
          (.ok (), ⟨output, filing, true⟩) ∧
        readBuiltin readValue .document ⟨.ofBytes (output.content ++ [1, 2]), filing, true⟩ =
          (.ok (.object (.record key record)),
            ⟨⟨[1, 2], output.content.length⟩, filing, true⟩)) ∧
      (let key : TypeKey := ⟨"a\"\\\x07é😀"⟩
      let record := Record.counter ⟨-9223372036854775808⟩
      writeBuiltin .document (.object (.record key record)) .none ⟨.empty 0, filing, true⟩ =
        (.error (.documentMismatch (filing.names.record .note) (record.shown key.name)),
          ⟨.empty 0, filing, true⟩)) := by
  have filed : filing.records.lookup ⟨"a\"\\\x07é😀"⟩ = some .note := by decide
  obtain ⟨writes, reads, refuses, -⟩ := documents_exchanged filed
  refine ⟨filed, ?_, ?_⟩
  · intro key record
    have fits : record.Fits key := ⟨by decide +kernel, by decide +kernel⟩
    obtain ⟨-, written⟩ := writes record ⟨.empty 0, filing, true⟩ .none rfl rfl
    obtain ⟨output, content, written⟩ := written fits
    have read := reads record filing readValue true [1, 2] 0 rfl fits filed
    have start : (⟨.empty 0, filing, true⟩ : Writing).output.content = [] := rfl
    rw [start, List.nil_append] at content
    rw [← content, Nat.zero_add] at read
    exact ⟨output, written, read⟩
  · intro key record
    refine refuses (.record key record) ⟨.empty 0, filing, true⟩ .none rfl ?_ rfl
    rintro other ⟨⟩
    decide

end Service

end ObjectWire
