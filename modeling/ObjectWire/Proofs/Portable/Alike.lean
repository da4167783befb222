import ObjectWire.Proofs.Portable.Opening

/-!
# Opening a frame in two places

Two places that make the same blank objects, and that both have the definitions by which the parts
of an object were written, open the object's frame alike: either both answer with the same object,
or both fail, and for the same reason.  This does not depend on what the blank objects read.
-/

namespace ObjectWire

namespace Input

variable {α β : Type} {first second : Act Input α} {run more : Bytes}

/-- On every input that begins with the run, two steps take the run and answer with the same value,
    or they fail with the same failure. -/
inductive Alike (first second : Act Input α) (run : Bytes) : Prop
  | take (value : α) (one : Takes first run value) (other : Takes second run value)
  | fail (failure : Failure) (one : Fails first run failure) (other : Fails second run failure)

theorem Alike.outcome (alike : Alike first second run) (rest : Bytes) (position : Nat) :
    (first ⟨run ++ rest, position⟩).1 = (second ⟨run ++ rest, position⟩).1 := by
  cases alike with
  | take value one other => rw [one rest position, other rest position]
  | fail failure one other => rw [one rest position, other rest position]

theorem alike_pure (value : α) : Alike (pure value) (pure value) [] :=
  .take value (takes_pure value) (takes_pure value)

theorem alike_lift (outcome : Except Failure α) :
    Alike (Act.lift outcome) (Act.lift outcome) [] := by
  cases outcome with
  | error failure => exact .fail failure (fun _ _ => rfl) fun _ _ => rfl
  | ok value => exact .take value (takes_lift rfl) (takes_lift rfl)

theorem Alike.bind {next last : α → Act Input β} (alike : Alike first second run)
    (rest : ∀ value, Alike (next value) (last value) more) :
    Alike (first >>= next) (second >>= last) (run ++ more) := by
  cases alike with
  | take value one other =>
    cases rest value with
    | take answer after behind => exact .take answer (one.bind after) (other.bind behind)
    | fail failure after behind => exact .fail failure (one.fails after) (other.fails behind)
  | fail failure one other => exact .fail failure (one.bind next more) (other.bind last more)

/-- Like `Alike.bind`, where nothing is left for the second steps to take. -/
theorem Alike.bind_nil {next last : α → Act Input β} (alike : Alike first second run)
    (rest : ∀ value, Alike (next value) (last value) []) :
    Alike (first >>= next) (second >>= last) run := by
  have both := alike.bind rest
  rwa [List.append_nil] at both

theorem Alike.map (f : α → β) (alike : Alike first second run) :
    Alike (f <$> first) (f <$> second) run := by
  rw [map_eq_pure_bind, map_eq_pure_bind]
  exact alike.bind_nil fun value => alike_pure (f value)

/-- What one step takes and answers decides how two steps go on. -/
theorem Takes.alike {step : Act Input α} {next last : α → Act Input β} {value : α}
    (h : Takes step run value) (rest : Alike (next value) (last value) more) :
    Alike (step >>= next) (step >>= last) (run ++ more) := by
  cases rest with
  | take answer after behind => exact .take answer (h.bind after) (h.bind behind)
  | fail failure after behind => exact .fail failure (h.fails after) (h.fails behind)

theorem Takes.alike_nil {step : Act Input α} {next last : α → Act Input β} {value : α}
    (h : Takes step run value) (rest : Alike (next value) (last value) []) :
    Alike (step >>= next) (step >>= last) run := by
  have both := h.alike rest
  rwa [List.append_nil] at both

section Forms

variable {γ : Type} {form : γ → Option Bytes} {bytes : Bytes}

theorem alike_present {held : Option γ} (h : Wire.optional form held = some bytes)
    (each : ∀ item ∈ held, ∀ run, form item = some run → Alike first second run) :
    Alike (present first) (present second) bytes := by
  cases held with
  | none =>
    cases h
    exact (takes_bool false).alike (alike_pure none)
  | some item =>
    obtain ⟨inner, formed, rfl⟩ := Wire.optional_some h
    exact (takes_bool true).alike ((each item rfl inner formed).map some)

theorem alike_times {items : List γ} (h : Wire.all form items = some bytes)
    (each : ∀ item ∈ items, ∀ run, form item = some run → Alike first second run) :
    Alike (Act.times items.length first) (Act.times items.length second) bytes := by
  induction items generalizing bytes with
  | nil =>
    cases h
    exact alike_pure []
  | cons item items ih =>
    obtain ⟨front, others, formed, rest, rfl⟩ := Wire.all_cons h
    apply (each item (by simp) front formed).bind
    intro value
    have behind := ih rest fun other member => each other (List.mem_cons_of_mem _ member)
    exact behind.bind_nil fun values => alike_pure (value :: values)

theorem alike_counted {items : List γ} (name : String) (h : Wire.run form items = some bytes)
    (each : ∀ item ∈ items, ∀ run, form item = some run → Alike first second run) :
    Alike (counted name first) (counted name second) bytes := by
  obtain ⟨fits, inner, formed, rfl⟩ := Wire.run_some h
  apply (takes_int_ofNat fits).alike
  rw [if_neg (ofNat_nonneg fits), if_neg (ofNat_nonneg fits), toNatClampNeg_ofNat fits]
  exact alike_times formed each

end Forms

end Input

namespace Frame

variable {context : PortableContext} {definition known : ClassDefinition}
  {nested other : Act Input Portable} {reader : BodyReader} {sheet : Sheet} {name : String}

theorem alike_checked {run : Bytes} (check : Portable → Except Failure Portable)
    (alike : Input.Alike nested other run) :
    Input.Alike (checked nested check) (checked other check) run :=
  alike.bind_nil fun p => Input.alike_lift (check p)

/-- The field of an object was written, and is found where its data begin. -/
theorem exists_write_of_seek {kind : FieldKind} {p : Portable} {input : Input}
    (wellFormed : definition.WellFormed) (obeys : p.Obeys definition)
    (written : context.sheet p.writes = some sheet)
    (small : (sheet.body definition).length < Wire.lengthLimit)
    (sought : BodyReader.seek ⟨definition, sheet.body definition⟩ name kind = .ok (some input)) :
    ∃ write ∈ p.writes, write.kind? = some kind ∧
      ∃ run back, context.span write = some run ∧ input = ⟨run ++ back, 0⟩ := by
  cases found : definition.field? name with
  | none =>
    rw [BodyReader.seek_undeclared found] at sought
    cases sought
  | some field =>
    by_cases ofKind : field.kind = kind
    · subst ofKind
      by_cases among : name ∈ p.writes.map FieldWrite.name
      · obtain ⟨write, member, rfl⟩ := List.mem_map.mp among
        obtain ⟨declared, there, ofKind, -⟩ := obeys.fits write member
        obtain rfl : field = declared := Option.some.inj (found.symm.trans there)
        obtain ⟨front, run, back, split, absent, spanned⟩ :=
          PortableContext.sheet_of_mem written member obeys.once
        rw [BodyReader.seek_written wellFormed found split absent small] at sought
        cases sought
        exact ⟨write, member, ofKind, run, back.data, spanned, rfl⟩
      · rw [← PortableContext.names_of_sheet written] at among
        rw [BodyReader.seek_unwritten wellFormed found among] at sought
        cases sought
    · have refused : BodyReader.seek ⟨definition, sheet.body definition⟩ name kind =
          .error (.kindMismatch name kind field.kind) := by
        rw [BodyReader.seek, found]
        dsimp only
        rw [if_pos ofKind]
        rfl
      rw [refused] at sought
      cases sought

section Body

variable {p : Portable} (wellFormed : definition.WellFormed) (obeys : p.Obeys definition)
  (written : context.sheet p.writes = some sheet)
  (small : (sheet.body definition).length < Wire.lengthLimit)
  (each : ∀ q ∈ p.objects, ∀ bytes, context.frame q = some bytes → Input.Alike nested other bytes)
include wellFormed obeys written small each

theorem portableIn_alike (name : String) :
    portableIn nested ⟨definition, sheet.body definition⟩ name =
      portableIn other ⟨definition, sheet.body definition⟩ name := by
  rcases sought : BodyReader.seek ⟨definition, sheet.body definition⟩ name .portable with
    failure | _ | input
  · rw [portableIn, portableIn, seekPresent_of_error sought]
    rfl
  · rw [portableIn, portableIn, seekPresent_of_none sought]
    rfl
  · rw [portableIn_of_some sought, portableIn_of_some sought]
    obtain ⟨write, member, ofKind, run, back, spanned, rfl⟩ :=
      exists_write_of_seek wellFormed obeys written small sought
    refine Input.Alike.outcome ?_ back 0
    cases write with
    | portable field value =>
      rw [PortableContext.span_portable] at spanned
      apply Input.alike_present spanned
      intro q held bytes framed
      cases held
      have inside : q ∈ p.objects := List.mem_flatMap.mpr ⟨_, member, by simp [FieldWrite.objects]⟩
      exact alike_checked _ (each q inside bytes framed)
    | nullPortable field classId =>
      cases spanned
      exact (Input.takes_bool false).alike (Input.alike_pure none)
    | data field value => cases value <;> cases ofKind
    | portableArray field classId items => cases ofKind
    | fail text => cases ofKind

theorem portablesIn_alike (name : String) :
    portablesIn nested ⟨definition, sheet.body definition⟩ name =
      portablesIn other ⟨definition, sheet.body definition⟩ name := by
  rcases sought : BodyReader.seek ⟨definition, sheet.body definition⟩ name .portableArray with
    failure | _ | input
  · rw [portablesIn, portablesIn, BodyReader.run, BodyReader.run, seekPresent_of_error sought]
    rfl
  · rw [portablesIn, portablesIn, BodyReader.run, BodyReader.run, seekPresent_of_none sought]
    rfl
  · rw [portablesIn_of_some sought, portablesIn_of_some sought]
    obtain ⟨write, member, ofKind, run, back, spanned, rfl⟩ :=
      exists_write_of_seek wellFormed obeys written small sought
    refine Input.Alike.outcome ?_ back 0
    cases write with
    | portableArray field classId items =>
      rw [PortableContext.span_portableArray] at spanned
      apply Input.alike_present spanned
      intro objects held bytes formed
      apply Input.alike_counted name formed
      intro q among bytes framed
      cases held
      have inside : q ∈ p.objects := List.mem_flatMap.mpr ⟨_, member, among⟩
      exact alike_checked _ (each q inside bytes framed)
    | data field value => cases value <;> cases ofKind
    | portable field value => cases ofKind
    | nullPortable field classId => cases ofKind
    | fail text => cases ofKind

end Body

/-- A blank object reads the same where the objects inside it read the same. -/
theorem readObject_congr
    (one : ∀ name, portableIn nested reader name = portableIn other reader name)
    (run : ∀ name, portablesIn nested reader name = portablesIn other reader name)
    (blank : BlankPortable) : readObject nested reader blank = readObject other reader blank := by
  have each : read nested reader = read other reader := by
    funext r
    cases r with
    | field kind name =>
      cases kind with
      | portable => rw [read, read, one]
      | portableArray => rw [read, read, run]
      | _ => rfl
    | objectIn name sort typeName => rw [read, read, one]
    | objectsIn name sort typeName => rw [read, read, run]
    | _ => rfl
  cases blank with
  | scripted classId reads => rw [readObject, readObject, each]
  | link classId typeName => rw [readObject, readObject, one]
  | silent classId => rfl
  | customer => rfl

/-- What a blank object reads is the same by definitions that say the same. -/
theorem readObject_of_same (same : known.same definition = true) (body : Bytes)
    (blank : BlankPortable) :
    readObject nested ⟨known, body⟩ blank = readObject nested ⟨definition, body⟩ blank := by
  have each : read nested ⟨known, body⟩ = read nested ⟨definition, body⟩ :=
    funext fun r => read_of_same same body r
  have key := ClassDefinition.key_eq_of_same same
  have fields := ClassDefinition.fields_eq_of_same same
  obtain ⟨_, _, _, _⟩ := known
  obtain ⟨_, _, _, _⟩ := definition
  cases key
  cases fields
  cases blank with
  | scripted classId reads => rw [readObject, readObject, each]
  | link classId => rfl
  | silent classId => rfl
  | customer => rfl

theorem readBody_of_same (same : known.same definition = true) (body : Bytes)
    (blank : BlankPortable) :
    (BodyReader.start known body >>= fun reader => readObject nested reader blank) =
      (BodyReader.start definition body >>= fun reader => readObject nested reader blank) := by
  have fields := ClassDefinition.fields_eq_of_same same
  rw [BodyReader.start, BodyReader.start, BodyReader.tableSize, BodyReader.tableSize, fields]
  by_cases short : body.length < definition.fields.length * 4
  · rw [if_pos short, if_pos short]
  · rw [if_neg short, if_neg short]
    exact readObject_of_same same body blank

/-- Definitions that say the same open the same frames, whatever was written. -/
theorem openWithin_congr {here there : Source} (agrees : here.context.Agrees there.context)
    (factory : here.factory = there.factory) (levels : Nat) :
    openWithin here levels = openWithin there levels := by
  induction levels with
  | zero => rfl
  | succ levels ih =>
    have created : here.create = there.create := by
      funext classId
      rw [Source.create, Source.create, factory]
    rw [openWithin, openWithin, created, ih]
    congr 1
    funext key
    rcases agrees key with ⟨absent, missing⟩ | ⟨known, held, registered, found, same⟩
    · rw [absent, missing]
    · simp only [registered, found, readBody_of_same same]

theorem openAt_congr {here there : Source} (agrees : here.context.Agrees there.context)
    (factory : here.factory = there.factory) (depth : Nat) :
    openAt here depth = openAt there depth :=
  openWithin_congr agrees factory _

/-- Where a part of an object was written by a definition that both sources have, and both make the
    same blank objects, its frame is opened alike. -/
theorem alike_openWithin {here there : Source} {p : Portable} {levels : Nat} {run : Bytes}
    (sound : context.Sound) (covers : context.Covers p) (knows : here.Knows context p)
    (knowsToo : there.Knows context p) (factory : here.factory = there.factory)
    (framed : context.frame p = some run) :
    Input.Alike (openWithin here levels) (openWithin there levels) run := by
  induction levels generalizing p run with
  | zero => exact .fail .portablesTooDeep (fun _ _ => rfl) fun _ _ => rfl
  | succ levels ih =>
    obtain ⟨definition, sheet, content, found, obeys, written, sized, rfl⟩ := covers.body framed
    obtain ⟨first, lookedUp, same⟩ := knows p (.whole p) definition found
    obtain ⟨second, lookedUpToo, sameToo⟩ := knowsToo p (.whole p) definition found
    have small := (Input.byteArray_ok sized).1
    obtain ⟨length, counted, rfl⟩ := Act.settled_map_ok sized
    apply (Input.takes_classKey definition.key).alike
    apply (Input.takes_length counted).alike
    apply (Input.takes_bytes (sheet.body definition)).alike_nil
    rw [lookedUp, lookedUpToo]
    have created : here.create definition.key.classId = there.create definition.key.classId := by
      rw [Source.create, Source.create, factory]
    have each : ∀ q ∈ p.objects, ∀ bytes, context.frame q = some bytes →
        Input.Alike (openWithin here levels) (openWithin there levels) bytes := by
      intro q member bytes framed
      have part : q.PartOf p := .inside member (.whole q)
      exact ih (covers.part part) (knows.part part) (knowsToo.part part) framed
    have wellFormed := sound.wellFormed _ _ found
    have reads : ∀ blank : BlankPortable,
        readObject (openWithin here levels) ⟨definition, sheet.body definition⟩ blank =
          readObject (openWithin there levels) ⟨definition, sheet.body definition⟩ blank :=
      readObject_congr (portableIn_alike wellFormed obeys written small each)
        (portablesIn_alike wellFormed obeys written small each)
    have room : ¬ (sheet.body definition).length < BodyReader.tableSize definition := by
      rw [Sheet.length_body]
      omega
    simp only [created, readBody_of_same same, readBody_of_same sameToo]
    rw [BodyReader.start, if_neg room]
    simp only [Act.settled_bind_of_ok, reads]
    exact Input.alike_lift _

/-- A frame whose class at its version is not known is not opened, whatever the blank objects. -/
theorem fails_openWithin {source : Source} {p : Portable} {levels : Nat} {run : Bytes}
    (sound : context.Sound) (framed : context.frame p = some run)
    (unknown : source.context.lookup (context.keyOf p) = none) :
    Input.Fails (openWithin source (levels + 1)) run
      (.noDefinition (context.keyOf p).classId (context.keyOf p).version) := by
  obtain ⟨definition, sheet, content, found, written, sized, rfl⟩ :=
    PortableContext.frame_some framed
  obtain ⟨length, counted, rfl⟩ := Act.settled_map_ok sized
  rw [← sound.filed _ _ found] at unknown ⊢
  apply (Input.takes_classKey definition.key).fails
  apply (Input.takes_length counted).fails
  apply (Input.takes_bytes (sheet.body definition)).fails_nil
  rw [unknown]
  exact fun _ _ => rfl

end Frame

end ObjectWire
