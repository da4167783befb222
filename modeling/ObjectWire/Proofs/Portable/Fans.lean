import Mathlib.Algebra.Ring.GeomSum
import ObjectWire.Proofs.Portable.Calls
import ObjectWire.Proofs.Portable.Opening
import ObjectWire.Proofs.Portable.Sharing

/-!
# Fans

The fields of an object may all point to one and the same frame, and so may those of the object in
it.  Each level then takes a header, a table and a flag more, and multiplies the objects by the
number of fields.  So there may be more objects than there are bytes, and about as many as sharing
of bytes allows for.
-/

namespace ObjectWire

/-- A class whose fields all hold objects of the next class, so many levels deep. -/
def ClassDefinition.fan (names : List String) : (levels : Nat) → ClassDefinition
  | 0 => ⟨⟨1, 0⟩, [], [], none⟩
  | levels + 1 =>
    let inner := fan names levels
    ⟨⟨Int32.ofNat (levels + 2), 0⟩,
      names.mapIdx fun i name => ⟨name, .portable, Int32.ofNat i, inner.key⟩, [inner], none⟩

namespace Frame

/-- A body behind the class that it is for and its length. -/
def framed (key : ClassKey) (body : Bytes) : Bytes :=
  Wire.classKey key ++ (BigEndian.encode 4 body.length ++ body)

/-- Fields that all point to the frame behind the table. -/
def pointing (names : List String) (inner : Bytes) : Bytes :=
  (names.flatMap fun _ => Wire.int (Int32.ofNat (names.length * 4))) ++ (Wire.bool true ++ inner)

/-- A frame of a fan, in which the fields of every level point to the same frame. -/
def fanned (names : List String) : (levels : Nat) → Bytes
  | 0 => framed ⟨1, 0⟩ []
  | levels + 1 => framed ⟨Int32.ofNat (levels + 2), 0⟩ (pointing names (fanned names levels))

/-- The object that is read from a frame of a fan. -/
def fanObject (names : List String) : (levels : Nat) → Portable
  | 0 => .scripted 1 none [] none []
  | levels + 1 =>
    .scripted (Int32.ofNat (levels + 2)) none [] none
      (names.map fun _ => .portable (some (fanObject names levels)))

variable {names : List String} {name : String} {nested : Act Input Portable} {inner : Bytes}
  {known : ClassDefinition} {key : ClassKey} {p : Portable} {source : Source}

theorem classId_fanObject (levels : Nat) :
    (fanObject names levels).classId = (ClassDefinition.fan names levels).key.classId := by
  cases levels <;> rfl

theorem length_framed (key : ClassKey) (body : Bytes) :
    (framed key body).length = 12 + body.length := by
  simp [framed, Wire.classKey, Wire.int]
  omega

theorem length_pointing (names : List String) (inner : Bytes) :
    (pointing names inner).length = names.length * 4 + 1 + inner.length := by
  rw [pointing, List.length_append, Sheet.length_entries fun _ => Sheet.length_int _]
  simp [Wire.bool]
  omega

theorem length_fanned (levels : Nat) :
    (fanned names levels).length = 12 + levels * (13 + names.length * 4) := by
  induction levels with
  | zero => rw [fanned, length_framed]; simp
  | succ levels ih =>
    rw [fanned, length_framed, length_pointing, ih, Nat.succ_mul]
    omega

theorem totalOfResults_replicated (p : Portable) (names : List String) :
    Portable.totalOfResults (names.map fun _ => .portable (some p)) = names.length * p.total := by
  induction names with
  | nil => simp [Portable.totalOfResults]
  | cons name names ih =>
    rw [List.map_cons, Portable.totalOfResults, Portable.totalOfResult, ih, List.length_cons,
      Nat.succ_mul, Nat.add_comm]

/-- Each level has as many objects as there are paths to it. -/
theorem total_fanObject (levels : Nat) :
    (fanObject names levels).total = ∑ i ∈ Finset.range (levels + 1), names.length ^ i := by
  induction levels with
  | zero => simp [fanObject, Portable.total, Portable.totalOfResults]
  | succ levels ih =>
    rw [fanObject, Portable.total, totalOfResults_replicated, ih, Nat.add_comm]
    exact geom_sum_succ.symm

theorem entry_pointing {i : Nat} (inside : i < names.length) :
    BodyWriter.entry (pointing names inner) i = Wire.int (Int32.ofNat (names.length * 4)) := by
  have width : ∀ name : String, (Wire.int (Int32.ofNat (names.length * 4))).length = 4 :=
    fun _ => Sheet.length_int _
  have place : names[i]? = some names[i] := List.getElem?_eq_getElem inside
  obtain ⟨rest, dropped⟩ := Sheet.drop_entries width place
  rw [BodyWriter.entry, pointing, List.drop_append_of_le_length, dropped, List.append_assoc,
    List.take_left' (Sheet.length_int _)]
  rw [Sheet.length_entries width]
  omega

theorem drop_pointing (names : List String) (inner : Bytes) :
    (pointing names inner).drop (names.length * 4) = Wire.bool true ++ inner := by
  rw [pointing, List.drop_left']
  exact Sheet.length_entries (fun _ => Sheet.length_int _) names

section Fields

variable (fields : known.fields = names.mapIdx fun i name =>
  ⟨name, .portable, Int32.ofNat i, key⟩)
include fields

theorem field?_of_mem (declared : name ∈ names) :
    ∃ i field, i < names.length ∧ known.field? name = some field ∧ field.name = name ∧
      field.kind = .portable ∧ field.index = Int32.ofNat i ∧ field.nested = key := by
  have exists_field : (known.field? name).isSome = true := by
    obtain ⟨i, inside, named⟩ := List.mem_iff_getElem.mp declared
    rw [ClassDefinition.field?, List.find?_isSome]
    refine ⟨⟨names[i], .portable, Int32.ofNat i, key⟩, ?_, decide_eq_true named⟩
    rw [fields]
    exact List.mem_mapIdx.mpr ⟨i, inside, rfl⟩
  obtain ⟨field, found⟩ := Option.isSome_iff_exists.mp exists_field
  have matched := List.find?_some found
  have among := List.mem_of_find?_eq_some found
  rw [fields] at among
  obtain ⟨i, inside, same⟩ := List.mem_mapIdx.mp among
  exact ⟨i, field, inside, found, of_decide_eq_true matched, same ▸ rfl, same ▸ rfl, same ▸ rfl⟩

/-- Every field gives the object that they all point to. -/
theorem read_pointing (small : (pointing names inner).length < Wire.lengthLimit)
    (takes : Input.Takes nested inner p) (same : p.classId = key.classId)
    (declared : name ∈ names) :
    read nested ⟨known, pointing names inner⟩ (.field .portable name) =
      .ok (.portable (some p)) := by
  have size := length_pointing names inner
  have table : BodyReader.tableSize known = names.length * 4 := by
    rw [BodyReader.tableSize, fields, List.length_mapIdx]
  obtain ⟨i, field, inside, found, rfl, kind, index, nestedKey⟩ := field?_of_mem fields declared
  have entry : BodyWriter.entry (pointing names inner) field.index.toNatClampNeg =
      Wire.int (Int32.ofNat (names.length * 4)) := by
    rw [index, Input.toNatClampNeg_ofNat (by omega)]
    exact entry_pointing inside
  have sought := BodyWriter.seek_at found (by omega) (Nat.le_of_eq table) (by omega) entry
  rw [kind, drop_pointing] at sought
  have item : Input.Takes (checked nested (checkDecoded ⟨known, pointing names inner⟩ field.name))
      inner p :=
    takes.bind_nil (Input.takes_lift (checkDecoded_of_declared found (by rw [nestedKey, same])))
  have data : Input.Takes (readData (checked nested
      (checkDecoded ⟨known, pointing names inner⟩ field.name)) field.name .portable)
      (Wire.bool true ++ inner) (.portable (some p)) :=
    ((Input.takes_bool true).bind (item.map some)).map _
  have taken := data [] 0
  rw [List.append_nil] at taken
  rw [read_field_of_some sought]
  exact congrArg Prod.fst taken

end Fields

/-- A body behind its header is what is read of it. -/
theorem takes_framed {known : ClassDefinition} {body : Bytes} {levels : Nat}
    (small : body.length < Wire.lengthLimit) (found : source.context.lookup key = some known)
    {blank : BlankPortable} (given : source.create key.classId = .ok blank)
    (room : BodyReader.tableSize known ≤ body.length)
    (read : readObject (openWithin source levels) ⟨known, body⟩ blank = .ok p) :
    Input.Takes (openWithin source (levels + 1)) (framed key body) p := by
  have counted : Wire.length .portableBody body.length = .ok (BigEndian.encode 4 body.length) :=
    if_pos small
  apply (Input.takes_classKey key).bind
  apply (Input.takes_length counted).bind
  apply (Input.takes_bytes body).bind_nil
  rw [found]
  apply Input.takes_lift
  rw [given, BodyReader.start, if_neg (Nat.not_lt.mpr room)]
  exact read

/-- Where the classes of a fan are known and objects read each of their fields once, a frame of the
    fan gives all the objects of the fan. -/
theorem takes_fanned {levels allowed : Nat}
    (small : (fanned names levels).length < Wire.lengthLimit)
    (knows : ∀ i ≤ levels, ∃ known,
      source.context.lookup (ClassDefinition.fan names i).key = some known ∧
        known.fields = (ClassDefinition.fan names i).fields)
    (makes : ∀ i ≤ levels, source.create (ClassDefinition.fan names i).classId =
      .ok (.scripted (ClassDefinition.fan names i).classId
        ((ClassDefinition.fan names i).fields.map fun field => .field .portable field.name)))
    (deep : levels < allowed) :
    Input.Takes (openWithin source allowed) (fanned names levels) (fanObject names levels) := by
  induction levels generalizing allowed with
  | zero =>
    obtain ⟨allowed, rfl⟩ := Nat.exists_eq_succ_of_ne_zero (Nat.ne_zero_of_lt deep)
    obtain ⟨known, found, fields⟩ := knows 0 (Nat.le_refl 0)
    rw [fanned, fanObject]
    refine takes_framed (by decide) found (makes 0 (Nat.le_refl 0)) ?_ rfl
    rw [BodyReader.tableSize, fields]
    exact Nat.le_refl 0
  | succ levels ih =>
    obtain ⟨allowed, rfl⟩ := Nat.exists_eq_succ_of_ne_zero (Nat.ne_zero_of_lt deep)
    obtain ⟨known, found, fields⟩ := knows (levels + 1) (Nat.le_refl _)
    have size := length_pointing names (fanned names levels)
    rw [fanned, length_framed] at small
    have inside : Input.Takes (openWithin source allowed) (fanned names levels)
        (fanObject names levels) := by
      apply ih
      · omega
      · exact fun i lower => knows i (Nat.le_succ_of_le lower)
      · exact fun i lower => makes i (Nat.le_succ_of_le lower)
      · omega
    have got : (names.map fun name => FieldRead.field .portable name).mapM
        (read (openWithin source allowed) ⟨known, pointing names (fanned names levels)⟩) =
        .ok ((names.map fun name => FieldRead.field .portable name).map fun _ =>
          .portable (some (fanObject names levels))) := by
      apply Act.settled_mapM
      intro r member
      obtain ⟨name, declared, rfl⟩ := List.mem_map.mp member
      exact read_pointing fields (by omega) inside (classId_fanObject levels) declared
    have reads : (ClassDefinition.fan names (levels + 1)).fields.map
        (fun field => FieldRead.field .portable field.name) =
        names.map fun name => FieldRead.field .portable name := by
      apply List.ext_getElem <;> simp [ClassDefinition.fan]
    rw [fanned, fanObject]
    refine takes_framed (by omega) found (makes (levels + 1) (Nat.le_refl _)) ?_ ?_
    · rw [BodyReader.tableSize, fields, ClassDefinition.fan, List.length_mapIdx, size]
      omega
    · rw [reads, readObject, got, List.map_map]
      rfl

open PortableContext (Request answering)

/-- Three fields at each of four levels: more objects than there are bytes, although every object
    reads each field of its class once. -/
theorem more_objects_than_bytes :
    let names := ["a", "b", "c"]
    let context := answering [Request.register (ClassDefinition.fan names 4)]
      (.start 0 (.ofSettings 16 2 1))
    let factory : PortableFactory := fun classId =>
      some (.scripted classId (if classId = 1 then [] else names.map (.field .portable)))
    let source : Source := ⟨context, some factory⟩
    let payload := fanned names 4
    (∀ classId code, source.objects classId = .ok code → code.ReadsOnce) ∧
      payload.length = 112 ∧
      ∃ p, openAt source 0 (.ofBytes payload) = (.ok p, ⟨[], 112⟩) ∧ p.total = 121 ∧
        created source.context source.objects (Failure.maxPortableLevels + 1)
          (.ofBytes payload) = p.total := by
  intro names context factory source payload
  have once : ∀ classId code, source.objects classId = .ok code → code.ReadsOnce := by
    rintro classId code made
    cases made
    apply SelfReading.readsOnce_scripted
    split <;> decide
  have registered : ∀ i ≤ 4, (source.context.lookup (ClassDefinition.fan names i).key).map
      ClassDefinition.fields = some (ClassDefinition.fan names i).fields := by decide +kernel
  have knows : ∀ i ≤ 4, ∃ known,
      source.context.lookup (ClassDefinition.fan names i).key = some known ∧
        known.fields = (ClassDefinition.fan names i).fields :=
    fun i lower => Option.map_eq_some_iff.mp (registered i lower)
  have makes : ∀ i ≤ 4, source.create (ClassDefinition.fan names i).classId =
      .ok (.scripted (ClassDefinition.fan names i).classId
        ((ClassDefinition.fan names i).fields.map fun field => .field .portable field.name)) := by
    intro i lower
    match i, lower with
    | 0, _ | 1, _ | 2, _ | 3, _ | 4, _ => rfl
  have length : payload.length = 112 := (length_fanned 4).trans rfl
  have takes : Input.Takes (openAt source 0) payload (fanObject names 4) :=
    takes_fanned (by decide +kernel) knows makes (by decide)
  have opened : openAt source 0 (.ofBytes payload) = (.ok (fanObject names 4), ⟨[], 112⟩) := by
    have taken := takes [] 0
    rwa [List.append_nil, Nat.zero_add, length] at taken
  have total : (fanObject names 4).total = 121 := (total_fanObject 4).trans (by decide)
  have kept : ∀ classId blank, source.create classId = .ok blank →
      ∃ known reads, blank = .scripted known reads := by
    rintro classId blank made
    cases made
    exact ⟨_, _, rfl⟩
  have made : created source.context source.objects (Failure.maxPortableLevels + 1)
      (.ofBytes payload) = (fanObject names 4).total := created_eq_total kept opened
  exact ⟨once, length, _, opened, total, made⟩

end Frame

end ObjectWire
