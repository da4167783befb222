import Mathlib.Data.List.Forall2
import ObjectWire.Proofs.ClassDefinition.Reread
import ObjectWire.Proofs.Portable.Naming

/-!
# What descriptions record

Describing an object that is new records one field for each of its writes, in their order: the name
and the kind of the write and, where it names a class or brings an object, that class.  The names
are all different, and every field stands at its index, so a write finds the field that was recorded
for it.
-/

namespace ObjectWire

/-- The class that a write names, or that of the single object it brings. -/
def FieldWrite.classId? : FieldWrite → Option Int32
  | portable _ (some p) => some p.classId
  | nullPortable _ classId | portableArray _ classId _ => some classId
  | data .. | portable _ none | fail _ => none

/-- The field is what a write records. -/
structure FieldWrite.Records (write : FieldWrite) (field : Field) : Prop where
  name : field.name = write.name
  kind : write.kind? = some field.kind
  classId : ∀ classId, write.classId? = some classId → field.nested.classId = classId

namespace Draft

variable {draft next : Draft} {name : String} {kind : FieldKind} {definition : ClassDefinition}

/-- A draft goes on by a field with a new name. -/
structure Gains (draft next : Draft) (field : Field) : Prop where
  fields : next.fields = draft.fields ++ [field]
  new : ∀ known ∈ draft.fields, known.name ≠ field.name

theorem gains_addField (h : draft.addField name kind = .ok next) :
    ∃ index, Gains draft next ⟨name, kind, index, .none⟩ := by
  obtain ⟨-, index, -, pushed⟩ := addField_ok h
  obtain ⟨new, rfl⟩ := pushField_ok pushed
  exact ⟨index, rfl, new⟩

theorem gains_addNested (h : draft.addNested name kind definition = .ok next) :
    ∃ index, Gains draft next ⟨name, kind, index, definition.key⟩ := by
  obtain ⟨index, middle, -, pushed, rfl⟩ := addNested_ok h
  obtain ⟨new, rfl⟩ := pushField_ok pushed
  exact ⟨index, pushNested_fields definition _, new⟩

theorem Gains.distinct {field : Field} (gains : Gains draft next field)
    (distinct : (draft.fields.map Field.name).Nodup) : (next.fields.map Field.name).Nodup := by
  rw [gains.fields, List.map_append, List.nodup_append]
  refine ⟨distinct, by simp, ?_⟩
  rintro _ among _ last
  obtain ⟨known, member, rfl⟩ := List.mem_map.mp among
  rw [List.mem_singleton.mp last]
  exact gains.new known member

end Draft

namespace PortableContext

open FieldWrite (Records)

variable {context now : PortableContext} {definition : ClassDefinition} {draft next : Draft}
  {p : Portable} {write : FieldWrite} {writes : List FieldWrite}

/-- Where definitions stand under their own keys, a description describes the object's class. -/
theorem classId_of_describe (own : context.OwnKeys)
    (ran : describe p context = (.ok definition, now)) : definition.classId = p.classId := by
  have still := (Act.within_of_ok (names_describe p) ran).ownKeys own
  exact congrArg ClassKey.classId (still _ _ (lookup_of_describe ran))

theorem classId_of_known {name : String} {classId : Int32} (own : context.OwnKeys)
    (ran : known name classId context = (.ok definition, now)) :
    definition.classId = classId ∧ now = context := by
  rw [known, Act.bind_of_ok (Act.get_apply context)] at ran
  cases found : context.lookupCurrent classId with
  | none =>
    rw [found] at ran
    cases ran
  | some held =>
    rw [found] at ran
    cases ran
    exact ⟨congrArg ClassKey.classId (own _ _ found), rfl⟩

theorem gains_describeArray {name : String} {classId : Int32}
    (ran : describeArray name classId definition draft context = (.ok next, now)) :
    ∃ index, Draft.Gains draft next ⟨name, .portableArray, index, definition.key⟩ ∧
      definition.classId = classId := by
  unfold describeArray at ran
  split at ran
  case isTrue declared =>
    obtain ⟨index, gains⟩ := Draft.gains_addNested (Act.lift_ok ran).1
    exact ⟨index, gains, declared⟩
  case isFalse => cases ran

/-- One write records one field. -/
theorem records_describeWrite (own : context.OwnKeys)
    (ran : describeWrite write draft context = (.ok next, now)) :
    ∃ field, Draft.Gains draft next field ∧ Records write field := by
  cases write with
  | data name value =>
    obtain ⟨index, gains⟩ := Draft.gains_addField (Act.lift_ok ran).1
    exact ⟨_, gains, rfl, rfl, nofun⟩
  | portable name value =>
    cases value with
    | none => cases ran
    | some p =>
      obtain ⟨held, reached, described, added⟩ := Act.bind_ok ran
      obtain ⟨index, gains⟩ := Draft.gains_addNested (Act.lift_ok added).1
      refine ⟨_, gains, rfl, rfl, fun classId named => ?_⟩
      cases named
      exact classId_of_describe own described
  | nullPortable name classId =>
    obtain ⟨held, reached, described, added⟩ := Act.bind_ok ran
    obtain ⟨index, gains⟩ := Draft.gains_addNested (Act.lift_ok added).1
    refine ⟨_, gains, rfl, rfl, fun other named => ?_⟩
    cases named
    exact (classId_of_known own described).1
  | portableArray name classId items =>
    rcases items with _ | _ | ⟨p, items⟩
    all_goals
      obtain ⟨held, reached, -, added⟩ := Act.bind_ok ran
      obtain ⟨index, gains, declared⟩ := gains_describeArray added
      refine ⟨_, gains, rfl, rfl, fun other named => ?_⟩
      cases named
      exact declared
  | fail text => cases ran

theorem names_describeWrite (write : FieldWrite) (draft : Draft) :
    (describeWrite write draft).Within Names :=
  Act.withinUnless_iff.mp (withinUnless_describeWrite (fun q _ => (names_describe q).unless) draft)

/-- Writes record one field each, in their order, under different names. -/
theorem records_describeWrites (own : context.OwnKeys)
    (distinct : (draft.fields.map Field.name).Nodup)
    (ran : describeWrites writes draft context = (.ok next, now)) :
    (next.fields.map Field.name).Nodup ∧
      ∃ fields, next.fields = draft.fields ++ fields ∧ List.Forall₂ Records writes fields := by
  induction writes generalizing draft context with
  | nil =>
    cases ran
    exact ⟨distinct, [], (List.append_nil _).symm, .nil⟩
  | cons write writes ih =>
    obtain ⟨middle, reached, first, rest⟩ := Act.bind_ok ran
    obtain ⟨field, gains, records⟩ := records_describeWrite own first
    have still := (Act.within_of_ok (names_describeWrite write draft) first).ownKeys own
    obtain ⟨nodup, fields, appended, others⟩ := ih still (gains.distinct distinct) rest
    refine ⟨nodup, field :: fields, ?_, .cons records others⟩
    rw [appended, gains.fields, List.append_assoc, List.singleton_append]

/-- Describing an object that is new answers with what its own writes record.  It may answer with
    something else, if an object inside it has been described under the same class and version
    meanwhile. -/
structure DescribesItself (context : PortableContext) (p : Portable)
    (definition : ClassDefinition) : Prop where
  new : context.lookup (context.keyOf p) = none
  answers : (describe p context).1 = .ok definition
  recorded : ∃ draft own, (describeWrites p.writes (.start (context.keyOf p)) context).1 = .ok draft ∧
    draft.build = .ok own ∧ own.same definition = true

/-- The fields of a definition are those that writes record, each at its index. -/
structure Recorded (writes : List FieldWrite) (definition : ClassDefinition) : Prop where
  fields : List.Forall₂ Records writes definition.fields
  distinct : (definition.fields.map Field.name).Nodup
  placed : definition.Placed

theorem DescribesItself.records (describes : DescribesItself context p definition)
    (own : context.OwnKeys) : Recorded p.writes definition := by
  obtain ⟨draft, built, described, finished, same⟩ := describes.recorded
  have ran : describeWrites p.writes (.start (context.keyOf p)) context =
      (.ok draft, (describeWrites p.writes (.start (context.keyOf p)) context).2) := by
    rw [← described]
  have start : ((Draft.start (context.keyOf p)).fields.map Field.name).Nodup := List.nodup_nil
  obtain ⟨nodup, fields, appended, records⟩ := records_describeWrites own start ran
  obtain ⟨complete, rfl⟩ := Draft.build_ok finished
  have equal : draft.fields = definition.fields := ClassDefinition.fields_eq_of_same same
  rw [show draft.fields = fields from appended] at equal nodup
  subst equal
  refine ⟨records, nodup, fun i field place => complete.placed i field ?_⟩
  rwa [show draft.fields = definition.fields from appended]

namespace Recorded

variable {i : Nat}

theorem length (recorded : Recorded writes definition) :
    definition.fields.length = writes.length :=
  recorded.fields.length_eq.symm

theorem names (recorded : Recorded writes definition) :
    definition.fields.map Field.name = writes.map FieldWrite.name := by
  obtain ⟨pairs, -, -⟩ := recorded
  generalize definition.fields = fields at pairs
  induction pairs with
  | nil => rfl
  | cons records _ ih => rw [List.map_cons, List.map_cons, records.name, ih]

/-- The write at a place finds the field that it has recorded there. -/
theorem finds (recorded : Recorded writes definition) (place : writes[i]? = some write) :
    ∃ field, definition.field? write.name = some field ∧ field.index.toNatClampNeg = i ∧
      Records write field := by
  obtain ⟨inside, rfl⟩ := List.getElem?_eq_some_iff.mp place
  have bound : i < definition.fields.length := by rwa [recorded.length]
  have records : Records writes[i] definition.fields[i] := recorded.fields.get inside bound
  refine ⟨definition.fields[i], ?_, ?_, records⟩
  · exact (ClassDefinition.field?_eq_some_iff recorded.distinct).mpr
      ⟨List.getElem_mem bound, records.name⟩
  · exact recorded.placed.index (List.getElem?_eq_getElem bound)

end Recorded

end PortableContext

end ObjectWire
