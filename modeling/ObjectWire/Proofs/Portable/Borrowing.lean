import ObjectWire.Proofs.Pool.Borrowing
import ObjectWire.Proofs.Portable.Objects

/-!
# Buffers that describing and framing borrow

Registering a definition borrows a buffer for as long as it makes a compressed form, so describing
an object has one buffer out at a time.  Framing an object has one out for the object and,
meanwhile, those of the objects inside it: as many as there are levels.
-/

namespace ObjectWire

open Equipped (equip)

variable {levels : Nat}

instance : Equipped BodyWriter :=
  ⟨fun pool room writer => { writer with body := equip pool room writer.body }⟩

instance : Equipped PortableContext := ⟨fun pool _ context => { context with pool := pool }⟩

instance : Equipped (Output × PortableContext) :=
  ⟨fun pool room (buffer, context) => (equip pool room buffer, equip pool room context)⟩

instance : Equipped Frame.Open :=
  ⟨fun pool room state => ⟨equip pool room state.writer, equip pool room state.context⟩⟩

namespace FieldData

theorem borrows_writeRun {α : Type} (encode : α → Except Failure Bytes)
    (items : Option (List α)) : (writeRun encode items).Borrows levels := by
  cases items with
  | none => exact Output.borrows_write _
  | some items =>
    apply (Output.borrows_write _).bind
    intro _
    apply (Output.borrows_writeItem _).bind
    intro _
    exact Act.composes_borrows.forEach fun item _ => Output.borrows_writeItem _

theorem borrows_write (data : FieldData) : data.write.Borrows levels := by
  cases data with
  | scalar kind item => exact Output.borrows_writeItem _
  | text s =>
    cases s with
    | none => exact Output.borrows_write _
    | some s => exact (Output.borrows_write _).bind fun _ => Output.borrows_writeItem _
  | array kind items => exact borrows_writeRun _ items
  | textArray items => exact borrows_writeRun _ items

end FieldData

namespace BodyWriter

theorem borrows_onBody {α : Type} {step : Act Output α} (borrows : step.Borrows 0) :
    (onBody step).Borrows levels :=
  borrows.on_buffer (fun _ _ _ => rfl) fun _ _ _ _ _ _ => rfl

theorem blind_beginField (name : String) (kind : FieldKind) : (beginField name kind).Blind := by
  intro pool room writer
  -- once a field is marked, where its data start is recorded without a look at the room
  have recorded : ∀ field : Field, (do
      onBody (Output.patchInt (field.index.toNatClampNeg * 4) (Int32.ofNat writer.body.size))
      pure field.nested.classId : Act BodyWriter Int32).Blind := fun field =>
    ((Output.blind_patchInt _ _).on (fun _ _ _ => rfl) fun _ _ _ _ => rfl).bind fun _ =>
      Act.blind_lift _
  unfold beginField
  simp only [Act.bind_apply, Act.get_apply]
  cases found : writer.definition.field? name with
  | none => rfl
  | some field =>
    dsimp only
    split
    case isTrue => rfl
    case isFalse =>
      show (if writer.written[field.index.toNatClampNeg]?.getD false = true then _ else _ :
        Act BodyWriter Int32) _ = _
      split
      case isTrue => rfl
      case isFalse =>
        rw [Act.bind_apply, Act.bind_apply]
        show (if Wire.lengthLimit ≤ writer.body.size then _ else _ : Act BodyWriter Int32) _ =
          (((if Wire.lengthLimit ≤ writer.body.size then _ else _ : Act BodyWriter Int32) _).1,
            equip pool room
              ((if Wire.lengthLimit ≤ writer.body.size then _ else _ : Act BodyWriter Int32) _).2)
        split
        case isTrue => rfl
        case isFalse =>
          exact recorded field pool room
            { writer with written := writer.written.set field.index.toNatClampNeg true }

theorem borrows_checkClass (name : String) (declared actual : Int32) :
    (checkClass name declared actual).Borrows levels := by
  unfold checkClass
  split
  case isTrue => exact Act.borrows_pure ()
  case isFalse => exact Act.borrows_fail _

theorem borrows_writeData (name : String) (data : FieldData) :
    (writeData name data).Borrows levels :=
  (Act.borrows_of_blind (blind_beginField name data.kind)).bind fun _ =>
    borrows_onBody data.borrows_write

end BodyWriter

namespace PortableContext

theorem borrows_withBuffer {α : Type} {step : Act (Output × PortableContext) α}
    (borrows : step.Borrows levels) : (withBuffer step).Borrows (levels + 1) := by
  refine borrows.lend (fun context => (.empty 0, context)) (fun _ => []) (fun outcome _ => outcome)
    (fun (buffer, reached) => { reached with pool := reached.pool.release buffer }) ?_
    (fun _ _ _ _ => rfl) ?_
  · intro pool room context clean
    have taken : equip pool.acquire.2 pool.acquire.1.room (Output.empty 0, context) =
        (pool.acquire.1, { context with pool := pool.acquire.2 }) := by
      refine Prod.ext ?_ rfl
      show (⟨[], pool.acquire.1.room⟩ : Output) = pool.acquire.1
      rw [← clean.acquire_content]
    rw [Room.after, List.foldl_nil, taken]
    rfl
  · intro pool room other (buffer, reached)
    have same : pool.release ⟨buffer.content, room⟩ = pool.release ⟨[], room⟩ :=
      Pool.release_congr rfl
    show ({ reached with pool := pool.release ⟨buffer.content, room⟩ } : PortableContext) = _
    rw [same]
    rfl

theorem borrows_binaryOf (definition : ClassDefinition) :
    (binaryOf definition).Borrows (levels + 1) := by
  refine Act.borrows_get (fun _ _ _ => rfl) fun context => ?_
  split
  case h_1 => exact Act.borrows_pure _
  case h_2 =>
    apply borrows_withBuffer
    apply (Act.borrows_lift _).bind
    intro layout
    let form := Zlib.compress layout
    refine Act.Borrows.bind (Act.borrows_nothing fun (buffer, context) => ?_) fun _ =>
      Act.borrows_pure form
    exact ⟨[buffer.size + layout.length], .ok (),
      (buffer.append layout, context.keepForm definition form), fun _ _ => rfl⟩

theorem borrows_label (definition : ClassDefinition) : (label definition).Borrows levels :=
  Act.borrows_of_blind fun _ _ _ => rfl

theorem borrows_settle (key : ClassKey) (definition : ClassDefinition) :
    (settle key definition).Borrows levels := by
  refine Act.borrows_get (fun _ _ _ => rfl) fun context => ?_
  split
  case h_1 => exact Act.borrows_pure _
  case h_2 =>
    apply (borrows_label definition).bind
    intro labelled
    exact Act.Borrows.bind (Act.borrows_of_blind fun _ _ _ => rfl) fun _ => Act.borrows_pure _

theorem borrows_registerWithin (steps : Nat) (key : ClassKey) (definition : ClassDefinition) :
    (registerWithin steps key definition).Borrows (levels + 1) := by
  induction steps generalizing key definition with
  | zero => exact Act.borrows_fail _
  | succ steps ih =>
    apply (borrows_settle key definition).bind
    intro settled
    apply (borrows_binaryOf settled).bind
    intro _
    refine (Act.composes_borrows.forEach fun nested _ => ?_).bind fun _ => Act.borrows_pure settled
    exact (ih nested.key nested).bind fun _ => Act.borrows_pure ()

theorem borrows_register (definition : ClassDefinition) :
    (register definition).Borrows (levels + 1) :=
  Act.borrows_get (fun _ _ _ => rfl) fun _ => borrows_registerWithin _ _ definition

theorem borrows_known (name : String) (classId : Int32) : (known name classId).Borrows levels := by
  refine Act.borrows_get (fun _ _ _ => rfl) fun context => ?_
  split
  case h_1 => exact Act.borrows_pure _
  case h_2 => exact Act.borrows_fail _

theorem borrows_describeArray (name : String) (classId : Int32) (definition : ClassDefinition)
    (draft : Draft) : (describeArray name classId definition draft).Borrows levels := by
  unfold describeArray
  split
  case isTrue => exact Act.borrows_lift _
  case isFalse => exact Act.borrows_fail _

theorem borrows_describeWrite {write : FieldWrite}
    (inside : ∀ q ∈ write.objects, (describe q).Borrows (levels + 1)) (draft : Draft) :
    (describeWrite write draft).Borrows (levels + 1) := by
  cases write with
  | data name value => exact Act.borrows_lift _
  | portable name value =>
    cases value with
    | none => exact Act.borrows_fail _
    | some p => exact (inside p (by simp [FieldWrite.objects])).bind fun _ => Act.borrows_lift _
  | nullPortable name classId => exact (borrows_known name classId).bind fun _ => Act.borrows_lift _
  | portableArray name classId items =>
    have held : (do
        let definition ← known name classId
        describeArray name classId definition draft).Borrows (levels + 1) :=
      (borrows_known name classId).bind fun _ => borrows_describeArray name classId _ draft
    cases items with
    | none => exact held
    | some items =>
      cases items with
      | nil => exact held
      | cons p items =>
        apply (inside p (by simp [FieldWrite.objects])).bind
        intro definition
        exact borrows_describeArray name classId definition draft
  | fail text => exact Act.borrows_fail _

theorem borrows_describeWrites {writes : List FieldWrite}
    (inside : ∀ write ∈ writes, ∀ q ∈ write.objects, (describe q).Borrows (levels + 1))
    (draft : Draft) : (describeWrites writes draft).Borrows (levels + 1) := by
  induction writes generalizing draft with
  | nil => exact Act.borrows_pure draft
  | cons write writes ih =>
    apply (borrows_describeWrite (inside write (by simp)) draft).bind
    intro next
    exact ih (fun other member => inside other (List.mem_cons_of_mem _ member)) next

/-- Describing an object, however deep, has one buffer out at a time. -/
theorem borrows_describe (p : Portable) : (describe p).Borrows (levels + 1) := by
  induction p using Portable.induction with
  | step p ih =>
    rw [describe_eq]
    refine Act.borrows_get (fun _ _ _ => rfl) fun context => ?_
    dsimp only
    split
    case h_1 => exact Act.borrows_pure _
    case h_2 =>
      apply (borrows_describeWrites (fun write member q among =>
        ih q (List.mem_flatMap.mpr ⟨write, member, among⟩)) _).bind
      intro draft
      exact (Act.borrows_lift _).bind fun definition => borrows_register definition

end PortableContext

namespace Frame

theorem borrows_onWriter {α : Type} {step : Act BodyWriter α}
    (borrows : step.Borrows 0) : (onWriter step).Borrows levels :=
  borrows.on_buffer (fun _ _ _ => rfl) fun _ _ _ _ _ _ => rfl

theorem borrows_onContext {α : Type} {step : Act PortableContext α}
    (borrows : step.Borrows levels) : (onContext step).Borrows levels :=
  borrows.on_pool (fun _ _ _ => rfl) fun _ _ _ _ _ _ => rfl

theorem borrows_write (frame : Closed) : frame.write.Borrows levels :=
  (Output.borrows_write _).bind fun _ => Output.borrows_writeItem _

section Composes

/-! Performing a write is made of steps on the body that borrow nothing, and of framing the objects
inside. -/

variable {holds : {α : Type} → Act Open α → Prop} (composes : Act.Composes holds)
  (written : ∀ {α : Type} {step : Act BodyWriter α}, step.Borrows 0 → holds (onWriter step))
include composes written

theorem composes_checkClasses (name : String) (declared : Int32) (items : List Portable) :
    holds (checkClasses name declared items) := by
  induction items with
  | nil => exact composes.pure ()
  | cons p items ih =>
    exact composes.bind (written (BodyWriter.borrows_checkClass name declared p.classId))
      fun _ => ih

theorem composes_putAll {items : List Portable}
    (inside : ∀ q ∈ items, holds (onContext (close q))) : holds (putAll items) := by
  induction items with
  | nil => exact composes.pure ()
  | cons p items ih =>
    apply composes.bind (inside p (by simp))
    intro frame
    apply composes.bind (written (BodyWriter.borrows_onBody (borrows_write frame)))
    intro _
    exact ih fun q member => inside q (List.mem_cons_of_mem _ member)

theorem composes_perform {write : FieldWrite}
    (inside : ∀ q ∈ write.objects, holds (onContext (close q))) : holds (perform write) := by
  have put : ∀ run, holds (put run) := fun run =>
    written (BodyWriter.borrows_onBody (Output.borrows_write run))
  have begun : ∀ name kind, holds (onWriter (BodyWriter.beginField name kind)) := fun name kind =>
    written (Act.borrows_of_blind (BodyWriter.blind_beginField name kind))
  -- the field of an object is begun, and the class it declares is checked
  have checked : ∀ name kind classId {next : Int32 → Act Open Unit},
      (∀ declared, holds (next declared)) → holds (do
        let declared ← onWriter (BodyWriter.beginField name kind)
        onWriter (BodyWriter.checkClass name declared classId)
        next declared) := by
    intro name kind classId next rest
    apply composes.bind (begun name kind)
    intro declared
    exact composes.bind (written (BodyWriter.borrows_checkClass name declared classId))
      fun _ => rest declared
  cases write with
  | data name value => exact written (BodyWriter.borrows_writeData name value)
  | portable name value =>
    cases value with
    | none => exact composes.bind (begun name .portable) fun _ => put _
    | some p =>
      apply checked name .portable p.classId
      intro _
      apply composes.bind (put _)
      intro _
      apply composes.bind (inside p (by simp [FieldWrite.objects]))
      intro frame
      exact written (BodyWriter.borrows_onBody (borrows_write frame))
  | nullPortable name classId => exact checked name .portable classId fun _ => put _
  | portableArray name classId items =>
    cases items with
    | none => exact checked name .portableArray classId fun _ => put _
    | some items =>
      apply checked name .portableArray classId
      intro declared
      apply composes.bind (composes_checkClasses composes written name declared items)
      intro _
      apply composes.bind (put _)
      intro _
      apply composes.bind (written (BodyWriter.borrows_onBody (Output.borrows_writeItem _)))
      intro _
      exact composes_putAll composes written inside
  | fail text => exact composes.fail _

theorem composes_performAll {writes : List FieldWrite}
    (inside : ∀ write ∈ writes, ∀ q ∈ write.objects, holds (onContext (close q))) :
    holds (performAll writes) := by
  induction writes with
  | nil => exact composes.pure ()
  | cons write writes ih =>
    apply composes.bind (composes_perform composes written (inside write (by simp)))
    intro _
    exact ih fun other member => inside other (List.mem_cons_of_mem _ member)

end Composes

theorem borrows_fill (definition : ClassDefinition) {writes : Act Open Unit}
    (borrows : writes.Borrows levels) : (fill definition writes).Borrows (levels + 1) := by
  let blank : Output := .empty 0
  let offsets := (List.replicate definition.fields.length (Wire.int BodyReader.unwritten)).flatten
  refine borrows.lend (fun context => ⟨.start definition blank, context⟩)
    (fun _ => [offsets.length])
    (fun outcome reached => (fun _ => ⟨definition, reached.writer.body.content⟩) <$> outcome)
    (fun reached =>
      { reached.context with pool := reached.context.pool.release reached.writer.body })
    ?_ (fun _ _ _ _ => rfl) ?_
  · intro pool room context clean
    have taken : equip pool.acquire.2
        (pool.acquire.1.room.holding offsets.length)
        (⟨.start definition blank, context⟩ : Open) =
        ⟨.start definition pool.acquire.1, { context with pool := pool.acquire.2 }⟩ := by
      have lent : pool.acquire.1 = ⟨[], pool.acquire.1.room⟩ := by rw [← clean.acquire_content]
      rw [lent]
      show (⟨⟨definition, ⟨offsets, pool.acquire.1.room.holding offsets.length⟩, _⟩, _⟩ : Open) =
        ⟨⟨definition, ⟨offsets, pool.acquire.1.room.holding (0 + offsets.length)⟩, _⟩, _⟩
      rw [Nat.zero_add]
      rfl
    rw [Room.after, List.foldl_cons, List.foldl_nil, taken]
    rfl
  · intro pool room other reached
    have same : pool.release ⟨reached.writer.body.content, room⟩ = pool.release ⟨[], room⟩ :=
      Pool.release_congr rfl
    show ({ reached.context with
      pool := pool.release ⟨reached.writer.body.content, room⟩ } : PortableContext) = _
    rw [same]
    rfl

/-- Framing an object has a buffer out for every level of objects, at most. -/
theorem borrows_close (p : Portable) : (close p).Borrows (p.depth + 1) := by
  induction p using Portable.induction with
  | step p ih =>
    rw [close_eq]
    apply (PortableContext.borrows_describe p).bind
    intro definition
    refine borrows_fill definition
      (composes_performAll Act.composes_borrows borrows_onWriter fun write member q among => ?_)
    have inside : q ∈ p.objects := List.mem_flatMap.mpr ⟨write, member, among⟩
    exact borrows_onContext ((ih q inside).mono (Portable.depth_lt_of_mem_objects inside))

end Frame

end ObjectWire
