import ObjectWire.Portable.Frame
import ObjectWire.Proofs.Act

/-!
# Objects inside objects

Every portable object, of whatever form, is described and written by a list of field writes, and
the objects inside it are those that the writes name.  What is shown of an object from the objects
inside it holds of every object.
-/

namespace ObjectWire

/-- The objects that a write puts into its field. -/
def FieldWrite.objects : FieldWrite → List Portable
  | .portable _ (some p) => [p]
  | .portableArray _ _ (some items) => items
  | _ => []

namespace Portable

/-- What an object writes. -/
def writes : Portable → List FieldWrite
  | .scripted _ _ writes _ _ => writes
  | .link .. | .silent _ => []
  | .customer c => c.fields.map fun (name, data) => .data name data

/-- The objects in the fields of an object. -/
def objects (p : Portable) : List Portable := p.writes.flatMap FieldWrite.objects

mutual

/-- The levels of objects inside an object. -/
def depth : Portable → Nat
  | .scripted _ _ writes _ _ => depthOfWrites writes
  | .link .. | .silent _ | .customer _ => 0
termination_by structural p => p

/-- The levels that a list of writes adds. -/
def depthOfWrites : List FieldWrite → Nat
  | [] => 0
  | write :: writes => max (depthOfWrite write) (depthOfWrites writes)
termination_by structural writes => writes

/-- The levels that a write adds. -/
def depthOfWrite : FieldWrite → Nat
  | .portable _ (some p) => p.depth + 1
  | .portableArray _ _ (some items) => depthOfItems items
  | _ => 0
termination_by structural write => write

/-- The levels that a run of objects adds. -/
def depthOfItems : List Portable → Nat
  | [] => 0
  | p :: items => max (p.depth + 1) (depthOfItems items)
termination_by structural items => items

end

theorem depth_lt_depthOfItems {q : Portable} {items : List Portable} (member : q ∈ items) :
    q.depth < depthOfItems items := by
  induction items with
  | nil => cases member
  | cons p items ih =>
    rw [depthOfItems]
    rcases List.mem_cons.mp member with rfl | among
    · omega
    · have := ih among
      omega

theorem depth_lt_depthOfWrite {q : Portable} {write : FieldWrite} (member : q ∈ write.objects) :
    q.depth < depthOfWrite write := by
  unfold FieldWrite.objects at member
  split at member
  case h_1 name p =>
    rw [List.mem_singleton.mp member, depthOfWrite]
    omega
  case h_2 => exact depth_lt_depthOfItems member
  case h_3 => cases member

theorem depthOfWrite_le {write : FieldWrite} {writes : List FieldWrite} (member : write ∈ writes) :
    depthOfWrite write ≤ depthOfWrites writes := by
  induction writes with
  | nil => cases member
  | cons first writes ih =>
    rw [depthOfWrites]
    rcases List.mem_cons.mp member with rfl | among
    · omega
    · have := ih among
      omega

theorem depth_lt_of_mem_objects {p q : Portable} (member : q ∈ p.objects) : q.depth < p.depth := by
  cases p with
  | scripted classId version writes key got =>
    obtain ⟨write, among, inside⟩ := List.mem_flatMap.mp member
    have deeper := depth_lt_depthOfWrite inside
    have bounded := depthOfWrite_le among
    exact Nat.lt_of_lt_of_le deeper bounded
  | link classId behind => cases member
  | silent classId => cases member
  | customer c => cases member

/-- What holds of an object if it holds of the objects in its fields holds of every object. -/
theorem induction {motive : Portable → Prop}
    (step : ∀ p : Portable, (∀ q ∈ p.objects, motive q) → motive p) (p : Portable) : motive p := by
  have bounded : ∀ levels (p : Portable), p.depth < levels → motive p := by
    intro levels
    induction levels with
    | zero => intro p h; omega
    | succ levels ih =>
      intro p h
      refine step p fun q member => ih q ?_
      have := depth_lt_of_mem_objects member
      omega
  exact bounded (p.depth + 1) p (Nat.lt_succ_self _)

end Portable

namespace PortableContext

theorem describeWrites_data (fields : List (String × FieldData)) (draft : Draft) :
    describeWrites (fields.map fun (name, data) => .data name data) draft =
      Act.lift (describeData fields draft) := by
  induction fields generalizing draft with
  | nil => rfl
  | cons field fields ih =>
    obtain ⟨name, data⟩ := field
    funext context
    rw [List.map_cons, describeWrites, describeData]
    cases added : draft.addField name data.kind with
    | error failure => simp only [describeWrite, added]; rfl
    | ok next =>
      simp only [describeWrite, added]
      exact congrFun (ih next) context

/-- Every object is described by what it writes. -/
theorem describe_eq (p : Portable) : describe p = describeBy p (describeWrites p.writes) := by
  cases p with
  | scripted classId version writes key got => rfl
  | link classId behind => rfl
  | silent classId => rfl
  | customer c =>
    rw [describe]
    congr 1
    funext draft
    exact (describeWrites_data c.fields draft).symm

/-- An object whose class and version are registered is written by what is registered. -/
theorem describe_of_lookup {context : PortableContext} {p : Portable}
    {definition : ClassDefinition} (found : context.lookup (context.keyOf p) = some definition) :
    describe p context = (.ok definition, context) := by
  rw [describe_eq]
  unfold describeBy
  rw [Act.bind_of_ok (Act.get_apply context), found]
  rfl

end PortableContext

namespace Frame

theorem onWriter_bind {α β : Type} (step : Act BodyWriter α) (next : α → Act BodyWriter β) :
    onWriter (step >>= next) = onWriter step >>= fun value => onWriter (next value) :=
  Act.on_bind (fun _ _ => rfl) fun _ _ _ => rfl

theorem performAll_data (fields : List (String × FieldData)) :
    performAll (fields.map fun (name, data) => .data name data) =
      onWriter (BodyWriter.writeAll fields) := by
  induction fields with
  | nil => rfl
  | cons field fields ih =>
    obtain ⟨name, data⟩ := field
    rw [List.map_cons, performAll, perform, ih]
    exact (onWriter_bind (BodyWriter.writeData name data) fun _ => BodyWriter.writeAll fields).symm

/-- A frame is made and put, and then the others are. -/
theorem putAll_cons (p : Portable) (items : List Portable) :
    putAll (p :: items) = (do
      (do let frame ← onContext (close p)
          onWriter (BodyWriter.onBody frame.write))
      putAll items) := by
  rw [putAll, bind_assoc]

/-- Every object is framed by performing what it writes on a body of its class. -/
theorem close_eq (p : Portable) :
    close p = PortableContext.describe p >>= fun definition =>
      fill definition (performAll p.writes) := by
  cases p with
  | scripted classId version writes key got => rfl
  | link classId behind => rfl
  | silent classId => rfl
  | customer c =>
    rw [close, Portable.writes, performAll_data]

end Frame

end ObjectWire
