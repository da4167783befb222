import ObjectWire.Proofs.Portable.Closing
import ObjectWire.Proofs.Portable.Opening

/-!
# Frames round trip

Whatever was registered, imported and written before, the frame of an object can be read with the
definitions that writing it leaves in use: the object comes out as its image, and nothing but the
frame is read.
-/

namespace ObjectWire

/-- Contexts as they arise: buffers come and go, definitions are registered and imported, and
    objects are described and framed, all of which may fail. -/
inductive PortableContext.Reachable : PortableContext → Prop
  | start (version : Int32) (initialCapacity maxRetained shards : Nat) :
      Reachable (.start version (.ofSettings initialCapacity maxRetained shards))
  | borrow {context : PortableContext} (before : Reachable context) :
      Reachable { context with pool := context.pool.acquire.2 }
  | giveBack {context : PortableContext} (before : Reachable context) (buffer : Output) :
      Reachable { context with pool := context.pool.release buffer }
  | register {context : PortableContext} {definition : ClassDefinition}
      (before : Reachable context) (built : definition.Built) :
      Reachable (register definition context).2
  | importCompressed {context : PortableContext} (before : Reachable context)
      (compressed : Bytes) : Reachable (importCompressed compressed context).2
  | describe {context : PortableContext} (before : Reachable context) (p : Portable) :
      Reachable (describe p context).2
  | close {context : PortableContext} (before : Reachable context) (p : Portable) :
      Reachable (Frame.close p context).2

theorem PortableContext.Reachable.sound {context : PortableContext}
    (reachable : context.Reachable) : context.Sound := by
  induction reachable with
  | start version initialCapacity maxRetained shards =>
    exact sound_start version (Pool.clean_ofSettings initialCapacity maxRetained shards)
  | borrow _ ih => exact (Evolves.borrow .refl).sound ih
  | giveBack _ buffer ih => exact (Evolves.giveBack buffer .refl).sound ih
  | register _ built ih => exact (meets_register ih built.wellFormed).1.sound ih
  | importCompressed _ compressed ih => exact (meets_importCompressed ih compressed).1.sound ih
  | describe _ p ih => exact (meets_describe p _ ih).1.1.sound ih
  | close _ p ih => exact (Frame.meets_close p _ ih).1.sound ih

namespace Frame

/-- Writing an object appends a frame.  In the context that this leaves, and with a factory that for
    the class of every part of the object makes an instance of the class whose reads are apt, the
    frame is read from the front of any input, is all that is read, and yields the object's image;
    and in the body of every part every apt read gives what the part wrote there or else the
    default. -/
theorem written_reads_back {context reached : PortableContext} {p : Portable} {closed : Closed}
    {output after : Output} {factory : PortableFactory} {plan : Int32 → List FieldRead}
    (reachable : context.Reachable) (closing : close p context = (.ok closed, reached))
    (writing : closed.write output = (.ok (), after))
    (shallow : p.depth ≤ Failure.maxPortableLevels)
    (makes : ∀ q : Portable, q.PartOf p →
      factory q.classId = some (.scripted q.classId (plan q.classId)))
    (apt : ∀ q : Portable, q.PartOf p → ∀ definition,
      reached.lookup (reached.keyOf q) = some definition → ∀ r ∈ plan q.classId, r.Apt definition) :
    ∃ run, after.content = output.content ++ run ∧
      (∀ rest position, openAt ⟨reached, some factory⟩ 0 ⟨run ++ rest, position⟩ =
        (.ok (reached.image plan p), ⟨rest, position + run.length⟩)) ∧
      ∀ q : Portable, q.PartOf p → ∃ definition body content,
        reached.lookup (reached.keyOf q) = some definition ∧
        Wire.byteArray body = .ok content ∧
        reached.frame q = some (Wire.classKey definition.key ++ content) ∧
        ∀ levels, q.depth ≤ levels → ∀ r : FieldRead, r.Apt definition →
          read (openWithin ⟨reached, some factory⟩ levels) ⟨definition, body⟩ r =
            .ok (r.answer definition (reached.held plan q.writes)) := by
  have sound := reachable.sound
  obtain ⟨evolved, answers⟩ := meets_close p context sound
  rw [closing] at evolved
  have frames := answers closed reached closing
  have now := evolved.sound sound
  have knows := Source.knows_of_sound now (some factory) p
  have ready : Source.Ready ⟨reached, some factory⟩ reached plan p := by
    refine ⟨fun q part => ?_, apt⟩
    simp only [Source.create, makes q part]
  obtain ⟨run, framed, content⟩ := frames.appends output after writing
  refine ⟨run, content, takes_openWithin now frames.covers knows ready
    (Nat.lt_succ_of_le shallow) framed, fun q part => ?_⟩
  obtain ⟨bytes, inner⟩ := PortableContext.frame_of_part part framed
  have covers := frames.covers.part part
  obtain ⟨definition, sheet, content, found, obeys, written, sized, rfl⟩ := covers.body inner
  refine ⟨definition, _, content, found, sized, inner, fun levels deep r apt => ?_⟩
  have small := (Input.byteArray_ok sized).1
  refine read_apt (now.wellFormed _ _ found) obeys written small
    (fun s member bytes framed => ?_) apt
  have inside : s.PartOf q := .inside member (.whole s)
  have shallower := Portable.depth_lt_of_mem_objects member
  exact takes_openWithin now (covers.part inside) (knows.part (inside.trans part))
    (ready.part (inside.trans part)) (by omega) framed

/-- If making the frame of an object and writing it come to something, this is what they come to. -/
theorem exists_written {context : PortableContext} {p : Portable}
    (writes : ((close p context).1.toOption.bind fun closed =>
      (closed.write (.empty 0)).1.toOption).isSome = true) :
    ∃ closed after, close p context = (.ok closed, (close p context).2) ∧
      closed.write (.empty 0) = (.ok (), after) := by
  obtain ⟨⟨⟩, written⟩ := Option.isSome_iff_exists.mp writes
  obtain ⟨closed, closing, writing⟩ := Option.bind_eq_some_iff.mp written
  exact ⟨closed, _, Prod.ext (Act.settled_of_toOption closing) rfl,
    Prod.ext (Act.settled_of_toOption writing) rfl⟩

namespace Linked

/-- An object with a number. -/
def inner : Portable := .scripted 2 none [.data "n" (.scalar .int (7 : Int32))] none []

/-- An object that writes the other one before the field in front of it, and leaves out the field
    between them. -/
def object : Portable :=
  .scripted 1 none [.portable "next" (some inner), .data "name" (.text (some "x"))] none []

def leaf : ClassDefinition := ⟨⟨2, 0⟩, [⟨"n", .scalar .int, 0, .none⟩], [], none⟩

def node : ClassDefinition := ⟨⟨1, 0⟩, [⟨"name", .text, 0, .none⟩,
  ⟨"extra", .scalar .long, 1, .none⟩, ⟨"next", .portable, 2, ⟨2, 0⟩⟩], [leaf], none⟩

/-- A context that the outer class is registered in. -/
def context : PortableContext :=
  (PortableContext.register node (.start 0 (.ofSettings 16 2 1))).2

/-- The fields are read in another order, one of them twice, and one that there is not. -/
def plan (classId : Int32) : List FieldRead :=
  if classId = 1 then [.field .text "name", .field .portable "next",
    .field (.scalar .long) "extra", .field .text "name", .field .text "none"]
  else [.field (.scalar .int) "n"]

def factory : PortableFactory := fun classId => some (.scripted classId (plan classId))

/-- What is read of the object. -/
def answer : Portable := .scripted 1 none [] none [.data (.text (some "x")),
  .portable (some (.scripted 2 none [] none [.data (.scalar .int (7 : Int32))])),
  .data (.scalar .long (0 : Int64)), .data (.text (some "x")), .data (.text none)]

theorem reachable : context.Reachable := by
  have leafBuilt : leaf.Built :=
    .build (.addField (.start ⟨2, 0⟩) (rfl : Draft.addField "n" (.scalar .int) _ = _)) rfl
  have nodeBuilt : node.Built :=
    .build (.addPortable (.addField (.addField (.start ⟨1, 0⟩)
      (rfl : Draft.addField "name" .text _ = _))
      (rfl : Draft.addField "extra" (.scalar .long) _ = _)) leafBuilt
      (rfl : Draft.addPortable "next" leaf _ = _)) rfl
  exact .register (.start 0 16 2 1) nodeBuilt

variable {reached : PortableContext}

theorem ready (outer : reached.Uses object node) (nested : reached.Uses inner leaf) :
    Source.Ready ⟨reached, some factory⟩ reached plan object := by
  have innerReady : Source.Ready ⟨reached, some factory⟩ reached plan inner :=
    Source.ready_of_uses rfl nested (by decide) nofun
  exact Source.ready_of_uses rfl outer (by decide) (List.forall_mem_singleton.mpr innerReady)

theorem image_object (outer : reached.Uses object node) (nested : reached.Uses inner leaf) :
    reached.image plan object = answer := by
  have held : reached.held plan object.writes =
      [("next", .portable (some (reached.image plan inner))),
        ("name", .data (.text (some "x")))] := rfl
  rw [PortableContext.image_of_uses plan outer, held, PortableContext.image_of_uses plan nested]
  rfl

end Linked

open Linked

/-- An object in a field of an object. -/
theorem written_reads_back_nested :
    context.Reachable ∧ object.depth ≤ Failure.maxPortableLevels ∧
      (∀ q : Portable, q.PartOf object →
        factory q.classId = some (.scripted q.classId (plan q.classId))) ∧
      ∃ closed reached after run, close object context = (.ok closed, reached) ∧
        closed.write (.empty 0) = (.ok (), after) ∧ after.content = run ∧
        (∀ q : Portable, q.PartOf object → ∀ definition,
          reached.lookup (reached.keyOf q) = some definition →
          ∀ r ∈ plan q.classId, r.Apt definition) ∧
        openAt ⟨reached, some factory⟩ 0 ⟨run ++ [0xFF], 0⟩ =
          (.ok answer, ⟨[0xFF], run.length⟩) := by
  have shallow : object.depth ≤ Failure.maxPortableLevels := by decide
  have makes : ∀ q : Portable, q.PartOf object →
      factory q.classId = some (.scripted q.classId (plan q.classId)) := fun _ _ => rfl
  have outer : (close object context).2.Uses object node := by decide +kernel
  have nested : (close object context).2.Uses inner leaf := by decide +kernel
  obtain ⟨closed, after, closing, wrote⟩ :=
    @exists_written context object (by decide +kernel)
  have apt := (ready outer nested).apt
  obtain ⟨run, content, reads, -⟩ :=
    written_reads_back reachable closing wrote shallow makes apt
  refine ⟨reachable, shallow, makes, closed, _, after, run, closing, wrote, content, apt, ?_⟩
  rw [reads [0xFF] 0, image_object outer nested, Nat.zero_add]

end Frame

end ObjectWire
