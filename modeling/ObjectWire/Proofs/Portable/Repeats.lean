import ObjectWire.Proofs.Portable.Naming
import ObjectWire.Proofs.Portable.Tidy
import ObjectWire.Proofs.Repeats

/-!
# Objects that are framed again

Framing an object registers its description and those of the objects inside it.  Framed again, the
object goes by what is registered then: whatever else was registered or framed in between, it gets
the same definition and the same bytes, and nothing is registered any more.
-/

namespace ObjectWire

namespace PortableContext

variable {context now later : PortableContext} {p : Portable} {definition : ClassDefinition}

/-- The context's version, its definitions and the compressed forms they go by are the same later;
    only definitions under new keys come in. -/
structure Persists (context now : PortableContext) : Prop where
  version : now.version = context.version
  lookup : ∀ key definition, context.lookup key = some definition →
    now.lookup key = some definition
  formFor : ∀ definition, now.formFor definition = context.formFor definition

theorem Persists.trans (first : context.Persists now) (second : now.Persists later) :
    context.Persists later where
  version := second.version.trans first.version
  lookup key definition found := second.lookup key definition (first.lookup key definition found)
  formFor definition := (second.formFor definition).trans (first.formFor definition)

instance : Std.Refl Persists := ⟨fun _ => ⟨rfl, fun _ _ => id, fun _ => rfl⟩⟩

instance : Trans Persists Persists Persists := ⟨Persists.trans⟩

theorem persists_settle (key : ClassKey) (definition : ClassDefinition) :
    (settle key definition).Within Persists := by
  intro context
  cases found : context.lookup key with
  | some known =>
    rw [settle_of_known found]
    exact Std.Refl.refl context
  | none =>
    rw [settle_of_new found]
    exact ⟨rfl, fun other known before => Keyed.lookup_append_of_some before, fun _ => rfl⟩

theorem persists_binaryOf (definition : ClassDefinition) :
    (binaryOf definition).Within Persists := fun context =>
  ⟨(evolves_binaryOf definition context).version,
    fun _ _ => (evolves_binaryOf definition context).lookup,
    fun other => formFor_binaryOf definition other context⟩

theorem persists_enter (definition : ClassDefinition) :
    (enter definition.key definition).Within Persists :=
  within_enter (persists_settle definition.key definition) persists_binaryOf

theorem respects_persists : Respects Persists where
  describe := within_describe (within_register persists_enter)
  borrow _ := ⟨rfl, fun _ _ => id, fun _ => rfl⟩
  giveBack _ _ := ⟨rfl, fun _ _ => id, fun _ => rfl⟩

/-- A context is known by what is described and written in it. -/
@[reducible] def memory : Memory PortableContext where
  holds := Tidy
  keeps := Persists
  View := Unit
  view _ := ()
  refl := Std.Refl.refl
  trans := Persists.trans

theorem repeats_describe (p : Portable) : (describe p).Repeats memory := by
  intro context definition now tidy ran
  refine ⟨Act.within_of_ok (respects_tidy.describe p) ran tidy,
    Act.within_of_ok (respects_persists.describe p) ran, fun again _ keeps _ => ?_⟩
  have kept := (Act.within_of_ok (respects_persists.describe p) ran).version
  have key : again.keyOf p = context.keyOf p := by rw [keyOf, keyOf, keeps.version, kept]
  have found : again.lookup (again.keyOf p) = some definition := by
    rw [key]
    exact keeps.lookup _ _ (lookup_of_describe ran)
  exact ⟨again, describe_of_lookup found, rfl⟩

/-- The form that a definition goes by is the same whenever it is asked for. -/
theorem repeats_binaryOf (definition : ClassDefinition) :
    (binaryOf definition).Repeats memory := by
  intro context form now tidy ran
  have kept := Act.within_of_ok (persists_binaryOf definition) ran
  refine ⟨Act.within_of_ok (tidies_binaryOf definition) ran tidy, kept, fun again _ keeps _ => ?_⟩
  have answered : (binaryOf definition again).1 = .ok form := by
    have first := congrArg Prod.fst ran
    rw [binaryOf_eq_formFor] at first
    rw [binaryOf_eq_formFor, keeps.formFor, kept.formFor, first]
  exact ⟨_, Prod.ext answered rfl, rfl⟩

end PortableContext

/-- A body under construction is known by its fields and their data. -/
@[reducible] def BodyWriter.memory : Memory BodyWriter :=
  .ofView fun writer => (writer.definition, writer.body.content, writer.written)

theorem BodyWriter.repeats_of_borrows {α : Type} {levels : Nat} {step : Act BodyWriter α}
    (borrows : step.Borrows levels) : step.Repeats BodyWriter.memory := by
  refine borrows.repeats (fun _ _ _ => rfl) fun {writer again} same => ?_
  simp only [Prod.mk.injEq] at same
  obtain ⟨definition, content, written⟩ := same
  refine ⟨writer, writer.body.room, again.body.room, fun _ => ⟨rfl, ?_⟩⟩
  show again = ⟨writer.definition, ⟨writer.body.content, again.body.room⟩, writer.written⟩
  rw [← definition, ← content, ← written]

namespace Frame

open PortableContext (Persists)

/-- A body under construction looks the same if its fields and their data do; what is known is up to
    the context. -/
@[reducible] def Open.memory : Memory Open where
  holds state := state.context.Tidy
  keeps before after := before.context.Persists after.context
  View := BodyWriter.memory.View
  view state := BodyWriter.memory.view state.writer
  refl state := Std.Refl.refl state.context
  trans := Persists.trans

theorem repeats_onWriter {α : Type} {step : Act BodyWriter α} (borrows : step.Borrows 0) :
    (onWriter step).Repeats Open.memory :=
  (BodyWriter.repeats_of_borrows borrows).on
    { holds := fun _ => trivial
      looks := fun _ _ same => same
      back := fun {state _} tidy _ _ => ⟨tidy, Std.Refl.refl state.context⟩
      ahead := fun _ => trivial
      shows := fun _ same => same }

theorem repeats_onContext {α : Type} {step : Act PortableContext α}
    (repeats : step.Repeats PortableContext.memory) : (onContext step).Repeats Open.memory :=
  repeats.on
    { holds := id
      looks := fun _ _ _ => rfl
      back := fun _ tidy kept => ⟨tidy, kept⟩
      ahead := id
      shows := fun same _ => same }

/-- A body is begun in a borrowed buffer, which is empty. -/
theorem repeats_fill (definition : ClassDefinition) {writes : Act Open Unit}
    (repeats : writes.Repeats Open.memory) :
    (fill definition writes).Repeats PortableContext.memory := by
  have enters : PortableContext.memory.Enters Open.memory
      (fun context => ⟨.start definition context.pool.acquire.1,
        { context with pool := context.pool.acquire.2 }⟩)
      (fun _ reached =>
        { reached.context with pool := reached.context.pool.release reached.writer.body }) :=
    { holds := fun {context} tidy => PortableContext.tidies_borrow context tidy
      looks := fun {context again} tidy ready _ => by
        have content : again.pool.acquire.1.content = context.pool.acquire.1.content :=
          ready.clean.acquire_content.trans tidy.clean.acquire_content.symm
        show (definition, again.pool.acquire.1.content ++ _, _) =
          (definition, context.pool.acquire.1.content ++ _, _)
        rw [content]
        rfl
      back := fun {_ reached} _ tidy kept =>
        ⟨PortableContext.tidies_giveBack reached.context reached.writer.body tidy,
          ⟨kept.version, kept.lookup, kept.formFor⟩⟩
      ahead := fun kept => ⟨kept.version, kept.lookup, kept.formFor⟩
      shows := fun _ _ => rfl }
  refine repeats.enter enters (fun _ reached => ⟨definition, reached.writer.body.content⟩)
    (fun _ => rfl) fun {_ reached last} same => ?_
  have content : last.writer.body.content = reached.writer.body.content := congrArg (·.2.1) same
  rw [content]

/-- Framed again, an object has the same frame. -/
theorem repeats_close (p : Portable) : (close p).Repeats PortableContext.memory := by
  induction p using Portable.induction with
  | step p ih =>
    rw [close_eq]
    apply (PortableContext.repeats_describe p).bind
    intro definition
    refine repeats_fill definition (composes_performAll Act.composes_repeats repeats_onWriter
      fun write member q among => repeats_onContext (ih q ?_))
    exact List.mem_flatMap.mpr ⟨write, member, among⟩

end Frame

end ObjectWire
