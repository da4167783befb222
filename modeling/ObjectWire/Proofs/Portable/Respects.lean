import ObjectWire.Proofs.Pool
import ObjectWire.Proofs.Portable.Borrowing
import ObjectWire.Proofs.Portable.Registering

/-!
# What describing and framing do to a context

Describing objects touches a context only by registering definitions, and framing objects only by
describing them and by borrowing buffers and giving them back.  A relation between contexts that
each of these respects, and that holds from a context to itself and along two changes in a row,
therefore relates the context before to the context after, whatever the outcome and however deep the
objects nest.

So whatever is registered, described, framed or taken in, a context touches its pool only by
borrowing buffers and giving them back, and a relation between pools that both stay within relates
the pool before to the pool after.
-/

namespace ObjectWire

namespace PortableContext

variable {related : PortableContext → PortableContext → Prop} [Std.Refl related]

section Describing

variable {excused : Failure → Prop}

theorem within_describeArray (name : String) (classId : Int32) (definition : ClassDefinition)
    (draft : Draft) : (describeArray name classId definition draft).Within related := by
  unfold describeArray
  by_cases declared : definition.classId = classId
  · rw [if_pos declared]
    exact Act.within_lift _
  · rw [if_neg declared]
    exact Act.within_fail _

variable [Trans related related related]

theorem within_known (name : String) (classId : Int32) : (known name classId).Within related := by
  refine Act.within_get.bind fun context => ?_
  split
  case h_1 => exact Act.within_pure _
  case h_2 => exact Act.within_fail _

theorem withinUnless_describeWrite {write : FieldWrite}
    (inside : ∀ q ∈ write.objects, (describe q).WithinUnless excused related) (draft : Draft) :
    (describeWrite write draft).WithinUnless excused related := by
  cases write with
  | data name value => exact (Act.within_lift _).unless
  | portable name value =>
    cases value with
    | none => exact (Act.within_fail _).unless
    | some p =>
      exact (inside p (by simp [FieldWrite.objects])).bind fun _ => (Act.within_lift _).unless
  | nullPortable name classId =>
    exact ((within_known name classId).bind fun _ => Act.within_lift _).unless
  | portableArray name classId items =>
    have held : (do
        let definition ← known name classId
        describeArray name classId definition draft).WithinUnless excused related :=
      ((within_known name classId).bind fun _ => within_describeArray name classId _ draft).unless
    cases items with
    | none => exact held
    | some items =>
      cases items with
      | nil => exact held
      | cons p items =>
        apply (inside p (by simp [FieldWrite.objects])).bind
        intro definition
        exact (within_describeArray name classId definition draft).unless
  | fail text => exact (Act.within_fail _).unless

theorem withinUnless_describeWrites {writes : List FieldWrite}
    (inside : ∀ write ∈ writes, ∀ q ∈ write.objects, (describe q).WithinUnless excused related)
    (draft : Draft) : (describeWrites writes draft).WithinUnless excused related := by
  induction writes generalizing draft with
  | nil => exact (Act.within_pure draft).unless
  | cons write writes ih =>
    apply (withinUnless_describeWrite (inside write (by simp)) draft).bind
    intro next
    exact ih (fun other member => inside other (List.mem_cons_of_mem _ member)) next

/-- Describing stays within a relation that registering stays within, but for failures that are
    excused. -/
theorem withinUnless_describe
    (registers : ∀ definition, (register definition).WithinUnless excused related) (p : Portable) :
    (describe p).WithinUnless excused related := by
  induction p using Portable.induction with
  | step p ih =>
    rw [describe_eq]
    apply (Act.within_get.unless).bind
    intro context
    dsimp only
    split
    case h_1 => exact (Act.within_pure _).unless
    case h_2 =>
      have inside : ∀ write ∈ p.writes, ∀ q ∈ write.objects,
          (describe q).WithinUnless excused related :=
        fun write member q among => ih q (List.mem_flatMap.mpr ⟨write, member, among⟩)
      apply (withinUnless_describeWrites inside _).bind
      intro draft
      exact ((Act.within_lift _).unless).bind fun definition => registers definition

/-- Describing stays within a relation that registering stays within. -/
theorem within_describe (registers : ∀ definition, (register definition).Within related)
    (p : Portable) : (describe p).Within related :=
  Act.withinUnless_iff.mp (withinUnless_describe (fun definition => (registers definition).unless) p)

end Describing

/-- The single changes that framing makes to a context stay within a relation. -/
structure Respects (related : PortableContext → PortableContext → Prop) : Prop where
  describe : ∀ p, (describe p).Within related
  borrow : ∀ context : PortableContext,
    related context { context with pool := context.pool.acquire.2 }
  giveBack : ∀ (context : PortableContext) (buffer : Output),
    related context { context with pool := context.pool.release buffer }

end PortableContext

namespace Frame

open PortableContext (Respects)

/-- The relation between the contexts behind two bodies under construction. -/
def Behind (related : PortableContext → PortableContext → Prop) (before after : Open) : Prop :=
  related before.context after.context

variable {related : PortableContext → PortableContext → Prop}

theorem within_onContext {α : Type} {step : Act PortableContext α} (h : step.Within related) :
    (onContext step).Within (Behind related) :=
  fun state => h state.context

section Reflexive

variable [Std.Refl related]

instance : Std.Refl (Behind related) :=
  ⟨fun state => Std.Refl.refl (r := related) state.context⟩

theorem within_onWriter {α : Type} (step : Act BodyWriter α) :
    (onWriter step).Within (Behind related) :=
  fun state => Std.Refl.refl (r := related) state.context

end Reflexive

section Transitive

variable [Trans related related related]

instance : Trans (Behind related) (Behind related) (Behind related) :=
  ⟨fun {a b c} (first : related a.context b.context) (second : related b.context c.context) =>
    (Trans.trans first second : related a.context c.context)⟩

theorem within_fill (respects : Respects related) (definition : ClassDefinition)
    {writes : Act Open Unit} (h : writes.Within (Behind related)) :
    (fill definition writes).Within related := by
  intro context
  let lent : Open := ⟨.start definition context.pool.acquire.1,
    { context with pool := context.pool.acquire.2 }⟩
  have returned := respects.giveBack (writes lent).2.context (writes lent).2.writer.body
  exact Trans.trans (respects.borrow context) (Trans.trans (h lent) returned)

end Transitive

variable [Std.Refl related] [Trans related related related]

theorem within_performAll {writes : List FieldWrite}
    (inside : ∀ write ∈ writes, ∀ q ∈ write.objects, (close q).Within related) :
    (performAll writes).Within (Behind related) :=
  composes_performAll Act.composes_within (fun _ => within_onWriter _) fun write member q among =>
    within_onContext (inside write member q among)

theorem within_close (respects : Respects related) (p : Portable) : (close p).Within related := by
  induction p using Portable.induction with
  | step p ih =>
    rw [close_eq]
    apply (respects.describe p).bind
    intro definition
    refine within_fill respects definition (within_performAll fun write member q among => ?_)
    exact ih q (List.mem_flatMap.mpr ⟨write, member, among⟩)

end Frame

/-! ### Pools -/

/-- Borrowing a buffer and giving one back stay within a relation between pools. -/
structure Pool.Lends (related : Pool → Pool → Prop) : Prop where
  borrow : ∀ pool : Pool, related pool pool.acquire.2
  giveBack : ∀ (pool : Pool) (buffer : Output), related pool (pool.release buffer)

/-- The running count stays right. -/
theorem Pool.lends_counted : Pool.Lends (Act.Preserves Pool.Counted) :=
  ⟨fun _ counted => counted.acquire, fun _ buffer counted => counted.release buffer⟩

/-- The pools of two contexts are related. -/
def PortableContext.OnPools (related : Pool → Pool → Prop) (before after : PortableContext) :
    Prop :=
  related before.pool after.pool

namespace Pool.Lends

open PortableContext

variable {related : Pool → Pool → Prop} [Std.Refl related]

instance : Std.Refl (OnPools related) := ⟨fun context => Std.Refl.refl context.pool⟩

theorem settle (key : ClassKey) (definition : ClassDefinition) :
    (settle key definition).Within (OnPools related) := by
  intro context
  cases found : context.lookup key with
  | some known =>
    rw [settle_of_known found]
    exact Std.Refl.refl context
  | none =>
    rw [settle_of_new found]
    exact Std.Refl.refl context.pool

variable [Trans related related related]

instance : Trans (OnPools related) (OnPools related) (OnPools related) where
  trans first second := Trans.trans (r := related) (s := related) first second

variable (lends : Pool.Lends related)
include lends

theorem binaryOf (definition : ClassDefinition) :
    (binaryOf definition).Within (OnPools related) := by
  intro context
  have lent : ∀ buffer, related context.pool (context.pool.acquire.2.release buffer) :=
    fun buffer => Trans.trans (lends.borrow context.pool) (lends.giveBack _ buffer)
  rcases binaryOf_cases definition context with
    ⟨form, -, ran⟩ | ⟨failure, buffer, -, -, ran⟩ | ⟨layout, buffer, -, -, ran⟩
  · rw [ran]
    exact Std.Refl.refl context
  · rw [ran]
    exact lent buffer
  · rw [ran]
    exact lent buffer

theorem enter (key : ClassKey) (definition : ClassDefinition) :
    (enter key definition).Within (OnPools related) :=
  within_enter (settle key definition) lends.binaryOf

theorem registerUnder (key : ClassKey) (definition : ClassDefinition) :
    (registerUnder key definition).Within (OnPools related) :=
  within_registerUnder (fun inner => lends.enter inner.key inner) (lends.enter key definition)

theorem register (definition : ClassDefinition) : (register definition).Within (OnPools related) :=
  lends.registerUnder definition.key definition

theorem importCompressed (compressed : Bytes) :
    (importCompressed compressed).Within (OnPools related) := by
  apply within_importCompressed lends.register
  -- labelling what arrived and keeping its form leaves the pool alone
  exact fun context _ _ => Std.Refl.refl context.pool

theorem respects : Respects (OnPools related) where
  describe := within_describe lends.register
  borrow context := lends.borrow context.pool
  giveBack context buffer := lends.giveBack context.pool buffer

end Pool.Lends

end ObjectWire
