import ObjectWire.Proofs.Portable.Naming
import ObjectWire.Proofs.Portable.Registered
import ObjectWire.Proofs.Portable.Termination

/-!
# What an import adds

An import of something new files the definition that arrived and what is nested in it where nothing
was registered.  What is registered blocks what comes later: a known definition keeps out the one
that arrived and all that is nested in it, and a known nested definition keeps out what is nested
there.  Nothing is taken back when a registration fails, so what cannot be compressed stays behind
without its compressed form, and without what is nested in it.  Where there is nothing of the kind,
an import brings in all of what it walks through or fails before it has changed anything.
-/

namespace ObjectWire.PortableContext

variable {context now : PortableContext} {definition settled : ClassDefinition}
  {items : List ClassDefinition} {compressed : Bytes} {arrived known : ClassDefinition}

/-- What is new belongs to parts of the definition. -/
def AddsPartsOf (context : PortableContext) (definition : ClassDefinition)
    (now : PortableContext) : Prop :=
  ∀ key known, now.lookup key = some known → context.lookup key = some known ∨
    ∃ part : ClassDefinition, part.PartOf definition ∧ part.key = key ∧ known.same part = true

/-- The definition that counts for the class and version of one that arrives: what is registered
    there, or else the one that arrives. -/
def inForce (context : PortableContext) (definition : ClassDefinition) : ClassDefinition :=
  (context.lookup definition.key).getD definition

/-- The definition was taken in, or is blocked by the one that is registered for its class and
    version: what is settled is registered there, what was registered before still is, all that is
    new belongs to a part of the one that counts, and whatever fields of the answer refer to is
    registered.  A definition that blocks and can be compressed has nothing new in it. -/
structure Adopts (context : PortableContext) (definition settled : ClassDefinition)
    (now : PortableContext) : Prop where
  registered : now.lookup definition.key = some settled
  kept : ∀ key known, context.lookup key = some known → now.lookup key = some known
  gained : context.AddsPartsOf (context.inForce definition) now
  referred : ∀ field ∈ settled.fields, field.kind.isPortable = true →
    ∃ known, now.lookup field.nested = some known
  blocked : ∀ known, context.lookup definition.key = some known →
    (∃ form, known.compressedLayout = .ok form) → now.definitions = context.definitions

theorem inForce_of_known (found : context.lookup definition.key = some known) :
    context.inForce definition = known := by
  rw [inForce, found]
  rfl

theorem inForce_of_new (new : context.lookup definition.key = none) :
    context.inForce definition = definition := by
  rw [inForce, new]
  rfl

theorem AddsPartsOf.of_same {other : ClassDefinition} (adds : context.AddsPartsOf definition now)
    (same : definition.same other = true) : context.AddsPartsOf other now := by
  intro key known found
  refine (adds key known found).imp_right ?_
  rintro ⟨part, within, rfl, matched⟩
  obtain ⟨held, inside, equal⟩ := ClassDefinition.partOf_of_same within same
  exact ⟨held, inside, (ClassDefinition.key_eq_of_same equal).symm,
    ClassDefinition.same_trans matched equal⟩

/-- What was added does not depend on what is at hand besides the registered definitions. -/
theorem AddsPartsOf.of_definitions {before : PortableContext}
    (adds : context.AddsPartsOf definition now)
    (same : context.definitions = before.definitions) : before.AddsPartsOf definition now := by
  intro key known found
  have cases := adds key known found
  rwa [lookup_of_definitions same] at cases

/-! Registering. -/

/-- A registration that comes back has brought in parts of the definition only. -/
theorem Quiet.adds_register (quiet : context.Quiet) (definition : ClassDefinition) :
    Act.Ends (register definition) context
      (fun _ now => now.Quiet ∧ context.AddsPartsOf definition now)
      fun failure now => ¬ failure.Endless → context.AddsPartsOf definition now := by
  have adds : ∀ {now : PortableContext},
      Passed context (fun _ => False) 0 definition.key definition now →
        context.AddsPartsOf definition now := by
    intro now passed key known found
    rcases passed.gained key known found with before | ⟨rfl, same⟩ | ⟨own, part, within, same⟩
    · exact .inl before
    · exact .inr ⟨definition, .whole definition, rfl, same⟩
    · exact .inr ⟨part, within, by rw [← ClassDefinition.key_eq_of_same same, own], same⟩
  have ends := @fares context definition.key definition _ _
    (context.definitions.length + definition.count + 1) (quiet.underway definition.key)
  rcases ran : register definition context with ⟨failure | settled, now⟩
  · refine Act.ends_of_error ran fun ended => ?_
    rcases ends.of_error ran with ⟨-, passed, -⟩ | ⟨endless, -⟩
    · exact adds passed
    · exact absurd endless ended
  · have still := (quiets_registerUnder definition.key definition).of_ok ran quiet
    exact Act.ends_of_ok ran ⟨still, adds (ends.of_ok ran).1⟩

/-- Registrations of parts of a definition that come back have brought in parts of it only. -/
theorem Quiet.adds_registerEach (quiet : context.Quiet)
    (parts : ∀ item ∈ items, item.PartOf definition) :
    Act.Ends (registerEach items) context
      (fun _ now => now.Quiet ∧ context.AddsPartsOf definition now)
      fun failure now => ¬ failure.Endless → context.AddsPartsOf definition now := by
  let kept (state : PortableContext) : Prop := state.Quiet ∧ context.AddsPartsOf definition state
  have start : kept context := ⟨quiet, fun _ _ => .inl⟩
  have further : ∀ item ∈ items, ∀ {state next : PortableContext},
      context.AddsPartsOf definition state → state.AddsPartsOf item next →
        context.AddsPartsOf definition next := by
    intro item member state next before adds key known found
    rcases adds key known found with there | ⟨part, within, own, same⟩
    · exact before key known there
    · exact .inr ⟨part, within.trans (parts item member), own, same⟩
  apply Act.ends_forEach_kept start
  rintro item member state ⟨stateQuiet, before⟩
  have ends := stateQuiet.adds_register item
  rcases ran : register item state with ⟨failure | settled, next⟩
  · exact Act.ends_of_error (Act.bind_of_error ran) fun ended =>
      further item member before (ends.of_error ran ended)
  · obtain ⟨still, adds⟩ := ends.of_ok ran
    exact Act.ends_of_ok (Act.bind_of_ok ran) ⟨still, further item member before adds⟩

/-- Where each of the items is registered in turn, each is registered in the end. -/
theorem registered_of_forEach {enters : ClassDefinition → Act PortableContext ClassDefinition}
    (registers : ∀ item state, Act.Ends (enters item) state
      (fun _ next => state.Retains next ∧ ∃ known, next.lookup item.key = some known)
      fun _ _ => True)
    (ran : Act.forEach (fun item => do let _ ← enters item) items context = (.ok (), now)) :
    ∀ item ∈ items, ∃ known, now.lookup item.key = some known := by
  have ends : Act.Ends (Act.forEach (fun item => do let _ ← enters item) items) context
      (fun _ next => context.Retains next ∧
        ∀ item ∈ items, ∃ known, next.lookup item.key = some known) fun _ _ => True := by
    apply Act.ends_forEach
    · rintro item before after ⟨known, found⟩ retains
      exact ⟨known, retains.lookup _ known found⟩
    · intro item _ state _
      apply (registers item state).bind
      intro _ next reached
      exact Act.ends_of_ok rfl reached
  exact (ends.of_ok ran).2

theorem ends_registers (levels : Nat) (item : ClassDefinition) (state : PortableContext) :
    Act.Ends (registerWithin levels item.key item) state
      (fun _ next => state.Retains next ∧ ∃ known, next.lookup item.key = some known)
      fun _ _ => True :=
  (ends_registerWithin levels item.key item state).mono
    (fun settled _ done => ⟨done.1.1, settled, done.2.1⟩) fun _ _ _ => trivial

theorem registered_registerEach (ran : registerEach items context = (.ok (), now)) :
    ∀ item ∈ items, ∃ known, now.lookup item.key = some known :=
  registered_of_forEach (fun item state =>
    ends_registers (state.definitions.length + item.count + 1) item state) ran

/-- After a registration that answered, something is registered for whatever is nested in the
    answer. -/
theorem registered_nested (ran : register definition context = (.ok settled, now)) :
    ∀ inner ∈ settled.nested, ∃ known, now.lookup inner.key = some known := by
  have walked : registerWithin (context.definitions.length + definition.count + 1) definition.key
      definition context = (.ok settled, now) := ran
  rw [registerWithin_succ] at walked
  obtain ⟨held, filed, -, walked⟩ := Act.bind_ok walked
  obtain ⟨_, last, visited, done⟩ := Act.bind_ok walked
  cases done
  exact registered_of_forEach (fun item state => ends_registers _ item state) visited

/-- What fields of a well-formed definition refer to is registered with what is nested in it. -/
theorem referred_of_nested (wellFormed : settled.WellFormed)
    (nested : ∀ inner ∈ settled.nested, ∃ known, now.lookup inner.key = some known) :
    ∀ field ∈ settled.fields, field.kind.isPortable = true →
      ∃ known, now.lookup field.nested = some known := by
  intro field member holds
  obtain ⟨inner, among, key⟩ := wellFormed.complete.attached field member holds
  rw [← key]
  exact nested inner among

/-! Importing. -/

/-- An import that answers adopts what arrived. -/
theorem Quiet.adopts_import (quiet : context.Quiet) (formed : context.Formed)
    (come : ClassDefinition.ofCompressed compressed = .ok arrived)
    (ran : importCompressed compressed context = (.ok settled, now)) :
    context.Adopts arrived settled now := by
  have retains := retains_importCompressed compressed context
  have nowFormed := ((forms_importCompressed formed compressed).of_ok ran).2
  rw [ran] at retains
  cases found : context.lookup arrived.key with
  | some known =>
    rw [importCompressed_of_known come found] at ran
    obtain ⟨_, last, visited, done⟩ := Act.bind_ok ran
    cases done
    have adds := (quiet.adds_registerEach fun inner member =>
      .inside member (.whole inner)).of_ok visited
    have nested := registered_registerEach visited
    refine ⟨retains.lookup _ _ found, retains.lookup, ?_, referred_of_nested nowFormed nested, ?_⟩
    · rw [inForce_of_known found]
      exact adds.2
    · intro held there packs
      obtain rfl : settled = held := Option.some.inj (found.symm.trans there)
      have fits := (ClassDefinition.exists_compressedLayout_iff settled).mp packs
      exact (quiet.ends_registerEach found fits).of_ok visited
  | none =>
    have same := label_same context.forms arrived
    have key := ClassDefinition.key_eq_of_same same
    rw [importCompressed_of_new come found] at ran
    have registered := ((ends_registerWithin _ _ _ _).of_ok ran).2.1
    have adds := (((quiet.keepForm come).adds_register _).of_ok ran).2
    refine ⟨by rwa [key] at registered, retains.lookup, ?_,
      referred_of_nested nowFormed (registered_nested ran), fun known there => ?_⟩
    · rw [inForce_of_new found]
      exact (adds.of_same same).of_definitions rfl
    · rw [found] at there
      cases there

/-- An import that fails but comes back has brought in parts of the definition that counts only. -/
theorem Quiet.adds_import {failure : Failure} (quiet : context.Quiet)
    (come : ClassDefinition.ofCompressed compressed = .ok arrived)
    (ran : importCompressed compressed context = (.error failure, now))
    (ended : ¬ failure.Endless) : context.AddsPartsOf (context.inForce arrived) now := by
  cases found : context.lookup arrived.key with
  | some known =>
    rw [importCompressed_of_known come found] at ran
    rw [inForce_of_known found]
    rcases Act.bind_error ran with failed | ⟨_, _, -, none⟩
    · exact (quiet.adds_registerEach fun inner member =>
        .inside member (.whole inner)).of_error failed ended
    · cases none
  | none =>
    rw [importCompressed_of_new come found] at ran
    rw [inForce_of_new found]
    have adds := ((quiet.keepForm come).adds_register _).of_error ran ended
    exact (adds.of_same (label_same context.forms arrived)).of_definitions rfl

/-- What can be written is registered without failure where all that is registered can be. -/
theorem Quiet.gives_register (quiet : context.Quiet) (writable : context.Writable)
    (acyclic : definition.Acyclic) (fits : definition.Fits) :
    Act.Gives (register definition) context fun _ _ => True := by
  rcases ran : register definition context with ⟨failure | settled, now⟩
  · have returns := quiet.returns_register acyclic failure (congrArg Prod.fst ran)
    have abandons := (ends_registerWithin _ definition.key definition context).of_error ran
    have still : (register definition context).2.Writable :=
      writable_registerWithin _ _ fits writable
    rw [ran] at still
    exact absurd abandons.2 (not_or.mpr ⟨returns, not_not_intro still⟩)
  · exact ⟨settled, now, ran, trivial⟩

/-- Where all that is registered can be written, registering what is nested in some of it succeeds. -/
theorem Quiet.gives_registerEach {key : ClassKey} (quiet : context.Quiet)
    (writable : context.Writable) (found : context.lookup key = some known) :
    Act.Gives (registerEach known.nested) context fun _ _ => True := by
  have ends := quiet.ends_registerEach found (writable key known found)
  rcases ran : registerEach known.nested context with ⟨failure | _, now⟩
  · obtain ⟨ended, same⟩ := ends.of_error ran
    obtain ⟨front, item, back, middle, -, -, failed⟩ := Act.forEach_error ran
    have stopped : register item middle = (.error failure, now) := by
      rcases Act.bind_error failed with unsettled | ⟨_, _, -, none⟩
      · exact unsettled
      · cases none
    have abandons := (ends_registerWithin _ item.key item middle).of_error stopped
    refine absurd (fun key known there => ?_) (abandons.2.resolve_left ended)
    rw [lookup_of_definitions same] at there
    exact writable key known there
  · exact ⟨(), now, ran, trivial⟩

/-- What can be written is imported without failure where all that is registered can be. -/
theorem Quiet.gives_import (quiet : context.Quiet) (writable : context.Writable)
    (acyclic : arrived.Acyclic) (come : ClassDefinition.ofCompressed compressed = .ok arrived) :
    Act.Gives (importCompressed compressed) context fun _ _ => True := by
  have fits := ClassDefinition.fits_of_ofCompressed come
  unfold Act.Gives
  cases found : context.lookup arrived.key with
  | some known =>
    rw [importCompressed_of_known come found]
    apply (quiet.gives_registerEach writable found).bind
    intro _ now _
    exact Act.gives_pure trivial
  | none =>
    have same := label_same context.forms arrived
    rw [importCompressed_of_new come found]
    exact (quiet.keepForm come).gives_register writable
      (acyclic.of_same (ClassDefinition.same_symm same)) (fits.of_same same)

/-- After any requests that came back, an import of bytes that stand for no definition, or for one
    in which none contains another one for its own class and version, comes to one of two ends.
    Either it answers with what is then registered for the class and version that arrived:
    everything registered before still is, whatever fields of the answer refer to is registered,
    and what is new belongs to parts of what arrived, or of what was registered for its class and
    version, and then nothing is new at all if that can be compressed.  Or it fails: everything
    registered before still is, and what is new belongs to parts of the same definition; but if all
    that was registered can be compressed, the bytes stand for no definition and nothing has
    changed.  It fails to come back only for the class and version of something registered that
    cannot be compressed and contains a definition that contains itself. -/
theorem import_all_or_nothing {start : PortableContext} {requests : List Request}
    {compressed : Bytes} (fresh : start.Fresh)
    (returned : Throughout Request.Returns requests start)
    (built : ∀ request ∈ requests, request.Built)
    (acyclic : ∀ arrived, ClassDefinition.ofCompressed compressed = .ok arrived →
      arrived.Acyclic) :
    let context := answering requests start
    Act.Ends (importCompressed compressed) context
      (fun settled now => ∃ arrived, ClassDefinition.ofCompressed compressed = .ok arrived ∧
        context.Adopts arrived settled now)
      fun failure now =>
        (∀ key known, context.lookup key = some known → now.lookup key = some known) ∧
        (¬ failure.Endless → ∀ arrived, ClassDefinition.ofCompressed compressed = .ok arrived →
          context.AddsPartsOf (context.inForce arrived) now) ∧
        ((∀ key known, context.lookup key = some known →
            ∃ form, known.compressedLayout = .ok form) →
          ClassDefinition.ofCompressed compressed = .error failure ∧ now = context) ∧
        (failure.Endless → ∃ arrived known,
          ClassDefinition.ofCompressed compressed = .ok arrived ∧
            context.lookup arrived.key = some known ∧
            (¬ ∃ form, known.compressedLayout = .ok form) ∧ ¬ known.Acyclic) := by
  intro context
  have quiet : context.Quiet := returned.quiet fresh.quiet
  have formed : context.Formed := fresh.formed_answering built
  have retains := retains_importCompressed compressed context
  have returns := quiet.returns_importForm_or acyclic
  rcases ran : importCompressed compressed context with ⟨failure | settled, now⟩
  · rw [ran] at retains
    refine Act.ends_of_error ran ⟨retains.lookup, fun ended arrived come => ?_, fun packs => ?_,
      fun endless => ?_⟩
    · exact quiet.adds_import come ran ended
    · have writable : context.Writable := fun key known found =>
        (ClassDefinition.exists_compressedLayout_iff known).mp (packs key known found)
      cases come : ClassDefinition.ofCompressed compressed with
      | error refused =>
        rw [importCompressed_of_unreadable come] at ran
        cases ran
        exact ⟨rfl, rfl⟩
      | ok arrived =>
        obtain ⟨_, _, answered, -⟩ := quiet.gives_import writable (acyclic arrived come) come
        rw [ran] at answered
        cases answered
    · obtain ⟨arrived, known, come, found, unfit, cyclic⟩ :=
        returns.resolve_left fun returns => returns failure (congrArg Prod.fst ran) endless
      rw [← ClassDefinition.exists_compressedLayout_iff] at unfit
      exact ⟨arrived, known, come, found, unfit, cyclic⟩
  · cases come : ClassDefinition.ofCompressed compressed with
    | error refused =>
      rw [importCompressed_of_unreadable come] at ran
      cases ran
    | ok arrived => exact Act.ends_of_ok ran ⟨arrived, rfl, quiet.adopts_import formed come ran⟩

/-- A chain of three classes arrives where the second one is registered, but with nothing in it. -/
theorem import_all_or_nothing_of_chain :
    let start : PortableContext := .start 0 (.ofSettings 16 2 1)
    let middle : ClassDefinition := ⟨⟨2, 0⟩, [], [], none⟩
    let requests := [Request.register middle]
    let context := answering requests start
    ∃ compressed, (ClassDefinition.chain 2).compressedLayout = .ok compressed ∧
      Throughout Request.Returns requests start ∧ (∀ request ∈ requests, request.Built) ∧
      (∀ arrived, ClassDefinition.ofCompressed compressed = .ok arrived → arrived.Acyclic) ∧
      ∃ settled now, importCompressed compressed context = (.ok settled, now) ∧
        now.lookup ⟨3, 0⟩ = some settled ∧
        ∀ known, context.lookup ⟨2, 0⟩ = some known → now.lookup ⟨2, 0⟩ = some known := by
  intro start middle requests context
  have fresh : start.Fresh := ⟨rfl, tidy_start 0 (Pool.clean_ofSettings 16 2 1)⟩
  have answers : ((register middle start).1.toOption).isSome = true := by decide +kernel
  obtain ⟨first, answered⟩ := Act.exists_ok_of_isSome answers
  have returned : Throughout Request.Returns requests start := by
    refine ⟨Request.returns_iff.mpr ?_, trivial⟩
    show ¬ GoesOn (register middle start).1
    rw [answered]
    exact not_goesOn_ok first
  have built : ∀ request ∈ requests, request.Built := by
    intro request member
    rw [List.mem_singleton.mp member]
    exact .build (.start ⟨2, 0⟩) rfl
  have wellFormed := (ClassDefinition.chain_built 2).wellFormed
  obtain ⟨compressed, packed⟩ := (ClassDefinition.exists_compressedLayout_iff _).mpr
    (ClassDefinition.chain_fits 2)
  have come := ClassDefinition.ofCompressed_compressedLayout wellFormed (by decide) packed
  have acyclic : ∀ arrived, ClassDefinition.ofCompressed compressed = .ok arrived →
      arrived.Acyclic := by
    intro arrived arrives
    rw [come] at arrives
    cases arrives
    exact (ClassDefinition.chain_acyclic (by decide)).of_same
      (ClassDefinition.same_symm (ClassDefinition.bare_same _))
  have ends := @import_all_or_nothing start requests compressed fresh returned built acyclic
  rcases ran : importCompressed compressed context with ⟨failure | settled, now⟩
  · have packs : ∀ entry ∈ context.definitions,
        entry.2.compressedLayout.toOption.isSome = true := by decide +kernel
    obtain ⟨refused, -⟩ := (ends.of_error ran).2.2.1 fun key known found =>
      Act.exists_ok_of_isSome (packs _ (Keyed.mem_of_lookup found))
    rw [come] at refused
    cases refused
  · obtain ⟨arrived, arrives, adopts⟩ := ends.of_ok ran
    rw [come] at arrives
    cases arrives
    exact ⟨compressed, packed, returned, built, acyclic, settled, now, ran, adopts.registered,
      adopts.kept ⟨2, 0⟩⟩

/-! What a registration that fails, or does not come back, leaves to later imports. -/

/-- A definition that cannot be written stays behind, with nothing that is nested in it, when its
    registration has failed. -/
theorem register_of_unfit (tidy : context.Tidy) (new : context.lookup definition.key = none)
    (unfit : ¬ definition.Fits) :
    ∃ failure now settled, register definition context = (.error failure, now) ∧
      ¬ failure.Endless ∧ settled.same definition = true ∧
      now.definitions = context.definitions ++ [(definition.key, settled)] := by
  have same := label_same context.forms definition
  have settles := @settle_of_new context definition.key definition new
  have filedTidy := tidies_settle definition.key definition context tidy
  rw [settles] at filedTidy
  obtain ⟨now, filed, -, -, ⟨fits, -⟩ | ⟨-, failure, ended, failed⟩⟩ :=
    binaryOf_of_tidy filedTidy (context.forms.label definition).1
  · exact absurd (fits.of_same (ClassDefinition.same_symm same)) unfit
  · exact ⟨failure, now, _, registerWithin_of_unformed settles failed, ended, same, filed⟩

/-- An import of something new fails if what is registered for a class nested in it cannot be
    written. -/
theorem Quiet.import_fails {inner : ClassDefinition} (quiet : context.Quiet)
    (come : ClassDefinition.ofCompressed compressed = .ok arrived)
    (new : context.lookup arrived.key = none) (member : inner ∈ arrived.nested)
    (found : context.lookup inner.key = some known) (unfit : ¬ known.Fits) :
    ∃ failure now, importCompressed compressed context = (.error failure, now) := by
  have retains := retains_importCompressed compressed context
  rcases ran : importCompressed compressed context with ⟨failure | settled, now⟩
  · exact ⟨failure, now, rfl⟩
  · exfalso
    rw [ran] at retains
    rw [importCompressed_of_new come new] at ran
    have labelled := label_same context.forms arrived
    have key := ClassDefinition.key_eq_of_same labelled
    have same := ClassDefinition.same_trans (same_of_registerWithin
      (show PortableContext.lookup _ _ = none by rw [key]; exact new) ran) labelled
    have registered := ((ends_registerWithin _ _ _ _).of_ok ran).2.1
    obtain ⟨-, rests⟩ := (fares _ ((quiet.keepForm come).underway _)).of_ok ran
    -- the walk has been through the definition that cannot be written
    obtain ⟨held, among, equal⟩ :=
      ClassDefinition.mem_nested_of_same (ClassDefinition.same_symm same) member
    generalize now.definitions.length - 0 = height at rests
    cases height with
    | zero => exact rests
    | succ height =>
      obtain ⟨own, there, -, nested⟩ := rests
      obtain rfl : settled = own := Option.some.inj (registered.symm.trans there)
      have walked := nested held among
      rw [ClassDefinition.key_eq_of_same equal] at walked
      cases height with
      | zero => exact walked
      | succ height =>
        obtain ⟨other, stands, fits, -⟩ := walked
        rw [retains.lookup _ _ found] at stands
        cases stands
        exact unfit fits

theorem nested_cons_of_same {inner : ClassDefinition} {back : List ClassDefinition}
    (same : settled.same definition = true) (parts : definition.nested = inner :: back) :
    ∃ first others, settled.nested = first :: others ∧ first.same inner = true := by
  have nested : settled.nested.map ClassDefinition.bare =
      definition.nested.map ClassDefinition.bare := by
    rw [← ClassDefinition.bare_nested, ← ClassDefinition.bare_nested, ClassDefinition.same_iff.mp same]
  rw [parts] at nested
  obtain ⟨first, others, split, equal, -⟩ := List.map_eq_cons_iff.mp nested
  exact ⟨first, others, split, ClassDefinition.same_iff.mpr equal⟩

/-- A registration of something new goes on for ever if that of the first definition nested in it
    does, once the new one is filed. -/
theorem goesOn_of_first {inner : ClassDefinition} {back : List ClassDefinition}
    (new : context.lookup definition.key = none) (fits : definition.Fits)
    (parts : definition.nested = inner :: back)
    (first : ∀ (now : PortableContext) (settled other : ClassDefinition),
      settled.same definition = true → now.lookup definition.key = some settled →
      (∀ key, key ≠ definition.key → context.lookup key = none → now.lookup key = none) →
      other.same inner = true → ∀ levels, GoesOn (registerWithin levels other.key other now).1)
    (levels : Nat) : GoesOn (registerWithin levels definition.key definition context).1 := by
  cases levels with
  | zero => exact ⟨_, rfl, trivial⟩
  | succ levels =>
    have same := label_same context.forms definition
    have settles := @settle_of_new context definition.key definition new
    generalize (context.forms.label definition).1 = settled at *
    obtain ⟨other, others, split, equal⟩ := nested_cons_of_same same parts
    obtain ⟨form, next, formed, unfiled⟩ := gives_binaryOf (fits.of_same same)
      (insert definition.key settled { context with forms := (context.forms.label definition).2 })
    have lookups := lookup_of_definitions unfiled
    have goesOn := first next settled other same ((lookups _).trans (lookup_insert new))
      (fun key unlike absent => by
        cases stands : next.lookup key with
        | none => rfl
        | some known =>
          rw [lookups] at stands
          rcases lookup_insert_cases stands with before | ⟨own, -⟩
          · exact absurd (absent.symm.trans before) nofun
          · exact absurd own unlike) equal levels
    rw [registerWithin_of_formed settles formed, split]
    obtain ⟨failure, refused, endless⟩ := goesOn
    have walked : registerWithin levels other.key other next =
        (.error failure, (registerWithin levels other.key other next).2) := Prod.ext refused rfl
    have stopped : Act.forEach (visit levels) (other :: others) next = _ :=
      Act.bind_of_error (visit_error.mpr walked)
    rw [Act.bind_of_error stopped]
    exact ⟨failure, rfl, endless⟩

/-- So does one of a definition that comes first in itself. -/
theorem goesOn_of_own {inner : ClassDefinition} {back : List ClassDefinition}
    (new : context.lookup definition.key = none) (fits : definition.Fits)
    (parts : definition.nested = inner :: back) (own : inner.key = definition.key)
    (levels : Nat) : GoesOn (registerWithin levels definition.key definition context).1 := by
  refine goesOn_of_first new fits parts (fun now settled other same found _ equal levels => ?_) levels
  obtain ⟨first, others, split, matched⟩ := nested_cons_of_same same parts
  have key : first.key = definition.key := (ClassDefinition.key_eq_of_same matched).trans own
  have leads : now.Leads definition.key definition.key :=
    ⟨settled, [], first, others, found, fits.of_same same, split, key, 0, nofun⟩
  have reached : other.key = definition.key := (ClassDefinition.key_eq_of_same equal).trans own
  rw [reached]
  exact goesOn_of_leads (fun _ there => ⟨definition.key, rfl, there ▸ leads⟩) rfl levels other

/-- A text of so many characters. -/
def textOf (length : Nat) : String := String.ofList (List.replicate length 'a')

theorem width_textOf (length : Nat) : Utf8.width (textOf length) = length := by
  rw [Utf8.width, Utf8.encode, textOf, String.toList_ofList, List.length_flatMap, List.map_replicate,
    List.sum_replicate]
  show length * 1 = length
  exact Nat.mul_one length

/-- No length fits in front of the name of one of the fields. -/
theorem not_fits_of_name {field : Field} (member : field ∈ definition.fields)
    (wide : Wire.lengthLimit ≤ Utf8.width field.name) : ¬ definition.Fits := by
  rintro ⟨-, names, -, -⟩
  exact Nat.not_le_of_lt (names field member) wide

/-- Where nothing was registered, a definition that cannot be written is all there is when its
    registration has failed. -/
theorem Fresh.register_of_unfit (fresh : context.Fresh) (unfit : ¬ definition.Fits) :
    (Request.register definition).Returns context ∧ ∃ settled : ClassDefinition,
      settled.same definition = true ∧
      ∀ key, ((Request.register definition).perform context).lookup key =
        if key = definition.key then some settled else none := by
  obtain ⟨failure, now, settled, ran, ended, same, filed⟩ :=
    PortableContext.register_of_unfit fresh.tidy (fresh.lookup definition.key) unfit
  refine ⟨fun refused failed => ?_, settled, same, fun key => ?_⟩
  · rw [Request.step, ran] at failed
    cases failed
    exact ended
  · rw [Request.perform, Request.step, ran, PortableContext.lookup, filed, fresh.vacant,
      List.nil_append]
    by_cases own : key = definition.key
    · rw [own, List.lookup_cons_self, if_pos rfl]
    · rw [List.lookup_cons, beq_eq_false_iff_ne.mpr own, if_neg own]
      rfl

/-- An import of a definition that nests the class of one whose registration failed fails when it
    has filed what arrived. -/
theorem Fresh.import_fails {stuck inner : ClassDefinition} (fresh : context.Fresh)
    (unfit : ¬ stuck.Fits) (come : ClassDefinition.ofCompressed compressed = .ok arrived)
    (member : inner ∈ arrived.nested) (meets : inner.key = stuck.key)
    (other : arrived.key ≠ stuck.key) :
    let left := (Request.register stuck).perform context
    ∃ failure now settled, importCompressed compressed left = (.error failure, now) ∧
      left.lookup arrived.key = none ∧ now.lookup arrived.key = some settled := by
  intro left
  obtain ⟨returns, held, same, lookups⟩ := fresh.register_of_unfit unfit
  have quiet : left.Quiet :=
    @Throughout.quiet context [.register stuck] ⟨returns, trivial⟩ fresh.quiet
  have new : left.lookup arrived.key = none := (lookups arrived.key).trans (if_neg other)
  have found : left.lookup inner.key = some held := (lookups inner.key).trans (if_pos meets)
  have unwritable : ¬ held.Fits := fun fits =>
    unfit (fits.of_same (ClassDefinition.same_symm same))
  obtain ⟨failure, now, ran⟩ := quiet.import_fails come new member found unwritable
  obtain ⟨settled, filed⟩ := @exists_lookup_importCompressed left compressed arrived come
  rw [ran] at filed
  exact ⟨failure, now, settled, ran, new, filed⟩

/-- An import for the class and version of a definition whose registration failed files what is
    nested in that, if this is coherent and for other classes. -/
theorem Fresh.import_adds {stuck inner : ClassDefinition} (fresh : context.Fresh)
    (unfit : ¬ stuck.Fits) (parts : stuck.nested = [inner]) (coherent : inner.Coherent)
    (fits : inner.Fits)
    (other : ∀ part : ClassDefinition, part.PartOf inner → part.key ≠ stuck.key)
    (come : ClassDefinition.ofCompressed compressed = .ok arrived)
    (meets : arrived.key = stuck.key) :
    let left := (Request.register stuck).perform context
    ∃ settled now added, importCompressed compressed left = (.ok settled, now) ∧
      left.lookup arrived.key = some settled ∧ left.lookup inner.key = none ∧
      now.lookup inner.key = some added := by
  intro left
  obtain ⟨-, held, same, lookups⟩ := fresh.register_of_unfit unfit
  have found : left.lookup arrived.key = some held := (lookups arrived.key).trans (if_pos meets)
  have new : left.lookup inner.key = none :=
    (lookups inner.key).trans (if_neg (other inner (.whole inner)))
  have consensus := coherent.consensus fits
  have admits : left.Admits (·.FoundIn inner) := by
    rintro key known stands part ⟨inside, within, equal⟩ rfl
    have unlike := other inside within
    rw [← ClassDefinition.key_eq_of_same equal] at unlike
    rw [lookups, if_neg unlike] at stands
    cases stands
  have registers : ∀ item ∈ held.nested, ∀ state : PortableContext,
      state.Admits (·.FoundIn inner) → Act.Gives (register item) state fun _ last =>
        Gains (·.FoundIn inner) state last ∧
          ∀ part : ClassDefinition, part.PartOf item → last.Has part := by
    intro item member state stateAdmits
    obtain ⟨known, among, equal⟩ := ClassDefinition.mem_nested_of_same same member
    rw [parts, List.mem_singleton] at among
    subst among
    have gives := gives_register consensus stateAdmits
      ⟨known, .whole known, ClassDefinition.same_symm equal⟩
    exact gives.mono fun _ _ found => ⟨found.1, found.2.2⟩
  obtain ⟨_, now, ran, -, has⟩ := gives_nested consensus admits registers
  obtain ⟨item, among, equal⟩ := ClassDefinition.mem_nested_of_same
    (ClassDefinition.same_symm same) (parts ▸ List.mem_singleton_self inner)
  obtain ⟨added, filed, -⟩ := has item among item (.whole item)
  rw [ClassDefinition.key_eq_of_same equal] at filed
  refine ⟨held, now, added, ?_, found, new, filed⟩
  rw [importCompressed_of_known come found]
  exact Act.bind_of_ok ran

/-- An import of a definition that begins with one that comes first in itself does not come back
    where nothing is registered. -/
theorem Fresh.import_goes_on {first inner : ClassDefinition} {back others : List ClassDefinition}
    (fresh : context.Fresh) (come : ClassDefinition.ofCompressed compressed = .ok arrived)
    (parts : arrived.nested = first :: back) (within : first.nested = inner :: others)
    (own : inner.key = first.key) (other : first.key ≠ arrived.key) :
    ¬ (Request.importForm compressed).Returns context := by
  have same := label_same context.forms arrived
  have fits := (ClassDefinition.fits_of_ofCompressed come).of_same same
  obtain ⟨head, tail, split, equal⟩ := nested_cons_of_same same parts
  rw [Request.returns_iff, Classical.not_not]
  show GoesOn (importCompressed compressed context).1
  rw [importCompressed_of_new come (fresh.lookup arrived.key)]
  have new : ∀ key, (keepForm (context.forms.label arrived).1 compressed
      { context with forms := (context.forms.label arrived).2 }).lookup key = none := fresh.lookup
  refine goesOn_of_first (new _) fits split ?_ _
  intro now settled next _ _ absent matched levels
  have like := ClassDefinition.same_trans matched equal
  obtain ⟨deep, rest, begins, alike⟩ := nested_cons_of_same like within
  have nextFits := (fits.nested (split ▸ List.mem_cons_self)).of_same matched
  have key := ClassDefinition.key_eq_of_same like
  refine goesOn_of_own (absent next.key ?_ (new _)) nextFits begins ?_ levels
  · rw [key, ClassDefinition.key_eq_of_same same]
    exact other
  · rw [ClassDefinition.key_eq_of_same alike, own, key]

/-- A definition that was built and can be written arrives, but for its labels. -/
theorem exists_arrives (built : definition.Built) (fits : definition.Fits)
    (shallow : definition.depth ≤ Failure.maxDefinitionLevels) :
    ∃ form, definition.compressedLayout = .ok form ∧
      ClassDefinition.ofCompressed form = .ok definition.bare := by
  obtain ⟨form, packed⟩ := (ClassDefinition.exists_compressedLayout_iff definition).mpr fits
  exact ⟨form, packed, ClassDefinition.ofCompressed_compressedLayout built.wellFormed shallow packed⟩

/-- Three imports that are not all or nothing, where nothing was registered but for one
    registration that failed.  A definition with a name that is too long to be written stays behind
    when its registration has failed.  An import that comes to it fails after what arrived was filed,
    and one for its own class and version files what is nested in it.  And an import does not come
    back if a definition nested in what arrives contains another one for its own class and
    version. -/
theorem import_half_done :
    let long := textOf Wire.lengthLimit
    let leaf : ClassDefinition := ⟨⟨1, 0⟩, [], [], none⟩
    let stuck : ClassDefinition := ⟨⟨1, 0⟩, [⟨long, .scalar .int, 0, .none⟩], [], none⟩
    let outer : ClassDefinition := ⟨⟨2, 0⟩, [⟨"next", .portable, 0, ⟨1, 0⟩⟩], [leaf], none⟩
    let heavy : ClassDefinition := ⟨⟨2, 0⟩, [⟨long, .portable, 0, ⟨1, 0⟩⟩], [leaf], none⟩
    let light : ClassDefinition := ⟨⟨2, 0⟩, [], [], none⟩
    let twice : ClassDefinition := ⟨⟨2, 0⟩, [⟨"z", .portable, 0, ⟨2, 0⟩⟩], [light], none⟩
    let around : ClassDefinition := ⟨⟨1, 0⟩, [⟨"y", .portable, 0, ⟨2, 0⟩⟩], [twice], none⟩
    let start : PortableContext := .start 0 (.ofSettings 16 2 1)
    let blocked := (Request.register stuck).perform start
    let hollow := (Request.register heavy).perform start
    stuck.Built ∧ (Request.register stuck).Returns start ∧
    heavy.Built ∧ (Request.register heavy).Returns start ∧
    (∃ form failure now settled, outer.compressedLayout = .ok form ∧
      importCompressed form blocked = (.error failure, now) ∧
      blocked.lookup ⟨2, 0⟩ = none ∧ now.lookup ⟨2, 0⟩ = some settled) ∧
    (∃ form settled now added, light.compressedLayout = .ok form ∧
      importCompressed form hollow = (.ok settled, now) ∧ hollow.lookup ⟨2, 0⟩ = some settled ∧
      hollow.lookup ⟨1, 0⟩ = none ∧ now.lookup ⟨1, 0⟩ = some added) ∧
    (∀ part : ClassDefinition, part.PartOf twice → part.key ≠ around.key) ∧
    ∃ form, around.compressedLayout = .ok form ∧ ¬ (Request.importForm form).Returns start := by
  have wide : Wire.lengthLimit ≤ Utf8.width (textOf Wire.lengthLimit) :=
    Nat.le_of_eq (width_textOf Wire.lengthLimit).symm
  -- all that matters of the name is its length
  generalize textOf Wire.lengthLimit = name at wide ⊢
  intro long leaf stuck outer heavy light twice around start blocked hollow
  have fresh : start.Fresh := ⟨rfl, tidy_start 0 (Pool.clean_ofSettings 16 2 1)⟩
  have stuckUnfit : ¬ stuck.Fits := not_fits_of_name (List.mem_singleton_self _) wide
  have heavyUnfit : ¬ heavy.Fits := not_fits_of_name (List.mem_singleton_self _) wide
  have leafBuilt : leaf.Built := .build (.start ⟨1, 0⟩) rfl
  have lightBuilt : light.Built := .build (.start ⟨2, 0⟩) rfl
  have stuckBuilt : stuck.Built :=
    .build (.addField (.start ⟨1, 0⟩) (rfl : Draft.addField long (.scalar .int) _ = _)) rfl
  have outerBuilt : outer.Built := .build (.addPortable (.start ⟨2, 0⟩) leafBuilt rfl) rfl
  have heavyBuilt : heavy.Built := .build (.addPortable (.start ⟨2, 0⟩) leafBuilt rfl) rfl
  have twiceBuilt : twice.Built := .build (.addPortable (.start ⟨2, 0⟩) lightBuilt rfl) rfl
  have aroundBuilt : around.Built := .build (.addPortable (.start ⟨1, 0⟩) twiceBuilt rfl) rfl
  have leafFits : leaf.Fits := .level (by decide) (by decide) (by decide) nofun
  have lightFits : light.Fits := .level (by decide) (by decide) (by decide) nofun
  have outerFits : outer.Fits := .level (by decide) (by decide) (by decide) (by simpa [outer])
  have twiceFits : twice.Fits := .level (by decide) (by decide) (by decide) (by simpa [twice])
  have aroundFits : around.Fits := .level (by decide) (by decide) (by decide) (by simpa [around])
  have leafParts : ∀ part : ClassDefinition, part.PartOf leaf → part = leaf := by
    rintro part (_ | ⟨member, -⟩)
    · rfl
    · cases member
  have leafCoherent : leaf.Coherent := by
    intro part other within among _
    rw [leafParts part within, leafParts other among]
    exact ClassDefinition.same_refl leaf
  refine ⟨stuckBuilt, (fresh.register_of_unfit stuckUnfit).1, heavyBuilt,
    (fresh.register_of_unfit heavyUnfit).1, ?_, ?_, ?_, ?_⟩
  · obtain ⟨form, packed, come⟩ := exists_arrives outerBuilt outerFits (by decide)
    obtain ⟨failure, now, settled, fails⟩ := fresh.import_fails stuckUnfit come
      (List.mem_singleton_self leaf.bare) rfl (show (⟨2, 0⟩ : ClassKey) ≠ ⟨1, 0⟩ by decide)
    exact ⟨form, failure, now, settled, packed, fails⟩
  · obtain ⟨form, packed, come⟩ := exists_arrives lightBuilt lightFits (by decide)
    obtain ⟨settled, now, added, adds⟩ := fresh.import_adds heavyUnfit rfl leafCoherent leafFits
      (fun part within => by
        rw [leafParts part within]
        exact (by decide : (⟨1, 0⟩ : ClassKey) ≠ ⟨2, 0⟩)) come rfl
    exact ⟨form, settled, now, added, packed, adds⟩
  · rintro part (_ | ⟨member, within⟩)
    · decide
    · rw [List.mem_singleton.mp member] at within
      rcases within with _ | ⟨member, -⟩
      · decide
      · cases member
  · obtain ⟨form, packed, come⟩ := exists_arrives aroundBuilt aroundFits (by decide)
    exact ⟨form, packed, fresh.import_goes_on come rfl rfl rfl (by decide)⟩

end ObjectWire.PortableContext
