import ObjectWire.Portable.Context
import ObjectWire.Proofs.Act
import ObjectWire.Proofs.ClassDefinition.Built
import ObjectWire.Proofs.Keyed
import ObjectWire.Proofs.Pool

/-!
# How the definitions in use evolve

A context is sound if every definition is filed under the class and version it describes and is
well formed, and if the buffers in the pool are empty.  Whatever is done to a context comes down to
four changes: a buffer is borrowed or given back, a compressed form is kept, labels are given out,
or a well-formed definition is filed under its own key where there was none.  All of them keep a
context sound, and none of them changes what is found under a key.
-/

namespace ObjectWire

namespace PortableContext

/-- Definitions are filed under their own keys and are well formed, and idle buffers are empty. -/
structure Sound (context : PortableContext) : Prop where
  filed : ∀ key definition, context.lookup key = some definition → definition.key = key
  wellFormed : ∀ key definition, context.lookup key = some definition → definition.WellFormed
  clean : context.pool.Clean

/-- The bytes are a compressed form of the definition: the compressed layout, or a form that it
    arrived in. -/
def IsForm (form : Bytes) (definition : ClassDefinition) : Prop :=
  (∃ layout, definition.layout = .ok layout ∧ form = Zlib.compress layout) ∨
  ∃ arrived, ClassDefinition.ofCompressed form = .ok arrived ∧ arrived.same definition = true

/-- Under every key two contexts have definitions that say the same, or none. -/
def Agrees (context other : PortableContext) : Prop :=
  ∀ key, (context.lookup key = none ∧ other.lookup key = none) ∨
    ∃ known held, context.lookup key = some known ∧ other.lookup key = some held ∧
      known.same held = true

/-- The second context comes from the first one by the changes that are made to contexts. -/
inductive Evolves (context : PortableContext) : PortableContext → Prop
  | refl : Evolves context context
  | borrow {now : PortableContext} (h : Evolves context now) :
      Evolves context { now with pool := now.pool.acquire.2 }
  | giveBack {now : PortableContext} (buffer : Output) (h : Evolves context now) :
      Evolves context { now with pool := now.pool.release buffer }
  | keep {now : PortableContext} {definition : ClassDefinition} {form : Bytes}
      (h : Evolves context now) (isForm : IsForm form definition) :
      Evolves context (now.keepForm definition form)
  | label {now : PortableContext} (definition : ClassDefinition) (h : Evolves context now) :
      Evolves context { now with forms := (now.forms.label definition).2 }
  | file {now : PortableContext} {definition : ClassDefinition} (h : Evolves context now)
      (wellFormed : definition.WellFormed) (new : now.lookup definition.key = none) :
      Evolves context (now.insert definition.key definition)

variable {context now later : PortableContext} {key : ClassKey} {definition : ClassDefinition}

namespace Evolves

theorem trans (first : context.Evolves now) (second : now.Evolves later) :
    context.Evolves later := by
  induction second with
  | refl => exact first
  | borrow _ ih => exact ih.borrow
  | giveBack buffer _ ih => exact ih.giveBack buffer
  | keep _ isForm ih => exact ih.keep isForm
  | label definition _ ih => exact ih.label definition
  | file _ wellFormed new ih => exact ih.file wellFormed new

instance : Std.Refl Evolves := ⟨fun _ => .refl⟩

instance : Trans Evolves Evolves Evolves := ⟨trans⟩

theorem version (h : context.Evolves now) : now.version = context.version := by
  induction h with
  | refl => rfl
  | borrow _ ih => exact ih
  | giveBack _ _ ih => exact ih
  | keep _ _ ih => exact ih
  | label _ _ ih => exact ih
  | file _ _ _ ih => exact ih

/-- What is registered stays registered. -/
theorem lookup (h : context.Evolves now) (found : context.lookup key = some definition) :
    now.lookup key = some definition := by
  induction h with
  | refl => exact found
  | borrow _ ih => exact ih
  | giveBack _ _ ih => exact ih
  | keep _ _ ih => exact ih
  | label _ _ ih => exact ih
  | file _ _ _ ih => exact Keyed.lookup_append_of_some ih

end Evolves

theorem lookup_of_definitions (same : now.definitions = context.definitions) (key : ClassKey) :
    now.lookup key = context.lookup key := by
  rw [lookup, same]
  rfl

theorem lookup_insert (h : context.lookup key = none) :
    (context.insert key definition).lookup key = some definition :=
  Keyed.lookup_append_of_none h

theorem lookup_insert_cases {known : ClassDefinition} {other : ClassKey}
    (h : (context.insert key definition).lookup other = some known) :
    context.lookup other = some known ∨ other = key ∧ known = definition := by
  unfold PortableContext.lookup insert at h
  rw [List.lookup_append] at h
  rcases Option.or_eq_some_iff.mp h with old | ⟨-, new⟩
  · exact .inl old
  · have only := Keyed.mem_of_lookup new
    rw [List.mem_singleton, Prod.mk.injEq] at only
    exact .inr only

theorem Evolves.sound (h : context.Evolves now) (sound : context.Sound) : now.Sound := by
  induction h with
  | refl => exact sound
  | borrow _ ih => exact ⟨ih.filed, ih.wellFormed, ih.clean.acquire⟩
  | giveBack buffer _ ih => exact ⟨ih.filed, ih.wellFormed, ih.clean.release buffer⟩
  | keep _ _ ih => exact ⟨ih.filed, ih.wellFormed, ih.clean⟩
  | label _ _ ih => exact ⟨ih.filed, ih.wellFormed, ih.clean⟩
  | file _ wellFormed _ ih =>
    refine ⟨fun key known found => ?_, fun key known found => ?_, ih.clean⟩
    · rcases lookup_insert_cases found with old | ⟨rfl, rfl⟩
      · exact ih.filed key known old
      · rfl
    · rcases lookup_insert_cases found with old | ⟨rfl, rfl⟩
      · exact ih.wellFormed key known old
      · exact wellFormed

theorem sound_start (version : Int32) {pool : Pool} (clean : pool.Clean) :
    (start version pool).Sound :=
  ⟨nofun, nofun, clean⟩

/-- The compressed form that a definition goes by: the one at hand, or else the one of its
    layout. -/
def formFor (context : PortableContext) (definition : ClassDefinition) : Except Failure Bytes :=
  match context.forms.formOf definition with
  | some form => .ok form
  | none => definition.compressedLayout

/-- A compressed form that is at hand is not made again. -/
theorem binaryOf_of_formOf (atHand : context.forms.formOf definition = some form) :
    binaryOf definition context = (.ok form, context) := by
  unfold binaryOf
  rw [Act.bind_of_ok (Act.get_apply context), atHand]
  rfl

/-- A compressed form is at hand, or cannot be made, or is made in a borrowed buffer and kept. -/
theorem binaryOf_cases (definition : ClassDefinition) (context : PortableContext) :
    (∃ form, context.forms.formOf definition = some form ∧
      binaryOf definition context = (.ok form, context)) ∨
    (∃ failure buffer, context.forms.formOf definition = none ∧
      definition.layout = .error failure ∧ binaryOf definition context =
        (.error failure, { context with pool := context.pool.acquire.2.release buffer })) ∨
    ∃ layout buffer, context.forms.formOf definition = none ∧ definition.layout = .ok layout ∧
      binaryOf definition context = (.ok (Zlib.compress layout),
        { context.keepForm definition (Zlib.compress layout) with
          pool := context.pool.acquire.2.release buffer }) := by
  cases known : context.forms.formOf definition with
  | some form => exact .inl ⟨form, rfl, binaryOf_of_formOf known⟩
  | none =>
    unfold binaryOf
    rw [Act.bind_of_ok (Act.get_apply context), known]
    unfold withBuffer
    cases written : definition.layout with
    | error failure => exact .inr (.inl ⟨failure, _, rfl, rfl, rfl⟩)
    | ok layout => exact .inr (.inr ⟨layout, _, rfl, rfl, rfl⟩)

theorem binaryOf_eq_formFor (definition : ClassDefinition) (context : PortableContext) :
    (binaryOf definition context).1 = context.formFor definition := by
  unfold formFor ClassDefinition.compressedLayout
  rcases binaryOf_cases definition context with
    ⟨form, known, ran⟩ | ⟨failure, _, known, written, ran⟩ | ⟨layout, _, known, written, ran⟩
  · rw [known, ran]
  · rw [known, written, ran]
    rfl
  · rw [known, written, ran]
    rfl

/-- Making the compressed form of a definition changes no definition. -/
theorem evolves_binaryOf (definition : ClassDefinition) :
    (binaryOf definition).Within Evolves := by
  intro context
  rcases binaryOf_cases definition context with
    ⟨form, -, ran⟩ | ⟨failure, buffer, -, -, ran⟩ | ⟨layout, buffer, -, written, ran⟩
  · rw [ran]
    exact .refl
  · rw [ran]
    exact Evolves.refl.borrow.giveBack buffer
  · rw [ran]
    exact (Evolves.refl.borrow.keep (.inl ⟨layout, written, rfl⟩)).giveBack buffer

theorem definitions_binaryOf (definition : ClassDefinition) (context : PortableContext) :
    (binaryOf definition context).2.definitions = context.definitions := by
  rcases binaryOf_cases definition context with
    ⟨form, -, ran⟩ | ⟨failure, buffer, -, -, ran⟩ | ⟨layout, buffer, -, -, ran⟩
  · rw [ran]
  · rw [ran]
  · rw [ran]
    rfl

theorem meets_binaryOf (definition : ClassDefinition) :
    Act.Meets Evolves (binaryOf definition) context fun _ _ => True :=
  ⟨evolves_binaryOf definition context, fun _ _ _ => ⟨⟩⟩

theorem label_same (forms : CompressedForms) (definition : ClassDefinition) :
    (forms.label definition).1.same definition = true :=
  ClassDefinition.labelled_same definition forms.nextLabel

/-- What is registered under a key settles it. -/
theorem settle_of_known {known : ClassDefinition} (found : context.lookup key = some known) :
    settle key definition context = (.ok known, context) := by
  unfold settle
  rw [Act.bind_of_ok (Act.get_apply context), found]
  rfl

/-- Under a new key a definition is filed with its labels. -/
theorem settle_of_new (new : context.lookup key = none) :
    settle key definition context = (.ok (context.forms.label definition).1,
      insert key (context.forms.label definition).1
        { context with forms := (context.forms.label definition).2 }) := by
  unfold settle
  rw [Act.bind_of_ok (Act.get_apply context), new]
  rfl

/-- Where something is registered, registering comes down to registering that. -/
theorem registerWithin_of_known {known : ClassDefinition} (levels : Nat)
    (found : context.lookup key = some known) :
    registerWithin levels key definition context = registerWithin levels key known context := by
  cases levels with
  | zero => rfl
  | succ levels =>
    simp only [registerWithin]
    rw [Act.bind_of_ok (settle_of_known found), Act.bind_of_ok (settle_of_known found)]

/-- What is registered under a new key says what it was asked to. -/
theorem same_of_registerWithin {settled : ClassDefinition} {levels : Nat}
    (new : context.lookup key = none)
    (ran : registerWithin levels key definition context = (.ok settled, now)) :
    settled.same definition = true := by
  cases levels with
  | zero => cases ran
  | succ levels =>
    simp only [registerWithin] at ran
    rw [Act.bind_of_ok (settle_of_new new)] at ran
    obtain ⟨form, _, -, ran⟩ := Act.bind_ok ran
    obtain ⟨_, _, -, ran⟩ := Act.bind_ok ran
    cases ran
    exact label_same context.forms definition

theorem importCompressed_of_unreadable {failure : Failure} {compressed : Bytes}
    (unreadable : ClassDefinition.ofCompressed compressed = .error failure) :
    importCompressed compressed context = (.error failure, context) := by
  unfold importCompressed
  rw [unreadable]
  rfl

/-- An import for a class and version that are registered comes down to registering what is nested
    in the definition that is found there. -/
theorem importCompressed_of_known {arrived known : ClassDefinition} {compressed : Bytes}
    (come : ClassDefinition.ofCompressed compressed = .ok arrived)
    (found : context.lookup arrived.key = some known) :
    importCompressed compressed context =
      (do registerEach known.nested; pure known : Act _ _) context := by
  unfold importCompressed
  rw [come, Act.bind_of_ok (Act.lift_apply (.ok arrived) context),
    Act.bind_of_ok (Act.get_apply context), found]

/-- An import of a new definition registers it with its labels, for which the form is kept. -/
theorem importCompressed_of_new {arrived : ClassDefinition} {compressed : Bytes}
    (come : ClassDefinition.ofCompressed compressed = .ok arrived)
    (new : context.lookup arrived.key = none) :
    importCompressed compressed context =
      register (context.forms.label arrived).1
        (keepForm (context.forms.label arrived).1 compressed
          { context with forms := (context.forms.label arrived).2 }) := by
  unfold importCompressed
  rw [come, Act.bind_of_ok (Act.lift_apply (.ok arrived) context),
    Act.bind_of_ok (Act.get_apply context), new]
  rfl

/-- What is settled under a key is what is found there from then on: what was there before, or the
    definition with its labels. -/
theorem meets_settle (wellFormed : definition.WellFormed) :
    Act.Meets Evolves (settle definition.key definition) context fun settled now =>
      now.lookup definition.key = some settled ∧
        (context.lookup definition.key = some settled ∨
          context.lookup definition.key = none ∧ settled.same definition = true) := by
  cases found : context.lookup definition.key with
  | some known => exact Act.meets_of_ok (settle_of_known found) .refl ⟨found, .inl rfl⟩
  | none =>
    have same := label_same context.forms definition
    have key := ClassDefinition.key_eq_of_same same
    have labelled : context.Evolves { context with forms := (context.forms.label definition).2 } :=
      .label definition .refl
    have filed := labelled.file (wellFormed.of_same (ClassDefinition.same_symm same))
      (by rw [key]; exact found)
    rw [key] at filed
    exact Act.meets_of_ok (settle_of_new found) filed ⟨lookup_insert found, .inr ⟨rfl, same⟩⟩

/-- Registering a well-formed definition, and those nested in what is then found under its key. -/
theorem meets_registerWithin (levels : Nat) (sound : context.Sound)
    (wellFormed : definition.WellFormed) :
    Act.Meets Evolves (registerWithin levels definition.key definition) context
      fun settled now => now.lookup definition.key = some settled := by
  induction levels generalizing context definition with
  | zero => exact Act.meets_fail
  | succ levels ih =>
    apply (meets_settle wellFormed).bind
    intro settled now evolved found
    have nowSound := evolved.sound sound
    have settledWellFormed := nowSound.wellFormed _ _ found.1
    apply (meets_binaryOf settled).bind
    intro _ next grown _
    have nested : Act.Meets Evolves (Act.forEach (fun inner => do
        let _ ← registerWithin levels inner.key inner) settled.nested) next
        fun _ => Sound := by
      apply Act.meets_forEach (grown.sound nowSound)
      intro inner member state sound
      have within := ih sound (settledWellFormed.nested inner member)
      exact within.bind fun _ reached evolved _ => Act.meets_pure (evolved.sound sound)
    refine nested.bind fun _ final further _ => Act.meets_pure ?_
    exact further.lookup (grown.lookup found.1)

/-- Whether registering a definition succeeds or not, it makes the context evolve, and if it
    succeeds, what it answers with is registered. -/
theorem meets_register (sound : context.Sound) (wellFormed : definition.WellFormed) :
    Act.Meets Evolves (register definition) context fun settled now =>
      now.lookup definition.key = some settled :=
  meets_registerWithin _ sound wellFormed

theorem wellFormed_of_ofCompressed {compressed : Bytes}
    (h : ClassDefinition.ofCompressed compressed = .ok definition) : definition.WellFormed := by
  obtain ⟨input, rest, read⟩ := ClassDefinition.exists_read h
  exact Input.wellFormed_of_layoutWithin read

theorem meets_registerEach {items : List ClassDefinition} (sound : context.Sound)
    (wellFormed : ∀ item ∈ items, item.WellFormed) :
    Act.Meets Evolves (registerEach items) context fun _ => Sound := by
  apply Act.meets_forEach sound
  intro item member state sound
  have registers := meets_register sound (wellFormed item member)
  exact registers.bind fun _ reached evolved _ => Act.meets_pure (evolved.sound sound)

/-- A definition that arrives is registered, unless one for its class and version is. -/
theorem meets_importCompressed (sound : context.Sound) (compressed : Bytes) :
    Act.Meets Evolves (importCompressed compressed) context fun settled now =>
      ∃ arrived, ClassDefinition.ofCompressed compressed = .ok arrived ∧
        now.lookup arrived.key = some settled := by
  unfold Act.Meets
  cases come : ClassDefinition.ofCompressed compressed with
  | error failure =>
    rw [importCompressed, come]
    exact ⟨.refl, nofun⟩
  | ok arrived =>
    have wellFormed := wellFormed_of_ofCompressed come
    cases found : context.lookup arrived.key with
    | some known =>
      rw [importCompressed_of_known come found]
      apply (meets_registerEach sound (sound.wellFormed _ known found).nested).bind
      intro _ now evolved _
      exact Act.meets_pure ⟨arrived, rfl, evolved.lookup found⟩
    | none =>
      have same := label_same context.forms arrived
      have isForm : IsForm compressed (context.forms.label arrived).1 :=
        .inr ⟨arrived, come, ClassDefinition.same_symm same⟩
      have prepared := (Evolves.label arrived (.refl : context.Evolves context)).keep isForm
      have registers := meets_register (prepared.sound sound)
        (wellFormed.of_same (ClassDefinition.same_symm same))
      rw [ClassDefinition.key_eq_of_same same] at registers
      rw [importCompressed_of_new come found]
      refine ⟨prepared.trans registers.1, fun settled now ran => ?_⟩
      exact ⟨arrived, rfl, registers.2 settled now ran⟩

end PortableContext

end ObjectWire
