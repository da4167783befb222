import ObjectWire.Proofs.ClassDefinition.Coherent
import ObjectWire.Proofs.ClassDefinition.Received
import ObjectWire.Proofs.Portable.Tidy

/-!
# Requests to a context

Definitions are registered, under their own keys or for a class at the context's version, or come in
compressed, or are derived from objects.  However such requests follow each other and however many
of them fail, what is registered stays registered and keeps its compressed form.  A request that
fails half-way may leave some definitions behind, but none of them half-registered: what keeps a
definition from being registered in full is only that it is too large to be compressed.
-/

namespace ObjectWire

/-- The failure stands for a walk that never comes to an end. -/
def Failure.Endless : Failure → Prop
  | .endlessDefinition .. => True
  | _ => False

namespace PortableContext

/-- What a context is asked for.  Any request may fail. -/
inductive Request
  | register (definition : ClassDefinition)
  | registerFor (classId : Int32) (definition : ClassDefinition)
  | importForm (compressed : Bytes)
  | describe (p : Portable)

namespace Request

/-- What a request does. -/
def step : Request → Act PortableContext ClassDefinition
  | register definition => PortableContext.register definition
  | registerFor classId definition => PortableContext.registerFor classId definition
  | importForm compressed => importCompressed compressed
  | describe p => PortableContext.describe p

/-- The context after a request, whether the request failed or not. -/
def perform (request : Request) (context : PortableContext) : PortableContext :=
  (request.step context).2

/-- The request comes back, be it with a failure. -/
def Returns (context : PortableContext) (request : Request) : Prop :=
  ∀ failure, (request.step context).1 = .error failure → ¬ failure.Endless

theorem returns_of_failure {context : PortableContext} {request : Request} {failure : Failure}
    (h : Act.failure? (request.step context).1 = some failure) (ends : ¬ failure.Endless) :
    request.Returns context := by
  intro refused failed
  rw [failed] at h
  cases h
  exact ends

end Request

/-- The context after requests, one after the other. -/
def answering (requests : List Request) (context : PortableContext) : PortableContext :=
  requests.foldl (fun context request => request.perform context) context

/-- Every request is as wanted where it is made. -/
def Throughout (allowed : PortableContext → Request → Prop) :
    List Request → PortableContext → Prop
  | [], _ => True
  | request :: requests, context =>
    allowed context request ∧ Throughout allowed requests (request.perform context)

/-- Nothing is registered, and whatever forms are at hand from elsewhere are genuine. -/
structure Fresh (context : PortableContext) : Prop where
  vacant : context.definitions = []
  tidy : context.Tidy

variable {context now later : PortableContext} {key : ClassKey} {definition : ClassDefinition}
  {request : Request} {requests : List Request}
  {allowed : PortableContext → Request → Prop}

/-- What every request of a run preserves holds after the run. -/
theorem Throughout.invariant {holds : PortableContext → Prop}
    (each : ∀ context request, allowed context request →
      Act.Preserves holds context (request.perform context))
    (throughout : Throughout allowed requests context) (held : holds context) :
    holds (answering requests context) := by
  induction requests generalizing context with
  | nil => exact held
  | cons request requests ih =>
    obtain ⟨may, others⟩ := throughout
    exact ih others (each context request may held)

theorem Fresh.lookup (fresh : context.Fresh) (key : ClassKey) : context.lookup key = none := by
  rw [PortableContext.lookup, fresh.vacant]
  rfl

/-- What is registered stays, and so do the compressed forms; what is new is labelled. -/
structure Retains (context now : PortableContext) : Prop where
  lookup : ∀ key definition, context.lookup key = some definition →
    now.lookup key = some definition
  formOf : ∀ definition form, context.forms.formOf definition = some form →
    now.forms.formOf definition = some form
  labelled : ∀ key definition, now.lookup key = some definition →
    context.lookup key = some definition ∨ definition.label.isSome = true

instance : Std.Refl Retains := ⟨fun _ => ⟨fun _ _ => id, fun _ _ => id, fun _ _ => .inl⟩⟩

theorem Retains.trans (first : context.Retains now) (second : now.Retains later) :
    context.Retains later where
  lookup key definition found := second.lookup key definition (first.lookup key definition found)
  formOf definition form found :=
    second.formOf definition form (first.formOf definition form found)
  labelled key definition found := by
    rcases second.labelled key definition found with before | named
    · exact first.labelled key definition before
    · exact .inr named

instance : Trans Retains Retains Retains := ⟨Retains.trans⟩

/-- What is new later was new before. -/
theorem Retains.new (retains : context.Retains now) (new : now.lookup key = none) :
    context.lookup key = none := by
  cases found : context.lookup key with
  | none => rfl
  | some known =>
    rw [retains.lookup _ _ found] at new
    cases new

/-- The compressed form of the definition is at hand, and for each definition nested in it something
    is registered. -/
structure Carries (context : PortableContext) (definition : ClassDefinition) : Prop where
  form : ∃ form, context.forms.formOf definition = some form
  nested : ∀ inner ∈ definition.nested, ∃ known, context.lookup inner.key = some known

theorem Carries.of_retains (carries : context.Carries definition) (retains : context.Retains now) :
    now.Carries definition := by
  obtain ⟨⟨form, found⟩, nested⟩ := carries
  refine ⟨⟨form, retains.formOf definition form found⟩, fun inner member => ?_⟩
  obtain ⟨known, registered⟩ := nested inner member
  exact ⟨known, retains.lookup inner.key known registered⟩

/-- Everything registered can be written. -/
def Writable (context : PortableContext) : Prop :=
  ∀ key definition, context.lookup key = some definition → definition.Fits

theorem Writable.of_retains (writable : now.Writable) (retains : context.Retains now) :
    context.Writable :=
  fun key definition found => writable key definition (retains.lookup key definition found)

/-- Nothing is lost, and what is new is registered in full. -/
def Completes (context now : PortableContext) : Prop :=
  context.Retains now ∧ ∀ key definition, now.lookup key = some definition →
    context.lookup key = some definition ∨ now.Carries definition

theorem Completes.trans (first : context.Completes now) (second : now.Completes later) :
    context.Completes later := by
  refine ⟨first.1.trans second.1, fun key definition found => ?_⟩
  rcases second.2 key definition found with before | carries
  · rcases first.2 key definition before with earlier | carries
    · exact .inl earlier
    · exact .inr (carries.of_retains second.1)
  · exact .inr carries

instance : Std.Refl Completes := ⟨fun context => ⟨Std.Refl.refl context, fun _ _ => .inl⟩⟩

instance : Trans Completes Completes Completes := ⟨Completes.trans⟩

/-- What stays registered while nothing is filed is complete as it was. -/
theorem completes_of_definitions (retains : context.Retains now)
    (same : now.definitions = context.definitions) : context.Completes now := by
  refine ⟨retains, fun key definition found => .inl ?_⟩
  rwa [lookup_of_definitions same] at found

/-- Nothing is lost, and what is new is registered in full if all that is registered can be
    written. -/
def CompletesWritable (context now : PortableContext) : Prop :=
  context.Retains now ∧ (now.Writable → context.Completes now)

instance : Std.Refl CompletesWritable :=
  ⟨fun context => ⟨Std.Refl.refl context, fun _ => Std.Refl.refl context⟩⟩

instance : Trans CompletesWritable CompletesWritable CompletesWritable where
  trans first second :=
    ⟨first.1.trans second.1,
      fun writable => (first.2 (writable.of_retains second.1)).trans (second.2 writable)⟩

/-! What a single step keeps and adds. -/

theorem retains_label (context : PortableContext) (definition : ClassDefinition) :
    context.Retains { context with forms := (context.forms.label definition).2 } :=
  ⟨fun _ _ => id, fun _ _ => id, fun _ _ => .inl⟩

theorem retains_keepForm (context : PortableContext) (definition : ClassDefinition)
    (form : Bytes) : context.Retains (context.keepForm definition form) :=
  ⟨fun _ _ => id, fun _ _ => formOf_keep, fun _ _ => .inl⟩

/-- Settling a key files at most one definition there. -/
theorem ends_settle (key : ClassKey) (definition : ClassDefinition) (context : PortableContext)
    (failed : Failure → PortableContext → Prop) :
    Act.Ends (settle key definition) context (fun settled now =>
      context.Retains now ∧ now.lookup key = some settled ∧
        ∀ other known, now.lookup other = some known →
          context.lookup other = some known ∨ known = settled ∧ settled.label.isSome = true)
      failed := by
  cases found : context.lookup key with
  | some known =>
    exact Act.ends_of_ok (settle_of_known found)
      ⟨Std.Refl.refl context, found, fun _ _ => .inl⟩
  | none =>
    have named : (context.forms.label definition).1.label.isSome = true :=
      ClassDefinition.label_labelled definition context.forms.nextLabel
    refine Act.ends_of_ok (settle_of_new found) ⟨⟨?_, fun _ _ => id, ?_⟩, ?_, ?_⟩
    · intro other known before
      exact Keyed.lookup_append_of_some before
    · intro other known registered
      rcases lookup_insert_cases registered with before | ⟨-, rfl⟩
      · exact .inl before
      · exact .inr named
    · exact lookup_insert found
    · intro other known registered
      rcases lookup_insert_cases registered with before | ⟨-, rfl⟩
      · exact .inl before
      · exact .inr ⟨rfl, named⟩

/-- The compressed form of a labelled definition is at hand once it was asked for, and asking fails
    only for a definition that cannot be written. -/
theorem ends_binaryOf (definition : ClassDefinition) (context : PortableContext) :
    Act.Ends (binaryOf definition) context
      (fun _ now => context.Completes now ∧ (definition.label.isSome = true →
        ∃ form, now.forms.formOf definition = some form))
      (fun _ now => context.Completes now ∧ ¬ definition.Fits) := by
  rcases binaryOf_cases definition context with
    ⟨form, found, ran⟩ | ⟨failure, buffer, -, unwritten, ran⟩ | ⟨layout, buffer, -, -, ran⟩
  · exact Act.ends_of_ok ran ⟨Std.Refl.refl context, fun _ => ⟨form, found⟩⟩
  · refine Act.ends_of_error ran ⟨?_, fun fits => ?_⟩
    · exact completes_of_definitions ⟨fun _ _ => id, fun _ _ => id, fun _ _ => .inl⟩ rfl
    · obtain ⟨layout, written⟩ := (ClassDefinition.exists_layout_iff definition).mpr fits
      rw [unwritten] at written
      cases written
  · refine Act.ends_of_ok ran ⟨?_, formOf_keep_self context.forms⟩
    exact completes_of_definitions ⟨fun _ _ => id, fun _ _ => formOf_keep, fun _ _ => .inl⟩ rfl

theorem retains_binaryOf (definition : ClassDefinition) :
    (binaryOf definition).Within Retains := by
  intro context
  have ends := ends_binaryOf definition context
  exact (ends.mono (fun _ _ done => done.1.1) fun _ _ failed => failed.1.1).leaves

/-- Nothing is lost, and the failure is due to something that cannot be written, unless it stands
    for a walk without end. -/
def Abandons (context : PortableContext) (failure : Failure) (now : PortableContext) : Prop :=
  context.Retains now ∧ (failure.Endless ∨ ¬ now.Writable)

theorem Abandons.of_retains {failure : Failure} (abandons : now.Abandons failure later)
    (retains : context.Retains now) : context.Abandons failure later :=
  ⟨retains.trans abandons.1, abandons.2⟩

/-- Where the one definition that was filed is carried in the end, all that is new is complete. -/
theorem Completes.of_filed {filed : PortableContext} {settled : ClassDefinition}
    (retains : context.Retains filed)
    (gained : ∀ key known, filed.lookup key = some known →
      context.lookup key = some known ∨ known = settled ∧ settled.label.isSome = true)
    (completes : filed.Completes now)
    (carries : settled.label.isSome = true → now.Carries settled) : context.Completes now := by
  refine ⟨retains.trans completes.1, fun key known found => ?_⟩
  rcases completes.2 key known found with before | carried
  · rcases gained key known before with earlier | ⟨rfl, named⟩
    · exact .inl earlier
    · exact .inr (carries named)
  · exact .inr carried

/-- A registration that succeeds leaves nothing half-registered.  One that fails either goes on
    without end, or leaves something that cannot be written. -/
theorem ends_registerWithin (levels : Nat) (key : ClassKey) (definition : ClassDefinition)
    (context : PortableContext) :
    Act.Ends (registerWithin levels key definition) context
      (fun settled now => context.Completes now ∧ now.lookup key = some settled ∧
        (settled.label.isSome = true → now.Carries settled))
      context.Abandons := by
  induction levels generalizing key definition context with
  | zero => exact Act.ends_of_error rfl ⟨Std.Refl.refl context, .inl trivial⟩
  | succ levels ih =>
    apply (ends_settle key definition context _).bind
    rintro settled filed ⟨retains, registered, gained⟩
    -- what is settled here is registered in full only when its form and all inside it are there
    have formed : Act.Ends (binaryOf settled) filed
        (fun _ now => filed.Completes now ∧ (settled.label.isSome = true →
          ∃ form, now.forms.formOf settled = some form)) context.Abandons := by
      refine (ends_binaryOf settled filed).mono (fun _ _ => id) ?_
      rintro failure now ⟨completes, unfit⟩
      refine ⟨retains.trans completes.1, .inr fun writable => unfit ?_⟩
      exact writable key settled (completes.1.lookup key settled registered)
    apply formed.bind
    rintro - now ⟨made, form⟩
    have inside : Act.Ends (Act.forEach (fun nested => do
        let _ ← registerWithin levels nested.key nested) settled.nested) now
        (fun _ last => now.Completes last ∧ ∀ inner ∈ settled.nested,
          ∃ known, last.lookup inner.key = some known) context.Abandons := by
      refine Act.ends_forEach ?_ ?_
      · rintro inner before after ⟨known, found⟩ completes
        exact ⟨known, completes.1.lookup inner.key known found⟩
      · intro inner _ state reached
        have walked : Act.Ends (do let _ ← registerWithin levels inner.key inner) state
            (fun _ next => state.Completes next ∧ ∃ known, next.lookup inner.key = some known)
            state.Abandons := by
          apply (ih inner.key inner state).bind
          rintro known next ⟨further, found, -⟩
          exact Act.ends_of_ok rfl ⟨further, known, found⟩
        refine walked.mono (fun _ _ => id) fun failure next abandons => ?_
        exact abandons.of_retains (retains.trans (made.1.trans reached.1))
    apply inside.bind
    rintro - last ⟨completes, nested⟩
    have final : filed.Completes last := made.trans completes
    have carries : settled.label.isSome = true → last.Carries settled := by
      intro named
      obtain ⟨kept, found⟩ := form named
      exact ⟨⟨kept, completes.1.formOf settled kept found⟩, nested⟩
    have registeredStill := final.1.lookup key settled registered
    exact Act.ends_of_ok rfl ⟨.of_filed retains gained final carries, registeredStill, carries⟩

theorem retains_registerWithin (levels : Nat) (key : ClassKey) (definition : ClassDefinition) :
    (registerWithin levels key definition).Within Retains := by
  intro context
  have ends := ends_registerWithin levels key definition context
  exact (ends.mono (fun _ _ done => done.1.1) fun _ _ abandons => abandons.1).leaves

theorem completes_registerWithin (levels : Nat) (key : ClassKey) (definition : ClassDefinition) :
    (registerWithin levels key definition).WithinUnless (fun _ => True) Completes := by
  intro context
  have ends := ends_registerWithin levels key definition context
  rcases ran : registerWithin levels key definition context with ⟨failure | settled, now⟩
  · exact .inl ⟨failure, trivial, rfl⟩
  · exact .inr (ends.of_ok ran).1

theorem completesWritable_registerWithin (levels : Nat) (key : ClassKey)
    (definition : ClassDefinition) :
    (registerWithin levels key definition).WithinUnless Failure.Endless CompletesWritable := by
  intro context
  have ends := ends_registerWithin levels key definition context
  rcases ran : registerWithin levels key definition context with ⟨failure | settled, now⟩
  · obtain ⟨retains, endless | unwritable⟩ := ends.of_error ran
    · exact .inl ⟨failure, endless, rfl⟩
    · exact .inr ⟨retains, fun writable => absurd writable unwritable⟩
  · have completes := (ends.of_ok ran).1
    exact .inr ⟨completes.1, fun _ => completes⟩

/-! Requests are made of registrations, and an import of something new labels what arrived and keeps
its form. -/

/-- The single changes that requests make to a context stay within a relation, but for failures that
    are excused. -/
structure Answers (excused : Failure → Prop) (related : PortableContext → PortableContext → Prop) :
    Prop where
  register : ∀ levels key definition,
    (registerWithin levels key definition).WithinUnless excused related
  keep : ∀ context now : PortableContext, context.Retains now →
    now.definitions = context.definitions → related context now

theorem answers_retains : Answers (fun _ => False) Retains where
  register levels key definition := (retains_registerWithin levels key definition).unless
  keep _ _ retains _ := retains

theorem answers_completes : Answers (fun _ => True) Completes where
  register := completes_registerWithin
  keep _ _ := completes_of_definitions

theorem answers_completesWritable : Answers Failure.Endless CompletesWritable where
  register := completesWritable_registerWithin
  keep _ _ retains same := ⟨retains, fun _ => completes_of_definitions retains same⟩

section Answers

variable {excused : Failure → Prop} {related : PortableContext → PortableContext → Prop}
  [Std.Refl related] [Trans related related related]

theorem Answers.registerUnder (answers : Answers excused related) (key : ClassKey)
    (definition : ClassDefinition) :
    (registerUnder key definition).WithinUnless excused related :=
  Act.within_get.unless.bind fun _ => answers.register _ key definition

theorem Answers.registerEach (answers : Answers excused related) (items : List ClassDefinition) :
    (registerEach items).WithinUnless excused related := by
  apply Act.withinUnless_forEach
  intro item _
  exact (answers.registerUnder item.key item).bind fun _ => (Act.within_pure ()).unless

theorem Answers.importCompressed (answers : Answers excused related) (compressed : Bytes) :
    (importCompressed compressed).WithinUnless excused related := by
  apply (Act.within_lift _).unless.bind
  intro arrived
  apply Act.within_get.unless.bind
  intro context
  split
  case h_1 known _ =>
    exact (answers.registerEach known.nested).bind fun _ => (Act.within_pure known).unless
  case h_2 =>
    have named : (label arrived).Within related :=
      fun state => answers.keep state _ (retains_label state arrived) rfl
    apply named.unless.bind
    intro labelled
    have kept : (modify (keepForm labelled compressed) : Act PortableContext Unit).Within related :=
      fun state => answers.keep state _ (retains_keepForm state labelled compressed) rfl
    apply kept.unless.bind
    intro _
    exact answers.registerUnder labelled.key labelled

/-- What holds of the registrations and of the forms that are kept holds of every request. -/
theorem Answers.step (answers : Answers excused related) (request : Request) :
    request.step.WithinUnless excused related := by
  cases request with
  | register definition => exact answers.registerUnder definition.key definition
  | registerFor classId definition =>
    exact Act.within_get.unless.bind fun context =>
      answers.registerUnder ⟨classId, context.version⟩ definition
  | importForm compressed => exact answers.importCompressed compressed
  | describe p =>
    exact withinUnless_describe
      (fun definition => answers.registerUnder definition.key definition) p

end Answers

theorem Request.retains (request : Request) (context : PortableContext) :
    context.Retains (request.perform context) :=
  Act.withinUnless_iff.mp (answers_retains.step request) context

theorem Request.tidies (request : Request) (context : PortableContext) :
    Act.Preserves Tidy context (request.perform context) := by
  cases request with
  | register definition => exact tidies_register definition context
  | registerFor classId definition => exact tidies_registerUnder _ definition context
  | importForm compressed => exact tidies_importCompressed compressed context
  | describe p => exact respects_tidy.describe p context

/-- A request that comes back leaves nothing half-registered, unless something cannot be written. -/
theorem Request.completes_of_returns (returns : request.Returns context)
    (writable : (request.perform context).Writable) :
    context.Completes (request.perform context) := by
  rcases answers_completesWritable.step request context with
    ⟨failure, endless, failed⟩ | reached
  · exact absurd endless (returns failure failed)
  · exact reached.2 writable

/-- What every request keeps to, requests keep to one after the other. -/
theorem answering_within {related : PortableContext → PortableContext → Prop} [Std.Refl related]
    [Trans related related related]
    (each : ∀ (request : Request) context, related context (request.perform context))
    (requests : List Request) (context : PortableContext) :
    related context (answering requests context) := by
  apply List.foldlRecOn (motive := related context)
  · exact Std.Refl.refl context
  · intro before reached request _
    exact Trans.trans reached (each request before)

theorem retains_answering (requests : List Request) (context : PortableContext) :
    context.Retains (answering requests context) :=
  answering_within Request.retains requests context

theorem tidy_answering (tidy : context.Tidy) (requests : List Request) :
    (answering requests context).Tidy :=
  answering_within Request.tidies requests context tidy

/-- A definition whose form is at hand can be written. -/
theorem fits_of_formOf {form : Bytes} (tidy : context.Tidy)
    (found : context.forms.formOf definition = some form) : definition.Fits := by
  rcases isForm_of_formOf tidy.genuine found with ⟨layout, written, -⟩ | ⟨arrived, come, same⟩
  · exact (ClassDefinition.exists_layout_iff definition).mp ⟨layout, written⟩
  · exact (ClassDefinition.fits_of_ofCompressed come).of_same (ClassDefinition.same_symm same)

/-- If all that is registered can be written, all of it is registered in full. -/
def Full (context : PortableContext) : Prop :=
  context.Writable → ∀ key definition, context.lookup key = some definition →
    context.Carries definition

theorem Request.full (request : Request) (context : PortableContext)
    (returns : request.Returns context) : Act.Preserves Full context (request.perform context) := by
  intro full writable key definition found
  have completes := Request.completes_of_returns returns writable
  rcases completes.2 key definition found with earlier | carries
  · have known := full (writable.of_retains completes.1) key definition earlier
    exact known.of_retains completes.1
  · exact carries

theorem Throughout.full (returned : Throughout Request.Returns requests context)
    (fresh : context.Fresh) : (answering requests context).Full := by
  apply returned.invariant fun context request returns => request.full context returns
  intro _ key definition found
  rw [fresh.lookup key] at found
  cases found

/-- After any requests that came back, every registered definition has its compressed form at hand
    and something registered for each definition nested in it, exactly if all that is registered can
    be compressed.  No further request, whatever becomes of it, replaces or removes a registered
    definition or gives one another compressed form. -/
theorem registered_in_full (fresh : context.Fresh)
    (returned : Throughout Request.Returns requests context) :
    let now := answering requests context
    ((∀ key definition, now.lookup key = some definition →
        (∃ form, now.forms.formOf definition = some form) ∧
          ∀ inner ∈ definition.nested, ∃ known, now.lookup inner.key = some known) ↔
      ∀ key definition, now.lookup key = some definition →
        ∃ form, definition.compressedLayout = .ok form) ∧
    ∀ request : Request,
      (∀ key definition, now.lookup key = some definition →
        (request.perform now).lookup key = some definition) ∧
      ∀ definition form, now.forms.formOf definition = some form →
        (request.perform now).forms.formOf definition = some form := by
  intro now
  refine ⟨⟨fun full key definition found => ?_, fun packs => ?_⟩, fun request => ?_⟩
  · obtain ⟨form, kept⟩ := (full key definition found).1
    have fits := fits_of_formOf (tidy_answering fresh.tidy requests) kept
    exact (ClassDefinition.exists_compressedLayout_iff definition).mpr fits
  · have writable : now.Writable := fun key definition found =>
      (ClassDefinition.exists_compressedLayout_iff definition).mp (packs key definition found)
    intro key definition found
    have carries := returned.full fresh writable key definition found
    exact ⟨carries.form, carries.nested⟩
  · have retains := request.retains now
    exact ⟨retains.lookup, retains.formOf⟩

/-- An object whose description fails after the object in its field was described, and a form that
    is none. -/
theorem registered_in_full_of_failed :
    let leaf : Portable := .scripted 2 none [.data "n" (.scalar .int (1 : Int32))] none []
    let node : Portable := .scripted 1 none [.portable "leaf" (some leaf), .fail "no"] none []
    let context : PortableContext := .start 0 (.ofSettings 16 2 1)
    let requests := [Request.describe node, .importForm []]
    let now := answering requests context
    Throughout Request.Returns requests context ∧
      now.definitions.map Prod.fst = [⟨2, 0⟩] ∧
      ∀ key definition, now.lookup key = some definition →
        ∃ form, now.forms.formOf definition = some form := by
  intro leaf node context requests now
  have fresh : context.Fresh := ⟨rfl, tidy_start 0 (Pool.clean_ofSettings 16 2 1)⟩
  have refused : Act.failure? (describe node context).1 =
      some (.reported .serialization "no") := by decide +kernel
  have garbled : Act.failure? (importCompressed [] ((Request.describe node).perform context)).1 =
      some .decompressionFailed := rfl
  have returned : Throughout Request.Returns requests context :=
    ⟨Request.returns_of_failure refused id, Request.returns_of_failure garbled id, trivial⟩
  have packed : ∀ entry ∈ now.definitions, entry.2.compressedLayout.toOption.isSome = true := by
    decide +kernel
  obtain ⟨full, -⟩ := registered_in_full fresh returned
  refine ⟨returned, by decide +kernel, fun key definition found => ?_⟩
  refine (full.mpr ?_ key definition found).1
  intro key definition found
  exact Act.exists_ok_of_isSome (packed _ (Keyed.mem_of_lookup found))

end PortableContext

end ObjectWire
