import ObjectWire.Proofs.Portable.Fares

/-!
# Registering comes to an end

As long as every request came back, walks from all that is registered come to an end, within as many
steps as there are definitions.  A walk through a new definition could only go on for ever by coming
back to a class that it has begun with.  Where no definition contains another one for its own class
and version, the one class that this can happen to is the one that the definition is registered for,
if it is not the one that the definition describes.

An import for a class and version that are registered walks through what is nested in the registered
definition.  There is something new in it only if its own registration failed because it cannot be
written, and then nobody has looked at what is nested in it yet.
-/

namespace ObjectWire

namespace PortableContext

variable {context now : PortableContext} {key : ClassKey} {definition : ClassDefinition}
  {items : List ClassDefinition} {wanted : ClassKey → Prop} {levels height : Nat}

/-! Requests that came back leave nothing that a walk could go on in for ever. -/

/-- Walks from all that is registered come to an end, and the forms at hand are genuine. -/
def Quiet (context : PortableContext) : Prop := context.Tidy ∧ context.Trodden (fun _ => False) 0

theorem Quiet.underway (quiet : context.Quiet) (key : ClassKey) :
    context.Underway (fun _ => False) 0 key :=
  ⟨quiet.1, quiet.2, fun _ => False.elim⟩

/-- All stays quiet while what arrived is labelled and its form is kept. -/
theorem Quiet.keepForm {compressed : Bytes} {arrived : ClassDefinition} (quiet : context.Quiet)
    (come : ClassDefinition.ofCompressed compressed = .ok arrived) :
    (keepForm (context.forms.label arrived).1 compressed
      { context with forms := (context.forms.label arrived).2 }).Quiet := by
  have isForm : IsForm compressed (context.forms.label arrived).1 :=
    .inr ⟨arrived, come, ClassDefinition.same_symm (label_same context.forms arrived)⟩
  have named : Tidy { context with forms := (context.forms.label arrived).2 } :=
    ⟨quiet.1.genuine, quiet.1.clean⟩
  exact ⟨named.keep isForm, quiet.2.of_definitions rfl⟩

theorem Fresh.quiet (fresh : context.Fresh) : context.Quiet := by
  refine ⟨fresh.tidy, Nat.zero_le _, fun key known found => ?_⟩
  rw [fresh.lookup key] at found
  cases found

theorem quiets_registerWithin (levels : Nat) (key : ClassKey) (definition : ClassDefinition) :
    (registerWithin levels key definition).WithinUnless Failure.Endless (Act.Preserves Quiet) := by
  intro context
  by_cases quiet : context.Quiet
  · have tidy := tidies_registerWithin levels key definition context quiet.1
    have ends := @fares context key definition _ _ levels (quiet.underway key)
    rcases ran : registerWithin levels key definition context with ⟨failure | settled, now⟩
    · rw [ran] at tidy
      rcases ends.of_error ran with ⟨-, passed, -⟩ | ⟨endless, -⟩
      · exact .inr fun _ => ⟨tidy, passed.trodden⟩
      · exact .inl ⟨failure, endless, rfl⟩
    · rw [ran] at tidy
      exact .inr fun _ => ⟨tidy, (ends.of_ok ran).1.trodden⟩
  · exact .inr fun held => absurd held quiet

theorem quiets_registerUnder (key : ClassKey) (definition : ClassDefinition) :
    (registerUnder key definition).WithinUnless Failure.Endless (Act.Preserves Quiet) :=
  fun context => quiets_registerWithin _ key definition context

theorem quiets_registerEach (items : List ClassDefinition) :
    (registerEach items).WithinUnless Failure.Endless (Act.Preserves Quiet) := by
  apply Act.withinUnless_forEach
  intro item _
  exact (quiets_registerUnder item.key item).bind fun _ => (Act.within_pure ()).unless

theorem quiets_importCompressed (compressed : Bytes) :
    (importCompressed compressed).WithinUnless Failure.Endless (Act.Preserves Quiet) := by
  intro context
  cases come : ClassDefinition.ofCompressed compressed with
  | error failure =>
    rw [importCompressed_of_unreadable come]
    exact .inr id
  | ok arrived =>
    cases found : context.lookup arrived.key with
    | some known =>
      rw [importCompressed_of_known come found]
      have visits := (quiets_registerEach known.nested).bind fun _ =>
        (Act.within_pure known).unless
      exact visits context
    | none =>
      rw [importCompressed_of_new come found]
      exact (quiets_registerUnder _ _ _).imp id fun preserves quiet =>
        preserves (quiet.keepForm come)

theorem Request.quiets (request : Request) :
    request.step.WithinUnless Failure.Endless (Act.Preserves Quiet) := by
  cases request with
  | register definition => exact quiets_registerUnder definition.key definition
  | registerFor classId definition =>
    exact Act.within_get.unless.bind fun context =>
      quiets_registerUnder ⟨classId, context.version⟩ definition
  | importForm compressed => exact quiets_importCompressed compressed
  | describe p =>
    exact withinUnless_describe (fun definition => quiets_registerUnder definition.key definition) p

/-- Requests that came back keep a context quiet. -/
theorem Throughout.quiet {requests : List Request}
    (returned : Throughout Request.Returns requests context) (quiet : context.Quiet) :
    (answering requests context).Quiet := by
  refine returned.invariant (fun context request returns => ?_) quiet
  rcases request.quiets context with ⟨failure, endless, failed⟩ | preserves
  · exact absurd endless (returns failure failed)
  · exact preserves

/-- What uses up so many levels and any more uses up fewer, too. -/
theorem goesOn_of_more
    (further : ∀ more, GoesOn (registerWithin (levels + more) key definition context).1)
    (fewer : Nat) : GoesOn (registerWithin fewer key definition context).1 := by
  by_cases goesOn : GoesOn (registerWithin fewer key definition context).1
  · exact goesOn
  · have longer := further fewer
    rwa [Nat.add_comm, registerWithin_of_ended rfl goesOn levels] at longer

/-- Where all is quiet, only the registration of something new goes on and on, and only if it comes
    back to the very class that it is for, or to another one that it has begun with; then it uses up
    any number of levels. -/
theorem Quiet.recurs_of_goesOn (quiet : context.Quiet)
    (goesOn : GoesOn (registerUnder key definition context).1) :
    context.lookup key = none ∧ (context.Nests (· = key) definition ∨ ¬ definition.Acyclic) ∧
      ∀ levels, GoesOn (registerWithin levels key definition context).1 := by
  have ends := @fares context key definition _ _
    (context.definitions.length + definition.count + 1) (quiet.underway key)
  obtain ⟨failure, failed, endless⟩ := goesOn
  have ran : registerUnder key definition context =
      (.error failure, (registerUnder key definition context).2) := Prod.ext failed rfl
  rcases ends.of_error ran with ⟨ended, -⟩ | ⟨-, bound⟩
  · exact absurd endless ended
  · obtain ⟨recurs, further⟩ := bound (by omega)
    rcases recurs with none | ⟨new, nests | cyclic⟩
    · exact none.elim
    · rcases nests.cases_or with none | nests
      · obtain ⟨-, -, -, -, none⟩ := none.partOf
        exact none.elim
      · exact ⟨new, .inl nests, goesOn_of_more further⟩
    · exact ⟨new, .inr cyclic, goesOn_of_more further⟩

/-- Where all is quiet, a registration comes back, unless a definition for the very class that it is
    for, which is new, is nested in the definition; then it uses up any number of levels. -/
theorem Quiet.returns_or (quiet : context.Quiet) (acyclic : definition.Acyclic) (key : ClassKey) :
    ¬ GoesOn (registerUnder key definition context).1 ∨
      context.lookup key = none ∧ context.Nests (· = key) definition ∧
        ∀ levels, GoesOn (registerWithin levels key definition context).1 := by
  by_cases goesOn : GoesOn (registerUnder key definition context).1
  · obtain ⟨new, recurs, further⟩ := quiet.recurs_of_goesOn goesOn
    exact .inr ⟨new, recurs.resolve_right fun cyclic => cyclic acyclic, further⟩
  · exact .inl goesOn

/-- Where what was filed agrees with a definition, a walk that leads into it leads on to what is
    nested there, however deep. -/
theorem rests_of_nests {part : ClassDefinition} (nests : context.Nests wanted part)
    (gained : ∀ other known, now.lookup other = some known → context.lookup other = none →
      ¬ wanted other → ∀ part : ClassDefinition, part.FoundIn definition → part.key = other →
        known.same part = true)
    (inside : part.FoundIn definition) (rests : ∀ inner ∈ part.nested, now.Rests height inner.key) :
    ∃ lower ≤ height, ∃ key, wanted key ∧ now.Rests lower key := by
  induction nests generalizing height with
  | here member meets => exact ⟨height, Nat.le_refl _, _, meets, rests _ member⟩
  | @deeper part inner member new _ ih =>
    by_cases meets : wanted inner.key
    · exact ⟨height, Nat.le_refl _, _, meets, rests inner member⟩
    · have own := rests inner member
      cases height with
      | zero => exact own.elim
      | succ height =>
        obtain ⟨known, found, -, nested⟩ := own
        have within := inside.of_nested member
        have same := gained _ known found new meets inner within rfl
        obtain ⟨lower, le, others⟩ := ih within fun deeper among => by
          obtain ⟨held, there, equal⟩ :=
            ClassDefinition.mem_nested_of_same (ClassDefinition.same_symm same) among
          rw [← ClassDefinition.key_eq_of_same equal]
          exact nested held there
        exact ⟨lower, Nat.le_succ_of_le le, others⟩

/-- If all can be written and the definition describes every class in one way only, such a
    registration does not come back. -/
theorem Quiet.goesOn_of_nests (quiet : context.Quiet) (writable : context.Writable)
    (coherent : definition.Coherent) (fits : definition.Fits) (new : context.lookup key = none)
    (nests : context.Nests (· = key) definition) :
    GoesOn (registerUnder key definition context).1 := by
  rcases ran : registerUnder key definition context with ⟨failure | settled, now⟩
  · refine goesOn_error_iff.mpr ?_
    have abandons := (ends_registerWithin _ key definition context).of_error ran
    have still : (registerUnder key definition context).2.Writable :=
      writable_registerWithin _ _ fits writable
    rw [ran] at still
    exact abandons.2.resolve_right fun unwritable => unwritable still
  · exfalso
    have same := same_of_registerWithin new ran
    have registered := ((ends_registerWithin _ key definition context).of_ok ran).2.1
    obtain ⟨passed, rests⟩ := (fares _ (quiet.underway key)).of_ok ran
    have gained : ∀ other known, now.lookup other = some known → context.lookup other = none →
        ¬ other = key → ∀ part : ClassDefinition, part.FoundIn definition → part.key = other →
          known.same part = true := by
      intro other known found absent unlike part inside named
      rcases passed.gained other known found with before | ⟨own, -⟩ | ⟨own, within⟩
      · rw [absent] at before
        cases before
      · exact absurd own unlike
      · exact coherent.same_of_key within inside (own.trans named.symm)
    -- the walk from the key comes back to it with fewer steps left each time
    have never : ∀ height, ¬ now.Rests height key := by
      intro height
      induction height using Nat.strongRecOn with
      | ind height ih =>
        intro rests
        cases height with
        | zero => exact rests
        | succ height =>
          obtain ⟨known, found, -, nested⟩ := rests
          rw [registered] at found
          cases found
          obtain ⟨lower, le, _, rfl, again⟩ := rests_of_nests nests gained
            ⟨definition, .whole definition, ClassDefinition.same_refl definition⟩
            fun inner member => by
              obtain ⟨held, there, equal⟩ := ClassDefinition.mem_nested_of_same
                (ClassDefinition.same_symm same) member
              rw [← ClassDefinition.key_eq_of_same equal]
              exact nested held there
          exact ih lower (Nat.lt_succ_of_le le) again
    exact never _ rests

theorem Nests.not_acyclic (nests : context.Nests (· = definition.key) definition) :
    ¬ definition.Acyclic := by
  intro acyclic
  obtain ⟨inner, member, part, inside, own⟩ := nests.partOf
  exact acyclic definition (.whole definition) inner member part inside own

theorem Quiet.returns_register (quiet : context.Quiet) (acyclic : definition.Acyclic) :
    (Request.register definition).Returns context := by
  rw [Request.returns_iff]
  exact (quiet.returns_or acyclic definition.key).resolve_right fun recurs =>
    recurs.2.1.not_acyclic acyclic

/-! Importing what is known. -/

theorem ends_register_of_halts (tidy : context.Tidy) (halts : context.Halts height definition.key)
    (low : height ≤ context.definitions.length) :
    Act.Ends (register definition) context (fun _ _ => False)
      fun failure now => ¬ failure.Endless ∧ now.definitions = context.definitions := by
  refine (ends_registerWithin_of_halts tidy halts).mono (fun _ _ => id) ?_
  rintro failure now (stopped | ⟨-, few⟩)
  · exact stopped
  · omega

/-- Definitions that walks end in are registered already. -/
theorem ends_registerEach_of_rests (rests : ∀ item ∈ items, context.Rests height item.key)
    (low : height ≤ context.definitions.length) :
    Act.Ends (registerEach items) context
      (fun _ now => now.definitions = context.definitions) fun _ _ => False := by
  let kept (state : PortableContext) : Prop := state.definitions = context.definitions
  have start : kept context := rfl
  apply Act.ends_forEach_kept start
  intro item member state still
  have walked : Act.Ends (register item) state
      (fun _ now => now.definitions = state.definitions) fun _ _ => False := by
    apply (ends_registerWithin_of_rests ((rests item member).of_definitions still)).mono
    · exact fun _ _ same => same
    · rintro - - ⟨-, few⟩
      rw [still] at few
      omega
  apply walked.bind
  intro _ now same
  exact Act.ends_of_ok rfl (same.trans still)

/-- Registering what is nested in something registered that can be written comes to an end, and
    registers nothing new. -/
theorem Quiet.ends_registerEach {known : ClassDefinition} (quiet : context.Quiet)
    (found : context.lookup key = some known) (fits : known.Fits) :
    Act.Ends (registerEach known.nested) context
      (fun _ now => now.definitions = context.definitions)
      fun failure now => ¬ failure.Endless ∧ now.definitions = context.definitions := by
  have bounded := (quiet.2.walks key known found).resolve_left id
  generalize all : context.definitions.length - 0 = height at bounded
  cases height with
  | zero => exact (bounded.elim id id).elim
  | succ height =>
    have low : height ≤ context.definitions.length := by omega
    rcases bounded with ⟨held, there, -, rests⟩ | ⟨held, there, stops⟩
    · cases found.symm.trans there
      exact (ends_registerEach_of_rests rests low).mono (fun _ _ => id) fun _ _ => False.elim
    · cases found.symm.trans there
      obtain ⟨front, inner, back, parts, rests, halts⟩ :=
        stops.resolve_left fun unfit => unfit fits
      have passes := ends_registerEach_of_rests rests low
      have tidies := within_registerEach tidies_register front context quiet.1
      rw [parts]
      rcases passed : registerEach front context with ⟨failure | _, middle⟩
      · exact (passes.of_error passed).elim
      · rw [passed] at tidies
        have same := passes.of_ok passed
        have halts := halts.of_kept fun key known found =>
          (lookup_of_definitions same key).trans found
        have fails := ends_register_of_halts tidies halts (by rw [same]; exact low)
        rcases stopped : register inner middle with ⟨failure | settled, now⟩
        · obtain ⟨ended, still⟩ := fails.of_error stopped
          exact Act.ends_of_error (Act.forEach_of_error passed (Act.bind_of_error stopped) back)
            ⟨ended, still.trans same⟩
        · exact (fails.of_ok stopped).elim

/-- Registrations one after the other that do not come back: the first ones answer, and the next one
    uses up any number of levels. -/
def Strays (context : PortableContext) (items : List ClassDefinition) : Prop :=
  ∃ front item back now, items = front ++ item :: back ∧
    registerEach front context = (.ok (), now) ∧
    ∀ levels, GoesOn (registerWithin levels item.key item now).1

theorem Strays.goesOn (strays : context.Strays items) : GoesOn (registerEach items context).1 := by
  obtain ⟨front, item, back, now, rfl, passed, further⟩ := strays
  obtain ⟨failure, failed, endless⟩ := further (now.definitions.length + item.count + 1)
  have ran : register item now = (.error failure, (register item now).2) := Prod.ext failed rfl
  have stopped := Act.forEach_of_error passed (Act.bind_of_error ran) back
  exact ⟨failure, congrArg Prod.fst stopped, endless⟩

theorem Quiet.strays_of_goesOn (quiet : context.Quiet)
    (goesOn : GoesOn (registerEach items context).1) :
    context.Strays items ∧ ∃ item ∈ items, ¬ item.Acyclic := by
  obtain ⟨failure, failed, endless⟩ := goesOn
  have ran : registerEach items context = (.error failure, (registerEach items context).2) :=
    Prod.ext failed rfl
  obtain ⟨front, item, back, now, rfl, passed, stopped⟩ := Act.forEach_error ran
  have reached : now.Quiet := (quiets_registerEach front).of_ok passed quiet
  have stuck : GoesOn (register item now).1 := by
    rcases Act.bind_error stopped with unsettled | ⟨_, _, -, none⟩
    · exact ⟨failure, congrArg Prod.fst unsettled, endless⟩
    · cases none
  obtain ⟨-, recurs, further⟩ := reached.recurs_of_goesOn stuck
  have cyclic : ¬ item.Acyclic := recurs.elim Nests.not_acyclic id
  exact ⟨⟨front, item, back, now, rfl, passed, further⟩, item, by simp, cyclic⟩

/-- Importing a definition that is new comes back. -/
theorem Quiet.returns_import_of_new {compressed : Bytes} {arrived : ClassDefinition}
    (quiet : context.Quiet) (acyclic : arrived.Acyclic)
    (come : ClassDefinition.ofCompressed compressed = .ok arrived)
    (new : context.lookup arrived.key = none) :
    ¬ GoesOn (importCompressed compressed context).1 := by
  have same := label_same context.forms arrived
  have returns := (quiet.keepForm come).returns_register
    (acyclic.of_same (ClassDefinition.same_symm same))
  rw [importCompressed_of_new come new]
  exact Request.returns_iff.mp returns

/-- Importing a definition that is known comes back if registering what is nested in it does. -/
theorem goesOn_import_iff_of_known {compressed : Bytes} {arrived known : ClassDefinition}
    (come : ClassDefinition.ofCompressed compressed = .ok arrived)
    (found : context.lookup arrived.key = some known) :
    GoesOn (importCompressed compressed context).1 ↔
      GoesOn (registerEach known.nested context).1 := by
  rw [importCompressed_of_known come found]
  rcases ran : registerEach known.nested context with ⟨failure | _, now⟩
  · rw [Act.bind_of_error ran, goesOn_error_iff, goesOn_error_iff]
  · rw [Act.bind_of_ok ran]
    exact iff_of_false (not_goesOn_ok known) (not_goesOn_ok ())

/-- Where all is quiet, an import comes back, unless it is for a class and version of which a
    definition is registered that cannot be written and contains one that contains itself. -/
theorem Quiet.returns_importForm_or {compressed : Bytes} (quiet : context.Quiet)
    (acyclic : ∀ arrived, ClassDefinition.ofCompressed compressed = .ok arrived →
      arrived.Acyclic) :
    (Request.importForm compressed).Returns context ∨
      ∃ arrived known, ClassDefinition.ofCompressed compressed = .ok arrived ∧
        context.lookup arrived.key = some known ∧ ¬ known.Fits ∧ ¬ known.Acyclic := by
  rw [Request.returns_iff]
  show ¬ GoesOn (importCompressed compressed context).1 ∨ _
  cases come : ClassDefinition.ofCompressed compressed with
  | error failure =>
    rw [importCompressed_of_unreadable come, goesOn_error_iff]
    exact .inl fun endless =>
      ClassDefinition.not_goesOn_ofCompressed compressed ⟨failure, come, endless⟩
  | ok arrived =>
    cases found : context.lookup arrived.key with
    | none => exact .inl (quiet.returns_import_of_new (acyclic arrived come) come found)
    | some known =>
      rw [goesOn_import_iff_of_known come found]
      by_cases goesOn : GoesOn (registerEach known.nested context).1
      · refine .inr ⟨arrived, known, rfl, found, fun fits => ?_, fun acyclic => ?_⟩
        · have ends := quiet.ends_registerEach found fits
          obtain ⟨failure, failed, endless⟩ := goesOn
          exact (ends.of_error (Prod.ext failed rfl)).1 endless
        · obtain ⟨-, inner, member, cyclic⟩ := quiet.strays_of_goesOn goesOn
          exact cyclic (acyclic.nested member)
      · exact .inl goesOn

/-- An import for a class and version that are registered comes back unless the registrations of
    what is nested in the registered definition stray. -/
theorem Quiet.returns_importForm_iff {compressed : Bytes} {arrived known : ClassDefinition}
    (quiet : context.Quiet) (come : ClassDefinition.ofCompressed compressed = .ok arrived)
    (found : context.lookup arrived.key = some known) :
    (Request.importForm compressed).Returns context ↔ ¬ context.Strays known.nested := by
  rw [Request.returns_iff]
  refine not_congr ((goesOn_import_iff_of_known come found).trans ?_)
  exact ⟨fun goesOn => (quiet.strays_of_goesOn goesOn).1, Strays.goesOn⟩

/-- After any requests that came back, registering a definition in which none contains another one
    for its own class and version comes back.  So does importing one, unless what is registered for
    its class and version cannot be written and, unlike the one that arrived, contains a definition
    that contains another one for its own class and version; then it comes back if and only if the
    registrations of what is nested in the registered one do.  Registering one for a class at the
    context's version comes back as well, unless nothing is registered for that class and a
    definition for it is nested in the one that is given, inside definitions for new classes only.
    Then, if all can be written and no class is described in two ways, it does not come back, and
    whenever it does not, it uses up any number of levels. -/
theorem registering_terminates {start : PortableContext} {requests : List Request}
    (fresh : start.Fresh) (returned : Throughout Request.Returns requests start) :
    let context := answering requests start
    (∀ definition : ClassDefinition, definition.Acyclic →
      (Request.register definition).Returns context) ∧
    (∀ compressed, (∀ arrived, ClassDefinition.ofCompressed compressed = .ok arrived →
      arrived.Acyclic) →
      ((Request.importForm compressed).Returns context ∨
        ∃ arrived known, ClassDefinition.ofCompressed compressed = .ok arrived ∧
          context.lookup arrived.key = some known ∧ ¬ known.Fits ∧ ¬ known.Acyclic) ∧
      ∀ arrived known, ClassDefinition.ofCompressed compressed = .ok arrived →
        context.lookup arrived.key = some known →
        ((Request.importForm compressed).Returns context ↔ ¬ context.Strays known.nested)) ∧
    ∀ classId (definition : ClassDefinition), definition.Acyclic →
      let key : ClassKey := ⟨classId, context.version⟩
      ((Request.registerFor classId definition).Returns context ∨
        context.lookup key = none ∧ context.Nests (· = key) definition ∧
          ∀ levels, GoesOn (registerWithin levels key definition context).1) ∧
      (definition.Coherent → definition.Fits → context.Writable → context.lookup key = none →
        context.Nests (· = key) definition →
        ¬ (Request.registerFor classId definition).Returns context) := by
  intro context
  have quiet : context.Quiet := returned.quiet fresh.quiet
  refine ⟨fun definition => quiet.returns_register, fun compressed acyclic =>
    ⟨quiet.returns_importForm_or acyclic, fun arrived known => quiet.returns_importForm_iff⟩,
    fun classId definition acyclic => ⟨?_, ?_⟩⟩
  · rw [Request.returns_iff]
    exact quiet.returns_or acyclic ⟨classId, context.version⟩
  · intro coherent fits writable new nests
    rw [Request.returns_iff, Classical.not_not]
    exact quiet.goesOn_of_nests writable coherent fits new nests

/-- After a definition was registered for another class than its own, a chain of three classes is
    registered, and is registered for a class that is not in it. -/
theorem registering_terminates_of_chain :
    let start : PortableContext := .start 0 (.ofSettings 16 2 1)
    let requests := [Request.registerFor 7 (ClassDefinition.chain 0)]
    let definition := ClassDefinition.chain 2
    let context := answering requests start
    Throughout Request.Returns requests start ∧ definition.Acyclic ∧
      (Request.register definition).Returns context ∧
      (Request.registerFor 9 definition).Returns context := by
  intro start requests definition context
  have fresh : start.Fresh := ⟨rfl, tidy_start 0 (Pool.clean_ofSettings 16 2 1)⟩
  have answers : ((registerFor 7 (ClassDefinition.chain 0) start).1.toOption).isSome = true := by
    decide +kernel
  obtain ⟨settled, answered⟩ := Act.exists_ok_of_isSome answers
  have returned : Throughout Request.Returns requests start := by
    refine ⟨Request.returns_iff.mpr ?_, trivial⟩
    show ¬ GoesOn (registerFor 7 (ClassDefinition.chain 0) start).1
    rw [answered]
    exact not_goesOn_ok settled
  have acyclic : definition.Acyclic := ClassDefinition.chain_acyclic (by decide)
  obtain ⟨registers, -, others⟩ := @registering_terminates start requests fresh returned
  refine ⟨returned, acyclic, registers definition acyclic,
    (others 9 definition acyclic).1.resolve_right ?_⟩
  rintro ⟨-, nests, -⟩
  obtain ⟨inner, member, part, inside, own⟩ := nests.partOf
  obtain ⟨lower, le, rfl⟩ := ClassDefinition.partOf_chain (.inside member inside)
  have cases : lower = 0 ∨ lower = 1 ∨ lower = 2 := by omega
  rcases cases with rfl | rfl | rfl
  all_goals revert own; decide

/-- A chain of two classes that is registered for the second one of them, in a context where nothing
    is registered: the walk comes to the second one, finds the chain there, and so on for ever. -/
theorem registering_for_nested_goes_on :
    let definition := ClassDefinition.chain 1
    let context : PortableContext := .start 0 (.ofSettings 16 2 1)
    definition.Built ∧ definition.Acyclic ∧ (ClassDefinition.chain 0).key = ⟨1, 0⟩ ∧
      ¬ (Request.registerFor 1 definition).Returns context ∧
      ∀ levels, GoesOn (registerWithin levels ⟨1, 0⟩ definition context).1 := by
  intro definition context
  have fresh : context.Fresh := ⟨rfl, tidy_start 0 (Pool.clean_ofSettings 16 2 1)⟩
  have acyclic : definition.Acyclic := ClassDefinition.chain_acyclic (by decide)
  have coherent : definition.Coherent := by
    intro part other within among key
    obtain ⟨first, le, rfl⟩ := ClassDefinition.partOf_chain within
    obtain ⟨second, le', rfl⟩ := ClassDefinition.partOf_chain among
    have cases : first = second ∨ first = 0 ∧ second = 1 ∨ first = 1 ∧ second = 0 := by omega
    rcases cases with rfl | ⟨rfl, rfl⟩ | ⟨rfl, rfl⟩
    · exact ClassDefinition.same_refl _
    all_goals revert key; decide
  have writable : context.Writable := nofun
  have nests : context.Nests (· = ⟨1, 0⟩) definition := .here (List.mem_singleton.mpr rfl) rfl
  have goesOn := fresh.quiet.goesOn_of_nests writable coherent (ClassDefinition.chain_fits 1) rfl
    nests
  obtain ⟨-, -, further⟩ := (fresh.quiet.returns_or acyclic ⟨1, 0⟩).resolve_left
    fun returns => returns goesOn
  refine ⟨ClassDefinition.chain_built 1, acyclic, rfl, ?_, further⟩
  rw [Request.returns_iff, Classical.not_not]
  exact goesOn

end PortableContext

end ObjectWire
