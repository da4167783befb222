import ObjectWire.Proofs.Portable.Consensus
import ObjectWire.Proofs.Portable.Description
import ObjectWire.Proofs.Portable.Requests

/-!
# Whether nested definitions are the registered ones

Whoever comes first decides what a class is at a version, and what comes later is not compared with
it.  So a definition may nest another definition of a class than the one that is registered, and it
does so for good.  This happens exactly when a definition is brought in that contradicts what is
registered, or itself; describing objects never makes it happen.
-/

namespace ObjectWire

namespace ClassDefinition

variable {definition root stem : ClassDefinition}

theorem FoundIn.of_same (found : definition.FoundIn root) (same : root.same stem = true) :
    definition.FoundIn stem := by
  obtain ⟨part, within, matched⟩ := found
  obtain ⟨inner, inside, equal⟩ := partOf_of_same within same
  exact ⟨inner, inside, same_trans matched equal⟩

theorem Coherent.of_same (coherent : root.Coherent) (same : root.same stem = true) :
    stem.Coherent := by
  intro part other within inside key
  have found : part.FoundIn root := partOf_of_same within (same_symm same)
  have known : other.FoundIn root := partOf_of_same inside (same_symm same)
  exact coherent.same_of_key found known key

end ClassDefinition

namespace PortableContext

variable {context now : PortableContext} {definition other settled : ClassDefinition}
  {request : Request} {requests : List Request}

/-- The definition contradicts neither itself nor what is registered. -/
structure Suits (context : PortableContext) (definition : ClassDefinition) : Prop where
  coherent : definition.Coherent
  admits : context.Admits (·.FoundIn definition)

/-- Where nothing is registered for its class and version, the definition suits the context. -/
def Welcomes (context : PortableContext) (definition : ClassDefinition) : Prop :=
  context.lookup definition.key = none → context.Suits definition

theorem Suits.of_same (suits : context.Suits definition) (same : definition.same other = true) :
    context.Suits other := by
  refine ⟨suits.coherent.of_same same, fun key known registered inner found => ?_⟩
  exact suits.admits key known registered inner (found.of_same (ClassDefinition.same_symm same))

/-- A disagreement is for good: what is registered for a nested definition stays. -/
theorem selfContained_of_retains (selfContained : now.SelfContained)
    (retains : context.Retains now)
    (nested : ∀ key definition, context.lookup key = some definition →
      ∀ inner ∈ definition.nested, ∃ known, context.lookup inner.key = some known) :
    context.SelfContained := by
  intro key definition found inner member
  obtain ⟨known, registered⟩ := nested key definition found inner member
  obtain ⟨held, there, same⟩ :=
    selfContained key definition (retains.lookup key definition found) inner member
  rw [retains.lookup inner.key known registered] at there
  cases there
  exact ⟨known, registered, same⟩

/-- What a self-contained context has suits all contexts it comes from. -/
theorem suits_of_selfContained (selfContained : now.SelfContained) (retains : context.Retains now)
    (has : now.Has definition) : context.Suits definition := by
  refine ⟨has.coherent selfContained, ?_⟩
  rintro key known registered inner ⟨part, within, same⟩ rfl
  obtain ⟨held, found, equal⟩ := has.partOf selfContained within
  rw [← ClassDefinition.key_eq_of_same same, retains.lookup inner.key known registered] at found
  cases found
  exact ClassDefinition.same_trans equal (ClassDefinition.same_symm same)

/-- Gaining definitions of a consensus with all that is inside them brings no contradiction. -/
theorem SelfContained.of_gains {among : ClassDefinition → Prop}
    (selfContained : context.SelfContained) (gains : Gains among context now)
    (parts : ∀ definition, among definition → ∀ inner ∈ definition.nested, now.Has inner) :
    now.SelfContained := by
  intro key definition found inner member
  rcases gains.gained key definition found with before | ⟨new, -⟩
  · exact (selfContained key definition before inner member).of_gains gains
  · exact parts definition new inner member

/-- Registering a definition that suits the context brings no contradiction. -/
theorem selfContained_register (selfContained : context.SelfContained)
    (suits : context.Suits definition) (fits : definition.Fits)
    (ran : register definition context = (.ok settled, now)) : now.SelfContained := by
  have consensus := suits.coherent.consensus fits
  have found : definition.FoundIn definition :=
    ⟨definition, .whole definition, ClassDefinition.same_refl definition⟩
  obtain ⟨answer, last, registers, gains, -, parts⟩ :=
    gives_register consensus suits.admits found
  rw [ran] at registers
  cases registers
  refine selfContained.of_gains gains fun inside among inner member => ?_
  obtain ⟨part, within, same⟩ := among.of_nested member
  exact (parts part within).of_same (ClassDefinition.same_symm same)

/-- Registering where something is registered brings no contradiction either. -/
theorem selfContained_register_known (selfContained : context.SelfContained)
    (sound : context.Sound) (registered : context.lookup definition.key = some other) :
    (register definition context).2.SelfContained := by
  have filed := sound.filed _ _ registered
  have walked : register definition context = registerWithin
      (context.definitions.length + definition.count + 1) other.key other context := by
    rw [filed]
    exact registerWithin_of_known _ registered
  rw [walked]
  have fills := fills_registerWithin (context.definitions.length + definition.count + 1) sound
    (sound.wellFormed _ _ registered)
    fun selfContained inner member => selfContained _ other registered inner member
  exact fills.1.2 selfContained

/-- A context in which all is well but for what nested definitions say. -/
structure Orderly (context : PortableContext) : Prop where
  sound : context.Sound
  tidy : context.Tidy
  carries : ∀ key definition, context.lookup key = some definition → context.Carries definition

/-- A successful registration leaves a context without contradictions exactly if there were none and
    the definition suits the context or is not needed. -/
theorem register_selfContained_iff (orderly : context.Orderly) (after : now.Orderly)
    (wellFormed : definition.WellFormed)
    (ran : register definition context = (.ok settled, now)) :
    now.SelfContained ↔ context.SelfContained ∧ context.Welcomes definition := by
  have registered : now.lookup definition.key = some settled :=
    (meets_register orderly.sound wellFormed).2 settled now ran
  have retains : context.Retains now := by
    have kept := (Request.register definition).retains context
    rwa [Request.perform, Request.step, ran] at kept
  constructor
  · intro selfContained
    have before := selfContained_of_retains selfContained retains fun key known found =>
      (orderly.carries key known found).nested
    refine ⟨before, fun new => ?_⟩
    have same := same_of_registerWithin new ran
    exact suits_of_selfContained selfContained retains ⟨settled, registered, same⟩
  · rintro ⟨selfContained, welcome⟩
    cases found : context.lookup definition.key with
    | some known =>
      have kept := selfContained_register_known selfContained orderly.sound found
      rwa [ran] at kept
    | none =>
      obtain ⟨form, packed⟩ := (after.carries _ settled registered).form
      have same := same_of_registerWithin found ran
      have fits := (fits_of_formOf after.tidy packed).of_same (ClassDefinition.same_symm same)
      exact selfContained_register selfContained (welcome found) fits ran

/-! The same for every request. -/

/-- The definition that a request brings in, if it brings one. -/
def Request.brings : Request → Option ClassDefinition
  | register definition => some definition
  | registerFor _ definition => some definition
  | importForm compressed => (ClassDefinition.ofCompressed compressed).toOption
  | describe _ => none

/-- What the request brings in is welcome. -/
def Request.Welcome (context : PortableContext) (request : Request) : Prop :=
  ∀ definition, request.brings = some definition → context.Welcomes definition

/-- The request succeeds, and what it registers by hand was built and goes by its own class and
    version. -/
def Request.Accepted (context : PortableContext) (request : Request) : Prop :=
  (∃ settled, (request.step context).1 = .ok settled) ∧
    match request with
    | .register definition => definition.Built
    | .registerFor .. => False
    | .importForm _ | .describe _ => True

theorem Request.completes_of_accepted (accepted : request.Accepted context) :
    context.Completes (request.perform context) := by
  obtain ⟨⟨settled, succeeded⟩, -⟩ := accepted
  rcases answers_completes.step request context with ⟨failure, -, failed⟩ | completes
  · rw [succeeded] at failed
    cases failed
  · exact completes

theorem Request.sound_of_accepted (accepted : request.Accepted context) (sound : context.Sound) :
    (request.perform context).Sound := by
  cases request with
  | register definition =>
    exact (meets_register sound accepted.2.wellFormed).1.sound sound
  | registerFor classId definition => exact accepted.2.elim
  | importForm compressed => exact (meets_importCompressed sound compressed).1.sound sound
  | describe p => exact (meets_describe p context sound).1.1.sound sound

theorem Request.orderly_of_accepted (accepted : request.Accepted context)
    (orderly : context.Orderly) : (request.perform context).Orderly := by
  have completes := Request.completes_of_accepted accepted
  refine ⟨Request.sound_of_accepted accepted orderly.sound, request.tidies context orderly.tidy, ?_⟩
  intro key definition found
  rcases completes.2 key definition found with before | carries
  · exact (orderly.carries key definition before).of_retains completes.1
  · exact carries

/-- An import of something new is the registration of what arrived, in a context that has the same
    definitions; one of something known brings no contradiction. -/
theorem importCompressed_selfContained_iff {compressed : Bytes} {arrived : ClassDefinition}
    (orderly : context.Orderly) (after : now.Orderly)
    (come : ClassDefinition.ofCompressed compressed = .ok arrived)
    (ran : importCompressed compressed context = (.ok settled, now)) :
    now.SelfContained ↔ context.SelfContained ∧ context.Welcomes arrived := by
  have wellFormed := wellFormed_of_ofCompressed come
  cases found : context.lookup arrived.key with
  | some known =>
    have retains := (Request.importForm compressed).retains context
    rw [Request.perform, Request.step, ran] at retains
    rw [importCompressed_of_known come found] at ran
    obtain ⟨_, last, visited, done⟩ := Act.bind_ok ran
    cases done
    have fills := (fills_registerEach orderly.sound found).1
    rw [visited] at fills
    constructor
    · intro selfContained
      have before := selfContained_of_retains selfContained retains fun key known found =>
        (orderly.carries key known found).nested
      refine ⟨before, fun new => ?_⟩
      rw [found] at new
      cases new
    · exact fun both => fills.2 both.1
  | none =>
    rw [importCompressed_of_new come found] at ran
    have same := ClassDefinition.same_symm (label_same context.forms arrived)
    have prepared : (keepForm (context.forms.label arrived).1 compressed
        { context with forms := (context.forms.label arrived).2 }).Orderly := by
      have sound := orderly.sound
      have named : Tidy { context with forms := (context.forms.label arrived).2 } :=
        ⟨orderly.tidy.genuine, orderly.tidy.clean⟩
      refine ⟨⟨sound.filed, sound.wellFormed, sound.clean⟩, named.keep (.inr ⟨arrived, come, same⟩),
        fun key known registered => ?_⟩
      exact (orderly.carries key known registered).of_retains
        ((retains_label context arrived).trans (retains_keepForm _ _ compressed))
    rw [register_selfContained_iff prepared after (wellFormed.of_same same) ran]
    refine and_congr Iff.rfl ⟨fun welcome _ => ?_, fun welcome _ => ?_⟩
    · have new := found
      rw [ClassDefinition.key_eq_of_same same] at new
      have suits := welcome new
      exact Suits.of_same ⟨suits.coherent, suits.admits⟩ (ClassDefinition.same_symm same)
    · have suits := (welcome found).of_same same
      exact ⟨suits.coherent, suits.admits⟩

/-- A successful request leaves a context without contradictions exactly if there were none and it
    is welcome. -/
theorem Request.selfContained_iff (accepted : request.Accepted context)
    (orderly : context.Orderly) :
    (request.perform context).SelfContained ↔
      context.SelfContained ∧ request.Welcome context := by
  have after := Request.orderly_of_accepted accepted orderly
  obtain ⟨⟨settled, succeeded⟩, own⟩ := accepted
  have ran : request.step context = (.ok settled, request.perform context) :=
    Prod.ext succeeded rfl
  cases request with
  | register definition =>
    rw [register_selfContained_iff orderly after own.wellFormed ran]
    simp [Welcome, brings]
  | registerFor classId definition => exact own.elim
  | importForm compressed =>
    cases come : ClassDefinition.ofCompressed compressed with
    | error failure =>
      rw [step, importCompressed, come] at ran
      cases ran
    | ok arrived =>
      rw [importCompressed_selfContained_iff orderly after come ran]
      simp [Welcome, brings, come, Except.toOption]
  | describe p =>
    have fills := (meets_describe p context orderly.sound).1
    have nested : ∀ key definition, context.lookup key = some definition →
        ∀ inner ∈ definition.nested, ∃ known, context.lookup inner.key = some known :=
      fun key definition found => (orderly.carries key definition found).nested
    constructor
    · intro selfContained
      have before := selfContained_of_retains selfContained (Request.retains _ context) nested
      exact ⟨before, fun definition none => by cases none⟩
    · rintro ⟨selfContained, -⟩
      exact fills.2 selfContained

/-- Along a run of successful requests, contradictions arise exactly where a request is not
    welcome. -/
theorem Throughout.selfContained_iff (accepted : Throughout Request.Accepted requests context)
    (orderly : context.Orderly) :
    (answering requests context).SelfContained ↔
      context.SelfContained ∧ Throughout Request.Welcome requests context := by
  induction requests generalizing context with
  | nil => exact ⟨fun selfContained => ⟨selfContained, trivial⟩, And.left⟩
  | cons request requests ih =>
    obtain ⟨first, rest⟩ := accepted
    have next := Request.orderly_of_accepted first orderly
    have step := Request.selfContained_iff first orderly
    constructor
    · intro selfContained
      obtain ⟨between, welcome⟩ := (ih rest next).mp selfContained
      obtain ⟨before, own⟩ := step.mp between
      exact ⟨before, own, welcome⟩
    · rintro ⟨before, own, welcome⟩
      exact (ih rest next).mpr ⟨step.mpr ⟨before, own⟩, welcome⟩

theorem Fresh.orderly (fresh : context.Fresh) : context.Orderly := by
  refine ⟨⟨fun key known found => ?_, fun key known found => ?_, fresh.tidy.clean⟩, fresh.tidy,
    fun key known found => ?_⟩
  all_goals
    rw [fresh.lookup key] at found
    cases found

/-- Where definitions are registered, imported and derived from objects, and all of it succeeds,
    whatever a registered definition nests at any depth is registered as it is nested there, exactly
    if no definition was brought in, for a class and version that had none, that contradicted itself
    or what was registered by then. -/
theorem nested_as_registered_iff (fresh : context.Fresh)
    (accepted : Throughout Request.Accepted requests context) :
    let now := answering requests context
    (∀ key definition, now.lookup key = some definition →
      ∀ part : ClassDefinition, part.PartOf definition →
        ∃ known, now.lookup part.key = some known ∧ known.same part = true) ↔
    Throughout Request.Welcome requests context := by
  intro now
  have start : context.SelfContained := by
    intro key definition found
    rw [fresh.lookup key] at found
    cases found
  have orderly : now.Orderly := accepted.invariant
    (fun _ _ accepted orderly => Request.orderly_of_accepted accepted orderly) fresh.orderly
  have iff := accepted.selfContained_iff fresh.orderly
  constructor
  · intro agree
    refine (iff.mp fun key definition found inner member => ?_).2
    exact agree key definition found inner (.inside member (.whole inner))
  · intro welcome key definition found part within
    exact (has_of_lookup orderly.sound found).partOf (iff.mpr ⟨start, welcome⟩) within

/-- A class and one that nests it, registered one after the other. -/
theorem nested_as_registered_iff_of_two :
    let leaf : ClassDefinition := ⟨⟨2, 0⟩, [⟨"n", .scalar .int, 0, .none⟩], [], none⟩
    let node : ClassDefinition := ⟨⟨1, 0⟩, [⟨"leaf", .portable, 0, ⟨2, 0⟩⟩], [leaf], none⟩
    let context : PortableContext := .start 0 (.ofSettings 16 2 1)
    let requests := [Request.register leaf, .register node]
    let now := answering requests context
    Throughout Request.Accepted requests context ∧
      ∀ key definition, now.lookup key = some definition →
        ∀ part : ClassDefinition, part.PartOf definition →
          ∃ known, now.lookup part.key = some known ∧ known.same part = true := by
  intro leaf node context requests now
  have leaf_built : leaf.Built :=
    .build (.addField (.start ⟨2, 0⟩) (rfl : Draft.addField "n" (.scalar .int) _ = _)) rfl
  have node_built : node.Built := .build (.addPortable (.start ⟨1, 0⟩) leaf_built rfl) rfl
  have fresh : context.Fresh := ⟨rfl, tidy_start 0 (Pool.clean_ofSettings 16 2 1)⟩
  have first : (register leaf context).1.toOption.isSome = true := by decide +kernel
  have second : (register node (register leaf context).2).1.toOption.isSome = true := by
    decide +kernel
  have accepted : Throughout Request.Accepted requests context :=
    ⟨⟨Act.exists_ok_of_isSome first, leaf_built⟩,
      ⟨Act.exists_ok_of_isSome second, node_built⟩, trivial⟩
  have leaves : ∀ part : ClassDefinition, part.PartOf leaf → part = leaf := by
    intro part within
    cases within with
    | whole => rfl
    | inside member _ => cases member
  have parts : ∀ part : ClassDefinition, part.PartOf node → part = node ∨ part = leaf := by
    intro part within
    cases within with
    | whole => exact .inl rfl
    | inside member within =>
      rw [List.mem_singleton.mp member] at within
      exact .inr (leaves part within)
  have registered : ∀ known, (register leaf context).2.lookup ⟨2, 0⟩ = some known →
      known.same leaf = true := by
    have all : ((register leaf context).2.lookup ⟨2, 0⟩).all (·.same leaf) = true := by
      decide +kernel
    intro known found
    rw [found] at all
    exact all
  have unregistered : (register leaf context).2.lookup ⟨1, 0⟩ = none := by
    have none : ((register leaf context).2.lookup ⟨1, 0⟩).isNone = true := by decide +kernel
    exact Option.isNone_iff_eq_none.mp none
  have welcome : Throughout Request.Welcome requests context := by
    refine ⟨?_, ?_, trivial⟩
    · rintro _ ⟨rfl⟩ -
      refine ⟨fun part other within inside _ => ?_, fun key known found => ?_⟩
      · rw [leaves part within, leaves other inside]
        exact ClassDefinition.same_refl leaf
      · cases found
    · rintro _ ⟨rfl⟩ -
      refine ⟨fun part other within inside key => ?_, ?_⟩
      · rcases parts part within with rfl | rfl <;> rcases parts other inside with rfl | rfl
        · exact ClassDefinition.same_refl node
        · exact absurd key (by decide)
        · exact absurd key (by decide)
        · exact ClassDefinition.same_refl leaf
      · rintro key known found inner ⟨part, within, same⟩ rfl
        rw [ClassDefinition.key_eq_of_same same] at found
        rcases parts part within with rfl | rfl
        · exact absurd (found.symm.trans unregistered) (by simp)
        · exact ClassDefinition.same_trans (registered known found) (ClassDefinition.same_symm same)
  exact ⟨accepted, (nested_as_registered_iff fresh accepted).mpr welcome⟩

/-- A class that is registered with one field, and then a class that nests it with another field:
    both are registered, and the nested definition is not the registered one. -/
theorem nested_differs_from_registered :
    let leaf : ClassDefinition := ⟨⟨2, 0⟩, [⟨"n", .scalar .int, 0, .none⟩], [], none⟩
    let other : ClassDefinition := ⟨⟨2, 0⟩, [⟨"m", .scalar .long, 0, .none⟩], [], none⟩
    let node : ClassDefinition := ⟨⟨1, 0⟩, [⟨"leaf", .portable, 0, ⟨2, 0⟩⟩], [other], none⟩
    let context : PortableContext := .start 0 (.ofSettings 16 2 1)
    let requests := [Request.register leaf, .register node]
    let now := answering requests context
    Throughout Request.Accepted requests context ∧
      ∃ definition part known, now.lookup ⟨1, 0⟩ = some definition ∧
        part ∈ definition.nested ∧ now.lookup part.key = some known ∧
        known.same part = false := by
  intro leaf other node context requests now
  have leaf_built : leaf.Built :=
    .build (.addField (.start ⟨2, 0⟩) (rfl : Draft.addField "n" (.scalar .int) _ = _)) rfl
  have other_built : other.Built :=
    .build (.addField (.start ⟨2, 0⟩) (rfl : Draft.addField "m" (.scalar .long) _ = _)) rfl
  have node_built : node.Built := .build (.addPortable (.start ⟨1, 0⟩) other_built rfl) rfl
  have first : (register leaf context).1.toOption.isSome = true := by decide +kernel
  have second : (register node (register leaf context).2).1.toOption.isSome = true := by
    decide +kernel
  have accepted : Throughout Request.Accepted requests context :=
    ⟨⟨Act.exists_ok_of_isSome first, leaf_built⟩,
      ⟨Act.exists_ok_of_isSome second, node_built⟩, trivial⟩
  have differs : (now.lookup ⟨1, 0⟩).any (fun definition => definition.nested.any fun part =>
      (now.lookup part.key).any fun known => !known.same part) = true := by decide +kernel
  obtain ⟨definition, found, differs⟩ := (Option.any_eq_true _ _).mp differs
  obtain ⟨part, member, differs⟩ := List.any_eq_true.mp differs
  obtain ⟨known, registered, differs⟩ := (Option.any_eq_true _ _).mp differs
  exact ⟨accepted, definition, part, known, found, member, registered, by simpa using differs⟩

end PortableContext

end ObjectWire
