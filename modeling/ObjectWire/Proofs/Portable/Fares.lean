import ObjectWire.Proofs.Portable.Walks

/-!
# How walks through new definitions fare

Registering a new definition files it and walks through what is nested in it.  As long as walks from
all that was registered before come to an end, so do those from what is filed, unless the walk comes
back to a class that it has begun with; then it uses up any number of levels.  What has begun and
not ended yet is pending, and takes one level each.
-/

namespace ObjectWire

theorem ClassDefinition.countAll_append (front back : List ClassDefinition) :
    countAll (front ++ back) = countAll front + countAll back := by
  induction front with
  | nil => simp [countAll]
  | cons first front ih => rw [List.cons_append, countAll, countAll, ih, Nat.add_assoc]

namespace PortableContext

variable {context now later : PortableContext} {key : ClassKey}
  {definition inner settled : ClassDefinition} {pending wanted : ClassKey → Prop}
  {begun levels height : Nat}

/-- A definition for a wanted class is nested in the definition, and every definition on the way
    there is for a class and version that is not registered. -/
inductive Nests (context : PortableContext) (wanted : ClassKey → Prop) : ClassDefinition → Prop
  | here {definition inner : ClassDefinition} (member : inner ∈ definition.nested)
      (meets : wanted inner.key) : Nests context wanted definition
  | deeper {definition inner : ClassDefinition} (member : inner ∈ definition.nested)
      (new : context.lookup inner.key = none) (nests : Nests context wanted inner) :
      Nests context wanted definition

theorem Nests.partOf (nests : context.Nests wanted definition) :
    ∃ inner ∈ definition.nested, ∃ part : ClassDefinition, part.PartOf inner ∧ wanted part.key := by
  induction nests with
  | here member meets => exact ⟨_, member, _, .whole _, meets⟩
  | deeper member _ _ ih =>
    obtain ⟨inner, within, part, inside, meets⟩ := ih
    exact ⟨_, member, part, .inside within inside, meets⟩

theorem Nests.of_same {other : ClassDefinition} (nests : context.Nests wanted definition)
    (same : definition.same other = true) : context.Nests wanted other := by
  induction nests generalizing other with
  | here member meets =>
    obtain ⟨found, among, equal⟩ := ClassDefinition.mem_nested_of_same same member
    rw [← ClassDefinition.key_eq_of_same equal] at meets
    exact .here among meets
  | deeper member new _ ih =>
    obtain ⟨found, among, equal⟩ := ClassDefinition.mem_nested_of_same same member
    rw [← ClassDefinition.key_eq_of_same equal] at new
    exact .deeper among new (ih (ClassDefinition.same_symm equal))

theorem Nests.of_retains (nests : now.Nests wanted definition) (retains : context.Retains now) :
    context.Nests wanted definition := by
  induction nests with
  | here member meets => exact .here member meets
  | deeper member new _ ih => exact .deeper member (retains.new new) ih

theorem Nests.cases_or {other : ClassKey → Prop}
    (nests : context.Nests (fun key => wanted key ∨ other key) definition) :
    context.Nests wanted definition ∨ context.Nests other definition := by
  induction nests with
  | here member meets => exact meets.imp (.here member) (.here member)
  | deeper member new _ ih => exact ih.imp (.deeper member new) (.deeper member new)

/-- What is registered under a key can be walked through within a number of steps, or a walk stops
    at something that cannot be written. -/
def Bounded (context : PortableContext) (height : Nat) (key : ClassKey) : Prop :=
  context.Rests height key ∨ context.Halts height key

theorem Bounded.mono {higher : Nat} (bounded : context.Bounded height key) (le : height ≤ higher) :
    context.Bounded higher key :=
  bounded.imp (fun rests => rests.mono le) fun halts => halts.mono le

theorem Bounded.of_kept (bounded : context.Bounded height key)
    (kept : ∀ key known, context.lookup key = some known → now.lookup key = some known) :
    now.Bounded height key :=
  bounded.imp (fun rests => rests.of_kept kept) fun halts => halts.of_kept kept

/-- Walks from all that is registered come to an end, but for classes that are pending; there are at
    most so many of these. -/
structure Trodden (context : PortableContext) (pending : ClassKey → Prop) (begun : Nat) : Prop where
  room : begun ≤ context.definitions.length
  walks : ∀ key known, context.lookup key = some known →
    pending key ∨ context.Bounded (context.definitions.length - begun) key

theorem Trodden.of_definitions (trodden : context.Trodden pending begun)
    (same : now.definitions = context.definitions) : now.Trodden pending begun := by
  refine ⟨by rw [same]; exact trodden.room, fun key known found => ?_⟩
  rw [lookup_of_definitions same] at found
  rw [same]
  refine (trodden.walks key known found).imp_right fun bounded => bounded.of_kept ?_
  exact fun key known found => (lookup_of_definitions same key).trans found

/-- A walk is about to come to a key: walks from each pending class lead to another one or to this
    key. -/
structure Underway (context : PortableContext) (pending : ClassKey → Prop) (begun : Nat)
    (key : ClassKey) : Prop where
  tidy : context.Tidy
  trodden : context.Trodden pending begun
  trail : ∀ other, pending other → ∃ next, (pending next ∨ next = key) ∧ context.Leads other next

/-- What is registered, and how much of it, after a walk that came to an end. -/
structure Passed (context : PortableContext) (pending : ClassKey → Prop) (begun : Nat)
    (key : ClassKey) (definition : ClassDefinition) (now : PortableContext) : Prop where
  trodden : now.Trodden pending begun
  more : context.definitions.length ≤ now.definitions.length
  few : now.definitions.length ≤ context.definitions.length + definition.count
  gained : ∀ other known, now.lookup other = some known →
    context.lookup other = some known ∨ other = key ∧ known.same definition = true ∨
      known.key = other ∧ known.FoundIn definition

/-- A walk comes back to a pending class, or to its own. -/
def Recurs (context : PortableContext) (pending : ClassKey → Prop) (key : ClassKey)
    (definition : ClassDefinition) : Prop :=
  pending key ∨ context.lookup key = none ∧
    (context.Nests (fun other => pending other ∨ other = key) definition ∨ ¬ definition.Acyclic)

/-- In the middle of a walk: the definition stands under its key, what is done of the definitions
    nested in it can be walked through, and no more was registered than was spent on them. -/
structure Halfway (context : PortableContext) (pending : ClassKey → Prop) (begun : Nat)
    (key : ClassKey) (settled : ClassDefinition) (done : List ClassDefinition) (spent : Nat)
    (now : PortableContext) : Prop where
  retains : context.Retains now
  tidy : now.Tidy
  filed : now.lookup key = some settled
  trodden : now.Trodden (fun other => pending other ∨ other = key) (begun + 1)
  rests : ∀ inner ∈ done, now.Rests (now.definitions.length - (begun + 1)) inner.key
  more : context.definitions.length + 1 ≤ now.definitions.length
  few : now.definitions.length ≤ context.definitions.length + 1 + spent
  gained : ∀ other known, now.lookup other = some known →
    context.lookup other = some known ∨ other = key ∧ known.same settled = true ∨
      known.key = other ∧ known.FoundIn settled

section Halfway

variable {done : List ClassDefinition} {spent : Nat}

/-- A walk begins where its definition was filed. -/
theorem halfway_filed {forms : CompressedForms} (trodden : context.Trodden pending begun)
    (retains : context.Retains now) (tidy : now.Tidy) (new : context.lookup key = none)
    (same : now.definitions = (insert key settled { context with forms := forms }).definitions) :
    Halfway context pending begun key settled [] 0 now := by
  have longer : now.definitions.length = context.definitions.length + 1 := by
    rw [same]
    exact List.length_append
  refine ⟨retains, tidy, ?_, ⟨?_, ?_⟩, nofun, Nat.le_of_eq longer.symm, Nat.le_of_eq longer, ?_⟩
  · rw [lookup_of_definitions same]
    exact lookup_insert new
  · have := trodden.room
    omega
  · intro other known found
    rw [lookup_of_definitions same] at found
    rcases lookup_insert_cases found with before | ⟨rfl, -⟩
    · rw [longer, Nat.add_sub_add_right]
      exact (trodden.walks other known before).imp .inl fun bounded =>
        bounded.of_kept retains.lookup
    · exact .inl (.inr rfl)
  · intro other known found
    rw [lookup_of_definitions same] at found
    rcases lookup_insert_cases found with before | ⟨rfl, rfl⟩
    · exact .inl before
    · exact .inr (.inl ⟨rfl, ClassDefinition.same_refl _⟩)

/-- In the middle of a walk, the next one is about to come to the definition that follows. -/
theorem Halfway.underway {back : List ClassDefinition}
    (halfway : Halfway context pending begun key settled done spent now)
    (underway : context.Underway pending begun key) (fits : settled.Fits)
    (parts : settled.nested = done ++ inner :: back) :
    now.Underway (fun other => pending other ∨ other = key) (begun + 1) inner.key := by
  refine ⟨halfway.tidy, halfway.trodden, fun other either => ?_⟩
  rcases either with waiting | rfl
  · obtain ⟨next, further, leads⟩ := underway.trail other waiting
    exact ⟨next, .inl further, leads.of_kept halfway.retains.lookup⟩
  · exact ⟨inner.key, .inr rfl, settled, done, inner, back, halfway.filed, fits, parts, rfl, _,
      halfway.rests⟩

variable (halfway : Halfway context pending begun key settled done spent now)
include halfway

/-- A walk into one of the nested definitions has come to an end. -/
theorem Halfway.after (member : inner ∈ settled.nested) (retains : now.Retains later)
    (tidy : later.Tidy)
    (passed : Passed now (fun other => pending other ∨ other = key) (begun + 1) inner.key inner
      later) :
    Halfway context pending begun key settled done (spent + inner.count) later := by
  have grows := passed.more
  refine ⟨halfway.retains.trans retains, tidy, retains.lookup _ _ halfway.filed, passed.trodden,
    fun other among => ?_, Nat.le_trans halfway.more grows, ?_, fun other known found => ?_⟩
  · exact ((halfway.rests other among).of_kept retains.lookup).mono (by omega)
  · have few := halfway.few
    have more := passed.few
    omega
  · rcases passed.gained other known found with before | ⟨rfl, same⟩ | ⟨own, part, within, same⟩
    · exact halfway.gained other known before
    · exact .inr (.inr ⟨ClassDefinition.key_eq_of_same same, inner,
        .inside member (.whole inner), same⟩)
    · exact .inr (.inr ⟨own, part, .inside member within, same⟩)

theorem Halfway.snoc (rests : now.Rests (now.definitions.length - (begun + 1)) inner.key) :
    Halfway context pending begun key settled (done ++ [inner]) spent now := by
  refine { halfway with rests := fun other among => ?_ }
  rcases List.mem_append.mp among with earlier | own
  · exact halfway.rests other earlier
  · rw [List.mem_singleton.mp own]
    exact rests

/-- When the walk from its own definition has come to an end, a class is pending no more. -/
theorem Halfway.passed (same : settled.same definition = true)
    (enough : spent + 1 ≤ definition.count)
    (own : now.Bounded (now.definitions.length - begun) key) :
    Passed context pending begun key definition now := by
  have room := halfway.trodden.room
  have more := halfway.more
  have few := halfway.few
  refine ⟨⟨by omega, fun other known found => ?_⟩, by omega, by omega,
    fun other known found => ?_⟩
  · rcases halfway.trodden.walks other known found with (waiting | rfl) | bounded
    · exact .inl waiting
    · exact .inr own
    · exact .inr (bounded.mono (by omega))
  · rcases halfway.gained other known found with before | ⟨rfl, equal⟩ | ⟨own, part, within, equal⟩
    · exact .inl before
    · exact .inr (.inl ⟨rfl, ClassDefinition.same_trans equal same⟩)
    · obtain ⟨found, among, matched⟩ := ClassDefinition.partOf_of_same within same
      exact .inr (.inr ⟨own, found, among, ClassDefinition.same_trans equal matched⟩)

theorem Halfway.left_succ :
    now.definitions.length - begun = now.definitions.length - (begun + 1) + 1 := by
  have room := halfway.trodden.room
  omega

/-- The definition turns out not to be writable: the walk stops where it began. -/
theorem Halfway.unwritten (same : settled.same definition = true) (unfit : ¬ settled.Fits)
    (enough : spent + 1 ≤ definition.count) :
    Passed context pending begun key definition now ∧
      now.Halts (now.definitions.length - begun) key := by
  have own : now.Halts (now.definitions.length - begun) key := by
    rw [halfway.left_succ]
    exact ⟨settled, halfway.filed, .inl unfit⟩
  exact ⟨halfway.passed same enough (.inr own), own⟩

/-- What comes back to a pending class from a nested definition does so from the definition it is
    nested in. -/
theorem Halfway.recurs (new : context.lookup key = none) (same : settled.same definition = true)
    (member : inner ∈ settled.nested)
    (recurs : now.Recurs (fun other => pending other ∨ other = key) inner.key inner) :
    context.Recurs pending key definition := by
  refine .inr ⟨new, ?_⟩
  rcases recurs with meets | ⟨absent, nests | cyclic⟩
  · exact .inl ((Nests.here member meets).of_same same)
  · rcases nests.cases_or with nests | nests
    · have unknown := halfway.retains.new absent
      exact .inl ((Nests.deeper member unknown (nests.of_retains halfway.retains)).of_same same)
    · refine .inr fun acyclic => ?_
      obtain ⟨below, among, part, inside, own⟩ := nests.partOf
      have settledAcyclic := acyclic.of_same (ClassDefinition.same_symm same)
      exact settledAcyclic.nested member inner (.whole inner) below among part inside own
  · exact .inr fun acyclic =>
      cyclic ((acyclic.of_same (ClassDefinition.same_symm same)).nested member)

omit halfway in
/-- All that is nested was walked through: the walk has come to an end. -/
theorem Halfway.complete
    (halfway : Halfway context pending begun key settled settled.nested spent now)
    (same : settled.same definition = true) (fits : settled.Fits)
    (enough : spent + 1 ≤ definition.count) :
    Passed context pending begun key definition now ∧
      now.Rests (now.definitions.length - begun) key := by
  have own : now.Rests (now.definitions.length - begun) key := by
    rw [halfway.left_succ]
    exact ⟨settled, halfway.filed, fits, halfway.rests⟩
  exact ⟨halfway.passed same enough (.inl own), own⟩

end Halfway

/-- Whatever is registered, a walk from it answers, or stops at something that cannot be written, or
    is not allowed enough levels; and if it comes to an end, nothing new is registered. -/
theorem ends_registerWithin_of_bounded (tidy : context.Tidy)
    (bounded : context.Bounded height key) :
    Act.Ends (registerWithin levels key definition) context
      (fun _ now => now.definitions = context.definitions ∧ context.Rests height key)
      fun failure now =>
        ¬ failure.Endless ∧ now.definitions = context.definitions ∧ context.Halts height key ∨
        failure.Endless ∧ levels < height := by
  rcases bounded with rests | halts
  · exact (ends_registerWithin_of_rests rests).mono (fun _ _ same => ⟨same, rests⟩)
      fun _ _ => .inr
  · refine (ends_registerWithin_of_halts tidy halts).mono (fun _ _ => False.elim) fun _ _ reason => ?_
    exact reason.imp (fun ⟨ended, same⟩ => ⟨ended, same, halts⟩) id

/-- A walk answers, and all that it met can be walked through; or it stops at something that cannot
    be written; or it goes on, and then it was not allowed enough levels, or comes back to a class
    that it has begun with and uses up any number of levels. -/
def Fares (context : PortableContext) (pending : ClassKey → Prop) (begun : Nat) (key : ClassKey)
    (definition : ClassDefinition) (levels : Nat) : Prop :=
  Act.Ends (registerWithin levels key definition) context
    (fun _ now => Passed context pending begun key definition now ∧
      now.Rests (now.definitions.length - begun) key)
    fun failure now =>
      ¬ failure.Endless ∧ Passed context pending begun key definition now ∧
          now.Halts (now.definitions.length - begun) key ∨
        failure.Endless ∧
          (context.definitions.length - begun + definition.count ≤ levels →
            context.Recurs pending key definition ∧
            ∀ more, GoesOn (registerWithin (levels + more) key definition context).1)

/-- Where so many levels are allowed, every walk that is under way fares like this. -/
def AllFare (levels : Nat) : Prop :=
  ∀ (context : PortableContext) (pending : ClassKey → Prop) (begun : Nat) (key : ClassKey)
    (definition : ClassDefinition), context.Underway pending begun key →
    context.Fares pending begun key definition levels

/-- What is registered either leads nowhere or is pending itself. -/
theorem fares_of_known {known : ClassDefinition} (underway : context.Underway pending begun key)
    (found : context.lookup key = some known) :
    context.Fares pending begun key definition levels := by
  rcases underway.trodden.walks key known found with waiting | bounded
  · have onwards : ∀ other, pending other → ∃ next, pending next ∧ context.Leads other next := by
      intro other before
      obtain ⟨next, further, leads⟩ := underway.trail other before
      exact ⟨next, further.elim id fun same => same ▸ waiting, leads⟩
    have goesOn := fun levels => goesOn_of_leads onwards waiting levels definition
    obtain ⟨failure, failed, endless⟩ := goesOn levels
    exact Act.ends_of_error (Prod.ext failed rfl)
      (.inr ⟨endless, fun _ => ⟨.inl waiting, fun more => goesOn _⟩⟩)
  · have kept : ∀ now : PortableContext, now.definitions = context.definitions →
        ∀ key known, context.lookup key = some known → now.lookup key = some known :=
      fun now same key known found => (lookup_of_definitions same key).trans found
    have passed : ∀ now : PortableContext, now.definitions = context.definitions →
        Passed context pending begun key definition now := by
      intro now same
      have length : now.definitions.length = context.definitions.length :=
        congrArg List.length same
      refine ⟨underway.trodden.of_definitions same, Nat.le_of_eq length.symm, ?_,
        fun other known found => .inl ?_⟩
      · rw [length]
        exact Nat.le_add_right _ _
      · rwa [lookup_of_definitions same] at found
    refine (ends_registerWithin_of_bounded underway.tidy bounded).mono ?_ ?_
    · rintro - now ⟨same, rests⟩
      exact ⟨passed now same, by rw [same]; exact rests.of_kept (kept now same)⟩
    · rintro failure now (⟨ended, same, halts⟩ | ⟨endless, low⟩)
      · exact .inl ⟨ended, passed now same, by rw [same]; exact halts.of_kept (kept now same)⟩
      · exact .inr ⟨endless, fun room => by omega⟩

section Visiting

variable {done : List ClassDefinition} {spent : Nat} {failure : Failure} {known : ClassDefinition}
  {front back : List ClassDefinition}

/-- A walk into a nested definition that answered takes the walk one step further. -/
theorem Halfway.visited (allFare : AllFare levels) (underway : context.Underway pending begun key)
    (halfway : Halfway context pending begun key settled done spent now) (fits : settled.Fits)
    (parts : settled.nested = done ++ inner :: back)
    (walked : registerWithin levels inner.key inner now = (.ok known, later)) :
    Halfway context pending begun key settled (done ++ [inner]) (spent + inner.count) later := by
  have member : inner ∈ settled.nested := by simp [parts]
  have outcome := allFare now _ _ _ inner (halfway.underway underway fits parts)
  obtain ⟨passed, rests⟩ := outcome.of_ok walked
  have tidy := Act.within_of_ok (tidies_registerWithin levels inner.key inner) walked halfway.tidy
  have retains := Act.within_of_ok (retains_registerWithin levels inner.key inner) walked
  exact (halfway.after member retains tidy passed).snoc rests

/-- Walks into the nested definitions up to some point, all of which answered. -/
theorem halfway_of_visits (allFare : AllFare levels) (underway : context.Underway pending begun key)
    (start : Halfway context pending begun key settled [] 0 now) (fits : settled.Fits)
    (parts : settled.nested = front ++ back)
    (visited : Act.forEach (visit levels) front now = (.ok (), later)) :
    Halfway context pending begun key settled front (ClassDefinition.countAll front) later := by
  let kept (done : List ClassDefinition) (state : PortableContext) : Prop :=
    Halfway context pending begun key settled done (ClassDefinition.countAll done) state
  have begins : kept [] now := start
  refine Act.forEach_ok begins ?_ visited
  intro done inner rest before after among halfway stepped
  obtain ⟨known, walked⟩ := visit_ok.mp stepped
  have splits : settled.nested = done ++ inner :: (rest ++ back) := by
    rw [parts, among, List.append_assoc, List.cons_append]
  have next := halfway.visited allFare underway fits splits walked
  show Halfway _ _ _ _ _ _ (ClassDefinition.countAll (done ++ [inner])) _
  rw [ClassDefinition.countAll_append, ClassDefinition.countAll, ClassDefinition.countAll]
  exact next

/-- A walk into a nested definition that stopped stops the walk. -/
theorem Halfway.stopped (halfway : Halfway context pending begun key settled done spent now)
    (same : settled.same definition = true) (parts : settled.nested = done ++ inner :: back)
    (enough : spent + inner.count + 1 ≤ definition.count)
    (walked : registerWithin levels inner.key inner now = (.error failure, later))
    (passed : Passed now (fun other => pending other ∨ other = key) (begun + 1) inner.key inner
      later)
    (halts : later.Halts (later.definitions.length - (begun + 1)) inner.key) :
    Passed context pending begun key definition later ∧
      later.Halts (later.definitions.length - begun) key := by
  have member : inner ∈ settled.nested := by simp [parts]
  have tidy : later.Tidy := by
    have stays := tidies_registerWithin levels inner.key inner now halfway.tidy
    rwa [walked] at stays
  have retains : now.Retains later := by
    have stays := retains_registerWithin levels inner.key inner now
    rwa [walked] at stays
  have after := halfway.after member retains tidy passed
  have own : later.Halts (later.definitions.length - begun) key := by
    rw [after.left_succ]
    exact ⟨settled, after.filed, .inr ⟨done, inner, back, parts, after.rests, halts⟩⟩
  exact ⟨after.passed same (by omega) (.inr own), own⟩

/-- A walk into a nested definition that goes on and on makes the walk go on and on. -/
theorem goesOn_of_visits {filed next : PortableContext} {form : Bytes}
    (settles : settle key definition context = (.ok settled, filed))
    (formed : binaryOf settled filed = (.ok form, next))
    (parts : settled.nested = front ++ inner :: back)
    (passes : Act.forEach (visit levels) front next = (.ok (), now)) (more : Nat)
    (goesOn : GoesOn (registerWithin (levels + more) inner.key inner now).1) :
    GoesOn (registerWithin (levels + 1 + more) key definition context).1 := by
  obtain ⟨failure, refused, endless⟩ := goesOn
  rcases walked : registerWithin (levels + more) inner.key inner now with ⟨outcome, last⟩
  rw [walked] at refused
  obtain rfl : outcome = .error failure := refused
  rw [show levels + 1 + more = levels + more + 1 by omega, registerWithin_of_formed settles formed,
    parts, Act.bind_of_error
      (Act.forEach_of_error (visits_of_ok passes more) (visit_error.mpr walked) back)]
  exact ⟨failure, rfl, endless⟩

/-- A walk into a nested definition that failed ends the walk in the same way. -/
theorem Halfway.failed {filed next : PortableContext} {form : Bytes} (allFare : AllFare levels)
    (underway : context.Underway pending begun key)
    (halfway : Halfway context pending begun key settled front spent now) (fits : settled.Fits)
    (new : context.lookup key = none) (same : settled.same definition = true)
    (settles : settle key definition context = (.ok settled, filed))
    (formed : binaryOf settled filed = (.ok form, next))
    (parts : settled.nested = front ++ inner :: back)
    (passes : Act.forEach (visit levels) front next = (.ok (), now))
    (enough : spent + inner.count + 1 ≤ definition.count)
    (walked : registerWithin levels inner.key inner now = (.error failure, later)) :
    ¬ failure.Endless ∧ Passed context pending begun key definition later ∧
        later.Halts (later.definitions.length - begun) key ∨
      failure.Endless ∧
        (context.definitions.length - begun + definition.count ≤ levels + 1 →
          context.Recurs pending key definition ∧
          ∀ more, GoesOn (registerWithin (levels + 1 + more) key definition context).1) := by
  have outcome := allFare now _ _ _ inner (halfway.underway underway fits parts)
  rcases outcome.of_error walked with ⟨ended, passed, halts⟩ | ⟨endless, bound⟩
  · exact .inl ⟨ended, halfway.stopped same parts enough walked passed halts⟩
  · refine .inr ⟨endless, fun room => ?_⟩
    have few := halfway.few
    have before := underway.trodden.room
    obtain ⟨recurs, goesOn⟩ := bound (by omega)
    have member : inner ∈ settled.nested := by simp [parts]
    exact ⟨halfway.recurs new same member recurs,
      fun more => goesOn_of_visits settles formed parts passes more (goesOn more)⟩

end Visiting

/-- A new definition is filed, gets its form, and then what is nested in it is visited in turn. -/
theorem AllFare.succ (allFare : AllFare levels) : AllFare (levels + 1) := by
  intro context pending begun key definition underway
  cases found : context.lookup key with
  | some known => exact fares_of_known underway found
  | none =>
    have same := label_same context.forms definition
    have settles := @settle_of_new context key definition found
    have filedTidy := tidies_settle key definition context underway.tidy
    have filedRetains := ((ends_settle key definition context fun _ _ => False).of_ok settles).1
    rw [settles] at filedTidy
    generalize (context.forms.label definition).1 = settled at *
    generalize (context.forms.label definition).2 = forms at *
    have count := ClassDefinition.count_eq_of_same same
    rw [ClassDefinition.count_def settled] at count
    obtain ⟨next, filed, nextTidy, nextRetains, outcome⟩ := binaryOf_of_tidy filedTidy settled
    have start := halfway_filed underway.trodden (filedRetains.trans nextRetains) nextTidy found filed
    rcases outcome with ⟨fits, form, formed⟩ | ⟨unfit, failure, ended, failed⟩
    · unfold Fares Act.Ends
      rw [registerWithin_of_formed settles formed]
      rcases visited : Act.forEach (visit levels) settled.nested next with ⟨failure | _, last⟩
      · obtain ⟨front, inner, back, middle, parts, passes, failed⟩ := Act.forEach_error visited
        have halfway := halfway_of_visits allFare underway start fits parts passes
        have total : ClassDefinition.countAll settled.nested = ClassDefinition.countAll front +
            (inner.count + ClassDefinition.countAll back) := by
          rw [parts, ClassDefinition.countAll_append, ClassDefinition.countAll]
        rw [Act.bind_of_error visited]
        exact halfway.failed allFare underway fits found same settles formed parts passes
          (by omega) (visit_error.mp failed)
      · have halfway := halfway_of_visits allFare underway start fits (List.append_nil _).symm visited
        rw [Act.bind_of_ok visited]
        exact halfway.complete same fits (by omega)
    · exact Act.ends_of_error (registerWithin_of_unformed settles failed)
        (.inl ⟨ended, start.unwritten same unfit (by omega)⟩)

theorem fares (levels : Nat) (underway : context.Underway pending begun key) :
    context.Fares pending begun key definition levels := by
  have all : AllFare levels := by
    induction levels with
    | zero =>
      intro context pending begun key definition _
      refine Act.ends_of_error rfl (.inr ⟨trivial, fun room => ?_⟩)
      rw [ClassDefinition.count_def] at room
      omega
    | succ levels ih => exact ih.succ
  exact all context pending begun key definition underway

end PortableContext

end ObjectWire
