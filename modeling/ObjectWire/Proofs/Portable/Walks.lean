import ObjectWire.Proofs.Portable.Endless
import ObjectWire.Proofs.Portable.Exchange

/-!
# Walks through registered definitions

Registering a definition walks through what is nested in it, and on from whatever is registered
there.  A walk from a registered definition may go through everything it leads to, or stop at
something that cannot be written, or go on for ever because it comes back to where it has been.  The
first two take only so many levels, and allowing more levels makes no difference to them; the third
uses up any number of levels.
-/

namespace ObjectWire

namespace PortableContext

variable {context now : PortableContext} {key : ClassKey} {definition settled : ClassDefinition}
  {levels height : Nat}

/-! Registering, taken apart. -/

/-- What registering does for each nested definition. -/
def visit (levels : Nat) (inner : ClassDefinition) : Act PortableContext Unit := do
  let _ ← registerWithin levels inner.key inner

theorem visit_ok {inner : ClassDefinition} :
    visit levels inner context = (.ok (), now) ↔
      ∃ known, registerWithin levels inner.key inner context = (.ok known, now) := by
  constructor
  · intro ran
    obtain ⟨known, reached, ran, done⟩ := Act.bind_ok ran
    cases done
    exact ⟨known, ran⟩
  · rintro ⟨known, ran⟩
    exact Act.bind_of_ok ran

theorem visit_error {inner : ClassDefinition} {failure : Failure} :
    visit levels inner context = (.error failure, now) ↔
      registerWithin levels inner.key inner context = (.error failure, now) := by
  constructor
  · intro ran
    rcases Act.bind_error ran with failed | ⟨_, _, -, done⟩
    · exact failed
    · cases done
  · exact Act.bind_of_error

/-- Once the settled definition has its form, what is nested in it is visited. -/
theorem registerWithin_of_formed {filed : PortableContext} {form : Bytes}
    (settles : settle key definition context = (.ok settled, filed))
    (formed : binaryOf settled filed = (.ok form, now)) :
    registerWithin (levels + 1) key definition context =
      (do Act.forEach (visit levels) settled.nested; pure settled : Act _ _) now := by
  rw [registerWithin, Act.bind_of_ok settles, Act.bind_of_ok formed]
  rfl

theorem registerWithin_of_unformed {filed : PortableContext} {failure : Failure}
    (settles : settle key definition context = (.ok settled, filed))
    (failed : binaryOf settled filed = (.error failure, now)) :
    registerWithin (levels + 1) key definition context = (.error failure, now) := by
  rw [registerWithin, Act.bind_of_ok settles, Act.bind_of_error failed]

/-- Settling a key always answers. -/
theorem exists_settle (key : ClassKey) (definition : ClassDefinition)
    (context : PortableContext) :
    ∃ settled filed, settle key definition context = (.ok settled, filed) := by
  cases found : context.lookup key with
  | some known => exact ⟨known, context, settle_of_known found⟩
  | none => exact ⟨_, _, settle_of_new found⟩

/-- Where every form at hand is genuine, a definition gets its form if and only if it can be
    written. -/
theorem binaryOf_of_tidy (tidy : context.Tidy) (definition : ClassDefinition) :
    ∃ now, now.definitions = context.definitions ∧ now.Tidy ∧ context.Retains now ∧
      ((definition.Fits ∧ ∃ form, binaryOf definition context = (.ok form, now)) ∨
        (¬ definition.Fits ∧ ∃ failure, ¬ failure.Endless ∧
          binaryOf definition context = (.error failure, now))) := by
  refine ⟨(binaryOf definition context).2, definitions_binaryOf definition context,
    tidies_binaryOf definition context tidy, retains_binaryOf definition context, ?_⟩
  rcases binaryOf_cases definition context with
    ⟨form, found, ran⟩ | ⟨failure, buffer, -, unwritten, ran⟩ | ⟨layout, buffer, -, written, ran⟩
  · exact .inl ⟨fits_of_formOf tidy found, form, by rw [ran]⟩
  · refine .inr ⟨fun fits => ?_, failure, fun endless => ?_, by rw [ran]⟩
    · obtain ⟨layout, written⟩ := (ClassDefinition.exists_layout_iff definition).mpr fits
      rw [unwritten] at written
      cases written
    · exact ClassDefinition.not_goesOn_layout definition ⟨failure, unwritten, endless⟩
  · have fits := (ClassDefinition.exists_layout_iff definition).mp ⟨layout, written⟩
    exact .inl ⟨fits, Zlib.compress layout, by rw [ran]⟩

/-- Visits that came to an end come to the same end if the walks they consist of do. -/
theorem visits_extend {more : Nat} {items : List ClassDefinition}
    (walks : ∀ inner before known after,
      registerWithin levels inner.key inner before = (.ok known, after) →
        registerWithin (levels + more) inner.key inner before = (.ok known, after))
    (visited : Act.forEach (visit levels) items context = (.ok (), now)) :
    Act.forEach (visit (levels + more)) items context = (.ok (), now) := by
  apply Act.forEach_of_ok visited
  intro inner _ before after stepped
  obtain ⟨known, walked⟩ := visit_ok.mp stepped
  exact visit_ok.mpr ⟨known, walks inner before known after walked⟩

/-- A walk that came to an end takes no more levels than it was allowed. -/
theorem registerWithin_of_ended {outcome : Except Failure ClassDefinition}
    (ran : registerWithin levels key definition context = (outcome, now))
    (ended : ¬ GoesOn outcome) (more : Nat) :
    registerWithin (levels + more) key definition context = (outcome, now) := by
  induction levels generalizing key definition context outcome now with
  | zero =>
    cases ran
    exact absurd ⟨_, rfl, trivial⟩ ended
  | succ levels ih =>
    rw [Nat.succ_add]
    obtain ⟨settled, filed, settles⟩ := exists_settle key definition context
    rcases formed : binaryOf settled filed with ⟨failure | form, next⟩
    · rw [registerWithin_of_unformed settles formed] at ran ⊢
      exact ran
    · rw [registerWithin_of_formed settles formed] at ran ⊢
      have walks : ∀ inner before known after,
          registerWithin levels inner.key inner before = (.ok known, after) →
            registerWithin (levels + more) inner.key inner before = (.ok known, after) :=
        fun _ _ known _ walked => ih walked (not_goesOn_ok known)
      rcases inside : Act.forEach (visit levels) settled.nested next with ⟨failure | _, last⟩
      · obtain ⟨front, inner, back, middle, parts, passed, failed⟩ := Act.forEach_error inside
        rw [Act.bind_of_error inside] at ran
        cases ran
        have again := ih (visit_error.mp failed) fun goesOn =>
          ended (goesOn_error_iff.mpr (goesOn_error_iff.mp goesOn))
        rw [parts]
        exact Act.bind_of_error
          (Act.forEach_of_error (visits_extend walks passed) (visit_error.mpr again) back)
      · rw [Act.bind_of_ok inside] at ran
        rw [Act.bind_of_ok (visits_extend walks inside)]
        exact ran

/-- Visits that came to an end come to the same end where more levels are allowed. -/
theorem visits_of_ok {items : List ClassDefinition}
    (visited : Act.forEach (visit levels) items context = (.ok (), now)) (more : Nat) :
    Act.forEach (visit (levels + more)) items context = (.ok (), now) :=
  visits_extend (fun _ _ known _ walked => registerWithin_of_ended walked (not_goesOn_ok known) more)
    visited

/-- Every walk from the definition registered under a key stops within a number of steps at
    something that cannot be written, and walks from all that lies in front of that end. -/
def Halts (context : PortableContext) : (height : Nat) → ClassKey → Prop
  | 0, _ => False
  | height + 1, key => ∃ known, context.lookup key = some known ∧
      (¬ known.Fits ∨ ∃ front inner back, known.nested = front ++ inner :: back ∧
        (∀ sibling ∈ front, context.Rests height sibling.key) ∧ Halts context height inner.key)

theorem Halts.mono {higher : Nat} (halts : context.Halts height key) (le : height ≤ higher) :
    context.Halts higher key := by
  induction higher generalizing height key with
  | zero =>
    rw [Nat.le_zero.mp le] at halts
    exact halts.elim
  | succ higher ih =>
    cases height with
    | zero => exact halts.elim
    | succ height =>
      have le := Nat.le_of_succ_le_succ le
      obtain ⟨known, found, unfit | ⟨front, inner, back, parts, rests, halts⟩⟩ := halts
      · exact ⟨known, found, .inl unfit⟩
      · exact ⟨known, found, .inr ⟨front, inner, back, parts,
          fun sibling member => (rests sibling member).mono le, ih halts le⟩⟩

theorem Halts.of_kept (halts : context.Halts height key)
    (kept : ∀ key known, context.lookup key = some known → now.lookup key = some known) :
    now.Halts height key := by
  induction height generalizing key with
  | zero => exact halts.elim
  | succ height ih =>
    obtain ⟨known, found, unfit | ⟨front, inner, back, parts, rests, halts⟩⟩ := halts
    · exact ⟨known, kept key known found, .inl unfit⟩
    · exact ⟨known, kept key known found, .inr ⟨front, inner, back, parts,
        fun sibling member => (rests sibling member).of_kept kept, ih halts⟩⟩

theorem tidies_visits (levels : Nat) (items : List ClassDefinition) :
    (Act.forEach (visit levels) items).Within (Act.Preserves Tidy) :=
  Act.within_forEach fun inner _ =>
    (tidies_registerWithin levels inner.key inner).bind fun _ => Act.within_pure ()

/-- Where walks end, registering ends as well if it is allowed the levels, and registers nothing
    new. -/
theorem ends_registerWithin_of_rests (rests : context.Rests height key) :
    Act.Ends (registerWithin levels key definition) context
      (fun _ now => now.definitions = context.definitions)
      fun failure _ => failure.Endless ∧ levels < height := by
  by_cases goesOn : GoesOn (registerWithin levels key definition context).1
  · obtain ⟨failure, failed, endless⟩ := goesOn
    refine Act.ends_of_error (Prod.ext failed rfl) ⟨endless, Nat.lt_of_not_le fun room => ?_⟩
    obtain ⟨settled, now, ran, -⟩ := @gives_registerWithin_of_rests _ definition _ _ _ rests room
    rw [ran] at failed
    cases failed
  · have room : height ≤ levels + height := Nat.le_add_left height levels
    obtain ⟨settled, now, ran, same⟩ := @gives_registerWithin_of_rests _ definition _ _ _ rests room
    rw [registerWithin_of_ended rfl goesOn height] at ran
    exact Act.ends_of_ok ran same

/-- Visits to what walks end in register nothing new. -/
theorem ends_visits_of_rests {items : List ClassDefinition}
    (rests : ∀ inner ∈ items, context.Rests height inner.key) :
    Act.Ends (Act.forEach (visit levels) items) context
      (fun _ last => last.definitions = context.definitions)
      fun failure _ => failure.Endless ∧ levels < height := by
  let kept (state : PortableContext) : Prop := state.definitions = context.definitions
  have start : kept context := rfl
  apply Act.ends_forEach_kept start
  intro inner member state still
  apply (ends_registerWithin_of_rests ((rests inner member).of_definitions still)).bind
  intro _ last same
  exact Act.ends_of_ok rfl (same.trans still)

/-- Where walks stop at something that cannot be written, registering fails, and registers nothing
    new. -/
theorem ends_registerWithin_of_halts (tidy : context.Tidy) (halts : context.Halts height key) :
    Act.Ends (registerWithin levels key definition) context (fun _ _ => False)
      fun failure now => ¬ failure.Endless ∧ now.definitions = context.definitions ∨
        failure.Endless ∧ levels < height := by
  induction levels generalizing height key definition context with
  | zero =>
    cases height with
    | zero => exact halts.elim
    | succ height => exact Act.ends_of_error rfl (.inr ⟨trivial, Nat.succ_pos height⟩)
  | succ levels ih =>
    cases height with
    | zero => exact halts.elim
    | succ height =>
      obtain ⟨known, found, reason⟩ := halts
      obtain ⟨next, same, nextTidy, -, ⟨fits, form, formed⟩ | ⟨unfit, failure, ended, failed⟩⟩ :=
        binaryOf_of_tidy tidy known
      · obtain ⟨front, inner, back, parts, rests, halts⟩ :=
          reason.resolve_left fun unfit => unfit fits
        unfold Act.Ends
        rw [registerWithin_of_formed (settle_of_known found) formed, parts]
        have passes := @ends_visits_of_rests next levels height front fun sibling member =>
          (rests sibling member).of_definitions same
        have stays := tidies_visits levels front next nextTidy
        rcases passed : Act.forEach (visit levels) front next with ⟨failure | _, middle⟩
        · obtain ⟨endless, low⟩ := passes.of_error passed
          rw [Act.forEach_append]
          exact Act.ends_of_error (Act.bind_of_error (Act.bind_of_error passed))
            (.inr ⟨endless, Nat.succ_lt_succ low⟩)
        · rw [passed] at stays
          have still := (passes.of_ok passed).trans same
          have stops := @ih middle inner.key inner height stays
            (halts.of_kept fun key known found => (lookup_of_definitions still key).trans found)
          rcases walked : registerWithin levels inner.key inner middle with ⟨failure | known, last⟩
          · have reason := stops.of_error walked
            have stopped := Act.forEach_of_error passed (visit_error.mpr walked) back
            refine Act.ends_of_error (Act.bind_of_error stopped) ?_
            exact reason.imp (fun ⟨ended, unchanged⟩ => ⟨ended, unchanged.trans still⟩)
              fun ⟨endless, low⟩ => ⟨endless, Nat.succ_lt_succ low⟩
          · exact (stops.of_ok walked).elim
      · exact Act.ends_of_error (registerWithin_of_unformed (settle_of_known found) failed)
          (.inl ⟨ended, same⟩)

/-- A walk from the definition registered under the first key comes to the second key: all in front
    of it can be walked through. -/
def Leads (context : PortableContext) (key next : ClassKey) : Prop :=
  ∃ known front inner back, context.lookup key = some known ∧ known.Fits ∧
    known.nested = front ++ inner :: back ∧ inner.key = next ∧
    ∃ height, ∀ sibling ∈ front, context.Rests height sibling.key

theorem Leads.of_kept {next : ClassKey} (leads : context.Leads key next)
    (kept : ∀ key known, context.lookup key = some known → now.lookup key = some known) :
    now.Leads key next := by
  obtain ⟨known, front, inner, back, found, fits, parts, same, height, rests⟩ := leads
  exact ⟨known, front, inner, back, kept key known found, fits, parts, same, height,
    fun sibling member => (rests sibling member).of_kept kept⟩

/-- Where walks lead on and on, registering uses up any number of levels. -/
theorem goesOn_of_leads {trail : ClassKey → Prop}
    (onwards : ∀ key, trail key → ∃ next, trail next ∧ context.Leads key next)
    (begun : trail key) (levels : Nat) (definition : ClassDefinition) :
    GoesOn (registerWithin levels key definition context).1 := by
  induction levels generalizing context key definition with
  | zero => exact ⟨_, rfl, trivial⟩
  | succ levels ih =>
    obtain ⟨_, further, known, front, inner, back, found, fits, parts, rfl, height, rests⟩ :=
      onwards key begun
    obtain ⟨form, next, formed, same⟩ := gives_binaryOf fits context
    rw [registerWithin_of_formed (settle_of_known found) formed, parts]
    have passes := @ends_visits_of_rests next levels height front fun sibling member =>
      (rests sibling member).of_definitions same
    rcases passed : Act.forEach (visit levels) front next with ⟨failure | _, middle⟩
    · rw [Act.forEach_append, Act.bind_of_error (Act.bind_of_error passed)]
      exact ⟨failure, rfl, (passes.of_error passed).1⟩
    · have still := (passes.of_ok passed).trans same
      have kept : ∀ key known, context.lookup key = some known →
          middle.lookup key = some known :=
        fun key known found => (lookup_of_definitions still key).trans found
      have goesOn := @ih middle inner.key (fun key reached =>
        (onwards key reached).imp fun _ ⟨there, leads⟩ => ⟨there, leads.of_kept kept⟩) further inner
      rcases walked : registerWithin levels inner.key inner middle with ⟨outcome, last⟩
      rw [walked] at goesOn
      obtain ⟨failure, rfl, endless⟩ := goesOn
      rw [Act.bind_of_error (Act.forEach_of_error passed (visit_error.mpr walked) back)]
      exact ⟨failure, rfl, endless⟩

end PortableContext

end ObjectWire
