import ObjectWire.Proofs.Portable.Consensus
import ObjectWire.Proofs.Portable.Import
import ObjectWire.Proofs.Portable.Registering
import ObjectWire.Proofs.Portable.Requests

/-!
# Definitions that are passed on

A definition that is registered in one context can be imported by another from its compressed form,
unless it nests deeper than reading allows.  What has to be shown is that the import comes to an
end: the definition may describe a class more than once, and differently, so that the walk through
what is nested goes on from definitions that are nested elsewhere.  As long as no definition
contains another one for its own class and version, the definitions that a walk has begun with are
never met again, and from those it is done with every walk ends.
-/

namespace ObjectWire

namespace ClassDefinition

/-- A class whose only field holds an object of the next class of the chain, so many levels deep. -/
def chain : (levels : Nat) → ClassDefinition
  | 0 => ⟨⟨1, 0⟩, [], [], none⟩
  | levels + 1 =>
    ⟨⟨Int32.ofNat (levels + 2), 0⟩, [⟨"next", .portable, 0, (chain levels).key⟩], [chain levels],
      none⟩

theorem chain_key (levels : Nat) : (chain levels).key = ⟨Int32.ofNat (levels + 1), 0⟩ := by
  cases levels <;> rfl

theorem chain_depth (levels : Nat) : (chain levels).depth = levels := by
  induction levels with
  | zero => rfl
  | succ levels ih => simp [chain, depth, depthOfAll, ih]

theorem chain_built (levels : Nat) : (chain levels).Built := by
  induction levels with
  | zero => exact .build (.start ⟨1, 0⟩) rfl
  | succ levels ih =>
    have added : Draft.addPortable "next" (chain levels) (.start ⟨Int32.ofNat (levels + 2), 0⟩) =
        .ok (chain (levels + 1)).toDraft := rfl
    have complete : (chain (levels + 1)).toDraft.Complete := by
      refine ⟨fun i field at_i => ?_, fun field member _ => ?_⟩
      · cases i with
        | zero => cases at_i; rfl
        | succ i => cases at_i
      · rw [List.mem_singleton.mp member]
        exact ⟨chain levels, List.mem_singleton.mpr rfl, rfl⟩
    have finished := Draft.build_of_complete complete
    exact .build (.addPortable (.start _) ih added) finished

theorem chain_fits (levels : Nat) : (chain levels).Fits := by
  induction levels with
  | zero => exact .level (by decide) nofun (by decide) nofun
  | succ levels ih =>
    refine .level (by simp [chain, Wire.lengthLimit]) ?_ (by simp [chain, Wire.lengthLimit]) ?_
    · intro field member
      rw [List.mem_singleton.mp member]
      exact (by decide : Utf8.width "next" < Wire.lengthLimit)
    · intro inner member
      rwa [List.mem_singleton.mp member]

theorem partOf_chain {levels : Nat} {part : ClassDefinition} (within : part.PartOf (chain levels)) :
    ∃ lower ≤ levels, part = chain lower := by
  induction levels with
  | zero =>
    cases within with
    | whole => exact ⟨0, Nat.le_refl 0, rfl⟩
    | inside member _ => cases member
  | succ levels ih =>
    cases within with
    | whole => exact ⟨levels + 1, Nat.le_refl _, rfl⟩
    | inside member within =>
      rw [List.mem_singleton.mp member] at within
      obtain ⟨lower, le, same⟩ := ih within
      exact ⟨lower, Nat.le_succ_of_le le, same⟩

/-- The classes of a chain are all different, as long as there are numbers for them. -/
theorem chain_acyclic {levels : Nat} (small : levels + 1 < 0x80000000) :
    (chain levels).Acyclic := by
  intro part within inner member deeper inside
  obtain ⟨upper, le, rfl⟩ := partOf_chain within
  cases upper with
  | zero => cases member
  | succ upper =>
    rw [List.mem_singleton.mp member] at inside
    obtain ⟨lower, below, rfl⟩ := partOf_chain inside
    rw [chain_key, chain_key]
    intro same
    have numbers : Int32.ofNat (lower + 1) = Int32.ofNat (upper + 1 + 1) :=
      congrArg ClassKey.classId same
    have first : (Int32.ofNat (lower + 1)).toInt = lower + 1 :=
      Int32.toInt_ofNat_of_lt (by omega)
    have second : (Int32.ofNat (upper + 1 + 1)).toInt = upper + 1 + 1 :=
      Int32.toInt_ofNat_of_lt (by omega)
    rw [numbers, second] at first
    omega

end ClassDefinition

namespace PortableContext

variable {context now fresh : PortableContext} {definition settled arrived : ClassDefinition}
  {key : ClassKey} {form : Bytes}

/-- Every walk from the definition registered under a key, through nested definitions and on from
    those registered for them, ends within a number of steps, and all it meets can be written. -/
def Rests (context : PortableContext) : (height : Nat) → ClassKey → Prop
  | 0, _ => False
  | height + 1, key => ∃ known, context.lookup key = some known ∧ known.Fits ∧
      ∀ inner ∈ known.nested, Rests context height inner.key

theorem Rests.mono {height higher : Nat} (rests : context.Rests height key)
    (le : height ≤ higher) : context.Rests higher key := by
  induction higher generalizing height key with
  | zero =>
    rw [Nat.le_zero.mp le] at rests
    exact rests.elim
  | succ higher ih =>
    cases height with
    | zero => exact rests.elim
    | succ height =>
      obtain ⟨known, found, fits, nested⟩ := rests
      exact ⟨known, found, fits, fun inner member =>
        ih (nested inner member) (Nat.le_of_succ_le_succ le)⟩

theorem Rests.of_kept {height : Nat} (rests : context.Rests height key)
    (kept : ∀ key known, context.lookup key = some known → now.lookup key = some known) :
    now.Rests height key := by
  induction height generalizing key with
  | zero => exact rests.elim
  | succ height ih =>
    obtain ⟨known, found, fits, nested⟩ := rests
    exact ⟨known, kept key known found, fits, fun inner member => ih (nested inner member)⟩

/-- Whatever is registered is pending, or walks from it end. -/
def Grounded (context : PortableContext) (pending : ClassKey → Prop) (height : Nat) : Prop :=
  ∀ key known, context.lookup key = some known → pending key ∨ context.Rests height key

theorem Rests.of_definitions {height : Nat} (rests : context.Rests height key)
    (same : now.definitions = context.definitions) : now.Rests height key :=
  rests.of_kept fun key _ found => (lookup_of_definitions same key).trans found

theorem Grounded.of_definitions {pending : ClassKey → Prop} {height higher : Nat}
    (grounded : context.Grounded pending height) (le : height ≤ higher)
    (same : now.definitions = context.definitions) : now.Grounded pending higher := by
  intro key known found
  rw [lookup_of_definitions same] at found
  exact (grounded key known found).imp_right fun rests => (rests.of_definitions same).mono le

/-- Where walks end, registering ends as well, and registers nothing new. -/
theorem gives_registerWithin_of_rests {levels height : Nat} (rests : context.Rests height key)
    (room : height ≤ levels) :
    Act.Gives (registerWithin levels key definition) context fun _ now =>
      now.definitions = context.definitions := by
  induction levels generalizing height key definition context with
  | zero =>
    rw [Nat.le_zero.mp room] at rests
    exact rests.elim
  | succ levels ih =>
    cases height with
    | zero => exact rests.elim
    | succ height =>
      obtain ⟨known, found, fits, nested⟩ := rests
      unfold Act.Gives
      rw [registerWithin, Act.bind_of_ok (settle_of_known found)]
      apply (gives_binaryOf fits context).bind
      intro _ next same
      have walked : Act.Gives (Act.forEach (fun inner => do
          let _ ← registerWithin levels inner.key inner) known.nested) next
          fun _ last => last.definitions = context.definitions := by
        apply Act.gives_forEach fun (_ : List ClassDefinition) (state : PortableContext) =>
          state.definitions = context.definitions
        · exact same
        · intro inner member _ state still
          have rests := (nested inner member).of_definitions still
          apply (@ih state inner inner.key height rests (Nat.le_of_succ_le_succ room)).bind
          intro _ last unchanged
          exact Act.gives_pure (unchanged.trans still)
      exact walked.bind fun _ last still => Act.gives_pure still

/-- In the middle of a walk: the definition stands under its key, and of what is nested in it some
    is left to walk through, while walks from the rest end.  The height that these have reached and
    what is left to be added stay within a bound. -/
structure Midway (definition : ClassDefinition) (begun : ClassKey → Prop) (bound : Nat)
    (rest : List ClassDefinition) (context : PortableContext) : Prop where
  filed : context.lookup definition.key = some definition
  reached : ∃ height, height + ClassDefinition.countAll rest ≤ bound ∧
    context.Grounded begun height ∧
    ∀ inner ∈ definition.nested, inner ∈ rest ∨ context.Rests height inner.key

/-- A walk begins where its definition was filed. -/
theorem midway_filed {forms : CompressedForms} {height : Nat} {pending : ClassKey → Prop}
    (grounded : context.Grounded pending height) (new : context.lookup definition.key = none)
    (filed : now.definitions =
      (insert definition.key definition { context with forms := forms }).definitions) :
    Midway definition (fun key => pending key ∨ key = definition.key)
      (height + ClassDefinition.countAll definition.nested) definition.nested now := by
  refine ⟨?_, height, Nat.le_refl _, ?_, fun _ => .inl⟩
  · rw [lookup_of_definitions filed]
    exact lookup_insert new
  · intro key known registered
    rw [lookup_of_definitions filed] at registered
    rcases lookup_insert_cases registered with before | ⟨rfl, -⟩
    · refine (grounded key known before).imp .inl fun rests => rests.of_kept ?_
      intro other held earlier
      rw [lookup_of_definitions filed]
      exact Keyed.lookup_append_of_some earlier
    · exact .inl (.inr rfl)

/-- Walking through one more of the nested definitions. -/
theorem gives_midway {levels bound : Nat} {begun : ClassKey → Prop} {inner : ClassDefinition}
    {rest : List ClassDefinition}
    (midway : Midway definition begun bound (inner :: rest) context)
    (walk : ∀ height, height + inner.count ≤ bound → context.Grounded begun height →
      Act.Gives (registerWithin levels inner.key inner) context fun _ now =>
        now.Grounded begun (height + inner.count) ∧
          now.Rests (height + inner.count) inner.key) :
    Act.Gives (do let _ ← registerWithin levels inner.key inner) context fun _ now =>
      Midway definition begun bound rest now := by
  obtain ⟨filed, height, room, grounded, done⟩ := midway
  rw [ClassDefinition.countAll] at room
  have walked := (walk height (by omega) grounded).within
    (retains_registerWithin levels inner.key inner)
  apply walked.bind
  rintro - now ⟨⟨next, own⟩, retains⟩
  refine Act.gives_pure ⟨retains.lookup _ _ filed, height + inner.count, by omega, next, ?_⟩
  intro other member
  rcases done other member with waiting | rests
  · rcases List.mem_cons.mp waiting with rfl | waiting
    · exact .inr own
    · exact .inl waiting
  · exact .inr ((rests.of_kept retains.lookup).mono (by omega))

/-- Once nothing is left, walks from the definition end as well. -/
theorem Midway.grounded {pending : ClassKey → Prop} {bound : Nat}
    (midway : Midway definition (fun key => pending key ∨ key = definition.key) bound [] context)
    (fits : definition.Fits) :
    context.Grounded pending (bound + 1) ∧ context.Rests (bound + 1) definition.key := by
  obtain ⟨filed, height, room, grounded, done⟩ := midway
  rw [ClassDefinition.countAll] at room
  have own : context.Rests (bound + 1) definition.key := by
    refine ⟨definition, filed, fits, fun inner member => ?_⟩
    rcases done inner member with none | rests
    · cases none
    · exact rests.mono (by omega)
  refine ⟨fun key known found => ?_, own⟩
  rcases grounded key known found with (waiting | rfl) | rests
  · exact .inl waiting
  · exact .inr own
  · exact .inr (rests.mono (by omega))

/-- Registering a definition of which nothing is pending comes to an end, and leaves only walks that
    end.  The height grows by what the definition adds at most. -/
theorem gives_registerWithin_of_acyclic {levels height : Nat} {pending : ClassKey → Prop}
    (grounded : context.Grounded pending height) (acyclic : definition.Acyclic)
    (fits : definition.Fits)
    (free : ∀ part : ClassDefinition, part.PartOf definition → ¬ pending part.key)
    (room : height + definition.count ≤ levels) :
    Act.Gives (registerWithin levels definition.key definition) context fun _ now =>
      now.Grounded pending (height + definition.count) ∧
        now.Rests (height + definition.count) definition.key := by
  induction levels generalizing context definition height pending with
  | zero =>
    have := ClassDefinition.count_def definition
    omega
  | succ levels ih =>
    cases found : context.lookup definition.key with
    | some known =>
      -- this walk has not begun with what is registered here, so walks from it end
      have rests : context.Rests height definition.key :=
        (grounded _ known found).resolve_left (free definition (.whole definition))
      apply (gives_registerWithin_of_rests rests (by omega)).mono
      intro _ last same
      refine ⟨grounded.of_definitions (by omega) same, ?_⟩
      exact (rests.of_definitions same).mono (by omega)
    | none =>
      have same := ClassDefinition.same_symm (label_same context.forms definition)
      unfold Act.Gives
      rw [registerWithin, Act.bind_of_ok (settle_of_new found)]
      generalize (context.forms.label definition).1 = settled at same ⊢
      generalize (context.forms.label definition).2 = forms
      have settledFits := fits.of_same (ClassDefinition.same_symm same)
      have settledAcyclic := acyclic.of_same same
      have key := ClassDefinition.key_eq_of_same same
      have count := ClassDefinition.count_eq_of_same same
      rw [ClassDefinition.count_def settled] at count
      apply (gives_binaryOf settledFits _).bind
      intro _ next filed
      rw [key] at found filed
      have start := midway_filed grounded found filed
      have walked : Act.Gives (Act.forEach (fun inner => do
          let _ ← registerWithin levels inner.key inner) settled.nested) next fun _ =>
          Midway settled (fun other => pending other ∨ other = settled.key)
            (height + ClassDefinition.countAll settled.nested) [] := by
        apply Act.gives_forEach (Midway settled (fun other => pending other ∨ other = settled.key)
          (height + ClassDefinition.countAll settled.nested)) start
        intro inner member rest state midway
        apply gives_midway midway
        intro reach room grounded
        apply ih grounded (settledAcyclic.nested member) (settledFits.nested member) ?_ (by omega)
        intro part within
        have inside : part.PartOf settled := .inside member within
        rintro (waiting | own)
        · obtain ⟨found, among, equal⟩ :=
            ClassDefinition.partOf_of_same inside (ClassDefinition.same_symm same)
          rw [ClassDefinition.key_eq_of_same equal] at waiting
          exact free found among waiting
        · exact settledAcyclic settled (.whole settled) inner member part within own
      refine walked.bind fun _ last midway => Act.gives_pure ?_
      have ends := midway.grounded settledFits
      rw [count, key]
      exact ends

theorem hereditary_fits : Hereditary ClassDefinition.Fits where
  of_same same fits := fits.of_same same
  nested member fits := fits.nested member

/-- Registering what can be written, where all that is registered can be, leaves it so. -/
theorem writable_registerWithin (levels : Nat) (key : ClassKey) (fits : definition.Fits)
    (writable : context.Writable) : (registerWithin levels key definition context).2.Writable := by
  have ends := hereditary_fits.registerWithin writable fits levels key
  exact (ends.mono (fun _ _ => And.left) fun _ _ => id).leaves

/-- Where nothing is registered, registering a definition answers with the same, or never comes to
    an end. -/
theorem ends_register_of_absent (absent : ∀ key, context.lookup key = none)
    (fits : definition.Fits) :
    Act.Ends (register definition) context (fun settled _ => settled.same definition = true)
      (fun failure _ => failure.Endless) := by
  have writable : context.Writable := by
    intro key known found
    rw [absent key] at found
    cases found
  rcases ran : register definition context with ⟨failure | settled, now⟩
  · apply Act.ends_of_error ran
    obtain ⟨-, endless | unwritable⟩ :=
      (ends_registerWithin _ definition.key definition context).of_error ran
    · exact endless
    · have kept : (register definition context).2.Writable :=
        writable_registerWithin _ _ fits writable
      rw [ran] at kept
      exact absurd kept unwritable
  · exact Act.ends_of_ok ran (same_of_registerWithin (absent definition.key) ran)

/-- If none of the definitions in it contains another one for its own class and version, it comes to
    an end. -/
theorem gives_register_of_acyclic (absent : ∀ key, context.lookup key = none)
    (acyclic : definition.Acyclic) (fits : definition.Fits) :
    Act.Gives (register definition) context fun settled _ => settled.same definition = true := by
  have grounded : context.Grounded (fun _ => False) 0 := by
    intro key known found
    rw [absent key] at found
    cases found
  obtain ⟨settled, now, ran, -⟩ :=
    @gives_registerWithin_of_acyclic context definition
      (context.definitions.length + definition.count + 1) 0 (fun _ => False) grounded acyclic fits
      (fun _ _ => id) (by omega)
  exact ⟨settled, now, ran, same_of_registerWithin (absent definition.key) ran⟩

/-- Where nothing is registered, an import answers with what arrived, unless this describes a class
    inside itself and the import never comes to an end. -/
theorem importCompressed_of_absent (absent : ∀ key, fresh.lookup key = none)
    (come : ClassDefinition.ofCompressed form = .ok arrived) :
    (∃ imported last, importCompressed form fresh = (.ok imported, last) ∧
        imported.same arrived = true) ∨
      ¬ arrived.Acyclic ∧
        ∃ failure last, importCompressed form fresh = (.error failure, last) ∧
          failure.Endless := by
  have same := label_same fresh.forms arrived
  rw [importCompressed_of_new come (absent arrived.key)]
  generalize (fresh.forms.label arrived).1 = labelled at same ⊢
  generalize prepare : keepForm labelled form _ = prepared
  have vacant : ∀ key, prepared.lookup key = none := by
    rw [← prepare]
    exact absent
  have fits := (ClassDefinition.fits_of_ofCompressed come).of_same same
  by_cases acyclic : labelled.Acyclic
  · obtain ⟨imported, last, ran, matched⟩ := gives_register_of_acyclic vacant acyclic fits
    exact .inl ⟨imported, last, ran, ClassDefinition.same_trans matched same⟩
  · have ends := ends_register_of_absent vacant fits
    rcases ran : register labelled prepared with ⟨failure | imported, last⟩
    · refine .inr ⟨fun other => acyclic ?_, failure, last, rfl, ends.of_error ran⟩
      exact other.of_same (ClassDefinition.same_symm same)
    · exact .inl ⟨imported, last, rfl, ClassDefinition.same_trans (ends.of_ok ran) same⟩

/-- No form of a definition that nests too deep is read. -/
theorem IsForm.too_deep (isForm : IsForm form definition) (wellFormed : definition.WellFormed)
    (deep : Failure.maxDefinitionLevels < definition.depth) :
    ClassDefinition.ofCompressed form = .error .definitionTooDeep := by
  rcases isForm with ⟨layout, written, rfl⟩ | ⟨arrived, come, same⟩
  · apply ClassDefinition.ofCompressed_too_deep wellFormed deep
    rw [ClassDefinition.compressedLayout, written]
    rfl
  · have shallow := ClassDefinition.depth_of_ofCompressed come
    rw [ClassDefinition.depth_eq_of_same same] at shallow
    omega

/-- What a registration answers with has its compressed form at hand. -/
theorem formOf_of_register (begun : context.Fresh) {requests : List Request}
    (ran : register definition (answering requests context) = (.ok settled, now)) :
    ∃ form, now.forms.formOf settled = some form ∧ IsForm form settled := by
  obtain ⟨completes, registered, carries⟩ :=
    (ends_registerWithin _ definition.key definition _).of_ok ran
  have named : settled.label.isSome = true := by
    have retains := (retains_answering requests context).trans completes.1
    refine (retains.labelled _ settled registered).resolve_left fun before => ?_
    rw [begun.lookup] at before
    cases before
  obtain ⟨form, found⟩ := (carries named).form
  have tidy := tidies_register definition _ (tidy_answering begun.tidy requests)
  rw [ran] at tidy
  exact ⟨form, found, isForm_of_formOf tidy.genuine found⟩

/-- What a context accepts for a definition has its compressed form at hand, and is the definition
    itself if nothing was registered for its class and version.  From this form another context,
    where nothing is registered, imports the same, unless a definition inside it contains another
    one for its own class and version and the import never comes back; but if it nests deeper than
    reading allows, the import is refused. -/
theorem registered_is_imported {start : PortableContext} {requests : List Request}
    (begun : start.Fresh) (vacant : fresh.definitions = []) (built : definition.Built)
    (others : ∀ known, (answering requests start).lookup definition.key = some known →
      known.Built)
    (accepted : register definition (answering requests start) = (.ok settled, now)) :
    ((answering requests start).lookup definition.key = none →
        settled.same definition = true) ∧
      ∃ form, now.forms.formOf settled = some form ∧
        (settled.depth ≤ Failure.maxDefinitionLevels →
          (∃ imported last, importCompressed form fresh = (.ok imported, last) ∧
              imported.same settled = true) ∨
            ¬ settled.Acyclic ∧
              ∃ failure last, importCompressed form fresh = (.error failure, last) ∧
                failure.Endless) ∧
        (Failure.maxDefinitionLevels < settled.depth →
          importCompressed form fresh = (.error .definitionTooDeep, fresh)) := by
  have absent : ∀ key, fresh.lookup key = none := by
    intro key
    rw [lookup, vacant]
    rfl
  have wellFormed : settled.WellFormed := by
    cases found : (answering requests start).lookup definition.key with
    | some known =>
      obtain ⟨completes, registered, -⟩ :=
        (ends_registerWithin _ definition.key definition _).of_ok accepted
      rw [completes.1.lookup _ known found] at registered
      cases registered
      exact (others _ found).wellFormed
    | none =>
      have same := same_of_registerWithin found accepted
      exact built.wellFormed.of_same (ClassDefinition.same_symm same)
  obtain ⟨form, atHand, isForm⟩ := formOf_of_register begun accepted
  refine ⟨fun new => same_of_registerWithin new accepted, form, atHand, fun shallow => ?_,
    fun deep => ?_⟩
  · obtain ⟨arrived, come, same⟩ := isForm.arrives wellFormed shallow
    rcases importCompressed_of_absent absent come with
      ⟨imported, last, ran, matched⟩ | ⟨cyclic, failure, last, ran, endless⟩
    · exact .inl ⟨imported, last, ran, ClassDefinition.same_trans matched same⟩
    · refine .inr ⟨fun acyclic => cyclic ?_, failure, last, ran, endless⟩
      exact acyclic.of_same (ClassDefinition.same_symm same)
  · unfold importCompressed
    rw [isForm.too_deep wellFormed deep]
    rfl

/-- A chain of four classes, registered and passed on. -/
theorem registered_is_imported_of_chain :
    let definition := ClassDefinition.chain 3
    let context : PortableContext := .start 0 (.ofSettings 16 2 1)
    ∃ settled now form imported last,
      register definition context = (.ok settled, now) ∧ settled.same definition = true ∧
        now.forms.formOf settled = some form ∧
        importCompressed form context = (.ok imported, last) ∧ imported.same settled = true := by
  intro definition context
  have begun : context.Fresh := ⟨rfl, tidy_start 0 (Pool.clean_ofSettings 16 2 1)⟩
  have acyclic : definition.Acyclic := ClassDefinition.chain_acyclic (by decide)
  obtain ⟨settled, now, ran, same⟩ :=
    gives_register_of_acyclic begun.lookup acyclic (ClassDefinition.chain_fits 3)
  have built : definition.Built := ClassDefinition.chain_built 3
  obtain ⟨-, form, atHand, imports, -⟩ :=
    @registered_is_imported now context definition settled context [] begun begun.vacant built
      (fun known found => by cases found) ran
  have shallow : settled.depth ≤ Failure.maxDefinitionLevels := by
    rw [ClassDefinition.depth_eq_of_same same, ClassDefinition.chain_depth]
    decide
  rcases imports shallow with ⟨imported, last, passed, matched⟩ | ⟨cyclic, -⟩
  · exact ⟨settled, now, form, imported, last, ran, same, atHand, passed, matched⟩
  · exact absurd (acyclic.of_same (ClassDefinition.same_symm same)) cyclic

/-- A chain of 66 classes is registered, and refused by every context it is passed on to. -/
theorem chain_registered_not_imported :
    let definition := ClassDefinition.chain 65
    let context : PortableContext := .start 0 (.ofSettings 16 2 1)
    definition.Built ∧ definition.Acyclic ∧ ∃ settled now form,
      register definition context = (.ok settled, now) ∧ settled.same definition = true ∧
        now.forms.formOf settled = some form ∧
        importCompressed form context = (.error .definitionTooDeep, context) := by
  intro definition context
  have begun : context.Fresh := ⟨rfl, tidy_start 0 (Pool.clean_ofSettings 16 2 1)⟩
  have built : definition.Built := ClassDefinition.chain_built 65
  have acyclic : definition.Acyclic := ClassDefinition.chain_acyclic (by decide)
  obtain ⟨settled, now, ran, same⟩ :=
    gives_register_of_acyclic begun.lookup acyclic (ClassDefinition.chain_fits 65)
  obtain ⟨form, atHand, isForm⟩ := @formOf_of_register context now definition settled begun [] ran
  have wellFormed := built.wellFormed.of_same (ClassDefinition.same_symm same)
  have deep : Failure.maxDefinitionLevels < settled.depth := by
    rw [ClassDefinition.depth_eq_of_same same, ClassDefinition.chain_depth]
    decide
  refine ⟨built, acyclic, settled, now, form, ran, same, atHand, ?_⟩
  unfold importCompressed
  rw [isForm.too_deep wellFormed deep]
  rfl

end PortableContext

end ObjectWire
