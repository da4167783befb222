import ObjectWire.Proofs.Portable.Closing
import ObjectWire.Proofs.Portable.Requests

/-!
# The classes that frames name

An object is written by the definition found under its class and version, but its frame names the
class and version of that definition.  The two are the same as long as every definition stands under
its own key.  Whatever is described, imported or nested is registered under its own key; only a
definition that is registered for a class by hand may end up under another one.
-/

namespace ObjectWire

namespace PortableContext

variable {context now later : PortableContext} {key : ClassKey}
  {definition settled : ClassDefinition} {request : Request} {requests : List Request}

/-- Every definition is registered under the class and version it describes. -/
def OwnKeys (context : PortableContext) : Prop :=
  ∀ key known, context.lookup key = some known → known.key = key

/-- What is new is registered under its own key. -/
def Names (context now : PortableContext) : Prop :=
  ∀ key known, now.lookup key = some known →
    context.lookup key = some known ∨ known.key = key

instance : Std.Refl Names := ⟨fun _ _ _ => .inl⟩

theorem Names.trans (first : context.Names now) (second : now.Names later) :
    context.Names later := by
  intro key known found
  rcases second key known found with before | own
  · exact first key known before
  · exact .inr own

instance : Trans Names Names Names := ⟨Names.trans⟩

theorem Names.ownKeys (names : context.Names now) (own : context.OwnKeys) : now.OwnKeys := by
  intro key known found
  rcases names key known found with before | named
  · exact own key known before
  · exact named

theorem names_of_definitions (same : now.definitions = context.definitions) :
    context.Names now := by
  intro key known found
  rw [lookup_of_definitions same] at found
  exact .inl found

theorem Fresh.ownKeys (fresh : context.Fresh) : context.OwnKeys := by
  intro key known found
  rw [fresh.lookup key] at found
  cases found

/-! Registering. -/

theorem names_settle (definition : ClassDefinition) :
    (settle definition.key definition).Within Names := by
  intro context
  cases found : context.lookup definition.key with
  | some known =>
    rw [settle_of_known found]
    exact Std.Refl.refl context
  | none =>
    rw [settle_of_new found]
    intro key known registered
    rcases lookup_insert_cases registered with before | ⟨rfl, rfl⟩
    · exact .inl before
    · exact .inr (ClassDefinition.key_eq_of_same (label_same context.forms definition))

theorem names_binaryOf (definition : ClassDefinition) : (binaryOf definition).Within Names :=
  fun context => names_of_definitions (definitions_binaryOf definition context)

theorem names_enter (definition : ClassDefinition) :
    (enter definition.key definition).Within Names :=
  within_enter (names_settle definition) names_binaryOf

theorem names_registerWithin (levels : Nat) (definition : ClassDefinition) :
    (registerWithin levels definition.key definition).Within Names :=
  within_registerWithin names_enter (names_enter definition) levels

theorem names_register (definition : ClassDefinition) : (register definition).Within Names :=
  within_register names_enter definition

/-- A new definition stands under the key from the first step of its registration on. -/
theorem lookup_registerWithin_of_new (levels : Nat) (new : context.lookup key = none) :
    (registerWithin (levels + 1) key definition context).2.lookup key =
      some (context.forms.label definition).1 := by
  rw [registerWithin, Act.bind_of_ok (settle_of_new new)]
  generalize (context.forms.label definition).1 = settled
  have onwards : (do
      let _ ← binaryOf settled
      Act.forEach (fun inner => do let _ ← registerWithin levels inner.key inner) settled.nested
      pure settled : Act PortableContext ClassDefinition).Within Retains := by
    apply (retains_binaryOf settled).bind
    intro _
    have inside : (Act.forEach (fun inner => do
        let _ ← registerWithin levels inner.key inner) settled.nested).Within Retains :=
      Act.within_forEach fun inner _ =>
        (retains_registerWithin levels inner.key inner).bind fun _ => Act.within_pure ()
    exact inside.bind fun _ => Act.within_pure settled
  exact (onwards _).lookup key settled (lookup_insert new)

theorem names_importCompressed (compressed : Bytes) :
    (importCompressed compressed).Within Names :=
  within_importCompressed names_register fun _ _ _ => names_of_definitions rfl

theorem retains_importCompressed (compressed : Bytes) :
    (importCompressed compressed).Within Retains :=
  fun context => Request.retains (.importForm compressed) context

/-- Something is registered for the class and version that arrived, even if the import failed. -/
theorem exists_lookup_importCompressed {compressed : Bytes} {arrived : ClassDefinition}
    (come : ClassDefinition.ofCompressed compressed = .ok arrived) :
    ∃ known, (importCompressed compressed context).2.lookup arrived.key = some known := by
  cases found : context.lookup arrived.key with
  | some known =>
    exact ⟨known, (retains_importCompressed compressed context).lookup _ _ found⟩
  | none =>
    rw [importCompressed_of_new come found]
    have key : (context.forms.label arrived).1.key = arrived.key :=
      ClassDefinition.key_eq_of_same (label_same context.forms arrived)
    rw [← key] at found ⊢
    exact ⟨_, lookup_registerWithin_of_new _ found⟩

theorem names_describe (p : Portable) : (describe p).Within Names :=
  within_describe names_register p

/-! Requests. -/

/-- A definition that is registered for a class by hand, where there is none, is one of that class
    at the context's version. -/
def Request.Fitting (context : PortableContext) : Request → Prop
  | registerFor classId definition =>
    context.lookup ⟨classId, context.version⟩ = none →
      definition.key = ⟨classId, context.version⟩
  | _ => True

theorem Request.Fitting.ownKeys (fitting : request.Fitting context) :
    Act.Preserves OwnKeys context (request.perform context) := by
  intro own
  cases request with
  | register definition => exact (names_register definition context).ownKeys own
  | registerFor classId definition =>
    let key : ClassKey := ⟨classId, context.version⟩
    have names : ∀ levels, context.Names (registerWithin levels key definition context).2 := by
      intro levels
      cases found : context.lookup key with
      | none =>
        have same : definition.key = key := fitting found
        rw [← same]
        exact names_registerWithin levels definition context
      | some known =>
        have same : known.key = key := own key known found
        rw [registerWithin_of_known levels found, ← same]
        exact names_registerWithin levels known context
    exact (names _).ownKeys own
  | importForm compressed => exact (names_importCompressed compressed context).ownKeys own
  | describe p => exact (names_describe p context).ownKeys own

/-- Where all definitions stand under their own keys in the end, none was registered for another
    class on the way. -/
theorem throughout_fitting_of_ownKeys (own : (answering requests context).OwnKeys) :
    Throughout Request.Fitting requests context := by
  induction requests generalizing context with
  | nil => trivial
  | cons request requests ih =>
    refine ⟨?_, ih own⟩
    cases request with
    | registerFor classId definition =>
      intro absent
      let key : ClassKey := ⟨classId, context.version⟩
      have filed : (Request.perform (.registerFor classId definition) context).lookup key =
          some (context.forms.label definition).1 := lookup_registerWithin_of_new _ absent
      have still := (retains_answering requests _).lookup key _ filed
      have same := ClassDefinition.key_eq_of_same (label_same context.forms definition)
      rw [← same]
      exact own key _ still
    | register _ => trivial
    | importForm _ => trivial
    | describe _ => trivial

theorem ownKeys_answering_iff (fresh : context.Fresh) :
    (answering requests context).OwnKeys ↔ Throughout Request.Fitting requests context :=
  ⟨throughout_fitting_of_ownKeys, fun fitting =>
    fitting.invariant (fun _ _ each => each.ownKeys) fresh.ownKeys⟩

/-! Describing answers with what is found for the object. -/

theorem key_of_describeWrite {write : FieldWrite} {draft next : Draft}
    (ran : describeWrite write draft context = (.ok next, now)) : next.key = draft.key := by
  have array : ∀ {name classId definition} {before after : PortableContext},
      describeArray name classId definition draft before = (.ok next, after) →
        next.key = draft.key := by
    intro name classId definition before after ran
    unfold describeArray at ran
    by_cases declared : definition.classId = classId
    · rw [if_pos declared] at ran
      exact Draft.key_of_addNested (Act.lift_ok ran).1
    · rw [if_neg declared] at ran
      cases ran
  cases write with
  | data name value => exact Draft.key_of_addField (Act.lift_ok ran).1
  | portable name value =>
    cases value with
    | none => cases ran
    | some p =>
      obtain ⟨_, _, -, added⟩ := Act.bind_ok ran
      exact Draft.key_of_addNested (Act.lift_ok added).1
  | nullPortable name classId =>
    obtain ⟨_, _, -, added⟩ := Act.bind_ok ran
    exact Draft.key_of_addNested (Act.lift_ok added).1
  | portableArray name classId items =>
    rcases items with _ | _ | ⟨p, items⟩
    all_goals
      obtain ⟨_, _, -, added⟩ := Act.bind_ok ran
      exact array added
  | fail text => cases ran

theorem key_of_describeWrites {writes : List FieldWrite} {draft next : Draft}
    (ran : describeWrites writes draft context = (.ok next, now)) : next.key = draft.key := by
  induction writes generalizing draft context with
  | nil => cases ran; rfl
  | cons write writes ih =>
    obtain ⟨middle, reached, first, rest⟩ := Act.bind_ok ran
    exact (ih rest).trans (key_of_describeWrite first)

/-- In any context, the definition that an object is written by is then found for its class and
    version. -/
theorem lookup_of_describe {p : Portable}
    (ran : describe p context = (.ok definition, now)) :
    now.lookup (context.keyOf p) = some definition := by
  rw [describe_eq, describeBy, Act.bind_of_ok (Act.get_apply context)] at ran
  cases found : context.lookup (context.keyOf p) with
  | some known =>
    rw [found] at ran
    cases ran
    exact found
  | none =>
    rw [found] at ran
    obtain ⟨draft, reached, described, ran⟩ := Act.bind_ok ran
    obtain ⟨built, _, lifted, registered⟩ := Act.bind_ok ran
    obtain ⟨finished, rfl⟩ := Act.lift_ok lifted
    obtain ⟨-, rfl⟩ := Draft.build_ok finished
    have found := ((ends_registerWithin _ _ _ _).of_ok registered).2.1
    rwa [show draft.key = context.keyOf p from key_of_describeWrites described] at found

end PortableContext

namespace Frame

open PortableContext (Names OwnKeys Request Respects Retains Throughout answering)

variable {context now : PortableContext} {p : Portable} {frame : Closed}

theorem respects_names : Respects Names where
  describe := PortableContext.names_describe
  borrow _ := PortableContext.names_of_definitions rfl
  giveBack _ _ := PortableContext.names_of_definitions rfl

theorem respects_retains : Respects Retains where
  describe p context := Request.retains (.describe p) context
  borrow _ := ⟨fun _ _ => id, fun _ _ => id, fun _ _ => .inl⟩
  giveBack _ _ := ⟨fun _ _ => id, fun _ _ => id, fun _ _ => .inl⟩

/-- The frame of an object is written by the definition that is then found for the object. -/
theorem lookup_of_close (closing : close p context = (.ok frame, now)) :
    now.lookup (context.keyOf p) = some frame.definition := by
  rw [close_eq] at closing
  obtain ⟨definition, described, ran, filled⟩ := Act.bind_ok closing
  have inside : (fill definition (performAll p.writes)).Within Retains :=
    within_fill respects_retains definition <| within_performAll fun _ _ q _ =>
      within_close respects_retains q
  have retains := Act.within_of_ok inside filled
  obtain ⟨_, -, rfl⟩ := Act.settled_map_ok (Prod.mk.inj filled).1
  exact retains.lookup _ _ (PortableContext.lookup_of_describe ran)

/-- The frame of an object names the object's class and version, unless the definition that was
    found for these is one of another class or version. -/
theorem key_of_close_iff (closing : close p context = (.ok frame, now)) :
    frame.definition.key = context.keyOf p ↔
      ∀ known, context.lookup (context.keyOf p) = some known → known.key = context.keyOf p := by
  have found := lookup_of_close closing
  constructor
  · intro own known before
    have still := (Act.within_of_ok (within_close respects_retains p) closing).lookup _ _ before
    rw [found] at still
    cases still
    exact own
  · intro own
    have names := Act.within_of_ok (within_close respects_names p) closing
    rcases names _ _ found with before | named
    · exact own _ before
    · exact named

/-- An object that writes nothing is framed by whatever is registered for its class and version. -/
theorem close_of_known {key : ClassKey} {known : ClassDefinition}
    (found : context.lookup key = some known) :
    ∃ body now, close (.scripted key.classId (some key.version) [] none []) context =
      (.ok ⟨known, body⟩, now) := by
  have described : PortableContext.describe (.scripted key.classId (some key.version) [] none [])
      context = (.ok known, context) :=
    PortableContext.describe_of_lookup found
  rw [close_eq, Act.bind_of_ok described]
  exact ⟨_, _, rfl⟩

/-- What the body of a frame is read as: the factory makes an object of the class, which reads
    itself by a definition; objects inside it may still nest so many levels deep. -/
def decode (source : Source) (levels : Nat) (classId : Int32) (definition : ClassDefinition)
    (body : Bytes) : Except Failure Portable := do
  let blank ← source.create classId
  let reader ← BodyReader.start definition body
  readObject (openWithin source levels) reader blank

/-- Reads what follows the class and version in a frame. -/
def openBody (source : Source) (levels : Nat) (classId : Int32) (definition : ClassDefinition) :
    Act Input Portable := do
  let body ← Input.bytes (← Input.length .portableBody)
  Act.lift (decode source levels classId definition body)

section Reading

variable {source : Source} {key : ClassKey} (levels : Nat) (rest : Bytes) (position : Nat)

/-- Reading a frame goes by the definition found for the class and version it names. -/
theorem openWithin_of_known {definition : ClassDefinition}
    (found : source.context.lookup key = some definition) :
    openWithin source (levels + 1) ⟨Wire.classKey key ++ rest, position⟩ =
      openBody source levels key.classId definition
        ⟨rest, position + (Wire.classKey key).length⟩ := by
  rw [openWithin, Act.bind_of_ok (Input.takes_classKey key rest position)]
  unfold openBody
  rw [found]
  rfl

theorem openBody_of_byteArray {body content : Bytes} (sized : Wire.byteArray body = .ok content)
    (classId : Int32) (definition : ClassDefinition) :
    openBody source levels classId definition ⟨content ++ rest, position⟩ =
      (decode source levels classId definition body, ⟨rest, position + content.length⟩) := by
  obtain ⟨length, counted, rfl⟩ := Act.settled_map_ok sized
  have counts : Input.Takes (Input.length .portableBody) length body.length :=
    Input.takes_length counted
  rw [openBody, List.append_assoc, Act.bind_of_ok (counts (body ++ rest) position),
    Act.bind_of_ok (Input.takes_bytes body rest _), Act.lift_apply, List.length_append,
    Nat.add_assoc]

theorem openWithin_of_unknown {body content : Bytes} (sized : Wire.byteArray body = .ok content)
    (unknown : source.context.lookup key = none) :
    (openWithin source (levels + 1) ⟨Wire.classKey key ++ content, position⟩).1 =
      .error (.noDefinition key.classId key.version) := by
  obtain ⟨length, counted, rfl⟩ := Act.settled_map_ok sized
  have counts : Input.Takes (Input.length .portableBody) length body.length :=
    Input.takes_length counted
  have taken := Input.takes_bytes body [] (position + (Wire.classKey key).length + length.length)
  rw [List.append_nil] at taken
  rw [openWithin, Act.bind_of_ok (Input.takes_classKey key _ position),
    Act.bind_of_ok (counts body _), Act.bind_of_ok taken, unknown]
  rfl

end Reading

variable {start : PortableContext} {requests : List Request}

/-- A frame on the wire is the class and version of its definition, and its body behind the body's
    length. -/
theorem content_of_write {output after : Output} (written : frame.write output = (.ok (), after)) :
    ∃ content, Wire.byteArray frame.body = .ok content ∧
      after.content = output.content ++ (Wire.classKey frame.definition.key ++ content) := by
  have named := Output.appends_write (Wire.classKey frame.definition.key)
  have sized := Output.appends_writeItem (Wire.byteArray frame.body)
  obtain ⟨run, both, appended⟩ := named.andThen sized output after written
  obtain ⟨_, front, both⟩ := Option.bind_eq_some_iff.mp both
  obtain ⟨content, back, both⟩ := Option.bind_eq_some_iff.mp both
  cases front
  cases both
  exact ⟨content, Act.settled_of_toOption back, appended⟩

/-- Frames name the class and version of the objects they hold, after any requests and for all
    objects, exactly if each definition that was registered for a class by hand, where there was
    none, was of that class at the context's version.  In any case the definition that the frame was
    written by is the one found for the object, and the frame names the object unless another one's
    definition was found there before; and a frame that names the object is read by that definition
    and by what the factory makes for the object's class. -/
theorem names_object_iff (fresh : start.Fresh) :
    let context := answering requests start
    (Throughout Request.Fitting requests start ↔
      ∀ p frame now, close p context = (.ok frame, now) →
        frame.definition.key = context.keyOf p) ∧
    ∀ p frame now, close p context = (.ok frame, now) →
      now.lookup (context.keyOf p) = some frame.definition ∧
      (frame.definition.key = context.keyOf p ↔
        ∀ known, context.lookup (context.keyOf p) = some known →
          known.key = context.keyOf p) ∧
      ∀ output after, frame.write output = (.ok (), after) →
        ∃ run, after.content = output.content ++ (Wire.classKey frame.definition.key ++ run) ∧
          (frame.definition.key = context.keyOf p → ∀ factory rest position,
            openAt ⟨now, factory⟩ 0 ⟨(Wire.classKey frame.definition.key ++ run) ++ rest, position⟩ =
              (decode ⟨now, factory⟩ Failure.maxPortableLevels p.classId frame.definition frame.body,
                ⟨rest, position + (Wire.classKey frame.definition.key ++ run).length⟩)) := by
  intro context
  refine ⟨?_, fun p frame now closing => ⟨lookup_of_close closing, key_of_close_iff closing, ?_⟩⟩
  · rw [← PortableContext.ownKeys_answering_iff fresh]
    constructor
    · intro own p frame now closing
      exact (key_of_close_iff closing).mpr fun known found => own _ known found
    · intro named key known found
      obtain ⟨body, now, closing⟩ := close_of_known found
      exact named _ _ now closing
  · intro output after written
    obtain ⟨content, sized, appended⟩ := content_of_write written
    refine ⟨content, appended, fun own factory rest position => ?_⟩
    have found := lookup_of_close closing
    rw [← own] at found
    have header := @openWithin_of_known ⟨now, factory⟩ _ Failure.maxPortableLevels (content ++ rest)
      position _ found
    have class_ : frame.definition.key.classId = p.classId := congrArg ClassKey.classId own
    rw [openBody_of_byteArray _ _ _ sized, class_] at header
    rw [List.append_assoc, List.length_append, ← Nat.add_assoc]
    exact header

/-- An object of class 3 at version 4 after a definition for this class at this version was registered
    by hand: its frame is read by that definition. -/
theorem names_object_iff_of_own_version :
    let definition : ClassDefinition := ⟨⟨3, 4⟩, [⟨"x", .scalar .int, 0, .none⟩], [], none⟩
    let p : Portable := .scripted 3 none [.data "x" (.scalar .int (7 : Int32))] none []
    let start : PortableContext := .start 4 (.ofSettings 16 2 1)
    let requests := [Request.registerFor 3 definition]
    let context := answering requests start
    Throughout Request.Fitting requests start ∧
      ∃ frame now, close p context = (.ok frame, now) ∧ frame.definition.key = ⟨3, 4⟩ := by
  intro definition p start requests context
  have fresh : start.Fresh := ⟨rfl, PortableContext.tidy_start 4 (Pool.clean_ofSettings 16 2 1)⟩
  have fitting : Throughout Request.Fitting requests start := ⟨fun _ => rfl, trivial⟩
  have closes : (close p context).1.toOption.isSome = true := by decide +kernel
  obtain ⟨frame, answered⟩ := Act.exists_ok_of_isSome closes
  have closing : close p context = (.ok frame, (close p context).2) := by rw [← answered]
  obtain ⟨named, -⟩ := @names_object_iff start requests fresh
  exact ⟨fitting, frame, _, closing, named.mp fitting p frame _ closing⟩

/-- A definition for version 0 of a class, registered by hand in a context of version 4, is what an
    object of the class is written by; its frame then names version 0, for which nothing is
    registered. -/
theorem names_other_version :
    let definition : ClassDefinition := ⟨⟨3, 0⟩, [⟨"x", .scalar .int, 0, .none⟩], [], none⟩
    let p : Portable := .scripted 3 none [.data "x" (.scalar .int (7 : Int32))] none []
    let context := answering [.registerFor 3 definition] (.start 4 (.ofSettings 16 2 1))
    context.keyOf p = ⟨3, 4⟩ ∧ ∃ frame now after,
      close p context = (.ok frame, now) ∧ frame.definition.key = ⟨3, 0⟩ ∧
        frame.write (.empty 0) = (.ok (), after) ∧
        ∀ factory, (openAt ⟨now, factory⟩ 0 (.ofBytes after.content)).1 =
          .error (.noDefinition 3 0) := by
  intro definition p context
  have closes : ((close p context).1.toOption.map fun frame =>
      (frame.definition.key, frame.body)) =
      some (⟨3, 0⟩, [0, 0, 0, 4, 0, 0, 0, 7]) := by decide +kernel
  have unknown : ((close p context).2.lookup ⟨3, 0⟩).isNone = true := by decide +kernel
  rcases ran : close p context with ⟨outcome, now⟩
  rw [ran] at closes unknown
  obtain ⟨frame, answered, same⟩ := Option.map_eq_some_iff.mp closes
  obtain rfl : outcome = .ok frame := Act.settled_of_toOption answered
  have key : frame.definition.key = ⟨3, 0⟩ := congrArg Prod.fst same
  have body : frame.body = [0, 0, 0, 4, 0, 0, 0, 7] := congrArg Prod.snd same
  have sized : Wire.byteArray [0, 0, 0, 4, 0, 0, 0, 7] =
      .ok [0, 0, 0, 8, 0, 0, 0, 4, 0, 0, 0, 7] := rfl
  refine ⟨rfl, frame, now, ⟨Wire.classKey ⟨3, 0⟩ ++ [0, 0, 0, 8, 0, 0, 0, 4, 0, 0, 0, 7],
    20, .amortised⟩, rfl, key, ?_, fun factory => ?_⟩
  · rw [Closed.write, key, body]
    rfl
  · exact openWithin_of_unknown Failure.maxPortableLevels 0 sized
      (Option.isNone_iff_eq_none.mp unknown)

end Frame

end ObjectWire
