import ObjectWire.Proofs.Portable.Endless
import ObjectWire.Proofs.Portable.Seeking

/-!
# Objects that read themselves

An object gets at the body it is read from by reads and by nothing else.  It chooses each read by
what the earlier ones came to, may go on after a failure, and ends as it likes.  So what it does is
a tree of reads.  A frame is opened with such a tree for every class; all that a factory makes is
of this kind.
-/

namespace ObjectWire.Frame

/-- What an object does to read itself. -/
inductive SelfReading
  | done (outcome : Except Failure Portable)
  | ask (r : FieldRead) (next : Except Failure FieldResult → SelfReading)

namespace SelfReading

variable {α : Type} {answer : FieldRead → Except Failure FieldResult}

/-- What comes of an object, given the answers to its reads. -/
def run (answer : FieldRead → Except Failure FieldResult) : SelfReading → Except Failure Portable
  | done outcome => outcome
  | ask r next => (next (answer r)).run answer

/-- The reads that are made and what each of them comes to. -/
def trace (answer : FieldRead → Except Failure FieldResult) :
    SelfReading → List (FieldRead × Except Failure FieldResult)
  | done _ => []
  | ask r next => (r, answer r) :: (next (answer r)).trace answer

/-- Makes reads, whatever they come to, and then goes on. -/
def after (code : SelfReading) : List FieldRead → SelfReading
  | [] => code
  | r :: reads => ask r fun _ => code.after reads

/-- Makes a read for a part of its result, and goes on with that. -/
def part (r : FieldRead) (get : FieldResult → Option α) (next : α → SelfReading) : SelfReading :=
  ask r fun outcome =>
    match outcome with
    | .error failure => done (.error failure)
    | .ok result =>
      match get result with
      | some item => next item
      | none => done (.error (.reported .serialization ""))

/-- Makes reads, of which the first one that fails is the last one. -/
def all (next : List FieldResult → SelfReading) : List FieldRead → SelfReading
  | [] => next []
  | r :: reads => part r some fun first => all (fun others => next (first :: others)) reads

/-- What a read comes to does not depend on the reads before it. -/
theorem answer_of_mem_trace {code : SelfReading} {entry : FieldRead × Except Failure FieldResult}
    (member : entry ∈ code.trace answer) : entry.2 = answer entry.1 := by
  induction code with
  | done outcome => cases member
  | ask r next ih =>
    rcases List.mem_cons.mp member with rfl | later
    · rfl
    · exact ih _ later

/-- Reads that are made before make no difference to what comes of an object. -/
theorem run_after (code : SelfReading) (reads : List FieldRead) :
    (code.after reads).run answer = code.run answer := by
  induction reads with
  | nil => rfl
  | cons r reads ih => exact ih

theorem run_part {outcome : Except Failure α} {r : FieldRead} {put : α → FieldResult}
    {get : FieldResult → Option α} (next : α → SelfReading) (answers : answer r = put <$> outcome)
    (inverse : ∀ item, get (put item) = some item) :
    (part r get next).run answer = (do let item ← outcome; (next item).run answer) := by
  rw [part, run, answers]
  cases outcome with
  | error failure => rfl
  | ok item =>
    show (match get (put item) with
      | some item => next item
      | none => done (.error (.reported .serialization ""))).run answer = (next item).run answer
    rw [inverse]

theorem run_all (next : List FieldResult → SelfReading) (reads : List FieldRead) :
    (all next reads).run answer = (do let got ← reads.mapM answer; (next got).run answer) := by
  induction reads generalizing next with
  | nil => rfl
  | cons r reads ih =>
    have answers : answer r = id <$> answer r := by cases answer r <;> rfl
    rw [all, run_part _ answers fun _ => rfl, List.mapM_cons]
    cases answer r with
    | error failure => rfl
    | ok first =>
      show (all (fun others => next (first :: others)) reads).run answer = _
      rw [ih]
      cases reads.mapM answer <;> rfl

end SelfReading

/-! What each kind of read is good for. -/

/-- The scalar that was read. -/
def scalarOf (kind : ScalarKind) : FieldResult → Option kind.Item
  | .data (.scalar other item) => if same : other = kind then some (same ▸ item) else none
  | _ => none

/-- The text that was read, or that there was none. -/
def textOf : FieldResult → Option (Option String)
  | .data (.text s) => some s
  | _ => none

/-- The run of scalars that was read, or that there was none. -/
def arrayOf (kind : ScalarKind) : FieldResult → Option (Option (List kind.Item))
  | .data (.array other items) => if same : other = kind then some (same ▸ items) else none
  | _ => none

/-- The run of texts that was read, or that there was none. -/
def textArrayOf : FieldResult → Option (Option (List String))
  | .data (.textArray items) => some items
  | _ => none

/-- The object that was read, or that there was none. -/
def portableOf : FieldResult → Option (Option Portable)
  | .portable p => some p
  | _ => none

namespace SelfReading

/-- Asks for a scalar. -/
def scalar (kind : ScalarKind) (name : String) (next : kind.Item → SelfReading) : SelfReading :=
  part (.field (.scalar kind) name) (scalarOf kind) next

/-- Asks for a text. -/
def text (name : String) (next : Option String → SelfReading) : SelfReading :=
  part (.field .text name) textOf next

/-- Asks for a run of scalars. -/
def array (kind : ScalarKind) (name : String) (next : Option (List kind.Item) → SelfReading) :
    SelfReading :=
  part (.field (.array kind) name) (arrayOf kind) next

/-- Asks for a run of texts. -/
def textArray (name : String) (next : Option (List String) → SelfReading) : SelfReading :=
  part (.field .textArray name) textArrayOf next

section

variable {nested : Act Input Portable} {reader : BodyReader}

@[simp] theorem run_scalar (kind : ScalarKind) (name : String) (next : kind.Item → SelfReading) :
    (scalar kind name next).run (read nested reader) =
      (do let item ← reader.scalar kind name; (next item).run (read nested reader)) :=
  run_part next rfl fun item => by simp [scalarOf]

@[simp] theorem run_text (name : String) (next : Option String → SelfReading) :
    (text name next).run (read nested reader) =
      (do let s ← reader.text name; (next s).run (read nested reader)) :=
  run_part next rfl fun _ => rfl

@[simp] theorem run_array (kind : ScalarKind) (name : String)
    (next : Option (List kind.Item) → SelfReading) :
    (array kind name next).run (read nested reader) =
      (do let items ← reader.array kind name; (next items).run (read nested reader)) :=
  run_part next rfl fun items => by simp [arrayOf]

@[simp] theorem run_textArray (name : String) (next : Option (List String) → SelfReading) :
    (textArray name next).run (read nested reader) =
      (do let items ← reader.textArray name; (next items).run (read nested reader)) :=
  run_part next rfl fun _ => rfl

end

/-- What a link of a chain makes of what lies behind it. -/
def linked (classId : Int32) (typeName : String) : Option Portable → Except Failure Portable
  | none => pure (.link classId 0)
  | some p => do
    match ← p.asSort .scripted typeName with
    | .link _ behind => pure (.link classId (behind + 1))
    | _ => pure (.link classId 1)

/-- How a customer is read. -/
def customer : SelfReading :=
  text "name" fun name => text "emailAddress" fun email =>
  scalar .bool "flag" fun flag => scalar .byte "level" fun level =>
  scalar .char "initial" fun initial => scalar .short "small" fun small =>
  scalar .int "age" fun age => scalar .long "visits" fun visits =>
  scalar .float "ratio" fun ratio => scalar .double "balance" fun balance =>
  array .byte "levels" fun levels => array .bool "flags" fun flags =>
  array .char "initials" fun initials => array .short "smalls" fun smalls =>
  array .int "ages" fun ages => array .long "log" fun visitLog =>
  array .float "ratios" fun ratios => array .double "balances" fun balances =>
  textArray "tags" fun tags =>
  done (.ok (.customer ⟨name.getD "", email, flag, level, initial, small, age, visits, ratio,
    balance, levels.getD [], flags.getD [], initials.getD [], smalls.getD [], ages.getD [],
    visitLog.getD [], ratios.getD [], balances.getD [], tags.getD [], Customer.blank.session⟩))

/-- What a blank object does to read itself. -/
def ofBlank : BlankPortable → SelfReading
  | .scripted classId reads =>
    all (fun got => done (.ok (.scripted classId none [] none got))) reads
  | .link classId typeName =>
    part (.field .portable "next") portableOf fun found => done (linked classId typeName found)
  | .silent classId => done (.ok (.silent classId))
  | .customer => customer

end SelfReading

variable {nested : Act Input Portable} {reader : BodyReader}

/-- Blank objects read themselves by reads alone. -/
theorem readObject_eq_run (blank : BlankPortable) :
    readObject nested reader blank = (SelfReading.ofBlank blank).run (read nested reader) := by
  cases blank with
  | scripted classId reads =>
    rw [SelfReading.ofBlank, SelfReading.run_all]
    rfl
  | link classId =>
    have answers : read nested reader (.field .portable "next") =
        FieldResult.portable <$> portableIn nested reader "next" := rfl
    rw [SelfReading.ofBlank, SelfReading.run_part _ answers fun _ => rfl, readObject]
    congr 1
  | silent classId => rfl
  | customer =>
    simp only [SelfReading.ofBlank, SelfReading.customer, SelfReading.run_scalar,
      SelfReading.run_text, SelfReading.run_array, SelfReading.run_textArray, readObject,
      Customer.read, map_bind]
    rfl

/-- Reads the class and version in a frame, and its body. -/
def header : Act Input (ClassKey × Bytes) := do
  let key ← Input.classKey
  let body ← Input.bytes (← Input.length .portableBody)
  pure (key, body)

/-- What comes of an object that reads itself from a body, where `nested` reads the frames of the
    objects inside. -/
def readBody (nested : Act Input Portable) (object : Except Failure SelfReading)
    (definition : ClassDefinition) (body : Bytes) : Except Failure Portable := do
  let code ← object
  let reader ← BodyReader.start definition body
  code.run (read nested reader)

/-- Reads a frame that may still hold objects `levels - 1` deep, where the objects of each class
    read themselves as given. -/
def openBy (context : PortableContext) (objects : Int32 → Except Failure SelfReading) :
    (levels : Nat) → Act Input Portable
  | 0 => Act.fail .portablesTooDeep
  | levels + 1 => do
    let (key, body) ← header
    match context.lookup key with
    | none => Act.fail (.noDefinition key.classId key.version)
    | some definition =>
      Act.lift (readBody (openBy context objects levels) (objects key.classId) definition body)

/-- What the objects that a source makes do to read themselves. -/
def Source.objects (source : Source) (classId : Int32) : Except Failure SelfReading :=
  SelfReading.ofBlank <$> source.create classId

/-- Frames are opened with what the factory makes. -/
theorem openWithin_eq_openBy (source : Source) (levels : Nat) :
    openWithin source levels = openBy source.context source.objects levels := by
  induction levels with
  | zero => rfl
  | succ levels ih =>
    rw [openWithin, openBy, header]
    simp only [bind_assoc, pure_bind]
    congr 1
    funext key
    congr 1
    funext n
    congr 1
    funext body
    cases source.context.lookup key with
    | none => rfl
    | some definition =>
      simp only [readObject_eq_run, ih, Source.objects, readBody]
      cases source.create key.classId <;> rfl

/-! Reads come back, and so do objects that only make reads. -/

theorem not_goesOn_map {α β : Type} {outcome : Except Failure α} (ended : ¬ GoesOn outcome)
    (f : α → β) : ¬ GoesOn (f <$> outcome) := by
  cases outcome with
  | ok value => exact not_goesOn_ok _
  | error failure => exact fun goesOn => ended (goesOn_error_iff.mpr (goesOn_error_iff.mp goesOn))

theorem not_goesOn_mapM {α β : Type} {f : α → Except Failure β} (each : ∀ item, ¬ GoesOn (f item))
    (items : List α) : ¬ GoesOn (items.mapM f) := by
  induction items with
  | nil => exact not_goesOn_ok _
  | cons item items ih =>
    rw [List.mapM_cons]
    exact not_goesOn_bind (each item) fun _ => not_goesOn_bind ih fun _ => not_goesOn_ok _

theorem not_goesOn_asSort (sort : PortableSort) (typeName : String) (p : Portable) :
    ¬ GoesOn (p.asSort sort typeName) := by
  unfold Portable.asSort
  split
  · exact not_goesOn_ok p
  · exact fun goesOn => goesOn_error_iff.mp goesOn

theorem not_goesOn_checkDecoded (name : String) (p : Portable) :
    ¬ GoesOn (checkDecoded reader name p) := by
  unfold checkDecoded
  dsimp only
  split
  · exact not_goesOn_ok p
  · exact fun goesOn => goesOn_error_iff.mp goesOn

theorem not_goesOn_seek (name : String) (kind : FieldKind) : ¬ GoesOn (reader.seek name kind) := by
  unfold BodyReader.seek
  split
  case h_1 => exact not_goesOn_ok _
  case h_2 field _ =>
    by_cases unlike : field.kind ≠ kind
    · rw [if_pos unlike]
      exact fun goesOn => goesOn_error_iff.mp goesOn
    · rw [if_neg unlike]
      dsimp only
      apply not_goesOn_bind (Input.returns_int _)
      intro offset
      split
      · exact not_goesOn_ok _
      · split
        · exact not_goesOn_ok _
        · exact fun goesOn => goesOn_error_iff.mp goesOn

theorem not_goesOn_seekPresent (name : String) (kind : FieldKind) :
    ¬ GoesOn (reader.seekPresent name kind) := by
  unfold BodyReader.seekPresent
  apply not_goesOn_bind (not_goesOn_seek name kind)
  intro place
  cases place with
  | none => exact not_goesOn_ok _
  | some input =>
    have flag : ¬ GoesOn (Input.bool input).1 := ((Input.returns_bytes 1).map _).map _ input
    dsimp only [Act.run]
    rcases ran : Input.bool input with ⟨failure | flagged, rest⟩
    · rw [ran] at flag
      exact fun goesOn => flag (goesOn_error_iff.mpr (goesOn_error_iff.mp goesOn))
    · cases flagged <;> exact not_goesOn_ok _

theorem returns_decode (kind : ScalarKind) : kind.decode.Returns := by
  have word : ∀ w, (Input.word w).Returns := fun w => (Input.returns_bytes w).map _
  cases kind with
  | char =>
    apply (word 2).bind
    intro code
    split
    · exact Act.returns_pure _
    · exact Act.returns_fail id
  | _ => exact (word _).map _

theorem returns_counted {α : Type} {item : Act Input α} (returns : item.Returns) (name : String) :
    (Input.counted name item).Returns := by
  have times : ∀ n, (Act.times n item).Returns := by
    intro n
    induction n with
    | zero => exact Act.returns_pure []
    | succ n ih => exact returns.bind fun _ => ih.bind fun _ => Act.returns_pure _
  apply Input.returns_int.bind
  intro count
  split
  · exact Act.returns_fail id
  · exact times _

theorem not_goesOn_run {α : Type} {item : Act Input α} (returns : item.Returns) (kind : FieldKind)
    (name : String) : ¬ GoesOn (reader.run kind item name) := by
  apply not_goesOn_bind (not_goesOn_seekPresent name kind)
  intro place
  cases place with
  | none => exact not_goesOn_ok _
  | some input => exact not_goesOn_map (returns_counted returns name input) _

theorem not_goesOn_portableIn (returns : nested.Returns) (name : String) :
    ¬ GoesOn (portableIn nested reader name) := by
  apply not_goesOn_bind (not_goesOn_seekPresent name .portable)
  intro place
  cases place with
  | none => exact not_goesOn_ok _
  | some input =>
    apply not_goesOn_bind (returns input)
    intro p
    exact not_goesOn_map (not_goesOn_checkDecoded name p) _

theorem not_goesOn_portablesIn (returns : nested.Returns) (name : String) :
    ¬ GoesOn (portablesIn nested reader name) :=
  not_goesOn_run (returns.bind fun p => Act.returns_lift (not_goesOn_checkDecoded name p)) _ name

/-- Whatever is read, the read comes back if frames do. -/
theorem not_goesOn_read (returns : nested.Returns) (r : FieldRead) :
    ¬ GoesOn (read nested reader r) := by
  cases r with
  | field kind name =>
    cases kind with
    | scalar kind =>
      apply not_goesOn_map
      apply not_goesOn_bind (not_goesOn_seek name _)
      intro place
      cases place with
      | none => exact not_goesOn_ok _
      | some input => exact returns_decode kind input
    | text =>
      apply not_goesOn_map
      apply not_goesOn_bind (not_goesOn_seekPresent name _)
      intro place
      cases place with
      | none => exact not_goesOn_ok _
      | some input => exact not_goesOn_map (Input.returns_string input) _
    | array kind => exact not_goesOn_map (not_goesOn_run (returns_decode kind) _ name) _
    | textArray => exact not_goesOn_map (not_goesOn_run Input.returns_string _ name) _
    | portable => exact not_goesOn_map (not_goesOn_portableIn returns name) _
    | portableArray => exact not_goesOn_map (not_goesOn_portablesIn returns name) _
  | objectIn name sort typeName =>
    apply not_goesOn_bind (not_goesOn_portableIn returns name)
    intro found
    cases found with
    | none => exact not_goesOn_ok _
    | some p => exact not_goesOn_map (not_goesOn_asSort _ _ p) _
  | objectsIn name sort typeName =>
    apply not_goesOn_bind (not_goesOn_portablesIn returns name)
    intro found
    cases found with
    | none => exact not_goesOn_ok _
    | some items => exact not_goesOn_map (not_goesOn_mapM (not_goesOn_asSort _ _) items) _
  | version => exact not_goesOn_ok _
  | has name => exact not_goesOn_ok _
  | kindOf name => exact not_goesOn_ok _
  | fail text => exact fun goesOn => goesOn_error_iff.mp goesOn

/-- The object comes to an end if its reads do. -/
def SelfReading.Returns (code : SelfReading) : Prop :=
  ∀ answer, (∀ r, ¬ GoesOn (answer r)) → ¬ GoesOn (code.run answer)

/-- Objects of every class are made, or not, and come to an end if their reads do. -/
structure Ending (objects : Int32 → Except Failure SelfReading) : Prop where
  made : ∀ classId, ¬ GoesOn (objects classId)
  returns : ∀ classId code, objects classId = .ok code → code.Returns

namespace SelfReading

variable {α : Type}

theorem returns_done {outcome : Except Failure Portable} (ended : ¬ GoesOn outcome) :
    (done outcome).Returns :=
  fun _ _ => ended

theorem returns_part {r : FieldRead} {get : FieldResult → Option α} {next : α → SelfReading}
    (rest : ∀ item, (next item).Returns) : (part r get next).Returns := by
  intro answer ended
  have first := ended r
  rw [part, run]
  cases answered : answer r with
  | error failure =>
    rw [answered] at first
    exact fun goesOn => first (goesOn_error_iff.mpr (goesOn_error_iff.mp goesOn))
  | ok result =>
    dsimp only
    cases get result with
    | none => exact fun goesOn => goesOn_error_iff.mp goesOn
    | some item => exact rest item answer ended

theorem returns_all {next : List FieldResult → SelfReading} (rest : ∀ got, (next got).Returns)
    (reads : List FieldRead) : (all next reads).Returns := by
  induction reads generalizing next with
  | nil => exact rest []
  | cons r reads ih => exact returns_part fun first => ih fun others => rest (first :: others)

theorem returns_linked (classId : Int32) (typeName : String) (found : Option Portable) :
    ¬ GoesOn (linked classId typeName found) := by
  cases found with
  | none => exact not_goesOn_ok _
  | some p =>
    apply not_goesOn_bind (not_goesOn_asSort _ _ p)
    intro q
    cases q <;> exact not_goesOn_ok _

theorem returns_customer : customer.Returns := by
  repeat
    refine returns_part fun _ => ?_
  exact returns_done (not_goesOn_ok _)

theorem returns_ofBlank (blank : BlankPortable) : (ofBlank blank).Returns := by
  cases blank with
  | scripted classId reads => exact returns_all (fun _ => returns_done (not_goesOn_ok _)) reads
  | link classId => exact returns_part fun found => returns_done (returns_linked classId _ found)
  | silent classId => exact returns_done (not_goesOn_ok _)
  | customer => exact returns_customer

end SelfReading

/-- All that a factory makes comes to an end. -/
theorem Source.ending (source : Source) : Ending source.objects := by
  refine ⟨fun classId => not_goesOn_map ?_ _, fun classId code made => ?_⟩
  · unfold Source.create
    split
    · exact fun goesOn => goesOn_error_iff.mp goesOn
    · split
      · exact fun goesOn => goesOn_error_iff.mp goesOn
      · exact not_goesOn_ok _
  · obtain ⟨blank, -, rfl⟩ := Act.settled_map_ok made
    exact SelfReading.returns_ofBlank blank

/-- Opening frames comes back. -/
theorem returns_openBy {context : PortableContext} {objects : Int32 → Except Failure SelfReading}
    (ending : Ending objects) (levels : Nat) : (openBy context objects levels).Returns := by
  induction levels with
  | zero => exact Act.returns_fail id
  | succ levels ih =>
    have headers : header.Returns :=
      Input.returns_classKey.bind fun _ => (Input.returns_length _).bind fun n =>
        (Input.returns_bytes n).bind fun _ => Act.returns_pure _
    apply headers.bind
    rintro ⟨key, body⟩
    dsimp only
    split
    case h_1 => exact Act.returns_fail id
    case h_2 definition _ =>
      apply Act.returns_lift
      unfold readBody
      cases made : objects key.classId with
      | error failure =>
        have ended := ending.made key.classId
        rw [made] at ended
        exact fun goesOn => ended (goesOn_error_iff.mpr (goesOn_error_iff.mp goesOn))
      | ok code =>
        have started : ¬ GoesOn (BodyReader.start definition body) := by
          unfold BodyReader.start
          split
          · exact fun goesOn => goesOn_error_iff.mp goesOn
          · exact not_goesOn_ok _
        apply not_goesOn_bind started
        intro reader
        exact ending.returns key.classId code made _ fun r => not_goesOn_read ih r

end ObjectWire.Frame
