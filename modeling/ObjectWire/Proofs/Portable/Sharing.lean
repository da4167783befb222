import Mathlib.Algebra.BigOperators.Ring.List
import Mathlib.Algebra.Order.BigOperators.Group.List
import Mathlib.Algebra.Order.Ring.Nat
import ObjectWire.Proofs.Portable.Instances

/-!
# Fields that share bytes

The objects in different fields of an object may be read from the same bytes, since each field is
where its offset says.  So there may be more objects than there are bytes.  Where no byte is read
for more than so many fields of an object, as in a body in which no two fields share a byte, every
level of objects is read from bytes of the level around it, and from each byte that often at most.
Every object takes twelve bytes apart from those of the objects inside it, which bounds the number
of objects by the number of bytes.
-/

namespace ObjectWire

/-- So many of the numbers below a bound lie in an interval. -/
theorem countP_range_between (low high n : Nat) (inside : high ≤ n) :
    (List.range n).countP (fun i => low ≤ i && i < high) = high - low := by
  have upTo : ∀ n, (List.range n).countP (fun i => low ≤ i && i < high) = min n high - low := by
    intro n
    induction n with
    | zero => simp
    | succ n ih =>
      rw [List.range_succ, List.countP_append, ih, List.countP_singleton]
      split
      case isTrue between =>
        simp only [Bool.and_eq_true, decide_eq_true_eq] at between
        omega
      case isFalse outside =>
        simp only [Bool.and_eq_true, decide_eq_true_eq] at outside
        omega
  rw [upTo, min_eq_right inside]

/-- Where each number belongs to so many items at most, the numbers that belong to the items are so
    often as many at most. -/
theorem sum_countP_range_le {α : Type} {items : List α} {belongs : α → Nat → Bool} {m : Nat}
    (each : ∀ i, items.countP (belongs · i) ≤ m) (n : Nat) :
    (items.map fun item => (List.range n).countP (belongs item)).sum ≤ n * m := by
  induction n with
  | zero => simp
  | succ n ih =>
    have last : ∀ items : List α, (items.map fun item => [n].countP (belongs item)).sum =
        items.countP (belongs · n) := by
      intro items
      induction items with
      | nil => rfl
      | cons item items ih =>
        rw [List.map_cons, List.sum_cons, ih, List.countP_singleton, List.countP_cons,
          Nat.add_comm]
    simp only [List.range_succ, List.countP_append, List.sum_map_add, last]
    have := each n
    rw [Nat.succ_mul]
    omega

namespace Frame

/-- No field is read twice for the objects in it. -/
def SelfReading.ReadsOnce (code : SelfReading) : Prop :=
  ∀ answer, ((code.trace answer).filterMap fun entry => entry.1.objectsIn?).Nodup

variable {nested : Act Input Portable} {reader : BodyReader} {name : String} {kind : FieldKind}
  {context : PortableContext} {objects : Int32 → Except Failure SelfReading} {input : Input}
  {levels : Nat} {step : Act Input Portable} {first inner rest : Input} {code : SelfReading}
  {weight : Input → Nat} {share m : Nat}

/-- Reading the objects in a field takes the byte that has so many bytes of the body behind it. -/
def occupies (nested : Act Input Portable) (reader : BodyReader) (name : String)
    (kind : FieldKind) (behind : Nat) : Bool :=
  match reader.seek name kind with
  | .ok (some input) =>
    let (_, rest) := readData (checked nested (checkDecoded reader name)) name kind input
    rest.remaining ≤ behind && behind < input.remaining
  | _ => false

/-- No byte is taken by the objects in more than so many fields. -/
def SharedBy (m : Nat) (nested : Act Input Portable) (reader : BodyReader) : Prop :=
  ∀ behind, reader.definition.fields.countP (fun field =>
    field.kind.isPortable && occupies nested reader field.name field.kind behind) ≤ m

/-- In the frame in front of the input, and in every frame that is found inside, no byte is taken by
    the objects in more than so many fields. -/
def SharedWithin (context : PortableContext) (objects : Int32 → Except Failure SelfReading)
    (m : Nat) : (levels : Nat) → Input → Prop
  | 0, _ => True
  | levels + 1, input =>
    ∀ reader, Opens context input reader →
      SharedBy m (openBy context objects levels) reader ∧
        ∀ inner, FrameAt (openBy context objects levels) reader inner →
          SharedWithin context objects m levels inner

/-! The frames in a field lie one behind the other. -/

theorem times_succ_state (n : Nat) (step : Act Input Portable) (input : Input) :
    (Act.times (n + 1) step input).2 =
      match step input with
      | (.ok _, rest) => (Act.times n step rest).2
      | (.error _, rest) => rest := by
  show ((step >>= fun p => (p :: ·) <$> Act.times n step) input).2 = _
  rw [Act.bind_apply]
  rcases step input with ⟨_ | p, rest⟩
  · rfl
  · show (((p :: ·) <$> Act.times n step) rest).2 = _
    rw [Act.map_apply]

theorem checked_state (nested : Act Input Portable) (check : Portable → Except Failure Portable)
    (input : Input) : (checked nested check input).2 = (nested input).2 := by
  rw [checked, Act.bind_apply]
  rcases nested input with ⟨_ | p, rest⟩ <;> rfl

theorem sum_starts_le {n : Nat}
    (each : ∀ inner ∈ starts step n first,
      weight inner + share * (step inner).2.remaining ≤ share * inner.remaining) :
    ((starts step n first).map weight).sum + share * (Act.times n step first).2.remaining ≤
      share * first.remaining := by
  induction n generalizing first with
  | zero =>
    rw [starts, List.map_nil, List.sum_nil, Nat.zero_add]
    rfl
  | succ n ih =>
    rw [starts] at each ⊢
    have here := each first (List.mem_cons_self ..)
    rw [times_succ_state, List.map_cons, List.sum_cons]
    rcases ran : step first with ⟨failure | p, rest⟩
    · rw [ran] at here
      simpa using here
    · rw [ran] at here each
      have later := ih fun inner member => each inner (List.mem_cons_of_mem _ member)
      dsimp only at here ⊢
      omega

/-- Reading what a field holds ends behind the last of its frames that is read. -/
theorem readData_state (item : Act Input Portable) {n : Nat} {start : Input}
    (announced : announced? reader name kind = some (n, first))
    (sought : reader.seek name kind = .ok (some start)) :
    first.remaining ≤ start.remaining ∧
      (readData item name kind start).2 = (Act.times n item first).2 := by
  obtain ⟨place, found, single | array⟩ := announced?_eq_some announced
  all_goals
    obtain ⟨origin, known, flagged⟩ := BodyReader.seekPresent_ok found
    obtain rfl : origin = start := by
      rw [sought] at known
      cases known
      rfl
    have behind := (Act.within_of_ok Input.advances_bool flagged).remaining_le
  · obtain ⟨rfl, rfl, rfl⟩ := single
    refine ⟨behind, ?_⟩
    rw [readData, Act.map_apply, Input.present, Act.bind_of_ok flagged, if_pos rfl, Act.map_apply]
    rw [times_succ_state]
    rcases item first with ⟨_ | p, rest⟩ <;> rfl
  · obtain ⟨rfl, count, counted, rfl⟩ := array
    refine ⟨(Act.within_of_ok Input.advances_int counted).remaining_le.trans behind, ?_⟩
    rw [readData, Act.map_apply, Input.present, Act.bind_of_ok flagged, if_pos rfl, Act.map_apply,
      Input.counted, Act.bind_of_ok counted]
    split
    case isFalse => rfl
    case isTrue negative =>
      have none : count.toNatClampNeg = 0 := by
        have below : count.toInt < 0 := Int32.lt_iff_toInt_lt.mp negative
        exact Int.toNat_of_nonpos below.le
      rw [none]
      rfl

theorem sum_framesIn_le
    (each : ∀ inner ∈ framesIn nested reader name kind,
      weight inner + share * (nested inner).2.remaining ≤ share * inner.remaining) :
    ((framesIn nested reader name kind).map weight).sum ≤
      share * (List.range reader.body.length).countP (occupies nested reader name kind) := by
  unfold framesIn at each ⊢
  cases announced : announced? reader name kind with
  | none => exact Nat.zero_le _
  | some found =>
    obtain ⟨n, first⟩ := found
    rw [announced] at each
    obtain ⟨place, found, -⟩ := announced?_eq_some announced
    obtain ⟨start, sought, -⟩ := BodyReader.seekPresent_ok found
    obtain ⟨-, offset, -, -, -, -, origin⟩ := BodyReader.seek_ok sought
    have inside : start.remaining ≤ reader.body.length := by
      rw [origin]
      exact (List.drop_suffix offset reader.body).length_le
    let item := checked nested (checkDecoded reader name)
    obtain ⟨behind, last⟩ := readData_state item announced sought
    have run : ((starts item n first).map weight).sum +
        share * (Act.times n item first).2.remaining ≤ share * first.remaining := by
      apply sum_starts_le
      intro inner member
      rw [checked_state]
      exact each inner member
    have between : occupies nested reader name kind = fun i =>
        (Act.times n item first).2.remaining ≤ i && i < start.remaining := by
      funext i
      simp only [occupies, sought, item, ← last]
    have share_le := Nat.mul_le_mul_left share behind
    rw [between, countP_range_between _ _ _ inside, Nat.mul_sub]
    show ((starts item n first).map weight).sum ≤ _
    omega

/-! Every byte of a body is taken for so many reads at most. -/

theorem isPortable_of_objectsIn? {r : FieldRead} (read : r.objectsIn? = some (name, kind)) :
    kind.isPortable = true := by
  unfold FieldRead.objectsIn? at read
  split at read <;> cases read <;> rfl

/-- A field that is read for objects is one of the fields of the class. -/
theorem mem_fields_of_occupies {behind : Nat}
    (occupied : occupies nested reader name kind behind = true) :
    ∃ field ∈ reader.definition.fields, field.name = name ∧ field.kind = kind := by
  unfold occupies at occupied
  split at occupied
  case h_1 input sought =>
    obtain ⟨field, -, found, same, -⟩ := BodyReader.seek_ok sought
    have named := List.find?_some found
    exact ⟨field, List.mem_of_find?_eq_some found, of_decide_eq_true named, same⟩
  case h_2 => cases occupied

theorem countP_occupies_le {fields : List (String × FieldKind)} (once : fields.Nodup)
    (portable : ∀ field ∈ fields, field.2.isPortable = true)
    (shared : SharedBy m nested reader) (behind : Nat) :
    fields.countP (fun field => occupies nested reader field.1 field.2 behind) ≤ m := by
  let declared := reader.definition.fields.filter fun field =>
    field.kind.isPortable && occupies nested reader field.name field.kind behind
  have subset : fields.filter (fun field => occupies nested reader field.1 field.2 behind) ⊆
      declared.map fun field => (field.name, field.kind) := by
    rintro ⟨name, kind⟩ member
    obtain ⟨among, occupied⟩ := List.mem_filter.mp member
    obtain ⟨field, within, rfl, rfl⟩ := mem_fields_of_occupies occupied
    have wanted := Bool.and_eq_true_iff.mpr ⟨portable _ among, occupied⟩
    exact List.mem_map.mpr ⟨field, List.mem_filter.mpr ⟨within, wanted⟩, rfl⟩
  have length := (List.subperm_of_subset (once.filter _) subset).length_le
  rw [List.length_map] at length
  rw [List.countP_eq_length_filter]
  exact length.trans ((List.countP_eq_length_filter ..).symm.trans_le (shared behind))

/-- What the frames that an object reads come to, field by field. -/
theorem sum_trace_eq (answer : FieldRead → Except Failure FieldResult) :
    ((code.trace answer).map fun entry =>
      ((framesOf nested reader entry.1).map weight).sum).sum =
    (((code.trace answer).filterMap fun entry => entry.1.objectsIn?).map fun field =>
      ((framesIn nested reader field.1 field.2).map weight).sum).sum := by
  induction code.trace answer with
  | nil => rfl
  | cons entry entries ih =>
    rw [List.map_cons, List.sum_cons, ih]
    cases read : entry.1.objectsIn? with
    | none => simp [framesOf, read]
    | some field => simp [framesOf, read]

theorem sum_trace_le (once : code.ReadsOnce) (shared : SharedBy m nested reader)
    (each : ∀ inner, FrameAt nested reader inner →
      weight inner + share * (nested inner).2.remaining ≤ share * inner.remaining) :
    ((code.trace (read nested reader)).map fun entry =>
      ((framesOf nested reader entry.1).map weight).sum).sum ≤
        share * (reader.body.length * m) := by
  rw [sum_trace_eq]
  let fields := (code.trace (read nested reader)).filterMap fun entry => entry.1.objectsIn?
  calc (fields.map fun field => ((framesIn nested reader field.1 field.2).map weight).sum).sum
      ≤ (fields.map fun field => share * (List.range reader.body.length).countP
          (occupies nested reader field.1 field.2)).sum := by
        apply List.sum_le_sum
        intro field _
        exact sum_framesIn_le fun inner member => each inner (frameAt_of_mem member)
    _ = share * (fields.map fun field => (List.range reader.body.length).countP
          (occupies nested reader field.1 field.2)).sum := List.sum_map_mul_left ..
    _ ≤ share * (reader.body.length * m) := by
        apply Nat.mul_le_mul_left
        apply sum_countP_range_le
        refine countP_occupies_le (once _) ?_ shared
        intro field member
        obtain ⟨entry, -, read⟩ := List.mem_filterMap.mp member
        exact isPortable_of_objectsIn? read

/-! A level of objects, and all of them. -/

/-- Opening a frame takes its header and its body, whatever comes of the body. -/
theorem openBy_state {key : ClassKey} {body : Bytes}
    (headed : header input = (.ok (key, body), rest)) :
    (openBy context objects (levels + 1) input).2 = rest := by
  rw [openBy, Act.bind_of_ok headed]
  dsimp only
  cases context.lookup key <;> rfl

section Level

variable (once : ∀ classId code, objects classId = .ok code → code.ReadsOnce)
  (shared : ∀ reader, Opens context input reader →
    SharedBy m (openBy context objects levels) reader)
  (each : ∀ reader, Opens context input reader →
    ∀ inner, FrameAt (openBy context objects levels) reader inner →
      12 * created context objects levels inner +
        share * (openBy context objects levels inner).2.remaining ≤ share * inner.remaining)
include once shared each

theorem created_le_of_header {key : ClassKey} {body : Bytes}
    (headed : header input = (.ok (key, body), rest)) :
    12 * created context objects (levels + 1) input ≤ 12 + share * (body.length * m) := by
  rw [created, headed]
  dsimp only
  split
  case h_2 => exact Nat.zero_le _
  case h_1 definition code found made =>
    cases started : BodyReader.start definition body with
    | error failure => exact Nat.le_add_right 12 _
    | ok reader =>
      obtain ⟨rfl, -⟩ := BodyReader.start_ok started
      have opened : Opens context input ⟨definition, body⟩ := ⟨key, rest, headed, found, started⟩
      have inside := sum_trace_le (once _ code made) (shared _ opened) (each _ opened)
      simp only [List.sum_map_mul_left] at inside
      dsimp only
      omega

/-- If the objects inside account for a share of their bytes, and no byte belongs to more than so
    many fields, the objects of the frame account for the product. -/
theorem created_step {whole : Nat} (positive : 1 ≤ whole) (enough : share * m ≤ whole) :
    12 * created context objects (levels + 1) input +
        whole * (openBy context objects (levels + 1) input).2.remaining ≤
      whole * input.remaining := by
  rcases headed : header input with ⟨failure | ⟨key, body⟩, rest⟩
  · have none : created context objects (levels + 1) input = 0 := by rw [created, headed]
    rw [none, Nat.mul_zero, Nat.zero_add]
    exact Nat.mul_le_mul_left whole (advances_openBy (levels + 1) input).remaining_le
  · obtain ⟨front, split, room⟩ := header_ok headed
    have bytes : input.remaining = front.length + body.length + rest.remaining := by
      rw [Input.remaining, Input.remaining, split, List.length_append, List.length_append]
    rw [openBy_state headed, bytes]
    calc 12 * created context objects (levels + 1) input + whole * rest.remaining
        ≤ 12 + share * (body.length * m) + whole * rest.remaining :=
          Nat.add_le_add_right (created_le_of_header once shared each headed) _
      _ ≤ whole * front.length + whole * body.length + whole * rest.remaining := by
          apply Nat.add_le_add_right
          apply Nat.add_le_add
          · exact room.trans (Nat.le_mul_of_pos_left _ positive)
          · rw [Nat.mul_left_comm, Nat.mul_comm]
            exact Nat.mul_le_mul_right _ enough
      _ = whole * (front.length + body.length + rest.remaining) := by
          rw [Nat.mul_add, Nat.mul_add]

end Level

theorem created_of_short (short : input.remaining < 12) :
    created context objects levels input = 0 := by
  cases levels with
  | zero => rfl
  | succ levels =>
    rcases headed : header input with ⟨failure | ⟨key, body⟩, rest⟩
    · rw [created, headed]
    · have room := (holds_of_header headed).length_le
      unfold Input.remaining at short
      omega

/-- The bytes in front of which a frame lies inside another one are fewer by a header. -/
theorem FrameAt.remaining_le (frame : FrameAt (openBy context objects levels) reader inner)
    (opened : Opens context input reader) : inner.remaining + 12 ≤ input.remaining := by
  have within := (frame.suffix (advances_openBy levels)).length_le
  have around := opened.holds.length_le
  unfold Input.remaining
  omega

/-- Frames nest as deep as levels are allowed below the first one, or as there is room for their
    headers.  Objects account for no more than their bytes, as often as these are shared at so many
    levels. -/
theorem created_le (once : ∀ classId code, objects classId = .ok code → code.ReadsOnce)
    (positive : 1 ≤ m) {depth : Nat} (deep : levels ≤ depth ∨ input.remaining < 12 * (depth + 2))
    (shared : SharedWithin context objects m (levels + 1) input) :
    12 * created context objects (levels + 1) input +
        m ^ depth * (openBy context objects (levels + 1) input).2.remaining ≤
      m ^ depth * input.remaining := by
  induction depth generalizing levels input with
  | zero =>
    have nothing : ∀ reader, Opens context input reader →
        ∀ inner, FrameAt (openBy context objects levels) reader inner →
          12 * created context objects levels inner +
            0 * (openBy context objects levels inner).2.remaining ≤ 0 * inner.remaining := by
      intro reader opened inner frame
      have none : created context objects levels inner = 0 := by
        rcases deep with last | short
        · rw [Nat.le_zero.mp last, created]
        · have smaller := frame.remaining_le opened
          exact created_of_short (by omega)
      rw [none]
      simp
    exact created_step once (fun reader opened => (shared reader opened).1) nothing
      (Nat.le_refl 1) (by simp)
  | succ depth ih =>
    refine created_step once (fun reader opened => (shared reader opened).1) ?_
      (Nat.one_le_pow _ _ positive) (by rw [Nat.pow_succ])
    intro reader opened inner frame
    cases levels with
    | zero =>
      rw [created, Nat.mul_zero, Nat.zero_add]
      exact Nat.mul_le_mul_left _ (advances_openBy 0 inner).remaining_le
    | succ levels =>
      have smaller := frame.remaining_le opened
      exact ih (by omega) ((shared reader opened).2 inner frame)

/-- No byte is shared by more fields than there are. -/
theorem sharedWithin_of_fields
    (few : ∀ key definition, context.lookup key = some definition →
      definition.fields.countP (fun field => field.kind.isPortable) ≤ m) :
    SharedWithin context objects m levels input := by
  induction levels generalizing input with
  | zero => trivial
  | succ levels ih =>
    intro reader opened
    obtain ⟨key, -, -, found, -⟩ := opened
    refine ⟨fun behind => ?_, fun inner _ => ih⟩
    refine (List.countP_mono_left fun field _ both => ?_).trans (few key _ found)
    exact (Bool.and_eq_true_iff.mp both).1

/-! Objects that read themselves by a list of reads. -/

theorem SelfReading.trace_all_prefix {next : List FieldResult → SelfReading}
    (answer : FieldRead → Except Failure FieldResult)
    (last : ∀ got, (next got).trace answer = []) (reads : List FieldRead) :
    ((all next reads).trace answer).map Prod.fst <+: reads := by
  induction reads generalizing next with
  | nil =>
    rw [all, last]
    exact List.nil_prefix
  | cons r reads ih =>
    rw [all, part, trace, List.map_cons, List.prefix_cons_inj]
    cases answer r with
    | error failure => exact List.nil_prefix
    | ok result => exact ih fun others => last (result :: others)

/-- An object reads each field once if its reads are for objects in different fields. -/
theorem SelfReading.readsOnce_scripted {classId : Int32} {reads : List FieldRead}
    (distinct : (reads.filterMap FieldRead.objectsIn?).Nodup) :
    (ofBlank (.scripted classId reads)).ReadsOnce := by
  intro answer
  have last : ∀ got, (done (.ok (.scripted classId none [] none got))).trace answer = [] :=
    fun _ => rfl
  have made := trace_all_prefix answer last reads
  have sublist := made.sublist.filterMap FieldRead.objectsIn?
  rw [List.filterMap_map] at sublist
  exact distinct.sublist sublist

open PortableContext (Request answering)

/-- Whatever is registered and whatever the bytes are: objects that read each of their fields once
    have twelve bytes each to themselves, as long as no two fields of an object share a byte.  If no
    byte belongs to the objects in more than `m` fields of an object, or if no class has more than
    `m` fields for objects, there may be `m` times as many for every level below the first one.  Of
    these levels there are no more than are allowed, and no more than there is room for headers.
    Any factory makes objects of this kind, and if they keep what they have read, the objects that
    are made are those that opening answers with. -/
theorem objects_within_shared_bytes {context : PortableContext}
    {objects : Int32 → Except Failure SelfReading}
    (once : ∀ classId code, objects classId = .ok code → code.ReadsOnce) (levels : Nat)
    (payload : Bytes) :
    let input := Input.ofBytes payload
    let made := created context objects (levels + 1) input
    (SharedWithin context objects 1 (levels + 1) input → 12 * made ≤ payload.length) ∧
    (∀ m depth, 1 ≤ m → levels ≤ depth ∨ payload.length < 12 * (depth + 2) →
      SharedWithin context objects m (levels + 1) input ∨
        (∀ key definition, context.lookup key = some definition →
          definition.fields.countP (fun field => field.kind.isPortable) ≤ m) →
      12 * made ≤ m ^ depth * payload.length) ∧
    ∀ factory, objects = Source.objects ⟨context, factory⟩ →
      openWithin ⟨context, factory⟩ (levels + 1) = openBy context objects (levels + 1) ∧
      ∀ p rest, openWithin ⟨context, factory⟩ (levels + 1) input = (.ok p, rest) →
        (∀ classId blank, Source.create ⟨context, factory⟩ classId = .ok blank →
          ∃ known reads, blank = .scripted known reads) → made = p.total := by
  intro input made
  have bound : ∀ m depth, 1 ≤ m → levels ≤ depth ∨ payload.length < 12 * (depth + 2) →
      SharedWithin context objects m (levels + 1) input →
        12 * made ≤ m ^ depth * payload.length := by
    intro m depth positive deep shared
    exact (Nat.le_add_right _ _).trans (created_le once positive deep shared)
  refine ⟨fun apart => ?_, fun m depth positive deep shared => ?_, ?_⟩
  · have within := bound 1 levels (Nat.le_refl 1) (.inl (Nat.le_refl levels)) apart
    rwa [Nat.one_pow, Nat.one_mul] at within
  · exact bound m depth positive deep (shared.elim id sharedWithin_of_fields)
  · rintro factory rfl
    exact ⟨openWithin_eq_openBy _ _, fun p rest opened kept => created_eq_total kept opened⟩

/-- A link of a chain and the link inside it: two objects from twenty-nine bytes. -/
theorem objects_within_shared_bytes_of_chain :
    let context := answering [Request.register (ClassDefinition.chain 1)]
      (.start 0 (.ofSettings 16 2 1))
    let factory : PortableFactory := fun classId =>
      some (.scripted classId [.field .portable "next"])
    let objects := Source.objects ⟨context, some factory⟩
    let payload : Bytes := [0, 0, 0, 2, 0, 0, 0, 0, 0, 0, 0, 17, 0, 0, 0, 4, 1,
      0, 0, 0, 1, 0, 0, 0, 0, 0, 0, 0, 0]
    (∀ classId code, objects classId = .ok code → code.ReadsOnce) ∧
      SharedWithin context objects 1 2 (.ofBytes payload) ∧
      created context objects 2 (.ofBytes payload) = 2 ∧
      12 * created context objects 2 (.ofBytes payload) ≤ payload.length ∧
      12 * created context objects 2 (.ofBytes payload) ≤ 1 ^ 1 * payload.length := by
  intro context factory objects payload
  have once : ∀ classId code, objects classId = .ok code → code.ReadsOnce := by
    rintro classId code made
    cases made
    exact SelfReading.readsOnce_scripted (by decide)
  have few : ∀ key definition, context.lookup key = some definition →
      definition.fields.countP (fun field => field.kind.isPortable) ≤ 1 := by
    intro key definition found
    have each : ∀ entry ∈ context.definitions,
        entry.2.fields.countP (fun field => field.kind.isPortable) ≤ 1 := by decide +kernel
    exact each _ (Keyed.mem_of_lookup found)
  have made : created context objects 2 (.ofBytes payload) = 2 := by decide +kernel
  obtain ⟨apart, shared, -⟩ := objects_within_shared_bytes once 1 payload
  exact ⟨once, sharedWithin_of_fields few, made, apart (sharedWithin_of_fields few),
    shared 1 1 (Nat.le_refl 1) (.inl (Nat.le_refl 1)) (.inr few)⟩

end Frame

end ObjectWire
