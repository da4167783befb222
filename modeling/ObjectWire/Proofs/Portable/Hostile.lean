import ObjectWire.Proofs.Portable.Exchange
import ObjectWire.Proofs.Portable.Registered
import ObjectWire.Proofs.Portable.SelfReading
import ObjectWire.Proofs.Wire.Progress

/-!
# Payloads from elsewhere

Offsets, lengths, flags and counts in a frame are whatever its bytes say.  A frame is opened by a
definition that is registered and hence well formed, so its body has room for the slot of every
field; data are sought behind the table and in front of the end; and an object inside is read from
bytes of the body behind its flag.  The body of a frame inside another one is therefore a slice of
the other one's body that lacks at least the twelve bytes in front of it, and opening ends without
any limit to the levels.
-/

namespace ObjectWire

namespace Input

variable {α : Type} {input rest : Input}

/-- A word that there is room for is made of its own bytes. -/
theorem int_of_room {run : Bytes} (room : 4 ≤ run.length) :
    int (.ofBytes run) =
      (.ok (UInt32.ofNat (BigEndian.decode (run.take 4))).toInt32, ⟨run.drop 4, 0 + 4⟩) := by
  have taken : bytes 4 (.ofBytes run) = (.ok (run.take 4), ⟨run.drop 4, 0 + 4⟩) := if_pos room
  rw [int, word, Act.map_apply, Act.map_apply, taken]
  rfl

/-- The second run of bytes lies in the first one, behind so many bytes at least. -/
def Holds (outer : Bytes) (skipped : Nat) (inner : Bytes) : Prop :=
  ∃ front back, outer = front ++ inner ++ back ∧ skipped ≤ front.length

theorem Holds.length_le {outer inner : Bytes} {skipped : Nat} (holds : Holds outer skipped inner) :
    inner.length + skipped ≤ outer.length := by
  obtain ⟨front, back, rfl, room⟩ := holds
  simp only [List.length_append]
  omega

theorem Holds.of_suffix {outer middle inner : Bytes} {skipped : Nat}
    (holds : Holds middle skipped inner) (within : middle <:+ outer) :
    Holds outer skipped inner := by
  obtain ⟨before, rfl⟩ := within
  obtain ⟨front, back, rfl, room⟩ := holds
  refine ⟨before ++ front, back, by simp only [List.append_assoc], ?_⟩
  rw [List.length_append]
  omega

theorem Holds.trans {outer middle inner : Bytes} {skipped further : Nat}
    (first : Holds outer skipped middle) (second : Holds middle further inner) :
    Holds outer (skipped + further) inner := by
  obtain ⟨front, back, rfl, room⟩ := first
  obtain ⟨ahead, behind, rfl, more⟩ := second
  refine ⟨front ++ ahead, behind ++ back, by simp only [List.append_assoc], ?_⟩
  rw [List.length_append]
  omega

theorem Advances.suffix {before after : Input} (h : Advances before after) :
    after.rest <:+ before.rest := by
  obtain ⟨run, split, -⟩ := h
  exact ⟨run, split.symm⟩

end Input

namespace BodyReader

variable {definition : ClassDefinition} {body : Bytes} {reader : BodyReader} {name : String}
  {kind : FieldKind} {input : Input}

theorem start_ok (h : start definition body = .ok reader) :
    reader = ⟨definition, body⟩ ∧ tableSize definition ≤ body.length := by
  unfold start at h
  by_cases short : body.length < tableSize definition
  · rw [if_pos short] at h
    cases h
  · rw [if_neg short] at h
    cases h
    exact ⟨rfl, Nat.le_of_not_lt short⟩

/-- Data are sought for a field of the kind, behind the table and in front of the end. -/
theorem seek_ok (sought : reader.seek name kind = .ok (some input)) :
    ∃ field offset, reader.definition.field? name = some field ∧ field.kind = kind ∧
      tableSize reader.definition ≤ offset ∧ offset ≤ reader.body.length ∧
      input = .ofBytes (reader.body.drop offset) := by
  unfold seek at sought
  split at sought
  case h_1 => cases sought
  case h_2 field found =>
    by_cases unlike : field.kind ≠ kind
    · rw [if_pos unlike] at sought
      cases sought
    · rw [if_neg unlike] at sought
      obtain ⟨-, -, sought⟩ := Act.settled_bind_ok sought
      obtain ⟨offset, -, sought⟩ := Act.settled_bind_ok sought
      by_cases absent : offset = unwritten
      · rw [if_pos absent] at sought
        cases sought
      · rw [if_neg absent] at sought
        split at sought
        case isTrue between =>
          cases sought
          simp only [Bool.and_eq_true, decide_eq_true_eq] at between
          refine ⟨field, offset.toNatClampNeg, found, Decidable.not_not.mp unlike, ?_, ?_, rfl⟩
          all_goals
            unfold Int32.toNatClampNeg
            omega
        case isFalse => cases sought

/-- Whatever is read, no slice goes beyond the body: each field has a slot in the table, which is
    all that its offset depends on, and data are sought in what follows the table. -/
structure InRange (reader : BodyReader) : Prop where
  table : tableSize reader.definition ≤ reader.body.length
  slot : ∀ name field, reader.definition.field? name = some field →
    ∃ position : Nat, field.index.toInt = position ∧
      position * 4 + 4 ≤ tableSize reader.definition ∧
      reader.offsetOf field = .ok (UInt32.ofNat (BigEndian.decode
        ((reader.body.drop (position * 4)).take 4))).toInt32
  data : ∀ name kind input, reader.seek name kind = .ok (some input) →
    ∃ offset, tableSize reader.definition ≤ offset ∧ offset ≤ reader.body.length ∧
      input = .ofBytes (reader.body.drop offset)

theorem inRange (wellFormed : definition.WellFormed) (table : tableSize definition ≤ body.length) :
    InRange ⟨definition, body⟩ := by
  refine ⟨table, fun name field found => ?_, fun name kind input sought => ?_⟩
  · obtain ⟨-, place, -⟩ := wellFormed.position found
    have index : field.index.toInt = field.index.toNatClampNeg :=
      wellFormed.complete.placed _ field place
    have inside := (List.getElem?_eq_some_iff.mp place).1
    have slot : field.index.toNatClampNeg * 4 + 4 ≤ tableSize definition := by
      unfold tableSize
      omega
    have room : 4 ≤ (body.drop (field.index.toNatClampNeg * 4)).length := by
      rw [List.length_drop]
      omega
    refine ⟨field.index.toNatClampNeg, index, slot, ?_⟩
    exact congrArg Prod.fst (Input.int_of_room room)
  · obtain ⟨field, offset, -, -, room, inside, place⟩ := seek_ok sought
    exact ⟨offset, room, inside, place⟩

/-- What is found behind a flag was sought in front of it. -/
theorem seekPresent_ok (found : reader.seekPresent name kind = .ok (some input)) :
    ∃ start, reader.seek name kind = .ok (some start) ∧ Input.bool start = (.ok true, input) := by
  unfold seekPresent at found
  obtain ⟨place, sought, found⟩ := Act.settled_bind_ok found
  cases place with
  | none => cases found
  | some start =>
    rcases flagged : Input.bool start with ⟨_ | flag, rest⟩
    · simp only [Act.run, flagged] at found
      cases found
    · simp only [Act.run, flagged] at found
      cases flag with
      | false => cases found
      | true =>
        cases found
        exact ⟨start, sought, flagged⟩

/-- Behind the flag lies an end of the body. -/
theorem suffix_of_seekPresent (found : reader.seekPresent name kind = .ok (some input)) :
    input.rest <:+ reader.body := by
  obtain ⟨start, sought, flagged⟩ := seekPresent_ok found
  obtain ⟨-, offset, -, -, -, -, rfl⟩ := seek_ok sought
  have forward := Act.within_of_ok Input.advances_bool flagged
  exact forward.suffix.trans (List.drop_suffix offset reader.body)

end BodyReader

namespace Frame

variable {context : PortableContext} {objects : Int32 → Except Failure SelfReading}
  {nested other : Act Input Portable} {reader deeper : BodyReader} {input inner : Input}
  {levels : Nat}

/-- The frame in front of the input is opened with the reader. -/
def Opens (context : PortableContext) (input : Input) (reader : BodyReader) : Prop :=
  ∃ key rest, header input = (.ok (key, reader.body), rest) ∧
    context.lookup key = some reader.definition ∧
    BodyReader.start reader.definition reader.body = .ok reader

/-- Some read comes to the frame of an object there: the object in a field, or one of the run of
    objects in a field when those in front of it were read. -/
inductive FrameAt (nested : Act Input Portable) (reader : BodyReader) : Input → Prop
  | single {name : String} {input : Input}
      (found : reader.seekPresent name .portable = .ok (some input)) : FrameAt nested reader input
  | item {name : String} {start first input : Input} {count : Int32} {i : Nat}
      {items : List Portable} (found : reader.seekPresent name .portableArray = .ok (some start))
      (counted : Input.int start = (.ok count, first)) (inside : i < count.toNatClampNeg)
      (before : Act.times i (checked nested (checkDecoded reader name)) first =
        (.ok items, input)) : FrameAt nested reader input

/-- A frame is opened with the reader while the frame in front of the input is read: that frame, or
    one that some read of its object comes to. -/
inductive Reaches (context : PortableContext) (objects : Int32 → Except Failure SelfReading) :
    (levels : Nat) → Input → BodyReader → Prop
  | here {levels : Nat} {input : Input} {reader : BodyReader}
      (opened : Opens context input reader) : Reaches context objects (levels + 1) input reader
  | inside {levels : Nat} {input inner : Input} {reader deeper : BodyReader}
      (opened : Opens context input reader)
      (frame : FrameAt (openBy context objects levels) reader inner)
      (reached : Reaches context objects levels inner deeper) :
      Reaches context objects (levels + 1) input deeper

/-! Frames lie inside the bodies of frames. -/

theorem advances_header : header.Within Input.Advances :=
  Input.advances_classKey.bind fun _ => (Input.advances_length _).bind fun n =>
    (Input.advances_bytes n).bind fun _ => Act.within_pure _

theorem advances_openBy (levels : Nat) :
    (openBy context objects levels).Within Input.Advances := by
  cases levels with
  | zero => exact Act.within_fail _
  | succ levels =>
    apply advances_header.bind
    rintro ⟨key, body⟩
    dsimp only
    split
    case h_1 => exact Act.within_fail _
    case h_2 => exact Act.within_lift _

/-- A frame is its body with twelve bytes in front; what follows is left. -/
theorem header_ok {key : ClassKey} {body : Bytes} {rest : Input}
    (h : header input = (.ok (key, body), rest)) :
    ∃ front, input.rest = front ++ body ++ rest.rest ∧ 12 ≤ front.length := by
  obtain ⟨known, afterKey, keyed, h⟩ := Act.bind_ok h
  obtain ⟨n, afterLength, counted, h⟩ := Act.bind_ok h
  obtain ⟨run, afterBody, taken, h⟩ := Act.bind_ok h
  cases h
  obtain ⟨first, split, -⟩ := Act.within_of_ok Input.advances_classKey keyed
  obtain ⟨second, further, -⟩ := Act.within_of_ok (Input.advances_length _) counted
  obtain ⟨-, last, -⟩ := Input.bytes_ok taken
  have eight := Input.costs_classKey input afterKey _ keyed
  have four := Input.costs_length _ afterKey afterLength n counted
  simp only [Input.remaining, split, further, List.length_append] at eight four
  refine ⟨first ++ second, ?_, ?_⟩
  · rw [split, further, last]
    simp only [List.append_assoc]
  · rw [List.length_append]
    omega

theorem holds_of_header {key : ClassKey} {body : Bytes} {rest : Input}
    (h : header input = (.ok (key, body), rest)) : Input.Holds input.rest 12 body := by
  obtain ⟨front, split, room⟩ := header_ok h
  exact ⟨front, rest.rest, split, room⟩

theorem Opens.holds (opened : Opens context input reader) :
    Input.Holds input.rest 12 reader.body := by
  obtain ⟨key, rest, read, -, -⟩ := opened
  exact holds_of_header read

theorem Opens.inRange (opened : Opens context input reader) (formed : context.Formed) :
    reader.InRange := by
  obtain ⟨key, rest, -, found, started⟩ := opened
  obtain ⟨-, table⟩ := BodyReader.start_ok started
  exact BodyReader.inRange (formed key _ found) table

/-- A frame that a read comes to lies in the body. -/
theorem FrameAt.suffix (frame : FrameAt nested reader inner)
    (forward : nested.Within Input.Advances) : inner.rest <:+ reader.body := by
  cases frame with
  | single found => exact BodyReader.suffix_of_seekPresent found
  | @item name start first _ count i items found counted inside before =>
    have each : (checked nested (checkDecoded reader name)).Within Input.Advances :=
      forward.bind fun _ => Act.within_lift _
    have further := Act.within_of_ok (Input.advances_times each i) before
    have behind := Act.within_of_ok Input.advances_int counted
    exact (further.suffix.trans behind.suffix).trans
      (BodyReader.suffix_of_seekPresent found)

/-- The body of a frame inside another one is a slice of that one's body. -/
theorem FrameAt.holds (frame : FrameAt (openBy context objects levels) reader inner)
    (within : Opens context inner deeper) : Input.Holds reader.body 12 deeper.body :=
  within.holds.of_suffix (frame.suffix (advances_openBy levels))

theorem Reaches.inRange (reached : Reaches context objects levels input reader)
    (formed : context.Formed) : reader.InRange ∧ Input.Holds input.rest 12 reader.body := by
  induction reached with
  | here opened => exact ⟨opened.inRange formed, opened.holds⟩
  | @inside levels input inner reader deeper opened frame _ ih =>
    have within := ih.2.of_suffix (frame.suffix (advances_openBy levels))
    obtain ⟨front, back, split, room⟩ := opened.holds.trans within
    exact ⟨ih.1, front, back, split, by omega⟩

/-! Frames are read nowhere else. -/

theorem times_congr {α σ : Type} {step same : Act σ α} {n : Nat} {state : σ}
    (agree : ∀ i items reached, i < n → Act.times i step state = (.ok items, reached) →
      step reached = same reached) : Act.times n step state = Act.times n same state := by
  induction n generalizing state with
  | zero => rfl
  | succ n ih =>
    have first := agree 0 [] state (Nat.succ_pos n) rfl
    rw [Act.times, Act.times]
    rcases ran : step state with ⟨failure | value, next⟩
    · rw [Act.bind_of_error ran, Act.bind_of_error (first.symm.trans ran)]
    · rw [Act.bind_of_ok ran, Act.bind_of_ok (first.symm.trans ran)]
      have others : Act.times n step next = Act.times n same next := by
        apply ih
        intro i items reached less passed
        refine agree (i + 1) (value :: items) reached (Nat.succ_lt_succ less) ?_
        rw [Act.times, Act.bind_of_ok ran, Act.bind_of_ok passed]
        rfl
      rw [Act.bind_apply, Act.bind_apply, others]

theorem checked_apply (check : Portable → Except Failure Portable)
    (agree : nested input = other input) :
    checked nested check input = checked other check input := by
  rw [checked, checked, Act.bind_apply, Act.bind_apply, agree]

section

variable (agree : ∀ inner, FrameAt nested reader inner → nested inner = other inner)
include agree

theorem portableIn_congr (name : String) :
    portableIn nested reader name = portableIn other reader name := by
  unfold portableIn
  cases found : reader.seekPresent name .portable with
  | error failure => rfl
  | ok place =>
    cases place with
    | none => rfl
    | some start =>
      have here := agree start (.single found)
      simp only [Act.settled_bind_of_ok, Act.run, here]

theorem portablesIn_congr (name : String) :
    portablesIn nested reader name = portablesIn other reader name := by
  unfold portablesIn BodyReader.run
  cases found : reader.seekPresent name .portableArray with
  | error failure => rfl
  | ok place =>
    cases place with
    | none => rfl
    | some start =>
      have items : Input.counted name (checked nested (checkDecoded reader name)) start =
          Input.counted name (checked other (checkDecoded reader name)) start := by
        unfold Input.counted
        rcases counted : Input.int start with ⟨failure | count, first⟩
        · rw [Act.bind_of_error counted, Act.bind_of_error counted]
        · rw [Act.bind_of_ok counted, Act.bind_of_ok counted]
          split
          case isTrue => rfl
          case isFalse =>
            apply times_congr
            intro i items reached less before
            exact checked_apply _ (agree reached (.item found counted less before))
      exact congrArg (fun outcome => some <$> Prod.fst outcome) items

/-- What a read comes to depends on frames only where it comes to them. -/
theorem read_congr (r : FieldRead) : read nested reader r = read other reader r := by
  cases r with
  | field kind name =>
    cases kind with
    | portable => rw [read, read, portableIn_congr agree]
    | portableArray => rw [read, read, portablesIn_congr agree]
    | _ => rfl
  | objectIn name sort typeName => rw [read, read, portableIn_congr agree]
  | objectsIn name sort typeName => rw [read, read, portablesIn_congr agree]
  | _ => rfl

end

theorem readBody_congr {object : Except Failure SelfReading} {definition : ClassDefinition}
    {body : Bytes} (agree : ∀ reader, BodyReader.start definition body = .ok reader →
      ∀ inner, FrameAt nested reader inner → nested inner = other inner) :
    readBody nested object definition body = readBody other object definition body := by
  unfold readBody
  cases object with
  | error failure => rfl
  | ok code =>
    cases started : BodyReader.start definition body with
    | error failure => rfl
    | ok reader =>
      have answers : read nested reader = read other reader :=
        funext (read_congr (agree reader started))
      show code.run (read nested reader) = code.run (read other reader)
      rw [answers]

/-- Where the levels that are allowed outnumber the headers that the input has room for, allowing
    more of them makes no difference. -/
theorem openBy_of_room (room : input.remaining < 12 * levels) (more : Nat) :
    openBy context objects (levels + more) input = openBy context objects levels input := by
  induction levels generalizing input with
  | zero => omega
  | succ levels ih =>
    rw [Nat.succ_add, openBy, openBy]
    rcases headed : header input with ⟨failure | ⟨key, body⟩, rest⟩
    · rw [Act.bind_of_error headed, Act.bind_of_error headed]
    · rw [Act.bind_of_ok headed, Act.bind_of_ok headed]
      dsimp only
      cases context.lookup key with
      | none => rfl
      | some definition =>
        have small := (holds_of_header headed).length_le
        have bodies : readBody (openBy context objects levels) (objects key.classId) definition
            body = readBody (openBy context objects (levels + more)) (objects key.classId)
              definition body := by
          apply readBody_congr
          intro reader started inner frame
          obtain ⟨rfl, -⟩ := BodyReader.start_ok started
          have within : inner.rest.length ≤ body.length :=
            (frame.suffix (advances_openBy levels)).length_le
          have lower : inner.remaining < 12 * levels := by
            unfold Input.remaining at room ⊢
            omega
          exact (ih lower).symm
        simp only [bodies]

open PortableContext (Request answering)

/-- After any requests, whatever the bytes are and however objects read themselves: opening a frame
    comes back, and so does every read.  Every reader made on the way stays within its body, which
    is a slice of the input behind twelve bytes.  Frames are read nowhere but in the fields of
    objects, and there the body is a slice of the body it is found in, behind twelve bytes.  So
    opening comes to the same end whatever number of levels is allowed, if there are more than there
    is room for headers.  What a read comes to is the same whatever was read before, and so is what
    comes of the object.  Frames are opened in this way with any factory. -/
theorem hostile_payload_is_safe {start : PortableContext} {requests : List Request}
    {objects : Int32 → Except Failure SelfReading} (fresh : start.Fresh)
    (built : ∀ request ∈ requests, request.Built) (ending : Ending objects) :
    let context := answering requests start
    let opening := openBy context objects
    (∀ levels, (opening levels).Returns ∧ ∀ reader r, ¬ GoesOn (read (opening levels) reader r)) ∧
    (∀ levels input reader, Reaches context objects levels input reader →
      reader.InRange ∧ Input.Holds input.rest 12 reader.body) ∧
    (∀ nested other reader, (∀ inner, FrameAt nested reader inner → nested inner = other inner) →
      ∀ r, read nested reader r = read other reader r) ∧
    (∀ levels input reader inner deeper, Opens context input reader →
      FrameAt (opening levels) reader inner → Opens context inner deeper →
        Input.Holds reader.body 12 deeper.body) ∧
    (∀ levels input, input.remaining < 12 * levels → ∀ more,
      opening (levels + more) input = opening levels input) ∧
    (∀ levels reader (code : SelfReading),
      (∀ entry ∈ code.trace (read (opening levels) reader),
        entry.2 = read (opening levels) reader entry.1) ∧
      ∀ reads, (code.after reads).run (read (opening levels) reader) =
        code.run (read (opening levels) reader)) ∧
    ∀ factory depth, Ending (Source.objects ⟨context, factory⟩) ∧
      openAt ⟨context, factory⟩ depth =
        openBy context (Source.objects ⟨context, factory⟩)
          (Failure.maxPortableLevels + 1 - depth) := by
  intro context opening
  have formed : context.Formed := fresh.formed_answering built
  refine ⟨fun levels => ⟨returns_openBy ending levels, fun reader r => ?_⟩,
    fun levels input reader reached => reached.inRange formed,
    fun nested other reader agree r => read_congr agree r,
    fun levels input reader inner deeper _ frame within => frame.holds within,
    fun levels input room more => openBy_of_room room more,
    fun levels reader code => ⟨fun entry => SelfReading.answer_of_mem_trace, code.run_after⟩,
    fun factory depth => ⟨Source.ending _, openWithin_eq_openBy _ _⟩⟩
  exact not_goesOn_read (returns_openBy ending levels) r

/-- An offset that points behind the table, to the object inside an object.  Of the object inside
    there is nothing but a header, and the read comes to it. -/
theorem hostile_payload_is_safe_of_chain :
    let start : PortableContext := .start 0 (.ofSettings 16 2 1)
    let requests := [Request.register (ClassDefinition.chain 1)]
    let context := answering requests start
    let factory : PortableFactory := fun classId =>
      some (.scripted classId [.field .portable "next"])
    let objects := Source.objects ⟨context, some factory⟩
    let header : Bytes := [0, 0, 0, 1, 0, 0, 0, 0, 0, 0, 0, 0]
    let body : Bytes := [0, 0, 0, 4, 1] ++ header
    let payload : Bytes := [0, 0, 0, 2, 0, 0, 0, 0, 0, 0, 0, 17] ++ body
    start.Fresh ∧ (∀ request ∈ requests, request.Built) ∧ Ending objects ∧
      ∃ reader deeper : BodyReader, reader.body = body ∧ deeper.body = [] ∧ reader.InRange ∧
        deeper.InRange ∧ Input.Holds reader.body 12 deeper.body ∧
        ∀ more, openBy context objects (3 + more) (.ofBytes payload) =
          openBy context objects 3 (.ofBytes payload) := by
  intro start requests context factory objects header body payload
  have fresh : start.Fresh := ⟨rfl, PortableContext.tidy_start 0 (Pool.clean_ofSettings 16 2 1)⟩
  have built : ∀ request ∈ requests, request.Built := by
    intro request member
    rw [List.mem_singleton.mp member]
    exact ClassDefinition.chain_built 1
  have ending : Ending objects := Source.ending _
  obtain ⟨-, reaches, -, inside, stable, -⟩ :=
    @hostile_payload_is_safe start requests objects fresh built ending
  have outer : (context.lookup ⟨2, 0⟩).map (fun definition =>
      ((BodyReader.start definition body).toOption.isSome,
        (BodyReader.seekPresent ⟨definition, body⟩ "next" .portable).toOption)) =
      some (true, some (some ⟨header, 1⟩)) := by decide +kernel
  have last : (context.lookup ⟨1, 0⟩).map (fun definition =>
      (BodyReader.start definition []).toOption.isSome) = some true := by decide +kernel
  obtain ⟨chain, found, outer⟩ := Option.map_eq_some_iff.mp outer
  obtain ⟨leaf, known, last⟩ := Option.map_eq_some_iff.mp last
  obtain ⟨reader, started⟩ := Act.exists_ok_of_isSome (congrArg Prod.fst outer)
  obtain ⟨deeper, begun⟩ := Act.exists_ok_of_isSome last
  obtain ⟨rfl, -⟩ := BodyReader.start_ok started
  obtain ⟨rfl, -⟩ := BodyReader.start_ok begun
  have sought := Act.settled_of_toOption (congrArg Prod.snd outer)
  have front : Frame.header (.ofBytes payload) = (.ok (⟨2, 0⟩, body), ⟨[], 29⟩) := rfl
  have back : Frame.header ⟨header, 1⟩ = (.ok (⟨1, 0⟩, []), ⟨[], 13⟩) := rfl
  have opened : Opens context (.ofBytes payload) ⟨chain, body⟩ := ⟨_, _, front, found, started⟩
  have within : Opens context ⟨header, 1⟩ ⟨leaf, []⟩ := ⟨_, _, back, known, begun⟩
  have frame : FrameAt (openBy context objects 1) ⟨chain, body⟩ ⟨header, 1⟩ := .single sought
  exact ⟨fresh, built, ending, _, _, rfl, rfl, (reaches 1 _ _ (.here opened)).1,
    (reaches 2 _ _ (.inside opened frame (.here within))).1,
    inside 1 _ _ _ _ opened frame within, fun more => stable 3 _ (by decide) more⟩

end Frame

end ObjectWire
