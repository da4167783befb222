import Mathlib.Algebra.BigOperators.Group.List.Basic
import Mathlib.Algebra.Ring.Nat
import ObjectWire.Proofs.Portable.Hostile

/-!
# The objects that opening makes

Opening a frame makes an object, and every read of an object's field makes the objects whose frames
the read goes through: one for a single object, and one after the other for an array, as far as
nothing fails.  Their number follows from the reads that are made.  Where the factory makes objects
that keep what they have read, it is the number of objects that opening answers with.
-/

namespace ObjectWire

namespace Portable

mutual

/-- The number of objects that an object consists of, as far as it has kept what it has read. -/
def total : Portable → Nat
  | .scripted _ _ _ _ got => 1 + totalOfResults got
  | .link .. | .silent _ | .customer _ => 1
termination_by structural p => p

/-- The number of objects in what reads came to. -/
def totalOfResults : List FieldResult → Nat
  | [] => 0
  | result :: results => totalOfResult result + totalOfResults results
termination_by structural results => results

/-- The number of objects in what a read came to. -/
def totalOfResult : FieldResult → Nat
  | .portable (some p) => p.total
  | .portableArray (some items) => totalOfItems items
  | _ => 0
termination_by structural result => result

/-- The number of objects in a run of objects. -/
def totalOfItems : List Portable → Nat
  | [] => 0
  | p :: items => p.total + totalOfItems items
termination_by structural items => items

end

end Portable

/-- The field whose objects a read is for, and the kind that it must have. -/
def FieldRead.objectsIn? : FieldRead → Option (String × FieldKind)
  | field .portable name | objectIn name _ _ => some (name, .portable)
  | field .portableArray name | objectsIn name _ _ => some (name, .portableArray)
  | _ => none

namespace Frame

variable {nested : Act Input Portable} {reader : BodyReader} {name : String} {kind : FieldKind}
  {context : PortableContext} {objects : Int32 → Except Failure SelfReading} {input : Input}
  {levels : Nat} {step : Act Input Portable} {first inner rest : Input}

/-- Where a step begins each time, if it is to be repeated so many times and ends with the first
    failure. -/
def starts (step : Act Input Portable) : Nat → Input → List Input
  | 0, _ => []
  | n + 1, input => input ::
    match step input with
    | (.ok _, rest) => starts step n rest
    | (.error _, _) => []

/-- How many objects a field announces, and where the first one is. -/
def announced? (reader : BodyReader) (name : String) : FieldKind → Option (Nat × Input)
  | .portable =>
    match reader.seekPresent name .portable with
    | .ok (some input) => some (1, input)
    | _ => none
  | .portableArray =>
    match reader.seekPresent name .portableArray with
    | .ok (some start) =>
      match Input.int start with
      | (.ok count, first) => some (count.toNatClampNeg, first)
      | (.error _, _) => none
    | _ => none
  | _ => none

/-- The frames that reading the objects in a field goes through. -/
def framesIn (nested : Act Input Portable) (reader : BodyReader) (name : String)
    (kind : FieldKind) : List Input :=
  match announced? reader name kind with
  | some (n, first) => starts (checked nested (checkDecoded reader name)) n first
  | none => []

/-- The frames that a read goes through. -/
def framesOf (nested : Act Input Portable) (reader : BodyReader) (r : FieldRead) : List Input :=
  match r.objectsIn? with
  | some (name, kind) => framesIn nested reader name kind
  | none => []

/-- The number of objects that are made when a frame is opened. -/
def created (context : PortableContext) (objects : Int32 → Except Failure SelfReading) :
    (levels : Nat) → Input → Nat
  | 0, _ => 0
  | levels + 1, input =>
    match header input with
    | (.error _, _) => 0
    | (.ok (key, body), _) =>
      match context.lookup key, objects key.classId with
      | some definition, .ok code =>
        match BodyReader.start definition body with
        | .error _ => 1
        | .ok reader =>
          let nested := openBy context objects levels
          1 + ((code.trace (read nested reader)).map fun entry =>
            ((framesOf nested reader entry.1).map (created context objects levels)).sum).sum
      | _, _ => 0

/-! Reading objects goes through frames in fields. -/

theorem mem_starts {n : Nat} (member : inner ∈ starts step n first) :
    ∃ i items, i < n ∧ Act.times i step first = (.ok items, inner) := by
  induction n generalizing first with
  | zero => cases member
  | succ n ih =>
    rw [starts] at member
    rcases List.mem_cons.mp member with rfl | later
    · exact ⟨0, [], Nat.succ_pos n, rfl⟩
    · rcases ran : step first with ⟨failure | p, rest⟩
      · rw [ran] at later
        cases later
      · rw [ran] at later
        obtain ⟨i, items, less, passed⟩ := ih later
        refine ⟨i + 1, p :: items, Nat.succ_lt_succ less, ?_⟩
        rw [Act.times, Act.bind_of_ok ran, Act.bind_of_ok passed]
        rfl

/-- What a field announces stands in the field, behind a flag. -/
theorem announced?_eq_some {n : Nat} (announced : announced? reader name kind = some (n, first)) :
    ∃ start, reader.seekPresent name kind = .ok (some start) ∧
      (kind = .portable ∧ n = 1 ∧ first = start ∨
        kind = .portableArray ∧
          ∃ count, Input.int start = (.ok count, first) ∧ n = count.toNatClampNeg) := by
  unfold announced? at announced
  split at announced
  case h_1 =>
    split at announced
    case h_1 start found =>
      cases announced
      exact ⟨_, found, .inl ⟨rfl, rfl, rfl⟩⟩
    case h_2 => cases announced
  case h_2 =>
    split at announced
    case h_1 start found =>
      split at announced
      case h_1 count _ counted =>
        cases announced
        exact ⟨start, found, .inr ⟨rfl, count, counted, rfl⟩⟩
      case h_2 => cases announced
    case h_2 => cases announced
  case h_3 => cases announced

theorem frameAt_of_mem (member : inner ∈ framesIn nested reader name kind) :
    FrameAt nested reader inner := by
  unfold framesIn at member
  split at member
  case h_2 => cases member
  case h_1 n first announced =>
    obtain ⟨i, items, less, passed⟩ := mem_starts member
    obtain ⟨start, found, single | array⟩ := announced?_eq_some announced
    · obtain ⟨rfl, rfl, rfl⟩ := single
      obtain rfl : i = 0 := by omega
      cases passed
      exact .single found
    · obtain ⟨rfl, count, counted, rfl⟩ := array
      exact .item found counted less passed

/-! Objects that keep what they have read. -/

theorem checkDecoded_ok {p q : Portable} (passed : checkDecoded reader name p = .ok q) :
    q = p := by
  unfold checkDecoded at passed
  dsimp only at passed
  split at passed <;> cases passed
  rfl

theorem asSort_ok {sort : PortableSort} {typeName : String} {p q : Portable}
    (passed : p.asSort sort typeName = .ok q) : q = p := by
  unfold Portable.asSort at passed
  split at passed <;> cases passed
  rfl

theorem mapM_asSort_ok {sort : PortableSort} {typeName : String} {items others : List Portable}
    (passed : items.mapM (fun p => p.asSort sort typeName) = .ok others) : others = items := by
  induction items generalizing others with
  | nil =>
    cases passed
    rfl
  | cons p items ih =>
    rw [List.mapM_cons] at passed
    obtain ⟨q, typed, passed⟩ := Act.settled_bind_ok passed
    obtain ⟨rest, mapped, passed⟩ := Act.settled_bind_ok passed
    cases passed
    rw [asSort_ok typed, ih mapped]

section Total

variable {weight : Input → Nat}
  (weighs : ∀ inner p rest, nested inner = (.ok p, rest) → weight inner = p.total)
include weighs

theorem sum_starts_of_ok {n : Nat} {items : List Portable}
    (passed : Act.times n (checked nested (checkDecoded reader name)) first = (.ok items, rest)) :
    ((starts (checked nested (checkDecoded reader name)) n first).map weight).sum =
      Portable.totalOfItems items := by
  induction n generalizing first items with
  | zero =>
    cases passed
    rfl
  | succ n ih =>
    obtain ⟨p, next, ran, passed⟩ := Act.bind_ok passed
    obtain ⟨others, last, passed, finished⟩ := Act.bind_ok passed
    cases finished
    have later := ih passed
    obtain ⟨q, behind, opened, check⟩ := Act.bind_ok ran
    rw [starts, ran]
    simp only [List.map_cons, List.sum_cons, Portable.totalOfItems, later,
      weighs first q behind opened, checkDecoded_ok (congrArg Prod.fst check)]

theorem sum_framesIn_portable {found : Option Portable}
    (answered : portableIn nested reader name = .ok found) :
    ((framesIn nested reader name .portable).map weight).sum =
      Portable.totalOfResult (.portable found) := by
  obtain ⟨place, sought, answered⟩ := Act.settled_bind_ok answered
  cases place with
  | none =>
    cases answered
    simp only [framesIn, announced?, sought]
    rfl
  | some start =>
    obtain ⟨p, opened, answered⟩ := Act.settled_bind_ok answered
    obtain ⟨q, check, rfl⟩ := Act.settled_map_ok answered
    rcases ran : nested start with ⟨outcome, rest⟩
    obtain rfl : outcome = .ok p := by rw [← opened, Act.run, ran]
    rw [checkDecoded_ok check]
    simp only [framesIn, announced?, sought, starts, List.map_cons, List.sum_cons,
      Portable.totalOfResult, weighs start p rest ran]
    cases checked nested (checkDecoded reader name) start with
    | mk outcome rest => cases outcome <;> rfl

theorem sum_framesIn_portableArray {found : Option (List Portable)}
    (answered : portablesIn nested reader name = .ok found) :
    ((framesIn nested reader name .portableArray).map weight).sum =
      Portable.totalOfResult (.portableArray found) := by
  obtain ⟨place, sought, answered⟩ := Act.settled_bind_ok answered
  cases place with
  | none =>
    cases answered
    simp only [framesIn, announced?, sought]
    rfl
  | some start =>
    obtain ⟨items, passed, rfl⟩ := Act.settled_map_ok answered
    rcases counted : Input.int start with ⟨failure | count, first⟩
    · rw [Act.run, Act.bind_of_error counted] at passed
      cases passed
    · rw [Act.run, Act.bind_of_ok counted] at passed
      split at passed
      case isTrue => cases passed
      case isFalse =>
        rcases ran : Act.times count.toNatClampNeg (checked nested (checkDecoded reader name)) first
          with ⟨outcome, rest⟩
        obtain rfl : outcome = .ok items := (congrArg Prod.fst ran).symm.trans passed
        simp only [framesIn, announced?, sought, counted, Portable.totalOfResult]
        exact sum_starts_of_ok weighs ran

theorem sum_framesOf {r : FieldRead} {result : FieldResult}
    (answered : read nested reader r = .ok result) :
    ((framesOf nested reader r).map weight).sum = Portable.totalOfResult result := by
  cases r with
  | field kind name =>
    cases kind with
    | portable =>
      obtain ⟨found, got, rfl⟩ := Act.settled_map_ok answered
      exact sum_framesIn_portable weighs got
    | portableArray =>
      obtain ⟨found, got, rfl⟩ := Act.settled_map_ok answered
      exact sum_framesIn_portableArray weighs got
    | _ =>
      obtain ⟨value, -, rfl⟩ := Act.settled_map_ok answered
      rfl
  | objectIn name sort typeName =>
    obtain ⟨found, got, answered⟩ := Act.settled_bind_ok answered
    have sum := sum_framesIn_portable weighs got
    cases found with
    | none =>
      cases answered
      exact sum
    | some p =>
      obtain ⟨q, typed, rfl⟩ := Act.settled_map_ok answered
      rw [asSort_ok typed]
      exact sum
  | objectsIn name sort typeName =>
    obtain ⟨found, got, answered⟩ := Act.settled_bind_ok answered
    have sum := sum_framesIn_portableArray weighs got
    cases found with
    | none =>
      cases answered
      exact sum
    | some items =>
      obtain ⟨others, typed, rfl⟩ := Act.settled_map_ok answered
      rw [mapM_asSort_ok typed]
      exact sum
  | fail text => cases answered
  | _ =>
    cases answered
    rfl

/-- Reads that all come to something are all made. -/
theorem sum_trace_of_ok {reads : List FieldRead} {got : List FieldResult}
    {next : List FieldResult → SelfReading}
    (last : ∀ got, (next got).trace (read nested reader) = [])
    (answered : reads.mapM (read nested reader) = .ok got) :
    (((SelfReading.all next reads).trace (read nested reader)).map fun entry =>
      ((framesOf nested reader entry.1).map weight).sum).sum = Portable.totalOfResults got := by
  induction reads generalizing next got with
  | nil =>
    cases answered
    rw [SelfReading.all, last]
    rfl
  | cons r reads ih =>
    rw [List.mapM_cons] at answered
    obtain ⟨result, first, answered⟩ := Act.settled_bind_ok answered
    obtain ⟨others, later, answered⟩ := Act.settled_bind_ok answered
    cases answered
    have rest := ih (fun others => last (result :: others)) later
    rw [SelfReading.all, SelfReading.part, SelfReading.trace, first]
    simp only [List.map_cons, List.sum_cons, Portable.totalOfResults, rest,
      sum_framesOf weighs first]

end Total

/-- Where objects keep what they have read, opening answers with the objects that it makes. -/
theorem created_eq_total {source : Source} {p : Portable}
    (kept : ∀ classId blank, source.create classId = .ok blank →
      ∃ made reads, blank = .scripted made reads)
    (opened : openWithin source levels input = (.ok p, rest)) :
    created source.context source.objects levels input = p.total := by
  rw [openWithin_eq_openBy] at opened
  induction levels generalizing input p rest with
  | zero => cases opened
  | succ levels ih =>
    obtain ⟨⟨key, body⟩, behind, headed, opened⟩ := Act.bind_ok opened
    dsimp only at opened
    cases found : source.context.lookup key with
    | none =>
      rw [found] at opened
      cases opened
    | some definition =>
      rw [found] at opened
      have read := congrArg Prod.fst opened
      obtain ⟨code, made, read⟩ := Act.settled_bind_ok read
      obtain ⟨reader, started, read⟩ := Act.settled_bind_ok read
      obtain ⟨blank, given, same⟩ := Act.settled_map_ok made
      obtain ⟨classId, reads, rfl⟩ := kept _ blank given
      subst same
      rw [SelfReading.ofBlank, SelfReading.run_all] at read
      obtain ⟨got, answered, read⟩ := Act.settled_bind_ok read
      cases read
      have inside := sum_trace_of_ok (fun _ _ _ ran => ih ran) (fun got =>
        (rfl : (SelfReading.done (.ok (.scripted classId none [] none got))).trace _ = [])) answered
      rw [created, headed]
      simp only [found, made, started, Portable.total, ← inside, SelfReading.ofBlank]

end Frame

end ObjectWire
