import ObjectWire.Proofs.Wire.Progress
import ObjectWire.Wire.Shape

/-!
# Elements are paid for in bytes

The number in front of a list is whatever its bytes say, but every element that is read takes at
least one byte, so that no list goes on for longer than there are bytes.  A metered step counts the
elements that are begun; it reads what the plain step reads, and how much is left says how many
elements there can have been.
-/

namespace ObjectWire

namespace Input

variable {α β : Type}

/-- The step only takes bytes, and it has taken at least `n` of them whenever it answers. -/
structure Spends (step : Act Input α) (n : Nat) : Prop where
  costs : Costs step n
  forward : step.Within Advances

theorem Spends.mono {step : Act Input α} {m n : Nat} (spends : Spends step n) (less : m ≤ n) :
    Spends step m := by
  refine ⟨fun input rest value ran => ?_, spends.forward⟩
  have paid := spends.costs input rest value ran
  omega

theorem Spends.map {step : Act Input α} {n : Nat} (spends : Spends step n) (f : α → β) :
    Spends (f <$> step) n :=
  ⟨spends.costs.map f, spends.forward.map f⟩

theorem Spends.bind {step : Act Input α} {next : α → Act Input β} {m n : Nat}
    (first : Spends step m) (rest : ∀ value, Spends (next value) n) :
    Spends (step >>= next) (m + n) :=
  ⟨first.costs.bind fun value => (rest value).costs,
    first.forward.bind fun value => (rest value).forward⟩

theorem spends_of_advances {step : Act Input α} (forward : step.Within Advances) : Spends step 0 :=
  ⟨fun _ _ _ ran => (Act.within_of_ok forward ran).remaining_le, forward⟩

theorem spends_pure (value : α) : Spends (pure value) 0 :=
  ⟨costs_pure value, Act.within_pure value⟩

theorem spends_fail (failure : Failure) (n : Nat) : Spends (Act.fail failure : Act Input α) n :=
  ⟨costs_fail failure n, Act.within_fail failure⟩

theorem spends_lift (outcome : Except Failure α) : Spends (Act.lift outcome) 0 := by
  cases outcome with
  | ok value => exact spends_pure value
  | error failure => exact spends_fail failure 0

theorem spends_bytes (n : Nat) : Spends (bytes n) n := ⟨costs_bytes n, advances_bytes n⟩

theorem spends_word (w : Nat) : Spends (word w) w := (spends_bytes w).map _

theorem spends_bool : Spends bool 1 := (spends_word 1).map _

theorem spends_int : Spends int 4 := (spends_word 4).map _

theorem spends_length (of : Counted) : Spends (length of) 4 := ⟨costs_length of, advances_length of⟩

theorem spends_byteArray : Spends byteArray 4 :=
  (spends_length _).bind fun n => (spends_bytes n).mono n.zero_le

theorem spends_string : Spends string 4 := by
  refine (spends_length _).bind (n := 0) fun n => ?_
  refine ((spends_bytes n).bind (n := 0) fun run => ?_).mono n.zero_le
  split
  case h_1 => exact spends_pure _
  case h_2 => exact spends_fail _ 0

theorem spends_instant : Spends instant 8 := by
  refine ((spends_word 8).map _).bind (n := 0) fun millis => ?_
  split
  case h_1 => exact spends_pure _
  case h_2 => exact spends_fail _ 0

theorem spends_bigInteger : Spends bigInteger 4 := by
  refine spends_byteArray.bind (n := 0) fun run => ?_
  split
  case h_1 => exact spends_fail _ 0
  case h_2 => exact spends_pure _

end Input

/-- Whatever its shape, an item takes at least one byte. -/
theorem Shape.spends_decode (shape : Shape) : Input.Spends shape.decode 1 := by
  cases shape with
  | byte => exact ((Input.spends_word 1).map _).map _
  | short => exact (((Input.spends_word 2).map _).map _).mono (by decide)
  | int => exact (Input.spends_int.map _).mono (by decide)
  | long => exact (((Input.spends_word 8).map _).map _).mono (by decide)
  | bool => exact Input.spends_bool.map _
  | text => exact (Input.spends_string.map _).mono (by decide)
  | bytes => exact (Input.spends_byteArray.map _).mono (by decide)
  | instant => exact (Input.spends_instant.map _).mono (by decide)
  | bigInteger => exact (Input.spends_bigInteger.map _).mono (by decide)
  | option inner =>
    refine Input.spends_bool.bind (n := 0) fun present => ?_
    split
    case isTrue => exact (inner.spends_decode.map _).mono (Nat.zero_le _)
    case isFalse => exact Input.spends_pure _
  | list inner =>
    have items (count : Nat) : Input.Spends (Item.list <$> Act.times count inner.decode) 0 :=
      (Input.spends_of_advances (Input.advances_times inner.spends_decode.forward count)).map _
    exact ((Input.spends_length _).bind items).mono (by decide)

/-- Whatever its kind, a scalar takes at least one byte. -/
theorem ScalarKind.spends_decode (kind : ScalarKind) : Input.Spends kind.decode 1 := by
  cases kind with
  | byte => exact (Input.spends_word 1).map _
  | bool => exact Input.spends_bool
  | char =>
    have code : Input.Spends decode.decodeChar 2 := by
      refine (Input.spends_word 2).bind (n := 0) fun code => ?_
      split
      case isTrue => exact Input.spends_pure _
      case isFalse => exact Input.spends_fail _ 0
    exact code.mono (by decide)
  | short => exact ((Input.spends_word 2).map _).mono (by decide)
  | int => exact Input.spends_int.mono (by decide)
  | long => exact ((Input.spends_word 8).map _).mono (by decide)
  | float => exact ((Input.spends_word 4).map _).mono (by decide)
  | double => exact ((Input.spends_word 8).map _).mono (by decide)

namespace Input

/-- An input, and the number of elements that were begun in reading it. -/
structure Metered where
  input : Input
  begun : Nat

namespace Metered

variable {α β : Type}

/-- A step in which no element begins. -/
def free (step : Act Input α) : Act Metered α :=
  Act.on Metered.input (fun input metered => { metered with input := input }) step

/-- Begins an element. -/
def element (step : Act Metered α) : Act Metered α := fun metered =>
  step { metered with begun := metered.begun + 1 }

/-- What is left after `more` elements were begun.  If the step answered, they are paid for, and
    `cost` bytes besides.  If it failed, either none was begun, or all but one are paid for, and
    `header` bytes besides. -/
def Paid (input rest : Input) (more cost header : Nat) : Except Failure α → Prop
  | .ok _ => more + rest.remaining + cost ≤ input.remaining
  | .error _ => rest.remaining ≤ input.remaining ∧
      (more = 0 ∨ more + rest.remaining + header ≤ input.remaining + 1)

/-- The metered step reads what the plain step reads, and what it begins is paid for.  An answer is
    as wanted for the number of elements that were begun. -/
def Pays (metered : Act Metered α) (plain : Act Input α) (cost header : Nat)
    (wanted : α → Nat → Prop) : Prop :=
  ∀ input begun, ∃ outcome rest more, plain input = (outcome, rest) ∧
    metered ⟨input, begun⟩ = (outcome, ⟨rest, begun + more⟩) ∧
    Paid input rest more cost header outcome ∧ ∀ value, outcome = .ok value → wanted value more

theorem free_apply (step : Act Input α) (input : Input) (begun : Nat) :
    free step ⟨input, begun⟩ = ((step input).1, ⟨(step input).2, begun⟩) := rfl

section Pays

variable {metered : Act Metered α} {plain step : Act Input α} {next : α → Act Metered β}
  {following : α → Act Input β} {wanted : α → Nat → Prop} {answered : β → Nat → Prop}
  {cost header m n : Nat}

theorem pays_pure {value : α} (h : wanted value 0) :
    Pays (pure value) (pure value) 0 header wanted := by
  intro input begun
  refine ⟨.ok value, input, 0, rfl, rfl, ?_, ?_⟩
  · show 0 + input.remaining + 0 ≤ input.remaining
    omega
  · rintro _ ⟨⟩
    exact h

theorem pays_fail (failure : Failure) : Pays (Act.fail failure) (Act.fail failure) cost header
    wanted :=
  fun input _ => ⟨.error failure, input, 0, rfl, rfl, ⟨Nat.le_refl _, .inl rfl⟩, nofun⟩

theorem pays_free (spends : Spends step cost) :
    Pays (free step) step cost header fun _ more => more = 0 := by
  intro input begun
  have less := (spends.forward input).remaining_le
  rcases ran : step input with ⟨failure | value, rest⟩
  · rw [ran] at less
    exact ⟨.error failure, rest, 0, rfl, by rw [free_apply, ran]; rfl, ⟨less, .inl rfl⟩, nofun⟩
  · have paid := spends.costs input rest value ran
    refine ⟨.ok value, rest, 0, rfl, by rw [free_apply, ran]; rfl, ?_, fun _ _ => rfl⟩
    show 0 + rest.remaining + cost ≤ input.remaining
    omega

theorem pays_lift (outcome : Except Failure α) :
    Pays (free (Act.lift outcome)) (Act.lift outcome) 0 header fun value more =>
      outcome = .ok value ∧ more = 0 := by
  cases outcome with
  | ok value => exact pays_pure ⟨rfl, rfl⟩
  | error failure => exact pays_fail failure

theorem Pays.mono {less fewer : Nat} {weaker : α → Nat → Prop}
    (pays : Pays metered plain cost header wanted) (cheaper : less ≤ cost)
    (lighter : fewer ≤ header) (implies : ∀ value more, wanted value more → weaker value more) :
    Pays metered plain less fewer weaker := by
  intro input begun
  obtain ⟨outcome, rest, more, plainly, counted, paid, answers⟩ := pays input begun
  refine ⟨outcome, rest, more, plainly, counted, ?_,
    fun value same => implies value more (answers value same)⟩
  cases outcome with
  | ok value =>
    unfold Paid at paid ⊢
    omega
  | error failure =>
    obtain ⟨shorter, paid⟩ := paid
    exact ⟨shorter, by omega⟩

theorem Pays.map (f : α → β)
    (pays : Pays metered plain cost header fun value => answered (f value)) :
    Pays (f <$> metered) (f <$> plain) cost header answered := by
  intro input begun
  obtain ⟨outcome, rest, more, plainly, counted, paid, answers⟩ := pays input begun
  refine ⟨outcome.map f, rest, more, by rw [Act.map_apply, plainly],
    by rw [Act.map_apply, counted], ?_, ?_⟩
  · cases outcome <;> exact paid
  · intro value same
    cases outcome with
    | ok inner =>
      cases same
      exact answers inner rfl
    | error failure => cases same

/-- What was begun in the first step is paid for before the second one runs, so that the bytes it
    spent besides can be spared for a failure of the second one. -/
theorem Pays.andThen {within : Nat} (first : Pays metered plain cost header wanted)
    (rest : ∀ value more, wanted value more →
      Pays (next value) (following value) n m fun answer later =>
        answered answer (more + later))
    (early : within ≤ header) (late : within ≤ cost + m)
    (clear : within ≤ cost + 1 ∨ ∀ value more, wanted value more → more = 0) :
    Pays (metered >>= next) (plain >>= following) (cost + n) within answered := by
  intro input begun
  obtain ⟨outcome, reached, more, plainly, counted, paid, answers⟩ := first input begun
  cases outcome with
  | error failure =>
    obtain ⟨shorter, paid⟩ := paid
    exact ⟨.error failure, reached, more, Act.bind_of_error plainly, Act.bind_of_error counted,
      ⟨shorter, by omega⟩, nofun⟩
  | ok value =>
    have held := answers value rfl
    obtain ⟨outcome, last, later, then_plainly, then_counted, then_paid, then_answers⟩ :=
      rest value more held reached (begun + more)
    refine ⟨outcome, last, more + later, (Act.bind_of_ok plainly).trans then_plainly, ?_, ?_,
      then_answers⟩
    · rw [Act.bind_of_ok counted, then_counted, Nat.add_assoc]
    · have spent : more + reached.remaining + cost ≤ input.remaining := paid
      cases outcome with
      | ok answer =>
        unfold Paid at then_paid ⊢
        omega
      | error failure =>
        obtain ⟨shorter, then_paid⟩ := then_paid
        have none : within ≤ cost + 1 ∨ more = 0 := clear.imp_right fun h => h value more held
        exact ⟨by omega, by omega⟩

/-- What is spent before an element begins is spared for a failure. -/
theorem Pays.behind (spends : Spends step cost)
    (rest : ∀ value, Pays (next value) (following value) n m answered) :
    Pays (free step >>= next) (step >>= following) (cost + n) (cost + m) answered := by
  refine (pays_free spends).andThen (fun value more none => ?_) (Nat.le_refl _) (Nat.le_refl _)
    (.inr fun _ _ none => none)
  subst none
  simpa only [Nat.zero_add] using rest value

theorem Pays.bind (first : Pays metered plain cost 0 wanted)
    (rest : ∀ value more, wanted value more →
      Pays (next value) (following value) n 0 fun answer later =>
        answered answer (more + later)) :
    Pays (metered >>= next) (plain >>= following) (cost + n) 0 answered :=
  first.andThen rest (Nat.zero_le _) (Nat.zero_le _) (.inl (Nat.zero_le _))

/-- The first byte of an element pays for it, and if it fails, what was in front of it pays for
    the elements inside. -/
theorem Pays.element (pays : Pays metered plain (cost + 1) 1 wanted) {begins : α → Nat → Prop}
    (implies : ∀ value more, wanted value more → begins value (more + 1)) :
    Pays (element metered) plain cost 0 begins := by
  intro input begun
  obtain ⟨outcome, rest, more, plainly, counted, paid, answers⟩ := pays input (begun + 1)
  refine ⟨outcome, rest, more + 1, plainly, ?_, ?_,
    fun value same => implies value more (answers value same)⟩
  · rw [Metered.element, counted]
    congr 2
    omega
  · cases outcome with
    | ok value =>
      unfold Paid at paid ⊢
      omega
    | error failure =>
      obtain ⟨shorter, paid⟩ := paid
      exact ⟨shorter, by omega⟩

/-- Elements without others inside are as many as are answered with. -/
theorem pays_times (spends : Spends step 1) (count : Nat) :
    Pays (Act.times count (element (free step))) (Act.times count step) 0 0
      fun items more => items.length = more := by
  induction count with
  | zero => exact pays_pure rfl
  | succ count ih =>
    have first : Pays (element (free step)) step 0 0 fun _ more => more = 1 :=
      Pays.element (pays_free spends) fun _ _ none => by rw [none]
    refine first.bind (n := 0) fun value more one => ?_
    refine ih.bind (n := 0) fun items more length => pays_pure ?_
    rw [one, List.length_cons, length]
    omega

/-- The metered step reads what the plain step reads.  If it answers, no more elements were begun
    than bytes were taken; if it fails, at most one more than bytes were there. -/
def Bounds (metered : Act Metered α) (plain : Act Input α) (wanted : α → Nat → Prop) : Prop :=
  ∀ input, ∃ outcome rest begun, plain input = (outcome, rest) ∧
    metered ⟨input, 0⟩ = (outcome, ⟨rest, begun⟩) ∧
    match outcome with
    | .ok value => wanted value begun ∧ begun + rest.remaining ≤ input.remaining
    | .error _ => begun ≤ input.remaining + 1

theorem Pays.bounds (pays : Pays metered plain cost header wanted) :
    Bounds metered plain wanted := by
  intro input
  obtain ⟨outcome, rest, more, plainly, counted, paid, answers⟩ := pays input 0
  rw [Nat.zero_add] at counted
  refine ⟨outcome, rest, more, plainly, counted, ?_⟩
  cases outcome with
  | ok value =>
    have spent : more + rest.remaining + cost ≤ input.remaining := paid
    exact ⟨answers value rfl, by omega⟩
  | error failure =>
    obtain ⟨-, paid⟩ := paid
    show more ≤ input.remaining + 1
    omega

end Pays

/-- Reads a list and counts its elements. -/
def list (inner : Shape) : Act Metered Item := do
  let count ← free (Input.length .list)
  .list <$> Act.times count (element (free inner.decode))

theorem pays_list (inner : Shape) :
    Pays (list inner) (Shape.list inner).decode 4 4 fun item more =>
      ∃ items, item = .list items ∧ items.length = more := by
  refine Pays.behind (m := 0) (n := 0) (spends_length _) fun count => Pays.map Item.list ?_
  refine (pays_times inner.spends_decode count).mono (Nat.le_refl _) (Nat.le_refl _) ?_
  exact fun items more length => ⟨items, rfl, length⟩

/-- A list of flags with two of them, which claims to be as long as lists can be: the third flag is
    begun, and no more. -/
example : ((list .bool).run ⟨.ofBytes [0x7f, 0xff, 0xff, 0xff, 1, 0], 0⟩).2.begun = 3 := by decide

end Metered

end Input

end ObjectWire
