import Mathlib.Data.List.Forall2
import ObjectWire.Proofs.Service.Furnished
import ObjectWire.Proofs.Wire.Items

/-!
# Built-in values

Each of the built-in codecs for plain values writes a run of bytes from which it reads the value
back, whatever stands behind the run.  Where the built-in types go by these codecs, plain values
therefore survive encoding and decoding, alone and in a row; only instants lose what they have beyond
the millisecond.
-/

namespace ObjectWire

/-- The value is of a built-in kind, and neither too long to be written nor outside the calendar. -/
def Value.Plain : Value → Prop
  | .text s => Utf8.width s < Wire.lengthLimit
  | .integer _ | .long _ | .boolean _ => True
  | .bytes run => run.length < Wire.lengthLimit
  | .instant t => t.Valid
  | .bigInteger n => TwosComplement.width n < Wire.lengthLimit
  | _ => False

/-- The value, an instant rounded down to the millisecond. -/
def Value.floor : Value → Value
  | .instant t => .instant t.floor
  | value => value

namespace Service

variable {service : Service} {value : Value} {key : TypeKey} {codec : BuiltinCodec} {run : Bytes}

/-! ### What plain values are written as -/

/-- The codec of the value's type writes it as the run and reads it from the run, whatever
    follows. -/
structure Carries (value : Value) (key : TypeKey) (codec : BuiltinCodec) (run : Bytes) : Prop where
  typed : value.typeKey? = some key
  listed : (key, codec) ∈ builtinBindings
  content : run ≠ []
  writes : ∀ parts, writeBuiltin codec value parts = Writing.onOutput (Output.write run)
  reads : ∃ step, Input.Takes step run value.floor ∧
    ∀ nested, readBuiltin nested codec = Receiving.onInput step

theorem writeItem_of_ok {item : Except Failure Bytes} (formed : item = .ok run) :
    Output.writeItem item = Output.write run := by
  subst formed
  rfl

theorem encode_append_ne_nil (n : Nat) (content : Bytes) :
    BigEndian.encode 4 n ++ content ≠ [] := by
  simp [BigEndian.encode]

/-- Every plain value is carried by the codec of its type. -/
theorem exists_carries (plain : value.Plain) : ∃ key codec run, Carries value key codec run := by
  cases value with
  | text s =>
    have formed := Wire.string_of_lt plain
    exact ⟨_, .text, _, rfl, by decide, encode_append_ne_nil _ _,
      fun _ => congrArg Writing.onOutput (writeItem_of_ok formed),
      _, (Input.takes_string formed).map _, fun _ => rfl⟩
  | integer n =>
    exact ⟨_, .integer, _, rfl, by decide, by simp [Wire.int, BigEndian.encode], fun _ => rfl,
      _, (Input.takes_int n).map _, fun _ => rfl⟩
  | long n =>
    exact ⟨_, .long, _, rfl, by decide, by simp [Wire.long, BigEndian.encode], fun _ => rfl,
      _, (Input.takes_long n).map _, fun _ => rfl⟩
  | boolean b =>
    exact ⟨_, .boolean, _, rfl, by decide, by simp [Wire.bool], fun _ => rfl,
      _, (Input.takes_bool b).map _, fun _ => rfl⟩
  | bytes content =>
    have formed := Wire.byteArray_of_lt plain
    exact ⟨_, .bytes, _, rfl, by decide, encode_append_ne_nil _ _,
      fun _ => congrArg Writing.onOutput (writeItem_of_ok formed),
      _, (Input.takes_byteArray formed).map _, fun _ => rfl⟩
  | instant t =>
    exact ⟨_, .instant, _, rfl, by decide, by simp [Wire.instant, Wire.long, BigEndian.encode],
      fun _ => rfl, _, (Input.takes_instant plain).map _, fun _ => rfl⟩
  | bigInteger n =>
    have short : (TwosComplement.encode n).length < Wire.lengthLimit := by
      rw [TwosComplement.length_encode]
      exact plain
    have formed : Wire.bigInteger n = _ := Wire.byteArray_of_lt short
    exact ⟨_, .bigInteger, _, rfl, by decide, encode_append_ne_nil _ _,
      fun _ => congrArg Writing.onOutput (writeItem_of_ok formed),
      _, (Input.takes_bigInteger formed).map _, fun _ => rfl⟩
  | _ => exact plain.elim

theorem Furnished.codecForValue (furnished : service.Furnished)
    (carries : Carries value key codec run) :
    Service.codecForValue value service = (.ok (.builtin codec), service) := by
  have found := Registry.lookup_of_bound furnished.unreserved (furnished.bound _ carries.listed)
  have answer : codecFor key service = (.ok (some (.builtin codec)), service) := by
    rw [codecFor, found]
  unfold Service.codecForValue
  simp only [carries.typed]
  rw [Act.bind_of_ok answer]
  rfl

/-! ### Encoding and decoding -/

/-- Encoding a plain value yields what it is written as, under the type id of its codec. -/
theorem Furnished.toData (furnished : service.Furnished) (clean : service.context.pool.Clean)
    (plain : value.Plain) (carries : Carries value key codec run) :
    ∃ after, Service.toData value service =
      (.ok (some (Envelope.plain codec.typeId run)), after) := by
  have direct : Service.toData value =
      guarded id (fun service _ => service) (some <$> encodeBy value .none) := by
    cases value <;> first | exact plain.elim | rfl
  have undescribed : writeDefined (.builtin codec) value .none = (do
      writeBy (.builtin codec) value .none
      pure none) := by
    cases value <;> first | exact plain.elim | rfl
  have wrote : writeDefined (.builtin codec) value .none service.lent =
      (.ok none, { service.lent with output := service.lent.output.append run }) := by
    rw [undescribed, writeBy, carries.writes]
    rfl
  have empty : service.lent.output.content = [] := clean.acquire_content
  have content : (service.lent.output.append run).content = run := by
    rw [Output.append, empty, List.nil_append]
  have encoded := toData_of_written direct (furnished.codecForValue carries) wrote rfl
  rw [content] at encoded
  exact ⟨_, encoded⟩

theorem Furnished.handOut (furnished : service.Furnished) (value : Value) :
    service.handOut value = value := by
  rw [Service.handOut, furnished.unmanaged]

theorem Carries.read (carries : Carries value key codec run) (nested : Act Receiving Value)
    (rest : Bytes) (position : Nat) (service : Service) (bound : Bool) :
    readBy nested (.builtin codec) ⟨⟨run ++ rest, position⟩, service, bound⟩ =
      (.ok value.floor, ⟨⟨rest, position + run.length⟩, service, bound⟩) := by
  obtain ⟨step, takes, reads⟩ := carries.reads
  rw [readBy, reads, Receiving.onInput, Act.on_apply, takes rest position]

/-- An envelope without a definition is decoded by reading its payload. -/
theorem decodeBy_of_read {holder : Codec} {e : Envelope} {answer : Value} {reached : Receiving}
    (alone : e.definition = none)
    (read : readBy readValue holder ⟨.ofBytes e.payload, service, true⟩ = (.ok answer, reached)) :
    decodeBy holder e service = (.ok (reached.service.handOut answer), reached.service) := by
  have adopted : adopt e service = (.ok (), service) := by
    unfold adopt
    rw [alone]
    rfl
  refine (Act.bind_of_ok adopted).trans
    (@Act.bind_of_ok _ _ _ _ _ service reached.service answer ?_)
  simp only [read]

/-- What was encoded from a plain value is decoded into it by every furnished service. -/
theorem Furnished.toObject (furnished : service.Furnished)
    (carries : Carries value key codec run) :
    Service.toObject (some (Envelope.plain codec.typeId run)) service =
      (.ok value.floor, service) := by
  have content : ¬ (Envelope.plain codec.typeId run).payload.isEmpty = true := by
    rw [List.isEmpty_iff]
    exact carries.content
  have read := carries.read readValue [] 0 service true
  rw [List.append_nil] at read
  have holder : service.codecForId (Envelope.plain codec.typeId run).typeId =
      some (.builtin codec) := furnished.answers _ carries.listed
  unfold Service.toObject
  dsimp only
  rw [if_neg content]
  apply guarded_of_ok
  rw [decode_of_codecForId holder, decodeBy_of_read rfl read, furnished.handOut]

/-! ### Writing and reading in a row -/

/-- The value is written behind the type id of its codec. -/
def Tagged (value : Value) (run : Bytes) : Prop :=
  ∃ key codec body, Carries value key codec body ∧ run = Wire.int codec.typeId ++ body

theorem Furnished.writeObject (furnished : service.Furnished) (plain : value.Plain)
    (tagged : Tagged value run) (output : Output) (bound : Bool) :
    ∃ written, Service.writeObject value ⟨output, service, bound⟩ =
        (.ok (), ⟨written, service, bound⟩) ∧
      written.content = output.content ++ run := by
  obtain ⟨key, codec, body, carries, rfl⟩ := tagged
  have steps : writeValueBy value (partsOf value) = (do
      let codec ← Writing.onService (Service.codecForValue value)
      Writing.onOutput (Output.write (Wire.int codec.typeId))
      writeBy codec value (partsOf value)) := by
    cases value <;> first | exact plain.elim | rfl
  have found : Writing.onService (Service.codecForValue value) ⟨output, service, bound⟩ =
      (.ok (.builtin codec), ⟨output, service, bound⟩) := by
    rw [Writing.onService, Act.on_apply, furnished.codecForValue carries]
  refine ⟨(output.append (Wire.int codec.typeId)).append body, ?_, ?_⟩
  · apply guarded_of_ok
    rw [steps, Act.bind_of_ok found, writeBy, carries.writes]
    rfl
  · simp only [Output.append, List.append_assoc]

theorem Furnished.readObject (furnished : service.Furnished) (tagged : Tagged value run)
    (rest : Bytes) (position : Nat) (bound : Bool) :
    Service.readObject ⟨⟨run ++ rest, position⟩, service, bound⟩ =
      (.ok value.floor, ⟨⟨rest, position + run.length⟩, service, bound⟩) := by
  obtain ⟨key, codec, body, carries, rfl⟩ := tagged
  have tag : Receiving.onInput Input.int
      ⟨⟨Wire.int codec.typeId ++ (body ++ rest), position⟩, service, bound⟩ =
      (.ok codec.typeId,
        ⟨⟨body ++ rest, position + (Wire.int codec.typeId).length⟩, service, bound⟩) := by
    rw [Receiving.onInput, Act.on_apply, Input.takes_int]
  apply guarded_of_ok
  rw [List.append_assoc, List.length_append, ← Nat.add_assoc]
  unfold readValue readWithin readTagged
  rw [Act.bind_of_ok tag, Act.bind_of_ok (Act.get_apply _)]
  dsimp only
  rw [furnished.answers _ carries.listed]
  dsimp only
  rw [Act.bind_of_ok (carries.read _ rest _ service bound), Act.bind_of_ok (Act.get_apply _)]
  dsimp only
  rw [furnished.handOut]
  rfl

theorem exists_tagged {values : List Value} (plain : ∀ value ∈ values, value.Plain) :
    ∃ runs, List.Forall₂ Tagged values runs := by
  induction values with
  | nil => exact ⟨[], .nil⟩
  | cons value values ih =>
    obtain ⟨key, codec, body, carries⟩ := exists_carries (plain value (by simp))
    obtain ⟨runs, others⟩ := ih fun other member => plain other (List.mem_cons_of_mem _ member)
    exact ⟨_ :: runs, .cons ⟨key, codec, body, carries, rfl⟩ others⟩

/-- Plain values are written one behind the other. -/
theorem Furnished.writeAll {values : List Value} {runs : List Bytes}
    (furnished : service.Furnished) (plain : ∀ value ∈ values, value.Plain)
    (tagged : List.Forall₂ Tagged values runs) (output : Output) (bound : Bool) :
    ∃ written, Act.forEach Service.writeObject values ⟨output, service, bound⟩ =
        (.ok (), ⟨written, service, bound⟩) ∧
      written.content = output.content ++ runs.flatten := by
  induction tagged generalizing output with
  | nil => exact ⟨output, rfl, (List.append_nil _).symm⟩
  | @cons value run values runs first _ ih =>
    obtain ⟨middle, wrote, front⟩ :=
      furnished.writeObject (plain value (by simp)) first output bound
    obtain ⟨written, others, back⟩ :=
      ih (fun other member => plain other (List.mem_cons_of_mem _ member)) middle
    refine ⟨written, (Act.bind_of_ok wrote).trans others, ?_⟩
    rw [back, front, List.flatten_cons, List.append_assoc]

/-- Plain values are read in the order in which they were written. -/
theorem Furnished.readAll {values : List Value} {runs : List Bytes}
    (furnished : service.Furnished) (tagged : List.Forall₂ Tagged values runs) (rest : Bytes)
    (position : Nat) (bound : Bool) :
    Act.times values.length Service.readObject
        ⟨⟨runs.flatten ++ rest, position⟩, service, bound⟩ =
      (.ok (values.map Value.floor),
        ⟨⟨rest, position + runs.flatten.length⟩, service, bound⟩) := by
  induction tagged generalizing position with
  | nil => rfl
  | @cons value run values runs first _ ih =>
    have read := furnished.readObject first (runs.flatten ++ rest) position bound
    rw [List.flatten_cons, List.append_assoc, List.length_append, ← Nat.add_assoc]
    exact (Act.bind_of_ok read).trans (Act.bind_of_ok (ih (position + run.length)))

/-- Whatever was added to a service without managed context, and however it was used, plain values
    survive: encoding one succeeds, and every such service decodes what it was encoded to into the
    value, an instant rounded down to the millisecond; written one after the other, they are read
    back in order by as many reads, which take exactly what was written. -/
theorem builtin_values_survive (reachable : Reachable (·.managed = none) Use.Additive service)
    {values : List Value} (plain : ∀ value ∈ values, value.Plain) :
    (∀ value ∈ values, ∃ e after, Service.toData value service = (.ok (some e), after) ∧
      Reachable (·.managed = none) Use.Additive after ∧
      ∀ other, Reachable (·.managed = none) Use.Additive other →
        Service.toObject (some e) other = (.ok value.floor, other)) ∧
    ∃ run, (∀ output bound, ∃ written,
        Act.forEach Service.writeObject values ⟨output, service, bound⟩ =
          (.ok (), ⟨written, service, bound⟩) ∧
        written.content = output.content ++ run) ∧
      ∀ other, Reachable (·.managed = none) Use.Additive other → ∀ rest position bound,
        Act.times values.length Service.readObject ⟨⟨run ++ rest, position⟩, other, bound⟩ =
          (.ok (values.map Value.floor),
            ⟨⟨rest, position + run.length⟩, other, bound⟩) := by
  have furnished := reachable.furnished
  constructor
  · intro value member
    obtain ⟨key, codec, run, carries⟩ := exists_carries (plain value member)
    obtain ⟨after, encoded⟩ :=
      furnished.toData reachable.tidy.clean (plain value member) carries
    have used := reachable.use (.encode value) trivial
    rw [Use.perform, encoded] at used
    exact ⟨_, after, encoded, used, fun other reached => reached.furnished.toObject carries⟩
  · obtain ⟨runs, tagged⟩ := exists_tagged plain
    refine ⟨runs.flatten, fun output bound => furnished.writeAll plain tagged output bound, ?_⟩
    intro other reached rest position bound
    exact reached.furnished.readAll tagged rest position bound

/-- A text, an instant before 1970, a negative integer and no bytes, in a service with a fallback
    and records that report a built-in type, which has refused another codec for texts. -/
theorem builtin_values_survive_of_fallback :
    let uses : List Use :=
      [.call (.register ⟨"a.A"⟩ (.custom ⟨"c", 0, 50, .typeName⟩)),
       .call (.registerFallback (.custom ⟨"d", 1, 51, .nothing⟩)),
       .call (.register .text (.custom ⟨"e", 2, 52, .nothing⟩)),
       .call (.registerRecord .bigInteger .note),
       .encode (.object (.carrying ⟨"a.B"⟩ none none))]
    let service := uses.foldl Use.perform (ofSettings .default)
    let values : List Value := [.text "né", .instant ⟨-1, 999999⟩, .bigInteger (-129), .bytes []]
    (∃ e after, Service.toData (.instant ⟨-1, 999999⟩) service = (.ok (some e), after) ∧
      Service.toObject (some e) after = (.ok (.instant ⟨-1, 0⟩), after)) ∧
    ∃ run written,
      Act.forEach Service.writeObject values ⟨.empty 0, service, true⟩ =
        (.ok (), ⟨written, service, true⟩) ∧
      written.content = [] ++ run ∧
      Act.times 4 Service.readObject ⟨⟨run ++ [0xFF], 0⟩, service, true⟩ =
        (.ok [.text "né", .instant ⟨-1, 0⟩, .bigInteger (-129), .bytes []],
          ⟨⟨[0xFF], 0 + run.length⟩, service, true⟩) := by
  intro uses service values
  have additive : ∀ use ∈ uses, use.Additive := by simp [uses, Use.Additive, Call.Additive]
  have reachable : Reachable (·.managed = none) Use.Additive service :=
    Reachable.uses (.start rfl) additive
  have valid : Instant.Valid ⟨-1, 999999⟩ := by decide
  have plain : ∀ value ∈ values, value.Plain := by
    simp only [values, List.forall_mem_cons]
    refine ⟨?_, valid, ?_, ?_, nofun⟩
    · show Utf8.width "né" < Wire.lengthLimit
      decide +kernel
    · show TwosComplement.width (-129) < Wire.lengthLimit
      decide +kernel
    · show ([] : Bytes).length < Wire.lengthLimit
      decide
  have down : Instant.floor ⟨-1, 999999⟩ = ⟨-1, 0⟩ := Instant.floor_of_valid valid
  obtain ⟨decodes, run, writes, reads⟩ := builtin_values_survive reachable plain
  obtain ⟨e, after, encoded, reached, decoded⟩ :=
    decodes (.instant ⟨-1, 999999⟩) (by simp [values])
  obtain ⟨written, wrote, content⟩ := writes (.empty 0) true
  have back := decoded after reached
  have read := reads service reachable [0xFF] 0 true
  simp only [values, List.map_cons, List.map_nil, Value.floor, down] at back read
  exact ⟨⟨e, after, encoded, back⟩, run, written, wrote, content, read⟩

end Service

end ObjectWire
