import Mathlib.Algebra.BigOperators.Fin
import Mathlib.Tactic.Ring
import ObjectWire.Proofs.Service.Families
import ObjectWire.Proofs.Service.Repeats

/-!
# Partition keys

A value with a partition key goes where its key goes, which goes where its own key goes, and so on
down to a key that has none.  So encoding a value comes down to encoding the values of this chain one
after the other, each without regard to its key; only the hash of the last one is kept.  Once that is
done, everything on the chain has the same partition, whichever of it is encoded.
-/

namespace ObjectWire

/-- The hash of a run of bytes is a polynomial in 31 with the signed bytes as coefficients, behind a
    leading one, modulo the number of words. -/
theorem Envelope.payloadHash_eq (payload : Bytes) :
    payloadHash payload = Int32.ofInt (31 ^ payload.length +
      ∑ i : Fin payload.length, 31 ^ (payload.length - 1 - i) * payload[i].toInt8.toInt) := by
  suffices from_any : ∀ (payload : Bytes) (h : Int),
      payload.foldl (fun h b => h * 31 + b.toInt8.toInt32) (Int32.ofInt h) =
        Int32.ofInt (h * 31 ^ payload.length +
          ∑ i : Fin payload.length, 31 ^ (payload.length - 1 - i) * payload[i].toInt8.toInt) by
    have started := from_any payload 1
    rwa [one_mul] at started
  intro payload
  induction payload with
  | nil => simp
  | cons b payload ih =>
    intro h
    have step : Int32.ofInt h * 31 + b.toInt8.toInt32 =
        Int32.ofInt (h * 31 + b.toInt8.toInt) := by
      rw [Int32.ofInt_add, Int32.ofInt_mul, Int32.ofInt_int8ToInt]
      rfl
    have shifted : ∀ i : Fin payload.length,
        payload.length - (i + 1) = payload.length - 1 - i := by omega
    rw [List.foldl_cons, step, ih]
    congr 1
    simp only [List.length_cons, Fin.sum_univ_succ]
    simp [pow_succ, shifted]
    ring

mutual

/-- The keys that decide on a value's partition: its key, the key of that, and so on, as far as there
    are keys and they are not nothing. -/
def Value.keyChain : Value → List Value
  | .portable p => p.keyChain
  | .identified o => o.keyChain
  | .object o => o.keyChain
  | _ => []
termination_by structural value => value

/-- The keys behind a portable object. -/
def Portable.keyChain : Portable → List Value
  | .scripted _ _ _ key _ => keyChainFrom key
  | _ => []
termination_by structural p => p

/-- The keys behind an identified object. -/
def Identified.keyChain : Identified → List Value
  | .scripted _ _ _ key _ => keyChainFrom key
  | _ => []
termination_by structural o => o

/-- The keys behind a user object. -/
def UserObject.keyChain : UserObject → List Value
  | .carrying _ _ key => keyChainFrom key
  | _ => []
termination_by structural o => o

/-- A key and the keys behind it. -/
def keyChainFrom : Option Value → List Value
  | none => []
  | some key => if key.isNull then [] else key :: key.keyChain
termination_by structural key => key

end

namespace Value

theorem keyChain_eq (value : Value) : value.keyChain = keyChainFrom value.partitionKey? := by
  cases value with
  | portable p => cases p <;> rfl
  | identified o => cases o <;> rfl
  | object o => cases o <;> rfl
  | _ => rfl

/-- The chain of a value begins with its key and goes on with the chain of that. -/
theorem keyChain_cons {value key : Value} {keys : List Value} (h : value.keyChain = key :: keys) :
    value.partitionKey? = some key ∧ key.isNull = false ∧ keys = key.keyChain := by
  rw [keyChain_eq] at h
  cases own : value.partitionKey? with
  | none =>
    rw [own] at h
    cases h
  | some first =>
    rw [own, keyChainFrom] at h
    split at h
    case isTrue => cases h
    case isFalse present =>
      cases h
      exact ⟨rfl, by simpa using present, rfl⟩

/-- What comes behind a key on a chain is the chain of that key. -/
theorem keyChain_of_append {value key : Value} {front back : List Value}
    (h : value :: value.keyChain = front ++ key :: back) : key.keyChain = back := by
  induction front generalizing value with
  | nil =>
    cases h
    rfl
  | cons first front ih =>
    obtain ⟨-, rest⟩ := List.cons.inj h
    cases chain : value.keyChain with
    | nil =>
      rw [chain] at rest
      cases front <;> cases rest
    | cons next keys =>
      obtain ⟨-, -, rfl⟩ := keyChain_cons chain
      exact ih (chain.symm.trans rest)

end Value

namespace Service

variable {service reached after : Service} {value : Value} {e : Envelope}

/-- Encodes a value without regard to its key. -/
def encodeKeyless (value : Value) : Act Service Envelope :=
  match value with
  | .envelope e => pure e
  | value => do
    let codec ← codecForValue value
    let (definition, payload) ← inBuffer (writeDefined codec value (partsOf value))
    pure ⟨codec.typeId, payload, definition, none⟩

/-- The envelope of a value whose chain of keys was encoded: the last key decides on the
    partition. -/
def sealed : List Envelope → Option Envelope
  | [] => none
  | e :: keys => some { e with explicitHash := keys.getLast?.map Envelope.partitionHash }

/-- Values that are neither nothing nor an envelope have an encoding of their own. -/
theorem encodeKeyless_of_fresh (fresh : ∀ held, value ≠ .envelope held) :
    encodeKeyless value = (do
      let codec ← codecForValue value
      let answer ← inBuffer (writeDefined codec value (partsOf value))
      pure ⟨codec.typeId, answer.2, answer.1, none⟩) := by
  unfold encodeKeyless
  split
  case h_1 e => exact absurd rfl (fresh e)
  case h_2 => rfl

theorem keyHash_partsOf (value : Value) :
    (partsOf value).keyHash = keyHash value.partitionKey? := by
  cases value with
  | portable p => cases p <;> rfl
  | identified o => cases o <;> rfl
  | object o => cases o <;> rfl
  | _ => rfl

/-- Encoding a value is encoding it without regard to its key, and then the key. -/
theorem encodeBy_of_fresh (fresh : ∀ held, value ≠ .envelope held) :
    encodeBy value (partsOf value) = (do
      let e ← encodeKeyless value
      let hash ← (partsOf value).keyHash
      pure { e with explicitHash := hash }) := by
  rw [encodeKeyless_of_fresh fresh]
  simp only [bind_assoc, pure_bind]
  rfl

theorem keyHashBy_of_fresh (present : value.isNull = false)
    (fresh : ∀ held, value ≠ .envelope held) :
    keyHashBy value (partsOf value) =
      (fun e => some e.partitionHash) <$> encodeBy value (partsOf value) := by
  unfold keyHashBy
  split
  case h_1 => cases present
  case h_2 e => exact absurd rfl (fresh e)
  case h_3 => rfl

/-- The hash of a key is that of the last envelope on the chain. -/
theorem keyHash_eq (value : Value) : (partsOf value).keyHash =
    (fun es => es.getLast?.map Envelope.partitionHash) <$>
      Act.collect encodeKeyless value.keyChain := by
  generalize chain : value.keyChain = keys
  induction keys generalizing value with
  | nil =>
    rw [keyHash_partsOf]
    rw [Value.keyChain_eq] at chain
    cases own : value.partitionKey? with
    | none => rfl
    | some key =>
      rw [own, keyChainFrom] at chain
      cases key with
      | null => rfl
      | _ => cases chain
  | cons key keys ih =>
    obtain ⟨own, present, rfl⟩ := Value.keyChain_cons chain
    rw [keyHash_partsOf, own, keyHash]
    by_cases fresh : ∀ held, key ≠ .envelope held
    · rw [keyHashBy_of_fresh present fresh, encodeBy_of_fresh fresh, ih key rfl, Act.collect,
        encodeKeyless_of_fresh fresh]
      simp only [bind_assoc, pure_bind, map_eq_pure_bind]
      congr
      funext codec
      congr
      funext answer
      congr
      funext es
      cases es with
      | nil => rfl
      | cons e es =>
        rw [List.getLast?_cons_cons]
        cases last : (e :: es).getLast? with
        | none => simp at last
        | some last => rfl
    · simp only [not_forall, not_not] at fresh
      obtain ⟨held, rfl⟩ := fresh
      rfl

/-- Encoding a value is encoding the values of its chain one after the other. -/
theorem toData_eq_sealed (present : value.isNull = false)
    (fresh : ∀ held, value ≠ .envelope held) :
    toData value = guarded id (fun service _ => service)
      (sealed <$> Act.collect encodeKeyless (value :: value.keyChain)) := by
  have encoded : some <$> encodeBy value (partsOf value) =
      sealed <$> Act.collect encodeKeyless (value :: value.keyChain) := by
    rw [encodeBy_of_fresh fresh, keyHash_eq, Act.collect]
    simp only [bind_assoc, pure_bind, map_eq_pure_bind]
    rfl
  rw [← encoded]
  unfold toData
  split
  case h_1 => cases present
  case h_2 e => exact absurd rfl (fresh e)
  case h_3 => rfl

theorem explicitHash_of_encodeKeyless (fresh : ∀ held, value ≠ .envelope held)
    (h : encodeKeyless value service = (.ok e, after)) : e.explicitHash = none := by
  rw [encodeKeyless_of_fresh fresh] at h
  obtain ⟨codec, _, -, h⟩ := Act.bind_ok h
  obtain ⟨answer, _, -, h⟩ := Act.bind_ok h
  cases h
  rfl

/-- A value whose chain can be encoded is encoded, and has the partition of the last envelope. -/
theorem toData_of_collect {es : List Envelope}
    (h : Act.collect encodeKeyless (value :: value.keyChain) service = (.ok es, after)) :
    ∃ e, toData value service = (.ok (some e), after) ∧
      es.getLast?.map Envelope.partitionHash = some e.partitionHash := by
  by_cases fresh : ∀ held, value ≠ .envelope held
  · have present : value.isNull = false := by
      cases value with
      | null => cases h
      | _ => rfl
    have sealing : (sealed <$> Act.collect encodeKeyless (value :: value.keyChain)) service =
        (.ok (sealed es), after) := by
      rw [Act.map_apply, h]
      rfl
    obtain ⟨first, _, own, h⟩ := Act.bind_ok h
    obtain ⟨others, _, -, h⟩ := Act.bind_ok h
    cases h
    have bare := explicitHash_of_encodeKeyless fresh own
    rw [toData_eq_sealed present fresh]
    refine ⟨_, guarded_of_ok sealing, ?_⟩
    cases others with
    | nil => simp [Envelope.partitionHash, bare]
    | cons next others =>
      rw [List.getLast?_cons_cons]
      cases last : (next :: others).getLast? with
      | none => simp at last
      | some last => rfl
  · simp only [not_forall, not_not] at fresh
    obtain ⟨held, rfl⟩ := fresh
    cases h
    exact ⟨held, rfl, rfl⟩

theorem collect_of_toData (fresh : ∀ held, value ≠ .envelope held)
    (h : toData value service = (.ok (some e), after)) :
    ∃ es, Act.collect encodeKeyless (value :: value.keyChain) service = (.ok es, after) ∧
      sealed es = some e := by
  have present : value.isNull = false := by
    cases value with
    | null => cases h
    | _ => rfl
  rw [toData_eq_sealed present fresh] at h
  exact Act.map_ok (guarded_ok h)

theorem repeats_encodeKeyless (value : Value) : (encodeKeyless value).Repeats memory := by
  by_cases fresh : ∀ held, value ≠ .envelope held
  · have parts := pervades_repeats.atHand (pervades_repeats.partsOf value) value
    rw [encodeKeyless_of_fresh fresh]
    apply (repeats_codecForValue value).bind
    intro codec
    rw [writeDefined_eq]
    exact (repeats_inBuffer (pervades_repeats.writeDefined parts codec value)).bind
      fun _ => Act.repeats_pure _
  · simp only [not_forall, not_not] at fresh
    obtain ⟨held, rfl⟩ := fresh
    exact Act.repeats_pure held

theorem repeats_collect (values : List Value) :
    (Act.collect encodeKeyless values).Repeats memory :=
  Act.composes_repeats.collect fun value _ => repeats_encodeKeyless value

/-- Once a value is encoded, every value on its chain can be, and has the partition of the value. -/
theorem partitionHash_of_mem_keyChain (settled : service.Settled)
    (fresh : ∀ held, value ≠ .envelope held) (h : toData value service = (.ok (some e), after))
    {key : Value} (member : key ∈ value :: value.keyChain) :
    ∃ known later, toData key after = (.ok (some known), later) ∧
      known.partitionHash = e.partitionHash := by
  obtain ⟨front, back, split⟩ := List.append_of_mem member
  obtain ⟨es, collected, -⟩ := collect_of_toData fresh h
  obtain ⟨own, encoded, hash⟩ := toData_of_collect collected
  rw [h] at encoded
  cases encoded
  rw [split, Act.collect_append] at collected
  obtain ⟨before, reached, first, collected⟩ := Act.bind_ok collected
  obtain ⟨behind, _, ran, collected⟩ := Act.bind_ok collected
  cases collected
  have reachedSettled := (repeats_collect front settled first).1
  obtain ⟨afterSettled, -, repeated⟩ := repeats_collect (key :: back) reachedSettled ran
  obtain ⟨later, again, -⟩ := repeated afterSettled (Persists.refl after) rfl
  rw [← Value.keyChain_of_append split] at again
  obtain ⟨known, encoded, knownHash⟩ := toData_of_collect again
  refine ⟨known, later, encoded, ?_⟩
  obtain ⟨first, _, -, again⟩ := Act.bind_ok again
  obtain ⟨others, _, -, again⟩ := Act.bind_ok again
  cases again
  rw [List.getLast?_append_of_ne_nil _ (List.cons_ne_nil _ _), knownHash] at hash
  exact Option.some.inj hash

/-- A value whose key fails to be encoded when its turn comes fails to be encoded, and with the same
    failure. -/
theorem toData_of_key_error (fresh : ∀ held, value ≠ .envelope held) {key : Value}
    {front back : List Value} (split : value :: value.keyChain = front ++ key :: back)
    {es : List Envelope} (first : Act.collect encodeKeyless front service = (.ok es, reached))
    {failure : Failure} (failed : (toData key reached).1 = .error failure) :
    (toData value service).1 = .error failure := by
  have keyPresent : key.isNull = false := by
    cases key with
    | null => cases failed
    | _ => rfl
  have keyFresh : ∀ held, key ≠ .envelope held := by
    rintro held rfl
    cases failed
  have present : value.isNull = false := by
    cases value with
    | null =>
      cases front with
      | nil => cases split; cases keyPresent
      | cons _ front => cases front <;> cases split
    | _ => rfl
  rw [toData_eq_sealed keyPresent keyFresh, Value.keyChain_of_append split] at failed
  rw [toData_eq_sealed present fresh, split]
  rcases ran : Act.collect encodeKeyless (key :: back) reached with ⟨refused | behind, final⟩
  · have whole : Act.collect encodeKeyless (front ++ key :: back) service =
        (.error refused, final) := by
      rw [Act.collect_append, Act.bind_of_ok first]
      exact Act.bind_of_error ran
    have sealing : ∀ {values : List Value} {now : Service},
        Act.collect encodeKeyless values now = (.error refused, final) →
        (sealed <$> Act.collect encodeKeyless values) now = (.error refused, final) := by
      intro values now ran
      rw [Act.map_apply, ran]
      rfl
    rw [guarded_of_error (sealing ran)] at failed
    rw [guarded_of_error (sealing whole)]
    exact failed
  · have sealing : (sealed <$> Act.collect encodeKeyless (key :: back)) reached =
        (.ok (sealed behind), final) := by
      rw [Act.map_apply, ran]
      rfl
    rw [guarded_of_ok sealing] at failed
    cases failed

/-- However a service was used, as long as the reserved families that types are declared to belong
    to are bound: if a value is encoded, then everything on its chain of keys can be encoded
    afterwards, and has the partition of the value, be it an envelope that brings its own hash or
    whatever else, and whatever the values in front of it hold.  Without a key there is no explicit
    hash, and the partition is the polynomial of the value's own bytes.  If a key fails to be encoded
    when its turn comes, so does the value. -/
theorem partition_follows_keys
    (reachable : Reachable (fun _ => True) (fun _ => True) service)
    (grounded : service.registry.Grounded) (value : Value)
    (fresh : ∀ held, value ≠ .envelope held) :
    (∀ e after, toData value service = (.ok (some e), after) →
      (∀ key ∈ value :: value.keyChain, ∃ known later,
        toData key after = (.ok (some known), later) ∧ known.partitionHash = e.partitionHash) ∧
      (value.keyChain = [] → e.explicitHash = none ∧
        e.partitionHash = Int32.ofInt (31 ^ e.payload.length + ∑ i : Fin e.payload.length,
          31 ^ (e.payload.length - 1 - i) * e.payload[i].toInt8.toInt))) ∧
    ∀ front key back, value :: value.keyChain = front ++ key :: back →
      ∀ es reached, Act.collect encodeKeyless front service = (.ok es, reached) →
        ∀ failure, (toData key reached).1 = .error failure →
          (toData value service).1 = .error failure := by
  refine ⟨fun e after encoded => ⟨fun key member => ?_, fun keyless => ?_⟩, ?_⟩
  · exact partitionHash_of_mem_keyChain ⟨reachable.tidy, grounded⟩ fresh encoded member
  · obtain ⟨es, collected, sealing⟩ := collect_of_toData fresh encoded
    rw [keyless] at collected
    obtain ⟨own, _, -, collected⟩ := Act.bind_ok collected
    cases collected
    cases sealing
    exact ⟨rfl, Envelope.payloadHash_eq own.payload⟩
  · intro front key back split es reached first failure failed
    exact toData_of_key_error fresh split first failed

/-- A portable object, an identified object and an object of a type of its own, each with the next
    one as its key, all go where the text at the end goes. -/
theorem partition_follows_keys_of_four :
    let service := Use.perform (ofSettings .default)
      (.call (.registerFallback (.custom ⟨"f", 0, 50, .typeName⟩)))
    let user := Value.object (.carrying ⟨"a.A"⟩ none (some (.text "k")))
    let identified := Value.identified (.scripted 2 3 [.plain (.text "x")] (some user) [])
    let value := Value.portable
      (.scripted 1 none [.data "n" (.scalar .int (7 : Int32))] (some identified) [])
    ∃ e after, toData value service = (.ok (some e), after) ∧
      ∀ key ∈ [value, identified, user, .text "k"], ∃ known later,
        toData key after = (.ok (some known), later) ∧ known.partitionHash = e.partitionHash := by
  intro service user identified value
  have lasting : Reachable (fun _ => True) Use.Lasting service :=
    (Reachable.start trivial).use (.call (.registerFallback _)) trivial
  have reachable : Reachable (fun _ => True) (fun _ => True) service :=
    (Reachable.start trivial).use (.call (.registerFallback _)) trivial
  have hashed : (toData value service).1.toOption.join.map Envelope.partitionHash =
      some 28629289 := by decide +kernel
  obtain ⟨e, after, encoded, -⟩ := exists_toData hashed
  obtain ⟨follows, -⟩ := partition_follows_keys reachable lasting.seated.grounded value nofun
  exact ⟨e, after, encoded, (follows e after encoded).1⟩

/-- The family of portable objects was declared above the type of a key, and its codec was taken
    back.  While the key is encoded the family adopts the fallback, and from then on the key goes by
    that. -/
theorem partition_misses_key :
    let uses := [Use.call (.register ⟨"a.K"⟩ (.custom ⟨"g", 0, 50, .payload⟩)),
      .call (.declareType ⟨"a.K"⟩ ⟨[.portable], []⟩), .call (.deregister .portable),
      .call (.registerFallback (.custom ⟨"f", 1, 51, .typeName⟩))]
    let service := uses.foldl Use.perform (ofSettings .default)
    let payload := Value.portable (.scripted 1 none [] none [])
    let key := Value.object (.carrying ⟨"a.K"⟩ (some payload) none)
    let value := Value.object (.carrying ⟨"a.V"⟩ none (some key))
    Reachable (fun _ => True) (fun _ => True) service ∧ value.keyChain = [key] ∧
      ∃ e after known later, toData value service = (.ok (some e), after) ∧
        toData key after = (.ok (some known), later) ∧
        e.partitionHash = -1629861657 ∧ known.partitionHash = 1742994426 := by
  intro uses service payload key value
  have reachable : Reachable (fun _ => True) (fun _ => True) service :=
    (Reachable.start trivial).uses (by simp)
  have hashed : (toData value service).1.toOption.join.map Envelope.partitionHash =
      some (-1629861657) := by decide +kernel
  have keyHashed : (toData key (toData value service).2).1.toOption.join.map
      Envelope.partitionHash = some 1742994426 := by decide +kernel
  obtain ⟨e, after, encoded, hash⟩ := exists_toData hashed
  obtain ⟨known, later, keyEncoded, keyHash⟩ := exists_toData keyHashed
  rw [encoded] at keyEncoded
  exact ⟨reachable, rfl, e, after, known, later, encoded, keyEncoded, hash, keyHash⟩

end Service

end ObjectWire
