import ObjectWire.Json.Parser
import ObjectWire.Text.Quoted

/-!
# Records written as documents

Notes and counters are written as JSON: an object with the members of the record in order.  They
are read from an object, in which every member must stand exactly once and unknown ones are
ignored, or from a list of the members' values.  The type a record reports is not part of its
document.
-/

namespace ObjectWire

/-- A note. -/
structure Note where
  user : String
  ttl : UInt32
  tags : List String
  deriving DecidableEq

/-- A counter. -/
structure Counter where
  n : Int64
  deriving DecidableEq

/-- The kinds of records that are written as documents. -/
inductive RecordKind
  | note
  | counter
  deriving Repr, DecidableEq

/-- A record that is written as a document. -/
inductive Record
  | note (n : Note)
  | counter (c : Counter)
  deriving DecidableEq

namespace Record

/-- The kind of a record. -/
def kind : Record → RecordKind
  | .note _ => .note
  | .counter _ => .counter

/-- The document of a record. -/
def document : Record → Json
  | .note n => .object
      [(Json.ascii "user", .ofText n.user), (Json.ascii "ttl", .ofInt n.ttl.toNat),
       (Json.ascii "tags", .array (n.tags.map Json.ofText))]
  | .counter c => .object [(Json.ascii "n", .ofInt c.n.toInt)]

/-- A record that reports a type, as shown in messages. -/
def shown (key : String) : Record → String
  | .note n => "Note \x7b key: " ++ Quoted.text key ++ ", user: " ++ Quoted.text n.user ++
      s!", ttl: {n.ttl}, tags: " ++ Quoted.list (n.tags.map Quoted.text) ++ " \x7d"
  | .counter c => "Counter \x7b key: " ++ Quoted.text key ++ s!", n: {c.n} \x7d"

/-- The value of the only member of a given name. -/
def member? (name : String) (members : List (String × Json)) : Option Json :=
  match members.filter fun (known, _) => known = name with
  | [(_, item)] => some item
  | _ => none

/-- The values of the members of given names: from an object by name, from a list by place. -/
def members? (names : List String) : Json → Option (List Json)
  | .object members => do
    let named ← members.mapM fun (name, item) => (·, item) <$> Json.unquoteText name
    names.mapM fun name => member? name named
  | .array items => if items.length = names.length then some items else none
  | _ => none

/-- The note a document stands for. -/
def note? (document : Json) : Option Note := do
  match ← members? ["user", "ttl", "tags"] document with
  | [user, ttl, tags] =>
    let user ← user.text?
    let ttl ← ttl.int?
    let tags ← tags.texts?
    if 0 ≤ ttl && ttl < 0x100000000 then some ⟨user, UInt32.ofNat ttl.toNat, tags⟩ else none
  | _ => none

/-- The counter a document stands for. -/
def counter? (document : Json) : Option Counter := do
  match ← members? ["n"] document with
  | [n] =>
    let n ← n.int?
    if -0x8000000000000000 ≤ n && n < 0x8000000000000000 then some ⟨Int64.ofInt n⟩ else none
  | _ => none

/-- The bytes of the document of a record. -/
def encode (record : Record) : Bytes := record.document.render

/-- The record of a kind whose document a run of bytes is. -/
def decode? (kind : RecordKind) (run : Bytes) : Option Record := do
  let document ← Json.parse? run
  match kind with
  | .note => .note <$> note? document
  | .counter => .counter <$> counter? document

end Record

end ObjectWire
