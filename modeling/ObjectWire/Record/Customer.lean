import ObjectWire.Portable.BodyReader

/-!
# Customers

A record that is written as a portable object field by field, under the field's own name or one
chosen for the wire.  It has a field of every kind that holds no object, and one field, the
session, that stays behind.
-/

namespace ObjectWire

/-- A customer. -/
structure Customer where
  name : String
  email : Option String
  flag : Bool
  level : Int8
  initial : Char
  small : Int16
  age : Int32
  visits : Int64
  ratio : Single
  balance : Double
  levels : List Int8
  flags : List Bool
  initials : List Char
  smalls : List Int16
  ages : List Int32
  visitLog : List Int64
  ratios : List Single
  balances : List Double
  tags : List String
  session : Int64
  deriving DecidableEq

namespace Customer

/-- The class of customers. -/
def classId : Int32 := 10

/-- The version of their schema. -/
def version : Int32 := 1

/-- A customer of whom nothing is known. -/
def blank : Customer :=
  ⟨"", none, false, 0, '\x00', 0, 0, 0, ⟨0⟩, ⟨0⟩, [], [], [], [], [], [], [], [], [], 0⟩

/-- The fields that are written, in order. -/
def fields (c : Customer) : List (String × FieldData) :=
  [("name", .text (some c.name)),
   ("emailAddress", .text c.email),
   ("flag", .scalar .bool c.flag),
   ("level", .scalar .byte c.level),
   ("initial", .scalar .char c.initial),
   ("small", .scalar .short c.small),
   ("age", .scalar .int c.age),
   ("visits", .scalar .long c.visits),
   ("ratio", .scalar .float c.ratio),
   ("balance", .scalar .double c.balance),
   ("levels", .array .byte (some c.levels)),
   ("flags", .array .bool (some c.flags)),
   ("initials", .array .char (some c.initials)),
   ("smalls", .array .short (some c.smalls)),
   ("ages", .array .int (some c.ages)),
   ("log", .array .long (some c.visitLog)),
   ("ratios", .array .float (some c.ratios)),
   ("balances", .array .double (some c.balances)),
   ("tags", .textArray (some c.tags))]

/-- Reads a customer; texts and runs that are absent count as empty, and the session is blank. -/
def read (reader : BodyReader) : Except Failure Customer := do
  let name ← reader.text "name"
  let email ← reader.text "emailAddress"
  let flag ← reader.scalar .bool "flag"
  let level ← reader.scalar .byte "level"
  let initial ← reader.scalar .char "initial"
  let small ← reader.scalar .short "small"
  let age ← reader.scalar .int "age"
  let visits ← reader.scalar .long "visits"
  let ratio ← reader.scalar .float "ratio"
  let balance ← reader.scalar .double "balance"
  let levels ← reader.array .byte "levels"
  let flags ← reader.array .bool "flags"
  let initials ← reader.array .char "initials"
  let smalls ← reader.array .short "smalls"
  let ages ← reader.array .int "ages"
  let visitLog ← reader.array .long "log"
  let ratios ← reader.array .float "ratios"
  let balances ← reader.array .double "balances"
  let tags ← reader.textArray "tags"
  pure ⟨name.getD "", email, flag, level, initial, small, age, visits, ratio, balance,
    levels.getD [], flags.getD [], initials.getD [], smalls.getD [], ages.getD [],
    visitLog.getD [], ratios.getD [], balances.getD [], tags.getD [], blank.session⟩

end Customer

end ObjectWire
