/-!
# Instants

A point in time is a number of milliseconds since the start of 1970, UTC, and a fraction of the
millisecond in nanoseconds.  Only the milliseconds travel.  The calendar is the proleptic
Gregorian one; its years run from -262143 to 262142.
-/

namespace ObjectWire

/-- A point in time. -/
structure Instant where
  /-- Milliseconds since 1970, rounded down. -/
  millis : Int64
  /-- Nanoseconds beyond the millisecond, below a million. -/
  nanos : Nat
  deriving Repr, DecidableEq

namespace Instant

/-- The first millisecond of the year -262143. -/
def firstMillis : Int64 := -8334601228800000

/-- The last millisecond of the year 262142. -/
def lastMillis : Int64 := 8210266876799999

/-- The start of a millisecond, if the calendar has it. -/
def ofMillis? (millis : Int64) : Option Instant :=
  if firstMillis ≤ millis && millis ≤ lastMillis then some ⟨millis, 0⟩ else none

/-- A calendar day. -/
structure Day where
  year : Int
  month : Int
  day : Int
  deriving Repr, DecidableEq

/-- The calendar day that lies `days` days after the first of 1970.  Days are counted from the
    first of March of a year divisible by 400, so that the leap day comes last. -/
def dayOf (days : Int) : Day :=
  let shifted := days + 719468
  let era := shifted / 146097
  let dayOfEra := shifted % 146097
  let yearOfEra :=
    (dayOfEra - dayOfEra / 1460 + dayOfEra / 36524 - dayOfEra / 146096) / 365
  let dayOfYear := dayOfEra - (365 * yearOfEra + yearOfEra / 4 - yearOfEra / 100)
  let monthFromMarch := (5 * dayOfYear + 2) / 153
  let day := dayOfYear - (153 * monthFromMarch + 2) / 5 + 1
  let month := if monthFromMarch < 10 then monthFromMarch + 3 else monthFromMarch - 9
  let year := yearOfEra + era * 400 + (if month ≤ 2 then 1 else 0)
  ⟨year, month, day⟩

/-- A number in at least `width` digits. -/
def padded (width n : Nat) : String := String.ofList ((Nat.toDigits 10 n).leftpad width '0')

/-- A year in four digits, or with its sign if it has more or is negative. -/
def yearText (year : Int) : String :=
  if 0 ≤ year && year ≤ 9999 then padded 4 year.toNat
  else (if year < 0 then "-" else "+") ++ padded 4 year.natAbs

/-- A fraction of a second given in nanoseconds: none, or three, six or nine digits, as few as
    are exact. -/
def fractionText (nanos : Nat) : String :=
  if nanos = 0 then ""
  else if nanos % 1000000 = 0 then "." ++ padded 3 (nanos / 1000000)
  else if nanos % 1000 = 0 then "." ++ padded 6 (nanos / 1000)
  else "." ++ padded 9 nanos

/-- An instant as a date and a time of the day. -/
def text (instant : Instant) : String :=
  let seconds := instant.millis.toInt / 1000
  let nanos := (instant.millis.toInt % 1000).toNat * 1000000 + instant.nanos
  let day := dayOf (seconds / 86400)
  let second := (seconds % 86400).toNat
  yearText day.year ++ "-" ++ padded 2 day.month.toNat ++ "-" ++ padded 2 day.day.toNat ++ "T" ++
    padded 2 (second / 3600) ++ ":" ++ padded 2 (second / 60 % 60) ++ ":" ++
    padded 2 (second % 60) ++ fractionText nanos ++ "Z"

end Instant

end ObjectWire
