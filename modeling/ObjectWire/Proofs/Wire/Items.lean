import ObjectWire.Proofs.TwosComplement
import ObjectWire.Proofs.Wire.Takes
import ObjectWire.Wire.Shape

/-!
# Instants and integers of any size

Integers of any size are taken from their wire form as they are.  Of an instant the milliseconds
travel, so what is taken is the instant rounded down: towards the past, before 1970 as well.
-/

namespace ObjectWire

namespace Instant

/-- The instant lies within the calendar, and what it has beyond the millisecond is less than
    one. -/
structure Valid (t : Instant) : Prop where
  first : firstMillis ≤ t.millis
  last : t.millis ≤ lastMillis
  nanos : t.nanos < 1000000

instance (t : Instant) : Decidable t.Valid :=
  decidable_of_iff (firstMillis ≤ t.millis ∧ t.millis ≤ lastMillis ∧ t.nanos < 1000000)
    ⟨fun ⟨first, last, nanos⟩ => ⟨first, last, nanos⟩, fun h => ⟨h.first, h.last, h.nanos⟩⟩

/-- Nanoseconds since 1970. -/
def nanoseconds (t : Instant) : Int := t.millis.toInt * 1000000 + t.nanos

/-- The last full millisecond up to an instant. -/
def floor (t : Instant) : Instant := ⟨Int64.ofInt (t.nanoseconds / 1000000), 0⟩

theorem floor_of_valid {t : Instant} (valid : t.Valid) : t.floor = ⟨t.millis, 0⟩ := by
  have whole : t.nanoseconds / 1000000 = t.millis.toInt := by
    have := valid.nanos
    unfold nanoseconds
    omega
  rw [floor, whole, Int64.ofInt_toInt]

end Instant

namespace Input

theorem takes_instant {t : Instant} (valid : t.Valid) :
    Takes instant (Wire.instant t) t.floor := by
  have calendar : Instant.ofMillis? t.millis = some ⟨t.millis, 0⟩ := by
    simp [Instant.ofMillis?, valid.first, valid.last]
  apply (takes_long t.millis).bind_nil
  rw [calendar, Instant.floor_of_valid valid]
  exact takes_pure _

/-- Bytes behind their number are taken as the integer whose two's complement they are, whether or
    not that could be shorter. -/
theorem takes_bigInteger_of_ne_nil {bytes run : Bytes} (h : Wire.byteArray bytes = .ok run)
    (nonempty : bytes ≠ []) : Takes bigInteger run (TwosComplement.decode bytes) := by
  apply (takes_byteArray h).bind_nil
  cases bytes with
  | nil => exact absurd rfl nonempty
  | cons first others => exact takes_pure _

theorem takes_bigInteger {n : Int} {run : Bytes} (h : Wire.bigInteger n = .ok run) :
    Takes bigInteger run n := by
  have taken := takes_bigInteger_of_ne_nil h (TwosComplement.encode_ne_nil n)
  rwa [TwosComplement.decode_encode] at taken

end Input

end ObjectWire
