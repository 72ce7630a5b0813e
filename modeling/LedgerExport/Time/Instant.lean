import LedgerExport.Time.Calendar

/-!
# Instants

Points in time with nanoseconds, in Coordinated Universal Time. A leap second is counted with the
second before it: it is that second with a billion nanoseconds or more. Any second may be followed
by one. Instants that come from numbers or from a local time have leap seconds only at the end of a
minute, behind second 59.
-/

namespace LedgerExport.Time

/-- The nanoseconds of a second. -/
def nanosPerSecond : Nat := 1000000000

/-- The nanoseconds of a millisecond. -/
def nanosPerMilli : Nat := 1000000

/-- The first second of the year -262143, counted from 1970. -/
def firstSecond : Int := -8334601228800

/-- The last second of the year 262142, counted from 1970. -/
def lastSecond : Int := 8210266876799

/-- A point in time. -/
@[ext]
structure Instant where
  /-- Whole seconds since 1970-01-01T00:00:00Z. -/
  seconds : Int
  /-- Nanoseconds within the second; a billion and above within a leap second. -/
  nanos : Nat
  /-- The second lies in the years of the calendar. -/
  inRange : firstSecond ≤ seconds ∧ seconds ≤ lastSecond
  /-- A second and the leap second that follows it have no more nanoseconds. -/
  nanos_lt : nanos < 2 * nanosPerSecond
deriving DecidableEq, Repr

namespace Instant

/-- An instant may begin a second. -/
theorem start_lt : 0 < 2 * nanosPerSecond := by decide

/-- An instant may lie in the middle of a leap second. -/
theorem midLeap_lt : 1500000000 < 2 * nanosPerSecond := by decide

/-- The instant with the given seconds and nanoseconds, if there is one. A leap second is accepted
only behind the last second of a minute. -/
def of? (seconds : Int) (nanos : Nat) : Option Instant :=
  if h : (firstSecond ≤ seconds ∧ seconds ≤ lastSecond) ∧
      (nanos < nanosPerSecond ∨ seconds % 60 = 59 ∧ nanos < 2 * nanosPerSecond) then
    some ⟨seconds, nanos, h.1, by omega⟩
  else none

instance : LT Instant :=
  ⟨fun a b => a.seconds < b.seconds ∨ a.seconds = b.seconds ∧ a.nanos < b.nanos⟩

instance : LE Instant :=
  ⟨fun a b => a.seconds < b.seconds ∨ a.seconds = b.seconds ∧ a.nanos ≤ b.nanos⟩

instance (a b : Instant) : Decidable (a < b) :=
  inferInstanceAs (Decidable (_ ∨ _ ∧ _))

instance (a b : Instant) : Decidable (a ≤ b) :=
  inferInstanceAs (Decidable (_ ∨ _ ∧ _))

instance : Max Instant := ⟨fun a b => if a ≤ b then b else a⟩

/-- The instant cut to whole milliseconds. -/
def cutToMillis (t : Instant) : Instant where
  seconds := t.seconds
  nanos := t.nanos - t.nanos % nanosPerMilli
  inRange := t.inRange
  nanos_lt := Nat.lt_of_le_of_lt (Nat.sub_le ..) t.nanos_lt

/-- Whole milliseconds since 1970, a leap second counted on into the next second. -/
def millis (t : Instant) : Int := t.seconds * 1000 + (t.nanos / nanosPerMilli : Nat)

/-- The calendar day in Coordinated Universal Time. -/
def date (t : Instant) : Date := .ofDays (t.seconds / 86400)

/-- The hour of the day, from 0 to 23. -/
def hour (t : Instant) : Nat := (t.seconds % 86400 / 3600).toNat

/-- The minute of the hour, from 0 to 59. -/
def minute (t : Instant) : Nat := (t.seconds % 3600 / 60).toNat

/-- The second of the minute, from 0 to 59; a leap second is the next one, up to 60. -/
def second (t : Instant) : Nat :=
  (t.seconds % 60).toNat + if t.nanos < nanosPerSecond then 0 else 1

/-- The nanoseconds since the start of the second that `second` names. -/
def fraction (t : Instant) : Nat := t.nanos % nanosPerSecond

/-- The instant at which clocks that are `offset` minutes ahead show the given local time. Second
60 is the leap second of any minute. -/
def ofLocal? (d : Date) (hour minute second fraction : Nat) (offset : Int) : Option Instant :=
  if d.Valid ∧ hour < 24 ∧ minute < 60 ∧ second ≤ 60 ∧ fraction < nanosPerSecond then
    let seconds :=
      d.toDays * 86400 + hour * 3600 + minute * 60 + (min second 59 : Nat) - offset * 60
    of? seconds (if second = 60 then nanosPerSecond + fraction else fraction)
  else none

end Instant

end LedgerExport.Time
