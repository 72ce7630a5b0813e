import LedgerExport.Text.Digits
import LedgerExport.Time.Instant

/-!
# Lengths of time

A length of time and its text: `1.5s`, `100ms`, `1.001µs`, `0ns`.
-/

namespace LedgerExport.Time

open Text

/-- A length of time. -/
structure Span where
  /-- Whole seconds. -/
  seconds : Nat
  /-- Nanoseconds within the second. -/
  nanos : Nat
  /-- A billion nanoseconds are a second. -/
  nanos_lt : nanos < nanosPerSecond := by decide
deriving DecidableEq, Repr

namespace Span

/-- The length of seconds and nanoseconds, which may be more than a second. -/
def ofParts (seconds nanos : Nat) : Span where
  seconds := seconds + nanos / nanosPerSecond
  nanos := nanos % nanosPerSecond
  nanos_lt := Nat.mod_lt _ (by decide)

/-- The length of whole milliseconds. -/
def ofMillis (n : Nat) : Span where
  seconds := n / 1000
  nanos := n % 1000 * nanosPerMilli
  nanos_lt := by simp only [nanosPerMilli, nanosPerSecond]; omega

/-- The nanoseconds of the whole length. -/
def totalNanos (s : Span) : Nat := s.seconds * nanosPerSecond + s.nanos

/-- The digits of a fraction that has `places` decimal places, with the point before them and
without zeros at their end. -/
def fractionText (places n : Nat) : List Char :=
  match ((paddedDigits places n).reverse.dropWhile (· == '0')).reverse with
  | [] => []
  | ds => '.' :: ds

/-- The length in the largest of four units of which it holds at least one. -/
def text (s : Span) : String :=
  let inUnit (places : Nat) (unit : String) : String :=
    let whole := s.totalNanos / Nat.pow 10 places
    .ofList (digits whole ++ fractionText places (s.totalNanos % Nat.pow 10 places)) ++ unit
  if 0 < s.seconds then inUnit 9 "s"
  else if 1000000 ≤ s.nanos then inUnit 6 "ms"
  else if 1000 ≤ s.nanos then inUnit 3 "µs"
  else .ofList (digits s.nanos) ++ "ns"

end Span

end LedgerExport.Time
