import LedgerExport.Text.Digits
import LedgerExport.Time.Instant

/-!
# Written instants

The text of an instant in Coordinated Universal Time: `2023-01-01T00:00:00.250Z`. A year outside
0 to 9999 has a sign and at least four digits. A leap second is written as the second behind the one
that it follows, and so as second 60 at the end of a minute.
-/

namespace LedgerExport.Time

open Text

/-- How the fraction of a second is written. -/
inductive Precision where
  /-- None of it. -/
  | seconds
  /-- Three digits. -/
  | millis
  /-- None, three, six or nine digits: the fewest that lose nothing. -/
  | shortest
deriving DecidableEq, Repr

/-- The digits of a fraction of a second, with the point before them. -/
def Precision.fractionText : Precision → Nat → List Char
  | .seconds, _ => []
  | .millis, n => '.' :: paddedDigits 3 (n / 1000000)
  | .shortest, n =>
    if n = 0 then []
    else if n % 1000000 = 0 then '.' :: paddedDigits 3 (n / 1000000)
    else if n % 1000 = 0 then '.' :: paddedDigits 6 (n / 1000)
    else '.' :: paddedDigits 9 n

/-- A year in four digits, or with a sign when it is outside 0 to 9999. -/
def yearText (y : Int) : List Char :=
  if y < 0 then '-' :: paddedDigits 4 y.natAbs
  else if y ≤ 9999 then paddedDigits 4 y.natAbs
  else '+' :: paddedDigits 4 y.natAbs

/-- The date as year, month and day. -/
def Date.text (d : Date) : List Char :=
  yearText d.year ++ '-' :: paddedDigits 2 d.month ++ '-' :: paddedDigits 2 d.day

namespace Instant

/-- The characters of the written instant. -/
def chars (p : Precision) (t : Instant) : List Char :=
  t.date.text ++ 'T' :: paddedDigits 2 t.hour ++ ':' :: paddedDigits 2 t.minute ++
    ':' :: paddedDigits 2 t.second ++ p.fractionText t.fraction ++ ['Z']

/-- The written instant. -/
def written (p : Precision) (t : Instant) : String := .ofList (t.chars p)

/-- The written instant that loses nothing. -/
def text (t : Instant) : String := t.written .shortest

end Instant

end LedgerExport.Time
