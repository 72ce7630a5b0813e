import LedgerExport.Text.Digits
import LedgerExport.Time.Calendar

/-!
# Ion timestamps

A timestamp of the Ion format keeps the precision and the offset with which it was written. The
fields are those of the local time, and an offset of `none` says that only the time in Coordinated
Universal Time is known.
-/

namespace LedgerExport.Ion

open Text Reading Time

/-- A timestamp. -/
inductive Timestamp where
  /-- A year. -/
  | year (year : Nat)
  /-- A month of a year. -/
  | month (year month : Nat)
  /-- A day. -/
  | day (date : Date)
  /-- A minute of a day, with its offset in minutes. -/
  | minute (date : Date) (hour minute : Nat) (offset : Option Int)
  /-- A second of a day with the digits of its fraction, and the offset in minutes. -/
  | second (date : Date) (hour minute second : Nat) (fraction : List Char) (offset : Option Int)
deriving DecidableEq, Repr

namespace Timestamp

/-- The year lies between 1 and 9999. -/
def isYear (y : Int) : Bool := 1 ≤ y && y ≤ 9999

/-- The day exists, in a year between 1 and 9999. -/
def isDay (d : Date) : Bool := isYear d.year && 1 ≤ d.day && d.day ≤ daysInMonth d.year d.month

/-- The hour and the minute exist. -/
def isMinute (hour minute : Nat) : Bool := hour < 24 && minute < 60

/-- The offset is shorter than a day. -/
def isOffset : Option Int → Bool
  | none => true
  | some minutes => minutes.natAbs < 1440

/-- The digits are those of a fraction. A fraction of many digits must be less than one even when
its digits are counted by their logarithm. -/
def isFraction (ds : List Char) : Bool :=
  ds.all Char.isDigit && (ds.length ≤ 9 || logDigitCount (ofDigits ds) ≤ ds.length)

/-- The parts of a timestamp are in their ranges. -/
def valid : Timestamp → Bool
  | .year y => isYear y
  | .month y m => isYear y && 1 ≤ m && m ≤ 12
  | .day d => isDay d
  | .minute d h m o => isDay d && isMinute h m && isOffset o
  | .second d h m s fraction o =>
    isDay d && isMinute h m && s < 60 && isFraction fraction && isOffset o

/-- An offset with its sign; an unknown one is written as minus zero. -/
def offsetText : Option Int → List Char
  | none => ['-', '0', '0', ':', '0', '0']
  | some minutes =>
    (if minutes < 0 then '-' else '+') :: paddedDigits 2 (minutes.natAbs / 60) ++
      ':' :: paddedDigits 2 (minutes.natAbs % 60)

/-- The digits of a date. -/
def dateText (d : Date) : List Char :=
  paddedDigits 4 d.year.natAbs ++ '-' :: paddedDigits 2 d.month ++ '-' :: paddedDigits 2 d.day

/-- The digits of a date, an hour and a minute. -/
def minuteText (d : Date) (h m : Nat) : List Char :=
  dateText d ++ 'T' :: paddedDigits 2 h ++ ':' :: paddedDigits 2 m

/-- The text of a timestamp in its own precision, with the offset in digits. -/
def chars : Timestamp → List Char
  | .year y => paddedDigits 4 y ++ ['T']
  | .month y m => paddedDigits 4 y ++ '-' :: paddedDigits 2 m ++ ['T']
  | .day d => dateText d ++ ['T']
  | .minute d h m o => minuteText d h m ++ offsetText o
  | .second d h m s [] o => minuteText d h m ++ ':' :: paddedDigits 2 s ++ offsetText o
  | .second d h m s fraction o =>
    minuteText d h m ++ ':' :: paddedDigits 2 s ++ '.' :: fraction ++ offsetText o

/-- Takes an offset: `Z`, or a sign with hours and minutes. Minus zero is the unknown offset. -/
def readOffset : Reading (Option Int) := do
  if ← char? 'Z' then
    return some 0
  let sign ← charIf fun c => c == '+' || c == '-'
  let hours ← fixedNumber 2
  char ':'
  let minutes ← fixedNumber 2
  demand (isMinute hours minutes)
  let offset : Int := hours * 60 + minutes
  if sign = '+' then
    return some offset
  else if offset = 0 then
    return none
  else
    return some (-offset)

/-- Takes what follows the date of a timestamp: an hour with its minute, a second with its fraction
if there is one, and the offset. -/
def readClock (d : Date) : Reading Timestamp := do
  let hour ← fixedNumber 2
  char ':'
  let minute ← fixedNumber 2
  if ← char? ':' then
    let second ← fixedNumber 2
    let fraction ← do
      if ← char? '.' then
        let ds ← run Char.isDigit
        demand (!ds.isEmpty)
        pure ds
      else
        pure []
    return .second d hour minute second fraction (← readOffset)
  else
    return .minute d hour minute (← readOffset)

/-- Takes a timestamp. A year and a month end with `T`, a day may do so. -/
def read : Reading Timestamp := do
  let year ← fixedNumber 4
  if ← char? 'T' then
    return .year year
  char '-'
  let month ← fixedNumber 2
  if ← char? 'T' then
    return .month year month
  char '-'
  let date : Date := ⟨year, month, ← fixedNumber 2⟩
  if ← char? 'T' then
    readClock date <|> pure (.day date)
  else
    return .day date

/-- The timestamp that a literal stands for, if it is one and every part is in its range. -/
def ofChars? (s : List Char) : Option Timestamp := (whole read s).filter valid

end Timestamp

end LedgerExport.Ion
