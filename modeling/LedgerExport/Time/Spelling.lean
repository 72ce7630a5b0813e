import LedgerExport.Text.Blank
import LedgerExport.Text.Digits
import LedgerExport.Time.Instant

/-!
# Spellings of an instant

The spellings of a time that manifests and settings may use. A time is strict, as in
`2023-01-01T00:00:00.5+01:00`; or it ends with the minute and an offset, as in
`2023-01-01T00:00+01:00`; or it has no offset and is in Coordinated Universal Time, with seconds or
without them. Only the strict spelling fixes the count of digits of each number.
-/

namespace LedgerExport.Time

open Text Reading

/-- The characters that may stand for a minus. -/
def isMinus (c : Char) : Bool := c == '-' || c == '\u2212'

/-- Takes a sign and says whether it is a minus. -/
def readMinus : Reading Bool := isMinus <$> charIf fun c => c == '+' || isMinus c

/-- Takes a number, of any length behind a sign and of at most `n` digits without one. -/
def readYear (n : Nat) : Reading Int := do
  skip isBlank
  if ← char? '-' then
    return -(← number : Nat)
  else if ← char? '+' then
    return (← number : Nat)
  else
    return (← numberUpTo n : Nat)

/-- Takes a number of one digit or two, and the blank characters before it. -/
def readPair : Reading Nat := do
  skip isBlank
  numberUpTo 2

/-- The nanoseconds that the digits of a fraction of a second stand for; digits after the ninth
are cut off. -/
def nanosOfDigits (ds : List Char) : Nat :=
  let ds := ds.take 9
  ofDigits ds * Nat.pow 10 (9 - ds.length)

/-- Takes a point and the digits behind it if a point comes next. -/
def readFraction : Reading Nat := do
  if ← char? '.' then
    let ds ← run Char.isDigit
    demand (!ds.isEmpty)
    return nanosOfDigits ds
  else
    return 0

/-- Takes an offset in minutes: a sign, two digits of hours, and two digits of minutes below 60,
with what `between` accepts between them. An offset is shorter than a day. -/
def readOffset (between : Reading Unit) : Reading Int := do
  let negative ← readMinus
  let hours ← fixedNumber 2
  between
  let minutes ← fixedNumber 2
  demand (minutes < 60 && hours < 24)
  let offset : Int := hours * 60 + minutes
  return if negative then -offset else offset

/-- Colons and blank characters, or nothing at all. -/
def looseColon : Reading Unit := skip fun c => c == ':' || isBlank c

/-- The instant of a local time that has been read. -/
def instantOf (d : Date) (hour minute second fraction : Nat) (offset : Int) : Reading Instant :=
  fun s => (Instant.ofLocal? d hour minute second fraction offset).map (·, s)

/-- Takes a date and time in the strict spelling. -/
def readStrict : Reading Instant := do
  let year ← fixedNumber 4
  char '-'
  let month ← fixedNumber 2
  char '-'
  let day ← fixedNumber 2
  discard <| charIf fun c => c == 'T' || c == 't' || c == ' '
  let hour ← fixedNumber 2
  char ':'
  let minute ← fixedNumber 2
  char ':'
  let second ← fixedNumber 2
  let fraction ← readFraction
  -- A `Z` in either case is an offset of zero.
  let zulu ← (return (← char? 'Z') || (← char? 'z'))
  let offset ← if zulu then pure 0 else readOffset (char ':')
  instantOf ⟨year, month, day⟩ hour minute second fraction offset

/-- Takes a date in the loose spelling. -/
def readDate : Reading Date := do
  let year ← readYear 4
  char '-'
  let month ← readPair
  char '-'
  let day ← readPair
  return ⟨year, month, day⟩

/-- Takes a date, an hour and a minute in the loose spelling. -/
def readMinuteOf : Reading (Date × Nat × Nat) := do
  let date ← readDate
  char 'T'
  let hour ← readPair
  char ':'
  let minute ← readPair
  return (date, hour, minute)

/-- Takes a time that ends with the minute and an offset. -/
def readMinuteWithOffset : Reading Instant := do
  let (date, hour, minute) ← readMinuteOf
  skip isBlank
  let offset ← readOffset looseColon
  instantOf date hour minute 0 0 offset

/-- Takes a time with seconds and without an offset. -/
def readSecondOfUtc : Reading Instant := do
  let (date, hour, minute) ← readMinuteOf
  char ':'
  let second ← readPair
  let fraction ← readFraction
  instantOf date hour minute second fraction 0

/-- Takes a time without seconds and without an offset. -/
def readMinuteOfUtc : Reading Instant := do
  let (date, hour, minute) ← readMinuteOf
  instantOf date hour minute 0 0 0

/-- The text without one `Z` at its end. -/
def withoutZulu (s : List Char) : List Char :=
  if s.getLast? = some 'Z' then s.dropLast else s

/-- The instant that a text spells, blank characters at its ends left aside. -/
def Instant.ofChars? (s : List Char) : Option Instant :=
  let s := trim s
  -- The spellings are tried from the strictest on, and the first that fits decides.
  whole readStrict s <|> whole readMinuteWithOffset s <|>
    whole readSecondOfUtc (withoutZulu s) <|> whole readMinuteOfUtc (withoutZulu s)

/-- The instant that a text spells. -/
def Instant.ofText? (s : String) : Option Instant := ofChars? s.toList

/-- Takes the name of Coordinated Universal Time, in any case. -/
def readUtc : Reading Unit := fun s =>
  if (s.take 3).map Char.toUpper = ['U', 'T', 'C'] then some ((), s.drop 3) else none

/-- Takes a date and time of a record. Blank characters may stand around each number, and the
offset is `Z`, `UTC` or an offset with a loose colon. -/
def readRecorded : Reading Instant := do
  let year ← readYear 4
  skip isBlank
  char '-'
  let month ← readPair
  skip isBlank
  char '-'
  let day ← readPair
  discard <| charIf fun c => c == 'T' || c == 't' || c == ' '
  let hour ← readPair
  skip isBlank
  char ':'
  let minute ← readPair
  skip isBlank
  char ':'
  let second ← readPair
  let fraction ← readFraction
  skip isBlank
  let offset ← (do readUtc; return 0) <|>
    (do discard <| charIf (fun c => c == 'Z' || c == 'z'); return 0) <|> readOffset looseColon
  skip isBlank
  instantOf ⟨year, month, day⟩ hour minute second fraction offset

/-- The instant that a record's text stands for. -/
def Instant.ofRecorded? (s : String) : Option Instant := whole readRecorded s.toList

end LedgerExport.Time
