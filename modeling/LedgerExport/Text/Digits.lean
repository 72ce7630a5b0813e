import LedgerExport.Text.Reading

/-!
# Decimal and hexadecimal digits

Numbers written in digits, and the numbers that digits stand for.
-/

namespace LedgerExport.Text

/-- The decimal digits of a number, at least one. -/
def digits (n : Nat) : List Char := Nat.toDigits 10 n

/-- The decimal digits of a number, with zeros in front up to the width `w`. -/
def paddedDigits (w n : Nat) : List Char :=
  List.replicate (w - (digits n).length) '0' ++ digits n

/-- How far below `10 ^ k` a number of `k` digits may lie for its decimal logarithm in sixty-four
bits to be rounded up to `k`. -/
def logSlack : Nat → Nat
  | 15 => 2
  | 16 => 21
  | 17 => 407
  | 18 => 4160
  | 19 => 41984
  | _ => 0

/-- The count of decimal digits as the logarithm in sixty-four bits gives it: one too many close
below a power of ten. Numbers that do not fit in sixty-four bits are counted exactly. -/
def logDigitCount (n : Nat) : Nat :=
  let k := (digits n).length
  if n < UInt64.size ∧ Nat.pow 10 k ≤ n + logSlack k then k + 1 else k

/-- The number that decimal digits stand for. -/
def ofDigits (ds : List Char) : Nat := Nat.ofDigitChars 10 ds 0

/-- The value of a hexadecimal digit of either case. -/
def hexValue? (c : Char) : Option Nat :=
  if '0' ≤ c ∧ c ≤ '9' then some (c.toNat - '0'.toNat)
  else if 'a' ≤ c ∧ c ≤ 'f' then some (c.toNat - 'a'.toNat + 10)
  else if 'A' ≤ c ∧ c ≤ 'F' then some (c.toNat - 'A'.toNat + 10)
  else none

/-- The number that digits of the base `b` stand for; refuses a character that is no such digit. -/
def ofDigitsIn? (b : Nat) (ds : List Char) : Option Nat :=
  ds.foldlM (fun n c => (hexValue? c).bind fun v => if v < b then some (n * b + v) else none) 0

/-- The lower-case hexadecimal digit of a number below sixteen. -/
def hexDigit (n : Nat) : Char := Nat.digitChar (n % 16)

/-- The two lower-case hexadecimal digits of a byte. -/
def hexPair (b : UInt8) : List Char := [hexDigit (b.toNat / 16), hexDigit (b.toNat % 16)]

namespace Reading

/-- Takes a number of exactly `n` digits. -/
def fixedNumber (n : Nat) : Reading Nat := do
  let ds ← runUpTo n Char.isDigit
  demand (ds.length == n)
  return ofDigits ds

/-- Takes a number of at most `n` digits, and at least one. -/
def numberUpTo (n : Nat) : Reading Nat := do
  let ds ← runUpTo n Char.isDigit
  demand (!ds.isEmpty)
  return ofDigits ds

/-- Takes a number of any positive count of digits. -/
def number : Reading Nat := do
  let ds ← run Char.isDigit
  demand (!ds.isEmpty)
  return ofDigits ds

end Reading

end LedgerExport.Text
