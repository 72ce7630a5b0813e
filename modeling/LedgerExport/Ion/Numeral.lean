import LedgerExport.Ion.Gap
import LedgerExport.Ion.Value
import LedgerExport.Text.Binary64

/-!
# Numerals of Ion text

Integers in three bases, decimals, floating-point numbers and timestamps. Each of them ends before
the next stop character, so that its literal is known before it is read.
-/

namespace LedgerExport.Ion

open Text Reading

namespace Numeral

variable {σ : Type}

/-- The digits of a literal without the underscores between them. Each underscore stands between
two digits. -/
def ungroup (isDigit : Char → Bool) : List Char → Option (List Char)
  | [] => none
  | [c] => if isDigit c then some [c] else none
  | c :: '_' :: rest => if isDigit c then (ungroup isDigit rest).map (c :: ·) else none
  | c :: d :: rest => if isDigit c then (ungroup isDigit (d :: rest)).map (c :: ·) else none

/-- The digits of a decimal literal before its point: zero alone, or no zero in front. -/
def wholePart? (s : List Char) : Option (List Char) :=
  (ungroup Char.isDigit s).filter fun ds => ds = ['0'] ∨ ds.head? ≠ some '0'

/-- Cuts a minus off the front of a literal. -/
def cutMinus : List Char → Bool × List Char
  | '-' :: s => (true, s)
  | s => (false, s)

/-- A number with its sign. -/
def signed (negative : Bool) (n : Nat) : Int := if negative then -n else n

/-- The integer that a literal stands for, in base ten, sixteen or two. -/
def integer? (s : List Char) : Option Int :=
  let (negative, s) := cutMinus s
  match s with
  | '0' :: 'x' :: ds | '0' :: 'X' :: ds =>
    signed negative <$> (ungroup (hexValue? · |>.isSome) ds).bind (ofDigitsIn? 16)
  | '0' :: 'b' :: ds | '0' :: 'B' :: ds =>
    signed negative <$> (ungroup (fun c => c == '0' || c == '1') ds).bind (ofDigitsIn? 2)
  | _ => (fun ds => signed negative (ofDigits ds)) <$> wholePart? s

/-- The exponent that digits behind an optional sign stand for. -/
def exponent? (s : List Char) : Option Int :=
  let (negative, ds) := match s with
    | '-' :: ds => (true, ds)
    | '+' :: ds => (false, ds)
    | ds => (false, ds)
  (ungroup Char.isDigit ds).map fun ds => signed negative (ofDigits ds)

/-- Exponents of decimals fit in sixty-four bits. -/
def isExponent (e : Int) : Bool := Int64.minValue.toInt ≤ e && e ≤ Int64.maxValue.toInt

/-- The decimal or the floating-point number that a literal stands for. A decimal has a point, an
exponent behind `d`, or both; a floating-point number has an exponent behind `e`. -/
def real? (s : List Char) : Option (Value σ) := do
  let (negative, s) := cutMinus s
  let isMark (c : Char) : Bool := "dDeE".contains c
  let mantissa := s.takeWhile (!isMark ·)
  let whole ← wholePart? (mantissa.takeWhile (· != '.'))
  let fraction ← match mantissa.dropWhile (· != '.') with
    | [] | ['.'] => some []
    | _ :: ds => ungroup Char.isDigit ds
  let coefficient := ofDigits (whole ++ fraction)
  match s.dropWhile (!isMark ·) with
  | [] =>
    if mantissa.contains '.' then
      some (.decimal ⟨negative, coefficient, -(fraction.length : Int)⟩)
    else none
  | mark :: exponent =>
    let e ← exponent? exponent
    if mark.toLower = 'e' then
      some (.float (Binary64.ofDecimal negative coefficient (e - fraction.length)))
    else if isExponent e then
      some (.decimal ⟨negative, coefficient, e - fraction.length⟩)
    else none

/-- The value of a numeral. -/
def value? (s : List Char) : Option (Value σ) :=
  .timestamp <$> Timestamp.ofChars? s <|> .int <$> integer? s <|> real? s

end Numeral

end LedgerExport.Ion
