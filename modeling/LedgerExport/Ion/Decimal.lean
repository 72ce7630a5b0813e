import LedgerExport.Text.Digits

/-!
# Ion decimals

A decimal of the Ion format keeps its coefficient and its exponent as they were written, and so the
zeros at its end and the sign of a zero.
-/

namespace LedgerExport.Ion

open Text

/-- The number `coefficient * 10 ^ exponent`, or its negation. -/
structure Decimal where
  /-- The number is negative, or it is negative zero. -/
  negative : Bool
  /-- The coefficient without its sign. -/
  coefficient : Nat
  /-- The power of ten. -/
  exponent : Int
deriving DecidableEq, Repr

namespace Decimal

/-- The decimal exponent of a number written with a mark for it. -/
def exponentText (e : Int) : List Char :=
  'd' :: (if e < 0 then ['-'] else []) ++ digits e.natAbs

/-- Digits with a point after the first one, and the exponent that this makes. -/
def scientific (ds : List Char) (exponent : Int) : List Char :=
  ds.take 1 ++ '.' :: ds.drop 1 ++ exponentText exponent

/-- The text of a number without its sign. A point stands where it belongs if this takes few zeros;
otherwise the exponent is written out. -/
def magnitudeText (coefficient : Nat) (exponent : Int) : List Char :=
  let ds := digits coefficient
  let point := ds.length + exponent
  if 0 < exponent then ds ++ exponentText exponent
  else if exponent = 0 then
    if ds.length ≤ 6 then ds ++ ['.'] else scientific ds (point - 1)
  else if 0 < point then ds.take point.toNat ++ '.' :: ds.drop point.toNat
  else if -6 < point then '0' :: '.' :: List.replicate point.natAbs '0' ++ ds
  else scientific ds (point - 1)

/-- The text of a decimal. -/
def chars (d : Decimal) : List Char :=
  (if d.negative then ['-'] else []) ++ magnitudeText d.coefficient d.exponent

end Decimal

end LedgerExport.Ion
