import LedgerExport.Text.Digits

/-!
# Binary floating-point numbers in decimal

Numbers of sixty-four bits, read from decimal digits and written with the fewest digits that read
back. A positive number `m * 2 ^ q` is read back from every number of the interval whose ends lie
halfway to its two neighbours, the ends included when `m` is even. The writer tries one digit, two
digits and so on, and on each decimal grid it tests the two points next to the number.
-/

namespace LedgerExport.Text.Binary64

/-- The bits of the number next to `± coefficient * 10 ^ exponent`, ties to even. Numbers too great
are infinite, and numbers too small are zero. -/
def ofDecimal (negative : Bool) (coefficient : Nat) (exponent : Int) : UInt64 :=
  let point := (digits coefficient).length + exponent
  let magnitude : UInt64 :=
    if coefficient = 0 ∨ point < -330 then 0
    else if 310 < point then 0x7FF0000000000000
    -- Between these bounds the power of ten is small enough to be computed.
    else (Float.ofScientific coefficient (exponent < 0) exponent.natAbs).toBits
  if negative then magnitude ||| 0x8000000000000000 else magnitude

/-- The weight of the bit in front of the fifty-two bits of a fraction. -/
def leadingBit : Nat := 1 <<< 52

/-- A number is not finite when all eleven bits of its exponent are set. -/
def isFinite (bits : UInt64) : Bool := bits.toNat / leadingBit % 2048 != 2047

/-- The number is not a number. -/
def isNaN (bits : UInt64) : Bool := !isFinite bits && bits.toNat % leadingBit != 0

/-- The sign bit is set. -/
def isNegative (bits : UInt64) : Bool := bits.toNat.testBit 63

/-- The mantissa and the power of two of a finite number without its sign. -/
def parts (bits : UInt64) : Nat × Int :=
  let field : Nat := bits.toNat / leadingBit % 2048
  let rest : Nat := bits.toNat % leadingBit
  -- A field of zero marks the numbers without a leading bit.
  if field = 0 then (rest, -1074) else (rest + leadingBit, (field : Int) - 1075)

/-- A fraction `top / bottom`. -/
structure Ratio where
  /-- The numerator. -/
  top : Nat
  /-- The denominator. -/
  bottom : Nat

namespace Ratio

/-- The fraction `n * base ^ e`. -/
def scaled (n base : Nat) (e : Int) : Ratio :=
  if 0 ≤ e then ⟨n * Nat.pow base e.toNat, 1⟩ else ⟨n, Nat.pow base e.natAbs⟩

/-- The first fraction is less than the second. -/
def lt (a b : Ratio) : Bool := a.top * b.bottom < b.top * a.bottom

/-- The fractions are equal. -/
def eq (a b : Ratio) : Bool := a.top * b.bottom == b.top * a.bottom

/-- The distance of two fractions. -/
def distance (a b : Ratio) : Ratio :=
  let x := a.top * b.bottom
  let y := b.top * a.bottom
  ⟨(x - y) + (y - x), a.bottom * b.bottom⟩

/-- The greatest power of ten that is at most a positive fraction. -/
def tenPower (a : Ratio) : Int :=
  if a.bottom ≤ a.top then (digits (a.top / a.bottom)).length - 1
  else 0 - (digits ((a.bottom - 1) / a.top)).length

end Ratio

/-- The numbers that are read as `m * 2 ^ q`: the ends of their interval, and whether the ends
belong to it. -/
structure Interval where
  /-- The lower end. -/
  low : Ratio
  /-- The upper end. -/
  high : Ratio
  /-- The ends belong to the interval. -/
  closed : Bool

/-- The interval of a positive number. Below a power of two the neighbour is half as far away. -/
def intervalOf (m : Nat) (q : Int) : Interval where
  low := if m = leadingBit ∧ -1074 < q then .scaled (4 * m - 1) 2 (q - 2)
    else .scaled (4 * m - 2) 2 (q - 2)
  high := .scaled (4 * m + 2) 2 (q - 2)
  closed := m % 2 = 0

/-- The fraction belongs to the interval. -/
def Interval.holds (i : Interval) (a : Ratio) : Bool :=
  (i.low.lt a && a.lt i.high) || (i.closed && (i.low.eq a || i.high.eq a))

/-- The point of a decimal grid next to the number within its interval, as a coefficient of the
grid's step `10 ^ e`. Of two points equally near it is the upper one. -/
def gridPoint? (number : Ratio) (i : Interval) (e : Int) : Option Nat :=
  let step := Ratio.scaled 1 10 e
  let below := number.top * step.bottom / (number.bottom * step.top)
  let point (n : Nat) : Ratio := .scaled n 10 e
  -- Only the two points around the number can be the next one to it.
  let hits := [below, below + 1].filter fun n => i.holds (point n)
  match hits with
  | [a, b] =>
    if ((point a).distance number).lt ((point b).distance number) then some a else some b
  | [a] => some a
  | _ => none

/-- The shortest coefficient and power of ten that read back as the positive number. -/
def shortest (m : Nat) (q : Int) : Nat × Int :=
  let number := Ratio.scaled m 2 q
  let i := intervalOf m q
  -- Seventeen digits always read back, so the search ends on one of these grids.
  let grids := (List.range 17).map fun (n : Nat) => number.tenPower - n
  (grids.findSome? fun e => (gridPoint? number i e).map (·, e)).getD (m, 0)

/-- Digits with an exponent: one digit before the point, and no point behind a single digit. -/
def scientificText (coefficient : Nat) (e : Int) : List Char :=
  let ds := digits coefficient
  let kept := (ds.reverse.dropWhile (· == '0')).reverse
  let exponent := e + ds.length - 1
  kept.take 1 ++ (if kept.length ≤ 1 then [] else '.' :: kept.drop 1) ++
    'e' :: (if exponent < 0 then ['-'] else []) ++ digits exponent.natAbs

/-- The number in scientific form with the fewest digits that read back. -/
def chars (bits : UInt64) : List Char :=
  let sign := if isNegative bits then ['-'] else []
  if isNaN bits then ['n', 'a', 'n']
  else if !isFinite bits then (if isNegative bits then '-' else '+') :: ['i', 'n', 'f']
  else
    match parts bits with
    | (0, _) => sign ++ ['0', 'e', '0']
    | (m, q) =>
      let (coefficient, e) := shortest m q
      sign ++ scientificText coefficient e

/-- The bits of a number of thirty-two bits, widened without loss. -/
def ofBinary32 (bits : UInt32) : UInt64 := (Float32.ofBits bits).toFloat.toBits

end LedgerExport.Text.Binary64
