/-!
# Base64

Bytes written in groups of four digits of six bits each, the last group filled up with `=`.
-/

namespace LedgerExport.Text.Base64

/-- The digits from zero to sixty-three. -/
def alphabet : List Char :=
  "ABCDEFGHIJKLMNOPQRSTUVWXYZabcdefghijklmnopqrstuvwxyz0123456789+/".toList

/-- The digit of a number below sixty-four. -/
def digit (n : Nat) : Char := alphabet.getD (n % 64) 'A'

/-- The number that a digit stands for. -/
def value? (c : Char) : Option Nat := alphabet.idxOf? c

/-- Writes bytes in Base64. -/
def encode : List UInt8 → List Char
  | a :: b :: c :: rest =>
    let n := a.toNat * 65536 + b.toNat * 256 + c.toNat
    digit (n / 262144) :: digit (n / 4096) :: digit (n / 64) :: digit n :: encode rest
  | [a, b] =>
    let n := a.toNat * 65536 + b.toNat * 256
    [digit (n / 262144), digit (n / 4096), digit (n / 64), '=']
  | [a] =>
    let n := a.toNat * 65536
    [digit (n / 262144), digit (n / 4096), '=', '=']
  | [] => []

/-- The byte of a last group of two digits. The bits that it has too many must be zero. -/
def ofTwo? (a b : Char) : Option (List UInt8) := do
  let n := (← value? a) * 64 + (← value? b)
  if n % 16 = 0 then some [.ofNat (n / 16)] else none

/-- The bytes of a last group of three digits. The bits that it has too many must be zero. -/
def ofThree? (a b c : Char) : Option (List UInt8) := do
  let n := ((← value? a) * 64 + (← value? b)) * 64 + (← value? c)
  if n % 4 = 0 then some [.ofNat (n / 1024), .ofNat (n / 4)] else none

/-- Reads bytes from Base64. The last group need not be filled up. -/
def decode? : List Char → Option (List UInt8)
  | [] => some []
  | [a, b] | [a, b, '='] | [a, b, '=', '='] => ofTwo? a b
  | [a, b, c] | [a, b, c, '='] => ofThree? a b c
  | a :: b :: c :: d :: rest => do
    let n := (((← value? a) * 64 + (← value? b)) * 64 + (← value? c)) * 64 + (← value? d)
    return .ofNat (n / 65536) :: .ofNat (n / 256) :: .ofNat n :: (← decode? rest)
  | _ => none

end LedgerExport.Text.Base64
