import LedgerExport.Text.Digits

/-!
# Percent encoding

Text as it stands in a URL. The bytes of its UTF-8 form that are neither letters, digits nor one of
four marks are written as a percent sign and two hexadecimal digits.
-/

namespace LedgerExport.Text.Percent

/-- The byte is an ASCII letter, an ASCII digit or one of the marks `-`, `.`, `_` and `~`. -/
def isUnreserved (b : UInt8) : Bool :=
  (0x41 ≤ b && b ≤ 0x5A) || (0x61 ≤ b && b ≤ 0x7A) || (0x30 ≤ b && b ≤ 0x39) ||
    b == 0x2D || b == 0x2E || b == 0x5F || b == 0x7E

/-- A byte as it stands in a URL. -/
def encodeByte (b : UInt8) : List Char :=
  if isUnreserved b then [.ofNat b.toNat]
  else '%' :: (hexPair b).map Char.toUpper

/-- Text as it stands in a URL. -/
def encode (s : List Char) : List Char := (s.flatMap String.utf8EncodeChar).flatMap encodeByte

/-- A path as it stands in a URL: its slashes are kept. -/
def encodePath (s : List Char) : List Char :=
  s.flatMap fun c => if c = '/' then ['/'] else encode [c]

end LedgerExport.Text.Percent
