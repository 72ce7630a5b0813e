/-!
# Blank characters

The characters with the Unicode property `White_Space`, and removing them from the ends of a text.
-/

namespace LedgerExport.Text

/-- The character has the Unicode property `White_Space`. -/
def isBlank (c : Char) : Bool :=
  let n := c.toNat
  (9 ≤ n && n ≤ 13) || n == 0x20 || n == 0x85 || n == 0xA0 || n == 0x1680 ||
    (0x2000 ≤ n && n ≤ 0x200A) || n == 0x2028 || n == 0x2029 || n == 0x202F || n == 0x205F ||
    n == 0x3000

/-- Drops the blank characters at the front. -/
def trimStart (s : List Char) : List Char := s.dropWhile isBlank

/-- Drops the blank characters at the back. -/
def trimEnd (s : List Char) : List Char := (s.reverse.dropWhile isBlank).reverse

/-- Drops the blank characters at both ends. -/
def trim (s : List Char) : List Char := trimEnd (trimStart s)

/-- The text without blank characters at its ends. -/
def trimmed (s : String) : String := .ofList (trim s.toList)

end LedgerExport.Text
