import LedgerExport.Json.Basic
import LedgerExport.Text.Digits

/-!
# Compact JSON text

The text of a JSON value without blanks. Quotes, backslashes and control characters are escaped,
all else stands as it is.
-/

namespace LedgerExport.Json

open Text

/-- A character within a quoted string. -/
def escaped (c : Char) : List Char :=
  if c = '"' then ['\\', '"']
  else if c = '\\' then ['\\', '\\']
  else if c = '\x08' then ['\\', 'b']
  else if c = '\x0c' then ['\\', 'f']
  else if c = '\n' then ['\\', 'n']
  else if c = '\r' then ['\\', 'r']
  else if c = '\t' then ['\\', 't']
  else if c.toNat < 0x20 then ['\\', 'u', '0', '0', hexDigit (c.toNat / 16), hexDigit c.toNat]
  else [c]

/-- A quoted string. -/
def quoted (s : String) : List Char := '"' :: s.toList.flatMap escaped ++ ['"']

/-- An integer in decimal digits. -/
def intText (n : Int) : List Char := if n < 0 then '-' :: digits n.natAbs else digits n.natAbs

/-- A number with a point. -/
def decimalText (coefficient : Int) (places : Nat) : List Char :=
  let ds := paddedDigits (places + 1) coefficient.natAbs
  let written := ds.take (ds.length - places) ++ '.' :: ds.drop (ds.length - places)
  if coefficient < 0 then '-' :: written else written

mutual

/-- The characters of the compact text of a value. -/
def compactChars : Json → List Char
  | .null => ['n', 'u', 'l', 'l']
  | .bool true => ['t', 'r', 'u', 'e']
  | .bool false => ['f', 'a', 'l', 's', 'e']
  | .int n => intText n
  | .decimal coefficient places => decimalText coefficient places
  | .str s => quoted s
  | .arr items => '[' :: compactItems items ++ [']']
  | .obj members => '\x7b' :: compactMembers members ++ ['\x7d']

/-- The items of an array, with commas between them. -/
def compactItems : List Json → List Char
  | [] => []
  | [j] => compactChars j
  | j :: rest => compactChars j ++ ',' :: compactItems rest

/-- The members of an object, with commas between them. -/
def compactMembers : List (String × Json) → List Char
  | [] => []
  | [(name, j)] => quoted name ++ ':' :: compactChars j
  | (name, j) :: rest => quoted name ++ ':' :: compactChars j ++ ',' :: compactMembers rest

end

/-- The compact text of a value. -/
def compact (j : Json) : String := .ofList j.compactChars

end LedgerExport.Json
