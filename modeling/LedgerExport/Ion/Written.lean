import LedgerExport.Ion.Symbols
import LedgerExport.Text.Base64
import LedgerExport.Text.Binary64

/-!
# Written Ion values

The text of a value on one line.
-/

namespace LedgerExport.Ion

open Text

/-- The letter that stands behind a backslash for a character that is not written as it is. -/
def escapeLetter? : Char → Option Char
  | '\x00' => some '0'
  | '\x07' => some 'a'
  | '\x08' => some 'b'
  | '\t' => some 't'
  | '\n' => some 'n'
  | '\x0c' => some 'f'
  | '\r' => some 'r'
  | '\x0b' => some 'v'
  | '"' => some '"'
  | '\'' => some '\''
  | '?' => some '?'
  | '\\' => some '\\'
  | '/' => some '/'
  | _ => none

/-- A character of a quoted text. -/
def escapedChar (c : Char) : List Char :=
  match escapeLetter? c with
  | some letter => ['\\', letter]
  | none => [c]

/-- A byte of a clob; what is no printable character is written in hexadecimal digits, and fewer
characters need a backslash than in a text. -/
def escapedByte (b : UInt8) : List Char :=
  let c := Char.ofNat b.toNat
  if c = '\'' ∨ c = '?' ∨ c = '/' then [c]
  else
    match escapeLetter? c with
    | some letter => ['\\', letter]
    | none => if b < 0x20 ∨ 0x7F ≤ b then '\\' :: 'x' :: hexPair b else [c]

/-- The symbol can stand without quotes: it is a name, no reserved word and no place. -/
def isPlain (s : List Char) : Bool :=
  s.head?.any Word.isNameStart && s.all Word.isNameChar && (Word.reserved? s).isNone &&
    !Word.isPlace s

/-- The text of a symbol. -/
def symbolText : Option String → List Char
  | none => ['$', '0']
  | some s =>
    if isPlain s.toList then s.toList else '\'' :: s.toList.flatMap escapedChar ++ ['\'']

/-- Texts with a separator between them. -/
def separated (separator : List Char) : List (List Char) → List Char
  | [] => []
  | [s] => s
  | s :: rest => s ++ separator ++ separated separator rest

namespace Element

mutual

/-- The text of a value. -/
def chars : Value (Option String) → List Char
  | .null .null => ['n', 'u', 'l', 'l']
  | .null kind => ['n', 'u', 'l', 'l', '.'] ++ kind.name.toList
  | .bool true => ['t', 'r', 'u', 'e']
  | .bool false => ['f', 'a', 'l', 's', 'e']
  | .int n => if n < 0 then '-' :: digits n.natAbs else digits n.natAbs
  | .float bits => Binary64.chars bits
  | .decimal d => d.chars
  | .timestamp t => t.chars
  | .symbol s => symbolText s
  | .string s => '"' :: s.toList.flatMap escapedChar ++ ['"']
  | .clob bytes => ['\x7b', '\x7b', '"'] ++ bytes.flatMap escapedByte ++ ['"', '\x7d', '\x7d']
  | .blob bytes => ['\x7b', '\x7b'] ++ Base64.encode bytes ++ ['\x7d', '\x7d']
  | .list items => '[' :: separated [',', ' '] (itemTexts items) ++ [']']
  | .sexp items => '(' :: separated [' '] (itemTexts items) ++ [')']
  | .struct fields => '\x7b' :: separated [',', ' '] (fieldTexts fields) ++ ['\x7d']
  | .annotated names v => names.flatMap (fun s => symbolText s ++ [':', ':']) ++ chars v

/-- The texts of items. -/
def itemTexts : List (Value (Option String)) → List (List Char)
  | [] => []
  | v :: rest => chars v :: itemTexts rest

/-- The texts of fields. -/
def fieldTexts : List (Option String × Value (Option String)) → List (List Char)
  | [] => []
  | (name, v) :: rest => (symbolText name ++ ':' :: ' ' :: chars v) :: fieldTexts rest

end

/-- The text of a value. -/
def written (v : Element) : String := .ofList (chars v)

end Element

end LedgerExport.Ion
