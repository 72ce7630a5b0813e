import LedgerExport.Ion.Quoted
import LedgerExport.Ion.Value

/-!
# Words of Ion text

Names, reserved words, and the symbols that names and quoted texts stand for.
-/

namespace LedgerExport.Ion

open Text

/-- A symbol as a document refers to it. -/
inductive SymbolRef where
  /-- By its text. -/
  | text (s : String)
  /-- By its place in the symbol table. -/
  | id (n : Nat)
deriving DecidableEq, Repr

namespace Word

/-- The characters that start a name. -/
def isNameStart (c : Char) : Bool := c.isAlpha || c == '_' || c == '$'

/-- The characters of a name. -/
def isNameChar (c : Char) : Bool := isNameStart c || c.isDigit

/-- The value of a word that is reserved. -/
def reserved? (name : List Char) : Option (Value SymbolRef) :=
  match String.ofList name with
  | "null" => some (.null .null)
  | "true" => some (.bool true)
  | "false" => some (.bool false)
  | "nan" => some (.float 0x7FF8000000000000)
  | _ => none

/-- The word is a dollar and digits, if any. -/
def isPlace : List Char → Bool
  | '$' :: ds => ds.all Char.isDigit
  | _ => false

/-- Takes a reserved word, which a stop character must follow. Behind `null` the name of a kind may
follow. -/
def value? (s : List Char) : Option (Value SymbolRef × List Char) :=
  let rest := s.dropWhile isNameChar
  match reserved? (s.takeWhile isNameChar), rest with
  | some (.null _), '.' :: rest =>
    let kind := rest.takeWhile Char.isAlpha
    let rest := rest.dropWhile Char.isAlpha
    if atStop rest then (Kind.ofName? (.ofList kind)).map fun kind => (.null kind, rest) else none
  | some v, rest => if atStop rest then some (v, rest) else none
  | none, _ => none

end Word

namespace SymbolRef

open Word

/-- Takes a place in the symbol table: a dollar and digits, if a stop character or a colon
follows. -/
def ofPlace? (s : List Char) : Option (SymbolRef × List Char) :=
  match s with
  | '$' :: s =>
    let ds := s.takeWhile Char.isDigit
    let rest := s.dropWhile Char.isDigit
    if !ds.isEmpty && (atStop rest || rest.head? == some ':') then some (.id (ofDigits ds), rest)
    else none
  | _ => none

/-- Takes a name that is not reserved. -/
def ofName? (s : List Char) : Option (SymbolRef × List Char) :=
  let name := s.takeWhile isNameChar
  if name.head?.any isNameStart && (reserved? name).isNone then
    some (.text (.ofList name), s.dropWhile isNameChar)
  else none

/-- Takes a symbol in quotes. -/
def ofQuoted? (s : List Char) : Option (SymbolRef × List Char) := do
  let (raw, rest) ← Quoted.cut .single (← dropPrefix? Quotes.single.mark s)
  return (.text (← Quoted.text? raw), rest)

/-- Takes a symbol. -/
def read? (s : List Char) : Option (SymbolRef × List Char) :=
  ofPlace? s <|> ofName? s <|> ofQuoted? s

/-- Takes an annotation: a symbol and two colons, which a gap may part, and the white space behind
them. -/
def annotation? (s : List Char) : Option (SymbolRef × List Char) := do
  let (name, rest) ← read? s
  let rest ← dropPrefix? [':', ':'] (← skipGap? rest)
  return (name, rest.dropWhile isSpace)

/-- Takes the annotations at the front. -/
def annotations (s : List Char) : List SymbolRef × List Char :=
  match annotation? s with
  | none => ([], s)
  | some (name, rest) =>
    if rest.length < s.length then
      let (names, rest) := annotations rest
      (name :: names, rest)
    else ([], s)
termination_by s.length

end SymbolRef

end LedgerExport.Ion
