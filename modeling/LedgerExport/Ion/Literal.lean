import LedgerExport.Ion.Numeral
import LedgerExport.Ion.Word
import LedgerExport.Text.Base64

/-!
# Literals of Ion text

What a value starts with: the whole of it, or the mark that opens a container.
-/

namespace LedgerExport.Ion

open Text

/-- The containers. -/
inductive Container where
  /-- A list. -/
  | list
  /-- An s-expression. -/
  | sexp
  /-- A struct. -/
  | struct
deriving DecidableEq, Repr

/-- The start of a value. -/
inductive Literal where
  /-- A value that is no container. -/
  | scalar (v : Value SymbolRef)
  /-- The mark that opens a container. -/
  | opening (container : Container)
deriving Repr

namespace Literal

/-- Takes what follows two opening braces, up to the closing ones: text in quotes makes a clob, and
Base64 makes a blob. -/
def lob? (s : List Char) : Option (Value SymbolRef × List Char) := do
  let s := s.dropWhile isSpace
  let (v, rest) ← (match s with
    | '"' :: body => do
      let (raw, rest) ← Quoted.cut .double body
      return (.clob (← Quoted.bytes? raw), rest)
    | '\'' :: _ =>
      match Quoted.longs (fun s => some (s.dropWhile isSpace)) s with
      | ([], _) => none
      | (raws, rest) => do return (.clob (← raws.mapM Quoted.bytes?).flatten, rest)
    | _ => do
      let body := (s.takeWhile (· != '\x7d')).filter (!isSpace ·)
      return (.blob (← Base64.decode? body), s.dropWhile (· != '\x7d')) :
      Option (Value SymbolRef × List Char))
  return (v, ← dropPrefix? ['\x7d', '\x7d'] (rest.dropWhile isSpace))

/-- Takes a numeral up to the next stop character. -/
def numeral? (s : List Char) : Option (Value SymbolRef × List Char) :=
  (Numeral.value? (s.takeWhile (!isStop ·))).map (·, s.dropWhile (!isStop ·))

/-- Takes an infinite number, which a stop character must follow. -/
def infinity? (s : List Char) : Option (Value SymbolRef × List Char) :=
  let word? (word : String) (bits : UInt64) : Option (Value SymbolRef × List Char) :=
    ((dropPrefix? word.toList s).filter atStop).map (.float bits, ·)
  word? "+inf" 0x7FF0000000000000 <|> word? "-inf" 0xFFF0000000000000

/-- Takes the value at the front, if it is no container. -/
def scalar? (s : List Char) : Option (Value SymbolRef × List Char) :=
  match s with
  | '\x7b' :: '\x7b' :: s => lob? s
  | '"' :: _ => (Quoted.shortText? s).map fun (text, rest) => (.string text, rest)
  | '\'' :: '\'' :: '\'' :: _ => (Quoted.longText? s).map fun (text, rest) => (.string text, rest)
  | _ =>
    numeral? s <|> infinity? s <|> Word.value? s <|>
      (SymbolRef.read? s).map fun (name, rest) => (.symbol name, rest)

/-- Takes the start of the value at the front. -/
def next? (s : List Char) : Option (Literal × List Char) :=
  let scalar := (scalar? s).map fun (v, rest) => (scalar v, rest)
  match s with
  | '\x7b' :: '\x7b' :: _ => scalar
  | '\x7b' :: rest => some (opening .struct, rest)
  | '[' :: rest => some (opening .list, rest)
  | '(' :: rest => some (opening .sexp, rest)
  | _ => scalar

/-- The characters of operators. -/
def isOperatorChar (c : Char) : Bool := "!#%&*+-./;<=>?@^`|~".contains c

/-- Takes a run of operator characters, which is a symbol. -/
def operator? (s : List Char) : Option (Literal × List Char) :=
  match s.takeWhile isOperatorChar with
  | [] => none
  | run => some (scalar (.symbol (.text (.ofList run))), s.dropWhile isOperatorChar)

end Literal

end LedgerExport.Ion
