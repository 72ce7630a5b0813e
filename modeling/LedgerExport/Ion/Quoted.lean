import LedgerExport.Ion.Gap
import LedgerExport.Text.Affix
import LedgerExport.Text.Digits

/-!
# Quoted text of the Ion format

The text between quotes, with backslashes in front of characters that have a meaning of their own.
Symbols stand in single quotes, short texts in double quotes, and long texts in three single quotes;
the line breaks of a long text are all read as line feeds.
-/

namespace LedgerExport.Ion

open Text

/-- The quotes around a text. -/
inductive Quotes where
  /-- Single quotes, around a symbol. -/
  | single
  /-- Double quotes, around a short text. -/
  | double
  /-- Three single quotes, around a long text. -/
  | triple
deriving DecidableEq, Repr

namespace Quotes

/-- The mark that ends the text. -/
def mark : Quotes → List Char
  | single => ['\'']
  | double => ['"']
  | triple => ['\'', '\'', '\'']

/-- The character may stand for itself between the quotes. A symbol may hold every character, and a
text holds no control characters but white space; line breaks are for long texts only. -/
def admits : Quotes → Char → Bool
  | single, _ => true
  | double, c => ' ' ≤ c || c == '\t' || c == '\x0b' || c == '\x0c'
  | triple, c => ' ' ≤ c || isSpace c

end Quotes

namespace Quoted

/-- Cuts a text at the mark that ends it. -/
def cut (quotes : Quotes) : List Char → Option (List Char × List Char)
  | [] => none
  -- An escaped line break of two characters is kept as one, so that one escape covers it.
  | '\\' :: '\r' :: '\n' :: s =>
    (cut quotes s).map fun (raw, rest) => ('\\' :: '\n' :: raw, rest)
  | '\\' :: c :: s => (cut quotes s).map fun (raw, rest) => ('\\' :: c :: raw, rest)
  | c :: s =>
    match dropPrefix? quotes.mark (c :: s) with
    | some rest => some ([], rest)
    | none =>
      if quotes.admits c then (cut quotes s).map fun (raw, rest) => (c :: raw, rest) else none

/-- Every line break as a line feed. -/
def withLineFeeds : List Char → List Char
  | '\r' :: '\n' :: s => '\n' :: withLineFeeds s
  | '\r' :: s => '\n' :: withLineFeeds s
  | c :: s => c :: withLineFeeds s
  | [] => []

/-- The character that a letter behind a backslash stands for. -/
def escape? : Char → Option Char
  | '0' => some '\x00'
  | 'a' => some '\x07'
  | 'b' => some '\x08'
  | 't' => some '\t'
  | 'n' => some '\n'
  | 'f' => some '\x0c'
  | 'r' => some '\r'
  | 'v' => some '\x0b'
  | '"' => some '"'
  | '\'' => some '\''
  | '?' => some '?'
  | '\\' => some '\\'
  | '/' => some '/'
  | _ => none

/-- The codes of the characters of a raw text. A backslash before a line break stands for nothing,
and code points in four or eight digits are read only where `wide` allows them. -/
def codes? (wide : Bool) : List Char → Option (List (Option Nat))
  | [] => some []
  | '\\' :: '\r' :: s | '\\' :: '\n' :: s => (codes? wide s).map (none :: ·)
  | '\\' :: 'x' :: a :: b :: s => return (← ofDigitsIn? 16 [a, b]) :: (← codes? wide s)
  | '\\' :: 'u' :: a :: b :: c :: d :: s =>
    if wide then return (← ofDigitsIn? 16 [a, b, c, d]) :: (← codes? wide s) else none
  | '\\' :: 'U' :: a :: b :: c :: d :: e :: f :: g :: h :: s =>
    if wide then return (← ofDigitsIn? 16 [a, b, c, d, e, f, g, h]) :: (← codes? wide s) else none
  | '\\' :: c :: s => return (← escape? c).toNat :: (← codes? wide s)
  | ['\\'] => none
  | c :: s => (codes? wide s).map (c.toNat :: ·)

/-- The characters with the given codes. Two surrogates side by side stand for one character, and
one alone for none. -/
def chars? : List (Option Nat) → Option (List Char)
  | [] => some []
  | some high :: some low :: s =>
    if 0xD800 ≤ high ∧ high < 0xDC00 ∧ 0xDC00 ≤ low ∧ low < 0xE000 then
      (chars? s).map (.ofNat (0x10000 + (high - 0xD800) * 0x400 + (low - 0xDC00)) :: ·)
    -- The second code is looked at again, as it may begin a pair of its own.
    else if high.isValidChar then (chars? (some low :: s)).map (.ofNat high :: ·)
    else none
  | some n :: s => if n.isValidChar then (chars? s).map (.ofNat n :: ·) else none
  | none :: s => chars? s

/-- The text that a raw text stands for. -/
def text? (raw : List Char) : Option String := .ofList <$> (codes? true raw).bind chars?

/-- The bytes that a raw text of ASCII characters stands for. -/
def bytes? (raw : List Char) : Option (List UInt8) :=
  if raw.all (·.toNat < 128) then (codes? false raw).map (·.filterMap (·.map .ofNat)) else none

/-- Takes a text in three quotes off the front. -/
def long? (s : List Char) : Option (List Char × List Char) := do
  let (raw, rest) ← cut .triple (← dropPrefix? Quotes.triple.mark s)
  return (withLineFeeds raw, rest)

/-- Takes the texts in three quotes at the front, with only what `skip?` passes over before each of
them. -/
def longs (skip? : List Char → Option (List Char)) (s : List Char) :
    List (List Char) × List Char :=
  match (skip? s).bind long? with
  | none => ([], s)
  | some (raw, rest) =>
    if rest.length < s.length then
      let (more, rest) := longs skip? rest
      (raw :: more, rest)
    else ([], s)
termination_by s.length

/-- Takes the long text at the front. Texts in three quotes that follow each other are one. -/
def longText? (s : List Char) : Option (String × List Char) := do
  let (raws, rest) := longs skipGap? s
  if raws.isEmpty then
    none
  return (String.join (← raws.mapM text?), rest)

/-- Takes the short text at the front. -/
def shortText? (s : List Char) : Option (String × List Char) := do
  let (raw, rest) ← cut .double (← dropPrefix? Quotes.double.mark s)
  return (← text? raw, rest)

end Quoted

end LedgerExport.Ion
