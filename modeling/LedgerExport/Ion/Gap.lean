/-!
# Gaps in Ion text

White space and comments, which may stand between the values and the marks of a text, and the
characters that end a numeral or a reserved word.
-/

namespace LedgerExport.Ion

/-- White space of Ion text. -/
def isSpace (c : Char) : Bool :=
  c == ' ' || c == '\t' || c == '\n' || c == '\r' || c == '\x0b' || c == '\x0c'

/-- The characters that end a numeral. -/
def isStop (c : Char) : Bool := isSpace c || "\x7b\x7d[](),\"'".contains c

/-- The text ends here, or a stop character follows. -/
def atStop : List Char → Bool
  | [] => true
  | c :: _ => isStop c

/-- Where a gap may go on: between comments, in a line comment, in a block comment. -/
inductive Gap where
  /-- Between comments. -/
  | plain
  /-- In a comment that ends with its line. -/
  | line
  /-- In a comment that ends with a mark of its own. -/
  | block

/-- The text behind a gap. A block comment must end. -/
def Gap.skip? : Gap → List Char → Option (List Char)
  | .plain, '/' :: '/' :: s => skip? .line s
  | .plain, '/' :: '*' :: s => skip? .block s
  | .plain, c :: s => if isSpace c then skip? .plain s else some (c :: s)
  | .line, c :: s => skip? (if c == '\n' || c == '\r' then .plain else .line) s
  | .block, '*' :: '/' :: s => skip? .plain s
  | .block, _ :: s => skip? .block s
  | .plain, [] | .line, [] => some []
  | .block, [] => none

/-- The text behind the gap at its front. -/
def skipGap? (s : List Char) : Option (List Char) := Gap.skip? .plain s

end LedgerExport.Ion
