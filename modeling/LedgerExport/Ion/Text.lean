import LedgerExport.Ion.Chunk
import LedgerExport.Ion.Literal
import LedgerExport.Ion.Symbols

/-!
# Ion text

The items of a document that is written as text. The text is read from the front, one value or one
mark of a container at a time; the containers that are open are kept, each with the values that it
holds so far and with what has been read for its next value.
-/

namespace LedgerExport.Ion

open Text

/-- An open container with its values so far, the last one first. -/
inductive Frame where
  /-- The document. -/
  | document (items : List Item)
  /-- A list. -/
  | list (items : List (Value SymbolRef))
  /-- An s-expression. -/
  | sexp (items : List (Value SymbolRef))
  /-- A struct, and the name of the field whose value is read next. -/
  | struct (fields : List (SymbolRef × Value SymbolRef)) (field : Option SymbolRef)
deriving Repr

namespace Frame

/-- A container without values. -/
def start : Container → Frame
  | .list => list []
  | .sexp => sexp []
  | .struct => struct [] none

/-- The container with one more value. -/
def put? (v : Value SymbolRef) : Frame → Option Frame
  | document items => some (document (.value v :: items))
  | list items => some (list (v :: items))
  | sexp items => some (sexp (v :: items))
  | struct fields (some name) => some (struct ((name, v) :: fields) none)
  | struct _ none => none

/-- Takes the mark that closes the container, and gives the container as a value. -/
def closed? : Frame → List Char → Option (Value SymbolRef × List Char)
  | list items, ']' :: s => some (.list items.reverse, s)
  | sexp items, ')' :: s => some (.sexp items.reverse, s)
  | struct fields none, '\x7d' :: s => some (.struct fields.reverse, s)
  | _, _ => none

/-- Passes over a gap and a comma. The mark that closes the container may stand in place of the
comma. -/
def comma? (close : Char) (s : List Char) : Option (List Char) := do
  match ← skipGap? s with
  | ',' :: rest => some rest
  | c :: rest => if c = close then some (c :: rest) else none
  | [] => none

/-- Passes over what must follow a value in the container. -/
def settle? : Frame → List Char → Option (List Char)
  | document _, s => some s
  | list _, s => comma? ']' s
  | sexp _, s => some s
  | struct .., s => comma? '\x7d' s

/-- Takes the name of a field. -/
def fieldName? (s : List Char) : Option (SymbolRef × List Char) :=
  match s with
  | '\'' :: '\'' :: '\'' :: _ => (Quoted.longText? s).map fun (name, rest) => (.text name, rest)
  | '"' :: _ => (Quoted.shortText? s).map fun (name, rest) => (.text name, rest)
  | _ => SymbolRef.read? s

/-- Takes what stands before a value: in a struct, the name of its field and a colon. -/
def field? : Frame → List Char → Option (Frame × List Char)
  | struct fields _, s => do
    let (name, rest) ← fieldName? s
    match ← skipGap? rest with
    | ':' :: rest => return (struct fields (some name), ← skipGap? rest)
    | _ => none
  | frame, s => some (frame, s)

/-- Takes the start of a value behind its annotations. Operators are values in an s-expression, and
behind annotations they come before numbers with a sign. Annotations at the end of a document stand
before a zero. -/
def literal? (frame : Frame) (annotated : Bool) (s : List Char) : Option (Literal × List Char) :=
  match frame with
  | sexp _ =>
    -- So `a::-1` is the symbol `-` under an annotation and then a number, while `-1` is a number.
    if annotated then Literal.operator? s <|> Literal.next? s
    else Literal.next? s <|> Literal.operator? s
  | document _ =>
    if annotated && s.isEmpty then some (.scalar (.int 0), []) else Literal.next? s
  | _ => Literal.next? s

end Frame

/-- An open container, and the annotations of the value that is read for it. -/
structure Nest where
  /-- The container. -/
  frame : Frame
  /-- The annotations. -/
  names : List SymbolRef
deriving Repr

namespace Nest

/-- A container for which nothing has been read. -/
def start (frame : Frame) : Nest := ⟨frame, []⟩

/-- The container with one more value, under the annotations read for it. -/
def put? (n : Nest) (v : Value SymbolRef) : Option Frame := n.frame.put? (v.withAnnotations n.names)

end Nest

/-- How the reading of a document goes on. -/
inductive Progress where
  /-- With the text that remains, in the innermost open container and those around it. -/
  | more (n : Nest) (up : List Nest) (rest : List Char)
  /-- Not at all: these are the items. -/
  | done (items : List Item)

namespace Progress

/-- Takes a version marker of the format. The same name before two colons is an annotation. -/
def version? (s : List Char) : Option (Item × List Char) := do
  let s ← dropPrefix? "$ion_".toList s
  let major := s.takeWhile Char.isDigit
  let s ← dropPrefix? ['_'] (s.dropWhile Char.isDigit)
  let minor := s.takeWhile Char.isDigit
  let rest := s.dropWhile Char.isDigit
  -- With two colons behind it the name is an annotation and no marker.
  if major.isEmpty || minor.isEmpty || [':', ':'].isPrefixOf (rest.dropWhile isSpace) then
    none
  return (.version (ofDigits major) (ofDigits minor), rest)

/-- The marks that may stand last in a document, behind a gap, after a value that is read from `s`:
those that could have gone on to a comment, to the colons of an annotation, or to more of a long
text. -/
def lastMarks (s : List Char) : Value SymbolRef → List (List Char)
  | .symbol _ => [[':'], ['/']]
  | .string _ => if s.head? == some '\'' then [['/'], ['\''], ['\'', '\'']] else []
  | _ => []

/-- The document goes on with the text that remains, unless that is a gap and one of the marks. -/
def behind (marks : List (List Char)) (items : List Item) (gap : Option (List Char))
    (rest : List Char) : Progress :=
  if gap.any marks.contains then .done items.reverse else .more (.start (.document items)) [] rest

/-- The fraction of a timestamp that is read from `s` begins with a chunk. The date, the time and
the marks of both take twenty characters. -/
def cutsFraction (size : Nat) (s : List Char) : Value SymbolRef → Bool
  | .timestamp (.second _ _ _ _ (_ :: _) _) =>
    Chunk.endsAt (size - (String.ofList s).utf8ByteSize + 20)
  | _ => false

/-- Reads a value that is no container, or opens a container. -/
def value? (size : Nat) (n : Nest) (up : List Nest) (s : List Char) : Option Progress := do
  let (frame, s) ← n.frame.field? s
  let (names, s) := SymbolRef.annotations s
  let n : Nest := ⟨frame, names⟩
  match ← frame.literal? (!names.isEmpty) s with
  | (.opening container, rest) =>
    -- A comma right behind the mark is passed over where the outer container could have one.
    return .more (.start (.start container)) (n :: up) ((frame.settle? rest).getD rest)
  | (.scalar v, rest) =>
    if cutsFraction size s v then
      none
    match ← n.put? v with
    | .document items => return behind (lastMarks s v) items (skipGap? rest) rest
    | frame => return .more (.start frame) up (← frame.settle? rest)

/-- Reads one value or one mark of a container. -/
def next? (size : Nat) (n : Nest) (up : List Nest) (s : List Char) : Option Progress :=
  match n.frame.closed? s, up with
  | some _, [] => none
  | some (v, rest), outer :: up => do
    let frame ← outer.put? v
    return .more (.start frame) up (← frame.settle? rest)
  | none, _ =>
    match n.frame, version? s with
    | .document items, some (version, rest) =>
      some (behind [[':']] (version :: items) (some (rest.dropWhile isSpace)) rest)
    | _, _ => value? size n up s

end Progress

/-- The items of a document of `size` bytes from a text that remains, within open containers, the
innermost first. -/
def itemsWithin? (size : Nat) (n : Nest) (up : List Nest) (s : List Char) : Option (List Item) :=
  match skipGap? s with
  | none => none
  | some [] =>
    match n.frame, up with
    | .document items, [] => some items.reverse
    | _, _ => none
  | some t =>
    match Progress.next? size n up t with
    | none => none
    | some (.done items) => some items
    | some (.more n up rest) =>
      -- Every value and every mark takes a character, so this always holds.
      if rest.length < s.length then itemsWithin? size n up rest else none
termination_by s.length

/-- The items of a document that is a text. -/
def ofText? (s : String) : Option (List Item) :=
  itemsWithin? s.utf8ByteSize (.start (.document [])) [] s.toList

end LedgerExport.Ion
