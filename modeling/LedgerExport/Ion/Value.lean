import LedgerExport.Ion.Decimal
import LedgerExport.Ion.Timestamp

/-!
# Ion values

Values of the Ion data model, over a type of symbols: symbols are references into a symbol table
while a document is being read, and texts afterwards.
-/

namespace LedgerExport.Ion

/-- The kinds of values. -/
inductive Kind where
  | null | bool | int | float | decimal | timestamp | symbol | string | clob | blob | list | sexp
  | struct
deriving DecidableEq, Repr

namespace Kind

/-- The name of a kind. -/
def name : Kind → String
  | null => "null"
  | bool => "bool"
  | int => "int"
  | float => "float"
  | decimal => "decimal"
  | timestamp => "timestamp"
  | symbol => "symbol"
  | string => "string"
  | clob => "clob"
  | blob => "blob"
  | list => "list"
  | sexp => "sexp"
  | struct => "struct"

/-- The kinds in the order of their type codes in the binary form, where integers have two. -/
def all : List Kind :=
  [null, bool, int, float, decimal, timestamp, symbol, string, clob, blob, list, sexp, struct]

/-- The kind with a name. -/
def ofName? (name : String) : Option Kind := all.find? (·.name = name)

end Kind

/-- A value over symbols of the type `σ`. -/
inductive Value (σ : Type) where
  /-- The absence of a value of some kind. -/
  | null (kind : Kind)
  /-- A truth value. -/
  | bool (b : Bool)
  /-- An integer. -/
  | int (n : Int)
  /-- A binary floating-point number, by its bits. -/
  | float (bits : UInt64)
  /-- A decimal. -/
  | decimal (d : Decimal)
  /-- A timestamp. -/
  | timestamp (t : Timestamp)
  /-- A symbol. -/
  | symbol (s : σ)
  /-- A string. -/
  | string (s : String)
  /-- Bytes that are text in an encoding of their own. -/
  | clob (bytes : List UInt8)
  /-- Bytes. -/
  | blob (bytes : List UInt8)
  /-- A list. -/
  | list (items : List (Value σ))
  /-- An s-expression. -/
  | sexp (items : List (Value σ))
  /-- A struct; a name may come twice. -/
  | struct (fields : List (σ × Value σ))
  /-- A value with symbols in front of it. -/
  | annotated (names : List σ) (v : Value σ)
deriving Repr, Inhabited

namespace Value

variable {σ τ : Type}

mutual

/-- Replaces every symbol, or refuses the value when a symbol has no replacement. -/
def traverse (f : σ → Option τ) : Value σ → Option (Value τ)
  | .null kind => some (.null kind)
  | .bool b => some (.bool b)
  | .int n => some (.int n)
  | .float bits => some (.float bits)
  | .decimal d => some (.decimal d)
  | .timestamp t => some (.timestamp t)
  | .symbol s => .symbol <$> f s
  | .string s => some (.string s)
  | .clob bytes => some (.clob bytes)
  | .blob bytes => some (.blob bytes)
  | .list items => .list <$> traverseItems f items
  | .sexp items => .sexp <$> traverseItems f items
  | .struct fields => .struct <$> traverseFields f fields
  | .annotated names v => return .annotated (← names.mapM f) (← traverse f v)

/-- Replaces every symbol of the items. -/
def traverseItems (f : σ → Option τ) : List (Value σ) → Option (List (Value τ))
  | [] => some []
  | v :: rest => return (← traverse f v) :: (← traverseItems f rest)

/-- Replaces every symbol of the fields. -/
def traverseFields (f : σ → Option τ) : List (σ × Value σ) → Option (List (τ × Value τ))
  | [] => some []
  | (name, v) :: rest => return (← f name, ← traverse f v) :: (← traverseFields f rest)

end

/-- The value without the symbols in front of it. -/
def bare : Value σ → Value σ
  | .annotated _ v => v
  | v => v

/-- The symbols in front of the value. -/
def annotations : Value σ → List σ
  | .annotated names _ => names
  | _ => []

/-- The value with symbols in front of it, if there are any. -/
def withAnnotations (names : List σ) (v : Value σ) : Value σ :=
  if names.isEmpty then v else .annotated names v

end Value

end LedgerExport.Ion
