import LedgerExport.Ion.Word

/-!
# Symbol tables

A document refers to symbols by text or by place. A version marker starts over with the table of
the format itself; a struct marked as a symbol table defines a table of its own or adds to the one
before it. What remains of a document are its values, with every symbol looked up.
-/

namespace LedgerExport.Ion

/-- What a document is a sequence of. -/
inductive Item where
  /-- A marker of the version of the format. -/
  | version (major minor : Nat)
  /-- A value. -/
  | value (v : Value SymbolRef)
deriving Repr

/-- The symbols that places refer to, from place 1 on. A place may have no text. -/
abbrev SymbolTable := List (Option String)

namespace SymbolTable

/-- The symbols of the format itself. -/
def system : SymbolTable :=
  ["$ion", "$ion_1_0", "$ion_symbol_table", "name", "version", "imports", "symbols", "max_id",
    "$ion_shared_symbol_table"].map some

/-- The text of a symbol. Place 0 is the symbol without text, and a place behind the end of the
table is refused. -/
def lookup? (table : SymbolTable) : SymbolRef → Option (Option String)
  | .text s => some (some s)
  | .id 0 => some none
  | .id (n + 1) => table[n]?

/-- Adds symbols at the end. A text that has a place keeps it and gets no second one. -/
def add (table : SymbolTable) (symbols : List (Option String)) : SymbolTable :=
  symbols.foldl (fun t s => if s.isSome ∧ s ∈ t then t else t ++ [s]) table

/-- The symbol is the one at a place of the table of the format itself. -/
def refersTo (place : Nat) : SymbolRef → Bool
  | .id n => n = place
  | .text s => SymbolTable.system[place - 1]? = some (some s)

/-- The fields of the struct that defines a symbol table, if the value is one: its first annotation
says so. -/
def definition? : Value SymbolRef → Option (List (SymbolRef × Value SymbolRef))
  | .annotated (name :: _) (.struct fields) => if refersTo 3 name then some fields else none
  | _ => none

/-- The values of the fields with the name at a place of the table of the format itself. -/
def valuesAt (place : Nat) (fields : List (SymbolRef × Value SymbolRef)) :
    List (Value SymbolRef) :=
  (fields.filter fun field => refersTo place field.1).map (·.2.bare)

/-- The symbols that a value lists, if it is a list; what is no string is a place without text. -/
def listed? : Value SymbolRef → Option (List (Option String))
  | .list items => some <| items.map fun item =>
    match item.bare with
    | .string s => some s
    | _ => none
  | _ => none

/-- The value is a symbol, and whether that symbol stands for the table before. -/
def imported? : Value SymbolRef → Option Bool
  | .symbol s => some (refersTo 3 s)
  | _ => none

/-- The value is a list. -/
def isList : Value SymbolRef → Bool
  | .list _ => true
  | _ => false

/-- The table after a definition. Its symbols are listed once, and it adds to the table before it
when it imports that table, which it may do once. Lists of other tables cannot be imported. -/
def define? (table : SymbolTable) (fields : List (SymbolRef × Value SymbolRef)) :
    Option SymbolTable :=
  let imports := valuesAt 6 fields
  if imports.any isList then none
  else
    match imports.filterMap imported?, (valuesAt 7 fields).filterMap listed? with
    -- Two imports of a symbol, or two lists of symbols, are refused rather than merged.
    | _ :: _ :: _, _ | _, _ :: _ :: _ => none
    | imported, symbols => some ((if imported = [true] then table else system).add symbols.flatten)

end SymbolTable

/-- A value whose symbols have been looked up; `none` is the symbol without text. -/
abbrev Element := Value (Option String)

/-- The values of a document, read with the table that is in force at each of them. Only the first
version of the format is known. -/
def elements? (table : SymbolTable) : List Item → Option (List Element)
  | [] => some []
  | .version 1 0 :: items => elements? .system items
  | .version _ _ :: _ => none
  | .value v :: items =>
    match SymbolTable.definition? v with
    | some fields => do elements? (← table.define? fields) items
    | none => return (← v.traverse table.lookup?) :: (← elements? table items)

end LedgerExport.Ion
