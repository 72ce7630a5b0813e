import LedgerExport.Ion.Document
import LedgerExport.Json.Basic

/-!
# Ion values as JSON values

JSON text is Ion text, and its values are the Ion values that JSON knows of.
-/

namespace LedgerExport.Ion.Element

mutual

/-- The JSON value that an Ion value is, if it is one. -/
def toJson? : Value (Option String) → Option Json
  | .null .null => some .null
  | .bool b => some (.bool b)
  | .int n => some (.int n)
  | .string s => some (.str s)
  | .list items => .arr <$> itemsToJson? items
  | .struct fields => .obj <$> fieldsToJson? fields
  | _ => none

/-- The JSON values of items. -/
def itemsToJson? : List (Value (Option String)) → Option (List Json)
  | [] => some []
  | v :: rest => return (← toJson? v) :: (← itemsToJson? rest)

/-- The JSON members of fields. -/
def fieldsToJson? : List (Option String × Value (Option String)) → Option (List (String × Json))
  | [] => some []
  | (some name, v) :: rest => return (name, ← toJson? v) :: (← fieldsToJson? rest)
  | (none, _) :: _ => none

end

end LedgerExport.Ion.Element
