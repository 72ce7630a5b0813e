/-!
# JSON values

Values of the JSON data model. Members of an object keep their order, and a name may come twice.
-/

namespace LedgerExport

/-- A JSON value. -/
inductive Json where
  /-- The null value. -/
  | null
  /-- A truth value. -/
  | bool (b : Bool)
  /-- A number without a fraction. -/
  | int (n : Int)
  /-- A number with `places` digits behind its point: `coefficient` over ten to the `places`. -/
  | decimal (coefficient : Int) (places : Nat)
  /-- A string. -/
  | str (s : String)
  /-- An array. -/
  | arr (items : List Json)
  /-- An object. -/
  | obj (members : List (String × Json))
deriving Repr, Inhabited

namespace Json

/-- The values of the members with the given name, in order. -/
def valuesOf (name : String) (members : List (String × Json)) : List Json :=
  (members.filter (·.1 = name)).map (·.2)

/-- The values of a record with the fields `names`, one for each name. An object may leave members
out and have others beside them, but it must not name one of the fields twice; an array has exactly
the fields' values in their order. -/
def fields? (names : List String) : Json → Option (List (Option Json))
  | .obj members =>
    if names.all fun name => (valuesOf name members).length ≤ 1 then
      some (names.map fun name => (valuesOf name members).head?)
    else none
  | .arr items => if items.length = names.length then some (items.map some) else none
  | _ => none

/-- The name of a case and its content. A case without content is its name alone, or has null
content. -/
def case? : Json → Option (String × Option Json)
  | .str name => some (name, none)
  | .obj [(name, content)] => some (name, some content)
  | _ => none

end Json

end LedgerExport
