import LedgerExport.Json.Basic
import LedgerExport.Time.Spelling
import LedgerExport.Time.Written

/-!
# Values with a JSON form

A type with a JSON form says how its values are written as JSON and which JSON reads back. Reading
is the more lenient of the two: members that are not known are passed over, and an optional member
may be left out.
-/

namespace LedgerExport

open Time

/-- A type whose values have a JSON form. -/
class Serial (α : Type) where
  /-- The JSON form of a value. -/
  encode : α → Json
  /-- The value that a JSON form stands for, if it stands for one. -/
  decode? : Json → Option α

export Serial (encode decode?)

namespace Json

/-- The value of a field that must be there. -/
def required {α : Type} [Serial α] (field : Option Json) : Option α := field.bind decode?

/-- The value of a field that may be null or left out. -/
def optional {α : Type} [Serial α] : Option Json → Option (Option α)
  | none => some none
  | some .null => some none
  | some j => (decode? j).map some

/-- An optional value, written as null when it is absent. -/
def orNull {α : Type} [Serial α] : Option α → Json
  | none => .null
  | some a => encode a

end Json

instance : Serial String where
  encode := .str
  decode?
    | .str s => some s
    | _ => none

instance : Serial UInt64 where
  encode n := .int n.toNat
  decode?
    | .int n => if 0 ≤ n ∧ n < UInt64.size then some (.ofNat n.toNat) else none
    | _ => none

/-- A count is read back when it fits in sixty-four bits. -/
instance : Serial Nat where
  encode n := .int n
  decode?
    | .int n => if 0 ≤ n ∧ n < UInt64.size then some n.toNat else none
    | _ => none

instance : Serial Instant where
  encode t := .str t.text
  decode?
    | .str s => Instant.ofRecorded? s
    | _ => none

instance {α : Type} [Serial α] : Serial (List α) where
  encode xs := .arr (xs.map encode)
  decode?
    | .arr items => items.mapM decode?
    | _ => none

end LedgerExport
