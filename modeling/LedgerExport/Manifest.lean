import LedgerExport.Ion.Document
import LedgerExport.Ion.Written
import LedgerExport.Json.Serial

/-!
# Manifests

What the service writes when an export starts: the export's name and the window that it covers. A
manifest is one Ion value, and so it may also be written as JSON. Its times are timestamps, or texts
that spell one.
-/

namespace LedgerExport

open Time Ion

/-- What a started export says of itself. -/
structure Manifest where
  /-- The name by which the service knows the export. -/
  exportId : String
  /-- The end of its window. -/
  stop : Instant
  /-- The start of its window, if it is given. -/
  start : Option Instant
deriving DecidableEq, Repr

instance : Serial Manifest where
  encode m := .obj [("exportId", .str m.exportId), ("exclusiveEndTime", encode m.stop),
    ("inclusiveStartTime", Json.orNull m.start)]
  decode? j := do
    let [exportId, stop, start] ←
      j.fields? ["exportId", "exclusiveEndTime", "inclusiveStartTime"] | none
    return ⟨← Json.required exportId, ← Json.required stop, ← Json.optional start⟩

/-- Why a body is no manifest. -/
inductive ManifestError where
  /-- It is not exactly one Ion value. -/
  | undecodable
  /-- Its value is no struct. -/
  | notAStruct
  /-- A field is missing. -/
  | missing (field : String)
  /-- A field has a value of the wrong kind, given by its text. -/
  | invalid (field : String) (value : String)
deriving DecidableEq, Repr

/-- The wording of the reason. -/
def ManifestError.message : ManifestError → String
  | undecodable => "body is not a single Ion value"
  | notAStruct => "body is not a struct"
  | missing field => s!"missing field '{field}'"
  | invalid field value => s!"field '{field}' has invalid value {value}"

namespace Ion.Element

/-- The text of a string or of a symbol. -/
def text? (v : Element) : Option String :=
  match v.bare with
  | .string s => some s
  | .symbol s => s
  | _ => none

/-- The value is the null of some kind. -/
def isNull (v : Element) : Bool :=
  match v.bare with
  | .null _ => true
  | _ => false

/-- The fields of a struct. -/
def fields? (v : Element) : Option (List (Option String × Element)) :=
  match v.bare with
  | .struct fields => some fields
  | _ => none

/-- The instant that a timestamp denotes or a text spells. -/
def instant? (v : Element) : Option Instant :=
  match v.bare with
  | .timestamp t => Instant.ofChars? t.chars
  | _ => v.text?.bind Instant.ofText?

end Ion.Element

namespace Manifest

/-- The value of the last field with a name. -/
def lastField? (fields : List (Option String × Element)) (name : String) : Option Element :=
  (fields.reverse.find? (·.1 = some name)).map (·.2)

/-- The meaning of a field's value, or the reason that it has none. -/
def interpret {α : Type} (name : String) (meaning : Element → Option α) (v : Element) :
    Except ManifestError α :=
  match meaning v with
  | some a => .ok a
  | none => .error (.invalid name v.written)

/-- The meaning of a field that must be there. -/
def requiredField {α : Type} (fields : List (Option String × Element)) (name : String)
    (meaning : Element → Option α) : Except ManifestError α :=
  match lastField? fields name with
  | some v => interpret name meaning v
  | none => .error (.missing name)

/-- The meaning of a field that may be missing or null. -/
def optionalField {α : Type} (fields : List (Option String × Element)) (name : String)
    (meaning : Element → Option α) : Except ManifestError (Option α) :=
  match (lastField? fields name).filter (!·.isNull) with
  | some v => some <$> interpret name meaning v
  | none => .ok none

/-- The manifest that a value stands for. -/
def ofElement (v : Element) : Except ManifestError Manifest :=
  match v.fields? with
  | none => .error .notAStruct
  | some fields => do
    let exportId ← requiredField fields "exportId" Element.text?
    let stop ← requiredField fields "exclusiveEndTime" Element.instant?
    let start ← optionalField fields "inclusiveStartTime" Element.instant?
    return ⟨exportId, stop, start⟩

/-- The manifest that a body holds. -/
def ofBytes (body : ByteArray) : Except ManifestError Manifest :=
  match Element.ofBytes? body with
  | none => .error .undecodable
  | some v => ofElement v

end Manifest

end LedgerExport
