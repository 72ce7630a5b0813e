import LedgerExport.Json.Basic
import LedgerExport.Remote.Request

/-!
# Requests and replies as JSON

The form in which requests are handed to the process that holds the connection, and in which it
hands the replies back.
-/

namespace LedgerExport.Remote

open Text

/-- A text that may be missing. -/
def textOrNull (s : Option String) : Json := (s.map Json.str).getD .null

/-- A time as it is written, in thousandths of a second. The digits before the point are those of
the whole seconds, rounded down, and the digits behind it those of the milliseconds that are left;
so before 1970 the digits behind the point lead away from the time. -/
def writtenMillis (millis : Int) : Int :=
  if 0 ≤ millis then millis else millis / 1000 * 1000 - millis % 1000

/-- What the service is told about an export. -/
def JournalExport.toJson (e : JournalExport) : Json :=
  .obj [("InclusiveStartTime", .int (writtenMillis e.inclusiveStartTime)),
    ("ExclusiveEndTime", .int (writtenMillis e.exclusiveEndTime)),
    ("OutputFormat", .str e.outputFormat),
    ("RoleArn", .str e.roleArn),
    ("S3ExportConfiguration", .obj [("Bucket", .str e.bucket), ("Prefix", .str e.keyPrefix),
      ("EncryptionConfiguration", .obj (
        ("ObjectEncryptionType", .str e.encryption.objectEncryptionType) ::
          (e.encryption.kmsKeyArn.map fun arn => ("KmsKeyArn", Json.str arn)).toList))])]

/-- A request: its kind and its parts. -/
def Request.toJson : Request → Json
  | .list bucket keyPrefix delimiter token =>
    .arr [.str "list", .str bucket, .str keyPrefix, textOrNull delimiter, textOrNull token,
      .str (toString maxKeys)]
  | .get bucket key => .arr [.str "get", .str bucket, .str key]
  | .copy bucket destination source =>
    .arr [.str "copy", .str bucket, .str destination, .str source]
  | .head bucket key => .arr [.str "head", .str bucket, .str key]
  | .delete bucket key => .arr [.str "delete", .str bucket, .str key]
  | .describe ledger exportId => .arr [.str "describe", .str ledger, .str exportId]
  | .start ledger job => .arr [.str "submit", .str ledger, job.toJson]

/-- The value of a member that is there and not null. -/
def member? (name : String) : Json → Option Json
  -- The last member with the name counts, and null counts as missing.
  | .obj members => match (Json.valuesOf name members).getLast? with
    | some .null => none
    | v => v
  | _ => none

/-- The text of a member. -/
def textMember? (name : String) (j : Json) : Option String :=
  match member? name j with
  | some (.str s) => some s
  | _ => none

/-- The bytes that pairs of hexadecimal digits stand for. -/
def bytesOfHex? : List Char → Option (List UInt8)
  | [] => some []
  | a :: b :: rest => return .ofNat (← ofDigitsIn? 16 [a, b]) :: (← bytesOfHex? rest)
  | [_] => none

/-- The bytes that a value gives as text, or as pairs of hexadecimal digits. -/
def bodyOf? (j : Json) : Option ByteArray :=
  match textMember? "body" j, textMember? "body_hex" j with
  | some s, _ => some s.toUTF8
  | none, some s => (bytesOfHex? s.toList).map fun bytes => ⟨bytes.toArray⟩
  | none, none => none

/-- An object on a page of a listing. -/
def objectOf? : Json → Option (Option String × Option Int)
  | .arr [key, size] => do
    let key ← match key with
      | .str s => some (some s)
      | .null => some none
      | _ => none
    let size ← match size with
      | .int n => some (some n)
      | .null => some none
      | _ => none
    return (key, size)
  | _ => none

/-- Whether a character can stand in a page of a listing. Control characters, those that end or
indent a line apart, and the two last values of the basic plane cannot. -/
def isPageChar (c : Char) : Bool :=
  if c.toNat < 0x20 then c = '\t' ∨ c = '\n' ∨ c = '\r' else c.toNat ≠ 0xFFFE ∧ c.toNat ≠ 0xFFFF

/-- A page of a listing, unless a name on it holds a character that cannot stand there. -/
def Page.ofParts? (objects : List (Option String × Option Int)) (groups : List String)
    (nextToken : Option String) : Option Page :=
  let names := objects.filterMap Prod.fst ++ groups ++ nextToken.toList
  if names.all fun name => name.toList.all isPageChar then some ⟨objects, nextToken⟩ else none

/-- The text that a value is. -/
def textOf? : Json → Option String
  | .str s => some s
  | _ => none

/-- The values of a list that may be missing. -/
def listMember? {α : Type} (name : String) (item? : Json → Option α) (j : Json) :
    Option (List α) :=
  match member? name j with
  | none => some []
  | some (.arr items) => items.mapM item?
  | _ => none

/-- A reply. It says that the request was carried out unless it has the status of a refusal or a
code for an error. -/
def Reply.ofJson? (j : Json) : Option Reply := do
  let http ← match member? "http" j with
    | none => some 200
    | some (.int n) => some n.toNat
    | _ => none
  let code := textMember? "code" j
  if http < 200 ∨ 300 ≤ http then
    return .refused http code
  match code with
  | some code => return .errorDocument http code
  | none =>
    let objects ← listMember? "contents" objectOf? j
    let groups ← listMember? "common_prefixes" textOf? j
    let broken := member? "broken" j matches some (.bool true)
    return .accepted {
      page := Page.ofParts? objects groups (textMember? "next_token" j)
      body := if broken then none else (bodyOf? j).or (some .empty)
      status := textMember? "status" j
      exportId := (textMember? "export_id" j).getD "" }

end LedgerExport.Remote
