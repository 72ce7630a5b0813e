import LedgerExport.Window

/-!
# Export jobs

What is said to the service that runs the exports, and what it says of an export.
-/

namespace LedgerExport

/-- How far a known export has come. -/
inductive JobStatus where
  /-- It is still running. -/
  | inProgress
  /-- It has ended well. -/
  | completed
  /-- It was called off. -/
  | cancelled
  /-- The service uses a word of its own. -/
  | other (word : String)
deriving DecidableEq, Repr

namespace JobStatus

/-- The service's word for a status. -/
def text : JobStatus → String
  | inProgress => "IN_PROGRESS"
  | completed => "COMPLETED"
  | cancelled => "CANCELLED"
  | other word => word

/-- The status that a word of the service stands for. -/
def ofText (word : String) : JobStatus :=
  if word = "IN_PROGRESS" then inProgress
  else if word = "COMPLETED" then completed
  else if word = "CANCELLED" then cancelled
  else other word

end JobStatus

instance : Serial JobStatus where
  encode
    | .inProgress => .str "InProgress"
    | .completed => .str "Completed"
    | .cancelled => .str "Cancelled"
    | .other word => .obj [("Other", .str word)]
  decode? j := do
    match ← j.case? with
    | ("InProgress", none) | ("InProgress", some .null) => some .inProgress
    | ("Completed", none) | ("Completed", some .null) => some .completed
    | ("Cancelled", none) | ("Cancelled", some .null) => some .cancelled
    | ("Other", some word) => .other <$> decode? word
    | _ => none

/-- What the service knows of an export. -/
inductive Lookup where
  /-- It knows the export, with this status. -/
  | found (status : JobStatus)
  /-- It does not know the export. -/
  | unknown
deriving DecidableEq, Repr

/-- How exported objects are encrypted where they are stored. -/
inductive Encryption where
  /-- Not at all. -/
  | unencrypted
  /-- With a key that the key service manages. -/
  | kms (keyArn : String)
deriving DecidableEq, Repr

instance : Inhabited Encryption := ⟨.unencrypted⟩

instance : Serial Encryption where
  encode
    | .unencrypted => .str "None"
    | .kms keyArn => .obj [("Kms", .obj [("key_arn", .str keyArn)])]
  decode? j := do
    match ← j.case? with
    | ("None", none) | ("None", some .null) => some .unencrypted
    | ("Kms", some content) =>
      let [keyArn] ← content.fields? ["key_arn"] | none
      return .kms (← Json.required keyArn)
    | _ => none

/-- Where an export writes its objects. -/
structure Destination where
  /-- The bucket. -/
  bucket : String
  /-- What the keys of the objects start with. -/
  keyPrefix : String
deriving DecidableEq, Repr

instance : Serial Destination where
  encode d := .obj [("bucket", .str d.bucket), ("prefix", .str d.keyPrefix)]
  decode? j := do
    let [bucket, keyPrefix] ← j.fields? ["bucket", "prefix"] | none
    return ⟨← Json.required bucket, ← Json.required keyPrefix⟩

/-- A request to export one window of a ledger. -/
structure ExportRequest where
  /-- The ledger. -/
  ledger : String
  /-- The window to export. -/
  window : Window
  /-- Where to write. -/
  destination : Destination
  /-- The role that the service takes on to write. -/
  roleArn : String
  /-- How to encrypt. -/
  encryption : Encryption
deriving DecidableEq, Repr

instance : Serial ExportRequest where
  encode r := .obj [("job_name", .str r.ledger), ("window", encode r.window),
    ("destination", encode r.destination), ("role_arn", .str r.roleArn),
    ("encryption", encode r.encryption)]
  decode? j := do
    let [ledger, window, destination, roleArn, encryption] ←
      j.fields? ["job_name", "window", "destination", "role_arn", "encryption"] | none
    return ⟨← Json.required ledger, ← Json.required window, ← Json.required destination,
      ← Json.required roleArn, ← Json.required encryption⟩

end LedgerExport
