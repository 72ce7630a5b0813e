import LedgerExport.Job
import LedgerExport.Text.Percent

/-!
# Remote requests

What is sent to the services that hold the objects and run the exports, and what they reply.
-/

namespace LedgerExport.Remote

open Text

/-- How the service is told to encrypt what it exports. -/
structure EncryptionConfiguration where
  /-- The service's word for the kind of encryption. -/
  objectEncryptionType : String
  /-- The key. -/
  kmsKeyArn : Option String
deriving DecidableEq, Repr

/-- The configuration for a way to encrypt. -/
def EncryptionConfiguration.ofEncryption : Encryption → EncryptionConfiguration
  | .unencrypted => ⟨"NO_ENCRYPTION", none⟩
  | .kms keyArn => ⟨"SSE_KMS", some keyArn⟩

/-- What the service is told about an export; times are whole milliseconds since 1970. -/
structure JournalExport where
  /-- The start of the window. -/
  inclusiveStartTime : Int
  /-- The end of the window. -/
  exclusiveEndTime : Int
  /-- The format of what is exported. -/
  outputFormat : String
  /-- The role that the service takes on to write. -/
  roleArn : String
  /-- The bucket to write to. -/
  bucket : String
  /-- What the keys of the written objects start with. -/
  keyPrefix : String
  /-- How to encrypt. -/
  encryption : EncryptionConfiguration
deriving DecidableEq, Repr

/-- What the service is told for a request. Manifests are read as Ion text, and so this is the
format asked for. -/
def JournalExport.ofRequest (r : ExportRequest) : JournalExport where
  inclusiveStartTime := r.window.start.millis
  exclusiveEndTime := r.window.stop.millis
  outputFormat := "ION_TEXT"
  roleArn := r.roleArn
  bucket := r.destination.bucket
  keyPrefix := r.destination.keyPrefix
  encryption := .ofEncryption r.encryption

/-- The source of a copy as the service expects it: the bucket, and the key as a path in a URL. -/
def copySource (bucket key : String) : String :=
  .ofList (bucket.toList ++ '/' :: Percent.encodePath key.toList)

/-- The greatest number of objects on a page of a listing. -/
def maxKeys : Nat := 1000

/-- A request. -/
inductive Request where
  /-- A page of a listing, the first one or the one that a token stands for. -/
  | list (bucket keyPrefix : String) (delimiter token : Option String)
  /-- An object. -/
  | get (bucket key : String)
  /-- A copy of an object. -/
  | copy (bucket destination source : String)
  /-- Whether there is an object. -/
  | head (bucket key : String)
  /-- The deletion of an object. -/
  | delete (bucket key : String)
  /-- The state of an export. -/
  | describe (ledger exportId : String)
  /-- The start of an export. -/
  | start (ledger : String) (job : JournalExport)
deriving DecidableEq, Repr

/-- A page of a listing. -/
structure Page where
  /-- The objects, with their sizes. -/
  objects : List (Option String × Option Int)
  /-- The token of the page that comes next. -/
  nextToken : Option String
deriving DecidableEq, Repr

/-- What the reply to a request that was carried out says. Each part belongs to one kind of
request. -/
structure Content where
  /-- A page of a listing, unless it cannot be read. -/
  page : Option Page
  /-- The body of an object, unless the connection breaks while it is read. -/
  body : Option ByteArray
  /-- The status of an export. -/
  status : Option String
  /-- The name of the export that has been started. -/
  exportId : String

/-- What a reply says that holds an error document where something else is expected: nothing,
except that the document can be taken for the body of an object. -/
def Content.ofErrorDocument (code : String) : Content where
  page := some ⟨[], none⟩
  body := some ("<Error><Code>" ++ code ++ "</Code></Error>").toUTF8
  status := none
  exportId := ""

/-- A reply. -/
inductive Reply where
  /-- The request was carried out. -/
  | accepted (content : Content)
  /-- The request was refused with an HTTP status, and perhaps with the service's code for the
  reason. -/
  | refused (http : Nat) (code : Option String)
  /-- The status is one of success, and what is sent with it is an error document with a code. -/
  | errorDocument (http : Nat) (code : String)

/-- Why a request was refused. -/
def refusal (http : Nat) (code : Option String) : String :=
  match code with
  | some code => s!"the service refused with status {http} and code {code}"
  | none => s!"the service refused with status {http}"

end LedgerExport.Remote
