import LedgerExport.Failure
import LedgerExport.Job

/-!
# Calls

What an invocation asks of the object store and of the service that runs the exports.
-/

namespace LedgerExport

/-- An object that a listing names. -/
structure ObjectSummary where
  /-- The key. -/
  key : String
  /-- The number of bytes. -/
  size : Nat
deriving DecidableEq, Repr

/-- A question to the object store or to the service. -/
inductive Call where
  /-- Which keys of a bucket start with a prefix? With a delimiter only those count in which it does
  not occur behind the prefix. -/
  | list (bucket keyPrefix : String) (delimiter : Option String)
  /-- What does an object hold? -/
  | get (bucket key : String)
  /-- Copy an object to another key. -/
  | copy (bucket source destination : String)
  /-- Delete an object. -/
  | delete (bucket key : String)
  /-- Is there such an object? -/
  | probe (bucket key : String)
  /-- How far is an export of a ledger? -/
  | describe (ledger exportId : String)
  /-- Start an export. -/
  | submit (request : ExportRequest)
deriving DecidableEq, Repr

namespace Call

/-- The answers to a call. -/
def Answer : Call → Type
  | list .. => Except StoreFailure (List ObjectSummary)
  | get .. => Except StoreFailure ByteArray
  | copy .. => Except StoreFailure Unit
  | delete .. => Except StoreFailure Unit
  | probe .. => Except StoreFailure Bool
  | describe .. => Except JobFailure Lookup
  | submit .. => Except JobFailure String

end Call

end LedgerExport
