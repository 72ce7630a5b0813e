import LedgerExport.Time.Span

/-!
# Failures

Everything that ends an invocation early, with its wording.
-/

namespace LedgerExport

open Time

/-- A call of the object store that can fail. -/
inductive StoreOperation where
  /-- Listing keys. -/
  | list
  /-- Reading an object. -/
  | get
  /-- Reading the body of an object that was found. -/
  | readBody
  /-- Copying an object. -/
  | copy
  /-- Deleting an object. -/
  | delete
  /-- Asking whether an object exists. -/
  | head
deriving DecidableEq, Repr

/-- The verb for a call. -/
def StoreOperation.verb : StoreOperation → String
  | list => "list"
  | get => "get"
  | readBody => "read body of"
  | copy => "copy"
  | delete => "delete"
  | head => "head"

/-- A failure of the object store. -/
inductive StoreFailure where
  /-- There is no such object. -/
  | notFound (bucket key : String)
  /-- The call failed. -/
  | request (operation : StoreOperation) (bucket key reason : String)
  /-- The copy was said to be made, but it is not there. -/
  | copyNotVerified (source destination : String)
deriving DecidableEq, Repr

namespace StoreFailure

/-- The wording. -/
def message : StoreFailure → String
  | notFound bucket key => s!"Object not found: s3://{bucket}/{key}"
  | request operation bucket key reason =>
    s!"Failed to {operation.verb} s3://{bucket}/{key}: {reason}"
  | copyNotVerified source destination =>
    s!"Copy of {source} to {destination} could not be verified"

/-- The object was not there. -/
def isNotFound : StoreFailure → Bool
  | notFound .. => true
  | _ => false

end StoreFailure

/-- A failure of the service that runs the exports. -/
inductive JobFailure where
  /-- The request cannot be put together. -/
  | invalidRequest (reason : String)
  /-- The call failed. -/
  | request (reason : String)
deriving DecidableEq, Repr

/-- The wording. -/
def JobFailure.message : JobFailure → String
  | invalidRequest reason => s!"Invalid export request: {reason}"
  | request reason => s!"Job service request failed: {reason}"

/-- What ends an invocation early. -/
inductive Failure where
  /-- The object store failed. -/
  | store (cause : StoreFailure)
  /-- A marker has a body that is no manifest. -/
  | malformedMarker (key reason : String)
  /-- No marker of a start has a body that is a manifest. -/
  | allMalformed (keyPrefix : String) (count : Nat)
  /-- An export could not be looked up. -/
  | lookup (exportId : String) (cause : JobFailure)
  /-- An export could not be submitted. -/
  | submit (cause : JobFailure)
  /-- There is nothing to export; the ends of the window are given as they are written. -/
  | emptyWindow (start stop : String)
  /-- The invocation took too long. -/
  | deadlineExceeded (limit : Span)
  /-- The settings are incomplete or invalid. -/
  | settings (reason : String)
deriving DecidableEq, Repr

namespace Failure

/-- The wording. -/
def message : Failure → String
  | store cause => cause.message
  | malformedMarker key reason => s!"Malformed marker {key}: {reason}"
  | allMalformed keyPrefix count =>
    s!"All {count} started markers under '{keyPrefix}' are malformed"
  | lookup exportId cause => s!"Failed to check status of export {exportId}: {cause.message}"
  | submit cause => s!"Failed to submit export: {cause.message}"
  | emptyWindow start stop => s!"Export window is empty: start {start} is not before end {stop}"
  | deadlineExceeded limit => s!"Export reconciliation did not finish within {limit.text}"
  | settings reason => s!"Configuration error: {reason}"

/-- The wordings of the causes behind the failure, the nearest first. -/
def causes : Failure → List String
  | lookup _ cause => [cause.message]
  | submit cause => [cause.message]
  | _ => []

end Failure

end LedgerExport
