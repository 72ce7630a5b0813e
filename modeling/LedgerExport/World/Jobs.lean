import LedgerExport.Program

/-!
# Services that run exports

A service answers look-ups and submissions with a state of its own. The table of exports is one that
knows the exports that it was told of and those that it has accepted, and fails where it is told to.
-/

namespace LedgerExport.World

/-- A service with a state of the type `τ`. -/
structure JobService (τ : Type) where
  /-- Looks up an export of a ledger. -/
  describe : (ledger exportId : String) → τ → Except JobFailure Lookup × τ
  /-- Takes a request for an export. -/
  submit : ExportRequest → τ → Except JobFailure String × τ

/-- The exports that are known, and the failures. -/
structure JobTable where
  /-- The status of each known export, the latest entry first. -/
  known : List (String × JobStatus)
  /-- The exports whose look-up fails, the latest entry first. -/
  lookupFailures : List (String × JobFailure)
  /-- The failure of each submission. -/
  submitFailure : Option JobFailure
  /-- The number of exports accepted. -/
  accepted : Nat
deriving DecidableEq, Repr

namespace JobTable

/-- No export is known. -/
def empty : JobTable := ⟨[], [], none, 0⟩

/-- The table in which an export has a status. -/
def know (t : JobTable) (exportId : String) (status : JobStatus) : JobTable :=
  { t with known := (exportId, status) :: t.known }

/-- The table in which an export is not known. -/
def forget (t : JobTable) (exportId : String) : JobTable :=
  { t with known := t.known.filter (·.1 ≠ exportId) }

/-- The table in which looking up an export fails. -/
def failLookup (t : JobTable) (exportId : String) (e : JobFailure) : JobTable :=
  { t with lookupFailures := (exportId, e) :: t.lookupFailures }

/-- The table in which submissions fail. -/
def failSubmit (t : JobTable) (e : JobFailure) : JobTable := { t with submitFailure := some e }

/-- The table in which nothing fails. -/
def accept (t : JobTable) : JobTable := { t with lookupFailures := [], submitFailure := none }

/-- Looks up an export. -/
def describe (exportId : String) (t : JobTable) : Except JobFailure Lookup × JobTable :=
  match t.lookupFailures.lookup exportId, t.known.lookup exportId with
  | some e, _ => (.error e, t)
  | none, some status => (.ok (.found status), t)
  | none, none => (.ok .unknown, t)

/-- Accepts an export and gives it a name that no export before it had. -/
def submit (t : JobTable) : Except JobFailure String × JobTable :=
  match t.submitFailure with
  | some e => (.error e, t)
  | none =>
    let exportId := s!"export{t.accepted + 1}"
    (.ok exportId, { t.know exportId .inProgress with accepted := t.accepted + 1 })

/-- The table as a service. It knows an export whatever its ledger, and accepts every request. -/
def service : JobService JobTable := ⟨fun _ => describe, fun _ => submit⟩

end JobTable

end LedgerExport.World
