import LedgerExport.Job

/-!
# Outcomes

How an invocation ends when nothing fails.
-/

namespace LedgerExport

/-- What became of an export that had not completed. -/
inductive RunState where
  /-- The service knows it. -/
  | running (status : JobStatus)
  /-- The service does not know it, and its marker has been moved. -/
  | quarantined (destination : String)
  /-- Its marker is no manifest and stays where it is. -/
  | unreadable
deriving DecidableEq, Repr

instance : Serial RunState where
  encode
    | .running status => .obj [("Running", encode status)]
    | .quarantined destination =>
      .obj [("Quarantined", .obj [("destination_key", .str destination)])]
    | .unreadable => .str "Unreadable"
  decode? j := do
    match ← j.case? with
    | ("Running", some content) => .running <$> decode? content
    | ("Quarantined", some content) =>
      let [destination] ← content.fields? ["destination_key"] | none
      return .quarantined (← Json.required destination)
    | ("Unreadable", none) | ("Unreadable", some .null) => some .unreadable
    | _ => none

/-- An export that had not completed, and what became of it. -/
structure RunCheck where
  /-- The key of its marker. -/
  markerKey : String
  /-- Its name, if the marker could be read. -/
  exportId : Option String
  /-- What became of it. -/
  state : RunState
deriving DecidableEq, Repr

instance : Serial RunCheck where
  encode r := .obj [("marker_key", .str r.markerKey), ("export_id", Json.orNull r.exportId),
    ("state", encode r.state)]
  decode? j := do
    let [markerKey, exportId, state] ← j.fields? ["marker_key", "export_id", "state"] | none
    return ⟨← Json.required markerKey, ← Json.optional exportId, ← Json.required state⟩

/-- How an invocation ends. -/
inductive Outcome where
  /-- Some exports had not completed, and nothing was submitted. -/
  | inProgress (runs : List RunCheck)
  /-- An export was submitted, and `archived` markers were moved. -/
  | submitted (exportId : String) (window : Window) (archived : Nat)
deriving DecidableEq, Repr

instance : Serial Outcome where
  encode
    | .inProgress runs => .obj [("InProgress", .obj [("runs", encode runs)])]
    | .submitted exportId window archived =>
      .obj [("ExportSubmitted", .obj [("export_id", .str exportId), ("window", encode window),
        ("archived", encode archived)])]
  decode? j := do
    match ← j.case? with
    | ("InProgress", some content) =>
      let [runs] ← content.fields? ["runs"] | none
      return .inProgress (← Json.required runs)
    | ("ExportSubmitted", some content) =>
      let [exportId, window, archived] ←
        content.fields? ["export_id", "window", "archived"] | none
      return .submitted (← Json.required exportId) (← Json.required window)
        (← Json.required archived)
    | _ => none

namespace Outcome

/-- The outcome in words. -/
def message : Outcome → String
  | inProgress _ => "Export is currently in progress...."
  | submitted exportId window _ => s!"Export {exportId} submitted for {window.text}"

/-- Some exports had not completed. -/
def isInProgress : Outcome → Bool
  | inProgress _ => true
  | submitted .. => false

/-- The exports that had not completed. -/
def runs : Outcome → List RunCheck
  | inProgress runs => runs
  | submitted .. => []

/-- The keys of markers that could not be read. -/
def unreadable (o : Outcome) : List String :=
  (o.runs.filter (·.state = .unreadable)).map (·.markerKey)

/-- The keys that markers had before they were quarantined. -/
def quarantined (o : Outcome) : List String :=
  (o.runs.filter fun r => r.state matches .quarantined _).map (·.markerKey)

end Outcome

end LedgerExport
