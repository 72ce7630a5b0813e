import LedgerExport.Outcome
import LedgerExport.Relocation
import LedgerExport.Settings

/-!
# Invocations

One pass over a ledger's exports. It takes a survey of the markers; then it either looks up the
exports that have not completed and quarantines the markers of those that the service does not
know, or it submits the next window and moves the markers of the exports before it.
-/

namespace LedgerExport

open Time

/-- A program that may end with a failure. -/
abbrev Attempt (α : Type) := ExceptT Failure Program α

namespace Attempt

/-- The result of a program, with its failures seen as failures of the invocation. -/
def ofProgram {ε α : Type} (failure : ε → Failure) (p : Program (Except ε α)) : Attempt α :=
  p.bind fun r => .done (r.mapError failure)

/-- The answer to a call, with its failures seen as failures of the invocation. -/
def ofExcept {α : Type} (r : Except Failure α) : Attempt α := Program.done r

end Attempt

namespace Survey

/-- Reads the bodies of markers, up to the first one that cannot be had. -/
def readAll (bucket : String) :
    List Marker → Attempt (List (Marker × Except ManifestError Manifest))
  | [] => return []
  | marker :: rest => do
    let body ← Attempt.ofProgram .store (Program.ask (.get bucket marker.key))
    let more ← readAll bucket rest
    return (marker, Manifest.ofBytes body) :: more

/-- Takes a survey of the markers directly under a prefix. Only markers of starts are read. -/
def take (bucket keyPrefix : String) : Attempt Survey := do
  let objects ← Attempt.ofProgram .store (Program.ask (.list bucket keyPrefix (some "/")))
  let markers := objects.filterMap fun object => Marker.classify? object.key
  let readings ← readAll bucket (markers.filter (·.kind = .started))
  Attempt.ofExcept (ofReadings keyPrefix (markers.filter (·.kind = .completed)) readings)

end Survey

namespace Settings

/-- Looks up an export that has not completed, and quarantines its marker if the service does not
know the export. -/
def checkRun (s : Settings) (started : StartedMarker) : Attempt RunCheck := do
  let exportId := started.manifest.exportId
  let state ← match ← Attempt.ofProgram (.lookup exportId)
      (Program.ask (.describe s.ledger exportId)) with
    | .found status => pure (RunState.running status)
    | .unknown => do
      let destination := s.layout.quarantineKey started.key
      Attempt.ofProgram .store (Move.relocate s.bucket ⟨started.key, destination⟩)
      pure (RunState.quarantined destination)
  return ⟨started.key, some exportId, state⟩

/-- Looks up exports one after the other. -/
def checkRuns (s : Settings) : List StartedMarker → Attempt (List RunCheck)
  | [] => return []
  | started :: rest => do
    let check ← s.checkRun started
    let more ← s.checkRuns rest
    return check :: more

/-- Submits the next window and moves the markers of the exports before it. -/
def submit (s : Settings) (plan : Plan) : Attempt Outcome := do
  -- The export is accepted before anything moves: a failure below leaves markers, but no gap.
  let exportId ← Attempt.ofProgram .submit (Program.ask (.submit (s.request plan.window)))
  Attempt.ofProgram .store (Move.relocateAll s.bucket plan.moves)
  return .submitted exportId plan.window plan.moves.length

/-- Does what a survey calls for. -/
def carryOut (s : Settings) : Assessment → Attempt Outcome
  | .inProgress running unreadable => do
    let checks ← s.checkRuns running
    return .inProgress (checks ++ unreadable.map (⟨·.key, none, .unreadable⟩))
  | .ready plan => s.submit plan

/-- One invocation. The next window ends at `now`, cut to the milliseconds that the service
keeps. -/
def invoke (s : Settings) (now : Instant) : Attempt Outcome := do
  let survey ← Survey.take s.bucket s.keyPrefix
  let assessment ← Attempt.ofExcept (survey.assess now.cutToMillis s.epoch s.layout)
  s.carryOut assessment

/-- How an invocation ends that may take the time `deadline`: one that was cut short has failed. -/
def concludeBy (deadline : Span) (result : Option (Except Failure Outcome)) :
    Except Failure Outcome :=
  result.getD (.error (.deadlineExceeded deadline))

/-- How an invocation ends that may take `limit` milliseconds. -/
def conclude (limit : Option Nat) (result : Option (Except Failure Outcome)) :
    Except Failure Outcome :=
  concludeBy (.ofMillis (limit.getD 0)) result

end Settings

end LedgerExport
