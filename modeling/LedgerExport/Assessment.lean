import LedgerExport.Layout
import LedgerExport.Survey
import LedgerExport.Window

/-!
# Assessments

What a survey calls for. While an export runs, nothing is submitted. Otherwise the next window
starts where the latest one ended, and the markers of all exports are moved once it is submitted.
-/

namespace LedgerExport

open Time

/-- The move of an object to another key. -/
structure Move where
  /-- The key of the object. -/
  source : String
  /-- Its key afterwards. -/
  destination : String
deriving DecidableEq, Repr

/-- What to do when no export runs. -/
structure Plan where
  /-- The window to submit. -/
  window : Window
  /-- The moves to make afterwards, in this order. -/
  moves : List Move
deriving DecidableEq, Repr

/-- What a survey calls for. -/
inductive Assessment where
  /-- Some exports have not completed. Those with a readable marker can be looked up, the others
  cannot. -/
  | inProgress (running : List StartedMarker) (unreadable : List Marker)
  /-- The next export can be submitted. -/
  | ready (plan : Plan)
deriving DecidableEq, Repr

namespace Survey

/-- The end of the latest window, or `epoch` when there is none. -/
def frontier (s : Survey) (epoch : Instant) : Instant :=
  match s.started.map (·.stop) with
  | [] => epoch
  | t :: rest => rest.foldl max t

/-- The window from the frontier to `now`. -/
def nextWindow (s : Survey) (now epoch : Instant) : Except Failure Window :=
  let start := s.frontier epoch
  if start < now then .ok ⟨start, now⟩
  else .error (.emptyWindow (start.written .millis) (now.written .millis))

/-- The moves for one export: the markers of its completion, then the marker of its start. -/
def movesOf (s : Survey) (layout : Layout) (started : StartedMarker) : List Move :=
  let move (key : String) : Move := ⟨key, layout.archiveKey key started.stop⟩
  (s.completedOf started.group).map (move ·.key) ++ [move started.key]

/-- The moves for all exports. -/
def moves (s : Survey) (layout : Layout) : List Move := s.started.flatMap (s.movesOf layout)

/-- What the survey calls for at the time `now`. -/
def assess (s : Survey) (now epoch : Instant) (layout : Layout) : Except Failure Assessment :=
  if s.running.isEmpty && s.blocking.isEmpty then do
    let window ← s.nextWindow now epoch
    return .ready ⟨window, s.moves layout⟩
  else .ok (.inProgress s.running s.blocking)

end Survey

end LedgerExport
