import LedgerExport.Failure
import LedgerExport.Marker

/-!
# Surveys

The markers that lie under the prefix at one moment, sorted by key. A marker of a start whose body
is no manifest is unreadable; unless all of them are, they are listed apart.
-/

namespace LedgerExport

/-- The markers found under the prefix. -/
structure Survey where
  /-- Markers of starts, with their manifests. -/
  started : List StartedMarker
  /-- Markers of completions. -/
  completed : List Marker
  /-- Markers of starts whose body is no manifest. -/
  unreadable : List Marker
deriving DecidableEq, Repr

namespace Survey

/-- No marker has been found. -/
def isEmpty (s : Survey) : Bool := s.started.isEmpty && s.completed.isEmpty && s.unreadable.isEmpty

/-- A marker of a completion belongs to the group. -/
def hasCompleted (s : Survey) (group : String) : Bool := s.completed.any (·.group = group)

/-- The markers of completions that belong to a group. -/
def completedOf (s : Survey) (group : String) : List Marker :=
  s.completed.filter (·.group = group)

/-- Markers of starts without a marker of completion. -/
def running (s : Survey) : List StartedMarker := s.started.filter (!s.hasCompleted ·.group)

/-- Unreadable markers of starts without a marker of completion. -/
def blocking (s : Survey) : List Marker := s.unreadable.filter (!s.hasCompleted ·.group)

/-- Markers of completions without a marker of a start. -/
def orphaned (s : Survey) : List Marker :=
  s.completed.filter fun c =>
    !s.started.any (·.group = c.group) && !s.unreadable.any (·.group = c.group)

/-- The marker of a start with the manifest that has been read from its body. -/
def readable? : Marker × Except ManifestError Manifest → Option StartedMarker
  | (marker, .ok manifest) => some ⟨marker, manifest⟩
  | (_, .error _) => none

/-- The marker whose body has been read and is no manifest. -/
def unreadable? : Marker × Except ManifestError Manifest → Option Marker
  | (_, .ok _) => none
  | (marker, .error _) => some marker

/-- The survey of markers of completions, and of markers of starts with what reading their bodies
gave. It fails when there are such markers and none of them is readable. -/
def ofReadings (keyPrefix : String) (completed : List Marker)
    (readings : List (Marker × Except ManifestError Manifest)) : Except Failure Survey :=
  let started := readings.filterMap readable?
  let unreadable := readings.filterMap unreadable?
  if !unreadable.isEmpty && started.isEmpty then
    .error (.allMalformed keyPrefix unreadable.length)
  else
    .ok {
      started := started.mergeSort fun a b => a.key ≤ b.key
      completed := completed.mergeSort fun a b => a.key ≤ b.key
      unreadable := unreadable.mergeSort fun a b => a.key ≤ b.key }

end Survey

end LedgerExport
