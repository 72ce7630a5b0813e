import LedgerExport.Manifest
import LedgerExport.Text.Affix

/-!
# Markers

Objects whose name says that an export has started or that it has completed. The two markers of one
export differ only in that word, and what stands before it is their group.
-/

namespace LedgerExport

open Text

/-- Which half of an export a marker records. -/
inductive MarkerKind where
  /-- The export has started. -/
  | started
  /-- The export has completed. -/
  | completed
deriving DecidableEq, Repr

namespace MarkerKind

/-- The word in the name of a marker's object. -/
def word : MarkerKind → String
  | started => "started.manifest"
  | completed => "completed.manifest"

/-- The name of the kind. -/
def name : MarkerKind → String
  | started => "Started"
  | completed => "Completed"

end MarkerKind

/-- An object that marks the progress of an export. -/
structure Marker where
  /-- The key of the object. -/
  key : String
  /-- Which half of the export it records. -/
  kind : MarkerKind
  /-- What both markers of the export share. -/
  group : String
deriving DecidableEq, Repr

namespace Marker

/-- The text without dots at its end. -/
def withoutDots (s : List Char) : List Char := (s.reverse.dropWhile (· == '.')).reverse

/-- The group of a marker whose name holds the word of its kind. -/
def groupOf? (directory name : List Char) (kind : MarkerKind) : Option String :=
  (before? kind.word.toList name).map fun base => .ofList (withoutDots (directory ++ base))

/-- The marker that an object with the given key is, by the part of the key behind the last slash.
An object is a marker of a start whenever its name holds that word. -/
def classify? (key : String) : Option Marker :=
  let (directory, name) := cutAfterLast (· == '/') key.toList
  let as? (kind : MarkerKind) : Option Marker :=
    (groupOf? directory name kind).map (⟨key, kind, ·⟩)
  as? .started <|> as? .completed

end Marker

/-- The marker of a start together with its manifest. -/
structure StartedMarker where
  /-- The marker. -/
  marker : Marker
  /-- What its body says. -/
  manifest : Manifest
deriving DecidableEq, Repr

namespace StartedMarker

/-- The key of the object. -/
def key (s : StartedMarker) : String := s.marker.key

/-- What the marker shares with the marker of its completion. -/
def group (s : StartedMarker) : String := s.marker.group

/-- The end of the export's window. -/
def stop (s : StartedMarker) : Time.Instant := s.manifest.stop

end StartedMarker

end LedgerExport
