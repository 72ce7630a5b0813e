import LedgerExport.Text.Affix
import LedgerExport.Time.Written

/-!
# The layout of the bucket

Markers lie directly under a prefix. The markers of exports that are done with move below a root of
their own: those of completed exports into a folder for the hour in which their window ends, and
those of failed exports into quarantine.
-/

namespace LedgerExport

open Text Time

/-- Where markers lie, and where they are moved. -/
structure Layout where
  /-- What the keys of markers start with. -/
  keyPrefix : String
  /-- What the keys of moved markers start with. -/
  root : String
deriving DecidableEq, Repr

namespace Layout

/-- The root as a folder: a slash ends it unless it is empty. -/
def folder (root : List Char) : List Char :=
  if root.isEmpty || root.getLast? == some '/' then root else root ++ ['/']

/-- The layout for a prefix and the root of the moved markers. -/
def ofRoot (keyPrefix archiveRoot : String) : Layout :=
  ⟨keyPrefix, .ofList (folder archiveRoot.toList)⟩

/-- The folders of an hour: year, month, day and hour, each with a slash. -/
def hourFolders (t : Instant) : List Char :=
  yearText t.date.year ++ '/' :: paddedDigits 2 t.date.month ++ '/' ::
    paddedDigits 2 t.date.day ++ '/' :: paddedDigits 2 t.hour ++ ['/']

/-- The folder of the completed exports whose window ends in the hour of `stop`. -/
def partition (l : Layout) (stop : Instant) : String :=
  l.root ++ "completed/" ++ .ofList (hourFolders stop)

/-- A key without the prefix; a key that does not start with it stays whole. -/
def relative (l : Layout) (key : String) : String :=
  .ofList ((dropPrefix? l.keyPrefix.toList key.toList).getD key.toList)

/-- Where the marker of a completed export moves. -/
def archiveKey (l : Layout) (key : String) (stop : Instant) : String :=
  l.partition stop ++ l.relative key

/-- Where the marker of a failed export moves. -/
def quarantineKey (l : Layout) (key : String) : String := l.root ++ "failed/" ++ key

end Layout

end LedgerExport
