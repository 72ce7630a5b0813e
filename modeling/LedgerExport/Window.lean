import LedgerExport.Json.Serial

/-!
# Export windows

The span of a ledger's history that one export covers.
-/

namespace LedgerExport

open Time

/-- The times from `start` on and before `stop`. -/
structure Window where
  /-- The first time that belongs to the window. -/
  start : Instant
  /-- The first time after `start` that no longer belongs to it. -/
  stop : Instant
deriving DecidableEq, Repr

namespace Window

/-- The window as a half-open interval in whole seconds. -/
def text (w : Window) : String := s!"[{w.start.written .seconds}, {w.stop.written .seconds})"

end Window

instance : Serial Window where
  encode w := .obj [("inclusive_start", encode w.start), ("exclusive_end", encode w.stop)]
  decode? j := do
    let [start, stop] ← j.fields? ["inclusive_start", "exclusive_end"] | none
    return ⟨← Json.required start, ← Json.required stop⟩

end LedgerExport
