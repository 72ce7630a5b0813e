import LedgerExport.Ion.Binary
import LedgerExport.Ion.Text

/-!
# Ion documents

A document is bytes in the binary form, which starts with its version marker, or UTF-8 text.
-/

namespace LedgerExport.Ion

/-- The bytes that the binary form starts with. -/
def binaryMarker : List UInt8 := [0xE0, 0x01, 0x00, 0xEA]

/-- The items of a document in either form. -/
def items? (bytes : ByteArray) : Option (List Item) :=
  if binaryMarker.isPrefixOf bytes.data.toList then Binary.items? bytes.data.toList
  else (String.fromUTF8? bytes).bind ofText?

/-- The value of a document that holds exactly one. -/
def Element.ofBytes? (bytes : ByteArray) : Option Element := do
  match ← elements? .system (← items? bytes) with
  | [v] => some v
  | _ => none

end LedgerExport.Ion
