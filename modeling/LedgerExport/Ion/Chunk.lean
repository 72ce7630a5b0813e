/-!
# Chunks of a document

A document comes in chunks: first the four bytes that tell its form, together with a block, and
then block after block. A reader that has begun with a part of the document may have to give up
when the end of a chunk cuts that part.
-/

namespace LedgerExport.Ion.Chunk

/-- The bytes of a block. -/
def blockSize : Nat := 4096

/-- The bytes of the first chunk. -/
def firstSize : Nat := 4 + blockSize

/-- The first place from `n` on where a chunk ends. -/
def nextEnd (n : Nat) : Nat :=
  firstSize + (n - firstSize + (blockSize - 1)) / blockSize * blockSize

/-- A chunk ends in front of the place `n`. -/
def endsAt (n : Nat) : Bool := nextEnd n == n

/-- A chunk ends at the place `start` or behind it, and before the place `stop`. -/
def cuts (start stop : Nat) : Bool := nextEnd start < stop

end LedgerExport.Ion.Chunk
