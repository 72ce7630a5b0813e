/-!
# Reading a text from the front

A reading step takes a value off the front of the characters that remain, or refuses them.
-/

namespace LedgerExport.Text

/-- A step that takes an `α` off the front of the characters. -/
abbrev Reading := StateT (List Char) Option

namespace Reading

/-- Takes the next character if it is one that `p` accepts. -/
def charIf (p : Char → Bool) : Reading Char
  | c :: s => if p c then some (c, s) else none
  | [] => none

/-- Takes the character `c`. -/
def char (c : Char) : Reading Unit := discard (charIf (· == c))

/-- Takes the character `c` if it comes next, and says whether it did. -/
def char? (c : Char) : Reading Bool
  | d :: s => if c == d then some (true, s) else some (false, d :: s)
  | [] => some (false, [])

/-- Takes the longest run of characters that `p` accepts. -/
def run (p : Char → Bool) : Reading (List Char) := fun s => some (s.takeWhile p, s.dropWhile p)

/-- Takes the longest run of at most `n` characters that `p` accepts. -/
def runUpTo (n : Nat) (p : Char → Bool) : Reading (List Char) := fun s =>
  let taken := (s.take n).takeWhile p
  some (taken, s.drop taken.length)

/-- Skips the characters that `p` accepts. -/
def skip (p : Char → Bool) : Reading Unit := discard (run p)

/-- Refuses unless `b` holds. -/
def demand (b : Bool) : Reading Unit := if b then pure () else failure

/-- The value that the step takes off a text that it takes whole. -/
def whole {α : Type} (r : Reading α) (s : List Char) : Option α :=
  match r s with
  | some (a, []) => some a
  | _ => none

end Reading

end LedgerExport.Text
