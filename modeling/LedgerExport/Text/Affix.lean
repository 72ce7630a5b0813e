/-!
# Prefixes and occurrences in texts

Cutting a known start off a text, and cutting a text at the first place where a word occurs.
-/

namespace LedgerExport.Text

variable {α : Type} [BEq α]

/-- What follows `p` in a list that starts with `p`. -/
def dropPrefix? : (p s : List α) → Option (List α)
  | [], s => some s
  | _ :: _, [] => none
  | a :: p, b :: s => if a == b then dropPrefix? p s else none

/-- The part before the first occurrence of `word`, if it occurs. -/
def before? (word : List α) : List α → Option (List α)
  | [] => if word.isEmpty then some [] else none
  | c :: s => if word.isPrefixOf (c :: s) then some [] else (before? word s).map (c :: ·)

/-- The word occurs in the list. -/
def occursIn (word s : List α) : Bool := (before? word s).isSome

/-- Cuts a list behind the last element that `p` accepts: what ends there, and what follows. -/
def cutAfterLast (p : α → Bool) (s : List α) : List α × List α :=
  let tail := (s.reverse.takeWhile (!p ·)).reverse
  (s.take (s.length - tail.length), tail)

end LedgerExport.Text
