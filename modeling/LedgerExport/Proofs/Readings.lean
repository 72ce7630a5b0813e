import Mathlib.Algebra.Group.Nat.Defs
import LedgerExport.Text.Digits

/-!
# Reading what has been written

What the steps of a reading take off the front of a text, one lemma for each step, and that the
digits of a number are read as that number.
-/

namespace LedgerExport.Text

/-! ## Digits -/

/-- Padded digits are digits. -/
theorem isDigit_of_mem_paddedDigits {w n : Nat} {c : Char} (h : c ∈ paddedDigits w n) :
    c.isDigit = true := by
  rcases List.mem_append.1 h with h | h
  · rw [List.eq_of_mem_replicate h]
    rfl
  · exact Nat.isDigit_of_mem_toDigits (by decide) (by decide) h

/-- Padded digits begin with a digit. -/
theorem paddedDigits_eq_cons (w n : Nat) :
    ∃ c ds, paddedDigits w n = c :: ds ∧ c.isDigit = true := by
  rcases h : paddedDigits w n with _ | ⟨c, ds⟩
  · exact absurd (List.append_eq_nil_iff.1 h).2 Nat.toDigits_ne_nil
  · exact ⟨c, ds, rfl, isDigit_of_mem_paddedDigits (h ▸ List.mem_cons_self)⟩

/-- A number that has at most as many digits as the padding has just that many. -/
theorem length_paddedDigits {w n : Nat} (hw : 0 < w) (h : n < 10 ^ w) :
    (paddedDigits w n).length = w := by
  have hle : (digits n).length ≤ w := (Nat.length_toDigits_le_iff (by decide) hw).2 h
  rw [paddedDigits, List.length_append, List.length_replicate]
  omega

/-- Padded digits stand for the number that they are those of. -/
theorem ofDigits_paddedDigits (w n : Nat) : ofDigits (paddedDigits w n) = n := by
  unfold ofDigits paddedDigits digits
  rw [Nat.ofDigitChars_append, Nat.ofDigitChars_replicate_zero, Nat.mul_zero,
    Nat.ofDigitChars_ten_toDigits]

namespace Reading

variable {α β : Type} {p : Char → Bool} {c d : Char} {s rest : List Char}

/-! ## Steps -/

/-- A step behind another goes on with what the first one leaves. -/
theorem bind_of_eq {r : Reading α} {f : α → Reading β} {a : α} (h : r s = some (a, rest)) :
    (r >>= f) s = f a rest := by
  show (r s).bind (fun x => f x.1 x.2) = f a rest
  rw [h]
  rfl

/-- A step behind another that refuses refuses. -/
theorem bind_of_none {r : Reading α} {f : α → Reading β} (h : r s = none) : (r >>= f) s = none := by
  show (r s).bind (fun x => f x.1 x.2) = none
  rw [h]
  rfl

/-- A character that is accepted is taken. -/
theorem charIf_cons (h : p c = true) : charIf p (c :: s) = some (c, s) := if_pos h

/-- A character that is accepted is dropped. -/
theorem discard_charIf_cons (h : p c = true) :
    (discard (charIf p) : Reading Unit) (c :: s) = some ((), s) := by
  show ((charIf p (c :: s)).bind fun x => some ((), x.2)) = _
  rw [charIf_cons h]
  rfl

/-- The character that is asked for is taken. -/
theorem char_cons : Reading.char c (c :: s) = some ((), s) := by
  show ((charIf (· == c) (c :: s)).bind fun x => some ((), x.2)) = _
  simp [charIf]

/-- The character that may come is taken. -/
theorem char?_cons : char? c (c :: s) = some (true, s) := if_pos (beq_self_eq_true c)

/-- Another character than the one that may come stays. -/
theorem char?_of_ne (h : c ≠ d) : char? c (d :: s) = some (false, d :: s) :=
  if_neg (by rw [beq_eq_false_iff_ne.2 h]; decide)

/-- Nothing is skipped before a character that is not to be skipped. -/
theorem skip_cons (h : p c = false) : skip p (c :: s) = some ((), c :: s) := by
  show ((run p (c :: s)).bind fun x => some ((), x.2)) = _
  simp [run, h]

/-- The longest run of digits before another character is taken. -/
theorem run_digits {ds : List Char} (hds : ∀ x ∈ ds, p x = true)
    (hrest : ∀ x ∈ rest.head?, p x = false) :
    run p (ds ++ rest) = some (ds, rest) := by
  -- The run ends at the character that follows.
  have htail : rest.takeWhile p = [] ∧ rest.dropWhile p = rest := by
    cases rest with
    | nil => exact ⟨rfl, rfl⟩
    | cons x rest => simp [hrest x rfl]
  rw [run, List.takeWhile_append_of_pos hds, List.dropWhile_append_of_pos hds, htail.1, htail.2,
    List.append_nil]

/-- A run of digits of the greatest length that it may have is taken. -/
theorem runUpTo_digits {ds : List Char} (hds : ∀ x ∈ ds, p x = true) :
    runUpTo ds.length p (ds ++ rest) = some (ds, rest) := by
  have htaken : ((ds ++ rest).take ds.length).takeWhile p = ds := by
    rw [List.take_left]
    simpa using @List.takeWhile_append_of_pos _ p ds [] hds
  rw [runUpTo, htaken, List.drop_left]

/-! ## Numbers -/

variable {w n : Nat}

/-- The digits of a number with as many digits as may be taken are taken. -/
theorem runUpTo_padded (hw : 0 < w) (h : n < 10 ^ w) :
    runUpTo w Char.isDigit (paddedDigits w n ++ rest) = some (paddedDigits w n, rest) := by
  have hrun : runUpTo (paddedDigits w n).length Char.isDigit (paddedDigits w n ++ rest) =
      some (paddedDigits w n, rest) := runUpTo_digits fun _ => isDigit_of_mem_paddedDigits
  rwa [length_paddedDigits hw h] at hrun

/-- A number in just as many digits as are asked for is read. -/
theorem fixedNumber_padded (hw : 0 < w) (h : n < 10 ^ w) :
    fixedNumber w (paddedDigits w n ++ rest) = some (n, rest) := by
  rw [fixedNumber, bind_of_eq (runUpTo_padded hw h), length_paddedDigits hw h,
    ofDigits_paddedDigits, beq_self_eq_true]
  rfl

/-- A number in as many digits as it may have is read. -/
theorem numberUpTo_padded (hw : 0 < w) (h : n < 10 ^ w) :
    numberUpTo w (paddedDigits w n ++ rest) = some (n, rest) := by
  obtain ⟨c, ds, hds, -⟩ := paddedDigits_eq_cons w n
  rw [numberUpTo, bind_of_eq (runUpTo_padded hw h), ofDigits_paddedDigits, hds]
  rfl

/-- A number before another character than a digit is read. -/
theorem number_padded (hrest : ∀ x ∈ rest.head?, x.isDigit = false) :
    number (paddedDigits w n ++ rest) = some (n, rest) := by
  have hrun := run_digits (fun _ => isDigit_of_mem_paddedDigits (w := w) (n := n)) hrest
  obtain ⟨c, ds, hds, -⟩ := paddedDigits_eq_cons w n
  rw [number, bind_of_eq hrun, ofDigits_paddedDigits, hds]
  rfl

/-- No number of a fixed count of digits begins with another character than a digit. -/
theorem fixedNumber_of_not (hw : 0 < w) (h : c.isDigit = false) :
    fixedNumber w (c :: s) = none := by
  obtain ⟨w, rfl⟩ := Nat.exists_eq_succ_of_ne_zero (Nat.ne_of_gt hw)
  have hrun : runUpTo (w + 1) Char.isDigit (c :: s) = some ([], c :: s) := by simp [runUpTo, h]
  rw [fixedNumber, bind_of_eq hrun]
  rfl

end Reading

end LedgerExport.Text
