import Mathlib.Data.List.TakeWhile
import LedgerExport.Ion.Numeral
import LedgerExport.Json.Compact
import LedgerExport.Proofs.Readings

/-!
# JSON numbers are read

`value?_intText` and `value?_decimalText` say that the text of a JSON number is the numeral of an
integer or of a decimal. Three readings are tried on a numeral. A number has no hyphen behind four
digits, so that it is no timestamp, and the point tells the other two apart.
-/

namespace LedgerExport

namespace Text

/-- The digits of a positive number do not begin with a zero. -/
theorem head_digits {n : Nat} (h : 0 < n) : (digits n).head? ≠ some '0' := by
  induction n using Nat.strongRecOn with
  | _ n ih =>
    by_cases hsmall : n < 10
    · have htable : ∀ n : Fin 10, 0 < n.val → (digits n).head? ≠ some '0' := by decide
      exact htable ⟨n, hsmall⟩ h
    · have hhead := ih (n / 10) (by omega) (by omega)
      have hne : digits (n / 10) ≠ [] := Nat.toDigits_ne_nil
      rw [digits, Nat.toDigits_of_base_le (by decide) (by omega), List.head?_append]
      rw [List.head?_eq_some_head hne] at hhead
      change ((digits (n / 10)).head?.or _) ≠ _
      rwa [List.head?_eq_some_head hne]

end Text

namespace Ion.Numeral

open Text Json Reading

variable {σ : Type} {c : Char} {s ds : List Char} {p : Char → Bool} {n : Nat}

/-- Digits without underscores between them are the digits of a literal. -/
theorem ungroup_digits (hne : s ≠ []) (hp : p '_' = false) (h : ∀ c ∈ s, p c = true) :
    ungroup p s = some s := by
  fun_induction ungroup p s with
  | case1 => exact absurd rfl hne
  | case2 c hc => rfl
  | case3 c hc => exact absurd (h c (by simp)) hc
  | case4 c rest hc ih => simp [hp] at h
  | case5 c rest hc => exact absurd (h c (by simp)) hc
  | case6 c d rest _ hc ih =>
    rw [ih (by simp) fun x hx => h x (List.mem_cons_of_mem _ hx)]
    rfl
  | case7 c d rest _ hc => exact absurd (h c (by simp)) hc

/-- All characters of a literal are digits or underscores. -/
theorem mem_ungroup (h : ungroup p s = some ds) : ∀ c ∈ s, p c = true ∨ c = '_' := by
  fun_induction ungroup p s generalizing ds with
  | case1 => simp
  | case2 c hc => simp [hc]
  | case3 c hc => cases h
  | case4 c rest hc ih =>
    obtain ⟨ds', hds, -⟩ := Option.map_eq_some_iff.1 h
    simpa [hc] using ih hds
  | case5 c rest hc => cases h
  | case6 c d rest _ hc ih =>
    obtain ⟨ds', hds, -⟩ := Option.map_eq_some_iff.1 h
    intro x hx
    rcases List.mem_cons.1 hx with rfl | hx
    · exact .inl hc
    · exact ih hds x hx
  | case7 c d rest _ hc => cases h

/-- A literal with another character than a digit has no whole part. -/
theorem wholePart?_none (hc : c ∈ s) (hdigit : c.isDigit = false) (hunder : c ≠ '_') :
    wholePart? s = none := by
  rcases h : ungroup Char.isDigit s with _ | ds
  · rw [wholePart?, h]
    rfl
  · rcases mem_ungroup h c hc with h | h
    · rw [hdigit] at h
      cases h
    · exact absurd h hunder

/-- Digits are a whole part if no zero stands in front of others. -/
theorem wholePart?_digits (hne : s ≠ []) (h : ∀ c ∈ s, c.isDigit = true)
    (hhead : s = ['0'] ∨ s.head? ≠ some '0') : wholePart? s = some s := by
  rw [wholePart?, ungroup_digits hne (by decide) h]
  simp [hhead]

/-- What a number of a fixed count of digits leaves is the end of the text. -/
theorem suffix_of_fixedNumber {w : Nat} {rest : List Char}
    (h : fixedNumber w s = some (n, rest)) : rest <:+ s := by
  obtain ⟨x, hdemand, hrest⟩ := Option.bind_eq_some_iff.1 h
  obtain rfl : x.2 = rest := congrArg Prod.snd (Option.some.inj hrest)
  unfold demand at hdemand
  split at hdemand
  · rw [← Option.some.inj hdemand]
    exact List.drop_suffix ..
  · cases hdemand

/-- A literal that does not begin with a digit is no timestamp. -/
theorem ofChars?_cons (h : c.isDigit = false) : Timestamp.ofChars? (c :: s) = none := by
  have hread : Timestamp.read (c :: s) = none :=
    bind_of_none (fixedNumber_of_not (by decide) h)
  rw [Timestamp.ofChars?, whole, hread]
  rfl

/-- A literal with neither a `T` nor a hyphen is no timestamp. -/
theorem ofChars?_none (h : ∀ c ∈ s, c ≠ 'T' ∧ c ≠ '-') : Timestamp.ofChars? s = none := by
  have hread : Timestamp.read s = none := by
    rcases hyear : fixedNumber 4 s with _ | ⟨year, r⟩
    · exact bind_of_none hyear
    · have hr : ∀ c ∈ r, c ≠ 'T' ∧ c ≠ '-' := fun c hc =>
        h c ((suffix_of_fixedNumber hyear).mem hc)
      rw [Timestamp.read, bind_of_eq hyear]
      rcases r with _ | ⟨c, r⟩
      · rfl
      · obtain ⟨hT, hhyphen⟩ := hr c List.mem_cons_self
        rw [bind_of_eq (char?_of_ne hT.symm)]
        show (Reading.char '-' >>= _) (c :: r) = none
        refine bind_of_none ?_
        show (charIf (· == '-') (c :: r)).bind _ = none
        rw [charIf, if_neg (by simpa using hhyphen)]
        rfl
  rw [Timestamp.ofChars?, whole, hread]
  rfl

/-- A literal that begins with neither a digit nor a minus is no numeral. -/
theorem value?_none (hdigit : c.isDigit = false) (hunder : c ≠ '_') (hminus : c ≠ '-') :
    (value? (c :: s) : Option (Value σ)) = none := by
  have hcut : cutMinus (c :: s) = (false, c :: s) := by
    rw [cutMinus]
    exact fun s h => hminus (List.cons.inj h).1
  have hzero : c ≠ '0' := by
    rintro rfl
    cases hdigit
  have hinteger : integer? (c :: s) = none := by
    rw [integer?, hcut]
    dsimp only
    split
    all_goals first
      | exact absurd (List.cons.inj ‹_›).1 hzero
      | rw [wholePart?_none List.mem_cons_self hdigit hunder]; rfl
  have hreal : (real? (c :: s) : Option (Value σ)) = none := by
    have hwhole (p q : Char → Bool) :
        wholePart? (((c :: s).takeWhile p).takeWhile q) = none := by
      by_cases hp : p c = true
      · by_cases hq : q c = true
        · rw [List.takeWhile_cons_of_pos hp, List.takeWhile_cons_of_pos hq]
          exact wholePart?_none List.mem_cons_self hdigit hunder
        · rw [List.takeWhile_cons_of_pos hp, List.takeWhile_cons_of_neg hq]
          rfl
      · rw [List.takeWhile_cons_of_neg hp]
        rfl
    rw [real?, hcut]
    dsimp only
    rw [hwhole]
    rfl
  rw [value?, ofChars?_cons hdigit, hinteger, hreal]
  rfl

/-- The digits of a number are digits. -/
theorem isDigit_of_mem_digits (hc : c ∈ digits n) : c.isDigit = true :=
  Nat.isDigit_of_mem_toDigits (by decide) (by decide) hc

/-- A literal of digits and points is an integer in base ten, or none. -/
theorem integer?_eq {negative : Bool} {t : List Char} (hcut : cutMinus s = (negative, t))
    (ht : ∀ c ∈ t, c.isDigit = true ∨ c = '.') :
    integer? s = (fun ds => signed negative (ofDigits ds)) <$> wholePart? t := by
  rw [integer?, hcut]
  dsimp only
  split
  case h_5 => rfl
  -- The letter of another base is neither a digit nor a point.
  all_goals exact absurd (ht _ (List.mem_cons_of_mem _ List.mem_cons_self)) (by decide)

/-- The digits of a number are a whole part. -/
theorem wholePart?_digits_self (n : Nat) : wholePart? (digits n) = some (digits n) := by
  refine wholePart?_digits Nat.toDigits_ne_nil (fun _ => isDigit_of_mem_digits) ?_
  rcases Nat.eq_zero_or_pos n with rfl | hpos
  · exact .inl rfl
  · exact .inr (head_digits hpos)

/-- A numeral of digits is the integer that they are those of. -/
theorem integer?_digits {negative : Bool} (hcut : cutMinus s = (negative, digits n)) :
    integer? s = some (signed negative n) := by
  rw [integer?_eq hcut fun c hc => .inl (isDigit_of_mem_digits hc), wholePart?_digits_self]
  show some (signed negative (ofDigits (digits n))) = _
  rw [ofDigits, digits, Nat.ofDigitChars_ten_toDigits]

/-- The text of an integer is read as the integer. -/
theorem integer?_intText (n : Int) : integer? (intText n) = some n := by
  unfold intText
  split
  · have hcut : cutMinus ('-' :: digits n.natAbs) = (true, digits n.natAbs) := rfl
    rw [integer?_digits hcut]
    exact congrArg some (show -(n.natAbs : Int) = n by omega)
  · have hcut : cutMinus (digits n.natAbs) = (false, digits n.natAbs) := by
      rw [cutMinus]
      exact fun s h => absurd (isDigit_of_mem_digits (h ▸ List.mem_cons_self)) (by decide)
    rw [integer?_digits hcut]
    exact congrArg some (show (n.natAbs : Int) = n by omega)

/-- The text of an integer has a minus only in front. -/
theorem ofChars?_intText (n : Int) : Timestamp.ofChars? (intText n) = none := by
  unfold intText
  split
  · exact ofChars?_cons (by decide)
  · refine ofChars?_none fun c hc => ?_
    have hdigit := isDigit_of_mem_digits hc
    constructor <;> (rintro rfl; cases hdigit)

/-- The text of an integer is the numeral of the integer. -/
theorem value?_intText (n : Int) : (value? (intText n) : Option (Value σ)) = some (.int n) := by
  rw [value?, ofChars?_intText, integer?_intText]
  rfl

/-- The digits of a number with a point, before and behind the point. -/
theorem decimal_parts (n places : Nat) :
    ∃ whole fraction : List Char, paddedDigits (places + 1) n = whole ++ fraction ∧
      fraction.length = places ∧ (whole = ['0'] ∨ whole ≠ [] ∧ whole.head? ≠ some '0') ∧
      decimalText n places = whole ++ '.' :: fraction := by
  have hlength : (paddedDigits (places + 1) n).length =
      max (places + 1) (digits n).length := by
    rw [paddedDigits, List.length_append, List.length_replicate]
    omega
  refine ⟨_, _, (List.take_append_drop ((paddedDigits (places + 1) n).length - places) _).symm,
    ?_, ?_, ?_⟩
  · rw [List.length_drop]
    omega
  · rw [hlength]
    by_cases hshort : (digits n).length ≤ places
    · -- Zeros fill the places and the one before the point.
      obtain ⟨k, hk⟩ : ∃ k, places + 1 - (digits n).length = k + 1 :=
        ⟨places - (digits n).length, by omega⟩
      rw [paddedDigits, hk, List.replicate_succ, List.cons_append,
        show max (places + 1) (digits n).length - places = 1 by omega]
      exact .inl rfl
    · have hpadded : paddedDigits (places + 1) n = digits n := by
        rw [paddedDigits, show places + 1 - (digits n).length = 0 by omega]
        rfl
      rw [hpadded, show max (places + 1) (digits n).length - places =
        (digits n).length - places by omega]
      rcases Nat.eq_zero_or_pos n with rfl | hpos
      · obtain rfl : places = 0 := by
          have hone : (digits 0).length = 1 := rfl
          omega
        exact .inl rfl
      · refine .inr ⟨?_, ?_⟩
        · rw [ne_eq, List.take_eq_nil_iff]
          have hne : digits n ≠ [] := Nat.toDigits_ne_nil
          simp [hne]
          omega
        · rw [List.head?_take, if_neg (by omega)]
          exact head_digits hpos
  · rw [decimalText, if_neg (by omega), Int.natAbs_natCast]

/-- The characters of a number with a point are digits but for the point. -/
theorem mem_decimal {n places : Nat} {front fraction : List Char}
    (h : paddedDigits (places + 1) n = front ++ fraction) (hc : c ∈ front ++ '.' :: fraction) :
    c.isDigit = true ∨ c = '.' := by
  have hdigit : c ∈ front ++ fraction → c.isDigit = true := fun hc =>
    isDigit_of_mem_paddedDigits (h ▸ hc)
  simp only [List.mem_append, List.mem_cons] at hc hdigit
  rcases hc with hc | hc | hc
  · exact .inl (hdigit (.inl hc))
  · exact .inr hc
  · exact .inl (hdigit (.inr hc))

/-- Digits with a point among them are a decimal. -/
theorem real?_point {n places : Nat} {negative : Bool} {front fraction : List Char}
    (hparts : paddedDigits (places + 1) n = front ++ fraction) (hplaces : fraction.length = places)
    (hfront : front = ['0'] ∨ front ≠ [] ∧ front.head? ≠ some '0')
    (hcut : cutMinus s = (negative, front ++ '.' :: fraction)) :
    (real? s : Option (Value σ)) = some (.decimal ⟨negative, n, -(places : Int)⟩) := by
  have hall : ∀ c ∈ front ++ '.' :: fraction, (!("dDeE".contains c)) = true := by
    intro c hc
    rcases mem_decimal hparts hc with hdigit | rfl
    · have hne : ∀ m ∈ ['d', 'D', 'e', 'E'], c ≠ m := by
        rintro m hm rfl
        simp only [List.mem_cons, List.not_mem_nil, or_false] at hm
        rcases hm with rfl | rfl | rfl | rfl <;> cases hdigit
      simpa [String.contains_char_eq] using hne
    · simp [String.contains_char_eq]
  have hmantissa : (front ++ '.' :: fraction).takeWhile (fun c => !("dDeE".contains c)) =
      front ++ '.' :: fraction ∧
      (front ++ '.' :: fraction).dropWhile (fun c => !("dDeE".contains c)) = [] := by
    rw [List.takeWhile_eq_self_iff, List.dropWhile_eq_nil_iff]
    exact ⟨hall, hall⟩
  have hdigits {c : Char} (hc : c ∈ front ∨ c ∈ fraction) : c.isDigit = true :=
    isDigit_of_mem_paddedDigits (hparts ▸ List.mem_append.2 hc)
  have hbefore : ∀ c ∈ front, (c != '.') = true := by
    intro c hc
    have hdigit := hdigits (.inl hc)
    refine bne_iff_ne.2 ?_
    rintro rfl
    cases hdigit
  have hne : front ≠ [] := by
    rcases hfront with rfl | ⟨hne, -⟩
    · decide
    · exact hne
  have hwhole : wholePart? front = some front :=
    wholePart?_digits hne (fun c hc => hdigits (.inl hc)) (hfront.imp_right (·.2))
  have hvalue : ofDigits (front ++ fraction) = n := by rw [← hparts, ofDigits_paddedDigits]
  rw [real?, hcut]
  dsimp only
  rw [hmantissa.1, hmantissa.2, List.takeWhile_append_of_pos hbefore,
    List.dropWhile_append_of_pos hbefore, List.takeWhile_cons_of_neg (by decide),
    List.dropWhile_cons_of_neg (by decide), List.append_nil, hwhole]
  have hpoint : (front ++ '.' :: fraction).contains '.' = true := by simp
  rcases fraction with _ | ⟨c, ds⟩
  · rw [← hplaces, ← hvalue]
    simp only [hpoint]
    rfl
  · have hfraction := ungroup_digits (s := c :: ds) (by simp) (by decide : Char.isDigit '_' = false)
      fun c hc => hdigits (.inr hc)
    rw [← hplaces, ← hvalue]
    simp only [hpoint, hfraction]
    rfl

/-- The text of a number with a point is the numeral of a decimal with as many places. -/
theorem value?_decimalText (coefficient : Int) (places : Nat) :
    (value? (decimalText coefficient places) : Option (Value σ)) =
      some (.decimal ⟨coefficient < 0, coefficient.natAbs, -(places : Int)⟩) := by
  obtain ⟨front, fraction, hparts, hplaces, hfront, htext⟩ :=
    decimal_parts coefficient.natAbs places
  have hmem : ∀ c ∈ front ++ '.' :: fraction, c.isDigit = true ∨ c = '.' :=
    fun c hc => mem_decimal hparts hc
  -- A minus in front is cut off, and nothing else.
  have hcut : cutMinus (decimalText coefficient places) =
        (decide (coefficient < 0), front ++ '.' :: fraction) ∧
      Timestamp.ofChars? (decimalText coefficient places) = none := by
    rw [decimalText, if_neg (by omega), Int.natAbs_natCast] at htext
    rw [decimalText, htext]
    split
    · rename_i hneg
      exact ⟨by rw [decide_eq_true hneg]; rfl, ofChars?_cons (by decide)⟩
    · rename_i hneg
      refine ⟨?_, ofChars?_none fun c hc => ?_⟩
      · rw [decide_eq_false hneg, cutMinus]
        exact fun s h => absurd (hmem '-' (h ▸ List.mem_cons_self)) (by decide)
      · rcases hmem c hc with hdigit | rfl
        · constructor <;> (rintro rfl; cases hdigit)
        · decide
  have hinteger : integer? (decimalText coefficient places) = none := by
    rw [integer?_eq hcut.1 hmem, wholePart?_none (c := '.') (by simp) (by decide) (by decide)]
    rfl
  rw [value?, hcut.2, hinteger, real?_point hparts hplaces hfront hcut.1]
  rfl

end Ion.Numeral

end LedgerExport
