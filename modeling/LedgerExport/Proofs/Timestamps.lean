import Mathlib.Data.List.Induction
import LedgerExport.Proofs.JsonScalars
import LedgerExport.Proofs.Minutes

/-!
# The literals of timestamps

`Timestamp.Spells` says which texts are literals of a timestamp. A literal is read as its timestamp
(`ofChars?_of_spells`), unless its fraction has so many digits that they are counted by their
logarithm and the logarithm is one too large. The text that the timestamp is written as need not be
the literal: an offset is always written in digits. Both are literals of it (`spells_chars`), and as
spellings of an instant all literals come to the same (`ofChars?_eq_instant?`), although different
spellings decide them.
-/

namespace LedgerExport

open Text Reading Time Spelling

namespace Time.Zone

variable {zone : Zone}

/-- The offset that a zone stands for in a timestamp, where minus zero is the unknown one. -/
def known? (zone : Zone) : Option Int :=
  if zone = .offset true 0 0 then none else some zone.ahead

/-- Minus zero is the offset behind a minus that is zero. -/
theorem offset_true_eq_iff {hours : Fin 24} {minutes : Fin 60} :
    Zone.offset true hours minutes = .offset true 0 0 ↔ (hours * 60 + minutes : Int) = 0 := by
  rw [Zone.offset.injEq, Fin.ext_iff, Fin.ext_iff, eq_self_iff_true, true_and]
  show hours.val = 0 ∧ minutes.val = 0 ↔ _
  omega

/-- The zone in digits. -/
def inDigits : Zone → Zone
  | zulu => .offset false 0 0
  | zone => zone

/-- In digits, a zone is still there. -/
theorem inDigits_ne_absent (h : zone ≠ .absent) : zone.inDigits ≠ .absent := by
  cases zone with
  | absent => exact absurd rfl h
  | zulu | offset => exact nofun

/-- In digits, a zone stands for the same offset. -/
theorem known?_inDigits (zone : Zone) : zone.inDigits.known? = zone.known? := by
  cases zone <;> rfl

/-- Clocks with an unknown offset show Coordinated Universal Time. -/
theorem getD_known? (zone : Zone) : zone.known?.getD 0 = zone.ahead := by
  unfold known?
  split
  · rename_i hzero
    rw [hzero]
    rfl
  · rfl

/-- Minutes behind a sign are written as the hours and minutes that they make. -/
theorem offsetText_minutes {minus : Bool} {minutes : Int} (hours : Fin 24) (rest : Fin 60)
    (habs : minutes.natAbs = hours.val * 60 + rest.val) (hsign : minutes < 0 ↔ minus = true) :
    Ion.Timestamp.offsetText (some minutes) = (Zone.offset minus hours rest).chars := by
  have hrest := rest.isLt
  rw [Ion.Timestamp.offsetText, habs, chars, show (hours.val * 60 + rest.val) / 60 = hours.val by
    omega, show (hours.val * 60 + rest.val) % 60 = rest.val by omega]
  simp only [hsign]

/-- The offset of a timestamp is written as the zone in digits. -/
theorem offsetText_known? (h : zone ≠ .absent) :
    Ion.Timestamp.offsetText zone.known? = zone.inDigits.chars := by
  match zone with
  | .absent => exact absurd rfl h
  | .zulu => rfl
  | .offset false hours minutes =>
    have hahead : (Zone.offset false hours minutes).ahead = hours * 60 + minutes := rfl
    exact offsetText_minutes hours minutes (by omega) (iff_of_false (by omega) (by decide))
  | .offset true hours minutes =>
    rw [known?]
    split
    · rename_i heq
      obtain ⟨-, rfl, rfl⟩ := Zone.offset.inj heq
      rfl
    · -- A minus stands before an offset that is not zero.
      rename_i hne
      rw [offset_true_eq_iff] at hne
      have hahead : (Zone.offset true hours minutes).ahead = -(hours * 60 + minutes) := rfl
      exact offsetText_minutes hours minutes (by omega) (iff_of_true (by omega) rfl)

end Time.Zone

namespace Ion.Timestamp

/-- The date exists, in a year between 1 and 9999. -/
def IsDate (d : Date) : Prop := 1 ≤ d.year ∧ d.year ≤ 9999 ∧ d.Valid

/-- Such a date is written in digits. -/
theorem IsDate.text_eq {d : Date} (hd : IsDate d) :
    d.text = paddedDigits 4 d.year.toNat ++ '-' :: paddedDigits 2 d.month ++
      '-' :: paddedDigits 2 d.day := by
  obtain ⟨hfirst, hlast, -⟩ := hd
  rw [Date.text, yearText, if_neg (by omega), if_pos hlast, show d.year.natAbs = d.year.toNat by
    omega]

/-- The digits of a fraction of a second with the point before them, or nothing. -/
def fractionChars (ds : List Char) : List Char := if ds = [] then [] else '.' :: ds

/-- The literals of a timestamp. -/
inductive Spells : Timestamp → List Char → Prop
  /-- A year. -/
  | year {y : Nat} : 1 ≤ y → y ≤ 9999 → Spells (.year y) (paddedDigits 4 y ++ ['T'])
  /-- A month. -/
  | month {y m : Nat} : 1 ≤ y → y ≤ 9999 → 1 ≤ m → m ≤ 12 →
    Spells (.month y m) (paddedDigits 4 y ++ '-' :: paddedDigits 2 m ++ ['T'])
  /-- A day. -/
  | day {d : Date} : IsDate d → Spells (.day d) d.text
  /-- A day with the mark behind which a time could stand. -/
  | markedDay {d : Date} : IsDate d → Spells (.day d) (d.text ++ ['T'])
  /-- A minute with its zone. -/
  | minute {d : Date} {hour minute : Nat} {zone : Zone} :
    IsDate d → hour < 24 → minute < 60 → zone ≠ .absent →
    Spells (.minute d hour minute zone.known?) (minuteChars d hour minute ++ zone.chars)
  /-- A second with any number of digits of its fraction, and its zone. -/
  | second {d : Date} {hour minute second : Nat} {ds : List Char} {zone : Zone} :
    IsDate d → hour < 24 → minute < 60 → second < 60 → (∀ c ∈ ds, c.isDigit = true) →
    zone ≠ .absent →
    Spells (.second d hour minute second ds zone.known?)
      (minuteChars d hour minute ++
        (':' :: paddedDigits 2 second ++ fractionChars ds ++ zone.chars))

variable {t : Timestamp} {s rest ds : List Char} {d : Date} {y m hour minute second : Nat}
  {zone : Zone}

/-- The timestamp tells at least the minute. -/
def tellsMinute : Timestamp → Bool
  | .year _ | .month .. | .day _ => false
  | .minute .. | .second .. => true

/-- The digits of the fraction are few, or their logarithm does not count too many. -/
def WellCounted : Timestamp → Prop
  | .second _ _ _ _ ds _ => ds.length ≤ 9 ∨ logDigitCount (ofDigits ds) ≤ ds.length
  | _ => True

/-! ## Literals are read -/

/-- The zone of a literal is read. -/
theorem readOffset_zone (hzone : zone ≠ .absent) :
    readOffset (zone.chars ++ rest) = some (zone.known?, rest) := by
  cases zone with
  | absent => exact absurd rfl hzone
  | zulu => rfl
  | offset minus hours minutes =>
    have hhours := hours.isLt
    have hminutes := minutes.isLt
    have hsign (more : List Char) :
        charIf (fun c => c == '+' || c == '-') ((if minus then '-' else '+') :: more) =
          some (if minus then '-' else '+', more) := by
      cases minus <;> rfl
    have hzulu (more : List Char) : char? 'Z' ((if minus then '-' else '+') :: more) =
        some (false, (if minus then '-' else '+') :: more) := by
      cases minus <;> rfl
    have hclock : isMinute hours minutes = true := by simp [isMinute]
    rw [Zone.chars]
    simp only [List.append_assoc, List.cons_append]
    rw [readOffset, bind_of_eq (hzulu _)]
    show (charIf _ >>= _) _ = _
    rw [bind_of_eq (hsign _),
      bind_of_eq (fixedNumber_padded (by decide) (show hours.val < 10 ^ 2 by omega)),
      bind_of_eq char_cons,
      bind_of_eq (fixedNumber_padded (by decide) (show minutes.val < 10 ^ 2 by omega)), hclock]
    cases minus with
    | false => rfl
    | true =>
      show (if (hours * 60 + minutes : Int) = 0 then (pure none : Reading (Option Int))
        else pure (some (-(hours * 60 + minutes : Int)))) rest = _
      rw [Zone.known?]
      simp only [Zone.offset_true_eq_iff]
      split <;> rfl

/-- A character that is not the one that may come stays. -/
theorem char?_zone {c : Char} (hzone : zone ≠ .absent) (hc : c = '.' ∨ c = ':') :
    char? c (zone.chars ++ rest) = some (false, zone.chars ++ rest) := by
  rcases hchars : zone.chars with _ | ⟨x, more⟩
  · cases zone with
    | absent => exact absurd rfl hzone
    | zulu | offset => cases hchars
  · obtain ⟨-, hpoint, hcolon, -⟩ := zone.head_chars (c := x) (by rw [hchars]; rfl)
    refine char?_of_ne ?_
    rcases hc with rfl | rfl
    · exact hpoint.symm
    · exact hcolon.symm

/-- A date is read, and what follows decides what it is the date of. -/
theorem read_date (hd : IsDate d) : read (d.text ++ rest) = (do
    if ← char? 'T' then
      readClock d <|> pure (.day d)
    else
      return .day d : Reading Timestamp) rest := by
  have htext := hd.text_eq
  obtain ⟨hfirst, hlast, hvalid⟩ := hd
  obtain ⟨hmonth, hday⟩ := hvalid.le
  have hdate : (⟨(d.year.toNat : Int), d.month, d.day⟩ : Date) = d := by
    rw [Int.toNat_of_nonneg (by omega)]
  rw [htext]
  simp only [List.append_assoc, List.cons_append]
  rw [read, bind_of_eq (fixedNumber_padded (by decide) (by omega)),
    bind_of_eq (char?_of_ne (by decide))]
  show (Reading.char '-' >>= _) _ = _
  rw [bind_of_eq char_cons, bind_of_eq (fixedNumber_padded (by decide) (by omega)),
    bind_of_eq (char?_of_ne (by decide))]
  show (Reading.char '-' >>= _) _ = _
  rw [bind_of_eq char_cons, bind_of_eq (fixedNumber_padded (by decide) (by omega)), hdate]

/-- A date with a time behind it is the date of that time. -/
theorem read_clock (hd : IsDate d)
    (hclock : readClock d (paddedDigits 2 hour ++ ':' :: (paddedDigits 2 minute ++ rest)) =
      some (t, [])) : read (minuteChars d hour minute ++ rest) = some (t, []) := by
  rw [minuteChars]
  simp only [List.append_assoc, List.cons_append]
  rw [read_date hd, bind_of_eq char?_cons]
  show (readClock d _ <|> _) = _
  rw [hclock]
  rfl

/-- A minute with its zone is read. -/
theorem readClock_minute (hhour : hour < 24) (hminute : minute < 60) (hzone : zone ≠ .absent) :
    readClock d (paddedDigits 2 hour ++ ':' :: (paddedDigits 2 minute ++ zone.chars)) =
      some (.minute d hour minute zone.known?, []) := by
  have hoffset : readOffset (zone.chars ++ []) = some (zone.known?, []) := readOffset_zone hzone
  have hcolon : char? ':' (zone.chars ++ []) = some (false, zone.chars ++ []) :=
    char?_zone hzone (.inr rfl)
  rw [List.append_nil] at hoffset hcolon
  rw [readClock, bind_of_eq (fixedNumber_padded (by decide) (by omega)), bind_of_eq char_cons,
    bind_of_eq (fixedNumber_padded (by decide) (by omega)), bind_of_eq hcolon]
  show (readOffset >>= _) _ = _
  rw [bind_of_eq hoffset]
  rfl

/-- A second with its fraction and its zone is read. -/
theorem readClock_second (hhour : hour < 24) (hminute : minute < 60) (hsecond : second < 60)
    (hds : ∀ c ∈ ds, c.isDigit = true) (hzone : zone ≠ .absent) :
    readClock d (paddedDigits 2 hour ++ ':' :: (paddedDigits 2 minute ++
        ':' :: (paddedDigits 2 second ++ (fractionChars ds ++ zone.chars)))) =
      some (.second d hour minute second ds zone.known?, []) := by
  have hoffset : readOffset (zone.chars ++ []) = some (zone.known?, []) := readOffset_zone hzone
  have hpoint : char? '.' (zone.chars ++ []) = some (false, zone.chars ++ []) :=
    char?_zone hzone (.inl rfl)
  rw [List.append_nil] at hoffset hpoint
  rw [readClock, bind_of_eq (fixedNumber_padded (by decide) (by omega)), bind_of_eq char_cons,
    bind_of_eq (fixedNumber_padded (by decide) (by omega)), bind_of_eq char?_cons]
  show (fixedNumber 2 >>= _) _ = _
  rw [bind_of_eq (fixedNumber_padded (by decide) (by omega))]
  unfold fractionChars
  split
  · rename_i hnone
    rw [hnone, List.nil_append, bind_of_eq hpoint]
    show (do return .second d hour minute second [] (← readOffset) : Reading Timestamp) _ = _
    rw [bind_of_eq hoffset]
    rfl
  · rename_i hsome
    have hend : ∀ x ∈ zone.chars.head?, x.isDigit = false := fun x hx => (zone.head_chars hx).1
    have hdemand : (!ds.isEmpty) = true := by simp [hsome]
    rw [List.cons_append, bind_of_eq char?_cons]
    show (run Char.isDigit >>= _) _ = _
    rw [bind_of_eq (run_digits hds hend), hdemand]
    show (do return .second d hour minute second ds (← readOffset) : Reading Timestamp) _ = _
    rw [bind_of_eq hoffset]
    rfl

/-- The parts of a timestamp are in their ranges when it has a literal and its fraction is well
counted. -/
theorem valid_of_spells (h : Spells t s) (hcounted : t.WellCounted) : t.valid = true := by
  have hday {d : Date} (hd : IsDate d) : isDay d = true := by
    obtain ⟨hfirst, hlast, -, -, hday, hdays⟩ := hd
    simp [isDay, isYear, hfirst, hlast, hday, hdays]
  have hoffset {zone : Zone} : isOffset zone.known? = true := by
    unfold Zone.known?
    split
    · rfl
    · simpa [isOffset] using zone.natAbs_ahead_lt
  cases h with
  | year hfirst hlast =>
    simp only [valid, isYear, Bool.and_eq_true, decide_eq_true_eq]
    omega
  | month hfirst hlast hm hm' =>
    simp only [valid, isYear, Bool.and_eq_true, decide_eq_true_eq]
    omega
  | day hd | markedDay hd => exact hday hd
  | minute hd hhour hminute => simp [valid, hday hd, isMinute, hhour, hminute, hoffset]
  | @second d hour minute second ds zone hd hhour hminute hsecond hds =>
    have hcounted : ds.length ≤ 9 ∨ logDigitCount (ofDigits ds) ≤ ds.length := hcounted
    have hfraction : isFraction ds = true := by
      simpa [isFraction, hcounted] using hds
    simp [valid, hday hd, isMinute, hhour, hminute, hsecond, hfraction, hoffset]

/-- A timestamp whose fraction is not well counted is not in its ranges. -/
theorem valid_overcounted (h : ¬ t.WellCounted) : t.valid = false := by
  cases t with
  | second d hour minute second ds offset =>
    have hover : ¬ (ds.length ≤ 9 ∨ logDigitCount (ofDigits ds) ≤ ds.length) := h
    have hfraction : isFraction ds = false := by simp [isFraction, not_or.1 hover]
    simp [valid, hfraction]
  | _ => exact absurd trivial h

/-- A literal is taken as the timestamp that it spells, before the ranges are checked. -/
theorem read_of_spells (h : Spells t s) : read s = some (t, []) := by
  cases h with
  | year hfirst hlast =>
    rw [read, bind_of_eq (fixedNumber_padded (by decide) (by omega)), bind_of_eq char?_cons]
    rfl
  | month hfirst hlast hm hm' =>
    rw [List.append_assoc, List.cons_append, read,
      bind_of_eq (fixedNumber_padded (by decide) (by omega)),
      bind_of_eq (char?_of_ne (by decide))]
    show (Reading.char '-' >>= _) _ = _
    rw [bind_of_eq char_cons, bind_of_eq (fixedNumber_padded (by decide) (by omega)),
      bind_of_eq char?_cons]
    rfl
  | day hd =>
    rw [← List.append_nil (Date.text _), read_date hd]
    rfl
  | markedDay hd =>
    rw [read_date hd]
    rfl
  | minute hd hhour hminute hzone =>
    exact read_clock hd (readClock_minute hhour hminute hzone)
  | second hd hhour hminute hsecond hds hzone =>
    refine read_clock hd ?_
    rw [List.append_assoc, List.cons_append]
    exact readClock_second hhour hminute hsecond hds hzone

/-- A literal with a well counted fraction is read as the timestamp that it spells. -/
theorem ofChars?_of_spells (h : Spells t s) (hcounted : t.WellCounted) : ofChars? s = some t := by
  rw [ofChars?, whole, read_of_spells h]
  exact if_pos (valid_of_spells h hcounted)

/-- A literal whose fraction is not well counted is refused. -/
theorem ofChars?_overcounted (h : Spells t s) (hover : ¬ t.WellCounted) : ofChars? s = none := by
  rw [ofChars?, whole, read_of_spells h]
  exact if_neg (by simp [valid_overcounted hover])

end Ion.Timestamp

namespace Ion.Timestamp

/-! ## Literals in Ion text -/

variable {t : Timestamp} {s ds : List Char} {c : Char} {d : Date}

/-- The characters of the literals. -/
def isPart (c : Char) : Bool := c.isDigit || ['-', ':', '.', '+', 'T', 'Z'].contains c

/-- No character of a literal ends it. -/
theorem isStop_of_isPart (h : isPart c = true) : isStop c = false := by
  rcases Bool.or_eq_true_iff.1 h with hdigit | hmark
  · have hne (d : Char) (hd : d.isDigit = false) : c ≠ d := by
      rintro rfl
      rw [hdigit] at hd
      cases hd
    simp [isStop, isSpace, String.contains_char_eq, hne]
  · have hmarks : ∀ d ∈ ['-', ':', '.', '+', 'T', 'Z'], isStop d = false := by
      simp [isStop, isSpace, String.contains_char_eq]
    exact hmarks c (List.contains_iff_mem.1 hmark)

/-- Digits are characters of literals. -/
theorem all_isPart (hds : ∀ c ∈ ds, c.isDigit = true) : ds.all isPart = true :=
  List.all_eq_true.2 fun c hc => by simp [isPart, hds c hc]

/-- A number in digits consists of characters of literals. -/
theorem all_paddedDigits (k n : Nat) : (paddedDigits k n).all isPart = true :=
  all_isPart fun _ => isDigit_of_mem_paddedDigits

/-- A date consists of characters of literals. -/
theorem IsDate.all_text (hd : IsDate d) : d.text.all isPart = true := by
  rw [hd.text_eq]
  simp [all_paddedDigits, isPart]

/-- A zone consists of characters of literals. -/
theorem all_zone (zone : Zone) : zone.chars.all isPart = true := by
  cases zone with
  | absent | zulu => rfl
  | offset minus hours minutes =>
    cases minus <;> simp [Zone.chars, all_paddedDigits, isPart]

/-- A literal consists of few characters. -/
theorem all_of_spells (h : Spells t s) : s.all isPart = true := by
  cases h with
  | year | month => simp [all_paddedDigits, isPart]
  | day hd => exact hd.all_text
  | markedDay hd => simp [hd.all_text, isPart]
  | minute hd => simp [minuteChars, hd.all_text, all_paddedDigits, all_zone, isPart]
  | @second _ _ _ _ ds _ hd _ _ _ hds =>
    have hfraction : (fractionChars ds).all isPart = true := by
      unfold fractionChars
      split
      · rfl
      · simp [all_isPart hds, isPart]
    simp [minuteChars, hd.all_text, all_paddedDigits, all_zone, hfraction, isPart]

/-- A literal begins with a digit. -/
theorem exists_digit (h : Spells t s) : ∃ c rest, s = c :: rest ∧ c.isDigit = true := by
  have hdate {d : Date} (hd : IsDate d) : ∃ c ds, d.text = c :: ds ∧ c.isDigit = true := by
    obtain ⟨c, ds, hds, hc⟩ := paddedDigits_eq_cons 4 d.year.toNat
    exact ⟨c, _, by rw [hd.text_eq, hds]; rfl, hc⟩
  cases h with
  | @year y | @month y =>
    obtain ⟨c, ds, hds, hc⟩ := paddedDigits_eq_cons 4 y
    exact ⟨c, _, by rw [hds]; rfl, hc⟩
  | day hd => exact hdate hd
  | markedDay hd =>
    obtain ⟨c, ds, hds, hc⟩ := hdate hd
    exact ⟨c, _, by rw [hds]; rfl, hc⟩
  | minute hd | second hd =>
    obtain ⟨c, ds, hds, hc⟩ := hdate hd
    exact ⟨c, _, by rw [minuteChars, hds]; rfl, hc⟩

variable {rest behind : List Char}

/-- A literal whose fraction is not well counted begins with digits and a hyphen. -/
theorem exists_hyphen (h : Spells t s) (hover : ¬ t.WellCounted) :
    ∃ y rest, s = paddedDigits 4 y ++ '-' :: rest := by
  cases h with
  | @second d _ _ _ _ _ hd =>
    refine ⟨d.year.toNat, ?_⟩
    rw [minuteChars, hd.text_eq]
    simp only [List.append_assoc, List.cons_append]
    exact ⟨_, rfl⟩
  | _ => exact absurd trivial hover

/-- Digits and a hyphen are no whole number, whatever is cut off behind them. -/
theorem wholePart?_hyphen (y : Nat) : Numeral.wholePart? (paddedDigits 4 y ++ '-' :: rest) = none :=
  Numeral.wholePart?_none (List.mem_append_right _ List.mem_cons_self) (by decide) (by decide)

/-- Digits with a hyphen behind them are no number. -/
theorem not_number {y : Nat} (hs : s = paddedDigits 4 y ++ '-' :: rest)
    (hall : s.all isPart = true) :
    Numeral.integer? s = none ∧ (Numeral.real? s : Option (Value SymbolRef)) = none := by
  have hcut : Numeral.cutMinus s = (false, s) := by
    obtain ⟨c, ds, hds, hc⟩ := paddedDigits_eq_cons 4 y
    rw [hs, hds, List.cons_append, Numeral.cutMinus]
    rintro more hmore
    obtain ⟨rfl, -⟩ := List.cons.inj hmore
    cases hc
  constructor
  · rw [Numeral.integer?, hcut]
    dsimp only
    split
    case h_5 => rw [hs, wholePart?_hyphen]; rfl
    -- The letter of another base is no character of a literal.
    all_goals simp [isPart] at hall
  · have hmarks : ∀ c ∈ paddedDigits 4 y, (!("dDeE".contains c)) = true ∧ (c != '.') = true := by
      intro c hc
      have hdigit : c.isDigit = true := isDigit_of_mem_paddedDigits hc
      have hne (d : Char) (hd : d.isDigit = false) : c ≠ d := by
        rintro rfl
        rw [hdigit] at hd
        cases hd
      simp [String.contains_char_eq, hne]
    rw [Numeral.real?, hcut]
    dsimp only
    rw [hs, List.takeWhile_append_of_pos fun c hc => (hmarks c hc).1,
      List.takeWhile_cons_of_pos (by simp [String.contains_char_eq]),
      List.takeWhile_append_of_pos fun c hc => (hmarks c hc).2,
      List.takeWhile_cons_of_pos (by decide), wholePart?_hyphen]
    rfl

/-- A literal is cut off where a stop character follows. -/
theorem numeral?_eq (h : Spells t s) (hends : atStop behind = true) :
    Literal.numeral? (s ++ behind) = (Numeral.value? s).map (·, behind) := by
  have hparts := List.all_eq_true.1 (all_of_spells h)
  obtain ⟨htake, hdrop⟩ : (s ++ behind).takeWhile (!isStop ·) = s ∧
      (s ++ behind).dropWhile (!isStop ·) = behind := by
    refine cut_ends (fun x hx => by simp [isStop_of_isPart (hparts x hx)]) fun x hx => ?_
    cases behind with
    | nil => cases hx
    | cons y behind =>
      obtain rfl := Option.some.inj hx
      simpa [atStop] using hends
  rw [Literal.numeral?, htake, hdrop]

/-- A literal with a well counted fraction is read as the timestamp that it spells. -/
theorem next?_of_spells (h : Spells t s) (hcounted : t.WellCounted) (hends : atStop behind = true) :
    Literal.next? (s ++ behind) = some (.scalar (.timestamp t), behind) := by
  have hnumeral : Literal.numeral? (s ++ behind) = some (.timestamp t, behind) := by
    rw [numeral?_eq h hends, Numeral.value?, ofChars?_of_spells h hcounted]
    rfl
  obtain ⟨c, more, rfl, hc⟩ := exists_digit h
  obtain ⟨-, -, hquoted⟩ := isStart_of_literal (isLiteralChar_of_isDigit hc)
  rw [List.cons_append] at hnumeral ⊢
  rw [next?_unquoted hquoted, hnumeral]
  rfl

/-- What begins with a digit is no infinite number, no reserved word and no symbol. -/
theorem unread_of_isDigit (hc : c.isDigit = true) (s : List Char) :
    Literal.infinity? (c :: s) = none ∧ Word.value? (c :: s) = none ∧
      SymbolRef.read? (c :: s) = none := by
  have hne (d : Char) (hd : d.isDigit = false) : d ≠ c := by
    rintro rfl
    rw [hc] at hd
    cases hd
  refine ⟨?_, ?_, ?_⟩
  · have hsign (d : Char) (hd : d.isDigit = false) (word : List Char) :
        dropPrefix? (d :: word) (c :: s) = none := by
      show (if d == c then _ else none) = none
      exact if_neg (by simpa using hne d hd)
    have hplus : dropPrefix? "+inf".toList (c :: s) = none := hsign '+' rfl _
    have hminus : dropPrefix? "-inf".toList (c :: s) = none := hsign '-' rfl _
    unfold Literal.infinity?
    dsimp only
    rw [hplus, hminus]
    rfl
  · have hreserved (l : List Char) : Word.reserved? (c :: l) = none := by
      have hword (d : Char) (hd : d.isDigit = false) (word : List Char) :
          String.ofList (c :: l) ≠ String.ofList (d :: word) := fun h =>
        hne d hd (List.cons.inj (String.ofList_injective h)).1.symm
      unfold Word.reserved?
      split
      · rename_i heq
        exact absurd heq (hword 'n' rfl ['u', 'l', 'l'])
      · rename_i heq
        exact absurd heq (hword 't' rfl ['r', 'u', 'e'])
      · rename_i heq
        exact absurd heq (hword 'f' rfl ['a', 'l', 's', 'e'])
      · rename_i heq
        exact absurd heq (hword 'n' rfl ['a', 'n'])
      · rfl
    have hchar : Word.isNameChar c = true := by simp [Word.isNameChar, hc]
    rw [Word.value?, List.takeWhile_cons_of_pos hchar, hreserved]
  · obtain ⟨-, hstart, -⟩ := isStart_of_literal (isLiteralChar_of_isDigit hc)
    exact read?_unnamed hstart (isNameStart_of_isDigit hc)

/-- A literal whose fraction is not well counted is refused. -/
theorem next?_overcounted (h : Spells t s) (hover : ¬ t.WellCounted)
    (hends : atStop behind = true) : Literal.next? (s ++ behind) = none := by
  obtain ⟨y, rest, hs⟩ := exists_hyphen h hover
  obtain ⟨hinteger, hreal⟩ := not_number hs (all_of_spells h)
  have hnumeral : Literal.numeral? (s ++ behind) = none := by
    rw [numeral?_eq h hends, Numeral.value?, ofChars?_overcounted h hover, hinteger, hreal]
    rfl
  obtain ⟨c, more, rfl, hc⟩ := exists_digit h
  obtain ⟨-, -, hquoted⟩ := isStart_of_literal (isLiteralChar_of_isDigit hc)
  obtain ⟨hinfinity, hword, hsymbol⟩ := unread_of_isDigit hc (more ++ behind)
  rw [List.cons_append] at hnumeral ⊢
  rw [next?_unquoted hquoted, hnumeral, hinfinity, hword, hsymbol]
  rfl

end Ion.Timestamp

/-! ## Literals as spellings of instants -/

/-- As many digits as there are stand for a number with no more digits. -/
theorem Text.ofDigits_lt {ds : List Char} (hds : ∀ c ∈ ds, c.isDigit = true) :
    ofDigits ds < 10 ^ ds.length := by
  induction ds using List.reverseRecOn with
  | nil => decide
  | append_singleton ds c ih =>
    have hlt := ih fun x hx => hds x (List.mem_append_left _ hx)
    have hc := hds c (by simp)
    have hvalue : c.toNat - '0'.toNat ≤ 9 := by
      simp only [Char.isDigit, Bool.and_eq_true, decide_eq_true_eq, UInt32.le_iff_toNat_le] at hc
      have h9 : c.toNat ≤ 57 := hc.2
      show c.toNat - 48 ≤ 9
      omega
    have hstep : ofDigits (ds ++ [c]) = 10 * ofDigits ds + (c.toNat - '0'.toNat) := by
      rw [ofDigits, Nat.ofDigitChars_append, Nat.ofDigitChars_cons, Nat.ofDigitChars_nil]
      rfl
    rw [hstep, List.length_append, Nat.pow_add]
    simp only [List.length_singleton, Nat.pow_one]
    omega

namespace Time.Spelling

open Ion.Timestamp (fractionChars IsDate)

variable {d : Date} {hour minute second n : Nat} {f s ds : List Char} {zone : Zone}

/-- Digits stand for less than a second. -/
theorem nanosOfDigits_lt (hds : ∀ c ∈ ds, c.isDigit = true) :
    nanosOfDigits ds < nanosPerSecond := by
  have hlength : (ds.take 9).length ≤ 9 := List.length_take_le 9 ds
  have hlt : ofDigits (ds.take 9) < 10 ^ (ds.take 9).length :=
    ofDigits_lt fun c hc => hds c (List.mem_of_mem_take hc)
  calc ofDigits (ds.take 9) * 10 ^ (9 - (ds.take 9).length)
      < 10 ^ (ds.take 9).length * 10 ^ (9 - (ds.take 9).length) :=
        Nat.mul_lt_mul_of_pos_right hlt (Nat.pow_pos (by decide))
    _ = nanosPerSecond := by rw [← Nat.pow_add, Nat.add_sub_cancel' hlength]; rfl

/-- The fraction of a literal is read as so much of a second as its first nine digits say. -/
theorem fraction_digits (hds : ∀ c ∈ ds, c.isDigit = true) :
    Fraction (fractionChars ds) (nanosOfDigits ds) := by
  unfold fractionChars
  split
  · rename_i hnone
    rw [hnone]
    exact fraction_nil
  · rename_i hsome
    intro rest hrest
    have hdemand : (!ds.isEmpty) = true := by simp [hsome]
    rw [List.cons_append, readFraction, bind_of_eq char?_cons]
    show (run Char.isDigit >>= _) _ = _
    rw [bind_of_eq (run_digits hds fun x hx => (hrest x hx).1), hdemand]
    rfl

/-- A text without blank characters at its ends is not trimmed. -/
theorem trim_eq (hfirst : ∃ c ∈ s.head?, isBlank c = false)
    (hlast : ∃ c ∈ s.getLast?, isBlank c = false) : trim s = s := by
  have hpadded : trim ([] ++ s ++ []) = s := trim_padded (by simp) (by simp) hfirst hlast
  rwa [List.nil_append, List.append_nil] at hpadded

/-- A second with any zone is a strict spelling. -/
theorem ofChars?_second {t : Instant} (hyear : 0 ≤ d.year ∧ d.year ≤ 9999) (h : Short d hour minute)
    (hsecond : second < 100) (hf : Fraction f n) (hzone : zone ≠ .absent)
    (ht : Instant.ofLocal? d hour minute second n zone.ahead = some t) :
    Instant.ofChars? (minuteChars d hour minute ++
      (':' :: paddedDigits 2 second ++ f ++ zone.chars)) = some t := by
  have hstrict : whole readStrict
      (minuteChars d hour minute ++ (':' :: paddedDigits 2 second ++ f ++ zone.chars)) =
        some t := by
    rw [← ht]
    refine whole_of_instantOf ?_
    rw [readStrict_minute hyear h, strictSecond_second hsecond hf fun x hx =>
      ⟨(zone.head_chars hx).1, (zone.head_chars hx).2.1⟩, strictZone_chars hzone]
  have hlast : ∃ c ∈ (minuteChars d hour minute ++
      (':' :: paddedDigits 2 second ++ f ++ zone.chars)).getLast?, isBlank c = false := by
    rw [← List.append_assoc]
    exact exists_last_zone _ hzone
  rw [Instant.ofChars?, trim_eq (minuteChars_head _) hlast, hstrict]
  rfl

/-- Clocks with any offset show each second of the years from 0 to 9999. -/
theorem exists_ofLocal? (hyear : 0 ≤ d.year ∧ d.year ≤ 9999) (hd : d.Valid) (hhour : hour < 24)
    (hminute : minute < 60) (hsecond : second < 60) (hn : n < nanosPerSecond) (zone : Zone) :
    ∃ t, Instant.ofLocal? d hour minute second n zone.ahead = some t := by
  have hdays := Instant.toDays_bounds hyear hd
  have hahead := zone.natAbs_ahead_lt
  rw [Instant.ofLocal?, if_pos ⟨hd, hhour, hminute, by omega, hn⟩]
  refine ⟨_, dif_pos ⟨?_, .inl ?_⟩⟩
  · unfold firstSecond lastSecond
    omega
  · rw [if_neg (by omega)]
    exact hn

/-- A text that ends within its date or right behind it spells no instant. -/
theorem ofChars?_none (hfirst : ∃ c ∈ s.head?, isBlank c = false)
    (hlast : ∃ c ∈ s.getLast?, isBlank c = false ∧ c ≠ 'Z') (hstrict : readStrict s = none)
    (hminute : readMinuteOf s = none) : Instant.ofChars? s = none := by
  obtain ⟨c, hc, hblank, hzulu⟩ := hlast
  have hoffset : whole readMinuteWithOffset s = none := whole_of_none (bind_of_none hminute)
  have hseconds : whole readSecondOfUtc s = none := whole_of_none (bind_of_none hminute)
  have hutc : whole readMinuteOfUtc s = none := whole_of_none (bind_of_none hminute)
  rw [Instant.ofChars?, trim_eq hfirst ⟨c, hc, hblank⟩, withoutZulu_eq ⟨c, hc, hzulu⟩,
    whole_of_none hstrict, hoffset, hseconds, hutc]
  rfl

end Time.Spelling

namespace Ion.Timestamp

variable {t : Timestamp} {s rest : List Char} {d : Date}

/-- A date is written in the same way within a timestamp and within an instant. -/
theorem dateText_eq (hd : IsDate d) : dateText d = d.text := by
  rw [dateText, hd.text_eq, show d.year.natAbs = d.year.toNat by have := hd.1; omega]

/-- The text that a timestamp is written as is one of its literals. -/
theorem spells_chars (h : Spells t s) : Spells t t.chars := by
  cases h with
  | year hfirst hlast => exact .year hfirst hlast
  | month hfirst hlast hm hm' => exact .month hfirst hlast hm hm'
  | day hd | markedDay hd =>
    rw [chars, dateText_eq hd]
    exact .markedDay hd
  | @minute d hour minute zone hd hhour hminute hzone =>
    have hspells := Spells.minute hd hhour hminute (Zone.inDigits_ne_absent hzone)
    rw [Zone.known?_inDigits] at hspells
    rwa [chars, minuteText, dateText_eq hd, Zone.offsetText_known? hzone]
  | @second d hour minute second ds zone hd hhour hminute hsecond hds hzone =>
    have hspells := Spells.second hd hhour hminute hsecond hds (Zone.inDigits_ne_absent hzone)
    rw [Zone.known?_inDigits] at hspells
    cases ds with
    | nil =>
      rw [chars, minuteText, dateText_eq hd, Zone.offsetText_known? hzone]
      simpa [fractionChars, minuteChars] using hspells
    | cons c ds =>
      rw [chars, minuteText, dateText_eq hd, Zone.offsetText_known? hzone]
      · simpa [fractionChars, minuteChars] using hspells
      · exact List.cons_ne_nil c ds

/-- The instant that a timestamp denotes when it tells the minute. -/
def instant? : Timestamp → Option Instant
  | .year _ | .month .. | .day _ => none
  | .minute d h m offset => Instant.ofLocal? d h m 0 0 (offset.getD 0)
  | .second d h m s fraction offset =>
    Instant.ofLocal? d h m s (nanosOfDigits fraction) (offset.getD 0)

/-- A timestamp with a literal denotes an instant just when it tells the minute. -/
theorem isSome_instant? (h : Spells t s) : t.instant?.isSome = t.tellsMinute := by
  cases h with
  | year | month | day | markedDay => rfl
  | @minute d hour minute zone hd hhour hminute hzone =>
    obtain ⟨hfirst, hlast, hvalid⟩ := hd
    obtain ⟨u, hu⟩ := exists_ofLocal? ⟨by omega, hlast⟩ hvalid hhour hminute (show 0 < 60 by decide)
      (show 0 < nanosPerSecond by decide) zone
    rw [instant?, Zone.getD_known?, hu]
    rfl
  | @second d hour minute second ds zone hd hhour hminute hsecond hds hzone =>
    obtain ⟨hfirst, hlast, hvalid⟩ := hd
    obtain ⟨u, hu⟩ := exists_ofLocal? ⟨by omega, hlast⟩ hvalid hhour hminute hsecond
      (nanosOfDigits_lt hds) zone
    rw [instant?, Zone.getD_known?, hu]
    rfl

/-- A year is no spelling of an instant, and neither is a month. -/
theorem ofChars?_year {y : Nat} (hy : y ≤ 9999) (hrest : rest = ['T'] ∨
    ∃ m, m ≤ 12 ∧ rest = '-' :: paddedDigits 2 m ++ ['T']) :
    Instant.ofChars? (paddedDigits 4 y ++ rest) = none := by
  obtain ⟨c, ds, hds, hc⟩ := paddedDigits_eq_cons 4 y
  refine ofChars?_none ⟨c, by rw [hds]; rfl, isBlank_of_isDigit hc⟩ ⟨'T', ?_, by decide⟩ ?_ ?_
  · rcases hrest with rfl | ⟨m, -, rfl⟩
    · exact List.getLast?_concat
    · rw [← List.append_assoc]
      exact List.getLast?_concat
  · rw [readStrict, bind_of_eq (fixedNumber_padded (by decide) (by omega))]
    rcases hrest with rfl | ⟨m, hm, rfl⟩
    · rfl
    · rw [List.cons_append, bind_of_eq char_cons,
        bind_of_eq (fixedNumber_padded (by decide) (by omega))]
      rfl
  · rw [readMinuteOf]
    refine bind_of_none ?_
    rw [readDate, bind_of_eq (readYear_padded hy)]
    rcases hrest with rfl | ⟨m, hm, rfl⟩
    · rfl
    · rw [List.cons_append, bind_of_eq char_cons, bind_of_eq (readPair_padded (by omega))]
      rfl

/-- A day is no spelling of an instant. -/
theorem ofChars?_day (hd : IsDate d) (hrest : rest = [] ∨ rest = ['T']) :
    Instant.ofChars? (d.text ++ rest) = none := by
  have htext := hd.text_eq
  obtain ⟨hfirst, hlast, hvalid⟩ := hd
  obtain ⟨hmonth, hday⟩ := hvalid.le
  obtain ⟨c, ds, hds, hc⟩ := paddedDigits_eq_cons 4 d.year.toNat
  refine ofChars?_none ⟨c, by rw [htext, hds]; rfl, isBlank_of_isDigit hc⟩ ?_ ?_ ?_
  · rcases hrest with rfl | rfl
    · have hne : paddedDigits 2 d.day ≠ [] := by
        obtain ⟨c, ds, hds, -⟩ := paddedDigits_eq_cons 2 d.day
        exact hds ▸ List.cons_ne_nil c ds
      obtain ⟨c, hc, hdigit⟩ := exists_last hne fun c hc => isDigit_of_mem_paddedDigits hc
      refine ⟨c, ?_, isBlank_of_isDigit hdigit, by rintro rfl; cases hdigit⟩
      rw [htext]
      simp only [List.append_assoc, List.getLast?_append, List.append_nil, List.getLast?_cons,
        Option.mem_def.1 hc]
      rfl
    · exact ⟨'T', List.getLast?_concat, by decide⟩
  · rw [htext]
    simp only [List.append_assoc, List.cons_append]
    rw [readStrict, bind_of_eq (fixedNumber_padded (by decide) (by omega)), bind_of_eq char_cons,
      bind_of_eq (fixedNumber_padded (by decide) (by omega)), bind_of_eq char_cons,
      bind_of_eq (fixedNumber_padded (by decide) (by omega))]
    rcases hrest with rfl | rfl <;> rfl
  · rw [readMinuteOf, bind_of_eq (readDate_text (by omega) (by omega))]
    rcases hrest with rfl | rfl <;> rfl

/-- Every literal of a timestamp is read as the instant that the timestamp denotes, if it denotes
one. -/
theorem ofChars?_eq_instant? (h : Spells t s) : Instant.ofChars? s = t.instant? := by
  have hshort {d : Date} {hour minute : Nat} (hd : d.Valid) (hhour : hour < 24)
      (hminute : minute < 60) : Short d hour minute := by
    obtain ⟨hmonth, hday⟩ := hd.le
    exact ⟨by omega, by omega, by omega, by omega⟩
  have hsome := isSome_instant? h
  cases h with
  | year hfirst hlast => exact ofChars?_year hlast (.inl rfl)
  | @month y m hfirst hlast hm hm' =>
    rw [List.append_assoc]
    exact ofChars?_year hlast (.inr ⟨m, hm', rfl⟩)
  | day hd =>
    rw [← List.append_nil (Date.text _)]
    exact ofChars?_day hd (.inl rfl)
  | markedDay hd => exact ofChars?_day hd (.inr rfl)
  | @minute d hour minute zone hd hhour hminute hzone =>
    obtain ⟨hfirst, hlast, hvalid⟩ := hd
    obtain ⟨u, hu⟩ := Option.isSome_iff_exists.1 hsome
    have hlocal := hu
    rw [instant?, Zone.getD_known?] at hlocal
    have hread : Instant.ofChars? ([] ++ (minuteChars d hour minute ++ [] ++ zone.chars) ++ []) =
        some u :=
      Instant.ofChars?_minute ⟨by omega, hlast⟩ (hshort hvalid hhour hminute) .absent hlocal
        (by simp) (by simp)
    rw [hu]
    simpa using hread
  | @second d hour minute second ds zone hd hhour hminute hsecond hds hzone =>
    obtain ⟨hfirst, hlast, hvalid⟩ := hd
    obtain ⟨u, hu⟩ := Option.isSome_iff_exists.1 hsome
    have hlocal := hu
    rw [instant?, Zone.getD_known?] at hlocal
    rw [hu]
    exact ofChars?_second ⟨by omega, hlast⟩ (hshort hvalid hhour hminute) (by omega)
      (fraction_digits hds) hzone hlocal

end Ion.Timestamp

end LedgerExport
