import LedgerExport.Proofs.Calendar
import LedgerExport.Proofs.LeapSeconds
import LedgerExport.Proofs.Readings
import LedgerExport.Time.Spelling
import LedgerExport.Time.Written

/-!
# Written instants are read back

`written_reads_back` says that the text of an instant is read as the instant that clocks show, and
the text with three digits behind the point as that instant cut to milliseconds. It is the instant
itself unless that lies in a leap second within a minute. A year of four digits makes a strict
spelling. A year with a sign does not, and its text is read as one in Coordinated Universal
Time without an offset. A record has a spelling of its own, which `ofRecorded?_text` reads back.

All spellings begin with a date, an hour and a minute, which are read in the same way wherever they
stand (`readStrict_minute`, `readMinuteOf_written`); a spelling is told by what follows them.
-/

namespace LedgerExport.Time

open Text Reading

namespace Spelling

variable {s rest : List Char}

/-- A blank character is no digit. -/
theorem isBlank_of_isDigit {c : Char} (h : c.isDigit = true) : isBlank c = false := by
  simp only [Char.isDigit, Bool.and_eq_true, decide_eq_true_eq, UInt32.le_iff_toNat_le] at h
  obtain ⟨h0, h9⟩ := h
  have hn : 48 ≤ c.toNat ∧ c.toNat ≤ 57 := ⟨h0, h9⟩
  unfold isBlank
  simp
  omega

/-- A year is written with digits, and with a sign when it is outside 0 to 9999. -/
theorem yearText_cases (y : Int) :
    (0 ≤ y ∧ y ≤ 9999 ∧ yearText y = paddedDigits 4 y.toNat) ∨
      (y < 0 ∧ yearText y = '-' :: paddedDigits 4 y.natAbs) ∨
      (9999 < y ∧ yearText y = '+' :: paddedDigits 4 y.natAbs) := by
  unfold yearText
  split
  · exact .inr (.inl ⟨by assumption, rfl⟩)
  · split
    · exact .inl ⟨by omega, by assumption, by congr 1; omega⟩
    · exact .inr (.inr ⟨by omega, rfl⟩)

/-- A year in four digits is read, whatever follows it. -/
theorem readYear_padded {n : Nat} (h : n ≤ 9999) :
    readYear 4 (paddedDigits 4 n ++ rest) = some ((n : Int), rest) := by
  obtain ⟨c, ds, hds, hc⟩ := paddedDigits_eq_cons 4 n
  have hread : numberUpTo 4 (paddedDigits 4 n ++ rest) = some (n, rest) :=
    numberUpTo_padded (by decide) (by omega)
  rw [hds, List.cons_append] at hread
  rw [hds, List.cons_append, readYear, bind_of_eq (skip_cons (isBlank_of_isDigit hc)),
    bind_of_eq (char?_of_ne (by rintro rfl; cases hc))]
  show (char? '+' >>= _) _ = _
  rw [bind_of_eq (char?_of_ne (by rintro rfl; cases hc))]
  show (numberUpTo 4 >>= _) _ = _
  rw [bind_of_eq hread]
  rfl

/-- A written year is read. -/
theorem readYear_yearText (y : Int) :
    readYear 4 (yearText y ++ '-' :: rest) = some (y, '-' :: rest) := by
  have hminus : ∀ x ∈ ('-' :: rest).head?, x.isDigit = false := by
    rintro x hx
    obtain rfl : '-' = x := Option.some.inj hx
    rfl
  rcases yearText_cases y with ⟨h0, h, hy⟩ | ⟨h, hy⟩ | ⟨h, hy⟩
  · rw [hy, readYear_padded (by omega), Int.toNat_of_nonneg h0]
  · rw [hy, List.cons_append, readYear, bind_of_eq (skip_cons (by decide)), bind_of_eq char?_cons]
    show (number >>= _) _ = _
    rw [bind_of_eq (number_padded hminus)]
    show some (-(y.natAbs : Int), '-' :: rest) = _
    rw [show -(y.natAbs : Int) = y by omega]
  · rw [hy, List.cons_append, readYear, bind_of_eq (skip_cons (by decide)),
      bind_of_eq (char?_of_ne (by decide))]
    show (char? '+' >>= _) _ = _
    rw [bind_of_eq char?_cons]
    show (number >>= _) _ = _
    rw [bind_of_eq (number_padded hminus)]
    show some ((y.natAbs : Int), '-' :: rest) = _
    rw [show (y.natAbs : Int) = y by omega]

/-- A written number of two digits is read. -/
theorem readPair_padded {n : Nat} (h : n < 100) :
    readPair (paddedDigits 2 n ++ rest) = some (n, rest) := by
  obtain ⟨c, ds, hds, hc⟩ := paddedDigits_eq_cons 2 n
  have hread : numberUpTo 2 (paddedDigits 2 n ++ rest) = some (n, rest) :=
    numberUpTo_padded (by decide) h
  rw [hds, List.cons_append] at hread ⊢
  rw [readPair, bind_of_eq (skip_cons (isBlank_of_isDigit hc)), hread]

/-- A date, an hour and a minute as they are written. -/
def minuteChars (d : Date) (hour minute : Nat) : List Char :=
  d.text ++ 'T' :: paddedDigits 2 hour ++ ':' :: paddedDigits 2 minute

/-- The numbers of a date, an hour and a minute have no more than two digits each, but for the
year. -/
structure Short (d : Date) (hour minute : Nat) : Prop where
  /-- The month has two digits. -/
  month : d.month < 100
  /-- The day has two digits. -/
  day : d.day < 100
  /-- The hour has two digits. -/
  hour : hour < 100
  /-- The minute has two digits. -/
  minute : minute < 100

variable {d : Date} {hour minute second n : Nat} {offset : Int} {f : List Char}

/-- A written date is read. -/
theorem readDate_text (hmonth : d.month < 100) (hday : d.day < 100) :
    readDate (d.text ++ rest) = some (d, rest) := by
  rw [readDate, Date.text]
  simp only [List.append_assoc, List.cons_append]
  rw [bind_of_eq (readYear_yearText d.year), bind_of_eq char_cons,
    bind_of_eq (readPair_padded hmonth), bind_of_eq char_cons, bind_of_eq (readPair_padded hday)]
  rfl

/-- A written date, hour and minute are read. -/
theorem readMinuteOf_written (h : Short d hour minute) :
    readMinuteOf (minuteChars d hour minute ++ rest) = some ((d, hour, minute), rest) := by
  rw [readMinuteOf, minuteChars]
  simp only [List.append_assoc, List.cons_append]
  rw [bind_of_eq (readDate_text h.month h.day), bind_of_eq char_cons,
    bind_of_eq (readPair_padded h.hour), bind_of_eq char_cons,
    bind_of_eq (readPair_padded h.minute)]
  rfl

/-- What a strict spelling goes on with behind the seconds. -/
def strictZone (d : Date) (hour minute second fraction : Nat) : Reading Instant := do
  let zulu ← (return (← char? 'Z') || (← char? 'z'))
  let offset ← if zulu then pure 0 else readOffset (char ':')
  instantOf d hour minute second fraction offset

/-- What a strict spelling goes on with behind the minute. -/
def strictSecond (d : Date) (hour minute : Nat) : Reading Instant := do
  char ':'
  let second ← fixedNumber 2
  let fraction ← readFraction
  strictZone d hour minute second fraction

/-- A strict spelling begins with a year of four digits, the month, the day, the hour and the
minute. -/
theorem readStrict_minute (hyear : 0 ≤ d.year ∧ d.year ≤ 9999) (h : Short d hour minute) :
    readStrict (minuteChars d hour minute ++ rest) = strictSecond d hour minute rest := by
  rcases yearText_cases d.year with ⟨-, -, hy⟩ | ⟨hneg, -⟩ | ⟨hlarge, -⟩
  rotate_left
  · omega
  · omega
  rw [minuteChars, Date.text, hy]
  simp only [List.append_assoc, List.cons_append]
  rw [readStrict, bind_of_eq (fixedNumber_padded (by decide) (by omega)), bind_of_eq char_cons,
    bind_of_eq (fixedNumber_padded (by decide) h.month), bind_of_eq char_cons,
    bind_of_eq (fixedNumber_padded (by decide) h.day), bind_of_eq (discard_charIf_cons (by decide)),
    bind_of_eq (fixedNumber_padded (by decide) h.hour), bind_of_eq char_cons,
    bind_of_eq (fixedNumber_padded (by decide) h.minute)]
  rw [show (⟨(d.year.toNat : Int), d.month, d.day⟩ : Date) = d by
    rw [Int.toNat_of_nonneg hyear.1]]
  rfl

/-- A strict spelling does not begin with a sign. -/
theorem readStrict_signed (hyear : d.year < 0 ∨ 9999 < d.year) :
    readStrict (minuteChars d hour minute ++ rest) = none := by
  rw [minuteChars, Date.text, readStrict]
  simp only [List.append_assoc]
  rcases yearText_cases d.year with ⟨h0, h, -⟩ | ⟨-, hy⟩ | ⟨-, hy⟩
  · omega
  · rw [hy, List.cons_append, bind_of_none (fixedNumber_of_not (by decide) (by decide))]
  · rw [hy, List.cons_append, bind_of_none (fixedNumber_of_not (by decide) (by decide))]

/-- The text is read as a fraction of a second wherever it ends. -/
def Fraction (f : List Char) (n : Nat) : Prop :=
  ∀ rest : List Char, (∀ x ∈ rest.head?, x.isDigit = false ∧ x ≠ '.') →
    readFraction (f ++ rest) = some (n, rest)

/-- The point and the first `k` of the nine digits of a fraction of a second. -/
def placesText (k n : Nat) : List Char :=
  if k = 0 then [] else '.' :: paddedDigits k (n / 10 ^ (9 - k))

/-- Without a point there is no fraction. -/
theorem fraction_nil : Fraction [] 0 := by
  intro rest hrest
  have hpoint : char? '.' rest = some (false, rest) := by
    cases rest with
    | nil => rfl
    | cons x rest => exact char?_of_ne (hrest x rfl).2.symm
  rw [List.nil_append, readFraction, bind_of_eq hpoint]
  rfl

/-- A fraction of a second in at most nine digits is read as so much of it. -/
theorem fraction_places {k n : Nat} (hk : k ≤ 9) (h : n < nanosPerSecond) :
    Fraction (placesText k n) (n - n % 10 ^ (9 - k)) := by
  by_cases hzero : k = 0
  · subst hzero
    have hcut : n - n % 10 ^ (9 - 0) = 0 := by
      rw [Nat.mod_eq_of_lt (by exact h), Nat.sub_self]
    rw [hcut, placesText, if_pos rfl]
    exact fraction_nil
  · intro rest hrest
    have hpower : 10 ^ (9 - k) * 10 ^ k = nanosPerSecond := by
      rw [← Nat.pow_add, Nat.sub_add_cancel hk]
      rfl
    have hsmall : n / 10 ^ (9 - k) < 10 ^ k := by
      rw [Nat.div_lt_iff_lt_mul (Nat.pow_pos (by decide)), Nat.mul_comm, hpower]
      exact h
    have hlength : (paddedDigits k (n / 10 ^ (9 - k))).length = k :=
      length_paddedDigits (by omega) hsmall
    have hvalue : nanosOfDigits (paddedDigits k (n / 10 ^ (9 - k))) = n - n % 10 ^ (9 - k) := by
      -- At most nine digits are kept as they are.
      have htake : (paddedDigits k (n / 10 ^ (9 - k))).take 9 =
          paddedDigits k (n / 10 ^ (9 - k)) := List.take_of_length_le (by omega)
      have hdivide := Nat.div_add_mod n (10 ^ (9 - k))
      rw [nanosOfDigits]
      simp only [htake, hlength, ofDigits_paddedDigits]
      show n / 10 ^ (9 - k) * 10 ^ (9 - k) = _
      rw [Nat.mul_comm]
      omega
    have hne : (!(paddedDigits k (n / 10 ^ (9 - k))).isEmpty) = true := by
      obtain ⟨c, ds, hds, -⟩ := paddedDigits_eq_cons k (n / 10 ^ (9 - k))
      rw [hds]
      rfl
    rw [placesText, if_neg hzero, List.cons_append, readFraction, bind_of_eq char?_cons]
    show (run Char.isDigit >>= _) _ = _
    rw [bind_of_eq (run_digits (fun _ => isDigit_of_mem_paddedDigits) fun x hx => (hrest x hx).1),
      hne, hvalue]
    rfl

/-- The fewest of no, three, six or nine digits in which a fraction of a second loses nothing. -/
def FewestPlaces (k n : Nat) : Prop :=
  k ∈ [0, 3, 6, 9] ∧ n % 10 ^ (9 - k) = 0 ∧ ∀ j ∈ [0, 3, 6, 9], n % 10 ^ (9 - j) = 0 → k ≤ j

/-- The shortest text of a fraction of a second has the fewest digits that lose nothing. -/
theorem fractionText_shortest {n : Nat} (h : n < nanosPerSecond) :
    ∃ k, FewestPlaces k n ∧ Precision.shortest.fractionText n = placesText k n := by
  unfold nanosPerSecond at h
  -- The cases are those of the text: what loses nothing in fewer digits comes before.
  show ∃ k, _ ∧ (if n = 0 then [] else if n % 1000000 = 0 then _ else if n % 1000 = 0 then _
    else _) = _
  split
  · refine ⟨0, ⟨by decide, by omega, by omega⟩, rfl⟩
  · split
    · refine ⟨3, ⟨by decide, by omega, ?_⟩, rfl⟩
      simp
      omega
    · split
      · refine ⟨6, ⟨by decide, by omega, ?_⟩, rfl⟩
        simp
        omega
      · refine ⟨9, ⟨by decide, by omega, ?_⟩, by simp [placesText]⟩
        simp
        omega

/-- A strict spelling goes on with the seconds and their fraction. -/
theorem strictSecond_second (hsecond : second < 100) (hf : Fraction f n)
    (hrest : ∀ x ∈ rest.head?, x.isDigit = false ∧ x ≠ '.') :
    strictSecond d hour minute (':' :: paddedDigits 2 second ++ f ++ rest) =
      strictZone d hour minute second n rest := by
  simp only [List.append_assoc, List.cons_append]
  rw [strictSecond, bind_of_eq char_cons, bind_of_eq (fixedNumber_padded (by decide) hsecond),
    bind_of_eq (hf rest hrest)]

/-- A local time that is read at the end of a text is what the whole text is read as. -/
theorem whole_of_instantOf {r : Reading Instant}
    (h : r s = instantOf d hour minute second n offset []) :
    whole r s = Instant.ofLocal? d hour minute second n offset := by
  rw [whole, h, instantOf]
  cases Instant.ofLocal? d hour minute second n offset <;> rfl

/-- A text that is refused is not read whole. -/
theorem whole_of_none {r : Reading Instant} (h : r s = none) : whole r s = none := by
  rw [whole, h]

/-- A time with a year of four digits is a strict spelling. -/
theorem whole_readStrict (hyear : 0 ≤ d.year ∧ d.year ≤ 9999) (h : Short d hour minute)
    (hsecond : second < 100) (hf : Fraction f n) :
    whole readStrict (minuteChars d hour minute ++ (':' :: paddedDigits 2 second ++ f ++ ['Z'])) =
      Instant.ofLocal? d hour minute second n 0 := by
  refine whole_of_instantOf ?_
  rw [readStrict_minute hyear h, strictSecond_second hsecond hf (by simp)]
  rfl

/-- Behind the minutes stand seconds, where an offset would have to stand. -/
theorem readMinuteWithOffset_second (h : Short d hour minute) :
    readMinuteWithOffset (minuteChars d hour minute ++ ':' :: rest) = none := by
  rw [readMinuteWithOffset, bind_of_eq (readMinuteOf_written h)]
  dsimp only
  rw [bind_of_eq (skip_cons (by decide))]
  rfl

/-- A time with seconds and without an offset is read. -/
theorem whole_readSecondOfUtc (h : Short d hour minute) (hsecond : second < 100)
    (hf : Fraction f n) :
    whole readSecondOfUtc (minuteChars d hour minute ++ (':' :: paddedDigits 2 second ++ f)) =
      Instant.ofLocal? d hour minute second n 0 := by
  have hend : readFraction f = some (n, []) := by
    have hread := hf [] (by simp)
    rwa [List.append_nil] at hread
  refine whole_of_instantOf ?_
  rw [readSecondOfUtc, bind_of_eq (readMinuteOf_written h)]
  dsimp only
  rw [List.cons_append, bind_of_eq char_cons, bind_of_eq (readPair_padded hsecond),
    bind_of_eq hend]

/-- A text is trimmed to what stands between the blank characters at its ends. -/
theorem trim_padded {before after : List Char} (hbefore : ∀ c ∈ before, isBlank c = true)
    (hafter : ∀ c ∈ after, isBlank c = true) (hfirst : ∃ c ∈ s.head?, isBlank c = false)
    (hlast : ∃ c ∈ s.getLast?, isBlank c = false) : trim (before ++ s ++ after) = s := by
  have hdrop (w s more : List Char) (hw : ∀ c ∈ w, isBlank c = true)
      (hs : ∃ c ∈ s.head?, isBlank c = false) :
      (w ++ (s ++ more)).dropWhile isBlank = s ++ more := by
    obtain ⟨c, hc, hblank⟩ := hs
    obtain ⟨s, rfl⟩ := List.head?_eq_some_iff.1 hc
    rw [List.dropWhile_append_of_pos hw, List.cons_append,
      List.dropWhile_cons_of_neg (by simp [hblank])]
  have hend := hdrop after.reverse s.reverse [] (by simpa using hafter) (by simpa using hlast)
  rw [List.append_nil] at hend
  rw [trim, trimStart, List.append_assoc, hdrop before s after hbefore hfirst, trimEnd,
    List.reverse_append, hend, List.reverse_reverse]

/-- A written date begins with a digit or a sign, and so not with a blank character. -/
theorem minuteChars_head (rest : List Char) :
    ∃ c ∈ (minuteChars d hour minute ++ rest).head?, isBlank c = false := by
  obtain ⟨c, ds, hds, hc⟩ : ∃ c ds, yearText d.year = c :: ds ∧ isBlank c = false := by
    rcases yearText_cases d.year with ⟨-, -, hy⟩ | ⟨-, hy⟩ | ⟨-, hy⟩
    · obtain ⟨c, ds, hds, hc⟩ := paddedDigits_eq_cons 4 d.year.toNat
      exact ⟨c, ds, hy.trans hds, isBlank_of_isDigit hc⟩
    · exact ⟨_, _, hy, by decide⟩
    · exact ⟨_, _, hy, by decide⟩
  exact ⟨c, by simp [minuteChars, Date.text, hds], hc⟩

end Spelling

namespace Instant

open Spelling

variable {t : Instant}

/-- The instant with another fraction of its second. -/
def withFraction (t : Instant) (n : Nat) (h : n < nanosPerSecond) : Instant where
  seconds := t.seconds
  nanos := if t.nanos < nanosPerSecond then n else nanosPerSecond + n
  inRange := t.inRange
  nanos_lt := by split <;> omega

/-- The parts that are written of an instant that clocks show are those of the instant with the
fraction that is written. -/
theorem IsShown.ofLocal?_parts (ht : t.IsShown) {n : Nat} (h : n < nanosPerSecond) :
    ofLocal? t.date t.hour t.minute t.second n 0 = some (t.withFraction n h) := by
  have hsecond : t.second = (t.seconds % 60).toNat ∧ t.nanos < nanosPerSecond ∨
      t.second = 60 ∧ t.seconds % 60 = 59 ∧ ¬t.nanos < nanosPerSecond := by
    unfold IsShown at ht
    unfold second
    split <;> omega
  have hhour : t.hour < 24 := by unfold hour; omega
  have hminute : t.minute < 60 := by unfold minute; omega
  -- A leap second is counted as the fifty-ninth, with its fraction behind a whole second.
  have hparts : t.date.toDays * 86400 + t.hour * 3600 + t.minute * 60 + (min t.second 59 : Nat) -
      0 * 60 = t.seconds := by
    rw [toDays_date]
    unfold hour minute
    omega
  have hfraction : (if t.second = 60 then nanosPerSecond + n else n) =
      (t.withFraction n h).nanos := by
    show _ = if t.nanos < nanosPerSecond then n else nanosPerSecond + n
    rcases hsecond with ⟨hs, hlt⟩ | ⟨hs, -, hlt⟩
    · rw [if_neg (by omega), if_pos hlt]
    · rw [if_pos hs, if_neg hlt]
  rw [ofLocal?, if_pos ⟨t.valid_date, hhour, hminute, by omega, h⟩]
  dsimp only
  rw [hparts, hfraction]
  have hshown : (t.withFraction n h).nanos < nanosPerSecond ∨
      t.seconds % 60 = 59 ∧ (t.withFraction n h).nanos < 2 * nanosPerSecond := by
    rcases hsecond with ⟨-, hlt⟩ | ⟨-, hend, -⟩
    · exact .inl (Nat.lt_of_le_of_lt (Nat.le_of_eq (if_pos hlt)) h)
    · exact .inr ⟨hend, (t.withFraction n h).nanos_lt⟩
  exact dif_pos ⟨t.inRange, hshown⟩

/-- The numbers of an instant are those of a clock. -/
theorem short (t : Instant) : Short t.date t.hour t.minute := by
  obtain ⟨hmonth, hday⟩ := t.valid_date.le
  exact ⟨by omega, by omega, by unfold hour; omega, by unfold minute; omega⟩

/-- The second of an instant has two digits. -/
theorem second_lt (t : Instant) : t.second < 100 := by
  unfold second
  split <;> omega

/-- A time in Coordinated Universal Time is read as the instant with the fraction that its text has,
whatever the year. -/
theorem IsShown.ofChars?_utc (ht : t.IsShown) {f : List Char} {n : Nat} (h : n < nanosPerSecond)
    (hf : Fraction f n) :
    ofChars? (minuteChars t.date t.hour t.minute ++
      (':' :: paddedDigits 2 t.second ++ f ++ ['Z'])) = some (t.withFraction n h) := by
  generalize hs : minuteChars t.date t.hour t.minute ++
    (':' :: paddedDigits 2 t.second ++ f ++ ['Z']) = s
  have htrim : trim s = s := by
    have hpadded : trim ([] ++ s ++ []) = s :=
      trim_padded (by simp) (by simp) (hs ▸ minuteChars_head _)
        ⟨'Z', by rw [← hs, ← List.append_assoc, List.getLast?_concat]; rfl, by decide⟩
    rwa [List.nil_append, List.append_nil] at hpadded
  have hparts := ht.ofLocal?_parts h
  rw [ofChars?, htrim]
  by_cases hyear : 0 ≤ t.date.year ∧ t.date.year ≤ 9999
  · rw [← hs, whole_readStrict hyear t.short t.second_lt hf, hparts]
    rfl
  · -- Without its last letter the text is one with seconds and without an offset.
    have hzulu : withoutZulu s = minuteChars t.date t.hour t.minute ++
        (':' :: paddedDigits 2 t.second ++ f) := by
      rw [← hs, ← List.append_assoc, withoutZulu, List.getLast?_concat, if_pos rfl,
        List.dropLast_concat]
    have hstrict : whole readStrict s = none := by
      rw [← hs]
      exact whole_of_none (readStrict_signed (by omega))
    have hoffset : whole readMinuteWithOffset s = none := by
      rw [← hs]
      exact whole_of_none (readMinuteWithOffset_second t.short)
    rw [hstrict, hoffset, hzulu, whole_readSecondOfUtc t.short t.second_lt hf, hparts]
    rfl

/-- A written instant that clocks show is read as the instant with the fraction that is written. -/
theorem IsShown.ofChars?_chars (ht : t.IsShown) {p : Precision} {n : Nat} (h : n < nanosPerSecond)
    (hf : Fraction (p.fractionText t.fraction) n) :
    ofChars? (t.chars p) = some (t.withFraction n h) := by
  have hchars : t.chars p = minuteChars t.date t.hour t.minute ++
      (':' :: paddedDigits 2 t.second ++ p.fractionText t.fraction ++ ['Z']) := by
    simp [chars, minuteChars]
  rw [hchars, ht.ofChars?_utc h hf]

/-- The fraction of an instant is that of the second in which it lies. -/
theorem fraction_lt (t : Instant) : t.fraction < nanosPerSecond := Nat.mod_lt _ (by decide)

/-- The instant with its own fraction is the instant. -/
theorem withFraction_fraction (t : Instant) : t.withFraction t.fraction t.fraction_lt = t := by
  refine Instant.ext rfl ?_
  have hnanos := t.nanos_lt
  show (if t.nanos < nanosPerSecond then t.fraction else nanosPerSecond + t.fraction) = t.nanos
  unfold fraction nanosPerSecond at *
  split <;> omega

/-- The text of a fraction of a second that loses nothing is read as the fraction. -/
theorem fraction_shortest (t : Instant) :
    Fraction (Precision.shortest.fractionText t.fraction) t.fraction := by
  obtain ⟨k, ⟨hk, hcut, -⟩, htext⟩ := fractionText_shortest t.fraction_lt
  have hf := fraction_places (k := k) (by simp at hk; omega) t.fraction_lt
  rwa [hcut, Nat.sub_zero, ← htext] at hf

/-- The text of an instant that clocks show is read in a record as the instant. -/
theorem IsShown.ofRecorded?_text (ht : t.IsShown) : ofRecorded? t.text = some t := by
  have hread : readRecorded t.text.toList =
      instantOf t.date t.hour t.minute t.second t.fraction 0 [] := by
    rw [text, written, String.toList_ofList, chars, Date.text]
    simp only [List.append_assoc, List.cons_append]
    rw [readRecorded, bind_of_eq (readYear_yearText _), bind_of_eq (skip_cons (by decide)),
      bind_of_eq char_cons, bind_of_eq (readPair_padded t.short.month),
      bind_of_eq (skip_cons (by decide)), bind_of_eq char_cons,
      bind_of_eq (readPair_padded t.short.day), bind_of_eq (discard_charIf_cons (by decide)),
      bind_of_eq (readPair_padded t.short.hour), bind_of_eq (skip_cons (by decide)),
      bind_of_eq char_cons, bind_of_eq (readPair_padded t.short.minute),
      bind_of_eq (skip_cons (by decide)), bind_of_eq char_cons,
      bind_of_eq (readPair_padded t.second_lt), bind_of_eq (t.fraction_shortest _ (by simp)),
      bind_of_eq (skip_cons (by decide))]
    rfl
  rw [ofRecorded?, whole_of_instantOf hread, ht.ofLocal?_parts t.fraction_lt,
    withFraction_fraction]

/-- The text with three digits behind the point of an instant that clocks show is read as the
instant cut to milliseconds. -/
theorem IsShown.ofText?_written_millis (ht : t.IsShown) :
    ofText? (t.written .millis) = some t.cutToMillis := by
  have hcut : t.fraction - t.fraction % nanosPerMilli < nanosPerSecond :=
    Nat.lt_of_le_of_lt (Nat.sub_le _ _) t.fraction_lt
  have hf : Fraction (Precision.millis.fractionText t.fraction)
      (t.fraction - t.fraction % nanosPerMilli) :=
    fraction_places (k := 3) (by decide) t.fraction_lt
  rw [ofText?, written, String.toList_ofList, ht.ofChars?_chars hcut hf]
  congr 1
  refine Instant.ext rfl ?_
  have hnanos := t.nanos_lt
  show (if t.nanos < nanosPerSecond then t.fraction - t.fraction % nanosPerMilli
    else nanosPerSecond + (t.fraction - t.fraction % nanosPerMilli)) =
      t.nanos - t.nanos % nanosPerMilli
  unfold fraction nanosPerSecond nanosPerMilli at *
  split <;> omega

/-- The text of an instant is read as the instant that clocks show. -/
theorem ofText?_text (t : Instant) : ofText? t.text = some t.shown := by
  rw [text, ← written_shown, ofText?, written, String.toList_ofList,
    t.isShown_shown.ofChars?_chars t.shown.fraction_lt t.shown.fraction_shortest,
    withFraction_fraction]

/-- The text of an instant is read in a record as the instant that clocks show. -/
theorem ofRecorded?_text (t : Instant) : ofRecorded? t.text = some t.shown := by
  rw [text, ← written_shown]
  exact t.isShown_shown.ofRecorded?_text

/-- The text of an instant with three digits behind the point is read as the instant that clocks
show, cut to milliseconds. -/
theorem ofText?_written_millis (t : Instant) :
    ofText? (t.written .millis) = some t.shown.cutToMillis := by
  rw [← written_shown]
  exact t.isShown_shown.ofText?_written_millis

/-- The characters of an instant with the first `k` of the nine digits of its fraction. -/
def charsTo (t : Instant) (k : Nat) : List Char :=
  t.date.text ++ 'T' :: paddedDigits 2 t.hour ++ ':' :: paddedDigits 2 t.minute ++
    ':' :: paddedDigits 2 t.second ++ placesText k t.fraction ++ ['Z']

/-- The text of an instant, which has the fewest digits in its fraction that lose nothing, is read
as the instant that clocks show, and the text with three digits as that instant cut to milliseconds.
Clocks show the instant itself unless it lies in a leap second within a minute. -/
theorem written_reads_back (t : Instant) :
    (∃ k, FewestPlaces k t.fraction ∧ t.text = .ofList (t.charsTo k)) ∧
      ofText? t.text = some t.shown ∧
      t.written .millis = .ofList (t.charsTo 3) ∧
      ofText? (t.written .millis) = some t.shown.cutToMillis ∧
      (t.shown = t ↔ t.nanos < nanosPerSecond ∨ t.seconds % 60 = 59) := by
  obtain ⟨k, hk, htext⟩ := fractionText_shortest t.fraction_lt
  refine ⟨⟨k, hk, ?_⟩, t.ofText?_text, rfl, t.ofText?_written_millis, shown_eq_self_iff⟩
  rw [text, written, chars, htext, charsTo]

/-- A leap second behind the fifth second of a minute is not read back. -/
theorem leapingWithin_misread :
    ofText? leapingWithin.text ≠ some leapingWithin ∧
      ofText? (leapingWithin.written .millis) ≠ some leapingWithin.cutToMillis := by
  rw [ofText?_text, ofText?_written_millis, shown_leapingWithin]
  decide

end Instant

end LedgerExport.Time
