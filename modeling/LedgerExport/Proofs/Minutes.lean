import LedgerExport.Proofs.Spelling

/-!
# The spellings of a minute

The seconds of a full minute may be left out or written as zeros, and behind them may stand an
offset, the letter of Coordinated Universal Time, or nothing. `minute_spellings` says that whichever
of these spellings is chosen, and whatever blank characters surround it, the instant is the same: it
is the one at which clocks with that offset show the minute.

Which of the four readings accepts a spelling depends on whether it has seconds and on its zone
(`ofChars?_minute`). A strict spelling has both. Without seconds there is a reading for an offset
and one for none, and without a zone only the readings in Coordinated Universal Time are left.
-/

namespace LedgerExport.Time

open Text Reading Spelling

/-- What may stand behind a local time. -/
inductive Zone where
  /-- Nothing, for Coordinated Universal Time. -/
  | absent
  /-- The letter of Coordinated Universal Time. -/
  | zulu
  /-- The hours and minutes by which local clocks are ahead, or behind with a minus. -/
  | offset (minus : Bool) (hours : Fin 24) (minutes : Fin 60)
deriving DecidableEq, Repr

namespace Zone

/-- The characters of a zone. -/
def chars : Zone → List Char
  | absent => []
  | zulu => ['Z']
  | offset minus hours minutes =>
    (if minus then '-' else '+') :: paddedDigits 2 hours ++ ':' :: paddedDigits 2 minutes

/-- The minutes by which local clocks are ahead of Coordinated Universal Time. -/
def ahead : Zone → Int
  | absent | zulu => 0
  | offset minus hours minutes =>
    if minus then -(hours * 60 + minutes : Int) else hours * 60 + minutes

/-- No zone holds a blank character. -/
theorem isBlank_of_mem {c : Char} (zone : Zone) (h : c ∈ zone.chars) : isBlank c = false := by
  cases zone with
  | absent => cases h
  | zulu =>
    obtain rfl := List.mem_singleton.1 h
    decide
  | offset minus hours minutes =>
    simp only [chars, List.cons_append, List.mem_cons, List.mem_append] at h
    rcases h with rfl | h | rfl | h
    · cases minus <;> decide
    · exact isBlank_of_isDigit (isDigit_of_mem_paddedDigits h)
    · decide
    · exact isBlank_of_isDigit (isDigit_of_mem_paddedDigits h)

/-- No clock is a day ahead or behind. -/
theorem natAbs_ahead_lt (zone : Zone) : zone.ahead.natAbs < 1440 := by
  cases zone with
  | absent | zulu => decide
  | offset minus hours minutes =>
    have hhours := hours.isLt
    have hminutes := minutes.isLt
    unfold ahead
    split <;> omega

/-- No zone begins with a colon, a digit, a point or a blank character. -/
theorem head_chars {c : Char} (zone : Zone) (h : c ∈ zone.chars.head?) :
    c.isDigit = false ∧ c ≠ '.' ∧ c ≠ ':' ∧ isBlank c = false := by
  cases zone with
  | absent => cases h
  | zulu =>
    obtain rfl : 'Z' = c := Option.some.inj h
    decide
  | offset minus hours minutes =>
    obtain rfl : (if minus then '-' else '+') = c := Option.some.inj h
    cases minus <;> decide

end Zone

namespace Spelling

/-- The ways to write that no second of a minute has passed. -/
inductive NoSeconds : List Char → Prop where
  /-- The seconds are left out. -/
  | absent : NoSeconds []
  /-- The seconds are zero. -/
  | whole : NoSeconds [':', '0', '0']
  /-- The seconds are zero, with a fraction of zeros. -/
  | fraction (n : Nat) : NoSeconds (':' :: '0' :: '0' :: '.' :: List.replicate (n + 1) '0')

variable {d : Date} {hour minute : Nat} {seconds s rest : List Char} {zone : Zone}

/-- A fraction of zeros is read as none. -/
theorem fraction_zeros (n : Nat) : Fraction ('.' :: List.replicate (n + 1) '0') 0 := by
  intro rest hrest
  have hdigits : ∀ x ∈ List.replicate (n + 1) '0', x.isDigit = true := fun x hx => by
    rw [List.eq_of_mem_replicate hx]
    rfl
  have hvalue : nanosOfDigits (List.replicate (n + 1) '0') = 0 := by
    rw [nanosOfDigits]
    simp only [List.take_replicate, ofDigits, Nat.ofDigitChars_replicate_zero, Nat.mul_zero,
      Nat.zero_mul]
  rw [List.cons_append, readFraction, bind_of_eq char?_cons]
  show (run Char.isDigit >>= _) _ = _
  rw [bind_of_eq (run_digits hdigits fun x hx => (hrest x hx).1), hvalue]
  rfl

/-- Seconds that are written are two zeros and a fraction that is zero. -/
theorem NoSeconds.eq_nil_or (h : NoSeconds seconds) :
    seconds = [] ∨ ∃ f, seconds = ':' :: paddedDigits 2 0 ++ f ∧ Fraction f 0 := by
  cases h with
  | absent => exact .inl rfl
  | whole => exact .inr ⟨[], rfl, fraction_nil⟩
  | fraction n => exact .inr ⟨_, rfl, fraction_zeros n⟩

/-- A time without its zone consists of digits and of the marks between them. -/
theorem mem_minuteChars {c : Char} (h : NoSeconds seconds)
    (hc : c ∈ minuteChars d hour minute ++ seconds) :
    c.isDigit = true ∨ c ∈ ['-', '+', 'T', ':', '.'] := by
  have hdigits {w n : Nat} (hc : c ∈ paddedDigits w n) :
      c.isDigit = true ∨ c ∈ ['-', '+', 'T', ':', '.'] := .inl (isDigit_of_mem_paddedDigits hc)
  have hyear (hc : c ∈ yearText d.year) : c.isDigit = true ∨ c ∈ ['-', '+', 'T', ':', '.'] := by
    rcases yearText_cases d.year with ⟨-, -, hy⟩ | ⟨-, hy⟩ | ⟨-, hy⟩ <;> rw [hy] at hc
    · exact hdigits hc
    · rcases List.mem_cons.1 hc with rfl | hc
      · decide
      · exact hdigits hc
    · rcases List.mem_cons.1 hc with rfl | hc
      · decide
      · exact hdigits hc
  have hseconds (hc : c ∈ seconds) : c.isDigit = true ∨ c ∈ ['-', '+', 'T', ':', '.'] := by
    cases h with
    | absent => cases hc
    | whole =>
      simp only [List.mem_cons, List.not_mem_nil, or_false] at hc
      rcases hc with rfl | rfl | rfl <;> decide
    | fraction n =>
      simp only [List.mem_cons, List.mem_replicate] at hc
      rcases hc with rfl | rfl | rfl | rfl | ⟨-, rfl⟩ <;> decide
  simp only [minuteChars, Date.text, List.mem_append, List.mem_cons] at hc
  rcases hc with ((((hc | rfl | hc) | rfl | hc) | rfl | hc) | rfl | hc) | hc
  all_goals first | exact hyear hc | exact hdigits hc | exact hseconds hc | decide

/-- A list that is not empty has a last member. -/
theorem exists_last {P : Char → Prop} (hne : s ≠ []) (h : ∀ c ∈ s, P c) : ∃ c ∈ s.getLast?, P c :=
  ⟨s.getLast hne, List.getLast?_eq_some_getLast hne, h _ (List.getLast_mem hne)⟩

/-- A text that ends with a zone does not end with a blank character. -/
theorem exists_last_zone (s : List Char) (hzone : zone ≠ .absent) :
    ∃ c ∈ (s ++ zone.chars).getLast?, isBlank c = false := by
  have hne : zone.chars ≠ [] := by
    cases zone with
    | absent => exact absurd rfl hzone
    | zulu | offset => exact nofun
  obtain ⟨c, hc, hblank⟩ := exists_last hne fun c hc => zone.isBlank_of_mem hc
  exact ⟨c, by rw [List.getLast?_append, Option.mem_def.1 hc]; rfl, hblank⟩

/-- A text that does not end with the letter of Coordinated Universal Time is kept. -/
theorem withoutZulu_eq (h : ∃ c ∈ s.getLast?, c ≠ 'Z') : withoutZulu s = s := by
  obtain ⟨c, hc, hne⟩ := h
  rw [withoutZulu, Option.mem_def.1 hc]
  exact if_neg fun heq => hne (Option.some.inj heq)

/-- A written offset is read, whatever its colon is taken by. -/
theorem readOffset_written {between : Reading Unit} {minus : Bool} {hours : Fin 24}
    {minutes : Fin 60}
    (hbetween : ∀ more : List Char, (∀ x ∈ more.head?, x.isDigit = true) →
      between (':' :: more) = some ((), more)) :
    readOffset between ((Zone.offset minus hours minutes).chars ++ rest) =
      some ((Zone.offset minus hours minutes).ahead, rest) := by
  have hhours := hours.isLt
  have hminutes := minutes.isLt
  have hdigit : ∀ x ∈ (paddedDigits 2 minutes ++ rest).head?, x.isDigit = true := by
    obtain ⟨c, ds, hds, hc⟩ := paddedDigits_eq_cons 2 minutes
    rw [hds]
    rintro x hx
    obtain rfl : c = x := Option.some.inj hx
    exact hc
  have hsign (more : List Char) :
      readMinus ((if minus then '-' else '+') :: more) = some (minus, more) := by
    cases minus <;> rfl
  rw [Zone.chars]
  simp only [List.append_assoc, List.cons_append]
  rw [readOffset, bind_of_eq (hsign _),
    bind_of_eq (fixedNumber_padded (by decide) (show hours.val < 10 ^ 2 by omega)),
    bind_of_eq (hbetween _ hdigit),
    bind_of_eq (fixedNumber_padded (by decide) (show minutes.val < 10 ^ 2 by omega))]
  rw [show (decide (minutes.val < 60) && decide (hours.val < 24)) = true by simp [hhours, hminutes]]
  rfl

/-- A colon is taken where a loose colon may stand. -/
theorem looseColon_cons (hrest : ∀ x ∈ rest.head?, x.isDigit = true) :
    looseColon (':' :: rest) = some ((), rest) := by
  have hrun : run (fun c => c == ':' || isBlank c) ([':'] ++ rest) = some ([':'], rest) :=
    run_digits (by simp) fun x hx => by
      have hdigit := hrest x hx
      have hcolon : x ≠ ':' := by
        rintro rfl
        cases hdigit
      simp [hcolon, isBlank_of_isDigit hdigit]
  show ((run (fun c => c == ':' || isBlank c) ([':'] ++ rest)).bind fun x => some ((), x.2)) = _
  rw [hrun]
  rfl

/-! ## The four readings -/

/-- A strict spelling has seconds. -/
theorem whole_readStrict_minute (hyear : 0 ≤ d.year ∧ d.year ≤ 9999) (h : Short d hour minute)
    (zone : Zone) : whole readStrict (minuteChars d hour minute ++ zone.chars) = none := by
  refine whole_of_none ?_
  rw [readStrict_minute hyear h, strictSecond]
  refine bind_of_none ?_
  cases hzone : zone.chars with
  | nil => rfl
  | cons c more =>
    obtain ⟨-, -, hcolon, -⟩ := zone.head_chars (c := c) (by rw [hzone]; rfl)
    show (charIf (· == ':') (c :: more)).bind _ = none
    rw [charIf, if_neg (by simpa using hcolon)]
    rfl

/-- A strict spelling has a zone. -/
theorem whole_readStrict_second (hyear : 0 ≤ d.year ∧ d.year ≤ 9999) (h : Short d hour minute)
    (hf : Fraction f 0) :
    whole readStrict (minuteChars d hour minute ++ (':' :: paddedDigits 2 0 ++ f)) = none := by
  refine whole_of_none ?_
  rw [readStrict_minute hyear h, ← List.append_nil (':' :: paddedDigits 2 0 ++ f),
    strictSecond_second (by decide) hf (by simp)]
  rfl

/-- The zone of a strict spelling gives the offset of the local time. -/
theorem strictZone_chars (hzone : zone ≠ .absent) : strictZone d hour minute second n zone.chars =
    instantOf d hour minute second n zone.ahead [] := by
  cases zone with
  | absent => exact absurd rfl hzone
  | zulu => rfl
  | offset minus hours minutes =>
    have hread : readOffset (char ':') ((Zone.offset minus hours minutes).chars ++ []) =
        some ((Zone.offset minus hours minutes).ahead, []) :=
      readOffset_written fun more _ => char_cons
    rw [List.append_nil] at hread
    have hzulu : ((do return (← char? 'Z') || (← char? 'z')) : Reading Bool)
        (Zone.offset minus hours minutes).chars =
          some (false, (Zone.offset minus hours minutes).chars) := by
      cases minus <;> rfl
    rw [strictZone, bind_of_eq hzulu]
    exact bind_of_eq hread

/-- With seconds and a zone a time is a strict spelling. -/
theorem whole_readStrict_zone (hyear : 0 ≤ d.year ∧ d.year ≤ 9999) (h : Short d hour minute)
    (hf : Fraction f 0) (hzone : zone ≠ .absent) :
    whole readStrict (minuteChars d hour minute ++ (':' :: paddedDigits 2 0 ++ f ++ zone.chars)) =
      Instant.ofLocal? d hour minute 0 0 zone.ahead := by
  refine whole_of_instantOf ?_
  rw [readStrict_minute hyear h, strictSecond_second (by decide) hf fun x hx =>
    ⟨(zone.head_chars hx).1, (zone.head_chars hx).2.1⟩, strictZone_chars hzone]

/-- Without seconds an offset may follow. -/
theorem whole_readMinuteWithOffset (h : Short d hour minute) (minus : Bool) (hours : Fin 24)
    (minutes : Fin 60) :
    whole readMinuteWithOffset
        (minuteChars d hour minute ++ (Zone.offset minus hours minutes).chars) =
      Instant.ofLocal? d hour minute 0 0 (Zone.offset minus hours minutes).ahead := by
  have hread : readOffset looseColon ((Zone.offset minus hours minutes).chars ++ []) =
      some ((Zone.offset minus hours minutes).ahead, []) :=
    readOffset_written fun more hmore => looseColon_cons hmore
  rw [List.append_nil] at hread
  have hskip : skip isBlank (Zone.offset minus hours minutes).chars =
      some ((), (Zone.offset minus hours minutes).chars) :=
    skip_cons (by cases minus <;> decide)
  refine whole_of_instantOf ?_
  rw [readMinuteWithOffset, bind_of_eq (readMinuteOf_written h)]
  dsimp only
  rw [bind_of_eq hskip, bind_of_eq hread]

/-- Without an offset a time does not end with one. -/
theorem whole_readMinuteWithOffset_none (h : Short d hour minute)
    (hzone : zone = .absent ∨ zone = .zulu) :
    whole readMinuteWithOffset (minuteChars d hour minute ++ zone.chars) = none := by
  refine whole_of_none ?_
  rw [readMinuteWithOffset, bind_of_eq (readMinuteOf_written h)]
  rcases hzone with rfl | rfl <;> rfl

/-- Without seconds and without an offset a time is read as one that ends with the minute. -/
theorem whole_readMinuteOfUtc (h : Short d hour minute) :
    whole readSecondOfUtc (minuteChars d hour minute) = none ∧
      whole readMinuteOfUtc (minuteChars d hour minute) =
        Instant.ofLocal? d hour minute 0 0 0 := by
  have hminute : readMinuteOf (minuteChars d hour minute ++ []) = some ((d, hour, minute), []) :=
    readMinuteOf_written h
  rw [List.append_nil] at hminute
  constructor
  · refine whole_of_none ?_
    rw [readSecondOfUtc, bind_of_eq hminute]
    rfl
  · refine whole_of_instantOf ?_
    rw [readMinuteOfUtc, bind_of_eq hminute]

/-- A spelling of a minute has no blank character at its ends. -/
theorem trim_spelling (h : NoSeconds seconds) {before after : List Char}
    (hbefore : ∀ c ∈ before, isBlank c = true) (hafter : ∀ c ∈ after, isBlank c = true) :
    trim (before ++ (minuteChars d hour minute ++ seconds ++ zone.chars) ++ after) =
      minuteChars d hour minute ++ seconds ++ zone.chars := by
  refine trim_padded hbefore hafter ?_ ?_
  · rw [List.append_assoc]
    exact minuteChars_head _
  · refine exists_last (by simp [minuteChars]) fun c hc => ?_
    rcases List.mem_append.1 hc with hc | hc
    · rcases mem_minuteChars h hc with hdigit | hmark
      · exact isBlank_of_isDigit hdigit
      · simp only [List.mem_cons, List.not_mem_nil, or_false] at hmark
        rcases hmark with rfl | rfl | rfl | rfl | rfl <;> decide
    · exact zone.isBlank_of_mem hc

/-- Without its zone a text is the same with and without the letter of Coordinated Universal
Time. -/
theorem withoutZulu_spelling (h : NoSeconds seconds) (hzone : zone = .absent ∨ zone = .zulu) :
    withoutZulu (minuteChars d hour minute ++ seconds ++ zone.chars) =
      minuteChars d hour minute ++ seconds := by
  rcases hzone with rfl | rfl
  · show withoutZulu (_ ++ []) = _
    rw [List.append_nil]
    refine withoutZulu_eq (exists_last (by simp [minuteChars]) fun c hc => ?_)
    rintro rfl
    rcases mem_minuteChars h hc with hdigit | hmark
    · cases hdigit
    · simp at hmark
  · rw [Zone.chars, withoutZulu, List.getLast?_concat, if_pos rfl, List.dropLast_concat]

end Spelling

namespace Instant

open Spelling

variable {d : Date} {hour minute : Nat} {seconds : List Char} {zone : Zone} {t : Instant}

/-- Each spelling of a minute is read as the instant at which clocks with its offset show it. -/
theorem ofChars?_minute (hyear : 0 ≤ d.year ∧ d.year ≤ 9999) (h : Short d hour minute)
    (hseconds : NoSeconds seconds) (ht : ofLocal? d hour minute 0 0 zone.ahead = some t)
    {before after : List Char} (hbefore : ∀ c ∈ before, isBlank c = true)
    (hafter : ∀ c ∈ after, isBlank c = true) :
    ofChars? (before ++ (minuteChars d hour minute ++ seconds ++ zone.chars) ++ after) =
      some t := by
  have hzulu (hzone : zone = .absent ∨ zone = .zulu) :
      withoutZulu (minuteChars d hour minute ++ seconds ++ zone.chars) =
        minuteChars d hour minute ++ seconds := withoutZulu_spelling hseconds hzone
  rw [ofChars?, trim_spelling hseconds hbefore hafter]
  obtain rfl | ⟨f, rfl, hf⟩ := hseconds.eq_nil_or
  · -- Without seconds the zone decides between the loose readings.
    rw [List.append_nil] at hzulu ⊢
    rw [whole_readStrict_minute hyear h]
    cases zone with
    | absent | zulu =>
      rw [whole_readMinuteWithOffset_none h (by simp), hzulu (by simp),
        (whole_readMinuteOfUtc h).1, (whole_readMinuteOfUtc h).2, show (0 : Int) = _ from rfl]
      exact ht
    | offset minus hours minutes =>
      rw [whole_readMinuteWithOffset h, ht]
      rfl
  · -- With seconds a zone makes a strict spelling.
    by_cases hzone : zone = .absent
    · subst hzone
      rw [hzulu (.inl rfl)]
      show (whole readStrict (_ ++ []) <|> whole readMinuteWithOffset (_ ++ []) <|> _) = _
      rw [List.append_nil, whole_readStrict_second hyear h hf, List.cons_append,
        whole_of_none (readMinuteWithOffset_second h), ← List.cons_append,
        whole_readSecondOfUtc h (by decide) hf]
      show (ofLocal? d hour minute 0 0 0 <|> _) = _
      rw [show ofLocal? d hour minute 0 0 0 = some t from ht]
      rfl
    · rw [List.append_assoc, whole_readStrict_zone hyear h hf hzone, ht]
      rfl

/-- The years of four digits lie far from the ends of the calendar. -/
theorem toDays_bounds (hyear : 0 ≤ d.year ∧ d.year ≤ 9999) (hd : d.Valid) :
    -800000 ≤ d.toDays ∧ d.toDays ≤ 4000000 := by
  obtain ⟨-, hday⟩ := hd.le
  unfold Date.toDays
  dsimp only
  split <;> omega

/-- Clocks with any offset show each minute of these years. -/
theorem ofLocal?_minute (hyear : 0 ≤ d.year ∧ d.year ≤ 9999) (hd : d.Valid) (hhour : hour < 24)
    (hminute : minute < 60) (zone : Zone) :
    ∃ t : Instant, ofLocal? d hour minute 0 0 zone.ahead = some t ∧
      t.seconds = d.toDays * 86400 + hour * 3600 + minute * 60 - zone.ahead * 60 ∧
      t.nanos = 0 := by
  have hdays := toDays_bounds hyear hd
  have hahead := zone.natAbs_ahead_lt
  have hrange : firstSecond ≤ d.toDays * 86400 + hour * 3600 + minute * 60 - zone.ahead * 60 ∧
      d.toDays * 86400 + hour * 3600 + minute * 60 - zone.ahead * 60 ≤ lastSecond := by
    unfold firstSecond lastSecond
    omega
  refine ⟨⟨_, 0, hrange, by decide⟩, ?_, rfl, rfl⟩
  have hseconds : d.toDays * 86400 + hour * 3600 + minute * 60 + (min 0 59 : Nat) -
      zone.ahead * 60 = d.toDays * 86400 + hour * 3600 + minute * 60 - zone.ahead * 60 := by
    omega
  rw [ofLocal?, if_pos ⟨hd, hhour, hminute, by decide, by decide⟩]
  dsimp only
  rw [hseconds]
  exact dif_pos ⟨hrange, .inl (by decide)⟩

/-- The spellings of a minute that differ in the seconds that are left out, written as zeros or
written with a fraction of zeros, and in the blank characters around them, are read as one instant.
It lies before the minute in Coordinated Universal Time by the offset, and is that minute itself
when the spelling has no zone, has the letter for it or has an offset of zero. -/
theorem minute_spellings (hyear : 0 ≤ d.year ∧ d.year ≤ 9999) (hd : d.Valid) (hhour : hour < 24)
    (hminute : minute < 60) :
    ∃ u : Instant,
      (u.date = d ∧ u.hour = hour ∧ u.minute = minute ∧ u.second = 0 ∧ u.nanos = 0) ∧
      ∀ zone : Zone, ∃ t : Instant,
        (t.seconds = u.seconds - zone.ahead * 60 ∧ t.nanos = 0 ∧ (zone.ahead = 0 → t = u)) ∧
        ∀ seconds before after : List Char, NoSeconds seconds →
          (∀ c ∈ before, isBlank c = true) → (∀ c ∈ after, isBlank c = true) →
          ofText? (.ofList (before ++ (minuteChars d hour minute ++ seconds ++ zone.chars) ++
            after)) = some t := by
  obtain ⟨hmonth, hday⟩ := hd.le
  have hshort : Short d hour minute := ⟨by omega, by omega, by omega, by omega⟩
  obtain ⟨u, -, hu, hnanos⟩ := ofLocal?_minute hyear hd hhour hminute .absent
  rw [show Zone.ahead .absent = 0 from rfl] at hu
  refine ⟨u, ⟨?_, ?_, ?_, ?_, hnanos⟩, fun zone => ?_⟩
  · have hdays : u.seconds / 86400 = d.toDays := by omega
    rw [date, hdays, Date.ofDays_toDays hd]
  · unfold Instant.hour
    omega
  · unfold Instant.minute
    omega
  · rw [second, hnanos, if_pos (by decide)]
    omega
  · obtain ⟨t, ht, hseconds, htnanos⟩ := ofLocal?_minute hyear hd hhour hminute zone
    refine ⟨t, ⟨by omega, htnanos, fun hzero => Instant.ext (by omega) (by omega)⟩, ?_⟩
    intro seconds before after hspelt hbefore hafter
    rw [ofText?, String.toList_ofList, ofChars?_minute hyear hshort hspelt ht hbefore hafter]

/-- The first midnight of the year 0 on clocks that are almost a day ahead lies in the year
before. -/
theorem minute_spellings_newYear : ∃ t : Instant,
    t.date = ⟨-1, 12, 31⟩ ∧ t.hour = 0 ∧ t.minute = 1 ∧
    ofText? " 0000-01-01T00:00+23:59" = some t ∧
    ofText? "0000-01-01T00:00:00+23:59" = some t ∧
    ofText? "0000-01-01T00:00:00.000+23:59\n" = some t := by
  obtain ⟨u, ⟨hdate, hhour, hminute, hsecond, hnanos⟩, hzone⟩ :=
    @minute_spellings ⟨0, 1, 1⟩ 0 0 (by decide) (by decide) (by decide) (by decide)
  obtain ⟨t, ⟨ht, -, -⟩, hread⟩ := hzone (.offset false 23 59)
  have hu : u.seconds = -62167219200 := by
    have hdays := u.toDays_date
    rw [hdate] at hdays
    have hfirst : Date.toDays ⟨0, 1, 1⟩ = -719528 := by decide
    unfold Instant.hour at hhour
    unfold Instant.minute at hminute
    unfold second at hsecond
    omega
  have ht : t.seconds = -62167305540 := by
    rw [ht, hu]
    decide
  have hblank {s : List Char} (hs : s.all isBlank = true) : ∀ c ∈ s, isBlank c = true :=
    List.all_eq_true.1 hs
  refine ⟨t, ?_, ?_, ?_, ?_, ?_, ?_⟩
  · rw [date, ht]
    decide
  · rw [Instant.hour, ht]
    decide
  · rw [Instant.minute, ht]
    decide
  · rw [← hread [] [' '] [] .absent (hblank rfl) (hblank rfl)]
    congr 1
  · rw [← hread _ [] [] .whole (hblank rfl) (hblank rfl)]
    congr 1
  · rw [← hread _ [] ['\n'] (.fraction 2) (hblank rfl) (hblank rfl)]
    congr 1

end Instant

end LedgerExport.Time
