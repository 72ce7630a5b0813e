import LedgerExport.Time.Written

/-!
# Leap seconds

Clocks show a leap second only at the end of a minute, as second 60. An instant may lie in a leap
second behind any other second as well. Its text then names the second that comes next, and so it is
the text of another, later instant. `shown` is the instant that a text names: it is the instant
itself unless that lies in a leap second within a minute (`shown_eq_self_iff`), it is never earlier
(`le_shown`), and both have one text (`chars_shown`).
-/

namespace LedgerExport.Time.Instant

variable {t : Instant}

/-- The instant does not lie in a leap second within a minute, but at most in one at its end. -/
def IsShown (t : Instant) : Prop := t.nanos < nanosPerSecond ∨ t.seconds % 60 = 59

instance : DecidablePred IsShown := fun t =>
  inferInstanceAs (Decidable (t.nanos < nanosPerSecond ∨ t.seconds % 60 = 59))

/-- The instant that clocks show. A leap second within a minute is shown as the second that comes
next. -/
def shown (t : Instant) : Instant :=
  if h : t.IsShown then t
  else {
    seconds := t.seconds + 1
    nanos := t.nanos - nanosPerSecond
    inRange := by
      have hrange := t.inRange
      -- The last second of the calendar is the last one of its minute.
      unfold IsShown at h
      unfold firstSecond lastSecond at *
      omega
    nanos_lt := Nat.lt_of_le_of_lt (Nat.sub_le ..) t.nanos_lt }

/-- Half a second into a leap second behind the fifth second of the year 2024. -/
def leapingWithin : Instant := ⟨1704067205, 1500000000, by decide, midLeap_lt⟩

/-- What clocks show is the instant itself, unless it lies in a leap second within a minute. Then it
lies in the second that comes next, as far behind its beginning. -/
theorem shown_cases (t : Instant) :
    (t.IsShown ∧ t.shown = t) ∨
      (nanosPerSecond ≤ t.nanos ∧ t.seconds % 60 ≠ 59 ∧
        t.shown.seconds = t.seconds + 1 ∧ t.shown.nanos = t.nanos - nanosPerSecond) := by
  by_cases h : t.IsShown
  · exact .inl ⟨h, dif_pos h⟩
  · obtain ⟨hleap, hwithin⟩ := not_or.1 h
    rw [shown, dif_neg h]
    exact .inr ⟨Nat.le_of_not_lt hleap, hwithin, rfl, rfl⟩

/-- Only instants that clocks show are shown as themselves. -/
theorem shown_eq_self_iff : t.shown = t ↔ t.IsShown := by
  rcases t.shown_cases with ⟨ht, hself⟩ | ⟨hleap, hwithin, hseconds, -⟩
  · exact iff_of_true hself ht
  · refine iff_of_false (fun hself => ?_) (not_or.2 ⟨Nat.not_lt_of_le hleap, hwithin⟩)
    rw [hself] at hseconds
    omega

/-- What clocks show is an instant that they show. -/
theorem isShown_shown (t : Instant) : t.shown.IsShown := by
  rcases t.shown_cases with ⟨ht, hself⟩ | ⟨-, -, -, hnanos⟩
  · rwa [hself]
  · have hlt := t.nanos_lt
    exact .inl (by omega)

/-- Clocks show no instant that is earlier. -/
theorem le_shown (t : Instant) : t ≤ t.shown := by
  rcases t.shown_cases with ⟨-, hself⟩ | ⟨-, -, hseconds, -⟩
  · rw [hself]
    exact .inr ⟨rfl, Nat.le_refl _⟩
  · exact .inl (by omega)

/-- Whether clocks show an instant does not depend on the digits behind the millisecond. -/
theorem isShown_cutToMillis_iff : t.cutToMillis.IsShown ↔ t.IsShown := by
  unfold IsShown cutToMillis nanosPerSecond nanosPerMilli
  dsimp only
  omega

/-- What clocks show may be cut before or after. -/
theorem shown_cutToMillis (t : Instant) : t.cutToMillis.shown = t.shown.cutToMillis := by
  rcases t.shown_cases with ⟨ht, hself⟩ | ⟨hleap, hwithin, hseconds, hnanos⟩
  · rw [hself, shown_eq_self_iff, isShown_cutToMillis_iff]
    exact ht
  · rcases t.cutToMillis.shown_cases with ⟨hcut, -⟩ | ⟨-, -, hcutSeconds, hcutNanos⟩
    · have ht := isShown_cutToMillis_iff.1 hcut
      exact absurd ht (not_or.2 ⟨Nat.not_lt_of_le hleap, hwithin⟩)
    · refine Instant.ext (hcutSeconds.trans hseconds.symm) (hcutNanos.trans ?_)
      simp only [cutToMillis, hnanos]
      unfold nanosPerSecond nanosPerMilli at *
      omega

/-! ## What a text names -/

/-- The instant that clocks show lies in the same minute. -/
theorem seconds_shown_div (t : Instant) : t.shown.seconds / 60 = t.seconds / 60 := by
  rcases t.shown_cases with ⟨-, hself⟩ | ⟨-, hwithin, hseconds, -⟩
  · rw [hself]
  · omega

/-- The day is that of the instant that clocks show. -/
@[simp]
theorem date_shown (t : Instant) : t.shown.date = t.date := by
  have hminute := t.seconds_shown_div
  unfold date
  congr 1
  omega

/-- The hour is that of the instant that clocks show. -/
@[simp]
theorem hour_shown (t : Instant) : t.shown.hour = t.hour := by
  have hminute := t.seconds_shown_div
  unfold hour
  omega

/-- The minute is that of the instant that clocks show. -/
@[simp]
theorem minute_shown (t : Instant) : t.shown.minute = t.minute := by
  have hminute := t.seconds_shown_div
  unfold minute
  omega

/-- The second is that of the instant that clocks show. -/
@[simp]
theorem second_shown (t : Instant) : t.shown.second = t.second := by
  rcases t.shown_cases with ⟨-, hself⟩ | ⟨hleap, hwithin, hseconds, hnanos⟩
  · rw [hself]
  · have hlt := t.nanos_lt
    rw [second, second, if_neg (Nat.not_lt_of_le hleap), if_pos (by omega)]
    omega

/-- The fraction is that of the instant that clocks show. -/
@[simp]
theorem fraction_shown (t : Instant) : t.shown.fraction = t.fraction := by
  rcases t.shown_cases with ⟨-, hself⟩ | ⟨hleap, -, -, hnanos⟩
  · rw [hself]
  · rw [fraction, fraction, hnanos]
    unfold nanosPerSecond at *
    omega

/-- The characters of an instant are those of the instant that clocks show. -/
@[simp]
theorem chars_shown (p : Precision) (t : Instant) : t.shown.chars p = t.chars p := by
  simp only [chars, date_shown, hour_shown, minute_shown, second_shown, fraction_shown]

/-- The written instant is that of the instant that clocks show. -/
theorem written_shown (p : Precision) (t : Instant) : t.shown.written p = t.written p := by
  rw [written, written, chars_shown]

/-- Clocks show the sixth second instead of a leap second behind the fifth. -/
theorem shown_leapingWithin :
    leapingWithin.shown = ⟨1704067206, 500000000, by decide, by decide⟩ := by
  decide

end LedgerExport.Time.Instant
