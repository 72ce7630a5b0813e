import LedgerExport.Proofs.Keys
import LedgerExport.Proofs.Spelling

/-!
# The keys of moved objects

A moved object keeps its name below the root: behind the folder of an hour when it is archived, and
behind the folder of quarantine otherwise. `moved_keys_eq_iff` says that no two objects get in each
other's way there. The name may hold slashes and digits itself, so that what has to be shown is that
the folders can be told from the name: each number of `hourFolders` ends at the first slash
(`append_slash_inj`), and a year in four digits or more is read back from its text. That the date of
a day gives the day back is a matter of the calendar (`Instant.toDays_date`).
-/

namespace LedgerExport

open Text Time Reading

/-! ## Folders are told from names -/

/-- A part without a slash ends at the first slash. -/
theorem Text.append_slash_inj {a b s s' : List Char} (ha : '/' ∉ a) (hb : '/' ∉ b)
    (h : a ++ '/' :: s = b ++ '/' :: s') : a = b ∧ s = s' := by
  have hcut {a s : List Char} (ha : '/' ∉ a) :
      run (· != '/') (a ++ '/' :: s) = some (a, '/' :: s) :=
    run_digits (fun x hx => bne_iff_ne.2 fun hslash => ha (hslash ▸ hx)) (by simp)
  have hrun := congrArg (run (· != '/')) h
  rw [hcut ha, hcut hb] at hrun
  obtain ⟨hparts, hrest⟩ := Prod.mk.inj (Option.some.inj hrun)
  exact ⟨hparts, (List.cons.inj hrest).2⟩

/-- Padded digits hold no slash. -/
theorem Text.slash_not_mem_paddedDigits (w n : Nat) : '/' ∉ paddedDigits w n := fun h => by
  have hdigit := isDigit_of_mem_paddedDigits h
  cases hdigit

/-- Padded digits tell their number. -/
theorem Text.paddedDigits_inj {w n n' : Nat} (h : paddedDigits w n = paddedDigits w n') :
    n = n' := by
  rw [← ofDigits_paddedDigits w n, h, ofDigits_paddedDigits]

namespace Time

/-- The text of a year holds no slash. -/
theorem slash_not_mem_yearText (y : Int) : '/' ∉ yearText y := by
  rcases Spelling.yearText_cases y with ⟨-, -, hy⟩ | ⟨-, hy⟩ | ⟨-, hy⟩ <;> rw [hy]
  · exact slash_not_mem_paddedDigits _ _
  · exact List.not_mem_cons_of_ne_of_not_mem (by decide) (slash_not_mem_paddedDigits _ _)
  · exact List.not_mem_cons_of_ne_of_not_mem (by decide) (slash_not_mem_paddedDigits _ _)

/-- The text of a year tells the year, whatever its sign and however many digits it has. -/
theorem yearText_inj {y y' : Int} (h : yearText y = yearText y') : y = y' := by
  have hread : readYear 4 (yearText y ++ ['-']) = some (y, ['-']) :=
    Spelling.readYear_yearText y
  rw [h, Spelling.readYear_yearText] at hread
  exact (Prod.mk.inj (Option.some.inj hread)).1.symm

namespace Instant

/-- The instants lie in the same hour of Coordinated Universal Time: as many whole hours lie between
them and the beginning of 1970. -/
def SameHour (t u : Instant) : Prop := t.seconds / 3600 = u.seconds / 3600

/-- Instants of the same hour have the same date and the same hour of the day. -/
theorem sameHour_iff {t u : Instant} : t.SameHour u ↔ t.date = u.date ∧ t.hour = u.hour := by
  unfold SameHour
  constructor
  · intro h
    have hday : t.seconds / 86400 = u.seconds / 86400 := by omega
    refine ⟨congrArg Date.ofDays hday, ?_⟩
    unfold hour
    omega
  · rintro ⟨hdate, hhour⟩
    -- The date counts the days.
    have hday := congrArg Date.toDays hdate
    rw [toDays_date, toDays_date] at hday
    unfold hour at hhour
    omega

end Instant

end Time

namespace Layout

variable {l : Layout} {key key' : String} {stop stop' : Instant}

/-- The folders of an hour tell the hour and where they end. -/
theorem hourFolders_append_inj {s s' : List Char}
    (h : hourFolders stop ++ s = hourFolders stop' ++ s') : stop.SameHour stop' ∧ s = s' := by
  unfold hourFolders at h
  simp only [List.append_assoc, List.cons_append, List.nil_append] at h
  obtain ⟨hyear, h⟩ :=
    append_slash_inj (slash_not_mem_yearText _) (slash_not_mem_yearText _) h
  obtain ⟨hmonth, h⟩ :=
    append_slash_inj (slash_not_mem_paddedDigits _ _) (slash_not_mem_paddedDigits _ _) h
  obtain ⟨hday, h⟩ :=
    append_slash_inj (slash_not_mem_paddedDigits _ _) (slash_not_mem_paddedDigits _ _) h
  obtain ⟨hhour, h⟩ :=
    append_slash_inj (slash_not_mem_paddedDigits _ _) (slash_not_mem_paddedDigits _ _) h
  have hdate : stop.date = stop'.date := by
    rcases hd : stop.date with ⟨year, month, day⟩
    rcases hd' : stop'.date with ⟨year', month', day'⟩
    rw [hd, hd'] at hyear hmonth hday
    dsimp only at hyear hmonth hday
    rw [yearText_inj hyear, paddedDigits_inj hmonth, paddedDigits_inj hday]
  exact ⟨Instant.sameHour_iff.2 ⟨hdate, paddedDigits_inj hhour⟩, h⟩

/-- Instants of the same hour have the same folder. -/
theorem partition_eq_of_sameHour (h : stop.SameHour stop') :
    l.partition stop = l.partition stop' := by
  obtain ⟨hdate, hhour⟩ := Instant.sameHour_iff.1 h
  rw [partition, partition, hourFolders, hourFolders, hdate, hhour]

/-- Two keys behind the prefix are archived to the same key just when they are the same and the
times lie in the same hour. -/
theorem archiveKey_eq_iff_sameHour (h : l.keyPrefix.toList <+: key.toList)
    (h' : l.keyPrefix.toList <+: key'.toList) :
    l.archiveKey key stop = l.archiveKey key' stop' ↔ key = key' ∧ stop.SameHour stop' := by
  have hname {key : String} (h : l.keyPrefix.toList <+: key.toList) :
      ∃ name : String, key = l.keyPrefix ++ name := by
    obtain ⟨name, hname⟩ := h
    refine ⟨.ofList name, ?_⟩
    rw [← String.toList_inj, String.toList_append, String.toList_ofList, hname]
  obtain ⟨name, rfl⟩ := hname h
  obtain ⟨name', rfl⟩ := hname h'
  constructor
  · intro heq
    rw [archiveKey_append, archiveKey_append, partition, partition, ← String.toList_inj] at heq
    simp only [String.toList_append, String.toList_ofList, List.append_assoc,
      List.append_cancel_left_eq] at heq
    obtain ⟨hhour, hnames⟩ := hourFolders_append_inj heq
    rw [String.toList_inj.1 hnames]
    exact ⟨rfl, hhour⟩
  · rintro ⟨heq, hhour⟩
    rw [heq, archiveKey, archiveKey, partition_eq_of_sameHour hhour]

/-- No two objects get the same key by moving, unless they are one object that is archived in one
hour or put into quarantine. -/
theorem moved_keys_eq_iff (h : l.keyPrefix.toList <+: key.toList)
    (h' : l.keyPrefix.toList <+: key'.toList) (stop stop' : Instant) :
    (l.archiveKey key stop = l.archiveKey key' stop' ↔ key = key' ∧ stop.SameHour stop') ∧
      (l.quarantineKey key = l.quarantineKey key' ↔ key = key') ∧
      l.archiveKey key stop ≠ l.quarantineKey key' :=
  ⟨archiveKey_eq_iff_sameHour h h', ⟨quarantineKey_inj, fun heq => heq ▸ rfl⟩,
    archiveKey_ne_quarantineKey l key key' stop⟩

/-- A key that holds the folders of an hour itself, and the times around the end of year 9999. -/
theorem moved_keys_of_lastHour :
    let l := Layout.ofRoot "p" "p/completed/"
    let key := "p/10000/01/01/00/a"
    let last : Instant := ⟨253402300799, 1999999999, by decide, by decide⟩
    let first : Instant := ⟨253402300800, 0, by decide, by decide⟩
    l.archiveKey key last ≠ l.archiveKey "p/a" first ∧
      l.archiveKey key last ≠ l.archiveKey key first ∧
      l.archiveKey key last = l.archiveKey key ⟨253402297200, 0, by decide, by decide⟩ := by
  intro l key last first
  have hkey : l.keyPrefix.toList <+: key.toList := by decide
  have ha : l.keyPrefix.toList <+: "p/a".toList := by decide
  refine ⟨fun heq => ?_, fun heq => ?_, ?_⟩
  · exact absurd ((moved_keys_eq_iff hkey ha last first).1.1 heq).1 (by decide)
  · have hhour := ((moved_keys_eq_iff hkey hkey last first).1.1 heq).2
    exact absurd hhour (by unfold Instant.SameHour; decide)
  · exact (moved_keys_eq_iff hkey hkey last _).1.2 ⟨rfl, by unfold Instant.SameHour; decide⟩

end Layout

end LedgerExport
