import Mathlib.Data.List.DropRight
import Mathlib.Data.List.Infix
import LedgerExport.Layout
import LedgerExport.Marker
import LedgerExport.World.Store

/-!
# Keys

Which keys a listing one level deep names, which of them are markers of starts, and where their
copies lie. A key in quarantine is never listed itself (`not_lists_quarantineKey`). That no archived
key is listed either is a property of the layout (`Layout.Apart`): just those layouts have it whose
prefix lies outside the folders of all hours (`Layout.apart_iff`), as it does whenever it lies
outside the folder of completed exports (`Layout.apart_of_not_prefix`). The copies of two listed
objects never have the same key (`archiveKey_inj`, `quarantineKey_inj`,
`archiveKey_ne_quarantineKey`).
-/

namespace LedgerExport

namespace Text

variable {α : Type} [BEq α] [LawfulBEq α]

/-- What is left when a prefix is dropped is what stands behind it. -/
theorem dropPrefix?_eq_some_iff {p s r : List α} : dropPrefix? p s = some r ↔ s = p ++ r := by
  induction p generalizing s with
  | nil => simp [dropPrefix?, eq_comm]
  | cons a p ih =>
    cases s with
    | nil => simp [dropPrefix?]
    | cons b s =>
      rw [dropPrefix?, List.cons_append, List.cons.injEq]
      split
      · rename_i hab
        rw [ih, eq_of_beq hab]
        simp
      · rename_i hab
        simp only [reduceCtorEq, false_iff, not_and]
        exact fun hba => absurd (beq_iff_eq.2 hba.symm) hab

/-- What stands before the first occurrence of a word is followed by the word. -/
theorem before?_eq_some {word s b : List α} (h : before? word s = some b) : b ++ word <+: s := by
  induction s generalizing b with
  | nil =>
    rw [before?] at h
    split at h <;> cases h
    simp_all
  | cons c s ih =>
    rw [before?] at h
    split at h
    · rename_i hword
      cases h
      exact List.isPrefixOf_iff_prefix.1 hword
    · obtain ⟨b', hb', rfl⟩ := Option.map_eq_some_iff.1 h
      exact List.cons_prefix_cons.2 ⟨rfl, ih hb'⟩

/-- A word occurs in a text when it is a part of it. -/
theorem occursIn_iff {word s : List α} : occursIn word s = true ↔ word <:+: s := by
  constructor
  · intro h
    obtain ⟨b, hb⟩ := Option.isSome_iff_exists.1 h
    exact (List.suffix_append b word).isInfix.trans (before?_eq_some hb).isInfix
  · intro h
    rw [occursIn]
    induction s with
    | nil => simp [before?, List.eq_nil_of_infix_nil h]
    | cons c s ih =>
      rw [before?]
      split
      · rfl
      · rename_i hword
        rw [List.infix_cons_iff] at h
        rcases h with h | h
        · exact absurd (List.isPrefixOf_iff_prefix.2 h) hword
        · rw [Option.isSome_map, ih h]

omit [BEq α] [LawfulBEq α] in
/-- Where a text is cut does not change when characters follow at which it is not cut. -/
theorem cutAfterLast_append {p : α → Bool} {s r : List α} (h : ∀ c ∈ r, p c = false) :
    cutAfterLast p (s ++ r) = ((cutAfterLast p s).1, (cutAfterLast p s).2 ++ r) := by
  -- The part behind the last cut takes in all that follows.
  have htail : ((s ++ r).reverse.takeWhile (!p ·)).reverse =
      (s.reverse.takeWhile (!p ·)).reverse ++ r := by
    rw [List.reverse_append, List.takeWhile_append_of_pos (by simpa using h), List.reverse_append,
      List.reverse_reverse]
  have hle : (s.reverse.takeWhile (!p ·)).reverse.length ≤ s.length := by
    simpa using (List.takeWhile_prefix (l := s.reverse) (!p ·)).length_le
  unfold cutAfterLast
  rw [htail, Prod.mk.injEq]
  refine ⟨?_, rfl⟩
  rw [List.take_append_of_le_length (by simp only [List.length_append]; omega)]
  congr 1
  simp only [List.length_append]
  omega

omit [BEq α] [LawfulBEq α] in
/-- Nothing follows when a text is cut at its end. -/
theorem cutAfterLast_snoc {p : α → Bool} {s : List α} {c : α} (h : p c = true) :
    cutAfterLast p (s ++ [c]) = (s ++ [c], []) := by
  simp [cutAfterLast, h]

end Text

open Text Time World

/-! ## Listed keys -/

/-- A slash occurs in a text when it is one of its characters. -/
theorem Text.occursIn_slash {s : List Char} : occursIn "/".toList s = true ↔ '/' ∈ s := by
  rw [occursIn_iff]
  exact List.singleton_infix_iff '/' s

/-- A name without a slash belongs to what stands behind the last slash. -/
theorem Text.cutAfterLast_name {s name : List Char} (h : '/' ∉ name) :
    cutAfterLast (· == '/') (s ++ name) =
      ((cutAfterLast (· == '/') s).1, (cutAfterLast (· == '/') s).2 ++ name) := by
  refine cutAfterLast_append fun c hc => ?_
  rw [beq_eq_false_iff_ne]
  exact fun heq => h (heq ▸ hc)

/-- What follows the last cut is the longest end in which nothing is cut. -/
theorem Text.cutAfterLast_snd {α : Type} (p : α → Bool) (s : List α) :
    (cutAfterLast p s).2 = s.rtakeWhile (!p ·) := rfl

/-- The two parts of a text that is cut make up the text. -/
theorem Text.cutAfterLast_append_self {α : Type} (p : α → Bool) (s : List α) :
    (cutAfterLast p s).1 ++ (cutAfterLast p s).2 = s := by
  have hsuffix : (cutAfterLast p s).2 <:+ s := List.rtakeWhile_suffix _ s
  calc (cutAfterLast p s).1 ++ (cutAfterLast p s).2
      = s.take (s.length - (cutAfterLast p s).2.length) ++
          s.drop (s.length - (cutAfterLast p s).2.length) := by
        rw [← List.suffix_iff_eq_drop.1 hsuffix]
        rfl
    _ = s := List.take_append_drop _ s

/-- Behind the last slash there is none. -/
theorem Text.slash_not_mem_cutAfterLast (s : List Char) :
    '/' ∉ (cutAfterLast (· == '/') s).2 := by
  rw [cutAfterLast_snd]
  intro hslash
  have hother := List.mem_rtakeWhile_imp hslash
  simp at hother

/-- A listing one level deep names the keys that have no slash behind the prefix. -/
theorem World.Store.lists_iff {keyPrefix key : String} :
    Store.lists keyPrefix (some "/") key = true ↔
      ∃ name : String, key = keyPrefix ++ name ∧ '/' ∉ name.toList := by
  unfold Store.lists
  constructor
  · intro h
    split at h
    · cases h
    rename_i rest hrest
    refine ⟨.ofList rest, ?_, ?_⟩
    · rw [← String.toList_inj, String.toList_append, String.toList_ofList]
      exact dropPrefix?_eq_some_iff.1 hrest
    · rw [String.toList_ofList, ← occursIn_slash]
      exact fun hslash => by rw [Option.all_some, hslash] at h; cases h
  · rintro ⟨name, rfl, hslash⟩
    rw [dropPrefix?_eq_some_iff.2 (String.toList_append (s := keyPrefix) (t := name))]
    dsimp only
    rw [Option.all_some, Bool.not_eq_true', Bool.eq_false_iff]
    exact fun hocc => hslash (occursIn_slash.1 hocc)

/-- A key that is listed is none that is not. -/
theorem World.Store.ne_of_lists {keyPrefix key key' : String} {delimiter : Option String}
    (h : lists keyPrefix delimiter key = true) (h' : lists keyPrefix delimiter key' = false) :
    key ≠ key' := by
  rintro rfl
  rw [h'] at h
  cases h

namespace Marker

/-- The marker that an object is, by what stands before the word in the object's name. -/
theorem classify?_eq_some_iff {key : String} {m : Marker} :
    let cut := cutAfterLast (· == '/') key.toList
    let group (base : List Char) : String := .ofList (withoutDots (cut.1 ++ base))
    classify? key = some m ↔
      (∃ base, before? MarkerKind.started.word.toList cut.2 = some base ∧
        m = ⟨key, .started, group base⟩) ∨
      before? MarkerKind.started.word.toList cut.2 = none ∧
        ∃ base, before? MarkerKind.completed.word.toList cut.2 = some base ∧
          m = ⟨key, .completed, group base⟩ := by
  intro cut group
  have h : classify? key =
      (((before? MarkerKind.started.word.toList cut.2).map fun base =>
        (⟨key, .started, group base⟩ : Marker)) <|>
      (before? MarkerKind.completed.word.toList cut.2).map fun base =>
        ⟨key, .completed, group base⟩) := by
    simp [classify?, groupOf?, Function.comp_def, cut, group]
  simp [h, eq_comm (a := m)]

/-- A marker that an object is has the object's key. -/
theorem key_of_classify? {key : String} {m : Marker} (h : classify? key = some m) :
    m.key = key := by
  rcases classify?_eq_some_iff.1 h with ⟨base, -, rfl⟩ | ⟨-, base, -, rfl⟩ <;> rfl

/-- The object with the key is a marker of a start. -/
def IsStart (key : String) : Prop := ∃ m, classify? key = some m ∧ m.kind = .started

/-- An object is a marker of a start when the word for it occurs behind the last slash. -/
theorem isStart_iff {key : String} :
    IsStart key ↔ MarkerKind.started.word.toList <:+: (cutAfterLast (· == '/') key.toList).2 := by
  rw [← occursIn_iff, occursIn, Option.isSome_iff_exists]
  constructor
  · rintro ⟨m, hm, hkind⟩
    rcases classify?_eq_some_iff.1 hm with ⟨base, hbase, -⟩ | ⟨-, base, -, rfl⟩
    · exact ⟨base, hbase⟩
    · cases hkind
  · rintro ⟨base, hbase⟩
    exact ⟨_, classify?_eq_some_iff.2 (.inl ⟨base, hbase, rfl⟩), rfl⟩

end Marker

/-! ## Keys of copies -/

namespace Layout

variable {l : Layout} {key name : String} {stop : Instant}

/-- The folder of an hour ends with a slash. -/
theorem partition_eq (l : Layout) (stop : Instant) :
    ∃ parts : List Char, (l.partition stop).toList =
      (l.root ++ "completed/").toList ++ parts ++ ['/'] := by
  refine ⟨yearText stop.date.year ++ '/' :: paddedDigits 2 stop.date.month ++ '/' ::
    paddedDigits 2 stop.date.day ++ '/' :: paddedDigits 2 stop.hour, ?_⟩
  simp [partition, hourFolders]

/-- An archived key has its part behind the prefix in the folder of an hour. -/
theorem archiveKey_append (l : Layout) (name : String) (stop : Instant) :
    l.archiveKey (l.keyPrefix ++ name) stop = l.partition stop ++ name := by
  unfold archiveKey relative
  rw [dropPrefix?_eq_some_iff.2 (String.toList_append (s := l.keyPrefix) (t := name)),
    Option.getD_some, String.ofList_toList]

/-- A key in the folder of an hour is cut behind the folder. -/
theorem cut_partition (l : Layout) (hname : '/' ∉ name.toList) (stop : Instant) :
    cutAfterLast (· == '/') (l.partition stop ++ name).toList =
      ((l.partition stop).toList, name.toList) := by
  obtain ⟨parts, hparts⟩ := l.partition_eq stop
  rw [String.toList_append, cutAfterLast_name hname, hparts, cutAfterLast_snoc rfl, List.nil_append]

/-- The folder in which the prefix lies: all of it up to its last slash. -/
def directory (l : Layout) : String := .ofList (cutAfterLast (· == '/') l.keyPrefix.toList).1

/-- The prefix lies in the folder of an hour when it is that folder with a name behind it. -/
theorem directory_eq_iff : l.directory = l.partition stop ↔
    ∃ name : String, '/' ∉ name.toList ∧ l.keyPrefix = l.partition stop ++ name := by
  constructor
  · intro h
    refine ⟨.ofList (cutAfterLast (· == '/') l.keyPrefix.toList).2, ?_, ?_⟩
    · rw [String.toList_ofList]
      exact slash_not_mem_cutAfterLast _
    · rw [← h, directory, ← String.ofList_append, cutAfterLast_append_self, String.ofList_toList]
  · rintro ⟨name, hname, hbegins⟩
    rw [directory, hbegins, cut_partition l hname, String.ofList_toList]

/-- An archived key is listed just when the prefix lies in the folder of the hour, and the part of
it behind the folder begins the name of the key as well. -/
theorem lists_archiveKey_iff (hname : '/' ∉ name.toList) :
    Store.lists l.keyPrefix (some "/") (l.archiveKey (l.keyPrefix ++ name) stop) = true ↔
      ∃ base rest : String, l.keyPrefix = l.partition stop ++ base ∧ name = base ++ rest := by
  rw [archiveKey_append, Store.lists_iff]
  constructor
  · rintro ⟨rest, heq, hrest⟩
    -- Both sides are cut behind their last slash.
    have hcut := cut_partition l hname stop
    rw [heq, String.toList_append, cutAfterLast_name hrest, Prod.mk.injEq] at hcut
    obtain ⟨hfolder, hends⟩ := hcut
    refine ⟨.ofList (cutAfterLast (· == '/') l.keyPrefix.toList).2, rest, ?_, ?_⟩
    · rw [← String.toList_inj, String.toList_append, ← hfolder, String.toList_ofList,
        cutAfterLast_append_self]
    · rw [← String.toList_inj, String.toList_append, String.toList_ofList, hends]
  · rintro ⟨base, rest, hbegins, rfl⟩
    refine ⟨rest, ?_, fun hslash => hname ?_⟩
    · rw [hbegins, String.append_assoc]
    · rw [String.toList_append]
      exact List.mem_append_right _ hslash

/-- No key is archived to where it is listed just when the prefix lies outside the folder of the
hour. -/
theorem unlisted_iff (l : Layout) (stop : Instant) :
    (∀ key, Store.lists l.keyPrefix (some "/") key = true →
      Store.lists l.keyPrefix (some "/") (l.archiveKey key stop) = false) ↔
    l.directory ≠ l.partition stop := by
  constructor
  · intro h hdirectory
    obtain ⟨base, hbase, hbegins⟩ := directory_eq_iff.1 hdirectory
    -- What the prefix has behind the folder is a name that is listed before and after.
    have harchived := h (l.keyPrefix ++ base) (Store.lists_iff.2 ⟨base, rfl, hbase⟩)
    rw [(lists_archiveKey_iff hbase).2 ⟨base, "", hbegins, by simp⟩] at harchived
    cases harchived
  · intro h key hkey
    obtain ⟨name, rfl, hname⟩ := Store.lists_iff.1 hkey
    rw [Bool.eq_false_iff]
    intro harchived
    obtain ⟨base, rest, hbegins, rfl⟩ := (lists_archiveKey_iff hname).1 harchived
    refine h (directory_eq_iff.2 ⟨base, fun hslash => hname ?_, hbegins⟩)
    rw [String.toList_append]
    exact List.mem_append_left _ hslash

/-- No archived key is listed. -/
def Apart (l : Layout) : Prop := ∀ key stop, Store.lists l.keyPrefix (some "/") key = true →
  Store.lists l.keyPrefix (some "/") (l.archiveKey key stop) = false

/-- No archived key is listed just when the prefix lies outside the folders of all hours. -/
theorem apart_iff : l.Apart ↔ ∀ stop, l.directory ≠ l.partition stop :=
  ⟨fun h stop => (unlisted_iff l stop).1 fun key => h key stop,
    fun h key stop => (unlisted_iff l stop).2 (h stop) key⟩

/-- No archived key is listed when the prefix does not lie in the folder of completed exports. -/
theorem apart_of_not_prefix (h : ¬(l.root ++ "completed/").toList <+: l.keyPrefix.toList) :
    l.Apart := by
  refine apart_iff.2 fun stop hdirectory => h ?_
  obtain ⟨name, -, hbegins⟩ := directory_eq_iff.1 hdirectory
  have hfolder : l.keyPrefix =
      l.root ++ "completed/" ++ (.ofList (hourFolders stop) ++ name) := by
    rw [hbegins, partition, ← String.append_assoc]
  rw [hfolder, String.toList_append (s := l.root ++ "completed/")]
  exact List.prefix_append _ _

/-- No archived key is listed when the prefix is the root of the archive. -/
theorem apart_ofRoot_self (keyPrefix : String) : (ofRoot keyPrefix keyPrefix).Apart := by
  refine apart_of_not_prefix fun h => ?_
  -- The folder of completed exports has a longer name than the prefix.
  have hlength := h.length_le
  simp only [ofRoot, String.toList_append, String.toList_ofList, List.length_append] at hlength
  have hfolder : keyPrefix.toList.length ≤ (folder keyPrefix.toList).length := by
    unfold folder
    split <;> simp
  have hword : "completed/".toList.length = 10 := rfl
  omega

/-- No key of quarantine is listed if the key itself was. -/
theorem not_lists_quarantineKey (h : Store.lists l.keyPrefix (some "/") key = true) :
    Store.lists l.keyPrefix (some "/") (l.quarantineKey key) = false := by
  rw [Bool.eq_false_iff]
  intro hquarantined
  obtain ⟨name, rfl, hname⟩ := Store.lists_iff.1 h
  obtain ⟨name', heq, hname'⟩ := Store.lists_iff.1 hquarantined
  -- The key in quarantine has a slash more than the prefix.
  have hcount := congrArg (fun s => List.count '/' s.toList) heq
  have hword : List.count '/' "failed/".toList = 1 := rfl
  simp only [quarantineKey, String.toList_append, List.count_append, List.count_eq_zero.2 hname,
    List.count_eq_zero.2 hname', hword] at hcount
  omega

/-- A key in quarantine is no archived key. -/
theorem archiveKey_ne_quarantineKey (l : Layout) (key key' : String) (stop : Instant) :
    l.archiveKey key stop ≠ l.quarantineKey key' := by
  intro heq
  rw [← String.toList_inj] at heq
  -- The names of their folders begin with different letters.
  simp [archiveKey, partition, quarantineKey] at heq

/-- An archived key has just the name behind its last slash. -/
theorem cut_archiveKey (hname : '/' ∉ name.toList) (stop : Instant) :
    (cutAfterLast (· == '/') (l.archiveKey (l.keyPrefix ++ name) stop).toList).2 = name.toList := by
  rw [archiveKey_append, cut_partition l hname]

/-- A listed key is archived as itself just when the prefix is the folder of the hour. -/
theorem archiveKey_eq_self_iff (h : Store.lists l.keyPrefix (some "/") key = true) :
    l.archiveKey key stop = key ↔ l.keyPrefix = l.partition stop := by
  obtain ⟨name, rfl, -⟩ := Store.lists_iff.1 h
  rw [archiveKey_append, String.append_left_inj, eq_comm]

/-- An archived key is one of a marker of a start only if the key itself is. -/
theorem isStart_of_archiveKey (h : Store.lists l.keyPrefix (some "/") key = true)
    (harchived : Marker.IsStart (l.archiveKey key stop)) : Marker.IsStart key := by
  obtain ⟨name, rfl, hname⟩ := Store.lists_iff.1 h
  -- The archived key has just the name behind its last slash, where the key has it at the end.
  rw [Marker.isStart_iff] at harchived ⊢
  rw [cut_archiveKey hname] at harchived
  rw [String.toList_append, cutAfterLast_name hname]
  exact harchived.trans (List.suffix_append _ _).isInfix

/-- Two listed keys have different archived keys, whichever hours they are archived in. -/
theorem archiveKey_inj {key' : String} {stop' : Instant}
    (h : Store.lists l.keyPrefix (some "/") key = true)
    (h' : Store.lists l.keyPrefix (some "/") key' = true)
    (heq : l.archiveKey key stop = l.archiveKey key' stop') : key = key' := by
  obtain ⟨name, rfl, hname⟩ := Store.lists_iff.1 h
  obtain ⟨name', rfl, hname'⟩ := Store.lists_iff.1 h'
  have hcut := cut_archiveKey (l := l) hname stop
  rw [heq, cut_archiveKey hname', String.toList_inj] at hcut
  rw [hcut]

/-- Two keys have different keys in quarantine. -/
theorem quarantineKey_inj {key' : String} (heq : l.quarantineKey key = l.quarantineKey key') :
    key = key' := by
  rw [← String.toList_inj] at heq ⊢
  simpa [quarantineKey] using heq

end Layout

end LedgerExport
