import LedgerExport.Proofs.Keys

/-!
# The groups of markers

The two markers of an export share what stands before the word in the object's name, the directory
included. `classify?_exact` says that a key is a marker just when the part behind its last slash
holds a word, and that its group is the directory with what stands before the first occurrence of
the word, without the dots at the end of that. So two markers whose names are a base, a dot and a
word have the same group just when they have the same directory and the same base.

The first occurrence is the one meant because no end of a word agrees with a dot and a word behind
it (`not_prefix_of_suffix`): an occurrence lies within the base or behind it (`behind_of_prefix`).
-/

namespace LedgerExport

namespace Text

variable {α : Type} {word s t b b' : List α}

/-- The text `b` stands before the first occurrence of the word. -/
structure StandsBefore (word s b : List α) : Prop where
  /-- The word follows. -/
  follows : b ++ word <+: s
  /-- The word does not occur earlier. -/
  le_length : ∀ b', b' ++ word <+: s → b.length ≤ b'.length

/-- A text is cut at the first occurrence of a word. -/
theorem before?_eq_some_iff [BEq α] [LawfulBEq α] :
    before? word s = some b ↔ StandsBefore word s b := by
  have hfirst {b : List α} (h : before? word s = some b) : StandsBefore word s b := by
    refine ⟨before?_eq_some h, ?_⟩
    induction s generalizing b with
    | nil =>
      intro b' hb'
      have hnil := List.prefix_nil.1 (before?_eq_some h)
      rw [(List.append_eq_nil_iff.1 hnil).1]
      exact Nat.zero_le _
    | cons c s ih =>
      intro b' hb'
      rw [before?] at h
      split at h
      · cases h
        exact Nat.zero_le _
      · rename_i hword
        obtain ⟨b, hb, rfl⟩ := Option.map_eq_some_iff.1 h
        -- The word does not occur at the front, and so another occurrence is one behind `c`.
        cases b' with
        | nil => exact absurd (List.isPrefixOf_iff_prefix.2 hb') hword
        | cons c' b' => exact Nat.succ_le_succ (ih hb b' (List.cons_prefix_cons.1 hb').2)
  refine ⟨hfirst, fun h => ?_⟩
  obtain ⟨b₀, hb₀⟩ : ∃ b₀, before? word s = some b₀ :=
    Option.isSome_iff_exists.1 (occursIn_iff.2
      ((List.suffix_append b word).isInfix.trans h.follows.isInfix))
  have h₀ := hfirst hb₀
  have hlength := Nat.le_antisymm (h₀.le_length b h.follows) (h.le_length b₀ h₀.follows)
  have hprefix := (List.prefix_append b₀ word).trans h₀.follows
  rw [hb₀, List.prefix_of_prefix_length_le hprefix ((List.prefix_append b word).trans h.follows)
    hlength.le |>.eq_of_length hlength]

/-- A word occurs behind a text in which it does not occur when no end of the word begins what
follows. -/
theorem behind_of_prefix (hb : ¬ word <:+: b) (ht : ∀ y, y <:+ word → y ≠ [] → ¬ y <+: t)
    (h : b' ++ word <+: b ++ t) : ∃ c, b' = b ++ c ∧ c ++ word <+: t := by
  rcases List.prefix_or_prefix_of_prefix ((List.prefix_append b' word).trans h)
    (List.prefix_append b t) with ⟨x, rfl⟩ | ⟨c, rfl⟩
  · -- The word begins within `b`: it ends there, or behind it with an end of its own.
    rw [List.append_assoc] at h
    have hx : word <+: x ++ t := (List.prefix_append_right_inj b').1 h
    rcases List.prefix_or_prefix_of_prefix hx (List.prefix_append x t) with hword | ⟨y, rfl⟩
    · exact absurd (hword.isInfix.trans (List.suffix_append b' x).isInfix) hb
    · by_cases hy : y = []
      · rw [hy, List.append_nil] at hb
        exact absurd (List.suffix_append b' x).isInfix hb
      · exact absurd ((List.prefix_append_right_inj x).1 hx) (ht y (List.suffix_append x y) hy)
  · rw [List.append_assoc] at h
    exact ⟨c, rfl, (List.prefix_append_right_inj b).1 h⟩

end Text

open Text

namespace MarkerKind

/-- No end of a word begins a dot and a word behind it. -/
theorem not_prefix_of_suffix (kind kind' : MarkerKind) (y : List Char)
    (hy : y <:+ kind'.word.toList) (hne : y ≠ []) : ¬ y <+: '.' :: kind.word.toList := by
  have htails : ∀ kind kind' : MarkerKind, ∀ y ∈ kind'.word.toList.tails, y ≠ [] →
      ¬ y <+: '.' :: kind.word.toList := by
    rintro (_ | _) (_ | _) <;> decide
  exact htails kind kind' y ((List.mem_tails _ _).2 hy) hne

/-- Neither word holds the other. -/
theorem eq_of_infix {kind kind' : MarkerKind} (h : kind'.word.toList <:+: '.' :: kind.word.toList) :
    kind' = kind := by
  revert h
  cases kind <;> cases kind' <;> decide

end MarkerKind

namespace Marker

/-- The text is empty or ends with a slash. -/
def IsDirectory (d : String) : Prop := d = "" ∨ ∃ above, d = above ++ "/"

/-- The text can stand before the dot in the names of both markers of an export. -/
structure IsBase (b : String) : Prop where
  /-- It has no slash. -/
  no_slash : '/' ∉ b.toList
  /-- It does not end with a dot. -/
  no_dot : b.toList.getLast? ≠ some '.'
  /-- It holds neither word. -/
  no_word : ∀ kind : MarkerKind, ¬ kind.word.toList <:+: b.toList

variable {d d' b b' name : String} {kind : MarkerKind} {s stem : List Char} {m : Marker}

/-- A key is cut behind its directory. -/
theorem cut_directory (hd : IsDirectory d) (hname : '/' ∉ name.toList) :
    cutAfterLast (· == '/') (d ++ name).toList = (d.toList, name.toList) := by
  rw [String.toList_append, cutAfterLast_name hname]
  rcases hd with rfl | ⟨above, rfl⟩
  · rfl
  · rw [String.toList_append, show "/".toList = ['/'] from rfl, cutAfterLast_snoc rfl]
    rfl

/-- Each key is a directory and a name without a slash. -/
theorem exists_directory (key : String) :
    ∃ d name, IsDirectory d ∧ '/' ∉ name.toList ∧ key = d ++ name := by
  have hparts := cutAfterLast_append_self (· == '/') key.toList
  refine ⟨.ofList (cutAfterLast (· == '/') key.toList).1,
    .ofList (cutAfterLast (· == '/') key.toList).2, ?_, ?_, ?_⟩
  · -- The part in front of the name ends where a slash has been found.
    have hfront : (cutAfterLast (· == '/') key.toList).1 =
        key.toList.rdropWhile (!(· == '/') ·) := by
      rw [cutAfterLast_snd] at hparts
      exact List.append_cancel_right (hparts.trans List.rdropWhile_append_rtakeWhile.symm)
    rw [hfront]
    rcases List.eq_nil_or_concat' (key.toList.rdropWhile (!(· == '/') ·)) with h | ⟨above, c, h⟩
    · exact .inl (by rw [h])
    · have hslash := List.rdropWhile_last_not (!(· == '/') ·) key.toList (by rw [h]; simp)
      simp only [h, List.getLast_concat, Bool.not_eq_true', beq_eq_false_iff_ne, ne_eq,
        not_not] at hslash
      exact .inr ⟨.ofList above, by rw [h, hslash, String.ofList_append]⟩
  · rw [String.toList_ofList]
    exact slash_not_mem_cutAfterLast _
  · rw [← String.ofList_append, hparts, String.ofList_toList]

/-- The text is left when the dots at the end are left out just when only dots stand behind it and
it does not end with one. -/
theorem withoutDots_eq_iff :
    withoutDots s = stem ↔ (∃ n, s = stem ++ .replicate n '.') ∧ stem.getLast? ≠ some '.' := by
  constructor
  · rintro rfl
    have hdots : s.rtakeWhile (· == '.') = .replicate (s.rtakeWhile (· == '.')).length '.' :=
      List.eq_replicate_iff.2 ⟨rfl, fun c hc => by simpa using List.mem_rtakeWhile_imp hc⟩
    refine ⟨⟨(s.rtakeWhile (· == '.')).length, ?_⟩, fun hlast => ?_⟩
    · rw [← hdots]
      exact List.rdropWhile_append_rtakeWhile.symm
    · obtain ⟨front, hfront⟩ := List.getLast?_eq_some_iff.1 hlast
      change s.rdropWhile (· == '.') = front ++ ['.'] at hfront
      have hother := List.rdropWhile_last_not (· == '.') s (by rw [hfront]; simp)
      simp [hfront] at hother
  · rintro ⟨⟨n, rfl⟩, hlast⟩
    have hstem : stem.reverse.dropWhile (· == '.') = stem.reverse := by
      rcases List.eq_nil_or_concat' stem with rfl | ⟨front, c, rfl⟩
      · rfl
      · have hc : c ≠ '.' := by simpa using hlast
        simp [hc]
    rw [withoutDots, List.reverse_append, List.dropWhile_append_of_pos (by simp), hstem,
      List.reverse_reverse]

/-- Nothing of a directory is left out with the dots at the end. -/
theorem withoutDots_directory (hd : IsDirectory d) :
    withoutDots (d.toList ++ s) = d.toList ++ withoutDots s := by
  obtain ⟨⟨n, hdots⟩, hlast⟩ := withoutDots_eq_iff.1 (rfl : withoutDots s = _)
  refine withoutDots_eq_iff.2 ⟨⟨n, ?_⟩, ?_⟩
  · rw [List.append_assoc, ← hdots]
  · rw [List.getLast?_append]
    rcases hd with rfl | ⟨above, rfl⟩
    · simpa using hlast
    · rw [String.toList_append, show "/".toList = ['/'] from rfl, List.getLast?_concat]
      cases hc : (withoutDots s).getLast? with
      | none => decide
      | some c =>
        rw [Option.some_or, ← hc]
        exact hlast

/-- Two keys with a directory and a name are the same when the parts are. -/
theorem directory_inj (hd : IsDirectory d) (hd' : IsDirectory d') (hb : '/' ∉ b.toList)
    (hb' : '/' ∉ b'.toList) : d ++ b = d' ++ b' ↔ d = d' ∧ b = b' := by
  refine ⟨fun h => ?_, fun ⟨hdir, hbase⟩ => by rw [hdir, hbase]⟩
  have hcut := cut_directory hd hb
  rw [h, cut_directory hd' hb', Prod.mk.injEq, String.toList_inj, String.toList_inj] at hcut
  exact ⟨hcut.1.symm, hcut.2.symm⟩

/-- The group of a marker with the name in the directory: the directory and what stands before the
first occurrence of the word, without the dots at the end of that. -/
def IsGroup (d name : String) (kind : MarkerKind) (group : String) : Prop :=
  ∃ stem n, StandsBefore kind.word.toList name.toList (stem ++ .replicate n '.') ∧
    stem.getLast? ≠ some '.' ∧ group = d ++ .ofList stem

/-- The group is what the name and its directory give. -/
theorem groupOf?_eq_some_iff {group : String} (hd : IsDirectory d) :
    groupOf? d.toList name.toList kind = some group ↔ IsGroup d name kind group := by
  rw [groupOf?, Option.map_eq_some_iff]
  constructor
  · rintro ⟨base, hbase, rfl⟩
    obtain ⟨⟨n, hdots⟩, hlast⟩ := withoutDots_eq_iff.1 (rfl : withoutDots base = _)
    refine ⟨withoutDots base, n, ?_, hlast, ?_⟩
    · rw [← hdots]
      exact before?_eq_some_iff.1 hbase
    · rw [withoutDots_directory hd, String.ofList_append, String.ofList_toList]
  · rintro ⟨stem, n, hbase, hlast, rfl⟩
    refine ⟨_, before?_eq_some_iff.2 hbase, ?_⟩
    rw [withoutDots_directory hd, withoutDots_eq_iff.2 ⟨⟨n, rfl⟩, hlast⟩, String.ofList_append,
      String.ofList_toList]

/-- A name gives a group when it holds the word. -/
theorem groupOf?_eq_none_iff :
    groupOf? d.toList name.toList kind = none ↔ ¬ kind.word.toList <:+: name.toList := by
  rw [← occursIn_iff, occursIn, groupOf?, Option.map_eq_none_iff, Option.not_isSome_iff_eq_none]

/-- A key is a marker of a start when its name holds the word for that, and one of a completion when
it holds the other word only. -/
theorem classify?_directory (hd : IsDirectory d) (hname : '/' ∉ name.toList) :
    classify? (d ++ name) =
      ((groupOf? d.toList name.toList .started).map (⟨d ++ name, .started, ·⟩) <|>
        (groupOf? d.toList name.toList .completed).map (⟨d ++ name, .completed, ·⟩)) := by
  rw [classify?, cut_directory hd hname]

/-- The name of a marker with the given base. -/
def nameOf (b : String) (kind : MarkerKind) : String := b ++ "." ++ kind.word

/-- The characters of a marker's name. -/
theorem toList_nameOf (b : String) (kind : MarkerKind) :
    (nameOf b kind).toList = b.toList ++ '.' :: kind.word.toList := by
  rw [nameOf, String.toList_append, String.toList_append, List.append_assoc]
  rfl

/-- A word that occurs in a marker's name stands behind the base and its dot. -/
theorem dot_of_prefix_nameOf (hb : IsBase b) {kind' : MarkerKind} {before : List Char}
    (h : before ++ kind'.word.toList <+: (nameOf b kind).toList) :
    kind' = kind ∧ b.length + 1 ≤ before.length := by
  rw [toList_nameOf] at h
  obtain ⟨c, rfl, hc⟩ := behind_of_prefix (hb.no_word kind')
    (MarkerKind.not_prefix_of_suffix kind kind') h
  refine ⟨MarkerKind.eq_of_infix ((List.suffix_append c _).isInfix.trans hc.isInfix), ?_⟩
  have hne : c ≠ [] := by
    rintro rfl
    refine MarkerKind.not_prefix_of_suffix kind kind' _ List.suffix_rfl ?_ hc
    cases kind' <;> decide
  have hpos := List.length_pos_iff.2 hne
  rw [List.length_append, String.length_toList]
  omega

/-- In a marker's name the base stands before the word, with a dot. -/
theorem standsBefore_nameOf (hb : IsBase b) (kind : MarkerKind) :
    StandsBefore kind.word.toList (nameOf b kind).toList (b.toList ++ ['.']) where
  follows := by
    rw [toList_nameOf, List.append_assoc]
    exact List.prefix_rfl
  le_length before h := by
    rw [List.length_append, String.length_toList]
    exact (dot_of_prefix_nameOf hb h).2

/-- A marker's name holds the word of its kind only. -/
theorem eq_of_infix_nameOf (hb : IsBase b) {kind' : MarkerKind}
    (h : kind'.word.toList <:+: (nameOf b kind).toList) : kind' = kind := by
  obtain ⟨before, after, h⟩ := h
  exact (dot_of_prefix_nameOf hb (h ▸ List.prefix_append _ after)).1

/-- The key with a base and the word of a kind is a marker of the kind, and its group is the
directory with the base. -/
theorem classify?_nameOf (hd : IsDirectory d) (hb : IsBase b) (kind : MarkerKind) :
    classify? (d ++ nameOf b kind) = some ⟨d ++ nameOf b kind, kind, d ++ b⟩ := by
  have hslash : '/' ∉ (nameOf b kind).toList := by
    rw [toList_nameOf, List.mem_append, not_or]
    exact ⟨hb.no_slash, by cases kind <;> decide⟩
  have hgroup : groupOf? d.toList (nameOf b kind).toList kind = some (d ++ b) :=
    (groupOf?_eq_some_iff hd).2
      ⟨b.toList, 1, standsBefore_nameOf hb kind, hb.no_dot, by rw [String.ofList_toList]⟩
  rw [classify?_directory hd hslash]
  cases kind with
  | started => rw [hgroup]; rfl
  | completed =>
    have hstarted : groupOf? d.toList (nameOf b .completed).toList .started = none :=
      groupOf?_eq_none_iff.2 fun h => nomatch eq_of_infix_nameOf hb h
    rw [hstarted, hgroup]
    rfl

/-- What the marker of a name in a directory is. -/
structure Classified (d name : String) (found : Option Marker) : Prop where
  /-- There is none just when the name holds neither word. -/
  eq_none_iff : found = none ↔ ∀ kind : MarkerKind, ¬ kind.word.toList <:+: name.toList
  /-- It marks a start whenever the name holds the word for that. -/
  started : MarkerKind.started.word.toList <:+: name.toList →
    ∃ group, found = some ⟨d ++ name, .started, group⟩
  /-- Its group is what stands before the word of its kind. -/
  group : ∀ m, found = some m → m.key = d ++ name ∧ IsGroup d name m.kind m.group

/-- A key is classified by the name behind its directory. -/
theorem classified (hd : IsDirectory d) (hname : '/' ∉ name.toList) :
    Classified d name (classify? (d ++ name)) := by
  rw [classify?_directory hd hname]
  cases hstarted : groupOf? d.toList name.toList .started with
  | some group =>
    have hgroup := (groupOf?_eq_some_iff hd).1 hstarted
    refine ⟨⟨nofun, fun h => ?_⟩, fun _ => ⟨group, rfl⟩, fun m hm => ?_⟩
    · rw [groupOf?_eq_none_iff.2 (h .started)] at hstarted
      cases hstarted
    · cases hm
      exact ⟨rfl, hgroup⟩
  | none =>
    have hword := groupOf?_eq_none_iff.1 hstarted
    cases hcompleted : groupOf? d.toList name.toList .completed with
    | some group =>
      have hgroup := (groupOf?_eq_some_iff hd).1 hcompleted
      refine ⟨⟨nofun, fun h => ?_⟩, fun h => absurd h hword, fun m hm => ?_⟩
      · rw [groupOf?_eq_none_iff.2 (h .completed)] at hcompleted
        cases hcompleted
      · cases hm
        exact ⟨rfl, hgroup⟩
    | none =>
      refine ⟨⟨fun _ kind => ?_, fun _ => rfl⟩, fun h => absurd h hword, nofun⟩
      cases kind with
      | started => exact hword
      | completed => exact groupOf?_eq_none_iff.1 hcompleted

/-- The two markers of an export have one group, and no other marker has it. A key is a directory
and a name, which is classified by the words that it holds. The name of a base, a dot and a word is
that of a marker with the directory and the base as its group, and so two such keys have the same
group just when they have the same directory and the same base. -/
theorem classify?_exact :
    (∀ key, ∃ d name, IsDirectory d ∧ '/' ∉ name.toList ∧ key = d ++ name) ∧
      (∀ d name, IsDirectory d → '/' ∉ name.toList →
        Classified d name (classify? (d ++ name))) ∧
      (∀ d b, IsDirectory d → IsBase b → ∀ kind,
        classify? (d ++ nameOf b kind) = some ⟨d ++ nameOf b kind, kind, d ++ b⟩) ∧
      ∀ d b d' b', IsDirectory d → IsBase b → IsDirectory d' → IsBase b' → ∀ kind kind' m m',
        classify? (d ++ nameOf b kind) = some m → classify? (d' ++ nameOf b' kind') = some m' →
          (m.group = m'.group ↔ d = d' ∧ b = b') := by
  refine ⟨exists_directory, fun d name => classified, fun d b => classify?_nameOf,
    fun d b d' b' hd hb hd' hb' kind kind' m m' hm hm' => ?_⟩
  rw [classify?_nameOf hd hb] at hm
  rw [classify?_nameOf hd' hb'] at hm'
  cases hm
  cases hm'
  exact directory_inj hd hd' hb.no_slash hb'.no_slash

/-- A directory that holds a word, a base that ends like one, and a name that holds both. -/
theorem classify?_of_partWords :
    classify? "completed.manifest/.started.manifes.started.manifest" =
        some ⟨"completed.manifest/.started.manifes.started.manifest", .started,
          "completed.manifest/.started.manifes"⟩ ∧
      ∃ group, classify? "a/.completed.manifest..started.manifest" =
        some ⟨"a/.completed.manifest..started.manifest", .started, group⟩ := by
  obtain ⟨-, hclassified, hbase, -⟩ := classify?_exact
  have hb : IsBase ".started.manifes" :=
    ⟨by decide, by decide, by rintro (_ | _) <;> decide⟩
  have hkey : "completed.manifest/" ++ nameOf ".started.manifes" .started =
      "completed.manifest/.started.manifes.started.manifest" := by decide
  have hgroup : "completed.manifest/" ++ ".started.manifes" =
      "completed.manifest/.started.manifes" := by decide
  constructor
  · rw [← hkey, ← hgroup]
    exact hbase _ _ (.inr ⟨"completed.manifest", by decide⟩) hb .started
  · exact (hclassified "a/" ".completed.manifest..started.manifest" (.inr ⟨"a", by decide⟩)
      (by decide)).started (by decide)

end Marker

end LedgerExport
