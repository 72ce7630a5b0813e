import LedgerExport.Proofs.Keys
import LedgerExport.Proofs.Timestamps
import LedgerExport.Settings

/-!
# Settings from an environment

`load_exact` says that settings are loaded from any environment that writes them, each part in its
variable with blank characters around it and the epoch as clocks show it, and that loading fails
just when one of six variables is faulty. The error then names the first of these in the order of
`Variable.checked`, which is not the order of the settings.

Trimming and the test for a blank value are undone once, in `value?_eq_some_iff`: a variable has
a value just when it holds a trimmed text. What is wrong with one variable does not depend on the
others (`fault?`), so loading looks for the first variable with a fault (`load_eq_error_iff`).
-/

namespace LedgerExport

open Text Time

namespace Text

variable {s t : List Char}

/-! ## Blank characters at the ends -/

/-- The text is not empty and has no blank character at its ends. -/
def IsTrimmed (s : List Char) : Prop :=
  (∃ c ∈ s.head?, isBlank c = false) ∧ ∃ c ∈ s.getLast?, isBlank c = false

/-- The second text is the first one with blank characters around it. -/
def Pads (s t : List Char) : Prop :=
  ∃ before after, (∀ c ∈ before, isBlank c = true) ∧ (∀ c ∈ after, isBlank c = true) ∧
    t = before ++ s ++ after

/-- A text without blank characters has none at its ends. -/
theorem isTrimmed_of_forall (hne : s ≠ []) (h : ∀ c ∈ s, isBlank c = false) : IsTrimmed s :=
  ⟨⟨_, List.head?_eq_some_head hne, h _ (List.head_mem hne)⟩, Spelling.exists_last hne h⟩

/-- Blank characters around a text are trimmed. -/
theorem Pads.trim_eq (h : Pads s t) (hs : IsTrimmed s) : trim t = s := by
  obtain ⟨before, after, hbefore, hafter, rfl⟩ := h
  exact Spelling.trim_padded hbefore hafter hs.1 hs.2

/-- Nothing is left of a text just when all of it is blank. -/
theorem trim_eq_nil_iff : trim s = [] ↔ ∀ c ∈ s, isBlank c = true := by
  rw [trim, trimEnd, trimStart, List.reverse_eq_nil_iff, List.dropWhile_eq_nil_iff]
  simp only [List.mem_reverse]
  refine ⟨fun h c hc => ?_, fun h c hc => h c ((List.dropWhile_suffix _).subset hc)⟩
  rw [← List.takeWhile_append_dropWhile (p := isBlank) (l := s), List.mem_append] at hc
  exact hc.elim List.mem_takeWhile_imp (h c)

/-- What is left of a text that is not blank stands in the text with blank characters around it. -/
theorem pads_trim (h : trim s ≠ []) : IsTrimmed (trim s) ∧ Pads (trim s) s := by
  have hend : trim s ++ ((trimStart s).reverse.takeWhile isBlank).reverse = trimStart s := by
    rw [trim, trimEnd, ← List.reverse_append, List.takeWhile_append_dropWhile, List.reverse_reverse]
  have hsplit : s = s.takeWhile isBlank ++ trim s ++
      ((trimStart s).reverse.takeWhile isBlank).reverse := by
    calc s = s.takeWhile isBlank ++ trimStart s := List.takeWhile_append_dropWhile.symm
      _ = s.takeWhile isBlank ++ trim s ++
          ((trimStart s).reverse.takeWhile isBlank).reverse := by rw [List.append_assoc, hend]
  -- What is left of a text begins with a character at which the dropping has stopped.
  have hhead {u : List Char} (hu : u.dropWhile isBlank ≠ []) :
      ∃ c ∈ (u.dropWhile isBlank).head?, isBlank c = false :=
    ⟨_, List.head?_eq_some_head hu, List.head_dropWhile_not isBlank hu⟩
  refine ⟨⟨?_, ?_⟩, _, _, fun c hc => List.mem_takeWhile_imp hc,
    fun c hc => List.mem_takeWhile_imp (List.mem_reverse.1 hc), hsplit⟩
  · obtain ⟨c, rest, hc⟩ := List.exists_cons_of_ne_nil h
    obtain ⟨d, hd, hblank⟩ := hhead (u := s) (show trimStart s ≠ [] by
      rw [← hend, hc]
      exact List.cons_ne_nil _ _)
    change d ∈ (trimStart s).head? at hd
    rw [← hend, hc] at hd
    rw [hc]
    exact ⟨d, hd, hblank⟩
  · rw [trim, trimEnd, List.getLast?_reverse]
    exact hhead (by simpa [trim, trimEnd] using h)

end Text

/-! ## Counts -/

/-- The text is a number in decimal digits, with or without a plus in front. -/
def IsCount (s : List Char) (n : Nat) : Prop :=
  ∃ ds, (s = ds ∨ s = '+' :: ds) ∧ ds ≠ [] ∧ (∀ c ∈ ds, c.isDigit = true) ∧ ofDigits ds = n

/-- More digits do not make a number smaller. -/
theorem le_ofDigitChars (n : Nat) (ds : List Char) : n ≤ Nat.ofDigitChars 10 ds n := by
  induction ds generalizing n with
  | nil => exact Nat.le_refl n
  | cons c ds ih =>
    rw [Nat.ofDigitChars_cons]
    exact Nat.le_trans (by omega) (ih _)

/-- A count goes on with digits as long as it fits in sixty-four bits. -/
theorem continueCount_eq_ok_iff {n k : Nat} {ds : List Char} (hn : n < UInt64.size) :
    continueCount n ds = .ok k ↔
      (∀ c ∈ ds, c.isDigit = true) ∧ Nat.ofDigitChars 10 ds n = k ∧ k < UInt64.size := by
  induction ds generalizing n with
  | nil =>
    rw [continueCount, Nat.ofDigitChars_nil, Except.ok.injEq]
    exact ⟨fun h => ⟨List.forall_mem_nil _, h, h ▸ hn⟩, fun h => h.2.1⟩
  | cons c ds ih =>
    have hnext : n * 10 + ofDigits [c] = 10 * n + (c.toNat - '0'.toNat) := by
      rw [ofDigits, Nat.ofDigitChars_cons, Nat.ofDigitChars_nil]
      omega
    rw [continueCount, List.forall_mem_cons, Nat.ofDigitChars_cons, hnext]
    by_cases hc : c.isDigit = true
    · rw [if_neg (by simp [hc])]
      split
      · rename_i hsmall
        rw [ih hsmall]
        simp [hc]
      · rename_i hlarge
        -- The digits that follow do not bring the count back below the bound.
        have hle := le_ofDigitChars (10 * n + (c.toNat - '0'.toNat)) ds
        constructor
        · intro h
          cases h
        · rintro ⟨-, rfl, hk⟩
          omega
    · rw [if_pos (by simp [hc])]
      constructor
      · intro h
        cases h
      · exact fun h => absurd h.1.1 hc

/-- A count is read just when it is a number in digits that fits in sixty-four bits. -/
theorem readCount_eq_ok_iff {s : List Char} {n : UInt64} :
    readCount s = .ok n ↔ IsCount s n.toNat := by
  have hdigits (ds : List Char) (h : (dropPrefix? ['+'] s).getD s = ds) :
      readCount s = .ok n ↔
        ds ≠ [] ∧ (∀ c ∈ ds, c.isDigit = true) ∧ ofDigits ds = n.toNat := by
    rw [readCount, h]
    cases ds with
    | nil => exact ⟨nofun, fun h => absurd rfl h.1⟩
    | cons c ds =>
      have hmap : UInt64.ofNat <$> continueCount 0 (c :: ds) = .ok n ↔
          ∃ k, continueCount 0 (c :: ds) = .ok k ∧ UInt64.ofNat k = n := by
        cases continueCount 0 (c :: ds) with
        | error e => exact ⟨nofun, nofun⟩
        | ok k => simp
      show UInt64.ofNat <$> continueCount 0 (c :: ds) = .ok n ↔ _
      rw [hmap]
      simp only [continueCount_eq_ok_iff (show 0 < UInt64.size by decide)]
      constructor
      · rintro ⟨k, ⟨hall, rfl, hk⟩, rfl⟩
        exact ⟨nofun, hall, (UInt64.toNat_ofNat_of_lt' hk).symm⟩
      · rintro ⟨-, hall, hn⟩
        exact ⟨n.toNat, ⟨hall, hn, n.toNat_lt_size⟩, UInt64.ofNat_toNat⟩
  by_cases hplus : ∃ rest, s = '+' :: rest
  · obtain ⟨rest, rfl⟩ := hplus
    rw [hdigits rest rfl]
    constructor
    · rintro ⟨hne, hall, hn⟩
      exact ⟨rest, .inr rfl, hne, hall, hn⟩
    · rintro ⟨ds, hds | hds, hne, hall, hn⟩
      · -- The plus is no digit.
        exact absurd (hall '+' (hds ▸ List.mem_cons_self)) (by decide)
      · cases hds
        exact ⟨hne, hall, hn⟩
  · have hnone : dropPrefix? ['+'] s = none := by
      rw [Option.eq_none_iff_forall_ne_some]
      exact fun rest h => hplus ⟨rest, dropPrefix?_eq_some_iff.1 h⟩
    rw [hdigits s (by rw [hnone, Option.getD_none])]
    constructor
    · rintro ⟨hne, hall, hn⟩
      exact ⟨s, .inl rfl, hne, hall, hn⟩
    · rintro ⟨ds, hds | hds, hne, hall, hn⟩
      · exact hds ▸ ⟨hne, hall, hn⟩
      · exact absurd ⟨ds, hds⟩ hplus

/-- A text is read as a count just when it is a number in digits that fits in sixty-four bits. -/
theorem exists_readCount_iff {s : List Char} :
    (∃ n, readCount s = .ok n) ↔ ∃ n, IsCount s n ∧ n < UInt64.size := by
  simp only [readCount_eq_ok_iff]
  constructor
  · rintro ⟨n, h⟩
    exact ⟨n.toNat, h, n.toNat_lt_size⟩
  · rintro ⟨n, h, hn⟩
    exact ⟨.ofNat n, by rwa [UInt64.toNat_ofNat_of_lt' hn]⟩

/-- No character of a count is blank. -/
theorem IsCount.isTrimmed {s : List Char} {n : Nat} (h : IsCount s n) : IsTrimmed s := by
  obtain ⟨ds, hs, hne, hall, -⟩ := h
  have hblank : ∀ c ∈ s, isBlank c = false := by
    rcases hs with rfl | rfl
    · exact fun c hc => Spelling.isBlank_of_isDigit (hall c hc)
    · rintro c (_ | ⟨_, hc⟩)
      · decide
      · exact Spelling.isBlank_of_isDigit (hall c hc)
  have hsome : s ≠ [] := by
    rcases hs with rfl | rfl
    · exact hne
    · exact nofun
  exact isTrimmed_of_forall hsome hblank

/-! ## Variables -/

/-- The variables that can keep settings from being loaded, in the order in which they are looked
at. -/
def Variable.checked : List Variable := [keyPrefix, epoch, timeout, bucket, ledger, roleArn]

/-- The variable that is wrong. -/
def SettingsError.variable : SettingsError → Variable
  | notSet v => v
  | notATime _ => .epoch
  | notACount _ => .timeout

/-- The wording of an error begins with the name of the variable. -/
theorem SettingsError.name_prefix_message (e : SettingsError) :
    e.variable.name.toList <+: e.message.toList := by
  have hbegins {name rest : String} : name.toList <+: (name ++ rest).toList :=
    String.toList_append ▸ List.prefix_append _ _
  cases e with
  | notSet v =>
    show v.name.toList <+: (v.name ++ " is not set").toList
    exact hbegins
  | notATime value =>
    show Variable.epoch.name.toList <+:
      (Variable.epoch.name ++ " is not a timestamp: '" ++ value ++ "'").toList
    rw [String.append_assoc, String.append_assoc]
    exact hbegins
  | notACount reason =>
    show Variable.timeout.name.toList <+:
      (Variable.timeout.name ++ " is not a number of seconds: " ++ reason.message).toList
    rw [String.append_assoc]
    exact hbegins

namespace Environment

variable {env : Environment} {v : Variable} {value : String} {s : List Char}

/-- The variable has no value, or a blank one. -/
def Unset (env : Environment) (v : Variable) : Prop :=
  ∀ value, env v.name = some value → ∀ c ∈ value.toList, isBlank c = true

/-- The variable has the text as its value, with blank characters around it. -/
def Holds (env : Environment) (v : Variable) (s : List Char) : Prop :=
  ∃ value, env v.name = some value ∧ Pads s value.toList

/-- There is no value of a variable when it is not set. -/
theorem value?_eq_none_iff : env.value? v = none ↔ env.Unset v := by
  unfold value? Unset
  cases env v.name with
  | none => simp
  | some value =>
    simp [trimmed, trim_eq_nil_iff]

/-- The value of a variable is the text that it holds. -/
theorem value?_eq_some_iff :
    env.value? v = some value ↔ IsTrimmed value.toList ∧ env.Holds v value.toList := by
  unfold value? Holds
  cases env v.name with
  | none => simp
  | some raw =>
    have hraw : ((some raw).map trimmed).filter (· ≠ "") = some value ↔
        trim raw.toList = value.toList ∧ value.toList ≠ [] := by
      rw [Option.map_some, Option.filter_eq_some_iff, Option.some_inj, trimmed,
        ← String.toList_inj, String.toList_ofList]
      simp
    rw [hraw]
    constructor
    · rintro ⟨htrim, hne⟩
      obtain ⟨hends, hpads⟩ := pads_trim (htrim ▸ hne)
      exact ⟨htrim ▸ hends, raw, rfl, htrim ▸ hpads⟩
    · rintro ⟨hends, value', hvalue, hpads⟩
      cases hvalue
      refine ⟨hpads.trim_eq hends, ?_⟩
      rintro hnil
      obtain ⟨⟨c, hc, -⟩, -⟩ := hends
      rw [hnil] at hc
      cases hc

/-- The variable keeps settings from being loaded. A variable that is needed does when it is not
set, the start of the first window when it is set and spells no time, and the time that an
invocation may take when it is set and no number in digits that fits in sixty-four bits. -/
def Faulty (env : Environment) : Variable → Prop
  | .keyPrefix => env.Unset .keyPrefix
  | .bucket => env.Unset .bucket
  | .ledger => env.Unset .ledger
  | .roleArn => env.Unset .roleArn
  | .epoch => ∃ s, IsTrimmed s ∧ env.Holds .epoch s ∧ Instant.ofChars? s = none
  | .timeout => ∃ s, IsTrimmed s ∧ env.Holds .timeout s ∧ ¬ ∃ n, IsCount s n ∧ n < UInt64.size
  | .archiveRoot | .kmsKeyArn => False

/-- The error of a step that has failed. -/
def failure? {α : Type} : Except SettingsError α → Option SettingsError
  | .ok _ => none
  | .error e => some e

/-- What loading finds wrong with a variable. -/
def fault? (env : Environment) : Variable → Option SettingsError
  | .epoch => failure? env.epoch?
  | .timeout => failure? env.timeout?
  | .archiveRoot | .kmsKeyArn => none
  | v => failure? (env.require v)

/-- A variable that is needed is missing when it is not set. -/
theorem require_cases (env : Environment) (v : Variable) :
    env.Unset v ∧ env.require v = .error (.notSet v) ∨
      ¬ env.Unset v ∧ ∃ value, env.require v = .ok value := by
  rw [← value?_eq_none_iff, require]
  cases env.value? v with
  | none => exact .inl ⟨rfl, rfl⟩
  | some value => exact .inr ⟨nofun, value, rfl⟩

/-- What holds of the text that a variable has holds of its value. -/
theorem exists_holds_iff {P : List Char → Prop} :
    (∃ s, IsTrimmed s ∧ env.Holds v s ∧ P s) ↔
      ∃ value, env.value? v = some value ∧ P value.toList := by
  constructor
  · rintro ⟨s, hends, hholds, hP⟩
    rw [← String.toList_ofList (l := s)] at hends hholds hP
    exact ⟨_, value?_eq_some_iff.2 ⟨hends, hholds⟩, hP⟩
  · rintro ⟨value, hvalue, hP⟩
    obtain ⟨hends, hholds⟩ := value?_eq_some_iff.1 hvalue
    exact ⟨_, hends, hholds, hP⟩

/-- The start of the first window is wrong when it is set and spells no time. -/
theorem epoch?_cases (env : Environment) :
    env.Faulty .epoch ∧ (∃ value, env.epoch? = .error (.notATime value)) ∨
      ¬ env.Faulty .epoch ∧ ∃ t, env.epoch? = .ok t := by
  rw [Faulty, exists_holds_iff, epoch?]
  cases env.value? .epoch with
  | none => exact .inr ⟨nofun, none, rfl⟩
  | some value =>
    dsimp only
    rw [Instant.ofText?]
    cases htime : Instant.ofChars? value.toList with
    | none => exact .inl ⟨⟨value, rfl, htime⟩, value, rfl⟩
    | some t =>
      refine .inr ⟨?_, some t, rfl⟩
      rintro ⟨value', hvalue, hnone⟩
      rw [← Option.some_inj.1 hvalue, htime] at hnone
      cases hnone

/-- The time that an invocation may take is wrong when it is set and no count. -/
theorem timeout?_cases (env : Environment) :
    env.Faulty .timeout ∧ (∃ reason, env.timeout? = .error (.notACount reason)) ∨
      ¬ env.Faulty .timeout ∧ ∃ n, env.timeout? = .ok n := by
  simp only [Faulty, exists_holds_iff, ← exists_readCount_iff, timeout?]
  cases env.value? .timeout with
  | none => exact .inr ⟨nofun, none, rfl⟩
  | some value =>
    dsimp only
    cases hcount : readCount value.toList with
    | error reason =>
      refine .inl ⟨⟨value, rfl, ?_⟩, reason, rfl⟩
      rw [hcount]
      exact nofun
    | ok n =>
      refine .inr ⟨?_, some n, rfl⟩
      rintro ⟨value', hvalue, hnone⟩
      rw [← Option.some_inj.1 hvalue] at hnone
      exact hnone ⟨n, hcount⟩

/-- Something is found wrong with a variable just when it keeps settings from being loaded, and the
error names the variable. -/
theorem fault?_cases (env : Environment) (v : Variable) :
    env.Faulty v ∧ (∃ e, env.fault? v = some e ∧ e.variable = v) ∨
      ¬ env.Faulty v ∧ env.fault? v = none := by
  have hneeded (v : Variable) (hfaulty : env.Faulty v = env.Unset v)
      (hfault : env.fault? v = failure? (env.require v)) :
      env.Faulty v ∧ (∃ e, env.fault? v = some e ∧ e.variable = v) ∨
        ¬ env.Faulty v ∧ env.fault? v = none := by
    rw [hfaulty, hfault]
    rcases require_cases env v with ⟨hunset, h⟩ | ⟨hset, value, h⟩
    · exact .inl ⟨hunset, .notSet v, by rw [h]; rfl, rfl⟩
    · exact .inr ⟨hset, by rw [h]; rfl⟩
  cases v with
  | keyPrefix | bucket | ledger | roleArn => exact hneeded _ rfl rfl
  | archiveRoot | kmsKeyArn => exact .inr ⟨nofun, rfl⟩
  | epoch =>
    rcases epoch?_cases env with ⟨hfaulty, value, h⟩ | ⟨hfine, t, h⟩
    · exact .inl ⟨hfaulty, .notATime value, by rw [fault?, h]; rfl, rfl⟩
    · exact .inr ⟨hfine, by rw [fault?, h]; rfl⟩
  | timeout =>
    rcases timeout?_cases env with ⟨hfaulty, reason, h⟩ | ⟨hfine, n, h⟩
    · exact .inl ⟨hfaulty, .notACount reason, by rw [fault?, h]; rfl, rfl⟩
    · exact .inr ⟨hfine, by rw [fault?, h]; rfl⟩

/-- Settings are not loaded because of the first variable with which something is wrong. -/
theorem load_eq_error_iff {e : SettingsError} :
    Settings.load env = .error e ↔ Variable.checked.findSome? env.fault? = some e := by
  -- Each step fails with its own error or leaves it to those behind it.
  have hstep {α : Type} {x : Except SettingsError α} {f : α → Except SettingsError Settings}
      {v : Variable} {rest : List Variable} (hv : env.fault? v = failure? x)
      (h : ∀ a, f a = .error e ↔ rest.findSome? env.fault? = some e) :
      (x >>= f) = .error e ↔ (v :: rest).findSome? env.fault? = some e := by
    rw [List.findSome?_cons, hv]
    cases x with
    | error e' => exact ⟨fun heq => by cases heq; rfl, fun heq => by cases heq; rfl⟩
    | ok a => exact h a
  unfold Settings.load Variable.checked
  refine hstep rfl fun keyPrefix => hstep rfl fun epoch => hstep rfl fun timeout =>
    hstep rfl fun bucket => hstep rfl fun ledger => hstep rfl fun roleArn => ?_
  exact ⟨nofun, nofun⟩

/-- Settings are not loaded just when something is wrong with a variable, and the error is about the
first of them. -/
theorem load_fails (env : Environment) :
    ((∃ e, Settings.load env = .error e) ↔ ∃ v ∈ Variable.checked, env.Faulty v) ∧
      ∀ e, Settings.load env = .error e →
        ∃ before after, Variable.checked = before ++ e.variable :: after ∧
          env.Faulty e.variable ∧ ∀ v ∈ before, ¬ env.Faulty v := by
  have hfirst (e : SettingsError) (he : Settings.load env = .error e) :
      ∃ before after, Variable.checked = before ++ e.variable :: after ∧
        env.Faulty e.variable ∧ ∀ v ∈ before, ¬ env.Faulty v := by
    obtain ⟨before, v, after, horder, hv, hbefore⟩ :=
      List.findSome?_eq_some_iff.1 (load_eq_error_iff.1 he)
    refine ⟨before, after, ?_⟩
    rcases fault?_cases env v with ⟨hfaulty, e', he', hvariable⟩ | ⟨-, hnone⟩
    · rw [hv, Option.some_inj] at he'
      subst he' hvariable
      refine ⟨horder, hfaulty, fun w hw hwrong => ?_⟩
      rcases fault?_cases env w with ⟨-, e', he', -⟩ | ⟨hfine, -⟩
      · rw [hbefore w hw] at he'
        cases he'
      · exact hfine hwrong
    · rw [hnone] at hv
      cases hv
  refine ⟨⟨?_, ?_⟩, hfirst⟩
  · rintro ⟨e, he⟩
    obtain ⟨before, after, horder, hfaulty, -⟩ := hfirst e he
    exact ⟨e.variable, by rw [horder]; simp, hfaulty⟩
  · rintro ⟨v, hv, hfaulty⟩
    rcases fault?_cases env v with ⟨-, e, he, -⟩ | ⟨hfine, -⟩
    · have hsome : (Variable.checked.findSome? env.fault?).isSome :=
        List.findSome?_isSome_iff.2 ⟨v, hv, by rw [he]; rfl⟩
      obtain ⟨e', he'⟩ := Option.isSome_iff_exists.1 hsome
      exact ⟨e', load_eq_error_iff.2 he'⟩
    · exact absurd hfaulty hfine

end Environment

/-! ## Settings that are written to variables -/

namespace Time.Instant

open Spelling

variable {t : Instant} {s : List Char}

/-- The texts of an instant in Coordinated Universal Time. The fraction of the second has some count
of digits that loses nothing. Behind it stands the letter of Coordinated Universal Time or, where
the year has four digits, an offset of zero. -/
inductive IsText (t : Instant) : List Char → Prop where
  /-- A text with the letter. -/
  | zulu {k : Nat} (hk : k ≤ 9) (hcut : t.fraction % 10 ^ (9 - k) = 0) :
    IsText t (minuteChars t.date t.hour t.minute ++
      (':' :: paddedDigits 2 t.second ++ placesText k t.fraction ++ ['Z']))
  /-- A text with an offset. -/
  | offset {k : Nat} (hk : k ≤ 9) (hcut : t.fraction % 10 ^ (9 - k) = 0) (minus : Bool)
    (hyear : 0 ≤ t.date.year ∧ t.date.year ≤ 9999) :
    IsText t (minuteChars t.date t.hour t.minute ++
      (':' :: paddedDigits 2 t.second ++ placesText k t.fraction ++
        (Zone.offset minus 0 0).chars))

/-- A text of an instant is a text of the instant that clocks show. -/
theorem IsText.shown (h : t.IsText s) : t.shown.IsText s := by
  cases h with
  | zulu hk hcut =>
    have htext := IsText.zulu (t := t.shown) hk (by rwa [fraction_shown])
    simpa only [date_shown, hour_shown, minute_shown, second_shown, fraction_shown] using htext
  | offset hk hcut minus hyear =>
    have htext := IsText.offset (t := t.shown) hk (by rwa [fraction_shown]) minus
      (by rwa [date_shown])
    simpa only [date_shown, hour_shown, minute_shown, second_shown, fraction_shown] using htext

/-- A text of an instant that clocks show is read as the instant. -/
theorem IsText.ofChars?_of_isShown (h : t.IsText s) (ht : t.IsShown) : ofChars? s = some t := by
  have hf {k : Nat} (hk : k ≤ 9) (hcut : t.fraction % 10 ^ (9 - k) = 0) :
      Fraction (placesText k t.fraction) t.fraction := by
    have hplaces := fraction_places hk t.fraction_lt
    rwa [hcut, Nat.sub_zero] at hplaces
  cases h with
  | zulu hk hcut => rw [ht.ofChars?_utc t.fraction_lt (hf hk hcut), withFraction_fraction]
  | offset hk hcut minus hyear =>
    have hparts : ofLocal? t.date t.hour t.minute t.second t.fraction
        (Zone.offset minus 0 0).ahead = some t := by
      rw [show (Zone.offset minus 0 0).ahead = 0 by cases minus <;> rfl,
        ht.ofLocal?_parts t.fraction_lt, withFraction_fraction]
    exact ofChars?_second hyear t.short t.second_lt (hf hk hcut) (by exact nofun) hparts

/-- A text of an instant is read as the instant that clocks show. -/
theorem IsText.ofChars? (h : t.IsText s) : ofChars? s = some t.shown :=
  h.shown.ofChars?_of_isShown t.isShown_shown

/-- A text of an instant has no blank character at its ends. -/
theorem IsText.isTrimmed (h : t.IsText s) : IsTrimmed s := by
  cases h with
  | zulu =>
    refine ⟨minuteChars_head _, ?_⟩
    rw [← List.append_assoc]
    show ∃ c ∈ (_ ++ Zone.zulu.chars).getLast?, isBlank c = false
    exact exists_last_zone _ nofun
  | offset =>
    refine ⟨minuteChars_head _, ?_⟩
    rw [← List.append_assoc]
    exact exists_last_zone _ nofun

/-- The text of an instant that has the fewest digits is one of its texts. -/
theorem isText_text (t : Instant) : t.IsText t.text.toList := by
  obtain ⟨k, ⟨hk, hcut, -⟩, htext⟩ := fractionText_shortest t.fraction_lt
  have hchars : t.text.toList = minuteChars t.date t.hour t.minute ++
      (':' :: paddedDigits 2 t.second ++ placesText k t.fraction ++ ['Z']) := by
    rw [text, written, String.toList_ofList, chars, htext]
    simp [minuteChars]
  rw [hchars]
  exact .zulu (by simp at hk; omega) hcut

end Time.Instant

/-- No text of the settings is empty or has a blank character at its ends. -/
structure Settings.AreTrimmed (s : Settings) : Prop where
  /-- The bucket is trimmed. -/
  bucket : IsTrimmed s.bucket.toList
  /-- The prefix is trimmed. -/
  keyPrefix : IsTrimmed s.keyPrefix.toList
  /-- The ledger is trimmed. -/
  ledger : IsTrimmed s.ledger.toList
  /-- The role is trimmed. -/
  roleArn : IsTrimmed s.roleArn.toList
  /-- The root is trimmed. -/
  archiveRoot : IsTrimmed s.archiveRoot.toList
  /-- The key is trimmed, if there is one. -/
  kmsKeyArn : ∀ arn, s.kmsKeyArn = some arn → IsTrimmed arn.toList

namespace Environment

variable {env : Environment} {s : Settings} {v : Variable}

/-- The environment has each part of the settings in its variable. -/
structure Writes (env : Environment) (s : Settings) : Prop where
  /-- The bucket is written. -/
  bucket : env.Holds .bucket s.bucket.toList
  /-- The prefix is written. -/
  keyPrefix : env.Holds .keyPrefix s.keyPrefix.toList
  /-- The ledger is written. -/
  ledger : env.Holds .ledger s.ledger.toList
  /-- The role is written. -/
  roleArn : env.Holds .roleArn s.roleArn.toList
  /-- The root is written, or left out where it is the prefix. -/
  archiveRoot : env.Holds .archiveRoot s.archiveRoot.toList ∨
    env.Unset .archiveRoot ∧ s.archiveRoot = s.keyPrefix
  /-- A key is written. -/
  kmsKeyArn : ∀ arn, s.kmsKeyArn = some arn → env.Holds .kmsKeyArn arn.toList
  /-- No key is left out. -/
  no_kmsKeyArn : s.kmsKeyArn = none → env.Unset .kmsKeyArn
  /-- The start of the first window is written in one of its texts. -/
  epoch : ∃ text, s.epoch.IsText text ∧ env.Holds .epoch text
  /-- The time that an invocation may take is written in digits. -/
  timeout : ∀ n, s.timeoutSeconds = some n →
    ∃ text, IsCount text n.toNat ∧ env.Holds .timeout text
  /-- No such time is left out. -/
  no_timeout : s.timeoutSeconds = none → env.Unset .timeout

/-- A variable that holds a text has it as its value. -/
theorem Holds.value? {text : List Char} (h : env.Holds v text) (ht : IsTrimmed text) :
    env.value? v = some (.ofList text) := by
  rw [value?_eq_some_iff, String.toList_ofList]
  exact ⟨ht, h⟩

/-- Settings that are written to variables are loaded, with the epoch as clocks show it. -/
theorem Writes.load (h : env.Writes s) (hs : s.AreTrimmed) :
    Settings.load env = .ok { s with epoch := s.epoch.shown } := by
  have hneeded {v : Variable} {text : String} (hv : env.Holds v text.toList)
      (ht : IsTrimmed text.toList) : env.require v = .ok text := by
    rw [require, hv.value? ht, String.ofList_toList]
  have hepoch : env.epoch? = .ok (some s.epoch.shown) := by
    obtain ⟨text, htext, hv⟩ := h.epoch
    rw [epoch?, hv.value? htext.isTrimmed]
    dsimp only
    rw [Instant.ofText?, String.toList_ofList, htext.ofChars?]
  have htimeout : env.timeout? = .ok s.timeoutSeconds := by
    cases htime : s.timeoutSeconds with
    | none => rw [timeout?, value?_eq_none_iff.2 (h.no_timeout htime)]
    | some n =>
      obtain ⟨text, htext, hv⟩ := h.timeout n htime
      rw [timeout?, hv.value? htext.isTrimmed]
      dsimp only
      rw [String.toList_ofList, readCount_eq_ok_iff.2 htext]
      rfl
  have hroot : (env.value? .archiveRoot).getD s.keyPrefix = s.archiveRoot := by
    rcases h.archiveRoot with hv | ⟨hv, hroot⟩
    · rw [hv.value? hs.archiveRoot, String.ofList_toList, Option.getD_some]
    · rw [value?_eq_none_iff.2 hv, hroot, Option.getD_none]
  have hkey : env.value? .kmsKeyArn = s.kmsKeyArn := by
    cases hkms : s.kmsKeyArn with
    | none => exact value?_eq_none_iff.2 (h.no_kmsKeyArn hkms)
    | some arn => rw [(h.kmsKeyArn arn hkms).value? (hs.kmsKeyArn arn hkms), String.ofList_toList]
  rw [Settings.load, hneeded h.keyPrefix hs.keyPrefix, hepoch, htimeout,
    hneeded h.bucket hs.bucket, hneeded h.ledger hs.ledger, hneeded h.roleArn hs.roleArn]
  show Except.ok _ = Except.ok { s with epoch := s.epoch.shown }
  rw [hroot, hkey, Option.getD_some]

end Environment

/-- The variable with a name. -/
def Variable.ofName? (name : String) : Option Variable := all.find? (·.name = name)

/-- No two variables have one name. -/
theorem Variable.ofName?_name (v : Variable) : ofName? v.name = some v := by
  cases v <;> decide

namespace Settings

/-- The text of a part of the settings. -/
def textOf? (s : Settings) : Variable → Option String
  | .bucket => some s.bucket
  | .keyPrefix => some s.keyPrefix
  | .ledger => some s.ledger
  | .roleArn => some s.roleArn
  | .archiveRoot => some s.archiveRoot
  | .kmsKeyArn => s.kmsKeyArn
  | .epoch => some s.epoch.text
  | .timeout => s.timeoutSeconds.map fun n => .ofList (digits n.toNat)

/-- The environment that has just the parts of the settings, without any blank characters. -/
def environment (s : Settings) : Environment := fun name => (Variable.ofName? name).bind s.textOf?

/-- The environment of settings has each part of them in its variable. -/
theorem writes_environment (s : Settings) : s.environment.Writes s := by
  have hvalue (v : Variable) : s.environment v.name = s.textOf? v := by
    rw [environment, Variable.ofName?_name, Option.bind_some]
  have hholds {v : Variable} {text : String} (h : s.textOf? v = some text) :
      s.environment.Holds v text.toList :=
    ⟨text, (hvalue v).trans h, [], [], nofun, nofun, by simp⟩
  have hunset {v : Variable} (h : s.textOf? v = none) : s.environment.Unset v := by
    intro value hsome
    rw [hvalue, h] at hsome
    cases hsome
  refine ⟨hholds rfl, hholds rfl, hholds rfl, hholds rfl, .inl (hholds rfl),
    fun arn h => hholds h, fun h => hunset h, ⟨_, s.epoch.isText_text, hholds rfl⟩,
    fun n h => ?_, fun h => hunset (by rw [textOf?, h]; rfl)⟩
  refine ⟨digits n.toNat, ⟨_, .inl rfl, Nat.toDigits_ne_nil, ?_, ?_⟩, ?_⟩
  · exact fun c hc => Nat.isDigit_of_mem_toDigits (by decide) (by decide) hc
  · exact Nat.ofDigitChars_ten_toDigits
  · have hcount : s.textOf? .timeout = some (.ofList (digits n.toNat)) := by rw [textOf?, h]; rfl
    have hwritten := hholds hcount
    rwa [String.toList_ofList] at hwritten

/-- Settings are loaded from an environment that has each part of them in its variable, whatever
blank characters stand around it, and there is such an environment for all settings. The epoch is
loaded as clocks show it, which is as it is unless it lies in a leap second within a minute. Loading
fails just when something is wrong with one of six variables, and the error names the first of
them. -/
theorem load_exact :
    (∀ s : Settings, s.AreTrimmed → (∃ env : Environment, env.Writes s) ∧
      ∀ env : Environment, env.Writes s → load env = .ok { s with epoch := s.epoch.shown } ∧
        (load env = .ok s ↔ s.epoch.nanos < nanosPerSecond ∨ s.epoch.seconds % 60 = 59)) ∧
    ∀ env : Environment,
      ((∃ e, load env = .error e) ↔ ∃ v ∈ Variable.checked, env.Faulty v) ∧
      ∀ e, load env = .error e → e.variable.name.toList <+: e.message.toList ∧
        ∃ before after, Variable.checked = before ++ e.variable :: after ∧
          env.Faulty e.variable ∧ ∀ v ∈ before, ¬ env.Faulty v := by
  refine ⟨fun s hs => ⟨⟨_, s.writes_environment⟩, fun env h => ⟨h.load hs, ?_⟩⟩, fun env => ?_⟩
  · have hsame : { s with epoch := s.epoch.shown } = s ↔ s.epoch.shown = s.epoch :=
      ⟨congrArg Settings.epoch, fun heq => by rw [heq]⟩
    rw [h.load hs, Except.ok.injEq, hsame]
    exact Instant.shown_eq_self_iff
  obtain ⟨hiff, hfirst⟩ := env.load_fails
  exact ⟨hiff, fun e he => ⟨e.name_prefix_message, hfirst e he⟩⟩

/-- The settings that begin in the last leap second that has four digits for its year. -/
def lastWritten : Settings where
  bucket := "b"
  keyPrefix := "exports/a b"
  ledger := "l"
  roleArn := "r"
  archiveRoot := "exports/a b"
  kmsKeyArn := some "k"
  epoch := ⟨253402300799, 1500000000, by decide, Instant.midLeap_lt⟩
  timeoutSeconds := some 7

/-- No text of these settings is empty or has a blank character at its ends. -/
theorem areTrimmed_lastWritten : lastWritten.AreTrimmed where
  bucket := ⟨⟨'b', rfl, rfl⟩, 'b', rfl, rfl⟩
  keyPrefix := ⟨⟨'e', rfl, rfl⟩, 'b', rfl, rfl⟩
  ledger := ⟨⟨'l', rfl, rfl⟩, 'l', rfl, rfl⟩
  roleArn := ⟨⟨'r', rfl, rfl⟩, 'r', rfl, rfl⟩
  archiveRoot := ⟨⟨'e', rfl, rfl⟩, 'b', rfl, rfl⟩
  kmsKeyArn := by rintro _ ⟨⟩; exact ⟨⟨'k', rfl, rfl⟩, 'k', rfl, rfl⟩

/-- Settings with a blank root and a plus and zeros before the count of seconds are loaded. A count
that is too large is told before the bucket that is missing. -/
theorem load_padded :
    load (fun name => [("ExportJournalBucket", "b\n"),
      ("ExportJournalPrefix", "\u00a0exports/a b\u3000"), ("QLDBName", "l"),
      ("ExportJournalRole", "\tr"), ("ExportArchiveRoot", " \u2003"), ("ExportKmsKeyArn", "k"),
      ("ExportEpochStart", "9999-12-31T23:59:60.5+00:00 "),
      ("ExportInvocationTimeoutSecs", "\u2028+007")].lookup name) = .ok lastWritten ∧
    ∃ e, load (fun name => [("ExportJournalPrefix", "p"),
        ("ExportInvocationTimeoutSecs", "18446744073709551616")].lookup name) = .error e ∧
      e.variable = .timeout ∧ Variable.timeout.name.toList <+: e.message.toList := by
  obtain ⟨hloads, hfails⟩ := load_exact
  have htext : lastWritten.epoch.IsText "9999-12-31T23:59:60.5+00:00".toList :=
    Instant.IsText.offset (t := lastWritten.epoch) (k := 1) (by decide) (by decide) false
      (by decide)
  constructor
  · refine ((hloads lastWritten areTrimmed_lastWritten).2 _ ?_).2.2 (by decide)
    have hblank {cs : List Char} (h : cs.all isBlank = true) : ∀ c ∈ cs, isBlank c = true :=
      List.all_eq_true.1 h
    exact {
      bucket := ⟨_, rfl, [], ['\n'], hblank rfl, hblank rfl, rfl⟩
      keyPrefix := ⟨_, rfl, ['\u00a0'], ['\u3000'], hblank rfl, hblank rfl, rfl⟩
      ledger := ⟨_, rfl, [], [], hblank rfl, hblank rfl, rfl⟩
      roleArn := ⟨_, rfl, ['\t'], [], hblank rfl, hblank rfl, rfl⟩
      archiveRoot := .inr ⟨by rintro _ ⟨⟩; exact hblank rfl, rfl⟩
      kmsKeyArn := by rintro _ ⟨⟩; exact ⟨_, rfl, [], [], hblank rfl, hblank rfl, rfl⟩
      no_kmsKeyArn := nofun
      epoch := ⟨_, htext, _, rfl, [], [' '], hblank rfl, hblank rfl, rfl⟩
      timeout := by
        rintro _ ⟨⟩
        have hcount : IsCount ['+', '0', '0', '7'] 7 :=
          ⟨['0', '0', '7'], .inr rfl, nofun, List.all_eq_true.1 rfl, rfl⟩
        exact ⟨_, hcount, _, rfl, ['\u2028'], [], hblank rfl, hblank rfl, rfl⟩
      no_timeout := nofun }
  · have hload : load (fun name => [("ExportJournalPrefix", "p"),
        ("ExportInvocationTimeoutSecs", "18446744073709551616")].lookup name) =
          .error (.notACount .tooLarge) := by decide +kernel
    exact ⟨_, hload, rfl, ((hfails _).2 _ hload).1⟩

/-- Settings that begin in a leap second within a minute are written to variables, but not loaded
from them. -/
theorem leaping_epoch_misread : let s := { lastWritten with epoch := .leapingWithin }
    s.AreTrimmed ∧ s.environment.Writes s ∧ load s.environment ≠ .ok s := by
  intro s
  have htrimmed : s.AreTrimmed := { areTrimmed_lastWritten with }
  refine ⟨htrimmed, s.writes_environment, ?_⟩
  rw [s.writes_environment.load htrimmed]
  decide

end Settings

end LedgerExport
