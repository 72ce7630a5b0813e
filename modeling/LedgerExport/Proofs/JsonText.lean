import LedgerExport.Manifest

/-!
# JSON strings are read

`Quoted.Spells.shortText` says that the text of a JSON string is read as its characters: a character
may stand for itself or be escaped in any of the ways that JSON has. The text between quotes is cut,
and its characters are found, by induction on the spelling.

`FlatObject.Spells` is the grammar of the objects whose values are strings and nulls. White space
may stand wherever JSON allows it.
-/

namespace LedgerExport.Ion

open Text

/-! ## Strings -/

namespace Quoted

/-- The letters that JSON has behind a backslash, and the characters that they stand for. -/
def jsonEscapes : List (Char × Char) :=
  [('"', '"'), ('\\', '\\'), ('/', '/'), ('b', '\x08'), ('f', '\x0c'), ('n', '\n'), ('r', '\r'),
    ('t', '\t')]

/-- A character that may stand for itself between quotes. -/
def isPlain (c : Char) : Bool := ' ' ≤ c && c != '"' && c != '\\'

/-- The ways to write characters between the quotes of a JSON string. -/
inductive Spells : List Char → List Char → Prop where
  /-- No characters. -/
  | nil : Spells [] []
  /-- A character that stands for itself. -/
  | plain {c : Char} {s raw : List Char} (plain : isPlain c = true) (rest : Spells s raw) :
    Spells (c :: s) (c :: raw)
  /-- A letter behind a backslash. -/
  | letter {l c : Char} {s raw : List Char} (known : (l, c) ∈ jsonEscapes) (rest : Spells s raw) :
    Spells (c :: s) ('\\' :: l :: raw)
  /-- Four hexadecimal digits. -/
  | code {d₁ d₂ d₃ d₄ c : Char} {s raw : List Char}
    (value : ofDigitsIn? 16 [d₁, d₂, d₃, d₄] = some c.toNat) (rest : Spells s raw) :
    Spells (c :: s) ('\\' :: 'u' :: d₁ :: d₂ :: d₃ :: d₄ :: raw)
  /-- Twice four hexadecimal digits, for a high and a low surrogate. -/
  | pair {d₁ d₂ d₃ d₄ e₁ e₂ e₃ e₄ c : Char} {high low : Nat} {s raw : List Char}
    (hhigh : ofDigitsIn? 16 [d₁, d₂, d₃, d₄] = some high) (isHigh : 0xD800 ≤ high ∧ high < 0xDC00)
    (hlow : ofDigitsIn? 16 [e₁, e₂, e₃, e₄] = some low) (isLow : 0xDC00 ≤ low ∧ low < 0xE000)
    (value : c.toNat = 0x10000 + (high - 0xD800) * 0x400 + (low - 0xDC00)) (rest : Spells s raw) :
    Spells (c :: s)
      ('\\' :: 'u' :: d₁ :: d₂ :: d₃ :: d₄ :: '\\' :: 'u' :: e₁ :: e₂ :: e₃ :: e₄ :: raw)

variable {c : Char} {s raw rest : List Char} {b : Nat} {ds : List Char}

/-- Control characters, quotes and backslashes are those that may not stand for themselves. -/
theorem isPlain_iff : isPlain c = true ↔ ' ' ≤ c ∧ c ≠ '"' ∧ c ≠ '\\' := by
  simp [isPlain, and_assoc]

/-- Characters that need no escape spell themselves. -/
theorem spells_self (h : s.all isPlain = true) : Spells s s := by
  induction s with
  | nil => exact .nil
  | cons c s ih =>
    rw [List.all_cons, Bool.and_eq_true] at h
    exact .plain h.1 (ih h.2)

/-- A character that is one of the digits or letters of hexadecimal numbers stands for itself
between quotes. -/
theorem isPlain_of_hexValue? {n : Nat} (h : hexValue? c = some n) : isPlain c = true := by
  refine isPlain_iff.2 ⟨?_, (by rintro rfl; cases h), (by rintro rfl; cases h)⟩
  unfold hexValue? at h
  rw [Char.le_def, UInt32.le_iff_toNat_le]
  simp only [Char.le_def, UInt32.le_iff_toNat_le] at h
  show 32 ≤ c.val.toNat
  split at h
  · exact Nat.le_trans (by decide : 32 ≤ ('0' : Char).val.toNat) (by omega)
  · split at h
    · exact Nat.le_trans (by decide : 32 ≤ ('a' : Char).val.toNat) (by omega)
    · split at h
      · exact Nat.le_trans (by decide : 32 ≤ ('A' : Char).val.toNat) (by omega)
      · cases h

/-- The characters of a number have values as digits. -/
theorem exists_hexValue? {n : Nat} (h : ofDigitsIn? b ds = some n) :
    ∀ d ∈ ds, ∃ v, hexValue? d = some v := by
  -- The induction is on the digits, from any number that has been read before them.
  suffices ∀ (ds : List Char) (m : Nat), ds.foldlM (fun n c => (hexValue? c).bind fun v =>
      if v < b then some (n * b + v) else none) m = some n →
      ∀ d ∈ ds, ∃ v, hexValue? d = some v from
    this ds 0 h
  intro ds
  induction ds with
  | nil => simp
  | cons d ds ih =>
    intro m hm
    obtain ⟨n', hn', hrest⟩ := Option.bind_eq_some_iff.1 hm
    obtain ⟨v, hv, -⟩ := Option.bind_eq_some_iff.1 hn'
    exact List.forall_mem_cons.2 ⟨⟨v, hv⟩, ih n' hrest⟩

/-! ### The end of a string -/

/-- A character that stands for itself is passed over. -/
theorem cut_plain (h : isPlain c = true) :
    cut .double (c :: s) = (cut .double s).map fun x => (c :: x.1, x.2) := by
  obtain ⟨control, quote, slash⟩ := isPlain_iff.1 h
  rw [cut]
  · have hmark : dropPrefix? Quotes.double.mark (c :: s) = none := by
      show (if '"' == c then _ else none) = none
      exact if_neg (by simpa using Ne.symm quote)
    rw [hmark]
    exact if_pos (by simp [Quotes.admits, control])
  · exact fun _ h _ => slash h
  · exact fun _ _ h _ => slash h

/-- A backslash and what stands behind it are passed over. -/
theorem cut_escape (h : c ≠ '\r') :
    cut .double ('\\' :: c :: s) = (cut .double s).map fun x => ('\\' :: c :: x.1, x.2) := by
  rw [cut]
  exact fun _ h' _ => h h'

/-- Digits are passed over. -/
theorem cut_digits {n : Nat} (h : ofDigitsIn? b ds = some n) :
    cut .double (ds ++ s) = (cut .double s).map fun x => (ds ++ x.1, x.2) := by
  have hds := exists_hexValue? h
  clear h
  induction ds with
  | nil => simp
  | cons d ds ih =>
    obtain ⟨⟨v, hv⟩, hds⟩ := List.forall_mem_cons.1 hds
    rw [List.cons_append, cut_plain (isPlain_of_hexValue? hv), ih hds, Option.map_map]
    rfl

/-- A string is cut at the quote that ends it. -/
theorem Spells.cut (h : Spells s raw) : cut .double (raw ++ '"' :: rest) = some (raw, rest) := by
  induction h with
  | nil => simp [Quoted.cut, dropPrefix?, Quotes.mark]
  | plain plain _ ih => rw [List.cons_append, cut_plain plain, ih]; rfl
  | @letter l c s raw known _ ih =>
    have hl : l ≠ '\r' := by
      rintro rfl
      simp [jsonEscapes] at known
    rw [List.cons_append, List.cons_append, cut_escape hl, ih]
    rfl
  | @code d₁ d₂ d₃ d₄ c s raw value _ ih =>
    show Quoted.cut .double ('\\' :: 'u' :: ([d₁, d₂, d₃, d₄] ++ (raw ++ '"' :: rest))) = _
    rw [cut_escape (by decide), cut_digits value, ih]
    rfl
  | @pair d₁ d₂ d₃ d₄ e₁ e₂ e₃ e₄ c high low s raw hhigh _ hlow _ _ _ ih =>
    show Quoted.cut .double ('\\' :: 'u' :: ([d₁, d₂, d₃, d₄] ++
      '\\' :: 'u' :: ([e₁, e₂, e₃, e₄] ++ (raw ++ '"' :: rest)))) = _
    rw [cut_escape (by decide), cut_digits hhigh, cut_escape (by decide), cut_digits hlow, ih]
    rfl

/-! ### The characters of a string -/

/-- The code of a character stands for it, whatever follows. -/
theorem chars?_code (l : List (Option Nat)) :
    chars? (some c.toNat :: l) = (chars? l).map (c :: ·) := by
  have hvalid : c.toNat.isValidChar := c.valid
  -- No character is a surrogate, so it does not begin a pair.
  have hnot : ¬(0xD800 ≤ c.toNat ∧ c.toNat < 0xDC00) := by
    rcases hvalid with h | h <;> omega
  have hc : Char.ofNat c.toNat = c := Char.ofNat_toNat c
  rcases l with _ | ⟨_ | low, l⟩
  · simp [chars?, hvalid]
  · simp [chars?, hvalid]
  · rw [chars?, if_neg (by omega), if_pos hvalid, hc]

/-- The codes of two surrogates stand for one character. -/
theorem chars?_pair {high low : Nat} (isHigh : 0xD800 ≤ high ∧ high < 0xDC00)
    (isLow : 0xDC00 ≤ low ∧ low < 0xE000)
    (value : c.toNat = 0x10000 + (high - 0xD800) * 0x400 + (low - 0xDC00))
    (l : List (Option Nat)) : chars? (some high :: some low :: l) = (chars? l).map (c :: ·) := by
  rw [chars?, if_pos ⟨isHigh.1, isHigh.2, isLow.1, isLow.2⟩, ← value, Char.ofNat_toNat]

/-- A character that stands for itself has its own code. -/
theorem codes?_plain (h : isPlain c = true) :
    codes? true (c :: s) = (codes? true s).map (some c.toNat :: ·) := by
  obtain ⟨-, -, slash⟩ := isPlain_iff.1 h
  rw [codes?]
  -- None of the patterns with a backslash fits.
  all_goals intros; exact slash (by assumption)

/-- A letter behind a backslash has the code of the character that it stands for. -/
theorem codes?_letter {l : Char} (known : (l, c) ∈ jsonEscapes) :
    codes? true ('\\' :: l :: s) = (codes? true s).map (some c.toNat :: ·) := by
  simp only [jsonEscapes, List.mem_cons, Prod.mk.injEq, List.not_mem_nil, or_false] at known
  rw [Option.map_eq_bind]
  rcases known with ⟨rfl, rfl⟩ | ⟨rfl, rfl⟩ | ⟨rfl, rfl⟩ | ⟨rfl, rfl⟩ | ⟨rfl, rfl⟩ | ⟨rfl, rfl⟩ |
    ⟨rfl, rfl⟩ | ⟨rfl, rfl⟩ <;> rfl

/-- Four digits behind a backslash and a letter `u` have the code that they spell. -/
theorem codes?_code {d₁ d₂ d₃ d₄ : Char} {n : Nat}
    (value : ofDigitsIn? 16 [d₁, d₂, d₃, d₄] = some n) :
    codes? true ('\\' :: 'u' :: d₁ :: d₂ :: d₃ :: d₄ :: s) =
      (codes? true s).map (some n :: ·) := by
  rw [codes?, if_pos rfl, value, Option.map_eq_bind]
  rfl

/-- A spelling has codes, and these stand for the characters that it spells. -/
theorem Spells.codes (h : Spells s raw) : ∃ l, codes? true raw = some l ∧ chars? l = some s := by
  induction h with
  | nil => exact ⟨[], rfl, rfl⟩
  | @plain c s raw plain _ ih =>
    obtain ⟨l, hl, hs⟩ := ih
    exact ⟨some c.toNat :: l, by rw [codes?_plain plain, hl]; rfl, by rw [chars?_code, hs]; rfl⟩
  | @letter _ c s raw known _ ih =>
    obtain ⟨l, hl, hs⟩ := ih
    exact ⟨some c.toNat :: l, by rw [codes?_letter known, hl]; rfl, by rw [chars?_code, hs]; rfl⟩
  | @code _ _ _ _ c s raw value _ ih =>
    obtain ⟨l, hl, hs⟩ := ih
    exact ⟨some c.toNat :: l, by rw [codes?_code value, hl]; rfl, by rw [chars?_code, hs]; rfl⟩
  | @pair _ _ _ _ _ _ _ _ c high low s raw hhigh isHigh hlow isLow value _ ih =>
    obtain ⟨l, hl, hs⟩ := ih
    refine ⟨some high :: some low :: l, ?_, ?_⟩
    · rw [codes?_code hhigh, codes?_code hlow, hl]
      rfl
    · rw [chars?_pair isHigh isLow value, hs]
      rfl

/-- A string is taken off the front of a text. -/
theorem Spells.shortText (h : Spells s raw) :
    shortText? ('"' :: raw ++ '"' :: rest) = some (String.ofList s, rest) := by
  obtain ⟨l, hl, hs⟩ := h.codes
  have hdrop : dropPrefix? Quotes.double.mark ('"' :: raw ++ '"' :: rest) =
      some (raw ++ '"' :: rest) := rfl
  have htext : text? raw = some (String.ofList s) := by
    rw [text?, hl]
    show String.ofList <$> chars? l = _
    rw [hs]
    rfl
  rw [shortText?, hdrop]
  show (Quoted.cut .double (raw ++ '"' :: rest) >>= _) = _
  rw [h.cut]
  show (text? raw >>= _) = _
  rw [htext]
  rfl

end Quoted

/-! ## Flat objects -/

namespace FlatObject

/-- White space of JSON text. -/
def IsBlank (s : List Char) : Prop := ∀ c ∈ s, c = ' ' ∨ c = '\t' ∨ c = '\n' ∨ c = '\r'

/-- White space may be left out. -/
theorem isBlank_nil : IsBlank [] := by simp [IsBlank]

/-- The ways to write a value that is a string or a null. -/
inductive ValueSpells : Option String → List Char → Prop where
  /-- A null. -/
  | null : ValueSpells none ['n', 'u', 'l', 'l']
  /-- A string. -/
  | string {s raw : List Char} (spells : Quoted.Spells s raw) :
    ValueSpells (some (String.ofList s)) ('"' :: raw ++ ['"'])

/-- The ways to write a member. White space may stand around its name and around its value. -/
inductive MemberSpells : String × Option String → List Char → Prop where
  /-- A name, a colon and a value. -/
  | intro {w₁ w₂ w₃ w₄ s raw text : List Char} {v : Option String} (h₁ : IsBlank w₁)
    (h₂ : IsBlank w₂) (h₃ : IsBlank w₃) (h₄ : IsBlank w₄) (name : Quoted.Spells s raw)
    (value : ValueSpells v text) :
    MemberSpells (String.ofList s, v)
      (w₁ ++ ('"' :: raw ++ '"' :: (w₂ ++ ':' :: (w₃ ++ (text ++ w₄)))))

/-- The ways to write members, with commas between them. -/
inductive MembersSpell : List (String × Option String) → List Char → Prop where
  /-- The last member. -/
  | last {m : String × Option String} {text : List Char} (member : MemberSpells m text) :
    MembersSpell [m] text
  /-- A member with others behind it. -/
  | more {m : String × Option String} {ms : List (String × Option String)} {text rest : List Char}
    (member : MemberSpells m text) (others : MembersSpell ms rest) :
    MembersSpell (m :: ms) (text ++ ',' :: rest)

/-- The text is that of a JSON object with these members. -/
def Spells (members : List (String × Option String)) (text : List Char) : Prop :=
  ∃ w body w', text = w ++ '\x7b' :: (body ++ '\x7d' :: w') ∧ IsBlank w ∧ IsBlank w' ∧
    MembersSpell members body

end FlatObject

end LedgerExport.Ion
