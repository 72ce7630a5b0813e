import LedgerExport.Proofs.JsonGrammar
import LedgerExport.Proofs.Numerals
import LedgerExport.Proofs.OpenContainers

/-!
# JSON values that are no containers are read

`ReadsAs` says what it means for the text of a value to be read wherever a value may stand: in a
document, in a list, or behind a name in a struct (`Awaits`). What follows the value lets it end,
and the reading goes on there (`Settles`).

A value that is no container is read in one step. Its first character decides between a string, a
numeral and a word, and a numeral and a word are cut off at the character that ends them.
-/

namespace LedgerExport

open Text

namespace Ion

open FlatObject (IsBlank isBlank_nil)

/-! ## The values -/

namespace Value

variable {σ : Type}

mutual

/-- The Ion value that a JSON value is, with a symbol for each name of a member. -/
def ofJson (symbol : String → σ) : Json → Value σ
  | .null => .null .null
  | .bool b => .bool b
  | .int n => .int n
  | .decimal coefficient places =>
    .decimal ⟨coefficient < 0, coefficient.natAbs, -(places : Int)⟩
  | .str s => .string s
  | .arr items => .list (ofItems symbol items)
  | .obj members => .struct (ofMembers symbol members)

/-- The Ion values of items. -/
def ofItems (symbol : String → σ) : List Json → List (Value σ)
  | [] => []
  | j :: rest => ofJson symbol j :: ofItems symbol rest

/-- The fields of members. -/
def ofMembers (symbol : String → σ) : List (String × Json) → List (σ × Value σ)
  | [] => []
  | (name, j) :: rest => (symbol name, ofJson symbol j) :: ofMembers symbol rest

end

end Value

variable {size : Nat} {c : Char} {s t w rest rest' : List Char} {up : List Nest}
variable {v : Value SymbolRef} {frame waiting : Frame} {pre : List Char}

/-! ## Around a value -/

/-- White space of JSON is white space of Ion, and starts no comment. -/
theorem isSpace_of_mem (hw : IsBlank w) : ∀ c ∈ w, isSpace c = true ∧ c ≠ '/' := by
  intro c hc
  rcases hw c hc with rfl | rfl | rfl | rfl <;> decide

/-- White space is passed over. -/
theorem skipGap?_append (hw : IsBlank w) : skipGap? (w ++ s) = skipGap? s := by
  have hspace := isSpace_of_mem hw
  clear hw
  induction w with
  | nil => rfl
  | cons a w ih =>
    obtain ⟨⟨ha, hslash⟩, hspace⟩ := List.forall_mem_cons.1 hspace
    rw [List.cons_append, skipGap?, Gap.skip?, if_pos ha]
    · exact ih hspace
    · exact fun _ h _ => hslash h
    · exact fun _ h _ => hslash h

/-- A gap ends at a character that is no white space and that starts no comment. -/
theorem skipGap?_cons (hc : isSpace c = false) (hslash : c ≠ '/') :
    skipGap? (c :: s) = some (c :: s) := by
  rw [skipGap?, Gap.skip?, hc]
  · rfl
  · exact fun _ h _ => hslash h
  · exact fun _ h _ => hslash h

/-- A character that may begin a value or a name. -/
def IsStart (c : Char) : Prop :=
  isSpace c = false ∧ ∀ d ∈ ['/', ',', ']', '\x7d', '$', '\''], c ≠ d

/-- The text ends here, or a character follows that ends a value in JSON. -/
def Ends (s : List Char) : Prop :=
  ∀ c ∈ s.head?, c ∈ [' ', '\t', '\n', '\r', ',', ']', '\x7d']

/-- White space may stand before the end of a value. -/
theorem ends_append (hw : IsBlank w) (h : Ends s) : Ends (w ++ s) := by
  rcases w with _ | ⟨a, w⟩
  · exact h
  · intro c hc
    obtain rfl : a = c := Option.some.inj hc
    rcases hw a List.mem_cons_self with rfl | rfl | rfl | rfl <;> decide

/-- What follows a value belongs to no word and to no numeral. -/
theorem Ends.stops (h : Ends rest) :
    atStop rest = true ∧
      ∀ c ∈ rest.head?, isStop c = true ∧ Word.isNameChar c = false ∧ c ≠ '.' := by
  have hall : ∀ c ∈ [' ', '\t', '\n', '\r', ',', ']', '\x7d'],
      isStop c = true ∧ Word.isNameChar c = false ∧ c ≠ '.' := by
    simp [isStop, isSpace, String.contains_char_eq]
    decide
  refine ⟨?_, fun c hc => hall c (h c hc)⟩
  rcases rest with _ | ⟨c, rest⟩
  · rfl
  · exact (hall c (h c rfl)).1

/-- A part of a text is cut off before the end of a value. -/
theorem cut_ends {p : Char → Bool} (ht : ∀ c ∈ t, p c = true)
    (hrest : ∀ c ∈ rest.head?, p c = false) :
    (t ++ rest).takeWhile p = t ∧ (t ++ rest).dropWhile p = rest :=
  Prod.mk.inj (Option.some.inj (Reading.run_digits ht hrest))

/-- The open container before a value and those around it, what is written before the value, and
the container that waits for it. -/
inductive Awaits : Frame → List Nest → List Char → Frame → Prop where
  /-- A document is in no other container and has nothing before a value. -/
  | document (items : List Item) : Awaits (.document items) [] [] (.document items)
  /-- A list has nothing before a value. -/
  | list (items : List (Value SymbolRef)) (up : List Nest) :
    Awaits (.list items) up [] (.list items)
  /-- A struct has the name of a field and a colon. -/
  | struct {s raw w w' : List Char} (fields : List (SymbolRef × Value SymbolRef))
    (up : List Nest) (name : Quoted.Spells s raw) (h : IsBlank w) (h' : IsBlank w') :
    Awaits (.struct fields none) up ('"' :: raw ++ '"' :: (w ++ ':' :: w'))
      (.struct fields (some (.text (String.ofList s))))

/-- The name of a field in double quotes and a colon are taken. -/
theorem Frame.field?_named {name raw w w' : List Char} {fields : List (SymbolRef × Value SymbolRef)}
    {field : Option SymbolRef} (hname : Quoted.Spells name raw) (hw : IsBlank w) (hw' : IsBlank w')
    (hrest : skipGap? rest = some rest) :
    (Frame.struct fields field).field? ('"' :: raw ++ '"' :: (w ++ ':' :: w') ++ rest) =
      some (.struct fields (some (.text (String.ofList name))), rest) := by
  rw [show '"' :: raw ++ '"' :: (w ++ ':' :: w') ++ rest =
    '"' :: raw ++ '"' :: (w ++ ':' :: (w' ++ rest)) by simp]
  have hfield : Frame.fieldName? ('"' :: raw ++ '"' :: (w ++ ':' :: (w' ++ rest))) =
      some (.text (String.ofList name), w ++ ':' :: (w' ++ rest)) := by
    show (Quoted.shortText? ('"' :: raw ++ '"' :: (w ++ ':' :: (w' ++ rest)))).map _ = _
    rw [hname.shortText]
    rfl
  show (Frame.fieldName? _ >>= _) = _
  rw [hfield]
  show (skipGap? (w ++ ':' :: (w' ++ rest)) >>= _) = _
  rw [skipGap?_append hw, skipGap?_cons (by decide) (by decide)]
  show (skipGap? (w' ++ rest) >>= _) = _
  rw [skipGap?_append hw', hrest]
  rfl

/-- The container with the value that it waits for. -/
def Frame.filled (frame : Frame) (v : Value SymbolRef) : Frame := (frame.put? v).getD frame

namespace Awaits

/-- The container takes the value. -/
theorem put? (h : Awaits frame up pre waiting) :
    (Nest.start waiting).put? v = some (waiting.filled v) := by
  cases h <;> rfl

/-- What follows the value is the same whether the container has taken it or not. -/
theorem settle? (h : Awaits frame up pre waiting) :
    (waiting.filled v).settle? s = waiting.settle? s := by
  cases h <;> rfl

/-- Annotations aside, each of the containers takes any value. -/
theorem literal? (h : Awaits frame up pre waiting) :
    waiting.literal? false s = Literal.next? s := by
  cases h <;> rfl

/-- What is written before the value is taken. -/
theorem field? (h : Awaits frame up pre waiting) (hc : IsStart c) :
    frame.field? (pre ++ c :: s) = some (waiting, c :: s) := by
  cases h with
  | document | list => rfl
  | struct fields up hname hw hw' =>
    exact Frame.field?_named hname hw hw' (skipGap?_cons hc.1 (hc.2 _ (by simp)))

/-- Neither the end of the container nor a version of the format comes before a value. -/
theorem next? (h : Awaits frame up pre waiting) (hc : IsStart c) :
    Progress.next? size (.start frame) up (pre ++ c :: s) =
      Progress.value? size (.start frame) up (pre ++ c :: s) := by
  have hversion {a : Char} {s : List Char} (ha : a ≠ '$') : Progress.version? (a :: s) = none := by
    have hprefix : dropPrefix? "$ion_".toList (a :: s) = none := by
      show (if '$' == a then _ else none) = none
      exact if_neg (by simpa using ha.symm)
    rw [Progress.version?, hprefix]
    rfl
  unfold Progress.next?
  cases h with
  | document items =>
    have hopen : (Frame.document items).closed? (c :: s) = none := rfl
    rw [Nest.start, List.nil_append, hopen, hversion (hc.2 _ (by simp))]
  | list items =>
    have hopen : (Frame.list items).closed? (c :: s) = none := by
      unfold Frame.closed?
      split
      · rename_i h
        exact absurd (List.cons.inj h).1 (hc.2 ']' (by simp))
      all_goals first | cases ‹Frame.list items = _› | rfl
    rw [Nest.start, List.nil_append, hopen]
  | struct => rfl

/-- No gap stands before a value or before its name. -/
theorem skipGap? (h : Awaits frame up pre waiting) (hc : IsStart c) (hw : IsBlank w) :
    Ion.skipGap? (w ++ (pre ++ c :: s)) = some (pre ++ c :: s) := by
  rw [skipGap?_append hw]
  cases h with
  | document | list => exact skipGap?_cons hc.1 (hc.2 _ (by simp))
  | struct => exact skipGap?_cons (by decide) (by decide)

end Awaits

/-- What follows a value lets it end, and is passed over up to where the reading goes on. -/
structure Settles (waiting : Frame) (rest rest' : List Char) : Prop where
  /-- The value ends. -/
  ends : Ends rest
  /-- The reading goes on. -/
  settle : waiting.settle? rest = some rest'
  /-- It goes on with no more than the text that follows. -/
  short : rest'.length ≤ rest.length

/-- Wherever the text stands it is read as the value. -/
structure ReadsAs (v : Value SymbolRef) (t : List Char) : Prop where
  /-- It begins as a value does. -/
  start : ∃ c s, t = c :: s ∧ IsStart c
  /-- It is taken, and the container that waits for a value holds this one. -/
  read : ∀ ⦃size : Nat⦄ ⦃up : List Nest⦄ ⦃frame waiting : Frame⦄ ⦃pre w rest rest' : List Char⦄,
    Awaits frame up pre waiting → IsBlank w → Settles waiting rest rest' →
      itemsWithin? size (.start frame) up (w ++ (pre ++ (t ++ rest))) =
        itemsWithin? size (.start (waiting.filled v)) up rest'

/-! ## Values that are no containers -/

/-- Behind a value of JSON no mark is held back. -/
theorem lastMarks_ofJson (hc : IsStart c) (j : Json) :
    Progress.lastMarks (c :: s) (.ofJson .text j) = [] := by
  cases j with
  | str text =>
    show (if some c == some '\'' then _ else []) = _
    exact if_neg (by simpa using hc.2 '\'' (by simp))
  | _ => rfl

/-- No value of JSON has a fraction of a second. -/
theorem cutsFraction_ofJson (j : Json) :
    Progress.cutsFraction size s (.ofJson .text j) = false := by
  cases j <;> rfl

/-- A text that is taken as a value which is no container is read as that value. -/
theorem readsAs_scalar {j : Json} (hc : IsStart c)
    (hnames : ∀ rest, Ends rest → SymbolRef.annotations (c :: s ++ rest) = ([], c :: s ++ rest))
    (hnext : ∀ rest, Ends rest →
      Literal.next? (c :: s ++ rest) = some (.scalar (.ofJson .text j), rest)) :
    ReadsAs (.ofJson .text j) (c :: s) := by
  refine ⟨⟨c, s, rfl, hc⟩, fun size up frame waiting pre w rest rest' hawaits hw hsettles => ?_⟩
  have hstep : Progress.next? size (.start frame) up (pre ++ (c :: s ++ rest)) =
      some (.more (.start (waiting.filled (.ofJson .text j))) up rest') := by
    have hfield : frame.field? (pre ++ (c :: s ++ rest)) = some (waiting, c :: s ++ rest) :=
      hawaits.field? hc
    have hput : Nest.put? ⟨waiting, []⟩ (.ofJson .text j) =
        some (waiting.filled (.ofJson .text j)) := hawaits.put?
    have hsettle := (hawaits.settle? (v := .ofJson .text j)).trans hsettles.settle
    refine (hawaits.next? hc).trans ?_
    show Progress.value? size (.start frame) up (pre ++ (c :: s ++ rest)) = _
    simp only [Progress.value?, Nest.start, hfield, Option.bind_eq_bind, Option.bind_some,
      hnames rest hsettles.ends, List.isEmpty_nil, Bool.not_true, hawaits.literal?,
      hnext rest hsettles.ends, cutsFraction_ofJson, hput]
    cases hawaits with
    | document items =>
      obtain rfl := Option.some.inj hsettle
      show some (Progress.behind (Progress.lastMarks (c :: s ++ rest) _) _ _ rest) = _
      rw [List.cons_append, lastMarks_ofJson hc]
      cases skipGap? rest <;> rfl
    | list items up =>
      show (do return Progress.more _ _ (← ((Frame.list items).filled _).settle? rest)) = _
      rw [hsettle]
      rfl
    | @struct name _ _ _ fields up =>
      show (do return Progress.more _ _ (← ((Frame.struct fields
        (some (.text (String.ofList name)))).filled _).settle? rest)) = _
      rw [hsettle]
      rfl
  refine itemsWithin?_step (hawaits.skipGap? hc hw) (by simp) hstep ?_
  have hshort := hsettles.short
  simp only [List.length_append, List.length_cons]
  omega

/-- A text that does not begin with a symbol has no annotations. -/
theorem annotations_none (h : SymbolRef.read? s = none) : SymbolRef.annotations s = ([], s) := by
  rw [SymbolRef.annotations, SymbolRef.annotation?, h]
  rfl

/-- The characters of the words and the numerals of JSON. -/
def isLiteralChar (c : Char) : Bool := c.isAlphanum || c == '-' || c == '.'

/-- A character of a word or a numeral is none of those that do not belong to one. -/
theorem ne_of_isLiteralChar {l : List Char} (h : isLiteralChar c = true)
    (hl : l.any isLiteralChar = false) : ∀ d ∈ l, c ≠ d := by
  rintro d hd rfl
  exact List.any_eq_false.1 hl c hd h

/-- A character of a word or a numeral ends none, and it begins a value that is neither quoted nor a
container. -/
theorem isStart_of_literal (h : isLiteralChar c = true) :
    isStop c = false ∧ IsStart c ∧ ∀ d ∈ ['\x7b', '[', '(', '"', '\''], c ≠ d := by
  have hspace : isSpace c = false := by
    have hne := ne_of_isLiteralChar (l := [' ', '\t', '\n', '\r', '\x0b', '\x0c']) h (by decide)
    simpa [isSpace, and_assoc] using hne
  have hmark : ∀ d ∈ "\x7b\x7d[](),\"'".toList, c ≠ d := ne_of_isLiteralChar h (by decide)
  refine ⟨?_, ⟨hspace, ne_of_isLiteralChar h (by decide)⟩, ne_of_isLiteralChar h (by decide)⟩
  rw [isStop, hspace, String.contains_char_eq]
  simpa using hmark

/-- A value that begins with neither a quote nor an opening mark is a numeral, an infinite number, a
word or a symbol. -/
theorem next?_unquoted (hc : ∀ d ∈ ['\x7b', '[', '(', '"', '\''], c ≠ d) :
    Literal.next? (c :: s) =
      (Literal.numeral? (c :: s) <|> Literal.infinity? (c :: s) <|> Word.value? (c :: s) <|>
        (SymbolRef.read? (c :: s)).map fun x => (Value.symbol x.1, x.2)).map
          fun x => (.scalar x.1, x.2) := by
  have hne {d : Char} {more : List Char} (hd : d ∈ ['\x7b', '[', '(', '"', '\'']) :
      c :: s = d :: more → False := fun h => hc d hd (List.cons.inj h).1
  have hscalar : Literal.scalar? (c :: s) =
      (Literal.numeral? (c :: s) <|> Literal.infinity? (c :: s) <|> Word.value? (c :: s) <|>
        (SymbolRef.read? (c :: s)).map fun x => (Value.symbol x.1, x.2)) := by
    rw [Literal.scalar?]
    all_goals exact fun _ => hne (by simp)
  rw [Literal.next?, hscalar]
  all_goals exact fun _ => hne (by simp)

/-- A numeral is cut off before the end of a value. -/
theorem numeral?_ends (ht : ∀ x ∈ t, isLiteralChar x = true) (hends : Ends rest) :
    Literal.numeral? (t ++ rest) = (Numeral.value? t).map (·, rest) := by
  obtain ⟨htake, hdrop⟩ : (t ++ rest).takeWhile (!isStop ·) = t ∧
      (t ++ rest).dropWhile (!isStop ·) = rest :=
    cut_ends (fun x hx => by simp [(isStart_of_literal (ht x hx)).1])
      fun x hx => by simp [(hends.stops.2 x hx).1]
  rw [Literal.numeral?, htake, hdrop]

/-- A value of JSON that begins with a symbol begins with a name. -/
theorem read?_eq (hc : IsStart c) : SymbolRef.read? (c :: s) = SymbolRef.ofName? (c :: s) := by
  have hplace : SymbolRef.ofPlace? (c :: s) = none := by
    rw [SymbolRef.ofPlace?]
    exact fun _ h => hc.2 '$' (by simp) (List.cons.inj h).1
  have hquoted : SymbolRef.ofQuoted? (c :: s) = none := by
    have hprefix : dropPrefix? Quotes.single.mark (c :: s) = none := by
      show (if '\'' == c then _ else none) = none
      exact if_neg (by simpa using (hc.2 '\'' (by simp)).symm)
    rw [SymbolRef.ofQuoted?, hprefix]
    rfl
  rw [SymbolRef.read?, hplace, hquoted]
  cases SymbolRef.ofName? (c :: s) <;> rfl

/-- A character that starts no name starts no symbol of JSON. -/
theorem read?_unnamed (hc : IsStart c) (hname : Word.isNameStart c = false) :
    SymbolRef.read? (c :: s) = none := by
  have hhead : (((c :: s).takeWhile Word.isNameChar).head?.any Word.isNameStart) = false := by
    by_cases hchar : Word.isNameChar c = true
    · rw [List.takeWhile_cons_of_pos hchar]
      exact hname
    · rw [List.takeWhile_cons_of_neg hchar]
      rfl
  rw [read?_eq hc, SymbolRef.ofName?]
  exact if_neg (by simp [hhead])

/-- What does not begin with a symbol has no annotations. -/
theorem annotations_unnamed (hc : IsStart c) (hname : Word.isNameStart c = false) :
    SymbolRef.annotations (c :: s) = ([], c :: s) :=
  annotations_none (read?_unnamed hc hname)

/-- A digit starts no name. -/
theorem isNameStart_of_isDigit (h : c.isDigit = true) : Word.isNameStart c = false := by
  have hn : 48 ≤ c.toNat ∧ c.toNat ≤ 57 := by
    simpa [Char.isDigit, UInt32.le_iff_toNat_le] using h
  have hupper : c.isUpper = false := decide_eq_false fun h => by
    have : 65 ≤ c.toNat := UInt32.le_iff_toNat_le.1 h.1
    omega
  have hlower : c.isLower = false := Bool.and_eq_false_iff.2 <| .inl <| decide_eq_false fun h => by
    have : 97 ≤ c.toNat := UInt32.le_iff_toNat_le.1 h
    omega
  have halpha : c.isAlpha = false := Bool.or_eq_false_iff.2 ⟨hupper, hlower⟩
  have hne : c ≠ '_' ∧ c ≠ '$' := by
    constructor <;> (rintro rfl; cases h)
  simp [Word.isNameStart, halpha, hne]

/-- The digits of a number belong to numerals. -/
theorem isLiteralChar_of_isDigit (h : c.isDigit = true) : isLiteralChar c = true := by
  simp [isLiteralChar, Char.isAlphanum, h]

/-- A numeral begins with a digit or a minus. -/
theorem isLiteralChar_of_numeral (hc : c.isDigit = true ∨ c = '-') : isLiteralChar c = true := by
  rcases hc with hdigit | rfl
  · exact isLiteralChar_of_isDigit hdigit
  · rfl

/-- A numeral of JSON is read as its number. -/
theorem readsAs_numeral {j : Json} (hc : c.isDigit = true ∨ c = '-')
    (hs : ∀ x ∈ s, isLiteralChar x = true)
    (hvalue : Numeral.value? (c :: s) = some (Value.ofJson SymbolRef.text j)) :
    ReadsAs (.ofJson .text j) (c :: s) := by
  have hliteral := isLiteralChar_of_numeral hc
  have hname : Word.isNameStart c = false := by
    rcases hc with hdigit | rfl
    · exact isNameStart_of_isDigit hdigit
    · rfl
  obtain ⟨-, hstart, hquoted⟩ := isStart_of_literal hliteral
  refine readsAs_scalar hstart (fun rest hends => annotations_unnamed hstart hname)
    fun rest hends => ?_
  rw [List.cons_append, next?_unquoted hquoted, ← List.cons_append,
    numeral?_ends (List.forall_mem_cons.2 ⟨hliteral, hs⟩) hends, hvalue]
  rfl

/-- An integer is read as its number. -/
theorem readsAs_int (n : Int) : ReadsAs (.ofJson .text (.int n)) (Json.intText n) := by
  obtain ⟨c, s, htext, hc, hs⟩ : ∃ c s, Json.intText n = c :: s ∧
      (c.isDigit = true ∨ c = '-') ∧ ∀ x ∈ s, isLiteralChar x = true := by
    have hdigits : ∀ x ∈ digits n.natAbs, x.isDigit = true := fun _ => Numeral.isDigit_of_mem_digits
    unfold Json.intText
    split
    · exact ⟨_, _, rfl, .inr rfl, fun x hx => isLiteralChar_of_isDigit (hdigits x hx)⟩
    · obtain ⟨c, s, hs⟩ := List.exists_cons_of_ne_nil
        (show digits n.natAbs ≠ [] from Nat.toDigits_ne_nil)
      rw [hs] at hdigits ⊢
      exact ⟨_, _, rfl, .inl (hdigits c List.mem_cons_self),
        fun x hx => isLiteralChar_of_isDigit (hdigits x (List.mem_cons_of_mem _ hx))⟩
  rw [htext]
  exact readsAs_numeral hc hs (htext ▸ Numeral.value?_intText n)

/-- A number with a point is read as a decimal. -/
theorem readsAs_decimal (n : Int) (places : Nat) :
    ReadsAs (.ofJson .text (.decimal n places)) (Json.decimalText n places) := by
  obtain ⟨c, s, htext, hc, hs⟩ : ∃ c s, Json.decimalText n places = c :: s ∧
      (c.isDigit = true ∨ c = '-') ∧ ∀ x ∈ s, isLiteralChar x = true := by
    obtain ⟨front, fraction, hparts, -, hfront, htext⟩ := Numeral.decimal_parts n.natAbs places
    have hchars : ∀ x ∈ front ++ '.' :: fraction, isLiteralChar x = true := fun x hx => by
      rcases Numeral.mem_decimal hparts hx with hdigit | rfl
      · exact isLiteralChar_of_isDigit hdigit
      · rfl
    rw [Json.decimalText, if_neg (by omega), Int.natAbs_natCast] at htext
    rw [Json.decimalText, htext]
    split
    · exact ⟨_, _, rfl, .inr rfl, hchars⟩
    · obtain ⟨c, s, rfl⟩ : ∃ c s, front = c :: s := by
        rcases hfront with rfl | ⟨hne, -⟩
        · exact ⟨_, _, rfl⟩
        · exact List.exists_cons_of_ne_nil hne
      have hdigit : c.isDigit = true :=
        isDigit_of_mem_paddedDigits (w := places + 1) (n := n.natAbs) (by rw [hparts]; simp)
      exact ⟨c, _, rfl, .inl hdigit, fun x hx => hchars x (List.mem_cons_of_mem _ hx)⟩
  rw [htext]
  exact readsAs_numeral hc hs (htext ▸ Numeral.value?_decimalText n places)

/-- A letter starts no numeral. -/
theorem numeral?_of_isAlpha (h : c.isAlpha = true) :
    (Numeral.value? (c :: s) : Option (Value SymbolRef)) = none := by
  refine Numeral.value?_none ?_ (by rintro rfl; cases h) (by rintro rfl; cases h)
  rcases hdigit : c.isDigit with _ | _
  · rfl
  · have hname := isNameStart_of_isDigit hdigit
    simp [Word.isNameStart, h] at hname

/-- A reserved word of JSON is read as its value. -/
theorem readsAs_word {j : Json} (hword : (c :: s).all Char.isAlpha = true)
    (hinfinity : ∀ rest, Literal.infinity? (c :: s ++ rest) = none)
    (hreserved : Word.reserved? (c :: s) = some (Value.ofJson SymbolRef.text j)) :
    ReadsAs (.ofJson .text j) (c :: s) := by
  have hletters : ∀ x ∈ c :: s, x.isAlpha = true := List.all_eq_true.1 hword
  have hname : ∀ x ∈ c :: s, Word.isNameChar x = true := fun x hx => by
    simp [Word.isNameChar, Word.isNameStart, hletters x hx]
  have hliteral : ∀ x ∈ c :: s, isLiteralChar x = true := fun x hx => by
    simp [isLiteralChar, Char.isAlphanum, hletters x hx]
  obtain ⟨-, hstart, hquoted⟩ := isStart_of_literal (hliteral c List.mem_cons_self)
  have hcut {rest : List Char} (hends : Ends rest) := cut_ends hname
    fun x hx => (hends.stops.2 x hx).2.1
  refine readsAs_scalar hstart (fun rest hends => annotations_none ?_) fun rest hends => ?_
  · refine (read?_eq hstart).trans ?_
    show SymbolRef.ofName? (c :: s ++ rest) = none
    rw [SymbolRef.ofName?, (hcut hends).1, hreserved]
    exact if_neg (by simp)
  · have hvalue : Word.value? (c :: s ++ rest) = some (.ofJson .text j, rest) := by
      rw [Word.value?, (hcut hends).1, (hcut hends).2, hreserved]
      split
      · exact absurd rfl (hends.stops.2 '.' rfl).2.2
      · rename_i hv _
        obtain rfl := Option.some.inj hv
        exact if_pos hends.stops.1
      · rename_i hv
        cases hv
    rw [List.cons_append, next?_unquoted hquoted, ← List.cons_append, numeral?_ends hliteral hends,
      numeral?_of_isAlpha (hletters c List.mem_cons_self), hinfinity, hvalue]
    rfl

/-- A null is read as the null. -/
theorem readsAs_null : ReadsAs (.ofJson .text .null) ['n', 'u', 'l', 'l'] :=
  readsAs_word (by decide) (fun _ => rfl) rfl

/-- A truth value is read as itself. -/
theorem readsAs_bool (b : Bool) :
    ReadsAs (.ofJson .text (.bool b)) (Json.compactChars (.bool b)) := by
  cases b with
  | true =>
    show ReadsAs _ ['t', 'r', 'u', 'e']
    exact readsAs_word (by decide) (fun _ => rfl) rfl
  | false =>
    show ReadsAs _ ['f', 'a', 'l', 's', 'e']
    exact readsAs_word (by decide) (fun _ => rfl) rfl

/-- A string is read as its characters. -/
theorem readsAs_str {raw : List Char} (h : Quoted.Spells s raw) :
    ReadsAs (.ofJson .text (.str (String.ofList s))) ('"' :: (raw ++ ['"'])) := by
  have hstart : IsStart '"' := ⟨by decide, by simp⟩
  refine readsAs_scalar hstart (fun rest hends => annotations_unnamed hstart (by decide))
    fun rest hends => ?_
  rw [List.cons_append, List.append_assoc]
  show (((Quoted.shortText? ('"' :: raw ++ '"' :: rest)).map _).map _) = _
  rw [h.shortText]
  rfl

end Ion

end LedgerExport
