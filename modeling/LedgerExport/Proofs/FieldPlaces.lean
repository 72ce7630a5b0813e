import LedgerExport.Proofs.JsonReading
import LedgerExport.Proofs.OpenContainers

/-!
# Places of field values

A place is where the value of a field stands in a struct of a document. `Place.Follows` says of the
text in front of it that the reading comes there, whatever string or numeral is next, and
`Place.reads_or_fails` says that nothing else in the document depends on the value that stands at
the place.

The reader gives up where a chunk of the document ends in front of a fraction of a second. What it
reads otherwise is the same as for a document that comes in one piece (`itemsWithin?_eq_or`).
-/

namespace LedgerExport.Ion

open FlatObject (IsBlank isBlank_nil)

variable {size : Nat} {s t u rest before behind : List Char} {n : Nest} {up : List Nest}
  {v : Value SymbolRef} {items : List Item}

/-! ## Documents in one piece -/

/-- The items of a text that comes in one piece. -/
def inOnePiece? (s : List Char) : Option (List Item) := itemsWithin? 0 (.start (.document [])) [] s

/-- The text is read as if it came in one piece: no chunk of it ends in front of a fraction. -/
def Unbroken (s : List Char) : Prop := ofText? (.ofList s) = inOnePiece? s

/-- No chunk ends within the first one. -/
theorem Chunk.firstSize_le_nextEnd (n : Nat) : firstSize ≤ nextEnd n := by
  rw [nextEnd]
  exact Nat.le_add_right _ _

namespace Progress

/-- Only in a long document a fraction is cut. -/
theorem long_of_cutsFraction (h : cutsFraction size s v = true) : Chunk.firstSize ≤ size + 20 := by
  unfold cutsFraction at h
  split at h
  · have hend : Chunk.nextEnd (size - (String.ofList s).utf8ByteSize + 20) =
        size - (String.ofList s).utf8ByteSize + 20 := beq_iff_eq.1 h
    calc Chunk.firstSize
        ≤ Chunk.nextEnd (size - (String.ofList s).utf8ByteSize + 20) :=
          Chunk.firstSize_le_nextEnd _
      _ = size - (String.ofList s).utf8ByteSize + 20 := hend
      _ ≤ size + 20 := Nat.add_le_add_right (Nat.sub_le _ _) 20
  · cases h

/-- In one piece no fraction is cut. -/
theorem cutsFraction_zero (s : List Char) (v : Value SymbolRef) : cutsFraction 0 s v = false :=
  Bool.eq_false_iff.2 fun h => absurd (long_of_cutsFraction h) (by decide)

/-- A value is read as in one piece, or it is refused in a long document. -/
theorem value?_eq_or (size : Nat) (n : Nest) (up : List Nest) (t : List Char) :
    value? size n up t = value? 0 n up t ∨
      (Chunk.firstSize ≤ size + 20 ∧ value? size n up t = none) := by
  unfold value?
  rcases n.frame.field? t with _ | ⟨frame, u⟩
  · exact .inl (by simp)
  rcases hnames : SymbolRef.annotations u with ⟨names, w⟩
  rcases hliteral : frame.literal? (!names.isEmpty) w with _ | ⟨v | container, rest⟩
  · exact .inl (by simp [hnames, hliteral])
  · by_cases hcut : cutsFraction size w v = true
    · exact .inr ⟨long_of_cutsFraction hcut, by simp [hnames, hliteral, hcut]⟩
    · exact .inl (by simp [hnames, hliteral, hcut, cutsFraction_zero])
  · exact .inl (by simp [hnames, hliteral])

/-- A value or a mark is read as in one piece, or it is refused in a long document. -/
theorem next?_eq_or (size : Nat) (n : Nest) (up : List Nest) (t : List Char) :
    next? size n up t = next? 0 n up t ∨
      (Chunk.firstSize ≤ size + 20 ∧ next? size n up t = none) := by
  unfold next?
  rcases n.frame.closed? t with _ | ⟨v, rest⟩
  · dsimp only
    split
    · exact .inl rfl
    · exact value?_eq_or size n up t
  · cases up <;> exact .inl rfl

end Progress

/-- A document is read as in one piece, or it is long and the reading fails. -/
theorem itemsWithin?_eq_or (size : Nat) (n : Nest) (up : List Nest) (s : List Char) :
    itemsWithin? size n up s = itemsWithin? 0 n up s ∨
      (Chunk.firstSize ≤ size + 20 ∧ itemsWithin? size n up s = none) := by
  induction hlength : s.length using Nat.strongRecOn generalizing n up s with
  | ind length ih =>
    subst hlength
    rcases hgap : skipGap? s with _ | t
    · rw [itemsWithin?.eq_def size, itemsWithin?.eq_def 0, hgap]
      exact .inl rfl
    by_cases ht : t = []
    · rw [itemsWithin?.eq_def size, itemsWithin?.eq_def 0, hgap, ht]
      exact .inl rfl
    rcases Progress.next?_eq_or size n up t with heq | ⟨hlong, hnone⟩
    · rw [itemsWithin?_next hgap ht, itemsWithin?_next hgap ht, heq]
      rcases Progress.next? 0 n up t with _ | ⟨n', up', rest⟩ | items
      · exact .inl rfl
      · by_cases hshort : rest.length < s.length
        · simp only [if_pos hshort]
          exact ih rest.length hshort n' up' rest rfl
        · simp [if_neg hshort]
      · exact .inl rfl
    · exact .inr ⟨hlong, itemsWithin?_refused hgap ht hnone⟩

/-- What is read of a document is read of it in one piece. -/
theorem inOnePiece?_of_ofText? (h : ofText? (.ofList s) = some items) :
    inOnePiece? s = some items := by
  rw [ofText?, String.toList_ofList] at h
  rcases itemsWithin?_eq_or (String.ofList s).utf8ByteSize (.start (.document [])) [] s with
    heq | ⟨-, hnone⟩
  · exact heq.symm.trans h
  · rw [hnone] at h
    cases h

/-- A short text is read as if it came in one piece. -/
theorem unbroken_of_short (h : (String.ofList s).utf8ByteSize + 20 < Chunk.firstSize) :
    Unbroken s := by
  rw [Unbroken, ofText?, String.toList_ofList]
  rcases itemsWithin?_eq_or (String.ofList s).utf8ByteSize (.start (.document [])) [] s with
    heq | ⟨hlong, -⟩
  · exact heq
  · omega

/-! ## Places -/

/-- A text that begins with a string or a digit. -/
def opensValue : List Char → Bool
  | '\'' :: '\'' :: '\'' :: _ | '"' :: _ => true
  | c :: _ => c.isDigit
  | [] => false

/-- A numeral without a sign begins with a digit. -/
theorem opensValue_of_isDigit {c : Char} (h : c.isDigit = true) : opensValue (c :: s) = true := by
  unfold opensValue
  split
  · rfl
  · rfl
  · rename_i heq
    rwa [← (List.cons.inj heq).1]
  · contradiction

/-- The text `w`, which begins as a string or a numeral, is read as the value, up to what is behind
it. -/
structure Writes (w behind : List Char) (v : Value SymbolRef) : Prop where
  /-- There is a text. -/
  nonempty : w ≠ []
  /-- It begins as a string or a numeral. -/
  opens : opensValue (w ++ behind) = true
  /-- It is read as the value. -/
  read : Literal.next? (w ++ behind) = some (.scalar v, behind)

/-- A spelling in double quotes is a string. -/
theorem writes_quoted {raw : List Char} (h : Quoted.Spells s raw) (behind : List Char) :
    Writes ('"' :: raw ++ ['"']) behind (.string (.ofList s)) := by
  refine ⟨by simp, rfl, ?_⟩
  rw [List.append_assoc]
  show (((Quoted.shortText? ('"' :: raw ++ '"' :: behind)).map _).map _) = _
  rw [h.shortText]
  rfl

/-- Where the value of a field stands in a struct of a document. -/
structure Place where
  /-- The items of the document so far, the last one first. -/
  items : List Item
  /-- The annotations of the struct. -/
  names : List SymbolRef
  /-- The fields of the struct so far, the last one first. -/
  earlier : List (SymbolRef × Value SymbolRef)
  /-- The name of the field. -/
  name : SymbolRef
  /-- The annotations of its value. -/
  marks : List SymbolRef

namespace Place

variable {place : Place}

/-- The place follows the text: whatever string or numeral is next, what is read of the document is
what is read within the struct from some text on, and of that text the name of the field and the
annotations of its value are taken off the front. -/
def Follows (place : Place) (before : List Char) : Prop :=
  ∀ rest, opensValue rest = true → ∃ s t u, rest <:+ s ∧
    inOnePiece? (before ++ rest) = itemsWithin? 0 (.start (.struct place.earlier none))
      [⟨.document place.items, place.names⟩] s ∧
    skipGap? s = some t ∧
    (Frame.struct place.earlier none).field? t = some (.struct place.earlier (some place.name), u) ∧
    SymbolRef.annotations u = (place.marks, rest)

/-- The items of a document with a value at the place, more fields behind it and later items. -/
def filled (place : Place) (more : List (SymbolRef × Value SymbolRef)) (later : List Item)
    (v : Value SymbolRef) : List Item :=
  place.items.reverse ++ .value ((Value.struct (place.earlier.reverse ++
    (place.name, v.withAnnotations place.marks) :: more)).withAnnotations place.names) :: later

/-- Where the name of a field can be read a struct is neither closed nor at its end. -/
theorem open_of_field? {fields : List (SymbolRef × Value SymbolRef)} {x : Frame × List Char}
    (h : (Frame.struct fields none).field? t = some x) :
    t ≠ [] ∧ (Frame.struct fields none).closed? t = none := by
  refine ⟨?_, ?_⟩
  · rintro rfl
    cases h
  · rcases closed?_struct t with ⟨rest, rfl⟩ | hopen
    · cases h
    · exact hopen fields

/-- How the reading goes on in the struct when the text behind a value of it is settled. -/
def goesOn (place : Place) (behind : List Char) (v : Value SymbolRef) : Option (List Item) := do
  let rest ← Frame.comma? '\x7d' behind
  itemsWithin? 0 (.start (.struct ((place.name, v.withAnnotations place.marks) :: place.earlier)
    none)) [⟨.document place.items, place.names⟩] rest

/-- What stands at a place is read as a value of the struct. -/
theorem Follows.inOnePiece?_scalar {w : List Char} (h : place.Follows before)
    (hw : Writes w behind v) :
    inOnePiece? (before ++ (w ++ behind)) = place.goesOn behind v := by
  obtain ⟨hw, hopens, hnext⟩ := hw
  obtain ⟨s, t, u, hsuffix, hcomes, hgap, hfield, hnames⟩ := h _ hopens
  obtain ⟨ht, hopen⟩ := open_of_field? hfield
  have hinner : (Nest.start (.struct place.earlier none)).frame.IsInner := nofun
  have hvalue : Progress.next? 0 (.start (.struct place.earlier none))
      [⟨.document place.items, place.names⟩] t = (Frame.comma? '\x7d' behind).map fun rest =>
        .more (.start (.struct ((place.name, v.withAnnotations place.marks) :: place.earlier) none))
          [⟨.document place.items, place.names⟩] rest := by
    rw [next?_value hinner hopen]
    unfold Progress.value?
    simp only [Nest.start, hfield, Option.bind_eq_bind, Option.bind_some, hnames, Frame.literal?,
      hnext, Progress.cutsFraction_zero, Nest.put?, Frame.put?, Frame.settle?]
    cases Frame.comma? '\x7d' behind <;> rfl
  rw [hcomes, goesOn]
  rcases hcomma : Frame.comma? '\x7d' behind with _ | rest
  · exact itemsWithin?_refused hgap ht (hvalue.trans (by rw [hcomma]; rfl))
  · have hsettle : (Frame.struct place.earlier none).settle? behind = some rest := hcomma
    have hshort := Frame.length_settle? hsettle
    refine itemsWithin?_step hgap ht (hvalue.trans (by rw [hcomma]; rfl)) ?_
    have hlength := List.length_pos_iff.2 hw
    have hle := hsuffix.length_le
    rw [List.length_append] at hle
    omega

/-- Where no value can be read at a place the reading fails. -/
theorem Follows.inOnePiece?_none (h : place.Follows before) (hopens : opensValue rest = true)
    (hnext : Literal.next? rest = none) : inOnePiece? (before ++ rest) = none := by
  obtain ⟨s, t, u, -, hcomes, hgap, hfield, hnames⟩ := h _ hopens
  obtain ⟨ht, hopen⟩ := open_of_field? hfield
  have hinner : (Nest.start (.struct place.earlier none)).frame.IsInner := nofun
  rw [hcomes]
  refine itemsWithin?_refused hgap ht ?_
  rw [next?_value hinner hopen]
  unfold Progress.value?
  simp [Nest.start, hfield, hnames, Frame.literal?, hnext]

/-- The text behind a place decides whether the reading fails, and otherwise what else there is in
the document, whatever value stands at the place. -/
theorem reads_or_fails (place : Place) (behind : List Char) :
    (∀ v, place.goesOn behind v = none) ∨
      ∃ more later, ∀ v, place.goesOn behind v = some (place.filled more later v) := by
  rcases hcomma : Frame.comma? '\x7d' behind with _ | rest
  · exact .inl fun v => by rw [goesOn, hcomma]; rfl
  have hgoes (v : Value SymbolRef) := show place.goesOn behind v = itemsWithin? 0 (.start (.struct
      ((place.name, v.withAnnotations place.marks) :: place.earlier) none))
      [⟨.document place.items, place.names⟩] rest by rw [goesOn, hcomma]; rfl
  rcases fields_follow 0 place.names rest with hfails | ⟨more, later, hfollow⟩
  · exact .inl fun v => (hgoes v).trans (hfails _ _)
  · refine .inr ⟨more, later, fun v => (hgoes v).trans ((hfollow _ _).trans ?_)⟩
    rw [filled, List.reverse_cons, List.append_assoc]
    rfl

end Place

/-! ## Places in objects -/

/-- Before a string or a numeral there is no gap. -/
theorem skipGap?_opensValue (h : opensValue s = true) : skipGap? s = some s := by
  unfold opensValue at h
  split at h
  · exact skipGap?_cons (by decide) (by decide)
  · exact skipGap?_cons (by decide) (by decide)
  · obtain ⟨-, hstart, -⟩ := isStart_of_literal (isLiteralChar_of_isDigit h)
    exact skipGap?_cons hstart.1 (hstart.2 _ (by simp))
  · rfl

/-- A string or a numeral has no annotations in it. -/
theorem annotations_opensValue (h : opensValue s = true) : SymbolRef.annotations s = ([], s) := by
  unfold opensValue at h
  split at h
  · -- The first two quotes could be a symbol without characters, but a quote and no colon follows.
    rw [SymbolRef.annotations]
    rfl
  · exact annotations_unnamed ⟨by decide, by simp⟩ (by decide)
  · obtain ⟨-, hstart, -⟩ := isStart_of_literal (isLiteralChar_of_isDigit h)
    exact annotations_unnamed hstart (isNameStart_of_isDigit h)
  · cases h

/-- Behind the text a struct of a document is open, with some fields so far, if the name of another
one is next. -/
def IsOpen (before : List Char) (earlier : List (SymbolRef × Value SymbolRef)) : Prop :=
  ∀ w s, IsBlank w → inOnePiece? (before ++ (w ++ '"' :: s)) =
    itemsWithin? 0 (.start (.struct earlier none)) [.start (.document [])] (w ++ '"' :: s)

/-- A brace opens a struct. -/
theorem isOpen_brace : IsOpen ['\x7b'] [] := by
  intro w s hw
  have hawaits : Awaits (.document []) [] [] (.document []) := .document []
  have hmark : IsStart '\x7b' := ⟨by decide, by simp⟩
  have hnext : Literal.next? ('\x7b' :: (w ++ '"' :: s)) = some (.opening .struct, w ++ '"' :: s) :=
    show Literal.next? ((marks .struct).1 :: (w ++ '"' :: s)) = _ from next?_opening hw (by simp)
  have hstep : Progress.next? 0 (.start (.document [])) [] ('\x7b' :: (w ++ '"' :: s)) =
      some (.more (.start (.start .struct)) [.start (.document [])] (w ++ '"' :: s)) := by
    refine (hawaits.next? hmark).trans ?_
    simp only [Progress.value?, Nest.start, Frame.field?, List.nil_append, Option.bind_eq_bind,
      Option.bind_some, annotations_unnamed hmark (by decide), List.isEmpty_nil, Bool.not_true,
      hawaits.literal?, hnext]
    rfl
  exact itemsWithin?_step (hawaits.skipGap? hmark isBlank_nil) (by simp) hstep (by simp)

/-- A member with a comma behind it is one more field. -/
theorem IsOpen.member {earlier : List (SymbolRef × Value SymbolRef)} {raw w w₁ w₂ w₃ : List Char}
    (h : IsOpen before earlier) (hv : ReadsAs v t) (name : Quoted.Spells s raw) (hw : IsBlank w)
    (h₁ : IsBlank w₁) (h₂ : IsBlank w₂) (h₃ : IsBlank w₃) :
    IsOpen (before ++ (w ++ ('"' :: raw ++ '"' :: (w₁ ++ ':' :: w₂) ++ (t ++ (w₃ ++ [','])))))
      ((.text (.ofList s), v) :: earlier) := by
  intro w' s' hw'
  have hopen :=
    h w (raw ++ '"' :: (w₁ ++ ':' :: (w₂ ++ (t ++ (w₃ ++ ',' :: (w' ++ '"' :: s')))))) hw
  have hmember : itemsWithin? 0 (.start (.struct earlier none)) [.start (.document [])]
      (w ++ ('"' :: raw ++ '"' :: (w₁ ++ ':' :: w₂) ++ (t ++ (w₃ ++ ',' :: (w' ++ '"' :: s'))))) =
        itemsWithin? 0 (.start (.struct ((.text (.ofList s), v) :: earlier) none))
          [.start (.document [])] (w' ++ '"' :: s') :=
    hv.member name h₁ h₂ hw (settles_of_comma h₃ (.inr rfl) fun _ => rfl).1
  simp only [List.append_assoc, List.cons_append, List.nil_append] at hmember ⊢
  exact hopen.trans hmember

/-- Behind the name of a member and its colon there is the place of a value. -/
theorem IsOpen.follows {earlier : List (SymbolRef × Value SymbolRef)} {raw w w₁ w₂ : List Char}
    (h : IsOpen before earlier) (name : Quoted.Spells s raw) (hw : IsBlank w) (h₁ : IsBlank w₁)
    (h₂ : IsBlank w₂) :
    Place.Follows ⟨[], [], earlier, .text (.ofList s), []⟩
      (before ++ (w ++ ('"' :: raw ++ '"' :: (w₁ ++ ':' :: w₂)))) := by
  intro rest hrest
  refine ⟨w ++ ('"' :: raw ++ '"' :: (w₁ ++ ':' :: w₂)) ++ rest,
    '"' :: raw ++ '"' :: (w₁ ++ ':' :: w₂) ++ rest, rest, List.suffix_append _ _, ?_, ?_, ?_,
    annotations_opensValue hrest⟩
  · have hopen := h w (raw ++ '"' :: (w₁ ++ ':' :: (w₂ ++ rest))) hw
    simp only [List.append_assoc, List.cons_append] at hopen ⊢
    exact hopen
  · rw [List.append_assoc, skipGap?_append hw]
    exact skipGap?_cons (by decide) (by decide)
  · exact Frame.field?_named name h₁ h₂ (skipGap?_opensValue hrest)

end LedgerExport.Ion
