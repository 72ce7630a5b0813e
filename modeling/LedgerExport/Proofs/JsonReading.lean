import LedgerExport.Proofs.JsonScalars

/-!
# JSON text is read as Ion text

`ofBytes?_json` says that a document which is the text of a JSON value is read as the Ion value with
the same parts, however deep they are nested.

The text is read with the open containers on a stack. For a container, one step opens it, what it
holds is read by induction on the spelling, and one step closes it; what the whole does to the
container around it is what a value without parts does (`ReadsAs`). Between the mark that opens a
container and its first part a gap may already be passed over, so that every part is read behind any
white space.
-/

namespace LedgerExport

open Text

namespace Ion

open FlatObject (IsBlank isBlank_nil)

variable {size : Nat} {c : Char} {s t w rest rest' : List Char} {up : List Nest}
variable {v : Value SymbolRef} {frame waiting : Frame} {pre : List Char}

/-! ## Containers -/

/-- The mark that opens a container and the one that closes it. -/
def marks : Container → Char × Char
  | .list => ('[', ']')
  | .sexp => ('(', ')')
  | .struct => ('\x7b', '\x7d')

/-- Between the mark that opens a container and what it holds, white space is passed over or is
left. -/
theorem Awaits.settle_opening (h : Awaits frame up pre waiting) (hw : IsBlank w)
    (hspace : isSpace c = false) (hslash : c ≠ '/') (hcomma : c ≠ ',') :
    ∃ w', IsBlank w' ∧ w'.length ≤ w.length ∧
      (waiting.settle? (w ++ c :: s)).getD (w ++ c :: s) = w' ++ c :: s := by
  have hgap : Ion.skipGap? (w ++ c :: s) = some (c :: s) := by
    rw [skipGap?_append hw, skipGap?_cons hspace hslash]
  -- Where a comma may follow, the gap is passed over if the mark that closes the outer one comes.
  have hcomma (close : Char) : Frame.comma? close (w ++ c :: s) =
      if c = close then some (c :: s) else none := by
    unfold Frame.comma?
    rw [hgap]
    dsimp only [Option.bind_eq_bind, Option.bind_some]
    split
    · rename_i h
      exact absurd (List.cons.inj h).1 hcomma
    · rename_i h
      obtain ⟨rfl, rfl⟩ := List.cons.inj h
      rfl
    · rename_i h
      cases h
  have hleft (close : Char) : ∃ w', IsBlank w' ∧ w'.length ≤ w.length ∧
      (Frame.comma? close (w ++ c :: s)).getD (w ++ c :: s) = w' ++ c :: s := by
    rw [hcomma]
    split
    · exact ⟨[], isBlank_nil, Nat.zero_le _, rfl⟩
    · exact ⟨w, hw, Nat.le_refl _, rfl⟩
  cases h with
  | document => exact ⟨w, hw, Nat.le_refl _, rfl⟩
  | list => exact hleft ']'
  | struct => exact hleft '\x7d'

/-- What a container holds and the mark that closes it are read as the value. -/
def ClosesAs (container : Container) (v : Value SymbolRef) (t : List Char) : Prop :=
  ∀ ⦃size : Nat⦄ ⦃up : List Nest⦄ ⦃frame waiting : Frame⦄ ⦃pre w rest rest' : List Char⦄,
    Awaits frame up pre waiting → IsBlank w → Settles waiting rest rest' →
      itemsWithin? size (.start (.start container)) (.start waiting :: up) (w ++ (t ++ rest)) =
        itemsWithin? size (.start (waiting.filled v)) up rest'

/-- A mark of a container opens it. -/
theorem next?_opening {container : Container} (hw : IsBlank w)
    (hbrace : container = .struct → c ≠ '\x7b') :
    Literal.next? ((marks container).1 :: (w ++ c :: s)) =
      some (.opening container, w ++ c :: s) := by
  cases container with
  | list | sexp => rfl
  | struct =>
    -- Two braces would open something else.
    have hne : ∀ more, w ++ c :: s ≠ '\x7b' :: more := by
      rintro more hmore
      rcases w with _ | ⟨a, w⟩
      · exact hbrace rfl (List.cons.inj hmore).1
      · obtain ⟨rfl, -⟩ := List.cons.inj hmore
        simpa using hw _ List.mem_cons_self
    show Literal.next? ('\x7b' :: (w ++ c :: s)) = _
    rw [Literal.next?]
    exact hne

/-- A container that is opened is read as what is closed. -/
theorem ClosesAs.readsAs {container : Container} {w : List Char} (h : ClosesAs container v (c :: t))
    (hw : IsBlank w) (hspace : isSpace c = false)
    (hslash : c ≠ '/') (hcomma : c ≠ ',') (hbrace : container = .struct → c ≠ '\x7b') :
    ReadsAs v ((marks container).1 :: (w ++ c :: t)) := by
  have hmark : IsStart (marks container).1 ∧ Word.isNameStart (marks container).1 = false := by
    cases container <;> exact ⟨⟨by decide, by simp [marks]⟩, by decide⟩
  refine ⟨⟨_, _, rfl, hmark.1⟩, ?_⟩
  intro size up frame waiting pre w₀ rest rest' hawaits hw₀ hsettles
  obtain ⟨w', hw', hlength, hsettle⟩ :=
    hawaits.settle_opening hw (s := t ++ rest) hspace hslash hcomma
  have hfield := hawaits.field? (s := w ++ c :: (t ++ rest)) hmark.1
  have hstep : Progress.next? size (.start frame) up
      (pre ++ (marks container).1 :: (w ++ c :: (t ++ rest))) =
      some (.more (.start (.start container)) (.start waiting :: up) (w' ++ c :: (t ++ rest))) := by
    refine (hawaits.next? hmark.1).trans ?_
    simp only [Progress.value?, Nest.start, hfield, Option.bind_eq_bind, Option.bind_some,
      annotations_unnamed hmark.1 hmark.2, List.isEmpty_nil, Bool.not_true, hawaits.literal?,
      next?_opening hw hbrace, hsettle]
    rfl
  have hread := @h size up frame waiting pre w' rest rest' hawaits hw' hsettles
  rw [List.cons_append] at hread
  rw [← hread, show (marks container).1 :: (w ++ c :: t) ++ rest =
    (marks container).1 :: (w ++ c :: (t ++ rest)) by simp]
  refine itemsWithin?_step (hawaits.skipGap? hmark.1 hw₀) (by simp) hstep ?_
  simp only [List.length_append, List.length_cons]
  omega

/-- The mark that closes a container gives the container as a value. -/
theorem itemsWithin?_closing {inner : Frame} (hclosed : inner.closed? (c :: rest) = some (v, rest))
    (hspace : isSpace c = false) (hslash : c ≠ '/') (hawaits : Awaits frame up pre waiting)
    (hw : IsBlank w) (hsettles : Settles waiting rest rest') :
    itemsWithin? size (.start inner) (.start waiting :: up) (w ++ c :: rest) =
      itemsWithin? size (.start (waiting.filled v)) up rest' := by
  have hstep : Progress.next? size (.start inner) (.start waiting :: up) (c :: rest) =
      some (.more (.start (waiting.filled v)) up rest') := by
    unfold Progress.next?
    rw [show (Nest.start inner).frame.closed? (c :: rest) = some (v, rest) from hclosed]
    show ((Nest.start waiting).put? v >>= _) = _
    rw [hawaits.put?]
    show ((waiting.filled v).settle? rest >>= _) = _
    rw [hawaits.settle?, hsettles.settle]
    rfl
  refine itemsWithin?_step ?_ (List.cons_ne_nil _ _) hstep ?_
  · rw [skipGap?_append hw, skipGap?_cons hspace hslash]
  · have hshort := hsettles.short
    simp only [List.length_append, List.length_cons]
    omega

/-! ## Nested values -/

/-- The text of items is read as the items of an open list, up to the mark that closes it. -/
structure ItemsRead (items : List Json) (t : List Char) : Prop where
  /-- It begins as a value does. -/
  start : ∃ c s, t = c :: s ∧ IsStart c
  /-- The list holds the items. -/
  read : ∀ ⦃size : Nat⦄ ⦃up : List Nest⦄ ⦃before : List (Value SymbolRef)⦄ ⦃w rest : List Char⦄,
    IsBlank w →
    itemsWithin? size (.start (.list before)) up (w ++ (t ++ ']' :: rest)) =
      itemsWithin? size (.start (.list ((Value.ofItems .text items).reverse ++ before))) up
        (']' :: rest)

/-- The text of members is read as the fields of an open struct, up to the mark that closes it. -/
structure MembersRead (members : List (String × Json)) (t : List Char) : Prop where
  /-- It begins with the quote of a name. -/
  start : ∃ s, t = '"' :: s
  /-- The struct holds the fields. -/
  read : ∀ ⦃size : Nat⦄ ⦃up : List Nest⦄ ⦃before : List (SymbolRef × Value SymbolRef)⦄
    ⦃w rest : List Char⦄, IsBlank w →
    itemsWithin? size (.start (.struct before none)) up (w ++ (t ++ '\x7d' :: rest)) =
      itemsWithin? size
        (.start (.struct ((Value.ofMembers .text members).reverse ++ before) none)) up
        ('\x7d' :: rest)

/-- The text is read as what it spells. -/
def Reads : Json.Piece → List Char → Prop
  | .value j, t => ReadsAs (.ofJson .text j) t
  | .items items, t => ItemsRead items t
  | .members members, t => MembersRead members t

/-- Behind a value in a list or an object, a comma is passed over and the mark that closes the
container is not. -/
theorem settles_of_comma {close : Char} (hw : IsBlank w) (hclose : close = ']' ∨ close = '\x7d')
    (hwaiting : ∀ s, waiting.settle? s = Frame.comma? close s) :
    Settles waiting (w ++ ',' :: rest) rest ∧
      Settles waiting (w ++ close :: rest) (close :: rest) := by
  have hcomma : Frame.comma? close (w ++ ',' :: rest) = some rest := by
    rw [Frame.comma?, skipGap?_append hw, skipGap?_cons (by decide) (by decide)]
    rfl
  have hmark : Frame.comma? close (w ++ close :: rest) = some (close :: rest) := by
    rw [Frame.comma?, skipGap?_append hw]
    rcases hclose with rfl | rfl
    · rw [skipGap?_cons (by decide) (by decide)]
      rfl
    · rw [skipGap?_cons (by decide) (by decide)]
      rfl
  constructor
  · refine ⟨ends_append hw ?_, (hwaiting _).trans hcomma, ?_⟩
    · rintro c hc
      obtain rfl : ',' = c := Option.some.inj hc
      decide
    · simp only [List.length_append, List.length_cons]
      omega
  · refine ⟨ends_append hw ?_, (hwaiting _).trans hmark, ?_⟩
    · rintro c hc
      obtain rfl : close = c := Option.some.inj hc
      rcases hclose with rfl | rfl <;> decide
    · simp only [List.length_append, List.length_cons]
      omega

/-- An item before other text of a list is read. -/
theorem ReadsAs.item {before : List (Value SymbolRef)} (h : ReadsAs v t) (hw : IsBlank w)
    (hrest : Settles (.list before) rest rest') :
    itemsWithin? size (.start (.list before)) up (w ++ (t ++ rest)) =
      itemsWithin? size (.start (.list (v :: before))) up rest' :=
  h.read (.list before up) hw hrest

/-- A member before other text of an object is read. -/
theorem ReadsAs.member {before : List (SymbolRef × Value SymbolRef)} {raw w₁ w₂ : List Char}
    (h : ReadsAs v t) (name : Quoted.Spells s raw) (h₁ : IsBlank w₁) (h₂ : IsBlank w₂)
    (hw : IsBlank w) (hrest : Settles (.struct before (some (.text (.ofList s)))) rest rest') :
    itemsWithin? size (.start (.struct before none)) up
        (w ++ ('"' :: raw ++ '"' :: (w₁ ++ ':' :: w₂) ++ (t ++ rest))) =
      itemsWithin? size (.start (.struct ((.text (.ofList s), v) :: before) none)) up rest' :=
  h.read (.struct before up name h₁ h₂) hw hrest

/-- The mark that closes a list makes an empty one. -/
theorem closesAs_nil : ClosesAs .list (.ofJson .text (.arr [])) [']'] :=
  fun _ _ _ _ _ _ _ _ hawaits hw hsettles =>
    itemsWithin?_closing rfl (by decide) (by decide) hawaits hw hsettles

/-- The mark that closes a struct makes an empty one. -/
theorem closesAs_empty : ClosesAs .struct (.ofJson .text (.obj [])) ['\x7d'] :=
  fun _ _ _ _ _ _ _ _ hawaits hw hsettles =>
    itemsWithin?_closing rfl (by decide) (by decide) hawaits hw hsettles

/-- Items close as a list. -/
theorem ItemsRead.closesAs {items : List Json} (h : ItemsRead items t) :
    ClosesAs .list (.ofJson .text (.arr items)) (t ++ [']']) := by
  intro size up frame waiting pre w rest rest' hawaits hw hsettles
  rw [List.append_assoc]
  show itemsWithin? size (.start (.list [])) _ (w ++ (t ++ ']' :: rest)) = _
  rw [h.read hw, List.append_nil]
  refine itemsWithin?_closing ?_ (by decide) (by decide) hawaits isBlank_nil hsettles
  rw [Frame.closed?, List.reverse_reverse, Value.ofJson]

/-- Members close as a struct. -/
theorem MembersRead.closesAs {members : List (String × Json)} (h : MembersRead members t) :
    ClosesAs .struct (.ofJson .text (.obj members)) (t ++ ['\x7d']) := by
  intro size up frame waiting pre w rest rest' hawaits hw hsettles
  rw [List.append_assoc]
  show itemsWithin? size (.start (.struct [] none)) _ (w ++ (t ++ '\x7d' :: rest)) = _
  rw [h.read hw, List.append_nil]
  refine itemsWithin?_closing ?_ (by decide) (by decide) hawaits isBlank_nil hsettles
  rw [Frame.closed?, List.reverse_reverse, Value.ofJson]

/-- The last item of a list is read. -/
theorem ReadsAs.lastItem {j : Json} (h : ReadsAs (.ofJson .text j) t) (hw : IsBlank w) :
    ItemsRead [j] (t ++ w) := by
  obtain ⟨c, s, rfl, hc⟩ := h.start
  refine ⟨⟨c, s ++ w, rfl, hc⟩, fun size up before w' rest hw' => ?_⟩
  rw [List.append_assoc]
  exact h.item hw' (settles_of_comma hw (.inl rfl) fun _ => rfl).2

/-- An item before others of a list is read. -/
theorem ItemsRead.cons {j : Json} {items : List Json} {w' more : List Char}
    (hitems : ItemsRead items more) (h : ReadsAs (.ofJson .text j) t) (hw : IsBlank w)
    (hw' : IsBlank w') : ItemsRead (j :: items) (t ++ (w ++ ',' :: (w' ++ more))) := by
  obtain ⟨c, s, rfl, hc⟩ := h.start
  refine ⟨⟨c, _, rfl, hc⟩, fun size up before w₀ rest hw₀ => ?_⟩
  have hitem : itemsWithin? size (.start (.list before)) up
        (w₀ ++ (c :: s ++ (w ++ ',' :: (w' ++ (more ++ ']' :: rest))))) =
      itemsWithin? size (.start (.list (.ofJson .text j :: before))) up
        (w' ++ (more ++ ']' :: rest)) :=
    h.item hw₀ (settles_of_comma hw (.inl rfl) fun _ => rfl).1
  rw [show c :: s ++ (w ++ ',' :: (w' ++ more)) ++ ']' :: rest =
    c :: s ++ (w ++ ',' :: (w' ++ (more ++ ']' :: rest))) by simp, hitem, hitems.read hw']
  simp [Value.ofItems]

/-- The last member of a struct is read. -/
theorem ReadsAs.lastMember {j : Json} {raw w₁ w₂ : List Char} (h : ReadsAs (.ofJson .text j) t)
    (name : Quoted.Spells s raw) (h₁ : IsBlank w₁) (h₂ : IsBlank w₂) (hw : IsBlank w) :
    MembersRead [(.ofList s, j)] ('"' :: raw ++ '"' :: (w₁ ++ ':' :: w₂) ++ (t ++ w)) := by
  refine ⟨⟨_, rfl⟩, fun size up before w₀ rest hw₀ => ?_⟩
  rw [List.append_assoc _ (t ++ w), List.append_assoc t,
    h.member name h₁ h₂ hw₀ (settles_of_comma hw (.inr rfl) fun _ => rfl).2]
  rfl

/-- A member before others of a struct is read. -/
theorem MembersRead.cons {j : Json} {members : List (String × Json)} {raw w₁ w₂ w' more : List Char}
    (hmembers : MembersRead members more) (h : ReadsAs (.ofJson .text j) t)
    (name : Quoted.Spells s raw) (h₁ : IsBlank w₁) (h₂ : IsBlank w₂) (hw : IsBlank w)
    (hw' : IsBlank w') :
    MembersRead ((.ofList s, j) :: members)
      ('"' :: raw ++ '"' :: (w₁ ++ ':' :: w₂) ++ (t ++ (w ++ ',' :: (w' ++ more)))) := by
  refine ⟨⟨_, rfl⟩, fun size up before w₀ rest hw₀ => ?_⟩
  have hmember : itemsWithin? size (.start (.struct before none)) up
        (w₀ ++ ('"' :: raw ++ '"' :: (w₁ ++ ':' :: w₂) ++
          (t ++ (w ++ ',' :: (w' ++ (more ++ '\x7d' :: rest)))))) =
      itemsWithin? size (.start (.struct ((.text (.ofList s), .ofJson .text j) :: before) none)) up
        (w' ++ (more ++ '\x7d' :: rest)) :=
    h.member name h₁ h₂ hw₀ (settles_of_comma hw (.inr rfl) fun _ => rfl).1
  rw [show '"' :: raw ++ '"' :: (w₁ ++ ':' :: w₂) ++ (t ++ (w ++ ',' :: (w' ++ more))) ++
    '\x7d' :: rest = '"' :: raw ++ '"' :: (w₁ ++ ':' :: w₂) ++
      (t ++ (w ++ ',' :: (w' ++ (more ++ '\x7d' :: rest)))) by simp, hmember, hmembers.read hw']
  simp [Value.ofMembers]

/-- Items between the marks of a list are read as a list. -/
theorem ItemsRead.readsAs {items : List Json} (h : ItemsRead items t) (hw : IsBlank w) :
    ReadsAs (.ofJson .text (.arr items)) ('[' :: w ++ t ++ [']']) := by
  have hclosed := h.closesAs
  obtain ⟨c, s, rfl, hc⟩ := h.start
  rw [List.append_assoc]
  exact hclosed.readsAs hw hc.1 (hc.2 _ (by simp)) (hc.2 _ (by simp)) (by simp)

/-- Members between the marks of a struct are read as a struct. -/
theorem MembersRead.readsAs {members : List (String × Json)} (h : MembersRead members t)
    (hw : IsBlank w) : ReadsAs (.ofJson .text (.obj members)) ('\x7b' :: w ++ t ++ ['\x7d']) := by
  have hclosed := h.closesAs
  obtain ⟨s, rfl⟩ := h.start
  rw [List.append_assoc]
  exact hclosed.readsAs hw (by decide) (by decide) (by decide) (by decide)

/-- A JSON text is read as what it spells. -/
theorem reads_of_spells {p : Json.Piece} (h : Json.Spells p t) : Reads p t := by
  induction h with
  | null => exact readsAs_null
  | bool b => exact readsAs_bool b
  | int n => exact readsAs_int n
  | decimal coefficient places => exact readsAs_decimal coefficient places
  | str spells => exact readsAs_str spells
  | emptyArr hw => exact closesAs_nil.readsAs hw (by decide) (by decide) (by decide) (by decide)
  | arr hw _ ih => exact ItemsRead.readsAs ih hw
  | emptyObj hw => exact closesAs_empty.readsAs hw (by decide) (by decide) (by decide) (by decide)
  | obj hw _ ih => exact MembersRead.readsAs ih hw
  | lastItem _ hw ih => exact ReadsAs.lastItem ih hw
  | moreItems _ hw hw' _ ih ih' => exact ItemsRead.cons ih' ih hw hw'
  | lastMember name h₁ h₂ _ h₃ ih => exact ReadsAs.lastMember ih name h₁ h₂ h₃
  | moreMembers name h₁ h₂ _ h₃ h₄ _ ih ih' => exact MembersRead.cons ih' ih name h₁ h₂ h₃ h₄

/-! ## Documents -/

/-- The text of a JSON value is read as a document that holds the value. -/
theorem ofText?_json {j : Json} {w w' : List Char} (h : Json.Spells (.value j) t) (hw : IsBlank w)
    (hw' : IsBlank w') :
    ofText? (String.ofList (w ++ (t ++ w'))) = some [.value (.ofJson .text j)] := by
  have hread : ReadsAs (.ofJson .text j) t := reads_of_spells h
  have hend : Ends w' := by
    rw [← List.append_nil w']
    exact ends_append hw' (by simp [Ends])
  have hgap : skipGap? w' = some [] := by
    rw [← List.append_nil w', skipGap?_append hw']
    rfl
  have hvalue (size : Nat) : itemsWithin? size (.start (.document [])) [] (w ++ (t ++ w')) =
      itemsWithin? size (.start (.document [.value (.ofJson .text j)])) [] w' :=
    hread.read (.document []) hw ⟨hend, rfl, Nat.le_refl _⟩
  rw [ofText?, String.toList_ofList, hvalue, itemsWithin?.eq_def, hgap]
  rfl

/-- No text begins with the marker of the binary form. -/
theorem not_binary (s : String) : binaryMarker.isPrefixOf s.toUTF8.data.toList = false := by
  have hbytes : s.toUTF8.data.toList = s.toList.flatMap String.utf8EncodeChar := by
    rw [← String.ofList_toList (s := s)]
    show (String.ofList s.toList).toByteArray.data.toList = _
    rw [String.toByteArray_ofList, List.utf8Encode, List.toList_data_toByteArray,
      String.toList_ofList]
  rw [hbytes, Bool.eq_false_iff]
  intro hmarker
  rw [List.isPrefixOf_iff_prefix] at hmarker
  rcases hchars : s.toList with _ | ⟨c, l⟩ <;> rw [hchars] at hmarker
  · cases List.prefix_nil.1 hmarker
  · rw [List.flatMap_cons] at hmarker
    rcases hchar : String.utf8EncodeChar c with _ | ⟨b, _ | ⟨b', bs⟩⟩
    · exact String.utf8EncodeChar_ne_nil hchar
    · -- The byte of a character of one byte is smaller than the first of the marker.
      have hsize : c.utf8Size = 1 := by rw [← String.length_utf8EncodeChar, hchar]; rfl
      have hsmall : c.val ≤ 127 := Char.utf8Size_eq_one_iff.1 hsize
      rw [String.utf8EncodeChar_eq_singleton hsize] at hmarker
      have hbyte : (0xE0 : UInt8) = c.val.toUInt8 := (List.cons_prefix_cons.1 hmarker).1
      have hvalue : (0xE0 : UInt8).toNat = c.val.toNat % 256 := by rw [hbyte]; rfl
      have hbound : c.val.toNat ≤ 127 := hsmall
      rw [Nat.mod_eq_of_lt (by omega)] at hvalue
      have : (224 : Nat) = c.val.toNat := hvalue
      omega
    · -- The second byte of a longer one could not be a first.
      rw [hchar] at hmarker
      have hbyte : (0x01 : UInt8) = b' :=
        (List.cons_prefix_cons.1 (List.cons_prefix_cons.1 hmarker).2).1
      have hsecond := @UInt8.isUTF8FirstByte_getElem_utf8EncodeChar c 1 (by rw [hchar]; simp)
      simp only [hchar] at hsecond
      have hfirst : b'.IsUTF8FirstByte := hbyte ▸ (by decide : (0x01 : UInt8).IsUTF8FirstByte)
      exact absurd (hsecond.1 hfirst) (by decide)

namespace Value

mutual

/-- The names of a JSON value need no symbol table. -/
theorem traverse_ofJson (table : SymbolTable) :
    ∀ j : Json, (ofJson .text j).traverse table.lookup? = some (ofJson some j)
  | .null | .bool _ | .int _ | .decimal .. | .str _ => rfl
  | .arr items => by
    rw [ofJson, traverse, traverseItems_ofItems table items]
    rfl
  | .obj members => by
    rw [ofJson, traverse, traverseFields_ofMembers table members]
    rfl

/-- The names of items need no symbol table. -/
theorem traverseItems_ofItems (table : SymbolTable) :
    ∀ items : List Json,
      traverseItems table.lookup? (ofItems .text items) = some (ofItems some items)
  | [] => rfl
  | j :: rest => by
    rw [ofItems, traverseItems, traverse_ofJson table j, traverseItems_ofItems table rest]
    rfl

/-- The names of members need no symbol table. -/
theorem traverseFields_ofMembers (table : SymbolTable) :
    ∀ members : List (String × Json),
      traverseFields table.lookup? (ofMembers .text members) = some (ofMembers some members)
  | [] => rfl
  | (name, j) :: rest => by
    rw [ofMembers, traverseFields, traverse_ofJson table j, traverseFields_ofMembers table rest]
    rfl

end

/-- The fields of members one by one. -/
theorem ofMembers_eq_map {σ : Type} (symbol : String → σ) (members : List (String × Json)) :
    ofMembers symbol members = members.map fun m => (symbol m.1, ofJson symbol m.2) := by
  induction members with
  | nil => rfl
  | cons m members ih =>
    rw [List.map_cons, ← ih]
    rfl

end Value

/-- The bytes of the text of a JSON value are read as the value. -/
theorem ofBytes?_json {j : Json} {w w' : List Char} (h : Json.Spells (.value j) t) (hw : IsBlank w)
    (hw' : IsBlank w') :
    Element.ofBytes? (String.ofList (w ++ (t ++ w'))).toUTF8 = some (.ofJson some j) := by
  have htext : String.fromUTF8? (String.ofList (w ++ (t ++ w'))).toUTF8 =
      some (String.ofList (w ++ (t ++ w'))) :=
    dif_pos (String.ofList (w ++ (t ++ w'))).isValidUTF8
  have hitems : items? (String.ofList (w ++ (t ++ w'))).toUTF8 =
      some [.value (.ofJson .text j)] := by
    rw [items?, not_binary, htext]
    exact ofText?_json h hw hw'
  have helements : elements? .system [.value (.ofJson .text j)] = some [.ofJson some j] := by
    have hplain : SymbolTable.definition? (.ofJson .text j) = none := by cases j <;> rfl
    rw [elements?, hplain]
    dsimp only
    rw [Value.traverse_ofJson]
    rfl
  rw [Element.ofBytes?, hitems]
  show (elements? .system [.value (.ofJson .text j)] >>= _) = _
  rw [helements]
  rfl

end Ion

end LedgerExport
